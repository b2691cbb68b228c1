import Criterion.Main
import Criterion.Expr.Draft
import Criterion.Proofs.Expr.CallBudget
import Criterion.Proofs.Expr.Inlining
import Criterion.Proofs.Expr.Printing
import Criterion.Proofs.Expr.Reading
import Criterion.Proofs.Expr.RoundTrip
import Criterion.Proofs.Expr.UniqueText
import Criterion.Proofs.Rule.Kind
import Criterion.Proofs.Rule.Outcome
import Criterion.Proofs.Rule.RaisedLimits
import Criterion.Proofs.Rule.Reserved
import Criterion.Proofs.Rule.Spacing
import Criterion.Proofs.Session.History
import Criterion.Proofs.Token.Joined
import Criterion.Proofs.Binary64.Distance
import Criterion.Proofs.Binary64.Order
import Criterion.Proofs.Value.Equality
import Criterion.Proofs.Value.Integers
import Criterion.Proofs.Binary64.SignedText
import Criterion.Proofs.CommandLine.Binding
import Criterion.Proofs.Binary64.Remainder
import Criterion.Proofs.Expr.Laws
import Criterion.Proofs.Failure.Marker
import Criterion.Proofs.Limits.Resolution
import Criterion.Proofs.Limits.Section
import Criterion.Proofs.Rule.Disclosure
import Criterion.Proofs.Value.Boundary
import Criterion.Proofs.CommandLine.Evaluation
