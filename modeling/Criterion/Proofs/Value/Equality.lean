import Criterion.Proofs.Binary64.Comparison
import Criterion.Proofs.Expr.Laws
import Criterion.Proofs.Rule.RaisedLimits
import Criterion.Proofs.Value.Boundary

/-!
# Values as equals

Two values are equal if they are one value, or if both are zeros: a result that is no number is the
same value as another such result, though as doubles they do not compare equal. This is an
equivalence, and a hash that is put together from hashes of what values hold respects it. Strict
equality in an expression is the same relation but for what is no number, which it tells apart even
from itself.
-/

namespace Criterion

namespace Value

/-- A value is a number that is one of the two zeros. -/
def IsZero : Value → Prop
  | number x => (x == Binary64.zero false) = true
  | boolean _ => False

/-- Whether a value is a double that is no number. -/
def isNan : Value → Bool
  | number x => Binary64.isNan x
  | boolean _ => false

/-- A hash of values that is put together from hashes of what they hold. All that is no number has
one hash, given in advance; all other doubles are hashed as they are, and so are truth values. -/
def hashOf {α : Type} (ofNan : α) (ofNumber : Float → α) (ofTruth : Bool → α) : Value → α
  | number x => if Binary64.isNan x then ofNan else ofNumber x
  | boolean b => ofTruth b

/-- The hash of a double that is a number. -/
def hashOfNumber (x : Float) : UInt64 :=
  if x == Binary64.zero false then 1 else mixHash 2 x.toBits

/-- A hash of doubles does not tell apart what compares equal. -/
def Respects {α : Type} (ofNumber : Float → α) : Prop :=
  ∀ x y : Float, (x == y) = true → ofNumber x = ofNumber y

variable {u v w : Value}

/-! ## Equality -/

/-- Equal values are one value or two zeros. -/
theorem beq_iff : (v == w) = true ↔ v = w ∨ v.IsZero ∧ w.IsZero := by
  change v.equal w = true ↔ _
  cases v with
  | number x =>
    cases w with
    | number y =>
      rw [equal, Bool.or_eq_true, Bool.and_eq_true, Binary64.beq_iff, number.injEq]
      constructor
      · rintro (⟨hx, hy⟩ | ⟨_, h⟩)
        · rw [Binary64.isNan_iff] at hx hy
          exact .inl ((Binary64.eq_nan hx).trans (Binary64.eq_nan hy).symm)
        · exact h
      · rintro (rfl | ⟨hx, hy⟩)
        · cases hnan : Binary64.isNan x with
          | true => exact .inl ⟨rfl, rfl⟩
          | false => exact .inr ⟨rfl, .inl rfl⟩
        · exact .inr ⟨Binary64.isNan_of_beq_zero hx, .inr ⟨hx, hy⟩⟩
    | boolean b => simp [equal, IsZero]
  | boolean a =>
    cases w with
    | number y => simp [equal, IsZero]
    | boolean b => simp [equal, IsZero]

/-- Equality of values is an equivalence. -/
instance : EquivBEq Value where
  rfl := beq_iff.2 (.inl rfl)
  symm h := by
    rcases beq_iff.1 h with rfl | ⟨hv, hw⟩
    · exact h
    · exact beq_iff.2 (.inr ⟨hw, hv⟩)
  trans h h' := by
    rcases beq_iff.1 h with rfl | ⟨hu, hv⟩
    · exact h'
    · rcases beq_iff.1 h' with rfl | ⟨_, hw⟩
      · exact h
      · exact beq_iff.2 (.inr ⟨hu, hw⟩)

/-! ## Hashes -/

/-- A hash that is put together from others respects equality if that of doubles respects how they
compare. -/
theorem hashOf_eq {α : Type} {ofNan : α} {ofNumber : Float → α} {ofTruth : Bool → α}
    (hrespects : Respects ofNumber) (h : (v == w) = true) :
    v.hashOf ofNan ofNumber ofTruth = w.hashOf ofNan ofNumber ofTruth := by
  rcases beq_iff.1 h with rfl | ⟨hv, hw⟩
  · rfl
  · cases v with
    | boolean a => contradiction
    | number x =>
      cases w with
      | boolean b => contradiction
      | number y =>
        rw [hashOf, hashOf, Binary64.isNan_of_beq_zero hv, Binary64.isNan_of_beq_zero hw]
        exact hrespects x y (Binary64.beq_of_zeros hv hw)

/-- The hash of a double respects how doubles compare, since the zeros are set apart. -/
theorem respects_hashOfNumber : Respects hashOfNumber := by
  intro x y h
  rcases (Binary64.beq_iff.1 h).2 with rfl | ⟨hx, hy⟩
  · rfl
  · rw [hashOfNumber, hashOfNumber, if_pos hx, if_pos hy]

theorem hash_eq_hashOf (v : Value) :
    hash v = v.hashOf 0 hashOfNumber (fun b => mixHash 3 (if b then 1 else 0)) := by
  cases v <;> rfl

/-- Equal values have one hash. -/
instance : LawfulHashable Value where
  hash_eq v w h := by rw [hash_eq_hashOf, hash_eq_hashOf, hashOf_eq respects_hashOfNumber h]

/-- The set of two values has one member if they are equal. -/
theorem distinct_eq_one_iff : v.distinct w = 1 ↔ (v == w) = true := by
  rw [distinct]
  split
  · rename_i h
    exact iff_of_true rfl (Bool.and_eq_true_iff.1 h).2
  · rename_i h
    refine iff_of_false (by decide) fun hequal => h ?_
    rw [hequal, hash_eq hequal, beq_self_eq_true, Bool.and_true]

/-! ## Strict equality -/

/-- Values are strictly equal if they are equal and the first is not without a number. -/
theorem identical_eq (v w : Value) : v.identical w = ((v == w) && !v.isNan) := by
  cases v with
  | number x =>
    cases w with
    | number y =>
      change (x == y) = ((Binary64.isNan x && Binary64.isNan y || x == y) && !Binary64.isNan x)
      cases hnan : Binary64.isNan x with
      | false => simp
      | true =>
        have hne : (x == y) = false := by
          rw [Bool.eq_false_iff]
          intro h
          rw [(Binary64.beq_iff.1 h).1] at hnan
          cases hnan
        simp [hne]
    | boolean b => rfl
  | boolean a =>
    cases w with
    | number y => rfl
    | boolean b => simp [identical, isNan, BEq.beq, equal]

/-- What is no number is equal to what is no number, and to nothing else. -/
theorem beq_iff_of_isNan (h : v.isNan = true) : (v == w) = true ↔ w.isNan = true := by
  constructor
  · intro hequal
    rcases beq_iff.1 hequal with rfl | ⟨hv, _⟩
    · exact h
    · cases v with
      | boolean a => contradiction
      | number x =>
        rw [isNan, Binary64.isNan_of_beq_zero hv] at h
        cases h
  · intro hw
    cases v with
    | boolean a => contradiction
    | number x =>
      cases w with
      | boolean b => contradiction
      | number y =>
        have hx : Binary64.isNan x = true := h
        have hy : Binary64.isNan y = true := hw
        change (Binary64.isNan x && Binary64.isNan y || x == y) = true
        rw [hx, hy, Bool.and_true, Bool.true_or]

/-- Equality and strict equality differ on values without a number only. -/
theorem identical_ne_iff (v w : Value) :
    v.identical w ≠ (v == w) ↔ v.isNan = true ∧ w.isNan = true := by
  rw [identical_eq]
  cases hnan : v.isNan with
  | false => simp
  | true => simp [← beq_iff_of_isNan hnan]

end Value

/-! ## Strict equality of two variables -/

variable {limits : Limits} {supplied : Datum} {env : Environment} {v w : Value}

/-- The strict comparison of two variables is parsed under all limits that leave room for its
characters. -/
theorem Expr.parse_strict (hlength : "a === b".length ≤ limits.maxLength) :
    Expr.parse limits "a === b" = .ok (.binary .identical (.ident "a") (.ident "b")) := by
  obtain ⟨least, hleastLength, hleastDepth, hleast⟩ : ∃ least : Limits,
      least.maxLength = "a === b".length ∧ least.maxDepth = 1 ∧
        Expr.parse least "a === b" = .ok (.binary .identical (.ident "a") (.ident "b")) :=
    ⟨⟨"a === b".length, 1, by decide, by decide, by decide⟩, rfl, rfl, rfl⟩
  rw [← hleastLength] at hlength
  have hdepth : least.maxDepth ≤ limits.maxDepth := hleastDepth.trans_le limits.one_le_maxDepth
  rcases Expr.parse_raised hlength hdepth "a === b" with ⟨_, hcut, _⟩ | hsame
  · rw [hleast] at hcut
    cases hcut
  · rw [← hsame, hleast]

/-- The strict comparison of two variables tells whether they are equal, but for what is no
number. -/
theorem evaluate_strict (hlength : "a === b".length ≤ limits.maxLength)
    (henv : Environment.ofDatum supplied = .ok env) (ha : env.find? "a" = some v)
    (hb : env.find? "b" = some w) :
    (evaluate limits "a === b" supplied).outcome = .ok (.boolean ((v == w) && !v.isNan)) := by
  have hleft : (Expr.ident "a").evaluate env = .ok v := by
    rw [Expr.evaluate, Expr.run_start, Expr.denote, ha]
  have hright : (Expr.ident "b").evaluate env = .ok w := by
    rw [Expr.evaluate, Expr.run_start, Expr.denote, hb]
  have houtcome : (Expr.binary .identical (.ident "a") (.ident "b")).evaluate env =
      .ok (.boolean (v.identical w)) := Expr.evaluate_binary_of_ok hleft hright
  rw [evaluate, henv, Expr.parse_strict hlength, ← Value.identical_eq]
  exact houtcome

/-! ## The laws -/

/-- Equality of values is a lawful one. It is an equivalence; equal values have one hash, as they
have under every hash that is put together from hashes of what values hold, if that of doubles
respects how they compare; hence two values make a set of one member exactly if they are equal. No
number equals a truth value. In an expression two variables are strictly equal exactly if their
values are equal and not without a number, so that the two notions differ on these values only. -/
theorem equality_lawful :
    Equivalence (fun v w : Value => (v == w) = true) ∧
    (∀ v w : Value, (v == w) = true → hash v = hash w) ∧
    (∀ (ofNan : UInt64) (ofNumber : Float → UInt64) (ofTruth : Bool → UInt64),
      Value.Respects ofNumber → ∀ v w : Value, (v == w) = true →
        v.hashOf ofNan ofNumber ofTruth = w.hashOf ofNan ofNumber ofTruth) ∧
    (∀ v w : Value, v.distinct w = 1 ↔ (v == w) = true) ∧
    (∀ x b, (Value.number x == .boolean b) = false ∧ (Value.boolean b == .number x) = false) ∧
    ∀ (v w : Value) (limits : Limits) (supplied : Datum) (env : Environment),
      "a === b".length ≤ limits.maxLength → Environment.ofDatum supplied = .ok env →
      env.find? "a" = some v → env.find? "b" = some w →
        (evaluate limits "a === b" supplied).outcome = .ok (.boolean ((v == w) && !v.isNan)) ∧
        ((evaluate limits "a === b" supplied).outcome ≠ .ok (.boolean (v == w)) ↔
          v.isNan = true ∧ w.isNan = true) := by
  refine ⟨⟨fun _ => BEq.rfl, BEq.symm, BEq.trans⟩, fun v w h => hash_eq h,
    fun _ _ _ hrespects _ _ h => Value.hashOf_eq hrespects h,
    fun v w => Value.distinct_eq_one_iff, fun x b => ⟨rfl, rfl⟩, ?_⟩
  intro v w limits supplied env hlength henv ha hb
  have hstrict := evaluate_strict hlength henv ha hb
  refine ⟨hstrict, ?_⟩
  rw [hstrict, ← Value.identical_ne_iff, Value.identical_eq, ne_eq, ne_eq, Except.ok.injEq,
    Value.boolean.injEq]

/-- What is no number equals itself without being strictly equal to itself; the two zeros are both,
and make a set of one member. -/
theorem noNumber_and_zeros_lawful :
    "a === b".length ≤ Limits.default.maxLength ∧
      Environment.ofDatum (.dictionary [(.text "a", .float Binary64.nan),
        (.text "b", .wrapped (.number Binary64.nan))]) =
          .ok ⟨[("a", .number Binary64.nan), ("b", .number Binary64.nan)]⟩ ∧
      (Value.number Binary64.nan == .number Binary64.nan) = true ∧
      (evaluate Limits.default "a === b" (.dictionary [(.text "a", .float Binary64.nan),
        (.text "b", .wrapped (.number Binary64.nan))])).outcome = .ok (.boolean false) ∧
      (Value.number (Binary64.zero true) == .number (Binary64.zero false)) = true ∧
      hash (Value.number (Binary64.zero true)) = hash (Value.number (Binary64.zero false)) ∧
      Value.Respects Value.hashOfNumber ∧
      (Value.number (Binary64.zero true)).hashOf 0 Value.hashOfNumber (fun _ => 1) =
        (Value.number (Binary64.zero false)).hashOf 0 Value.hashOfNumber (fun _ => 1) ∧
      (Value.number (Binary64.zero true)).distinct (.number (Binary64.zero false)) = 1 := by
  obtain ⟨hequivalence, hhash, hhashOf, hset, _, hstrict⟩ := equality_lawful
  have hlength : "a === b".length ≤ Limits.default.maxLength := by decide
  have hzeros : (Value.number (Binary64.zero true) == .number (Binary64.zero false)) = true :=
    Value.beq_iff.2 (.inr ⟨rfl, rfl⟩)
  have hsupplied : Environment.ofDatum (.dictionary [(.text "a", .float Binary64.nan),
      (.text "b", .wrapped (.number Binary64.nan))]) =
        .ok ⟨[("a", .number Binary64.nan), ("b", .number Binary64.nan)]⟩ := rfl
  have hnan : (Value.number Binary64.nan).isNan = true := by decide +kernel
  refine ⟨hlength, hsupplied, hequivalence.refl _, ?_, hzeros, hhash _ _ hzeros,
    Value.respects_hashOfNumber, hhashOf _ _ _ Value.respects_hashOfNumber _ _ hzeros,
    (hset _ _).2 hzeros⟩
  have houtcome := (hstrict _ _ _ _ _ hlength hsupplied rfl rfl).1
  rw [hnan, Bool.not_true, Bool.and_false] at houtcome
  exact houtcome

end Criterion
