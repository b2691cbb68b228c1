import Criterion.Proofs.Binary64.Order

/-!
# Doubles are told apart by their views

A view keeps all that there is to a double: the sign, the units of a finite one, and of what is no
number nothing, for there is only one such double. Hence an equation between doubles can be read off
their views, where the operations are those of signs and natural numbers.
-/

namespace Criterion.Binary64

open Float.Model

variable {x : Float} {negative : Bool} {units : Nat}

/-- The view with the other sign. -/
def View.negated : View → View
  | .nan => .nan
  | .infinite negative => .infinite !negative
  | .finite negative units => .finite (!negative) units

/-! ## Special doubles -/

theorem view_zero (negative : Bool) : view (zero negative) = .finite negative 0 :=
  view_ofPattern negative (by decide)

/-- An infinity is viewed as its sign. -/
theorem view_infinite (negative : Bool) : view (infinite negative) = .infinite negative := by
  have hpattern : patternOf (infinite negative) = infinitePattern :=
    patternOf_ofPattern negative (Nat.le_refl _)
  have hsign : isNegative (infinite negative) = negative :=
    isNegative_ofPattern negative (Nat.le_refl _)
  rw [view, hpattern, hsign, if_neg (Nat.lt_irrefl _), if_pos rfl]

/-- There is one double that is no number. -/
theorem eq_nan (hview : view x = .nan) : x = nan := by
  have hunpacked := unpacked_view x
  have hpack : Float.ofModel (.pack x.toModel.unpack) = x := Float.ofBits_toBits x
  rw [hview] at hunpacked
  rw [← hpack]
  generalize x.toModel.unpack = u at hunpacked
  cases hunpacked with
  | nan => rfl

theorem isNan_iff : isNan x = true ↔ view x = .nan := by
  rw [isNan, beq_iff_eq]

theorem isNan_eq_false_iff : isNan x = false ↔ view x ≠ .nan := by
  rw [isNan, beq_eq_false_iff_ne]

theorem isFinite_of_view (hview : view x = .finite negative units) : IsFinite x :=
  (view_eq_finite hview).1

/-- The units of a finite double have the sign of its view. -/
theorem signedUnits_of_view (hview : view x = .finite negative units) :
    signedUnits x = if negative then -(units : Int) else units := by
  obtain ⟨_, hsign, hunits⟩ := view_eq_finite hview
  rw [signedUnits, hsign, hunits]

/-! ## All doubles -/

/-- Doubles with one view are one double. -/
theorem view_injective : Function.Injective view := by
  intro x y h
  cases hview : view x with
  | nan => rw [eq_nan hview, eq_nan (h.symm.trans hview)]
  | infinite negative =>
    obtain ⟨hpattern, hsign⟩ := view_eq_infinite hview
    obtain ⟨hpattern', hsign'⟩ := view_eq_infinite (h.symm.trans hview)
    rw [← ofPattern_patternOf x, ← ofPattern_patternOf y, hpattern, hpattern', hsign, hsign']
  | finite negative units =>
    obtain ⟨hfinite, hsign, hunits⟩ := view_eq_finite hview
    obtain ⟨hfinite', hsign', hunits'⟩ := view_eq_finite (h.symm.trans hview)
    have hpattern := unitsOfPattern_inj hfinite hfinite' (hunits.trans hunits'.symm)
    rw [← ofPattern_patternOf x, ← ofPattern_patternOf y, hpattern, hsign, hsign']

/-- There is one infinity of each sign. -/
theorem eq_infinite (hview : view x = .infinite negative) : x = infinite negative :=
  view_injective (hview.trans (view_infinite negative).symm)

/-- There is one zero of each sign. -/
theorem eq_zero (hview : view x = .finite negative 0) : x = zero negative :=
  view_injective (hview.trans (view_zero negative).symm)

/-- Negation changes the sign of a view. -/
theorem view_neg (x : Float) : view (-x) = (view x).negated := by
  cases hview : view x with
  | nan =>
    rw [eq_nan hview]
    decide
  | infinite negative =>
    rw [eq_infinite hview, infinite, neg_ofPattern negative (Nat.le_refl _)]
    exact view_infinite _
  | finite negative units =>
    obtain ⟨hfinite, hsign, hunits⟩ := view_eq_finite hview
    rw [← ofPattern_patternOf x, hsign, neg_ofPattern negative (Nat.le_of_lt hfinite),
      view_ofPattern _ hfinite, hunits, View.negated]

end Criterion.Binary64
