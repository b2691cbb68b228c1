import Mathlib.Data.List.Forall2

/-!
# Lists converted in order

A list is converted from left to right. It becomes the list of what its items become, or it fails
as the first of them does that cannot be converted.
-/

namespace Criterion

variable {α β ε : Type} {f : α → Except ε β} {x : α} {xs : List α} {ys : List β} {failure : ε}

/-- A list is converted if its first item is and the others are. -/
theorem mapM_cons_eq_ok_iff :
    (x :: xs).mapM f = .ok ys ↔
      ∃ y others, f x = .ok y ∧ xs.mapM f = .ok others ∧ ys = y :: others := by
  rw [List.mapM_cons]
  cases f x with
  | error failure => simp [bind, Except.bind]
  | ok y => cases xs.mapM f <;> simp [bind, Except.bind, pure, Except.pure, eq_comm]

/-- A list fails as its first item does, or as the others do. -/
theorem mapM_cons_eq_error_iff :
    (x :: xs).mapM f = .error failure ↔
      f x = .error failure ∨ (∃ y, f x = .ok y) ∧ xs.mapM f = .error failure := by
  rw [List.mapM_cons]
  cases f x with
  | error failure' => simp [bind, Except.bind]
  | ok y => cases xs.mapM f <;> simp [bind, Except.bind, pure, Except.pure]

/-- A list is converted to what its items are converted to. -/
theorem mapM_eq_ok_iff : xs.mapM f = .ok ys ↔ List.Forall₂ (fun x y => f x = .ok y) xs ys := by
  induction xs generalizing ys with
  | nil => simp [pure, Except.pure, eq_comm]
  | cons x xs ih =>
    rw [mapM_cons_eq_ok_iff, List.forall₂_cons_left_iff]
    simp only [ih]

/-- A list is converted exactly if all its items are. -/
theorem exists_mapM_eq_ok_iff : (∃ ys, xs.mapM f = .ok ys) ↔ ∀ x ∈ xs, ∃ y, f x = .ok y := by
  induction xs with
  | nil => exact iff_of_true ⟨[], rfl⟩ nofun
  | cons x xs ih =>
    rw [List.forall_mem_cons, ← ih]
    constructor
    · rintro ⟨ys, h⟩
      obtain ⟨y, others, hx, hxs, _⟩ := mapM_cons_eq_ok_iff.1 h
      exact ⟨⟨y, hx⟩, others, hxs⟩
    · rintro ⟨⟨y, hx⟩, others, hxs⟩
      exact ⟨y :: others, mapM_cons_eq_ok_iff.2 ⟨y, others, hx, hxs, rfl⟩⟩

/-- A list fails as the first of its items does that cannot be converted. -/
theorem mapM_eq_error_iff :
    xs.mapM f = .error failure ↔
      ∃ before x after, xs = before ++ x :: after ∧ (∀ w ∈ before, ∃ y, f w = .ok y) ∧
        f x = .error failure := by
  constructor
  · intro h
    induction xs with
    | nil => contradiction
    | cons x xs ih =>
      rcases mapM_cons_eq_error_iff.1 h with hx | ⟨hx, hxs⟩
      · exact ⟨[], x, xs, rfl, nofun, hx⟩
      · obtain ⟨before, w, after, rfl, hbefore, hw⟩ := ih hxs
        exact ⟨x :: before, w, after, rfl, List.forall_mem_cons.2 ⟨hx, hbefore⟩, hw⟩
  · rintro ⟨before, x, after, rfl, hbefore, hx⟩
    induction before with
    | nil => exact mapM_cons_eq_error_iff.2 (.inl hx)
    | cons w before ih =>
      obtain ⟨hw, hbefore⟩ := List.forall_mem_cons.1 hbefore
      exact mapM_cons_eq_error_iff.2 (.inr ⟨hw, ih hbefore⟩)

end Criterion
