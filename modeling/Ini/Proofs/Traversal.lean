import Mathlib.Data.List.Forall2

/-!
# Traversals that may fail

Pieces of a value are settled one after the other, and so are the entries of a section.
Either every element has a result, and these are the results in their order, or there is a
first element that has none, and its fault is the fault of the whole.
-/

namespace Ini.Traversal

variable {α β ε : Type} {f : α → Except ε β} {x : α} {y : β} {xs : List α} {ys : List β}
  {fault : ε}

theorem map_eq_ok_iff {result : Except ε α} {g : α → β} :
    result.map g = .ok y ↔ ∃ x, result = .ok x ∧ g x = y := by
  cases result <;> simp [Except.map]

theorem map_eq_error_iff {result : Except ε α} {g : α → β} :
    result.map g = .error fault ↔ result = .error fault := by
  cases result <;> simp [Except.map]

theorem mapM_cons_of_error (h : f x = .error fault) (xs : List α) :
    (x :: xs).mapM f = .error fault := by
  rw [List.mapM_cons, h]
  rfl

theorem mapM_cons_of_ok (h : f x = .ok y) (xs : List α) :
    (x :: xs).mapM f = (xs.mapM f).map (y :: ·) := by
  rw [List.mapM_cons, h]
  cases hrest : xs.mapM f <;> rfl

theorem mapM_eq_ok_iff :
    xs.mapM f = .ok ys ↔ List.Forall₂ (fun x y => f x = .ok y) xs ys := by
  induction xs generalizing ys with
  | nil => simp [pure, Except.pure, eq_comm]
  | cons x xs ih =>
      cases hx : f x with
      | error fault =>
          rw [mapM_cons_of_error hx, List.forall₂_cons_left_iff]
          simp [hx]
      | ok y =>
          rw [mapM_cons_of_ok hx, map_eq_ok_iff, List.forall₂_cons_left_iff]
          constructor
          · rintro ⟨rest, hrest, rfl⟩
            exact ⟨y, rest, hx, ih.1 hrest, rfl⟩
          · rintro ⟨other, rest, hother, hrest, rfl⟩
            obtain rfl : y = other := Except.ok.inj (hx.symm.trans hother)
            exact ⟨rest, ih.2 hrest, rfl⟩

/-- The first element to fail decides the fault. -/
theorem mapM_eq_error_iff :
    xs.mapM f = .error fault ↔
      ∃ front x back ys, xs = front ++ x :: back ∧
        List.Forall₂ (fun x y => f x = .ok y) front ys ∧ f x = .error fault := by
  induction xs with
  | nil => simp [pure, Except.pure]
  | cons x xs ih =>
      cases hx : f x with
      | error other =>
          rw [mapM_cons_of_error hx]
          constructor
          · rintro ⟨⟩
            exact ⟨[], x, xs, [], rfl, .nil, hx⟩
          · rintro ⟨front, first, back, ys, heq, hfront, hfirst⟩
            cases hfront with
            | nil =>
                cases heq
                rw [hx] at hfirst
                cases hfirst
                rfl
            | cons hok _ =>
                cases heq
                rw [hx] at hok
                cases hok
      | ok y =>
          rw [mapM_cons_of_ok hx, map_eq_error_iff, ih]
          constructor
          · rintro ⟨front, first, back, ys, rfl, hfront, hfirst⟩
            exact ⟨x :: front, first, back, y :: ys, rfl, .cons hx hfront, hfirst⟩
          · rintro ⟨front, first, back, ys, heq, hfront, hfirst⟩
            cases hfront with
            | nil =>
                cases heq
                rw [hx] at hfirst
                cases hfirst
            | cons _ hfront =>
                cases heq
                exact ⟨_, first, back, _, rfl, hfront, hfirst⟩

theorem exists_forall₂_iff {R : α → β → Prop} :
    (∃ ys, List.Forall₂ R xs ys) ↔ ∀ x ∈ xs, ∃ y, R x y := by
  induction xs with
  | nil => simp
  | cons x xs ih =>
      simp only [List.forall₂_cons_left_iff, List.forall_mem_cons, ← ih]
      constructor
      · rintro ⟨-, y, ys, hy, hys, rfl⟩
        exact ⟨⟨y, hy⟩, ys, hys⟩
      · rintro ⟨⟨y, hy⟩, ys, hys⟩
        exact ⟨_, y, ys, hy, hys, rfl⟩

end Ini.Traversal
