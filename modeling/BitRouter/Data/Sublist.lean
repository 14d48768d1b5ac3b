import Mathlib.Data.List.Basic
import Mathlib.Tactic.Common

/-!
# Concatenations of sublists

Where each piece of one concatenation is a sublist of the same piece of
another, the two are equal only if all of their pieces are.
-/

namespace BitRouter

variable {α β : Type*} {f g : α → List β}

theorem flatMap_sublist (h : ∀ x, (f x).Sublist (g x)) (xs : List α) :
    (xs.flatMap f).Sublist (xs.flatMap g) := by
  induction xs with
  | nil => exact List.Sublist.refl _
  | cons x xs ih =>
    exact (h x).append ih

theorem flatMap_eq_iff_of_sublist (h : ∀ x, (f x).Sublist (g x)) {xs : List α} :
    xs.flatMap f = xs.flatMap g ↔ ∀ x ∈ xs, f x = g x := by
  induction xs with
  | nil => simp
  | cons x xs ih =>
    rw [List.flatMap_cons, List.flatMap_cons, List.forall_mem_cons]
    constructor
    · intro heq
      have hlength := congrArg List.length heq
      rw [List.length_append, List.length_append] at hlength
      have hx := (h x).length_le
      have hxs := (flatMap_sublist h xs).length_le
      have hfx : f x = g x := (h x).eq_of_length (by omega)
      rw [hfx, List.append_cancel_left_eq] at heq
      exact ⟨hfx, ih.mp heq⟩
    · rintro ⟨hx, hxs⟩
      rw [hx, ih.mpr hxs]

end BitRouter
