import Mathlib.Data.List.Induction
import Mathlib.Order.Lattice
import Mathlib.Tactic.Common

/-!
# Scanning an ascending list backwards

A table of thresholds in ascending order is searched from its end for the
first one a quantity exceeds. That finds the greatest threshold exceeded,
and there is only one entry with it.
-/

namespace BitRouter

variable {α β : Type*} [LinearOrder β] {f : α → β} {xs : List α}

/-- The entry a quantity falls under: one with the greatest threshold
strictly below it, none if no threshold is. -/
def IsGreatestBelow (f : α → β) (xs : List α) (bound : β) : Option α → Prop
  | some x => x ∈ xs ∧ f x < bound ∧ ∀ y ∈ xs, f y < bound → f y ≤ f x
  | none => ∀ y ∈ xs, bound ≤ f y

section

variable (h : xs.Pairwise (fun a b => f a < f b))

include h

theorem find?_reverse_isGreatestBelow (bound : β) :
    IsGreatestBelow f xs bound (xs.reverse.find? (fun x => f x < bound)) := by
  induction xs using List.reverseRecOn with
  | nil => simp [IsGreatestBelow]
  | append_singleton xs z ih =>
    obtain ⟨hxs, -, hz⟩ := List.pairwise_append.mp h
    rw [List.reverse_concat, List.find?_cons]
    by_cases hlt : f z < bound
    · rw [decide_eq_true hlt]
      refine ⟨by simp, hlt, fun y hy _ => ?_⟩
      rcases List.mem_append.mp hy with hy | hy
      · exact (hz y hy z (by simp)).le
      · rw [List.mem_singleton.mp hy]
    · rw [decide_eq_false hlt]
      have hskip : ∀ y ∈ xs ++ [z], y ∈ xs ∨ bound ≤ f y := by
        intro y hy
        rcases List.mem_append.mp hy with hy | hy
        · exact Or.inl hy
        · rw [List.mem_singleton.mp hy]
          exact Or.inr (not_lt.mp hlt)
      have hgreatest := ih hxs
      revert hgreatest
      cases xs.reverse.find? (fun x => f x < bound) with
      | none => exact fun hall y hy => (hskip y hy).elim (hall y) id
      | some x =>
        rintro ⟨hmem, hx, hmax⟩
        refine ⟨List.mem_append_left _ hmem, hx, fun y hy hy' => ?_⟩
        exact (hskip y hy).elim (fun hy => hmax y hy hy') (fun hb => absurd hy' (not_lt.mpr hb))

theorem eq_of_ascending {x y : α} (hx : x ∈ xs) (hy : y ∈ xs) (hxy : f x = f y) : x = y := by
  induction xs with
  | nil => exact absurd hx List.not_mem_nil
  | cons z xs ih =>
    obtain ⟨hz, hxs⟩ := List.pairwise_cons.mp h
    rcases List.mem_cons.mp hx with rfl | hxtail
    · rcases List.mem_cons.mp hy with rfl | hytail
      · rfl
      · exact absurd hxy (hz y hytail).ne
    · rcases List.mem_cons.mp hy with rfl | hytail
      · exact absurd hxy (hz x hxtail).ne'
      · exact ih hxs hxtail hytail

theorem IsGreatestBelow.unique {bound : β}
    {o o' : Option α} (ho : IsGreatestBelow f xs bound o) (ho' : IsGreatestBelow f xs bound o') :
    o = o' := by
  cases o with
  | none =>
    cases o' with
    | none => rfl
    | some x => exact absurd (ho x ho'.1) (not_le.mpr ho'.2.1)
  | some x =>
    cases o' with
    | none => exact absurd (ho' x ho.1) (not_le.mpr ho.2.1)
    | some y =>
      obtain ⟨hx, hxlt, hxmax⟩ := ho
      obtain ⟨hy, hylt, hymax⟩ := ho'
      exact congrArg some (eq_of_ascending h hx hy
        (le_antisymm (hymax x hx hxlt) (hxmax y hy hylt)))

end

end BitRouter
