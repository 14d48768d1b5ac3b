import Mathlib.Data.List.Basic
import Mathlib.Tactic.Common

/-!
# Updating a list at one position

Where one position alone satisfies `p`, updating what satisfies `p` is
updating that position; two lists related element by element stay so when
both are updated there.
-/

namespace BitRouter

variable {α β : Type*}

/-- **Where one position satisfies `p`**, updating what satisfies `p` is
updating that position. -/
theorem map_ite_eq_set {p : α → Prop} [DecidablePred p] {f : α → α} {xs : List α} {i : ℕ} {x : α}
    (hi : xs[i]? = some x) (hx : p x) (honly : ∀ (j : ℕ) y, xs[j]? = some y → p y → j = i) :
    (xs.map fun y => if p y then f y else y) = xs.set i (f x) := by
  refine List.ext_getElem? fun j => ?_
  rw [List.getElem?_map, List.getElem?_set]
  by_cases hji : i = j
  · subst hji
    rw [if_pos rfl, if_pos (List.getElem?_eq_some_iff.mp hi).1, hi, Option.map_some, if_pos hx]
  · rw [if_neg hji]
    cases hj : xs[j]? with
    | none => rfl
    | some y =>
      have hy : ¬ p y := fun hy => hji (honly j y hj hy).symm
      rw [Option.map_some, if_neg hy]

theorem forall₂_set {R : α → β → Prop} {xs : List α} {ys : List β} (h : List.Forall₂ R xs ys)
    {x : α} {y : β} (hxy : R x y) (i : ℕ) : List.Forall₂ R (xs.set i x) (ys.set i y) := by
  induction h generalizing i with
  | nil => exact List.Forall₂.nil
  | cons hfirst hrest ih =>
    cases i with
    | zero => exact List.Forall₂.cons hxy hrest
    | succ i => exact List.Forall₂.cons hfirst (ih i)

end BitRouter
