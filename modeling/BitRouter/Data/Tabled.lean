import Mathlib.Data.Countable.Basic
import Mathlib.Logic.Equiv.List
import Mathlib.Tactic.Common

/-!
# Names that do not collide

Where a program relies on a digest only for telling its inputs apart, any
injective naming of the inputs stands for it. Countably many inputs have one,
and it can be chosen to evaluate on the finitely many inputs of a table.
-/

namespace BitRouter

variable {α : Type} [DecidableEq α] [Countable α]

/-- The names of the members of a table, and other names for everything else. -/
noncomputable def tabled (table : List α) (a : α) : String :=
  if a ∈ table then String.ofList (List.replicate (table.idxOf a) 'd')
  else String.ofList ('x' :: List.replicate (Classical.choose (exists_injective_nat α) a) 'x')

/-- **Different inputs have different names.** -/
theorem tabled_injective (table : List α) : Function.Injective (tabled table) := by
  have hlengths : ∀ {m n : ℕ} {c : Char}, String.ofList (List.replicate m c)
      = String.ofList (List.replicate n c) → m = n := by
    intro m n c heq
    have hlists := String.ofList_injective heq
    simpa using congrArg List.length hlists
  intro a b heq
  unfold tabled at heq
  split at heq <;> split at heq
  · next ha hb => exact (List.idxOf_inj ha).mp (hlengths heq)
  · -- a name of `d`s is not one that starts with an `x`
    next ha hb =>
    have hlists := String.ofList_injective heq
    cases hn : table.idxOf a with
    | zero => simp [hn] at hlists
    | succ n => simp [hn, List.replicate_succ] at hlists
  · next ha hb =>
    have hlists := String.ofList_injective heq
    cases hn : table.idxOf b with
    | zero => simp [hn] at hlists
    | succ n => simp [hn, List.replicate_succ] at hlists
  · have hnumbers := hlengths (m := _ + 1) (n := _ + 1) heq
    exact Classical.choose_spec (exists_injective_nat α) (Nat.succ.inj hnumbers)

end BitRouter
