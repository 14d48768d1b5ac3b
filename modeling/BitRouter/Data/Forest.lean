import Mathlib.Data.List.Nodup
import Mathlib.Logic.Function.Basic
import Mathlib.Logic.Relation

/-!
# Forests kept on both sides

A forest whose edges are recorded twice, at the child as its parent and at the
parent among its children. An edge to a node that has neither a parent nor a
child keeps it a forest: no chain of parents that is there already passes
through that node, so its rank can be chosen anew, above the rank of its parent.
-/

namespace BitRouter

variable {ι : Type*}

/-- The edges of a graph, as the nodes on both of their sides record them. -/
structure Links (ι : Type*) where
  parent : ι → Option ι
  children : ι → List ι

namespace Links

/-- No edges. -/
def empty : Links ι where
  parent _ := none
  children _ := []

/-- One edge more, recorded on both sides. -/
def link [DecidableEq ι] (l : Links ι) (p c : ι) : Links ι where
  parent := Function.update l.parent c (some p)
  children := Function.update l.children p (l.children p ++ [c])

/-- **Both sides agree, and the edges form a forest**: parents rank below their
children. -/
structure IsForest (l : Links ι) : Prop where
  agree : ∀ p c, l.parent c = some p ↔ c ∈ l.children p
  once : ∀ p, (l.children p).Nodup
  ranked : ∃ rank : ι → ℕ, ∀ c p, l.parent c = some p → rank p < rank c

theorem isForest_empty : (empty : Links ι).IsForest where
  agree p c := by simp [empty]
  once p := List.nodup_nil
  ranked := ⟨fun _ => 0, fun c p h => by cases h⟩

variable {l : Links ι} {p c : ι}

/-- **No cycle of any length.** -/
theorem IsForest.acyclic (h : l.IsForest) (i : ι) :
    ¬Relation.TransGen (fun c p => l.parent c = some p) i i := by
  obtain ⟨rank, hrank⟩ := h.ranked
  have hlt : ∀ {a b}, Relation.TransGen (fun c p => l.parent c = some p) a b →
      rank b < rank a := by
    intro a b hab
    induction hab with
    | single hstep => exact hrank _ _ hstep
    | tail _ hstep ih => exact Nat.lt_trans (hrank _ _ hstep) ih
  exact fun hcycle => Nat.lt_irrefl _ (hlt hcycle)

/-- **An isolated node becomes a child.** -/
theorem IsForest.link [DecidableEq ι] (h : l.IsForest) (hne : p ≠ c) (hparent : l.parent c = none)
    (hchildren : l.children c = []) : (l.link p c).IsForest := by
  have hnew : ∀ q, c ∉ l.children q := by
    intro q hq
    rw [(h.agree q c).mpr hq] at hparent
    cases hparent
  have hmem : ∀ q d, d ∈ (l.link p c).children q ↔ d ∈ l.children q ∨ q = p ∧ d = c := by
    intro q d
    show d ∈ Function.update l.children p (l.children p ++ [c]) q ↔ _
    by_cases hq : q = p
    · subst hq
      rw [Function.update_self, List.mem_append, List.mem_singleton]
      simp only [true_and]
    · rw [Function.update_of_ne hq]
      simp only [hq, false_and, or_false]
  refine ⟨fun q d => ?_, fun q => ?_, ?_⟩
  · rw [hmem]
    show Function.update l.parent c (some p) d = some q ↔ _
    by_cases hd : d = c
    · subst hd
      rw [Function.update_self, Option.some.injEq]
      simp only [hnew q, false_or, and_true, eq_comm]
    · rw [Function.update_of_ne hd, h.agree]
      simp only [hd, and_false, or_false]
  · show (Function.update l.children p (l.children p ++ [c]) q).Nodup
    by_cases hq : q = p
    · subst hq
      rw [Function.update_self]
      refine List.Nodup.append (h.once q) (List.nodup_singleton c) ?_
      simpa using hnew q
    · rw [Function.update_of_ne hq]
      exact h.once q
  · obtain ⟨rank, hrank⟩ := h.ranked
    -- nothing ranks below the new child, which had no children
    have hbelow : ∀ d, l.parent d ≠ some c := by
      intro d hd
      rw [h.agree, hchildren] at hd
      cases hd
    refine ⟨Function.update rank c (rank p + 1), fun d q hdq => ?_⟩
    change Function.update l.parent c (some p) d = some q at hdq
    by_cases hd : d = c
    · subst hd
      rw [Function.update_self, Option.some.injEq] at hdq
      subst hdq
      rw [Function.update_self, Function.update_of_ne hne]
      exact Nat.lt_succ_self _
    · rw [Function.update_of_ne hd] at hdq
      have hq : q ≠ c := by
        rintro rfl
        exact hbelow d hdq
      rw [Function.update_of_ne hd, Function.update_of_ne hq]
      exact hrank d q hdq

end Links

end BitRouter
