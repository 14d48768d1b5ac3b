import Mathlib.Tactic.Common
import Std.Data.ExtTreeMap

/-!
# Reads of ordered maps

What a read finds after an insertion, a removal or a restriction, where two keys
compare as equal only if they are.
-/

namespace BitRouter.TreeReads

variable {κ α : Type} {cmp : κ → κ → Ordering} [Std.TransCmp cmp] [Std.LawfulEqCmp cmp]
variable [DecidableEq κ] {m : Std.ExtTreeMap κ α cmp} {k a : κ} {v : α}

theorem getElem?_insert : (m.insert k v)[a]? = if k = a then some v else m[a]? := by
  rw [Std.ExtTreeMap.getElem?_insert]
  by_cases h : k = a
  · rw [if_pos (Std.LawfulEqCmp.compare_eq_iff_eq.mpr h), if_pos h]
  · rw [if_neg (mt Std.LawfulEqCmp.compare_eq_iff_eq.mp h), if_neg h]

theorem getElem?_erase : (m.erase k)[a]? = if k = a then none else m[a]? := by
  rw [Std.ExtTreeMap.getElem?_erase]
  by_cases h : k = a
  · rw [if_pos (Std.LawfulEqCmp.compare_eq_iff_eq.mpr h), if_pos h]
  · rw [if_neg (mt Std.LawfulEqCmp.compare_eq_iff_eq.mp h), if_neg h]

omit [DecidableEq κ] in
theorem getElem?_filter_eq_some {p : κ → α → Bool} :
    (m.filter p)[a]? = some v ↔ m[a]? = some v ∧ p a v = true := by
  rw [Std.ExtTreeMap.getElem?_filter', Option.filter_eq_some_iff]

omit [DecidableEq κ] [Std.LawfulEqCmp cmp] in
theorem mem_iff_exists : a ∈ m ↔ ∃ v, m[a]? = some v := by
  rw [Std.ExtTreeMap.mem_iff_isSome_getElem?, Option.isSome_iff_exists]

end BitRouter.TreeReads
