import Mathlib.Algebra.BigOperators.Group.List.Basic
import Mathlib.Algebra.Order.BigOperators.Group.List
import Mathlib.Algebra.Order.Ring.Nat
import Mathlib.Data.List.Perm.Basic

/-!
# Totals over an ordered map

The sum of a weight over the entries of a `Std.TreeMap`, and how insertion
and erasure move it. An accounting argument over a keyed store is then
linear arithmetic: a key carries `entryAt`, which is `0` where it is
absent, and every operation exchanges the weight at one key. `mapTotal` is
the case of a weight that reads the value only.
-/

namespace BitRouter

variable {κ α : Type*} [Ord κ] [Std.TransOrd κ] [Std.LawfulEqOrd κ] [BEq κ]
  [Std.LawfulBEqOrd κ]

def entryTotal (w : κ → α → ℕ) (m : Std.TreeMap κ α) : ℕ :=
  (m.toList.map (fun e => w e.1 e.2)).sum

/-- The weight of the entry at one key, `0` where the key is absent. -/
def entryAt (w : κ → α → ℕ) (m : Std.TreeMap κ α) (k : κ) : ℕ :=
  (m[k]?.map (w k)).getD 0

/-- The sum of the weights of the values of a map. -/
def mapTotal (w : α → ℕ) (m : Std.TreeMap κ α) : ℕ :=
  (m.toList.map (fun e => w e.2)).sum

/-- The weight a map carries at one key, `0` where the key is absent. -/
def weightAt (w : α → ℕ) (m : Std.TreeMap κ α) (k : κ) : ℕ :=
  (m[k]?.map w).getD 0

omit [BEq κ] [Std.LawfulBEqOrd κ] in
theorem nodup_toList (m : Std.TreeMap κ α) : m.toList.Nodup :=
  (Std.TreeMap.distinct_keys_toList (t := m)).imp (fun hab h => hab (by rw [h]; simp))

/-- **Erasing a key filters it out of the entries.** -/
theorem toList_erase_perm (m : Std.TreeMap κ α) (k : κ) :
    (m.erase k).toList.Perm (m.toList.filter (fun e => ¬ k == e.1)) := by
  refine (List.perm_ext_iff_of_nodup (nodup_toList _)
    ((nodup_toList m).filter _)).mpr (fun e => ?_)
  rw [List.mem_filter, Std.TreeMap.mem_toList_iff_getElem?_eq_some,
    Std.TreeMap.mem_toList_iff_getElem?_eq_some, Std.TreeMap.getElem?_erase]
  by_cases hk : k = e.1
  · simp [hk]
  · simp [hk]

/-- Over entries with distinct keys, dropping one key drops the weight of
the entry that carries it. -/
theorem sum_filter_key_add (w : κ → α → ℕ) (k : κ) :
    ∀ (l : List (κ × α)), l.Pairwise (fun a b => ¬ compare a.1 b.1 = .eq) →
      ((l.filter (fun e => ¬ k == e.1)).map (fun e => w e.1 e.2)).sum
          + ((l.find? (fun e => k == e.1)).map (fun e => w e.1 e.2)).getD 0
        = (l.map (fun e => w e.1 e.2)).sum
  | [], _ => rfl
  | e :: l, hl => by
    obtain ⟨hhead, htail⟩ := List.pairwise_cons.mp hl
    by_cases hk : k = e.1
    · have hrest : l.filter (fun e => ¬ k == e.1) = l := by
        refine List.filter_eq_self.mpr (fun x hx => ?_)
        have hne := hhead x hx
        simpa [hk] using hne
      rw [List.filter_cons_of_neg (by simp [hk]), hrest,
        List.find?_cons_of_pos (by simp [hk]), List.map_cons, List.sum_cons]
      exact Nat.add_comm _ _
    · rw [List.filter_cons_of_pos (by simp [hk]),
        List.find?_cons_of_neg (by simp [hk]), List.map_cons, List.map_cons,
        List.sum_cons, List.sum_cons, Nat.add_assoc, sum_filter_key_add w k l htail]

theorem entryAt_eq_find (w : κ → α → ℕ) (m : Std.TreeMap κ α) (k : κ) :
    entryAt w m k
      = ((m.toList.find? (fun e => k == e.1)).map (fun e => w e.1 e.2)).getD 0 := by
  unfold entryAt
  cases hfind : m.toList.find? (fun e => k == e.1) with
  | none =>
    have hnone : m[k]? = none := by
      by_contra hne
      obtain ⟨v, hv⟩ := Option.ne_none_iff_exists'.mp hne
      have hmem := Std.TreeMap.mem_toList_iff_getElem?_eq_some.mpr hv
      simpa using List.find?_eq_none.mp hfind _ hmem
    rw [hnone]
    rfl
  | some e =>
    have hkey : k = e.1 := by simpa using List.find?_some hfind
    have hmem : (e.1, e.2) ∈ m.toList := List.mem_of_find?_eq_some hfind
    rw [hkey, Std.TreeMap.mem_toList_iff_getElem?_eq_some.mp hmem]
    rfl

/-- **Erasure takes the weight of its key out of the total.** -/
theorem entryTotal_erase (w : κ → α → ℕ) (m : Std.TreeMap κ α) (k : κ) :
    entryTotal w (m.erase k) + entryAt w m k = entryTotal w m := by
  rw [entryAt_eq_find, entryTotal,
    ((toList_erase_perm m k).map (fun e => w e.1 e.2)).sum_eq]
  exact sum_filter_key_add w k m.toList Std.TreeMap.distinct_keys_toList

/-- **Insertion exchanges the weight at its key.** -/
theorem entryTotal_insert (w : κ → α → ℕ) (m : Std.TreeMap κ α) (k : κ) (v : α) :
    entryTotal w (m.insert k v) + entryAt w m k = entryTotal w m + w k v := by
  rw [entryAt_eq_find, entryTotal,
    (Std.TreeMap.toList_insert_perm.map (fun e : κ × α => w e.1 e.2)).sum_eq,
    List.map_cons, List.sum_cons, Nat.add_assoc,
    sum_filter_key_add w k m.toList Std.TreeMap.distinct_keys_toList]
  exact Nat.add_comm _ _

theorem entryAt_le_entryTotal (w : κ → α → ℕ) (m : Std.TreeMap κ α) (k : κ) :
    entryAt w m k ≤ entryTotal w m := by
  rw [← entryTotal_erase w m k]
  exact Nat.le_add_left _ _

variable {m : Std.TreeMap κ α} {w : κ → α → ℕ}

omit [Std.TransOrd κ] [Std.LawfulEqOrd κ] [BEq κ] [Std.LawfulBEqOrd κ] in
theorem entryAt_of_get {k : κ} {v : α} (h : m[k]? = some v) : entryAt w m k = w k v := by
  rw [entryAt, h]
  rfl

omit [Std.TransOrd κ] [Std.LawfulEqOrd κ] [BEq κ] [Std.LawfulBEqOrd κ] in
theorem entryAt_of_absent {k : κ} (h : m[k]? = none) : entryAt w m k = 0 := by
  rw [entryAt, h]
  rfl

/-! ## Comparing weights -/

omit [BEq κ] [Std.LawfulBEqOrd κ] in
/-- **Totals agree where the weights do on every entry.** -/
theorem entryTotal_congr {w' : κ → α → ℕ} (h : ∀ k v, m[k]? = some v → w k v = w' k v) :
    entryTotal w m = entryTotal w' m := by
  refine congrArg List.sum (List.map_congr_left (fun e he => ?_))
  exact h e.1 e.2 (Std.TreeMap.mem_toList_iff_getElem?_eq_some.mp he)

omit [BEq κ] [Std.LawfulBEqOrd κ] in
theorem entryTotal_le {w' : κ → α → ℕ} (h : ∀ k v, m[k]? = some v → w k v ≤ w' k v) :
    entryTotal w m ≤ entryTotal w' m := by
  refine List.sum_le_sum (fun e he => ?_)
  exact h e.1 e.2 (Std.TreeMap.mem_toList_iff_getElem?_eq_some.mp he)

omit [BEq κ] [Std.LawfulBEqOrd κ] in
theorem entryTotal_eq_zero (h : ∀ k v, m[k]? = some v → w k v = 0) : entryTotal w m = 0 := by
  refine List.sum_eq_zero (fun x hx => ?_)
  obtain ⟨e, he, rfl⟩ := List.mem_map.mp hx
  exact h e.1 e.2 (Std.TreeMap.mem_toList_iff_getElem?_eq_some.mp he)

omit [Std.TransOrd κ] [Std.LawfulEqOrd κ] [BEq κ] [Std.LawfulBEqOrd κ] in
theorem entryTotal_add (w w' : κ → α → ℕ) (m : Std.TreeMap κ α) :
    entryTotal (fun k v => w k v + w' k v) m = entryTotal w m + entryTotal w' m :=
  List.sum_map_add

/-! ## Weights of the value alone -/

/-- **Erasure takes the weight of its key out of the total.** -/
theorem mapTotal_erase (w : α → ℕ) (m : Std.TreeMap κ α) (k : κ) :
    mapTotal w (m.erase k) + weightAt w m k = mapTotal w m :=
  entryTotal_erase (fun _ => w) m k

/-- **Insertion exchanges the weight at its key.** -/
theorem mapTotal_insert (w : α → ℕ) (m : Std.TreeMap κ α) (k : κ) (v : α) :
    mapTotal w (m.insert k v) + weightAt w m k = mapTotal w m + w v :=
  entryTotal_insert (fun _ => w) m k v

theorem weightAt_le_mapTotal (w : α → ℕ) (m : Std.TreeMap κ α) (k : κ) :
    weightAt w m k ≤ mapTotal w m :=
  entryAt_le_entryTotal (fun _ => w) m k

end BitRouter
