import Mathlib.Data.List.Induction
import Mathlib.Data.List.Nodup
import Mathlib.Tactic.Common
import Std.Data.ExtTreeMap

/-!
# Maps over ordered keys

The map a `BTreeMap` is: equal when every key reads the same, so that two
records holding such maps can be compared. What a read finds after an
insertion is decided by the equality of the keys, and the keys themselves are
a list without repetition.
-/

namespace BitRouter

/-- The UTF-8 bytes of a text. -/
def bytes (value : String) : List ℕ := value.toByteArray.data.toList.map UInt8.toNat

variable {a : String}

theorem bytes_injective {b : String} (h : bytes a = bytes b) : a = b := by
  have hdata := (List.map_inj_right fun _ _ => UInt8.toNat_inj.mp).mp h
  exact String.toByteArray_inj.mp (ByteArray.ext (Array.toList_inj.mp hdata))

theorem bytes_append (a b : String) : bytes (a ++ b) = bytes a ++ bytes b := by
  unfold bytes
  rw [String.toByteArray_append, ByteArray.toList_data_append, List.map_append]

theorem bytes_eq_nil {value : String} : bytes value = [] ↔ value = "" :=
  ⟨fun h => bytes_injective h, fun h => h ▸ rfl⟩

/-- Texts are ordered by their bytes. -/
def cmpBytes (a b : String) : Ordering := compareOn bytes a b

instance : Std.TransCmp cmpBytes := inferInstanceAs (Std.TransCmp (compareOn bytes))

instance : Std.LawfulEqCmp cmpBytes where
  eq_of_compare h := bytes_injective (Std.compare_eq_iff_eq.mp h)

/-- A map from names, as in `BTreeMap<String, _>`. -/
abbrev StrMap (α : Type) : Type := Std.ExtTreeMap String α cmpBytes

variable {k : String}

namespace StrMap

variable {α β : Type}

theorem getElem?_insert (m : StrMap α) (k a : String) (v : α) :
    (m.insert k v)[a]? = if k = a then some v else m[a]? := by
  rw [Std.ExtTreeMap.getElem?_insert]
  by_cases h : k = a
  · rw [if_pos (Std.LawfulEqCmp.compare_eq_iff_eq.mpr h), if_pos h]
  · rw [if_neg (mt Std.LawfulEqCmp.compare_eq_iff_eq.mp h), if_neg h]

theorem getElem?_empty (a : String) : (∅ : StrMap α)[a]? = none :=
  Std.ExtTreeMap.getElem?_empty

theorem insert_insert (m : StrMap α) (k : String) (v w : α) :
    (m.insert k v).insert k w = m.insert k w := by
  refine Std.ExtTreeMap.ext_getElem? fun a => ?_
  rw [getElem?_insert, getElem?_insert, getElem?_insert]
  split <;> rfl

variable {m : StrMap α} {v : α}

/-- To insert what is there changes nothing. -/
theorem insert_of_getElem? (h : m[k]? = some v) :
    m.insert k v = m := by
  refine Std.ExtTreeMap.ext_getElem? fun a => ?_
  rw [getElem?_insert]
  split
  · rename_i hk
    rw [← hk, h]
  · rfl

theorem getElem?_erase (m : StrMap α) (k a : String) :
    (m.erase k)[a]? = if k = a then none else m[a]? := by
  rw [Std.ExtTreeMap.getElem?_erase]
  by_cases h : k = a
  · rw [if_pos (Std.LawfulEqCmp.compare_eq_iff_eq.mpr h), if_pos h]
  · rw [if_neg (mt Std.LawfulEqCmp.compare_eq_iff_eq.mp h), if_neg h]

theorem erase_of_getElem? (h : m[k]? = none) : m.erase k = m := by
  refine Std.ExtTreeMap.ext_getElem? fun a => ?_
  rw [getElem?_erase]
  split
  · rename_i hk
    rw [← hk, h]
  · rfl

theorem mem_insert {m : StrMap α} {k a : String} {v : α} :
    a ∈ m.insert k v ↔ k = a ∨ a ∈ m := by
  rw [Std.ExtTreeMap.mem_insert, Std.LawfulEqCmp.compare_eq_iff_eq]

theorem mem_iff : a ∈ m ↔ m[a]?.isSome := by
  rw [Std.ExtTreeMap.mem_iff_isSome_getElem?]

/-- The map of a list of pairs: later pairs win, as with `BTreeMap::from`. -/
def ofPairs (pairs : List (String × α)) : StrMap α :=
  pairs.foldl (fun m pair => m.insert pair.1 pair.2) ∅

theorem ofPairs_concat (pairs : List (String × α)) (k : String) (v : α) :
    ofPairs (pairs ++ [(k, v)]) = (ofPairs pairs).insert k v := by
  unfold ofPairs
  rw [List.foldl_append, List.foldl_cons, List.foldl_nil]

variable {pairs : List (String × α)}

/-- The keys of a list of pairs. -/
theorem mem_ofPairs :
    a ∈ ofPairs pairs ↔ a ∈ pairs.map (·.1) := by
  induction pairs using List.reverseRecOn with
  | nil => simp [ofPairs]
  | append_singleton pairs pair ih =>
    rw [ofPairs_concat, mem_insert, ih, List.map_append, List.mem_append, List.map_singleton,
      List.mem_singleton, or_comm, eq_comm]

/-- A key that is named once reads as its own pair. -/
theorem getElem?_ofPairs (hnodup : (pairs.map (·.1)).Nodup) (h : (a, v) ∈ pairs) :
    (ofPairs pairs)[a]? = some v := by
  induction pairs using List.reverseRecOn with
  | nil => exact absurd h (by simp)
  | append_singleton pairs pair ih =>
    obtain ⟨k, w⟩ := pair
    rw [List.map_append, List.nodup_append] at hnodup
    obtain ⟨hpairs, -, hdisjoint⟩ := hnodup
    rw [ofPairs_concat, getElem?_insert]
    rcases List.mem_append.mp h with h | h
    · have hne : k ≠ a := fun heq =>
        hdisjoint a (List.mem_map_of_mem (f := (·.1)) h) k (by simp) heq.symm
      rw [if_neg hne]
      exact ih hpairs h
    · obtain ⟨rfl, rfl⟩ := Prod.mk.inj (List.mem_singleton.mp h)
      rw [if_pos rfl]

theorem getElem?_ofPairs_none (h : a ∉ pairs.map (·.1)) : (ofPairs pairs)[a]? = none := by
  rw [← mem_ofPairs, mem_iff] at h
  exact Option.not_isSome_iff_eq_none.mp h

/-- The keys under a name prefix are those of any list that names them once. -/
theorem filter_keys_length {p : String → Bool} {names : List String} (hnames : names.Nodup)
    (h : ∀ a, (a ∈ m ∧ p a = true) ↔ a ∈ names) :
    (m.keys.filter p).length = names.length := by
  refine (List.Perm.length_eq ?_)
  refine (List.perm_ext_iff_of_nodup (Std.ExtTreeMap.nodup_keys.filter p) hnames).mpr fun a => ?_
  rw [List.mem_filter, Std.ExtTreeMap.mem_keys]
  exact h a

/-! ## Counting entries -/

theorem nodup_toList (m : StrMap α) : m.toList.Nodup :=
  (Std.ExtTreeMap.distinct_keys_toList (t := m)).imp fun hne heq =>
    hne (by rw [heq]; exact Std.ReflCmp.compare_self)

theorem mem_toList : (k, v) ∈ m.toList ↔ m[k]? = some v :=
  Std.ExtTreeMap.mem_toList_iff_getElem?_eq_some

theorem getElem?_ofPairs_filter (m : StrMap α) (p : String × α → Bool) (f : α → β) (a : String) :
    (ofPairs ((m.toList.filter p).map fun entry => (entry.1, f entry.2)))[a]?
      = (m[a]?.filter fun v => p (a, v)).map f := by
  have hkeys : (((m.toList.filter p).map fun entry => (entry.1, f entry.2)).map (·.1)).Nodup := by
    rw [List.map_map]
    refine List.Nodup.map_on (fun x hx y hy heq => Prod.ext heq ?_) ((nodup_toList m).filter _)
    have hx := mem_toList.mp (List.mem_filter.mp hx).1
    have hy := mem_toList.mp (List.mem_filter.mp hy).1
    have heq : x.1 = y.1 := heq
    rw [heq, hy] at hx
    exact (Option.some.inj hx).symm
  have hmem : ∀ v, (a, v) ∈ m.toList.filter p ↔ m[a]? = some v ∧ p (a, v) = true := fun v => by
    rw [List.mem_filter, mem_toList]
  cases hfound : (m[a]?.filter fun v => p (a, v)) with
  | some v =>
    obtain ⟨hv, hp⟩ := Option.filter_eq_some_iff.mp hfound
    exact getElem?_ofPairs hkeys (List.mem_map.mpr ⟨(a, v), (hmem v).mpr ⟨hv, hp⟩, rfl⟩)
  | none =>
    refine getElem?_ofPairs_none fun hkey => ?_
    rw [List.map_map, List.mem_map] at hkey
    obtain ⟨⟨k, v⟩, hentry, rfl⟩ := hkey
    obtain ⟨hv, hp⟩ := (hmem v).mp hentry
    exact absurd (hfound.symm.trans (Option.filter_eq_some_iff.mpr ⟨hv, hp⟩)) (by simp)

/-- The number of values that pass a test. -/
def count (p : α → Bool) (m : StrMap α) : ℕ := (m.toList.filter fun entry => p entry.2).length

/-- The entries under other keys. -/
def others (m : StrMap α) (k : String) : List (String × α) := m.toList.filter (·.1 ≠ k)

theorem toList_perm_others (h : m[k]? = some v) :
    m.toList.Perm ((k, v) :: others m k) := by
  refine (List.perm_ext_iff_of_nodup (nodup_toList m) (List.nodup_cons.mpr
    ⟨by simp, (nodup_toList m).filter _⟩)).mpr fun entry => ?_
  rw [List.mem_cons, List.mem_filter]
  constructor
  · intro hmem
    by_cases heq : entry.1 = k
    · refine Or.inl (Prod.ext heq ?_)
      have hentry : m[entry.1]? = some entry.2 := mem_toList.mp hmem
      rw [heq, h] at hentry
      exact (Option.some.inj hentry).symm
    · exact Or.inr ⟨hmem, by simpa using heq⟩
  · rintro (rfl | ⟨hmem, -⟩)
    · exact mem_toList.mpr h
    · exact hmem

theorem toList_eq_others (h : m[k]? = none) :
    others m k = m.toList := by
  refine List.filter_eq_self.mpr fun entry hmem => ?_
  have hentry : m[entry.1]? = some entry.2 := mem_toList.mp hmem
  refine decide_eq_true fun heq => ?_
  rw [heq, h] at hentry
  exact absurd hentry (by simp)

theorem others_insert_perm (m : StrMap α) (k : String) (v : α) :
    (others (m.insert k v) k).Perm (others m k) := by
  refine (List.perm_ext_iff_of_nodup ((nodup_toList _).filter _)
    ((nodup_toList m).filter _)).mpr fun entry => ?_
  rw [List.mem_filter, List.mem_filter]
  refine and_congr_left fun hne => ?_
  have hne : ¬ k = entry.1 := fun heq => (of_decide_eq_true hne) heq.symm
  show (entry.1, entry.2) ∈ _ ↔ (entry.1, entry.2) ∈ _
  rw [mem_toList, mem_toList, getElem?_insert, if_neg hne]

/-- **A new entry counts when it passes the test.** -/
theorem count_insert_new (p : α → Bool) (v : α) (h : m[k]? = none) :
    count p (m.insert k v) = count p m + if p v then 1 else 0 := by
  have hinsert : (m.insert k v)[k]? = some v := by rw [getElem?_insert, if_pos rfl]
  have hperm := (toList_perm_others hinsert).trans ((others_insert_perm m k v).cons (k, v))
  rw [toList_eq_others h] at hperm
  rw [count, (hperm.filter _).length_eq, List.filter_cons]
  split <;> rfl

/-- **A replaced entry counts in the place of the old one.** -/
theorem count_insert_old (p : α → Bool) {old : α} (v : α) (h : m[k]? = some old) :
    count p (m.insert k v) + (if p old then 1 else 0) = count p m + if p v then 1 else 0 := by
  have hinsert : (m.insert k v)[k]? = some v := by rw [getElem?_insert, if_pos rfl]
  have hperm := (toList_perm_others hinsert).trans ((others_insert_perm m k v).cons (k, v))
  rw [count, count, (hperm.filter _).length_eq, ((toList_perm_others h).filter _).length_eq,
    List.filter_cons, List.filter_cons]
  split <;> split <;> simp_all

end StrMap

end BitRouter
