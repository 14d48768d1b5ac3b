import Mathlib.Data.List.Basic
import Mathlib.Tactic.Common

/-!
# Insertion-ordered maps

A map that remembers insertion order, as its list of entries: a lookup
takes the first entry of its key, an insertion replaces that entry where it
stands or appends one, and a removal keeps the order of the rest. The
lemmas say what each operation does to a lookup and to the set of keys;
nothing else about the order is used.
-/

namespace BitRouter.IndexMap

variable {κ α : Type*} [DecidableEq κ]

/-- The value of a key. -/
def get : List (κ × α) → κ → Option α
  | [], _ => none
  | (k', v) :: m, k => if k' = k then some v else get m k

/-- Replace the value of a key, or append the key. -/
def insert : List (κ × α) → κ → α → List (κ × α)
  | [], k, v => [(k, v)]
  | (k', v') :: m, k, v => if k' = k then (k', v) :: m else (k', v') :: insert m k v

/-- Remove a key; the other entries stay in order. -/
def erase (m : List (κ × α)) (k : κ) : List (κ × α) := m.filter (fun e => e.1 ≠ k)

/-- The keys, in insertion order. -/
def keys (m : List (κ × α)) : List κ := m.map Prod.fst

attribute [local grind =] get insert

@[simp] theorem get_nil (k : κ) : get ([] : List (κ × α)) k = none := rfl

@[simp] theorem get_insert_self (m : List (κ × α)) (k : κ) (v : α) :
    get (insert m k v) k = some v := by
  induction m with
  | nil => simp [insert, get]
  | cons e m ih =>
    rw [insert]
    split
    · simp [get, *]
    · simp [get, *]

variable {k : κ}

theorem get_insert_of_ne (m : List (κ × α)) {k' : κ} (v : α) (h : k ≠ k') :
    get (insert m k v) k' = get m k' := by
  induction m with
  | nil => simp [insert, get, h]
  | cons e m ih =>
    rw [insert]
    split
    · rename_i heq
      simp [get, heq, h]
    · simp only [get]
      rw [ih]

theorem get_insert (m : List (κ × α)) (k k' : κ) (v : α) :
    get (insert m k v) k' = if k = k' then some v else get m k' := by
  split
  · rename_i h
    rw [h, get_insert_self]
  · rename_i h
    exact get_insert_of_ne m v h

variable {m : List (κ × α)} {v : α}

theorem insert_of_get_eq_none (h : get m k = none) :
    insert m k v = m ++ [(k, v)] := by
  induction m with
  | nil => rfl
  | cons e m ih =>
    rw [get] at h
    rw [insert]
    split at h
    · cases h
    · next hne => rw [if_neg hne, ih h, List.cons_append]

/-- Writing back what a key holds changes nothing. -/
theorem insert_of_get_eq_some (h : get m k = some v) :
    insert m k v = m := by
  induction m with
  | nil => cases h
  | cons e m ih =>
    rw [get] at h
    rw [insert]
    split
    · next heq =>
      rw [if_pos heq] at h
      rw [← Option.some.inj h]
    · next hne =>
      rw [if_neg hne] at h
      rw [ih h]

theorem mem_of_get_eq_some (h : get m k = some v) :
    (k, v) ∈ m := by
  induction m with
  | nil => simp at h
  | cons e m ih =>
    rw [get] at h
    split at h
    · rename_i heq
      obtain rfl := Option.some.inj h
      rw [← heq]
      exact List.mem_cons_self
    · exact List.mem_cons_of_mem _ (ih h)

theorem get_eq_none_iff : get m k = none ↔ k ∉ keys m := by
  induction m with
  | nil => simp [keys]
  | cons e m ih =>
    rw [get]
    split
    · rename_i heq
      simp [keys, heq]
    · rename_i hne
      rw [ih]
      simp [keys, Ne.symm hne]

theorem get_isSome_iff : (get m k).isSome ↔ k ∈ keys m := by
  rw [Option.isSome_iff_ne_none, ne_eq, get_eq_none_iff, not_not]

theorem get_eq_some_of_mem (hm : (keys m).Nodup) (h : (k, v) ∈ m) : get m k = some v := by
  induction m with
  | nil => simp at h
  | cons e m ih =>
    obtain ⟨hnot, hnodup⟩ := List.nodup_cons.mp hm
    rcases List.mem_cons.mp h with rfl | htail
    · simp [get]
    · have hne : e.1 ≠ k := by
        rintro rfl
        exact hnot (List.mem_map.mpr ⟨_, htail, rfl⟩)
      rw [get, if_neg hne]
      exact ih hnodup htail

omit [DecidableEq κ] in
theorem mem_keys_of_mem {e : κ × α} (h : e ∈ m) : e.1 ∈ keys m :=
  List.mem_map_of_mem h

theorem mem_keys_insert {k' : κ} :
    k' ∈ keys (insert m k v) ↔ k' = k ∨ k' ∈ keys m := by
  rw [← get_isSome_iff, ← get_isSome_iff, get_insert]
  by_cases h : k = k'
  · simp [h]
  · simp [h, Ne.symm h]

theorem mem_insert {e : κ × α} (h : e ∈ insert m k v) : e = (k, v) ∨ e ∈ m := by
  induction m with
  | nil => exact Or.inl (by simpa [insert] using h)
  | cons x m ih =>
    rw [insert] at h
    split at h
    · rename_i heq
      rcases List.mem_cons.mp h with rfl | h
      · exact Or.inl (by rw [heq])
      · exact Or.inr (List.mem_cons_of_mem _ h)
    · rcases List.mem_cons.mp h with rfl | h
      · exact Or.inr List.mem_cons_self
      · exact (ih h).imp id (List.mem_cons_of_mem _)

theorem nodup_keys_insert (hm : (keys m).Nodup) (k : κ) (v : α) :
    (keys (insert m k v)).Nodup := by
  induction m with
  | nil => simp [insert, keys]
  | cons e m ih =>
    obtain ⟨hnot, hnodup⟩ := List.nodup_cons.mp hm
    rw [insert]
    split
    · exact hm
    · rename_i hne
      refine List.nodup_cons.mpr ⟨fun hmem => ?_, ih hnodup⟩
      rcases mem_keys_insert.mp hmem with heq | hmem
      · exact hne heq
      · exact hnot hmem

theorem get_erase (m : List (κ × α)) (k k' : κ) :
    get (erase m k) k' = if k' = k then none else get m k' := by
  unfold erase
  induction m with
  | nil => simp
  | cons e m ih =>
    obtain ⟨x, v⟩ := e
    by_cases hx : x = k
    · rw [List.filter_cons_of_neg (by simpa using hx), ih]
      split
      · rfl
      · rename_i hne
        have hxk : x ≠ k' := fun heq => hne (heq.symm.trans hx)
        rw [get, if_neg hxk]
    · rw [List.filter_cons_of_pos (by simpa using hx), get, get, ih]
      split
      · rename_i heq
        rw [if_neg (fun h => hx (heq.trans h))]
      · rfl

theorem nodup_keys_erase (hm : (keys m).Nodup) (k : κ) :
    (keys (erase m k)).Nodup :=
  hm.sublist (List.filter_sublist.map _)

end BitRouter.IndexMap
