import BitRouter.Routing.State
import Mathlib.Algebra.BigOperators.Group.List.Basic

/-!
# Tables

What the operations of a table do to a lookup, and to what its keys are charged. A
table that grows keeps its entries. What `retain` removes is exactly what is no
longer charged (`charges_retain`).
-/

namespace BitRouter.Routing.Table

variable {κ α : Type} [DecidableEq κ] {table table' : Table κ α} {key key' : κ} {value : α}

/-- Every key once. -/
def Unique (table : Table κ α) : Prop := (IndexMap.keys table.entries).Nodup

/-- What the keys are charged. -/
def charges (charge : κ → ℕ) (table : Table κ α) : ℕ :=
  (table.entries.map fun e => charge e.1).sum

omit [DecidableEq κ] in
theorem unique_empty : Unique ({} : Table κ α) := List.nodup_nil

theorem get_set : (table.set key value).get key'
    = if key = key' then some value else table.get key' :=
  IndexMap.get_insert _ _ _ _

theorem Unique.set (h : table.Unique) : (table.set key value).Unique :=
  IndexMap.nodup_keys_insert h _ _

theorem charges_set (charge : κ → ℕ) : (table.set key value).charges charge
    = table.charges charge + (table.get key).elim 1 (fun _ => 0) * charge key := by
  obtain ⟨entries, capacity⟩ := table
  show ((IndexMap.insert entries key value).map _).sum
    = (entries.map _).sum + (IndexMap.get entries key).elim 1 _ * _
  induction entries with
  | nil => simp [IndexMap.insert, IndexMap.get]
  | cons e entries ih =>
    rw [IndexMap.insert, IndexMap.get]
    split
    · simp
    · rw [List.map_cons, List.sum_cons, List.map_cons, List.sum_cons, ih, Nat.add_assoc]

/-! ## Retention -/

variable {capacity : ℕ} {keep : α → Option α}

def kept (keep : α → Option α) (entries : List (κ × α)) : List (κ × α) :=
  entries.filterMap fun e => (keep e.2).map (e.1, ·)

variable {entries : List (κ × α)}

omit [DecidableEq κ] in
theorem kept_cons_none {e : κ × α} (h : keep e.2 = none) :
    kept keep (e :: entries) = kept keep entries :=
  List.filterMap_cons_none (by rw [h]; rfl)

omit [DecidableEq κ] in
theorem kept_cons_some {e : κ × α} {value : α} (h : keep e.2 = some value) :
    kept keep (e :: entries) = (e.1, value) :: kept keep entries :=
  List.filterMap_cons_some (by rw [h]; rfl)

theorem get_kept (h : (IndexMap.keys entries).Nodup) :
    IndexMap.get (kept keep entries) key = (IndexMap.get entries key).bind keep := by
  induction entries with
  | nil => rfl
  | cons e entries ih =>
    obtain ⟨hfirst, hrest⟩ := List.nodup_cons.mp h
    rw [IndexMap.get]
    cases hkeep : keep e.2 with
    | none =>
      rw [kept_cons_none hkeep, ih hrest]
      split
      · next heq =>
        -- the key was only here
        have hgone : IndexMap.get entries key = none :=
          IndexMap.get_eq_none_iff.mpr fun hmem => hfirst (heq ▸ hmem)
        rw [hgone, Option.bind_none, Option.bind_some, hkeep]
      · rfl
    | some value =>
      rw [kept_cons_some hkeep, IndexMap.get]
      split
      · rw [Option.bind_some, hkeep]
      · exact ih hrest

theorem get_retain (h : table.Unique) :
    (table.retain capacity keep).get key = (table.get key).bind keep := get_kept h

omit [DecidableEq κ] in
theorem keys_kept (entries : List (κ × α)) :
    (IndexMap.keys (kept keep entries)).Sublist (IndexMap.keys entries) := by
  induction entries with
  | nil => exact List.Sublist.refl _
  | cons e entries ih =>
    cases hkeep : keep e.2 with
    | none =>
      rw [kept_cons_none hkeep]
      exact ih.cons _
    | some value =>
      rw [kept_cons_some hkeep]
      exact ih.cons_cons _

omit [DecidableEq κ] in
theorem Unique.retain (h : table.Unique) : (table.retain capacity keep).Unique :=
  h.sublist (keys_kept _)

omit [DecidableEq κ] in
theorem charges_kept (charge : κ → ℕ) (entries : List (κ × α)) :
    ((kept keep entries).map fun e => charge e.1).sum
      + (((entries.filter fun e => (keep e.2).isNone).map Prod.fst).map charge).sum
      = (entries.map fun e => charge e.1).sum := by
  induction entries with
  | nil => rfl
  | cons e entries ih =>
    rw [List.map_cons, List.sum_cons, ← ih, List.filter_cons]
    cases hkeep : keep e.2 with
    | none =>
      rw [kept_cons_none hkeep, if_pos Option.isNone_none, List.map_cons,
        List.map_cons, List.sum_cons]
      exact Nat.add_left_comm _ _ _
    | some value =>
      rw [kept_cons_some hkeep, Option.isNone_some, if_neg Bool.false_ne_true,
        List.map_cons, List.sum_cons]
      exact Nat.add_assoc _ _ _

omit [DecidableEq κ] in
/-- **What is removed is what is no longer charged.** -/
theorem charges_retain (charge : κ → ℕ) (capacity : ℕ) (table : Table κ α)
    (keep : α → Option α) : (table.retain capacity keep).charges charge
      + ((table.removed keep).map charge).sum = table.charges charge :=
  charges_kept charge table.entries

/-! ## Growth -/

omit [DecidableEq κ] in
theorem entries_of_grow {slot charged additional charged' : ℕ} {allocated : Option ℕ}
    (h : table.grow slot allocated charged additional = some (table', charged')) :
    table'.entries = table.entries := by
  unfold grow at h
  dsimp only at h
  split at h
  · obtain ⟨rfl, -⟩ := Prod.mk.inj (Option.some.inj h)
    rfl
  · cases allocated with
    | none => cases h
    | some capacity =>
      dsimp only at h
      split at h
      · obtain ⟨rfl, -⟩ := Prod.mk.inj (Option.some.inj h)
        rfl
      · cases h

end BitRouter.Routing.Table
