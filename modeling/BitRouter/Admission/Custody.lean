import BitRouter.Admission.World

/-!
# Custody

Who owns what, apart from every counter: the leases held, the entries of
bound reservations, the completions both point at, the repairs. A reservation
is in one place of the two – a lease not bound yet, or the entry it has been
bound to – and `Custody.load` sums what is charged for all of them, for any
set of tenants and each `Kind` of charge. `Custody.Sound` says how leases,
entries and completions point at each other.

Every counter of the controller is one of these loads (`Books`), so what a
critical section does to the counters is compared with what it does to the
custody, once for each operation below.
-/

namespace BitRouter.Admission

open Tenancy

/-- What a tenant is charged with. -/
inductive Kind
  /-- A slot in use. -/
  | active
  /-- An obligation that may come without a record of it. -/
  | uncovered
  /-- A completion that may still be written. -/
  | live
  /-- A row under repair. -/
  | repair

/-- What a lease carries by itself: its slot, and its reservation until it is
bound. -/
def Completion.share (c : Completion) : Kind → ℕ
  | .active => 1
  | .uncovered => c.execution.isNone.toNat
  | .live => c.execution.isNone.toNat
  | .repair => 0

/-- What an entry carries: its reservation, and the slot of a dropped lease. -/
def Live.share (done : Bool) (live : Live) : Kind → ℕ
  | .active => live.dropped.toNat
  | .uncovered => (!done && !live.covered).toNat
  | .live => (!done).toNat
  | .repair => live.repair.toNat

/-- **Who owns what.** -/
structure Custody where
  entries : Std.TreeMap Key Live
  completions : ℕ → Completion
  leases : List Lease
  repairs : List Repair
  nextId : ℕ

/-- The custody of a controller and its callers. -/
def custody (s : State) (o : Held) : Custody where
  entries := s.executions
  completions := s.completions
  leases := o.leases
  repairs := o.repairs
  nextId := o.nextId

namespace Custody

variable {c : Custody} {p : TenantId → Bool} {κ : Kind}

def leaseShare (c : Custody) (p : TenantId → Bool) (kind : Kind) (l : Lease) : ℕ :=
  if p l.tenant then (c.completions l.completion).share kind else 0

/-- The charge of an entry, where its tenant counts. -/
def entryShare (c : Custody) (p : TenantId → Bool) (kind : Kind) (k : Key) (live : Live) : ℕ :=
  if p k.tenant then live.share (c.completions live.owner).done kind else 0

/-- **What is charged in all** to the tenants of `p`. -/
def load (c : Custody) (p : TenantId → Bool) (kind : Kind) : ℕ :=
  (c.leases.map (c.leaseShare p kind)).sum + entryTotal (c.entryShare p kind) c.entries

/-- **How leases, entries and completions point at each other.** -/
structure Sound (c : Custody) : Prop where
  /-- An address not given out holds a new completion. -/
  fresh : ∀ id, c.nextId ≤ id → c.completions id = {}
  lease_lt : ∀ l ∈ c.leases, l.completion < c.nextId
  lease_nodup : (c.leases.map Lease.completion).Nodup
  /-- A lease not bound has its reservation. -/
  unbound : ∀ l ∈ c.leases, (c.completions l.completion).execution = none →
    (c.completions l.completion).done = false
  /-- A bound lease has its entry. -/
  bound : ∀ l ∈ c.leases, ∀ x, (c.completions l.completion).execution = some x →
    ∃ live : Live, c.entries[(⟨l.tenant, x⟩ : Key)]? = some live ∧ live.owner = l.completion
      ∧ live.repair = false ∧ live.dropped = false
  entry : ∀ (k : Key) (live : Live), c.entries[k]? = some live →
    live.owner < c.nextId ∧ (c.completions live.owner).execution = some k.execution
  /-- The entry of a lease that has not been dropped. -/
  held : ∀ (k : Key) (live : Live), c.entries[k]? = some live → live.repair = false →
    live.dropped = false →
    (⟨k.tenant, live.owner⟩ : Lease) ∈ c.leases
  /-- The entry of a dropped lease or of a repair has its reservation, and no
  lease. -/
  loose : ∀ (k : Key) (live : Live), c.entries[k]? = some live →
    (live.repair = true ∨ live.dropped = true) →
    (c.completions live.owner).done = false ∧ ∀ l ∈ c.leases, l.completion ≠ live.owner
  dropped : ∀ (k : Key) (live : Live), c.entries[k]? = some live → live.dropped = true →
    live.pending = true ∧ live.repair = false
  inj : ∀ (k k' : Key) (live live' : Live), c.entries[k]? = some live →
    c.entries[k']? = some live' →
    live.owner = live'.owner → k = k'
  repair_nodup : (c.repairs.flatMap Repair.keys).Nodup
  repair_entry : ∀ r ∈ c.repairs, ∀ k ∈ r.keys, k.tenant = r.tenant ∧
    ∃ live : Live, c.entries[k]? = some live ∧ live.repair = true

/-! ## The loads of one tenant and of all -/

theorem load_uncovered_le_live : c.load p .uncovered ≤ c.load p .live := by
  refine Nat.add_le_add (List.sum_le_sum (fun l _ => ?_)) (entryTotal_le (fun k live _ => ?_))
  · unfold leaseShare
    split <;> simp [Completion.share]
  · unfold entryShare
    split
    · cases (c.completions live.owner).done <;> simp [Live.share, Bool.toNat_le]
    · exact le_rfl

theorem Sound.load_repair_le_live (h : c.Sound) : c.load p .repair ≤ c.load p .live := by
  refine Nat.add_le_add (List.sum_le_sum (fun l _ => ?_)) (entryTotal_le (fun k live hk => ?_))
  · unfold leaseShare
    split <;> simp [Completion.share]
  · unfold entryShare
    split
    · cases hr : live.repair with
      | false => simp [Live.share, hr]
      | true =>
        have hdone := (h.loose k live hk (Or.inl hr)).1
        simp [Live.share, hr, hdone]
    · exact le_rfl

theorem share_le_load {k : Key} {live : Live} (hk : c.entries[k]? = some live) :
    c.entryShare p κ k live ≤ c.load p κ := by
  have h := entryAt_le_entryTotal (c.entryShare p κ) c.entries k
  rw [entryAt_of_get hk] at h
  exact le_trans h (Nat.le_add_left _ _)

theorem leaseShare_le_load {l : Lease} (hl : l ∈ c.leases) :
    c.leaseShare p κ l ≤ c.load p κ :=
  le_trans (List.single_le_sum (fun _ _ => Nat.zero_le _) _ (List.mem_map_of_mem hl))
    (Nat.le_add_right _ _)

theorem leases_perm {l : Lease} (hl : l ∈ c.leases) : c.leases.Perm (l :: c.leases.erase l) :=
  List.perm_cons_erase hl

theorem Sound.completion_ne (h : c.Sound) {l : Lease} (hl : l ∈ c.leases) :
    ∀ l' ∈ c.leases.erase l, l'.completion ≠ l.completion := by
  have hnodup := ((leases_perm hl).map Lease.completion).nodup_iff.mp h.lease_nodup
  rw [List.map_cons, List.nodup_cons] at hnodup
  intro l' hl' heq
  exact hnodup.1 (heq ▸ List.mem_map_of_mem hl')

theorem leaseLoad_erase {l : Lease} (hl : l ∈ c.leases) :
    ((c.leases.erase l).map (c.leaseShare p κ)).sum + c.leaseShare p κ l
      = (c.leases.map (c.leaseShare p κ)).sum := by
  rw [((leases_perm hl).map _).sum_eq, List.map_cons, List.sum_cons]
  exact Nat.add_comm _ _

/-! ## A new lease -/

def grant (c : Custody) (tenant : TenantId) : Custody :=
  { c with
    leases := { tenant := tenant, completion := c.nextId } :: c.leases
    nextId := c.nextId + 1 }

/-- The charge of a lease that has just been granted. -/
def newShare : Kind → ℕ := ({} : Completion).share

theorem Sound.load_grant (h : c.Sound) (tenant : TenantId) :
    (c.grant tenant).load p κ
      = c.load p κ + if p tenant then newShare κ else 0 := by
  have hnew : (c.grant tenant).leaseShare p κ ⟨tenant, c.nextId⟩
      = if p tenant then newShare κ else 0 := by
    show (if p tenant then (c.completions c.nextId).share κ else 0) = _
    rw [h.fresh c.nextId le_rfl]
    rfl
  have hload : (c.grant tenant).load p κ
      = (c.grant tenant).leaseShare p κ ⟨tenant, c.nextId⟩ + c.load p κ :=
    Nat.add_assoc _ _ _
  rw [hload, hnew, Nat.add_comm]

theorem Sound.grant (h : c.Sound) (tenant : TenantId) : (c.grant tenant).Sound where
  fresh id hid := h.fresh id (Nat.le_of_succ_le hid)
  lease_lt := List.forall_mem_cons.mpr
    ⟨Nat.lt_succ_self _, fun l hl => Nat.lt_succ_of_lt (h.lease_lt l hl)⟩
  lease_nodup := by
    refine List.nodup_cons.mpr ⟨fun hmem => ?_, h.lease_nodup⟩
    obtain ⟨l, hl, heq⟩ := List.mem_map.mp hmem
    exact absurd (h.lease_lt l hl) (heq ▸ Nat.lt_irrefl _)
  unbound := List.forall_mem_cons.mpr ⟨fun _ => by
    show (c.completions c.nextId).done = false
    rw [h.fresh c.nextId le_rfl], h.unbound⟩
  bound := List.forall_mem_cons.mpr ⟨fun x hx => by
    have hnone : (c.completions c.nextId).execution = none := by rw [h.fresh c.nextId le_rfl]
    exact absurd (hnone.symm.trans hx) (by simp), h.bound⟩
  entry k live hk := ⟨Nat.lt_succ_of_lt (h.entry k live hk).1, (h.entry k live hk).2⟩
  held k live hk hr hd := List.mem_cons_of_mem _ (h.held k live hk hr hd)
  loose k live hk hloose := by
    obtain ⟨hdone, hne⟩ := h.loose k live hk hloose
    refine ⟨hdone, List.forall_mem_cons.mpr ⟨fun heq => ?_, hne⟩⟩
    exact absurd (h.entry k live hk).1 (heq ▸ Nat.lt_irrefl _)
  dropped := h.dropped
  inj := h.inj
  repair_nodup := h.repair_nodup
  repair_entry := h.repair_entry

/-! ## Binding a lease -/

def bind (c : Custody) (l : Lease) (execution : ExecutionId) : Custody :=
  { c with
    completions := Function.update c.completions l.completion
      { c.completions l.completion with execution := some execution }
    entries := c.entries.insert ⟨l.tenant, execution⟩ { owner := l.completion } }

section Bind

variable {l : Lease} {execution : ExecutionId}

theorem bind_completion_ne {id : ℕ} (hid : id ≠ l.completion) :
    (c.bind l execution).completions id = c.completions id :=
  Function.update_of_ne hid _ _

@[simp] theorem bind_completion_self :
    (c.bind l execution).completions l.completion
      = { c.completions l.completion with execution := some execution } :=
  Function.update_self _ _ _

@[simp] theorem bind_done (id : ℕ) :
    ((c.bind l execution).completions id).done = (c.completions id).done := by
  by_cases hid : id = l.completion
  · subst hid
    rw [bind_completion_self]
  · rw [bind_completion_ne hid]

section

variable (h : c.Sound) (hl : l ∈ c.leases) (hnone : (c.completions l.completion).execution = none)
  (hkey : c.entries[(⟨l.tenant, execution⟩ : Key)]? = none)

include h hl hnone hkey

/-- **Binding moves a reservation from the lease to its entry.** -/
theorem Sound.load_bind :
    (c.bind l execution).load p κ = c.load p κ := by
  have hdone := h.unbound l hl hnone
  have hrest : (c.leases.erase l).map ((c.bind l execution).leaseShare p κ)
      = (c.leases.erase l).map (c.leaseShare p κ) :=
    List.map_congr_left (fun l' hl' => by
      unfold leaseShare
      rw [bind_completion_ne (h.completion_ne hl l' hl')])
  have hleases := leaseLoad_erase (c := c.bind l execution) (p := p) (κ := κ) hl
  have hleases' := leaseLoad_erase (p := p) (κ := κ) hl
  have hentries := entryTotal_insert ((c.bind l execution).entryShare p κ) c.entries
    ⟨l.tenant, execution⟩ { owner := l.completion }
  have hsame : entryTotal ((c.bind l execution).entryShare p κ) c.entries
      = entryTotal (c.entryShare p κ) c.entries :=
    entryTotal_congr (fun k live _ => by unfold entryShare; rw [bind_done])
  rw [entryAt_of_absent hkey, hsame] at hentries
  have hmoved : (c.bind l execution).leaseShare p κ l
      + (c.bind l execution).entryShare p κ ⟨l.tenant, execution⟩ { owner := l.completion }
      = c.leaseShare p κ l := by
    unfold leaseShare entryShare
    cases κ <;> simp [Completion.share, Live.share, hnone, hdone]
  show ((c.bind l execution).leases.map _).sum + entryTotal _ (c.entries.insert _ _) = _
  change ((c.leases.erase l).map _).sum + _ = (c.leases.map _).sum at hleases
  rw [hrest] at hleases
  unfold load
  change (c.leases.map _).sum + _ = _
  omega

theorem Sound.bind :
    (c.bind l execution).Sound := by
  have hother : ∀ (k : Key) (live : Live), c.entries[k]? = some live →
      live.owner ≠ l.completion := by
    intro k live hk heq
    have := (h.entry k live hk).2
    rw [heq, hnone] at this
    exact absurd this (by simp)
  have hget : ∀ (k : Key) (live : Live), (c.bind l execution).entries[k]? = some live →
      (k = ⟨l.tenant, execution⟩ ∧ live = { owner := l.completion })
          ∨ c.entries[k]? = some live := by
    intro k live hk
    rw [show (c.bind l execution).entries = c.entries.insert _ _ from rfl,
      Std.TreeMap.getElem?_insert] at hk
    split at hk
    · next heq =>
      exact Or.inl ⟨(Std.LawfulEqOrd.eq_of_compare heq).symm, (Option.some.inj hk).symm⟩
    · exact Or.inr hk
  have hkeep : ∀ (k : Key) (live : Live), c.entries[k]? = some live →
      (c.bind l execution).entries[k]? = some live := by
    intro k live hk
    rw [show (c.bind l execution).entries = c.entries.insert _ _ from rfl,
      Std.TreeMap.getElem?_insert, if_neg, hk]
    intro heq
    rw [← Std.LawfulEqOrd.eq_of_compare heq, hkey] at hk
    exact absurd hk (by simp)
  refine
    { fresh := fun id hid => ?_
      lease_lt := h.lease_lt
      lease_nodup := h.lease_nodup
      unbound := fun l' hl' hx => ?_
      bound := fun l' hl' x hx => ?_
      entry := fun k live hk => ?_
      held := fun k live hk hr hd => ?_
      loose := fun k live hk hloose => ?_
      dropped := fun k live hk hd => ?_
      inj := fun k k' live live' hk hk' howner => ?_
      repair_nodup := h.repair_nodup
      repair_entry := fun r hr k hk => ?_ }
  · rw [bind_completion_ne (Nat.ne_of_gt (lt_of_lt_of_le (h.lease_lt l hl) hid))]
    exact h.fresh id hid
  · by_cases hid : l'.completion = l.completion
    · rw [hid, bind_completion_self] at hx
      exact absurd hx (by simp)
    · rw [bind_completion_ne hid] at hx ⊢
      exact h.unbound l' hl' hx
  · by_cases hid : l'.completion = l.completion
    · obtain rfl : l' = l := by
        have hperm := leases_perm hl
        rcases List.mem_cons.mp (hperm.mem_iff.mp hl') with heq | hmem
        · exact heq
        · exact absurd hid (h.completion_ne hl l' hmem)
      obtain rfl : execution = x := by simpa using hx
      refine ⟨{ owner := l'.completion }, ?_, rfl, rfl, rfl⟩
      exact Std.TreeMap.getElem?_insert_self
    · rw [bind_completion_ne hid] at hx
      obtain ⟨live, hlive, hrest⟩ := h.bound l' hl' x hx
      exact ⟨live, hkeep _ _ hlive, hrest⟩
  · rcases hget k live hk with ⟨rfl, rfl⟩ | hold
    · refine ⟨h.lease_lt l hl, ?_⟩
      rw [bind_completion_self]
    · rw [bind_completion_ne (hother k live hold)]
      exact h.entry k live hold
  · rcases hget k live hk with ⟨rfl, rfl⟩ | hold
    · exact hl
    · exact h.held k live hold hr hd
  · rcases hget k live hk with ⟨rfl, rfl⟩ | hold
    · simp at hloose
    · rw [bind_done]
      exact h.loose k live hold hloose
  · rcases hget k live hk with ⟨rfl, rfl⟩ | hold
    · simp at hd
    · exact h.dropped k live hold hd
  · rcases hget k live hk with ⟨rfl, rfl⟩ | hold
    · rcases hget k' live' hk' with ⟨rfl, rfl⟩ | hold'
      · rfl
      · exact absurd howner.symm (hother k' live' hold')
    · rcases hget k' live' hk' with ⟨rfl, rfl⟩ | hold'
      · exact absurd howner (hother k live hold)
      · exact h.inj k k' live live' hold hold' howner
  · obtain ⟨htenant, live, hlive, hrepair⟩ := h.repair_entry r hr k hk
    exact ⟨htenant, live, hkeep _ _ hlive, hrepair⟩

end

end Bind

/-! ## The completion of an owner -/

def complete (c : Custody) (owner : ℕ) : Custody :=
  { c with completions :=
    Function.update c.completions owner { c.completions owner with done := true } }

@[simp] theorem complete_execution (owner id : ℕ) :
    ((c.complete owner).completions id).execution = (c.completions id).execution := by
  by_cases hid : id = owner
  · subst hid
    simp [complete]
  · simp [complete, Function.update_of_ne hid]

theorem complete_ne {owner id : ℕ} (hid : id ≠ owner) :
    (c.complete owner).completions id = c.completions id :=
  Function.update_of_ne hid _ _

@[simp] theorem complete_done_self (owner : ℕ) :
    ((c.complete owner).completions owner).done = true := by
  simp [complete]

@[simp] theorem leaseShare_complete (owner : ℕ) :
    (c.complete owner).leaseShare p κ = c.leaseShare p κ := by
  funext l
  unfold leaseShare
  cases κ <;> simp [Completion.share]

theorem entryShare_complete {owner : ℕ} {k : Key} {live : Live} (hne : live.owner ≠ owner) :
    (c.complete owner).entryShare p κ k live = c.entryShare p κ k live := by
  unfold entryShare
  rw [complete_ne hne]

/-! ## Releasing a lease -/

def release (c : Custody) (l : Lease) (key : Option Key) : Custody :=
  { c.complete l.completion with
    leases := c.leases.erase l
    entries := key.elim c.entries c.entries.erase }

/-- The drop of a lease whose entry a publication holds. -/
def defer (c : Custody) (l : Lease) (k : Key) (live : Live) : Custody :=
  { c with leases := c.leases.erase l, entries := c.entries.insert k { live with dropped := true } }

section Release

variable {l : Lease} {k : Key} {live : Live}

/-- The address of a lease is the owner of no entry but its own. -/
theorem Sound.owner_ne_of_unbound (h : c.Sound)
    (hnone : (c.completions l.completion).execution = none) {k : Key} {live : Live}
    (hk : c.entries[k]? = some live) : live.owner ≠ l.completion := by
  intro heq
  have hx := (h.entry k live hk).2
  rw [heq, hnone] at hx
  exact absurd hx (by simp)

theorem Sound.owner_ne_of_ne (h : c.Sound) (hk : c.entries[k]? = some live) {k' : Key}
    {live' : Live} (hk' : c.entries[k']? = some live') (hne : k' ≠ k) :
    live'.owner ≠ live.owner :=
  fun heq => hne (h.inj k' k live' live hk' hk heq)

theorem get_erase {m : Std.TreeMap Key Live} {k k' : Key} {live : Live} :
    (m.erase k)[k']? = some live ↔ k' ≠ k ∧ m[k']? = some live := by
  rw [Std.TreeMap.getElem?_erase]
  by_cases heq : k = k'
  · subst heq
    simp
  · rw [if_neg (by rwa [Std.LawfulEqOrd.compare_eq_iff_eq])]
    exact ⟨fun h => ⟨Ne.symm heq, h⟩, And.right⟩

theorem get_insert {m : Std.TreeMap Key Live} {k k' : Key} {v live : Live} :
    (m.insert k v)[k']? = some live ↔ (k' = k ∧ live = v) ∨ (k' ≠ k ∧ m[k']? = some live) := by
  rw [Std.TreeMap.getElem?_insert]
  by_cases heq : k = k'
  · subst heq
    simp [eq_comm]
  · rw [if_neg (by rwa [Std.LawfulEqOrd.compare_eq_iff_eq])]
    exact ⟨fun h => Or.inr ⟨Ne.symm heq, h⟩,
      fun h => h.elim (fun h => absurd h.1.symm heq) And.right⟩

/-- **Releasing a lease takes its charge out**, where it is not bound. -/
theorem Sound.load_release_unbound (h : c.Sound) (hl : l ∈ c.leases)
    (hnone : (c.completions l.completion).execution = none) :
    (c.release l none).load p κ + c.leaseShare p κ l = c.load p κ := by
  have hleases := leaseLoad_erase (p := p) (κ := κ) hl
  have hentries : entryTotal ((c.complete l.completion).entryShare p κ) c.entries
      = entryTotal (c.entryShare p κ) c.entries :=
    entryTotal_congr (fun k live hk => entryShare_complete (h.owner_ne_of_unbound hnone hk))
  have hload : (c.release l none).load p κ
      = ((c.leases.erase l).map ((c.complete l.completion).leaseShare p κ)).sum
        + entryTotal ((c.complete l.completion).entryShare p κ) c.entries := rfl
  rw [hload, hentries, leaseShare_complete]
  unfold load
  omega

/-- **Releasing a bound lease takes its charge and its entry's out.** -/
theorem Sound.load_release_bound (h : c.Sound) (hl : l ∈ c.leases)
    (hk : c.entries[k]? = some live) (howner : live.owner = l.completion) :
    (c.release l (some k)).load p κ + (c.leaseShare p κ l + c.entryShare p κ k live)
      = c.load p κ := by
  have hleases := leaseLoad_erase (p := p) (κ := κ) hl
  have hentries := entryTotal_erase (c.entryShare p κ) c.entries k
  have hsame : entryTotal ((c.complete l.completion).entryShare p κ) (c.entries.erase k)
      = entryTotal (c.entryShare p κ) (c.entries.erase k) :=
    entryTotal_congr (fun k' live' hk' => by
      obtain ⟨hne, hold⟩ := get_erase.mp hk'
      exact entryShare_complete (howner ▸ h.owner_ne_of_ne hk hold hne))
  have hload : (c.release l (some k)).load p κ
      = ((c.leases.erase l).map ((c.complete l.completion).leaseShare p κ)).sum
        + entryTotal ((c.complete l.completion).entryShare p κ) (c.entries.erase k) := rfl
  rw [entryAt_of_get hk] at hentries
  rw [hload, hsame, leaseShare_complete]
  unfold load
  omega

/-- **A deferred release changes no charge**: the slot moves to the entry. -/
theorem Sound.load_defer (h : c.Sound) (hl : l ∈ c.leases) (hk : c.entries[k]? = some live)
    (htenant : k.tenant = l.tenant) (howner : live.owner = l.completion)
    (hdropped : live.dropped = false) : (c.defer l k live).load p κ = c.load p κ := by
  have hleases := leaseLoad_erase (p := p) (κ := κ) hl
  have hentries := entryTotal_insert (c.entryShare p κ) c.entries k { live with dropped := true }
  have hbound : (c.completions l.completion).execution = some k.execution :=
    howner ▸ (h.entry k live hk).2
  have hmoved : c.entryShare p κ k { live with dropped := true }
      = c.leaseShare p κ l + c.entryShare p κ k live := by
    unfold entryShare leaseShare
    rw [htenant]
    cases κ <;> cases p l.tenant
      <;> simp [Completion.share, Live.share, hbound, hdropped]
  have hload : (c.defer l k live).load p κ
      = ((c.leases.erase l).map (c.leaseShare p κ)).sum
        + entryTotal (c.entryShare p κ) (c.entries.insert k { live with dropped := true }) := rfl
  rw [entryAt_of_get hk] at hentries
  rw [hload]
  unfold load
  omega

theorem mem_erase_ne (h : c.Sound) {l l' : Lease} (hl : l ∈ c.leases) :
    l' ∈ c.leases.erase l ↔ l' ∈ c.leases ∧ l'.completion ≠ l.completion := by
  constructor
  · exact fun hl' => ⟨List.mem_of_mem_erase hl', h.completion_ne hl l' hl'⟩
  · rintro ⟨hmem, hne⟩
    exact (List.mem_erase_of_ne (fun heq => hne (by rw [heq]))).mpr hmem

theorem Sound.release_unbound (h : c.Sound) (hl : l ∈ c.leases)
    (hnone : (c.completions l.completion).execution = none) : (c.release l none).Sound where
  fresh id hid := by
    rw [show (c.release l none).completions = (c.complete l.completion).completions from rfl,
      complete_ne (Nat.ne_of_gt (lt_of_lt_of_le (h.lease_lt l hl) hid))]
    exact h.fresh id hid
  lease_lt l' hl' := h.lease_lt l' (List.mem_of_mem_erase hl')
  lease_nodup := h.lease_nodup.sublist (List.Sublist.map _ List.erase_sublist)
  unbound l' hl' hx := by
    obtain ⟨hmem, hne⟩ := (mem_erase_ne h hl).mp hl'
    have hsame := complete_ne (c := c) hne
    exact hsame ▸ h.unbound l' hmem (hsame ▸ hx)
  bound l' hl' x hx := by
    obtain ⟨hmem, hne⟩ := (mem_erase_ne h hl).mp hl'
    exact h.bound l' hmem x (complete_ne (c := c) hne ▸ hx)
  entry k live hk := by
    obtain ⟨hlt, hx⟩ := h.entry k live hk
    exact ⟨hlt, (complete_execution (c := c) _ _).trans hx⟩
  held k live hk hr hd := by
    refine (mem_erase_ne h hl).mpr ⟨h.held k live hk hr hd, ?_⟩
    exact h.owner_ne_of_unbound hnone hk
  loose k live hk hloose := by
    obtain ⟨hdone, hne⟩ := h.loose k live hk hloose
    refine ⟨?_, fun l' hl' => hne l' (List.mem_of_mem_erase hl')⟩
    rw [show (c.release l none).completions = (c.complete l.completion).completions from rfl,
      complete_ne (h.owner_ne_of_unbound hnone hk)]
    exact hdone
  dropped := h.dropped
  inj := h.inj
  repair_nodup := h.repair_nodup
  repair_entry := h.repair_entry

theorem Sound.release_bound (h : c.Sound) (hl : l ∈ c.leases) (hk : c.entries[k]? = some live)
    (howner : live.owner = l.completion) (hrepair : live.repair = false) :
    (c.release l (some k)).Sound where
  fresh id hid := by
    rw [show (c.release l (some k)).completions = (c.complete l.completion).completions from rfl,
      complete_ne (Nat.ne_of_gt (lt_of_lt_of_le (h.lease_lt l hl) hid))]
    exact h.fresh id hid
  lease_lt l' hl' := h.lease_lt l' (List.mem_of_mem_erase hl')
  lease_nodup := h.lease_nodup.sublist (List.Sublist.map _ List.erase_sublist)
  unbound l' hl' hx := by
    obtain ⟨hmem, hne⟩ := (mem_erase_ne h hl).mp hl'
    have hsame := complete_ne (c := c) hne
    exact hsame ▸ h.unbound l' hmem (hsame ▸ hx)
  bound l' hl' x hx := by
    obtain ⟨hmem, hne⟩ := (mem_erase_ne h hl).mp hl'
    obtain ⟨live', hlive', howner', hrest⟩ :=
      h.bound l' hmem x (complete_ne (c := c) hne ▸ hx)
    refine ⟨live', get_erase.mpr ⟨fun heq => ?_, hlive'⟩, howner', hrest⟩
    rw [heq, hk] at hlive'
    obtain rfl := Option.some.inj hlive'
    exact hne (howner'.symm.trans howner)
  entry k' live' hk' := by
    obtain ⟨hlt, hx⟩ := h.entry k' live' (get_erase.mp hk').2
    exact ⟨hlt, (complete_execution (c := c) _ _).trans hx⟩
  held k' live' hk' hr hd := by
    obtain ⟨hne, hold⟩ := get_erase.mp hk'
    refine (mem_erase_ne h hl).mpr ⟨h.held k' live' hold hr hd, ?_⟩
    exact howner ▸ h.owner_ne_of_ne hk hold hne
  loose k' live' hk' hloose := by
    obtain ⟨hne, hold⟩ := get_erase.mp hk'
    obtain ⟨hdone, hlease⟩ := h.loose k' live' hold hloose
    refine ⟨?_, fun l' hl' => hlease l' (List.mem_of_mem_erase hl')⟩
    rw [show (c.release l (some k)).completions = (c.complete l.completion).completions from rfl,
      complete_ne (howner ▸ h.owner_ne_of_ne hk hold hne)]
    exact hdone
  dropped k' live' hk' := h.dropped k' live' (get_erase.mp hk').2
  inj a b x y ha hb := h.inj a b x y (get_erase.mp ha).2 (get_erase.mp hb).2
  repair_nodup := h.repair_nodup
  repair_entry r hr k' hk' := by
    obtain ⟨htenant, live', hlive', hr'⟩ := h.repair_entry r hr k' hk'
    refine ⟨htenant, live', get_erase.mpr ⟨fun heq => ?_, hlive'⟩, hr'⟩
    rw [heq, hk] at hlive'
    obtain rfl := Option.some.inj hlive'
    exact absurd hr' (by rw [hrepair]; simp)

theorem Sound.defer (h : c.Sound) (hl : l ∈ c.leases) (hk : c.entries[k]? = some live)
    (howner : live.owner = l.completion) (hrepair : live.repair = false)
    (hpending : live.pending = true) (hdone : (c.completions l.completion).done = false) :
    (c.defer l k live).Sound where
  fresh := h.fresh
  lease_lt l' hl' := h.lease_lt l' (List.mem_of_mem_erase hl')
  lease_nodup := h.lease_nodup.sublist (List.Sublist.map _ List.erase_sublist)
  unbound l' hl' := h.unbound l' (List.mem_of_mem_erase hl')
  bound l' hl' x hx := by
    obtain ⟨hmem, hne⟩ := (mem_erase_ne h hl).mp hl'
    obtain ⟨live', hlive', howner', hrest⟩ := h.bound l' hmem x hx
    refine ⟨live', get_insert.mpr (Or.inr ⟨fun heq => ?_, hlive'⟩), howner', hrest⟩
    rw [heq, hk] at hlive'
    obtain rfl := Option.some.inj hlive'
    exact hne (howner'.symm.trans howner)
  entry k' live' hk' := by
    rcases get_insert.mp hk' with ⟨rfl, rfl⟩ | ⟨-, hold⟩
    · exact h.entry k' live hk
    · exact h.entry k' live' hold
  held k' live' hk' hr hd := by
    rcases get_insert.mp hk' with ⟨rfl, rfl⟩ | ⟨hne, hold⟩
    · simp at hd
    · refine (mem_erase_ne h hl).mpr ⟨h.held k' live' hold hr hd, ?_⟩
      exact howner ▸ h.owner_ne_of_ne hk hold hne
  loose k' live' hk' hloose := by
    rcases get_insert.mp hk' with ⟨rfl, rfl⟩ | ⟨hne, hold⟩
    · refine ⟨howner ▸ hdone, fun l' hl' => ?_⟩
      exact howner ▸ ((mem_erase_ne h hl).mp hl').2
    · obtain ⟨hdone', hlease⟩ := h.loose k' live' hold hloose
      exact ⟨hdone', fun l' hl' => hlease l' (List.mem_of_mem_erase hl')⟩
  dropped k' live' hk' hd := by
    rcases get_insert.mp hk' with ⟨rfl, rfl⟩ | ⟨-, hold⟩
    · exact ⟨hpending, hrepair⟩
    · exact h.dropped k' live' hold hd
  inj a b x y ha hb hxy := by
    rcases get_insert.mp ha with ⟨rfl, rfl⟩ | ⟨-, ha'⟩
    · rcases get_insert.mp hb with ⟨rfl, rfl⟩ | ⟨-, hb'⟩
      · rfl
      · exact h.inj a b live y hk hb' hxy
    · rcases get_insert.mp hb with ⟨rfl, rfl⟩ | ⟨-, hb'⟩
      · exact h.inj a b x live ha' hk hxy
      · exact h.inj a b x y ha' hb' hxy
  repair_nodup := h.repair_nodup
  repair_entry r hr k' hk' := by
    obtain ⟨htenant, live', hlive', hr'⟩ := h.repair_entry r hr k' hk'
    refine ⟨htenant, live', get_insert.mpr (Or.inr ⟨fun heq => ?_, hlive'⟩), hr'⟩
    rw [heq, hk] at hlive'
    obtain rfl := Option.some.inj hlive'
    exact absurd hr' (by rw [hrepair]; simp)

end Release

end Custody

end BitRouter.Admission
