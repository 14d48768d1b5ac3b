import BitRouter.Admission.Runs

/-!
# The balance of a controller

What the invariant says in the terms of the counters alone. Every total is
the sum over the tenants that have counts (`Custody.sum_load_only`); a slot
in use is a lease somebody holds, or one whose entry a pending publication
has kept (`Balanced`); and whatever the callers own can be given back
(`Solvent`). Both hold in every state of every run nobody fences.
-/

namespace BitRouter.Admission

open Tenancy
open Receipts (Accounting Inventory reservation)

/-! ## Loads by tenant -/

namespace Custody

variable {c : Custody} {κ : Kind}

/-- **The load of two disjoint sets of tenants.** -/
theorem load_add {p q r : TenantId → Bool}
    (h : ∀ t, (p t).toNat = (q t).toNat + (r t).toNat) : c.load p κ = c.load q κ + c.load r κ := by
  have hpoint : ∀ (t : TenantId) (n : ℕ), (if p t then n else 0)
      = (if q t then n else 0) + (if r t then n else 0) := by
    intro t n
    have hcount := h t
    revert hcount
    cases p t <;> cases q t <;> cases r t <;> simp
  unfold load
  rw [show c.leaseShare p κ = fun l => c.leaseShare q κ l + c.leaseShare r κ l from
      funext (fun l => hpoint l.tenant _),
    show c.entryShare p κ = fun k live => c.entryShare q κ k live + c.entryShare r κ k live from
      funext (fun k => funext (fun live => hpoint k.tenant _)),
    List.sum_map_add, entryTotal_add]
  exact Nat.add_add_add_comm _ _ _ _

/-- The loads of some tenants one by one. -/
theorem sum_load_list {ts : List TenantId} (hts : ts.Nodup) :
    (ts.map (fun t => c.load (only t) κ)).sum = c.load (fun t => decide (t ∈ ts)) κ := by
  induction ts with
  | nil =>
    refine (Nat.add_eq_zero_iff.mpr ⟨List.sum_eq_zero (fun x hx => ?_), ?_⟩).symm
    · obtain ⟨l, -, rfl⟩ := List.mem_map.mp hx
      rfl
    · exact entryTotal_eq_zero (fun _ _ _ => rfl)
  | cons t ts ih =>
    obtain ⟨hnew, hts⟩ := List.nodup_cons.mp hts
    rw [List.map_cons, List.sum_cons, ih hts]
    refine (load_add (fun u => ?_)).symm
    by_cases hu : u = t
    · subst hu
      simp [only, hnew]
    · simp [only, hu]

/-- **The loads of the tenants sum to the load of all**, where the others carry
nothing. -/
theorem sum_load_only {ts : List TenantId} (hts : ts.Nodup)
    (hrest : ∀ t, t ∉ ts → c.load (only t) κ = 0) :
    (ts.map (fun t => c.load (only t) κ)).sum = c.load everyone κ := by
  rw [sum_load_list hts]
  have hlease : ∀ l ∈ c.leases, c.leaseShare (fun t => decide (t ∈ ts)) κ l
      = c.leaseShare everyone κ l := by
    intro l hl
    by_cases ht : l.tenant ∈ ts
    · simp [leaseShare, ht]
    · have hzero := leaseShare_le_load (p := only l.tenant) (κ := κ) hl
      rw [hrest _ ht] at hzero
      simpa [leaseShare, ht, eq_comm] using hzero
  have hentry : ∀ (k : Key) (live : Live), c.entries[k]? = some live →
      c.entryShare (fun t => decide (t ∈ ts)) κ k live = c.entryShare everyone κ k live := by
    intro k live hk
    by_cases ht : k.tenant ∈ ts
    · simp [entryShare, ht]
    · have hzero := share_le_load (p := only k.tenant) (κ := κ) hk
      rw [hrest _ ht] at hzero
      simpa [entryShare, ht, eq_comm] using hzero
  unfold load
  rw [List.map_congr_left hlease, entryTotal_congr hentry]

end Custody

/-- **A counter summed over the tenants is the load of all.** -/
theorem mapTotal_counts {s : State} {c : Custody} {κ : Kind} {f : Counts → ℕ} (hf : f {} = 0)
    (h : ∀ t, f (s.counts t) = c.load (only t) κ) :
    mapTotal f s.tenants = c.load everyone κ := by
  have hkeys : (s.tenants.toList.map Prod.fst).Nodup := by
    refine List.pairwise_map.mpr ?_
    refine (Std.TreeMap.distinct_keys_toList (t := s.tenants)).imp (fun hne heq => hne ?_)
    rw [heq]
    exact Std.ReflOrd.compare_self
  rw [← Custody.sum_load_only hkeys (fun t ht => ?_), List.map_map]
  · refine congrArg List.sum (List.map_congr_left (fun e he => ?_))
    have hget : s.tenants[e.1]? = some e.2 :=
      Std.TreeMap.mem_toList_iff_getElem?_eq_some.mp he
    show f e.2 = c.load (only e.1) κ
    rw [← h, State.counts_of_get hget]
  · rw [← h]
    have hnone : s.tenants[t]? = none := by
      by_contra hsome
      obtain ⟨v, hv⟩ := Option.ne_none_iff_exists'.mp hsome
      exact ht (List.mem_map.mpr
        ⟨(t, v), Std.TreeMap.mem_toList_iff_getElem?_eq_some.mpr hv, rfl⟩)
    rw [State.counts, hnone]
    exact hf

/-! ## A new controller -/

theorem Kept.configured (config : Config) (volume : Option String) :
    Kept (World.configured config volume) where
  sound :=
    { fresh := fun _ _ => rfl
      lease_lt := fun _ hl => absurd hl List.not_mem_nil
      lease_nodup := List.nodup_nil
      unbound := fun _ hl => absurd hl List.not_mem_nil
      bound := fun _ hl => absurd hl List.not_mem_nil
      entry := fun k live hk => absurd hk (by simp [World.configured, Admission.custody])
      held := fun k live hk => absurd hk (by simp [World.configured, Admission.custody])
      loose := fun k live hk => absurd hk (by simp [World.configured, Admission.custody])
      dropped := fun k live hk => absurd hk (by simp [World.configured, Admission.custody])
      inj := fun k k' live live' hk => absurd hk (by simp [World.configured, Admission.custody])
      repair_nodup := List.nodup_nil
      repair_entry := fun _ hr => absurd hr List.not_mem_nil }
  books :=
    { charged :=
        { active := fun _ => rfl
          uncovered := fun _ => rfl
          repairs := fun _ => rfl
          allActive := rfl
          allUncovered := rfl
          allLive := rfl
          allRepairs := rfl
          reserved := by
            show 0 = (0 - 0) * reservation + 0
            rw [Nat.sub_self, Nat.zero_mul]
          repairReserved := rfl
          repairRows := rfl
          charged := fun _ hr => absurd hr List.not_mem_nil }
      queued := fun _ => rfl
      pins := fun _ => rfl
      learning := fun _ => rfl
      allLearning := rfl
      ingress := rfl
      ingressBytes := rfl }
  bounded :=
    { active := Nat.zero_le _
      reserved := by
        show 0 < 2 ^ 64
        exact Nat.two_pow_pos 64
      unknown := by
        show 0 < 2 ^ 64
        exact Nat.two_pow_pos 64
      cached := fun t n hn => absurd (show (none : Option ℕ) = some n from hn) (by simp) }
  pending := ⟨rfl, fun k live hk => absurd hk (by simp [World.configured])⟩
  lines := ⟨List.nodup_nil, List.nodup_nil, fun _ ht => absurd ht List.not_mem_nil,
    fun _ hx => absurd hx List.not_mem_nil⟩

/-- The startup inventory moves no reservation. -/
theorem Kept.initializeReceipts {w : World} (h : Kept w) (hnone : w.held.publication = none)
    {inventory : Inventory} {free : ℕ} {s' : State}
    (hi : w.state.initializeReceipts inventory free = .ok ((), s')) :
    Kept { w with state := s' } := by
  obtain ⟨_, hempty, hi⟩ := bind_eq_ok.mp hi
  obtain ⟨receipts, hreceipts, hi⟩ := bind_eq_ok.mp hi
  obtain ⟨-, rfl⟩ := Prod.mk.inj (pure_eq_ok.mp hi)
  obtain ⟨_, -, hreceipts⟩ := bind_eq_ok.mp hreceipts
  obtain rfl := pure_eq_ok.mp hreceipts
  have hc := h.books.charged
  refine
    { sound := h.sound
      books := ⟨?_, h.books.queued, h.books.pins, h.books.learning, h.books.allLearning,
        h.books.ingress, h.books.ingressBytes⟩
      bounded := ⟨h.bounded.active, ?_, ?_, h.bounded.cached⟩
      pending := ?_
      lines := ⟨h.lines.queue_nodup, h.lines.task_nodup, h.lines.task_lt, h.lines.caller⟩ }
  · show Charged w.state.counts w.state.active (Accounting.observedFree _ free).totals _
    rw [Receipts.Accounting.observedFree_totals]
    exact ⟨hc.active, hc.uncovered, hc.repairs, hc.allActive, hc.allUncovered, hc.allLive,
      hc.allRepairs, hc.reserved, hc.repairReserved, hc.repairRows, hc.charged⟩
  · show (Accounting.observedFree _ free).totals.reserved < 2 ^ 64
    rw [Receipts.Accounting.observedFree_totals]
    exact h.bounded.reserved
  · show (Accounting.observedFree _ free).totals.unknown < 2 ^ 64
    rw [Receipts.Accounting.observedFree_totals]
    exact inventory.unknownCount.toNat_lt
  · have hpending := h.pending
    unfold Pending at hpending ⊢
    rw [hnone] at hpending
    rw [hnone]
    exact hpending

/-- **A controller is taken over with its books kept.** -/
theorem Kept.booted (config : Config) (volume : Option String) (inventory : Inventory)
    (free : ℕ) (r : Reading) : Kept (World.booted config volume inventory free r) :=
  (Kept.configured config volume).attempt (fun _ _ _ hs hok => hs.initializeReceipts rfl hok)

/-! ## The balance -/

/-- The slots of the leases dropped while a publication held their entries. -/
def State.deferred (s : State) : ℕ := mapTotal (fun live : Live => live.dropped.toNat) s.executions

/-- **The counters of a controller agree with each other and with its
leases.** -/
structure Balanced (w : World) : Prop where
  active_sum : w.state.active = mapTotal Counts.active w.state.tenants
  active_leases : w.state.active = w.held.leases.length + w.state.deferred
  /-- A dropped lease is only kept by the publication that has its entry. -/
  deferred : ∀ (k : Key) (live : Live), w.state.executions[k]? = some live → live.dropped = true →
    live.pending = true ∧ ∃ p, w.held.publication = some p
      ∧ ∃ step ∈ p.steps, step.owner.isSome ∧ step.key = k
  active_le : w.state.active ≤ w.config.profile.instanceActive
  repair_le : w.state.receipts.totals.repairLive ≤ w.state.receipts.totals.live
  reserved : w.state.receipts.totals.reserved
    = (w.state.receipts.totals.live - w.state.receipts.totals.repairLive) * reservation
      + w.state.receipts.totals.repairReserved
  uncovered_sum : mapTotal Counts.uncovered w.state.tenants = w.state.receipts.totals.uncovered
  uncovered_le : w.state.receipts.totals.uncovered ≤ w.state.receipts.totals.live
  queued : ∀ t, (w.state.counts t).queued = w.state.queue.countP (fun x => x.tenant = t)

/-- **Whatever the callers own can be given back**: no subtraction meets less
than it takes, and no drop of a lease is refused or fences. -/
structure Solvent (w : World) : Prop where
  lease : ∀ l ∈ w.held.leases, ∃ s', w.state.releaseLease l.tenant l.completion = .ok s'
  lease_fence : ∀ l ∈ w.held.leases,
    (w.state.dropLease l).receipts.fenced = w.state.receipts.fenced
  waiters : ∀ (p : Waiter → Bool) (t : TenantId),
    (w.state.queue.filter p).countP (fun x => x.tenant = t) ≤ (w.state.counts t).queued
  pins : ∀ t, w.held.pins.count t + w.held.touches t ≤ (w.state.counts t).pins
  pin_fence : ∀ t ∈ w.held.pins,
    (w.state.dropPin t).receipts.fenced = w.state.receipts.fenced
  learners : ∀ t, w.held.learners.count t ≤ (w.state.counts t).learning
  allLearners : w.held.learners.length ≤ w.state.learning
  uploads : w.held.uploads.length ≤ w.state.ingress
  uploadBytes : w.held.uploads.sum ≤ w.state.ingressBytes
  publication : ∀ p, w.held.publication = some p → w.state.receipts.fenced = false →
    ∀ rollback, ∃ s', w.state.finishPublication p rollback = .ok s'
  repair : ∀ r ∈ w.held.repairs, w.state.publicationPending = none →
    w.state.receipts.fenced = false → ∀ committed,
    (committed = true → (∀ k ∈ r.keys, ∀ live : Live, w.state.executions[k]? = some live →
        live.published = true)
      ∧ w.state.receipts.totals.bytes + r.charged < 2 ^ 64) →
    ∃ s', w.state.finishRepair r committed = .ok s'

namespace Kept

variable {w : World}

theorem active_leases (h : Kept w) :
    w.state.active = w.held.leases.length + w.state.deferred := by
  rw [h.books.charged.allActive]
  refine congrArg₂ (· + ·) ?_ ?_
  · show (w.held.leases.map (fun _ => 1)).sum = w.held.leases.length
    rw [List.map_const', List.sum_replicate_nat, Nat.mul_one]
  · rfl

theorem deferred (h : Kept w) {k : Key} {live : Live} (hk : w.state.executions[k]? = some live)
    (hdropped : live.dropped = true) :
    live.pending = true ∧ ∃ p, w.held.publication = some p
      ∧ ∃ step ∈ p.steps, step.owner.isSome ∧ step.key = k := by
  obtain ⟨hpending, -⟩ := h.sound.dropped k live hk hdropped
  refine ⟨hpending, ?_⟩
  cases hp : w.held.publication with
  | some p => exact ⟨p, rfl, (h.prepared_of hp).pending k live hk hpending⟩
  | none =>
    have hopen := h.pending
    unfold Pending at hopen
    rw [hp] at hopen
    exact absurd ((hopen.2 k live hk).symm.trans hpending) (by simp)

theorem balanced (h : Kept w) : Balanced w where
  active_sum := by
    rw [mapTotal_counts rfl h.books.charged.active]
    exact h.books.charged.allActive
  active_leases := h.active_leases
  deferred _ _ hk hdropped := h.deferred hk hdropped
  active_le := h.bounded.active
  repair_le := by
    rw [h.books.charged.allRepairs, h.books.charged.allLive]
    exact h.sound.load_repair_le_live
  reserved := h.books.charged.reserved
  uncovered_sum := by
    rw [mapTotal_counts rfl h.books.charged.uncovered]
    exact h.books.charged.allUncovered.symm
  uncovered_le := by
    rw [h.books.charged.allUncovered, h.books.charged.allLive]
    exact Custody.load_uncovered_le_live
  queued := h.books.queued

theorem solvent (h : Kept w) : Solvent w where
  lease l hl := by
    obtain ⟨s', hok, -⟩ := h.releaseLease hl
    exact ⟨s', hok⟩
  lease_fence l hl := (h.dropLease hl).1
  waiters p t := by
    rw [h.books.queued t]
    exact List.Sublist.countP_le List.filter_sublist
  pins t := (h.books.pins t).ge
  pin_fence t ht := (h.dropPin ht).1
  learners t := (h.books.learning t).ge
  allLearners := h.books.allLearning.ge
  uploads := h.books.ingress.ge
  uploadBytes := h.books.ingressBytes.ge
  publication p hp hfence b := ⟨_, (h.finishPublication (b := b) hp hfence).1⟩
  repair r hr hopen hfence committed hfit := by
    obtain ⟨s', hok, -⟩ := h.finishRepair_ok hr hopen hfence
      (fun hc : committed = true => (hfit hc).1) (fun hc => (hfit hc).2)
    exact ⟨s', hok⟩

end Kept

/-- **Every state of every run nobody fences is balanced**, and in the critical
section of whatever comes next everything owned can be given back. -/
theorem run_balanced (config : Config) (volume : Option String) (inventory : Inventory)
    (free : ℕ) (boot : Reading) (events : List Event)
    (hunfenced : ((World.booted config volume inventory free boot).run
      events).state.receipts.fenced = false) :
    Balanced ((World.booted config volume inventory free boot).run events)
      ∧ ∀ r : Reading, Solvent { (World.booted config volume inventory free boot).run events with
          state := (((World.booted config volume inventory free boot).run
            events).state.prepared r).2 } := by
  have hkept := (Kept.booted config volume inventory free boot).run events hunfenced
  exact ⟨hkept.balanced, fun r => (hkept.prepared r).solvent⟩

/-! ## Two runs -/

namespace Sample

def config : Config where
  profile := { tenantActive := 4, tenantQueue := 4, instanceActive := 8, instanceQueue := 8 }
  ingressLimits := { requests := 4, bytes := 1000 }
  queueWait := 100
  receipts :=
    { highWaterBytes := 2 ^ 40, admissionFreeBytes := 0, maintenanceFreeBytes := 0
      unknownInstance := 1000, unknownTenant := 100 }

def booted : World := World.booted config none ⟨0, 0, 0, 0, 0⟩ (2 ^ 60) ⟨none, 0, 0⟩

def alice : TenantId := ⟨"alice", by decide⟩

def job : Key := ⟨alice, ⟨"job-1", by decide⟩⟩

def lease : Lease := ⟨alice, 0⟩

def reading (n : ℕ) : Reading := ⟨none, n, n⟩

/-- One request is granted and one queued; the granted one is dropped while its
completion is published, and the queued one is granted after it. -/
def served : List Event :=
  [.acquire alice ⟨1, 1⟩ 50 1 (reading 1), .acquire alice ⟨1, 1⟩ 50 1 (reading 1),
    .check 1 (reading 2),
    .bind lease job.execution (reading 2),
    .prepare ⟨0, true⟩ [⟨job, none, some job⟩] [⟨job, 500⟩] .pending (reading 2),
    .dropLease lease (reading 3), .finish false .committed (reading 4), .deliver 1, .wake 1,
    .check 1 (reading 5), .leave 1 (reading 6)]

/-- A publication that is not about the lease held is pending. -/
def unrelated : List Event :=
  [.tryAcquire alice ⟨1, 1⟩ 50 (reading 1), .prepare ⟨0, true⟩ [] [] .pending (reading 2)]

end Sample

open Sample in
theorem run_balanced_served : Balanced (booted.run served)
    ∧ ∀ r : Reading, Solvent { booted.run served with
        state := ((booted.run served).state.prepared r).2 } :=
  run_balanced config none ⟨0, 0, 0, 0, 0⟩ (2 ^ 60) ⟨none, 0, 0⟩ served (by decide +kernel)

open Sample in
/-- A lease dropped during a pending publication that does not have its entry
counts no longer, while the publication is still pending. -/
theorem unrelated_released :
    lease ∈ (booted.run unrelated).held.leases
      ∧ (booted.run unrelated).state.publicationPending = some 1
      ∧ (booted.run unrelated).state.active = 1
      ∧ ((booted.run unrelated).step (.dropLease lease (reading 3))).state.receipts.fenced = false
      ∧ ((booted.run unrelated).step
        (.dropLease lease (reading 3))).state.publicationPending = some 1
      ∧ ((booted.run unrelated).step (.dropLease lease (reading 3))).state.active = 0 :=
  ⟨by decide +kernel, by decide +kernel, by decide +kernel, by decide +kernel,
    by decide +kernel, by decide +kernel⟩

end BitRouter.Admission
