import BitRouter.Admission.Transfer
import Mathlib.Algebra.Order.Ring.Int

/-!
# The books of a controller

What holds between the counters of a controller and what its callers own, in
every state nobody has fenced. `Books` says of every counter which load of
the custody it is; `Prepared` what a prepared publication may rely on until
it is consumed; `Lines` how the queue and the queued callers agree. Together
with a sound custody they are the invariant `Kept`.
-/

namespace BitRouter.Admission

open Tenancy
open Receipts (Totals reservation rowOverhead)

abbrev only (tenant : TenantId) : TenantId → Bool := fun t => t = tenant

abbrev everyone : TenantId → Bool := fun _ => true

/-- The pins a prepared publication holds on a tenant. -/
def Held.touches (o : Held) (tenant : TenantId) : ℕ :=
  match o.publication with
  | some p => (p.tenants.map TenantChange.tenant).count tenant
  | none => 0

/-- **The slots and reservations on the counters are those of the custody.** -/
structure Charged (counts : TenantId → Counts) (slots : ℕ) (totals : Totals) (c : Custody) :
    Prop where
  active : ∀ t, (counts t).active = c.load (only t) .active
  uncovered : ∀ t, (counts t).uncovered = c.load (only t) .uncovered
  repairs : ∀ t, (counts t).repairs = c.load (only t) .repair
  allActive : slots = c.load everyone .active
  allUncovered : totals.uncovered = c.load everyone .uncovered
  allLive : totals.live = c.load everyone .live
  allRepairs : totals.repairLive = c.load everyone .repair
  reserved : totals.reserved
    = (totals.live - totals.repairLive) * reservation + totals.repairReserved
  repairReserved : totals.repairReserved = (c.repairs.map Repair.charged).sum
  repairRows : totals.repairLive = (c.repairs.map (fun r => r.keys.length)).sum
  charged : ∀ r ∈ c.repairs, r.keys ≠ [] ∧ r.keys.length * rowOverhead ≤ r.charged

/-- **Every counter is what is owned.** -/
structure Books (s : State) (o : Held) : Prop where
  charged : Charged s.counts s.active s.receipts.totals (custody s o)
  queued : ∀ t, (s.counts t).queued = s.queue.countP (fun w => w.tenant = t)
  pins : ∀ t, (s.counts t).pins = o.pins.count t + o.touches t
  learning : ∀ t, (s.counts t).learning = o.learners.count t
  allLearning : s.learning = o.learners.length
  ingress : s.ingress = o.uploads.length
  ingressBytes : s.ingressBytes = o.uploads.sum

/-- The sizes the counters keep to. -/
structure Bounded (s : State) (profile : Profile) : Prop where
  active : s.active ≤ profile.instanceActive
  reserved : s.receipts.totals.reserved < 2 ^ 64
  unknown : s.receipts.totals.unknown < 2 ^ 64
  cached : ∀ t n, (s.counts t).unknown = some n → n < 2 ^ 64

/-! ## A prepared publication -/

namespace Step

/-- What a step does to the uncovered potential of its tenant, unless its
lease is dropped meanwhile. -/
def opening (step : Step) : ℤ :=
  if step.owner.isSome then
    ((!step.after && step.terminal.isNone).toNat : ℤ) - (!step.before).toNat
  else 0

/-- The bytes the completion of a live source adds: none for a duplicate. -/
def charge (step : Step) : ℕ :=
  if step.owner.isSome then
    step.terminal.elim 0 (fun bytes => if bytes = 0 then 0 else bytes + rowOverhead)
  else 0

end Step

/-- The sum of a step's amount over the steps of the tenants of `p`. -/
def stepSum (p : TenantId → Bool) (f : Step → ℤ) (steps : List Step) : ℤ :=
  (steps.map (fun step => if p step.key.tenant then f step else 0)).sum

/-- **What a prepared publication relies on** until it is consumed. -/
structure Prepared (s : State) (o : Held) (p : Publication) : Prop where
  token : s.publicationPending = some p.token
  unfinished : p.finished = false
  generation : s.unknownGeneration = p.generation
  counter : s.unknownGeneration + 1 < 2 ^ 64
  keys : (p.steps.map Step.key).Nodup
  claims : (custody s o).Claims p.steps
  /-- Only its own steps hold an entry. -/
  pending : ∀ (k : Key) (live : Live), s.executions[k]? = some live → live.pending = true →
    ∃ step ∈ p.steps, step.owner.isSome ∧ step.key = k
  tenants : (p.tenants.map TenantChange.tenant).Nodup
  touched : ∀ step ∈ p.steps,
    step.owner.isSome ∨ (s.counts step.key.tenant).unknown.isSome →
      step.key.tenant ∈ p.tenants.map TenantChange.tenant
  durable : ∀ t ∈ p.tenants, t.durable = stepSum (only t.tenant) Step.durable p.steps
  uncovered : ∀ t ∈ p.tenants, t.uncovered = stepSum (only t.tenant) Step.opening p.steps
  cached : ∀ t ∈ p.tenants, ∀ n, (s.counts t.tenant).unknown = some n →
    0 ≤ n + t.durable ∧ n + t.durable < 2 ^ 64
  unknown : 0 ≤ s.receipts.totals.unknown + stepSum everyone Step.durable p.steps
    ∧ s.receipts.totals.unknown + stepSum everyone Step.durable p.steps < 2 ^ 64
  bytes : s.receipts.totals.bytes + (p.steps.map Step.charge).sum < 2 ^ 64

def Pending (s : State) (o : Held) : Prop :=
  match o.publication with
  | some p => Prepared s o p
  | none => s.publicationPending = none
    ∧ ∀ (k : Key) (live : Live), s.executions[k]? = some live → live.pending = false

/-! ## The queue -/

/-- **How the queue and the queued callers agree.** -/
structure Lines (s : State) (o : Held) (tasks : List Task) : Prop where
  queue_nodup : (s.queue.map Waiter.id).Nodup
  task_nodup : (tasks.map (fun t => t.waiter.id)).Nodup
  task_lt : ∀ t ∈ tasks, t.waiter.id < o.nextId
  /-- Every entry of the queue has its caller. -/
  caller : ∀ w ∈ s.queue, ∃ t ∈ tasks, t.waiter = w

/-- **The invariant of a controller nobody has fenced.** -/
structure Kept (w : World) : Prop where
  sound : (custody w.state w.held).Sound
  books : Books w.state w.held
  bounded : Bounded w.state w.config.profile
  pending : Pending w.state w.held
  lines : Lines w.state w.held w.tasks

/-! ## The counts of a tenant -/

namespace State

variable {s : State} {t u : TenantId} {c : Counts}

theorem counts_of_get (h : s.tenants[t]? = some c) : s.counts t = c := by
  rw [counts, h]
  rfl

theorem get_of_counts_ne (h : s.counts t ≠ {}) : s.tenants[t]? = some (s.counts t) := by
  unfold counts at h ⊢
  cases hget : s.tenants[t]? with
  | none => rw [hget] at h; exact absurd rfl h
  | some c => rfl

theorem counts_setCounts :
    (s.setCounts t c).counts u = if u = t then c else s.counts u := by
  unfold counts setCounts
  rw [Std.TreeMap.getElem?_insert]
  by_cases h : u = t
  · subst h
    simp
  · rw [if_neg (by rw [Std.LawfulEqOrd.compare_eq_iff_eq]; exact Ne.symm h), if_neg h]

@[simp] theorem counts_setCounts_self : (s.setCounts t c).counts t = c := by
  rw [counts_setCounts, if_pos rfl]

theorem counts_setCounts_ne (h : u ≠ t) : (s.setCounts t c).counts u = s.counts u := by
  rw [counts_setCounts, if_neg h]

theorem idle_eq : s.idle t = { s with tenants := (s.idle t).tenants } := by
  unfold idle
  split <;> rfl

theorem counts_idle : (s.idle t).counts u = s.counts u
    ∨ (u = t ∧ (s.counts t).idle = true ∧ (s.idle t).counts u = {}) := by
  unfold idle
  split
  · next hidle =>
    by_cases hu : u = t
    · subst hu
      obtain ⟨c, hget, hc⟩ := Option.any_eq_true _ _ |>.mp hidle
      refine Or.inr ⟨rfl, (counts_of_get hget).symm ▸ hc, ?_⟩
      unfold counts
      simp
    · refine Or.inl ?_
      unfold counts
      rw [Std.TreeMap.getElem?_erase, if_neg]
      rw [Std.LawfulEqOrd.compare_eq_iff_eq]
      exact Ne.symm hu
  · exact Or.inl rfl

theorem idle_counters (h : (s.counts t).idle = true) :
    (s.counts t).learning = 0 ∧ (s.counts t).active = 0 ∧ (s.counts t).queued = 0
      ∧ (s.counts t).pins = 0 ∧ (s.counts t).repairs = 0 := by
  simpa [Counts.idle, and_assoc] using h

@[simp] theorem idle_active : ((s.idle t).counts u).active = (s.counts u).active := by
  rcases counts_idle (s := s) (t := t) (u := u) with h | ⟨rfl, hidle, h⟩
  · rw [h]
  · rw [h, (idle_counters hidle).2.1]

@[simp] theorem idle_learning : ((s.idle t).counts u).learning = (s.counts u).learning := by
  rcases counts_idle (s := s) (t := t) (u := u) with h | ⟨rfl, hidle, h⟩
  · rw [h]
  · rw [h, (idle_counters hidle).1]

@[simp] theorem idle_queued : ((s.idle t).counts u).queued = (s.counts u).queued := by
  rcases counts_idle (s := s) (t := t) (u := u) with h | ⟨rfl, hidle, h⟩
  · rw [h]
  · rw [h, (idle_counters hidle).2.2.1]

@[simp] theorem idle_pins : ((s.idle t).counts u).pins = (s.counts u).pins := by
  rcases counts_idle (s := s) (t := t) (u := u) with h | ⟨rfl, hidle, h⟩
  · rw [h]
  · rw [h, (idle_counters hidle).2.2.2.1]

@[simp] theorem idle_repairs : ((s.idle t).counts u).repairs = (s.counts u).repairs := by
  rcases counts_idle (s := s) (t := t) (u := u) with h | ⟨rfl, hidle, h⟩
  · rw [h]
  · rw [h, (idle_counters hidle).2.2.2.2]

theorem idle_uncovered (hzero : (s.counts t).idle = true → (s.counts t).uncovered = 0) :
    ((s.idle t).counts u).uncovered = (s.counts u).uncovered := by
  rcases counts_idle (s := s) (t := t) (u := u) with h | ⟨rfl, hidle, h⟩
  · rw [h]
  · rw [h, hzero hidle]

theorem idle_unknown {n : ℕ} (h : ((s.idle t).counts u).unknown = some n) :
    (s.counts u).unknown = some n := by
  rcases counts_idle (s := s) (t := t) (u := u) with heq | ⟨rfl, -, heq⟩
  · rw [← heq, h]
  · rw [heq] at h
    exact absurd h (by simp)

theorem uncovered_of_idle {slots : ℕ} {totals : Totals} {cu : Custody} (hsound : cu.Sound)
    (h : Charged s.counts slots totals cu) (hidle : (s.counts t).idle = true) :
    (s.counts t).uncovered = 0 := by
  obtain ⟨-, hactive, -, -, hrepairs⟩ := idle_counters hidle
  rw [h.active] at hactive
  rw [h.repairs] at hrepairs
  rw [h.uncovered]
  have hleases : ∀ l ∈ cu.leases, l.tenant ≠ t := by
    intro l hl heq
    have hshare := Custody.leaseShare_le_load (p := only t) (κ := .active) hl
    rw [hactive] at hshare
    simp [Custody.leaseShare, heq, Completion.share] at hshare
  have hentries : ∀ (k : Key) (live : Live), cu.entries[k]? = some live → k.tenant ≠ t := by
    intro k live hk heq
    have hrepair := Custody.share_le_load (p := only t) (κ := .repair) hk
    have hdropped := Custody.share_le_load (p := only t) (κ := .active) hk
    rw [hrepairs] at hrepair
    rw [hactive] at hdropped
    have hr : live.repair = false := by simpa [Custody.entryShare, heq, Live.share] using hrepair
    have hd : live.dropped = false := by
      simpa [Custody.entryShare, heq, Live.share] using hdropped
    exact hleases _ (hsound.held k live hk hr hd) heq
  unfold Custody.load
  rw [entryTotal_eq_zero (fun k live hk => by simp [Custody.entryShare, hentries k live hk])]
  refine List.sum_eq_zero (fun x hx => ?_)
  obtain ⟨l, hl, rfl⟩ := List.mem_map.mp hx
  simp [Custody.leaseShare, hleases l hl]

end State

theorem Charged.congr {counts counts' : TenantId → Counts} {slots : ℕ} {totals : Totals}
    {c : Custody} (h : Charged counts slots totals c)
    (hactive : ∀ t, (counts' t).active = (counts t).active)
    (huncovered : ∀ t, (counts' t).uncovered = (counts t).uncovered)
    (hrepairs : ∀ t, (counts' t).repairs = (counts t).repairs) :
    Charged counts' slots totals c :=
  { h with
    active := fun t => (hactive t).trans (h.active t)
    uncovered := fun t => (huncovered t).trans (h.uncovered t)
    repairs := fun t => (hrepairs t).trans (h.repairs t) }

/-- **The charges are not changed by dropping idle counts.** -/
theorem Charged.idle {s : State} {slots : ℕ} {totals : Totals} {c : Custody} (hsound : c.Sound)
    (h : Charged s.counts slots totals c) (t : TenantId) :
    Charged (s.idle t).counts slots totals c :=
  h.congr (fun _ => State.idle_active)
    (fun _ => State.idle_uncovered (State.uncovered_of_idle hsound h))
    (fun _ => State.idle_repairs)

end BitRouter.Admission
