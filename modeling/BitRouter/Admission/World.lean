import BitRouter.Admission.Repair

/-!
# The world of an admission controller

Everybody a controller deals with. `Held` is what its callers own: leases,
pins, learning leases, uploads, repairs, the one prepared publication. A
`Task` is a caller of `acquireUntil` that has been queued, at one of its
points between two critical sections. `Event` is one critical section, or one
step of a task outside the lock, so that an interleaving is a list of events;
an event of an object nobody owns does nothing.

A controller is taken over from a successful `initializeReceipts`.
-/

namespace BitRouter.Admission

open Tenancy
open Receipts (ErrorCode Accounting Inventory checkedAdd checkedSub)

/-- **Ownership of one tenant and one instance slot.** -/
structure Lease where
  tenant : TenantId
  completion : ℕ
  deriving DecidableEq

/-- What the callers of a controller own. Addresses from `nextId` on have not
been given out. -/
structure Held where
  nextId : ℕ := 0
  leases : List Lease := []
  pins : List TenantId := []
  learners : List TenantId := []
  uploads : List ℕ := []
  repairs : List Repair := []
  publication : Option Publication := none

/-- Give out a lease of a new completion. -/
def Held.grant (o : Held) (tenant : TenantId) : Held :=
  { o with
    nextId := o.nextId + 1
    leases := { tenant := tenant, completion := o.nextId } :: o.leases }

/-- Where a queued caller stands between its critical sections. -/
inductive Phase
  /-- It is about to look whether it is its turn. -/
  | checking
  /-- It sleeps until its deadline or a notification. -/
  | waiting
  /-- Its entry is about to be withdrawn. -/
  | leaving
  deriving DecidableEq, Repr

/-- A queued caller. A `Notify` keeps at most one permit; `alerted` is what the
updates since the caller's last check have said, whether or not the
notification has arrived. -/
structure Task where
  waiter : Waiter
  phase : Phase := .checking
  permit : Bool := false
  alerted : Bool := false
  deriving DecidableEq

structure World where
  config : Config
  state : State
  held : Held := {}
  tasks : List Task := []
  /-- The notifications on their way, by waiter. -/
  notices : List ℕ := []

/-- What a registration has come to. -/
inductive Registration
  | active
  | queued (waiter : Waiter)
  deriving DecidableEq

namespace State

/-- The registration of `acquireUntil`. -/
def register (s : State) (profile : Profile) (tenant : TenantId) (limits : Limits)
    (deadline id now : ℕ) : Except ErrorCode (Registration × State) := do
  let activeLimit := min limits.activeExecutions.toNat profile.tenantActive
  let queueLimit := min limits.queuedWork.toNat profile.tenantQueue
  ensure (s.closed = false) .authorityUnavailable
  ensure (now < deadline) .capacityExceeded
  ensure (s.receiptsReady tenant) .capacityExceeded
  ensure (activeLimit ≠ 0 ∧ profile.instanceActive ≠ 0) .capacityExceeded
  let c := s.counts tenant
  if c.active < activeLimit ∧ s.active < profile.instanceActive ∧ c.queued = 0
      ∧ s.nextEligible profile = none then
    return (.active, ← s.reserve tenant)
  else
    ensure (c.queued < queueLimit ∧ s.queue.length < profile.instanceQueue) .capacityExceeded
    let waiter : Waiter :=
      { id := id, tenant := tenant, activeLimit := activeLimit, deadline := deadline }
    return (.queued waiter,
      { s with queue := s.queue ++ [waiter] }.setCounts tenant { c with queued := c.queued + 1 })

/-- The check of a queued caller: whether it has been admitted. -/
def check (s : State) (profile : Profile) (waiter : Waiter) (now : ℕ) :
    Except ErrorCode (Bool × State) := do
  ensure (s.closed = false) .authorityUnavailable
  ensure (now < waiter.deadline) .capacityExceeded
  if (s.nextEligible profile).any (fun next => next.id = waiter.id) then
    let s ← s.reserve waiter.tenant
    return (true, s.remove waiter)
  else return (false, s)

def tryAcquire (s : State) (profile : Profile) (tenant : TenantId) (limits : Limits)
    (deadline now : ℕ) : Except ErrorCode (Unit × State) := do
  ensure (s.closed = false) .authorityUnavailable
  let c := s.counts tenant
  ensure (¬ (deadline ≤ now ∨ s.receiptsReady tenant = false
    ∨ min limits.activeExecutions.toNat profile.tenantActive ≤ c.active
    ∨ profile.instanceActive ≤ s.active ∨ c.queued ≠ 0
    ∨ (s.nextEligible profile).isSome)) .capacityExceeded
  return ((), ← s.reserve tenant)

/-- A new learning lease. -/
def learn (s : State) (tenant : TenantId) (maximum : ℕ) : Except ErrorCode (Unit × State) := do
  ensure (s.closed = false) .authorityUnavailable
  let c := s.counts tenant
  ensure (s.learning < 8 ∧ c.learning < min maximum 2) .capacityExceeded
  return ((), { s with learning := s.learning + 1 }.setCounts tenant
    { c with learning := c.learning + 1 })

def dropLearner (s : State) (tenant : TenantId) : State :=
  (match s.tenants[tenant]? with
    | some c => { s with learning := s.learning - 1 }.setCounts tenant
        { c with learning := c.learning - 1 }
    | none => { s with learning := s.learning - 1 }).idle tenant

/-- The reservation of an upload. -/
def upload (s : State) (limits : IngressLimits) (bytes : ℕ) :
    Except ErrorCode (Unit × State) := do
  ensure (s.closed = false) .authorityUnavailable
  let total ← orFail (checkedAdd s.ingressBytes bytes) .capacityExceeded
  ensure (s.ingress < limits.requests ∧ total ≤ limits.bytes) .capacityExceeded
  return ((), { s with ingress := s.ingress + 1, ingressBytes := total })

def dropUpload (s : State) (bytes : ℕ) : State :=
  { s with ingress := s.ingress - 1, ingressBytes := s.ingressBytes - bytes }

def fence (s : State) : State := { s with receipts := { s.receipts with fenced := true } }

/-- The drop of a lease. A failure fences. -/
def dropLease (s : State) (lease : Lease) : State :=
  match s.releaseLease lease.tenant lease.completion with
  | .ok s => s
  | .error _ => s.fence

def archiveReceipt (s : State) (bytes historyBytes : ℕ) : State :=
  let totals := s.receipts.totals
  match checkedSub totals.bytes bytes, checkedAdd totals.historyBytes historyBytes,
      checkedAdd totals.historyRows 1 with
  | some remaining, some history, some rows =>
    { s with receipts := { s.receipts with totals := { totals with
      bytes := remaining, historyBytes := history, historyRows := rows } } }
  | _, _, _ => s.fence

def initializeReceipts (s : State) (inventory : Inventory) (free : ℕ) :
    Except ErrorCode (Unit × State) := do
  ensure (s.publicationPending = none ∧ s.tenants.isEmpty ∧ s.unknownGeneration = 0)
    .authorityUnavailable
  let receipts ← s.receipts.initializeFrom inventory free
  return ((), { s with receipts := receipts })

end State

/-! ## Interleavings -/

/-- **One step of somebody**: a critical section with its readings, or a step
of a queued caller outside the lock. -/
inductive Event
  /-- `acquireUntil`, up to its registration. -/
  | acquire (tenant : TenantId) (limits : Limits) (requestDeadline started : ℕ) (r : Reading)
  /-- A queued caller checks whether it is its turn. -/
  | check (id : ℕ) (r : Reading)
  /-- A notification arrives: its waiter has a permit. -/
  | deliver (id : ℕ)
  /-- A sleeping caller takes its permit. -/
  | wake (id : ℕ)
  /-- The timer of a sleeping caller fires. -/
  | elapse (id : ℕ)
  /-- The future of a sleeping caller is dropped. -/
  | cancel (id : ℕ)
  /-- The entry of a caller is withdrawn. -/
  | leave (id : ℕ) (r : Reading)
  | tryAcquire (tenant : TenantId) (limits : Limits) (deadline : ℕ) (r : Reading)
  | dropLease (lease : Lease) (r : Reading)
  | bind (lease : Lease) (execution : ExecutionId) (r : Reading)
  | pinUnknown (tenant : TenantId) (maintenance : Bool) (r : Reading)
  | seedUnknown (read : Read) (tenant : TenantId) (count : ℕ) (r : Reading)
  | dropPin (tenant : TenantId) (r : Reading)
  | learn (tenant : TenantId) (maximum : ℕ) (r : Reading)
  | dropLearner (tenant : TenantId) (r : Reading)
  | upload (bytes : ℕ) (r : Reading)
  | dropUpload (bytes : ℕ) (r : Reading)
  | reserveRepair (read : Read) (tenant : TenantId) (bytes : ℕ)
      (entries : List (ExecutionId × Bool)) (r : Reading)
  | finishRepair (repair : Repair) (committed : Bool) (r : Reading)
  | dropRepair (repair : Repair) (r : Reading)
  | prepare (read : Read) (changes : List Change) (terminals : List Terminal)
      (disposition : Disposition) (r : Reading)
  | finish (rollback : Bool) (disposition : Disposition) (r : Reading)
  | dropPublication (r : Reading)
  | reservePhysicalWrite (bytes : ℕ) (maintenance : Bool) (r : Reading)
  | finishPhysicalWrite (bytes : ℕ) (r : Reading)
  | archiveReceipt (bytes historyBytes : ℕ) (r : Reading)
  | receiptProbe (free : ℕ) (r : Reading)
  /-- An update that changes nothing, such as `unknownRead` or the check of
  `waitDrained`. -/
  | observe (r : Reading)
  | close (r : Reading)
  | fence (r : Reading)

namespace World

/-- The end of an update: the lock is free, and the chosen waiters are to be
notified. -/
def after (w : World) (woken : List Waiter) (s : State) : World :=
  { w with
    state := s
    notices := w.notices ++ woken.map Waiter.id
    tasks := w.tasks.map (fun t =>
      if woken.any (fun x => x.id = t.waiter.id) then { t with alerted := true } else t) }

/-- A critical section that may be refused, and what its success does to the
objects. -/
def attempt {α : Type} (w : World) (r : Reading)
    (change : State → Except ErrorCode (α × State)) (gain : α → Held → Held) : World :=
  let (answer, woken, s) := w.state.update w.config.profile r (State.attempt change)
  match answer with
  | .ok a => { w with held := gain a w.held }.after woken s
  | .error _ => w.after woken s

/-- A critical section that cannot be refused. -/
def apply (w : World) (r : Reading) (change : State → State) : World :=
  let (_, woken, s) := w.state.update w.config.profile r (fun s => ((), change s))
  w.after woken s

def task (w : World) (id : ℕ) : Option Task := w.tasks.find? (fun t => t.waiter.id = id)

def setTask (w : World) (id : ℕ) (f : Task → Task) : World :=
  { w with tasks := w.tasks.map (fun t => if t.waiter.id = id then f t else t) }

/-- A registration: a lease at once, or a place in the queue, whose caller is
about to check. -/
def enqueue (w : World) (r : Reading) (tenant : TenantId) (limits : Limits) (deadline : ℕ) :
    World :=
  let (answer, woken, s) := w.state.update w.config.profile r (State.attempt (fun s =>
    s.register w.config.profile tenant limits deadline w.held.nextId r.inside))
  match answer with
  | .error _ => w.after woken s
  | .ok .active => { w with held := w.held.grant tenant }.after woken s
  | .ok (.queued waiter) =>
    { w with
      tasks := w.tasks ++ [({ waiter := waiter } : Task)]
      held := { w.held with nextId := w.held.nextId + 1 } }.after woken s

/-- A queued caller checks. What it has been told before is spent. -/
def checkTask (w : World) (t : Task) (r : Reading) : World :=
  let id := t.waiter.id
  let (answer, woken, s) := w.state.update w.config.profile r
    (State.attempt (fun s => s.check w.config.profile t.waiter r.inside))
  let spent (phase : Phase) := w.setTask id (fun t => { t with alerted := false, phase := phase })
  match answer with
  | .error _ => (spent .leaving).after woken s
  | .ok true => { spent .leaving with held := w.held.grant t.waiter.tenant }.after woken s
  | .ok false => (spent .waiting).after woken s

/-- Consume the publication. A failure leaves it to its drop, which fences. -/
def finishPublication (w : World) (p : Publication) (rollback : Bool)
    (disposition : Disposition) (r : Reading) : World :=
  let w := { w with held := { w.held with publication := none } }
  if p.settles rollback disposition then
    let (answer, woken, s) := w.state.update w.config.profile r (State.attempt (fun s =>
      (s.finishPublication p rollback).map (fun s => ((), s))))
    match answer with
    | .ok () => w.after woken s
    | .error _ => (w.after woken s).apply r State.fence
  else w.apply r State.fence

/-- **The step relation.** -/
def step (w : World) : Event → World
  | .acquire tenant limits requestDeadline started r =>
    w.enqueue r tenant limits (min requestDeadline (started + w.config.queueWait))
  | .check id r =>
    match w.task id with
    | some t => if t.phase = .checking then w.checkTask t r else w
    | none => w
  | .deliver id =>
    if id ∈ w.notices then
      { w with notices := w.notices.erase id }.setTask id (fun t => { t with permit := true })
    else w
  | .wake id =>
    w.setTask id (fun t =>
      if t.phase = .waiting ∧ t.permit then { t with phase := .checking, permit := false } else t)
  | .elapse id =>
    w.setTask id (fun t => if t.phase = .waiting then { t with phase := .checking } else t)
  | .cancel id =>
    w.setTask id (fun t => if t.phase = .waiting then { t with phase := .leaving } else t)
  | .leave id r =>
    match w.task id with
    | some t =>
      if t.phase = .leaving then
        { w with tasks := w.tasks.filter (fun t => t.waiter.id ≠ id) }.apply r
          (fun s => s.remove t.waiter)
      else w
    | none => w
  | .tryAcquire tenant limits deadline r =>
    w.attempt r (fun s => s.tryAcquire w.config.profile tenant limits deadline r.inside)
      (fun _ o => o.grant tenant)
  | .dropLease lease r =>
    if lease ∈ w.held.leases then
      { w with held := { w.held with leases := w.held.leases.erase lease } }.apply r
        (fun s => s.dropLease lease)
    else w
  | .bind lease execution r =>
    if lease ∈ w.held.leases then
      w.attempt r (fun s => (s.bindExecution lease.tenant lease.completion execution).map
        (fun s => ((), s))) (fun _ o => o)
    else w
  | .pinUnknown tenant maintenance r =>
    w.attempt r (fun s => s.pinUnknown tenant maintenance) (fun pinned o =>
      if pinned then { o with pins := tenant :: o.pins } else o)
  | .seedUnknown read tenant count r =>
    w.attempt r (fun s => (s.seedUnknown read tenant count).map (fun s => ((), s)))
      (fun _ o => { o with pins := tenant :: o.pins })
  | .dropPin tenant r =>
    if tenant ∈ w.held.pins then
      { w with held := { w.held with pins := w.held.pins.erase tenant } }.apply r
        (fun s => s.dropPin tenant)
    else w
  | .learn tenant maximum r =>
    w.attempt r (fun s => s.learn tenant maximum)
      (fun _ o => { o with learners := tenant :: o.learners })
  | .dropLearner tenant r =>
    if tenant ∈ w.held.learners then
      { w with held := { w.held with learners := w.held.learners.erase tenant } }.apply r
        (fun s => s.dropLearner tenant)
    else w
  | .upload bytes r =>
    if bytes ≤ 16 * 1024 * 1024 then
      w.attempt r (fun s => s.upload w.config.ingressLimits bytes)
        (fun _ o => { o with uploads := bytes :: o.uploads })
    else w
  | .dropUpload bytes r =>
    if bytes ∈ w.held.uploads then
      { w with held := { w.held with uploads := w.held.uploads.erase bytes } }.apply r
        (fun s => s.dropUpload bytes)
    else w
  | .reserveRepair read tenant bytes entries r =>
    w.attempt r (fun s => s.reserveRepair read tenant bytes entries w.held.nextId)
      (fun repair o => { o with
        nextId := o.nextId + entries.length, repairs := repair :: o.repairs })
  | .finishRepair repair committed r =>
    if repair ∈ w.held.repairs then
      w.attempt r (fun s => (s.finishRepair repair committed).map (fun s => ((), s)))
        (fun _ o => { o with repairs := o.repairs.erase repair })
    else w
  | .dropRepair repair r =>
    if repair ∈ w.held.repairs then
      { w with held := { w.held with repairs := w.held.repairs.erase repair } }.apply r
        State.fence
    else w
  | .prepare read changes terminals disposition r =>
    match (do ensure (disposition = .pending) .authorityUnavailable
              readSteps changes terminals : Except ErrorCode (List Step)) with
    | .error _ => w
    | .ok steps =>
      w.attempt r (fun s => s.prepareUnknown read steps w.held.nextId)
        (fun p o => { o with nextId := o.nextId + 1, publication := some p })
  | .finish rollback disposition r =>
    match w.held.publication with
    | some p => w.finishPublication p rollback disposition r
    | none => w
  | .dropPublication r =>
    match w.held.publication with
    | some _ => { w with held := { w.held with publication := none } }.apply r State.fence
    | none => w
  | .reservePhysicalWrite bytes maintenance r =>
    w.attempt r (fun s => do
      ensure (s.publicationPending = none) .authorityUnavailable
      let receipts ← s.receipts.reservePhysicalWrite bytes maintenance
      return ((), { s with receipts := receipts })) (fun _ o => o)
  | .finishPhysicalWrite bytes r =>
    w.apply r (fun s => { s with receipts := (s.receipts.finishPhysicalWrite bytes).1 })
  | .archiveReceipt bytes historyBytes r => w.apply r (fun s => s.archiveReceipt bytes historyBytes)
  | .receiptProbe free r =>
    w.apply r (fun s => { s with receipts := s.receipts.observedFree free })
  | .observe r => w.apply r id
  | .close r => w.apply r (fun s => { s with closed := true })
  | .fence r => w.apply r State.fence

theorem step_check (w : World) (id : ℕ) (r : Reading) :
    w.step (.check id r) = (w.task id).elim w fun t =>
      if t.phase = .checking then w.checkTask t r else w := by
  unfold step
  dsimp only
  cases w.task id <;> rfl

theorem step_leave (w : World) (id : ℕ) (r : Reading) :
    w.step (.leave id r) = (w.task id).elim w fun t =>
      if t.phase = .leaving then
        { w with tasks := w.tasks.filter (fun t => t.waiter.id ≠ id) }.apply r
          (fun s => s.remove t.waiter)
      else w := by
  unfold step
  dsimp only
  cases w.task id <;> rfl

theorem step_finish (w : World) (rollback : Bool) (disposition : Disposition) (r : Reading) :
    w.step (.finish rollback disposition r) = w.held.publication.elim w fun p =>
      w.finishPublication p rollback disposition r := by
  unfold step
  cases w.held.publication <;> rfl

theorem step_dropPublication (w : World) (r : Reading) :
    w.step (.dropPublication r) = w.held.publication.elim w fun _ =>
      { w with held := { w.held with publication := none } }.apply r State.fence := by
  unfold step
  cases w.held.publication <;> rfl

def run (w : World) (events : List Event) : World := events.foldl step w

/-- A controller as it is configured. -/
def configured (config : Config) (volume : Option String) : World where
  config := config
  state := { receipts := { Accounting.configured config.receipts with volume := volume } }

/-- **A controller after a successful `initializeReceipts`**, its volume bound
or not. -/
def booted (config : Config) (volume : Option String) (inventory : Inventory)
    (free : ℕ) (r : Reading) : World :=
  (configured config volume).attempt r (fun s => s.initializeReceipts inventory free)
    (fun _ o => o)

end World

end BitRouter.Admission
