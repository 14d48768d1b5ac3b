import BitRouter.Receipts.Capacity
import BitRouter.Data.MapTotal

/-!
# Admission state

`tenancy/admission.rs`: the state behind the mutex of one process's
admission controller, and what its critical sections are made of. A tenant
has counts only while it owns something; a queue entry waits for its tenant's
turn; an execution is the entry of a bound reservation.

An `Arc<Completion>` is shared by a lease, its execution entry and the steps
of a publication. Here it is an address, and `completions` is what the
addresses hold. `Instant`s are `ℕ`.
-/

namespace BitRouter.Admission

open Tenancy
open Receipts (ErrorCode Accounting Totals checkedAdd checkedSub reservation)

/-- `- 1` on a `usize` that nothing checks: it wraps at zero. -/
def decrement (n : ℕ) : ℕ := if n = 0 then 2 ^ 64 - 1 else n - 1

@[simp] theorem decrement_succ (n : ℕ) : decrement (n + 1) = n := rfl

/-- The limits in force. -/
structure Profile where
  tenantActive : ℕ
  tenantQueue : ℕ
  instanceActive : ℕ
  instanceQueue : ℕ

/-- The budget of uploads. -/
structure IngressLimits where
  requests : ℕ
  bytes : ℕ

/-- What one controller is configured with. -/
structure Config where
  profile : Profile
  ingressLimits : IngressLimits
  queueWait : ℕ
  receipts : Receipts.Limits

/-- The limits a request comes with. -/
structure Limits where
  activeExecutions : UInt16
  queuedWork : UInt16

/-- The key of an obligation. -/
structure Key where
  tenant : TenantId
  execution : ExecutionId
  deriving DecidableEq

instance : Ord Key := ⟨compareLex (compareOn Key.tenant) (compareOn Key.execution)⟩

instance : Std.TransOrd Key :=
  inferInstanceAs (Std.TransCmp (compareLex (compareOn Key.tenant) (compareOn Key.execution)))

instance : Std.LawfulEqOrd Key where
  compare_self := fun {a} =>
    Ordering.then_eq_eq.mpr ⟨Std.ReflOrd.compare_self (a := a.tenant),
      Std.ReflOrd.compare_self (a := a.execution)⟩
  eq_of_compare := by
    rintro ⟨a, b⟩ ⟨c, d⟩ h
    obtain ⟨hac, hbd⟩ := Ordering.then_eq_eq.mp (show (compare a c).then (compare b d) = .eq from h)
    rw [Std.LawfulEqOrd.eq_of_compare hac, Std.LawfulEqOrd.eq_of_compare hbd]

/-- What is counted of a tenant. -/
structure Counts where
  unknown : Option ℕ := none
  uncovered : ℕ := 0
  pins : ℕ := 0
  repairs : ℕ := 0
  learning : ℕ := 0
  active : ℕ := 0
  queued : ℕ := 0
  deriving DecidableEq

/-- A request that waits. -/
structure Waiter where
  id : ℕ
  tenant : TenantId
  activeLimit : ℕ
  deadline : ℕ
  deriving DecidableEq

/-- How far a reservation has come. -/
structure Completion where
  execution : Option ExecutionId := none
  done : Bool := false
  deriving DecidableEq

/-- The entry of a bound reservation. -/
structure Live where
  owner : ℕ
  covered : Bool := false
  pending : Bool := false
  dropped : Bool := false
  repair : Bool := false
  published : Bool := false
  deriving DecidableEq

/-- The state of admission. -/
structure State where
  closed : Bool := false
  active : ℕ := 0
  learning : ℕ := 0
  ingress : ℕ := 0
  ingressBytes : ℕ := 0
  tenants : Std.TreeMap TenantId Counts := ∅
  executions : Std.TreeMap Key Live := ∅
  unknownGeneration : ℕ := 0
  publicationPending : Option ℕ := none
  queue : List Waiter := []
  receipts : Accounting
  completions : ℕ → Completion := fun _ => {}

/-- The readings one update is given: the probe of the bound volume, the
clock that expires the queue, and the clock inside the section. -/
structure Reading where
  probe : Option ℕ
  expiring : ℕ
  inside : ℕ

/-- Whether nothing holds the counts of a tenant. -/
def Counts.idle (c : Counts) : Bool :=
  c.learning = 0 && c.active = 0 && c.queued = 0 && c.pins = 0 && c.repairs = 0

namespace State

/-! ## The counts of a tenant -/

/-- The counts of a tenant, all zero where it has none. -/
def counts (s : State) (tenant : TenantId) : Counts := (s.tenants[tenant]?).getD {}

/-- Stores the counts of a tenant. -/
def setCounts (s : State) (tenant : TenantId) (c : Counts) : State :=
  { s with tenants := s.tenants.insert tenant c }

/-- Drop the counts of a tenant nothing holds any more. -/
def idle (s : State) (tenant : TenantId) : State :=
  if (s.tenants[tenant]?).any Counts.idle then
    { s with tenants := s.tenants.erase tenant }
  else s

/-- The unknown receipts of a tenant. -/
def tenantUnknown (s : State) (tenant : TenantId) : Option ℕ :=
  match (s.tenants[tenant]?).bind Counts.unknown with
  | some n => some n
  | none => if s.receipts.totals.unknown = 0 then some 0 else none

/-- Whether receipts leave room. -/
def receiptsReady (s : State) (tenant : TenantId) : Bool :=
  s.publicationPending.isNone
    && (s.tenantUnknown tenant).any (fun unknown =>
      s.receipts.ready unknown (s.counts tenant).uncovered)

/-! ## The queue -/

/-- One fewer waiter of a tenant. -/
def unqueue (s : State) (tenant : TenantId) : State :=
  (match s.tenants[tenant]? with
    | some c => s.setCounts tenant { c with queued := decrement c.queued }
    | none => s).idle tenant

/-- Take one waiter out of the queue. -/
def remove (s : State) (waiter : Waiter) : State :=
  if s.queue.any (fun w => w.id = waiter.id) then
    { s with queue := s.queue.eraseP (fun w => w.id = waiter.id) }.unqueue waiter.tenant
  else s

/-- Take the waiters that satisfy `p` out of the queue, in its order. -/
def dismiss (s : State) (p : Waiter → Bool) : List Waiter × State :=
  let gone := s.queue.filter p
  (gone, gone.foldl (fun s w => s.unqueue w.tenant)
    { s with queue := s.queue.filter (fun w => !p w) })

/-- Turns away who waited too long. -/
def expire (s : State) (now : ℕ) : List Waiter × State :=
  s.dismiss (fun w => w.deadline ≤ now)

/-- What is asked of a waiter beyond being the first of its tenant. -/
def admits (s : State) (w : Waiter) : Bool :=
  s.receiptsReady w.tenant && (s.tenants[w.tenant]?).any (fun c => c.active < w.activeLimit)

/-- The first a tenant limit lets in. -/
def firstAdmitted (s : State) (seen : List TenantId) : List Waiter → Option Waiter
  | [] => none
  | w :: ws =>
    if w.tenant ∉ seen ∧ s.admits w then some w
    else firstAdmitted s (w.tenant :: seen) ws

/-- The waiter whose turn it is. -/
def nextEligible (s : State) (profile : Profile) : Option Waiter :=
  if s.closed ∨ profile.instanceActive ≤ s.active then none
  else s.firstAdmitted [] s.queue

/-! ## Reservations -/

/-- Holds room for a receipt. -/
def reserve (s : State) (tenant : TenantId) : Except ErrorCode State := do
  let unknown ← orFail (s.tenantUnknown tenant) .authorityUnavailable
  let c := s.counts tenant
  let uncovered ← orFail (checkedAdd c.uncovered 1) .capacityExceeded
  let receipts ← s.receipts.reserve unknown c.uncovered
  return { s with receipts := receipts, active := s.active + 1 }.setCounts tenant
    { c with unknown := some unknown, uncovered := uncovered, active := c.active + 1 }

/-- The totals without one reservation. -/
def releaseReservation (totals : Totals) (uncovered : ℕ) (covered : Bool) :
    Except ErrorCode (Totals × ℕ) := do
  let live ← orFail (checkedSub totals.live 1) .authorityUnavailable
  let reserved ← orFail (checkedSub totals.reserved reservation) .authorityUnavailable
  let next := { totals with live := live, reserved := reserved }
  if covered then return (next, uncovered)
  else
    let total ← orFail (checkedSub totals.uncovered 1) .authorityUnavailable
    let uncovered ← orFail (checkedSub uncovered 1) .authorityUnavailable
    return ({ next with uncovered := total }, uncovered)

/-- A reservation is done with. -/
def setDone (s : State) (owner : ℕ) : State :=
  { s with completions :=
    Function.update s.completions owner { s.completions owner with done := true } }

/-- The rest of `releaseLease`, for a lease without a pending entry. -/
def releaseOwned (s : State) (tenant : TenantId) (owner : ℕ) (key : Option Key)
    (covered : Bool) : Except ErrorCode State := do
  let c ← orFail s.tenants[tenant]? .authorityUnavailable
  let active ← orFail (checkedSub s.active 1) .authorityUnavailable
  let tenantActive ← orFail (checkedSub c.active 1) .authorityUnavailable
  let (totals, uncovered) ←
    if (s.completions owner).done then pure (s.receipts.totals, c.uncovered)
    else releaseReservation s.receipts.totals c.uncovered covered
  let s := { s with receipts := { s.receipts with totals := totals }, active := active }
  let s := s.setCounts tenant { c with active := tenantActive, uncovered := uncovered }
  let s := s.setDone owner
  let s := { s with executions := key.elim s.executions s.executions.erase }
  return s.idle tenant

/-- **Release a lease.** Where a publication holds its entry the release is
left to the publication. -/
def releaseLease (s : State) (tenant : TenantId) (owner : ℕ) : Except ErrorCode State :=
  match (s.completions owner).execution with
  | none => s.releaseOwned tenant owner none false
  | some execution => do
    let key : Key := ⟨tenant, execution⟩
    let live ← orFail s.executions[key]? .authorityUnavailable
    ensure (live.owner = owner ∧ live.repair = false ∧ live.dropped = false)
      .authorityUnavailable
    if live.pending then
      return { s with executions := s.executions.insert key { live with dropped := true } }
    else s.releaseOwned tenant owner (some key) live.covered

/-- The execution of a reservation. -/
def bindExecution (s : State) (tenant : TenantId) (owner : ℕ) (execution : ExecutionId) :
    Except ErrorCode State := do
  let c := s.completions owner
  ensure (s.publicationPending = none ∧ s.receipts.fenced = false ∧ c.done = false)
    .authorityUnavailable
  match c.execution with
  | some old =>
    ensure (old = execution) .authorityUnavailable
    return s
  | none =>
    let key : Key := ⟨tenant, execution⟩
    ensure (key ∉ s.executions) .authorityUnavailable
    return { s with
      completions := Function.update s.completions owner { c with execution := some execution }
      executions := s.executions.insert key { owner := owner } }

/-! ## The update of a critical section -/

/-- What every update does before its own change: refresh the volume, expire
the queue. -/
def prepared (s : State) (r : Reading) : List Waiter × State :=
  { s with receipts := s.receipts.refreshFree r.probe }.expire r.expiring

/-- What every update does after its own change: drain a closed queue, or
choose the next waiter to wake. -/
def concluded (s : State) (profile : Profile) : List Waiter × State :=
  if s.closed then s.dismiss (fun _ => true)
  else ((s.nextEligible profile).toList, s)

/-- **Every mutation and its next-waiter selection share one lock.** The
answer of the change, the waiters to notify once the lock is free, and the
next state. -/
def update {α : Type} (s : State) (profile : Profile) (r : Reading)
    (change : State → α × State) : α × List Waiter × State :=
  let (expired, s) := s.prepared r
  let (answer, s) := change s
  let (chosen, s) := s.concluded profile
  (answer, expired ++ chosen, s)

/-- A refusal leaves the state as it is. -/
def attempt {α : Type} (change : State → Except ErrorCode (α × State)) (s : State) :
    Except ErrorCode α × State :=
  match change s with
  | .ok (a, s') => (.ok a, s')
  | .error e => (.error e, s)

end State

end BitRouter.Admission
