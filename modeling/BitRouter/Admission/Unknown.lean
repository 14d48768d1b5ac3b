import BitRouter.Admission.State

/-!
# Publication of unknown obligations

`admission/unknown.rs`: the counts of committed obligations a process has
cached, and how a writer's transaction moves them. `prepareUnknown` runs
before the commit and marks the entries the transaction is about; the
publication it answers is consumed by `finish` once the outcome is known, on
a state in which any of those leases may have been dropped meanwhile.
-/

namespace BitRouter.Admission

open Tenancy
open Receipts (ErrorCode Totals checkedAdd checkedSub checkedMul reservation rowOverhead)

/-- The outcome of a writer's transaction, as its proof has it. -/
inductive Disposition
  | noTransaction
  | pending
  | rolledBack
  | committed
  | ambiguous
  deriving DecidableEq, Repr

/-- A ticket of `unknownRead`. -/
structure Read where
  generation : ℕ
  maintenance : Bool

structure Terminal where
  key : Key
  bytes : ℕ

/-- What a transaction does to one obligation. Of the records only the key
is read here. -/
structure Change where
  key : Key
  before : Option Key
  after : Option Key

structure Step where
  key : Key
  before : Bool
  after : Bool
  terminal : Option ℕ
  owner : Option ℕ := none
  deriving DecidableEq

structure TenantChange where
  tenant : TenantId
  durable : ℤ
  uncovered : ℤ
  nextUnknown : Option ℕ := none
  nextUncovered : ℕ := 0
  nextActive : ℕ := 0

/-- **A prepared publication.** -/
structure Publication where
  token : ℕ
  generation : ℕ
  steps : List Step
  tenants : List TenantChange
  finished : Bool

/-- Whether the proof has the outcome a publication is consumed for. -/
def Publication.settles (p : Publication) (rollback : Bool) (disposition : Disposition) : Bool :=
  !p.finished && disposition = if rollback then .rolledBack else .committed

def adjust (value : ℕ) (delta : ℤ) : Except ErrorCode ℕ :=
  if 0 ≤ value + delta ∧ value + delta < 2 ^ 64 then .ok (value + delta).toNat
  else .error .authorityUnavailable

namespace State

def unknownAvailable (s : State) (maintenance : Bool) : Except ErrorCode Unit := do
  ensure (¬ ((s.closed ∧ ¬ maintenance) ∨ s.publicationPending.isSome ∨ s.receipts.fenced))
    .authorityUnavailable
  ensure (maintenance ∨ s.receipts.globallyReady) .capacityExceeded

def checkRead (s : State) (read : Read) : Except ErrorCode Unit :=
  ensure (s.publicationPending = none ∧ s.unknownGeneration = read.generation)
    .authorityUnavailable

def addPin (s : State) (tenant : TenantId) (count : ℕ) : Except ErrorCode State := do
  let c := s.counts tenant
  let pins ← orFail (checkedAdd c.pins 1) .capacityExceeded
  return s.setCounts tenant { c with pins := pins, unknown := some count }

/-- Reuse a hot count. The answer is whether there is one. -/
def pinUnknown (s : State) (tenant : TenantId) (maintenance : Bool) :
    Except ErrorCode (Bool × State) := do
  s.unknownAvailable maintenance
  match s.tenantUnknown tenant with
  | none => return (false, s)
  | some count => return (true, ← s.addPin tenant count)

/-- Install a counted number of obligations. -/
def seedUnknown (s : State) (read : Read) (tenant : TenantId) (count : ℕ) :
    Except ErrorCode State := do
  s.checkRead read
  s.unknownAvailable read.maintenance
  ensure (¬ (s.receipts.totals.unknown < count
    ∨ (s.tenantUnknown tenant).any (fun old => old ≠ count))) .authorityUnavailable
  s.addPin tenant count

def dropPin (s : State) (tenant : TenantId) : State :=
  (match s.tenants[tenant]? with
    | some c =>
      match checkedSub c.pins 1 with
      | some pins => s.setCounts tenant { c with pins := pins }
      | none => { s with receipts := { s.receipts with fenced := true } }
    | none => { s with receipts := { s.receipts with fenced := true } }).idle tenant

end State

/-! ## The steps of a publication -/

/-- The change in the number of durable obligations. -/
def Step.durable (step : Step) : ℤ := step.after.toNat - step.before.toNat

/-- Match every change with the completion it carries. The terminals still
unmatched at the end are the remainder. -/
def matchSteps : List Change → List Key → List Terminal →
    Except ErrorCode (List Step × List Terminal)
  | [], _, terminals => .ok ([], terminals)
  | change :: changes, seen, terminals => do
    ensure (change.key ∉ seen ∧ change.before.all (fun k => k = change.key)
      ∧ change.after.all (fun k => k = change.key)) .authorityUnavailable
    let terminal := terminals.find? (fun t => t.key = change.key)
    let (steps, rest) ← matchSteps changes (change.key :: seen)
      (terminals.filter (fun t => t.key ≠ change.key))
    return ({ key := change.key, before := change.before.isSome, after := change.after.isSome
              terminal := terminal.map Terminal.bytes } :: steps, rest)

/-- The checks of `prepareUnknown` before it takes the lock. -/
def readSteps (changes : List Change) (terminals : List Terminal) :
    Except ErrorCode (List Step) := do
  ensure (terminals.map Terminal.key).Nodup .authorityUnavailable
  let (steps, rest) ← matchSteps changes [] terminals
  ensure (rest = []) .authorityUnavailable
  return steps

/-- The owner a step acts on, and what it does to the uncovered potential of
its tenant. A completed owner or a missing one permits a completion of zero
bytes only. -/
def claimStep (s : State) (step : Step) : Except ErrorCode (Step × ℤ) :=
  match s.executions[step.key]? with
  | none => do
    ensure (¬ step.terminal.any (fun bytes => bytes ≠ 0)) .authorityUnavailable
    return (step, 0)
  | some live =>
    if (s.completions live.owner).done then do
      ensure (¬ step.terminal.any (fun bytes => bytes ≠ 0)) .authorityUnavailable
      return (step, 0)
    else do
      ensure (¬ (live.pending ∨ live.covered ≠ step.before
        ∨ (live.repair ∧ step.terminal.isSome))) .authorityUnavailable
      return ({ step with owner := some live.owner },
        ((!step.after && step.terminal.isNone).toNat : ℤ) - (!step.before).toNat)

/-- The sums of the claimed steps for every tenant they touch. -/
def tenantDeltas (claims : List (Step × ℤ)) : Std.TreeMap TenantId (ℤ × ℤ) :=
  claims.foldl (fun deltas c =>
    let old := (deltas[c.1.key.tenant]?).getD (0, 0)
    deltas.insert c.1.key.tenant (old.1 + c.1.durable, old.2 + c.2)) ∅

def touchedTenants (s : State) : List (TenantId × ℤ × ℤ) → Except ErrorCode (List TenantChange)
  | [] => .ok []
  | (tenant, durable, uncovered) :: rest =>
    match s.tenants[tenant]? with
    | some c => do
      let _ ← orFail (checkedAdd c.pins 1) .capacityExceeded
      return { tenant := tenant, durable := durable, uncovered := uncovered }
        :: (← touchedTenants s rest)
    | none => do
      ensure (uncovered = 0) .authorityUnavailable
      touchedTenants s rest

/-! ## What a publication changes -/

/-- The running sums of `calculate`. -/
structure Tally where
  tenants : List TenantChange
  active : ℕ
  durable : ℤ := 0
  uncovered : ℤ := 0
  release : ℕ := 0
  bytes : ℕ := 0

/-- The first part of `calculate`, for one tenant. -/
def openTenant (s : State) (finished rollback : Bool) (t : TenantChange) :
    Except ErrorCode TenantChange := do
  let c ← orFail s.tenants[t.tenant]? .authorityUnavailable
  ensure (finished ∨ c.pins ≠ 0) .authorityUnavailable
  let nextUnknown ← match c.unknown with
    | some n => do pure (some (← adjust n (if rollback then 0 else t.durable)))
    | none => pure none
  let nextUncovered ← adjust c.uncovered (if rollback then 0 else t.uncovered)
  return { t with
    nextActive := c.active, nextUnknown := nextUnknown, nextUncovered := nextUncovered }

/-- Change the entry of one tenant. -/
def onTenant (tenant : TenantId) (f : TenantChange → Option TenantChange) :
    List TenantChange → Option (List TenantChange)
  | [] => none
  | t :: ts =>
    if t.tenant = tenant then (f t).map (· :: ts)
    else (onTenant tenant f ts).map (t :: ·)

/-- The bytes a completion adds. -/
def addedBytes (bytes added : ℕ) : Option ℕ := do
  let n ← checkedAdd bytes added
  if added = 0 then some n else checkedAdd n rowOverhead

/-- What a dropped lease adds to the tally: its slot, and without a terminal
its reservation. -/
def Tally.drop (t : Tally) (step : Step) (terminal rollback : Bool) : Option Tally := do
  let active ← checkedSub t.active 1
  let tenants ← onTenant step.key.tenant
    (fun c => (checkedSub c.nextActive 1).map (fun n => { c with nextActive := n })) t.tenants
  let t := { t with active := active, tenants := tenants }
  if terminal then some t
  else
    let release ← checkedAdd t.release 1
    let t := { t with release := release }
    if (if rollback then !step.before else !step.after) then
      let tenants ← onTenant step.key.tenant
        (fun c => (checkedSub c.nextUncovered 1).map (fun n => { c with nextUncovered := n }))
        t.tenants
      some { t with uncovered := t.uncovered - 1, tenants := tenants }
    else some t

/-- The second part of `calculate`, for one step. -/
def Tally.count (s : State) (rollback : Bool) (t : Tally) (step : Step) :
    Except ErrorCode Tally := do
  let t := if rollback then t else { t with durable := t.durable + step.durable }
  match step.owner with
  | none => return t
  | some owner =>
    let live ← orFail s.executions[step.key]? .authorityUnavailable
    ensure (owner = live.owner ∧ live.covered = step.before ∧ (s.completions owner).done = false)
      .authorityUnavailable
    let terminal := !rollback && step.terminal.isSome
    let t := if rollback then t else { t with
      uncovered := t.uncovered
        + (((!step.after && !terminal).toNat : ℤ) - (!step.before).toNat) }
    let t ← orFail (match terminal, step.terminal with
      | true, some added => do
        let release ← checkedAdd t.release 1
        let bytes ← addedBytes t.bytes added
        some { t with release := release, bytes := bytes }
      | _, _ => some t) .authorityUnavailable
    if live.dropped then
      ensure (live.repair = false) .authorityUnavailable
      orFail (t.drop step terminal rollback) .authorityUnavailable
    else return t

/-- The third part of `calculate`: the totals after the tally. -/
def Tally.totals (t : Tally) (old : Totals) : Except ErrorCode Totals := do
  let unknown ← adjust old.unknown t.durable
  let uncovered ← adjust old.uncovered t.uncovered
  let live ← orFail (checkedSub old.live t.release) .authorityUnavailable
  let released ← orFail (checkedMul t.release reservation) .authorityUnavailable
  let reserved ← orFail (checkedSub old.reserved released) .authorityUnavailable
  let bytes ← orFail (checkedAdd old.bytes t.bytes) .authorityUnavailable
  ensure (uncovered ≤ live) .authorityUnavailable
  return { old with
    unknown := unknown, uncovered := uncovered, live := live, reserved := reserved
    bytes := bytes }

/-- **What the publication changes, computed against the present state**: the
tenants with their next counts, the next totals, the next number of active
slots. -/
def Publication.calculate (p : Publication) (s : State) (rollback : Bool) :
    Except ErrorCode (List TenantChange × Totals × ℕ) := do
  let _ ← orFail (checkedAdd s.unknownGeneration 1) .authorityUnavailable
  let tenants ← p.tenants.mapM (openTenant s p.finished rollback)
  let t ← p.steps.foldlM (Tally.count s rollback) { tenants := tenants, active := s.active }
  let totals ← t.totals s.receipts.totals
  return (t.tenants, totals, t.active)

/-- The entry of a step once the outcome is known. -/
def settleEntry (rollback : Bool) (step : Step) (live : Live) : Live :=
  if rollback then { live with pending := false }
  else { live with pending := false, covered := step.after, published := true }

namespace State

def pinTouched (s : State) (t : TenantChange) : State :=
  match s.tenants[t.tenant]? with
  | some c => s.setCounts t.tenant { c with pins := c.pins + 1 }
  | none => s

/-- Mark the entry of a step that has an owner. -/
def markPending (s : State) (step : Step) : State :=
  match step.owner, s.executions[step.key]? with
  | some _, some live =>
    { s with executions := s.executions.insert step.key { live with pending := true } }
  | _, _ => s

/-- **Prepare the publication of a transaction**, before its commit. -/
def prepareUnknown (s : State) (read : Read) (steps : List Step) (token : ℕ) :
    Except ErrorCode (Publication × State) := do
  s.checkRead read
  ensure (s.receipts.fenced = false) .storageUnavailable
  let claims ← steps.mapM (claimStep s)
  let tenants ← touchedTenants s (tenantDeltas claims).toList
  let p : Publication :=
    { token := token, generation := read.generation, steps := claims.map Prod.fst
      tenants := tenants, finished := true }
  let (tenants, _, _) ← p.calculate s false
  let s := tenants.foldl pinTouched s
  let s := p.steps.foldl markPending s
  return ({ p with tenants := tenants, finished := false },
    { s with publicationPending := some token })

def settleTenant (s : State) (t : TenantChange) : State :=
  match s.tenants[t.tenant]? with
  | some c => s.setCounts t.tenant { c with
      unknown := t.nextUnknown, uncovered := t.nextUncovered, active := t.nextActive
      pins := decrement c.pins }
  | none => s

/-- A terminal completes the owner of its entry, a dropped lease gives its
entry up. -/
def settleStep (rollback : Bool) (s : State) (step : Step) : State :=
  match step.owner, s.executions[step.key]? with
  | some _, some live =>
    let s := if (!rollback && step.terminal.isSome) || live.dropped then s.setDone live.owner
      else s
    { s with executions :=
        if live.dropped then s.executions.erase step.key
        else s.executions.insert step.key (settleEntry rollback step live) }
  | _, _ => s

/-- **Consume a publication**, under the lock. -/
def finishPublication (s : State) (p : Publication) (rollback : Bool) :
    Except ErrorCode State := do
  ensure (s.receipts.fenced = false ∧ s.unknownGeneration = p.generation
    ∧ s.publicationPending = some p.token) .authorityUnavailable
  let (tenants, totals, active) ← p.calculate s rollback
  let s := { s with receipts := { s.receipts with totals := totals }, active := active }
  let s := tenants.foldl settleTenant s
  let s := p.steps.foldl (settleStep rollback) s
  let s := if rollback then s else { s with unknownGeneration := s.unknownGeneration + 1 }
  let s := { s with publicationPending := none }
  return tenants.foldl (fun s t => s.idle t.tenant) s

end State

end BitRouter.Admission
