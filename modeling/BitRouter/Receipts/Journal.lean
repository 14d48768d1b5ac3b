import BitRouter.Receipts.UsageEvidence
import Mathlib.Data.List.Sort
import Mathlib.Data.Fintype.Basic

/-!
# The attempt journal

`journal.rs`: the in-memory facts of the attempts of one execution. A permit
holds one of eight slots, is armed at the final send gate, reports what the
provider answers, and records an attempt without a terminal as unknown when
it is dropped. `freeze` closes the journal and, once no permit is live,
answers the facts a receipt is made of.

An interleaving of operations is a list of their critical sections: `Event`.
Only `observeUsageFrame` has two of them, and its second one is an event of
its own, enabled at an armed slot, where the first one leaves it. A permit is
owned, not copied; the permits that exist are part of the state a run works
on (`World`), and an event of a permit that does not exist does nothing.
-/

namespace BitRouter.Receipts

open Tenancy

/-- A failure of the journal. -/
inductive Error
  | capacity
  | closed
  | busy
  | binding
  | phase
  | conflict
  deriving DecidableEq, Repr

/-- The execution a journal belongs to. -/
structure Owner where
  installation : InstallationId
  execution : ExecutionId
  deriving DecidableEq

/-- What an attempt is made with: the owner, the retained references and the
target they project to. -/
structure TargetStamp where
  owner : Owner
  route : String
  credential : String
  candidate : String
  target : Target
  deriving DecidableEq

/-- Whether two stamps are of one candidate. -/
def TargetStamp.matches (a b : TargetStamp) : Bool :=
  a.owner = b.owner && a.route = b.route && a.credential = b.credential
    && a.candidate = b.candidate

inductive Phase
  | reserved
  | armed
  | completed
  | failed
  | unknown
  deriving DecidableEq, Repr

/-- One slot of the journal. -/
structure Entry where
  id : AttemptId
  target : Target
  order : ℕ
  phase : Phase
  status : Option ℕ
  evidence : Evidence
  terminalObserved : Bool
  live : Bool

abbrev slotCount : ℕ := 8

instance : NeZero slotCount := ⟨by decide⟩

/-- The index of a slot. -/
abbrev Slot := Fin slotCount

/-- **The state of a journal.** -/
structure Journal where
  owner : Owner
  slots : Slot → Option Entry
  armed : ℕ
  closed : Bool
  usageEvidence : Snapshot

/-- Non-clonable custody of one slot. -/
structure AttemptPermit where
  index : Slot
  stamp : TargetStamp
  deriving DecidableEq

/-- The facts of a closed journal. -/
structure Frozen where
  owner : Owner
  attempts : List Attempt
  usage : Usage
  dispatch : DispatchState
  httpStatuses : List (Option ℕ)
  usageEvidence : Snapshot

/-- Evidence for the fallback classifier. -/
structure SettledAttempt where
  outcome : Outcome
  httpStatus : Option ℕ
  deriving DecidableEq, Repr

def outcome : Phase → Except Error Outcome
  | .completed => .ok .completed
  | .failed => .ok .failed
  | .unknown => .ok .unknown
  | .reserved => .error .phase
  | .armed => .error .phase

namespace Journal

/-- A journal of an execution. -/
def owned (owner : Owner) : Journal where
  owner := owner
  slots := fun _ => none
  armed := 0
  closed := false
  usageEvidence := {}

/-- The entries, in the order of the slots. -/
def entries (j : Journal) : List Entry := (List.finRange slotCount).filterMap j.slots

def setSlot (j : Journal) (index : Slot) (entry : Option Entry) : Journal :=
  { j with slots := Function.update j.slots index entry }

/-- A slot just reserved. -/
def newEntry (stamp : TargetStamp) (id : AttemptId) : Entry where
  id := id
  target := stamp.target
  order := 0
  phase := .reserved
  status := none
  evidence := {}
  terminalObserved := false
  live := true

/-- **Reserve a slot.** -/
def reserveIdentity (stamp : TargetStamp) (id : AttemptId) (j : Journal) :
    Except Error (AttemptPermit × Journal) := do
  ensure (j.owner = stamp.owner) Error.binding
  ensure (j.closed = false) Error.closed
  ensure (¬ j.entries.any (fun e => e.id = id)) Error.conflict
  let index ← orFail ((List.finRange slotCount).find? (fun i => (j.slots i).isNone)) Error.capacity
  return ({ index, stamp }, j.setSlot index (some (newEntry stamp id)))

/-- **Arm a permit**, with the stamp of the authenticated request. -/
def arm (permit : AttemptPermit) (authenticated : TargetStamp) (j : Journal) :
    Except Error (AttemptId × Journal) := do
  ensure (permit.stamp.matches authenticated = true) Error.binding
  ensure (j.closed = false) Error.closed
  ensure (j.armed < slotCount) Error.capacity
  let entry ← orFail (j.slots permit.index) Error.phase
  ensure (entry.phase = .reserved) Error.phase
  return (entry.id, { j.setSlot permit.index (some { entry with phase := .armed, order := j.armed })
    with armed := j.armed + 1 })

/-- Edit an armed slot. The edit may fail and still have changed the
entry. -/
def edit (index : Slot) (f : Entry → Except Error Unit × Entry) (j : Journal) :
    Except Error Unit × Journal :=
  match j.slots index with
  | none => (.error .phase, j)
  | some entry =>
    if entry.phase = .reserved ∨ entry.live = false then (.error .phase, j)
    else ((f entry).1, j.setSlot index (some (f entry).2))

/-- Observations that contradict each other. -/
def conflicting (entry : Entry) : Except Error Unit × Entry :=
  (.error .conflict, { entry with phase := .unknown, evidence := entry.evidence.markIncomplete })

def recordStatus (status : ℕ) (entry : Entry) : Except Error Unit × Entry :=
  match entry.status with
  | some previous => if previous = status then (.ok (), entry) else conflicting entry
  | none =>
    (.ok (), { entry with
      status := some status
      phase := if 300 ≤ status then .failed else entry.phase })

/-- **Record the status of the response headers.** -/
def httpStatus (permit : AttemptPermit) (status : ℕ) (j : Journal) :
    Except Error Unit × Journal :=
  if 200 ≤ status ∧ status ≤ 599 then j.edit permit.index (recordStatus status)
  else (.error .phase, j)

/-- The evidence of a raw usage object. -/
def observeUsage (permit : AttemptPermit) (protocol : Protocol) (original : Json) (j : Journal) :
    Except Error Unit × Journal :=
  j.edit permit.index
    (fun e => (.ok (), { e with evidence := e.evidence.observe protocol original }))

/-- The frame of a raw usage object. -/
def retainFrame (permit : AttemptPermit) (protocol : Protocol)
    (source : Tenancy.UsageEvidence.Source) (original : Json) (j : Journal) :
    Except Error Unit × Journal :=
  match j.slots permit.index with
  | none => (.error .phase, j)
  | some entry => (.ok (), { j with
      usageEvidence := j.usageEvidence.observe entry.id protocol.wire source original })

def incompleteUsage (permit : AttemptPermit) (j : Journal) : Except Error Unit × Journal :=
  j.edit permit.index (fun e => (.ok (), { e with evidence := e.evidence.markIncomplete }))

/-- The phase of an accepted terminal. -/
def terminalPhase (successful : Bool) : Phase := if successful then .completed else .failed

def recordCompletion (successful : Bool) (entry : Entry) : Except Error Unit × Entry :=
  if entry.phase = terminalPhase successful then (.ok (), { entry with terminalObserved := true })
  else if entry.phase ≠ .armed ∨ ¬ entry.status.any (fun status => status < 300) then
    conflicting entry
  else (.ok (), { entry with phase := terminalPhase successful, terminalObserved := true })

/-- **Record a terminal the protocol validator has accepted.** -/
def validatedCompletion (permit : AttemptPermit) (successful : Bool) (j : Journal) :
    Except Error Unit × Journal :=
  j.edit permit.index (recordCompletion successful)

/-- What a dropped permit leaves in its slot. -/
def dropEntry (entry : Entry) : Option Entry :=
  if entry.phase = .reserved then none
  else if entry.phase = .armed then
    some { entry with
      phase := .unknown, evidence := entry.evidence.markIncomplete, live := false }
  else some { entry with live := false }

/-- **Drop a permit.** -/
def dropPermit (permit : AttemptPermit) (j : Journal) : Journal :=
  j.setSlot permit.index ((j.slots permit.index).bind dropEntry)

/-- Record the estimate of the stream finalizer. -/
def observeEstimator (estimate : Option Tenancy.UsageEvidence.Estimate) (j : Journal) :
    Except Error Journal := do
  ensure ((Tenancy.UsageEvidence.validateEstimate estimate).toBool = true) Error.conflict
  ensure (j.closed = false) Error.closed
  ensure (¬ (j.usageEvidence.estimatorSeen = true ∧ j.usageEvidence.estimate ≠ estimate))
    Error.conflict
  return { j with usageEvidence := { j.usageEvidence with estimatorSeen := true, estimate } }

/-- Link an admitted child, before it starts work: the parent and the child
after it. -/
def linkChild (parent child : Journal) : Except Error (Journal × Journal) := do
  ensure (parent.owner.installation = child.owner.installation
    ∧ parent.owner.execution ≠ child.owner.execution) Error.binding
  ensure (parent.closed = false ∧ child.closed = false ∧ child.armed = 0 ∧ child.entries.isEmpty
    ∧ child.usageEvidence.parent = none ∧ child.usageEvidence.children = []) Error.phase
  ensure (parent.usageEvidence.children.length < 64) Error.capacity
  ensure (parent.usageEvidence.parent ≠ some child.owner.execution
    ∧ child.owner.execution ∉ parent.usageEvidence.children) Error.conflict
  let children := parent.usageEvidence.children ++ [child.owner.execution]
  return ({ parent with usageEvidence := { parent.usageEvidence with children } },
    { child with usageEvidence :=
      { child.usageEvidence with parent := some parent.owner.execution } })

/-! ## Reading -/

def latest (entries : List Entry) : Option Entry :=
  entries.foldl (fun best e =>
    match best with
    | none => some e
    | some b => if b.order ≤ e.order then some e else some b) none

/-- The entry that decides the fallback: any unknown attempt, else any
completed one, else the latest. -/
def deciding (entries : List Entry) : Option Entry :=
  (entries.find? (fun e => e.phase = .unknown)).or
    ((entries.find? (fun e => e.phase = .completed)).or (latest entries))

/-- **What a fallback may be decided on.** -/
def fallbackEvidence (j : Journal) : Except Error (Option SettledAttempt) := do
  ensure (¬ j.entries.any (fun e => e.live)) Error.busy
  match deciding j.entries with
  | none => return none
  | some entry => return some { outcome := ← outcome entry.phase, httpStatus := entry.status }

def dispatchFrom : DispatchState → List Entry → DispatchState
  | result, [] => result
  | result, entry :: entries =>
    if entry.phase = .reserved then dispatchFrom result entries
    else if entry.phase = .armed ∨ entry.phase = .unknown then .unknown
    else dispatchFrom .started entries

/-- **What is known of the work started.** -/
def dispatch (j : Journal) : DispatchState := dispatchFrom .notStarted j.entries

def freezeStep (acc : List Attempt × List (Option ℕ) × DispatchState) (entry : Entry) :
    Except Error (List Attempt × List (Option ℕ) × DispatchState) := do
  let result ← outcome entry.phase
  let projection := entry.evidence.project
  let attempt : Attempt :=
    { attemptId := entry.id, target := some entry.target, outcome := result,
      usage := projection.usage, nativeUsage := projection.nativeUsage }
  return (acc.1 ++ [attempt], acc.2.1 ++ [entry.status],
    if result = .unknown ∨ acc.2.2 = .unknown then .unknown else .started)

/-- The entries in the order their attempts were armed. -/
def ordered (j : Journal) : List Entry :=
  j.entries.insertionSort (fun a b => a.order ≤ b.order)

def facts (j : Journal) : Except Error Frozen := do
  ensure (¬ j.entries.any (fun e => e.live)) Error.busy
  let (attempts, statuses, dispatch) ← j.ordered.foldlM freezeStep ([], [], .notStarted)
  let terminals := (j.entries.filter (fun e => e.terminalObserved)).map (·.id)
  return { owner := j.owner, attempts, usage := aggregate attempts, dispatch,
           httpStatuses := statuses, usageEvidence := { j.usageEvidence with terminals } }

/-- **Close the journal, and answer its facts.** -/
def freeze (j : Journal) : Except Error Frozen × Journal :=
  let j := { j with closed := true }
  (j.facts, j)

end Journal

/-! ## Runs -/

/-- The journal with the permits that exist. -/
structure World where
  journal : Journal
  permits : List AttemptPermit

/-- One operation. -/
inductive Event
  | reserve (stamp : TargetStamp) (id : AttemptId)
  | arm (permit : AttemptPermit) (authenticated : TargetStamp)
  | httpStatus (permit : AttemptPermit) (status : ℕ)
  | observeUsage (permit : AttemptPermit) (protocol : Protocol) (original : Json)
  | retainFrame (permit : AttemptPermit) (protocol : Protocol)
      (source : Tenancy.UsageEvidence.Source) (original : Json)
  | incompleteUsage (permit : AttemptPermit)
  | validatedCompletion (permit : AttemptPermit) (successful : Bool)
  | drop (permit : AttemptPermit)
  | observeEstimator (estimate : Option Tenancy.UsageEvidence.Estimate)
  /-- The journal as the parent of a link. -/
  | linkChild (child : Journal)
  /-- The journal as the child of a link. -/
  | linkParent (parent : Journal)
  | freeze

namespace Event

/-- The permit an operation is one of. -/
def permit : Event → Option AttemptPermit
  | arm permit _ => some permit
  | httpStatus permit _ => some permit
  | observeUsage permit _ _ => some permit
  | retainFrame permit _ _ _ => some permit
  | incompleteUsage permit => some permit
  | validatedCompletion permit _ => some permit
  | drop permit => some permit
  | _ => none

/-- What an operation does to the journal. -/
def apply (e : Event) (j : Journal) : Journal :=
  match e with
  | reserve stamp id => ((j.reserveIdentity stamp id).toOption.map Prod.snd).getD j
  | arm permit authenticated => ((j.arm permit authenticated).toOption.map Prod.snd).getD j
  | httpStatus permit status => (j.httpStatus permit status).2
  | observeUsage permit protocol original => (j.observeUsage permit protocol original).2
  | retainFrame permit protocol source original =>
    (j.retainFrame permit protocol source original).2
  | incompleteUsage permit => (j.incompleteUsage permit).2
  | validatedCompletion permit successful => (j.validatedCompletion permit successful).2
  | drop permit => j.dropPermit permit
  | observeEstimator estimate => (j.observeEstimator estimate).toOption.getD j
  | linkChild child => ((j.linkChild child).toOption.map Prod.fst).getD j
  | linkParent parent => ((parent.linkChild j).toOption.map Prod.snd).getD j
  | freeze => j.freeze.2

/-- What an operation of a permit answers. -/
def answer (e : Event) (j : Journal) : Except Error Unit :=
  match e with
  | httpStatus permit status => (j.httpStatus permit status).1
  | observeUsage permit protocol original => (j.observeUsage permit protocol original).1
  | retainFrame permit protocol source original =>
    (j.retainFrame permit protocol source original).1
  | incompleteUsage permit => (j.incompleteUsage permit).1
  | validatedCompletion permit successful => (j.validatedCompletion permit successful).1
  | _ => .ok ()

/-- The permits after an operation. -/
def hold (e : Event) (w : World) : List AttemptPermit :=
  match e with
  | reserve stamp id =>
    match w.journal.reserveIdentity stamp id with
    | .ok (permit, _) => w.permits ++ [permit]
    | .error _ => w.permits
  | drop permit => w.permits.erase permit
  | _ => w.permits

end Event

/-- Whether an operation can take place: its permit exists, and the second
section of an observation follows the first. -/
def Event.enabled (w : World) (e : Event) : Bool :=
  e.permit.all (fun p => p ∈ w.permits) &&
    match e with
    | .retainFrame permit _ _ _ =>
      (w.journal.slots permit.index).any (fun entry => entry.phase ≠ .reserved)
    | _ => true

namespace World

/-- The journal of an execution, before any permit. -/
def start (owner : Owner) : World := { journal := Journal.owned owner, permits := [] }

/-- **One operation of an interleaving.** -/
def step (w : World) (e : Event) : World :=
  if e.enabled w then
    { journal := e.apply w.journal, permits := e.hold w }
  else w

/-- **An interleaving of operations.** -/
def run (w : World) (events : List Event) : World := events.foldl step w

end World

/-! ## A sample execution -/

namespace Sample

def id (text : String) (valid : identifierSyntax text = true := by decide) : Identifier :=
  ⟨text, valid⟩

def owner : Owner := { installation := id "installation", execution := id "execution" }

def stamp : TargetStamp where
  owner := owner
  route := "route"
  credential := "credential"
  candidate := "candidate"
  target :=
    { providerId := id "provider", modelId := "model", accountId := id "account",
      credentialId := id "slot", credentialVersion := id "revision" }

def permit (index : Slot) : AttemptPermit := { index, stamp }

end Sample

end BitRouter.Receipts
