import BitRouter.Evolution.Exposure

/-!
# The store of block policies

The records of one owner: the control state, an enrollment for each session, and
an intent for each request. A request is answered in one transaction, with the
intent it was given before or with a new one; the first request of a session
fixes its enrollment.
-/

namespace BitRouter.Evolution

/-! ## What is read of a session -/

/-- The row of a session whose traffic is captured. -/
structure CanonicalSession where
  deleted : Bool
  owner : String
  source : String
  historyOrigin : String
  parentKey : Option String
  head : ℤ

inductive CaptureKind where
  | connected
  | request
  | notification
  | response
  | disconnected
deriving DecidableEq, Repr

/-- A captured event that is no replay. -/
structure CaptureEvent where
  method : String
  kind : CaptureKind
  /-- The payload is an administrative update. -/
  administrative : Bool
  capturedAt : String

/-- The key of a session, digested from its identity, and the instants that
timestamps name. -/
structure Clock where
  keyOf : SessionIdentity → String
  instant : String → Except String ℤ

/-- What the captured events of a session say of its beginning. -/
structure Beginning where
  prompts : ℕ
  started : Bool
  createdInEpoch : Bool
  creationRecorded : Bool

namespace CaptureEvent

/-- The session was created. -/
def creates (event : CaptureEvent) : Bool :=
  (event.method = "session/new" || event.method = "session/fork") && event.kind = .response

/-- The session has results. -/
def works (event : CaptureEvent) : Bool :=
  (event.method = "session/prompt" && event.kind = .response)
    || (event.method = "session/update" && !event.administrative)
    || event.method.startsWith "terminal/" || event.method.startsWith "fs/"

end CaptureEvent

/-- A round of the reading of the captured events. -/
def Beginning.read (C : Clock) (epochStart : Option ℤ) (b : Beginning) (event : CaptureEvent) :
    Except String Beginning := do
  let created ←
    if event.creates then do
      let createdAt ← C.instant event.capturedAt
      pure { b with
        creationRecorded := true
        createdInEpoch := b.createdInEpoch || epochStart.any (· ≤ createdAt) }
    else pure b
  return { created with
    prompts := created.prompts +
      if event.method = "session/prompt" ∧ event.kind = .request then 1 else 0
    started := created.started || event.works }

/-- A request as it reaches the store, with the rows read in its transaction. -/
structure Request where
  identity : SessionIdentity
  requestId : String
  context : DecisionContext
  dependencies : RoutingDependencies
  bypass : Option String
  session : Option CanonicalSession
  captured : List CaptureEvent
  seed : String → ℕ
  recordedAt : String

def SessionIdentity.key (C : Clock) (identity : SessionIdentity) : Except String String := do
  ensure (identity.owner ≠ "" ∧ identity.source ≠ "" ∧ identity.nativeSessionId ≠ "")
    "native identity fields must not be empty"
  return C.keyOf identity

namespace ControlState

def readBeginning (C : Clock) (s : ControlState) (session : CanonicalSession)
    (captured : List CaptureEvent) : Except String Beginning := do
  let epochStart ← match s.trialStartedAt with
    | none => pure none
    | some start => some <$> C.instant start
  captured.foldlM (Beginning.read C epochStart)
    ⟨0, session.historyOrigin ≠ "new" && session.parentKey.isNone, false, false⟩

def firstEnrollment (s : ControlState) (request : Request) (head : ℤ) (b : Beginning) :
    SessionEnrollment where
  identity := request.identity
  firstWatermark := head
  firstRequestId := request.requestId
  context := request.context
  assignments := ∅
  blockExperiments :=
    some (StrMap.ofPairs (s.blocks.toList.map fun (id, block) => (id, block.experimentId)))
  adoptedBlocks := StrMap.ofPairs ((s.blocks.toList.filter fun (_, block) =>
    b.creationRecorded && !b.started && b.prompts ≤ 1 && block.status = .adopted).map
      fun (id, block) => (id, block.experimentId))
  monitoring := ∅
  admissionReason :=
    if b.started || 1 < b.prompts || !b.createdInEpoch then "session_already_started"
    else "new_session"

end ControlState

/-! ## The store -/

structure Store where
  owner : String
  control : Option ControlState
  /-- By the keys of the sessions. -/
  enrollments : StrMap SessionEnrollment
  /-- By the ids of the requests. -/
  intents : StrMap RouteIntent

namespace Store

def state (store : Store) : ControlState := store.control.getD .default

/-- The recorded intent of a request, which has to be the same request, at the
control generation it was recorded at. -/
def replay (s : ControlState) (request : Request) (intent : RouteIntent) :
    Except String RouteIntent := do
  ensure (intent.identity = request.identity ∧ intent.context = request.context)
    "request ID was reused with different routing input"
  ensure (intent.bypass = request.bypass) "request bypass changed on replay"
  ensure (intent.routingDependencies = request.dependencies.current
    ∧ intent.archivedRoutingDependencies = request.dependencies.archived
    ∧ intent.trialReady = request.dependencies.trialReady)
    "request intent belongs to obsolete routing dependencies"
  ensure (intent.modeEpoch = s.modeEpoch ∧ intent.controlGeneration = s.generation)
    "request intent belongs to an obsolete control generation; use a new request ID"
  return intent

variable (P : Primitives) (C : Clock)

def enrollment (store : Store) (s : ControlState) (key : String) (session : CanonicalSession)
    (request : Request) : Except String SessionEnrollment :=
  match store.enrollments[key]? with
  | some enrollment => .ok enrollment
  | none => (s.firstEnrollment request session.head) <$> s.readBeginning C session request.captured

/-- The first answer to a request: its session is enrolled when it is new, and
what was selected is stored with the next control state. -/
def answer (store : Store) (s : ControlState) (key : String) (session : CanonicalSession)
    (request : Request) : Except String (Store × RouteIntent) := do
  let enrollment ← store.enrollment C s key session request
  ensure (enrollment.identity = request.identity) "session enrollment scope mismatch"
  let (next, enrolled, intent) ← s.select P
    { sessionKey := key
      identity := request.identity
      requestId := request.requestId
      context := request.context
      dependencies := request.dependencies
      bypass := request.bypass
      watermark := session.head
      enrollment := enrollment
      isNew := store.enrollments[key]?.isNone
      seed := request.seed
      recordedAt := request.recordedAt }
  return ({ store with
    control := some next
    enrollments := if store.enrollments[key]?.isNone then store.enrollments.insert key enrolled
      else store.enrollments
    intents := store.intents.insert request.requestId intent }, intent)

def transact (store : Store) (s : ControlState) (key : String) (request : Request) :
    Except String (Store × RouteIntent) := do
  ensure (request.dependencies.expectedControlGeneration.all (· = s.generation))
    "control changed while resolving live routing dependencies; retry"
  let session ← orFail request.session "native session is not recorded"
  ensure (session.deleted = false ∧ session.owner = request.identity.owner
    ∧ session.source = request.identity.source)
    "canonical session is deleted or outside the routing scope"
  match store.intents[request.requestId]? with
  | some intent => (store, ·) <$> replay s request intent
  | none => store.answer P C s key session request

/-- An explicit session override or provider continuation retains precedence.
Its request remains in the assigned session. -/
def selectWithBypass (store : Store) (request : Request) :
    Except String (Store × Option RouteIntent) := do
  ensure (request.identity.owner = store.owner) "evolution owner scope mismatch"
  ensure (request.requestId ≠ "" ∧ request.context.selector ≠ ""
    ∧ request.context.fingerprint ≠ "") "request identity and context are required"
  match store.control with
  | none => return (store, none)
  | some s => do
    let key ← request.identity.key C
    let (next, intent) ← store.transact P C s key request
    return (next, some intent)

inductive Step (store : Store) : Store → Prop
  | operation (op : Operation) (s' : ControlState) : op.apply P store.state = .ok s' →
    Step store { store with control := some s' }
  | request (r : Request) (store' : Store) (intent : Option RouteIntent) :
    store.selectWithBypass P C r = .ok (store', intent) → Step store store'

/-- The stores an owner can get to from an empty one. -/
def Reachable (owner : String) : Store → Prop :=
  Relation.ReflTransGen (Step P C) ⟨owner, none, ∅, ∅⟩

end Store

end BitRouter.Evolution
