import BitRouter.Trajectory.Guard

/-!
# The reducer of an episode

`reducePrefix` reads a whole history in sequence order and keeps, event by
event, what the routing boundary needs to know: the phase of every request,
the streaks of projection and tier, the unprotected run, recovery, the totals
of settlements, and what is left of a hold. Any event out of place refuses the
history. A route intent that carries a guarded judgement must name the digest
of the snapshot the reducer itself makes of the events before it, and a newly
applied guard clause must be followed by its activation.
-/

namespace BitRouter.Trajectory

variable {M : Type}

def ppmScale : ℕ := 1000000

def maxHoldRequests : ℕ := 2 ^ 32 - 1

/-- How far a request has come. -/
inductive RequestPhase where
  | started
  | routed
  | routedGuarded
  | settled
deriving DecidableEq, Repr

/-! ## Snapshots -/

/-- What a snapshot is made from. -/
structure SnapshotFacts where
  episodeId : String
  throughSequence : ℕ
  completeness : HistoryCompleteness
  hasStartedRequest : Bool
  requestCount : ℕ
  settledRequestCount : ℕ
  firstTimestamp : ℤ
  lastTimestamp : ℤ
  latestProjection : Option String
  sameProjectionStreak : ℕ
  sameSelectedTierStreak : ℕ
  consecutiveUnprotectedRequests : ℕ
  recoveryCount : ℕ
  requestsSinceRecovery : Option ℕ
  firstCanonicalBytes : Option ℕ
  latestCanonicalBytes : Option ℕ
  totalTokens : Option ℕ
  settledCostMicroUsd : Option ℕ
  activeHoldRemaining : ℕ

def checkedIncrement (value : ℕ) (field : String) : Except String ℕ :=
  checkedAdd value 1 s!"{field} overflow"

def checkedOptionalTotal (total value : Option ℕ) (hadPriorValues : Bool) (field : String) :
    Except String (Option ℕ) :=
  if hadPriorValues = false then .ok value
  else match total, value with
    | some total, some value => (checkedAdd total value s!"{field} overflow").map some
    | _, _ => .ok none

/-- The growth since the first request. -/
def contextGrowthPpm (first latest : Option ℕ) : Except String (Option ℕ) :=
  match first, latest with
  | some first, some latest =>
    if first = 0 then .ok none
    else if (latest - first) * ppmScale < u64Bound then
      .ok (some ((latest - first) * ppmScale / first))
    else .error "context growth ppm overflow"
  | _, _ => .ok none

/-- `u64::try_from(last.signed_duration_since(first).num_milliseconds())`. -/
def elapsedMs (first last : ℤ) : Except String ℕ :=
  let elapsed := (last - first).tdiv 1000000
  if 0 ≤ elapsed then .ok elapsed.toNat else .error "trajectory elapsed time is negative"

/-- The health of an episode, from the running counters. -/
def healthFromFacts (facts : SnapshotFacts) : Except String TrajectoryHealth := do
  ensure (facts.settledRequestCount ≤ facts.requestCount)
    "settled request count exceeds request count"
  let elapsed ← elapsedMs facts.firstTimestamp facts.lastTimestamp
  let growth ← contextGrowthPpm facts.firstCanonicalBytes facts.latestCanonicalBytes
  return {
    completeness := if facts.hasStartedRequest then
      mergeCompleteness facts.completeness .unknown else facts.completeness
    requestCount := facts.requestCount
    settledRequestCount := facts.settledRequestCount
    unsettledRequestCount := facts.requestCount - facts.settledRequestCount
    elapsedMs := elapsed
    latestProjection := facts.latestProjection
    sameProjectionStreak := facts.sameProjectionStreak
    sameSelectedTierStreak := facts.sameSelectedTierStreak
    consecutiveUnprotectedRequests := facts.consecutiveUnprotectedRequests
    recoveryCount := facts.recoveryCount
    requestsSinceRecovery := facts.requestsSinceRecovery
    contextGrowthPpm := growth
    totalTokens := facts.totalTokens
    settledCostMicroUsd := facts.settledCostMicroUsd }

/-- A snapshot, with its digest. -/
def snapshotFromFacts (ledger : Ledger M) (facts : SnapshotFacts) :
    Except String TrajectorySnapshot := do
  let health ← healthFromFacts facts
  let snapshot : TrajectorySnapshot := {
    episodeId := facts.episodeId
    throughSequence := facts.throughSequence
    health := health
    activeHoldRemaining := facts.activeHoldRemaining
    evidenceDigest := "" }
  return { snapshot with evidenceDigest := snapshot.semanticDigest ledger }

/-! ## The running state -/

/-- The variables of the reducer's loop. -/
structure Reduction where
  ownerUserId : String
  episodeId : String
  firstTimestamp : ℤ
  index : ℕ
  previousTimestamp : ℤ
  lastTimestamp : ℤ
  requests : StrMap RequestPhase
  guardedRouteDigests : StrMap (String × String)
  pendingGuardActivation : Option String
  completeness : HistoryCompleteness
  requestCount : ℕ
  settledRequestCount : ℕ
  sameProjectionStreak : ℕ
  sameSelectedTierStreak : ℕ
  consecutiveUnprotectedRequests : ℕ
  recoveryCount : ℕ
  requestsSinceRecovery : Option ℕ
  totalTokens : Option ℕ
  settledCostMicroUsd : Option ℕ
  firstCanonicalBytes : Option ℕ
  latestCanonicalBytes : Option ℕ
  previousProjection : Option String
  previousSelectedTier : Option String
  activeHoldRemaining : ℕ
  closed : Bool

namespace Reduction

/-- Before the first event. -/
def initial (ownerUserId episodeId : String) (firstTimestamp : ℤ) : Reduction where
  ownerUserId := ownerUserId
  episodeId := episodeId
  firstTimestamp := firstTimestamp
  index := 0
  previousTimestamp := firstTimestamp
  lastTimestamp := firstTimestamp
  requests := ∅
  guardedRouteDigests := ∅
  pendingGuardActivation := none
  completeness := .complete
  requestCount := 0
  settledRequestCount := 0
  sameProjectionStreak := 0
  sameSelectedTierStreak := 0
  consecutiveUnprotectedRequests := 0
  recoveryCount := 0
  requestsSinceRecovery := none
  totalTokens := none
  settledCostMicroUsd := none
  firstCanonicalBytes := none
  latestCanonicalBytes := none
  previousProjection := none
  previousSelectedTier := none
  activeHoldRemaining := 0
  closed := false

/-- What a snapshot through `throughSequence` is made of. -/
def facts (r : Reduction) (throughSequence : ℕ) (lastTimestamp : ℤ) : SnapshotFacts where
  episodeId := r.episodeId
  throughSequence := throughSequence
  completeness := r.completeness
  hasStartedRequest := r.requests.toList.any (·.2 = .started)
  requestCount := r.requestCount
  settledRequestCount := r.settledRequestCount
  firstTimestamp := r.firstTimestamp
  lastTimestamp := lastTimestamp
  latestProjection := r.previousProjection
  sameProjectionStreak := r.sameProjectionStreak
  sameSelectedTierStreak := r.sameSelectedTierStreak
  consecutiveUnprotectedRequests := r.consecutiveUnprotectedRequests
  recoveryCount := r.recoveryCount
  requestsSinceRecovery := r.requestsSinceRecovery
  firstCanonicalBytes := r.firstCanonicalBytes
  latestCanonicalBytes := r.latestCanonicalBytes
  totalTokens := r.totalTokens
  settledCostMicroUsd := r.settledCostMicroUsd
  activeHoldRemaining := r.activeHoldRemaining

end Reduction

def requiredRequestId (event : TrajectoryEvent M) : Except String String :=
  orFail event.requestId "trajectory request event is missing request_id"

def parseStartCompleteness : Option String → Except String HistoryCompleteness
  | some "complete" => .ok .complete
  | some "incomplete" => .ok .incomplete
  | some "unknown" => .ok .unknown
  | none => .ok .unknown
  | some _ => .error "request start has invalid history completeness"

def validateCorrelationSource : Option String → Except String HistoryCompleteness
  | some "native_parent_id" => .ok .complete
  | some "canonical_prefix" => .ok .complete
  | some "explicit_root" => .ok .complete
  | some "unresolved" => .ok .complete
  | none => .ok .unknown
  | some _ => .error "request start has invalid correlation source"

/-- The streak of a value after the next one: a missing value ends it. -/
def updateStreak (previous current : Option String) (streak : ℕ) (field : String) :
    Except String ℕ :=
  match current with
  | none => .ok 0
  | some current => if previous = some current then checkedIncrement streak field else .ok 1

/-! ## One event -/

namespace Reduction

/-- What every event is held to, whatever its kind. -/
def accept (ledger : Ledger M) (r : Reduction) (event : TrajectoryEvent M) : Except String ℤ := do
  validateEvent ledger event
  let expectedSequence ← checkedAdd r.index 1 "trajectory event sequence overflow"
  ensure (event.sequence = expectedSequence)
    s!"trajectory reducer expected sequence {expectedSequence}, found {event.sequence}"
  ensure (event.ownerUserId = r.ownerUserId ∧ event.episodeId = r.episodeId)
    "trajectory reducer events must share one owner and episode"
  ensure (r.closed = false) "trajectory episode contains an event after closure"
  let capturedAt ← orFail (ledger.parseFromRfc3339 event.capturedAt)
    "parsing trajectory event timestamp"
  ensure (r.previousTimestamp ≤ capturedAt) "trajectory event timestamps regress in sequence order"
  ensure (∀ requestId ∈ r.pendingGuardActivation,
      event.kind = .guardActivated ∧ event.requestId = some requestId)
    "guarded route trigger must be followed by its guard activation"
  return capturedAt

/-- The state once an event captured at `capturedAt` is admitted. -/
def admitted (r : Reduction) (capturedAt : ℤ) : Reduction :=
  { r with index := r.index + 1, previousTimestamp := capturedAt, lastTimestamp := capturedAt }

/-- A request starts once. -/
def requestStarted (r : Reduction) (event : TrajectoryEvent M) : Except String Reduction := do
  let requestId ← requiredRequestId event
  ensure (r.requests.contains requestId = false)
    s!"trajectory request '{requestId}' starts more than once"
  let canonicalInputBytes := event.evidence.structural["request.canonical_input_bytes"]?
  let requestCount ← checkedIncrement r.requestCount "request count"
  let history ← parseStartCompleteness event.evidence.categorical["history.completeness"]?
  let source ← validateCorrelationSource event.evidence.categorical["correlation.source"]?
  return { r with
    activeHoldRemaining := r.activeHoldRemaining - 1
    firstCanonicalBytes := if r.requestCount = 0 then canonicalInputBytes
      else r.firstCanonicalBytes
    latestCanonicalBytes := canonicalInputBytes
    requestCount := requestCount
    completeness := mergeCompleteness (mergeCompleteness r.completeness history) source
    requests := r.requests.insert requestId .started }

/-- A clause other than a hold. -/
def triggers (clauses : List (String × RouteIntentClauseDisposition)) : Bool :=
  clauses.any fun (id, disposition) => disposition = .applied
    && startsWith id "progress_guard." && id ≠ "progress_guard.active_hold"

/-- A route the guard decided on. -/
def guardedRoute (ledger : Ledger M) (r : Reduction) (prefixTimestamp : ℤ)
    (event : TrajectoryEvent M) (requestId : String)
    (clauses : List (String × RouteIntentClauseDisposition)) : Except String Reduction := do
  let policy ← orFail event.evidence.digests["route.policy_lock"]?
    "guarded route lost its policy digest"
  let health ← orFail event.evidence.digests["route.health_snapshot"]?
    "guarded route lost its health digest"
  ensure (event.sequence ≠ 0) "guarded route has no factual event prefix"
  let factualPrefix ← snapshotFromFacts ledger (r.facts (event.sequence - 1) prefixTimestamp)
  ensure (health = factualPrefix.evidenceDigest)
    "guarded route health digest disagrees with its factual pre-intent trajectory snapshot"
  return { r with
    guardedRouteDigests := r.guardedRouteDigests.insert requestId (policy, health)
    pendingGuardActivation := if triggers clauses then some requestId
      else r.pendingGuardActivation }

/-- A request is routed once. -/
def markRouted (r : Reduction) (requestId : String) : Except String Reduction :=
  match r.requests[requestId]? with
  | none => .error s!"route intent references unknown request '{requestId}'"
  | some .started => .ok { r with requests := r.requests.insert requestId .routed }
  | some .settled =>
    .error s!"trajectory request '{requestId}' records intent after settlement"
  | some _ => .error s!"trajectory request '{requestId}' has duplicate route intent"

def parseRouteProjection (projection : Option String) :
    Except String (Option RouteProjection) :=
  match projection with
  | none => .ok none
  | some value => (orFail (RouteProjection.parseKey value)
      "route intent has invalid canonical projection").map some

def parseRouteWorkflowState (workflowState : Option String) :
    Except String (Option WorkflowStateKind) :=
  match workflowState with
  | none => .ok none
  | some value => (orFail (RouteProjection.parseKey s!"agent_trace/v2|{value}|normal")
      "route intent has invalid generic workflow state").map fun p => some p.stateKind

/-- The selected tier is protected: by its own fact where the event has one,
else by the tiers the reader protects. -/
def selectedIsProtected (protectedTiers : Finset String) (event : TrajectoryEvent M) :
    Except String Bool :=
  match event.evidence.structural["route.selected_is_protected"]? with
  | some 0 => .ok false
  | some 1 => .ok true
  | some _ => .error "guarded route has an invalid selected-tier protection fact"
  | none => .ok (event.evidence.categorical["route.selected_tier"]?.any (· ∈ protectedTiers))

def unprotectedAfter (r : Reduction) (selectedTier : Option String) (isProtected : Bool) :
    Except String ℕ :=
  match selectedTier with
  | none => .ok 0
  | some _ => if isProtected then .ok 0
    else checkedIncrement r.consecutiveUnprotectedRequests "consecutive unprotected request count"

/-- Counted on the edge only. -/
def enteredRecovery (r : Reduction) : Except String ℕ :=
  if isRecovery r.previousProjection then .ok r.recoveryCount
  else checkedIncrement r.recoveryCount "recovery count"

/-- What the routed workflow state says of recovery. -/
def recoveryAfter (r : Reduction) (workflowState : Option WorkflowStateKind) :
    Except String (ℕ × Option ℕ) :=
  if workflowState = some .recovery then r.enteredRecovery.map fun count => (count, some 0)
  else match r.requestsSinceRecovery with
    | none => .ok (r.recoveryCount, none)
    | some count => (checkedIncrement count "requests since recovery count").map fun count =>
      (r.recoveryCount, some count)

/-- Judged again from the prefix. -/
def guardedIntent (ledger : Ledger M) (r : Reduction) (prefixTimestamp : ℤ)
    (event : TrajectoryEvent M) (requestId : String) : Except String Reduction := do
  match ← validatePersistedRouteIntent event with
  | some clauses => r.guardedRoute ledger prefixTimestamp event requestId clauses
  | none => .ok r

/-- A route decision. -/
def routeIntentRecorded (ledger : Ledger M) (protectedTiers : Finset String) (r : Reduction)
    (prefixTimestamp : ℤ) (event : TrajectoryEvent M) : Except String Reduction := do
  let requestId ← requiredRequestId event
  let r ← r.guardedIntent ledger prefixTimestamp event requestId
  let r ← r.markRouted requestId
  let projection := event.evidence.categorical["route.projection"]?
  let workflowState := event.evidence.categorical["route.workflow_state"]?
  let selectedTier := event.evidence.categorical["route.selected_tier"]?
  let parsedProjection ← parseRouteProjection projection
  let parsedWorkflowState ← parseRouteWorkflowState workflowState
  ensure (∀ projection ∈ parsedProjection, ∀ state ∈ parsedWorkflowState,
      projection.stateKind = state)
    "route intent projection and workflow state disagree"
  let sameProjectionStreak ← updateStreak r.previousProjection projection r.sameProjectionStreak
    "same projection streak"
  let sameSelectedTierStreak ← updateStreak r.previousSelectedTier selectedTier
    r.sameSelectedTierStreak "same selected tier streak"
  let isProtected ← selectedIsProtected protectedTiers event
  let consecutiveUnprotectedRequests ← r.unprotectedAfter selectedTier isProtected
  let (recoveryCount, requestsSinceRecovery) ← r.recoveryAfter parsedWorkflowState
  return { r with
    completeness := if projection.isNone ∨ workflowState.isNone ∨ selectedTier.isNone then
      mergeCompleteness r.completeness .unknown else r.completeness
    sameProjectionStreak := sameProjectionStreak
    sameSelectedTierStreak := sameSelectedTierStreak
    consecutiveUnprotectedRequests := consecutiveUnprotectedRequests
    recoveryCount := recoveryCount
    requestsSinceRecovery := requestsSinceRecovery
    previousProjection := projection
    previousSelectedTier := selectedTier }

/-- A request is settled once, after it was routed. -/
def markSettled (r : Reduction) (requestId : String) : Except String Reduction :=
  match r.requests[requestId]? with
  | none => .error s!"settlement references unknown request '{requestId}'"
  | some .started =>
    .error s!"trajectory request '{requestId}' settles before route intent"
  | some .settled => .error s!"trajectory request '{requestId}' settles more than once"
  | some _ => .ok { r with requests := r.requests.insert requestId .settled }

/-- A request ends. -/
def requestSettled (r : Reduction) (event : TrajectoryEvent M) : Except String Reduction := do
  let requestId ← requiredRequestId event
  let r ← r.markSettled requestId
  let hadSettledRequests : Bool := 0 < r.settledRequestCount
  let totalTokens ← checkedOptionalTotal r.totalTokens
    event.evidence.structural["settlement.total_tokens"]? hadSettledRequests "total token count"
  let settledCostMicroUsd ← checkedOptionalTotal r.settledCostMicroUsd
    event.evidence.structural["settlement.cost_micro_usd"]? hadSettledRequests "settled cost"
  let settledRequestCount ← checkedIncrement r.settledRequestCount "settled request count"
  return { r with
    totalTokens := totalTokens
    settledCostMicroUsd := settledCostMicroUsd
    settledRequestCount := settledRequestCount }

/-- A typed activation answers the trigger just before it, under the same
digests; an untyped one is for routes that were not guarded. -/
def answerTrigger (r : Reduction) (event : TrajectoryEvent M) (requestId : String)
    (typed : Bool) : Except String Reduction :=
  if typed then do
    ensure (r.pendingGuardActivation = some requestId)
      "guard activation has no immediately preceding new guard trigger"
    let routeDigests ← orFail r.guardedRouteDigests[requestId]?
      "guard activation has no guarded route intent"
    let guardPolicy ← orFail event.evidence.digests["guard.policy_lock"]?
      "guard activation lost its policy digest"
    let guardHealth ← orFail event.evidence.digests["guard.health_snapshot"]?
      "guard activation lost its health digest"
    ensure (routeDigests = (guardPolicy, guardHealth))
      "guard activation policy/health digests disagree with route intent"
    return { r with pendingGuardActivation := none }
  else do
    ensure (r.guardedRouteDigests.contains requestId = false)
      "guarded route requires typed guard activation evidence"
    return r

def markGuarded (r : Reduction) (requestId : String) : Except String Reduction :=
  match r.requests[requestId]? with
  | none => .error s!"guard activation references unknown request '{requestId}'"
  | some .started => .error "guard activation requires a recorded route intent"
  | some .routed => .ok { r with requests := r.requests.insert requestId .routedGuarded }
  | some .routedGuarded =>
    .error s!"trajectory request '{requestId}' has duplicate guard activation"
  | some .settled =>
    .error s!"trajectory request '{requestId}' activates guard after settlement"

/-- It follows the decision it is from. -/
def guardActivated (r : Reduction) (event : TrajectoryEvent M) : Except String Reduction := do
  let requestId ← requiredRequestId event
  let typed ← validatePersistedGuardActivation event
  let r ← r.answerTrigger event requestId typed
  let r ← r.markGuarded requestId
  let hold ← orFail event.evidence.structural["guard.hold_for_requests"]?
    "guard activation is missing hold length"
  ensure (hold ≠ 0 ∧ hold ≤ maxHoldRequests) "guard hold length must be in 1..=u32::MAX"
  return { r with activeHoldRemaining := hold }

/-- An episode ends. -/
def episodeClosed (r : Reduction) (event : TrajectoryEvent M) : Except String Reduction := do
  ensure (event.requestId.isNone) "episode close event cannot identify a request"
  return { r with closed := true }

/-- **One event of the loop.** -/
def step (ledger : Ledger M) (protectedTiers : Finset String) (r : Reduction)
    (event : TrajectoryEvent M) : Except String Reduction := do
  let capturedAt ← r.accept ledger event
  let next := r.admitted capturedAt
  match event.kind with
  | .requestStarted => next.requestStarted event
  | .routeIntentRecorded => next.routeIntentRecorded ledger protectedTiers r.lastTimestamp event
  | .requestSettled => next.requestSettled event
  | .guardActivated => next.guardActivated event
  | .episodeClosed => next.episodeClosed event

end Reduction

/-! ## A whole history -/

/-- A prefix may end before an activation. -/
inductive PrefixReduction where
  | complete (snapshot : TrajectorySnapshot)
  | awaitingGuardActivation
deriving DecidableEq, Repr

/-- The state before the first event of a history. -/
def begun (ledger : Ledger M) (events : List (TrajectoryEvent M)) : Except String Reduction := do
  let first ← orFail events.head? "trajectory reduction requires at least one event"
  ensure (first.kind = .requestStarted) "trajectory episode must begin with RequestStarted"
  let firstTimestamp ← orFail (ledger.parseFromRfc3339 first.capturedAt)
    "parsing first trajectory timestamp"
  return Reduction.initial first.ownerUserId first.episodeId firstTimestamp

/-- The state after the last event of a history. -/
def reduction (ledger : Ledger M) (events : List (TrajectoryEvent M))
    (protectedTiers : Finset String) : Except String Reduction := do
  let r ← begun ledger events
  events.foldlM (Reduction.step ledger protectedTiers) r

/-- Every event, one by one. -/
def reducePrefix (ledger : Ledger M) (events : List (TrajectoryEvent M))
    (protectedTiers : Finset String) : Except String PrefixReduction := do
  let r ← reduction ledger events protectedTiers
  if r.pendingGuardActivation.isSome then return .awaitingGuardActivation
  else do
    let last ← orFail events.getLast? "trajectory reduction lost its final event"
    return .complete (← snapshotFromFacts ledger (r.facts last.sequence r.lastTimestamp))

/-- A whole episode. -/
def reduce (ledger : Ledger M) (events : List (TrajectoryEvent M))
    (protectedTiers : Finset String) : Except String TrajectorySnapshot := do
  match ← reducePrefix ledger events protectedTiers with
  | .complete snapshot => .ok snapshot
  | .awaitingGuardActivation => .error "guarded route trigger is missing its guard activation"

end BitRouter.Trajectory
