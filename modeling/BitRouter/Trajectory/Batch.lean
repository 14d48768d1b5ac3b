import BitRouter.Trajectory.Health

/-!
# What a guarded request writes

A request enters an episode as a start event and, when it is routed under a
progress guard, as a route intent and, on a new trigger, a guard activation,
all captured at one instant. `buildGuardedRouteBatch` makes the last two from
the history before the start: it reduces the history and the history through
the start, judges the request, applies the tool floor, and persists the
judgement in the evidence of the route intent.
-/

namespace BitRouter.Trajectory

variable {M : Type}

/-- How a request found its episode. -/
inductive CorrelationSource where
  | nativeParentId
  | canonicalPrefix
  | explicitRoot
  | unresolved
deriving DecidableEq, Repr

def CorrelationSource.asStr : CorrelationSource → String
  | .nativeParentId => "native_parent_id"
  | .canonicalPrefix => "canonical_prefix"
  | .explicitRoot => "explicit_root"
  | .unresolved => "unresolved"

def completenessName : HistoryCompleteness → String
  | .complete => "complete"
  | .incomplete => "incomplete"
  | .unknown => "unknown"

inductive ReasoningEffort where
  | none
  | minimal
  | low
  | medium
  | high
  | xhigh
  | max
deriving DecidableEq, Repr

def ReasoningEffort.asStr : ReasoningEffort → String
  | .none => "none"
  | .minimal => "minimal"
  | .low => "low"
  | .medium => "medium"
  | .high => "high"
  | .xhigh => "xhigh"
  | .max => "max"

/-! ## Inputs -/

/-- What a guarded decision is made from. -/
structure GuardedRouteInput (M : Type) where
  routeEventId : String
  guardEventId : String
  policyName : String
  routeProjection : String
  requestKey : String
  baselineTier : Option String
  baselineEffort : Option ReasoningEffort
  tierEfforts : StrMap ReasoningEffort
  preset : Option String
  projection : RouteProjection
  candidateTier : Option String
  policyDigest : String
  experiment : Option EvalExperimentRef
  routeMeasurement : Option M
  policy : ProgressGuardPolicy
  carriesTools : Bool
  toolUseTier : Option String
  toolSafeTiers : Finset String

/-- A request that starts. -/
structure CorrelateAndBegin (M : Type) where
  requestId : String
  newEpisodeId : String
  eventId : String
  correlationKeyId : String
  nativeParentId : Option String
  nativeParentDigest : Option KeyedDigest
  fullInputDigest : KeyedDigest
  ancestorPrefixDigests : List KeyedDigest
  ancestorPrefixesTruncated : Bool
  startsWithPriorTurns : Bool
  canonicalInputBytes : ℕ
  protocol : String
  capturedAt : String
  guardedRoute : Option (GuardedRouteInput M)

/-- What the caller is told. -/
structure GuardedRouteResult where
  snapshot : TrajectorySnapshot
  intent : RouteIntent
  guardActivated : Bool
  toolFloorApplied : Bool
  routeSequence : ℕ
  causalCompleteness : HistoryCompleteness
deriving DecidableEq

/-- The events written at once. -/
structure GuardedRouteBatch (M : Type) where
  routeEvent : TrajectoryEvent M
  guardEvent : Option (TrajectoryEvent M)
  result : GuardedRouteResult

/-! ## The start event -/

/-- What correlation found out. -/
structure StartFacts where
  source : CorrelationSource
  completeness : HistoryCompleteness
  prefixConflict : Bool
  keyEpochConflict : Bool

/-- What a start event records. -/
def startEvidence (input : CorrelateAndBegin M) (facts : StartFacts) : TrajectoryEvidence M where
  routingEvidence := []
  structural := .ofPairs [
    ("correlation.ancestor_prefix_count", input.ancestorPrefixDigests.length),
    ("correlation.starts_with_prior_turns", input.startsWithPriorTurns.toNat),
    ("correlation.ancestor_prefixes_truncated", input.ancestorPrefixesTruncated.toNat),
    ("correlation.prefix_conflict", facts.prefixConflict.toNat),
    ("correlation.native_parent_present", input.nativeParentDigest.isSome.toNat),
    ("correlation.key_epoch_conflict", facts.keyEpochConflict.toNat),
    ("request.canonical_input_bytes", input.canonicalInputBytes)]
  categorical := .ofPairs [
    ("correlation.source", facts.source.asStr),
    ("history.completeness", completenessName facts.completeness)]
  digests := .ofPairs
    (input.nativeParentDigest.toList.map fun digest => ("correlation.native_parent", digest.value))
  routeMeasurement := none

/-- The same immutable start evidence for both storage adapters. -/
def buildStartEvent (ledger : Ledger M) (ownerUserId : String) (input : CorrelateAndBegin M)
    (episodeId : String) (sequence : ℕ) (capturedAt : String) (facts : StartFacts) :
    TrajectoryEvent M :=
  TrajectoryEvent.signed ledger {
    schemaVersion := trajectorySchemaVersion
    eventId := input.eventId
    ownerUserId := ownerUserId
    episodeId := episodeId
    requestId := some input.requestId
    sequence := sequence
    kind := .requestStarted
    evidence := startEvidence input facts
    capturedAt := capturedAt
    contentDigest := "" }

/-! ## The tool floor -/

/-- Tools need a protected tier. -/
def toolFloorApplies (input : GuardedRouteInput M) (selectedTier : Option String) : Bool :=
  input.carriesTools && selectedTier.any fun tier =>
    tier ∉ input.toolSafeTiers && input.toolUseTier.any (· ≠ tier)

def toolFloorExplanation (input : GuardedRouteInput M) (selectedTier : Option String) : String :=
  if toolFloorApplies input selectedTier then
    "tool-carrying request requires the configured protected tool floor"
  else if input.carriesTools = false then "request carries no tools"
  else if selectedTier.any (· ∈ input.toolSafeTiers) then "selected tier is already tool-safe"
  else "no distinct tool safety floor is configured"

/-- The intent once the tool floor has been considered. -/
def applyToolFloor (input : GuardedRouteInput M) (intent : RouteIntent) :
    Except String RouteIntent := do
  let applied := toolFloorApplies input intent.selectedTier
  ensure (applied = true → input.toolUseTier.any (· ∈ input.policy.protectedTiers) = true)
    "tool safety floor must remain a protected progress-guard tier"
  return { intent with
    experiment := input.experiment
    selectedTier := if applied then input.toolUseTier else intent.selectedTier
    clauses := intent.clauses ++ [{
      clauseId := "tool_safety.floor"
      disposition := if applied then .applied else .skipped
      explanation := toolFloorExplanation input intent.selectedTier }] }

/-! ## The route intent and its activation -/

def ExperimentArm.name : ExperimentArm → String
  | .control => "control"
  | .challenger => "challenger"

def ExperimentAssignmentUnit.name : ExperimentAssignmentUnit → String
  | .task => "task"
  | .episode => "episode"

/-- The persisted clauses, each under its index. -/
def clauseFields (clauses : List RouteIntentClause) : List (String × String) :=
  clauses.zipIdx.flatMap fun (clause, index) =>
    [(clauseIdKey index, clause.clauseId), (clauseDispositionKey index, clause.disposition.name)]

/-- The categorical evidence of a route intent, in the order it is inserted. -/
def routeFields (input : GuardedRouteInput M) (intent : RouteIntent) : List (String × String) :=
  [("route.projection", input.projection.key),
    ("route.workflow_state", input.projection.stateKind.name),
    ("route.policy", input.policyName),
    ("route.route_projection", input.routeProjection),
    ("route.request_key", input.requestKey),
    ("route.eval_schema", "trajectory.v1")]
  ++ (input.baselineTier.toList.map fun tier => ("route.baseline_tier", tier))
  ++ (input.baselineEffort.toList.map fun effort => ("route.baseline_effort", effort.asStr))
  ++ (input.preset.toList.map fun preset => ("route.preset", preset))
  ++ (intent.candidateTier.toList.map fun tier => ("route.candidate_tier", tier))
  ++ (intent.selectedTier.toList.map fun tier => ("route.selected_tier", tier))
  ++ ((intent.selectedTier.bind (input.tierEfforts[·]?)).toList.map fun effort =>
    ("route.selected_effort", effort.asStr))
  ++ (intent.experiment.toList.flatMap fun experiment =>
    [("route.experiment_id", experiment.experimentId),
      ("route.experiment_arm", experiment.arm.name),
      ("route.experiment_assignment_unit", experiment.assignmentUnit.name)])

/-- What a route event records. -/
def routeEvidence (input : GuardedRouteInput M) (intent : RouteIntent) : TrajectoryEvidence M where
  routingEvidence := []
  structural := .ofPairs ([
    ("route.applied_clause_count", (intent.clauses.filter (·.isApplied)).length),
    ("route.selected_is_protected",
      (intent.selectedTier.any (· ∈ input.policy.protectedTiers)).toNat)]
    ++ (intent.experiment.toList.map fun experiment =>
      ("route.experiment_challenger_propensity_ppm", experiment.challengerPropensityPpm)))
  categorical := .ofPairs (routeFields input intent ++ clauseFields intent.clauses)
  digests := .ofPairs ([
    ("route.health_snapshot", intent.trajectorySnapshotDigest),
    ("route.policy_lock", intent.policyDigest)]
    ++ (intent.experiment.toList.map fun experiment =>
      ("route.experiment_assignment_id", experiment.assignmentIdDigest)))
  routeMeasurement := input.routeMeasurement

/-- The event of the decision. -/
def routeEvent (ledger : Ledger M) (start : TrajectoryEvent M) (input : GuardedRouteInput M)
    (intent : RouteIntent) (routeSequence : ℕ) : TrajectoryEvent M :=
  TrajectoryEvent.signed ledger {
    schemaVersion := trajectorySchemaVersion
    eventId := input.routeEventId
    ownerUserId := start.ownerUserId
    episodeId := start.episodeId
    requestId := start.requestId
    sequence := routeSequence
    kind := .routeIntentRecorded
    evidence := routeEvidence input intent
    capturedAt := start.capturedAt
    contentDigest := "" }

/-- What an activation records. -/
def guardEvidence (input : GuardedRouteInput M) (intent : RouteIntent) : TrajectoryEvidence M where
  routingEvidence := []
  structural := .ofPairs [("guard.hold_for_requests", input.policy.holdForRequests)]
  categorical := ∅
  digests := .ofPairs [
    ("guard.health_snapshot", intent.trajectorySnapshotDigest),
    ("guard.policy_lock", intent.policyDigest)]
  routeMeasurement := none

/-- The event of the activation. -/
def guardEvent (ledger : Ledger M) (start : TrajectoryEvent M) (input : GuardedRouteInput M)
    (intent : RouteIntent) (sequence : ℕ) : TrajectoryEvent M :=
  TrajectoryEvent.signed ledger {
    schemaVersion := trajectorySchemaVersion
    eventId := input.guardEventId
    ownerUserId := start.ownerUserId
    episodeId := start.episodeId
    requestId := start.requestId
    sequence := sequence
    kind := .guardActivated
    evidence := guardEvidence input intent
    capturedAt := start.capturedAt
    contentDigest := "" }

/-- The snapshot before the request. -/
def priorSnapshot (ledger : Ledger M) (priorEvents : List (TrajectoryEvent M))
    (protectedTiers : Finset String) : Except String (Option TrajectorySnapshot) :=
  if priorEvents.isEmpty then .ok none
  else (reduce ledger priorEvents protectedTiers).map some

/-- **The route intent of a request and the activation it calls for.** -/
def buildGuardedRouteBatch (ledger : Ledger M) (priorEvents : List (TrajectoryEvent M))
    (start : TrajectoryEvent M) (completeness : HistoryCompleteness)
    (input : GuardedRouteInput M) : Except String (GuardedRouteBatch M) := do
  let prior ← priorSnapshot ledger priorEvents input.policy.protectedTiers
  let preIntent ← reduce ledger (priorEvents ++ [start]) input.policy.protectedTiers
  let evaluation ← evaluate input.policy {
    priorSnapshot := prior
    preIntentSnapshot := preIntent
    correlationCompleteness := completeness
    currentProjection := input.projection
    candidateTier := input.candidateTier
    policyDigest := input.policyDigest }
  let intent ← applyToolFloor input evaluation.intent
  let routeSequence ← checkedAdd start.sequence 1 "route intent sequence overflow"
  let guard ← if evaluation.activated then
      (checkedAdd routeSequence 1 "guard activation sequence overflow").map fun sequence =>
        some (guardEvent ledger start input intent sequence)
    else .ok none
  return {
    routeEvent := routeEvent ledger start input intent routeSequence
    guardEvent := guard
    result := {
      snapshot := preIntent
      intent := intent
      guardActivated := evaluation.activated
      toolFloorApplied := toolFloorApplies input evaluation.intent.selectedTier
      routeSequence := routeSequence
      causalCompleteness := evaluation.causalCompleteness } }

/-- What a batch appends after its start. -/
def GuardedRouteBatch.events (batch : GuardedRouteBatch M) : List (TrajectoryEvent M) :=
  batch.routeEvent :: batch.guardEvent.toList

end BitRouter.Trajectory
