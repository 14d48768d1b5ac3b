import BitRouter.Trajectory.Types
import Mathlib.Data.Finset.Basic

/-!
# The progress guard

A route projection is the content-free class a request falls in; its key is the
text the ledger keeps, and `parseKey` reads it back. The progress guard is a
pure judgement at the routing boundary: from the snapshot before the request
and the one through its start, `evaluate` makes one clause for each reason to
escalate, and the tier the clauses lead to. While a persisted hold is active
the other clauses are suppressed, so that a hold neither renews nor extends
itself.

The persisted form of a judgement is read back from the event alone
(`validatePersistedRouteIntent`): the clauses in their fixed order, and as many
applied ones as the event counts.
-/

namespace BitRouter.Trajectory

/-! ## Route projections -/

/-- Where a workflow stands. -/
inductive WorkflowStateKind where
  | unknown
  | opening
  | planning
  | toolFollowup
  | edit
  | test
  | debug
  | review
  | recovery
  | subagentDispatch
  | finalization
deriving DecidableEq, Repr

def WorkflowStateKind.name : WorkflowStateKind → String
  | .unknown => "unknown"
  | .opening => "opening"
  | .planning => "planning"
  | .toolFollowup => "tool_followup"
  | .edit => "edit"
  | .test => "test"
  | .debug => "debug"
  | .review => "review"
  | .recovery => "recovery"
  | .subagentDispatch => "subagent_dispatch"
  | .finalization => "finalization"

def parseWorkflowStateKind : String → Option WorkflowStateKind
  | "unknown" => some .unknown
  | "opening" => some .opening
  | "planning" => some .planning
  | "tool_followup" => some .toolFollowup
  | "edit" => some .edit
  | "test" => some .test
  | "debug" => some .debug
  | "review" => some .review
  | "recovery" => some .recovery
  | "subagent_dispatch" => some .subagentDispatch
  | "finalization" => some .finalization
  | _ => none

/-- How careful a route has to be. -/
inductive RouteRisk where
  | normal
  | context
  | guarded
deriving DecidableEq, Repr

def RouteRisk.name : RouteRisk → String
  | .normal => "normal"
  | .context => "context"
  | .guarded => "guarded"

def parseRouteRisk : String → Option RouteRisk
  | "normal" => some .normal
  | "context" => some .context
  | "guarded" => some .guarded
  | _ => none

/-- A request as the router sees it. -/
structure RouteProjection where
  schemaVersion : ℕ
  stateKind : WorkflowStateKind
  risk : RouteRisk
deriving DecidableEq, Repr

namespace RouteProjection

/-- The text of a projection. -/
def key (p : RouteProjection) : String :=
  s!"agent_trace/v{p.schemaVersion}|{p.stateKind.name}|{p.risk.name}"

/-- Parse a canonical key. -/
def parseKey (value : String) : Option RouteProjection :=
  match (Delimited.split '|' value.toList).map String.ofList with
  | [namespaceVersion, state, risk] => do
    let schemaVersion ← match namespaceVersion with
      | "agent_trace/v1" => some 1
      | "agent_trace/v2" => some 2
      | _ => none
    let risk ← parseRouteRisk risk
    if schemaVersion = 1 ∧ risk = .context then none
    else return ⟨schemaVersion, ← parseWorkflowStateKind state, risk⟩
  | _ => none

/-- **The keys the ledger reads back**: the two versions it knows, the first of
them without the context risk. -/
theorem parseKey_key {p : RouteProjection}
    (h : p.schemaVersion = 2 ∨ (p.schemaVersion = 1 ∧ p.risk ≠ .context)) :
    parseKey p.key = some p := by
  obtain ⟨version, state, risk⟩ := p
  rcases h with rfl | ⟨rfl, hrisk⟩
  · cases state <;> cases risk <;> decide +kernel
  · cases risk with
    | context => exact absurd rfl hrisk
    | _ => cases state <;> decide +kernel

theorem parseKey_state (state : WorkflowStateKind) :
    parseKey s!"agent_trace/v2|{state.name}|normal" = some ⟨2, state, .normal⟩ := by
  cases state <;> decide +kernel

end RouteProjection

/-! ## Policy and judgement -/

/-- What a gap in the history leads to. -/
inductive IncompleteHistoryAction where
  | observe
  | escalate
deriving DecidableEq, Repr

/-- The thresholds of a guard. -/
structure ProgressGuardPolicy where
  escalationTier : String
  protectedTiers : Finset String
  maxConsecutiveUnprotected : Option ℕ
  maxSameProjectionUnprotected : Option ℕ
  maxRecoveryCount : Option ℕ
  maxEpisodeRequests : Option ℕ
  maxEpisodeElapsedMs : Option ℕ
  maxEpisodeCostMicroUsd : Option ℕ
  holdForRequests : ℕ
  incompleteHistory : IncompleteHistoryAction
deriving DecidableEq

/-- Whether a clause changed the route. -/
inductive RouteIntentClauseDisposition where
  | applied
  | skipped
deriving DecidableEq, Repr

/-- One reason, and whether it applied. -/
structure RouteIntentClause where
  clauseId : String
  disposition : RouteIntentClauseDisposition
  explanation : String
deriving DecidableEq, Repr

/-- The sides of an experiment. -/
inductive ExperimentArm where
  | control
  | challenger
deriving DecidableEq, Repr

/-- What an experiment assigns. -/
inductive ExperimentAssignmentUnit where
  | task
  | episode
deriving DecidableEq, Repr

/-- The experiment a decision was part of. -/
structure EvalExperimentRef where
  experimentId : String
  arm : ExperimentArm
  assignmentUnit : ExperimentAssignmentUnit
  assignmentIdDigest : String
  challengerPropensityPpm : ℕ
deriving DecidableEq, Repr

/-- The tier selected, and why. -/
structure RouteIntent where
  candidateTier : Option String
  selectedTier : Option String
  clauses : List RouteIntentClause
  trajectorySnapshotDigest : String
  policyDigest : String
  experiment : Option EvalExperimentRef
deriving DecidableEq, Repr

/-- What the guard made of a request. -/
structure GuardEvaluation where
  intent : RouteIntent
  causalCompleteness : HistoryCompleteness
  /-- Set by a new trigger only, never by a hold. -/
  activated : Bool
deriving DecidableEq, Repr

/-- What the guard reads. -/
structure ProgressGuardInput where
  priorSnapshot : Option TrajectorySnapshot
  preIntentSnapshot : TrajectorySnapshot
  correlationCompleteness : HistoryCompleteness
  currentProjection : RouteProjection
  candidateTier : Option String
  policyDigest : String

/-- `u64::checked_add`. -/
def checkedAdd (a b : ℕ) (failure : String) : Except String ℕ :=
  if a + b < u64Bound then .ok (a + b) else .error failure

theorem checkedAdd_eq_ok {a b c : ℕ} {failure : String} :
    checkedAdd a b failure = .ok c ↔ a + b < u64Bound ∧ a + b = c := by
  unfold checkedAdd
  split <;> simp [*]

namespace ProgressGuardPolicy

/-- All thresholds that are set. -/
def thresholds (policy : ProgressGuardPolicy) : List ℕ :=
  [policy.maxConsecutiveUnprotected, policy.maxSameProjectionUnprotected,
    policy.maxRecoveryCount, policy.maxEpisodeRequests, policy.maxEpisodeElapsedMs,
    policy.maxEpisodeCostMicroUsd].filterMap id

/-- A policy the guard may run under. -/
def validatePolicyShape (policy : ProgressGuardPolicy) : Except String Unit := do
  ensure (blank policy.escalationTier = false) "progress guard escalation tier cannot be empty"
  ensure (policy.protectedTiers ≠ ∅ ∧ policy.escalationTier ∈ policy.protectedTiers)
    "progress guard protected tiers must contain its escalation tier"
  ensure (policy.holdForRequests ≠ 0 ∧ policy.holdForRequests ≤ 2 ^ 32 - 1)
    "progress guard hold length must be in 1..=u32::MAX"
  ensure (0 ∉ policy.thresholds) "progress guard thresholds must be positive"

end ProgressGuardPolicy

/-- A clause, applied if triggered. -/
def clause (clauseId : String) (triggered : Bool) (appliedExplanation skippedExplanation : String) :
    RouteIntentClause where
  clauseId := clauseId
  disposition := if triggered then .applied else .skipped
  explanation := if triggered then appliedExplanation else skippedExplanation

/-- A clause about one counter. -/
def thresholdClause (clauseId : String) (threshold observed : Option ℕ) : RouteIntentClause :=
  match threshold, observed with
  | some threshold, some observed =>
    clause clauseId (threshold ≤ observed) "configured threshold is reached"
      s!"observed {observed} is below threshold {threshold}"
  | some _, none =>
    clause clauseId false "configured threshold is reached" "required evidence is unknown"
  | none, _ => clause clauseId false "configured threshold is reached" "clause is not configured"

/-- It counts on the edge into recovery only. -/
def recoveryThresholdClause (threshold : Option ℕ) (prospectiveRecoveryCount : ℕ)
    (currentIsRecoveryEdge : Bool) : RouteIntentClause :=
  if threshold.isNone then
    thresholdClause "progress_guard.max_recovery_count" threshold (some prospectiveRecoveryCount)
  else if !currentIsRecoveryEdge then
    clause "progress_guard.max_recovery_count" false
      "current recovery reaches the configured recurrence threshold"
      ("current projection does not enter recovery; "
        ++ s!"cumulative recovery count is {prospectiveRecoveryCount}")
  else thresholdClause "progress_guard.max_recovery_count" threshold (some prospectiveRecoveryCount)

/-- The last projection was one of recovery. -/
def isRecovery (projection : Option String) : Bool :=
  (projection.bind RouteProjection.parseKey).any (·.stateKind = .recovery)

namespace ProgressGuardInput

variable (policy : ProgressGuardPolicy) (input : ProgressGuardInput)

/-- Whether the candidate is protected. -/
def candidateIsProtected : Bool := input.candidateTier.any (· ∈ policy.protectedTiers)

/-- The health before this request. -/
def priorHealth : Option TrajectoryHealth := input.priorSnapshot.map (·.health)

/-- Whether a hold is on. -/
def holdActive : Bool := input.priorSnapshot.any (0 < ·.activeHoldRemaining)

/-- The counter with this request in it. -/
def prospectiveSameProjectionUnprotected : Except String ℕ :=
  if input.candidateIsProtected policy then .ok 0
  else match input.priorHealth with
    | some health =>
      if health.latestProjection = some input.currentProjection.key then
        checkedAdd (min health.sameProjectionStreak health.consecutiveUnprotectedRequests) 1
          "same projection streak overflow"
      else .ok 1
    | none => .ok 1

/-- The counter with this request in it. -/
def prospectiveUnprotected : Except String ℕ :=
  if input.candidateIsProtected policy then .ok 0
  else checkedAdd (input.priorHealth.elim 0 (·.consecutiveUnprotectedRequests)) 1
    "consecutive unprotected streak overflow"

/-- Whether recovery is entered here. -/
def currentIsRecoveryEdge : Bool :=
  input.currentProjection.stateKind = .recovery
    && !isRecovery (input.priorHealth.bind (·.latestProjection))

/-- The weaker of the two histories. -/
def causalCompleteness : HistoryCompleteness :=
  mergeCompleteness (input.priorHealth.elim .complete (·.completeness))
    input.correlationCompleteness

/-- The clauses before an active hold suppresses any. -/
def rawClauses (sameProjection unprotected recoveryCount : ℕ) : List RouteIntentClause :=
  let incomplete : Bool := input.causalCompleteness ≠ .complete
  [clause "progress_guard.active_hold" input.holdActive
      "persisted hold is active for this request" "no persisted hold applies to this request",
    clause "progress_guard.incomplete_history"
      (incomplete && policy.incompleteHistory = .escalate)
      "causal history is not complete and policy requires escalation"
      (if incomplete then "causal history is not complete and policy observes only"
        else "causal history is complete"),
    thresholdClause "progress_guard.max_consecutive_unprotected"
      policy.maxConsecutiveUnprotected (some unprotected),
    thresholdClause "progress_guard.max_same_projection_unprotected"
      policy.maxSameProjectionUnprotected (some sameProjection),
    recoveryThresholdClause policy.maxRecoveryCount recoveryCount input.currentIsRecoveryEdge,
    thresholdClause "progress_guard.max_episode_requests" policy.maxEpisodeRequests
      (some input.preIntentSnapshot.health.requestCount),
    thresholdClause "progress_guard.max_episode_elapsed_ms" policy.maxEpisodeElapsedMs
      (some input.preIntentSnapshot.health.elapsedMs),
    thresholdClause "progress_guard.max_episode_cost_micro_usd" policy.maxEpisodeCostMicroUsd
      input.preIntentSnapshot.health.settledCostMicroUsd]

end ProgressGuardInput

def RouteIntentClause.isApplied (c : RouteIntentClause) : Bool := c.disposition = .applied

/-- What an active hold leaves of another clause. -/
def RouteIntentClause.suppressed (c : RouteIntentClause) : RouteIntentClause :=
  if c.disposition = .applied then
    { c with
      disposition := .skipped
      explanation := "persisted hold already applies; a new activation is suppressed" }
  else c

/-- An active hold suppresses every clause but its own. -/
def suppressClauses (holdActive : Bool) (clauses : List RouteIntentClause) :
    List RouteIntentClause :=
  if holdActive then clauses.take 1 ++ (clauses.drop 1).map RouteIntentClause.suppressed
  else clauses

/-- **The judgement of one request.** -/
def evaluate (policy : ProgressGuardPolicy) (input : ProgressGuardInput) :
    Except String GuardEvaluation := do
  policy.validatePolicyShape
  let sameProjection ← input.prospectiveSameProjectionUnprotected policy
  let unprotected ← input.prospectiveUnprotected policy
  let recoveryCount ← checkedAdd (input.priorHealth.elim 0 (·.recoveryCount))
    (if input.currentIsRecoveryEdge then 1 else 0) "recovery count overflow"
  let clauses := suppressClauses input.holdActive
    (input.rawClauses policy sameProjection unprotected recoveryCount)
  let guardApplied := clauses.any (·.isApplied)
  let activated := !input.holdActive
    && clauses.any fun c => c.isApplied && c.clauseId ≠ "progress_guard.active_hold"
  let selectedTier :=
    if guardApplied && input.candidateIsProtected policy then input.candidateTier
    else if guardApplied then some policy.escalationTier
    else input.candidateTier
  ensure (guardApplied = true → selectedTier.any (· ∈ policy.protectedTiers) = true)
    "progress guard selected a tier outside protected_tiers"
  return {
    intent := {
      candidateTier := input.candidateTier
      selectedTier := selectedTier
      clauses := clauses
      trajectorySnapshotDigest := input.preIntentSnapshot.evidenceDigest
      policyDigest := input.policyDigest
      experiment := none }
    causalCompleteness := input.causalCompleteness
    activated := activated }

/-! ## The persisted form -/

/-- The ids that are written down. -/
def stableClauseIds : List String :=
  ["progress_guard.active_hold", "progress_guard.incomplete_history",
    "progress_guard.max_consecutive_unprotected",
    "progress_guard.max_same_projection_unprotected", "progress_guard.max_recovery_count",
    "progress_guard.max_episode_requests", "progress_guard.max_episode_elapsed_ms",
    "progress_guard.max_episode_cost_micro_usd", "tool_safety.floor"]

/-- The key of a clause record: its index in two digits. -/
def clausePrefix (index : ℕ) : String :=
  "route.clause_" ++ (if index < 10 then "0" else "") ++ toString index

def clauseIdKey (index : ℕ) : String := clausePrefix index ++ ".id"

def clauseDispositionKey (index : ℕ) : String := clausePrefix index ++ ".disposition"

def RouteIntentClauseDisposition.name : RouteIntentClauseDisposition → String
  | .applied => "applied"
  | .skipped => "skipped"

def parseDisposition : String → Except String RouteIntentClauseDisposition
  | "applied" => .ok .applied
  | "skipped" => .ok .skipped
  | _ => .error "guarded route intent contains invalid clause disposition"

variable {M : Type}

/-- One clause record, under its index. -/
def readClause (categorical : StrMap String) (expected : String × ℕ) :
    Except String (String × RouteIntentClauseDisposition) :=
  let (expectedId, index) := expected
  match categorical[clauseIdKey index]?, categorical[clauseDispositionKey index]? with
  | some id, some disposition => do
    ensure (id = expectedId)
      s!"guarded route intent clause index {index} must contain '{expectedId}'"
    return (id, ← parseDisposition disposition)
  | none, none => .error "guarded route intent has a clause index gap"
  | _, _ => .error "guarded route intent has an incomplete clause record"

/-- The keys of a canonical clause table. -/
def clauseKeys : List String :=
  (List.range stableClauseIds.length).flatMap fun index =>
    [clauseIdKey index, clauseDispositionKey index]

/-- The event carries some part of a guarded judgement. -/
def hasGuardedMarker (evidence : TrajectoryEvidence M) : Bool :=
  evidence.digests.contains "route.policy_lock"
    || evidence.digests.contains "route.health_snapshot"
    || evidence.structural.contains "route.applied_clause_count"
    || evidence.categorical.keys.any (startsWith · "route.clause_")

/-- Reads the clauses of an event back. -/
def validatePersistedRouteIntent (event : TrajectoryEvent M) :
    Except String (Option (List (String × RouteIntentClauseDisposition))) :=
  let evidence := event.evidence
  if event.kind ≠ .routeIntentRecorded then
    .error "route-intent evidence validator received another event kind"
  else if hasGuardedMarker evidence = false then .ok none
  else do
    ensure (evidence.digests.contains "route.policy_lock" = true
        ∧ evidence.digests.contains "route.health_snapshot" = true)
      "guarded route intent requires policy and health digests"
    let appliedCount ← orFail evidence.structural["route.applied_clause_count"]?
      "guarded route intent is missing applied clause count"
    ensure (∀ value ∈ evidence.structural["route.selected_is_protected"]?, value = 0 ∨ value = 1)
      "guarded route intent has an invalid selected-tier protection fact"
    let clauses ← stableClauseIds.zipIdx.mapM (readClause evidence.categorical)
    let keys := evidence.categorical.keys.filter (startsWith · "route.clause_")
    ensure (keys.length = stableClauseIds.length * 2 ∧ ∀ key ∈ keys, key ∈ clauseKeys)
      "guarded route intent clause fields are not canonical"
    ensure ((clauses.filter (·.2 = .applied)).length = appliedCount)
      "guarded route intent applied clause count is inconsistent"
    return some clauses

/-- Whether an activation is typed. -/
def validatePersistedGuardActivation (event : TrajectoryEvent M) : Except String Bool := do
  ensure (event.kind = .guardActivated) "guard evidence validator received another event kind"
  let hasPolicy := event.evidence.digests.contains "guard.policy_lock"
  ensure (hasPolicy = event.evidence.digests.contains "guard.health_snapshot")
    "guard activation must carry policy and health digests together"
  return hasPolicy

end BitRouter.Trajectory
