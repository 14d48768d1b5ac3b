import BitRouter.Evolution.Control

/-!
# Drawing sessions into trials and routing them

A session that enters routing is monitored under the policies already adopted
and drawn into the experiments open to it. Its route is computed anew for every
request, from the experiments it was pinned to at its first one.
-/

namespace BitRouter.Evolution

/-! ## Reserving a place in a trial -/

structure TrialAllocation where
  assignmentSequence : ℕ
  batchSequence : ℕ
  arm : Arm
  challengerPropensityPpm : ℕ

namespace BlockState

/-- Incomplete observations of the last plan stay outstanding across cohorts;
reservations since that plan have no validated feedback. -/
def outstandingChallengerReservations (block : BlockState) : ℕ :=
  match block.plan with
  | none => block.assignedChallengerSessions
  | some plan => min (plan.challenger.incompleteSessions
      + (block.assignedChallengerSessions - plan.challenger.assignedSessions)) (2 ^ 64 - 1)

def exhausted (block : BlockState) : Bool :=
  block.definition.bandit.maximumChallengerSessions ≤ block.assignedChallengerSessions
    || block.definition.bandit.maximumPendingChallenger ≤ block.outstandingChallengerReservations

def pendingCandidates (block : BlockState) : ℕ :=
  (block.batch.members.toList.filter (·.2 = Arm.challenger)).length

/-- A batch that takes no further member. -/
def full (block : BlockState) : Bool :=
  block.definition.batchSessions ≤ block.batch.members.size
    || block.definition.bandit.maximumPendingChallenger ≤ block.pendingCandidates
    || block.exhausted

def enrolled (block : BlockState) (sessionKey : String) (arm : Arm) : BlockState :=
  let next := { block with
    batch := { block.batch with members := block.batch.members.insert sessionKey arm }
    assignedChallengerSessions :=
      block.assignedChallengerSessions + if arm = Arm.challenger then 1 else 0 }
  { next with batch := { next.batch with closed := next.batch.closed || next.full } }

/-- The batch closed before it takes a member. -/
def closeBatch (block : BlockState) : BlockState :=
  { block with batch := { block.batch with closed := true } }

end BlockState

variable (P : Primitives)

def BlockState.held (block : BlockState) : Bool :=
  block.plan.any fun plan =>
    plan.challengerPropensityPpm = 0 || plan.learnerVersion ≠ LEARNER_VERSION
      || P.configDigest block.definition.bandit ≠ plan.configDigest
      || plan.measurementContract ≠ block.definition.measurementContract

namespace ControlState

/-- A trial takes no session for now. -/
def refusesTrial (s : ControlState) (block : BlockState) : Bool :=
  s.mode = .off || block.status ≠ .exploring || block.batch.closed || !s.dependenciesMatch block
    || block.held P

def reserveTrial (s : ControlState) (blockId sessionKey : String) (seed : ℕ) :
    Except String (ControlState × Option TrialAllocation) := do
  ensure (sessionKey ≠ "") "session key is required"
  let block ← orFail s.blocks[blockId]? "unknown policy block"
  if s.refusesTrial P block then return (s, none)
  else do
    ensure (sessionKey ∉ block.batch.members) "session already reserved in this cohort"
    if block.exhausted then
      return ({ s with blocks := s.blocks.insert blockId block.closeBatch }, none)
    else do
      let arm ← P.drawAssignment block.lastExposurePpm seed
      let sequence ← successor s.nextAssignmentSequence "assignment sequence overflow"
      return ({ s with
          nextAssignmentSequence := sequence
          blocks := s.blocks.insert blockId (block.enrolled sessionKey arm) },
        some ⟨sequence, block.batch.sequence, arm, block.lastExposurePpm⟩)

end ControlState

/-! ## Sessions and requests -/

structure SessionIdentity where
  owner : String
  source : String
  nativeSessionId : String
deriving DecidableEq

structure DecisionContext where
  selector : String
  fingerprint : String
deriving DecidableEq

/-- Live route contracts for active and retired experiments use separate keys. -/
structure RoutingDependencies where
  current : StrMap String
  archived : StrMap String
  trialReady : Bool
  expectedControlGeneration : Option ℕ

/-- The contract an experiment was registered under is the one being served. -/
def RoutingDependencies.matches (dependencies : RoutingDependencies) (s : ControlState)
    (block : BlockState) : Bool :=
  let live :=
    if s.blocks[block.definition.blockId]?.any (·.experimentId = block.experimentId) then
      dependencies.current[block.definition.blockId]?
    else dependencies.archived[block.experimentId]?
  live = some block.routingConfigDigest

structure BlockAssignment where
  assignmentId : String
  experimentId : String
  blockRevision : String
  controlGeneration : ℕ
  modeEpoch : ℕ
  trialEpoch : ℕ
  batchSequence : ℕ
  assignmentSequence : ℕ
  arm : Arm
  challengerPropensityPpm : ℕ
  randomSeed : ℕ
  referenceBlocks : StrMap String

/-- Observational membership after adoption, not randomized trial evidence. -/
structure AdoptionMonitoring where
  monitoringId : String
  experimentId : String
  adoptionRevision : String
  assignmentSequence : ℕ
  controlGeneration : ℕ
  modeEpoch : ℕ
  referenceBlocks : StrMap String

structure SessionEnrollment where
  identity : SessionIdentity
  firstWatermark : ℤ
  firstRequestId : String
  context : DecisionContext
  assignments : StrMap BlockAssignment
  /-- `none` is a legacy enrollment, whose records name its experiments. -/
  blockExperiments : Option (StrMap String)
  /-- Policies already adopted when the session first entered routing. -/
  adoptedBlocks : StrMap String
  monitoring : StrMap AdoptionMonitoring
  admissionReason : String

structure RouteIntent where
  requestId : String
  identity : SessionIdentity
  context : DecisionContext
  selectedRoute : String
  appliedBlock : Option String
  reason : String
  bypass : Option String
  modeEpoch : ℕ
  controlGeneration : ℕ
  assignments : StrMap String
  monitoring : StrMap String
  capturedWatermark : ℤ
  routingDependencies : StrMap String
  archivedRoutingDependencies : StrMap String
  trialReady : Bool
  recordedAt : String

/-- What `select` is called with. The seeds of the draws are given by the block
they are for. -/
structure Input where
  sessionKey : String
  identity : SessionIdentity
  requestId : String
  context : DecisionContext
  dependencies : RoutingDependencies
  bypass : Option String
  watermark : ℤ
  enrollment : SessionEnrollment
  isNew : Bool
  seed : String → ℕ
  recordedAt : String

namespace ControlState

def references (s : ControlState) : StrMap String :=
  StrMap.ofPairs (s.blocks.toList.map fun (id, block) => (id, block.revision))

/-! ## Admission -/

/-- An adopted policy the session enters under its monitoring. -/
def monitored (s : ControlState) (input : Input) (experiment : String) (block : BlockState) :
    Bool :=
  block.definition.source = input.identity.source && block.experimentId = experiment
    && s.dependenciesMatch block
    && input.dependencies.current[block.definition.blockId]? = some block.routingConfigDigest

def monitorStep (input : Input) (references : StrMap String)
    (acc : ControlState × SessionEnrollment) (adopted : String × String) :
    Except String (ControlState × SessionEnrollment) := do
  let (s, enrollment) := acc
  let block ← orFail s.blocks[adopted.1]? "adopted block disappeared during admission"
  if s.monitored input adopted.2 block then do
    let sequence ← successor s.nextAssignmentSequence "monitoring sequence overflow"
    let membership : AdoptionMonitoring :=
      { monitoringId := P.digest (.triple adopted.2 input.sessionKey "adoption_monitoring")
        experimentId := adopted.2
        adoptionRevision := block.revision
        assignmentSequence := sequence
        controlGeneration := s.generation
        modeEpoch := s.modeEpoch
        referenceBlocks := references }
    return ({ s with nextAssignmentSequence := sequence },
      { enrollment with monitoring := enrollment.monitoring.insert adopted.1 membership })
  else return (s, enrollment)

/-- The blocks whose trials are open to the session. -/
def eligible (s : ControlState) (input : Input) : List String :=
  (s.blocks.toList.filter fun (_, block) =>
    block.definition.source = input.identity.source && block.status = .exploring
      && !block.batch.closed && s.dependenciesMatch block
      && input.dependencies.current[block.definition.blockId]? = some block.routingConfigDigest
    ).map (·.1)

def enrollStep (input : Input) (references : StrMap String)
    (acc : ControlState × SessionEnrollment) (id : String) :
    Except String (ControlState × SessionEnrollment) := do
  let (s, enrollment) := acc
  match ← s.reserveTrial P id input.sessionKey (input.seed id) with
  | (s, none) => return (s, enrollment)
  | (s, some allocation) => do
    let block ← orFail s.blocks[id]? "block disappeared during admission"
    let assignment : BlockAssignment :=
      { assignmentId := P.digest (.pair block.experimentId input.sessionKey)
        experimentId := block.experimentId
        blockRevision := block.revision
        controlGeneration := s.generation
        modeEpoch := s.modeEpoch
        trialEpoch := s.trialEpoch
        batchSequence := allocation.batchSequence
        assignmentSequence := allocation.assignmentSequence
        arm := allocation.arm
        challengerPropensityPpm := allocation.challengerPropensityPpm
        randomSeed := input.seed id
        referenceBlocks := references }
    return (s, { enrollment with assignments := enrollment.assignments.insert id assignment })

def monitorNew (s : ControlState) (input : Input) :
    Except String (ControlState × SessionEnrollment) :=
  if input.isNew && s.mode ≠ .off then
    input.enrollment.adoptedBlocks.toList.foldlM (monitorStep P input s.references)
      (s, input.enrollment)
  else .ok (s, input.enrollment)

/-- A new session is drawn into the trials open to it. -/
def enrollNew (input : Input) (acc : ControlState × SessionEnrollment) :
    Except String (ControlState × SessionEnrollment) :=
  if input.isNew && acc.2.admissionReason = "new_session" && acc.1.mode ≠ .off
      && input.dependencies.trialReady then
    (acc.1.eligible input).foldlM (enrollStep P input acc.1.references) acc
  else .ok acc

end ControlState

/-- The part of an intent the blocks decide. -/
structure Routing where
  selectedRoute : String
  appliedBlock : Option String
  reason : String

namespace ControlState

def pinned (s : ControlState) (enrollment : SessionEnrollment) (id : String) :
    Except String (Option BlockState) :=
  match enrollment.blockExperiments with
  | some experiments =>
    match experiments[id]? with
    | none => .ok none
    | some experiment =>
      (orFail (s.experiment id (some experiment)) "pinned experiment missing").map some
  | none =>
    match enrollment.assignments[id]? with
    | some assignment =>
      (orFail (s.experiment id (some assignment.experimentId)) "assigned experiment missing").map
        some
    | none =>
      match enrollment.adoptedBlocks[id]? with
      | some experiment =>
        (orFail (s.experiment id (some experiment)) "adopted experiment missing").map some
      | none => (s.originalExperiment id).map some

end ControlState

/-- The rule of a block that a request hits. -/
def BlockState.ruleFor (block : BlockState) (context : DecisionContext) : Option BlockRule :=
  block.definition.rules.find? fun rule =>
    rule.selector = context.selector && rule.fingerprint.all (· = context.fingerprint)

def SessionEnrollment.assignment (enrollment : SessionEnrollment) (id : String)
    (block : BlockState) : Option BlockAssignment :=
  enrollment.assignments[id]?.filter (·.experimentId = block.experimentId)

namespace ControlState

/-- The session runs the challenger. Adoption affects new sessions: a baseline
session already in the experiment keeps its arm. -/
def candidate (s : ControlState) (enrollment : SessionEnrollment) (trialReady : Bool) (id : String)
    (block : BlockState) : Bool :=
  s.baselineValid block
    && ((block.status = .adopted
        && ((enrollment.assignment id block).any (·.arm = .challenger)
          || ((enrollment.assignment id block).isNone
            && enrollment.adoptedBlocks[id]? = some block.experimentId)))
      || (block.status = .exploring && s.mode ≠ .off && trialReady
        && (enrollment.assignment id block).any fun a =>
          a.trialEpoch = s.trialEpoch && a.arm = .challenger))

/-- Why a route was taken. -/
def routeReason (s : ControlState) (assigned candidate : Bool) (block : BlockState) : String :=
  if block.status = .adopted && !candidate then
    if assigned then "retained_experiment_baseline" else "retained_preexisting_baseline"
  else if block.status = .adopted then "adopted_baseline"
  else if s.mode = .off then "evolution_off"
  else if block.status = .rolledBack then "block_rolled_back"
  else if candidate then "sticky_challenger"
  else "retained_baseline"

def routeByRule (s : ControlState) (input : Input) (enrollment : SessionEnrollment) (id : String)
    (block : BlockState) (rule : BlockRule) (routing : Routing) : Except String Routing := do
  if !input.dependencies.matches s block || !s.externalDependenciesMatch block then
    return { routing with reason := "routing_dependency_changed" }
  else do
    let (baseline, _) ← s.baselineSource block
    if !input.dependencies.matches s baseline || !s.externalDependenciesMatch baseline then
      return { routing with reason := "routing_dependency_changed" }
    else do
      let baselineRule ← orFail (baseline.definition.ruleOf rule.matcher)
        "inherited baseline matcher missing"
      let candidate := s.candidate enrollment input.dependencies.trialReady id block
      return {
        selectedRoute := if candidate then rule.challengerRoute else baselineRule.baselineRoute
        appliedBlock := some id
        reason := s.routeReason (enrollment.assignment id block).isSome candidate block }

/-- A round of the routing, over the blocks. -/
def routeStep (s : ControlState) (input : Input) (enrollment : SessionEnrollment)
    (routing : Routing) (id : String) : Except String Routing := do
  match ← s.pinned enrollment id with
  | none => return routing
  | some block =>
    if block.definition.source ≠ input.identity.source then return routing
    else
      match block.ruleFor input.context with
      | none => return routing
      | some rule => s.routeByRule input enrollment id block rule routing

/-- The routing of a request, an explicit route taking precedence. -/
def route (s : ControlState) (input : Input) (enrollment : SessionEnrollment) :
    Except String Routing := do
  let routing ← s.blocks.keys.foldlM (s.routeStep input enrollment)
    ⟨input.context.selector, none, "baseline_passthrough"⟩
  return match input.bypass with
    | none => routing
    | some reason => ⟨input.context.selector, none, reason⟩

/-- The intent of a request routed in the state `s`. -/
def intentOf (s : ControlState) (input : Input) (enrollment : SessionEnrollment)
    (routing : Routing) : RouteIntent where
  requestId := input.requestId
  identity := input.identity
  context := input.context
  selectedRoute := routing.selectedRoute
  appliedBlock := routing.appliedBlock
  reason := routing.reason
  bypass := input.bypass
  modeEpoch := s.modeEpoch
  controlGeneration := s.generation
  assignments :=
    StrMap.ofPairs (enrollment.assignments.toList.map fun (id, a) => (id, a.assignmentId))
  monitoring :=
    StrMap.ofPairs (enrollment.monitoring.toList.map fun (id, m) => (id, m.monitoringId))
  capturedWatermark := input.watermark
  routingDependencies := input.dependencies.current
  archivedRoutingDependencies := input.dependencies.archived
  trialReady := input.dependencies.trialReady
  recordedAt := input.recordedAt

/-- Assignment and intent together; both are committed before any effect. -/
def select (s : ControlState) (input : Input) :
    Except String (ControlState × SessionEnrollment × RouteIntent) := do
  let monitored ← s.monitorNew P input
  let (s, enrollment) ← enrollNew P input monitored
  let routing ← s.route input enrollment
  return (s, enrollment, s.intentOf input enrollment routing)

end ControlState

end BitRouter.Evolution
