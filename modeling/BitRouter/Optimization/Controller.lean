import BitRouter.Optimization.Opportunity

/-!
# The optimization controller

`prepareStep` makes at most one step on a policy. Where no exploration is active
it starts one for the opportunity selected. Where one is active, its cohort decides:
the challenger takes the route, or it is withdrawn and remembered as rejected, or
the experiment goes on. A successor names its parent by digest and has to be a
valid lock.
-/

namespace BitRouter.Optimization

open Policy

/-- What the controller does. -/
inductive ControllerAction where
  | explore
  | promote
  | retreat
  | hold
  | converged
deriving DecidableEq, Repr

/-- What it did so on. -/
structure OptimizationEvidence where
  evalSnapshotRoot : String
  observedSubjectDigest : String
  target : Option HistoricalOpportunity
  cohort : Option CohortAssessment
deriving DecidableEq, Repr

/-- The next document, if there is one. -/
structure OptimizationStep where
  action : ControllerAction
  successor : Option PolicyLock
  evidence : OptimizationEvidence

/-! ## Successors -/

/-- A certificate nothing rests on. -/
def supersededRouteLess (artifact : PolicyArtifact) (policy : PolicyDefinition)
    (requestKey : String)
    (certificate : PolicyCertificate) : Bool :=
  requestKey ∉ policy.routes && certificate.owner = .compiler && certificate.source = .mixed
    && certificate.compilerConfigDigest = artifact.compiler.configDigest
    && certificate.evidenceDigest = artifact.evidenceRoot
    && (certificate.verdict = .experiment || certificate.verdict = .blocked)

def pruneSupersededRouteLessOptimizerCertificates (document : PolicyLock) : PolicyLock :=
  match document.artifact with
  | none => document
  | some artifact =>
    if artifact.compiler.id ≠ historyOptimizerId
        ∨ artifact.compiler.version ≠ historyOptimizerVersion then document
    else { document with
      certificates := document.certificates.map fun policyName certificates =>
        match document.policies[policyName]? with
        | none => certificates
        | some policy => certificates.filter fun requestKey certificate =>
            !supersededRouteLess artifact policy requestKey certificate }

/-- The metadata of a successor. -/
def successorArtifact (O : Optimizer) (input : OptimizationStepInput)
    (compilerConfigDigest : String) : Except String PolicyArtifact := do
  let frozenAt ← O.parseTime input.eval.frozenAt
  return {
    parentDigest := some input.activePolicyDigest
    evidenceRoot := O.observedSubjectDigest input.eval
    evalSnapshotRoot := some input.eval.evidenceRoot
    sourceSnapshotTimeUnixMs := frozenAt / 1000000
    compiler := { id := historyOptimizerId, version := historyOptimizerVersion
                  configDigest := compilerConfigDigest } }

/-- The document after an experiment. -/
def succeed (lock : PolicyLock) (artifact : PolicyArtifact) (policyName : String)
    (policy : PolicyDefinition) (requestKey : String) (certificate : PolicyCertificate) :
    PolicyLock where
  lockfileVersion := lock.lockfileVersion
  artifact := some artifact
  policies := lock.policies.insert policyName policy
  certificates := lock.certificates.insert policyName
    (((lock.certificates[policyName]?).getD ∅).insert requestKey certificate)

/-- The experiment for an opportunity. -/
def explorationFor (O : Optimizer) (input : OptimizationStepInput) (target : HistoricalOpportunity)
    (candidateTier : String) : RouteExploration :=
  let contextDigest := O.treatmentContextDigest input.policyName target.requestKey
    target.championTier candidateTier input.options.challengerExposurePpm input.options.gate
  { experimentId := O.experimentId input.activePolicyDigest contextDigest
    targetRequestKey := target.requestKey
    championTier := target.championTier
    challengerTier := candidateTier
    challengerExposurePpm := input.options.challengerExposurePpm
    gate := input.options.gate }

/-- It says an experiment is on. -/
def experimentCertificate (O : Optimizer) (input : OptimizationStepInput)
    (target : HistoricalOpportunity) (compilerConfigDigest : String) : PolicyCertificate where
  classifierDigest := none
  owner := .compiler
  selectedTier := target.championTier
  baselineTier := some target.championTier
  source := .mixed
  eligibleEpisodes := target.independentUnits
  independentTasks := target.independentUnits
  quality := none
  economics := none
  latency := none
  criticalViolations := 0
  verdict := .experiment
  evaluatorConfigDigest := input.options.evaluatorConfigDigest
  compilerConfigDigest
  evidenceDigest := O.observedSubjectDigest input.eval

/-- A delta in ppm of the control. -/
def normalizedDelta (control delta : Option ℤ) : Option ℤ := do
  let control ← control
  let delta ← delta
  if control = 0 then none
  else
    let scaled := (delta * 1000000).tdiv control
    if satI64 scaled = scaled then some scaled else none

/-- It says how the experiment ended. -/
def cohortCertificate (O : Optimizer) (input : OptimizationStepInput)
    (assessment : CohortAssessment)
    (selectedTier baselineTier : String) (verdict : PromotionVerdict)
    (compilerConfigDigest : String) : PolicyCertificate :=
  let baselinePassRatePpm : ℤ := (assessment.control.passRatePpm.getD 0 : ℕ)
  let candidatePassRatePpm : ℤ := (assessment.challenger.passRatePpm.getD 0 : ℕ)
  { classifierDigest := assessment.classifierDigest
    owner := .compiler
    selectedTier
    baselineTier := some baselineTier
    source := .mixed
    eligibleEpisodes := assessment.challenger.eligible
    independentTasks := assessment.challenger.eligible
    quality := some {
      baselinePassRatePpm, candidatePassRatePpm
      deltaPpm := candidatePassRatePpm - baselinePassRatePpm
      lowerBoundPpm := candidatePassRatePpm }
    economics := normalizedDelta assessment.control.meanCostMicroUsd assessment.costDeltaMicroUsd
    latency := normalizedDelta assessment.control.meanLatencyMs assessment.latencyDeltaMs
    criticalViolations := assessment.challenger.hardViolations
    verdict
    evaluatorConfigDigest := assessment.evaluatorConfigDigest
    compilerConfigDigest
    evidenceDigest := O.observedSubjectDigest input.eval }

/-! ## Steps -/

/-- What the challenger saves. -/
def objectiveDelta (assessment : CohortAssessment) : OptimizationObjective → Option ℤ
  | .cost => assessment.costDeltaMicroUsd
  | .latency => assessment.latencyDeltaMs

def rejectionReason (assessment : CohortAssessment) (objective : OptimizationObjective) : String :=
  if 0 < assessment.challenger.hardViolations then "challenger hard violation"
  else if assessment.verdict = .qualityFailed then
    "challenger quality gate failed at sample budget"
  else if (objectiveDelta assessment objective).any (0 ≤ ·) then
    match objective with
    | .cost => "challenger did not lower complete unit cost at sample budget"
    | .latency => "challenger did not lower complete unit latency at sample budget"
  else "challenger evidence remained insufficient at sample budget"

/-- **What the cohort decides.** -/
def cohortAction (exploration : RouteExploration) (assessment : CohortAssessment) :
    ControllerAction :=
  if assessment.verdict = .hardViolation then .retreat
  else if assessment.verdict = .pass
      ∧ (objectiveDelta assessment exploration.gate.objective).any (· < 0) then .promote
  else if exploration.gate.maximumChallengerTasks ≤ assessment.challenger.observed then .retreat
  else .hold

/-- The rejections with one more, which takes the place of an earlier one of the same
treatment. The oldest of 256 is forgotten. -/
def remember (rejections : List RouteRejection) (context : String) (rejection : RouteRejection) :
    List RouteRejection :=
  let others := rejections.filter (·.treatmentContextDigest ≠ some context)
  (if others.length = 256 then others.tail else others) ++ [rejection]

/-- The digest of a treatment. -/
def contextOf (O : Optimizer) (policyName : String) (exploration : RouteExploration) : String :=
  O.treatmentContextDigest policyName exploration.targetRequestKey exploration.championTier
    exploration.challengerTier exploration.challengerExposurePpm exploration.gate

/-- The policy after the challenger has taken the route. -/
def promotedPolicy (O : Optimizer) (policy : PolicyDefinition) (exploration : RouteExploration) :
    PolicyDefinition :=
  { policy with
    optimization := some { active := none, rejections := rejectionsOf policy }
    routes := policy.routes.insert exploration.targetRequestKey exploration.challengerTier
    predictor := some O.compiledPredictorContract }

/-- The policy after the challenger was withdrawn. -/
def retreatedPolicy (O : Optimizer) (input : OptimizationStepInput) (policy : PolicyDefinition)
    (exploration : RouteExploration) (assessment : CohortAssessment) (parentDigest : String) :
    PolicyDefinition :=
  let context := contextOf O input.policyName exploration
  { policy with
    optimization := some {
      active := none
      rejections := remember (rejectionsOf policy) context {
        experimentId := exploration.experimentId
        targetRequestKey := some exploration.targetRequestKey
        treatmentContextDigest := some context
        treatment := some exploration
        experimentParentDigest := some parentDigest
        sourcePolicyDigest := some input.activePolicyDigest
        evidenceRoot := input.eval.evidenceRoot
        reason := rejectionReason assessment exploration.gate.objective } } }

/-- A policy with an experiment. -/
def exploringPolicy (policy : PolicyDefinition) (exploration : RouteExploration) :
    PolicyDefinition :=
  { policy with
    optimization := some {
      active := some exploration, rejections := rejectionsOf policy } }

/-- A policy after its experiment. -/
def endedPolicy (O : Optimizer) (input : OptimizationStepInput) (exploration : RouteExploration)
    (assessment : CohortAssessment) (policy : PolicyDefinition) :
    ControllerAction → Except String (PolicyDefinition × String × PromotionVerdict)
  | .promote => .ok (promotedPolicy O policy exploration, exploration.challengerTier, .promote)
  | .retreat => do
    let parentDigest ← orFail (input.activePolicy.artifact.bind (·.parentDigest))
      "active exploration artifact has no parent digest"
    return (retreatedPolicy O input policy exploration assessment parentDigest,
      exploration.championTier, .blocked)
  | .explore | .hold | .converged =>
    .error "controller action does not produce an active successor"

/-- **The end of an exploration.** -/
def activeSuccessor (O : Optimizer) (input : OptimizationStepInput) (exploration : RouteExploration)
    (assessment : CohortAssessment) (action : ControllerAction) : Except String PolicyLock := do
  let pruned := pruneSupersededRouteLessOptimizerCertificates input.activePolicy
  let compilerConfigDigest := O.retreatCompilerConfigDigest exploration
  let artifact ← successorArtifact O input compilerConfigDigest
  let policy ← orFail pruned.policies[input.policyName]?
    s!"optimization policy '{input.policyName}' is missing"
  let (policy, selectedTier, verdict) ← endedPolicy O input exploration assessment policy action
  let successor := succeed pruned artifact input.policyName policy exploration.targetRequestKey
    (cohortCertificate O input assessment selectedTier exploration.championTier verdict
      compilerConfigDigest)
  validateDocument O.toBinary successor
  return successor

def optionalSuccessor (O : Optimizer) (input : OptimizationStepInput)
    (exploration : RouteExploration) (assessment : CohortAssessment) :
    ControllerAction → Except String (Option PolicyLock)
  | .promote => (activeSuccessor O input exploration assessment .promote).map some
  | .retreat => (activeSuccessor O input exploration assessment .retreat).map some
  | .hold => .ok none
  | .explore | .converged => .error "invalid active optimization controller transition"

/-- **A step while an exploration is active.** -/
def prepareActiveStep (O : Optimizer) (input : OptimizationStepInput)
    (exploration : RouteExploration) : Except String OptimizationStep := do
  let assessment ← assessCohort O.parseTime input.eval input.activePolicyDigest exploration
  let action := cohortAction exploration assessment
  let target : HistoricalOpportunity := {
    requestKey := exploration.targetRequestKey
    championTier := exploration.championTier
    observedCostMicroUsd := 0
    independentUnits := assessment.challenger.observed }
  let successor ← optionalSuccessor O input exploration assessment action
  return {
    action, successor
    evidence := {
      evalSnapshotRoot := input.eval.evidenceRoot
      observedSubjectDigest := O.observedSubjectDigest input.eval
      target := some target, cohort := some assessment } }

/-- **The start of an exploration.** -/
def exploreSuccessor (O : Optimizer) (input : OptimizationStepInput)
    (target : HistoricalOpportunity) : Except String PolicyLock := do
  let candidateTier ← input.options.resolvedCandidate
  let compilerConfigDigest := O.exploreCompilerConfigDigest input.policyName candidateTier
    input.options.challengerExposurePpm input.options.gate
  let pruned := pruneSupersededRouteLessOptimizerCertificates input.activePolicy
  let artifact ← successorArtifact O input compilerConfigDigest
  let policy ← orFail pruned.policies[input.policyName]?
    s!"optimization policy '{input.policyName}' is missing"
  let successor := succeed pruned artifact input.policyName
    (exploringPolicy policy (explorationFor O input target candidateTier)) target.requestKey
    (experimentCertificate O input target compilerConfigDigest)
  validateDocument O.toBinary successor
  return successor

def activeExploration (lock : PolicyLock) (policyName : String) :
    Option RouteExploration :=
  (lock.policies[policyName]?.bind (·.optimization)).bind (·.active)

/-- **One step of the optimizer.** -/
def prepareStep (O : Optimizer) (input : OptimizationStepInput) :
    Except String OptimizationStep := do
  validateEvalActionTreatments O.toCompiler input.activePolicy input.eval
  match activeExploration input.activePolicy input.policyName with
  | some exploration => prepareActiveStep O input exploration
  | none =>
    let target ← selectOpportunity O input
    let evidence : OptimizationEvidence := {
      evalSnapshotRoot := input.eval.evidenceRoot
      observedSubjectDigest := O.observedSubjectDigest input.eval
      target, cohort := none }
    match target with
    | none => return { action := .converged, successor := none, evidence }
    | some target =>
      let successor ← exploreSuccessor O input target
      return { action := .explore, successor := some successor, evidence }

end BitRouter.Optimization
