import BitRouter.Trajectory.Guard

/-!
# Policy locks

A lock is the deterministic artifact that routes are served from: named policies
with their tiers and explicit routes, and beside each route the certificate that
justifies it. A policy resolves a projection of a request by its explicit route,
else by the route of the unknown family, else by its default tier.

`validateDocument` accepts the locks that may be published. Every explicit route
has a certificate of the same tier; a certificate without a route is that of the
experiment which the history optimizer has started or rejected last
(`isRouteLessOptimizerCertificate`).
-/

namespace BitRouter.Policy

open Trajectory (RouteRisk parseRouteRisk ProgressGuardPolicy blank)

/-! ## Predictive route projections -/

/-- The kind of work a request belongs to. -/
inductive TaskFamily where
  | codeGeneration
  | codeDebugging
  | codeReview
  | codeSqlDatabase
  | codeFrontendUi
  | codeDevopsConfig
  | codeRepositoryAnalysis
  | agentMultiStepPlanning
  | agentWorkflowExecution
  | agentWebResearch
  | agentMemoryOperations
  | agentGeneral
  | unknown
deriving DecidableEq, Repr

def TaskFamily.key : TaskFamily → String
  | codeGeneration => "code:generation"
  | codeDebugging => "code:debugging"
  | codeReview => "code:review"
  | codeSqlDatabase => "code:sql_database"
  | codeFrontendUi => "code:frontend_ui"
  | codeDevopsConfig => "code:devops_config"
  | codeRepositoryAnalysis => "code:repository_analysis"
  | agentMultiStepPlanning => "agent:multi_step_planning"
  | agentWorkflowExecution => "agent:workflow_execution"
  | agentWebResearch => "agent:web_research"
  | agentMemoryOperations => "agent:memory_operations"
  | agentGeneral => "agent:general"
  | unknown => "unknown"

def TaskFamily.parseKey : String → Option TaskFamily
  | "code:generation" => some codeGeneration
  | "code:debugging" => some codeDebugging
  | "code:review" => some codeReview
  | "code:sql_database" => some codeSqlDatabase
  | "code:frontend_ui" => some codeFrontendUi
  | "code:devops_config" => some codeDevopsConfig
  | "code:repository_analysis" => some codeRepositoryAnalysis
  | "agent:multi_step_planning" => some agentMultiStepPlanning
  | "agent:workflow_execution" => some agentWorkflowExecution
  | "agent:web_research" => some agentWebResearch
  | "agent:memory_operations" => some agentMemoryOperations
  | "agent:general" => some agentGeneral
  | "unknown" => some unknown
  | _ => none

/-- What the next step is for. -/
inductive NextStepRole where
  | orchestrate
  | implement
  | mechanical
  | verify
  | finalize
  | unknown
deriving DecidableEq, Repr

def NextStepRole.key : NextStepRole → String
  | orchestrate => "orchestrate"
  | implement => "implement"
  | mechanical => "mechanical"
  | verify => "verify"
  | finalize => "finalize"
  | unknown => "unknown"

def NextStepRole.parseKey : String → Option NextStepRole
  | "orchestrate" => some orchestrate
  | "implement" => some implement
  | "mechanical" => some mechanical
  | "verify" => some verify
  | "finalize" => some finalize
  | "unknown" => some unknown
  | _ => none

/-- A request as predicted routes see it. -/
structure PredictiveRouteProjection where
  taskFamily : TaskFamily
  nextStepRole : NextStepRole
  risk : RouteRisk
deriving DecidableEq, Repr

namespace PredictiveRouteProjection

/-- The canonical request key. -/
def key (p : PredictiveRouteProjection) : String :=
  s!"semantic_route/v1|{p.taskFamily.key}|{p.nextStepRole.key}|{p.risk.name}"

/-- The same step, its family unknown. -/
def unknownBaseline (p : PredictiveRouteProjection) : PredictiveRouteProjection :=
  { p with taskFamily := .unknown }

/-- Reads back canonical keys only. -/
def parseKey (value : String) : Option PredictiveRouteProjection :=
  match (Delimited.split '|' value.toList).map String.ofList with
  | ["semantic_route/v1", taskFamily, role, risk] => do
    let risk ← parseRouteRisk risk
    return ⟨← TaskFamily.parseKey taskFamily, ← NextStepRole.parseKey role, risk⟩
  | _ => none

end PredictiveRouteProjection

/-! ## The document -/

/-- What an experiment saves. -/
inductive OptimizationObjective where
  | cost
  | latency
deriving DecidableEq, Repr

/-- The bounds of an experiment. -/
structure OptimizationGate where
  objective : OptimizationObjective
  minimumTasksPerArm : ℕ
  maximumChallengerTasks : ℕ
  minimumPassRatePpm : ℕ
  evaluatorConfigDigest : Option String
deriving DecidableEq, Repr

/-- The experiment that is running. -/
structure RouteExploration where
  experimentId : String
  targetRequestKey : String
  championTier : String
  challengerTier : String
  challengerExposurePpm : ℕ
  gate : OptimizationGate
deriving DecidableEq, Repr

/-- A challenger that was turned down. -/
structure RouteRejection where
  experimentId : String
  targetRequestKey : Option String
  /-- Absent only in legacy locks. -/
  treatmentContextDigest : Option String
  treatment : Option RouteExploration
  experimentParentDigest : Option String
  sourcePolicyDigest : Option String
  evidenceRoot : String
  reason : String
deriving DecidableEq, Repr

/-- What the optimizer keeps in a policy. -/
structure PolicyOptimizationState where
  active : Option RouteExploration := none
  rejections : List RouteRejection := []
deriving DecidableEq, Repr

/-- Who wrote a route. -/
inductive RouteOwner where
  | operator
  | compiler
deriving DecidableEq, Repr

/-- Who judged the evidence. -/
inductive CertificateSource where
  | operator
  | taskNative
  | human
  | enterprise
  | agentic
  | mixed
deriving DecidableEq, Repr

/-- What a certificate says of its route. -/
inductive PromotionVerdict where
  | retain
  | promote
  | demote
  | experiment
  | blocked
deriving DecidableEq, Repr

/-- Pass rates, and their difference. -/
structure QualitySummary where
  baselinePassRatePpm : ℤ
  candidatePassRatePpm : ℤ
  deltaPpm : ℤ
  lowerBoundPpm : ℤ
deriving DecidableEq, Repr

/-- **The certificate of a route.** -/
structure PolicyCertificate where
  classifierDigest : Option String
  owner : RouteOwner
  selectedTier : String
  baselineTier : Option String
  source : CertificateSource
  eligibleEpisodes : ℕ
  independentTasks : ℕ
  quality : Option QualitySummary
  /-- The delta of the cost, in ppm. -/
  economics : Option ℤ
  /-- The delta of the latency, in ppm. -/
  latency : Option ℤ
  criticalViolations : ℕ
  verdict : PromotionVerdict
  evaluatorConfigDigest : Option String
  compilerConfigDigest : String
  evidenceDigest : String
deriving DecidableEq, Repr

/-- What a tier of a policy is served by. -/
structure PolicyModelTarget where
  model : String
  effort : Option String
  context : Option String
deriving DecidableEq, Repr

/-- How much evidence a lock needs. -/
structure AdequacyConfig where
  minSemanticSuccessesForLock : ℕ
  minSemanticSuccessesForOpening : ℕ
  exploreOpening : Bool
deriving DecidableEq, Repr

/-- The predictor that keys were made for. -/
structure PredictorContract where
  algorithm : String
  version : ℕ
  configDigest : String
  confidenceKind : String
  calibrationDigest : Option String
deriving DecidableEq, Repr

/-- A policy: tiers, routes and their rules. -/
structure PolicyDefinition where
  tiers : StrMap PolicyModelTarget
  routes : StrMap String
  defaultTier : Option String
  toolUseTier : Option String
  progressGuard : Option ProgressGuardPolicy
  predictor : Option PredictorContract
  optimization : Option PolicyOptimizationState
  adequacy : AdequacyConfig

/-- The compiler that wrote a document. -/
structure CompilerIdentity where
  id : String
  version : ℕ
  configDigest : String
deriving DecidableEq, Repr

/-- Where a compiled document comes from. -/
structure PolicyArtifact where
  parentDigest : Option String
  evidenceRoot : String
  evalSnapshotRoot : Option String
  sourceSnapshotTimeUnixMs : ℤ
  compiler : CompilerIdentity
deriving DecidableEq, Repr

/-- The policy document. -/
structure PolicyLock where
  lockfileVersion : ℕ
  artifact : Option PolicyArtifact
  policies : StrMap PolicyDefinition
  certificates : StrMap (StrMap PolicyCertificate)

def policyLockfileVersion : ℕ := 4
def policyCompilerId : String := "bitrouter-policy-compiler"
def policyCompilerVersion : ℕ := 2
def historyOptimizerId : String := "bitrouter-history-optimizer"
def historyOptimizerVersion : ℕ := 1

/-- The certificate of a request key. -/
def PolicyLock.certificate (lock : PolicyLock) (policy requestKey : String) :
    Option PolicyCertificate :=
  lock.certificates[policy]?.bind (·[requestKey]?)

/-- **Resolve a projection**: the exact route, the route of the unknown family,
or the default. With the tier comes the key that has matched. -/
def PolicyDefinition.resolvePredictiveRoute (policy : PolicyDefinition) (routeProjection : String) :
    Option (String × String) := do
  let projection ← PredictiveRouteProjection.parseKey routeProjection
  match policy.routes[routeProjection]? with
  | some tier => return (tier, routeProjection)
  | none =>
    let baselineKey := projection.unknownBaseline.key
    match policy.routes[baselineKey]? with
    | some tier => return (tier, baselineKey)
    | none => policy.defaultTier.map (·, routeProjection)

/-! ## Validation -/

/-- **What a lock is validated with**: the digests of the values that are named by
one, the contract of the predictor of this binary, and the checks of a policy
that regard neither its routes nor their certificates. -/
structure Binary where
  /-- By policy, target, champion, challenger, exposure and gate. -/
  treatmentContextDigest : String → String → String → String → ℕ → OptimizationGate → String
  experimentId : String → String → String
  exploreCompilerConfigDigest : String → String → ℕ → OptimizationGate → String
  retreatCompilerConfigDigest : RouteExploration → String
  compiledPredictorContract : PredictorContract
  validateTable : String → PolicyDefinition → Except String Unit

/-- The textual form of a digest. -/
def isSha256Digest (value : String) : Bool :=
  let hex := value.toList.drop 7
  value.toList.take 7 = "sha256:".toList && hex.length = 64
    && hex.all fun c => c.isDigit || ('a' ≤ c && c ≤ 'f')

/-- A digest must be one. -/
def validateSha256Digest (field value : String) : Except String Unit :=
  ensure (isSha256Digest value) s!"{field} must be a sha256 digest"

def validateOptionalDigest (field : String) : Option String → Except String Unit
  | some value => validateSha256Digest field value
  | none => .ok ()

/-- A compiled document names its origin. -/
def validateCompiledMetadata (document : PolicyLock) : Except String Unit := do
  let artifact ← orFail document.artifact "compiled policy lock requires artifact metadata"
  validateOptionalDigest "artifact.parent_digest" artifact.parentDigest
  validateSha256Digest "artifact.evidence_root" artifact.evidenceRoot
  validateOptionalDigest "artifact.eval_snapshot_root" artifact.evalSnapshotRoot
  ensure (0 ≤ artifact.sourceSnapshotTimeUnixMs)
    "artifact.source_snapshot_time_unix_ms cannot be negative"
  ensure (blank artifact.compiler.id = false) "artifact.compiler.id cannot be empty"
  ensure (artifact.compiler.version ≠ 0) "artifact.compiler.version must be positive"
  validateSha256Digest "artifact.compiler.config_digest" artifact.compiler.configDigest

section Policies

variable (policyName : String) (policy : PolicyDefinition)

/-- The tiers of a guard exist. -/
def validateProgressGuard (guard : ProgressGuardPolicy) : Except String Unit := do
  ensure (blank guard.escalationTier = false ∧ guard.escalationTier ∈ policy.tiers)
    s!"policy '{policyName}' progress_guard escalation_tier must reference a defined tier"
  ensure (guard.escalationTier ∈ guard.protectedTiers)
    s!"policy '{policyName}' progress_guard protected_tiers must contain escalation_tier"
  ensure (∀ tier ∈ guard.protectedTiers, tier ∈ policy.tiers)
    s!"policy '{policyName}' progress_guard protected tier is not defined"
  ensure (policy.toolUseTier.all (· ∈ guard.protectedTiers))
    s!"policy '{policyName}' progress_guard protected_tiers must contain tool_use_tier"
  ensure (guard.holdForRequests ≠ 0 ∧ guard.holdForRequests ≤ 4294967295)
    s!"policy '{policyName}' progress_guard hold_for_requests must be in 1..=u32::MAX"
  ensure (some 0 ∉ [guard.maxConsecutiveUnprotected, guard.maxSameProjectionUnprotected,
      guard.maxRecoveryCount, guard.maxEpisodeRequests, guard.maxEpisodeElapsedMs,
      guard.maxEpisodeCostMicroUsd])
    s!"policy '{policyName}' progress_guard thresholds must be positive"

/-- The bounds are usable. -/
def validateOptimizationGate (gate : OptimizationGate) : Except String Unit := do
  ensure (gate.minimumTasksPerArm ≠ 0 ∧ gate.maximumChallengerTasks ≠ 0)
    s!"policy '{policyName}' optimization sample budgets must be positive"
  ensure (gate.minimumTasksPerArm ≤ gate.maximumChallengerTasks)
    s!"policy '{policyName}' optimization maximum_challenger_tasks must cover minimum_tasks_per_arm"
  ensure (1 ≤ gate.minimumPassRatePpm ∧ gate.minimumPassRatePpm ≤ 1000000)
    s!"policy '{policyName}' optimization minimum_pass_rate_ppm must be between 1 and 1000000"
  validateOptionalDigest "optimization evaluator_config_digest" gate.evaluatorConfigDigest

/-- What is checked without its certificate. -/
def validateRouteExplorationIntrinsic (exploration : RouteExploration) : Except String Unit := do
  validateSha256Digest "optimization experiment_id" exploration.experimentId
  ensure (PredictiveRouteProjection.parseKey exploration.targetRequestKey ≠ none)
    s!"policy '{policyName}' optimization target_request_key must name a canonical route"
  ensure (exploration.championTier ∈ policy.tiers)
    s!"policy '{policyName}' optimization champion_tier must reference a defined tier"
  ensure (exploration.challengerTier ∈ policy.tiers)
    s!"policy '{policyName}' optimization challenger_tier must reference a defined tier"
  ensure (exploration.championTier ≠ exploration.challengerTier)
    s!"policy '{policyName}' optimization treatments must differ"
  ensure (1 ≤ exploration.challengerExposurePpm ∧ exploration.challengerExposurePpm ≤ 1000000)
    s!"policy '{policyName}' optimization challenger_exposure_ppm must be between 1 and 1000000"
  validateOptimizationGate policyName exploration.gate

/-- An exploration fits its policy. -/
def validateRouteExploration (exploration : RouteExploration) : Except String Unit := do
  validateRouteExplorationIntrinsic policyName policy exploration
  ensure ((policy.resolvePredictiveRoute exploration.targetRequestKey).map Prod.fst
      = some exploration.championTier)
    s!"policy '{policyName}' optimization target_request_key must resolve to champion_tier"

/-- The digests and the reason of a rejection. -/
def validateRejection (rejection : RouteRejection) : Except String Unit := do
  validateSha256Digest "optimization rejection experiment_id" rejection.experimentId
  validateOptionalDigest "optimization rejection treatment_context_digest"
    rejection.treatmentContextDigest
  validateOptionalDigest "optimization rejection experiment_parent_digest"
    rejection.experimentParentDigest
  validateOptionalDigest "optimization rejection source_policy_digest" rejection.sourcePolicyDigest
  match rejection.treatment with
  | some treatment => validateRouteExplorationIntrinsic policyName policy treatment
  | none => pure ()
  validateSha256Digest "optimization rejection evidence_root" rejection.evidenceRoot
  ensure (blank rejection.reason = false ∧ rejection.reason.utf8ByteSize ≤ 512)
    s!"policy '{policyName}' optimization rejection reason is invalid"

def validateOptimizationState : Except String Unit :=
  match policy.optimization with
  | none => .ok ()
  | some state => do
    ensure (state.rejections.length ≤ 256)
      s!"policy '{policyName}' optimization rejections exceed 256 records"
    state.rejections.forM (validateRejection policyName policy)
    match state.active with
    | none => return ()
    | some exploration => validateRouteExploration policyName policy exploration

/-- Every key is canonical. -/
def validatePredictiveRouteKeys : Except String Unit :=
  policy.routes.keys.forM fun key => ensure (PredictiveRouteProjection.parseKey key ≠ none)
    s!"policy '{policyName}' route '{key}' is not a canonical semantic_route/v1 key"

variable (B : Binary)

/-- Routes need the predictor in force. -/
def validatePredictorContract : Except String Unit :=
  if policy.routes.isEmpty ∧ policy.predictor = none then .ok ()
  else ensure (policy.predictor = some B.compiledPredictorContract)
    s!"policy '{policyName}' predictor contract does not match this BitRouter binary"

/-- One policy, checked as a whole. -/
def validatePolicy : Except String Unit := do
  B.validateTable policyName policy
  match policy.progressGuard with
  | some guard => validateProgressGuard policyName policy guard
  | none => pure ()
  validatePredictiveRouteKeys policyName policy
  validatePredictorContract policyName policy B
  validateOptimizationState policyName policy

end Policies

section Certificates

variable (B : Binary) (document : PolicyLock) (policyName : String) (policy : PolicyDefinition)

/-- Whether a certificate reports a rejection. -/
def rejectionMatches (artifact : PolicyArtifact) (parentDigest evalSnapshotRoot resolved : String)
    (requestKey : String) (certificate : PolicyCertificate) (rejection : RouteRejection) : Bool :=
  match rejection.targetRequestKey, rejection.treatmentContextDigest, rejection.treatment,
      rejection.experimentParentDigest, rejection.sourcePolicyDigest with
  | some targetRequestKey, some storedContextDigest, some treatment, some experimentParentDigest,
      some sourcePolicyDigest =>
    let expectedContextDigest := B.treatmentContextDigest policyName treatment.targetRequestKey
      treatment.championTier treatment.challengerTier treatment.challengerExposurePpm treatment.gate
    targetRequestKey = requestKey && treatment.targetRequestKey = requestKey
      && treatment.championTier = certificate.selectedTier && resolved = treatment.championTier
      && certificate.baselineTier = some treatment.championTier
      && rejection.experimentId = treatment.experimentId
      && treatment.experimentId = B.experimentId experimentParentDigest expectedContextDigest
      && storedContextDigest = expectedContextDigest && rejection.evidenceRoot = evalSnapshotRoot
      && sourcePolicyDigest = parentDigest
      && artifact.compiler.configDigest = B.retreatCompilerConfigDigest treatment
  | _, _, _, _, _ => false

/-- **A certificate that needs no route**: of the active experiment of the history
optimizer, or of the one it has rejected last. -/
def isRouteLessOptimizerCertificate (requestKey : String) (certificate : PolicyCertificate) :
    Bool :=
  match document.artifact with
  | none => false
  | some artifact =>
    match artifact.parentDigest, artifact.evalSnapshotRoot,
        policy.resolvePredictiveRoute requestKey with
    | some parentDigest, some evalSnapshotRoot, some (resolved, _) =>
      artifact.compiler.id = historyOptimizerId
        && artifact.compiler.version = historyOptimizerVersion
        && certificate.compilerConfigDigest = artifact.compiler.configDigest
        && certificate.evidenceDigest = artifact.evidenceRoot
        && resolved = certificate.selectedTier && certificate.owner = .compiler
        && certificate.source = .mixed
        && match certificate.verdict with
          | .experiment =>
            match policy.optimization.bind (·.active) with
            | none => false
            | some active =>
              let contextDigest := B.treatmentContextDigest policyName active.targetRequestKey
                active.championTier active.challengerTier active.challengerExposurePpm active.gate
              active.targetRequestKey = requestKey && active.championTier = certificate.selectedTier
                && certificate.baselineTier = some active.championTier
                && active.experimentId = B.experimentId parentDigest contextDigest
                && artifact.compiler.configDigest = B.exploreCompilerConfigDigest policyName
                  active.challengerTier active.challengerExposurePpm active.gate
          | .blocked =>
            match policy.optimization with
            | none => false
            | some state => state.active = none && state.rejections.any
                (rejectionMatches B policyName artifact parentDigest evalSnapshotRoot resolved
                  requestKey certificate)
          | .retain | .promote | .demote => false
    | _, _, _ => false

/-- Who may sign a certificate with which source. -/
def ownerSourceConsistent : RouteOwner → CertificateSource → Bool
  | .operator, .operator => true
  | .operator, _ | .compiler, .operator => false
  | .compiler, _ => true

/-- One certificate against its policy. -/
def validateCertificate (requestKey : String) (certificate : PolicyCertificate) :
    Except String Unit := do
  ensure (requestKey ∈ policy.routes
      ∨ isRouteLessOptimizerCertificate B document policyName policy requestKey certificate)
    s!"policy '{policyName}' certificate '{requestKey}' has no explicit route"
  ensure (certificate.selectedTier ∈ policy.tiers)
    s!"policy '{policyName}' certificate '{requestKey}' references unknown selected tier"
  ensure (certificate.baselineTier.all (· ∈ policy.tiers))
    s!"policy '{policyName}' certificate '{requestKey}' references unknown baseline tier"
  validateSha256Digest "certificate.compiler_config_digest" certificate.compilerConfigDigest
  validateSha256Digest "certificate.evidence_digest" certificate.evidenceDigest
  if certificate.classifierDigest ≠ some "unassessed" then
    validateOptionalDigest "certificate.classifier_digest" certificate.classifierDigest
  validateOptionalDigest "certificate.evaluator_config_digest" certificate.evaluatorConfigDigest
  ensure (ownerSourceConsistent certificate.owner certificate.source)
    s!"policy '{policyName}' certificate '{requestKey}' has inconsistent owner and source"

/-- A route selects what is certified. -/
def validateRouteCertificate (requestKey selectedTier : String) : Except String Unit := do
  let certificate ← orFail (document.certificate policyName requestKey)
    s!"policy '{policyName}' route '{requestKey}' requires a certificate"
  ensure (certificate.selectedTier = selectedTier)
    s!"policy '{policyName}' route '{requestKey}' selects another tier than its certificate"

/-- Every route has its certificate. -/
def validatePolicyCertificates : Except String Unit := do
  policy.routes.toList.forM fun (requestKey, selectedTier) =>
    validateRouteCertificate document policyName requestKey selectedTier
  match document.certificates[policyName]? with
  | none => return ()
  | some certificates => certificates.toList.forM fun (requestKey, certificate) =>
      validateCertificate B document policyName policy requestKey certificate

end Certificates

/-- The certificates of a document. -/
def validateCertificates (B : Binary) (document : PolicyLock) : Except String Unit := do
  document.certificates.keys.forM fun policyName => ensure (policyName ∈ document.policies)
    s!"certificates reference missing policy '{policyName}'"
  document.policies.toList.forM fun (policyName, policy) =>
    validatePolicyCertificates B document policyName policy

/-- **The locks that may be published.** -/
def validateDocument (B : Binary) (document : PolicyLock) : Except String Unit := do
  ensure (document.lockfileVersion = policyLockfileVersion) "unsupported policy lockfileVersion"
  validateCompiledMetadata document
  document.policies.toList.forM fun (policyName, policy) => validatePolicy policyName policy B
  validateCertificates B document

end BitRouter.Policy
