import BitRouter.Policy.Evidence
import BitRouter.Policy.Lock

/-!
# The policy compiler

`compileCandidate` makes a candidate lock from the active one and a snapshot of
evaluations. Each route is decided for itself. The negative rule looks at the
tier of the route and takes it back to the baseline; the positive rule selects
the best of the other tiers that the criteria admit; a route of the operator is
never touched, and where neither rule speaks the certificate is inherited.
-/

namespace BitRouter.Policy

open Trajectory (ProgressGuardPolicy)

/-- What a retained route must pass. -/
def activeRouteMinimumQualityPpm : ℤ := 900000

/-! ## Criteria of a promotion -/

/-- What a promotion must pass. -/
structure PromotionQualityCriteria where
  minimumCandidatePassRatePpm : ℤ
  maximumQualityLossPpm : Option ℤ
deriving DecidableEq, Repr

namespace PromotionQualityCriteria

/-- At least 90% observed pass rate, and no regression from the baseline. -/
def qualityFirst : PromotionQualityCriteria := ⟨900000, some 0⟩

/-- Any conclusive positive evidence. -/
def manualReview : PromotionQualityCriteria := ⟨1, none⟩

def validate (quality : PromotionQualityCriteria) : Except String Unit := do
  ensure (0 ≤ quality.minimumCandidatePassRatePpm ∧ quality.minimumCandidatePassRatePpm ≤ 1000000)
    "minimum candidate pass rate must be between 0 and 1000000 ppm"
  ensure (∀ value ∈ quality.maximumQualityLossPpm, 0 ≤ value ∧ value ≤ 1000000)
    "maximum quality loss must be between 0 and 1000000 ppm"

/-- Good enough, and not much worse. -/
def admits (quality : PromotionQualityCriteria) (candidate : ℤ) (baseline : Option ℤ) : Bool :=
  quality.minimumCandidatePassRatePpm ≤ candidate
    && quality.maximumQualityLossPpm.all fun maximumLoss =>
      baseline.all fun baseline => satI64 (baseline - maximumLoss) ≤ candidate

end PromotionQualityCriteria

/-! ## Recommendations -/

/-- The last of the greatest elements, as `Iterator::max_by` finds it. -/
def maxBy {α : Type} (cmp : α → α → Ordering) : List α → Option α
  | [] => none
  | x :: xs => some (xs.foldl (fun best y => if cmp best y = .gt then best else y) x)

/-- The lower cost, where the same tasks were run; then more tasks, the better
pass rate, and the tier that is named first. -/
def candidateCmp (left right : String × TierEvalEvidence) : Ordering :=
  let costOrder :=
    if left.2.independentTasks = right.2.independentTasks then
      match left.2.costMicroUsd.mean, right.2.costMicroUsd.mean with
      | some leftCost, some rightCost => compare rightCost leftCost
      | _, _ => .eq
    else .eq
  costOrder.then <| (compare left.2.independentTasks.card right.2.independentTasks.card).then <|
    (compare left.2.passRatePpm right.2.passRatePpm).then (cmpBytes right.1 left.1)

/-- Whether it opens a task. -/
def isOpeningLike (requestKey : String) : Bool :=
  (PredictiveRouteProjection.parseKey requestKey).any (·.nextStepRole = .orchestrate)

/-- The successes a lock needs. -/
def semanticThreshold (policy : PolicyDefinition) (requestKey : String) : ℕ :=
  if isOpeningLike requestKey then
    max policy.adequacy.minSemanticSuccessesForLock policy.adequacy.minSemanticSuccessesForOpening
  else policy.adequacy.minSemanticSuccessesForLock

/-- Whether a route may be locked. -/
def positiveRouteIsAllowed (policy : PolicyDefinition) (requestKey : String) : Bool :=
  (PredictiveRouteProjection.parseKey requestKey).isSome
    && (!isOpeningLike requestKey || policy.adequacy.exploreOpening)

namespace RouteEvalEvidence

variable (policy : PolicyDefinition) (route : RouteEvalEvidence)

/-- The tier the others are compared with. -/
def baseline : Option String := route.baselineTier.or policy.defaultTier

/-- Evidence of several cohorts or evaluators recommends nothing. -/
def comparable : Bool :=
  route.classifierCohorts.size ≤ 1 && route.evaluatorConfigDigests.card ≤ 1

/-- **The negative rule**: the tier has failed. -/
def regressed (tier : String) : Bool :=
  (route.tiers[tier]?).any fun active => 0 < active.criticalViolations
    || (0 < active.failWeightPpm && active.passRatePpm < activeRouteMinimumQualityPpm)

/-- Where the negative rule takes a tier back to. -/
def demotion (priorTier : Option String) : Option String :=
  match priorTier, route.baseline policy with
  | some prior, some baseline =>
    if prior ≠ baseline ∧ route.regressed prior then some baseline else none
  | _, _ => none

/-- **What the positive rule admits.** -/
def admissible (requestKey : String) (quality : PromotionQualityCriteria)
    (entry : String × TierEvalEvidence) : Bool :=
  some entry.1 ≠ route.baseline policy && entry.1 ∈ policy.tiers
    && max (semanticThreshold policy requestKey) 1 ≤ satU32 entry.2.independentTasks.card
    && entry.2.criticalViolations = 0
    && quality.admits entry.2.passRatePpm
      (((route.baseline policy).bind (route.tiers[·]?)).map (·.passRatePpm))

/-- The tier the positive rule selects. -/
def best (requestKey : String) (quality : PromotionQualityCriteria) : Option String :=
  (maxBy candidateCmp (route.tiers.toList.filter
    (route.admissible policy requestKey quality))).map Prod.fst

end RouteEvalEvidence

/-- **The recommendation for a route.** -/
def evalRecommendation (policy : PolicyDefinition) (requestKey : String) (priorTier : Option String)
    (route : RouteEvalEvidence) (quality : PromotionQualityCriteria) :
    Option (String × PromotionVerdict) :=
  if !route.comparable then none
  else
    match route.demotion policy priorTier with
    | some baseline => some (baseline, .demote)
    | none =>
      if !positiveRouteIsAllowed policy requestKey then none
      else (route.best policy requestKey quality).map (·, .promote)

/-! ## Compilation -/

/-- **What the compiler is built with**, beside what a lock is validated with. -/
structure Compiler extends Binary where
  /-- The instant of a text in RFC 3339, in nanoseconds. -/
  parseTime : String → Except String ℤ
  validateRouteMeasurement : List RouteCandidate → Except String Unit
  semanticDigest : PolicyLock → String
  emptyEvidenceRoot : String
  compilerConfigDigest :
    PromotionQualityCriteria → Option (StrMap (Option ProgressGuardPolicy)) → String
  evaluatorsDigest : Finset String → String
  routeEvidenceDigest : String → String → Finset String → Finset (String × String × String) → String

/-- What a compilation reads. -/
structure CompileInput where
  current : PolicyLock
  parentDigest : Option String
  snapshotTimeUnixMs : ℤ
  eval : Option EvalEvidenceSnapshot
  proposedProgressGuards : Option (StrMap (Option ProgressGuardPolicy))

/-- A route that is new or changed. -/
structure CompileChange where
  policy : String
  requestKey : String
  previousTier : Option String
  selectedTier : String
  verdict : PromotionVerdict
deriving DecidableEq, Repr

/-- An operator's route kept against evidence. -/
structure CompileConflict where
  policy : String
  requestKey : String
  operatorTier : String
  recommendedTier : String
  reason : String
deriving DecidableEq, Repr

/-- The document, and what changed. -/
structure CompileResult where
  document : PolicyLock
  changes : List CompileChange
  conflicts : List CompileConflict

/-- How an effort is printed for debugging: the variant is its spelling with a capital. -/
def debugEffort : Option String → String
  | none => "None"
  | some effort => s!"Some({effort.capitalize})"

/-- A tier that fixes an effort was measured with it. -/
def validateEffort (resultId tier : String) (expected : Option PolicyModelTarget)
    (measured : Option String) : Except String Unit :=
  match expected.bind (·.effort) with
  | none => .ok ()
  | some effort => ensure (measured = some effort)
      (s!"eval result '{resultId}' attributes {tier} to effort {debugEffort measured}, "
        ++ s!"expected '{effort}'")

/-- A tier is the action measured. -/
def validateMeasuredTier (resultId : String) (policy : PolicyDefinition)
    (measurement : List RouteCandidate) (tier : String) : Except String Unit := do
  let expected ← orFail policy.tiers[tier]? s!"eval names unavailable tier '{tier}'"
  let measured ← orFail (measurement.find? (·.tier = tier))
    s!"eval action measurement omits tier '{tier}'"
  ensure (measured.model = expected.model ∧ measured.context = expected.context
      ∧ ∀ effort ∈ expected.effort, measured.effort = some effort)
    s!"eval result '{resultId}' attributes tier '{tier}' to a different model/effort/context action"

def validateDecisionTreatment (C : Compiler) (record : EvalEvidenceRecord)
    (policy : PolicyDefinition) (decision : EvalDecisionRef) : Except String Unit := do
  let assessed := record.subject.classifierCohorts.keys.any (· ≠ "unassessed")
  ensure (assessed = false ∨ decision.routeMeasurement ≠ none)
    s!"semantic eval result '{record.resultId}' has no action measurement"
  match decision.routeMeasurement with
  | none => pure ()
  | some measurement =>
    C.validateRouteMeasurement measurement
    (decision.selectedTier :: decision.baselineTier.toList).forM
      (validateMeasuredTier record.resultId policy measurement)
  validateEffort record.resultId s!"tier '{decision.policy}:{decision.selectedTier}'"
    policy.tiers[decision.selectedTier]? decision.selectedEffort
  match decision.baselineTier with
  | none => pure ()
  | some baselineTier =>
    validateEffort record.resultId s!"baseline tier '{decision.policy}:{baselineTier}'"
      policy.tiers[baselineTier]? decision.baselineEffort

/-- Evidence of an action is not relabelled under another catalog of tiers. -/
def validateEvalActionTreatments (C : Compiler) (current : PolicyLock)
    (eval : EvalEvidenceSnapshot) : Except String Unit :=
  eval.records.forM fun record => record.subject.decisions.forM fun decision =>
    match current.policies[decision.policy]? with
    | none => .ok ()
    | some policy => validateDecisionTreatment C record policy decision

/-- The later of the two snapshots. -/
def sourceSnapshotTime (C : Compiler) (input : CompileInput) : Except String ℤ := do
  let evalTime ← match input.eval with
    | some eval => (C.parseTime eval.frozenAt).map (· / 1000000)
    | none => .ok 0
  return max input.snapshotTimeUnixMs evalTime

def evalCertificateSource (route : RouteEvalEvidence) : CertificateSource :=
  if route.sources = {.taskNative} then .taskNative
  else if route.sources = {.human} then .human
  else if route.sources = {.enterprise} then .enterprise
  else if route.sources = {.agentic} then .agentic
  else .mixed

/-- The pass rates compared. -/
def qualitySummary (candidate : TierEvalEvidence) (baseline : Option TierEvalEvidence) :
    QualitySummary :=
  let candidateRate := candidate.passRatePpm
  let baselineRate := (baseline.map (·.passRatePpm)).getD 0
  { baselinePassRatePpm := baselineRate, candidatePassRatePpm := candidateRate
    deltaPpm := satI64 (candidateRate - baselineRate), lowerBoundPpm := candidateRate }

def metricDeltaSummary (candidate baseline : Option TierEvalEvidence)
    (value : TierEvalEvidence → Option ℤ) : Option ℤ := do
  let candidate ← candidate.bind value
  let baseline ← baseline.bind value
  if baseline = 0 then none
  else some ((satI64 (satI64 (candidate - baseline) * 1000000)).tdiv baseline)

/-- The certificate of a recommendation. -/
def recommendedCertificate (C : Compiler) (compilerConfigDigest policyName requestKey : String)
    (policy : PolicyDefinition) (route : RouteEvalEvidence) (selectedTier : String)
    (verdict : PromotionVerdict) : PolicyCertificate :=
  let candidate := route.tiers[selectedTier]?
  let baselineTier := route.baseline policy
  let baseline := baselineTier.bind (route.tiers[·]?)
  { classifierDigest := route.classifierCohorts.keys.head?
    owner := .compiler
    selectedTier
    baselineTier
    source := evalCertificateSource route
    eligibleEpisodes := (candidate.map (·.eligibleEpisodes)).getD 0
    independentTasks := (candidate.map (satU32 ·.independentTasks.card)).getD 0
    quality := candidate.map (qualitySummary · baseline)
    economics := metricDeltaSummary candidate baseline (·.costMicroUsd.mean)
    latency := metricDeltaSummary candidate baseline (·.latencyMs.mean)
    criticalViolations := (candidate.map (·.criticalViolations)).getD 0
    verdict
    evaluatorConfigDigest := some (C.evaluatorsDigest route.evaluatorConfigDigests)
    compilerConfigDigest
    evidenceDigest :=
      C.routeEvidenceDigest policyName requestKey route.matchedRequestKeys route.evidenceRecords }

/-- What becomes of one key of a policy. -/
structure CompiledRoute where
  route : Option PolicyCertificate := none
  change : Option CompileChange := none
  conflict : Option CompileConflict := none

section Compile

variable (C : Compiler) (current : PolicyLock) (quality : PromotionQualityCriteria)
  (compilerConfigDigest policyName : String) (policy : PolicyDefinition)
  (policyEval : StrMap RouteEvalEvidence)

/-- What the evidence recommends. -/
def recommendation (requestKey : String) :
    Option (RouteEvalEvidence × String × PromotionVerdict) := do
  let route ← policyEval[requestKey]?
  let recommended ← evalRecommendation policy requestKey policy.routes[requestKey]? route quality
  return (route, recommended)

/-- A route that was recommended. -/
def recommendedRoute (requestKey : String) (route : RouteEvalEvidence) (selectedTier : String)
    (verdict : PromotionVerdict) : CompiledRoute where
  route := some
    (recommendedCertificate C compilerConfigDigest policyName requestKey policy route selectedTier
      verdict)
  change :=
    if policy.routes[requestKey]? = some selectedTier then none
    else some {
      policy := policyName, requestKey, previousTier := policy.routes[requestKey]?, selectedTier
      verdict }

/-- **One key of a policy.** -/
def compileRoute (requestKey : String) : CompiledRoute :=
  match current.certificate policyName requestKey,
      recommendation quality policy policyEval requestKey with
  | some prior, some (route, recommended, verdict) =>
    if prior.owner = .operator then
      { route := some prior
        conflict :=
          if recommended = prior.selectedTier then none
          else some {
            policy := policyName, requestKey, operatorTier := prior.selectedTier
            recommendedTier := recommended
            reason := "admitted evidence conflicts with an operator-owned route" } }
    else recommendedRoute C compilerConfigDigest policyName policy requestKey route
      recommended verdict
  | some prior, none => { route := some prior }
  | none, some (route, recommended, verdict) =>
    recommendedRoute C compilerConfigDigest policyName policy requestKey route recommended verdict
  | none, none => {}

/-- The keys of the routes and of the evidence. -/
def requestKeys : StrMap Unit :=
  policyEval.keys.foldl (fun keys key => keys.insert key ()) (policy.routes.map fun _ _ => ())

/-- The certificates that are issued. -/
def compiledCertificates : StrMap PolicyCertificate :=
  (requestKeys policy policyEval).filterMap fun key _ =>
    (compileRoute C current quality compilerConfigDigest policyName policy policyEval key).route

/-- The routes they lock. -/
def compiledRoutes : StrMap String :=
  (compiledCertificates C current quality compilerConfigDigest policyName policy policyEval).map
    fun _ certificate => certificate.selectedTier

def compiledChanges : List CompileChange :=
  (requestKeys policy policyEval).keys.filterMap fun key =>
    (compileRoute C current quality compilerConfigDigest policyName policy policyEval key).change

def compiledConflicts : List CompileConflict :=
  (requestKeys policy policyEval).keys.filterMap fun key =>
    (compileRoute C current quality compilerConfigDigest policyName policy policyEval key).conflict

end Compile

/-- The evidence under canonical keys. -/
def policyEvidence (evidence : RouteEvidence) (policyName : String) : StrMap RouteEvalEvidence :=
  ((evidence[policyName]?).getD ∅).filter fun key _ =>
  (PredictiveRouteProjection.parseKey key).isSome

def proposedGuard (proposals : Option (StrMap (Option ProgressGuardPolicy))) (policyName : String)
    (policy : PolicyDefinition) : Option ProgressGuardPolicy :=
  ((proposals.bind (·[policyName]?))).getD policy.progressGuard

section Document

variable (C : Compiler) (quality : PromotionQualityCriteria) (input : CompileInput)
  (evidence : RouteEvidence) (artifact : PolicyArtifact)

/-- A policy with its new routes. -/
def compiledPolicy (name : String) (policy : PolicyDefinition) : PolicyDefinition :=
  let routes := compiledRoutes C input.current quality artifact.compiler.configDigest name policy
    (policyEvidence evidence name)
  { policy with
    progressGuard := proposedGuard input.proposedProgressGuards name policy
    routes
    predictor := if routes.isEmpty then policy.predictor else some C.compiledPredictorContract }

/-- **The document of a compilation.** -/
def compiledDocument : PolicyLock where
  lockfileVersion := policyLockfileVersion
  artifact := some artifact
  policies := input.current.policies.map (compiledPolicy C quality input evidence artifact)
  certificates := input.current.policies.filterMap fun name policy =>
    let certificates := compiledCertificates C input.current quality artifact.compiler.configDigest
      name policy (policyEvidence evidence name)
    if certificates.isEmpty then none else some certificates

/-- **The result of a compilation.** -/
def compiled : CompileResult where
  document := compiledDocument C quality input evidence artifact
  changes := input.current.policies.toList.flatMap fun (name, policy) =>
    compiledChanges C input.current quality artifact.compiler.configDigest name policy
      (policyEvidence evidence name)
  conflicts := input.current.policies.toList.flatMap fun (name, policy) =>
    compiledConflicts C input.current quality artifact.compiler.configDigest name policy
      (policyEvidence evidence name)

end Document

def snapshotEvidence (C : Compiler) : Option EvalEvidenceSnapshot → Except String RouteEvidence
  | some eval => eval.routeEvidence C.parseTime
  | none => .ok ∅

def CompileInput.validateTreatments (C : Compiler) (input : CompileInput) : Except String Unit :=
  match input.eval with
  | some eval => validateEvalActionTreatments C input.current eval
  | none => .ok ()

/-- **Compile a candidate.** -/
def compileCandidateWithQuality (C : Compiler) (input : CompileInput)
    (quality : PromotionQualityCriteria) : Except String CompileResult := do
  validateDocument C.toBinary input.current
  quality.validate
  input.validateTreatments C
  ensure (0 ≤ input.snapshotTimeUnixMs) "snapshot time cannot be negative"
  let evidence ← snapshotEvidence C input.eval
  let sourceSnapshotTimeUnixMs ← sourceSnapshotTime C input
  let configDigest := C.compilerConfigDigest quality input.proposedProgressGuards
  let artifact : PolicyArtifact := {
    parentDigest := some (input.parentDigest.getD (C.semanticDigest input.current))
    evidenceRoot := (input.eval.map (·.evidenceRoot)).getD C.emptyEvidenceRoot
    evalSnapshotRoot := input.eval.map (·.evidenceRoot)
    sourceSnapshotTimeUnixMs
    compiler := { id := policyCompilerId, version := policyCompilerVersion, configDigest } }
  ((input.proposedProgressGuards.map (·.keys)).getD []).forM fun name =>
    ensure (name ∈ input.current.policies)
      s!"progress guard proposal references missing policy '{name}'"
  let result := compiled C quality input evidence artifact
  validateDocument C.toBinary result.document
  return result

end BitRouter.Policy
