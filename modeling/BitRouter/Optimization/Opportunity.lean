import BitRouter.Optimization.Cohort

/-!
# Opportunities

The history optimizer looks for a route on which a cheaper tier is worth a trial.
The requests and the results of the active lock are gathered by projection. A
projection is an opportunity where all its requests have matched the one key that
decides it now, where its tier is not the candidate already, where the operator
does not own it, and where the same treatment was not rejected before
(`opportunityOf`). The costliest opportunity is selected.
-/

namespace BitRouter.Optimization

open Policy

structure OptimizationOptions where
  objective : OptimizationObjective
  candidateTier : Option String
  challengerExposurePpm : ℕ
  minimumTasksPerArm : ℕ
  maximumChallengerTasks : ℕ
  minimumPassRatePpm : ℕ
  evaluatorConfigDigest : Option String
deriving DecidableEq, Repr

namespace OptimizationOptions

def gate (options : OptimizationOptions) : OptimizationGate where
  objective := options.objective
  minimumTasksPerArm := options.minimumTasksPerArm
  maximumChallengerTasks := options.maximumChallengerTasks
  minimumPassRatePpm := options.minimumPassRatePpm
  evaluatorConfigDigest := options.evaluatorConfigDigest

def resolvedCandidate (options : OptimizationOptions) : Except String String :=
  orFail options.candidateTier "optimization candidate tier was not resolved"

end OptimizationOptions

structure HistoricalOpportunity where
  requestKey : String
  championTier : String
  observedCostMicroUsd : ℕ
  independentUnits : ℕ
deriving DecidableEq, Repr

/-- **What the optimizer is built with**, beside the compiler. -/
structure Optimizer extends Compiler where
  observedSubjectDigest : EvalEvidenceSnapshot → String

structure OptimizationStepInput where
  eval : EvalEvidenceSnapshot
  activePolicy : PolicyLock
  activePolicyDigest : String
  policyName : String
  options : OptimizationOptions

/-- A text as a 64-bit count. -/
def parseU64 (value : String) : Option ℕ :=
  let digits : List Char := match value.toList with
    | '+' :: rest => rest
    | chars => chars
  let total : ℕ := digits.foldl (fun total c => 10 * total + (c.toNat - 48)) 0
  if digits ≠ [] ∧ digits.all Char.isDigit ∧ total ≤ 18446744073709551615 then some total else none

/-! ## Observations -/

structure OpportunityAggregate where
  observedCostMicroUsd : ℕ := 0
  requestCount : ℕ := 0
  foundCost : Bool := false
  independentUnits : Finset (EvalScope × String) := ∅
  matchedRequestKeys : Finset String := ∅
  fallbackBaselineTiers : Finset String := ∅

/-- What was observed of each projection, and the requests by subject and
projection. -/
structure OpportunityScan where
  aggregate : StrMap OpportunityAggregate := ∅
  requestSubjects : StrMap (StrMap EvalSubject) := ∅

/-- The same request may be evaluated several times. -/
def precedesSubject (a b : EvalSubject) : Bool :=
  ((cmpBytes a.evalId b.evalId).then (cmpBytes a.evidenceDigest b.evidenceDigest)).isLT

def selectSubject (subjects : StrMap EvalSubject) (projection : String) (subject : EvalSubject) :
    StrMap EvalSubject :=
  match subjects[projection]? with
  | none => subjects.insert projection subject
  | some selected =>
    if precedesSubject subject selected then subjects.insert projection subject else subjects

def OpportunityAggregate.decision (route : OpportunityAggregate) (decision : EvalDecisionRef) :
    OpportunityAggregate where
  observedCostMicroUsd := route.observedCostMicroUsd
  requestCount := route.requestCount
  foundCost := route.foundCost
  independentUnits := route.independentUnits
  matchedRequestKeys := insert decision.requestKey route.matchedRequestKeys
  fallbackBaselineTiers :=
    match decision.baselineTier with
    | some baselineTier =>
      if decision.requestKey ≠ decision.routeProjection then
        insert baselineTier route.fallbackBaselineTiers
      else route.fallbackBaselineTiers
    | none => route.fallbackBaselineTiers

def OpportunityScan.decision (subject : EvalSubject) (scan : OpportunityScan)
    (decision : EvalDecisionRef) : OpportunityScan :=
  let projection := decision.routeProjection
  let route := ((scan.aggregate[projection]?).getD {}).decision decision
  match subject.scope with
  | .request => {
      aggregate := scan.aggregate.insert projection route
      requestSubjects := scan.requestSubjects.insert subject.subjectId
        (selectSubject ((scan.requestSubjects[subject.subjectId]?).getD ∅) projection subject) }
  | .task | .episode => { scan with
      aggregate := scan.aggregate.insert projection { route with
        independentUnits := insert (subject.scope, subject.subjectId) route.independentUnits } }

/-- Only what was decided under the active lock counts. -/
def OpportunityScan.record (input : OptimizationStepInput) (scan : OpportunityScan)
    (record : EvalEvidenceRecord) : OpportunityScan :=
  if record.subject.policyDigest ≠ input.activePolicyDigest then scan
  else
    (record.subject.decisions.filter fun decision => decision.policy = input.policyName
      && decision.policyDigest = input.activePolicyDigest).foldl
        (OpportunityScan.decision record.subject) scan

def addU64 (a b : ℕ) (context : String) : Except String ℕ := do
  ensure (a + b ≤ 18446744073709551615) context
  return a + b

/-- The cost that an outcome of a request reports. -/
def OpportunityAggregate.outcome (route : OpportunityAggregate) (evidence : EvidenceItem) :
    Except String OpportunityAggregate :=
  match evidence.attributes["cost_micro_usd"]? with
  | none => .ok route
  | some value => do
    let cost ← orFail (parseU64 value) "parsing request cost"
    let observedCostMicroUsd ← addU64 route.observedCostMicroUsd cost
      "summing unique request opportunity cost"
    return { route with observedCostMicroUsd, foundCost := true }

/-- One request of a projection. -/
def OpportunityAggregate.request (route : OpportunityAggregate) (subject : EvalSubject) :
    Except String OpportunityAggregate := do
  let requestCount ← addU64 route.requestCount 1 "counting unique request opportunity observations"
  (subject.evidence.filter (·.kind = "request.outcome")).foldlM OpportunityAggregate.outcome
    { route with requestCount }

def addRequest (aggregate : StrMap OpportunityAggregate) (entry : String × EvalSubject) :
    Except String (StrMap OpportunityAggregate) := do
  let route ← ((aggregate[entry.1]?).getD {}).request entry.2
  return aggregate.insert entry.1 route

def observedRoutes (input : OptimizationStepInput) : Except String (StrMap OpportunityAggregate) :=
  let scan := input.eval.records.foldl (OpportunityScan.record input) {}
  (scan.requestSubjects.toList.flatMap fun entry => entry.2.toList).foldlM addRequest scan.aggregate

/-! ## Selection -/

def OpportunityAggregate.matchesOnly (route : OpportunityAggregate)
    (championTier matchedRequestKey : String) : Bool :=
  route.matchedRequestKeys = {matchedRequestKey} && route.fallbackBaselineTiers ⊆ {championTier}

/-- The operator owns the route of a key. -/
def ownedByOperator (lock : PolicyLock) (policyName requestKey : String) : Bool :=
  (lock.certificate policyName requestKey).any (·.owner = .operator)

/-- The treatments that were rejected before. -/
def rejectionsOf (policy : PolicyDefinition) : List RouteRejection :=
  (policy.optimization.map (·.rejections)).getD []

def rejectedBefore (policy : PolicyDefinition) (context : String) : Bool :=
  (rejectionsOf policy).any (·.treatmentContextDigest = some context)

/-- **The opportunity of a projection**, if it is one. -/
def opportunityOf (O : Optimizer) (input : OptimizationStepInput) (policy : PolicyDefinition)
    (routeProjection : String) (route : OpportunityAggregate) :
    Except String (Option HistoricalOpportunity) :=
  match policy.resolvePredictiveRoute routeProjection with
  | none => .ok none
  | some (championTier, matchedRequestKey) =>
    if !route.matchesOnly championTier matchedRequestKey then .ok none
    else do
      let candidateTier ← input.options.resolvedCandidate
      if championTier = candidateTier ∨ "|guarded".toList.isSuffixOf routeProjection.toList
          ∨ route.independentUnits = ∅
          ∨ ownedByOperator input.activePolicy input.policyName matchedRequestKey then
        return none
      let context := O.treatmentContextDigest input.policyName routeProjection championTier
        candidateTier input.options.challengerExposurePpm input.options.gate
      if rejectedBefore policy context then
        return none
      return some {
        requestKey := routeProjection, championTier
        observedCostMicroUsd :=
          if route.foundCost then route.observedCostMicroUsd else route.requestCount
        independentUnits := satU32 route.independentUnits.card }

def opportunityCmp (left right : HistoricalOpportunity) : Ordering :=
  (compare right.observedCostMicroUsd left.observedCostMicroUsd).then <|
    (compare right.independentUnits left.independentUnits).then
      (cmpBytes left.requestKey right.requestKey)

/-- **The opportunity to explore.** -/
def selectOpportunity (O : Optimizer) (input : OptimizationStepInput) :
    Except String (Option HistoricalOpportunity) := do
  let policy ← orFail input.activePolicy.policies[input.policyName]?
    s!"optimization policy '{input.policyName}' is missing"
  if (rejectionsOf policy).any (·.treatmentContextDigest.isNone) then
    return none
  let routes ← observedRoutes input
  let candidates ← routes.toList.mapM fun entry => opportunityOf O input policy entry.1 entry.2
  return ((candidates.filterMap id).insertionSort fun a b => (opportunityCmp a b).isLE).head?

end BitRouter.Optimization
