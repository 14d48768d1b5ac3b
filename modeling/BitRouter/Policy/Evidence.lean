import BitRouter.Data.Result
import BitRouter.Data.StrMap
import Mathlib.Data.Finset.Basic
import Mathlib.Data.List.Sort

/-!
# Evidence of routes

The projection of one frozen snapshot of evaluations into evidence of routes. A
record evaluates a subject and credits its decisions. Each decision under a
policy is credited once for each configuration of an evaluator: a task before an
episode, and the latest submission first. A request never supplies evidence.

Weights are 64-bit integers that saturate, and counts are 32-bit ones.
-/

namespace BitRouter.Policy

/-! ## Integers -/

/-- The nearest 64-bit integer. -/
def satI64 (x : ℤ) : ℤ := max (-9223372036854775808) (min x 9223372036854775807)

/-- The nearest 32-bit count. -/
def satU32 (n : ℕ) : ℕ := min n 4294967295

/-- Whether a 128-bit integer has the value. -/
def fitsI128 (x : ℤ) : Bool :=
  -170141183460469231731687303715884105728 ≤ x && x ≤ 170141183460469231731687303715884105727

/-! ## Evaluations -/

/-- What an evaluation is about. -/
inductive EvalScope where
  | request
  | episode
  | task
deriving DecidableEq, Repr

def EvalScope.rank : EvalScope → ℕ
  | request => 0
  | episode => 1
  | task => 2

/-- What an evaluator says. -/
inductive EvalVerdict where
  | pass
  | fail
  | inconclusive
deriving DecidableEq, Repr

/-- Who evaluates. -/
inductive EvaluatorKind where
  | taskNative
  | human
  | enterprise
  | agentic
  | generic
deriving DecidableEq, Repr

/-- The unit of a metric. -/
inductive MetricUnit where
  | boolean
  | ppm
  | microUsd
  | milliseconds
  | count
  | scalarMicros
deriving DecidableEq, Repr

/-- A measured value. -/
structure MetricValue where
  value : ℤ
  unit : MetricUnit
deriving DecidableEq, Repr

/-- What a verdict rests on. -/
structure EvidenceItem where
  kind : String
  attributes : StrMap String

/-- An action a route was measured with. -/
structure RouteCandidate where
  tier : String
  model : String
  effort : Option String
  context : Option String
deriving DecidableEq, Repr

inductive ExperimentArm where
  | control
  | challenger
deriving DecidableEq, Repr

inductive ExperimentAssignmentUnit where
  | task
  | episode
deriving DecidableEq, Repr

/-- How an experiment has assigned a decision. -/
structure EvalExperimentRef where
  experimentId : String
  arm : ExperimentArm
  assignmentUnit : ExperimentAssignmentUnit
  assignmentIdDigest : String
  challengerPropensityPpm : ℕ
deriving DecidableEq, Repr

/-- A routing decision that is judged. -/
structure EvalDecisionRef where
  decisionId : String
  policy : String
  routeProjection : String
  requestKey : String
  selectedTier : String
  selectedEffort : Option String
  baselineTier : Option String
  baselineEffort : Option String
  policyDigest : String
  experiment : Option EvalExperimentRef
  routeMeasurement : Option (List RouteCandidate)
deriving DecidableEq, Repr

/-- What is judged. -/
structure EvalSubject where
  evalId : String
  scope : EvalScope
  subjectId : String
  policyDigest : String
  decisions : List EvalDecisionRef
  evidence : List EvidenceItem
  evidenceDigest : String

/-- No metric ids credit every metric. -/
structure DecisionCredit where
  weightPpm : ℤ
  metricIds : Finset String
deriving DecidableEq

/-- A verdict, with its metrics. -/
structure EvaluationResult where
  evaluatorKind : EvaluatorKind
  evaluatorConfigDigest : String
  verdict : EvalVerdict
  metrics : StrMap MetricValue
  hardViolations : List String
  decisionCredit : StrMap DecisionCredit
  submittedAt : String

/-- A verdict on a subject, as submitted. -/
structure EvalEvidenceRecord where
  resultId : String
  contentDigest : String
  subject : EvalSubject
  result : EvaluationResult

/-- The evidence frozen for a compilation. -/
structure EvalEvidenceSnapshot where
  evidenceRoot : String
  frozenAt : String
  records : List EvalEvidenceRecord

/-- The semantic cohorts of a subject. -/
def EvalSubject.classifierCohorts (subject : EvalSubject) : StrMap Unit :=
  let cohorts := (subject.evidence.filter (·.kind = "routing.assessment")).filterMap
    (·.attributes["classifier_digest"]?)
  if cohorts = [] then StrMap.ofPairs [("unassessed", ())]
  else StrMap.ofPairs (cohorts.map (·, ()))

/-! ## Evidence of a route -/

/-- A weighted sum. -/
structure MetricAggregate where
  weightedTotal : ℤ := 0
  totalWeightPpm : ℤ := 0
deriving DecidableEq, Repr

/-- The weighted mean, if a 64-bit integer has it. -/
def MetricAggregate.mean (m : MetricAggregate) : Option ℤ :=
  if m.totalWeightPpm = 0 then none
  else
    let mean := m.weightedTotal.tdiv m.totalWeightPpm
    if satI64 mean = mean then some mean else none

/-- The evidence on a tier. -/
structure TierEvalEvidence where
  eligibleEpisodes : ℕ := 0
  independentTasks : Finset String := ∅
  totalWeightPpm : ℤ := 0
  passWeightPpm : ℤ := 0
  failWeightPpm : ℤ := 0
  criticalViolations : ℕ := 0
  costMicroUsd : MetricAggregate := {}
  latencyMs : MetricAggregate := {}
deriving DecidableEq

/-- Of what was conclusive. -/
def TierEvalEvidence.passRatePpm (e : TierEvalEvidence) : ℤ :=
  let conclusive := satI64 (e.passWeightPpm + e.failWeightPpm)
  if conclusive = 0 then 0
  else
    let rate := (satI64 (e.passWeightPpm * 1000000)).tdiv conclusive
    if satI64 rate = rate then rate else 0

/-- The evidence on a route. -/
structure RouteEvalEvidence where
  classifierCohorts : StrMap Unit := ∅
  baselineTier : Option String := none
  matchedRequestKeys : Finset String := ∅
  tiers : StrMap TierEvalEvidence := ∅
  sources : Finset EvaluatorKind := ∅
  evaluatorConfigDigests : Finset String := ∅
  /-- Result, content and evidence of the records, each once. -/
  evidenceRecords : Finset (String × String × String) := ∅

/-- By policy, and by projection. -/
abbrev RouteEvidence : Type := StrMap (StrMap RouteEvalEvidence)

/-! ## Credit -/

/-- The part of a verdict a decision gets. -/
structure AttributedCredit where
  weightPpm : ℤ
  metricIds : Option (Finset String)

def AttributedCredit.includes (credit : AttributedCredit) (metricId : String) : Bool :=
  credit.metricIds.all fun metricIds => metricIds = ∅ || metricId ∈ metricIds

/-- The credit of a decision. -/
def creditForDecision (result : EvaluationResult) (decisionId : String) (decisionCount : ℕ) :
    Option AttributedCredit :=
  if result.decisionCredit.isEmpty ∧ decisionCount = 1 then
    some { weightPpm := 1000000, metricIds := none }
  else
    (result.decisionCredit[decisionId]?.filter (0 < ·.weightPpm)).map fun credit =>
      { weightPpm := credit.weightPpm, metricIds := some credit.metricIds }

/-- **A decision that a record credits**, and with what. -/
structure Attribution where
  record : EvalEvidenceRecord
  decision : EvalDecisionRef
  weightPpm : ℤ
  quality : Bool
  cost : Bool
  latency : Bool
  violations : ℕ

/-- What is credited once. -/
def Attribution.key (a : Attribution) : String × String × String :=
  (a.decision.decisionId, a.decision.policyDigest, a.record.result.evaluatorConfigDigest)

/-- What a record says of a decision. -/
def attributionOf (record : EvalEvidenceRecord) (decision : EvalDecisionRef) :
    Option Attribution := do
  let credit ← creditForDecision record.result decision.decisionId record.subject.decisions.length
  let conclusive : Bool := record.result.verdict ≠ .inconclusive
  let qualityCredited := conclusive && credit.includes "quality.pass"
  let costCredited := credit.includes "cost.usd_micros"
  let latencyCredited := credit.includes "latency.ms"
  let creditedViolations :=
    if conclusive then (record.result.hardViolations.filter credit.includes).length else 0
  if !qualityCredited && !costCredited && !latencyCredited && creditedViolations = 0 then none
  else return {
    record, decision, weightPpm := credit.weightPpm, quality := qualityCredited
    cost := costCredited, latency := latencyCredited, violations := creditedViolations }

/-- Adds a metric of the right unit. -/
def addMetric (aggregate : MetricAggregate) (metric : Option MetricValue)
    (expectedUnit : MetricUnit) (weightPpm : ℤ) : Except String MetricAggregate :=
  match metric with
  | none => .ok aggregate
  | some metric => do
    ensure (metric.unit = expectedUnit) "evaluation metric has an incompatible unit"
    let weighted := metric.value * weightPpm
    ensure (fitsI128 weighted) "evaluation metric weighted value overflow"
    let weightedTotal := aggregate.weightedTotal + weighted
    ensure (fitsI128 weightedTotal) "evaluation metric aggregate overflow"
    return { weightedTotal, totalWeightPpm := satI64 (aggregate.totalWeightPpm + weightPpm) }

/-- A metric that may not be credited. -/
def addCredited (credited : Bool) (aggregate : MetricAggregate) (metric : Option MetricValue)
    (expectedUnit : MetricUnit) (weightPpm : ℤ) : Except String MetricAggregate :=
  if credited then addMetric aggregate metric expectedUnit weightPpm else .ok aggregate

/-- Counts a verdict. -/
def TierEvalEvidence.addQuality (tier : TierEvalEvidence) (a : Attribution) : TierEvalEvidence :=
  if a.quality then
    { tier with
      eligibleEpisodes := satU32 (tier.eligibleEpisodes + 1)
      independentTasks := insert a.record.subject.subjectId tier.independentTasks
      totalWeightPpm := satI64 (tier.totalWeightPpm + a.weightPpm)
      passWeightPpm := if a.record.result.verdict = .pass then
        satI64 (tier.passWeightPpm + a.weightPpm) else tier.passWeightPpm
      failWeightPpm := if a.record.result.verdict = .fail then
        satI64 (tier.failWeightPpm + a.weightPpm) else tier.failWeightPpm }
  else tier

/-- Adds an attribution. -/
def TierEvalEvidence.credit (tier : TierEvalEvidence) (a : Attribution) : TierEvalEvidence :=
  { tier.addQuality a with
    criticalViolations := satU32 (tier.criticalViolations + satU32 a.violations) }

/-- **An attribution, added to its tier.** -/
def TierEvalEvidence.add (tier : TierEvalEvidence) (a : Attribution) :
    Except String TierEvalEvidence := do
  let metrics := a.record.result.metrics
  let cost ← addCredited a.cost tier.costMicroUsd metrics["cost.usd_micros"]? .microUsd a.weightPpm
  let latency ← addCredited a.latency tier.latencyMs metrics["latency.ms"]?
    .milliseconds a.weightPpm
  return { tier.credit a with costMicroUsd := cost, latencyMs := latency }

/-- Decisions agree on the baseline. -/
def mergeBaseline (existing named : Option String) : Except String (Option String) :=
  match existing, named with
  | some existing, some baseline => do
    ensure (existing = baseline) "eval route names conflicting baselines"
    return some existing
  | none, named => .ok named
  | some existing, none => .ok (some existing)

/-- **An attribution, added to its route.** -/
def RouteEvalEvidence.add (route : RouteEvalEvidence) (a : Attribution) :
    Except String RouteEvalEvidence := do
  let baselineTier ← mergeBaseline route.baselineTier a.decision.baselineTier
  let tier ← ((route.tiers[a.decision.selectedTier]?).getD {}).add a
  return {
    classifierCohorts := a.record.subject.classifierCohorts.keys.foldl
      (fun cohorts cohort => cohorts.insert cohort ()) route.classifierCohorts
    baselineTier
    matchedRequestKeys := insert a.decision.requestKey route.matchedRequestKeys
    tiers := route.tiers.insert a.decision.selectedTier tier
    sources := insert a.record.result.evaluatorKind route.sources
    evaluatorConfigDigests := insert a.record.result.evaluatorConfigDigest
      route.evaluatorConfigDigests
    evidenceRecords := insert (a.record.resultId, a.record.contentDigest,
      a.record.subject.evidenceDigest) route.evidenceRecords }

/-- Adds it to the route it is about. -/
def addAttribution (routes : RouteEvidence) (a : Attribution) : Except String RouteEvidence := do
  let projections := (routes[a.decision.policy]?).getD ∅
  let route ← ((projections[a.decision.routeProjection]?).getD {}).add a
  return routes.insert a.decision.policy (projections.insert a.decision.routeProjection route)

/-! ## The snapshot -/

/-- **The order of attribution**: tasks before episodes, then the latest
submission, then the id of the result. -/
def attributionCmp : EvalEvidenceRecord × ℤ → EvalEvidenceRecord × ℤ → Ordering :=
  compareLex (compareOn fun entry => 2 - entry.1.subject.scope.rank)
    (compareLex (compareOn fun entry => -entry.2) (compareOn fun entry => bytes entry.1.resultId))

/-- In the order of submission. -/
def sortRecords (entries : List (EvalEvidenceRecord × ℤ)) : List (EvalEvidenceRecord × ℤ) :=
  entries.insertionSort fun a b => (attributionCmp a b).isLE

/-- What the attribution of a snapshot has come to. -/
structure Attributing where
  attributed : List (String × String × String) := []
  routes : RouteEvidence := ∅

/-- What is credited already is not credited again. -/
def Attributing.add (s : Attributing) (a : Attribution) : Except String Attributing :=
  if a.key ∈ s.attributed then .ok s
  else do
    let routes ← addAttribution s.routes a
    return { attributed := s.attributed ++ [a.key], routes }

def Attributing.decision (record : EvalEvidenceRecord) (s : Attributing)
    (decision : EvalDecisionRef) : Except String Attributing :=
  match attributionOf record decision with
  | none => .ok s
  | some a => s.add a

def Attributing.record (s : Attributing) (record : EvalEvidenceRecord) :
    Except String Attributing :=
  record.subject.decisions.foldlM (Attributing.decision record) s

/-- The records, each with its instant. -/
def EvalEvidenceSnapshot.entries (parseTime : String → Except String ℤ)
    (snapshot : EvalEvidenceSnapshot) : Except String (List (EvalEvidenceRecord × ℤ)) :=
  (snapshot.records.filter (·.subject.scope ≠ .request)).mapM fun record => do
    return (record, ← parseTime record.result.submittedAt)

/-- **The evidence of a snapshot.** -/
def EvalEvidenceSnapshot.routeEvidence (parseTime : String → Except String ℤ)
    (snapshot : EvalEvidenceSnapshot) : Except String RouteEvidence := do
  let entries ← snapshot.entries parseTime
  let s ← (sortRecords entries).foldlM (fun s entry => Attributing.record s entry.1) {}
  return s.routes

end BitRouter.Policy
