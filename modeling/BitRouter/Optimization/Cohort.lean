import BitRouter.Policy.Compiler

/-!
# Cohorts of an experiment

What the evaluations of one exploration come to. A subject counts where all its
decisions for the target name one unit of assignment and one arm; the subjects of
a unit are one observation. Units are weighed by arm, and the challenger is
compared with the control (`assessCohort`).
-/

namespace BitRouter.Optimization

open Policy

inductive CohortGateVerdict where
  | pass
  | insufficientEvidence
  | qualityFailed
  | hardViolation
  | ambiguousEvaluator
  | ambiguousClassifier
deriving DecidableEq, Repr

structure ArmAssessment where
  observed : ℕ := 0
  eligible : ℕ := 0
  excluded : ℕ := 0
  conclusive : ℕ := 0
  pass : ℕ := 0
  fail : ℕ := 0
  hardViolations : ℕ := 0
  passRatePpm : Option ℕ := none
  meanCostMicroUsd : Option ℤ := none
  meanLatencyMs : Option ℤ := none
deriving DecidableEq, Repr

structure CohortAssessment where
  control : ArmAssessment
  challenger : ArmAssessment
  excludedRequests : ℕ
  evaluatorConfigDigest : Option String
  classifierDigest : Option String
  costDeltaMicroUsd : Option ℤ
  latencyDeltaMs : Option ℤ
  verdict : CohortGateVerdict
deriving DecidableEq, Repr

/-- A 32-bit count that may not overflow. -/
def addU32 (a b : ℕ) (context : String) : Except String ℕ := do
  ensure (a + b ≤ 4294967295) context
  return a + b

/-! ## Subjects and units -/

/-- Keys in the order of a rank, and then of their text. -/
def cmpRanked : ℕ × String → ℕ × String → Ordering :=
  compareLex (compareOn Prod.fst) (compareOn fun key => bytes key.2)

instance instTransCmpRanked : Std.TransCmp cmpRanked :=
  inferInstanceAs (Std.TransCmp (compareLex (compareOn _) (compareOn _)))

abbrev RankedMap (α : Type) : Type := Std.ExtTreeMap (ℕ × String) α cmpRanked

def assignmentRank : ExperimentAssignmentUnit → ℕ
  | .task => 0
  | .episode => 1

structure NormalizedReference where
  unit : ExperimentAssignmentUnit
  digest : String
  arm : ExperimentArm
deriving DecidableEq, Repr

/-- The results of a subject. -/
structure SubjectGroup where
  malformed : Bool := false
  references : List NormalizedReference := []
  records : List EvalEvidenceRecord := []

/-- The results of a unit. -/
structure UnitGroup where
  arm : ExperimentArm
  records : List EvalEvidenceRecord

section Scan

variable (activePolicyDigest : String) (exploration : RouteExploration)

/-- One decision for the target. -/
def SubjectGroup.decision (group : SubjectGroup) (decision : EvalDecisionRef) : SubjectGroup :=
  match decision.experiment with
  | none => { group with malformed := true }
  | some experiment =>
    if decision.policyDigest ≠ activePolicyDigest
        ∨ experiment.experimentId ≠ exploration.experimentId
        ∨ experiment.challengerPropensityPpm ≠ exploration.challengerExposurePpm then
      { group with malformed := true }
    else
      let reference : NormalizedReference :=
        ⟨experiment.assignmentUnit, experiment.assignmentIdDigest, experiment.arm⟩
      { group with references := group.references.insert reference }

/-- One result of a subject. -/
def SubjectGroup.record (group : SubjectGroup) (record : EvalEvidenceRecord)
    (decisions : List EvalDecisionRef) : SubjectGroup :=
  let group := { group with
    malformed := group.malformed || record.subject.policyDigest ≠ activePolicyDigest }
  let group := decisions.foldl (SubjectGroup.decision activePolicyDigest exploration) group
  if group.records.any (·.resultId = record.resultId) then group
  else { group with records := group.records ++ [record] }

structure CohortScan where
  subjects : RankedMap SubjectGroup := ∅
  excludedRequests : Finset String := ∅

def CohortScan.record (scan : CohortScan) (record : EvalEvidenceRecord) : CohortScan :=
  let targetDecisions := record.subject.decisions.filter
    (·.routeProjection = exploration.targetRequestKey)
  if targetDecisions = [] then scan
  else if record.subject.scope = .request then
    { scan with excludedRequests := insert record.subject.subjectId scan.excludedRequests }
  else
    let key := (record.subject.scope.rank, record.subject.subjectId)
    let group := (scan.subjects[key]?).getD {}
    { scan with
      subjects := scan.subjects.insert key
        (group.record activePolicyDigest exploration record targetDecisions) }

end Scan

/-- The units so far, and those whose subjects disagree on the arm. -/
structure UnitScan where
  groups : RankedMap UnitGroup := ∅
  conflicting : List (ℕ × String) := []

def UnitScan.subject (scan : UnitScan) (group : SubjectGroup) : UnitScan :=
  match group.malformed, group.references with
  | false, [reference] =>
    let key := (assignmentRank reference.unit, reference.digest)
    let unit := (scan.groups[key]?).getD ⟨reference.arm, []⟩
    if unit.arm ≠ reference.arm then
      { scan with conflicting := scan.conflicting ++ [key] }
    else
      { scan with
        groups := scan.groups.insert key { unit with records := unit.records ++ group.records } }
  | _, _ => scan

/-- The units of a snapshot. -/
def unitGroups (scan : CohortScan) : List UnitGroup :=
  let units := scan.subjects.toList.foldl (fun units entry => units.subject entry.2)
    ({} : UnitScan)
  (units.groups.toList.filter fun entry => entry.1 ∉ units.conflicting).map Prod.snd

/-! ## The result of a unit -/

inductive ConclusiveRecord where
  | none
  | consistent (record : EvalEvidenceRecord)
  | conflict

/-- Two results that do not contradict each other. -/
def agreeOnResult (current record : EvalEvidenceRecord) : Bool :=
  current.result.verdict = record.result.verdict
    && current.result.evaluatorConfigDigest = record.result.evaluatorConfigDigest
    && current.result.hardViolations.toFinset = record.result.hardViolations.toFinset

def conclusiveRecord (records : List EvalEvidenceRecord) (evaluatorConfigDigest : Option String) :
    ConclusiveRecord :=
  let conclusive := records.filter fun record => record.result.verdict ≠ .inconclusive
    && evaluatorConfigDigest.all (record.result.evaluatorConfigDigest = ·)
  conclusive.foldl (fun selected record =>
    match selected with
    | .none => .consistent record
    | .consistent current => if agreeOnResult current record then .consistent record else .conflict
    | .conflict => .conflict) .none

def sortRecordsBySubmittedAt (parseTime : String → Except String ℤ)
    (records : List EvalEvidenceRecord) : Except String (List EvalEvidenceRecord) := do
  let normalized ← records.mapM fun record => do
    return (← parseTime record.result.submittedAt, record)
  return ((normalized.insertionSort fun a b =>
    (compareLex (compareOn Prod.fst) (compareOn fun entry => bytes entry.2.resultId) a b).isLE).map
      Prod.snd)

/-- A metric that is not negative, in its unit. -/
def metricValue (record : EvalEvidenceRecord) (metricId : String) (unit : MetricUnit) : Option ℤ :=
  (record.result.metrics[metricId]?.filter fun metric => metric.unit = unit && 0 ≤ metric.value).map
    (·.value)

def metricCost (record : EvalEvidenceRecord) (metricId : String) : Option ℤ :=
  metricValue record metricId .microUsd

def latestCompleteLatency (records : List EvalEvidenceRecord) (evaluatorConfigDigest : String) :
    Option ℤ :=
  let latest (scope : EvalScope) := records.reverse.find? fun record =>
    record.subject.scope = scope && record.result.verdict ≠ .inconclusive
      && record.result.evaluatorConfigDigest = evaluatorConfigDigest
  ((latest .task).or (latest .episode)).bind (metricValue · "latency.wall_ms" .milliseconds)

/-- The total of a complete trajectory, else the operational cost; of a task, else
of an episode. -/
def latestCompleteCost (records : List EvalEvidenceRecord) : Option ℤ :=
  let latest (scope : EvalScope) :=
    let inScope := records.reverse.filter (·.subject.scope = scope)
    let complete (record : EvalEvidenceRecord) : Bool :=
      record.result.metrics["trajectory.history_complete"]?.any fun metric =>
        metric.unit = .boolean && metric.value = 1
    (inScope.findSome? fun record =>
        if complete record then metricCost record "trajectory.cost.usd_micros" else none).or
      (inScope.findSome? (metricCost · "cost.usd_micros"))
  (latest .task).or (latest .episode)

/-! ## The arms -/

structure CostAggregate where
  total : ℤ := 0
  count : ℕ := 0

def CostAggregate.add (aggregate : CostAggregate) (value : ℤ) : Except String CostAggregate := do
  let total := aggregate.total + value
  ensure (fitsI128 total) "summing complete cohort costs"
  return { total, count := ← addU32 aggregate.count 1 "counting complete cohort costs" }

def CostAggregate.addOptional (aggregate : CostAggregate) :
    Option ℤ → Except String CostAggregate
  | some value => aggregate.add value
  | none => .ok aggregate

def CostAggregate.mean (aggregate : CostAggregate) : Option ℤ :=
  if aggregate.count = 0 then none
  else
    let mean := aggregate.total.tdiv aggregate.count
    if satI64 mean = mean then some mean else none

/-- What the units of an arm come to. -/
structure ArmTally where
  assessment : ArmAssessment := {}
  cost : CostAggregate := {}
  latency : CostAggregate := {}

/-- How the units are weighed. -/
structure CohortRules where
  parseTime : String → Except String ℤ
  gateDigest : Option String
  evaluatorConfigDigest : Option String
  ambiguousEvaluator : Bool
  ambiguousClassifier : Bool

/-- A unit that is observed, but not weighed. -/
def ArmTally.exclude (tally : ArmTally) (context : String) : Except String ArmTally := do
  let excluded ← addU32 tally.assessment.excluded 1 context
  return { tally with assessment := { tally.assessment with excluded } }

/-- A unit with a conclusive result. -/
def ArmTally.conclude (tally : ArmTally) (records : List EvalEvidenceRecord)
    (record : EvalEvidenceRecord) : Except String ArmTally := do
  let a := tally.assessment
  let eligible ← addU32 a.eligible 1 "counting eligible experiment units"
  let conclusive ← addU32 a.conclusive 1 "counting conclusive experiment units"
  let latency ← tally.latency.addOptional
    (latestCompleteLatency records record.result.evaluatorConfigDigest)
  let pass ← addU32 a.pass (if record.result.verdict = .pass then 1 else 0)
    "counting passing experiment units"
  let fail ← addU32 a.fail (if record.result.verdict = .fail then 1 else 0)
    "counting failing experiment units"
  return { tally with latency, assessment := { a with eligible, conclusive, pass, fail } }

/-- The violations that count for the gate. -/
def unitViolations (R : CohortRules) (records : List EvalEvidenceRecord) : ℕ :=
  satU32 ((records.filter fun record =>
    R.gateDigest.all (record.result.evaluatorConfigDigest = ·)).flatMap
      (·.result.hardViolations)).toFinset.card

/-- **One unit of an arm.** -/
def ArmTally.unit (R : CohortRules) (tally : ArmTally) (records : List EvalEvidenceRecord) :
    Except String ArmTally := do
  let records ← sortRecordsBySubmittedAt R.parseTime records
  let observed ← addU32 tally.assessment.observed 1 "counting observed experiment units"
  let cost ← tally.cost.addOptional (latestCompleteCost records)
  let hardViolations ← addU32 tally.assessment.hardViolations (unitViolations R records)
    "counting hard violations"
  let tally : ArmTally := { tally with
    cost, assessment := { tally.assessment with observed, hardViolations } }
  let hasWrongEvaluator := R.evaluatorConfigDigest.any fun digest => records.any fun record =>
    record.result.verdict ≠ .inconclusive && record.result.evaluatorConfigDigest ≠ digest
  if R.ambiguousEvaluator || R.ambiguousClassifier then
    tally.exclude "counting evaluator-ambiguous experiment units"
  else if hasWrongEvaluator && R.gateDigest.isNone then
    tally.exclude "counting ambiguous evaluator units"
  else
    match conclusiveRecord records R.evaluatorConfigDigest with
    | .consistent record => tally.conclude records record
    | .none | .conflict => tally.exclude "counting excluded experiment units"

structure Arms where
  control : ArmTally := {}
  challenger : ArmTally := {}

def Arms.unit (R : CohortRules) (arms : Arms) (group : UnitGroup) : Except String Arms := do
  match group.arm with
  | .control => return { arms with control := ← arms.control.unit R group.records }
  | .challenger => return { arms with challenger := ← arms.challenger.unit R group.records }

def passRate (a : ArmAssessment) : Except String (Option ℕ) :=
  if a.conclusive = 0 then .ok none
  else do
    ensure (a.pass * 1000000 ≤ 4294967295) "computing cohort pass rate"
    return some (a.pass * 1000000 / a.conclusive)

/-- An arm with its means. A latency stands only for every eligible unit. -/
def ArmTally.finish (tally : ArmTally) : Except String ArmAssessment := do
  let passRatePpm ← passRate tally.assessment
  return { tally.assessment with
    passRatePpm
    meanCostMicroUsd := tally.cost.mean
    meanLatencyMs :=
      if tally.latency.count = tally.assessment.eligible then tally.latency.mean else none }

/-- A difference, if a 64-bit integer has it. -/
def checkedDelta (control challenger : Option ℤ) : Option ℤ := do
  let control ← control
  let challenger ← challenger
  let delta := challenger - control
  if satI64 delta = delta then some delta else none

def evaluatorOf (gateDigest : Option String) (groups : List UnitGroup) : Option String × Bool :=
  let inferred := groups.filterMap fun group =>
    match conclusiveRecord group.records none with
    | .consistent record => some record.result.evaluatorConfigDigest
    | .none | .conflict => none
  match gateDigest, (StrMap.ofPairs (inferred.map (·, ()))).keys with
  | some digest, _ => (some digest, false)
  | none, [digest] => (some digest, false)
  | none, [] => (none, false)
  | none, _ => (none, true)

/-- **The assessment of an exploration.** -/
def assessCohort (parseTime : String → Except String ℤ) (snapshot : EvalEvidenceSnapshot)
    (activePolicyDigest : String) (exploration : RouteExploration) :
    Except String CohortAssessment := do
  let scan := snapshot.records.foldl (CohortScan.record activePolicyDigest exploration) {}
  ensure (scan.excludedRequests.card ≤ 4294967295) "counting excluded request eval subjects"
  let groups := unitGroups scan
  let classifierCohorts := (StrMap.ofPairs ((groups.flatMap (·.records)).flatMap fun record =>
    record.subject.classifierCohorts.toList)).keys
  let ambiguousClassifier : Bool := 1 < classifierCohorts.length
  let (evaluatorConfigDigest, ambiguousEvaluator) :=
    evaluatorOf exploration.gate.evaluatorConfigDigest groups
  let rules : CohortRules := {
    parseTime, gateDigest := exploration.gate.evaluatorConfigDigest, evaluatorConfigDigest
    ambiguousEvaluator, ambiguousClassifier }
  let arms ← groups.foldlM (Arms.unit rules) {}
  let control ← arms.control.finish
  let challenger ← arms.challenger.finish
  let minimum := exploration.gate.minimumTasksPerArm
  let verdict : CohortGateVerdict :=
    if 0 < challenger.hardViolations then .hardViolation
    else if ambiguousClassifier then .ambiguousClassifier
    else if ambiguousEvaluator then .ambiguousEvaluator
    else if control.eligible < minimum ∨ challenger.eligible < minimum then .insufficientEvidence
    else if challenger.passRatePpm.all (· < exploration.gate.minimumPassRatePpm) then
      .qualityFailed
    else .pass
  return {
    control, challenger, excludedRequests := scan.excludedRequests.card, evaluatorConfigDigest
    classifierDigest := if ambiguousClassifier then none else classifierCohorts.head?
    costDeltaMicroUsd := checkedDelta control.meanCostMicroUsd challenger.meanCostMicroUsd
    latencyDeltaMs := checkedDelta control.meanLatencyMs challenger.meanLatencyMs
    verdict }

end BitRouter.Optimization
