import BitRouter.Evolution.Types

/-!
# The operations on a control state

Lookups first: an experiment of a block is its current one or one of its
archived ones, its baseline is supported while every experiment it was built on
is still adopted on unchanged dependencies, and otherwise falls back to the
first of them that is not. Then the operations of an operator and of the
learner. An operation that fails leaves nothing behind: it returns the whole
next state or an error.
-/

namespace BitRouter.Evolution

namespace ControlState

/-! ## Lookups -/

/-- The current experiments, then the archived ones. -/
def experiments (s : ControlState) : List BlockState :=
  s.blocks.toList.map (·.2) ++ s.archivedExperiments.toList.map (·.2.block)

def experiment (s : ControlState) (blockId : String) (experimentId : Option String) :
    Option BlockState :=
  match s.blocks[blockId]? with
  | none => none
  | some current =>
    match experimentId with
    | none => some current
    | some id =>
      if current.experimentId = id then some current
      else (s.archivedExperiments[id]?.map (·.block)).filter (·.definition.blockId = blockId)

/-- The walk of `original_experiment`, which has seen the ids `seen`. A round
adds an id of an experiment, so there are at most as many as experiments. -/
def originalFrom (s : ControlState) (blockId : String) :
    ℕ → List String → BlockState → Except String BlockState
  | 0, _, _ => .error "cyclic experiment history"
  | fuel + 1, seen, block =>
    match block.predecessorExperimentId with
    | none => .ok block
    | some previous =>
      if previous ∈ seen then .error "cyclic experiment history"
      else
        match s.experiment blockId (some previous) with
        | none => .error "experiment predecessor missing"
        | some next => s.originalFrom blockId fuel (previous :: seen) next

def originalExperiment (s : ControlState) (blockId : String) : Except String BlockState := do
  let block ← orFail s.blocks[blockId]? "unknown policy block"
  s.originalFrom blockId (s.experiments.length + 1) [] block

def externalDependenciesMatch (s : ControlState) (block : BlockState) : Bool :=
  block.definition.dependencies.all fun (id, revision) =>
    s.blocks[id]?.any fun b => b.revision = revision

def supports (s : ControlState) (ancestor : BlockState) : Bool :=
  ancestor.status = .adopted && s.externalDependenciesMatch ancestor

def baselineValid (s : ControlState) (block : BlockState) : Bool :=
  block.baselineAncestry.all fun id =>
    (s.experiment block.definition.blockId (some id)).any s.supports

/-- The walk of `baseline_source` along the ancestors left, with those passed. -/
def baselineFrom (s : ControlState) (block : BlockState) :
    List String → List String → Except String (BlockState × List String)
  | passed, [] => .ok (block, passed)
  | passed, id :: rest =>
    match s.experiment block.definition.blockId (some id) with
    | none => .error "baseline ancestor missing"
    | some ancestor =>
      if s.supports ancestor then s.baselineFrom block (passed ++ [id]) rest
      else .ok (ancestor, passed)

/-- The last still-supported baseline. A withdrawn ancestor also withdraws its
descendants; its own baseline predates the failed adoption. -/
def baselineSource (s : ControlState) (block : BlockState) :
    Except String (BlockState × List String) :=
  s.baselineFrom block [] block.baselineAncestry

def dependenciesMatch (s : ControlState) (block : BlockState) : Bool :=
  s.externalDependenciesMatch block && s.baselineValid block

/-! ## Writing an experiment back -/

/-- `experiment_mut`: the experiment of a block, current or archived. -/
def experimentMut (s : ControlState) (blockId experimentId : String) : Option BlockState :=
  match s.blocks[blockId]? with
  | some b =>
    if b.experimentId = experimentId then some b
    else (s.archivedExperiments[experimentId]?.map (·.block)).filter
      (·.definition.blockId = blockId)
  | none =>
    (s.archivedExperiments[experimentId]?.map (·.block)).filter (·.definition.blockId = blockId)

/-- What a mutation through `experiment_mut` leaves. -/
def setExperiment (s : ControlState) (blockId experimentId : String) (block : BlockState) :
    ControlState :=
  if s.blocks[blockId]?.any (·.experimentId = experimentId) then
    { s with blocks := s.blocks.insert blockId block }
  else
    match s.archivedExperiments[experimentId]? with
    | some archive =>
      { s with archivedExperiments :=
          s.archivedExperiments.insert experimentId { archive with block := block } }
    | none => s

/-- The next generation with what it publishes. -/
def publish (s : ControlState) (publication : ℕ → Publication) : Except String ControlState := do
  let generation ← successor s.generation "publication generation overflow"
  return { s with
    generation := generation
    publications := s.publications ++ [publication generation] }

end ControlState

variable (P : Primitives)

/-- The end of a block's revision: another one takes its place. -/
def BlockState.advance (block : BlockState) (action detail : String) : BlockState :=
  { block with
    parentRevision := some block.revision
    revision := P.digest (.triple block.revision action detail) }

namespace ControlState

/-- One experiment withdrawn with the ancestor `withdrawn`. -/
def withdraw (withdrawn : String) (s : ControlState) (affected : String × String) :
    Except String ControlState := do
  let block ← orFail (s.experimentMut affected.1 affected.2) "descendant experiment missing"
  let next := { block.advance P "baseline_withdrawn" withdrawn with status := .rolledBack }
  (s.setExperiment affected.1 affected.2 next).publish fun generation =>
    { generation := generation
      blockId := affected.1
      experimentId := some affected.2
      previousRevision := block.revision
      revision := next.revision
      action := "inherited_baseline_withdrawn"
      evidenceDigest := none
      operatorReason := none }

/-- The experiments built on `withdrawn`, also those already rolled back: the
baseline they fall back to changes once more. -/
def affectedBy (s : ControlState) (withdrawn : String) : List (String × String) :=
  (s.experiments.filter (withdrawn ∈ ·.baselineAncestry)).map fun block =>
    (block.definition.blockId, block.experimentId)

def withdrawDescendants (s : ControlState) (withdrawn : String) : Except String ControlState :=
  (s.affectedBy withdrawn).foldlM (withdraw P withdrawn) s

/-! ## Modes -/

/-- The epoch of the trials after a change of mode at the instant `now`. -/
def setTrials (s : ControlState) (mode : EvolutionMode) (now : String) :
    Except String ControlState :=
  if decide (mode = .off) = decide (s.mode = .off) then .ok s
  else do
    let trialEpoch ← successor s.trialEpoch "trial epoch overflow"
    return { s with
      trialEpoch := trialEpoch
      trialStartedAt := if mode = .off then none else some now }

def setMode (s : ControlState) (mode : EvolutionMode) (judgeModel : Option String) (now : String) :
    Except String ControlState := do
  ensure (judgeModel.all fun model => !Trajectory.blank model) "judge model cannot be empty"
  let model := judgeModel.or s.judgeModel
  ensure (mode = .automatic → model.isSome) "automatic mode requires a configured judge model"
  if mode ≠ s.mode ∨ s.judgeModel ≠ model ∨ (mode ≠ .off ∧ s.feedbackStartedAt = none) then
    let modeEpoch ← successor s.modeEpoch "mode epoch overflow"
    let trials ← s.setTrials mode now
    let generation ← successor s.generation "publication generation overflow"
    return { trials with
      judgeModel := model
      modeEpoch := modeEpoch
      mode := mode
      feedbackStartedAt := if mode = .off then none else some now
      generation := generation }
  else return { s with judgeModel := model }

/-! ## Registration and revision -/

def dependenciesAvailable (s : ControlState) (definition : BlockDefinition) : Prop :=
  ∀ dependency ∈ definition.dependencies,
    s.blocks[dependency.1]?.any (·.revision = dependency.2) = true

instance (s : ControlState) (definition : BlockDefinition) :
    Decidable (s.dependenciesAvailable definition) :=
  inferInstanceAs (Decidable (∀ dependency ∈ definition.dependencies, _))

/-- The first experiment of a block. -/
def registeredBlock (s : ControlState) (definition : BlockDefinition) (configDigest : String) :
    BlockState where
  definition := definition
  revision := P.digest (.definition definition configDigest)
  parentRevision := none
  experimentId := P.registeredId definition configDigest s.modeEpoch
  predecessorExperimentId := none
  baselineAncestry := []
  status := .exploring
  plan := none
  routingConfigDigest := configDigest
  batch := .default
  assignedChallengerSessions := 0
  lastExposurePpm := definition.bandit.initialExposurePpm

def register (s : ControlState) (definition : BlockDefinition) (configDigest : String) :
    Except String ControlState := do
  definition.validate
  ensure (s.blocks[definition.blockId]? = none)
    "block already exists; use a new experiment revision"
  ensure (∀ rule ∈ definition.rules, rule.baselineRoute = rule.selector)
    "cold start must inherit the current route"
  ensure (∀ other ∈ s.blocks.toList, other.2.definition.source = definition.source →
    ∀ a ∈ definition.rules, ∀ b ∈ other.2.definition.rules, overlap a b = false)
    "policy blocks have overlapping matchers"
  ensure (s.dependenciesAvailable definition) "block dependency revision is unavailable"
  let generation ← successor s.generation "publication generation overflow"
  return { s with
    blocks := s.blocks.insert definition.blockId (s.registeredBlock P definition configDigest)
    generation := generation }

/-- The route a rule of a revision has to start from. -/
def expectedBaseline (reset inherits : Bool) (rule old : BlockRule) : String :=
  if reset then rule.selector else if inherits then old.challengerRoute else old.baselineRoute

def checkInherited (baseline : BlockDefinition) (reset inherits : Bool) (rule : BlockRule) :
    Except String Unit := do
  let old ← orFail (baseline.ruleOf rule.matcher) "baseline matcher missing"
  ensure (rule.baselineRoute = expectedBaseline reset inherits rule old)
    "revision must inherit the effective baseline route"

/-- The adopted experiments a revision of `previous` is built on. -/
def revisedAncestry (previous : BlockState) (passed : List String) (reset inherits : Bool) :
    List String :=
  if reset then [] else if inherits then passed ++ [previous.experimentId] else passed

/-- The adoption of `previous` is what its revision starts from. -/
def inheritsAdoption (s : ControlState) (previous : BlockState) (reset : Bool) : Bool :=
  !reset && previous.status = .adopted && s.dependenciesMatch previous

/-- Starting a trial preserves the deployed baseline, hence the revision. -/
def revisedRevision (s : ControlState) (previous : BlockState) (experimentId : String)
    (reset : Bool) : String :=
  if reset || !s.baselineValid previous then
    P.digest (.triple previous.revision "rebase" experimentId)
  else previous.revision

/-- The experiment that follows `previous`. -/
def revisedBlock (s : ControlState) (previous : BlockState) (definition : BlockDefinition)
    (routingDigest : String) (ancestry : List String) (reset : Bool) : BlockState :=
  let experimentId := P.revisedId previous.experimentId definition routingDigest ancestry
  let revision := s.revisedRevision P previous experimentId reset
  { definition := definition
    revision := revision
    parentRevision := if revision = previous.revision then previous.parentRevision
      else some previous.revision
    experimentId := experimentId
    predecessorExperimentId := some previous.experimentId
    baselineAncestry := ancestry
    status := .exploring
    plan := none
    routingConfigDigest := routingDigest
    batch := .default
    assignedChallengerSessions := 0
    lastExposurePpm := definition.bandit.initialExposurePpm }

/-- The next experiment in the place of `previous`, which is archived. -/
def succeed (s : ControlState) (previous next : BlockState) : ControlState :=
  { s with
    archivedExperiments :=
      s.archivedExperiments.insert previous.experimentId ⟨previous, next.experimentId⟩
    blocks := s.blocks.insert next.definition.blockId next }

/-- Candidate routes may change together; the matchers stay, so that a revision
never silently drops part of an adopted policy. -/
def revise (s : ControlState) (definition : BlockDefinition) (routingDigest predecessor : String)
    (resetToConfigured : Bool) : Except String ControlState := do
  definition.validate
  let previous ← orFail s.blocks[definition.blockId]? "unknown policy block"
  ensure (previous.experimentId = predecessor) "experiment changed; refresh before revising"
  ensure (definition.source = previous.definition.source)
    "revision cannot change the block's agent source"
  ensure (definition.matchers = previous.definition.matchers)
    "revision must preserve the block's matchers"
  let (baseline, passed) ← s.baselineSource previous
  let inherits := s.inheritsAdoption previous resetToConfigured
  definition.rules.forM (checkInherited baseline.definition resetToConfigured inherits)
  let ancestry := revisedAncestry previous passed resetToConfigured inherits
  ensure (s.dependenciesAvailable definition) "block dependency revision is unavailable"
  let next := s.revisedBlock P previous definition routingDigest ancestry resetToConfigured
  ensure (s.archivedExperiments[next.experimentId]? = none) "experiment revision already exists"
  (s.succeed previous next).publish fun generation =>
    { generation := generation
      blockId := definition.blockId
      experimentId := some next.experimentId
      previousRevision := previous.revision
      revision := next.revision
      action := "experiment_revised"
      evidenceDigest := none
      operatorReason := none }

end ControlState

inductive PlanAction where
  | rollback
  | archivedEvidence
  | allocation
  | adoptionRevalidated
  | promote
  | withdrawUnsupportedPromotion
deriving DecidableEq, Repr

namespace PlanAction

def name : PlanAction → String
  | rollback => "rollback"
  | archivedEvidence => "archived_evidence"
  | allocation => "allocation"
  | adoptionRevalidated => "adoption_revalidated"
  | promote => "promote"
  | withdrawUnsupportedPromotion => "withdraw_unsupported_promotion"

/-- Only an adopted or a rolled-back route changes the dependency revision. -/
def advances : PlanAction → Bool
  | rollback | promote | withdrawUnsupportedPromotion => true
  | archivedEvidence | allocation | adoptionRevalidated => false

end PlanAction

namespace BlockState

/-- The plan is the one the block has, under the same contract. A promotion that
waited for its cohort is enacted by equal evidence. -/
def alreadyPlanned (block : BlockState) (plan : BatchPlan) (archived cohortResolved : Bool) :
    Bool :=
  block.plan.any fun old =>
    old.evidenceDigest = plan.evidenceDigest && old.learnerVersion = plan.learnerVersion
      && old.configDigest = plan.configDigest
      && old.measurementContract = plan.measurementContract
      && !(block.status = .exploring && old.recommendation = .promote
        && plan.recommendation = .promote && block.batch.closed && cohortResolved && !archived)

def nextCohort (block : BlockState) (plan : BatchPlan) : Except String BlockState := do
  let sequence ← successor block.batch.sequence "batch sequence overflow"
  return { block with
    batch := { EnrollmentBatch.default with sequence := sequence }
    lastExposurePpm := if 0 < plan.challengerPropensityPpm then plan.challengerPropensityPpm
      else block.lastExposurePpm }

def enact (block : BlockState) (plan : BatchPlan) (archived cohortResolved : Bool) :
    Except String (BlockState × PlanAction) :=
  match plan.recommendation with
  | .rollback => .ok ({ block with status := .rolledBack }, .rollback)
  | .promote =>
    if archived && block.status ≠ .adopted then .ok (block, .archivedEvidence)
    else if block.status = .exploring && (!block.batch.closed || !cohortResolved) then
      .ok (block, .allocation)
    else do
      ensure (block.batch.closed && cohortResolved) "promotion requires a resolved closed cohort"
      return if block.status = .adopted then (block, .adoptionRevalidated)
        else ({ block with status := .adopted }, .promote)
  | .explore | .hold =>
    if block.status = .adopted then
      .ok ({ block with status := .rolledBack }, .withdrawUnsupportedPromotion)
    else if archived then .ok (block, .archivedEvidence)
    else if block.batch.closed && cohortResolved then
      return (← block.nextCohort plan, .allocation)
    else .ok (block, .allocation)

end BlockState

namespace ControlState

/-- The experiment of a block is not its current one. -/
def archived (s : ControlState) (blockId experiment : String) : Bool :=
  s.blocks[blockId]?.all (·.experimentId ≠ experiment)

def withdrawIfRolledBack (s : ControlState) (status : BlockStatus) (experiment : String) :
    Except String ControlState :=
  if status = .rolledBack then s.withdrawDescendants P experiment else .ok s

/-- A plan enacted: the experiment rewritten, published, and its descendants
withdrawn with it. -/
def enactPlan (s : ControlState) (blockId experiment : String) (block : BlockState)
    (plan : BatchPlan) (cohortResolved : Bool) : Except String ControlState := do
  let (enacted, action) ← block.enact plan (s.archived blockId experiment) cohortResolved
  let advanced := if action.advances then enacted.advance P action.name plan.planId else enacted
  let next := { advanced with plan := some plan }
  let s ← (s.setExperiment blockId experiment next).publish fun generation =>
    { generation := generation
      blockId := blockId
      experimentId := some experiment
      previousRevision := block.revision
      revision := next.revision
      action := action.name
      evidenceDigest := some plan.evidenceDigest
      operatorReason := none }
  s.withdrawIfRolledBack P next.status experiment

/-- Publishing a plan. The answer says whether anything was published. -/
def applyExperimentPlan (s : ControlState) (blockId experiment : String) (plan : BatchPlan)
    (cohortResolved : Bool) : Except String (ControlState × Bool) := do
  ensure (s.mode ≠ .off) "evolution is off"
  let block ← orFail (s.experiment blockId (some experiment)) "unknown experiment"
  ensure (s.dependenciesMatch block) "block dependencies changed"
  ensure (plan.learnerVersion = LEARNER_VERSION
    ∧ plan.configDigest = P.configDigest block.definition.bandit
    ∧ plan.measurementContract = block.definition.measurementContract)
    "plan contract does not match the block"
  if block.alreadyPlanned plan (s.archived blockId experiment) cohortResolved then
    return (s, false)
  else do
    ensure (block.status ≠ .rolledBack) "rolled-back experiment cannot resume"
    let block ← orFail (s.experimentMut blockId experiment) "unknown experiment"
    return (← s.enactPlan P blockId experiment block plan cohortResolved, true)

def rollBack (s : ControlState) (blockId experiment : String) (block : BlockState)
    (evidenceDigest : String) : Except String ControlState := do
  let next := { block.advance P "adopted_quality_rollback" evidenceDigest with
    status := .rolledBack }
  let s ← (s.setExperiment blockId experiment next).publish fun generation =>
    { generation := generation
      blockId := blockId
      experimentId := some experiment
      previousRevision := block.revision
      revision := next.revision
      action := "adopted_quality_rollback"
      evidenceDigest := some evidenceDigest
      operatorReason := none }
  s.withdrawDescendants P experiment

def applyExperimentMonitoring (s : ControlState) (blockId experiment : String)
    (monitor : MonitoringPlan) : Except String (ControlState × Bool) := do
  ensure (s.mode ≠ .off) "evolution is off"
  let block ← orFail (s.experiment blockId (some experiment)) "unknown experiment"
  ensure (block.status = .adopted ∧ s.dependenciesMatch block = true)
    "adopted block or its dependencies changed"
  ensure (monitor.version = MONITOR_VERSION
    ∧ monitor.configDigest = P.configDigest block.definition.bandit
    ∧ monitor.measurementContract = block.definition.measurementContract)
    "monitor contract does not match the block"
  if monitor.rollback = false then return (s, false)
  else do
    let block ← orFail (s.experimentMut blockId experiment) "unknown experiment"
    return (← s.rollBack P blockId experiment block monitor.evidenceDigest, true)

end ControlState

structure RestoreRequest where
  block : String
  expectedExperiment : String
  expectedRevision : String
  reason : String

namespace ControlState

/-- A receipt of the request remains queryable after later revisions. -/
def restoration (s : ControlState) (request : RestoreRequest) : Option Publication :=
  s.publications.find? fun publication =>
    publication.blockId = request.block
      && publication.experimentId = some request.expectedExperiment
      && publication.previousRevision = request.expectedRevision
      && publication.action = "operator_restore"
      && publication.operatorReason = some request.reason

def withdrawReviewed (s : ControlState) (request : RestoreRequest) (block : BlockState) :
    Except String (ControlState × Publication) := do
  let next := { block.advance P "operator_restore" request.reason with status := .rolledBack }
  let publication (generation : ℕ) : Publication :=
    { generation := generation
      blockId := request.block
      experimentId := some block.experimentId
      previousRevision := block.revision
      revision := next.revision
      action := "operator_restore"
      evidenceDigest := none
      operatorReason := some request.reason }
  let s ← { s with blocks := s.blocks.insert request.block next }.publish publication
  return (← s.withdrawDescendants P request.expectedExperiment, publication s.generation)

/-- Withdraw only the reviewed experiment. Off does not prevent this explicit
operator action. -/
def restore (s : ControlState) (request : RestoreRequest) :
    Except String (ControlState × Publication) := do
  ensure (Trajectory.blank request.reason = false) "a reason is required to restore a policy block"
  match s.restoration request with
  | some publication => return (s, publication)
  | none => do
    let block ← orFail s.blocks[request.block]? "unknown policy block"
    ensure (block.experimentId = request.expectedExperiment
      ∧ block.revision = request.expectedRevision)
      "policy block changed; refresh and review its current version before restoring"
    ensure (block.status ≠ .rolledBack) "this experiment is already withdrawn"
    s.withdrawReviewed P request block

end ControlState

/-! ## One operation -/

inductive Operation where
  | setMode (mode : EvolutionMode) (judgeModel : Option String) (now : String)
  | register (definition : BlockDefinition) (configDigest : String)
  | revise (definition : BlockDefinition) (routingDigest predecessor : String)
    (resetToConfigured : Bool)
  | plan (blockId experiment : String) (learned : BatchPlan) (cohortResolved : Bool)
  | monitoring (blockId experiment : String) (monitor : MonitoringPlan)
  | restore (request : RestoreRequest)

/-- The state an operation leaves. -/
def Operation.apply (s : ControlState) : Operation → Except String ControlState
  | setMode mode judgeModel now => s.setMode mode judgeModel now
  | register definition configDigest => s.register P definition configDigest
  | revise definition routingDigest predecessor reset =>
    s.revise P definition routingDigest predecessor reset
  | plan blockId experiment learned cohortResolved =>
    (s.applyExperimentPlan P blockId experiment learned cohortResolved).map (·.1)
  | monitoring blockId experiment monitor =>
    (s.applyExperimentMonitoring P blockId experiment monitor).map (·.1)
  | restore request => (s.restore P request).map (·.1)

end BitRouter.Evolution
