import BitRouter.Data.Tabled
import BitRouter.Trajectory.Types
import Mathlib.Data.Finset.Basic
import Mathlib.Data.Rat.Encodable
import Mathlib.Tactic.DeriveCountable

/-!
# Policy blocks

A policy block is a set of routing rules of one agent source that is tried out
on some sessions before it serves all of them. Each trial is an *experiment*:
it starts from a baseline, draws sessions into its arms in batches, and is
adopted or rolled back. A revision of the block starts the next experiment and
archives the last one, whose evidence and provenance it keeps.

All the blocks of an owner form one control state, which the operations on it
replace as a whole.
-/

namespace BitRouter.Evolution

open Trajectory (blank)

/-- The sides of an experiment. -/
inductive Arm where
  | baseline
  | challenger
deriving DecidableEq, Repr

/-! ## The learner's contract -/

def LEARNER_VERSION : String := "checkpoint-normal-inverse-gamma-ts-v3"

def MONITOR_VERSION : String := "checkpoint-adoption-quality-monitor-v1"

/-- Parts per million. -/
def PPM : ℕ := 1000000

/-- A normal prior. Its numbers are read from JSON, hence finite. -/
structure MeanPrior where
  mean : ℚ
  strength : ℚ
  observationVariance : ℚ
deriving DecidableEq

def MeanPrior.validate (prior : MeanPrior) : Except String Unit :=
  ensure (0 < prior.strength ∧ 0 < prior.observationVariance)
    "normal prior parameters must be finite with positive precision and variance"

/-- What is believed of an arm. -/
structure ArmPrior where
  quality : MeanPrior
  logCost : MeanPrior
  logLatency : MeanPrior
deriving DecidableEq

def ArmPrior.validate (prior : ArmPrior) : Except String Unit := do
  prior.quality.validate
  prior.logCost.validate
  prior.logLatency.validate
  ensure (0 ≤ prior.quality.mean ∧ prior.quality.mean ≤ 1) "quality prior mean is outside [0, 1]"

/-- The priors, and their thresholds. -/
structure BanditConfig where
  priorVersion : String
  baseline : ArmPrior
  challenger : ArmPrior
  minimumQualityPpm : ℕ
  noninferiorityMarginPpm : ℕ
  maximumLatencyIncreasePpm : ℕ
  promotionProbabilityPpm : ℕ
  minimumFamiliesPerArm : ℕ
  initialExposurePpm : ℕ
  maximumExposurePpm : ℕ
  minimumExposurePpm : ℕ
  maximumPendingChallenger : ℕ
  maximumChallengerSessions : ℕ
  posteriorDraws : ℕ
  recentGuardFamilies : ℕ
  recentGuardMinimumFamilies : ℕ
deriving DecidableEq

def BanditConfig.validate (config : BanditConfig) : Except String Unit := do
  ensure (blank config.priorVersion = false) "prior provenance is required"
  config.baseline.validate
  config.challenger.validate
  ensure (config.minimumQualityPpm ≤ PPM ∧ config.noninferiorityMarginPpm ≤ PPM
    ∧ PPM / 2 < config.promotionProbabilityPpm ∧ config.promotionProbabilityPpm < PPM)
    "invalid quality or promotion threshold"
  ensure (0 < config.minimumExposurePpm ∧ config.minimumExposurePpm ≤ config.initialExposurePpm
    ∧ config.initialExposurePpm ≤ config.maximumExposurePpm ∧ config.maximumExposurePpm < PPM)
    "exposure must retain both baseline and trial coverage"
  ensure (0 < config.minimumFamiliesPerArm ∧ 0 < config.maximumPendingChallenger
    ∧ 0 < config.maximumChallengerSessions ∧ 0 < config.recentGuardMinimumFamilies
    ∧ config.recentGuardMinimumFamilies ≤ config.recentGuardFamilies
    ∧ 128 ≤ config.posteriorDraws ∧ config.posteriorDraws ≤ 1000000)
    "invalid observation or simulation limits"

/-- What a learner recommends. -/
inductive Recommendation where
  | explore
  | hold
  | promote
  | rollback
deriving DecidableEq, Repr

/-- What the learner knows of an arm, as far as admission reads it. -/
structure ArmPosterior where
  assignedSessions : ℕ
  incompleteSessions : ℕ
deriving DecidableEq

/-- What the learner planned. -/
structure BatchPlan where
  learnerVersion : String
  planId : String
  evidenceDigest : String
  measurementContract : String
  configDigest : String
  challengerPropensityPpm : ℕ
  challenger : ArmPosterior
  recommendation : Recommendation
deriving DecidableEq

/-- What the monitor found. -/
structure MonitoringPlan where
  version : String
  evidenceDigest : String
  configDigest : String
  measurementContract : String
  rollback : Bool
deriving DecidableEq

/-! ## Blocks -/

/-- Who decides. -/
inductive EvolutionMode where
  | off
  | manual
  | automatic
deriving DecidableEq, Repr

/-- A selector and its routes. -/
structure BlockRule where
  selector : String
  fingerprint : Option String
  baselineRoute : String
  challengerRoute : String
deriving DecidableEq

/-- What identifies a rule. -/
def BlockRule.matcher (rule : BlockRule) : String × Option String :=
  (rule.selector, rule.fingerprint)

/-- Whether a step can match both. -/
def overlap (left right : BlockRule) : Bool :=
  left.selector = right.selector
    && (left.fingerprint.isNone || right.fingerprint.isNone || left.fingerprint = right.fingerprint)

/-- A block, as written. -/
structure BlockDefinition where
  blockId : String
  source : String
  rationale : String
  rules : List BlockRule
  independenceRationale : String
  /-- The revisions of other blocks, by their ids. -/
  dependencies : List (String × String)
  measurementContract : String
  batchSessions : ℕ
  bandit : BanditConfig
deriving DecidableEq

namespace BlockDefinition

/-- A round of the rule check, which has seen the matchers `keys`. -/
def validateRule (keys : List (String × Option String)) (rule : BlockRule) :
    Except String (List (String × Option String)) := do
  ensure (blank rule.selector = false ∧ blank rule.baselineRoute = false
    ∧ blank rule.challengerRoute = false) "block rule routes must be nonempty"
  ensure (rule.fingerprint.all fun f => !blank f) "empty fingerprint"
  ensure (rule.matcher ∉ keys) "duplicate rule matcher"
  return rule.matcher :: keys

def validate (definition : BlockDefinition) : Except String Unit := do
  ensure (blank definition.blockId = false ∧ blank definition.source = false
    ∧ blank definition.rationale = false ∧ blank definition.independenceRationale = false
    ∧ blank definition.measurementContract = false)
    "block identity, rationale and measurement contract are required"
  ensure (definition.rules ≠ []) "a block needs at least one rule"
  ensure (1 ≤ definition.batchSessions ∧ definition.batchSessions ≤ 10000) "invalid batch size"
  let _ ← definition.rules.foldlM validateRule []
  ensure (definition.rules.Pairwise fun left right => overlap left right = false)
    "overlapping rules within a block"
  ensure (∃ rule ∈ definition.rules, rule.baselineRoute ≠ rule.challengerRoute)
    "challenger must change a route"
  ensure (definition.blockId ∉ definition.dependencies.map (·.1)) "a block cannot depend on itself"
  definition.bandit.validate

theorem independent_of_validate {definition : BlockDefinition} (h : definition.validate = .ok ()) :
    definition.blockId ∉ definition.dependencies.map (·.1) := by
  obtain ⟨_, -, h⟩ := bind_eq_ok.mp h
  obtain ⟨_, -, h⟩ := bind_eq_ok.mp h
  obtain ⟨_, -, h⟩ := bind_eq_ok.mp h
  obtain ⟨_, -, h⟩ := bind_eq_ok.mp h
  obtain ⟨_, -, h⟩ := bind_eq_ok.mp h
  obtain ⟨_, -, h⟩ := bind_eq_ok.mp h
  obtain ⟨_, hindependent, -⟩ := bind_eq_ok.mp h
  exact ensure_eq_ok.mp hindependent

/-- The rule of a matcher. -/
def ruleOf (definition : BlockDefinition) (matcher : String × Option String) : Option BlockRule :=
  definition.rules.find? (·.matcher = matcher)

/-- The matchers of a block, which its revisions keep. -/
def matchers (definition : BlockDefinition) : Finset (String × Option String) :=
  (definition.rules.map (·.matcher)).toFinset

end BlockDefinition

/-- Where a block stands. -/
inductive BlockStatus where
  | exploring
  | adopted
  | rolledBack
  | paused
deriving DecidableEq, Repr

/-- Who was drawn, and for which arm. -/
structure EnrollmentBatch where
  sequence : ℕ
  members : StrMap Arm
  closed : Bool

def EnrollmentBatch.default : EnrollmentBatch := ⟨0, ∅, false⟩

/-- A block under control. -/
structure BlockState where
  definition : BlockDefinition
  revision : String
  parentRevision : Option String
  experimentId : String
  predecessorExperimentId : Option String
  /-- Adopted experiments supplying this baseline, in root-to-leaf order. -/
  baselineAncestry : List String
  status : BlockStatus
  plan : Option BatchPlan
  routingConfigDigest : String
  batch : EnrollmentBatch
  assignedChallengerSessions : ℕ
  lastExposurePpm : ℕ

/-- The routes in force. -/
structure Publication where
  generation : ℕ
  blockId : String
  experimentId : Option String
  previousRevision : String
  revision : String
  action : String
  evidenceDigest : Option String
  operatorReason : Option String
deriving DecidableEq

structure ArchivedExperiment where
  block : BlockState
  supersededBy : String

/-- The mode, and since when. -/
structure ControlState where
  mode : EvolutionMode
  modeEpoch : ℕ
  feedbackStartedAt : Option String
  /-- Only transitions from and to `off` revoke the trials of live sessions. -/
  trialEpoch : ℕ
  trialStartedAt : Option String
  generation : ℕ
  judgeModel : Option String
  blocks : StrMap BlockState
  archivedExperiments : StrMap ArchivedExperiment
  publications : List Publication
  nextAssignmentSequence : ℕ

def ControlState.default : ControlState where
  mode := .off
  modeEpoch := 0
  feedbackStartedAt := none
  trialEpoch := 0
  trialStartedAt := none
  generation := 0
  judgeModel := none
  blocks := ∅
  archivedExperiments := ∅
  publications := []
  nextAssignmentSequence := 0

/-! ## Digests -/

/-- The tuples the control state digests. Tuples of one shape are told apart by
their members alone. -/
inductive Preimage where
  | definition (definition : BlockDefinition) (configDigest : String)
  | experiment (revision : String) (modeEpoch : ℕ)
  | revision (previous : String) (definition : BlockDefinition) (routingDigest : String)
    (ancestry : List String)
  | triple (first second third : String)
  | pair (first second : String)
  | config (config : BanditConfig)
deriving DecidableEq

/-- A digest that does not collide, and the generator the draws are taken
from: the first number below `PPM` of a seed. -/
structure Primitives where
  digest : Preimage → String
  digest_injective : Function.Injective digest
  roll : ℕ → ℕ

namespace Primitives

variable (P : Primitives)

theorem digest_inj {a b : Preimage} : P.digest a = P.digest b ↔ a = b := P.digest_injective.eq_iff

/-- `BanditConfig::digest`. -/
def configDigest (config : BanditConfig) : String := P.digest (.config config)

/-- `("block-experiment-v1", revision, mode_epoch)` -/
def registeredId (definition : BlockDefinition) (configDigest : String) (modeEpoch : ℕ) : String :=
  P.digest (.experiment (P.digest (.definition definition configDigest)) modeEpoch)

/-- `("block-experiment-revision-v1", previous, definition, routing_digest, ancestry)` -/
def revisedId (previous : String) (definition : BlockDefinition) (routingDigest : String)
    (ancestry : List String) : String :=
  P.digest (.revision previous definition routingDigest ancestry)

/-- The arm of a session. -/
def drawAssignment (challengerPropensityPpm seed : ℕ) : Except String Arm := do
  ensure (challengerPropensityPpm ≤ PPM) "invalid assignment probability"
  return if P.roll seed < challengerPropensityPpm then .challenger else .baseline

end Primitives

section Countable

instance countableChar : Countable Char :=
  (show Function.Injective Char.toNat from fun _ _ h => Char.toNat_inj.mp h).countable

instance countableString : Countable String :=
  (show Function.Injective String.toList from fun _ _ h => String.toList_inj.mp h).countable

deriving instance Countable for MeanPrior, ArmPrior, BanditConfig, BlockRule, BlockDefinition,
  Preimage

end Countable

/-- Primitives that digest the tuples of a table to their places in it. -/
noncomputable def Primitives.ofTable (table : List Preimage) (roll : ℕ → ℕ) : Primitives where
  digest := tabled table
  digest_injective := tabled_injective table
  roll := roll

/-- `checked_add(1)` on a `u64`. -/
def successor (n : ℕ) (failure : String) : Except String ℕ := do
  ensure (n + 1 < 2 ^ 64) failure
  return n + 1

theorem successor_eq_ok {n m : ℕ} {failure : String} :
    successor n failure = .ok m ↔ n + 1 < 2 ^ 64 ∧ n + 1 = m := by
  unfold successor
  rw [bind_eq_ok]
  simp [and_comm]

end BitRouter.Evolution
