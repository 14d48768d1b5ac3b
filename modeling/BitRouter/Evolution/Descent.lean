import BitRouter.Evolution.Growth
import Mathlib.Logic.Relation

/-!
# What every reachable control state is

A step of an owner's control state is an operation or the selection of a route.
Its effect is one of four: the trials of experiments are drawn, one experiment
makes a transition, a block is registered, or one is revised. Each keeps the
state sound: the genealogy is, no experiment is paused, and a rolled-back
experiment has taken with it all that was built on it.
-/

namespace BitRouter.Evolution

open ControlState

variable {P : Primitives} {s s' : ControlState} {b next : BlockState}

/-! ## Selections -/

/-- Of an experiment, only its trial has changed. -/
def Drawn (b b' : BlockState) : Prop :=
  ∃ batch assigned, b' = { b with batch := batch, assignedChallengerSessions := assigned }

theorem Drawn.refl (b : BlockState) : Drawn b b := ⟨b.batch, b.assignedChallengerSessions, rfl⟩

theorem Drawn.trans {b b' b'' : BlockState} (h : Drawn b b') (h' : Drawn b' b'') :
    Drawn b b'' := by
  obtain ⟨_, _, rfl⟩ := h
  obtain ⟨batch, assigned, rfl⟩ := h'
  exact ⟨batch, assigned, rfl⟩

theorem Drawn.lineage {b b' : BlockState} (h : Drawn b b') : b'.lineage = b.lineage := by
  obtain ⟨_, _, rfl⟩ := h
  rfl

theorem Drawn.status {b b' : BlockState} (h : Drawn b b') : b'.status = b.status := by
  obtain ⟨_, _, rfl⟩ := h
  rfl

theorem Drawn.revision {b b' : BlockState} (h : Drawn b b') : b'.revision = b.revision := by
  obtain ⟨_, _, rfl⟩ := h
  rfl

def DrawnState (s s' : ControlState) : Prop :=
  (∃ f, Rewrites f s s' ∧ ∀ b ∈ s.experiments, Drawn b (f b))

namespace DrawnState

theorem refl (s : ControlState) : DrawnState s s := ⟨id, Rewrites.refl s, fun b _ => Drawn.refl b⟩

theorem of_maps_eq (h : DrawnState s s') {s'' : ControlState} (hblocks : s''.blocks = s'.blocks)
    (harchived : s''.archivedExperiments = s'.archivedExperiments) : DrawnState s s'' := by
  obtain ⟨f, hf, hdrawn⟩ := h
  exact ⟨f, hf.of_maps_eq hblocks harchived, hdrawn⟩

theorem trans {s'' : ControlState} (h : DrawnState s s') (h' : DrawnState s' s'') :
    DrawnState s s'' := by
  obtain ⟨f, hf, hdrawn⟩ := h
  obtain ⟨f', hf', hdrawn'⟩ := h'
  exact ⟨f' ∘ f, hf.trans hf', fun b hb =>
    (hdrawn b hb).trans (hdrawn' (f b) (hf.mem_iff.mpr ⟨b, hb, rfl⟩))⟩

theorem genealogy_eq (h : DrawnState s s') : s'.genealogy = s.genealogy := by
  obtain ⟨f, hf, hdrawn⟩ := h
  exact hf.genealogy_eq fun b hb => (hdrawn b hb).lineage

end DrawnState

theorem rewrites_of_insert (h : s.genealogy.Sound P) {id : String} (hb : s.blocks[id]? = some b)
    (b' : BlockState) :
    Rewrites (rewriteAt b.experimentId fun _ => b') s
        { s with blocks := s.blocks.insert id b' } := by
  have hfound : s.experimentMut id b.experimentId = some b :=
    (experimentMut_eq_some h).mpr ⟨mem_of_blocks hb, blockId_of_blocks h hb, rfl⟩
  have hset : s.setExperiment id b.experimentId b'
      = { s with blocks := s.blocks.insert id b' } := by
    unfold setExperiment
    rw [hb, if_pos (by simp)]
  exact hset ▸ setExperiment_rewrites (g := fun _ => b') h hfound

/-- The current experiment of a block, its trial replaced. -/
theorem drawnState_of_insert (h : s.genealogy.Sound P) {id : String} (hb : s.blocks[id]? = some b)
    {b' : BlockState} (hdrawn : Drawn b b') :
    DrawnState s { s with blocks := s.blocks.insert id b' } := by
  refine ⟨_, rewrites_of_insert h hb b', fun x hx => ?_⟩
  unfold rewriteAt
  split
  · next heq => exact eq_of_experimentId h hx (mem_of_blocks hb) heq ▸ hdrawn
  · exact Drawn.refl x

/-- **What a reservation does**: nothing, a batch closed, or a member more. -/
inductive Reserved (P : Primitives) (s : ControlState) (blockId sessionKey : String) (seed : ℕ) :
    ControlState → Option TrialAllocation → Prop
  | refused : Reserved P s blockId sessionKey seed s none
  | closed (b : BlockState) : s.blocks[blockId]? = some b → b.batch.closed = false →
    b.exhausted = true →
    Reserved P s blockId sessionKey seed
      { s with blocks := s.blocks.insert blockId b.closeBatch } none
  | drawn (b : BlockState) (arm : Arm) : s.blocks[blockId]? = some b → s.mode ≠ .off →
    b.status = .exploring → b.batch.closed = false → s.dependenciesMatch b = true →
    sessionKey ∉ b.batch.members → b.exhausted = false →
    P.drawAssignment b.lastExposurePpm seed = .ok arm →
    Reserved P s blockId sessionKey seed
      { s with
        nextAssignmentSequence := s.nextAssignmentSequence + 1
        blocks := s.blocks.insert blockId (b.enrolled sessionKey arm) }
      (some ⟨s.nextAssignmentSequence + 1, b.batch.sequence, arm, b.lastExposurePpm⟩)

theorem reserveTrial_eq_ok {blockId sessionKey : String} {seed : ℕ}
    {allocation : Option TrialAllocation}
    (hok : s.reserveTrial P blockId sessionKey seed = .ok (s', allocation)) :
    Reserved P s blockId sessionKey seed s' allocation := by
  obtain ⟨_, -, hok⟩ := bind_eq_ok.mp hok
  obtain ⟨b, hb, hok⟩ := bind_eq_ok.mp hok
  have hb := orFail_eq_ok.mp hb
  split at hok
  · obtain ⟨rfl, rfl⟩ := Prod.mk.inj (pure_eq_ok.mp hok)
    exact .refused
  · next hopen =>
    unfold refusesTrial at hopen
    simp only [Bool.or_eq_true, decide_eq_true_eq, not_or, Bool.not_eq_true, Bool.not_eq_false',
      ne_eq, Decidable.not_not] at hopen
    obtain ⟨⟨⟨⟨hmode, hstatus⟩, hclosed⟩, hmatch⟩, -⟩ := hopen
    obtain ⟨_, hmember, hok⟩ := bind_eq_ok.mp hok
    split at hok
    · next hexhausted =>
      obtain ⟨rfl, rfl⟩ := Prod.mk.inj (pure_eq_ok.mp hok)
      exact .closed b hb hclosed hexhausted
    · next hexhausted =>
      obtain ⟨arm, harm, hok⟩ := bind_eq_ok.mp hok
      obtain ⟨sequence, hsequence, hok⟩ := bind_eq_ok.mp hok
      obtain ⟨-, rfl⟩ := successor_eq_ok.mp hsequence
      obtain ⟨rfl, rfl⟩ := Prod.mk.inj (pure_eq_ok.mp hok)
      exact .drawn b arm hb hmode hstatus hclosed hmatch (ensure_eq_ok.mp hmember)
        (by simpa using hexhausted) harm

theorem Reserved.drawnState (h : s.genealogy.Sound P) {blockId sessionKey : String} {seed : ℕ}
    {allocation : Option TrialAllocation}
    (hreserved : Reserved P s blockId sessionKey seed s' allocation) : DrawnState s s' := by
  cases hreserved with
  | refused => exact .refl s
  | closed b hb _ _ => exact drawnState_of_insert h hb ⟨_, _, rfl⟩
  | drawn b arm hb _ _ _ _ _ _ _ =>
    have henrolled : Drawn b (b.enrolled sessionKey arm) := ⟨_, _, rfl⟩
    exact (drawnState_of_insert h hb henrolled).of_maps_eq rfl rfl

/-- **A round of the monitoring** numbers a membership, or does nothing. -/
theorem monitorStep_eq_ok {input : Input} {references : StrMap String}
    {acc acc' : ControlState × SessionEnrollment} {adopted : String × String}
    (hok : monitorStep P input references acc adopted = .ok acc') :
    acc' = acc ∨ ∃ membership : AdoptionMonitoring,
      membership.assignmentSequence = acc.1.nextAssignmentSequence + 1
        ∧ acc' = ({ acc.1 with nextAssignmentSequence := acc.1.nextAssignmentSequence + 1 },
          { acc.2 with monitoring := acc.2.monitoring.insert adopted.1 membership }) := by
  obtain ⟨block, -, hok⟩ := bind_eq_ok.mp hok
  split at hok
  · obtain ⟨sequence, hsequence, hok⟩ := bind_eq_ok.mp hok
    obtain ⟨-, rfl⟩ := successor_eq_ok.mp hsequence
    exact Or.inr ⟨_, rfl, (pure_eq_ok.mp hok).symm⟩
  · exact Or.inl (pure_eq_ok.mp hok).symm

/-- **A round of the enrollment** records the place that was reserved, if one
was. -/
theorem enrollStep_eq_ok {input : Input} {references : StrMap String}
    {acc acc' : ControlState × SessionEnrollment} {id : String}
    (hok : enrollStep P input references acc id = .ok acc') :
    (Reserved P acc.1 id input.sessionKey (input.seed id) acc'.1 none ∧ acc'.2 = acc.2)
      ∨ ∃ allocation b, ∃ a : BlockAssignment,
        Reserved P acc.1 id input.sessionKey (input.seed id) acc'.1 (some allocation)
          ∧ acc'.1.blocks[id]? = some b ∧ a.experimentId = b.experimentId
          ∧ a.batchSequence = allocation.batchSequence
          ∧ a.assignmentSequence = allocation.assignmentSequence ∧ a.arm = allocation.arm
          ∧ a.challengerPropensityPpm = allocation.challengerPropensityPpm
          ∧ a.randomSeed = input.seed id ∧ a.trialEpoch = acc'.1.trialEpoch
          ∧ acc'.2 = { acc.2 with assignments := acc.2.assignments.insert id a } := by
  obtain ⟨⟨s₁, allocation⟩, hreserved, hok⟩ := bind_eq_ok.mp hok
  have hreserved := reserveTrial_eq_ok hreserved
  cases allocation with
  | none =>
    obtain rfl := pure_eq_ok.mp hok
    exact Or.inl ⟨hreserved, rfl⟩
  | some allocation =>
    obtain ⟨block, hblock, hok⟩ := bind_eq_ok.mp hok
    obtain rfl := pure_eq_ok.mp hok
    exact Or.inr ⟨allocation, block, _, hreserved, orFail_eq_ok.mp hblock, rfl, rfl, rfl, rfl,
      rfl, rfl, rfl, rfl⟩

/-- **A selection only draws.** -/
theorem select_drawnState (h : s.genealogy.Sound P) {input : Input}
    {enrollment : SessionEnrollment} {intent : RouteIntent}
    (hok : s.select P input = .ok (s', enrollment, intent)) : DrawnState s s' := by
  obtain ⟨monitored, hmonitored, hok⟩ := bind_eq_ok.mp hok
  obtain ⟨⟨s₂, enrolled⟩, henrolled, hok⟩ := bind_eq_ok.mp hok
  obtain ⟨routing, -, hok⟩ := bind_eq_ok.mp hok
  obtain rfl := congrArg Prod.fst (pure_eq_ok.mp hok)
  have hmonitoring : DrawnState s monitored.1 := by
    unfold monitorNew at hmonitored
    split at hmonitored
    · refine foldlM_ok_preserves (P := fun acc : ControlState × SessionEnrollment =>
        DrawnState s acc.1) ?_ (DrawnState.refl s) hmonitored
      intro acc adopted acc' _ hacc hstep
      rcases monitorStep_eq_ok hstep with rfl | ⟨membership, -, rfl⟩
      · exact hacc
      · exact hacc.of_maps_eq rfl rfl
    · obtain rfl := Except.ok.inj hmonitored
      exact .refl s
  unfold enrollNew at henrolled
  split at henrolled
  · refine foldlM_ok_preserves (P := fun acc : ControlState × SessionEnrollment =>
      DrawnState s acc.1) ?_ hmonitoring henrolled
    intro acc id acc' _ hacc hstep
    rcases enrollStep_eq_ok hstep with ⟨hreserved, -⟩ | ⟨allocation, _, _, hreserved, -⟩
    · exact hacc.trans (hreserved.drawnState (hacc.genealogy_eq ▸ h))
    · exact hacc.trans (hreserved.drawnState (hacc.genealogy_eq ▸ h))
  · obtain rfl := Except.ok.inj henrolled
    exact hmonitoring

/-! ## Steps -/

/-- A step of the control state of an owner. -/
inductive Step (P : Primitives) (s s' : ControlState) : Prop
  | operation (op : Operation) : op.apply P s = .ok s' → Step P s s'
  | select (input : Input) (enrollment : SessionEnrollment) (intent : RouteIntent) :
    s.select P input = .ok (s', enrollment, intent) → Step P s s'

/-- **What a step can do.** -/
inductive Effect (P : Primitives) (s s' : ControlState) : Prop
  | drawn : DrawnState s s' → Effect P s s'
  | transition (b next : BlockState) : Transition P s s' b next → Effect P s s'
  | registered (definition : BlockDefinition) (configDigest : String) :
    Registered P s s' definition configDigest → Effect P s s'
  | revised (previous baseline next : BlockState) (definition : BlockDefinition)
    (routingDigest : String) (reset : Bool) (passed : List String) :
    Revised P s s' previous definition routingDigest reset baseline passed next → Effect P s s'

/-- A mode is set beside the blocks, and may begin an epoch of trials. -/
theorem setMode_eq_ok {mode : EvolutionMode} {judgeModel : Option String} {now : String}
    (hok : s.setMode mode judgeModel now = .ok s') :
    s'.blocks = s.blocks ∧ s'.archivedExperiments = s.archivedExperiments
      ∧ s'.nextAssignmentSequence = s.nextAssignmentSequence ∧ s.trialEpoch ≤ s'.trialEpoch := by
  obtain ⟨_, -, hok⟩ := bind_eq_ok.mp hok
  obtain ⟨_, -, hok⟩ := bind_eq_ok.mp hok
  split at hok
  · obtain ⟨_, -, hok⟩ := bind_eq_ok.mp hok
    obtain ⟨trials, htrials, hok⟩ := bind_eq_ok.mp hok
    obtain ⟨_, -, hok⟩ := bind_eq_ok.mp hok
    obtain rfl := pure_eq_ok.mp hok
    unfold setTrials at htrials
    split at htrials
    · obtain rfl := Except.ok.inj htrials
      exact ⟨rfl, rfl, rfl, Nat.le_refl _⟩
    · obtain ⟨epoch, hepoch, htrials⟩ := bind_eq_ok.mp htrials
      obtain ⟨-, rfl⟩ := successor_eq_ok.mp hepoch
      obtain rfl := pure_eq_ok.mp htrials
      exact ⟨rfl, rfl, rfl, Nat.le_succ _⟩
  · obtain rfl := pure_eq_ok.mp hok
    exact ⟨rfl, rfl, rfl, Nat.le_refl _⟩

/-- **What an operation does**: only a revision revises. -/
theorem Operation.effect (h : s.genealogy.Sound P) {op : Operation} (hok : op.apply P s = .ok s') :
    DrawnState s s' ∨ (∃ b next, Transition P s s' b next)
      ∨ (∃ definition configDigest, Registered P s s' definition configDigest)
      ∨ ∃ definition routingDigest predecessor reset previous baseline passed next,
        op = .revise definition routingDigest predecessor reset
          ∧ Revised P s s' previous definition routingDigest reset baseline passed next := by
  cases op with
  | setMode mode judgeModel now =>
    obtain ⟨hblocks, harchived, -⟩ := setMode_eq_ok hok
    exact Or.inl ((DrawnState.refl s).of_maps_eq hblocks harchived)
  | register definition configDigest =>
    exact Or.inr (Or.inr (Or.inl ⟨definition, configDigest, register_eq_ok hok⟩))
  | revise definition routingDigest predecessor reset =>
    obtain ⟨previous, baseline, passed, next, hrevised⟩ := revise_eq_ok hok
    exact Or.inr (Or.inr (Or.inr ⟨definition, routingDigest, predecessor, reset, previous,
      baseline, passed, next, rfl, hrevised⟩))
  | plan blockId e learned resolved =>
    obtain ⟨⟨_, published⟩, hanswer, rfl⟩ := map_eq_ok.mp hok
    rcases applyExperimentPlan_eq_ok h hanswer with
      rfl | ⟨b, enacted, action, -, -, -, -, htransition⟩
    · exact Or.inl (.refl _)
    · exact Or.inr (Or.inl ⟨_, _, htransition⟩)
  | monitoring blockId e monitor =>
    obtain ⟨⟨_, published⟩, hanswer, rfl⟩ := map_eq_ok.mp hok
    rcases applyExperimentMonitoring_eq_ok h hanswer with rfl | ⟨b, -, -, htransition⟩
    · exact Or.inl (.refl _)
    · exact Or.inr (Or.inl ⟨_, _, htransition⟩)
  | restore request =>
    obtain ⟨⟨_, publication⟩, hanswer, rfl⟩ := map_eq_ok.mp hok
    rcases restore_eq_ok h hanswer with rfl | ⟨b, -, -, htransition⟩
    · exact Or.inl (.refl _)
    · exact Or.inr (Or.inl ⟨_, _, htransition⟩)

/-- **Every step has one of the four effects.** -/
theorem Step.effect (h : s.genealogy.Sound P) (hstep : Step P s s') : Effect P s s' := by
  cases hstep with
  | select input enrollment intent hok => exact .drawn (select_drawnState h hok)
  | operation op hok =>
    rcases Operation.effect h hok with hdrawn | ⟨_, _, ht⟩ | ⟨_, _, hr⟩
      | ⟨_, _, _, _, _, _, _, _, -, hr⟩
    · exact .drawn hdrawn
    · exact .transition _ _ ht
    · exact .registered _ _ hr
    · exact .revised _ _ _ _ _ _ _ hr

/-! ## Transitions keep lineages and move statuses -/

namespace Transition

variable (h : s.genealogy.Sound P) (ht : Transition P s s' b next) {x : BlockState}

include h ht

theorem rewriteAt_lineage (hx : x ∈ s.experiments) :
    (rewriteAt b.experimentId (fun _ => next) x).lineage = x.lineage := by
  unfold rewriteAt
  split
  · next heq => rw [ht.lineage, eq_of_experimentId h hx ht.mem heq]
  · rfl

theorem became_lineage (hx : x ∈ s.experiments) : (became P b next x).lineage = x.lineage := by
  have hat := ht.rewriteAt_lineage h hx
  unfold became
  split
  · rw [withdrawal_lineage, hat]
  · exact hat

theorem genealogy_eq : s'.genealogy = s.genealogy :=
  ht.rewrites.genealogy_eq fun _ hx => ht.became_lineage h hx

theorem became_moves (hunpaused : ∀ x ∈ s.experiments, x.status ≠ .paused)
    (hx : x ∈ s.experiments) : Moves x.status (became P b next x).status := by
  have hat : Moves x.status (rewriteAt b.experimentId (fun _ => next) x).status := by
    unfold rewriteAt
    split
    · next heq =>
      rw [eq_of_experimentId h hx ht.mem heq]
      exact ht.moves (hunpaused b ht.mem)
    · exact .same _
  unfold became withdrawal
  split
  · split
    · exact Moves.to_rolledBack (hunpaused x hx)
    · exact hat
  · exact hat

/-- **An ancestor is rolled back together with all that rests on it**: it is the
experiment that makes the transition, or was built on it. -/
theorem cause {a : BlockState} (hx : x ∈ s.experiments) (ha : a ∈ s.experiments)
    (hmem : a.experimentId ∈ x.baselineAncestry) (hbefore : a.status ≠ .rolledBack)
    (hstatus : (became P b next a).status = .rolledBack) :
    next.status = .rolledBack ∧ b.experimentId ∈ x.baselineAncestry := by
  unfold became withdrawal at hstatus
  split at hstatus
  · next hnext =>
    refine ⟨hnext, ?_⟩
    split at hstatus
    · next hbuilt =>
      have hancestors : (rewriteAt b.experimentId (fun _ => next) a).baselineAncestry
          = a.baselineAncestry := congrArg (·.ancestry) (ht.rewriteAt_lineage h ha)
      rw [hancestors] at hbuilt
      obtain ⟨a', ha', hfound⟩ := exists_ancestor h hx hmem
      obtain ⟨hmem', -, hid'⟩ := (experiment_eq_some h).mp hfound
      obtain rfl := eq_of_experimentId h hmem' ha hid'
      exact h.ancestry_trans (has_lineage hx) hmem (archive_of_archived ha') hbuilt
    · unfold rewriteAt at hstatus
      split at hstatus
      · next heq => exact heq ▸ hmem
      · exact absurd hstatus hbefore
  · next hnext =>
    unfold rewriteAt at hstatus
    split at hstatus
    · exact absurd hstatus hnext
    · exact absurd hstatus hbefore

end Transition

theorem Moves.of_rolledBack {status : BlockStatus} (h : Moves .rolledBack status) :
    status = .rolledBack := by
  cases h
  rfl

theorem Moves.ne_paused {status status' : BlockStatus} (h : Moves status status')
    (hstatus : status ≠ .paused) : status' ≠ .paused := by
  cases h <;> simp_all

/-! ## The invariant -/

/-- **A sound control state.** -/
structure ControlState.Sound (P : Primitives) (s : ControlState) : Prop where
  genealogy : s.genealogy.Sound P
  unpaused : ∀ b ∈ s.experiments, b.status ≠ .paused
  withdrawn : ∀ b ∈ s.experiments, ∀ a ∈ s.experiments,
    a.experimentId ∈ b.baselineAncestry → a.status = .rolledBack → b.status = .rolledBack

namespace ControlState.Sound

theorem default : ControlState.default.Sound P := by
  have hnone : ∀ b, b ∉ ControlState.default.experiments := by
    intro b hb
    rcases mem_experiments.mp hb with ⟨k, hk⟩ | ⟨k, a, hk, -⟩
    · exact absurd ((StrMap.getElem?_empty k).symm.trans hk) (by simp)
    · exact absurd ((StrMap.getElem?_empty k).symm.trans hk) (by simp)
  refine ⟨?_, fun b hb => absurd hb (hnone b), fun b hb => absurd hb (hnone b)⟩
  have hempty : ControlState.default.genealogy = ⟨fun _ => none, fun _ => none⟩ := rfl
  exact Genealogy.sound_empty

variable (h : s.Sound P)

include h

theorem drawn (hdrawn : DrawnState s s') : s'.Sound P := by
  have hgenealogy := hdrawn.genealogy_eq
  obtain ⟨f, hf, hdrawn⟩ := hdrawn
  refine ⟨hgenealogy ▸ h.genealogy, ?_, ?_⟩
  · intro b' hb'
    obtain ⟨b, hb, rfl⟩ := hf.mem_iff.mp hb'
    rw [(hdrawn b hb).status]
    exact h.unpaused b hb
  · intro b' hb' a' ha' hmem hstatus
    obtain ⟨b, hb, rfl⟩ := hf.mem_iff.mp hb'
    obtain ⟨a, ha, rfl⟩ := hf.mem_iff.mp ha'
    have hid : (f a).experimentId = a.experimentId :=
      congrArg (·.experimentId) (hdrawn a ha).lineage
    have hancestry : (f b).baselineAncestry = b.baselineAncestry :=
      congrArg (·.ancestry) (hdrawn b hb).lineage
    rw [(hdrawn a ha).status] at hstatus
    rw [hid, hancestry] at hmem
    rw [(hdrawn b hb).status]
    exact h.withdrawn b hb a ha hmem hstatus

/-- **An experiment that is rolled back takes its descendants with it.** -/
theorem transition (ht : Transition P s s' b next) : s'.Sound P := by
  refine ⟨ht.genealogy_eq h.genealogy ▸ h.genealogy, ?_, ?_⟩
  · intro x' hx'
    obtain ⟨x, hx, rfl⟩ := ht.rewrites.mem_iff.mp hx'
    exact (ht.became_moves h.genealogy h.unpaused hx).ne_paused (h.unpaused x hx)
  · intro x' hx' a' ha' hmem hstatus
    obtain ⟨x, hx, rfl⟩ := ht.rewrites.mem_iff.mp hx'
    obtain ⟨a, ha, rfl⟩ := ht.rewrites.mem_iff.mp ha'
    have hid : (became P b next a).experimentId = a.experimentId :=
      congrArg (·.experimentId) (ht.became_lineage h.genealogy ha)
    have hancestry : (became P b next x).baselineAncestry = x.baselineAncestry :=
      congrArg (·.ancestry) (ht.became_lineage h.genealogy hx)
    rw [hid, hancestry] at hmem
    by_cases hbefore : a.status = .rolledBack
    · have hmoves := ht.became_moves h.genealogy h.unpaused hx
      rw [h.withdrawn x hx a ha hmem hbefore] at hmoves
      exact hmoves.of_rolledBack
    · have hcause := ht.cause h.genealogy hx ha hmem hbefore hstatus
      have hat : (rewriteAt b.experimentId (fun _ => next) x).baselineAncestry
          = x.baselineAncestry :=
        congrArg (·.ancestry) (ht.rewriteAt_lineage h.genealogy hx)
      unfold became withdrawal
      rw [if_pos hcause.1, if_pos (hat ▸ hcause.2)]
      rfl

theorem registered {definition : BlockDefinition} {configDigest : String}
    (hr : Registered P s s' definition configDigest) : s'.Sound P := by
  refine ⟨hr.sound h.genealogy, ?_, ?_⟩
  · intro b hb
    rcases hr.mem_iff.mp hb with hb | rfl
    · exact h.unpaused b hb
    · simp [registeredBlock]
  · intro b hb a ha hmem hstatus
    rcases hr.mem_iff.mp hb with hb | rfl
    · rcases hr.mem_iff.mp ha with ha | rfl
      · exact h.withdrawn b hb a ha hmem hstatus
      · exact absurd hstatus (by simp [registeredBlock])
    · exact absurd hmem (by simp [registeredBlock])

/-- **A revision rests on adopted experiments only.** -/
theorem revised {previous baseline : BlockState} {definition : BlockDefinition}
    {routingDigest : String} {reset : Bool} {passed : List String}
    (hr : Revised P s s' previous definition routingDigest reset baseline passed next) :
    s'.Sound P := by
  have hexploring : next.status = .exploring := by
    rw [hr.next_eq]
    rfl
  have hprevious : previous ∈ s.experiments := mem_of_blocks hr.current
  -- the ancestors passed are supported, hence adopted
  have hpassed : ∀ e ∈ passed, ∀ a ∈ s.experiments, a.experimentId = e →
      a.status = .adopted := by
    intro e he a ha hid
    have hsupports : s.supports a = true := by
      cases baseline_of_ok h.genealogy hprevious hr.supported with
      | valid hall =>
        obtain ⟨a', -, hfound⟩ := exists_ancestor h.genealogy hprevious he
        obtain ⟨hmem', -, hid'⟩ := (experiment_eq_some h.genealogy).mp hfound
        obtain rfl := eq_of_experimentId h.genealogy hmem' ha (hid'.trans hid.symm)
        exact hall e he _ hfound
      | lost _ e' after _ hsplit _ _ hall =>
        have he' : e ∈ previous.baselineAncestry := by
          rw [hsplit]
          exact List.mem_append_left _ he
        obtain ⟨a', -, hfound⟩ := exists_ancestor h.genealogy hprevious he'
        obtain ⟨hmem', -, hid'⟩ := (experiment_eq_some h.genealogy).mp hfound
        obtain rfl := eq_of_experimentId h.genealogy hmem' ha (hid'.trans hid.symm)
        exact hall e he _ hfound
    exact of_decide_eq_true ((Bool.and_eq_true _ _).mp hsupports).1
  refine ⟨hr.sound h.genealogy, ?_, ?_⟩
  · intro b hb
    rcases (hr.mem_iff h.genealogy).mp hb with hb | rfl
    · exact h.unpaused b hb
    · simp [hexploring]
  · intro b hb a ha hmem hstatus
    rcases (hr.mem_iff h.genealogy).mp ha with ha | rfl
    · rcases (hr.mem_iff h.genealogy).mp hb with hb | rfl
      · exact h.withdrawn b hb a ha hmem hstatus
      · -- an ancestor of the next experiment is adopted
        rcases hr.ancestry_eq h.genealogy with ⟨-, hnil⟩ | ⟨hinherits, rfl, -, hconcat⟩
          | ⟨-, -, hpart⟩
        · exact absurd hmem (by simp [hnil])
        · rw [hconcat, List.mem_append, List.mem_singleton] at hmem
          obtain ⟨-, hpassedEq⟩ := hr.baseline_of_inherits h.genealogy hinherits
          rcases hmem with hmem | hmem
          · exact absurd ((hpassed _ (hpassedEq ▸ hmem) a ha rfl).symm.trans hstatus) (by simp)
          · obtain rfl := eq_of_experimentId h.genealogy ha hprevious hmem
            unfold inheritsAdoption at hinherits
            simp only [Bool.and_eq_true, decide_eq_true_eq] at hinherits
            exact absurd (hinherits.1.2.symm.trans hstatus) (by simp)
        · rw [hpart] at hmem
          exact absurd ((hpassed _ hmem a ha rfl).symm.trans hstatus) (by simp)
    · exact absurd (hexploring.symm.trans hstatus) (by simp)

/-- **A step keeps the state sound.** -/
theorem step (hstep : Step P s s') : s'.Sound P := by
  cases hstep.effect h.genealogy with
  | drawn hdrawn => exact h.drawn hdrawn
  | transition b next ht => exact h.transition ht
  | registered _ _ hr => exact h.registered hr
  | revised _ _ _ _ _ _ _ hr => exact h.revised hr

end ControlState.Sound

/-- The control states an owner can get to. -/
def Reachable (P : Primitives) : ControlState → Prop :=
  Relation.ReflTransGen (Step P) ControlState.default

theorem Reachable.sound (h : Reachable P s) : s.Sound P := by
  induction h with
  | refl => exact .default
  | tail _ hstep ih => exact ih.step hstep

/-- What changes a control state: an operation, or the selection of a route. -/
inductive Move where
  | operation (op : Operation)
  | select (input : Input)

def Move.apply (P : Primitives) (s : ControlState) : Move → Except String ControlState
  | operation op => op.apply P s
  | select input => (s.select P input).map (·.1)

theorem Step.of_move {move : Move} (h : move.apply P s = .ok s') : Step P s s' := by
  cases move with
  | operation op => exact .operation op h
  | select input =>
    obtain ⟨⟨_, enrollment, intent⟩, hok, rfl⟩ := map_eq_ok.mp h
    exact .select input enrollment intent hok

theorem Reachable.of_moves {moves : List Move} (h : Reachable P s)
    (hok : moves.foldlM (Move.apply P) s = .ok s') : Reachable P s' :=
  foldlM_ok_preserves (fun _ _ _ _ hreach hmove => hreach.tail (.of_move hmove)) h hok

/-! ## What an owner can rely on -/

/-- **Every experiment of a control state can be traced** to what it follows and
what it rests on. -/
structure ControlState.Traceable (s : ControlState) : Prop where
  predecessor : ∀ b ∈ s.experiments, ∀ p ∈ b.predecessorExperimentId, ∃ a,
    s.experiment b.definition.blockId (some p) = some a ∧ a.experimentId = p
      ∧ a.definition.blockId = b.definition.blockId
  ancestor : ∀ b ∈ s.experiments, ∀ e ∈ b.baselineAncestry, ∃ a,
    s.experiment b.definition.blockId (some e) = some a ∧ a.experimentId = e
      ∧ a.definition.blockId = b.definition.blockId
  /-- A chain of predecessors ends, and never returns. -/
  acyclic : WellFounded fun p e : String =>
    ∃ b ∈ s.experiments, b.experimentId = e ∧ b.predecessorExperimentId = some p
  cold : ∀ b ∈ s.experiments, b.baselineAncestry = [] → ∀ rule ∈ b.definition.rules,
    rule.baselineRoute = rule.selector
  inherited : ∀ b ∈ s.experiments, ∀ e ∈ b.baselineAncestry.getLast?,
    ∀ rule ∈ b.definition.rules, ∃ a old,
      s.experiment b.definition.blockId (some e) = some a
        ∧ a.definition.ruleOf rule.matcher = some old ∧ rule.baselineRoute = old.challengerRoute
  withdrawn : ∀ b ∈ s.experiments, ∀ e ∈ b.baselineAncestry, ∀ a,
    s.experiment b.definition.blockId (some e) = some a → a.status = .rolledBack →
      b.status = .rolledBack
  original : ∀ (id : String) b, s.blocks[id]? = some b →
    ∃ first, s.originalExperiment id = .ok first
  /-- The baseline of an experiment is found, and the rules of the block in it. -/
  baseline : ∀ b ∈ s.experiments, ∃ baseline passed, s.baselineSource b = .ok (baseline, passed)
    ∧ ∀ rule : BlockRule, rule.matcher ∈ b.definition.matchers →
      ∃ old, baseline.definition.ruleOf rule.matcher = some old

/-- The walk to the first experiment of a block. What it has seen ranks no lower
than where it is, so it never returns; and it has seen experiments of the state,
so it ends. -/
theorem exists_originalFrom (h : s.genealogy.Sound P) {rank : String → ℕ}
    (hrank : ∀ l, s.genealogy.Has l → ∀ p ∈ l.predecessor, rank p < rank l.experimentId)
    {id : String} (fuel : ℕ) (seen : List String) (hb : b ∈ s.experiments)
    (hid : b.definition.blockId = id) (hnodup : seen.Nodup)
    (hseen : ∀ e ∈ seen, e ∈ s.experiments.map (·.experimentId) ∧ rank b.experimentId ≤ rank e)
    (hfuel : fuel + seen.length = s.experiments.length + 1) :
    ∃ first, s.originalFrom id fuel seen b = .ok first := by
  induction fuel generalizing seen b with
  | zero =>
    have hle : seen.length ≤ (s.experiments.map (·.experimentId)).length :=
      (List.subperm_of_subset hnodup fun e he => (hseen e he).1).length_le
    rw [List.length_map] at hle
    omega
  | succ fuel ih =>
    unfold originalFrom
    cases hpred : b.predecessorExperimentId with
    | none => exact ⟨b, rfl⟩
    | some p =>
      have hlower : rank p < rank b.experimentId := hrank b.lineage (has_lineage hb) p hpred
      have hnew : p ∉ seen := fun hp => absurd (hseen p hp).2 (Nat.not_le.mpr hlower)
      obtain ⟨l, hl, hblock⟩ := h.predecessor b.lineage (has_lineage hb) p hpred
      obtain ⟨a, ha, rfl⟩ := exists_of_archive hl
      have hblock : a.block.definition.blockId = id := hblock.trans hid
      have hp : a.block.experimentId = p := experimentId_of_archived h ha
      have hfound : s.experiment id (some p) = some a.block :=
        (experiment_eq_some h).mpr ⟨mem_of_archived ha, hblock, hp⟩
      dsimp only
      rw [if_neg hnew, hfound]
      refine ih (p :: seen) (mem_of_archived ha) hblock (List.nodup_cons.mpr ⟨hnew, hnodup⟩) ?_ ?_
      · intro e he
        rcases List.mem_cons.mp he with rfl | he
        · exact ⟨List.mem_map.mpr ⟨a.block, mem_of_archived ha, hp⟩, by rw [hp]⟩
        · exact ⟨(hseen e he).1, hp ▸ hlower.le.trans (hseen e he).2⟩
      · rw [List.length_cons]
        omega

/-- **A sound state is traceable.** -/
theorem ControlState.Sound.traceable (h : s.Sound P) : s.Traceable := by
  have hsound := h.genealogy
  have hresolve : ∀ b ∈ s.experiments, ∀ e ∈ b.baselineAncestry, ∃ a,
      s.experiment b.definition.blockId (some e) = some a ∧ a.experimentId = e
        ∧ a.definition.blockId = b.definition.blockId := by
    intro b hb e he
    obtain ⟨a, -, hfound⟩ := exists_ancestor hsound hb he
    obtain ⟨-, hblock, hid⟩ := (experiment_eq_some hsound).mp hfound
    exact ⟨a.block, hfound, hid, hblock⟩
  obtain ⟨rank, hrank⟩ := hsound.ranked
  refine
    { predecessor := ?_, ancestor := hresolve, acyclic := ?_, cold := ?_, inherited := ?_,
      withdrawn := ?_, original := ?_, baseline := ?_ }
  · intro b hb p hp
    obtain ⟨l, hl, hblock⟩ := hsound.predecessor b.lineage (has_lineage hb) p hp
    obtain ⟨a, ha, rfl⟩ := exists_of_archive hl
    have hid := experimentId_of_archived hsound ha
    exact ⟨a.block, (experiment_eq_some hsound).mpr ⟨mem_of_archived ha, hblock, hid⟩, hid, hblock⟩
  · refine Subrelation.wf (fun {p e} hpe => ?_) (measure rank).wf
    obtain ⟨b, hb, rfl, hp⟩ := hpe
    exact hrank b.lineage (has_lineage hb) p hp
  · intro b hb hnil rule hrule
    have hroute := hsound.inherits b.lineage (has_lineage hb) rule hrule
    have hlineage : b.lineage.ancestry = [] := hnil
    rw [hlineage] at hroute
    exact (Option.some.inj hroute).symm
  · intro b hb e he rule hrule
    have hroute := hsound.inherits b.lineage (has_lineage hb) rule hrule
    have hlast : b.lineage.ancestry.getLast? = some e := he
    unfold Genealogy.inherited at hroute
    rw [hlast] at hroute
    obtain ⟨old, hold, hroute⟩ := Option.map_eq_some_iff.mp hroute
    obtain ⟨l, hl, hold⟩ := Option.bind_eq_some_iff.mp hold
    obtain ⟨a, ha, hfound⟩ := exists_ancestor hsound hb (List.mem_of_getLast? he)
    obtain rfl := Option.some.inj (hl.symm.trans (archive_of_archived ha))
    exact ⟨a.block, old, hfound, hold, hroute.symm⟩
  · intro b hb e he a ha hstatus
    obtain ⟨hmem, -, hid⟩ := (experiment_eq_some hsound).mp ha
    exact h.withdrawn b hb a hmem (hid ▸ he) hstatus
  · intro id b hb
    have hwalk := exists_originalFrom hsound hrank (s.experiments.length + 1) []
      (mem_of_blocks hb) (blockId_of_blocks hsound hb) List.nodup_nil (by simp) rfl
    obtain ⟨first, hfirst⟩ := hwalk
    refine ⟨first, bind_eq_ok.mpr ⟨b, orFail_eq_ok.mpr hb, hfirst⟩⟩
  · intro b hb
    obtain ⟨baseline, passed, hok, hbaseline⟩ := exists_baselineSource hsound hb
    exact ⟨baseline, passed, hok, fun rule hrule => hbaseline.exists_rule hsound hb hrule⟩

/-- **A step keeps every experiment**, and moves its status forward only. -/
theorem ControlState.Sound.step_moves (h : s.Sound P) (hstep : Step P s s')
    (hb : b ∈ s.experiments) :
    ∃ b' ∈ s'.experiments, b'.lineage = b.lineage ∧ Moves b.status b'.status := by
  cases hstep.effect h.genealogy with
  | drawn hdrawn =>
    obtain ⟨f, hf, hdrawn⟩ := hdrawn
    exact ⟨f b, hf.mem_iff.mpr ⟨b, hb, rfl⟩, (hdrawn b hb).lineage,
      (hdrawn b hb).status ▸ .same _⟩
  | transition x next ht =>
    exact ⟨became P x next b, ht.rewrites.mem_iff.mpr ⟨b, hb, rfl⟩,
      ht.became_lineage h.genealogy hb, ht.became_moves h.genealogy h.unpaused hb⟩
  | registered _ _ hr => exact ⟨b, hr.mem_iff.mpr (Or.inl hb), rfl, .same _⟩
  | revised _ _ _ _ _ _ _ hr =>
    exact ⟨b, (hr.mem_iff h.genealogy).mpr (Or.inl hb), rfl, .same _⟩

/-! ## A sample run

Two blocks, one depending on the other, which is adopted, loses the revision it
was registered against, and is revised. -/

namespace Sample

def prior : MeanPrior := ⟨1 / 2, 1, 1⟩

def bandit : BanditConfig where
  priorVersion := "v1"
  baseline := ⟨prior, prior, prior⟩
  challenger := ⟨prior, prior, prior⟩
  minimumQualityPpm := 0
  noninferiorityMarginPpm := 0
  maximumLatencyIncreasePpm := 0
  promotionProbabilityPpm := 900000
  minimumFamiliesPerArm := 1
  initialExposurePpm := 500000
  maximumExposurePpm := 500000
  minimumExposurePpm := 100000
  maximumPendingChallenger := 2
  maximumChallengerSessions := 4
  posteriorDraws := 128
  recentGuardFamilies := 1
  recentGuardMinimumFamilies := 1

/-- A block of one rule, whose trials end with their first session. -/
def block (id selector challenger : String) (dependencies : List (String × String)) :
    BlockDefinition where
  blockId := id
  source := "codex"
  rationale := "cheaper"
  rules := [⟨selector, none, selector, challenger⟩]
  independenceRationale := "one rule"
  dependencies := dependencies
  measurementContract := "m1"
  batchSessions := 1
  bandit := bandit

def search : BlockDefinition := block "search" "web" "web-fast" []

def code : BlockDefinition := block "code" "main" "fast" [("search", "d")]

/-- `code` again, on the search that was restored. -/
def revisedCode : BlockDefinition := block "code" "main" "faster" [("search", "dddd")]

def table : List Preimage :=
  [ .pair "" "",
    .definition search "r",
    .definition code "r",
    .config bandit,
    .triple "d" "operator_restore" "slow",
    .experiment "d" 0,
    .experiment "dd" 0,
    .triple "dd" "promote" "p1",
    .pair "dddddd" "s1",
    .revision "dddddd" revisedCode "r" [] ]

noncomputable def primitives : Primitives := .ofTable table fun _ => 0

def identity : SessionIdentity := ⟨"o", "codex", "n1"⟩

def context : DecisionContext := ⟨"main", "f"⟩

def input : Input where
  sessionKey := "s1"
  identity := identity
  requestId := "q1"
  context := context
  dependencies := ⟨StrMap.ofPairs [("code", "r")], ∅, true, none⟩
  bypass := none
  watermark := 0
  enrollment := ⟨identity, 0, "q1", context, ∅, some (StrMap.ofPairs [("code", "dddddd")]), ∅, ∅,
    "new_session"⟩
  isNew := true
  seed := fun _ => 0
  recordedAt := ""

def promotion : BatchPlan where
  learnerVersion := LEARNER_VERSION
  planId := "p1"
  evidenceDigest := "e1"
  measurementContract := "m1"
  configDigest := "ddd"
  challengerPropensityPpm := 500000
  challenger := ⟨1, 0⟩
  recommendation := .promote

def restoration : Operation := .restore ⟨"search", "ddddd", "d", "slow"⟩

def openings : List Operation :=
  [.register search "r", .register code "r", .setMode .manual none "now"]

def moves : List Move :=
  openings.map .operation ++ [
    .select input,
    .operation (.plan "code" "dddddd" promotion true),
    .operation restoration,
    .operation (.revise revisedCode "r" "dddddd" false) ]

end Sample

/-- **In every state an owner can get to, every experiment can be traced**, and
from it on a status only moves forward. -/
theorem reachable_traceable (P : Primitives) (s : ControlState) (h : Reachable P s) :
    s.Traceable ∧ ∀ s', Step P s s' → ∀ b ∈ s.experiments,
      ∃ b' ∈ s'.experiments, b'.lineage = b.lineage ∧ Moves b.status b'.status :=
  ⟨h.sound.traceable, fun _ hstep _ hb => h.sound.step_moves hstep hb⟩

/-- The sample run, and what it leaves. -/
theorem reachable_traceable_revised :
    ∃ s, Sample.moves.foldlM (Move.apply Sample.primitives) .default = .ok s
      ∧ s.Traceable ∧ ∀ s', Step Sample.primitives s s' → ∀ b ∈ s.experiments,
        ∃ b' ∈ s'.experiments, b'.lineage = b.lineage ∧ Moves b.status b'.status := by
  have hrun : (Sample.moves.foldlM (Move.apply Sample.primitives) .default).isOk = true := by
    decide +kernel
  obtain ⟨s, hok⟩ := exists_ok_of_isOk hrun
  exact ⟨s, hok, reachable_traceable Sample.primitives s (Reachable.of_moves .refl hok)⟩

end BitRouter.Evolution
