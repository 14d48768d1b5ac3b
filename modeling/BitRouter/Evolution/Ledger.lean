import BitRouter.Evolution.Descent

/-!
# Enrollments and the trials they are drawn into

The enrollments of the sessions are stored beside the control state, and the
trials of the experiments count them: how many challengers an experiment has
been given, and who is in its current batch. The account of the trials says
that both agree, and that no limit is exceeded.
-/

namespace BitRouter.Evolution

open ControlState

/-! ## The account -/

/-- An exposure inside the bounds of a block. -/
def BanditConfig.Admits (config : BanditConfig) (exposurePpm : ℕ) : Prop :=
  config.minimumExposurePpm ≤ exposurePpm ∧ exposurePpm ≤ config.maximumExposurePpm

instance (config : BanditConfig) : DecidablePred config.Admits :=
  fun _ => inferInstanceAs (Decidable (_ ∧ _))

def SessionEnrollment.challenges (enrollment : SessionEnrollment) (experiment : String) : Bool :=
  enrollment.assignments.toList.any fun (_, assignment) =>
    assignment.experimentId = experiment && assignment.arm = Arm.challenger

def challengers (enrollments : StrMap SessionEnrollment) (experiment : String) : ℕ :=
  StrMap.count (·.challenges experiment) enrollments

/-- A session was drawn into a batch of an experiment. -/
def Member (enrollments : StrMap SessionEnrollment) (experiment : String) (sequence : ℕ)
    (session : String) (arm : Arm) : Prop :=
  ∃ (enrollment : SessionEnrollment) (id : String) (assignment : BlockAssignment),
    enrollments[session]? = some enrollment
    ∧ enrollment.assignments[id]? = some assignment ∧ assignment.experimentId = experiment
    ∧ assignment.batchSequence = sequence ∧ assignment.arm = arm

/-- **The trial of an experiment and the enrollments agree**, inside its limits. -/
structure TrialAccount (enrollments : StrMap SessionEnrollment) (b : BlockState) : Prop where
  counted : b.assignedChallengerSessions = challengers enrollments b.experimentId
  within : b.assignedChallengerSessions ≤ b.definition.bandit.maximumChallengerSessions
  members : ∀ (session : String) arm, b.batch.members[session]? = some arm
    ↔ Member enrollments b.experimentId b.batch.sequence session arm
  size : b.batch.members.size ≤ b.definition.batchSessions
  pending : b.pendingCandidates ≤ b.definition.bandit.maximumPendingChallenger
  /-- An open batch has room. -/
  room : b.batch.closed = false → b.batch.members.size < b.definition.batchSessions
    ∧ b.pendingCandidates < b.definition.bandit.maximumPendingChallenger
  exposure : b.definition.bandit.Admits b.lastExposurePpm

/-- **What an assignment records**: an experiment of its block, one of its
batches, and the draw. -/
structure Recorded (P : Primitives) (s : ControlState) (id : String) (a : BlockAssignment) :
    Prop where
  draw : P.drawAssignment a.challengerPropensityPpm a.randomSeed = .ok a.arm
  experiment : ∃ b ∈ s.experiments, b.experimentId = a.experimentId ∧ b.definition.blockId = id
    ∧ a.batchSequence ≤ b.batch.sequence
    ∧ b.definition.bandit.Admits a.challengerPropensityPpm

/-- A number an enrollment has been given, for a trial or for monitoring. -/
inductive Slot where
  | assignment (id : String)
  | monitoring (id : String)
deriving DecidableEq

def SessionEnrollment.number (enrollment : SessionEnrollment) : Slot → Option ℕ
  | .assignment id => enrollment.assignments[id]?.map (·.assignmentSequence)
  | .monitoring id => enrollment.monitoring[id]?.map (·.assignmentSequence)

/-- **Every number is given once.** -/
structure Numbered (enrollments : StrMap SessionEnrollment) (last : ℕ) : Prop where
  bound : ∀ (session : String) slot n,
    (enrollments[session]?.bind (·.number slot)) = some n → n ≤ last
  distinct : ∀ (session session' : String) slot slot' n,
    (enrollments[session]?.bind (·.number slot)) = some n →
    (enrollments[session']?.bind (·.number slot')) = some n → session = session' ∧ slot = slot'

/-- **The account of the trials of an owner.** -/
structure Accounted (P : Primitives) (s : ControlState) (enrollments : StrMap SessionEnrollment) :
    Prop where
  sound : s.Sound P
  recorded : ∀ (session : String) enrollment, enrollments[session]? = some enrollment →
    ∀ (id : String) a, enrollment.assignments[id]? = some a → Recorded P s id a
  trials : ∀ b ∈ s.experiments, TrialAccount enrollments b
  numbered : Numbered enrollments s.nextAssignmentSequence

variable {P : Primitives} {s s' : ControlState} {b b' next : BlockState}
  {enrollments : StrMap SessionEnrollment}

theorem BlockDefinition.limits_of_validate {definition : BlockDefinition}
    (h : definition.validate = .ok ()) : 0 < definition.batchSessions
      ∧ 0 < definition.bandit.maximumPendingChallenger
      ∧ definition.bandit.Admits definition.bandit.initialExposurePpm := by
  obtain ⟨_, -, h⟩ := bind_eq_ok.mp h
  obtain ⟨_, -, h⟩ := bind_eq_ok.mp h
  obtain ⟨_, hsize, h⟩ := bind_eq_ok.mp h
  obtain ⟨_, -, h⟩ := bind_eq_ok.mp h
  obtain ⟨_, -, h⟩ := bind_eq_ok.mp h
  obtain ⟨_, -, h⟩ := bind_eq_ok.mp h
  obtain ⟨_, -, h⟩ := bind_eq_ok.mp h
  obtain ⟨_, -, h⟩ := bind_eq_ok.mp h
  obtain ⟨_, -, h⟩ := bind_eq_ok.mp h
  obtain ⟨_, -, h⟩ := bind_eq_ok.mp h
  obtain ⟨_, -, h⟩ := bind_eq_ok.mp h
  obtain ⟨_, hexposure, h⟩ := bind_eq_ok.mp h
  obtain ⟨-, hlow, hhigh, -⟩ := ensure_eq_ok.mp hexposure
  obtain ⟨-, hpending, -⟩ := ensure_eq_ok.mp h
  exact ⟨(ensure_eq_ok.mp hsize).1, hpending, hlow, hhigh⟩

/-! ## Operations -/

/-- **What an operation may do to the trial of an experiment**: nothing, or start
its next batch. -/
inductive Readmitted (b b' : BlockState) : Prop
  | kept : b'.lineage = b.lineage → b'.batch = b.batch →
    b'.assignedChallengerSessions = b.assignedChallengerSessions →
    b'.lastExposurePpm = b.lastExposurePpm → Readmitted b b'
  | cohort : b'.lineage = b.lineage →
    b'.batch = { EnrollmentBatch.default with sequence := b.batch.sequence + 1 } →
    b'.assignedChallengerSessions = b.assignedChallengerSessions →
    (b.definition.bandit.Admits b.lastExposurePpm →
      b.definition.bandit.Admits b'.lastExposurePpm) → Readmitted b b'

namespace Readmitted

theorem refl (b : BlockState) : Readmitted b b := .kept rfl rfl rfl rfl

theorem lineage (h : Readmitted b b') : b'.lineage = b.lineage := by
  cases h with
  | kept hlineage _ _ _ => exact hlineage
  | cohort hlineage _ _ _ => exact hlineage

theorem sequence_le (h : Readmitted b b') : b.batch.sequence ≤ b'.batch.sequence := by
  cases h with
  | kept _ hbatch _ _ => rw [hbatch]
  | cohort _ hbatch _ _ =>
    rw [hbatch]
    exact Nat.le_succ _

/-- What only changes the revision or the status changes no trial. -/
theorem of_fields {b'' : BlockState} (h : Readmitted b b') (hlineage : b''.lineage = b'.lineage)
    (hbatch : b''.batch = b'.batch)
    (hassigned : b''.assignedChallengerSessions = b'.assignedChallengerSessions)
    (hexposure : b''.lastExposurePpm = b'.lastExposurePpm) : Readmitted b b'' := by
  cases h with
  | kept hl hb ha he =>
    exact .kept (hlineage.trans hl) (hbatch.trans hb) (hassigned.trans ha) (hexposure.trans he)
  | cohort hl hb ha he =>
    exact .cohort (hlineage.trans hl) (hbatch.trans hb) (hassigned.trans ha)
      (fun hadmits => hexposure ▸ he hadmits)

theorem withdrawal (h : Readmitted b b') (withdrawn : String) :
    Readmitted b (withdrawal P withdrawn b') := by
  refine h.of_fields (withdrawal_lineage withdrawn b') ?_ ?_ ?_ <;>
    unfold BitRouter.Evolution.withdrawal <;> split <;> rfl

end Readmitted

theorem Transition.readmitted (h : s.genealogy.Sound P) (ht : Transition P s s' b next)
    (hnext : Readmitted b next) {x : BlockState} (hx : x ∈ s.experiments) :
    Readmitted x (became P b next x) := by
  have hat : Readmitted x (rewriteAt b.experimentId (fun _ => next) x) := by
    unfold rewriteAt
    split
    · next heq => exact eq_of_experimentId h hx ht.mem heq ▸ hnext
    · exact .refl x
  unfold became
  split
  · exact hat.withdrawal _
  · exact hat

/-- An experiment more, whose trial has not begun. -/
structure Grown (s s' : ControlState) (next : BlockState) : Prop where
  mem : ∀ b, b ∈ s'.experiments ↔ b ∈ s.experiments ∨ b = next
  new : ∀ b ∈ s.experiments, b.experimentId ≠ next.experimentId
  batch : next.batch = .default
  assigned : next.assignedChallengerSessions = 0
  exposure : next.lastExposurePpm = next.definition.bandit.initialExposurePpm

namespace Accounted

theorem eq_of_assigned (h : Accounted P s enrollments) {session id : String}
    {enrollment : SessionEnrollment} {a : BlockAssignment}
    (he : enrollments[session]? = some enrollment) (ha : enrollment.assignments[id]? = some a)
    (hb : b ∈ s.experiments) (heq : a.experimentId = b.experimentId) :
    b.definition.blockId = id ∧ a.batchSequence ≤ b.batch.sequence
      ∧ b.definition.bandit.Admits a.challengerPropensityPpm := by
  obtain ⟨x, hx, hid, hblock, hle, hadmits⟩ := (h.recorded session enrollment he id a ha).experiment
  obtain rfl := eq_of_experimentId h.sound.genealogy hx hb (hid.trans heq)
  exact ⟨hblock, hle, hadmits⟩

/-- **Rewriting the experiments keeps the account**, when each keeps its trial or
starts its next batch. -/
theorem rewritten (h : Accounted P s enrollments) {f : BlockState → BlockState}
    (hf : Rewrites f s s') (hreadmitted : ∀ b ∈ s.experiments, Readmitted b (f b))
    (hsound : s'.Sound P) (hlast : s'.nextAssignmentSequence = s.nextAssignmentSequence) :
    Accounted P s' enrollments := by
  refine ⟨hsound, ?_, ?_, hlast ▸ h.numbered⟩
  · intro session enrollment he id a ha
    obtain ⟨hdraw, b, hb, hid, hblock, hle, hadmits⟩ := h.recorded session enrollment he id a ha
    have hlineage := (hreadmitted b hb).lineage
    have hdefinition : (f b).definition = b.definition := congrArg (·.definition) hlineage
    refine ⟨hdraw, f b, hf.mem_iff.mpr ⟨b, hb, rfl⟩,
      (congrArg (·.experimentId) hlineage).trans hid, ?_,
      hle.trans (hreadmitted b hb).sequence_le, ?_⟩
    · rw [hdefinition]
      exact hblock
    · rw [hdefinition]
      exact hadmits
  · intro b' hb'
    obtain ⟨b, hb, rfl⟩ := hf.mem_iff.mp hb'
    have htrial := h.trials b hb
    have hlineage := (hreadmitted b hb).lineage
    have hdefinition : (f b).definition = b.definition := congrArg (·.definition) hlineage
    have hid : (f b).experimentId = b.experimentId := congrArg (·.experimentId) hlineage
    cases hreadmitted b hb with
    | kept _ hbatch hassigned hexposure =>
      have hpending : (f b).pendingCandidates = b.pendingCandidates := by
        unfold BlockState.pendingCandidates
        rw [hbatch]
      refine ⟨?_, ?_, ?_, ?_, ?_, ?_, ?_⟩
      · rw [hassigned, hid]
        exact htrial.counted
      · rw [hassigned, hdefinition]
        exact htrial.within
      · rw [hbatch, hid]
        exact htrial.members
      · rw [hbatch, hdefinition]
        exact htrial.size
      · rw [hpending, hdefinition]
        exact htrial.pending
      · rw [hbatch, hpending, hdefinition]
        exact htrial.room
      · rw [hexposure, hdefinition]
        exact htrial.exposure
    | cohort _ hbatch hassigned hexposure =>
      obtain ⟨hsize, hpending, -⟩ := BlockDefinition.limits_of_validate
        (h.sound.genealogy.valid b.lineage (has_lineage hb))
      have hmembers : (f b).batch.members = ∅ := by
        rw [hbatch]
        rfl
      have hnone : (f b).pendingCandidates = 0 := by
        unfold BlockState.pendingCandidates
        rw [hmembers]
        rfl
      have hempty : (f b).batch.members.size = 0 := by
        rw [hmembers]
        rfl
      refine ⟨?_, ?_, ?_, ?_, ?_, ?_, ?_⟩
      · rw [hassigned, hid]
        exact htrial.counted
      · rw [hassigned, hdefinition]
        exact htrial.within
      · -- nobody was drawn into the next batch yet
        intro session arm
        rw [hmembers, hid, hbatch]
        refine iff_of_false (by rw [StrMap.getElem?_empty]; simp) ?_
        rintro ⟨enrollment, id, a, he, ha, heq, hsequence, -⟩
        have hle := (h.eq_of_assigned he ha hb heq).2.1
        have hsequence : a.batchSequence = b.batch.sequence + 1 := hsequence
        omega
      · rw [hempty]
        exact Nat.zero_le _
      · rw [hnone]
        exact Nat.zero_le _
      · intro _
        rw [hempty, hnone, hdefinition]
        exact ⟨hsize, hpending⟩
      · rw [hdefinition]
        exact hexposure htrial.exposure

/-- **A new experiment starts with an empty trial.** -/
theorem grown (h : Accounted P s enrollments) (hsound : s'.Sound P) (hgrown : Grown s s' next)
    (hlast : s'.nextAssignmentSequence = s.nextAssignmentSequence) :
    Accounted P s' enrollments := by
  obtain ⟨hmem, hnew, hbatch, hassigned, hexposure⟩ := hgrown
  refine ⟨hsound, ?_, ?_, hlast ▸ h.numbered⟩
  · intro session enrollment he id a ha
    obtain ⟨hdraw, b, hb, hrest⟩ := h.recorded session enrollment he id a ha
    exact ⟨hdraw, b, (hmem b).mpr (Or.inl hb), hrest⟩
  · intro b hb
    rcases (hmem b).mp hb with hb | rfl
    · exact h.trials b hb
    · obtain ⟨hsize, hpending, hadmits⟩ := BlockDefinition.limits_of_validate
        (hsound.genealogy.valid b.lineage (has_lineage hb))
      -- no enrollment names it
      have hunnamed : ∀ (session : String) enrollment, enrollments[session]? = some enrollment →
          ∀ (id : String) a, enrollment.assignments[id]? = some a →
            a.experimentId ≠ b.experimentId := by
        intro session enrollment he id a ha heq
        obtain ⟨x, hx, hid, -⟩ := (h.recorded session enrollment he id a ha).experiment
        exact hnew x hx (hid.trans heq)
      have hnobody : challengers enrollments b.experimentId = 0 := by
        unfold challengers StrMap.count
        rw [List.length_eq_zero_iff, List.filter_eq_nil_iff]
        rintro ⟨session, enrollment⟩ hentry hchallenges
        obtain ⟨⟨id, a⟩, ha, htest⟩ := List.any_eq_true.mp hchallenges
        simp only [Bool.and_eq_true, decide_eq_true_eq] at htest
        exact hunnamed session enrollment (StrMap.mem_toList.mp hentry) id a
          (StrMap.mem_toList.mp ha) htest.1
      have hnone : b.pendingCandidates = 0 := by
        unfold BlockState.pendingCandidates
        rw [hbatch]
        rfl
      have hempty : b.batch.members.size = 0 := by
        rw [hbatch]
        rfl
      refine ⟨?_, ?_, ?_, ?_, ?_, ?_, ?_⟩
      · rw [hassigned, hnobody]
      · rw [hassigned]
        exact Nat.zero_le _
      · intro session arm
        rw [hbatch]
        refine iff_of_false (by rw [EnrollmentBatch.default, StrMap.getElem?_empty]; simp) ?_
        rintro ⟨enrollment, id, a, he, ha, heq, -⟩
        exact hunnamed session enrollment he id a ha heq
      · rw [hempty]
        exact Nat.zero_le _
      · rw [hnone]
        exact Nat.zero_le _
      · intro _
        rw [hempty, hnone]
        exact ⟨hsize, hpending⟩
      · rw [hexposure]
        exact hadmits

end Accounted

/-- A plan that is published inside the exposure bounds of its experiment, or
holds admission. -/
def Operation.Bounded (s : ControlState) : Operation → Prop
  | plan blockId experiment learned _ => learned.challengerPropensityPpm = 0
    ∨ ∀ b, s.experiment blockId (some experiment) = some b →
      b.definition.bandit.Admits learned.challengerPropensityPpm
  | _ => True

instance (s : ControlState) : DecidablePred (Operation.Bounded s)
  | .plan blockId experiment learned _ =>
    have : Decidable (∀ b, s.experiment blockId (some experiment) = some b →
        b.definition.bandit.Admits learned.challengerPropensityPpm) :=
      decidable_of_iff ((s.experiment blockId (some experiment)).all fun b =>
        b.definition.bandit.Admits learned.challengerPropensityPpm)
        (by cases s.experiment blockId (some experiment) <;> simp)
    inferInstanceAs (Decidable (_ ∨ _))
  | .setMode .. => .isTrue trivial
  | .register .. => .isTrue trivial
  | .revise .. => .isTrue trivial
  | .monitoring .. => .isTrue trivial
  | .restore _ => .isTrue trivial

/-- A published plan keeps the trial, or starts the next batch at its exposure. -/
theorem readmitted_of_enact {plan : BatchPlan} {archived resolved : Bool} {enacted : BlockState}
    {action : PlanAction} (h : b.enact plan archived resolved = .ok (enacted, action))
    (hbounded : plan.challengerPropensityPpm = 0
      ∨ b.definition.bandit.Admits plan.challengerPropensityPpm) :
    Readmitted b (enacted.planned P action plan) := by
  have hplanned : ∀ x : BlockState, (x.planned P action plan).lineage = x.lineage
      ∧ (x.planned P action plan).batch = x.batch
      ∧ (x.planned P action plan).assignedChallengerSessions = x.assignedChallengerSessions
      ∧ (x.planned P action plan).lastExposurePpm = x.lastExposurePpm := by
    intro x
    unfold BlockState.planned
    split <;> exact ⟨rfl, rfl, rfl, rfl⟩
  have hof : Readmitted b enacted → Readmitted b (enacted.planned P action plan) := by
    obtain ⟨hlineage, hbatch, hassigned, hexposure⟩ := hplanned enacted
    exact fun hb => hb.of_fields hlineage hbatch hassigned hexposure
  refine hof ?_
  cases enact_eq_ok h with
  | rolledBack _ _ => exact .kept rfl rfl rfl rfl
  | adopted _ _ _ _ => exact .kept rfl rfl rfl rfl
  | kept _ _ => exact .refl b
  | nextCohort _ _ _ _ hnext =>
    obtain ⟨sequence, hsequence, hnext⟩ := bind_eq_ok.mp hnext
    obtain ⟨-, rfl⟩ := successor_eq_ok.mp hsequence
    obtain rfl := pure_eq_ok.mp hnext
    refine .cohort rfl rfl rfl fun hadmits => ?_
    show b.definition.bandit.Admits (if 0 < plan.challengerPropensityPpm then _ else _)
    split
    · next hpositive => exact hbounded.resolve_left (Nat.pos_iff_ne_zero.mp hpositive)
    · exact hadmits

/-- **What an operation does to the trials.** -/
theorem Operation.trials (h : s.Sound P) {op : Operation} (hbounded : op.Bounded s)
    (hok : op.apply P s = .ok s') :
    ((∃ f, Rewrites f s s' ∧ ∀ b ∈ s.experiments, Readmitted b (f b)) ∨ ∃ next, Grown s s' next)
      ∧ s'.nextAssignmentSequence = s.nextAssignmentSequence := by
  have hsound := h.genealogy
  have hsound' : s'.Sound P := h.step (.operation op hok)
  have hsame : s' = s →
      ((∃ f, Rewrites f s s' ∧ ∀ b ∈ s.experiments, Readmitted b (f b))
        ∨ ∃ next, Grown s s' next) ∧ s'.nextAssignmentSequence = s.nextAssignmentSequence := by
    rintro rfl
    exact ⟨Or.inl ⟨id, .refl _, fun b _ => .refl b⟩, rfl⟩
  cases op with
  | setMode mode judgeModel now =>
    obtain ⟨hblocks, harchived, hsequence, -⟩ := setMode_eq_ok hok
    exact ⟨Or.inl ⟨id, (Rewrites.refl s).of_maps_eq hblocks harchived, fun b _ => .refl b⟩,
      hsequence⟩
  | register definition configDigest =>
    have hr := register_eq_ok hok
    refine ⟨Or.inr ⟨_, fun b => hr.mem_iff, fun b hb heq => ?_, rfl, rfl, rfl⟩,
      hr.steady.nextAssignmentSequence⟩
    -- an experiment of that id would be of the block that is new
    have hsame := eq_of_experimentId hsound'.genealogy (hr.mem_iff.mpr (Or.inl hb))
      (hr.mem_iff.mpr (Or.inr rfl)) heq
    obtain ⟨c, hc, -⟩ := hsound.current_of_has (has_lineage hb)
    have hblock : b.lineage.definition.blockId = definition.blockId := by
      rw [hsame]
      rfl
    rw [hblock] at hc
    obtain ⟨c', hc', -⟩ := exists_of_current hc
    exact absurd (hc'.symm.trans hr.new) (by simp)
  | revise definition routingDigest predecessor reset =>
    obtain ⟨previous, baseline, passed, next, hr⟩ := revise_eq_ok hok
    refine ⟨Or.inr ⟨next, fun b => hr.mem_iff hsound, fun b hb heq => ?_,
      by rw [hr.next_eq]; rfl, by rw [hr.next_eq]; rfl, by rw [hr.next_eq]; rfl⟩,
      hr.steady.nextAssignmentSequence⟩
    have hnext : s'.blocks[definition.blockId]? = some next := by
      rw [hr.blocks, StrMap.getElem?_insert, if_pos rfl]
    obtain rfl := eq_of_experimentId hsound'.genealogy ((hr.mem_iff hsound).mpr (Or.inl hb))
      (mem_of_blocks hnext) heq
    -- it would be the previous experiment, which is archived
    rcases mem_experiments.mp hb with ⟨k, hk⟩ | ⟨k, a, hk, rfl⟩
    · have hkey : definition.blockId = k :=
        (blockId_of_blocks hsound'.genealogy hnext).symm.trans (blockId_of_blocks hsound hk)
      subst hkey
      obtain rfl := Option.some.inj (hk.symm.trans hr.current)
      have hnone := archived_eq_none hsound'.genealogy hnext
      rw [hr.archived, StrMap.getElem?_insert, if_pos rfl] at hnone
      exact absurd hnone (by simp)
    · have hid := experimentId_of_archived hsound hk
      exact absurd (hk.symm.trans (hid ▸ hr.new)) (by simp)
  | plan blockId e learned resolved =>
    obtain ⟨⟨_, published⟩, hanswer, rfl⟩ := map_eq_ok.mp hok
    rcases applyExperimentPlan_eq_ok hsound hanswer with
      heq | ⟨b, enacted, action, hfound, -, -, henact, ht⟩
    · exact hsame heq
    · exact ⟨Or.inl ⟨_, ht.rewrites, fun x hx => ht.readmitted hsound
        (readmitted_of_enact henact (hbounded.imp_right fun hall => hall b hfound)) hx⟩,
        ht.steady.nextAssignmentSequence⟩
  | monitoring blockId e monitor =>
    obtain ⟨⟨_, published⟩, hanswer, rfl⟩ := map_eq_ok.mp hok
    rcases applyExperimentMonitoring_eq_ok hsound hanswer with heq | ⟨b, -, -, ht⟩
    · exact hsame heq
    · exact ⟨Or.inl ⟨_, ht.rewrites, fun x hx => ht.readmitted hsound
        (.kept rfl rfl rfl rfl) hx⟩, ht.steady.nextAssignmentSequence⟩
  | restore request =>
    obtain ⟨⟨_, publication⟩, hanswer, rfl⟩ := map_eq_ok.mp hok
    rcases restore_eq_ok hsound hanswer with heq | ⟨b, -, -, ht⟩
    · exact hsame heq
    · exact ⟨Or.inl ⟨_, ht.rewrites, fun x hx => ht.readmitted hsound
        (.kept rfl rfl rfl rfl) hx⟩, ht.steady.nextAssignmentSequence⟩

/-- **An operation keeps the account of the trials.** -/
theorem Accounted.operation (h : Accounted P s enrollments) {op : Operation}
    (hbounded : op.Bounded s) (hok : op.apply P s = .ok s') : Accounted P s' enrollments := by
  have hsound' : s'.Sound P := h.sound.step (.operation op hok)
  obtain ⟨⟨f, hf, hreadmitted⟩ | ⟨next, hgrown⟩, hlast⟩ := Operation.trials h.sound hbounded hok
  · exact h.rewritten hf hreadmitted hsound' hlast
  · exact h.grown hsound' hgrown hlast

end BitRouter.Evolution
