import BitRouter.Evolution.Draws

/-!
# The exposure of sessions over runs

An owner's run interleaves operations with selections, whose enrollments are
stored when they are new. Every such run keeps the account of the trials, and a
closed batch only gives way to the next one.
-/

namespace BitRouter.Evolution

open ControlState

variable {P : Primitives} {s s' : ControlState} {b b' : BlockState}

/-! ## Batches over time -/

/-- **Every experiment is kept, and a closed batch gives way only to a later
one.** -/
def Settled (s s' : ControlState) : Prop :=
  ∀ b ∈ s.experiments, ∃ b' ∈ s'.experiments, b'.lineage = b.lineage
    ∧ b.batch.sequence ≤ b'.batch.sequence
    ∧ (b.batch.closed = true → b'.batch = b.batch ∨ b.batch.sequence < b'.batch.sequence)

namespace Settled

theorem refl (s : ControlState) : Settled s s := fun b hb =>
  ⟨b, hb, rfl, Nat.le_refl _, fun _ => Or.inl rfl⟩

theorem trans {s'' : ControlState} (h : Settled s s') (h' : Settled s' s'') : Settled s s'' := by
  intro b hb
  obtain ⟨b', hb', hlineage, hle, hclosed⟩ := h b hb
  obtain ⟨b'', hb'', hlineage', hle', hclosed'⟩ := h' b' hb'
  refine ⟨b'', hb'', hlineage'.trans hlineage, hle.trans hle', fun hb => ?_⟩
  rcases hclosed hb with hsame | hlt
  · rw [← hsame]
    exact hclosed' (by rw [hsame]; exact hb)
  · exact Or.inr (hlt.trans_le hle')

theorem of_maps_eq (h : Settled s s') {s'' : ControlState} (hblocks : s''.blocks = s'.blocks)
    (harchived : s''.archivedExperiments = s'.archivedExperiments) : Settled s s'' := by
  have hsame : s''.experiments = s'.experiments := by
    unfold experiments
    rw [hblocks, harchived]
  intro b hb
  rw [hsame]
  exact h b hb

end Settled

theorem Reserved.settled (h : s.genealogy.Sound P) {id session : String} {seed : ℕ}
    {allocation : Option TrialAllocation} (hreserved : Reserved P s id session seed s' allocation) :
    Settled s s' := by
  -- an open batch replaced under its sequence
  have hopen : ∀ {b b' : BlockState}, s.blocks[id]? = some b → b.batch.closed = false →
      b'.lineage = b.lineage → b'.batch.sequence = b.batch.sequence →
      Settled s { s with blocks := s.blocks.insert id b' } := by
    intro b b' hb hbatch hlineage hsequence x hx
    refine ⟨_, (rewrites_of_insert h hb b').mem_iff.mpr ⟨x, hx, rfl⟩, ?_⟩
    unfold rewriteAt
    split
    · next heq =>
      obtain rfl := eq_of_experimentId h hx (mem_of_blocks hb) heq
      exact ⟨hlineage, hsequence.ge, fun hclosed => absurd (hbatch.symm.trans hclosed) (by simp)⟩
    · exact ⟨rfl, Nat.le_refl _, fun _ => Or.inl rfl⟩
  cases hreserved with
  | refused => exact .refl s
  | closed b hb hbatch _ => exact hopen hb hbatch rfl rfl
  | drawn b arm hb _ _ hbatch _ _ _ _ =>
    have henrolled : (b.enrolled session arm).lineage = b.lineage := rfl
    exact (hopen hb hbatch henrolled rfl).of_maps_eq rfl rfl

theorem select_settled (h : s.genealogy.Sound P) {input : Input} {e : SessionEnrollment}
    {intent : RouteIntent} (hok : s.select P input = .ok (s', e, intent)) : Settled s s' := by
  obtain ⟨monitored, hmonitored, hok⟩ := bind_eq_ok.mp hok
  obtain ⟨⟨s₂, enrolled⟩, henrolled, hok⟩ := bind_eq_ok.mp hok
  obtain ⟨routing, -, hok⟩ := bind_eq_ok.mp hok
  obtain rfl := congrArg Prod.fst (pure_eq_ok.mp hok)
  have hmonitoring : monitored.1.blocks = s.blocks
      ∧ monitored.1.archivedExperiments = s.archivedExperiments := by
    unfold monitorNew at hmonitored
    split at hmonitored
    · refine foldlM_ok_preserves (P := fun acc : ControlState × SessionEnrollment =>
        acc.1.blocks = s.blocks ∧ acc.1.archivedExperiments = s.archivedExperiments) ?_
        ⟨rfl, rfl⟩ hmonitored
      rintro acc adopted acc' - hacc hstep
      rcases monitorStep_eq_ok hstep with rfl | ⟨membership, -, rfl⟩
      · exact hacc
      · exact hacc
    · obtain rfl := Except.ok.inj hmonitored
      exact ⟨rfl, rfl⟩
  have hfirst : Settled s monitored.1 := (Settled.refl s).of_maps_eq hmonitoring.1 hmonitoring.2
  have hgenealogy : monitored.1.genealogy = s.genealogy := by
    unfold ControlState.genealogy
    rw [hmonitoring.1, hmonitoring.2]
  unfold enrollNew at henrolled
  split at henrolled
  · refine (foldlM_ok_preserves (P := fun acc : ControlState × SessionEnrollment =>
      Settled s acc.1 ∧ acc.1.genealogy.Sound P) ?_ ⟨hfirst, hgenealogy ▸ h⟩ henrolled).1
    rintro acc id acc' - ⟨hacc, hsound⟩ hstep
    have hreserved : ∃ allocation, Reserved P acc.1 id input.sessionKey (input.seed id) acc'.1
        allocation := by
      rcases enrollStep_eq_ok hstep with ⟨hreserved, -⟩ | ⟨allocation, _, _, hreserved, -⟩
      · exact ⟨_, hreserved⟩
      · exact ⟨_, hreserved⟩
    obtain ⟨allocation, hreserved⟩ := hreserved
    exact ⟨hacc.trans (hreserved.settled hsound),
      (hreserved.drawnState hsound).genealogy_eq ▸ hsound⟩
  · obtain rfl := Except.ok.inj henrolled
    exact hfirst

theorem Operation.settled (h : s.Sound P) {op : Operation} (hbounded : op.Bounded s)
    (hok : op.apply P s = .ok s') : Settled s s' := by
  intro b hb
  obtain ⟨⟨f, hf, hreadmitted⟩ | ⟨next, hgrown⟩, -⟩ := Operation.trials h hbounded hok
  · refine ⟨f b, hf.mem_iff.mpr ⟨b, hb, rfl⟩, (hreadmitted b hb).lineage,
      (hreadmitted b hb).sequence_le, fun _ => ?_⟩
    cases hreadmitted b hb with
    | kept _ hbatch _ _ => exact Or.inl hbatch
    | cohort _ hbatch _ _ =>
      rw [hbatch]
      exact Or.inr (Nat.lt_succ_self _)
  · exact ⟨b, (hgrown.mem b).mpr (Or.inl hb), rfl, Nat.le_refl _, fun _ => Or.inl rfl⟩

/-! ## Runs of an owner -/

/-- The control state of an owner and the enrollments of the sessions, by their
keys. -/
structure Ledger where
  control : ControlState
  enrollments : StrMap SessionEnrollment

/-- What a selection is given of its session: a new enrollment, with nothing
recorded, or the stored one. -/
def Input.Fits (input : Input) (enrollments : StrMap SessionEnrollment) : Prop :=
  (input.isNew = true ∧ enrollments[input.sessionKey]? = none
    ∧ input.enrollment.assignments = ∅ ∧ input.enrollment.monitoring = ∅)
  ∨ (input.isNew = false ∧ enrollments[input.sessionKey]? = some input.enrollment)

/-- **A committed step**: an operation, or a selection whose enrollment is stored
when it is new. -/
inductive Ledger.Step (P : Primitives) (l : Ledger) : Ledger → Prop
  | operation (op : Operation) (s' : ControlState) : op.Bounded l.control →
    op.apply P l.control = .ok s' → Ledger.Step P l ⟨s', l.enrollments⟩
  | select (input : Input) (s' : ControlState) (enrollment : SessionEnrollment)
    (intent : RouteIntent) : input.Fits l.enrollments →
    l.control.select P input = .ok (s', enrollment, intent) →
    Ledger.Step P l ⟨s', if input.isNew then l.enrollments.insert input.sessionKey enrollment
      else l.enrollments⟩

namespace Ledger

variable {l l' : Ledger}

theorem Step.accounted (h : Accounted P l.control l.enrollments) (hstep : Step P l l') :
    Accounted P l'.control l'.enrollments ∧ Settled l.control l'.control := by
  cases hstep with
  | operation op s' hbounded hok =>
    exact ⟨h.operation hbounded hok, Operation.settled h.sound hbounded hok⟩
  | select input s' enrollment intent hfits hok =>
    refine ⟨?_, select_settled h.sound.genealogy hok⟩
    rcases hfits with ⟨hisNew, hnew, hassignments, hmonitoring⟩ | ⟨hold, hstored⟩
    · show Accounted P s' (if input.isNew = true then _ else _)
      rw [if_pos hisNew]
      exact h.select hnew hassignments hmonitoring hok
    · obtain ⟨rfl, -⟩ := select_known hold hok
      show Accounted P l.control (if input.isNew = true then _ else _)
      rw [hold, if_neg (by simp)]
      exact h

/-- The ledgers an owner can get to. -/
def Reachable (P : Primitives) : Ledger → Prop :=
  Relation.ReflTransGen (Step P) ⟨.default, ∅⟩

theorem accounted_default : Accounted P .default ∅ := by
  have hnone : ∀ b, b ∉ ControlState.default.experiments := by
    intro b hb
    rcases mem_experiments.mp hb with ⟨k, hk⟩ | ⟨k, a, hk, -⟩
    · exact absurd ((StrMap.getElem?_empty k).symm.trans hk) (by simp)
    · exact absurd ((StrMap.getElem?_empty k).symm.trans hk) (by simp)
  refine ⟨.default, ?_, fun b hb => absurd hb (hnone b), ⟨?_, ?_⟩⟩
  · intro session e he
    exact absurd ((StrMap.getElem?_empty session).symm.trans he) (by simp)
  · intro session slot n hn
    exact absurd hn (by simp)
  · intro session session' slot slot' n hn
    exact absurd hn (by simp)

theorem Reachable.accounted (h : Reachable P l) : Accounted P l.control l.enrollments := by
  induction h with
  | refl => exact accounted_default
  | tail _ hstep ih => exact (hstep.accounted ih).1

theorem Reachable.settled (h : Reachable P l) (hrun : Relation.ReflTransGen (Step P) l l') :
    Settled l.control l'.control := by
  have hboth : Settled l.control l'.control ∧ Accounted P l'.control l'.enrollments := by
    induction hrun with
    | refl => exact ⟨.refl _, h.accounted⟩
    | tail _ hstep ih =>
      obtain ⟨hsettled, haccounted⟩ := ih
      obtain ⟨haccounted', hsettled'⟩ := hstep.accounted haccounted
      exact ⟨hsettled.trans hsettled', haccounted'⟩
  exact hboth.1

/-- **Over every run of committed steps, the trials account for the sessions**:
each experiment counts its challengers and the members of its batch, inside its
limits; a session has one assignment in an experiment, at the exposure its arm
was drawn with; no number is given twice; and a closed batch gains no member. -/
theorem reachable_accounted (P : Primitives) (l : Ledger) (h : Reachable P l) :
    Accounted P l.control l.enrollments
    ∧ (∀ (session : String) enrollment, l.enrollments[session]? = some enrollment →
      ∀ (id id' : String) a a', enrollment.assignments[id]? = some a →
        enrollment.assignments[id']? = some a' → a.experimentId = a'.experimentId → id = id')
    ∧ ∀ l', Relation.ReflTransGen (Step P) l l' → Settled l.control l'.control := by
  have haccounted := h.accounted
  refine ⟨haccounted, ?_, fun l' hrun => h.settled hrun⟩
  intro session e he id id' a a' ha ha' hsame
  obtain ⟨b, hb, hid, hblock, -⟩ := (haccounted.recorded session e he id a ha).experiment
  exact hblock.symm.trans (haccounted.eq_of_assigned he ha' hb (hsame.symm.trans hid.symm)).1

/-! ## A sample run

Two sessions fill a batch, one on each side; the first returns, the next batch is
opened at a lower exposure, and a third session is drawn in it. -/

end Ledger

namespace Sample.Drawn

def pooled : BlockDefinition := { block "code" "main" "fast" [] with batchSessions := 2 }

def table : List Preimage :=
  [ .pair "" "",
    .definition pooled "r",
    .config bandit,
    .experiment "d" 0,
    .pair "ddd" "s1",
    .pair "ddd" "s2",
    .pair "ddd" "s3" ]

noncomputable def primitives : Primitives := .ofTable table id

/-- What a session brings: its stored enrollment, or a new one. -/
def visitor (l : Ledger) (session : String) (seed : ℕ) : Input :=
  { Sample.input with
    sessionKey := session
    dependencies := ⟨StrMap.ofPairs [("code", "r")], ∅, true, none⟩
    enrollment := l.enrollments[session]?.getD
      { Sample.input.enrollment with blockExperiments := some (StrMap.ofPairs [("code", "ddd")]) }
    isNew := l.enrollments[session]?.isNone
    seed := fun _ => seed }

theorem visitor_fits (l : Ledger) (session : String) (seed : ℕ) :
    (visitor l session seed).Fits l.enrollments := by
  unfold Input.Fits visitor
  dsimp only
  cases hstored : l.enrollments[session]? with
  | none => exact Or.inl ⟨rfl, rfl, rfl, rfl⟩
  | some enrollment => exact Or.inr ⟨rfl, rfl⟩

inductive Turn where
  | operate (op : Operation)
  | visit (session : String) (seed : ℕ)

noncomputable def Turn.apply (l : Ledger) : Turn → Except String Ledger
  | operate op => do
    ensure (op.Bounded l.control) "outside the exposure bounds"
    return ⟨← op.apply primitives l.control, l.enrollments⟩
  | visit session seed => do
    let input := visitor l session seed
    let (s, enrollment, _) ← l.control.select primitives input
    return ⟨s, if input.isNew then l.enrollments.insert session enrollment else l.enrollments⟩

theorem Turn.step {l l' : Ledger} {turn : Turn} (h : turn.apply l = .ok l') :
    Ledger.Step primitives l l' := by
  cases turn with
  | operate op =>
    unfold apply at h
    simp only [bind_eq_ok, ensure_eq_ok, pure_eq_ok] at h
    obtain ⟨-, hbounded, s', hok, rfl⟩ := h
    exact .operation op s' hbounded hok
  | visit session seed =>
    obtain ⟨⟨s', enrollment, intent⟩, hok, h⟩ := bind_eq_ok.mp h
    obtain rfl := pure_eq_ok.mp h
    exact .select (visitor l session seed) s' enrollment intent (visitor_fits l session seed) hok

/-- The plan that opens the next batch. -/
def lowered : BatchPlan :=
  { promotion with
    configDigest := "dd", challengerPropensityPpm := 200000, recommendation := .explore }

def turns : List Turn :=
  [ .operate (.register pooled "r"),
    .operate (.setMode .manual none "now"),
    .visit "s1" 0,
    .visit "s2" 900000,
    .visit "s1" 900000,
    .operate (.plan "code" "ddd" lowered true),
    .visit "s3" 0 ]

end Sample.Drawn

namespace Ledger

/-- The sample run: two challengers and a member of the baseline, over two batches. -/
theorem reachable_accounted_drawn :
    ∃ l, Sample.Drawn.turns.foldlM Sample.Drawn.Turn.apply ⟨.default, ∅⟩ = .ok l
      ∧ challengers l.enrollments "ddd" = 2
      ∧ (l.control.blocks["code"]?.any fun b =>
        b.batch.sequence = 1 && b.assignedChallengerSessions = 2 && b.lastExposurePpm = 200000)
      ∧ Accounted Sample.Drawn.primitives l.control l.enrollments
      ∧ (∀ (session : String) enrollment, l.enrollments[session]? = some enrollment →
        ∀ (id id' : String) a a', enrollment.assignments[id]? = some a →
          enrollment.assignments[id']? = some a' → a.experimentId = a'.experimentId → id = id')
      ∧ ∀ l', Relation.ReflTransGen (Step Sample.Drawn.primitives) l l' →
        Settled l.control l'.control := by
  have hrun : (Sample.Drawn.turns.foldlM Sample.Drawn.Turn.apply ⟨.default, ∅⟩).toOption.any
      (fun l => challengers l.enrollments "ddd" = 2 && l.control.blocks["code"]?.any fun b =>
        b.batch.sequence = 1 && b.assignedChallengerSessions = 2 && b.lastExposurePpm = 200000)
      = true := by
    decide +kernel
  obtain ⟨l, hl, htest⟩ := exists_ok_of_any hrun
  obtain ⟨hcount, hblock⟩ := (Bool.and_eq_true _ _).mp htest
  have hreach : Reachable Sample.Drawn.primitives l :=
    foldlM_ok_preserves (P := Reachable Sample.Drawn.primitives)
      (fun _ _ _ _ hreach hstep => hreach.tail (Sample.Drawn.Turn.step hstep)) .refl hl
  exact ⟨l, hl, of_decide_eq_true hcount, hblock,
    reachable_accounted Sample.Drawn.primitives l hreach⟩

end Ledger

end BitRouter.Evolution
