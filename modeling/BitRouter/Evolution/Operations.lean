import BitRouter.Evolution.Provenance

/-!
# What the operations do

One lemma for each operation says what a successful one leaves. Withdrawing the
descendants of an experiment is a rewriting of all the experiments at once. A
published plan, an alarm and a restoration are *transitions*: one experiment is
rewritten, and those built on it are withdrawn with it. Only a registration and
a revision make the genealogy grow.
-/

namespace BitRouter.Evolution

open ControlState

variable {P : Primitives} {s s' s'' : ControlState} {b : BlockState}

structure Steady (s s' : ControlState) : Prop where
  mode : s'.mode = s.mode
  modeEpoch : s'.modeEpoch = s.modeEpoch
  trialEpoch : s'.trialEpoch = s.trialEpoch
  trialStartedAt : s'.trialStartedAt = s.trialStartedAt
  nextAssignmentSequence : s'.nextAssignmentSequence = s.nextAssignmentSequence

namespace Steady

theorem refl (s : ControlState) : Steady s s := ⟨rfl, rfl, rfl, rfl, rfl⟩

theorem trans (h : Steady s s') (h' : Steady s' s'') : Steady s s'' :=
  ⟨h'.mode.trans h.mode, h'.modeEpoch.trans h.modeEpoch, h'.trialEpoch.trans h.trialEpoch,
    h'.trialStartedAt.trans h.trialStartedAt,
    h'.nextAssignmentSequence.trans h.nextAssignmentSequence⟩

end Steady

variable {publication : ℕ → Publication}

theorem publish_eq_ok (h : s.publish publication = .ok s') :
    s'.blocks = s.blocks ∧ s'.archivedExperiments = s.archivedExperiments ∧ Steady s s' := by
  obtain ⟨generation, -, h⟩ := bind_eq_ok.mp h
  obtain rfl := pure_eq_ok.mp h
  exact ⟨rfl, rfl, ⟨rfl, rfl, rfl, rfl, rfl⟩⟩

theorem setExperiment_steady (s : ControlState) (id e : String) (b : BlockState) :
    Steady s (s.setExperiment id e b) := by
  unfold setExperiment
  split
  · exact ⟨rfl, rfl, rfl, rfl, rfl⟩
  · split
    · exact ⟨rfl, rfl, rfl, rfl, rfl⟩
    · exact Steady.refl s

theorem rewriting_of_publish (h : s.genealogy.Sound P) {id e : String}
    {g : BlockState → BlockState} (hb : s.experimentMut id e = some b)
    (hok : (s.setExperiment id e (g b)).publish publication = .ok s') :
    Rewrites (rewriteAt e g) s s' ∧ Steady s s' := by
  obtain ⟨hblocks, harchived, hsteady⟩ := publish_eq_ok hok
  exact ⟨(setExperiment_rewrites h hb).of_maps_eq hblocks harchived,
    (setExperiment_steady s id e (g b)).trans hsteady⟩

/-! ## Withdrawal -/

/-- An experiment rolled back because of its ancestor `withdrawn`. -/
def BlockState.withdrawnWith (P : Primitives) (withdrawn : String) (b : BlockState) : BlockState :=
  { b.advance P "baseline_withdrawn" withdrawn with status := .rolledBack }

/-- What becomes of an experiment when `withdrawn` is withdrawn. -/
def withdrawal (P : Primitives) (withdrawn : String) (b : BlockState) : BlockState :=
  if withdrawn ∈ b.baselineAncestry then b.withdrawnWith P withdrawn else b

@[simp] theorem withdrawal_lineage (withdrawn : String) (b : BlockState) :
    (withdrawal P withdrawn b).lineage = b.lineage := by
  unfold withdrawal
  split <;> rfl

theorem experiments_nodup (h : s.genealogy.Sound P) :
    (s.experiments.map (·.experimentId)).Nodup := by
  have hkeys : ∀ {α : Type} (m : StrMap α), m.toList.Nodup := fun m =>
    (Std.ExtTreeMap.distinct_keys_toList (t := m)).imp fun {a b} hne heq =>
      hne (by rw [heq]; exact Std.ReflCmp.compare_self)
  unfold experiments
  rw [List.map_append, List.map_map, List.map_map, List.nodup_append]
  refine ⟨?_, ?_, ?_⟩
  · refine (hkeys s.blocks).map_on fun x hx y hy heq => ?_
    have hx' := Std.ExtTreeMap.mem_toList_iff_getElem?_eq_some.mp hx
    have hy' := Std.ExtTreeMap.mem_toList_iff_getElem?_eq_some.mp hy
    have hsame : x.2 = y.2 := eq_of_experimentId h (mem_of_blocks hx') (mem_of_blocks hy') heq
    refine Prod.ext ?_ hsame
    rw [← blockId_of_blocks h hx', hsame, blockId_of_blocks h hy']
  · refine (hkeys s.archivedExperiments).map_on fun x hx y hy heq => ?_
    have hx' := Std.ExtTreeMap.mem_toList_iff_getElem?_eq_some.mp hx
    have hy' := Std.ExtTreeMap.mem_toList_iff_getElem?_eq_some.mp hy
    have hkey : x.1 = y.1 := by
      rw [← experimentId_of_archived h hx', ← experimentId_of_archived h hy']
      exact heq
    refine Prod.ext hkey ?_
    rw [hkey, hy'] at hx'
    exact (Option.some.inj hx').symm
  · intro e he e' he'
    obtain ⟨x, hx, rfl⟩ := List.mem_map.mp he
    obtain ⟨y, hy, rfl⟩ := List.mem_map.mp he'
    have hx' := Std.ExtTreeMap.mem_toList_iff_getElem?_eq_some.mp hx
    have hy' := Std.ExtTreeMap.mem_toList_iff_getElem?_eq_some.mp hy
    intro heq
    have hnone := archived_eq_none h hx'
    have hid : x.2.experimentId = y.1 := heq.trans (experimentId_of_archived h hy')
    rw [hid, hy'] at hnone
    exact absurd hnone (by simp)

variable {withdrawn : String}

theorem withdraw_eq_ok (h : s.genealogy.Sound P) {affected : String × String}
    (hok : withdraw P withdrawn s affected = .ok s') :
    Rewrites (rewriteAt affected.2 (·.withdrawnWith P withdrawn)) s s' ∧ Steady s s' := by
  obtain ⟨b, hb, hok⟩ := bind_eq_ok.mp hok
  exact rewriting_of_publish (g := (·.withdrawnWith P withdrawn)) h (orFail_eq_ok.mp hb) hok

theorem withdraw_foldlM_eq_ok (h : s.genealogy.Sound P) {affected : List (String × String)}
    (hnodup : (affected.map (·.2)).Nodup)
    (hok : affected.foldlM (withdraw P withdrawn) s = .ok s') :
    Rewrites (fun b => if b.experimentId ∈ affected.map (·.2) then b.withdrawnWith P withdrawn
      else b) s s' ∧ Steady s s' := by
  induction affected generalizing s with
  | nil =>
    obtain rfl := pure_eq_ok.mp hok
    exact ⟨(Rewrites.refl s).congr fun b _ => by simp, Steady.refl s⟩
  | cons pair affected ih =>
    rw [List.foldlM_cons, bind_eq_ok] at hok
    obtain ⟨t, ht, hok⟩ := hok
    rw [List.map_cons, List.nodup_cons] at hnodup
    obtain ⟨hrewrites, hsteady⟩ := withdraw_eq_ok h ht
    have hgenealogy : t.genealogy = s.genealogy := by
      refine hrewrites.genealogy_eq fun b _ => ?_
      unfold rewriteAt
      split <;> rfl
    obtain ⟨hrest, hsteady'⟩ := ih (hgenealogy ▸ h) hnodup.2 hok
    refine ⟨(hrewrites.trans hrest).congr fun b _ => ?_, hsteady.trans hsteady'⟩
    show (if _ then _ else _) = _
    unfold rewriteAt
    by_cases hid : b.experimentId = pair.2
    · -- named here, it is not named again
      have hid' : (b.withdrawnWith P withdrawn).experimentId = pair.2 := hid
      rw [if_pos hid, hid', if_neg hnodup.1, List.map_cons, hid, if_pos List.mem_cons_self]
    · rw [if_neg hid, List.map_cons]
      simp only [List.mem_cons, hid, false_or]

/-- **Withdrawing descendants rewrites exactly those.** -/
theorem withdrawDescendants_eq_ok (h : s.genealogy.Sound P)
    (hok : s.withdrawDescendants P withdrawn = .ok s') :
    Rewrites (withdrawal P withdrawn) s s' ∧ Steady s s' := by
  have hids : (s.affectedBy withdrawn).map (·.2)
      = (s.experiments.filter (withdrawn ∈ ·.baselineAncestry)).map (·.experimentId) := by
    unfold affectedBy
    rw [List.map_map]
    rfl
  have hnodup : ((s.affectedBy withdrawn).map (·.2)).Nodup := by
    rw [hids]
    exact (experiments_nodup h).sublist (List.filter_sublist.map _)
  obtain ⟨hrewrites, hsteady⟩ := withdraw_foldlM_eq_ok h hnodup hok
  refine ⟨hrewrites.congr fun b hb => ?_, hsteady⟩
  have hmem : b.experimentId ∈ (s.affectedBy withdrawn).map (·.2)
      ↔ withdrawn ∈ b.baselineAncestry := by
    rw [hids, List.mem_map]
    constructor
    · rintro ⟨b', hb', heq⟩
      obtain ⟨hb', hwithdrawn⟩ := List.mem_filter.mp hb'
      obtain rfl := eq_of_experimentId h hb' hb heq
      exact of_decide_eq_true hwithdrawn
    · intro hwithdrawn
      exact ⟨b, List.mem_filter.mpr ⟨hb, decide_eq_true hwithdrawn⟩, rfl⟩
  unfold withdrawal
  simp only [hmem]

/-! ## Transitions of one experiment -/

/-- **How the status of an experiment moves.** -/
inductive Moves : BlockStatus → BlockStatus → Prop
  | same (status : BlockStatus) : Moves status status
  | adopted : Moves .exploring .adopted
  | rolledBack : Moves .exploring .rolledBack
  | withdrawn : Moves .adopted .rolledBack

theorem Moves.to_rolledBack {status : BlockStatus} (h : status ≠ .paused) :
    Moves status .rolledBack := by
  cases status with
  | exploring => exact .rolledBack
  | adopted => exact .withdrawn
  | rolledBack => exact .same _
  | paused => exact absurd rfl h

/-- What becomes of an experiment `x` when `b` becomes `next`. -/
def became (P : Primitives) (b next x : BlockState) : BlockState :=
  if next.status = .rolledBack then
    withdrawal P b.experimentId (rewriteAt b.experimentId (fun _ => next) x)
  else rewriteAt b.experimentId (fun _ => next) x

/-- **A transition**: the experiment `b` becomes `next`, and what was built on it
is withdrawn when it is rolled back. A status that moves takes a revision with
it. -/
structure Transition (P : Primitives) (s s' : ControlState) (b next : BlockState) : Prop where
  mem : b ∈ s.experiments
  lineage : next.lineage = b.lineage
  moves : b.status ≠ .paused → Moves b.status next.status
  revision : (next.revision = b.revision ∧ next.status = b.status)
    ∨ ∃ action detail, next.revision = P.digest (.triple b.revision action detail)
  /-- Only a current experiment is adopted. -/
  adopts : next.status = .adopted → b.status = .adopted
    ∨ s.blocks[b.definition.blockId]? = some b
  rewrites : Rewrites (became P b next) s s'
  steady : Steady s s'

theorem transition_of_publish (h : s.genealogy.Sound P) {id e : String} {next : BlockState}
    (hb : s.experimentMut id e = some b) (hlineage : next.lineage = b.lineage)
    (hmoves : b.status ≠ .paused → Moves b.status next.status)
    (hrevision : (next.revision = b.revision ∧ next.status = b.status)
      ∨ ∃ action detail, next.revision = P.digest (.triple b.revision action detail))
    (hadopts : next.status = .adopted → b.status = .adopted
      ∨ s.blocks[b.definition.blockId]? = some b)
    (hpublish : (s.setExperiment id e next).publish publication = .ok s')
    (hwithdraw : s'.withdrawIfRolledBack P next.status e = .ok s'') :
    Transition P s s'' b next := by
  obtain ⟨hmem, -, rfl⟩ := (experimentMut_eq_some h).mp hb
  obtain ⟨hrewrites, hsteady⟩ := rewriting_of_publish (g := fun _ => next) h hb hpublish
  have hgenealogy : s'.genealogy = s.genealogy := by
    refine hrewrites.genealogy_eq fun x hx => ?_
    unfold rewriteAt
    split
    · next heq => rw [hlineage, eq_of_experimentId h hx hmem heq]
    · rfl
  unfold withdrawIfRolledBack at hwithdraw
  split at hwithdraw
  · next hstatus =>
    obtain ⟨hwithdrawn, hsteady'⟩ := withdrawDescendants_eq_ok (hgenealogy ▸ h) hwithdraw
    refine ⟨hmem, hlineage, hmoves, hrevision, hadopts, ?_, hsteady.trans hsteady'⟩
    refine (hrewrites.trans hwithdrawn).congr fun x _ => ?_
    rw [became, if_pos hstatus]
    rfl
  · next hstatus =>
    obtain rfl := Except.ok.inj hwithdraw
    refine ⟨hmem, hlineage, hmoves, hrevision, hadopts, hrewrites.congr fun x _ => ?_, hsteady⟩
    rw [became, if_neg hstatus]

/-- **What a recommendation does to an experiment.** -/
inductive Enacted (b : BlockState) (plan : BatchPlan) (archived resolved : Bool) :
    BlockState → PlanAction → Prop
  | rolledBack (action : PlanAction) : action.advances = true →
    Enacted b plan archived resolved { b with status := .rolledBack } action
  | adopted : archived = false → b.batch.closed = true → resolved = true → b.status ≠ .adopted →
    Enacted b plan archived resolved { b with status := .adopted } .promote
  | kept (action : PlanAction) : action.advances = false →
    Enacted b plan archived resolved b action
  | nextCohort (next : BlockState) : archived = false → b.batch.closed = true → resolved = true →
    b.nextCohort plan = .ok next → Enacted b plan archived resolved next .allocation

theorem enact_eq_ok {plan : BatchPlan} {archived resolved : Bool} {enacted : BlockState}
    {action : PlanAction} (h : b.enact plan archived resolved = .ok (enacted, action)) :
    Enacted b plan archived resolved enacted action := by
  unfold BlockState.enact at h
  split at h
  · obtain ⟨rfl, rfl⟩ := Prod.mk.inj (Except.ok.inj h)
    exact .rolledBack _ rfl
  · split at h
    · obtain ⟨rfl, rfl⟩ := Prod.mk.inj (Except.ok.inj h)
      exact .kept _ rfl
    · next harchived =>
      split at h
      · obtain ⟨rfl, rfl⟩ := Prod.mk.inj (Except.ok.inj h)
        exact .kept _ rfl
      · obtain ⟨_, hready, h⟩ := bind_eq_ok.mp h
        obtain ⟨hclosed, hresolved⟩ := (Bool.and_eq_true _ _).mp (ensure_eq_ok.mp hready)
        split at h
        · obtain ⟨rfl, rfl⟩ := Prod.mk.inj (pure_eq_ok.mp h)
          exact .kept _ rfl
        · next hadopted =>
          obtain ⟨rfl, rfl⟩ := Prod.mk.inj (pure_eq_ok.mp h)
          exact .adopted (by simpa [hadopted] using harchived) hclosed hresolved hadopted
  all_goals
    split at h
    · obtain ⟨rfl, rfl⟩ := Prod.mk.inj (Except.ok.inj h)
      exact .rolledBack _ rfl
    · split at h
      · obtain ⟨rfl, rfl⟩ := Prod.mk.inj (Except.ok.inj h)
        exact .kept _ rfl
      · next harchived =>
        split at h
        · next hready =>
          obtain ⟨hclosed, hresolved⟩ := (Bool.and_eq_true _ _).mp hready
          obtain ⟨next, hnext, h⟩ := bind_eq_ok.mp h
          obtain ⟨rfl, rfl⟩ := Prod.mk.inj (pure_eq_ok.mp h)
          exact .nextCohort _ (by simpa using harchived) hclosed hresolved hnext
        · obtain ⟨rfl, rfl⟩ := Prod.mk.inj (Except.ok.inj h)
          exact .kept _ rfl

/-- The experiment with a plan enacted on it. -/
def BlockState.planned (P : Primitives) (enacted : BlockState) (action : PlanAction)
    (plan : BatchPlan) : BlockState :=
  { (if action.advances then enacted.advance P action.name plan.planId else enacted) with
    plan := some plan }

/-- **Publishing a plan** is a transition, or nothing. -/
theorem applyExperimentPlan_eq_ok (h : s.genealogy.Sound P) {blockId e : String} {plan : BatchPlan}
    {resolved : Bool} {published : Bool}
    (hok : s.applyExperimentPlan P blockId e plan resolved = .ok (s', published)) :
    s' = s ∨ ∃ b enacted action, s.experiment blockId (some e) = some b
      ∧ b.alreadyPlanned plan (s.archived blockId e) resolved = false
      ∧ b.status ≠ .rolledBack
      ∧ b.enact plan (s.archived blockId e) resolved = .ok (enacted, action)
      ∧ Transition P s s' b (enacted.planned P action plan) := by
  obtain ⟨_, -, hok⟩ := bind_eq_ok.mp hok
  obtain ⟨b, hb, hok⟩ := bind_eq_ok.mp hok
  obtain ⟨_, -, hok⟩ := bind_eq_ok.mp hok
  obtain ⟨_, -, hok⟩ := bind_eq_ok.mp hok
  have hb := orFail_eq_ok.mp hb
  split at hok
  · exact Or.inl (congrArg Prod.fst (pure_eq_ok.mp hok)).symm
  · next hplanned =>
    obtain ⟨_, hlive, hok⟩ := bind_eq_ok.mp hok
    have hlive := ensure_eq_ok.mp hlive
    have hmut := (experiment_eq_some h).trans (experimentMut_eq_some h).symm |>.mp hb
    rw [hmut] at hok
    obtain ⟨found, hfound, hok⟩ := bind_eq_ok.mp hok
    obtain rfl : b = found := Except.ok.inj hfound
    obtain ⟨s₂, henact, hanswer⟩ := bind_eq_ok.mp hok
    obtain rfl := congrArg Prod.fst (pure_eq_ok.mp hanswer)
    obtain ⟨⟨enacted, action⟩, hanswer, henact⟩ := bind_eq_ok.mp henact
    have henacted := enact_eq_ok hanswer
    obtain ⟨s₁, hpublish, hwithdraw⟩ := bind_eq_ok.mp henact
    refine Or.inr ⟨b, enacted, action, hb, by simpa using hplanned, hlive, hanswer, ?_⟩
    refine transition_of_publish h hmut ?_ ?_ ?_ ?_ hpublish hwithdraw
    · unfold BlockState.planned
      cases henacted with
      | rolledBack _ _ => split <;> rfl
      | adopted _ _ _ _ => split <;> rfl
      | kept _ _ => split <;> rfl
      | nextCohort next _ _ _ hnext =>
        obtain ⟨sequence, -, hnext⟩ := bind_eq_ok.mp hnext
        obtain rfl := pure_eq_ok.mp hnext
        rfl
    · intro hpaused
      unfold BlockState.planned
      cases henacted with
      | rolledBack _ _ => split <;> exact Moves.to_rolledBack hpaused
      | adopted _ _ _ hadopted =>
        have hexploring : b.status = .exploring := by
          cases hstatus : b.status <;> simp_all
        rw [hexploring]
        split <;> exact .adopted
      | kept _ _ => split <;> exact .same _
      | nextCohort next _ _ _ hnext =>
        obtain ⟨sequence, -, hnext⟩ := bind_eq_ok.mp hnext
        obtain rfl := pure_eq_ok.mp hnext
        exact .same _
    · unfold BlockState.planned
      cases henacted with
      | rolledBack _ hadvances =>
        rw [if_pos hadvances]
        exact Or.inr ⟨_, _, rfl⟩
      | adopted _ _ _ _ => exact Or.inr ⟨_, _, rfl⟩
      | kept _ hadvances =>
        rw [if_neg (by simp [hadvances])]
        exact Or.inl ⟨rfl, rfl⟩
      | nextCohort next _ _ _ hnext =>
        obtain ⟨sequence, -, hnext⟩ := bind_eq_ok.mp hnext
        obtain rfl := pure_eq_ok.mp hnext
        exact Or.inl ⟨rfl, rfl⟩
    · intro hstatus
      unfold BlockState.planned at hstatus
      cases henacted with
      | rolledBack _ hadvances =>
        rw [if_pos hadvances] at hstatus
        exact absurd hstatus (by simp [BlockState.advance])
      | adopted harchived _ _ _ =>
        refine Or.inr ?_
        obtain ⟨hmem, hblock, hid⟩ := (experimentMut_eq_some h).mp hmut
        unfold archived at harchived
        cases hc : s.blocks[blockId]? with
        | none =>
          rw [hc] at harchived
          exact absurd harchived (by simp)
        | some c =>
          rw [hc] at harchived
          have hsame : c.experimentId = b.experimentId := by
            rw [hid]
            simpa using harchived
          rw [hblock, hc, eq_of_experimentId h (mem_of_blocks hc) hmem hsame]
      | kept _ hadvances =>
        rw [if_neg (by simp [hadvances])] at hstatus
        exact Or.inl hstatus
      | nextCohort next _ _ _ hnext =>
        obtain ⟨sequence, -, hnext⟩ := bind_eq_ok.mp hnext
        obtain rfl := pure_eq_ok.mp hnext
        exact Or.inl hstatus

/-- **An alarm** is a transition, or nothing. -/
theorem applyExperimentMonitoring_eq_ok (h : s.genealogy.Sound P) {blockId e : String}
    {monitor : MonitoringPlan} {published : Bool}
    (hok : s.applyExperimentMonitoring P blockId e monitor = .ok (s', published)) :
    s' = s ∨ ∃ b, s.experiment blockId (some e) = some b ∧ monitor.rollback = true
      ∧ Transition P s s' b { b.advance P "adopted_quality_rollback" monitor.evidenceDigest with
        status := .rolledBack } := by
  obtain ⟨_, -, hok⟩ := bind_eq_ok.mp hok
  obtain ⟨b, hb, hok⟩ := bind_eq_ok.mp hok
  obtain ⟨_, -, hok⟩ := bind_eq_ok.mp hok
  obtain ⟨_, -, hok⟩ := bind_eq_ok.mp hok
  have hb := orFail_eq_ok.mp hb
  split at hok
  · exact Or.inl (congrArg Prod.fst (pure_eq_ok.mp hok)).symm
  · next halarm =>
    have hmut := (experiment_eq_some h).trans (experimentMut_eq_some h).symm |>.mp hb
    rw [hmut] at hok
    obtain ⟨found, hfound, hok⟩ := bind_eq_ok.mp hok
    obtain rfl : b = found := Except.ok.inj hfound
    obtain ⟨s₂, hrolled, hanswer⟩ := bind_eq_ok.mp hok
    obtain rfl := congrArg Prod.fst (pure_eq_ok.mp hanswer)
    obtain ⟨s₁, hpublish, hwithdraw⟩ := bind_eq_ok.mp hrolled
    exact Or.inr ⟨b, hb, by simpa using halarm,
      transition_of_publish h hmut rfl Moves.to_rolledBack (Or.inr ⟨_, _, rfl⟩)
      (fun hstatus => absurd hstatus (by simp)) hpublish
      (by rw [withdrawIfRolledBack, if_pos rfl]; exact hwithdraw)⟩

/-- **A restoration** is a transition, or nothing. -/
theorem restore_eq_ok (h : s.genealogy.Sound P) {request : RestoreRequest}
    {publication : Publication} (hok : s.restore P request = .ok (s', publication)) :
    s' = s ∨ ∃ b, s.experiment request.block (some request.expectedExperiment) = some b
      ∧ s.restoration request = none
      ∧ Transition P s s' b { b.advance P "operator_restore" request.reason with
        status := .rolledBack } := by
  obtain ⟨_, -, hok⟩ := bind_eq_ok.mp hok
  split at hok
  · exact Or.inl (congrArg Prod.fst (pure_eq_ok.mp hok)).symm
  · next hnew =>
    obtain ⟨b, hb, hok⟩ := bind_eq_ok.mp hok
    have hb := orFail_eq_ok.mp hb
    obtain ⟨_, hreviewed, hok⟩ := bind_eq_ok.mp hok
    obtain ⟨hexperiment, -⟩ := ensure_eq_ok.mp hreviewed
    obtain ⟨_, -, hok⟩ := bind_eq_ok.mp hok
    obtain ⟨s₁, hpublish, hok⟩ := bind_eq_ok.mp hok
    obtain ⟨s₂, hwithdraw, hok⟩ := bind_eq_ok.mp hok
    obtain rfl := congrArg Prod.fst (pure_eq_ok.mp hok)
    have hfound : b ∈ s.experiments ∧ b.definition.blockId = request.block
        ∧ b.experimentId = request.expectedExperiment :=
      ⟨mem_of_blocks hb, blockId_of_blocks h hb, hexperiment⟩
    refine Or.inr ⟨b, (experiment_eq_some h).mpr hfound, hnew, ?_⟩
    have hset : ∀ next, s.setExperiment request.block request.expectedExperiment next
        = { s with blocks := s.blocks.insert request.block next } := by
      intro next
      unfold setExperiment
      rw [hb, if_pos (by simp [hexperiment])]
    refine transition_of_publish h ((experimentMut_eq_some h).mpr hfound) rfl Moves.to_rolledBack
      (Or.inr ⟨_, _, rfl⟩) (fun hstatus => absurd hstatus (by simp))
      (by rw [hset]; exact hpublish) ?_
    exact hwithdraw

end BitRouter.Evolution
