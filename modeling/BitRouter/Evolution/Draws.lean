import BitRouter.Evolution.Ledger

/-!
# Draws and the account of the trials

A session that is drawn is recorded in its enrollment and in the batch of the
experiment, with the next number of the owner. A batch takes it while it is
open, so while there is room, and closes when there is none left.
-/

namespace BitRouter.Evolution

open ControlState

variable {P : Primitives} {s s' : ControlState} {b b' next : BlockState}
  {enrollments : StrMap SessionEnrollment}

/-! ## One draw -/

variable {experiment : String}

theorem SessionEnrollment.challenges_iff {e : SessionEnrollment} :
    e.challenges experiment = true ↔ ∃ (id : String) (a : BlockAssignment),
      e.assignments[id]? = some a ∧ a.experimentId = experiment ∧ a.arm = .challenger := by
  unfold challenges
  rw [List.any_eq_true]
  constructor
  · rintro ⟨⟨id, a⟩, hmem, htest⟩
    simp only [Bool.and_eq_true, decide_eq_true_eq] at htest
    exact ⟨id, a, StrMap.mem_toList.mp hmem, htest.1, htest.2⟩
  · rintro ⟨id, a, ha, hid, harm⟩
    exact ⟨(id, a), StrMap.mem_toList.mpr ha, by simp [hid, harm]⟩

section Draw

variable {session id : String} {e : SessionEnrollment} {a : BlockAssignment} {arm : Arm}

def SessionEnrollment.assigned (e : SessionEnrollment) (id : String) (a : BlockAssignment) :
    SessionEnrollment :=
  { e with assignments := e.assignments.insert id a }

theorem SessionEnrollment.challenges_assigned (hnone : e.assignments[id]? = none)
    (experiment : String) : (e.assigned id a).challenges experiment
      = (e.challenges experiment || (a.experimentId = experiment && a.arm = Arm.challenger)) := by
  have hread : ∀ k : String, (e.assigned id a).assignments[k]?
      = if id = k then some a else e.assignments[k]? := fun k => StrMap.getElem?_insert _ _ _ _
  rw [Bool.eq_iff_iff, Bool.or_eq_true, challenges_iff, challenges_iff]
  simp only [hread, Bool.and_eq_true, decide_eq_true_eq]
  constructor
  · rintro ⟨k, a', ha', hrest⟩
    split at ha'
    · exact Or.inr (Option.some.inj ha' ▸ hrest)
    · exact Or.inl ⟨k, a', ha', hrest⟩
  · rintro (⟨k, a', ha', hrest⟩ | hrest)
    · refine ⟨k, a', ?_, hrest⟩
      rw [if_neg]
      · exact ha'
      · rintro rfl
        exact absurd (ha'.symm.trans hnone) (by simp)
    · exact ⟨id, a, if_pos rfl, hrest⟩

theorem member_assigned (he : enrollments[session]? = some e) (hnone : e.assignments[id]? = none)
    {sequence : ℕ} {session' : String} :
    Member (enrollments.insert session (e.assigned id a)) experiment sequence session' arm
      ↔ Member enrollments experiment sequence session' arm
        ∨ (session = session' ∧ a.experimentId = experiment ∧ a.batchSequence = sequence
          ∧ a.arm = arm) := by
  have hread : ∀ k : String, (e.assigned id a).assignments[k]?
      = if id = k then some a else e.assignments[k]? := fun k => StrMap.getElem?_insert _ _ _ _
  unfold Member
  simp only [StrMap.getElem?_insert]
  constructor
  · rintro ⟨e', k, a', he', ha', hrest⟩
    split at he'
    · next heq =>
      subst heq
      rw [← Option.some.inj he', hread] at ha'
      split at ha'
      · exact Or.inr ⟨rfl, Option.some.inj ha' ▸ hrest⟩
      · exact Or.inl ⟨e, k, a', he, ha', hrest⟩
    · exact Or.inl ⟨e', k, a', he', ha', hrest⟩
  · rintro (⟨e', k, a', he', ha', hrest⟩ | ⟨rfl, hrest⟩)
    · by_cases heq : session = session'
      · subst heq
        obtain rfl := Option.some.inj (he'.symm.trans he)
        refine ⟨_, k, a', if_pos rfl, ?_, hrest⟩
        rw [hread, if_neg]
        · exact ha'
        · rintro rfl
          exact absurd (ha'.symm.trans hnone) (by simp)
      · exact ⟨e', k, a', by rw [if_neg heq]; exact he', ha', hrest⟩
    · exact ⟨_, id, a, if_pos rfl, by rw [hread, if_pos rfl], hrest⟩

theorem challengers_assigned (he : enrollments[session]? = some e)
    (hnone : e.assignments[id]? = none)
    (hnot : a.experimentId = experiment → e.challenges experiment = false) :
    challengers (enrollments.insert session (e.assigned id a)) experiment
      = challengers enrollments experiment
        + if a.experimentId = experiment ∧ a.arm = .challenger then 1 else 0 := by
  have hcount := StrMap.count_insert_old (·.challenges experiment) (e.assigned id a) he
  rw [SessionEnrollment.challenges_assigned hnone] at hcount
  unfold challengers
  by_cases hsame : a.experimentId = experiment
  · rw [hnot hsame] at hcount
    simpa [hsame] using hcount
  · simp only [hsame, decide_false, Bool.false_and, Bool.or_false, false_and, if_false] at hcount ⊢
    omega

/-- **A fresh number**, given to a slot of a session that had none. -/
theorem Numbered.number {last : ℕ} (h : Numbered enrollments last)
    (he : enrollments[session]? = some e) {e' : SessionEnrollment} (slot : Slot)
    (hslot : e'.number slot = some (last + 1))
    (hothers : ∀ other, other ≠ slot → e'.number other = e.number other) :
    Numbered (enrollments.insert session e') (last + 1) := by
  -- a number is the fresh one, or was given before
  have hcases : ∀ (session' : String) slot' n,
      ((enrollments.insert session e')[session']?.bind (·.number slot')) = some n →
      (session' = session ∧ slot' = slot ∧ n = last + 1)
        ∨ (enrollments[session']?.bind (·.number slot')) = some n := by
    intro session' slot' n hn
    rw [StrMap.getElem?_insert] at hn
    split at hn
    · next heq =>
      subst heq
      by_cases hsame : slot' = slot
      · subst hsame
        exact Or.inl ⟨rfl, rfl, Option.some.inj (hn.symm.trans hslot)⟩
      · refine Or.inr ?_
        rw [he, Option.bind_some, ← hothers slot' hsame]
        exact hn
    · exact Or.inr hn
  constructor
  · intro session' slot' n hn
    rcases hcases session' slot' n hn with ⟨-, -, rfl⟩ | hn
    · exact Nat.le_refl _
    · exact (h.bound session' slot' n hn).trans (Nat.le_succ _)
  · intro session₁ session₂ slot₁ slot₂ n h₁ h₂
    rcases hcases session₁ slot₁ n h₁ with ⟨rfl, rfl, rfl⟩ | hold₁
    · rcases hcases session₂ slot₂ _ h₂ with ⟨rfl, rfl, -⟩ | hold₂
      · exact ⟨rfl, rfl⟩
      · exact absurd (h.bound session₂ slot₂ _ hold₂) (by omega)
    · rcases hcases session₂ slot₂ n h₂ with ⟨rfl, rfl, rfl⟩ | hold₂
      · exact absurd (h.bound session₁ slot₁ _ hold₁) (by omega)
      · exact h.distinct session₁ session₂ slot₁ slot₂ n hold₁ hold₂

section

variable (h : TrialAccount enrollments b) (he : enrollments[session]? = some e)
  (hnone : e.assignments[id]? = none)

include h he hnone

/-- A draw into another experiment. -/
theorem TrialAccount.other (hne : a.experimentId ≠ b.experimentId) :
    TrialAccount (enrollments.insert session (e.assigned id a)) b where
  counted := by
    rw [challengers_assigned he hnone (fun heq => absurd heq hne), if_neg (fun hand => hne hand.1)]
    exact h.counted
  within := h.within
  members session' arm := by
    rw [member_assigned he hnone, h.members]
    exact (or_iff_left fun hand => hne hand.2.1).symm
  size := h.size
  pending := h.pending
  room := h.room
  exposure := h.exposure

/-- **A draw into the open batch of an experiment.** -/
theorem TrialAccount.enrolled (hunassigned : e.challenges b.experimentId = false)
    (hid : a.experimentId = b.experimentId) (hsequence : a.batchSequence = b.batch.sequence)
    (harm : a.arm = arm) (hmember : session ∉ b.batch.members) (hopen : b.batch.closed = false)
    (hexhausted : b.exhausted = false) :
    TrialAccount (enrollments.insert session (e.assigned id a)) (b.enrolled session arm) := by
  have habsent : b.batch.members[session]? = none := by
    simpa using hmember
  have hsize : (b.enrolled session arm).batch.members.size = b.batch.members.size + 1 := by
    show (b.batch.members.insert session arm).size = _
    rw [Std.ExtTreeMap.size_insert, if_neg (mt Std.ExtTreeMap.contains_iff_mem.mp hmember)]
  have hpending : (b.enrolled session arm).pendingCandidates
      = b.pendingCandidates + if arm = .challenger then 1 else 0 := by
    show StrMap.count (fun arm => decide (arm = Arm.challenger))
      (b.batch.members.insert session arm)
      = StrMap.count (fun arm => decide (arm = Arm.challenger)) b.batch.members + _
    rw [StrMap.count_insert_new _ arm habsent]
    simp only [decide_eq_true_eq]
  obtain ⟨hroom, hchallengers⟩ := h.room hopen
  obtain ⟨hbelow, -⟩ := Bool.or_eq_false_iff.mp hexhausted
  have hbelow := Nat.lt_of_not_le (of_decide_eq_false hbelow)
  refine ⟨?_, ?_, ?_, ?_, ?_, ?_, h.exposure⟩
  · show b.assignedChallengerSessions + _ = challengers _ b.experimentId
    rw [challengers_assigned he hnone (fun _ => hunassigned), h.counted, hid, harm]
    simp
  · show b.assignedChallengerSessions + (if arm = .challenger then 1 else 0) ≤ _
    split
    · exact hbelow
    · exact h.within
  · intro session' arm'
    show (b.batch.members.insert session arm)[session']? = some arm'
      ↔ Member _ b.experimentId b.batch.sequence session' arm'
    rw [member_assigned he hnone, StrMap.getElem?_insert, ← h.members session' arm']
    split
    · next heq =>
      subst heq
      rw [habsent]
      simp [hid, hsequence, harm]
    · next hne => simp [hne]
  · rw [hsize]
    exact hroom
  · rw [hpending]
    show _ ≤ b.definition.bandit.maximumPendingChallenger
    split
    · exact hchallengers
    · exact hchallengers.le
  · intro hclosed
    have hclosed : (b.batch.closed || (b.enrolled session arm).full) = false := hclosed
    rw [hopen, Bool.false_or] at hclosed
    obtain ⟨hfull, -⟩ := Bool.or_eq_false_iff.mp hclosed
    obtain ⟨hsizes, hpendings⟩ := Bool.or_eq_false_iff.mp hfull
    exact ⟨Nat.lt_of_not_le (of_decide_eq_false hsizes),
      Nat.lt_of_not_le (of_decide_eq_false hpendings)⟩

end

/-- **A place reserved and recorded keeps the account.** -/
theorem Accounted.drawn (h : Accounted P s enrollments) (hb : s.blocks[id]? = some b)
    (hopen : b.batch.closed = false) (hmember : session ∉ b.batch.members)
    (hexhausted : b.exhausted = false) (he : enrollments[session]? = some e)
    (hnone : e.assignments[id]? = none) (hid : a.experimentId = b.experimentId)
    (hsequence : a.batchSequence = b.batch.sequence)
    (hnumber : a.assignmentSequence = s.nextAssignmentSequence + 1) (harm : a.arm = arm)
    (hpropensity : a.challengerPropensityPpm = b.lastExposurePpm)
    (hdraw : P.drawAssignment b.lastExposurePpm a.randomSeed = .ok arm) :
    Accounted P
      { s with
        nextAssignmentSequence := s.nextAssignmentSequence + 1
        blocks := s.blocks.insert id (b.enrolled session arm) }
      (enrollments.insert session (e.assigned id a)) := by
  have hsound := h.sound.genealogy
  have hmem := mem_of_blocks hb
  have hf : Rewrites (rewriteAt b.experimentId fun _ => b.enrolled session arm) s
      { s with
        nextAssignmentSequence := s.nextAssignmentSequence + 1
        blocks := s.blocks.insert id (b.enrolled session arm) } :=
    (rewrites_of_insert hsound hb (b.enrolled session arm)).of_maps_eq rfl rfl
  have henrolled : Drawn b (b.enrolled session arm) := ⟨_, _, rfl⟩
  have hself : rewriteAt b.experimentId (fun _ => b.enrolled session arm) b
      = b.enrolled session arm := if_pos rfl
  have hother : ∀ x ∈ s.experiments, x ≠ b →
      rewriteAt b.experimentId (fun _ => b.enrolled session arm) x = x := fun x hx hne =>
    if_neg fun heq => hne (eq_of_experimentId hsound hx hmem heq)
  -- the experiment of an assignment is found again
  have hagain : ∀ {id' : String} {a' : BlockAssignment}, Recorded P s id' a' → ∃ x ∈
      ControlState.experiments
        { s with
          nextAssignmentSequence := s.nextAssignmentSequence + 1
          blocks := s.blocks.insert id (b.enrolled session arm) },
      x.experimentId = a'.experimentId ∧ x.definition.blockId = id'
        ∧ a'.batchSequence ≤ x.batch.sequence
        ∧ x.definition.bandit.Admits a'.challengerPropensityPpm := by
    intro id' a' ha'
    obtain ⟨x, hx, hrest⟩ := ha'.experiment
    refine ⟨_, hf.mem_iff.mpr ⟨x, hx, rfl⟩, ?_⟩
    by_cases heq : x = b
    · subst heq
      rw [hself]
      exact hrest
    · rw [hother x hx heq]
      exact hrest
  have hunassigned : e.challenges b.experimentId = false := by
    rw [← Bool.not_eq_true, SessionEnrollment.challenges_iff]
    rintro ⟨k, a', ha', heq, -⟩
    have hkey := (h.eq_of_assigned he ha' hmem heq).1
    rw [blockId_of_blocks hsound hb] at hkey
    subst hkey
    exact absurd (ha'.symm.trans hnone) (by simp)
  refine ⟨h.sound.drawn ((drawnState_of_insert hsound hb henrolled).of_maps_eq rfl rfl),
    ?_, ?_, ?_⟩
  · intro session' e' he' id' a' ha'
    have hrecorded : Recorded P s id' a' ∨ (id' = id ∧ a' = a) := by
      rw [StrMap.getElem?_insert] at he'
      split at he'
      · rw [← Option.some.inj he'] at ha'
        have hread : (e.assigned id a).assignments[id']?
            = if id = id' then some a else e.assignments[id']? := StrMap.getElem?_insert _ _ _ _
        rw [hread] at ha'
        split at ha'
        · next heq => exact Or.inr ⟨heq.symm, (Option.some.inj ha').symm⟩
        · exact Or.inl (h.recorded session e he id' a' ha')
      · exact Or.inl (h.recorded session' e' he' id' a' ha')
    rcases hrecorded with hrecorded | ⟨rfl, rfl⟩
    · exact ⟨hrecorded.draw, hagain hrecorded⟩
    · have hkey := blockId_of_blocks hsound hb
      refine ⟨by rw [hpropensity, harm]; exact hdraw, b.enrolled session arm, ?_, hid.symm,
        hkey, hsequence.le, ?_⟩
      · exact hf.mem_iff.mpr ⟨b, hmem, hself⟩
      · rw [hpropensity]
        exact (h.trials b hmem).exposure
  · intro x' hx'
    obtain ⟨x, hx, rfl⟩ := hf.mem_iff.mp hx'
    by_cases heq : x = b
    · subst heq
      rw [hself]
      exact (h.trials x hx).enrolled he hnone hunassigned hid hsequence harm hmember hopen
        hexhausted
    · rw [hother x hx heq]
      refine (h.trials x hx).other he hnone fun hsame => heq ?_
      exact eq_of_experimentId hsound hx hmem (hsame.symm.trans hid)
  · refine h.numbered.number he (.assignment id) ?_ ?_
    · show ((e.assignments.insert id a)[id]?).map _ = _
      rw [StrMap.getElem?_insert, if_pos rfl, Option.map_some, hnumber]
    · intro other hne
      cases other with
      | monitoring _ => rfl
      | assignment k =>
        show ((e.assignments.insert id a)[k]?).map _ = _
        rw [StrMap.getElem?_insert, if_neg]
        · rfl
        · rintro rfl
          exact hne rfl

/-- **A batch closed for want of challengers keeps the account.** -/
theorem Accounted.closed (h : Accounted P s enrollments) (hb : s.blocks[id]? = some b) :
    Accounted P { s with blocks := s.blocks.insert id b.closeBatch } enrollments := by
  have hsound := h.sound.genealogy
  have hmem := mem_of_blocks hb
  have hf := rewrites_of_insert hsound hb b.closeBatch
  have hsame : ∀ x ∈ s.experiments, ∃ closed, rewriteAt b.experimentId (fun _ => b.closeBatch) x
      = { x with batch := { x.batch with closed := closed } }
        ∧ (closed = false → x.batch.closed = false) := by
    intro x hx
    unfold rewriteAt
    split
    · next heq =>
      rw [eq_of_experimentId hsound hx hmem heq]
      exact ⟨true, rfl, fun hfalse => absurd hfalse (by simp)⟩
    · exact ⟨x.batch.closed, rfl, fun hfalse => hfalse⟩
  refine ⟨h.sound.drawn (drawnState_of_insert hsound hb ⟨_, _, rfl⟩), ?_, ?_, h.numbered⟩
  · intro session' e' he' id' a' ha'
    obtain ⟨hdraw, x, hx, hrest⟩ := h.recorded session' e' he' id' a' ha'
    obtain ⟨closed, heq, -⟩ := hsame x hx
    exact ⟨hdraw, _, hf.mem_iff.mpr ⟨x, hx, heq⟩, hrest⟩
  · intro x' hx'
    obtain ⟨x, hx, rfl⟩ := hf.mem_iff.mp hx'
    obtain ⟨closed, heq, hopen⟩ := hsame x hx
    obtain ⟨hcounted, hwithin, hmembers, hsize, hpending, hroom, hexposure⟩ := h.trials x hx
    rw [heq]
    exact ⟨hcounted, hwithin, hmembers, hsize, hpending, fun hfalse => hroom (hopen hfalse),
      hexposure⟩

/-- **A membership numbered for monitoring keeps the account.** -/
theorem Accounted.monitored (h : Accounted P s enrollments) (he : enrollments[session]? = some e)
    (id : String) {m : AdoptionMonitoring}
    (hnumber : m.assignmentSequence = s.nextAssignmentSequence + 1) :
    Accounted P { s with nextAssignmentSequence := s.nextAssignmentSequence + 1 }
      (enrollments.insert session { e with monitoring := e.monitoring.insert id m }) := by
  -- the assignments are the same
  have hread : ∀ (k : String) e', (enrollments.insert session
      { e with monitoring := e.monitoring.insert id m })[k]? = some e' →
      ∃ e₀, enrollments[k]? = some e₀ ∧ e₀.assignments = e'.assignments := by
    intro k e' he'
    rw [StrMap.getElem?_insert] at he'
    split at he'
    · next heq => exact ⟨e, heq ▸ he, (congrArg (·.assignments) (Option.some.inj he'))⟩
    · exact ⟨e', he', rfl⟩
  have hmembers : ∀ {experiment : String} {sequence : ℕ} {session' : String} {arm : Arm},
      Member (enrollments.insert session { e with monitoring := e.monitoring.insert id m })
        experiment sequence session' arm ↔ Member enrollments experiment sequence session' arm := by
    intro experiment sequence session' arm
    constructor
    · rintro ⟨e', k, a', he', ha', hrest⟩
      obtain ⟨e₀, he₀, hsame⟩ := hread session' e' he'
      exact ⟨e₀, k, a', he₀, hsame ▸ ha', hrest⟩
    · rintro ⟨e', k, a', he', ha', hrest⟩
      by_cases heq : session = session'
      · subst heq
        obtain rfl := Option.some.inj (he'.symm.trans he)
        exact ⟨_, k, a', (StrMap.getElem?_insert _ _ _ _).trans (if_pos rfl), ha', hrest⟩
      · exact ⟨e', k, a', by rw [StrMap.getElem?_insert, if_neg heq]; exact he', ha', hrest⟩
  have hchallengers : ∀ experiment, challengers (enrollments.insert session
      { e with monitoring := e.monitoring.insert id m }) experiment
        = challengers enrollments experiment := fun experiment =>
    Nat.add_right_cancel (StrMap.count_insert_old (·.challenges experiment)
      { e with monitoring := e.monitoring.insert id m } he)
  refine ⟨h.sound.drawn ((DrawnState.refl s).of_maps_eq rfl rfl), ?_, ?_, ?_⟩
  · intro session' e' he' id' a' ha'
    obtain ⟨e₀, he₀, hsame⟩ := hread session' e' he'
    obtain ⟨hdraw, hexperiment⟩ := h.recorded session' e₀ he₀ id' a' (hsame ▸ ha')
    exact ⟨hdraw, hexperiment⟩
  · intro x hx
    obtain ⟨hcounted, hwithin, hmember, hsize, hpending, hroom, hexposure⟩ := h.trials x hx
    refine ⟨?_, hwithin, fun session' arm => (hmember session' arm).trans hmembers.symm, hsize,
      hpending, hroom, hexposure⟩
    rw [hchallengers]
    exact hcounted
  · refine h.numbered.number he (.monitoring id) ?_ ?_
    · show ((e.monitoring.insert id m)[id]?).map _ = _
      rw [StrMap.getElem?_insert, if_pos rfl, Option.map_some, hnumber]
    · intro other hne
      cases other with
      | assignment _ => rfl
      | monitoring k =>
        show ((e.monitoring.insert id m)[k]?).map _ = _
        rw [StrMap.getElem?_insert, if_neg]
        · rfl
        · rintro rfl
          exact hne rfl

end Draw

/-! ## A selection -/

/-- The trials open to a session, drawn one after another. -/
theorem Accounted.enrolled {input : Input} {references : StrMap String} {ids : List String}
    {acc acc' : ControlState × SessionEnrollment} (hnodup : ids.Nodup)
    (h : Accounted P acc.1 (enrollments.insert input.sessionKey acc.2))
    (hnone : ∀ id ∈ ids, acc.2.assignments[id]? = none)
    (hok : ids.foldlM (enrollStep P input references) acc = .ok acc') :
    Accounted P acc'.1 (enrollments.insert input.sessionKey acc'.2) := by
  induction ids generalizing acc with
  | nil =>
    obtain rfl := pure_eq_ok.mp hok
    exact h
  | cons id ids ih =>
    rw [List.foldlM_cons, bind_eq_ok] at hok
    obtain ⟨mid, hmid, hok⟩ := hok
    obtain ⟨hid, hids⟩ := List.nodup_cons.mp hnodup
    have hhere := hnone id List.mem_cons_self
    have hentry : (enrollments.insert input.sessionKey acc.2)[input.sessionKey]? = some acc.2 := by
      rw [StrMap.getElem?_insert, if_pos rfl]
    obtain ⟨s₁, e₁⟩ := mid
    rcases enrollStep_eq_ok hmid with ⟨hreserved, hsame⟩
      | ⟨allocation, b, a, hreserved, hb, haid, hasequence, hanumber, haarm, hapropensity, haseed,
        -, hassigned⟩
    · obtain rfl : e₁ = acc.2 := hsame
      refine @ih (s₁, acc.2) hids ?_ (fun id' hid' => hnone id' (List.mem_cons_of_mem _ hid')) hok
      show Accounted P s₁ _
      generalize hnothing : (none : Option TrialAllocation) = nothing at hreserved
      cases hreserved with
      | refused => exact h
      | closed b hb _ _ => exact h.closed hb
      | drawn b arm _ _ _ _ _ _ _ _ => exact absurd hnothing (by simp)
    · obtain rfl : e₁ = acc.2.assigned id a := hassigned
      refine ih hids ?_ (fun id' hid' => ?_) hok
      · generalize hsomething : some allocation = something at hreserved
        have hblocks : s₁.blocks[id]? = some b := hb
        cases hreserved with
        | refused => exact absurd hsomething (by simp)
        | closed _ _ _ _ => exact absurd hsomething (by simp)
        | drawn b₀ arm hb₀ hmode hstatus hopen hmatch hmember hexhausted hdraw =>
          obtain rfl := Option.some.inj hsomething
          have hread : (acc.1.blocks.insert id (b₀.enrolled input.sessionKey arm))[id]?
              = some b := hblocks
          rw [StrMap.getElem?_insert, if_pos rfl] at hread
          have hexperiment : a.experimentId = b₀.experimentId := by
            rw [haid, ← Option.some.inj hread]
            rfl
          have hdrawn := h.drawn hb₀ hopen hmember hexhausted hentry hhere hexperiment hasequence
            hanumber haarm hapropensity (haseed ▸ hdraw)
          rw [StrMap.insert_insert] at hdrawn
          exact hdrawn
      · show (acc.2.assignments.insert id a)[id']? = none
        rw [StrMap.getElem?_insert, if_neg]
        · exact hnone id' (List.mem_cons_of_mem _ hid')
        · rintro rfl
          exact hid hid'

theorem Accounted.monitoredAll {input : Input} {references : StrMap String}
    {adopted : List (String × String)} {acc acc' : ControlState × SessionEnrollment}
    (h : Accounted P acc.1 (enrollments.insert input.sessionKey acc.2))
    (hok : adopted.foldlM (monitorStep P input references) acc = .ok acc') :
    Accounted P acc'.1 (enrollments.insert input.sessionKey acc'.2)
      ∧ acc'.2.assignments = acc.2.assignments := by
  refine foldlM_ok_preserves (P := fun x : ControlState × SessionEnrollment =>
    Accounted P x.1 (enrollments.insert input.sessionKey x.2)
      ∧ x.2.assignments = acc.2.assignments) ?_ ⟨h, rfl⟩ hok
  rintro x entry x' - ⟨hx, hsame⟩ hstep
  rcases monitorStep_eq_ok hstep with rfl | ⟨membership, hnumber, rfl⟩
  · exact ⟨hx, hsame⟩
  · have hentry : (enrollments.insert input.sessionKey x.2)[input.sessionKey]? = some x.2 := by
      rw [StrMap.getElem?_insert, if_pos rfl]
    have hmonitored := hx.monitored hentry entry.1 hnumber
    rw [StrMap.insert_insert] at hmonitored
    exact ⟨hmonitored, hsame⟩

/-- **A session enters with nothing recorded.** -/
theorem Accounted.entered (h : Accounted P s enrollments) {session : String}
    {e : SessionEnrollment} (hnew : enrollments[session]? = none) (hassignments : e.assignments = ∅)
    (hmonitoring : e.monitoring = ∅) : Accounted P s (enrollments.insert session e) := by
  have hread : ∀ (k : String) e', (enrollments.insert session e)[k]? = some e' →
      enrollments[k]? = some e' ∨ (session = k ∧ e' = e) := by
    intro k e' he'
    rw [StrMap.getElem?_insert] at he'
    split at he'
    · next heq => exact Or.inr ⟨heq, (Option.some.inj he').symm⟩
    · exact Or.inl he'
  have hnothing : ∀ (id : String), e.assignments[id]? = none := fun id => by
    rw [hassignments, StrMap.getElem?_empty]
  have hkept : ∀ (k : String) e', enrollments[k]? = some e' →
      (enrollments.insert session e)[k]? = some e' := by
    intro k e' he'
    rw [StrMap.getElem?_insert, if_neg]
    · exact he'
    · rintro rfl
      exact absurd (he'.symm.trans hnew) (by simp)
  have hnumber : ∀ slot, e.number slot = none := by
    intro slot
    cases slot with
    | assignment id =>
      show e.assignments[id]?.map _ = none
      rw [hnothing, Option.map_none]
    | monitoring id =>
      show e.monitoring[id]?.map _ = none
      rw [hmonitoring, StrMap.getElem?_empty, Option.map_none]
  refine ⟨h.sound, ?_, ?_, ?_⟩
  · intro session' e' he' id a ha
    rcases hread session' e' he' with he' | ⟨-, rfl⟩
    · exact h.recorded session' e' he' id a ha
    · exact absurd (ha.symm.trans (hnothing id)) (by simp)
  · intro b hb
    obtain ⟨hcounted, hwithin, hmembers, hsize, hpending, hroom, hexposure⟩ := h.trials b hb
    refine ⟨?_, hwithin, fun session' arm => ?_, hsize, hpending, hroom, hexposure⟩
    · have hnot : e.challenges b.experimentId = false := by
        rw [← Bool.not_eq_true, SessionEnrollment.challenges_iff]
        rintro ⟨id, a, ha, -⟩
        exact absurd (ha.symm.trans (hnothing id)) (by simp)
      have hcount := StrMap.count_insert_new (·.challenges b.experimentId) e hnew
      rw [hnot] at hcount
      exact hcounted.trans hcount.symm
    · refine (hmembers session' arm).trans ⟨?_, ?_⟩
      · rintro ⟨e', id, a, he', ha, hrest⟩
        exact ⟨e', id, a, hkept session' e' he', ha, hrest⟩
      · rintro ⟨e', id, a, he', ha, hrest⟩
        rcases hread session' e' he' with he' | ⟨-, rfl⟩
        · exact ⟨e', id, a, he', ha, hrest⟩
        · exact absurd (ha.symm.trans (hnothing id)) (by simp)
  · have hold : ∀ (session' : String) slot n,
        ((enrollments.insert session e)[session']?.bind (·.number slot)) = some n →
        (enrollments[session']?.bind (·.number slot)) = some n := by
      intro session' slot n hn
      obtain ⟨e', he', hnum⟩ := Option.bind_eq_some_iff.mp hn
      rcases hread session' e' he' with he' | ⟨-, rfl⟩
      · rw [he']
        exact hnum
      · exact absurd (hnum.symm.trans (hnumber slot)) (by simp)
    exact ⟨fun session' slot n hn => h.numbered.bound session' slot n (hold _ _ _ hn),
      fun session₁ session₂ slot₁ slot₂ n h₁ h₂ =>
        h.numbered.distinct session₁ session₂ slot₁ slot₂ n (hold _ _ _ h₁) (hold _ _ _ h₂)⟩

theorem eligible_nodup (s : ControlState) (input : Input) : (s.eligible input).Nodup := by
  refine ((StrMap.nodup_toList s.blocks).filter _).map_on ?_
  intro x hx y hy heq
  have hx := StrMap.mem_toList.mp (List.mem_filter.mp hx).1
  have hy := StrMap.mem_toList.mp (List.mem_filter.mp hy).1
  refine Prod.ext heq ?_
  rw [heq, hy] at hx
  exact (Option.some.inj hx).symm

theorem select_known {input : Input} (hold : input.isNew = false) {e : SessionEnrollment}
    {intent : RouteIntent} (hok : s.select P input = .ok (s', e, intent)) :
    s' = s ∧ e = input.enrollment := by
  obtain ⟨monitored, hmonitored, hok⟩ := bind_eq_ok.mp hok
  obtain ⟨⟨s₂, enrolled⟩, henrolled, hok⟩ := bind_eq_ok.mp hok
  obtain ⟨routing, -, hok⟩ := bind_eq_ok.mp hok
  obtain ⟨rfl, hrest⟩ := Prod.mk.inj (pure_eq_ok.mp hok)
  obtain ⟨rfl, -⟩ := Prod.mk.inj hrest
  unfold monitorNew at hmonitored
  rw [hold, if_neg (by simp)] at hmonitored
  obtain rfl := Except.ok.inj hmonitored
  unfold enrollNew at henrolled
  rw [hold, if_neg (by simp)] at henrolled
  obtain ⟨rfl, rfl⟩ := Prod.mk.inj (Except.ok.inj henrolled)
  exact ⟨rfl, rfl⟩

/-- **A selection of a new session keeps the account**, its enrollment stored. -/
theorem Accounted.select (h : Accounted P s enrollments) {input : Input}
    (hnew : enrollments[input.sessionKey]? = none)
    (hassignments : input.enrollment.assignments = ∅)
    (hmonitoring : input.enrollment.monitoring = ∅)
    {e : SessionEnrollment} {intent : RouteIntent}
    (hok : s.select P input = .ok (s', e, intent)) :
    Accounted P s' (enrollments.insert input.sessionKey e) := by
  obtain ⟨monitored, hmonitored, hok⟩ := bind_eq_ok.mp hok
  obtain ⟨⟨s₂, enrolled⟩, henrolled, hok⟩ := bind_eq_ok.mp hok
  obtain ⟨routing, -, hok⟩ := bind_eq_ok.mp hok
  obtain ⟨rfl, hrest⟩ := Prod.mk.inj (pure_eq_ok.mp hok)
  obtain ⟨rfl, -⟩ := Prod.mk.inj hrest
  have hentered := h.entered hnew hassignments hmonitoring
  have hafter : Accounted P monitored.1 (enrollments.insert input.sessionKey monitored.2)
      ∧ monitored.2.assignments = ∅ := by
    unfold monitorNew at hmonitored
    split at hmonitored
    · obtain ⟨hacc, hsame⟩ := Accounted.monitoredAll hentered hmonitored
      exact ⟨hacc, hsame.trans hassignments⟩
    · obtain rfl := Except.ok.inj hmonitored
      exact ⟨hentered, hassignments⟩
  unfold enrollNew at henrolled
  split at henrolled
  · refine hafter.1.enrolled (eligible_nodup _ _) (fun id _ => ?_) henrolled
    rw [hafter.2, StrMap.getElem?_empty]
  · obtain rfl := Except.ok.inj henrolled
    exact hafter.1

end BitRouter.Evolution
