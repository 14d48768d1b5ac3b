import BitRouter.Evolution.Store

/-!
# What a session keeps

Over everything that happens between two requests of a session, the session
keeps its enrollment, and with it the experiments it is routed by. It runs a
challenger only when it was drawn as one, or entered after the adoption; where
it does not, it gets the route of the baseline that is still supported.
-/

namespace BitRouter.Evolution

open ControlState

variable {P : Primitives} {C : Clock} {s s' : ControlState}

/-! ## Routes -/

/-- **A route and the rule it comes from**: the block that is applied is one the
session knows, and the route is its challenger, or that of its baseline. -/
structure Routed (s : ControlState) (context : DecisionContext) (trialReady : Bool)
    (e : SessionEnrollment) (id route : String) (block : BlockState)
    (rule baselineRule : BlockRule) : Prop where
  pinned : s.pinned e id = .ok (some block)
  hits : block.ruleFor context = some rule
  baseline : ∃ baseline passed, s.baselineSource block = .ok (baseline, passed)
    ∧ baseline.definition.ruleOf rule.matcher = some baselineRule
  taken : route = if s.candidate e trialReady id block then rule.challengerRoute
    else baselineRule.baselineRoute

/-- Either no block is applied and the request passes through, or its route
comes from the block. -/
def RouteOf (s : ControlState) (input : Input) (e : SessionEnrollment) (routing : Routing) : Prop :=
  (routing.appliedBlock = none ∧ routing.selectedRoute = input.context.selector)
    ∨ ∃ id block rule baselineRule, routing.appliedBlock = some id
      ∧ Routed s input.context input.dependencies.trialReady e id routing.selectedRoute block rule
        baselineRule

variable {e : SessionEnrollment} {id : String} {input : Input}

theorem routeStep_eq_ok {routing routing' : Routing} (h : RouteOf s input e routing)
    (hok : s.routeStep input e routing id = .ok routing') : RouteOf s input e routing' := by
  obtain ⟨pinned, hpinned, hok⟩ := bind_eq_ok.mp hok
  cases pinned with
  | none =>
    obtain rfl := pure_eq_ok.mp hok
    exact h
  | some block =>
    dsimp only at hok
    split at hok
    · obtain rfl := pure_eq_ok.mp hok
      exact h
    · split at hok
      · obtain rfl := pure_eq_ok.mp hok
        exact h
      · next rule hrule =>
        unfold routeByRule at hok
        split at hok
        · obtain rfl := pure_eq_ok.mp hok
          exact h
        · obtain ⟨⟨baseline, passed⟩, hbaseline, hok⟩ := bind_eq_ok.mp hok
          dsimp only at hok
          split at hok
          · obtain rfl := pure_eq_ok.mp hok
            exact h
          · obtain ⟨baselineRule, hfound, hok⟩ := bind_eq_ok.mp hok
            obtain rfl := pure_eq_ok.mp hok
            exact Or.inr ⟨id, block, rule, baselineRule, rfl, hpinned, hrule,
              ⟨baseline, passed, hbaseline, orFail_eq_ok.mp hfound⟩, rfl⟩

theorem route_eq_ok {routing : Routing} (hok : s.route input e = .ok routing) :
    RouteOf s input e routing := by
  obtain ⟨found, hfound, hok⟩ := bind_eq_ok.mp hok
  have hroute : RouteOf s input e found := foldlM_ok_preserves
    (fun _ _ _ _ h hstep => routeStep_eq_ok h hstep) (Or.inl ⟨rfl, rfl⟩) hfound
  obtain rfl := pure_eq_ok.mp hok
  cases input.bypass with
  | none => exact hroute
  | some reason => exact Or.inl ⟨rfl, rfl⟩

/-- A session that may run the challenger of an experiment: drawn as one, or
admitted after the adoption. -/
def SessionEnrollment.entitled (e : SessionEnrollment) (id : String) (block : BlockState) : Bool :=
  (e.assignment id block).any (·.arm = .challenger)
    || ((e.assignment id block).isNone && e.adoptedBlocks[id]? = some block.experimentId)

/-- **Only an entitled session runs a challenger**: while its experiment is
adopted, or in the trial epoch it was drawn in. -/
theorem entitled_of_candidate {trialReady : Bool} {block : BlockState}
    (h : s.candidate e trialReady id block = true) :
    e.entitled id block = true ∧ (block.status = .adopted
      ∨ ∃ a, e.assignment id block = some a ∧ a.arm = .challenger
          ∧ a.trialEpoch = s.trialEpoch) := by
  obtain ⟨-, h⟩ := (Bool.and_eq_true _ _).mp h
  rcases (Bool.or_eq_true _ _).mp h with h | h
  · obtain ⟨hstatus, h⟩ := (Bool.and_eq_true _ _).mp h
    exact ⟨h, Or.inl (of_decide_eq_true hstatus)⟩
  · obtain ⟨-, h⟩ := (Bool.and_eq_true _ _).mp h
    obtain ⟨a, ha, htest⟩ := (Option.any_eq_true _ _).mp h
    obtain ⟨hepoch, harm⟩ := (Bool.and_eq_true _ _).mp htest
    have harm := of_decide_eq_true harm
    refine ⟨?_, Or.inr ⟨a, ha, harm, of_decide_eq_true hepoch⟩⟩
    unfold SessionEnrollment.entitled
    rw [ha]
    simp [harm]

/-- **A session that is not entitled gets the route of the baseline in force.** -/
theorem Routed.of_not_entitled {context : DecisionContext} {trialReady : Bool} {route : String}
    {block : BlockState} {rule baselineRule : BlockRule}
    (h : Routed s context trialReady e id route block rule baselineRule)
    (hnot : e.entitled id block = false) :
    route = baselineRule.baselineRoute := by
  rw [h.taken, if_neg]
  intro hcandidate
  exact absurd ((entitled_of_candidate hcandidate).1.symm.trans hnot) (by simp)

/-! ## Epochs -/

/-- A draw moves neither the mode nor an epoch. -/
structure SameEpochs (s s' : ControlState) : Prop where
  mode : s'.mode = s.mode
  modeEpoch : s'.modeEpoch = s.modeEpoch
  trialEpoch : s'.trialEpoch = s.trialEpoch
  generation : s'.generation = s.generation

theorem SameEpochs.refl (s : ControlState) : SameEpochs s s := ⟨rfl, rfl, rfl, rfl⟩

theorem SameEpochs.trans {s'' : ControlState} (h : SameEpochs s s') (h' : SameEpochs s' s'') :
    SameEpochs s s'' :=
  ⟨h'.mode.trans h.mode, h'.modeEpoch.trans h.modeEpoch, h'.trialEpoch.trans h.trialEpoch,
    h'.generation.trans h.generation⟩

theorem Reserved.sameEpochs {session : String} {seed : ℕ} {allocation : Option TrialAllocation}
    (h : Reserved P s id session seed s' allocation) : SameEpochs s s' := by
  cases h with
  | refused => exact .refl s
  | closed _ _ _ _ => exact ⟨rfl, rfl, rfl, rfl⟩
  | drawn _ _ _ _ _ _ _ _ _ _ => exact ⟨rfl, rfl, rfl, rfl⟩

/-- What a selection makes of the enrollment it is given: it adds assignments of
the trial epoch and memberships. -/
structure Admitted (s : ControlState) (e e' : SessionEnrollment) : Prop where
  identity : e'.identity = e.identity
  pins : e'.blockExperiments = e.blockExperiments
  adopted : e'.adoptedBlocks = e.adoptedBlocks
  drawn : ∀ (id : String) a, e'.assignments[id]? = some a →
    e.assignments[id]? = some a ∨ a.trialEpoch = s.trialEpoch

/-- **A selection leaves the epochs and only adds to the enrollment**, and its
intent is for the route of the state it leaves. -/
theorem select_eq_ok {intent : RouteIntent} (hok : s.select P input = .ok (s', e, intent)) :
    SameEpochs s s' ∧ Admitted s input.enrollment e
      ∧ ∃ routing, s'.route input e = .ok routing ∧ intent = s'.intentOf input e routing := by
  obtain ⟨monitored, hmonitored, hok⟩ := bind_eq_ok.mp hok
  obtain ⟨⟨s₂, enrolled⟩, henrolled, hok⟩ := bind_eq_ok.mp hok
  obtain ⟨routing, hrouting, hok⟩ := bind_eq_ok.mp hok
  obtain ⟨rfl, hrest⟩ := Prod.mk.inj (pure_eq_ok.mp hok)
  obtain ⟨rfl, rfl⟩ := Prod.mk.inj hrest
  have hmonitoring : SameEpochs s monitored.1 ∧ Admitted s input.enrollment monitored.2 := by
    unfold monitorNew at hmonitored
    split at hmonitored
    · refine foldlM_ok_preserves (P := fun acc : ControlState × SessionEnrollment =>
        SameEpochs s acc.1 ∧ Admitted s input.enrollment acc.2) ?_
        ⟨.refl s, rfl, rfl, rfl, fun _ _ ha => Or.inl ha⟩ hmonitored
      rintro acc adopted acc' - ⟨hepochs, hadmitted⟩ hstep
      rcases monitorStep_eq_ok hstep with rfl | ⟨membership, -, rfl⟩
      · exact ⟨hepochs, hadmitted⟩
      · exact ⟨hepochs.trans ⟨rfl, rfl, rfl, rfl⟩, hadmitted.identity, hadmitted.pins,
          hadmitted.adopted, hadmitted.drawn⟩
    · obtain rfl := Except.ok.inj hmonitored
      exact ⟨.refl s, rfl, rfl, rfl, fun _ _ ha => Or.inl ha⟩
  have hboth : SameEpochs s s₂ ∧ Admitted s input.enrollment enrolled := by
    unfold enrollNew at henrolled
    split at henrolled
    · refine foldlM_ok_preserves (P := fun acc : ControlState × SessionEnrollment =>
        SameEpochs s acc.1 ∧ Admitted s input.enrollment acc.2) ?_ hmonitoring henrolled
      rintro acc id acc' - ⟨hepochs, hadmitted⟩ hstep
      rcases enrollStep_eq_ok hstep with ⟨hreserved, hsame⟩
        | ⟨allocation, b, a, hreserved, -, -, -, -, -, -, -, hepoch, hassigned⟩
      · exact ⟨hepochs.trans hreserved.sameEpochs, hsame ▸ hadmitted⟩
      · have hepochs' := hepochs.trans hreserved.sameEpochs
        refine ⟨hepochs', ?_⟩
        rw [hassigned]
        refine ⟨hadmitted.identity, hadmitted.pins, hadmitted.adopted, fun k a' ha' => ?_⟩
        have hread : (acc.2.assignments.insert id a)[k]? = some a' := ha'
        rw [StrMap.getElem?_insert] at hread
        split at hread
        · rw [← Option.some.inj hread, hepoch]
          exact Or.inr hepochs'.trialEpoch
        · exact hadmitted.drawn k a' hread
    · obtain rfl := Except.ok.inj henrolled
      exact hmonitoring
  exact ⟨hboth.1, hboth.2, routing, hrouting, rfl⟩

/-- **The trial epoch never goes back.** -/
theorem Operation.trialEpoch_le (h : s.genealogy.Sound P) {op : Operation}
    (hok : op.apply P s = .ok s') : s.trialEpoch ≤ s'.trialEpoch := by
  cases op with
  | setMode mode judgeModel now => exact (setMode_eq_ok hok).2.2.2
  | register definition configDigest => exact (register_eq_ok hok).steady.trialEpoch.ge
  | revise definition routingDigest predecessor reset =>
    obtain ⟨previous, baseline, passed, next, hr⟩ := revise_eq_ok hok
    exact hr.steady.trialEpoch.ge
  | plan blockId e learned resolved =>
    obtain ⟨⟨_, published⟩, hanswer, rfl⟩ := map_eq_ok.mp hok
    rcases applyExperimentPlan_eq_ok h hanswer with heq | ⟨_, _, _, -, -, -, -, ht⟩
    · exact heq ▸ Nat.le_refl _
    · exact ht.steady.trialEpoch.ge
  | monitoring blockId e monitor =>
    obtain ⟨⟨_, published⟩, hanswer, rfl⟩ := map_eq_ok.mp hok
    rcases applyExperimentMonitoring_eq_ok h hanswer with heq | ⟨_, -, -, ht⟩
    · exact heq ▸ Nat.le_refl _
    · exact ht.steady.trialEpoch.ge
  | restore request =>
    obtain ⟨⟨_, publication⟩, hanswer, rfl⟩ := map_eq_ok.mp hok
    rcases restore_eq_ok h hanswer with heq | ⟨_, -, -, ht⟩
    · exact heq ▸ Nat.le_refl _
    · exact ht.steady.trialEpoch.ge

/-! ## Pinned experiments -/

variable {b : BlockState}

/-- **A pinned experiment stays the experiment of the session.** -/
theorem pinned_of_moved (h : s.genealogy.Sound P) (h' : s'.genealogy.Sound P)
    (hmoved : ∀ b ∈ s.experiments, ∃ b' ∈ s'.experiments, b'.lineage = b.lineage)
    (hpins : e.blockExperiments.isSome = true) (hb : s.pinned e id = .ok (some b)) :
    ∃ b', s'.pinned e id = .ok (some b') ∧ b'.lineage = b.lineage := by
  obtain ⟨pins, hsome⟩ := Option.isSome_iff_exists.mp hpins
  unfold pinned at hb ⊢
  rw [hsome] at hb ⊢
  dsimp only at hb ⊢
  cases hpin : pins[id]? with
  | none =>
    rw [hpin] at hb
    exact absurd (Except.ok.inj hb) (by simp)
  | some experiment =>
    rw [hpin] at hb
    obtain ⟨found, hfound, heq⟩ := map_eq_ok.mp hb
    obtain rfl := Option.some.inj heq
    obtain ⟨hmem, hblock, hid⟩ := (experiment_eq_some h).mp (orFail_eq_ok.mp hfound)
    obtain ⟨b', hb', hlineage⟩ := hmoved found hmem
    have hfound' : s'.experiment id (some experiment) = some b' := (experiment_eq_some h').mpr
      ⟨hb', (congrArg (·.definition.blockId) hlineage).trans hblock,
        (congrArg (·.experimentId) hlineage).trans hid⟩
    refine ⟨b', ?_, hlineage⟩
    dsimp only
    rw [hfound']
    rfl

theorem original_of_from {fuel : ℕ} {seen : List String} {first : BlockState}
    (h : s.originalFrom id fuel seen b = .ok first) : first.predecessorExperimentId = none := by
  induction fuel generalizing seen b with
  | zero => exact absurd h (by simp [originalFrom])
  | succ fuel ih =>
    unfold originalFrom at h
    split at h
    · next hnone => exact Except.ok.inj h ▸ hnone
    · split at h
      · exact absurd h (by simp)
      · split at h
        · exact absurd h (by simp)
        · exact ih h

/-- **A session without pinned experiments is routed by what its records name, or
by the original experiment.** -/
theorem pinned_of_legacy (h : s.genealogy.Sound P) (hlegacy : e.blockExperiments = none)
    (hb : s.pinned e id = .ok (some b)) :
    (∃ a, e.assignments[id]? = some a ∧ b.experimentId = a.experimentId)
      ∨ e.adoptedBlocks[id]? = some b.experimentId ∨ b.predecessorExperimentId = none := by
  unfold pinned at hb
  rw [hlegacy] at hb
  dsimp only at hb
  split at hb
  · next a ha =>
    obtain ⟨found, hfound, heq⟩ := map_eq_ok.mp hb
    obtain rfl := Option.some.inj heq
    exact Or.inl ⟨a, ha, ((experiment_eq_some h).mp (orFail_eq_ok.mp hfound)).2.2⟩
  · split at hb
    · next experiment hadopted =>
      obtain ⟨found, hfound, heq⟩ := map_eq_ok.mp hb
      obtain rfl := Option.some.inj heq
      have hid := ((experiment_eq_some h).mp (orFail_eq_ok.mp hfound)).2.2
      exact Or.inr (Or.inl (hid ▸ hadopted))
    · obtain ⟨found, hfound, heq⟩ := map_eq_ok.mp hb
      obtain rfl := Option.some.inj heq
      obtain ⟨current, -, hwalk⟩ := bind_eq_ok.mp hfound
      exact Or.inr (Or.inr (original_of_from hwalk))

namespace Store

variable {store store' : Store} {r : Request}

/-! ## What a request does -/

/-- **What a request does**: it finds no control state, its recorded intent, or
it is selected for and recorded. -/
inductive Answered (P : Primitives) (C : Clock) (store : Store) (r : Request) :
    Store → Option RouteIntent → Prop
  | absent : store.control = none → Answered P C store r store none
  | replayed (intent : RouteIntent) : store.intents[r.requestId]? = some intent →
    intent.identity = r.identity → Answered P C store r store (some intent)
  | selected (s s' : ControlState) (input : Input) (e : SessionEnrollment) (intent : RouteIntent) :
    store.control = some s → store.intents[r.requestId]? = none → input.identity = r.identity →
    input.context = r.context → input.dependencies = r.dependencies →
    input.sessionKey = C.keyOf r.identity → input.enrollment.identity = r.identity →
    input.Fits store.enrollments →
    (input.isNew = true → ∃ head b, input.enrollment = s.firstEnrollment r head b) →
    s.select P input = .ok (s', e, intent) →
    Answered P C store r
      { store with
        control := some s'
        enrollments := if input.isNew then store.enrollments.insert input.sessionKey e
          else store.enrollments
        intents := store.intents.insert r.requestId intent } (some intent)

theorem selectWithBypass_eq_ok {answer : Option RouteIntent}
    (hok : store.selectWithBypass P C r = .ok (store', answer)) :
    Answered P C store r store' answer := by
  obtain ⟨_, -, hok⟩ := bind_eq_ok.mp hok
  obtain ⟨_, -, hok⟩ := bind_eq_ok.mp hok
  cases hcontrol : store.control with
  | none =>
    rw [hcontrol] at hok
    obtain ⟨rfl, rfl⟩ := Prod.mk.inj (pure_eq_ok.mp hok)
    exact .absent hcontrol
  | some s =>
    rw [hcontrol] at hok
    obtain ⟨key, hkey, hok⟩ := bind_eq_ok.mp hok
    obtain ⟨_, -, hkey⟩ := bind_eq_ok.mp hkey
    obtain rfl := pure_eq_ok.mp hkey
    obtain ⟨⟨next, intent⟩, htransact, hok⟩ := bind_eq_ok.mp hok
    obtain ⟨rfl, rfl⟩ := Prod.mk.inj (pure_eq_ok.mp hok)
    obtain ⟨_, -, htransact⟩ := bind_eq_ok.mp htransact
    obtain ⟨session, -, htransact⟩ := bind_eq_ok.mp htransact
    obtain ⟨_, -, htransact⟩ := bind_eq_ok.mp htransact
    cases hintent : store.intents[r.requestId]? with
    | some recorded =>
      rw [hintent] at htransact
      obtain ⟨replayed, hreplay, heq⟩ := map_eq_ok.mp htransact
      obtain ⟨rfl, rfl⟩ := Prod.mk.inj heq
      obtain ⟨_, hsame, hreplay⟩ := bind_eq_ok.mp hreplay
      obtain ⟨_, -, hreplay⟩ := bind_eq_ok.mp hreplay
      obtain ⟨_, -, hreplay⟩ := bind_eq_ok.mp hreplay
      obtain ⟨_, -, hreplay⟩ := bind_eq_ok.mp hreplay
      obtain rfl := pure_eq_ok.mp hreplay
      exact .replayed _ hintent (ensure_eq_ok.mp hsame).1
    | none =>
      rw [hintent] at htransact
      obtain ⟨enrollment, henrollment, hanswer⟩ := bind_eq_ok.mp htransact
      obtain ⟨_, hidentity, hanswer⟩ := bind_eq_ok.mp hanswer
      obtain ⟨⟨s', enrolled, intent⟩, hselect, hanswer⟩ := bind_eq_ok.mp hanswer
      obtain ⟨rfl, rfl⟩ := Prod.mk.inj (pure_eq_ok.mp hanswer)
      refine .selected s s' _ enrolled _ hcontrol hintent rfl rfl rfl rfl
        (ensure_eq_ok.mp hidentity) ?_ ?_ hselect
      · unfold Store.enrollment at henrollment
        cases hknown : store.enrollments[C.keyOf r.identity]? with
        | some known =>
          rw [hknown] at henrollment
          exact Or.inr ⟨rfl, hknown.trans (congrArg some (Except.ok.inj henrollment))⟩
        | none =>
          rw [hknown] at henrollment
          obtain ⟨b, -, rfl⟩ := map_eq_ok.mp henrollment
          exact Or.inl ⟨rfl, hknown, rfl, rfl⟩
      · intro hnew
        have hnone := Option.isNone_iff_eq_none.mp hnew
        unfold Store.enrollment at henrollment
        rw [hnone] at henrollment
        obtain ⟨b, -, rfl⟩ := map_eq_ok.mp henrollment
        exact ⟨session.head, b, rfl⟩

/-! ## Sound stores -/

/-- **A sound store**: its control state is sound, its sessions were drawn in
epochs that have come, and every intent is one of an enrolled session. -/
structure Sound (P : Primitives) (C : Clock) (store : Store) : Prop where
  state : store.state.Sound P
  epochs : ∀ (key : String) e, store.enrollments[key]? = some e →
    ∀ (id : String) a, e.assignments[id]? = some a → a.trialEpoch ≤ store.state.trialEpoch
  enrolled : ∀ (q : String) i, store.intents[q]? = some i → store.control ≠ none
    ∧ ∃ e, store.enrollments[C.keyOf i.identity]? = some e

/-- What later steps of a store keep. -/
structure Extends (store store' : Store) : Prop where
  enrollments : ∀ (key : String) e, store.enrollments[key]? = some e →
    store'.enrollments[key]? = some e
  intents : ∀ (q : String) i, store.intents[q]? = some i → store'.intents[q]? = some i
  trialEpoch : store.state.trialEpoch ≤ store'.state.trialEpoch
  moved : ∀ b ∈ store.state.experiments, ∃ b' ∈ store'.state.experiments, b'.lineage = b.lineage

namespace Extends

theorem refl (store : Store) : Extends store store :=
  ⟨fun _ _ h => h, fun _ _ h => h, Nat.le_refl _, fun b hb => ⟨b, hb, rfl⟩⟩

theorem trans {store'' : Store} (h : Extends store store') (h' : Extends store' store'') :
    Extends store store'' where
  enrollments key e he := h'.enrollments key e (h.enrollments key e he)
  intents q i hi := h'.intents q i (h.intents q i hi)
  trialEpoch := h.trialEpoch.trans h'.trialEpoch
  moved b hb := by
    obtain ⟨b', hb', hlineage⟩ := h.moved b hb
    obtain ⟨b'', hb'', hlineage'⟩ := h'.moved b' hb'
    exact ⟨b'', hb'', hlineage'.trans hlineage⟩

end Extends

theorem Answered.step {answer : Option RouteIntent} (h : store.Sound P C)
    (hanswered : Answered P C store r store' answer) : store'.Sound P C ∧ Extends store store' := by
  cases hanswered with
  | absent _ => exact ⟨h, .refl store⟩
  | replayed _ _ _ => exact ⟨h, .refl store⟩
  | selected s s' input e intent hcontrol hintent hidentity hcontext hdependencies hkey hsame hfits
      hfirst hselect =>
    have hstate : store.state = s := by
      unfold Store.state
      rw [hcontrol]
      rfl
    have hstep : Evolution.Step P s s' := .select input e intent hselect
    have hsound : s.Sound P := hstate ▸ h.state
    obtain ⟨hepochs, hadmitted, routing, -, hintentOf⟩ := select_eq_ok hselect
    have hrequested : intent.identity = r.identity := by
      rw [hintentOf]
      exact hidentity
    -- the enrollments of the next store
    have hread : ∀ (key : String) e', (if input.isNew = true
        then store.enrollments.insert input.sessionKey e else store.enrollments)[key]? = some e' →
        store.enrollments[key]? = some e' ∨ (input.isNew = true ∧ e' = e) := by
      intro key e' he'
      split at he'
      · next hisNew =>
        rw [StrMap.getElem?_insert] at he'
        split at he'
        · exact Or.inr ⟨hisNew, (Option.some.inj he').symm⟩
        · exact Or.inl he'
      · exact Or.inl he'
    have hkept : ∀ (key : String) e', store.enrollments[key]? = some e' → (if input.isNew = true
        then store.enrollments.insert input.sessionKey e
        else store.enrollments)[key]? = some e' := by
      intro key e' he'
      split
      · next hisNew =>
        rw [StrMap.getElem?_insert, if_neg]
        · exact he'
        · rintro rfl
          rcases hfits with ⟨-, hnone, -⟩ | ⟨hold, -⟩
          · exact absurd (he'.symm.trans hnone) (by simp)
          · exact absurd (hold.symm.trans hisNew) (by simp)
      · exact he'
    have hthere : ∃ e', (if input.isNew = true then store.enrollments.insert input.sessionKey e
        else store.enrollments)[C.keyOf r.identity]? = some e' := by
      rw [← hkey]
      rcases hfits with ⟨hisNew, -⟩ | ⟨hold, hstored⟩
      · exact ⟨e, by rw [if_pos hisNew, StrMap.getElem?_insert, if_pos rfl]⟩
      · exact ⟨input.enrollment, by rw [hold, if_neg (by simp)]; exact hstored⟩
    refine ⟨⟨hsound.step hstep, ?_, ?_⟩, ⟨hkept, ?_, ?_, ?_⟩⟩
    · intro key e' he' id a ha
      show a.trialEpoch ≤ s'.trialEpoch
      rcases hread key e' he' with he' | ⟨hisNew, rfl⟩
      · rw [hepochs.trialEpoch, ← hstate]
        exact h.epochs key e' he' id a ha
      · rcases hadmitted.drawn id a ha with hold | hdrawn
        · rcases hfits with ⟨-, -, hnothing, -⟩ | ⟨hknown, -⟩
          · rw [hnothing, StrMap.getElem?_empty] at hold
            exact absurd hold (by simp)
          · exact absurd (hknown.symm.trans hisNew) (by simp)
        · rw [hdrawn, hepochs.trialEpoch]
    · intro q i hi
      refine ⟨by simp, ?_⟩
      rw [StrMap.getElem?_insert] at hi
      split at hi
      · rw [← Option.some.inj hi, hrequested]
        exact hthere
      · obtain ⟨-, e', he'⟩ := h.enrolled q i hi
        exact ⟨e', hkept _ e' he'⟩
    · intro q i hi
      show (store.intents.insert r.requestId intent)[q]? = some i
      rw [StrMap.getElem?_insert, if_neg]
      · exact hi
      · rintro rfl
        exact absurd (hi.symm.trans hintent) (by simp)
    · show store.state.trialEpoch ≤ s'.trialEpoch
      rw [hstate, hepochs.trialEpoch]
    · intro b hb
      obtain ⟨b', hb', hlineage, -⟩ := hsound.step_moves hstep (hstate ▸ hb)
      exact ⟨b', hb', hlineage⟩

theorem Step.sound (h : store.Sound P C) (hstep : Step P C store store') :
    store'.Sound P C ∧ Extends store store' := by
  cases hstep with
  | request r _ answer hok => exact (selectWithBypass_eq_ok hok).step h
  | operation op s' hok =>
    have hstep : Evolution.Step P store.state s' := .operation op hok
    have hle := Operation.trialEpoch_le h.state.genealogy hok
    refine ⟨⟨h.state.step hstep, fun key e he id a ha => (h.epochs key e he id a ha).trans hle,
      fun q i hi => ⟨by simp, (h.enrolled q i hi).2⟩⟩, fun _ _ he => he, fun _ _ hi => hi, hle, ?_⟩
    intro b hb
    obtain ⟨b', hb', hlineage, -⟩ := h.state.step_moves hstep hb
    exact ⟨b', hb', hlineage⟩

theorem Reachable.sound {owner : String} (h : Reachable P C owner store) : store.Sound P C := by
  induction h with
  | refl =>
    refine ⟨.default, fun key e he => ?_, fun q i hi => ?_⟩
    · exact absurd ((StrMap.getElem?_empty key).symm.trans he) (by simp)
    · exact absurd ((StrMap.getElem?_empty q).symm.trans hi) (by simp)
  | tail _ hstep ih => exact (hstep.sound ih).1

theorem Sound.extends (h : store.Sound P C) (hrun : Relation.ReflTransGen (Step P C) store store') :
    store'.Sound P C ∧ Extends store store' := by
  induction hrun with
  | refl => exact ⟨h, .refl store⟩
  | tail _ hstep ih =>
    obtain ⟨hsound, hextends⟩ := ih
    obtain ⟨hsound', hextends'⟩ := hstep.sound hsound
    exact ⟨hsound', hextends.trans hextends'⟩

end Store

end BitRouter.Evolution
