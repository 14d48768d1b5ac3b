import BitRouter.Evolution.Revisions

/-!
# The route a block deploys

Other blocks depend on a block by its revision, so the route it deploys outside
its trials may change only when the revision does. It does where an experiment
is adopted, rolled back or withdrawn. Two branches change the route and keep
the revision:

* a revision of an adopted experiment whose own dependencies have changed does
  not inherit the adoption, while its baseline counts as valid;
* an experiment rests on ancestors that depend on other blocks, and loses their
  support when such a block advances.

Away from these the route is a function of the revision, which here is shown of
what a step does to a block and to its ancestors.
-/

namespace BitRouter.Evolution

open ControlState

variable {P : Primitives} {s s' : ControlState} {b b' next : BlockState}

/-- The route a block deploys to a session outside every trial, by matcher. -/
def ControlState.deployed (s : ControlState) (b : BlockState) (matcher : String × Option String) :
    Option String :=
  if b.status = .adopted && s.baselineValid b then
    (b.definition.ruleOf matcher).map (·.challengerRoute)
  else
    match s.baselineSource b with
    | .ok (baseline, _) => (baseline.definition.ruleOf matcher).map (·.baselineRoute)
    | .error _ => none

/-! ## The conditions -/

/-- A recommendation that makes an experiment change its route. -/
def BlockState.reroutes (b : BlockState) (plan : BatchPlan) (archived resolved : Bool) : Bool :=
  match plan.recommendation with
  | .rollback => true
  | .promote => !archived && b.status ≠ .adopted && b.batch.closed && resolved
  | .explore | .hold => b.status = .adopted

def ControlState.carries (s : ControlState) (blockId experiment : String) : Bool :=
  s.blocks[blockId]?.any fun c => c.experimentId = experiment || experiment ∈ c.baselineAncestry

def Operation.advances (s : ControlState) : Operation → Option String
  | setMode _ _ _ | register _ _ => none
  | revise definition _ _ reset =>
    if s.blocks[definition.blockId]?.any fun previous => reset || !s.baselineValid previous then
      some definition.blockId
    else none
  | plan blockId experiment learned resolved =>
    if s.carries blockId experiment && (s.experiment blockId (some experiment)).any fun b =>
        !b.alreadyPlanned learned (s.archived blockId experiment) resolved
          && b.reroutes learned (s.archived blockId experiment) resolved then
      some blockId
    else none
  | monitoring blockId experiment monitor =>
    if s.carries blockId experiment && monitor.rollback then some blockId else none
  | restore request => if (s.restoration request).isNone then some request.block else none

def ControlState.stale (s : ControlState) (b : BlockState) : Bool :=
  b.status = .adopted && s.baselineValid b && !s.externalDependenciesMatch b

/-- A block that an ancestor still supporting `b` depends on. -/
def ControlState.RestsOn (s : ControlState) (b : BlockState) (blockId : String) : Prop :=
  ∃ baseline passed, s.baselineSource b = .ok (baseline, passed) ∧ ∃ e ∈ passed, ∃ a,
    s.experiment b.definition.blockId (some e) = some a
      ∧ blockId ∈ a.definition.dependencies.map (·.1)

/-- **An operation that no route slips past**: it revises no stale adoption
without a reset, and advances no block that another one rests on. -/
structure Operation.Sparing (s : ControlState) (op : Operation) : Prop where
  fresh : ∀ definition routingDigest predecessor,
    op = .revise definition routingDigest predecessor false →
      ∀ b, s.blocks[definition.blockId]? = some b → s.stale b = false
  unrested : ∀ k, op.advances s = some k → ∀ (k' : String) b, s.blocks[k']? = some b → k' ≠ k →
    ¬ s.RestsOn b k

instance (s : ControlState) (b : BlockState) (blockId : String) : Decidable (s.RestsOn b blockId) :=
  decidable_of_iff ((s.baselineSource b).toOption.any fun (_, passed) => passed.any fun e =>
      (s.experiment b.definition.blockId (some e)).any fun a =>
        blockId ∈ a.definition.dependencies.map (·.1)) (by
    unfold ControlState.RestsOn
    cases s.baselineSource b with
    | error e => simp [Except.toOption]
    | ok result =>
      obtain ⟨baseline, passed⟩ := result
      simp [Except.toOption, Option.any_eq_true])

/-- Sparing, read off the blocks. -/
def Operation.sparing (s : ControlState) (op : Operation) : Bool :=
  (match op with
    | .revise definition _ _ false => s.blocks[definition.blockId]?.all fun b => !s.stale b
    | _ => true)
  && (op.advances s).all fun k =>
    s.blocks.toList.all fun (k', b) => k' = k || !decide (s.RestsOn b k)

theorem Operation.sparing_sound {op : Operation} (h : op.sparing s = true) : op.Sparing s := by
  obtain ⟨hfresh, hunrested⟩ := (Bool.and_eq_true _ _).mp h
  constructor
  · rintro definition routingDigest predecessor rfl b hb
    dsimp only at hfresh
    rw [hb] at hfresh
    simpa using hfresh
  · intro k hk k' b hb hne hrests
    rw [hk] at hunrested
    have hone := List.all_eq_true.mp hunrested (k', b)
      (Std.ExtTreeMap.mem_toList_iff_getElem?_eq_some.mpr hb)
    simp [hne, hrests] at hone

/-! ## Equal baselines -/

theorem externalDependenciesMatch_iff : s.externalDependenciesMatch b = true
    ↔ ∀ dependency ∈ b.definition.dependencies,
      ∃ c, s.blocks[dependency.1]? = some c ∧ c.revision = dependency.2 := by
  unfold externalDependenciesMatch
  rw [List.all_eq_true]
  refine forall₂_congr fun dependency _ => ?_
  show (s.blocks[dependency.1]?.any fun c => c.revision = dependency.2) = true ↔ _
  simp only [Option.any_eq_true, decide_eq_true_eq]

theorem externalDependenciesMatch_congr (hdefinition : b'.definition = b.definition)
    (h : ∀ dependency ∈ b.definition.dependencies,
      s'.blocks[dependency.1]?.map (·.revision) = s.blocks[dependency.1]?.map (·.revision)) :
    s'.externalDependenciesMatch b' = s.externalDependenciesMatch b := by
  have hread : ∀ (t : ControlState) (dependency : String × String),
      t.blocks[dependency.1]?.any (fun c => c.revision = dependency.2)
        = (t.blocks[dependency.1]?.map (·.revision)).any (· = dependency.2) := by
    intro t dependency
    cases t.blocks[dependency.1]? <;> rfl
  unfold externalDependenciesMatch
  rw [hdefinition, Bool.eq_iff_iff, List.all_eq_true, List.all_eq_true]
  refine forall₂_congr fun dependency hmem => ?_
  show (s'.blocks[dependency.1]?.any fun c => c.revision = dependency.2) = true
    ↔ (s.blocks[dependency.1]?.any fun c => c.revision = dependency.2) = true
  rw [hread, hread, h dependency hmem]

structure SameSupport (s s' : ControlState) (b b' : BlockState) : Prop where
  /-- Each ancestor is found again, with its definition. -/
  found : ∀ e ∈ b.baselineAncestry, ∀ a, s.experiment b.definition.blockId (some e) = some a →
    ∃ a', s'.experiment b'.definition.blockId (some e) = some a' ∧ a'.definition = a.definition
  kept : ∀ passed baseline, Baseline s b baseline passed → ∀ e ∈ passed, ∀ a',
    s'.experiment b'.definition.blockId (some e) = some a' → s'.supports a' = true
  lost : ∀ e ∈ b.baselineAncestry, ∀ a a', s.experiment b.definition.blockId (some e) = some a →
    s'.experiment b'.definition.blockId (some e) = some a' → s.supports a = false →
      s'.supports a' = false

theorem Baseline.again (hancestry : b'.baselineAncestry = b.baselineAncestry)
    (hdefinition : b'.definition = b.definition) (h : SameSupport s s' b b') {baseline : BlockState}
    {passed : List String} (hbaseline : Baseline s b baseline passed) :
    ∃ baseline', Baseline s' b' baseline' passed ∧ baseline'.definition = baseline.definition := by
  have hkept := h.kept passed baseline hbaseline
  cases hbaseline with
  | valid hall =>
    refine ⟨b', ?_, hdefinition⟩
    rw [← hancestry] at hkept ⊢
    exact .valid hkept
  | lost _ e after _ hsplit ha hlost _ =>
    have he : e ∈ b.baselineAncestry := by
      rw [hsplit]
      simp
    obtain ⟨a', ha', hsame⟩ := h.found e he baseline ha
    exact ⟨a', .lost passed e after a' (hancestry.trans hsplit) ha'
      (h.lost e he baseline a' ha ha' hlost) hkept, hsame⟩

theorem baselineValid_iff (h : s.genealogy.Sound P) (hb : b ∈ s.experiments) :
    s.baselineValid b = true ↔ s.baselineSource b = .ok (b, b.baselineAncestry) := by
  obtain ⟨baseline, passed, hok, hbaseline⟩ := exists_baselineSource h hb
  cases hbaseline with
  | valid hall =>
    refine iff_of_true (List.all_eq_true.mpr fun e he => ?_) hok
    obtain ⟨a, -, ha⟩ := exists_ancestor h hb he
    rw [ha]
    exact hall e he _ ha
  | lost _ e after _ hsplit ha hlost _ =>
    refine iff_of_false (fun hvalid => ?_) (fun hself => ?_)
    · have he := List.all_eq_true.mp hvalid e (by rw [hsplit]; simp)
      rw [ha, Option.any_some, hlost] at he
      exact absurd he (by simp)
    · obtain ⟨-, hpassed⟩ := Prod.mk.inj (Except.ok.inj (hok.symm.trans hself))
      have hlengths := congrArg List.length (hpassed.trans hsplit)
      rw [List.length_append, List.length_cons] at hlengths
      omega

/-- **An experiment with the same status and the same support deploys the same
route.** -/
theorem deployed_congr (h : s.genealogy.Sound P) (h' : s'.genealogy.Sound P)
    (hb : b ∈ s.experiments) (hb' : b' ∈ s'.experiments)
    (hlineage : b'.lineage = b.lineage) (hstatus : b'.status = b.status)
    (hsupport : SameSupport s s' b b') (matcher : String × Option String) :
    s'.deployed b' matcher = s.deployed b matcher := by
  have hdefinition : b'.definition = b.definition := congrArg (·.definition) hlineage
  have hancestry : b'.baselineAncestry = b.baselineAncestry := congrArg (·.ancestry) hlineage
  obtain ⟨baseline, passed, hok, hbaseline⟩ := exists_baselineSource h hb
  obtain ⟨baseline', hbaseline', hsame⟩ := hbaseline.again hancestry hdefinition hsupport
  obtain ⟨_, _, hok', hfound⟩ := exists_baselineSource h' hb'
  obtain ⟨rfl, rfl⟩ := hbaseline'.unique hfound
  have hvalid : s'.baselineValid b' = s.baselineValid b := by
    rw [Bool.eq_iff_iff, baselineValid_iff h' hb', baselineValid_iff h hb, hok, hok']
    -- the ancestry is valid exactly when all of it is passed
    have hall : ∀ {t : ControlState} {c x : BlockState} {part : List String},
        t.genealogy.Sound P → c ∈ t.experiments → Baseline t c x part →
        ((.ok (x, part) : Except String _) = .ok (c, c.baselineAncestry)
          ↔ part = c.baselineAncestry) := by
      intro t c x part ht hc hx
      refine ⟨fun heq => (Prod.mk.inj (Except.ok.inj heq)).2, fun heq => ?_⟩
      cases hx with
      | valid _ => rfl
      | lost _ e after _ hsplit _ _ _ =>
        have hlengths := congrArg List.length (heq.trans hsplit)
        rw [List.length_append, List.length_cons] at hlengths
        omega
    rw [hall h' hb' hfound, hall h hb hbaseline, hancestry]
  unfold deployed
  rw [hvalid, hstatus, hok, hok', hdefinition]
  dsimp only
  rw [hsame]

/-! ## What an operation advances -/

variable {k : String}

theorem Transition.carries_of_changed (h : s.genealogy.Sound P) (ht : Transition P s s' b next)
    {c : BlockState} (hk : s.blocks[k]? = some c)
    (hchanged : (became P b next c).revision ≠ c.revision) :
    b.definition.blockId = k ∧ s.carries k b.experimentId = true := by
  unfold carries
  rw [hk]
  by_cases hid : c.experimentId = b.experimentId
  · obtain rfl := eq_of_experimentId h (mem_of_blocks hk) ht.mem hid
    exact ⟨blockId_of_blocks h hk, by simp⟩
  · have hat : rewriteAt b.experimentId (fun _ => next) c = c := if_neg hid
    unfold became withdrawal at hchanged
    rw [hat] at hchanged
    split at hchanged
    · split at hchanged
      · next hmem =>
        -- built on `b`, it is an experiment of the same block
        obtain ⟨a, -, hfound⟩ := exists_ancestor h (mem_of_blocks hk) hmem
        obtain ⟨ha, hblock, haid⟩ := (experiment_eq_some h).mp hfound
        obtain rfl := eq_of_experimentId h ha ht.mem haid
        exact ⟨hblock.trans (blockId_of_blocks h hk), by simp [hmem]⟩
      · exact absurd rfl hchanged
    · exact absurd rfl hchanged

section

variable {action : PlanAction} {archived resolved : Bool} {enacted : BlockState} {plan : BatchPlan}
  (h : b.enact plan archived resolved = .ok (enacted, action))

include h

theorem reroutes_of_enact
    (hadvances : action.advances = true) : b.reroutes plan archived resolved = true := by
  unfold BlockState.reroutes
  unfold BlockState.enact at h
  have hnot : ∀ {kept : PlanAction}, kept.advances = false → action ≠ kept := by
    rintro kept hkept rfl
    exact absurd (hadvances.symm.trans hkept) (by simp)
  cases hrecommendation : plan.recommendation with
  | rollback => rfl
  | promote =>
    rw [hrecommendation] at h
    dsimp only at h ⊢
    split at h
    · exact absurd (Prod.mk.inj (Except.ok.inj h)).2.symm (hnot rfl)
    · next harchived =>
      split at h
      · exact absurd (Prod.mk.inj (Except.ok.inj h)).2.symm (hnot rfl)
      · obtain ⟨_, hready, h⟩ := bind_eq_ok.mp h
        split at h
        · exact absurd (Prod.mk.inj (pure_eq_ok.mp h)).2.symm (hnot rfl)
        · next hadopted => simp_all
  | explore | hold =>
    rw [hrecommendation] at h
    dsimp only at h ⊢
    split at h
    · next hadopted => exact decide_eq_true hadopted
    · split at h
      · exact absurd (Prod.mk.inj (Except.ok.inj h)).2.symm (hnot rfl)
      · split at h
        · obtain ⟨_, -, h⟩ := bind_eq_ok.mp h
          exact absurd (Prod.mk.inj (pure_eq_ok.mp h)).2.symm (hnot rfl)
        · exact absurd (Prod.mk.inj (Except.ok.inj h)).2.symm (hnot rfl)

theorem planned_of_kept (hadvances : action.advances = false) :
    (enacted.planned P action plan).revision = b.revision
      ∧ (enacted.planned P action plan).status = b.status := by
  unfold BlockState.planned
  rw [hadvances, if_neg Bool.false_ne_true]
  cases enact_eq_ok h with
  | rolledBack _ hadvances' => exact absurd (hadvances'.symm.trans hadvances) (by simp)
  | adopted _ _ _ _ => exact absurd hadvances (by simp [PlanAction.advances])
  | kept _ _ => exact ⟨rfl, rfl⟩
  | nextCohort _ _ _ _ hnext =>
    obtain ⟨sequence, -, hnext⟩ := bind_eq_ok.mp hnext
    obtain rfl := pure_eq_ok.mp hnext
    exact ⟨rfl, rfl⟩

end

/-- **Only the block an operation advances changes its revision.** -/
theorem Operation.advances_of_changed (h : s.genealogy.Sound P) {op : Operation}
    (hok : op.apply P s = .ok s') {c c' : BlockState} (hk : s.blocks[k]? = some c)
    (hk' : s'.blocks[k]? = some c') (hchanged : c'.revision ≠ c.revision) :
    op.advances s = some k := by
  -- a transition of the experiment `b` of the block `id` that the operation names
  have htransition : ∀ {id e : String} {b next : BlockState},
      s.experiment id (some e) = some b → Transition P s s' b next →
      (became P b next c).revision ≠ c.revision ∧ id = k ∧ s.carries id e = true := by
    intro id e b next hfound ht
    obtain ⟨-, hblock, hid⟩ := (experiment_eq_some h).mp hfound
    have hbecame : c' = became P b next c := by
      rw [ht.rewrites.blocks, hk] at hk'
      exact (Option.some.inj hk').symm
    have hmoved := hbecame ▸ hchanged
    obtain ⟨hkey, hcarries⟩ := ht.carries_of_changed h hk hmoved
    have hsame : id = k := hblock.symm.trans hkey
    exact ⟨hmoved, hsame, by rw [hsame, ← hid]; exact hcarries⟩
  cases op with
  | setMode mode judgeModel now =>
    obtain ⟨hblocks, -⟩ := setMode_eq_ok hok
    rw [hblocks, hk] at hk'
    exact absurd (congrArg BlockState.revision (Option.some.inj hk').symm) hchanged
  | register definition configDigest =>
    have hr := register_eq_ok hok
    rw [hr.blocks, StrMap.getElem?_insert, if_neg, hk] at hk'
    · exact absurd (congrArg BlockState.revision (Option.some.inj hk').symm) hchanged
    · rintro rfl
      exact absurd (hk.symm.trans hr.new) (by simp)
  | revise definition routingDigest predecessor reset =>
    obtain ⟨previous, baseline, passed, next, hr⟩ := revise_eq_ok hok
    rw [hr.blocks, StrMap.getElem?_insert] at hk'
    split at hk'
    · next hkey =>
      subst hkey
      obtain rfl := Option.some.inj hk'
      obtain rfl := Option.some.inj (hk.symm.trans hr.current)
      have hadvanced : (reset || !s.baselineValid c) = true := by
        by_contra hkept
        refine hchanged ?_
        rw [hr.next_eq]
        exact if_neg hkept
      show (if s.blocks[definition.blockId]?.any _ = true then _ else _) = _
      rw [hk]
      exact if_pos hadvanced
    · rw [hk] at hk'
      exact absurd (congrArg BlockState.revision (Option.some.inj hk').symm) hchanged
  | plan blockId e learned resolved =>
    obtain ⟨⟨_, published⟩, hanswer, rfl⟩ := map_eq_ok.mp hok
    rcases applyExperimentPlan_eq_ok h hanswer with
      hsame | ⟨b, enacted, action, hfound, hnew, hlive, henact, ht⟩
    · rw [hsame, hk] at hk'
      exact absurd (congrArg BlockState.revision (Option.some.inj hk').symm) hchanged
    · obtain ⟨hmoved, rfl, hcarries⟩ := htransition hfound ht
      have hadvances : action.advances = true := by
        by_contra hkept
        obtain ⟨hrevision, hstatus⟩ :=
          planned_of_kept (P := P) henact (by simpa using hkept)
        refine hmoved ?_
        unfold became
        rw [if_neg (by rw [hstatus]; exact hlive)]
        unfold rewriteAt
        split
        · next hid =>
          rw [hrevision, eq_of_experimentId h (mem_of_blocks hk) ht.mem hid]
        · rfl
      have hreroutes := reroutes_of_enact henact hadvances
      show (if (s.carries blockId e && _) = true then _ else _) = _
      rw [hcarries, hfound, Option.any_some, hnew, hreroutes]
      rfl
  | monitoring blockId e monitor =>
    obtain ⟨⟨_, published⟩, hanswer, rfl⟩ := map_eq_ok.mp hok
    rcases applyExperimentMonitoring_eq_ok h hanswer with hsame | ⟨b, hfound, halarm, ht⟩
    · rw [hsame, hk] at hk'
      exact absurd (congrArg BlockState.revision (Option.some.inj hk').symm) hchanged
    · obtain ⟨-, rfl, hcarries⟩ := htransition hfound ht
      show (if (s.carries blockId e && _) = true then _ else _) = _
      rw [hcarries, halarm]
      rfl
  | restore request =>
    obtain ⟨⟨_, publication⟩, hanswer, rfl⟩ := map_eq_ok.mp hok
    rcases restore_eq_ok h hanswer with hsame | ⟨b, hfound, hnew, ht⟩
    · rw [hsame, hk] at hk'
      exact absurd (congrArg BlockState.revision (Option.some.inj hk').symm) hchanged
    · obtain ⟨-, hkey, -⟩ := htransition hfound ht
      show (if (s.restoration request).isNone = true then _ else _) = _
      rw [hnew, hkey]
      rfl

/-! ## What a step does to the ancestors of a block -/

theorem Step.archived (h : s.genealogy.Sound P) (hstep : Step P s s') {e : String}
    {a : ArchivedExperiment} (ha : s.archivedExperiments[e]? = some a) :
    ∃ a', s'.archivedExperiments[e]? = some a' ∧ a'.block.lineage = a.block.lineage
      ∧ (a'.block.status = .adopted → a.block.status = .adopted) := by
  cases hstep.effect h with
  | drawn hdrawn =>
    obtain ⟨f, hf, hdrawn⟩ := hdrawn
    have hf' := hdrawn a.block (mem_of_archived ha)
    exact ⟨{ a with block := f a.block }, by rw [hf.archived, ha]; rfl, hf'.lineage,
      fun hadopted => hf'.status ▸ hadopted⟩
  | transition x next ht =>
    refine ⟨{ a with block := became P x next a.block }, by rw [ht.rewrites.archived, ha]; rfl,
      ht.became_lineage h (mem_of_archived ha), fun hadopted => ?_⟩
    have hat : (rewriteAt x.experimentId (fun _ => next) a.block).status = .adopted →
        a.block.status = .adopted := by
      unfold rewriteAt
      split
      · next heq =>
        obtain rfl := eq_of_experimentId h (mem_of_archived ha) ht.mem heq
        intro hnext
        refine (ht.adopts hnext).resolve_right fun hcurrent => ?_
        have hnone := archived_eq_none h hcurrent
        rw [experimentId_of_archived h ha, ha] at hnone
        exact absurd hnone (by simp)
      · exact id
    unfold became withdrawal at hadopted
    split at hadopted
    · split at hadopted
      · exact absurd hadopted (by simp [BlockState.withdrawnWith])
      · exact hat hadopted
    · exact hat hadopted
  | registered _ _ hr => exact ⟨a, by rw [hr.archived, ha], rfl, id⟩
  | revised previous baseline next definition routingDigest reset passed hr =>
    refine ⟨a, ?_, rfl, id⟩
    rw [hr.archived, StrMap.getElem?_insert, if_neg, ha]
    rintro rfl
    exact absurd (ha.symm.trans (archived_eq_none h hr.current)) (by simp)

theorem Step.ancestor_adopted (h : s.Sound P) (hdated : s.Dated P) (hstep : Step P s s')
    (hk : s.blocks[k]? = some b) (hk' : s'.blocks[k]? = some b')
    (hrevision : b'.revision = b.revision) {e : String} (he : e ∈ b.baselineAncestry)
    {a a' : ArchivedExperiment} (ha : s.archivedExperiments[e]? = some a)
    (ha' : s'.archivedExperiments[e]? = some a') (hadopted : a.block.status = .adopted) :
    a'.block.status = .adopted := by
  have hsound := h.genealogy
  cases hstep.effect hsound with
  | drawn hdrawn =>
    obtain ⟨f, hf, hdrawn⟩ := hdrawn
    rw [hf.archived, ha] at ha'
    obtain rfl := Option.some.inj ha'
    exact (hdrawn a.block (mem_of_archived ha)).status.trans hadopted
  | transition x next ht =>
    rw [ht.rewrites.archived, ha] at ha'
    obtain rfl := Option.some.inj ha'
    rw [ht.rewrites.blocks, hk] at hk'
    obtain rfl := Option.some.inj hk'
    have hmoves := ht.became_moves hsound h.unpaused (mem_of_archived ha)
    rw [hadopted] at hmoves
    show (became P x next a.block).status = .adopted
    generalize hafter : (became P x next a.block).status = after at hmoves
    cases hmoves with
    | same _ => rfl
    | withdrawn =>
      -- the block would be withdrawn with its ancestor
      obtain ⟨hnext, hbuilt⟩ := ht.cause hsound (mem_of_blocks hk) (mem_of_archived ha)
        (by rw [experimentId_of_archived hsound ha]; exact he) (by rw [hadopted]; simp) hafter
      have hancestry : (rewriteAt x.experimentId (fun _ => next) b).baselineAncestry
          = b.baselineAncestry :=
        congrArg (·.ancestry) (ht.rewriteAt_lineage hsound (mem_of_blocks hk))
      obtain ⟨n, hn⟩ := hdated.chain k b hk
      refine absurd hrevision ?_
      unfold became withdrawal
      rw [if_pos hnext, if_pos (hancestry ▸ hbuilt)]
      exact (ht.rewriteAt_later hsound (mem_of_blocks hk)).ne_advance hn _ _
  | registered _ _ hr =>
    rw [hr.archived, ha] at ha'
    exact Option.some.inj ha' ▸ hadopted
  | revised previous baseline next definition routingDigest reset passed hr =>
    rw [hr.archived, StrMap.getElem?_insert, if_neg, ha] at ha'
    · exact Option.some.inj ha' ▸ hadopted
    · rintro rfl
      exact absurd (ha.symm.trans (archived_eq_none hsound hr.current)) (by simp)

/-- **A dependency once lost stays lost.** -/
theorem Step.externalDependencies_lost (h : s.genealogy.Sound P) (hdated : s.Dated P)
    (hstep : Step P s s') {a a' : BlockState} (ha : a ∈ s.experiments)
    (hdefinition : a'.definition = a.definition) (hlost : s.externalDependenciesMatch a = false) :
    s'.externalDependenciesMatch a' = false := by
  rw [← Bool.not_eq_true] at hlost ⊢
  refine fun hafter => hlost (externalDependenciesMatch_iff.mpr fun dependency hmem => ?_)
  obtain ⟨c, hc, hlater⟩ := hdated.recorded a ha dependency hmem
  obtain ⟨c', hc', -, -, hlater'⟩ := hstep.later h hc
  obtain ⟨x, hx, hback⟩ := externalDependenciesMatch_iff.mp hafter dependency (hdefinition ▸ hmem)
  obtain rfl := Option.some.inj (hx.symm.trans hc')
  obtain ⟨n, hn⟩ := hdated.chain dependency.1 c hc
  exact ⟨c, hc, (hlater.antisymm hn (hback ▸ hlater')).symm⟩

/-- A block with the same revision reads the same of its ancestors, unless one
that supports it depends on a block whose revision has changed. -/
theorem Step.sameSupport (h : s.Sound P) (hdated : s.Dated P) (hstep : Step P s s')
    (hk : s.blocks[k]? = some b) (hk' : s'.blocks[k]? = some b')
    (hrevision : b'.revision = b.revision)
    (hrests : ∀ baseline passed, Baseline s b baseline passed → ∀ e ∈ passed, ∀ a,
      s.experiment b.definition.blockId (some e) = some a →
        ∀ dependency ∈ a.definition.dependencies,
          s'.blocks[dependency.1]?.map (·.revision) = s.blocks[dependency.1]?.map (·.revision)) :
    SameSupport s s' b b' := by
  have hsound := h.genealogy
  have hsound' := (h.step hstep).genealogy
  have hb := mem_of_blocks hk
  have hblock : b'.definition.blockId = b.definition.blockId :=
    (blockId_of_blocks hsound' hk').trans (blockId_of_blocks hsound hk).symm
  -- an ancestor, at both states
  have hancestor : ∀ e ∈ b.baselineAncestry, ∃ a a', s.archivedExperiments[e]? = some a
      ∧ s'.archivedExperiments[e]? = some a' ∧ a'.block.lineage = a.block.lineage
      ∧ (a'.block.status = .adopted → a.block.status = .adopted)
      ∧ s.experiment b.definition.blockId (some e) = some a.block
      ∧ s'.experiment b'.definition.blockId (some e) = some a'.block := by
    intro e he
    obtain ⟨a, ha, hfound⟩ := exists_ancestor hsound hb he
    obtain ⟨a', ha', hlineage, hadopted⟩ := hstep.archived hsound ha
    obtain ⟨-, hsame, -⟩ := (experiment_eq_some hsound).mp hfound
    have hblock' : a'.block.definition.blockId = b'.definition.blockId :=
      (congrArg (·.definition.blockId) hlineage).trans (hsame.trans hblock.symm)
    exact ⟨a, a', ha, ha', hlineage, hadopted, hfound, (experiment_eq_some hsound').mpr
      ⟨mem_of_archived ha', hblock', experimentId_of_archived hsound' ha'⟩⟩
  constructor
  · intro e he a hfound
    obtain ⟨x, x', -, -, hlineage, -, hx, hx'⟩ := hancestor e he
    obtain rfl := Option.some.inj (hx.symm.trans hfound)
    exact ⟨x'.block, hx', congrArg (·.definition) hlineage⟩
  · intro passed baseline hbaseline e he a' hfound'
    have hmem : e ∈ b.baselineAncestry := by
      rw [hbaseline.passed_eq_take] at he
      exact List.mem_of_mem_take he
    obtain ⟨x, x', hxa, hxa', hlineage, -, hx, hx'⟩ := hancestor e hmem
    obtain rfl := Option.some.inj (hx'.symm.trans hfound')
    have hbefore : s.supports x.block = true := by
      cases hbaseline with
      | valid hall => exact hall e he _ hx
      | lost _ _ _ _ _ _ _ hall => exact hall e he _ hx
    obtain ⟨hadopted, hmatch⟩ := (Bool.and_eq_true _ _).mp hbefore
    have hadopted' := hstep.ancestor_adopted h hdated hk hk' hrevision hmem hxa hxa'
      (of_decide_eq_true hadopted)
    refine (Bool.and_eq_true _ _).mpr ⟨decide_eq_true hadopted', ?_⟩
    rw [externalDependenciesMatch_congr (congrArg (·.definition) hlineage)
      (hrests baseline passed hbaseline e he x.block hx)]
    exact hmatch
  · intro e he a a' hfound hfound' hlost
    obtain ⟨x, x', hxa, -, hlineage, hadopted, hx, hx'⟩ := hancestor e he
    obtain rfl := Option.some.inj (hx.symm.trans hfound)
    obtain rfl := Option.some.inj (hx'.symm.trans hfound')
    rcases Bool.and_eq_false_iff.mp hlost with hstatus | hmatch
    · refine Bool.and_eq_false_iff.mpr (Or.inl (decide_eq_false fun hstatus' => ?_))
      exact of_decide_eq_false hstatus (hadopted hstatus')
    · exact Bool.and_eq_false_iff.mpr (Or.inr (hstep.externalDependencies_lost hsound hdated
        (mem_of_archived hxa) (congrArg (·.definition) hlineage) hmatch))

end BitRouter.Evolution
