import BitRouter.Optimization.Steps
import BitRouter.Policy.Compiled
import Mathlib.Data.ENat.Basic
import Mathlib.Data.Finset.Prod
import Mathlib.Data.Finset.Option

/-!
# Runs of the optimizer

The optimizer is run again and again on one policy, with any evidence, and each
successor is published. What was tried is not tried again: a treatment that was
explored is the active one, or its target has the candidate tier by an explicit
route, or the rejections remember it (`Spent`), and this survives every further
step. Since there are finitely many canonical projections and finitely many tiers
they can resolve to, a run comes to rest (`optimization_converges`).
-/

namespace BitRouter.Optimization

open Policy

/-! ## Canonical keys -/

def taskFamilies : List TaskFamily :=
  [.codeGeneration, .codeDebugging, .codeReview, .codeSqlDatabase, .codeFrontendUi,
    .codeDevopsConfig, .codeRepositoryAnalysis, .agentMultiStepPlanning, .agentWorkflowExecution,
    .agentWebResearch, .agentMemoryOperations, .agentGeneral, .unknown]

def nextStepRoles : List NextStepRole :=
  [.orchestrate, .implement, .mechanical, .verify, .finalize, .unknown]

def routeRisks : List Trajectory.RouteRisk := [.normal, .context, .guarded]

@[irreducible] def canonicalKeys : List String :=
  taskFamilies.flatMap fun family => nextStepRoles.flatMap fun role => routeRisks.map fun risk =>
    PredictiveRouteProjection.key ⟨family, role, risk⟩

variable {value : String}

theorem family_key {family : TaskFamily} (h : TaskFamily.parseKey value = some family) :
    family.key = value := by
  unfold TaskFamily.parseKey at h
  split at h
  all_goals cases h
  all_goals rfl

theorem role_key {role : NextStepRole} (h : NextStepRole.parseKey value = some role) :
    role.key = value := by
  unfold NextStepRole.parseKey at h
  split at h
  all_goals cases h
  all_goals rfl

theorem risk_name {risk : Trajectory.RouteRisk} (h : Trajectory.parseRouteRisk value = some risk) :
    risk.name = value := by
  unfold Trajectory.parseRouteRisk at h
  split at h
  all_goals cases h
  all_goals rfl

/-- A text of four pieces. -/
theorem text_of_split {family role risk : String}
    (h : (Delimited.split '|' value.toList).map String.ofList =
      ["semantic_route/v1", family, role, risk]) :
    s!"semantic_route/v1|{family}|{role}|{risk}" = value := by
  have hpieces : Delimited.split '|' value.toList =
      ["semantic_route/v1".toList, family.toList, role.toList, risk.toList] := by
    have hmap := congrArg (List.map String.toList) h
    rwa [List.map_map, show String.toList ∘ String.ofList = id from
      funext fun cs => String.toList_ofList, List.map_id] at hmap
  have hjoin := Delimited.join_split '|' value.toList
  rw [hpieces] at hjoin
  have hvalue := congrArg List.tail hjoin
  rw [List.tail_cons] at hvalue
  refine String.toList_inj.mp ?_
  rw [← hvalue]
  simp [Delimited.join, toString]

theorem key_of_parseKey {p : PredictiveRouteProjection}
    (h : PredictiveRouteProjection.parseKey value = some p) : p.key = value := by
  unfold PredictiveRouteProjection.parseKey at h
  split at h
  · next family role risk hsplit =>
    simp only [Option.bind_eq_bind, Option.bind_eq_some_iff] at h
    obtain ⟨risk', hrisk, family', hfamily, role', hrole, hp⟩ := h
    obtain rfl := Option.some.inj hp
    have htext := text_of_split hsplit
    rw [← family_key hfamily, ← role_key hrole, ← risk_name hrisk] at htext
    exact htext
  · cases h

theorem mem_canonicalKeys (h : PredictiveRouteProjection.parseKey value ≠ none) :
    value ∈ canonicalKeys := by
  obtain ⟨⟨family, role, risk⟩, hp⟩ := Option.ne_none_iff_exists'.mp h
  rw [← key_of_parseKey hp, canonicalKeys]
  refine List.mem_flatMap.mpr ⟨family, by cases family <;> decide, ?_⟩
  refine List.mem_flatMap.mpr ⟨role, by cases role <;> decide, ?_⟩
  exact List.mem_map.mpr ⟨risk, by cases risk <;> decide, rfl⟩

/-! ## What a policy resolves to -/

variable {tier : String}

section Resolving

variable {O : Optimizer} {policy policy' : PolicyDefinition} {exploration : RouteExploration}
  {lock : PolicyLock} {name key : String}

theorem canonical_of_resolvedTier (h : resolvedTier lock name key = some tier) :
    key ∈ canonicalKeys := by
  obtain ⟨policy, -, h⟩ := Option.bind_eq_some_iff.mp h
  refine mem_canonicalKeys fun hnone => ?_
  rw [PolicyDefinition.resolvePredictiveRoute, hnone] at h
  cases h

theorem resolve_congr (hroutes : policy'.routes = policy.routes)
    (hdefault : policy'.defaultTier = policy.defaultTier) :
    policy'.resolvePredictiveRoute key = policy.resolvePredictiveRoute key := by
  rw [PolicyDefinition.resolvePredictiveRoute, PolicyDefinition.resolvePredictiveRoute, hroutes,
    hdefault]

theorem resolve_of_route {champion matched : String} (hroute : policy.routes[key]? = some tier)
    (h : policy.resolvePredictiveRoute key = some (champion, matched)) :
    champion = tier ∧ matched = key := by
  obtain ⟨projection, -, h⟩ := Option.bind_eq_some_iff.mp h
  simp only [hroute] at h
  exact ⟨(Prod.mk.inj (Option.some.inj h)).1.symm, (Prod.mk.inj (Option.some.inj h)).2.symm⟩

/-- **A promotion moves a projection to the challenger, or not at all.** -/
theorem resolve_promoted :
    ((promotedPolicy O policy exploration).resolvePredictiveRoute key).map Prod.fst =
        some exploration.challengerTier ∨
      ((promotedPolicy O policy exploration).resolvePredictiveRoute key).map Prod.fst =
        (policy.resolvePredictiveRoute key).map Prod.fst := by
  have hroutes : ∀ k, (promotedPolicy O policy exploration).routes[k]? =
      if exploration.targetRequestKey = k then some exploration.challengerTier
      else policy.routes[k]? := fun k => StrMap.getElem?_insert _ _ _ _
  unfold PolicyDefinition.resolvePredictiveRoute
  cases PredictiveRouteProjection.parseKey key with
  | none => exact .inr rfl
  | some projection =>
    simp only [Option.bind_eq_bind, Option.bind_some, hroutes]
    by_cases htarget : exploration.targetRequestKey = key
    · rw [if_pos htarget]
      exact .inl rfl
    · rw [if_neg htarget]
      cases policy.routes[key]? with
      | some tier => exact .inr rfl
      | none =>
        by_cases hbaseline : exploration.targetRequestKey = projection.unknownBaseline.key
        · rw [if_pos hbaseline]
          exact .inl rfl
        · rw [if_neg hbaseline]
          exact .inr rfl

end Resolving

/-! ## What was tried -/

section Tried

variable {O : Optimizer} {name : String} {options : OptimizationOptions}
  {lock lock' : PolicyLock} {outcome : Except String OptimizationStep} {t : String × String}

/-- The treatment that a step starts to explore. -/
def exploredTreatment : Except String OptimizationStep → Option (String × String)
  | .ok step =>
    if step.action = .explore then
      step.evidence.target.map fun target => (target.requestKey, target.championTier)
    else none
  | .error _ => none

def OfCandidate (name : String) (options : OptimizationOptions) (lock : PolicyLock) : Prop :=
  ∀ e, activeExploration lock name = some e → some e.challengerTier = options.candidateTier

/-- The context of a treatment with the candidate tier. -/
def treatmentContext (O : Optimizer) (name : String) (options : OptimizationOptions)
    (t : String × String) (candidate : String) : String :=
  O.treatmentContextDigest name t.1 t.2 candidate options.challengerExposurePpm options.gate

/-- The treatment is being explored. -/
def Trying (name : String) (options : OptimizationOptions) (lock : PolicyLock)
    (t : String × String) : Prop :=
  ∃ e, activeExploration lock name = some e ∧ some e.challengerTier = options.candidateTier ∧
    e.targetRequestKey = t.1 ∧ e.championTier = t.2 ∧
    e.challengerExposurePpm = options.challengerExposurePpm ∧ e.gate = options.gate

/-- **The treatment has come to its end**: promoted, or rejected. -/
def Spent (O : Optimizer) (name : String) (options : OptimizationOptions) (lock : PolicyLock)
    (t : String × String) : Prop :=
  ∃ candidate, options.candidateTier = some candidate ∧
    (lock.route name t.1 = some candidate ∨ ∃ r ∈ ledger lock name,
      r.treatmentContextDigest = some (treatmentContext O name options t candidate))

theorem mem_remember {rejections : List RouteRejection} {context : String}
    {rejection r : RouteRejection} (hshort : rejections.length < 256) :
    r ∈ remember rejections context rejection ↔
      r ∈ rejections ∧ r.treatmentContextDigest ≠ some context ∨ r = rejection := by
  have hlength : (rejections.filter (·.treatmentContextDigest ≠ some context)).length ≠ 256 :=
    ((List.length_filter_le _ _).trans_lt hshort).ne
  unfold remember
  simp only [if_neg hlength, List.mem_append, List.mem_filter, List.mem_singleton,
    decide_eq_true_eq]

section

variable (h : PolicyStep O name options lock lock' outcome)
  (hcandidate : OfCandidate name options lock)

include h hcandidate

/-- **A step leaves a treatment tried.** -/
theorem PolicyStep.tried (hshort : (ledger lock name).length < 256)
    (htried : Trying name options lock t ∨ Spent O name options lock t) :
    Trying name options lock' t ∨ Spent O name options lock' t := by
  cases h with
  | idle _ hsame => rwa [hsame]
  | explore _ _ _ hpolicy hnone _ _ hpolicy' =>
    right
    rcases htried with ⟨e, he, -⟩ | ⟨candidate, hoption, hspent⟩
    · cases hnone.symm.trans he
    · refine ⟨candidate, hoption, ?_⟩
      rwa [route_of_policy hpolicy', ledger_of_policy hpolicy', rejectionsOf_state rfl,
        ← ledger_of_policy hpolicy, show (exploringPolicy _ _).routes[t.1]? = _ from
          (route_of_policy hpolicy).symm]
  | @promote step policy exploration _ hpolicy hactive hpolicy' =>
    right
    have hroute : lock'.route name t.1 = if exploration.targetRequestKey = t.1 then
        some exploration.challengerTier else policy.routes[t.1]? := by
      rw [route_of_policy hpolicy']
      exact StrMap.getElem?_insert _ _ _ _
    have hledger : ledger lock' name = ledger lock name := by
      rw [ledger_of_policy hpolicy', rejectionsOf_state rfl, ledger_of_policy hpolicy]
    rcases htried with ⟨e, he, hchallenger, htarget, -⟩ | ⟨candidate, hoption, hspent⟩
    · obtain rfl := Option.some.inj (hactive.symm.trans he)
      exact ⟨_, hchallenger.symm, .inl (by rw [hroute, if_pos htarget])⟩
    · refine ⟨candidate, hoption, ?_⟩
      rw [hledger, hroute]
      refine hspent.imp_left fun hold => ?_
      split
      · rw [hcandidate exploration hactive, hoption]
      · rw [← route_of_policy hpolicy, hold]
  | @retreat step policy exploration rejection _ hpolicy hactive hcontext hpolicy' =>
    right
    have hledger : ∀ r, r ∈ ledger lock' name ↔ r ∈ ledger lock name ∧
        r.treatmentContextDigest ≠ some (contextOf O name exploration) ∨ r = rejection := by
      intro r
      rw [ledger_of_policy hpolicy] at hshort ⊢
      rw [ledger_of_policy hpolicy', rejectionsOf_state rfl]
      exact mem_remember hshort
    have hroute : lock'.route name t.1 = lock.route name t.1 := by
      rw [route_of_policy hpolicy', route_of_policy hpolicy]
    rcases htried with ⟨e, he, hchallenger, htarget, hchampion, hexposure, hgate⟩ |
      ⟨candidate, hoption, hspent⟩
    · obtain rfl := Option.some.inj (hactive.symm.trans he)
      refine ⟨_, hchallenger.symm, .inr ⟨rejection, (hledger rejection).mpr (.inr rfl), ?_⟩⟩
      rw [hcontext, treatmentContext, contextOf, htarget, hchampion, hexposure, hgate]
    · refine ⟨candidate, hoption, ?_⟩
      rw [hroute]
      refine hspent.imp_right ?_
      rintro ⟨r, hr, hdigest⟩
      by_cases hsame : r.treatmentContextDigest = some (contextOf O name exploration)
      · exact ⟨rejection, (hledger rejection).mpr (.inr rfl), by rw [hcontext, ← hsame, hdigest]⟩
      · exact ⟨r, (hledger r).mpr (.inl ⟨hr, hsame⟩), hdigest⟩

theorem PolicyStep.ofCandidate : OfCandidate name options lock' := by
  cases h with
  | idle _ hsame => rwa [hsame]
  | @explore step policy target candidate matched exploration _ _ hoption _ _ _ hfields hpolicy' =>
    intro e he
    rw [active_of_policy hpolicy'] at he
    obtain rfl := Option.some.inj he
    rw [hfields.2.2.1, hoption]
  | promote _ _ _ hpolicy' =>
    intro e he
    rw [active_of_policy hpolicy'] at he
    cases he
  | retreat _ _ _ _ hpolicy' =>
    intro e he
    rw [active_of_policy hpolicy'] at he
    cases he

end

/-- **What a step explores** was not tried before, and is tried after it. -/
structure Explores (O : Optimizer) (name : String) (options : OptimizationOptions)
    (lock lock' : PolicyLock) (t : String × String) : Prop where
  none_active : activeExploration lock name = none
  resolves : resolvedTier lock name t.1 = some t.2
  differs : some t.2 ≠ options.candidateTier
  fresh : ¬ Spent O name options lock t
  free : ∀ c, lock.certificate name t.1 = some c → lock.route name t.1 ≠ none →
    c.owner ≠ .operator
  tries : Trying name options lock' t

theorem PolicyStep.explores (h : PolicyStep O name options lock lock' outcome)
    (hexplored : exploredTreatment outcome = some t) : Explores O name options lock lock' t := by
  cases h with
  | idle hidle _ =>
    cases outcome with
    | error e => cases hexplored
    | ok step =>
      rcases hidle step rfl with haction | haction
      all_goals
        rw [exploredTreatment, haction] at hexplored
        cases hexplored
  | promote haction _ _ _ =>
    rw [exploredTreatment, haction] at hexplored
    cases hexplored
  | retreat haction _ _ _ _ =>
    rw [exploredTreatment, haction] at hexplored
    cases hexplored
  | @explore step policy target candidate matched exploration haction htarget hoption hpolicy hnone
      hselected hfields hpolicy' =>
    rw [exploredTreatment, haction, if_pos rfl, htarget] at hexplored
    obtain rfl := Option.some.inj hexplored
    exact {
      none_active := hnone
      resolves := by
        rw [resolvedTier_of_policy hpolicy, hselected.resolves]
        rfl
      differs := by
        rw [hoption]
        exact fun heq => hselected.differs (Option.some.inj heq)
      fresh := by
        rintro ⟨candidate', hoption', hspent⟩
        obtain rfl := Option.some.inj (hoption.symm.trans hoption')
        rcases hspent with hroute | ⟨r, hr, hdigest⟩
        · rw [route_of_policy hpolicy] at hroute
          exact hselected.differs (resolve_of_route hroute hselected.resolves).1
        · rw [ledger_of_policy hpolicy] at hr
          have hbefore : rejectedBefore policy (treatmentContext O name options
              (target.requestKey, target.championTier) candidate) = true := by
            rw [rejectedBefore, List.any_eq_true]
            exact ⟨r, hr, decide_eq_true hdigest⟩
          exact absurd (hbefore.symm.trans hselected.fresh) (by decide)
      free := by
        intro c hc hroute howner
        rw [route_of_policy hpolicy] at hroute
        obtain ⟨tier, htier⟩ := Option.ne_none_iff_exists'.mp hroute
        obtain ⟨-, rfl⟩ := resolve_of_route htier hselected.resolves
        have hfree := hselected.free
        rw [ownedByOperator, hc, Option.any_some, howner] at hfree
        exact absurd hfree (by decide)
      tries := by
        refine ⟨exploration, ?_, ?_, hfields.1, hfields.2.1, hfields.2.2.2⟩
        · rw [active_of_policy hpolicy']
          rfl
        · rw [hfields.2.2.1, hoption] }

/-- **A projection moves only by a promotion**, and to the challenger. -/
theorem PolicyStep.resolved (h : PolicyStep O name options lock lock' outcome) (key : String) :
    resolvedTier lock' name key = resolvedTier lock name key ∨
      ∃ step e, outcome = .ok step ∧ step.action = .promote ∧
        activeExploration lock name = some e ∧
        resolvedTier lock' name key = some e.challengerTier := by
  cases h with
  | idle _ hsame => rw [hsame]; exact .inl rfl
  | explore _ _ _ hpolicy _ _ _ hpolicy' =>
    rw [resolvedTier_of_policy hpolicy', resolvedTier_of_policy hpolicy, resolve_congr rfl rfl]
    exact .inl rfl
  | retreat _ hpolicy _ _ hpolicy' =>
    rw [resolvedTier_of_policy hpolicy', resolvedTier_of_policy hpolicy, resolve_congr rfl rfl]
    exact .inl rfl
  | @promote step policy exploration haction hpolicy hactive hpolicy' =>
    rw [resolvedTier_of_policy hpolicy', resolvedTier_of_policy hpolicy]
    exact resolve_promoted.symm.imp_right fun hmoved =>
      ⟨step, exploration, rfl, haction, hactive, hmoved⟩

/-! ### Starts and ends -/

/-- A step that starts or ends an exploration. -/
def moves : Except String OptimizationStep → Bool
  | .ok step => step.action ≠ .hold && step.action ≠ .converged
  | .error _ => false

theorem idle_of_moves (h : moves outcome = false) : Idle outcome := by
  rintro step rfl
  unfold moves at h
  simp only [Bool.and_eq_false_iff, decide_eq_false_iff_not, not_not] at h
  exact h

/-- The number of active explorations. -/
def activeCount (name : String) (lock : PolicyLock) : ℕ :=
  if (activeExploration lock name).isSome then 1 else 0

/-- **Each exploration that ends was started.** -/
theorem PolicyStep.count (h : PolicyStep O name options lock lock' outcome) :
    (if moves outcome then 1 else 0) + activeCount name lock' =
      2 * (if (exploredTreatment outcome).isSome then 1 else 0) + activeCount name lock := by
  unfold activeCount
  cases h with
  | idle hidle hsame =>
    have hmoves : moves outcome = false := by
      cases outcome with
      | error e => rfl
      | ok step => rcases hidle step rfl with haction | haction <;> rw [moves, haction] <;> rfl
    have hexplored : exploredTreatment outcome = none := by
      cases outcome with
      | error e => rfl
      | ok step =>
        rcases hidle step rfl with haction | haction <;> rw [exploredTreatment, haction] <;> rfl
    rw [hmoves, hexplored, hsame]
    simp
  | explore haction htarget _ _ hnone _ _ hpolicy' =>
    rw [moves, exploredTreatment, haction, htarget, hnone, active_of_policy hpolicy']
    rfl
  | promote haction _ hactive hpolicy' =>
    rw [moves, exploredTreatment, haction, hactive, active_of_policy hpolicy']
    rfl
  | retreat haction _ hactive _ hpolicy' =>
    rw [moves, exploredTreatment, haction, hactive, active_of_policy hpolicy']
    rfl

theorem PolicyStep.challenger (h : PolicyStep O name options lock lock' outcome)
    {e : RouteExploration} (he : activeExploration lock' name = some e) :
    activeExploration lock name = some e ∨ some e.challengerTier = options.candidateTier := by
  cases h with
  | idle _ hsame => exact .inl (hsame ▸ he)
  | explore _ _ hoption _ _ _ hfields hpolicy' =>
    rw [active_of_policy hpolicy'] at he
    obtain rfl := Option.some.inj he
    exact .inr (by rw [hfields.2.2.1, hoption])
  | promote _ _ _ hpolicy' =>
    rw [active_of_policy hpolicy'] at he
    cases he
  | retreat _ _ _ _ hpolicy' =>
    rw [active_of_policy hpolicy'] at he
    cases he

end Tried

/-! ## Runs -/

/-- **A run of the optimizer** on one policy: at each step any evidence, and the
successor is published. The rejections are empty at first and are never full. -/
structure OptimizationRun (O : Optimizer) (name : String) (options : OptimizationOptions)
    (docs : ℕ → PolicyLock) (outcomes : ℕ → Except String OptimizationStep) (N : ℕ∞) : Prop where
  step : ∀ n : ℕ, n < N → ∃ eval digest,
    outcomes n = prepareStep O ⟨eval, docs n, digest, name, options⟩ ∧
      docs (n + 1) = published (docs n) (outcomes n)
  empty : ledger (docs 0) name = []
  short : ∀ n : ℕ, n ≤ N → (ledger (docs n) name).length < 256

/-- The tiers that a run can resolve to. -/
def reachableTiers (name : String) (options : OptimizationOptions) (lock : PolicyLock) :
    Finset String :=
  (canonicalKeys.filterMap (resolvedTier lock name)).toFinset ∪ options.candidateTier.toFinset ∪
    ((activeExploration lock name).map (·.challengerTier)).toFinset

/-- How many steps of a run start or end an exploration. -/
def moveBound (name : String) (options : OptimizationOptions) (lock : PolicyLock) : ℕ :=
  2 * (canonicalKeys.toFinset ×ˢ reachableTiers name options lock).card + 1

variable {n : ℕ}

namespace OptimizationRun

variable {O : Optimizer} {name : String} {options : OptimizationOptions} {docs : ℕ → PolicyLock}
  {outcomes : ℕ → Except String OptimizationStep} {N : ℕ∞} {t : String × String}

theorem policyStep (hrun : OptimizationRun O name options docs outcomes N) {n : ℕ} (hn : n < N) :
    PolicyStep O name options (docs n) (docs (n + 1)) (outcomes n) := by
  obtain ⟨eval, digest, houtcome, hnext⟩ := hrun.step n hn
  rw [hnext, houtcome]
  exact Optimization.policyStep O ⟨eval, docs n, digest, name, options⟩

theorem lt_of_le {m : ℕ} (hmn : m ≤ n) (hn : (n : ℕ∞) < N) : (m : ℕ∞) < N :=
  lt_of_le_of_lt (Nat.cast_le.mpr hmn) hn

section

variable (hrun : OptimizationRun O name options docs outcomes N)

include hrun

/-- **A treatment that was tried stays tried.** -/
theorem tried {m n : ℕ} (hmn : m ≤ n)
    (hn : n < N) (hcandidate : OfCandidate name options (docs m))
    (htried : Trying name options (docs m) t ∨ Spent O name options (docs m) t) :
    OfCandidate name options (docs n) ∧
      (Trying name options (docs n) t ∨ Spent O name options (docs n) t) := by
  induction n, hmn using Nat.le_induction with
  | base => exact ⟨hcandidate, htried⟩
  | succ n hmn ih =>
    have hn' := lt_of_le (Nat.le_succ n) hn
    obtain ⟨hcandidate, htried⟩ := ih hn'
    have hstep := hrun.policyStep hn'
    exact ⟨hstep.ofCandidate hcandidate, hstep.tried hcandidate (hrun.short n hn'.le) htried⟩

/-- **No treatment is explored twice.** -/
theorem explored_once {m : ℕ}
    (hmn : m < n) (hn : n < N) (hm : exploredTreatment (outcomes m) = some t) :
    exploredTreatment (outcomes n) ≠ some t := by
  intro hagain
  have hm' := lt_of_le hmn.le hn
  have hfirst := (hrun.policyStep hm').explores hm
  have hsecond := (hrun.policyStep hn).explores hagain
  have hcandidate : OfCandidate name options (docs m) := fun e he => by
    cases hfirst.none_active.symm.trans he
  obtain ⟨-, hrest⟩ := hrun.tried (Nat.succ_le_of_lt hmn) hn
    ((hrun.policyStep hm').ofCandidate hcandidate) (.inl hfirst.tries)
  rcases hrest with ⟨e, he, -⟩ | hspent
  · cases hsecond.none_active.symm.trans he
  · exact hsecond.fresh hspent

/-- **A projection that has the candidate tier keeps it.** -/
theorem resolved_candidate {m : ℕ}
    (hmn : m ≤ n) (hn : n < N) (hcandidate : OfCandidate name options (docs m)) {key : String}
    (htier : options.candidateTier = some tier)
    (hresolved : resolvedTier (docs m) name key = some tier) :
    OfCandidate name options (docs n) ∧ resolvedTier (docs n) name key = some tier := by
  induction n, hmn using Nat.le_induction with
  | base => exact ⟨hcandidate, hresolved⟩
  | succ n hmn ih =>
    have hn' := lt_of_le (Nat.le_succ n) hn
    obtain ⟨hcandidate, hresolved⟩ := ih hn'
    have hstep := hrun.policyStep hn'
    refine ⟨hstep.ofCandidate hcandidate, ?_⟩
    rcases hstep.resolved key with hsame | ⟨_, e, -, -, he, hmoved⟩
    · rw [hsame, hresolved]
    · rw [hmoved, hcandidate e he, htier]

theorem challenger {n : ℕ} (hn : n ≤ N)
    {e : RouteExploration} (he : activeExploration (docs n) name = some e) :
    some e.challengerTier = options.candidateTier ∨ activeExploration (docs 0) name = some e := by
  induction n with
  | zero => exact .inr he
  | succ n ih =>
    have hn' : (n : ℕ∞) < N := lt_of_lt_of_le (Nat.cast_lt.mpr n.lt_succ_self) hn
    rcases (hrun.policyStep hn').challenger he with hold | hcandidate
    · exact ih hn'.le hold
    · exact .inl hcandidate

/-- **A run resolves to few tiers.** -/
theorem resolved_reachable (hn : n ≤ N)
    {key : String} (h : resolvedTier (docs n) name key = some tier) :
    tier ∈ reachableTiers name options (docs 0) := by
  induction n with
  | zero =>
    refine Finset.mem_union_left _ (Finset.mem_union_left _ (List.mem_toFinset.mpr ?_))
    exact List.mem_filterMap.mpr ⟨key, canonical_of_resolvedTier h, h⟩
  | succ n ih =>
    have hn' : (n : ℕ∞) < N := lt_of_lt_of_le (Nat.cast_lt.mpr n.lt_succ_self) hn
    rcases (hrun.policyStep hn').resolved key with hsame | ⟨_, e, -, -, he, hmoved⟩
    · exact ih hn'.le (hsame ▸ h)
    · obtain rfl := Option.some.inj (hmoved.symm.trans h)
      rcases hrun.challenger hn'.le he with hcandidate | hstart
      · refine Finset.mem_union_left _ (Finset.mem_union_right _ ?_)
        rw [Option.mem_toFinset, ← hcandidate]
        rfl
      · refine Finset.mem_union_right _ ?_
        rw [hstart, Option.mem_toFinset]
        rfl

end

def exploredBefore (outcomes : ℕ → Except String OptimizationStep) (n : ℕ) :
    List (String × String) :=
  (List.range n).filterMap fun m => exploredTreatment (outcomes m)

section

variable (hrun : OptimizationRun O name options docs outcomes N)

include hrun

theorem mem_of_exploredBefore (hn : n ≤ N) (ht : t ∈ exploredBefore outcomes n) :
    t.1 ∈ canonicalKeys ∧ t.2 ∈ reachableTiers name options (docs 0) := by
  obtain ⟨m, hm, ht⟩ := List.mem_filterMap.mp ht
  have hm : (m : ℕ∞) < N := lt_of_lt_of_le (Nat.cast_lt.mpr (List.mem_range.mp hm)) hn
  have hresolves := ((hrun.policyStep hm).explores ht).resolves
  exact ⟨canonical_of_resolvedTier hresolves, hrun.resolved_reachable hm.le hresolves⟩

theorem exploredBefore_card (hn : n ≤ N) :
    (exploredBefore outcomes n).length ≤
      (canonicalKeys.toFinset ×ˢ reachableTiers name options (docs 0)).card := by
  have hnodup : (exploredBefore outcomes n).Nodup := by
    refine List.pairwise_filterMap.mpr ?_
    refine (List.pairwise_lt_range (n := n)).imp_of_mem fun {m k} hm hk hmk => ?_
    rintro t ht t' ht' rfl
    have hk : (k : ℕ∞) < N := lt_of_lt_of_le (Nat.cast_lt.mpr (List.mem_range.mp hk)) hn
    exact hrun.explored_once hmk hk ht ht'
  rw [← List.toFinset_card_of_nodup hnodup]
  refine Finset.card_le_card (Finset.subset_iff.mpr fun t ht => ?_)
  have hmem := hrun.mem_of_exploredBefore hn (List.mem_toFinset.mp ht)
  exact Finset.mem_product.mpr ⟨List.mem_toFinset.mpr hmem.1, hmem.2⟩

/-- Starts and ends, counted. -/
theorem moves_count (hn : n ≤ N) :
    ((List.range n).filter fun m => moves (outcomes m)).length + activeCount name (docs n) =
      2 * (exploredBefore outcomes n).length + activeCount name (docs 0) := by
  induction n with
  | zero => rfl
  | succ n ih =>
    have hn' : (n : ℕ∞) < N := lt_of_lt_of_le (Nat.cast_lt.mpr n.lt_succ_self) hn
    have hcount := (hrun.policyStep hn').count
    have hmoves : ((List.range (n + 1)).filter fun m => moves (outcomes m)).length =
        ((List.range n).filter fun m => moves (outcomes m)).length +
          if moves (outcomes n) then 1 else 0 := by
      rw [List.range_succ, List.filter_append, List.length_append]
      cases hmove : moves (outcomes n) <;> simp [hmove]
    have hexplored : (exploredBefore outcomes (n + 1)).length =
        (exploredBefore outcomes n).length +
          if (exploredTreatment (outcomes n)).isSome then 1 else 0 := by
      rw [exploredBefore, List.range_succ, List.filterMap_append, List.length_append]
      cases htreatment : exploredTreatment (outcomes n) <;> simp [htreatment, exploredBefore]
    have hbefore := ih hn'.le
    omega

/-- **A run starts and ends few explorations.** -/
theorem moves_bounded (hn : n ≤ N) :
    ((List.range n).filter fun m => moves (outcomes m)).length ≤
      moveBound name options (docs 0) := by
  have hcount := hrun.moves_count hn
  have hactive : activeCount name (docs 0) ≤ 1 := by
    unfold activeCount
    split <;> omega
  have hmoves : ((List.range n).filter fun m => moves (outcomes m)).length ≤
      2 * (exploredBefore outcomes n).length + 1 := by
    omega
  have hbound : ∀ c B m : ℕ, m ≤ 2 * c + 1 → c ≤ B → m ≤ 2 * B + 1 := by omega
  unfold moveBound
  exact hbound _ _ _ hmoves (hrun.exploredBefore_card hn)

/-- A step that moves nothing leaves the lock. -/
theorem rests (hn : n < N)
    (h : moves (outcomes n) = false) : Idle (outcomes n) ∧ docs (n + 1) = docs n := by
  refine ⟨idle_of_moves h, ?_⟩
  have hstep := hrun.policyStep hn
  generalize outcomes n = outcome at hstep h
  cases hstep with
  | idle _ hsame => exact hsame
  | explore haction _ _ _ _ _ _ _ =>
    rw [moves, haction] at h
    cases h
  | promote haction _ _ _ =>
    rw [moves, haction] at h
    cases h
  | retreat haction _ _ _ _ =>
    rw [moves, haction] at h
    cases h

/-- **A run comes to rest.** -/
theorem eventually_rests :
    ∃ M : ℕ, ∀ n : ℕ, M ≤ n → n < N → moves (outcomes n) = false := by
  by_contra hmoving
  push Not at hmoving
  -- from every point on the run moves again, so that it moves any number of times
  have hmany : ∀ k : ℕ, ∃ n : ℕ, n ≤ N ∧
      k ≤ ((List.range n).filter fun m => moves (outcomes m)).length := by
    intro k
    induction k with
    | zero => exact ⟨0, by simp, Nat.zero_le _⟩
    | succ k ih =>
      obtain ⟨M, -, hk⟩ := ih
      obtain ⟨n, hMn, hn, hmoves⟩ := hmoving M
      refine ⟨n + 1, by exact_mod_cast Order.add_one_le_of_lt hn, ?_⟩
      rw [List.range_succ, List.filter_append, List.length_append]
      have hgrow := ((List.range_sublist.mpr hMn).filter fun m => moves (outcomes m)).length_le
      have hlast : ([n].filter fun m => moves (outcomes m)).length = 1 := by
        rw [List.filter_cons_of_pos (by simpa using hmoves)]
        rfl
      omega
  obtain ⟨n, hn, hlarge⟩ := hmany (moveBound name options (docs 0) + 1)
  exact absurd (hlarge.trans (hrun.moves_bounded hn)) (Nat.not_succ_le_self _)

end

end OptimizationRun

/-- **The optimizer converges.** In a run on one policy no treatment is explored
twice; an exploration starts only where none is active; the tier of a projection
changes only by a promotion, to the challenger, which is the candidate tier unless
its exploration was there at the start; a projection of the candidate tier is not
explored any more; an explicit route of the operator is never a target; and the run
comes to rest after at most `moveBound` starts and ends of explorations. -/
theorem optimization_converges (O : Optimizer) (name : String) (options : OptimizationOptions)
    (docs : ℕ → PolicyLock) (outcomes : ℕ → Except String OptimizationStep) (N : ℕ∞)
    (hrun : OptimizationRun O name options docs outcomes N) :
    (∀ m n : ℕ, m < n → n < N → ∀ t, exploredTreatment (outcomes m) = some t →
      exploredTreatment (outcomes n) ≠ some t) ∧
    (∀ n : ℕ, n < N → ∀ t, exploredTreatment (outcomes n) = some t →
      activeExploration (docs n) name = none ∧ Trying name options (docs (n + 1)) t ∧
      resolvedTier (docs n) name t.1 = some t.2 ∧
      ∀ c, (docs n).certificate name t.1 = some c → (docs n).route name t.1 ≠ none →
        c.owner ≠ .operator) ∧
    (∀ n : ℕ, n < N → ∀ key,
      resolvedTier (docs (n + 1)) name key = resolvedTier (docs n) name key ∨
        ∃ step e, outcomes n = .ok step ∧ step.action = .promote ∧
          activeExploration (docs n) name = some e ∧
          resolvedTier (docs (n + 1)) name key = some e.challengerTier ∧
          (some e.challengerTier = options.candidateTier ∨
            activeExploration (docs 0) name = some e)) ∧
    (∀ m n : ℕ, m ≤ n → n < N → OfCandidate name options (docs m) → ∀ key tier,
      options.candidateTier = some tier → resolvedTier (docs m) name key = some tier →
      ∀ t, exploredTreatment (outcomes n) = some t → t.1 ≠ key) ∧
    (∀ n : ℕ, n ≤ N → ((List.range n).filter fun m => moves (outcomes m)).length ≤
      moveBound name options (docs 0)) ∧
    ∃ M : ℕ, ∀ n : ℕ, M ≤ n → n < N → Idle (outcomes n) ∧ docs (n + 1) = docs n := by
  refine ⟨fun m n hmn hn t hm => hrun.explored_once hmn hn hm, fun n hn t ht => ?_,
    fun n hn key => ?_, fun m n hmn hn hcandidate key tier htier hresolved t ht => ?_,
    fun n hn => hrun.moves_bounded hn, ?_⟩
  · have hexplores := (hrun.policyStep hn).explores ht
    exact ⟨hexplores.none_active, hexplores.tries, hexplores.resolves, hexplores.free⟩
  · refine ((hrun.policyStep hn).resolved key).imp_right ?_
    rintro ⟨step, e, houtcome, haction, he, hmoved⟩
    exact ⟨step, e, houtcome, haction, he, hmoved, hrun.challenger hn.le he⟩
  · rintro rfl
    obtain ⟨-, hkept⟩ := hrun.resolved_candidate hmn hn hcandidate htier hresolved
    have hexplores := (hrun.policyStep hn).explores ht
    exact hexplores.differs (by rw [← hexplores.resolves, hkept, htier])
  · obtain ⟨M, hM⟩ := hrun.eventually_rests
    exact ⟨M, fun n hMn hn => hrun.rests hn (hM n hMn hn)⟩

/-! A run that ends an exploration of another tier. -/

def plainOptimizer : Optimizer :=
  { plainCompiler with observedSubjectDigest := fun _ => plainDigest }

/-- The economy tier is being tried, and the candidate is a cheaper one. -/
def threeTierLock : PolicyLock where
  lockfileVersion := exploringLock.lockfileVersion
  artifact := exploringLock.artifact
  policies := exploringLock.policies.map fun _ policy =>
    { policy with tiers := policy.tiers.insert "cheap" ⟨"vendor:cheap", none, none⟩ }
  certificates := exploringLock.certificates

def cheapOptions : OptimizationOptions where
  objective := .cost
  candidateTier := some "cheap"
  challengerExposurePpm := 500000
  minimumTasksPerArm := 1
  maximumChallengerTasks := 1
  minimumPassRatePpm := 900000
  evaluatorConfigDigest := none

/-- A task of an arm that passes, with its cost. -/
def armRecord (id tier : String) (arm : ExperimentArm) (cost : ℤ) : EvalEvidenceRecord where
  resultId := id
  contentDigest := plainDigest
  subject := {
    evalId := id, scope := .task, subjectId := id, policyDigest := plainDigest
    decisions := [{
      decisionId := id, policy := "auto", routeProjection := implementKey
      requestKey := implementKey, selectedTier := tier, selectedEffort := none
      baselineTier := some "strong", baselineEffort := none, policyDigest := plainDigest
      experiment := some ⟨plainDigest, arm, .task, id, 500000⟩, routeMeasurement := none }]
    evidence := [], evidenceDigest := plainDigest }
  result := {
    evaluatorKind := .taskNative, evaluatorConfigDigest := plainDigest, verdict := .pass
    metrics := StrMap.ofPairs [("cost.usd_micros", ⟨cost, .microUsd⟩)], hardViolations := []
    decisionCredit := ∅, submittedAt := "" }

def armEvidence : EvalEvidenceSnapshot where
  evidenceRoot := plainDigest
  frozenAt := ""
  records := [armRecord "a" "strong" .control 200, armRecord "b" "economy" .challenger 100]

def armStep : Except String OptimizationStep :=
  prepareStep plainOptimizer ⟨armEvidence, threeTierLock, plainDigest, "auto", cheapOptions⟩

def armDocs (n : ℕ) : PolicyLock := if n = 0 then threeTierLock else published threeTierLock armStep

theorem armDocs_zero : armDocs 0 = threeTierLock := if_pos rfl

theorem armDocs_one : armDocs 1 = published threeTierLock armStep := if_neg one_ne_zero

theorem published_armStep : validateDocument plainOptimizer.toBinary threeTierLock = .ok () ∧
    (ledger (published threeTierLock armStep) "auto").length < 256 ∧
      resolvedTier (published threeTierLock armStep) "auto" implementKey = some "economy" := by
  simp only [armStep, prepareStep, prepareActiveStep, optionalSuccessor, activeSuccessor,
    exploreSuccessor, validateDocument, validateCompiledMetadata, validatePolicy,
    validateOptimizationState, validateRouteExploration, validateRouteExplorationIntrinsic,
    validateOptimizationGate, validateCertificates, validatePolicyCertificates, validateCertificate,
    validateOptionalDigest, validateSha256Digest, isSha256Digest_eq]
  decide +kernel

theorem armRun : OptimizationRun plainOptimizer "auto" cheapOptions armDocs
    (fun _ => armStep) 1 where
  step n hn := by
    obtain rfl : n = 0 := by simpa using hn
    refine ⟨armEvidence, plainDigest, ?_, ?_⟩
    · rw [armDocs_zero, armStep]
    · rw [armDocs_zero]
      exact armDocs_one
  empty := by
    rw [armDocs_zero]
    decide +kernel
  short n _ := by
    unfold armDocs
    split
    · show (ledger threeTierLock "auto").length < 256
      decide +kernel
    · exact published_armStep.2.1

/-- A record of the run, for a decision between the economy tier and the cheap one. -/
def trialRecord (id tier : String) (arm : Option ExperimentArm) (cost : ℤ) (verdict : EvalVerdict) :
    EvalEvidenceRecord :=
  let record := armRecord id tier .control cost
  { record with
    subject := { record.subject with decisions := [{
      decisionId := id, policy := "auto", routeProjection := implementKey
      requestKey := implementKey, selectedTier := tier, selectedEffort := none
      baselineTier := some "economy", baselineEffort := none, policyDigest := plainDigest
      experiment := arm.map (fun arm => ⟨plainDigest, arm, .task, id, 500000⟩)
      routeMeasurement := none }] }
    result := { record.result with verdict := verdict } }

def historyEvidence : EvalEvidenceSnapshot :=
  ⟨plainDigest, "", [trialRecord "c" "economy" none 100 .pass]⟩

def failedEvidence : EvalEvidenceSnapshot :=
  ⟨plainDigest, "", [trialRecord "d" "economy" (some .control) 100 .pass,
    trialRecord "e" "cheap" (some .challenger) 50 .fail]⟩

def stepOn (eval : EvalEvidenceSnapshot) (lock : PolicyLock) : Except String OptimizationStep :=
  prepareStep plainOptimizer ⟨eval, lock, plainDigest, "auto", cheapOptions⟩

/-- **Four steps**: the trial of the economy tier ends well, one of the cheap tier is started
and ends badly, and nothing is left to try. -/
theorem fourSteps : ∃ first second third fourth,
    let one := published threeTierLock (.ok first)
    let two := published one (.ok second)
    let three := published two (.ok third)
    stepOn armEvidence threeTierLock = .ok first ∧ stepOn historyEvidence one = .ok second
      ∧ stepOn failedEvidence two = .ok third ∧ stepOn historyEvidence three = .ok fourth
      ∧ [first, second, third, fourth].map OptimizationStep.action
        = [.promote, .explore, .retreat, .converged]
      ∧ [one, two, three, published three (.ok fourth)].map
        (fun lock => (ledger lock "auto").length)
        = [0, 0, 1, 1] := by
  have hrun : (do
      let first ← stepOn armEvidence threeTierLock
      let one := published threeTierLock (.ok first)
      let second ← stepOn historyEvidence one
      let two := published one (.ok second)
      let third ← stepOn failedEvidence two
      let three := published two (.ok third)
      let fourth ← stepOn historyEvidence three
      return ([first, second, third, fourth].map OptimizationStep.action,
        [one, two, three, published three (.ok fourth)].map
          fun lock => (ledger lock "auto").length) :
        Except String (List ControllerAction × List ℕ))
      = .ok ([.promote, .explore, .retreat, .converged], [0, 0, 1, 1]) := by
    simp only [stepOn, prepareStep, prepareActiveStep, optionalSuccessor, activeSuccessor,
      exploreSuccessor, validateDocument, validateCompiledMetadata, validatePolicy,
      validateOptimizationState, validateRouteExploration, validateRouteExplorationIntrinsic,
      validateOptimizationGate, validateCertificates, validatePolicyCertificates,
      validateCertificate, validateOptionalDigest, validateSha256Digest, isSha256Digest_eq]
    decide +kernel
  simp only [bind_eq_ok, pure_eq_ok, Prod.mk.injEq] at hrun
  obtain ⟨first, hfirst, second, hsecond, third, hthird, fourth, hfourth, hactions, hledger⟩ := hrun
  exact ⟨first, second, third, fourth, hfirst, hsecond, hthird, hfourth, hactions, hledger⟩

theorem fourRun : ∃ docs outcomes, docs 0 = threeTierLock
    ∧ OptimizationRun plainOptimizer "auto" cheapOptions docs outcomes 4
    ∧ (List.range 4).map (fun n => (outcomes n).toOption.map OptimizationStep.action)
      = [some .promote, some .explore, some .retreat, some .converged] := by
  obtain ⟨first, second, third, fourth, hfirst, hsecond, hthird, hfourth, hactions, hledger⟩ :=
    fourSteps
  simp only [List.map_cons, List.map_nil, List.cons.injEq, and_true] at hactions hledger
  obtain ⟨hone, htwo, hthree, hfour⟩ := hactions
  obtain ⟨lone, ltwo, lthree, lfour⟩ := hledger
  let one := published threeTierLock (.ok first)
  let two := published one (.ok second)
  let three := published two (.ok third)
  refine ⟨fun n => [threeTierLock, one, two, three].getD n (published three (.ok fourth)),
    fun n => [.ok first, .ok second, .ok third].getD n (.ok fourth), rfl, ⟨fun n hn => ?_, ?_,
    fun n hn => ?_⟩, ?_⟩
  · have hlt : n < 4 := by exact_mod_cast hn
    interval_cases n
    · exact ⟨armEvidence, plainDigest, hfirst.symm, rfl⟩
    · exact ⟨historyEvidence, plainDigest, hsecond.symm, rfl⟩
    · exact ⟨failedEvidence, plainDigest, hthird.symm, rfl⟩
    · exact ⟨historyEvidence, plainDigest, hfourth.symm, rfl⟩
  · show ledger threeTierLock "auto" = []
    decide +kernel
  · have hle : n ≤ 4 := by exact_mod_cast hn
    interval_cases n
    · show (ledger threeTierLock "auto").length < 256
      decide +kernel
    · exact lone.trans_lt (by decide)
    · exact ltwo.trans_lt (by decide)
    · exact lthree.trans_lt (by decide)
    · exact lfour.trans_lt (by decide)
  · show [some first.action, some second.action, some third.action, some fourth.action] = _
    rw [hone, htwo, hthree, hfour]

theorem optimization_converges_economy : ∃ docs outcomes, docs 0 = threeTierLock
    ∧ OptimizationRun plainOptimizer "auto" cheapOptions docs outcomes 4
    ∧ (List.range 4).map (fun n => (outcomes n).toOption.map OptimizationStep.action)
      = [some .promote, some .explore, some .retreat, some .converged]
    ∧ (∀ n : ℕ, n < (4 : ℕ∞) → ∀ t, exploredTreatment (outcomes n) = some t →
      activeExploration (docs n) "auto" = none)
    ∧ ∃ M : ℕ, ∀ n : ℕ, M ≤ n → n < (4 : ℕ∞) → Idle (outcomes n) ∧ docs (n + 1) = docs n := by
  obtain ⟨docs, outcomes, hstart, hrun, hactions⟩ := fourRun
  obtain ⟨-, hexplored, -, -, -, hrests⟩ :=
    optimization_converges plainOptimizer "auto" cheapOptions docs outcomes 4 hrun
  exact ⟨docs, outcomes, hstart, hrun, hactions, fun n hn t ht => (hexplored n hn t ht).1, hrests⟩

/-- **A promotion may be to another tier than the candidate**: of an exploration
that the run has found. -/
theorem promotes_other_tier : ¬ ∀ (O : Optimizer) (name : String) (options : OptimizationOptions)
    (docs : ℕ → PolicyLock) (outcomes : ℕ → Except String OptimizationStep) (N : ℕ∞),
    validateDocument O.toBinary (docs 0) = .ok () →
    OptimizationRun O name options docs outcomes N →
    ∀ n : ℕ, n < N → ∀ key,
      resolvedTier (docs (n + 1)) name key ≠ resolvedTier (docs n) name key →
      resolvedTier (docs (n + 1)) name key = options.candidateTier := by
  intro h
  have hvalid : validateDocument plainOptimizer.toBinary (armDocs 0) = .ok () := by
    rw [armDocs_zero]
    exact published_armStep.1
  have hmoved := h plainOptimizer "auto" cheapOptions armDocs (fun _ => armStep) 1 hvalid armRun 0
    (by decide) implementKey
  have hbefore : resolvedTier threeTierLock "auto" implementKey = some "strong" := by
    decide +kernel
  rw [zero_add, armDocs_zero, armDocs_one, published_armStep.2.2, hbefore] at hmoved
  exact absurd (hmoved (by decide)) (by decide)

end BitRouter.Optimization
