import BitRouter.Policy.Credited
import BitRouter.Policy.Recompiled

/-!
# What a compilation may change

A compilation that succeeds leaves the routes of the operator, and reports where
the evidence speaks against them; it changes another route only by one of the two
rules, which here are stated of what the snapshot credits; it lists what it has
changed; and it does not depend on the order of the records (`Conforms`).

One case escapes. A certificate of the history optimizer may have no route. If
its key has evidence that recommends nothing, then the certificate is inherited
like any other, and becomes an explicit route which no list of changes mentions.
A compilation conforms exactly when there is no such key
(`compilation_conforms_iff`).
-/

namespace BitRouter.Policy

/-! ## The rules, of what is credited -/

def creditedAt (as : List Attribution) (name key tier : String) : List Attribution :=
  ofTier (ofRoute as name key) tier

def creditedBaseline (as : List Attribution) (policy : PolicyDefinition) (name key : String) :
    Option String :=
  (namedBaseline (ofRoute as name key)).or policy.defaultTier

/-- The subjects whose quality is credited, each once. -/
def creditedSubjects (as : List Attribution) : Finset String :=
  ((as.filter (·.quality)).map (·.record.subject.subjectId)).toFinset

/-- **A tier goes back to the baseline.** -/
structure TakenBack (as : List Attribution) (policy : PolicyDefinition) (name key : String)
    (prior tier : String) : Prop where
  baseline : creditedBaseline as policy name key = some tier
  failed : (∃ a ∈ creditedAt as name key prior, a.violations ≠ 0) ∨
    0 < (tally (creditedAt as name key prior)).failWeightPpm ∧
      (tally (creditedAt as name key prior)).passRatePpm < 900000

/-- **A tier is admitted.** -/
structure Admitted (quality : PromotionQualityCriteria) (as : List Attribution)
    (policy : PolicyDefinition) (name key tier : String) : Prop where
  defined : tier ∈ policy.tiers
  subjects : max (semanticThreshold policy key) 1
    ≤ (creditedSubjects (creditedAt as name key tier)).card
  clean : ∀ a ∈ creditedAt as name key tier, a.violations = 0
  admits : quality.admits (tally (creditedAt as name key tier)).passRatePpm
    (((creditedBaseline as policy name key).bind fun b => tallied (creditedAt as name key b)).map
      (·.passRatePpm)) = true

variable {tier : String}

section Rules

variable {quality : PromotionQualityCriteria} {policy : PolicyDefinition}
  {route : RouteEvalEvidence} {as : List Attribution} {name key : String}

theorem RouteEvalEvidence.Tallies.tally {tier : String} {e : TierEvalEvidence}
    (htallies : route.Tallies as) (he : route.tiers[tier]? = some e) :
    tallied (ofTier as tier) = some e.quality ∧ e.quality = Policy.tally (ofTier as tier) := by
  have htier := htallies.tiers tier
  rw [he] at htier
  refine ⟨htier.symm, ?_⟩
  rw [Option.map_some, tallied] at htier
  split at htier
  · cases htier
  · exact Option.some.inj htier

theorem creditedBaseline_eq (htallies : route.Tallies (ofRoute as name key)) :
    route.baseline policy = creditedBaseline as policy name key := by
  rw [RouteEvalEvidence.baseline, creditedBaseline, htallies.baseline]

theorem of_regressed (h : route.regressed tier) :
    ∃ e, route.tiers[tier]? = some e ∧
      (0 < e.criticalViolations ∨ 0 < e.failWeightPpm ∧ e.passRatePpm < 900000) := by
  unfold RouteEvalEvidence.regressed at h
  cases he : route.tiers[tier]? with
  | none =>
    rw [he] at h
    cases h
  | some e =>
    rw [he, Option.any_some] at h
    simp only [Bool.or_eq_true, Bool.and_eq_true, decide_eq_true_eq] at h
    exact ⟨e, rfl, h⟩

/-- The negative rule takes back a tier that has failed. -/
theorem takenBack_of_demotion {prior : Option String}
    (htallies : route.Tallies (ofRoute as name key)) (h : route.demotion policy prior = some tier) :
    ∃ t, prior = some t ∧ TakenBack as policy name key t tier := by
  obtain ⟨hbaseline, t, ht, -, hregressed⟩ := demotion_eq_some.mp h
  refine ⟨t, ht, (creditedBaseline_eq htallies).symm.trans hbaseline, ?_⟩
  obtain ⟨e, he, hfailed⟩ := of_regressed hregressed
  have htally := (htallies.tally he).2
  show (∃ a ∈ ofTier (ofRoute as name key) t, a.violations ≠ 0) ∨ _
  rcases hfailed with hviolations | ⟨hweight, hrate⟩
  · left
    by_contra hnone
    push Not at hnone
    have hzero := criticalViolations_tally.mpr hnone
    rw [← htally] at hzero
    exact absurd hzero (Nat.pos_iff_ne_zero.mp hviolations)
  · right
    rw [creditedAt, ← htally]
    exact ⟨hweight, hrate⟩

/-- The positive rule admits what it selects. -/
theorem admitted_of_best (htallies : route.Tallies (ofRoute as name key))
    (h : route.best policy key quality = some tier) : Admitted quality as policy name key tier := by
  obtain ⟨e, he, hadmissible⟩ := admissible_of_best h
  have htally := (htallies.tally he).2
  simp only [RouteEvalEvidence.admissible, Bool.and_eq_true, decide_eq_true_eq] at hadmissible
  obtain ⟨⟨⟨⟨-, hdefined⟩, htasks⟩, hclean⟩, hadmits⟩ := hadmissible
  refine ⟨hdefined, ?_, ?_, ?_⟩
  · have hsubjects : e.independentTasks = creditedSubjects (creditedAt as name key tier) := by
      rw [creditedSubjects, creditedAt, ← independentTasks_tally, ← htally]
      rfl
    rw [← hsubjects]
    exact htasks.trans (Nat.min_le_left _ _)
  · refine criticalViolations_tally.mp ?_
    rw [creditedAt, ← htally]
    exact hclean
  · have hbaseline : ((route.baseline policy).bind (route.tiers[·]?)).map (·.passRatePpm) =
        ((creditedBaseline as policy name key).bind fun b => tallied (creditedAt as name key b)).map
          (·.passRatePpm) := by
      rw [creditedBaseline_eq htallies]
      cases creditedBaseline as policy name key with
      | none => rfl
      | some b =>
        rw [Option.bind_some, Option.bind_some, creditedAt, ← htallies.tiers b, Option.map_map]
        rfl
    rw [← hbaseline, creditedAt, ← htally]
    exact hadmits

end Rules

/-! ## Recommendations -/

/-- The tier that the evidence of an input recommends. -/
def CompileInput.recommends (C : Compiler) (quality : PromotionQualityCriteria)
    (input : CompileInput) (name key : String) : Option String := do
  let evidence ← (snapshotEvidence C input.eval).toOption
  let policy ← input.current.policies[name]?
  (recommendation quality policy (policyEvidence evidence name) key).map (·.2.1)

def CompileInput.credited (C : Compiler) (input : CompileInput) :
    Except String (List Attribution) :=
  match input.eval with
  | some eval => eval.credited C.parseTime
  | none => .ok []

/-- **A certificate of the optimizer whose key has evidence, but neither a route nor
a recommendation.** -/
def Orphaned (C : Compiler) (quality : PromotionQualityCriteria) (input : CompileInput)
    (as : List Attribution) (name key : String) : Prop :=
  input.current.certificate name key ≠ none ∧ input.current.route name key = none ∧
    (PredictiveRouteProjection.parseKey key).isSome ∧ ofRoute as name key ≠ [] ∧
    input.recommends C quality name key = none

/-- **What a compilation may change.** -/
structure Conforms (C : Compiler) (quality : PromotionQualityCriteria) (input : CompileInput)
    (result : CompileResult) (as : List Attribution) : Prop where
  operator : ∀ name key c, input.current.certificate name key = some c → c.owner = .operator →
    result.document.certificate name key = some c ∧
      result.document.route name key = input.current.route name key
  conflicts : ∀ conflict, conflict ∈ result.conflicts ↔ ∃ c tier,
    input.current.certificate conflict.policy conflict.requestKey = some c ∧ c.owner = .operator ∧
      input.recommends C quality conflict.policy conflict.requestKey = some tier ∧
      tier ≠ c.selectedTier ∧ conflict = {
        policy := conflict.policy, requestKey := conflict.requestKey
        operatorTier := c.selectedTier, recommendedTier := tier
        reason := "admitted evidence conflicts with an operator-owned route" }
  inherited : ∀ name key, input.recommends C quality name key = none →
    result.document.route name key = input.current.route name key
  changed : ∀ name key, result.document.route name key ≠ input.current.route name key →
    ∃ policy tier, input.current.policies[name]? = some policy ∧
      result.document.route name key = some tier ∧
      ((∃ prior, input.current.route name key = some prior ∧
          TakenBack as policy name key prior tier) ∨
        Admitted quality as policy name key tier)
  changes : ∀ change ∈ result.changes,
    change.previousTier = input.current.route change.policy change.requestKey ∧
      result.document.route change.policy change.requestKey = some change.selectedTier ∧
      change.previousTier ≠ some change.selectedTier
  listed : ∀ name key, result.document.route name key ≠ input.current.route name key →
    (name, key) ∈ result.changes.map fun change => (change.policy, change.requestKey)
  distinct : (result.changes.map fun change => (change.policy, change.requestKey)).Nodup
  credited : ∀ eval, input.eval = some eval → CreditedOnce C.parseTime eval as
  reordered : ∀ eval records, input.eval = some eval → records.Perm eval.records →
    compileCandidateWithQuality C { input with eval := some { eval with records } } quality =
      .ok result

variable {change : CompileChange}

section Compilation

variable {C : Compiler} {quality : PromotionQualityCriteria} {input : CompileInput}
  {result : CompileResult} {evidence : RouteEvidence} {artifact : PolicyArtifact}
  {name key : String} {policy : PolicyDefinition} {as : List Attribution}

theorem credited_of_snapshotEvidence (h : snapshotEvidence C input.eval = .ok evidence) :
    ∃ as, input.credited C = .ok as ∧ Tallied evidence as := by
  unfold CompileInput.credited
  cases heval : input.eval with
  | none =>
    rw [heval] at h
    obtain rfl := Except.ok.inj h
    exact ⟨[], rfl, tallied_empty⟩
  | some eval =>
    rw [heval] at h
    exact credited_of_routeEvidence h

theorem recommends_eq (hevidence : snapshotEvidence C input.eval = .ok evidence)
    (hpolicy : input.current.policies[name]? = some policy) :
    input.recommends C quality name key =
      (recommendation quality policy (policyEvidence evidence name) key).map (·.2.1) := by
  rw [CompileInput.recommends, hevidence, hpolicy]
  rfl

variable {route : RouteEvalEvidence}

theorem policyEvidence_eq_some :
    (policyEvidence evidence name)[key]? = some route ↔
      (PredictiveRouteProjection.parseKey key).isSome ∧ routeAt evidence name key = some route := by
  unfold policyEvidence routeAt
  rw [Std.ExtTreeMap.getElem?_filter', Option.filter_eq_some_iff, and_comm]
  cases evidence[name]? with
  | none =>
    rw [Option.getD_none, StrMap.getElem?_empty]
    rfl
  | some projections => rfl

theorem tallies_of_policyEvidence (htallied : Tallied evidence as)
    (hroute : (policyEvidence evidence name)[key]? = some route) :
    route.Tallies (ofRoute as name key) := by
  have htallies := (htallied name key).1
  rwa [(policyEvidence_eq_some.mp hroute).2] at htallies

/-- A key with evidence is looked at. -/
theorem mem_requestKeys_of_recommends (hrec : recommendation quality policy
    (policyEvidence evidence name) key ≠ none) :
    key ∈ requestKeys policy (policyEvidence evidence name) := by
  refine mem_requestKeys.mpr (.inr ?_)
  rw [StrMap.mem_iff, Option.isSome_iff_ne_none]
  intro hnone
  rw [recommendation, hnone] at hrec
  exact hrec rfl

/-- What follows of a recommendation. -/
theorem of_recommendation {verdict : PromotionVerdict} (htallied : Tallied evidence as)
    (hrec : recommendation quality policy (policyEvidence evidence name) key =
      some (route, tier, verdict)) :
    (∃ prior, policy.routes[key]? = some prior ∧ TakenBack as policy name key prior tier) ∨
      Admitted quality as policy name key tier := by
  simp only [recommendation, Option.bind_eq_bind, Option.bind_eq_some_iff] at hrec
  obtain ⟨route', hroute, recommended, heval, hpair⟩ := hrec
  obtain ⟨rfl, rfl⟩ := Prod.mk.inj (Option.some.inj hpair)
  have htallies := tallies_of_policyEvidence htallied hroute
  unfold evalRecommendation at heval
  split at heval
  · cases heval
  · split at heval
    · next baseline hdemotion =>
      obtain ⟨rfl, -⟩ := Prod.mk.inj (Option.some.inj heval)
      exact .inl (takenBack_of_demotion htallies hdemotion)
    · split at heval
      · cases heval
      · obtain ⟨best, hbest, hpair⟩ := Option.map_eq_some_iff.mp heval
        obtain ⟨rfl, -⟩ := Prod.mk.inj hpair
        exact .inr (admitted_of_best htallies hbest)

theorem route_current (hpolicy : input.current.policies[name]? = some policy) :
    input.current.route name key = policy.routes[key]? := by
  rw [PolicyLock.route, hpolicy]
  rfl

theorem route_compiled_none (hpolicy : input.current.policies[name]? = none) :
    (compiledDocument C quality input evidence artifact).route name key =
      input.current.route name key := by
  rw [PolicyLock.route, PolicyLock.route, policy_compiled, hpolicy]
  rfl

/-- **Where nothing is recommended the route stays**, unless the key is orphaned. -/
theorem route_inherited_iff (hvalid : validateDocument C.toBinary input.current = .ok ())
    (hevidence : snapshotEvidence C input.eval = .ok evidence) (htallied : Tallied evidence as)
    (hrec : input.recommends C quality name key = none) :
    (compiledDocument C quality input evidence artifact).route name key =
        input.current.route name key ↔ ¬ Orphaned C quality input as name key := by
  cases hpolicy : input.current.policies[name]? with
  | none =>
    refine iff_of_true (route_compiled_none hpolicy) fun horphaned => horphaned.1 ?_
    by_contra hsome
    obtain ⟨c, hc⟩ := Option.ne_none_iff_exists'.mp hsome
    obtain ⟨policy, hpolicy', -⟩ := validateCertificate_of_valid hvalid hc
    rw [hpolicy] at hpolicy'
    cases hpolicy'
  | some policy =>
    have hnone : recommendation quality policy (policyEvidence evidence name) key = none := by
      rwa [recommends_eq hevidence hpolicy, Option.map_eq_none_iff] at hrec
    by_cases hkey : key ∈ requestKeys policy (policyEvidence evidence name)
    · rw [route_compiled, certificate_compiled hpolicy hkey, compileRoute_inherited hnone]
      show (input.current.certificate name key).map (·.selectedTier) = _ ↔ _
      cases hroute : input.current.route name key with
      | some tier =>
        obtain ⟨c, hc, rfl⟩ := certificate_of_route hvalid hroute
        rw [hc]
        exact iff_of_true rfl fun horphaned => by cases hroute.symm.trans horphaned.2.1
      | none =>
        have hevidenced : key ∈ policyEvidence evidence name := by
          refine (mem_requestKeys.mp hkey).resolve_left fun hmem => ?_
          rw [StrMap.mem_iff, ← route_current hpolicy, hroute] at hmem
          cases hmem
        obtain ⟨route, hevidenced⟩ := Option.isSome_iff_exists.mp (StrMap.mem_iff.mp hevidenced)
        obtain ⟨hcanonical, hat⟩ := policyEvidence_eq_some.mp hevidenced
        have hcredited : ofRoute as name key ≠ [] := fun hempty => by
          cases hat.symm.trans ((htallied name key).2.mpr hempty)
        rw [Option.map_eq_none_iff]
        constructor
        · exact fun hc horphaned => horphaned.1 hc
        · intro horphaned
          by_contra hc
          exact horphaned ⟨hc, hroute, hcanonical, hcredited, hrec⟩
    · obtain ⟨hnoroute, hnoevidence⟩ := not_mem_requestKeys hkey
      rw [route_compiled, certificate_compiled_none hpolicy hkey, route_current hpolicy, hnoroute]
      refine iff_of_true rfl fun horphaned => ?_
      obtain ⟨-, -, hcanonical, hcredited, -⟩ := horphaned
      have hat : routeAt evidence name key ≠ none := fun hnone =>
        hcredited ((htallied name key).2.mp hnone)
      obtain ⟨route, hroute⟩ := Option.ne_none_iff_exists'.mp hat
      rw [policyEvidence_eq_some.mpr ⟨hcanonical, hroute⟩] at hnoevidence
      cases hnoevidence

/-! ## What is reported -/

/-- A conflict, of the key it is about. -/
theorem compileRoute_conflict {current : PolicyLock} {digest : String}
    {policyEval : StrMap RouteEvalEvidence} {conflict : CompileConflict} :
    (compileRoute C current quality digest name policy policyEval key).conflict = some conflict ↔
      ∃ c tier, current.certificate name key = some c ∧ c.owner = .operator ∧
        (recommendation quality policy policyEval key).map (·.2.1) = some tier ∧
        tier ≠ c.selectedTier ∧ conflict = {
          policy := name, requestKey := key, operatorTier := c.selectedTier, recommendedTier := tier
          reason := "admitted evidence conflicts with an operator-owned route" } := by
  unfold compileRoute
  cases hc : current.certificate name key with
  | none => cases recommendation quality policy policyEval key <;> simp [recommendedRoute]
  | some c =>
    cases hrec : recommendation quality policy policyEval key with
    | none => simp
    | some recommended =>
      obtain ⟨route, tier, verdict⟩ := recommended
      by_cases howner : c.owner = .operator
      · simp only [howner, if_true, Option.ite_none_left_eq_some]
        constructor
        · rintro ⟨hne, hconflict⟩
          exact ⟨c, tier, rfl, howner, rfl, hne, (Option.some.inj hconflict).symm⟩
        · rintro ⟨c', tier', hc', -, htier, hne, rfl⟩
          obtain rfl := Option.some.inj hc'
          obtain rfl := Option.some.inj htier
          exact ⟨hne, rfl⟩
      · simp only [howner, if_false, recommendedRoute, reduceCtorEq, false_iff]
        rintro ⟨c', -, hc', howner', -⟩
        obtain rfl := Option.some.inj hc'
        exact howner howner'

/-- A change, of the key it is about. -/
theorem compileRoute_change {current : PolicyLock} {digest : String}
    {policyEval : StrMap RouteEvalEvidence} :
    (compileRoute C current quality digest name policy policyEval key).change = some change ↔
      ¬ current.operatorOwns name key ∧ ∃ route tier verdict,
        recommendation quality policy policyEval key = some (route, tier, verdict) ∧
        policy.routes[key]? ≠ some tier ∧ change = {
          policy := name, requestKey := key, previousTier := policy.routes[key]?
          selectedTier := tier, verdict } := by
  cases hrec : recommendation quality policy policyEval key with
  | none =>
    rw [compileRoute_inherited hrec]
    simp
  | some recommended =>
    obtain ⟨route, tier, verdict⟩ := recommended
    by_cases howns : current.operatorOwns name key
    · obtain ⟨c, hc, howner⟩ := id howns
      unfold compileRoute
      simp [hc, hrec, howner, howns]
    · rw [compileRoute_recommended hrec fun c hc howner => howns ⟨c, hc, howner⟩]
      simp only [recommendedRoute, Option.ite_none_left_eq_some, howns, not_false_iff, true_and]
      constructor
      · rintro ⟨hne, hchange⟩
        exact ⟨route, tier, verdict, rfl, hne, (Option.some.inj hchange).symm⟩
      · rintro ⟨_, tier', verdict', hpair, hne, rfl⟩
        obtain ⟨-, rfl, rfl⟩ := Option.some.inj hpair
        exact ⟨hne, rfl⟩

theorem mem_reported {α : Type} {f : String → PolicyDefinition → String → Option α} {x : α} :
    (x ∈ input.current.policies.toList.flatMap fun (name, policy) =>
      (requestKeys policy (policyEvidence evidence name)).keys.filterMap (f name policy)) ↔
      ∃ name policy key, input.current.policies[name]? = some policy ∧
        key ∈ requestKeys policy (policyEvidence evidence name) ∧ f name policy key = some x := by
  simp only [List.mem_flatMap, List.mem_filterMap, Std.ExtTreeMap.mem_keys, Prod.exists,
    StrMap.mem_toList]
  constructor
  · rintro ⟨name, policy, hpolicy, key, hkey, hx⟩
    exact ⟨name, policy, key, hpolicy, hkey, hx⟩
  · rintro ⟨name, policy, key, hpolicy, hkey, hx⟩
    exact ⟨name, policy, hpolicy, key, hkey, hx⟩

/-- **The conflicts.** -/
theorem mem_conflicts (hevidence : snapshotEvidence C input.eval = .ok evidence)
    (hvalid : validateDocument C.toBinary input.current = .ok ()) {conflict : CompileConflict} :
    conflict ∈ (compiled C quality input evidence artifact).conflicts ↔ ∃ c tier,
      input.current.certificate conflict.policy conflict.requestKey = some c ∧ c.owner = .operator ∧
        input.recommends C quality conflict.policy conflict.requestKey = some tier ∧
        tier ≠ c.selectedTier ∧ conflict = {
          policy := conflict.policy, requestKey := conflict.requestKey
          operatorTier := c.selectedTier, recommendedTier := tier
          reason := "admitted evidence conflicts with an operator-owned route" } := by
  refine (mem_reported (f := fun name policy key => (compileRoute C input.current quality
    artifact.compiler.configDigest name policy
      (policyEvidence evidence name) key).conflict)).trans ?_
  constructor
  · rintro ⟨name, policy, key, hpolicy, -, hconflict⟩
    obtain ⟨c, tier, hc, howner, htier, hne, rfl⟩ := compileRoute_conflict.mp hconflict
    exact ⟨c, tier, hc, howner, (recommends_eq hevidence hpolicy).trans htier, hne, rfl⟩
  · rintro ⟨c, tier, hc, howner, htier, hne, hconflict⟩
    obtain ⟨policy, hpolicy, -⟩ := validateCertificate_of_valid hvalid hc
    rw [recommends_eq hevidence hpolicy] at htier
    have hrec : recommendation quality policy (policyEvidence evidence conflict.policy)
        conflict.requestKey ≠ none := by
      intro hnone
      rw [hnone] at htier
      cases htier
    exact ⟨conflict.policy, policy, conflict.requestKey, hpolicy,
      mem_requestKeys_of_recommends hrec,
      compileRoute_conflict.mpr ⟨c, tier, hc, howner, htier, hne, hconflict⟩⟩

/-- **The changes.** -/
theorem mem_changes :
    change ∈ (compiled C quality input evidence artifact).changes ↔
      ¬ input.current.operatorOwns change.policy change.requestKey ∧ ∃ policy route tier verdict,
        input.current.policies[change.policy]? = some policy ∧
        recommendation quality policy (policyEvidence evidence change.policy) change.requestKey =
          some (route, tier, verdict) ∧
        policy.routes[change.requestKey]? ≠ some tier ∧ change = {
          policy := change.policy, requestKey := change.requestKey
          previousTier := policy.routes[change.requestKey]?, selectedTier := tier, verdict } := by
  refine (mem_reported (f := fun name policy key => (compileRoute C input.current quality
    artifact.compiler.configDigest name policy (policyEvidence evidence name) key).change)).trans ?_
  constructor
  · rintro ⟨name, policy, key, hpolicy, -, hchange⟩
    obtain ⟨howns, route, tier, verdict, hrec, hne, rfl⟩ := compileRoute_change.mp hchange
    exact ⟨howns, policy, route, tier, verdict, hpolicy, hrec, hne, rfl⟩
  · rintro ⟨howns, policy, route, tier, verdict, hpolicy, hrec, hne, hchange⟩
    have hsome : recommendation quality policy (policyEvidence evidence change.policy)
        change.requestKey ≠ none := by
      rw [hrec]
      exact Option.some_ne_none _
    exact ⟨change.policy, policy, change.requestKey, hpolicy, mem_requestKeys_of_recommends hsome,
      compileRoute_change.mpr ⟨howns, route, tier, verdict, hrec, hne, hchange⟩⟩

theorem nodup_reported {α : Type} {f : String → Option α} {g : α → String} {keys : List String}
    (hg : ∀ key x, f key = some x → g x = key) (hkeys : keys.Nodup) :
    ((keys.filterMap f).map g).Nodup := by
  have hsublist : ((keys.filterMap f).map g).Sublist keys := by
    clear hkeys
    induction keys with
    | nil => exact List.Sublist.slnil
    | cons key keys ih =>
      cases hf : f key with
      | none =>
        rw [List.filterMap_cons_none hf]
        exact ih.cons key
      | some x =>
        rw [List.filterMap_cons_some hf, List.map_cons, hg key x hf]
        exact ih.cons_cons key
  exact hsublist.nodup hkeys

/-- **Each change is listed once.** -/
theorem changes_nodup : ((compiled C quality input evidence artifact).changes.map
    fun change => (change.policy, change.requestKey)).Nodup := by
  have hchange : ∀ name policy key change, (compileRoute C input.current quality
      artifact.compiler.configDigest name policy (policyEvidence evidence name) key).change =
      some change → change.policy = name ∧ change.requestKey = key := by
    intro name policy key change h
    obtain ⟨-, _, _, _, -, -, rfl⟩ := compileRoute_change.mp h
    exact ⟨rfl, rfl⟩
  show (List.map _ (List.flatMap _ _)).Nodup
  rw [List.map_flatMap, List.nodup_flatMap]
  constructor
  · rintro ⟨name, policy⟩ -
    have hkeys := nodup_reported (g := CompileChange.requestKey)
      (fun key change h => (hchange name policy key change h).2)
      (Std.ExtTreeMap.nodup_keys (t := requestKeys policy (policyEvidence evidence name)))
    exact List.Nodup.of_map Prod.snd (by rwa [List.map_map])
  · refine (Std.ExtTreeMap.distinct_keys_toList (t := input.current.policies)).imp ?_
    rintro ⟨name, policy⟩ ⟨name', policy'⟩ hne pair hmem hmem'
    obtain ⟨change, hchange₁, rfl⟩ := List.mem_map.mp hmem
    obtain ⟨change', hchange₂, heq⟩ := List.mem_map.mp hmem'
    obtain ⟨key, -, hkey⟩ := List.mem_filterMap.mp
      (show change ∈ List.filterMap _ (requestKeys policy (policyEvidence evidence name)).keys
        from hchange₁)
    obtain ⟨key', -, hkey'⟩ := List.mem_filterMap.mp
      (show change' ∈ List.filterMap _ (requestKeys policy' (policyEvidence evidence name')).keys
        from hchange₂)
    refine hne (Std.LawfulEqCmp.compare_eq_iff_eq.mpr ?_)
    rw [← (hchange _ _ _ _ hkey).1, ← (hchange _ _ _ _ hkey').1]
    exact (congrArg Prod.fst heq).symm

/-! ## The theorem -/

/-- **A route that changes, changes by a rule**, unless its key is orphaned. -/
theorem recommended_of_changed (hvalid : validateDocument C.toBinary input.current = .ok ())
    (hevidence : snapshotEvidence C input.eval = .ok evidence) (htallied : Tallied evidence as)
    (hnone : ¬ Orphaned C quality input as name key)
    (hdiffer : (compiledDocument C quality input evidence artifact).route name key ≠
      input.current.route name key) :
    ¬ input.current.operatorOwns name key ∧ ∃ policy route tier verdict,
      input.current.policies[name]? = some policy ∧
      recommendation quality policy (policyEvidence evidence name) key =
        some (route, tier, verdict) ∧
      (compiledDocument C quality input evidence artifact).route name key = some tier := by
  cases hpolicy : input.current.policies[name]? with
  | none => exact absurd (route_compiled_none hpolicy) hdiffer
  | some policy =>
    have howns : ¬ input.current.operatorOwns name key := by
      intro howns
      obtain ⟨c, hc, howner⟩ := id howns
      refine hdiffer ?_
      rw [route_compiled, certificate_compiled_operator hvalid hc howner]
      exact (explicit_of_operatorOwns hvalid howns c hc).symm
    cases hrec : recommendation quality policy (policyEvidence evidence name) key with
    | none =>
      have hnorec : input.recommends C quality name key = none := by
        rw [recommends_eq hevidence hpolicy, hrec]
        rfl
      exact absurd ((route_inherited_iff hvalid hevidence htallied hnorec).mpr hnone) hdiffer
    | some recommended =>
      obtain ⟨route, tier, verdict⟩ := recommended
      refine ⟨howns, policy, route, tier, verdict, rfl, hrec, ?_⟩
      have hkey : key ∈ requestKeys policy (policyEvidence evidence name) :=
        mem_requestKeys_of_recommends (hrec ▸ Option.some_ne_none _)
      rw [route_compiled_free hpolicy hkey howns, hrec]
      rfl

/-- What a listed change has done. -/
theorem route_of_change (h : change ∈ (compiled C quality input evidence artifact).changes) :
    change.previousTier = input.current.route change.policy change.requestKey ∧
      (compiledDocument C quality input evidence artifact).route change.policy change.requestKey =
        some change.selectedTier ∧ change.previousTier ≠ some change.selectedTier := by
  obtain ⟨howns, policy, route, tier, verdict, hpolicy, hrec, hne, hchange⟩ := mem_changes.mp h
  have hprevious : change.previousTier = policy.routes[change.requestKey]? :=
    congrArg CompileChange.previousTier hchange
  have hselected : change.selectedTier = tier := congrArg CompileChange.selectedTier hchange
  have hkey : change.requestKey ∈ requestKeys policy (policyEvidence evidence change.policy) :=
    mem_requestKeys_of_recommends (hrec ▸ Option.some_ne_none _)
  rw [hprevious, hselected, route_current hpolicy, route_compiled_free hpolicy hkey howns, hrec]
  exact ⟨rfl, rfl, hne⟩

/-- **The order of the records does not matter.** -/
theorem compile_perm (h : compileCandidateWithQuality C input quality = .ok result)
    {eval : EvalEvidenceSnapshot} (heval : input.eval = some eval)
    (hids : (eval.records.map (·.resultId)).Nodup) {records : List EvalEvidenceRecord}
    (hperm : records.Perm eval.records) :
    compileCandidateWithQuality C { input with eval := some { eval with records } } quality =
      .ok result := by
  simp only [compileCandidateWithQuality, CompileInput.validateTreatments,
    sourceSnapshotTime, heval,
    bind_eq_ok, pure_eq_ok] at h ⊢
  obtain ⟨_, hcurrent, _, hquality, _, htreatments, _, htime, evidence, hevidence, time, hsource, _,
    hproposals, _, hresult, rfl⟩ := h
  refine ⟨_, hcurrent, _, hquality, (), ?_, _, htime, evidence,
    routeEvidence_perm hevidence hids hperm, time, hsource, _, hproposals, _, hresult, rfl⟩
  exact forM_eq_ok.mpr fun record hrecord => forM_eq_ok.mp htreatments record (hperm.subset hrecord)

/-- **What a compilation may change, and when it changes more.** A compilation that
succeeds keeps to the two rules, reports every change and every conflict, credits
each decision once and regards no order of the records, exactly when no certificate
without a route has a key whose evidence recommends nothing. -/
theorem compilation_conforms_iff (C : Compiler) (quality : PromotionQualityCriteria)
    (input : CompileInput) (result : CompileResult)
    (hids : ∀ eval ∈ input.eval, (eval.records.map (·.resultId)).Nodup)
    (h : compileCandidateWithQuality C input quality = .ok result) :
    ∃ as, input.credited C = .ok as ∧ (Conforms C quality input result as ↔
      ∀ name key, ¬ Orphaned C quality input as name key) := by
  obtain ⟨hvalid, evidence, artifact, hevidence, -, rfl, -⟩ := of_compile_eq_ok h
  obtain ⟨as, hcredited, htallied⟩ := credited_of_snapshotEvidence hevidence
  refine ⟨as, hcredited, fun hconforms name key horphaned => ?_, fun hnone => ?_⟩
  · have hrec := horphaned.2.2.2.2
    exact (route_inherited_iff hvalid hevidence htallied hrec).mp
      (hconforms.inherited name key hrec)
      horphaned
  · exact {
      operator := fun name key c hc howner => by
        have hcertificate :
          (compiledDocument C quality input evidence artifact).certificate name key
            = some c := certificate_compiled_operator hvalid hc howner
        refine ⟨hcertificate, ?_⟩
        show (compiledDocument C quality input evidence artifact).route name key = _
        rw [route_compiled, hcertificate]
        exact (explicit_of_operatorOwns hvalid ⟨c, hc, howner⟩ c hc).symm
      conflicts := fun conflict => mem_conflicts hevidence hvalid
      inherited := fun name key hrec =>
        (route_inherited_iff hvalid hevidence htallied hrec).mpr (hnone name key)
      changed := fun name key hdiffer => by
        obtain ⟨-, policy, route, tier, verdict, hpolicy, hrec, hroute⟩ :=
          recommended_of_changed hvalid hevidence htallied (hnone name key) hdiffer
        rw [route_current hpolicy]
        exact ⟨policy, tier, hpolicy, hroute, of_recommendation htallied hrec⟩
      changes := fun change hchange => route_of_change hchange
      listed := fun name key hdiffer => by
        obtain ⟨howns, policy, route, tier, verdict, hpolicy, hrec, hroute⟩ :=
          recommended_of_changed hvalid hevidence htallied (hnone name key) hdiffer
        refine List.mem_map.mpr ⟨⟨name, key, policy.routes[key]?, tier, verdict⟩, ?_, rfl⟩
        refine mem_changes.mpr ⟨howns, policy, route, tier, verdict, hpolicy, hrec, ?_, rfl⟩
        rw [← route_current hpolicy, ← hroute]
        exact hdiffer.symm
      distinct := changes_nodup
      credited := fun eval heval => by
        rw [CompileInput.credited, heval] at hcredited
        exact creditedOnce hcredited
      reordered := fun eval records heval hperm => compile_perm h heval (hids eval heval) hperm }

end Compilation

/-! A certificate that becomes a route. -/

/-- The cheaper tier is being tried. -/
def economyExploration : RouteExploration where
  experimentId := plainDigest
  targetRequestKey := implementKey
  championTier := "strong"
  challengerTier := "economy"
  challengerExposurePpm := 500000
  gate := ⟨.cost, 1, 1, 900000, none⟩

def economyCertificate : PolicyCertificate where
  classifierDigest := none
  owner := .compiler
  selectedTier := "strong"
  baselineTier := some "strong"
  source := .mixed
  eligibleEpisodes := 0
  independentTasks := 0
  quality := none
  economics := none
  latency := none
  criticalViolations := 0
  verdict := .experiment
  evaluatorConfigDigest := none
  compilerConfigDigest := plainDigest
  evidenceDigest := plainDigest

/-- The lock the optimizer has made for it. -/
def exploringLock : PolicyLock where
  lockfileVersion := 4
  artifact := some ⟨some plainDigest, plainDigest, some plainDigest, 0,
    ⟨historyOptimizerId, historyOptimizerVersion, plainDigest⟩⟩
  policies := StrMap.ofPairs
    [("auto", { twoTierPolicy with optimization := some ⟨some economyExploration, []⟩ })]
  certificates := StrMap.ofPairs [("auto", StrMap.ofPairs [(implementKey, economyCertificate)])]

theorem exploring_run : ∃ result,
    compileCandidateWithQuality plainCompiler (economyInput exploringLock) .qualityFirst =
        .ok result ∧
      result.document.route "auto" implementKey = some "strong" ∧ result.changes = [] := by
  have hrun : (do
      let result ← compileCandidateWithQuality plainCompiler (economyInput exploringLock)
        .qualityFirst
      return (result.document.route "auto" implementKey, result.changes) : Except String _) =
      .ok (some "strong", []) := by
    simp only [compileCandidateWithQuality, validateDocument, validateCompiledMetadata,
      validatePolicy, validateOptimizationState, validateRouteExploration,
      validateRouteExplorationIntrinsic, validateOptimizationGate, validateCertificates,
      validatePolicyCertificates, validateCertificate, validateOptionalDigest,
      validateSha256Digest, isSha256Digest_eq]
    decide +kernel
  simp only [bind_eq_ok, pure_eq_ok, Prod.mk.injEq] at hrun
  obtain ⟨result, hresult, hroute, hchanges⟩ := hrun
  exact ⟨result, hresult, hroute, hchanges⟩

theorem economyInput_ids (current : PolicyLock) : ∀ eval ∈ (economyInput current).eval,
    (eval.records.map (·.resultId)).Nodup := by
  rintro eval heval
  obtain rfl := Option.some.inj heval
  decide

theorem compilation_conforms_iff_exploring : ∃ result as,
    (economyInput exploringLock).credited plainCompiler = .ok as ∧
      (Conforms plainCompiler .qualityFirst (economyInput exploringLock) result as ↔
        ∀ name key, ¬ Orphaned plainCompiler .qualityFirst
            (economyInput exploringLock) as name key) := by
  obtain ⟨result, hresult, -⟩ := exploring_run
  exact ⟨result, compilation_conforms_iff plainCompiler .qualityFirst (economyInput exploringLock)
    result (economyInput_ids exploringLock) hresult⟩

/-- **A certificate may become a route that nothing recommends.** -/
theorem compilation_adds_route : ¬ ∀ (C : Compiler) (quality : PromotionQualityCriteria)
    (input : CompileInput) (result : CompileResult),
    (∀ eval ∈ input.eval, (eval.records.map (·.resultId)).Nodup) →
    compileCandidateWithQuality C input quality = .ok result →
    ∃ as, input.credited C = .ok as ∧ Conforms C quality input result as := by
  intro h
  obtain ⟨result, hresult, hroute, hchanges⟩ := exploring_run
  obtain ⟨as, -, hconforms⟩ := h plainCompiler .qualityFirst (economyInput exploringLock) result
    (economyInput_ids exploringLock) hresult
  have hlisted := hconforms.listed "auto" implementKey
  rw [hroute, hchanges] at hlisted
  exact List.not_mem_nil (hlisted (by decide +kernel))

end BitRouter.Policy
