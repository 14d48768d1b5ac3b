import BitRouter.Policy.Compiler

/-!
# Documents and their routes

What validation says of the routes of a lock, and what a compilation makes of
each. In a validated lock a route has a certificate of its tier, and only the
history optimizer signs a certificate that has no route. A compiled lock is not
of the optimizer, so that its routes and its certificates are the same keys,
and a key becomes what `compileRoute` says of it
(`certificate_compiled`).
-/

namespace BitRouter.Policy

/-- The explicit route of a key. -/
def PolicyLock.route (lock : PolicyLock) (policy requestKey : String) : Option String :=
  lock.policies[policy]?.bind (·.routes[requestKey]?)

/-! ## Recommendations -/

variable {tier : String}

section Recommendations

variable {quality : PromotionQualityCriteria} {policy : PolicyDefinition}
  {route : RouteEvalEvidence} {key : String} {prior : Option String}

/-- What `maxBy` finds is in the list. -/
theorem mem_of_maxBy {α : Type} {cmp : α → α → Ordering} {xs : List α} {x : α}
    (h : maxBy cmp xs = some x) : x ∈ xs := by
  have hfold : ∀ (ys : List α) (best : α),
      ys.foldl (fun best y => if cmp best y = .gt then best else y) best ∈ best :: ys := by
    intro ys
    induction ys with
    | nil => simp
    | cons y ys ih =>
      intro best
      rw [List.foldl_cons]
      by_cases hgt : cmp best y = .gt
      · rw [if_pos hgt]
        exact List.mem_cons.mpr ((List.mem_cons.mp (ih best)).imp_right (List.mem_cons_of_mem y))
      · rw [if_neg hgt]
        exact List.mem_cons_of_mem best (ih y)
  cases xs with
  | nil => cases h
  | cons y ys =>
    obtain rfl := Option.some.inj h
    exact hfold ys y

/-- **The best tier is admissible.** -/
theorem admissible_of_best (h : route.best policy key quality = some tier) :
    ∃ e, route.tiers[tier]? = some e ∧ route.admissible policy key quality (tier, e) = true := by
  obtain ⟨⟨tier, e⟩, hmax, rfl⟩ := Option.map_eq_some_iff.mp h
  obtain ⟨hmem, hadmissible⟩ := List.mem_filter.mp (mem_of_maxBy hmax)
  exact ⟨e, StrMap.mem_toList.mp hmem, hadmissible⟩

/-- The negative rule, written out. -/
theorem demotion_eq_some {b : String} : route.demotion policy prior = some b ↔
    route.baseline policy = some b ∧ ∃ t, prior = some t ∧ t ≠ b ∧ route.regressed t := by
  unfold RouteEvalEvidence.demotion
  cases hprior : prior with
  | none => simp
  | some t =>
    cases hbaseline : route.baseline policy with
    | none => simp
    | some b' =>
      simp only [Option.ite_none_right_eq_some, Option.some.injEq]
      constructor
      · rintro ⟨⟨hne, hregressed⟩, rfl⟩
        exact ⟨rfl, t, rfl, hne, hregressed⟩
      · rintro ⟨rfl, _, rfl, hne, hregressed⟩
        exact ⟨⟨hne, hregressed⟩, rfl⟩

end Recommendations

/-! ## Validated locks -/

section Validated

variable {B : Binary} {document : PolicyLock} {name key : String} {c : PolicyCertificate}

section

variable (h : validateDocument B document = .ok ())

include h

theorem of_validateDocument :
    validateCertificates B document = .ok () := by
  simp only [validateDocument, bind_eq_ok, ensure_eq_ok] at h
  obtain ⟨-, -, -, -, -, -, h⟩ := h
  exact h

theorem validatePolicyCertificates_of_valid
    {policy : PolicyDefinition} (hpolicy : document.policies[name]? = some policy) :
    validatePolicyCertificates B document name policy = .ok () := by
  obtain ⟨_, -, h⟩ := bind_eq_ok.mp (of_validateDocument h)
  exact forM_eq_ok.mp h (name, policy) (StrMap.mem_toList.mpr hpolicy)

/-- **A route has a certificate of its tier.** -/
theorem certificate_of_route (hroute : document.route name key = some tier) :
    ∃ c, document.certificate name key = some c ∧ c.selectedTier = tier := by
  obtain ⟨policy, hpolicy, htier⟩ := Option.bind_eq_some_iff.mp hroute
  obtain ⟨_, hroutes, -⟩ := bind_eq_ok.mp (validatePolicyCertificates_of_valid h hpolicy)
  have hcertificate := forM_eq_ok.mp hroutes (key, tier) (StrMap.mem_toList.mpr htier)
  simp only [validateRouteCertificate, bind_eq_ok, orFail_eq_ok, ensure_eq_ok] at hcertificate
  exact hcertificate

theorem validateCertificate_of_valid (hc : document.certificate name key = some c) :
    ∃ policy, document.policies[name]? = some policy
      ∧ validateCertificate B document name policy key c = .ok () := by
  obtain ⟨certificates, hcertificates, hkey⟩ := Option.bind_eq_some_iff.mp hc
  obtain ⟨_, hnames, -⟩ := bind_eq_ok.mp (of_validateDocument h)
  have hname : name ∈ document.policies := by
    refine ensure_eq_ok.mp (forM_eq_ok.mp hnames name ?_)
    rw [Std.ExtTreeMap.mem_keys, StrMap.mem_iff, hcertificates]
    rfl
  obtain ⟨policy, hpolicy⟩ := Option.isSome_iff_exists.mp (StrMap.mem_iff.mp hname)
  refine ⟨policy, hpolicy, ?_⟩
  obtain ⟨_, -, hall⟩ := bind_eq_ok.mp (validatePolicyCertificates_of_valid h hpolicy)
  rw [hcertificates] at hall
  exact forM_eq_ok.mp hall (key, c) (StrMap.mem_toList.mpr hkey)

/-- **A certificate has a route, or is the optimizer's.** -/
theorem route_or_routeLess (hc : document.certificate name key = some c) :
    document.route name key = some c.selectedTier ∨
      document.route name key = none ∧ c.owner = .compiler
        ∧ ∃ artifact, document.artifact = some artifact
          ∧ artifact.compiler.id = historyOptimizerId := by
  obtain ⟨policy, hpolicy, hvalid⟩ := validateCertificate_of_valid h hc
  obtain ⟨_, hroute, -⟩ := bind_eq_ok.mp hvalid
  have hlookup : document.route name key = policy.routes[key]? := by
    rw [PolicyLock.route, hpolicy]
    rfl
  cases htier : policy.routes[key]? with
  | some tier =>
    rw [htier] at hlookup
    obtain ⟨c', hc', rfl⟩ := certificate_of_route h hlookup
    obtain rfl := Option.some.inj (hc.symm.trans hc')
    exact .inl hlookup
  | none =>
    refine .inr ⟨hlookup.trans htier, ?_⟩
    have hmem : key ∉ policy.routes := by
      rw [StrMap.mem_iff, htier]
      simp
    have hless := (ensure_eq_ok.mp hroute).resolve_left hmem
    unfold isRouteLessOptimizerCertificate at hless
    split at hless
    · cases hless
    · rename_i artifact hartifact
      split at hless
      · simp only [Bool.and_eq_true, decide_eq_true_eq] at hless
        exact ⟨by tauto, artifact, hartifact, by tauto⟩
      · cases hless

end

end Validated

/-! ## Compiled locks -/

section Compiled

variable {C : Compiler} {quality : PromotionQualityCriteria} {input : CompileInput}
  {result : CompileResult} {evidence : RouteEvidence} {artifact : PolicyArtifact}
  {name key : String} {policy : PolicyDefinition}

/-- **What a compilation is made of.** -/
theorem of_compile_eq_ok (h : compileCandidateWithQuality C input quality = .ok result) :
    validateDocument C.toBinary input.current = .ok () ∧ ∃ evidence artifact,
      snapshotEvidence C input.eval = .ok evidence ∧ artifact.compiler.id = policyCompilerId
        ∧ result = compiled C quality input evidence artifact
        ∧ validateDocument C.toBinary result.document = .ok () := by
  simp only [compileCandidateWithQuality, bind_eq_ok, pure_eq_ok] at h
  obtain ⟨_, hcurrent, _, -, _, -, _, -, evidence, hevidence, _, -, _, -, _, hresult, rfl⟩ := h
  exact ⟨hcurrent, evidence, _, hevidence, rfl, rfl, hresult⟩

theorem mem_requestKeys {policyEval : StrMap RouteEvalEvidence} :
    key ∈ requestKeys policy policyEval ↔ key ∈ policy.routes ∨ key ∈ policyEval := by
  have hfold : ∀ (keys : List String) (m : StrMap Unit),
      key ∈ keys.foldl (fun m k => m.insert k ()) m ↔ key ∈ m ∨ key ∈ keys := by
    intro keys
    induction keys with
    | nil => simp
    | cons k keys ih =>
      intro m
      rw [List.foldl_cons, ih, StrMap.mem_insert, List.mem_cons, eq_comm]
      tauto
  rw [requestKeys, hfold, Std.ExtTreeMap.mem_map, Std.ExtTreeMap.mem_keys]

theorem certificate_compiledDocument (hpolicy : input.current.policies[name]? = some policy) :
    (compiledDocument C quality input evidence artifact).certificate name key =
      (compiledCertificates C input.current quality artifact.compiler.configDigest name policy
        (policyEvidence evidence name))[key]? := by
  unfold PolicyLock.certificate compiledDocument
  rw [Std.ExtTreeMap.getElem?_filterMap', hpolicy]
  simp only [Option.bind_some]
  split
  · next hempty =>
    rw [Std.ExtTreeMap.isEmpty_iff.mp hempty, StrMap.getElem?_empty]
    rfl
  · rfl

theorem certificate_compiledDocument_none (hpolicy : input.current.policies[name]? = none) :
    (compiledDocument C quality input evidence artifact).certificate name key = none := by
  unfold PolicyLock.certificate compiledDocument
  rw [Std.ExtTreeMap.getElem?_filterMap', hpolicy]
  rfl

/-- **What a key becomes.** -/
theorem certificate_compiled (hpolicy : input.current.policies[name]? = some policy)
    (hkey : key ∈ requestKeys policy (policyEvidence evidence name)) :
    (compiledDocument C quality input evidence artifact).certificate name key =
      (compileRoute C input.current quality artifact.compiler.configDigest name policy
        (policyEvidence evidence name) key).route := by
  obtain ⟨u, hu⟩ := Option.isSome_iff_exists.mp (StrMap.mem_iff.mp hkey)
  rw [certificate_compiledDocument hpolicy, compiledCertificates,
    Std.ExtTreeMap.getElem?_filterMap', hu]
  rfl

/-- A key of neither a route nor evidence is left out. -/
theorem certificate_compiled_none (hpolicy : input.current.policies[name]? = some policy)
    (hkey : key ∉ requestKeys policy (policyEvidence evidence name)) :
    (compiledDocument C quality input evidence artifact).certificate name key = none := by
  have hnone : (requestKeys policy (policyEvidence evidence name))[key]? = none := by
    rwa [StrMap.mem_iff, Option.not_isSome_iff_eq_none] at hkey
  rw [certificate_compiledDocument hpolicy, compiledCertificates,
    Std.ExtTreeMap.getElem?_filterMap', hnone]
  rfl

section Key

variable {current : PolicyLock} {digest : String} {policyEval : StrMap RouteEvalEvidence}
  {c : PolicyCertificate}

/-- A route of the operator stays. -/
theorem compileRoute_operator (hc : current.certificate name key = some c)
    (howner : c.owner = .operator) :
    (compileRoute C current quality digest name policy policyEval key).route = some c := by
  unfold compileRoute
  rw [hc]
  cases recommendation quality policy policyEval key with
  | none => rfl
  | some recommended =>
    show (if c.owner = .operator then _ else _ : CompiledRoute).route = some c
    rw [if_pos howner]

theorem compileRoute_inherited (hnone : recommendation quality policy policyEval key = none) :
    compileRoute C current quality digest name policy policyEval key =
      { route := current.certificate name key } := by
  unfold compileRoute
  rw [hnone]
  cases current.certificate name key <;> rfl

theorem compileRoute_recommended {route : RouteEvalEvidence} {verdict : PromotionVerdict}
    (hrecommended : recommendation quality policy policyEval key = some (route, tier, verdict))
    (howner : ∀ c, current.certificate name key = some c → c.owner ≠ .operator) :
    compileRoute C current quality digest name policy policyEval key =
      recommendedRoute C digest name policy key route tier verdict := by
  unfold compileRoute
  rw [hrecommended]
  cases hc : current.certificate name key with
  | none => rfl
  | some c => exact if_neg (howner c hc)

end Key

/-- **In a compiled document each certificate has a route.** -/
theorem route_compiled :
    (compiledDocument C quality input evidence artifact).route name key =
      ((compiledDocument C quality input evidence artifact).certificate name key).map
        (·.selectedTier) := by
  have hpolicies : (compiledDocument C quality input evidence artifact).policies[name]? =
      (input.current.policies[name]?).map (compiledPolicy C quality input evidence artifact name) :=
    Std.ExtTreeMap.getElem?_map
  cases hpolicy : input.current.policies[name]? with
  | none =>
    rw [PolicyLock.route, hpolicies, hpolicy, certificate_compiledDocument_none hpolicy]
    rfl
  | some policy =>
    rw [PolicyLock.route, hpolicies, hpolicy, certificate_compiledDocument hpolicy]
    exact Std.ExtTreeMap.getElem?_map

end Compiled

end BitRouter.Policy
