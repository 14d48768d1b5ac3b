import BitRouter.Policy.Documents
import Mathlib.Tactic.IntervalCases

/-!
# Compiling again

A compilation leaves the evidence as it is, so that one may compile its result
again. For one route this applies two rules over and over: a tier that has
failed goes back to the baseline, and any other gives way to the best tier, which
does not depend on the tier of the route (`TierRules`). If the best tier has not
failed the route is settled after two compilations. If it has, the two rules undo
each other: the route goes to the best tier and back to the baseline forever.

The fixed bound of the negative rule is 90% of passes, so that criteria which ask
at least as much of a promotion never admit a tier that has failed.
-/

namespace BitRouter.Policy

/-! ## The rules of one route -/

/-- **What decides a route.** -/
structure TierRules where
  baseline : Option String
  failed : String → Bool
  best : Option String

namespace TierRules

variable (r : TierRules)

/-- The tier goes back to the baseline. -/
def Demotes (tier : Option String) : Prop :=
  ∃ t b, tier = some t ∧ r.baseline = some b ∧ t ≠ b ∧ r.failed t

open Classical in
/-- The tier after a compilation. -/
noncomputable def next (tier : Option String) : Option String :=
  if r.Demotes tier then r.baseline else r.best.or tier

/-- The rules do not contradict each other. -/
def Steady : Prop := ¬ r.Demotes r.best

variable {r} {tier : Option String}

theorem next_of_demotes (h : r.Demotes tier) : r.next tier = r.baseline := if_pos h

theorem next_of_not_demotes (h : ¬ r.Demotes tier) : r.next tier = r.best.or tier := if_neg h

theorem not_demotes_baseline : ¬ r.Demotes r.baseline := by
  rintro ⟨t, b, ht, hb, hne, -⟩
  exact hne (Option.some.inj (ht.symm.trans hb))

/-- Where nothing is promoted, one compilation settles the route. -/
theorem next_next_of_best_none (h : r.best = none) (tier : Option String) :
    r.next (r.next tier) = r.next tier := by
  by_cases hdemotes : r.Demotes tier
  · rw [next_of_demotes hdemotes, next_of_not_demotes not_demotes_baseline, h, Option.none_or]
  · have hnext : r.next tier = tier := by
      rw [next_of_not_demotes hdemotes, h, Option.none_or]
    rw [hnext, hnext]

theorem next_best (h : r.Steady) : r.next r.best = r.best := by
  rw [next_of_not_demotes h]
  cases r.best <;> rfl

/-- **Two compilations settle a route whose rules are steady.** -/
theorem next_settled (h : r.Steady) (tier : Option String) :
    r.next (r.next (r.next tier)) = r.next (r.next tier) := by
  cases hbest : r.best with
  | none => rw [next_next_of_best_none hbest]
  | some best =>
    have hfixed : r.next (some best) = some best := hbest ▸ next_best h
    have hone : ∀ tier, ¬ r.Demotes tier → r.next tier = some best := by
      intro tier htier
      rw [next_of_not_demotes htier, hbest]
      rfl
    by_cases hdemotes : r.Demotes tier
    · rw [next_of_demotes hdemotes, hone _ not_demotes_baseline, hfixed]
    · rw [hone tier hdemotes, hfixed, hfixed]

/-- **Rules that contradict each other move the route forever.** -/
theorem next_next_ne (h : ¬ r.Steady) (tier : Option String) :
    r.next (r.next tier) ≠ r.next tier := by
  obtain ⟨best, baseline, hbest, hbaseline, hne, hfailed⟩ := not_not.mp h
  have hdown : r.next r.best = r.baseline := next_of_demotes (not_not.mp h)
  have hup : ∀ tier, ¬ r.Demotes tier → r.next tier = r.best := by
    intro tier htier
    rw [next_of_not_demotes htier, hbest]
    rfl
  have hdiffer : r.best ≠ r.baseline := by
    rw [hbest, hbaseline]
    exact fun heq => hne (Option.some.inj heq)
  by_cases hdemotes : r.Demotes tier
  · rw [next_of_demotes hdemotes, hup _ not_demotes_baseline]
    exact hdiffer
  · rw [hup tier hdemotes, hdown]
    exact hdiffer.symm

end TierRules

/-! ## The rules of a key -/

def tierRules (quality : PromotionQualityCriteria) (policy : PolicyDefinition)
    (policyEval : StrMap RouteEvalEvidence) (key : String) : TierRules :=
  match policyEval[key]? with
  | none => { baseline := none, failed := fun _ => false, best := none }
  | some route =>
    if route.comparable then {
      baseline := route.baseline policy
      failed := route.regressed
      best := if positiveRouteIsAllowed policy key then route.best policy key quality else none }
    else { baseline := none, failed := fun _ => false, best := none }

section Rules

variable {quality : PromotionQualityCriteria} {policy : PolicyDefinition}
  {policyEval : StrMap RouteEvalEvidence} {key : String}

theorem TierRules.next_silent (tier : Option String) :
    ({ baseline := none, failed := fun _ => false,
        best := none } : TierRules).next tier = tier := by
  rw [TierRules.next_of_not_demotes, Option.none_or]
  rintro ⟨t, b, -, -, -, hfailed⟩
  cases hfailed

/-- **The recommendation applies the rules.** -/
theorem recommendation_next :
    ((recommendation quality policy policyEval key).map (·.2.1)).or policy.routes[key]? =
      (tierRules quality policy policyEval key).next policy.routes[key]? := by
  unfold recommendation tierRules
  cases hroute : policyEval[key]? with
  | none => exact (TierRules.next_silent _).symm
  | some route =>
    simp only [Option.bind_eq_bind, Option.bind_some]
    by_cases hcomparable : route.comparable = true
    · rw [if_pos hcomparable, evalRecommendation, hcomparable]
      cases hdemotion : route.demotion policy policy.routes[key]? with
      | some b =>
        obtain ⟨hbaseline, t, ht, hne, hregressed⟩ := demotion_eq_some.mp hdemotion
        rw [TierRules.next_of_demotes ⟨t, b, ht, hbaseline, hne, hregressed⟩]
        exact hbaseline.symm
      | none =>
        rw [TierRules.next_of_not_demotes]
        · cases hallowed : positiveRouteIsAllowed policy key with
          | false => rfl
          | true =>
            cases hbest : route.best policy key quality with
            | none => simp
            | some best => simp
        · rintro ⟨t, b, ht, hbaseline, hne, hregressed⟩
          have hsome := demotion_eq_some.mpr ⟨hbaseline, t, ht, hne, hregressed⟩
          rw [hdemotion] at hsome
          cases hsome
    · have hfalse : route.comparable = false := by simpa using hcomparable
      rw [if_neg hcomparable, evalRecommendation, hfalse]
      exact (TierRules.next_silent _).symm

end Rules

/-! ## One compilation -/

def PolicyLock.operatorOwns (lock : PolicyLock) (policy requestKey : String) : Prop :=
  ∃ c, lock.certificate policy requestKey = some c ∧ c.owner = .operator

def PolicyLock.Explicit (lock : PolicyLock) (policy requestKey : String) : Prop :=
  ∀ c, lock.certificate policy requestKey = some c →
    lock.route policy requestKey = some c.selectedTier

section Compilation

variable {C : Compiler} {quality : PromotionQualityCriteria} {input : CompileInput}
  {result : CompileResult} {evidence : RouteEvidence} {artifact : PolicyArtifact}
  {name key : String} {policy : PolicyDefinition}

theorem explicit_of_operatorOwns {B : Binary} {lock : PolicyLock}
    (h : validateDocument B lock = .ok ()) (howns : lock.operatorOwns name key) :
    lock.Explicit name key := by
  intro c hc
  obtain ⟨c', hc', howner⟩ := howns
  obtain rfl := Option.some.inj (hc.symm.trans hc')
  rcases route_or_routeLess h hc with hroute | ⟨-, hcompiler, -⟩
  · exact hroute
  · rw [howner] at hcompiler
    cases hcompiler

theorem explicit_compiled :
    (compiledDocument C quality input evidence artifact).Explicit name key := by
  intro c hc
  rw [route_compiled, hc]
  rfl

theorem certificate_map_of_explicit {B : Binary} {lock : PolicyLock}
    (h : validateDocument B lock = .ok ()) (hexplicit : lock.Explicit name key) :
    (lock.certificate name key).map (·.selectedTier) = lock.route name key := by
  cases hc : lock.certificate name key with
  | some c => exact (hexplicit c hc).symm
  | none =>
    cases hroute : lock.route name key with
    | none => rfl
    | some tier =>
      obtain ⟨c, hc', -⟩ := certificate_of_route h hroute
      rw [hc] at hc'
      cases hc'

theorem not_mem_requestKeys {policyEval : StrMap RouteEvalEvidence}
    (h : key ∉ requestKeys policy policyEval) :
    policy.routes[key]? = none ∧ policyEval[key]? = none := by
  rw [mem_requestKeys, not_or, StrMap.mem_iff, StrMap.mem_iff, Option.not_isSome_iff_eq_none,
    Option.not_isSome_iff_eq_none] at h
  exact h

/-- **A route of the operator stays.** -/
theorem certificate_compiled_operator (hvalid : validateDocument C.toBinary input.current = .ok ())
    {c : PolicyCertificate} (hc : input.current.certificate name key = some c)
    (howner : c.owner = .operator) :
    (compiledDocument C quality input evidence artifact).certificate name key = some c := by
  have hroute := explicit_of_operatorOwns hvalid ⟨c, hc, howner⟩ c hc
  obtain ⟨policy, hpolicy, htier⟩ := Option.bind_eq_some_iff.mp hroute
  have hkey : key ∈ requestKeys policy (policyEvidence evidence name) := by
    refine mem_requestKeys.mpr (.inl ?_)
    rw [StrMap.mem_iff, htier]
    rfl
  rw [certificate_compiled hpolicy hkey, compileRoute_operator hc howner]

theorem route_compiled_free (hpolicy : input.current.policies[name]? = some policy)
    (hkey : key ∈ requestKeys policy (policyEvidence evidence name))
    (howns : ¬ input.current.operatorOwns name key) :
    (compiledDocument C quality input evidence artifact).route name key =
      ((recommendation quality policy (policyEvidence evidence name) key).map (·.2.1)).or
        ((input.current.certificate name key).map (·.selectedTier)) := by
  rw [route_compiled, certificate_compiled hpolicy hkey]
  cases hrec : recommendation quality policy (policyEvidence evidence name) key with
  | none => rw [compileRoute_inherited hrec, Option.map_none, Option.none_or]
  | some recommended =>
    obtain ⟨route, tier, verdict⟩ := recommended
    rw [compileRoute_recommended hrec fun c hc howner => howns ⟨c, hc, howner⟩]
    rfl

section

variable (hvalid : validateDocument C.toBinary input.current = .ok ())

include hvalid

/-- **The route of a key that the operator does not own**, from an explicit
route. -/
theorem route_compiled_next (hpolicy : input.current.policies[name]? = some policy)
    (hexplicit : input.current.Explicit name key) (howns : ¬ input.current.operatorOwns name key) :
    (compiledDocument C quality input evidence artifact).route name key =
      (tierRules quality policy (policyEvidence evidence name) key).next
        (input.current.route name key) := by
  have hroute : input.current.route name key = policy.routes[key]? := by
    rw [PolicyLock.route, hpolicy]
    rfl
  rw [hroute, ← recommendation_next]
  by_cases hkey : key ∈ requestKeys policy (policyEvidence evidence name)
  · rw [route_compiled_free hpolicy hkey howns,
      certificate_map_of_explicit hvalid hexplicit, hroute]
  · obtain ⟨hnoroute, hnoevidence⟩ := not_mem_requestKeys hkey
    have hrec : recommendation quality policy (policyEvidence evidence name) key = none := by
      rw [recommendation, hnoevidence]
      rfl
    rw [route_compiled, certificate_compiled_none hpolicy hkey, hrec, hnoroute]
    rfl

/-- **The first compilation**, from any lock: as from an explicit one, or nothing
is promoted. -/
theorem route_compiled_first (hpolicy : input.current.policies[name]? = some policy)
    (howns : ¬ input.current.operatorOwns name key) :
    (compiledDocument C quality input evidence artifact).route name key =
        (tierRules quality policy (policyEvidence evidence name) key).next
          (input.current.route name key) ∨
      (tierRules quality policy (policyEvidence evidence name) key).best = none := by
  by_cases hexplicit : input.current.Explicit name key
  · exact .inl (route_compiled_next hvalid hpolicy hexplicit howns)
  · -- there is a certificate without a route
    have hnone : input.current.route name key = none := by
      by_contra hsome
      obtain ⟨tier, htier⟩ := Option.ne_none_iff_exists'.mp hsome
      obtain ⟨c, hc, hselected⟩ := certificate_of_route hvalid htier
      refine hexplicit fun c' hc' => ?_
      obtain rfl := Option.some.inj (hc.symm.trans hc')
      rw [htier, hselected]
    have hroute : policy.routes[key]? = none := by
      rw [← hnone, PolicyLock.route, hpolicy]
      rfl
    have hrules : ((recommendation quality policy (policyEvidence evidence name) key).map
        (·.2.1)).or policy.routes[key]? =
        (tierRules quality policy (policyEvidence evidence name) key).next policy.routes[key]? :=
      recommendation_next
    by_cases hkey : key ∈ requestKeys policy (policyEvidence evidence name)
    · cases hrec : recommendation quality policy (policyEvidence evidence name) key with
      | some recommended =>
        refine .inl ?_
        rw [route_compiled_free hpolicy hkey howns, hnone, ← hroute, ← hrules, hrec]
        rfl
      | none =>
        refine .inr ?_
        rw [hrec, hroute, TierRules.next_of_not_demotes] at hrules
        · simpa using hrules.symm
        · rintro ⟨t, b, ht, -⟩
          cases ht
    · refine .inr ?_
      rw [tierRules, (not_mem_requestKeys hkey).2]

/-- **A compilation makes no route the operator's**, and takes none from it. -/
theorem operatorOwns_compiled :
    (compiledDocument C quality input evidence artifact).operatorOwns name key ↔
      input.current.operatorOwns name key := by
  constructor
  · rintro ⟨c, hc, howner⟩
    by_contra howns
    cases hpolicy : input.current.policies[name]? with
    | none =>
      rw [certificate_compiledDocument_none hpolicy] at hc
      cases hc
    | some policy =>
      by_cases hkey : key ∈ requestKeys policy (policyEvidence evidence name)
      · rw [certificate_compiled hpolicy hkey] at hc
        cases hrec : recommendation quality policy (policyEvidence evidence name) key with
        | none =>
          rw [compileRoute_inherited hrec] at hc
          exact howns ⟨c, hc, howner⟩
        | some recommended =>
          obtain ⟨route, tier, verdict⟩ := recommended
          rw [compileRoute_recommended hrec fun c hc howner => howns ⟨c, hc, howner⟩] at hc
          obtain rfl := Option.some.inj hc
          cases howner
      · rw [certificate_compiled_none hpolicy hkey] at hc
        cases hc
  · rintro ⟨c, hc, howner⟩
    exact ⟨c, certificate_compiled_operator hvalid hc howner, howner⟩

end

theorem policy_compiled :
    (compiledDocument C quality input evidence artifact).policies[name]? =
      (input.current.policies[name]?).map (compiledPolicy C quality input evidence artifact name) :=
  Std.ExtTreeMap.getElem?_map

theorem tierRules_compiled {policyEval : StrMap RouteEvalEvidence} :
    tierRules quality (compiledPolicy C quality input evidence artifact name policy) policyEval key
      = tierRules quality policy policyEval key := rfl

end Compilation

/-! ## Compiling again and again -/

/-- **A compilation of a lock** with given criteria and evidence. -/
def Recompiles (C : Compiler) (quality : PromotionQualityCriteria)
    (eval : Option EvalEvidenceSnapshot) (lock lock' : PolicyLock) : Prop :=
  ∃ input result, input.current = lock ∧ input.eval = eval
    ∧ compileCandidateWithQuality C input quality = .ok result ∧ result.document = lock'

/-- All explicit routes are the same. -/
def SameRoutes (lock lock' : PolicyLock) : Prop :=
  ∀ name key, lock.route name key = lock'.route name key

/-- **The rules agree on every route** that the operator does not own: the tier
that the positive rule selects is not one that the negative rule takes back. -/
def RulesAgree (C : Compiler) (quality : PromotionQualityCriteria)
    (eval : Option EvalEvidenceSnapshot) (lock : PolicyLock) : Prop :=
  ∀ evidence name key policy, snapshotEvidence C eval = .ok evidence →
    lock.policies[name]? = some policy → ¬ lock.operatorOwns name key →
    (tierRules quality policy (policyEvidence evidence name) key).Steady

section Runs

variable {C : Compiler} {quality : PromotionQualityCriteria} {eval : Option EvalEvidenceSnapshot}
  {lock lock' : PolicyLock} {name key : String}

theorem Recompiles.spec (h : Recompiles C quality eval lock lock') :
    ∃ input evidence artifact, input.current = lock ∧ snapshotEvidence C eval = .ok evidence
      ∧ validateDocument C.toBinary lock = .ok ()
      ∧ lock' = compiledDocument C quality input evidence artifact := by
  obtain ⟨input, result, rfl, rfl, hcompile, rfl⟩ := h
  obtain ⟨hvalid, evidence, artifact, hevidence, -, hresult, -⟩ := of_compile_eq_ok hcompile
  exact ⟨input, evidence, artifact, rfl, hevidence, hvalid, by rw [hresult]; rfl⟩

/-- **What one compilation does to a key** whose rules are `r`. -/
structure FollowsRules (r : TierRules) (name key : String) (lock lock' : PolicyLock) : Prop where
  first : lock'.route name key = r.next (lock.route name key) ∨ r.best = none
  next : lock.Explicit name key → lock'.route name key = r.next (lock.route name key)
  explicit : lock'.Explicit name key

def Ruled (quality : PromotionQualityCriteria) (evidence : RouteEvidence) (r : TierRules)
    (name key : String) (lock : PolicyLock) : Prop :=
  ¬ lock.operatorOwns name key ∧ ∃ policy, lock.policies[name]? = some policy
    ∧ tierRules quality policy (policyEvidence evidence name) key = r

variable {evidence : RouteEvidence} {r : TierRules}

/-- **One compilation applies the rules once**, and leaves them as they are. -/
theorem Recompiles.ruled (h : Recompiles C quality eval lock lock')
    (hevidence : snapshotEvidence C eval = .ok evidence)
    (hruled : Ruled quality evidence r name key lock) :
    FollowsRules r name key lock lock' ∧ Ruled quality evidence r name key lock' := by
  obtain ⟨input, evidence', artifact, rfl, hevidence', hvalid, rfl⟩ := h.spec
  obtain rfl := Except.ok.inj (hevidence.symm.trans hevidence')
  obtain ⟨howns, policy, hpolicy, rfl⟩ := hruled
  refine ⟨⟨route_compiled_first hvalid hpolicy howns, fun hexplicit =>
    route_compiled_next hvalid hpolicy hexplicit howns, explicit_compiled⟩, ?_, ?_⟩
  · rwa [operatorOwns_compiled hvalid]
  · refine ⟨_, by rw [policy_compiled, hpolicy]; rfl, tierRules_compiled⟩

/-- A route that no rule decides stays. -/
theorem Recompiles.unruled (h : Recompiles C quality eval lock lock')
    (hunruled : lock.operatorOwns name key ∨ lock.policies[name]? = none) :
    lock'.route name key = lock.route name key
      ∧ (lock'.operatorOwns name key ∨ lock'.policies[name]? = none) := by
  obtain ⟨input, evidence, artifact, rfl, -, hvalid, rfl⟩ := h.spec
  rcases hunruled with howns | hpolicy
  · refine ⟨?_, .inl ((operatorOwns_compiled hvalid).mpr howns)⟩
    obtain ⟨c, hc, howner⟩ := id howns
    rw [route_compiled, certificate_compiled_operator hvalid hc howner]
    exact (explicit_of_operatorOwns hvalid howns c hc).symm
  · have hnone : (compiledDocument C quality input evidence artifact).policies[name]? = none := by
      rw [policy_compiled, hpolicy]
      rfl
    refine ⟨?_, .inr hnone⟩
    rw [PolicyLock.route, PolicyLock.route, hnone, hpolicy]

variable {docs : ℕ → PolicyLock} {N : ℕ}

section

variable (hdocs : ∀ n < N, Recompiles C quality eval (docs n) (docs (n + 1)))

include hdocs

section

variable (hevidence : snapshotEvidence C eval = .ok evidence)

include hevidence

section

variable (hruled : Ruled quality evidence r name key (docs 0))

include hruled

theorem ruled_of_run :
    ∀ n ≤ N, Ruled quality evidence r name key (docs n) := by
  intro n
  induction n with
  | zero => exact fun _ => hruled
  | succ n ih => exact fun hn => ((hdocs n hn).ruled hevidence (ih (Nat.le_of_lt hn))).2

theorem next_of_run {n : ℕ} (hpos : 1 ≤ n) (hn : n < N) :
    (docs (n + 1)).route name key = r.next ((docs n).route name key) := by
  obtain ⟨m, rfl⟩ := Nat.exists_eq_add_of_le' hpos
  have hprevious := (hdocs m (by omega)).ruled hevidence
    (ruled_of_run hdocs hevidence hruled m (by omega))
  exact ((hdocs (m + 1) hn).ruled hevidence hprevious.2).1.next hprevious.1.explicit

/-- **A key of steady rules is settled by two compilations.** -/
theorem settled_of_steady (hsteady : r.Steady) :
    ∀ n, 2 ≤ n → n < N → (docs n).route name key = (docs (n + 1)).route name key := by
  intro n h2
  have hnext : ∀ n, 1 ≤ n → n < N →
      (docs (n + 1)).route name key = r.next ((docs n).route name key) := fun n =>
    next_of_run hdocs hevidence hruled
  induction n, h2 using Nat.le_induction with
  | base =>
    intro hN
    have hfirst := ((hdocs 0 (by omega)).ruled hevidence hruled).1.first
    rw [hnext 2 (by omega) hN, hnext 1 (by omega) (by omega)]
    rcases hfirst with hfirst | hbest
    · rw [hfirst, TierRules.next_settled hsteady]
    · rw [TierRules.next_next_of_best_none hbest]
  | succ n h2 ih =>
    intro hn
    rw [hnext (n + 1) (by omega) hn, ← ih (by omega)]
    exact (ih (by omega)).trans (hnext n (by omega) (by omega))

/-- **A key whose rules contradict each other moves with every compilation.** -/
theorem moves_of_not_steady (hsteady : ¬ r.Steady) {n : ℕ} (hpos : 1 ≤ n) (hn : n < N) :
    (docs n).route name key ≠ (docs (n + 1)).route name key := by
  have hbest : r.best ≠ none := by
    obtain ⟨t, b, ht, -⟩ := not_not.mp hsteady
    rw [ht]
    simp
  obtain ⟨m, rfl⟩ := Nat.exists_eq_add_of_le' hpos
  have hm := (hdocs m (by omega)).ruled hevidence
    (ruled_of_run hdocs hevidence hruled m (by omega))
  rw [next_of_run hdocs hevidence hruled hpos hn, hm.1.first.resolve_right hbest]
  exact (TierRules.next_next_ne hsteady _).symm

end

end

end

/-- **Criteria as strict as the negative rule** admit no tier that it takes back. -/
theorem rulesAgree_of_minimum
    (h : activeRouteMinimumQualityPpm ≤ quality.minimumCandidatePassRatePpm) :
    RulesAgree C quality eval lock := by
  rintro evidence name key policy - - - ⟨t, b, ht, -, -, hfailed⟩
  unfold tierRules at ht hfailed
  split at ht
  · cases ht
  · next route hroute =>
    rw [hroute] at hfailed
    split at ht
    · next hcomparable =>
      simp only [hcomparable, if_true] at hfailed
      have hbest : route.best policy key quality = some t := by
        split at ht
        · exact ht
        · cases ht
      obtain ⟨e, he, hadmissible⟩ := admissible_of_best hbest
      simp only [RouteEvalEvidence.admissible, PromotionQualityCriteria.admits, Bool.and_eq_true,
        decide_eq_true_eq] at hadmissible
      simp only [RouteEvalEvidence.regressed, he, Option.any_some, Bool.or_eq_true,
        Bool.and_eq_true, decide_eq_true_eq] at hfailed
      omega
    · cases ht

/-- **Compiling again with the same evidence and criteria.** The routes no longer
change after two compilations exactly when the two rules agree on each of them,
as they do under criteria that are as strict as the negative rule. Where they do
not agree, every further compilation changes the routes. -/
theorem recompilation_settles_iff (C : Compiler) (quality : PromotionQualityCriteria)
    (eval : Option EvalEvidenceSnapshot) (docs : ℕ → PolicyLock) (N : ℕ) (hN : 3 ≤ N)
    (hdocs : ∀ n < N, Recompiles C quality eval (docs n) (docs (n + 1))) :
    ((∀ n, 2 ≤ n → n < N → SameRoutes (docs n) (docs (n + 1))) ↔
        RulesAgree C quality eval (docs 0)) ∧
      (¬ RulesAgree C quality eval (docs 0) →
        ∀ n, 1 ≤ n → n < N → ¬ SameRoutes (docs n) (docs (n + 1))) ∧
      (activeRouteMinimumQualityPpm ≤ quality.minimumCandidatePassRatePpm →
        RulesAgree C quality eval (docs 0)) := by
  have hmoves : ¬ RulesAgree C quality eval (docs 0) →
      ∀ n, 1 ≤ n → n < N → ¬ SameRoutes (docs n) (docs (n + 1)) := by
    intro hdisagree n hpos hn hsame
    unfold RulesAgree at hdisagree
    push Not at hdisagree
    obtain ⟨evidence, name, key, policy, hevidence, hpolicy, howns, hsteady⟩ := hdisagree
    exact moves_of_not_steady hdocs hevidence ⟨howns, policy, hpolicy, rfl⟩ hsteady hpos hn
      (hsame name key)
  refine ⟨⟨fun hsettled => ?_, fun hagree => ?_⟩, hmoves, rulesAgree_of_minimum⟩
  · by_contra hdisagree
    exact hmoves hdisagree 2 (by omega) hN (hsettled 2 (by omega) hN)
  · intro n h2 hn name key
    obtain ⟨-, evidence, -, -, hevidence, -, -⟩ := (hdocs 0 (by omega)).spec
    by_cases hunruled : (docs 0).operatorOwns name key ∨ (docs 0).policies[name]? = none
    · have hstays : ∀ k ≤ N, (docs k).operatorOwns name key ∨ (docs k).policies[name]? = none := by
        intro k
        induction k with
        | zero => exact fun _ => hunruled
        | succ k ih => exact fun hk => ((hdocs k hk).unruled (ih (Nat.le_of_lt hk))).2
      exact ((hdocs n hn).unruled (hstays n (Nat.le_of_lt hn))).1.symm
    · obtain ⟨howns, hpolicy⟩ := not_or.mp hunruled
      obtain ⟨policy, hpolicy⟩ := Option.ne_none_iff_exists'.mp hpolicy
      exact settled_of_steady hdocs hevidence ⟨howns, policy, hpolicy, rfl⟩
        (hagree evidence name key policy hevidence hpolicy howns) n h2 hn

end Runs

/-! A route that goes back and forth. -/

/-- A digest of the right form. -/
def plainDigest : String :=
  "sha256:0000000000000000000000000000000000000000000000000000000000000000"

/-- Whether a text is this digest, or another one. -/
def isPlainOrDigest (value : String) : Bool := value = plainDigest || isSha256Digest value

theorem isSha256Digest_eq (value : String) : isSha256Digest value = isPlainOrDigest value := by
  unfold isPlainOrDigest
  by_cases h : value = plainDigest
  · rw [h]
    decide +kernel
  · simp [h]

def plainCompiler : Compiler where
  treatmentContextDigest _ _ _ _ _ _ := plainDigest
  experimentId _ _ := plainDigest
  exploreCompilerConfigDigest _ _ _ _ := plainDigest
  retreatCompilerConfigDigest _ := plainDigest
  compiledPredictorContract := ⟨"deterministic_scorecard", 1, plainDigest, "heuristic_margin", none⟩
  validateTable _ _ := .ok ()
  parseTime _ := .ok 0
  validateRouteMeasurement _ := .ok ()
  semanticDigest _ := plainDigest
  emptyEvidenceRoot := plainDigest
  compilerConfigDigest _ _ := plainDigest
  evaluatorsDigest _ := plainDigest
  routeEvidenceDigest _ _ _ _ := plainDigest

def implementKey : String := "semantic_route/v1|unknown|implement|normal"

/-- A strong default and a cheaper tier. -/
def twoTierPolicy : PolicyDefinition where
  tiers := StrMap.ofPairs
    [("economy", ⟨"vendor:economy", none, none⟩), ("strong", ⟨"vendor:strong", none, none⟩)]
  routes := ∅
  defaultTier := some "strong"
  toolUseTier := some "strong"
  progressGuard := none
  predictor := none
  optimization := none
  adequacy := ⟨1, 1, false⟩

def twoTierLock : PolicyLock where
  lockfileVersion := 4
  artifact := some ⟨none, plainDigest, none, 0, ⟨policyCompilerId, 2, plainDigest⟩⟩
  policies := StrMap.ofPairs [("auto", twoTierPolicy)]
  certificates := ∅

def economyRecord (id : String) (verdict : EvalVerdict) (weightPpm : ℤ) : EvalEvidenceRecord where
  resultId := id
  contentDigest := plainDigest
  subject := {
    evalId := id, scope := .task, subjectId := id, policyDigest := plainDigest
    decisions := [{
      decisionId := id, policy := "auto", routeProjection := implementKey
      requestKey := implementKey, selectedTier := "economy", selectedEffort := none
      baselineTier := some "strong", baselineEffort := none, policyDigest := plainDigest
      experiment := none, routeMeasurement := none }]
    evidence := [], evidenceDigest := plainDigest }
  result := {
    evaluatorKind := .taskNative, evaluatorConfigDigest := plainDigest, verdict
    metrics := ∅, hardViolations := []
    decisionCredit := StrMap.ofPairs [(id, ⟨weightPpm, ∅⟩)], submittedAt := "" }

/-- Four tasks of five pass. -/
def economyEvidence : EvalEvidenceSnapshot where
  evidenceRoot := plainDigest
  frozenAt := ""
  records := [economyRecord "a" .pass 800000, economyRecord "b" .fail 200000]

def economyInput (current : PolicyLock) : CompileInput where
  current := current
  parentDigest := none
  snapshotTimeUnixMs := 0
  eval := some economyEvidence
  proposedProgressGuards := none

/-- The route goes to the cheaper tier, back, and to it again. -/
theorem economy_run : ∃ docs : ℕ → PolicyLock,
    (∀ n < 3, Recompiles plainCompiler .manualReview (some economyEvidence) (docs n) (docs (n + 1)))
      ∧ (docs 2).route "auto" implementKey = some "strong"
      ∧ (docs 3).route "auto" implementKey = some "economy" := by
  have hrun : (do
      let first ← compileCandidateWithQuality plainCompiler (economyInput twoTierLock) .manualReview
      let second ← compileCandidateWithQuality plainCompiler (economyInput first.document)
        .manualReview
      let third ← compileCandidateWithQuality plainCompiler (economyInput second.document)
        .manualReview
      return (second.document.route "auto" implementKey, third.document.route "auto" implementKey)
        : Except String _) = .ok (some "strong", some "economy") := by
    simp only [compileCandidateWithQuality, validateDocument, validateCompiledMetadata,
      validatePolicy, validateOptimizationState, validateRouteExploration,
      validateRouteExplorationIntrinsic, validateOptimizationGate, validateCertificates,
      validatePolicyCertificates, validateCertificate, validateOptionalDigest,
      validateSha256Digest, isSha256Digest_eq]
    decide +kernel
  simp only [bind_eq_ok, pure_eq_ok, Prod.mk.injEq] at hrun
  obtain ⟨first, hfirst, second, hsecond, third, hthird, h2, h3⟩ := hrun
  have hdocs : ∀ n < 3, Recompiles plainCompiler .manualReview (some economyEvidence)
      ([twoTierLock, first.document, second.document].getD n third.document)
      ([twoTierLock, first.document, second.document].getD (n + 1) third.document) := by
    intro n hn
    interval_cases n
    · exact ⟨economyInput twoTierLock, first, rfl, rfl, hfirst, rfl⟩
    · exact ⟨economyInput first.document, second, rfl, rfl, hsecond, rfl⟩
    · exact ⟨economyInput second.document, third, rfl, rfl, hthird, rfl⟩
  exact ⟨fun n => [twoTierLock, first.document, second.document].getD n
    third.document, hdocs, h2, h3⟩

theorem recompilation_settles_iff_economy : ∃ docs : ℕ → PolicyLock,
    ((∀ n, 2 ≤ n → n < 3 → SameRoutes (docs n) (docs (n + 1))) ↔
        RulesAgree plainCompiler .manualReview (some economyEvidence) (docs 0)) ∧
      (¬ RulesAgree plainCompiler .manualReview (some economyEvidence) (docs 0) →
        ∀ n, 1 ≤ n → n < 3 → ¬ SameRoutes (docs n) (docs (n + 1))) ∧
      (activeRouteMinimumQualityPpm
        ≤ PromotionQualityCriteria.manualReview.minimumCandidatePassRatePpm →
        RulesAgree plainCompiler .manualReview (some economyEvidence) (docs 0)) := by
  obtain ⟨docs, hdocs, -⟩ := economy_run
  exact ⟨docs, recompilation_settles_iff plainCompiler .manualReview (some economyEvidence) docs 3
    (by decide) hdocs⟩

/-- **Two compilations do not settle every route.** -/
theorem recompilation_oscillates : ¬ ∀ (C : Compiler) (quality : PromotionQualityCriteria)
    (eval : Option EvalEvidenceSnapshot) (docs : ℕ → PolicyLock) (N : ℕ),
    quality.validate = .ok () →
    (∀ n < N, Recompiles C quality eval (docs n) (docs (n + 1))) →
    ∀ n, 2 ≤ n → n < N → SameRoutes (docs n) (docs (n + 1)) := by
  intro h
  obtain ⟨docs, hdocs, h2, h3⟩ := economy_run
  have hsame := h plainCompiler .manualReview (some economyEvidence) docs 3 (by decide) hdocs 2
    (by decide) (by decide) "auto" implementKey
  rw [h2, h3] at hsame
  exact absurd hsame (by decide)

end BitRouter.Policy
