import BitRouter.Optimization.Controller
import BitRouter.Policy.Documents

/-!
# What a step of the optimizer does

A step leaves the lock, or it does one of three things to its policy: it starts an
exploration where none is active, it gives the target of the active one to the
challenger, or it remembers the active one as rejected (`policyStep`). What a
projection resolves to, the active exploration and the rejections can be read off
the policy afterwards.
-/

namespace BitRouter.Optimization

open Policy

variable {O : Optimizer} {input : OptimizationStepInput} {lock lock' : PolicyLock}
  {name key : String} {options : OptimizationOptions}

/-! ## Reading a policy -/

def ledger (lock : PolicyLock) (policyName : String) : List RouteRejection :=
  (lock.policies[policyName]?.map rejectionsOf).getD []

def resolvedTier (lock : PolicyLock) (policyName routeProjection : String) : Option String :=
  lock.policies[policyName]?.bind fun policy =>
    (policy.resolvePredictiveRoute routeProjection).map Prod.fst

variable {policy : PolicyDefinition}

section

variable (h : lock.policies[name]? = some policy)

include h

theorem ledger_of_policy :
    ledger lock name = rejectionsOf policy := by
  rw [ledger, h]
  rfl

theorem active_of_policy :
    activeExploration lock name = policy.optimization.bind (·.active) := by
  rw [activeExploration, h]
  rfl

theorem route_of_policy :
    lock.route name key = policy.routes[key]? := by
  rw [PolicyLock.route, h]
  rfl

theorem resolvedTier_of_policy :
    resolvedTier lock name key = (policy.resolvePredictiveRoute key).map Prod.fst := by
  rw [resolvedTier, h]
  rfl

end

theorem rejectionsOf_state {state : PolicyOptimizationState}
    (h : policy.optimization = some state) : rejectionsOf policy = state.rejections := by
  rw [rejectionsOf, h]
  rfl

/-! ## The parts of a step -/

theorem prune_policies : (pruneSupersededRouteLessOptimizerCertificates lock).policies =
    lock.policies := by
  unfold pruneSupersededRouteLessOptimizerCertificates
  split
  · rfl
  · split <;> rfl

theorem succeed_policy {artifact : PolicyArtifact} {certificate : PolicyCertificate} :
    (succeed lock artifact name policy key certificate).policies[name]? = some policy := by
  show (lock.policies.insert name policy)[name]? = _
  rw [StrMap.getElem?_insert, if_pos rfl]

/-- **An opportunity that is selected.** -/
structure Selected (O : Optimizer) (policyName : String) (options : OptimizationOptions)
    (lock : PolicyLock) (policy : PolicyDefinition) (target : HistoricalOpportunity)
    (candidate matchedRequestKey : String) : Prop where
  resolves : policy.resolvePredictiveRoute target.requestKey =
    some (target.championTier, matchedRequestKey)
  differs : target.championTier ≠ candidate
  free : ownedByOperator lock policyName matchedRequestKey = false
  fresh : rejectedBefore policy (O.treatmentContextDigest policyName target.requestKey
    target.championTier candidate options.challengerExposurePpm options.gate) = false

variable {target : HistoricalOpportunity}

/-- What makes a projection an opportunity. -/
theorem of_opportunityOf {route : OpportunityAggregate}
    (h : opportunityOf O input policy key route = .ok (some target)) :
    ∃ candidate matchedRequestKey, input.options.candidateTier = some candidate ∧
      Selected O input.policyName input.options input.activePolicy policy target candidate
        matchedRequestKey := by
  unfold opportunityOf at h
  split at h
  · cases Except.ok.inj h
  · next champion matchedRequestKey hresolve =>
    split at h
    · cases Except.ok.inj h
    · simp only [bind_eq_ok] at h
      obtain ⟨candidate, hcandidate, h⟩ := h
      split at h
      · cases Except.ok.inj h
      · next hopen =>
        split at h
        · cases Except.ok.inj h
        · next hfresh =>
          obtain rfl := Option.some.inj (Except.ok.inj h)
          simp only [not_or] at hopen
          exact ⟨candidate, matchedRequestKey, orFail_eq_ok.mp hcandidate, {
            resolves := hresolve
            differs := hopen.1
            free := by simpa using hopen.2.2.2
            fresh := by simpa using hfresh }⟩

/-- **What is selected is an opportunity.** -/
theorem of_selectOpportunity (h : selectOpportunity O input = .ok (some target)) :
    ∃ policy candidate matchedRequestKey,
      input.activePolicy.policies[input.policyName]? = some policy ∧
      input.options.candidateTier = some candidate ∧
      Selected O input.policyName input.options input.activePolicy policy target candidate
        matchedRequestKey := by
  simp only [selectOpportunity, bind_eq_ok, orFail_eq_ok] at h
  obtain ⟨policy, hpolicy, h⟩ := h
  split at h
  · cases Except.ok.inj h
  · simp only [bind_eq_ok, pure_eq_ok] at h
    obtain ⟨routes, -, candidates, hcandidates, h⟩ := h
    have hmem := (List.mem_insertionSort _).mp (List.mem_of_mem_head? h)
    obtain ⟨found, hfound, rfl⟩ := List.mem_filterMap.mp hmem
    obtain ⟨entry, -, hentry⟩ := exists_of_mem_mapM hcandidates hfound
    obtain ⟨candidate, matchedRequestKey, hcandidate, hselected⟩ := of_opportunityOf hentry
    exact ⟨policy, candidate, matchedRequestKey, hpolicy, hcandidate, hselected⟩

/-- The start of an exploration. -/
theorem of_exploreSuccessor (h : exploreSuccessor O input target = .ok lock') :
    ∃ candidate policy, input.options.candidateTier = some candidate ∧
      input.activePolicy.policies[input.policyName]? = some policy ∧
      lock'.policies[input.policyName]? =
        some (exploringPolicy policy (explorationFor O input target candidate)) := by
  simp only [exploreSuccessor, bind_eq_ok, pure_eq_ok, orFail_eq_ok, prune_policies] at h
  obtain ⟨candidate, hcandidate, artifact, -, policy, hpolicy, _, -, rfl⟩ := h
  exact ⟨candidate, policy, orFail_eq_ok.mp hcandidate, hpolicy, succeed_policy⟩

/-- The end of an exploration. -/
theorem of_activeSuccessor {exploration : RouteExploration} {assessment : CohortAssessment}
    {action : ControllerAction}
    (h : activeSuccessor O input exploration assessment action = .ok lock') :
    ∃ policy policy' tier verdict, input.activePolicy.policies[input.policyName]? = some policy ∧
      lock'.policies[input.policyName]? = some policy' ∧
      endedPolicy O input exploration assessment policy action = .ok (policy', tier, verdict) := by
  simp only [activeSuccessor, bind_eq_ok, pure_eq_ok, orFail_eq_ok, prune_policies] at h
  obtain ⟨artifact, -, policy, hpolicy, ⟨policy', tier, verdict⟩, hended, _, -, rfl⟩ := h
  exact ⟨policy, policy', tier, verdict, hpolicy, succeed_policy, hended⟩

/-! ## A step -/

def published (lock : PolicyLock) : Except String OptimizationStep → PolicyLock
  | .ok step => step.successor.getD lock
  | .error _ => lock

/-- A step that neither starts nor ends an exploration. -/
def Idle (outcome : Except String OptimizationStep) : Prop :=
  ∀ step, outcome = .ok step → step.action = .hold ∨ step.action = .converged

/-- **What a step does.** -/
inductive PolicyStep (O : Optimizer) (policyName : String) (options : OptimizationOptions)
    (lock lock' : PolicyLock) : Except String OptimizationStep → Prop
  | idle {outcome : Except String OptimizationStep} (hidle : Idle outcome) (hsame : lock' = lock) :
    PolicyStep O policyName options lock lock' outcome
  | explore {step : OptimizationStep} {policy : PolicyDefinition} {target : HistoricalOpportunity}
      {candidate matchedRequestKey : String} {exploration : RouteExploration}
      (haction : step.action = .explore) (htarget : step.evidence.target = some target)
      (hcandidate : options.candidateTier = some candidate)
      (hpolicy : lock.policies[policyName]? = some policy)
      (hnone : activeExploration lock policyName = none)
      (hselected : Selected O policyName options lock policy target candidate matchedRequestKey)
      (hfields : exploration.targetRequestKey = target.requestKey ∧
        exploration.championTier = target.championTier ∧
        exploration.challengerTier = candidate ∧
        exploration.challengerExposurePpm = options.challengerExposurePpm ∧
        exploration.gate = options.gate)
      (hpolicy' : lock'.policies[policyName]? = some (exploringPolicy policy exploration)) :
    PolicyStep O policyName options lock lock' (.ok step)
  | promote {step : OptimizationStep} {policy : PolicyDefinition} {exploration : RouteExploration}
      (haction : step.action = .promote)
      (hpolicy : lock.policies[policyName]? = some policy)
      (hactive : activeExploration lock policyName = some exploration)
      (hpolicy' : lock'.policies[policyName]? = some (promotedPolicy O policy exploration)) :
    PolicyStep O policyName options lock lock' (.ok step)
  | retreat {step : OptimizationStep} {policy : PolicyDefinition}
      {exploration : RouteExploration} {rejection : RouteRejection}
      (haction : step.action = .retreat)
      (hpolicy : lock.policies[policyName]? = some policy)
      (hactive : activeExploration lock policyName = some exploration)
      (hcontext : rejection.treatmentContextDigest = some (contextOf O policyName exploration))
      (hpolicy' : lock'.policies[policyName]? = some { policy with
        optimization := some {
          active := none
          rejections := remember (rejectionsOf policy) (contextOf O policyName exploration)
            rejection } }) :
    PolicyStep O policyName options lock lock' (.ok step)

/-- A step while an exploration is active. -/
theorem policyStep_active {exploration : RouteExploration}
    (hactive : activeExploration input.activePolicy input.policyName = some exploration)
    {step : OptimizationStep} (h : prepareActiveStep O input exploration = .ok step) :
    PolicyStep O input.policyName input.options input.activePolicy
      (published input.activePolicy (.ok step)) (.ok step) := by
  simp only [prepareActiveStep, bind_eq_ok, pure_eq_ok] at h
  obtain ⟨assessment, -, successor, hsuccessor, rfl⟩ := h
  cases haction : cohortAction exploration assessment with
  | hold =>
    rw [haction] at hsuccessor
    obtain rfl := Except.ok.inj hsuccessor
    exact .idle (fun step hstep => .inl (by rw [← Except.ok.inj hstep])) rfl
  | explore => rw [haction] at hsuccessor; cases hsuccessor
  | converged => rw [haction] at hsuccessor; cases hsuccessor
  | promote =>
    rw [haction] at hsuccessor
    obtain ⟨lock', hlock', rfl⟩ := map_eq_ok.mp hsuccessor
    obtain ⟨policy, policy', tier, verdict, hpolicy, hpolicy', hended⟩ := of_activeSuccessor hlock'
    obtain ⟨rfl, -⟩ := Prod.mk.inj (Except.ok.inj hended)
    exact .promote rfl hpolicy hactive hpolicy'
  | retreat =>
    rw [haction] at hsuccessor
    obtain ⟨lock', hlock', rfl⟩ := map_eq_ok.mp hsuccessor
    obtain ⟨policy, policy', tier, verdict, hpolicy, hpolicy', hended⟩ := of_activeSuccessor hlock'
    simp only [endedPolicy, bind_eq_ok, pure_eq_ok, Prod.mk.injEq] at hended
    obtain ⟨parentDigest, -, rfl, -⟩ := hended
    exact .retreat rfl hpolicy hactive rfl hpolicy'

/-- **Every step is one of these.** -/
theorem policyStep (O : Optimizer) (input : OptimizationStepInput) :
    PolicyStep O input.policyName input.options input.activePolicy
      (published input.activePolicy (prepareStep O input)) (prepareStep O input) := by
  cases houtcome : prepareStep O input with
  | error e => exact .idle (fun step hstep => by cases hstep) rfl
  | ok step =>
    obtain ⟨_, -, hstep⟩ := bind_eq_ok.mp houtcome
    cases hactive : activeExploration input.activePolicy input.policyName with
    | some exploration =>
      rw [hactive] at hstep
      exact policyStep_active hactive hstep
    | none =>
      simp only [hactive, bind_eq_ok] at hstep
      obtain ⟨selected, hselected, hstep⟩ := hstep
      cases selected with
      | none =>
        obtain rfl := Except.ok.inj hstep
        exact .idle (fun step hstep => .inr (by rw [← Except.ok.inj hstep])) rfl
      | some target =>
        simp only [bind_eq_ok, pure_eq_ok] at hstep
        obtain ⟨lock', hlock', rfl⟩ := hstep
        obtain ⟨policy, candidate, matchedRequestKey, hpolicy, hcandidate, hopportunity⟩ :=
          of_selectOpportunity hselected
        obtain ⟨candidate', policy', hcandidate', hpolicy', hsuccessor⟩ :=
          of_exploreSuccessor hlock'
        obtain rfl := Option.some.inj (hcandidate.symm.trans hcandidate')
        obtain rfl := Option.some.inj (hpolicy.symm.trans hpolicy')
        exact .explore rfl rfl hcandidate hpolicy hactive hopportunity
          ⟨rfl, rfl, rfl, rfl, rfl⟩ hsuccessor

end BitRouter.Optimization
