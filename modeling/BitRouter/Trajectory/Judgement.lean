import BitRouter.Trajectory.Batch

/-!
# What a judgement says

Everything `evaluate` decides, in one place, and what follows from it alone:
the clauses stand in their fixed order, an active hold leaves no clause applied
but its own, and a new activation is exactly an applied clause other than the
hold.
-/

namespace BitRouter.Trajectory

variable {policy : ProgressGuardPolicy} {input : ProgressGuardInput} {e : GuardEvaluation}

/-- A persisted clause. -/
def RouteIntentClause.record (c : RouteIntentClause) : String × RouteIntentClauseDisposition :=
  (c.clauseId, c.disposition)

/-- **Everything a successful evaluation decides.** -/
structure Judgement (policy : ProgressGuardPolicy) (input : ProgressGuardInput)
    (e : GuardEvaluation) : Prop where
  shape : policy.validatePolicyShape = .ok ()
  clauses : ∃ sameProjection unprotected recoveryCount,
    input.prospectiveSameProjectionUnprotected policy = .ok sameProjection
      ∧ input.prospectiveUnprotected policy = .ok unprotected
      ∧ e.intent.clauses = suppressClauses input.holdActive
        (input.rawClauses policy sameProjection unprotected recoveryCount)
  activated : e.activated = (!input.holdActive && e.intent.clauses.any fun c =>
    c.isApplied && c.clauseId ≠ "progress_guard.active_hold")
  selected : e.intent.selectedTier =
    if e.intent.clauses.any (·.isApplied) = true ∧ input.candidateIsProtected policy = false then
      some policy.escalationTier
    else input.candidateTier
  isProtected : e.intent.clauses.any (·.isApplied) = true →
    e.intent.selectedTier.any (· ∈ policy.protectedTiers) = true
  candidateTier : e.intent.candidateTier = input.candidateTier
  digest : e.intent.trajectorySnapshotDigest = input.preIntentSnapshot.evidenceDigest
  policyDigest : e.intent.policyDigest = input.policyDigest
  causal : e.causalCompleteness = input.causalCompleteness

theorem evaluate_judgement (h : evaluate policy input = .ok e) : Judgement policy input e := by
  obtain ⟨_, hshape, h⟩ := bind_eq_ok.mp h
  obtain ⟨sameProjection, hsame, h⟩ := bind_eq_ok.mp h
  obtain ⟨unprotected, hunprotected, h⟩ := bind_eq_ok.mp h
  obtain ⟨recoveryCount, -, h⟩ := bind_eq_ok.mp h
  obtain ⟨_, hprotected, h⟩ := bind_eq_ok.mp h
  obtain rfl := pure_eq_ok.mp h
  refine
    { shape := hshape
      clauses := ⟨sameProjection, unprotected, recoveryCount, hsame, hunprotected, rfl⟩
      activated := rfl
      selected := ?_
      isProtected := ensure_eq_ok.mp hprotected
      candidateTier := rfl
      digest := rfl
      policyDigest := rfl
      causal := rfl }
  cases hguard : (suppressClauses input.holdActive
    (input.rawClauses policy sameProjection unprotected recoveryCount)).any (·.isApplied) <;>
    cases hcandidate : input.candidateIsProtected policy <;> simp

/-! ## The clauses in their order -/

@[simp] theorem clause_clauseId (clauseId : String) (triggered : Bool) (a b : String) :
    (clause clauseId triggered a b).clauseId = clauseId := rfl

@[simp] theorem clause_isApplied (clauseId : String) (triggered : Bool) (a b : String) :
    (clause clauseId triggered a b).isApplied = triggered := by
  cases triggered <;> rfl

@[simp] theorem thresholdClause_clauseId (clauseId : String) (threshold observed : Option ℕ) :
    (thresholdClause clauseId threshold observed).clauseId = clauseId := by
  unfold thresholdClause
  split <;> rfl

@[simp] theorem thresholdClause_isApplied (clauseId : String) (threshold observed : Option ℕ) :
    (thresholdClause clauseId threshold observed).isApplied = true
      ↔ ∃ t ∈ threshold, ∃ o ∈ observed, t ≤ o := by
  unfold thresholdClause
  split <;> simp

@[simp] theorem recoveryThresholdClause_clauseId (threshold : Option ℕ) (count : ℕ) (edge : Bool) :
    (recoveryThresholdClause threshold count edge).clauseId
      = "progress_guard.max_recovery_count" := by
  unfold recoveryThresholdClause
  split
  · exact thresholdClause_clauseId _ _ _
  · split
    · rfl
    · exact thresholdClause_clauseId _ _ _

@[simp] theorem RouteIntentClause.suppressed_clauseId (c : RouteIntentClause) :
    c.suppressed.clauseId = c.clauseId := by
  unfold suppressed
  split <;> rfl

@[simp] theorem RouteIntentClause.suppressed_isApplied (c : RouteIntentClause) :
    c.suppressed.isApplied = false := by
  unfold suppressed isApplied
  split
  · rfl
  · next h => exact decide_eq_false h

theorem suppressClauses_clauseId (holdActive : Bool) (clauses : List RouteIntentClause) :
    (suppressClauses holdActive clauses).map (·.clauseId) = clauses.map (·.clauseId) := by
  unfold suppressClauses
  split
  · rw [List.map_append, List.map_map]
    have hsame : ((·.clauseId) ∘ RouteIntentClause.suppressed) = (·.clauseId) := by
      funext c
      exact c.suppressed_clauseId
    rw [hsame, ← List.map_append, List.take_append_drop]
  · rfl

namespace Judgement

section

variable (h : Judgement policy input e)

include h

/-- **The clauses stand in their fixed order**, the tool floor still to come. -/
theorem clauseIds :
    e.intent.clauses.map (·.clauseId) = stableClauseIds.take 8 := by
  obtain ⟨sameProjection, unprotected, recoveryCount, -, -, heq⟩ := h.clauses
  rw [heq, suppressClauses_clauseId]
  simp [ProgressGuardInput.rawClauses, stableClauseIds]

/-- **Under an active hold no other clause is applied.** -/
theorem suppressed (hold : input.holdActive = true) :
    ∀ c ∈ e.intent.clauses, c.isApplied = true → c.clauseId = "progress_guard.active_hold" := by
  obtain ⟨sameProjection, unprotected, recoveryCount, -, -, heq⟩ := h.clauses
  intro c hc happlied
  rw [heq, hold] at hc
  rcases List.mem_append.mp hc with hc | hc
  · obtain rfl := List.mem_singleton.mp hc
    rfl
  · obtain ⟨c', -, rfl⟩ := List.mem_map.mp hc
    exact absurd happlied (by simp)

theorem head :
    ∃ c rest, e.intent.clauses = c :: rest ∧ c.clauseId = "progress_guard.active_hold"
      ∧ c.isApplied = input.holdActive := by
  obtain ⟨sameProjection, unprotected, recoveryCount, -, -, heq⟩ := h.clauses
  rw [heq]
  unfold suppressClauses
  split
  · exact ⟨_, _, rfl, rfl, clause_isApplied _ _ _ _⟩
  · exact ⟨_, _, rfl, rfl, clause_isApplied _ _ _ _⟩

theorem raw (hold : input.holdActive = false) :
    ∃ sameProjection unprotected recoveryCount,
      input.prospectiveSameProjectionUnprotected policy = .ok sameProjection
        ∧ input.prospectiveUnprotected policy = .ok unprotected
        ∧ e.intent.clauses
          = input.rawClauses policy sameProjection unprotected recoveryCount := by
  obtain ⟨sameProjection, unprotected, recoveryCount, hsame, hunprotected, heq⟩ := h.clauses
  rw [hold] at heq
  exact ⟨sameProjection, unprotected, recoveryCount, hsame, hunprotected, heq⟩

/-- **A new activation is exactly what the reducer takes for a trigger.** -/
theorem triggers_eq :
    Reduction.triggers (e.intent.clauses.map (·.record)) = e.activated := by
  have hguard : ∀ c ∈ e.intent.clauses, startsWith c.clauseId "progress_guard." = true := by
    intro c hc
    have hid := List.mem_map_of_mem (f := (·.clauseId)) hc
    rw [h.clauseIds] at hid
    have hall : ∀ id ∈ stableClauseIds.take 8, startsWith id "progress_guard." = true := by
      decide +kernel
    exact hall _ hid
  have htriggers : Reduction.triggers (e.intent.clauses.map (·.record))
      = e.intent.clauses.any fun c =>
        c.isApplied && c.clauseId ≠ "progress_guard.active_hold" := by
    unfold Reduction.triggers
    rw [List.any_map, Bool.eq_iff_iff, List.any_eq_true, List.any_eq_true]
    refine exists_congr fun c => and_congr_right fun hc => ?_
    show (c.isApplied && startsWith c.clauseId "progress_guard."
      && (c.clauseId ≠ "progress_guard.active_hold")) = true ↔ _
    rw [hguard c hc, Bool.and_true]
  rw [htriggers, h.activated]
  cases hold : input.holdActive with
  | false => rfl
  | true =>
    rw [Bool.not_true, Bool.false_and, List.any_eq_false]
    intro c hc
    have hsuppressed := h.suppressed hold c hc
    cases happlied : c.isApplied with
    | false => simp
    | true => simp [hsuppressed happlied]

end

end Judgement

/-! ## The tool floor -/

variable {M : Type} {route : GuardedRouteInput M} {intent intent' : RouteIntent}

/-- The clause the tool floor adds. -/
def toolFloorClause (route : GuardedRouteInput M) (selectedTier : Option String) :
    RouteIntentClause where
  clauseId := "tool_safety.floor"
  disposition := if toolFloorApplies route selectedTier then .applied else .skipped
  explanation := toolFloorExplanation route selectedTier

theorem applyToolFloor_eq (h : applyToolFloor route intent = .ok intent') :
    (toolFloorApplies route intent.selectedTier = true →
        route.toolUseTier.any (· ∈ route.policy.protectedTiers) = true)
      ∧ intent' = { intent with
        experiment := route.experiment
        selectedTier := if toolFloorApplies route intent.selectedTier then route.toolUseTier
          else intent.selectedTier
        clauses := intent.clauses ++ [toolFloorClause route intent.selectedTier] } := by
  obtain ⟨_, hfloor, h⟩ := bind_eq_ok.mp h
  exact ⟨ensure_eq_ok.mp hfloor, (pure_eq_ok.mp h).symm⟩

theorem triggers_append_toolFloor (clauses : List (String × RouteIntentClauseDisposition))
    (selectedTier : Option String) :
    Reduction.triggers (clauses ++ [(toolFloorClause route selectedTier).record])
      = Reduction.triggers clauses := by
  unfold Reduction.triggers
  rw [List.any_append, List.any_cons, List.any_nil, Bool.or_false]
  have hname : startsWith "tool_safety.floor" "progress_guard." = false := by decide +kernel
  show (_ || (_ && startsWith "tool_safety.floor" "progress_guard." && _)) = _
  rw [hname, Bool.and_false, Bool.false_and, Bool.or_false]

end BitRouter.Trajectory
