import BitRouter.Trajectory.Reading

/-!
# Writer and reader agree

The writer of a guarded route reduces the history twice and persists its
judgement; the reader re-derives the same snapshot from its running counters
and reads the judgement back from the event. Every batch the writer makes is
accepted by the reader, with an activation exactly where the reader demands
one, as long as the projection is one the ledger reads back. What a reader
accepts of the histories written so does not depend on the tiers it protects.
-/

namespace BitRouter.Trajectory

variable {M : Type} {ledger : Ledger M} {protectedTiers : Finset String}
  {r r' : Reduction} {event start : TrajectoryEvent M} {history : List (TrajectoryEvent M)}

/-! ## Counters never overflow -/

/-- **No counter passes the number of events read.** -/
structure Bounded (r : Reduction) : Prop where
  streak : r.sameProjectionStreak ≤ r.index
  tierStreak : r.sameSelectedTierStreak ≤ r.index
  unprotected : r.consecutiveUnprotectedRequests ≤ r.index
  recovery : r.recoveryCount ≤ r.index
  since : ∀ count ∈ r.requestsSinceRecovery, count ≤ r.index

theorem updateStreak_le {previous current : Option String} {streak streak' : ℕ} {field : String}
    (h : updateStreak previous current streak field = .ok streak') : streak' ≤ streak + 1 := by
  unfold updateStreak at h
  split at h
  · obtain rfl := Except.ok.inj h
    exact Nat.zero_le _
  · split at h
    · obtain ⟨-, rfl⟩ := checkedAdd_eq_ok.mp h
      exact le_rfl
    · obtain rfl := Except.ok.inj h
      exact Nat.le_add_left _ _

namespace Bounded

theorem initial (owner episode : String) (instant : ℤ) :
    Bounded (Reduction.initial owner episode instant) where
  streak := le_rfl
  tierStreak := le_rfl
  unprotected := le_rfl
  recovery := le_rfl
  since _ h := absurd h (by simp [Reduction.initial])

/-- An event that leaves the counters alone. -/
theorem of_eq (h : Bounded r) (hindex : r'.index = r.index)
    (hstreak : r'.sameProjectionStreak = r.sameProjectionStreak)
    (htier : r'.sameSelectedTierStreak = r.sameSelectedTierStreak)
    (hunprotected : r'.consecutiveUnprotectedRequests = r.consecutiveUnprotectedRequests)
    (hrecovery : r'.recoveryCount = r.recoveryCount)
    (hsince : r'.requestsSinceRecovery = r.requestsSinceRecovery) : Bounded r' where
  streak := by rw [hstreak, hindex]; exact h.streak
  tierStreak := by rw [htier, hindex]; exact h.tierStreak
  unprotected := by rw [hunprotected, hindex]; exact h.unprotected
  recovery := by rw [hrecovery, hindex]; exact h.recovery
  since := by rw [hsince, hindex]; exact h.since

theorem admitted (h : Bounded r) (capturedAt : ℤ) : Bounded (r.admitted capturedAt) where
  streak := h.streak.trans (Nat.le_succ _)
  tierStreak := h.tierStreak.trans (Nat.le_succ _)
  unprotected := h.unprotected.trans (Nat.le_succ _)
  recovery := h.recovery.trans (Nat.le_succ _)
  since count hcount := (h.since count hcount).trans (Nat.le_succ _)

theorem step (h : Bounded r) (hstep : Reduction.step ledger protectedTiers r event = .ok r') :
    Bounded r' := by
  obtain ⟨capturedAt, -, hreact⟩ := step_eq_ok.mp hstep
  have hadmitted := h.admitted capturedAt
  unfold Reduction.react at hreact
  split at hreact
  · obtain ⟨_, _, _, -, -, -, rfl⟩ := Reduction.requestStarted_eq_ok hreact
    exact hadmitted.of_eq rfl rfl rfl rfl rfl rfl
  · -- every counter grows by one at most, and so does the index
    have hrouted := Reduction.routeIntentRecorded_eq_ok hreact
    have hindex : r'.index = r.index + 1 := by rw [hrouted.rest]; rfl
    obtain ⟨isProtected, -, hunprotected⟩ := hrouted.unprotected
    obtain ⟨workflowState, hrecovery⟩ := hrouted.recovery
    have hcount : r'.consecutiveUnprotectedRequests ≤ r.consecutiveUnprotectedRequests + 1 := by
      unfold Reduction.unprotectedAfter at hunprotected
      split at hunprotected
      · rw [← Except.ok.inj hunprotected]
        exact Nat.zero_le _
      · split at hunprotected
        · rw [← Except.ok.inj hunprotected]
          exact Nat.zero_le _
        · exact (checkedAdd_eq_ok.mp hunprotected).2.ge
    have hrecoveries : r'.recoveryCount ≤ r.recoveryCount + 1
        ∧ ∀ count ∈ r'.requestsSinceRecovery, count ≤ r.index + 1 := by
      unfold Reduction.recoveryAfter at hrecovery
      split at hrecovery
      · obtain ⟨count, hcount, hpair⟩ := map_eq_ok.mp hrecovery
        obtain ⟨hrecoveryCount, hsince⟩ := Prod.mk.inj hpair
        rw [← hrecoveryCount, ← hsince]
        refine ⟨?_, fun count hcount => by
          obtain rfl := Option.mem_some.mp hcount
          exact Nat.zero_le _⟩
        unfold Reduction.enteredRecovery at hcount
        split at hcount
        · rw [← Except.ok.inj hcount]
          exact Nat.le_succ _
        · exact (checkedAdd_eq_ok.mp hcount).2.ge
      · split at hrecovery
        · obtain ⟨hrecoveryCount, hsince⟩ := Prod.mk.inj (Except.ok.inj hrecovery)
          rw [← hrecoveryCount, ← hsince]
          exact ⟨Nat.le_succ _, fun count hcount => absurd hcount (by simp)⟩
        · next count hcount =>
          obtain ⟨next, hnext, hpair⟩ := map_eq_ok.mp hrecovery
          obtain ⟨-, rfl⟩ := checkedAdd_eq_ok.mp hnext
          obtain ⟨hrecoveryCount, hsince⟩ := Prod.mk.inj hpair
          rw [← hrecoveryCount, ← hsince]
          refine ⟨Nat.le_succ _, fun count' hcount' => ?_⟩
          obtain rfl := Option.mem_some.mp hcount'
          exact Nat.succ_le_succ (h.since count hcount)
    exact
      { streak := by
          rw [hindex]
          exact (updateStreak_le hrouted.streak).trans (Nat.succ_le_succ h.streak)
        tierStreak := by
          rw [hindex]
          exact (updateStreak_le hrouted.tierStreak).trans (Nat.succ_le_succ h.tierStreak)
        unprotected := by
          rw [hindex]
          exact hcount.trans (Nat.succ_le_succ h.unprotected)
        recovery := by
          rw [hindex]
          exact hrecoveries.1.trans (Nat.succ_le_succ h.recovery)
        since := by
          rw [hindex]
          exact hrecoveries.2 }
  · obtain ⟨_, _, _, _, -, -, -, -, rfl⟩ := Reduction.requestSettled_eq_ok hreact
    exact hadmitted.of_eq rfl rfl rfl rfl rfl rfl
  · obtain ⟨_, _, _, -, -, -, rfl⟩ := Reduction.guardActivated_eq_ok hreact
    exact hadmitted.of_eq rfl rfl rfl rfl rfl rfl
  · obtain rfl := Reduction.episodeClosed_eq_ok hreact
    exact hadmitted.of_eq rfl rfl rfl rfl rfl rfl

end Bounded

/-! ## A request just started -/

theorem reduction_concat (h : reduction ledger (history ++ [event]) protectedTiers = .ok r) :
    ∃ r₀, Bounded r₀ ∧ Reduction.step ledger protectedTiers r₀ event = .ok r := by
  obtain ⟨b, hbegun, h⟩ := bind_eq_ok.mp h
  rw [List.foldlM_append] at h
  obtain ⟨r₀, hr₀, h⟩ := bind_eq_ok.mp h
  rw [List.foldlM_cons, bind_eq_ok] at h
  obtain ⟨r₁, hstep, h⟩ := h
  obtain rfl := pure_eq_ok.mp h
  refine ⟨r₀, foldlM_ok_preserves (fun s x s' _ hs hx => hs.step hx) ?_ hr₀, hstep⟩
  obtain ⟨_, -, hbegun⟩ := bind_eq_ok.mp hbegun
  obtain ⟨_, -, hbegun⟩ := bind_eq_ok.mp hbegun
  obtain ⟨_, -, hbegun⟩ := bind_eq_ok.mp hbegun
  obtain rfl := pure_eq_ok.mp hbegun
  exact Bounded.initial _ _ _

/-- **The state a route intent meets**: its request started by the event just
before it. -/
structure Opened (ledger : Ledger M) (start : TrajectoryEvent M) (r : Reduction) : Prop where
  started : ∃ requestId, start.requestId = some requestId
    ∧ r.requests[requestId]? = some .started
  unclosed : r.closed = false
  index : r.index = start.sequence
  owner : start.ownerUserId = r.ownerUserId
  episode : start.episodeId = r.episodeId
  instant : ledger.parseFromRfc3339 start.capturedAt = some r.lastTimestamp
  timestamp : r.previousTimestamp = r.lastTimestamp
  bounded : Bounded r

theorem opened (h : reduction ledger (history ++ [start]) protectedTiers = .ok r)
    (hkind : start.kind = .requestStarted) : Opened ledger start r := by
  obtain ⟨r₀, hbounded, hstep⟩ := reduction_concat h
  have hbounded := hbounded.step hstep
  obtain ⟨capturedAt, hadmits, hreact⟩ := step_eq_ok.mp hstep
  rw [Reduction.react, hkind] at hreact
  obtain ⟨requestId, _, _, hid, -, -, rfl⟩ := Reduction.requestStarted_eq_ok hreact
  exact
    { started := ⟨requestId, hid, by
        show (Std.ExtTreeMap.insert _ _ _)[requestId]? = _
        rw [StrMap.getElem?_insert, if_pos rfl]⟩
      unclosed := hadmits.unclosed
      index := hadmits.sequence.symm
      owner := hadmits.owner
      episode := hadmits.episode
      instant := hadmits.instant
      timestamp := rfl
      bounded := hbounded }

/-! ## The persisted judgement is read back -/

section Persisted

variable {input : GuardedRouteInput M} {intent : RouteIntent}

/-- Every name a route intent may carry beside its clauses. -/
def routeNames : List String :=
  ["route.projection", "route.workflow_state", "route.policy", "route.route_projection",
    "route.request_key", "route.eval_schema", "route.baseline_tier", "route.baseline_effort",
    "route.preset", "route.candidate_tier", "route.selected_tier", "route.selected_effort",
    "route.experiment_id", "route.experiment_arm", "route.experiment_assignment_unit"]

theorem optional_keys {α β : Type} (o : Option α) (k : String) (f : α → β) :
    ((o.toList.map fun a => (k, f a)).map (·.1)).Sublist [k] := by
  cases o with
  | none => exact List.nil_sublist _
  | some a => exact List.Sublist.refl _

theorem routeFields_keys : ((routeFields input intent).map (·.1)).Sublist routeNames := by
  have hexperiment : ((intent.experiment.toList.flatMap fun experiment =>
      [("route.experiment_id", experiment.experimentId),
        ("route.experiment_arm", experiment.arm.name),
        ("route.experiment_assignment_unit", experiment.assignmentUnit.name)]).map
          (·.1)).Sublist
      ["route.experiment_id", "route.experiment_arm", "route.experiment_assignment_unit"] := by
    cases intent.experiment with
    | none => exact List.nil_sublist _
    | some experiment => exact List.Sublist.refl _
  unfold routeFields
  simp only [List.map_append]
  exact ((((((((List.Sublist.refl _).append (optional_keys _ _ _)).append
    (optional_keys _ _ _)).append (optional_keys _ _ _)).append (optional_keys _ _ _)).append
    (optional_keys _ _ _)).append (optional_keys _ _ _)).append hexperiment)

theorem clauseFields_keys (clauses : List RouteIntentClause) :
    (clauseFields clauses).map (·.1)
      = (List.range clauses.length).flatMap fun index =>
        [clauseIdKey index, clauseDispositionKey index] := by
  unfold clauseFields
  rw [List.map_flatMap, List.range_eq_range', ← List.zipIdx_map_snd 0 clauses, List.flatMap_map]
  rfl

theorem clauseFields_canonical (hids : intent.clauses.map (·.clauseId) = stableClauseIds) :
    (clauseFields intent.clauses).map (·.1) = clauseKeys := by
  have hlength : intent.clauses.length = stableClauseIds.length := by
    rw [← hids, List.length_map]
  rw [clauseFields_keys, hlength]
  rfl

theorem routeNames_nodup : (routeNames ++ clauseKeys).Nodup := by decide +kernel

theorem fields_nodup (hids : intent.clauses.map (·.clauseId) = stableClauseIds) :
    ((routeFields input intent ++ clauseFields intent.clauses).map (·.1)).Nodup := by
  rw [List.map_append, clauseFields_canonical hids]
  exact routeNames_nodup.sublist (routeFields_keys.append (List.Sublist.refl _))

theorem routeEvidence_categorical : (routeEvidence input intent).categorical
    = StrMap.ofPairs (routeFields input intent ++ clauseFields intent.clauses) := by
  unfold routeEvidence
  dsimp only

section

variable (hids : intent.clauses.map (·.clauseId) = stableClauseIds)

include hids

theorem categorical_routeEvidence
    {k v : String} (h : (k, v) ∈ routeFields input intent ++ clauseFields intent.clauses) :
    (routeEvidence input intent).categorical[k]? = some v := by
  exact StrMap.getElem?_ofPairs (fields_nodup hids) h

theorem projection_routeEvidence :
    (routeEvidence input intent).categorical["route.projection"]? = some input.projection.key :=
  categorical_routeEvidence hids (by simp [routeFields])

theorem workflowState_routeEvidence :
    (routeEvidence input intent).categorical["route.workflow_state"]?
      = some input.projection.stateKind.name :=
  categorical_routeEvidence hids (by simp [routeFields])

theorem selectedTier_routeEvidence :
    (routeEvidence input intent).categorical["route.selected_tier"]? = intent.selectedTier := by
  cases hselected : intent.selectedTier with
  | some tier => exact categorical_routeEvidence hids (by simp [routeFields, hselected])
  | none =>
    refine StrMap.getElem?_ofPairs_none ?_
    rw [List.map_append, clauseFields_canonical hids, List.mem_append]
    rintro (hmem | hmem)
    · -- without a selected tier its name is never inserted
      simp only [routeFields, hselected, Option.toList_none, Option.bind_none, List.map_nil,
        List.append_nil, List.map_append, List.mem_append] at hmem
      rcases hmem with (((((hmem | hmem) | hmem) | hmem) | hmem) | hmem)
      · exact absurd hmem (by simp)
      · exact absurd ((optional_keys _ _ _).subset hmem) (by decide)
      · exact absurd ((optional_keys _ _ _).subset hmem) (by decide)
      · exact absurd ((optional_keys _ _ _).subset hmem) (by decide)
      · exact absurd ((optional_keys _ _ _).subset hmem) (by decide)
      · revert hmem
        cases intent.experiment <;> simp
    · exact absurd hmem (by decide +kernel)

end

theorem structural_nodup : (([("route.applied_clause_count",
      (intent.clauses.filter (·.isApplied)).length),
      ("route.selected_is_protected",
        (intent.selectedTier.any (· ∈ input.policy.protectedTiers)).toNat)]
    ++ (intent.experiment.toList.map fun experiment =>
      ("route.experiment_challenger_propensity_ppm", experiment.challengerPropensityPpm))).map
        (·.1)).Nodup := by
  have hall : (["route.applied_clause_count", "route.selected_is_protected",
    "route.experiment_challenger_propensity_ppm"] : List String).Nodup := by decide
  exact hall.sublist ((List.Sublist.refl ["route.applied_clause_count",
    "route.selected_is_protected"]).append (optional_keys _ _ _))

theorem appliedCount_routeEvidence :
    (routeEvidence input intent).structural["route.applied_clause_count"]?
      = some (intent.clauses.filter (·.isApplied)).length :=
  StrMap.getElem?_ofPairs structural_nodup (by simp)

theorem isProtected_routeEvidence :
    (routeEvidence input intent).structural["route.selected_is_protected"]?
      = some (intent.selectedTier.any (· ∈ input.policy.protectedTiers)).toNat :=
  StrMap.getElem?_ofPairs structural_nodup (by simp)

theorem digests_nodup : (([("route.health_snapshot", intent.trajectorySnapshotDigest),
      ("route.policy_lock", intent.policyDigest)]
    ++ (intent.experiment.toList.map fun experiment =>
      ("route.experiment_assignment_id", experiment.assignmentIdDigest))).map (·.1)).Nodup := by
  have hall : (["route.health_snapshot", "route.policy_lock",
    "route.experiment_assignment_id"] : List String).Nodup := by decide
  exact hall.sublist ((List.Sublist.refl ["route.health_snapshot",
    "route.policy_lock"]).append (optional_keys _ _ _))

theorem healthSnapshot_routeEvidence :
    (routeEvidence input intent).digests["route.health_snapshot"]?
      = some intent.trajectorySnapshotDigest :=
  StrMap.getElem?_ofPairs digests_nodup (by simp)

theorem policyLock_routeEvidence :
    (routeEvidence input intent).digests["route.policy_lock"]? = some intent.policyDigest :=
  StrMap.getElem?_ofPairs digests_nodup (by simp)

theorem contains_of_getElem? {α : Type} {m : StrMap α} {k : String} {v : α}
    (h : m[k]? = some v) : m.contains k = true := by
  rw [Std.ExtTreeMap.contains_eq_isSome_getElem?, h]
  rfl

theorem parseDisposition_name (d : RouteIntentClauseDisposition) :
    parseDisposition d.name = .ok d := by
  cases d <;> rfl

/-- **The judgement is read back from the event**, clause by clause. -/
theorem validatePersistedRouteIntent_routeEvent (start : TrajectoryEvent M) (routeSequence : ℕ)
    (hids : intent.clauses.map (·.clauseId) = stableClauseIds) :
    validatePersistedRouteIntent (routeEvent ledger start input intent routeSequence)
      = .ok (some (intent.clauses.map (·.record))) := by
  have hpolicy : (routeEvidence input intent).digests.contains "route.policy_lock" = true :=
    contains_of_getElem? policyLock_routeEvidence
  have hhealth : (routeEvidence input intent).digests.contains "route.health_snapshot" = true :=
    contains_of_getElem? healthSnapshot_routeEvidence
  have hclauses : stableClauseIds.zipIdx.mapM (readClause (routeEvidence input intent).categorical)
      = .ok (intent.clauses.map (·.record)) := by
    have hsplit : intent.clauses.map (·.record)
        = intent.clauses.zipIdx.map fun entry => entry.1.record := by
      rw [← List.zipIdx_map_fst 0 intent.clauses, List.map_map]
      simp
    rw [← hids, List.zipIdx_map, hsplit, mapM_eq_ok, List.forall₂_map_left_iff,
      List.forall₂_map_right_iff, List.forall₂_same]
    rintro ⟨c, index⟩ hmem
    have hfields : ∀ pair ∈ [(clauseIdKey index, c.clauseId),
        (clauseDispositionKey index, c.disposition.name)],
        (routeEvidence input intent).categorical[pair.1]? = some pair.2 := fun pair hpair =>
      categorical_routeEvidence hids (List.mem_append_right _
        (List.mem_flatMap.mpr ⟨(c, index), hmem, hpair⟩))
    have hid := hfields (clauseIdKey index, c.clauseId) (by simp)
    have hdisposition := hfields (clauseDispositionKey index, c.disposition.name) (by simp)
    show readClause _ (c.clauseId, index) = _
    unfold readClause
    dsimp only at hid hdisposition ⊢
    rw [hid, hdisposition]
    show (ensure _ _ >>= fun _ => parseDisposition c.disposition.name >>= fun d => _) = _
    rw [parseDisposition_name]
    exact bind_eq_ok.mpr ⟨(), ensure_eq_ok.mpr rfl, rfl⟩
  have hkeys : (((routeEvidence input intent).categorical.keys.filter
      (startsWith · "route.clause_")).length = stableClauseIds.length * 2)
      ∧ ∀ k ∈ (routeEvidence input intent).categorical.keys.filter (startsWith · "route.clause_"),
        k ∈ clauseKeys := by
    have hnone : ∀ k ∈ routeNames, startsWith k "route.clause_" = false := by decide +kernel
    have hall : ∀ k ∈ clauseKeys, startsWith k "route.clause_" = true := by decide +kernel
    have hmem : ∀ k, (k ∈ (routeEvidence input intent).categorical
        ∧ startsWith k "route.clause_" = true) ↔ k ∈ clauseKeys := by
      intro k
      rw [routeEvidence_categorical, StrMap.mem_ofPairs, List.map_append, List.mem_append,
        clauseFields_canonical hids]
      constructor
      · rintro ⟨hk | hk, hinitial⟩
        · exact absurd hinitial (by simp [hnone k (routeFields_keys.subset hk)])
        · exact hk
      · exact fun hk => ⟨.inr hk, hall k hk⟩
    refine ⟨(StrMap.filter_keys_length (List.Nodup.of_append_right routeNames_nodup) hmem).trans
      (by decide), fun k hk => ?_⟩
    rw [List.mem_filter, Std.ExtTreeMap.mem_keys] at hk
    exact (hmem k).mp hk
  have hcount : ((intent.clauses.map (·.record)).filter (·.2 = .applied)).length
      = (intent.clauses.filter (·.isApplied)).length := by
    rw [List.filter_map, List.length_map]
    rfl
  have hmarker : hasGuardedMarker (routeEvidence input intent) = true := by
    unfold hasGuardedMarker
    rw [hpolicy]
    rfl
  unfold validatePersistedRouteIntent
  show (if TrajectoryEventKind.routeIntentRecorded ≠ .routeIntentRecorded then _
    else if hasGuardedMarker (routeEvidence input intent) = false then _ else _) = _
  rw [if_neg (by simp), if_neg (by simp [hmarker])]
  refine bind_eq_ok.mpr ⟨(), ensure_eq_ok.mpr ⟨hpolicy, hhealth⟩, bind_eq_ok.mpr
    ⟨_, orFail_eq_ok.mpr appliedCount_routeEvidence, bind_eq_ok.mpr
    ⟨(), ensure_eq_ok.mpr ?_, bind_eq_ok.mpr ⟨_, hclauses, bind_eq_ok.mpr
    ⟨(), ensure_eq_ok.mpr hkeys, bind_eq_ok.mpr ⟨(), ensure_eq_ok.mpr hcount, rfl⟩⟩⟩⟩⟩⟩
  intro value hvalue
  obtain rfl := Option.some.inj (isProtected_routeEvidence.symm.trans hvalue)
  cases intent.selectedTier.any (· ∈ input.policy.protectedTiers) <;> simp

end Persisted

/-! ## The batch is accepted -/

/-- A snapshot can be made wherever one with the same counts, times and sizes
was made. -/
theorem snapshotFromFacts_of_same {facts : SnapshotFacts} (facts' : SnapshotFacts)
    {snapshot : TrajectorySnapshot} (h : snapshotFromFacts ledger facts = .ok snapshot)
    (hcount : facts'.requestCount = facts.requestCount)
    (hsettled : facts'.settledRequestCount = facts.settledRequestCount)
    (hfirst : facts'.firstTimestamp = facts.firstTimestamp)
    (hlast : facts'.lastTimestamp = facts.lastTimestamp)
    (hfirstBytes : facts'.firstCanonicalBytes = facts.firstCanonicalBytes)
    (hlatestBytes : facts'.latestCanonicalBytes = facts.latestCanonicalBytes) :
    ∃ snapshot', snapshotFromFacts ledger facts' = .ok snapshot' := by
  obtain ⟨health, hhealth, -⟩ := bind_eq_ok.mp h
  obtain ⟨_, hle, hhealth⟩ := bind_eq_ok.mp hhealth
  obtain ⟨elapsed, helapsed, hhealth⟩ := bind_eq_ok.mp hhealth
  obtain ⟨growth, hgrowth, -⟩ := bind_eq_ok.mp hhealth
  refine ⟨_, bind_eq_ok.mpr ⟨_, bind_eq_ok.mpr ⟨(), ensure_eq_ok.mpr ?_, bind_eq_ok.mpr
    ⟨elapsed, ?_, bind_eq_ok.mpr ⟨growth, ?_, rfl⟩⟩⟩, rfl⟩⟩
  · rw [hcount, hsettled]
    exact ensure_eq_ok.mp hle
  · rw [hfirst, hlast]
    exact helapsed
  · rw [hfirstBytes, hlatestBytes]
    exact hgrowth

theorem updateStreak_total (previous current : Option String) {streak : ℕ} (field : String)
    (hroom : streak + 1 < u64Bound) :
    ∃ streak', updateStreak previous current streak field = .ok streak' := by
  unfold updateStreak
  cases current with
  | none => exact ⟨_, rfl⟩
  | some current =>
    dsimp only
    split
    · exact ⟨_, checkedAdd_eq_ok.mpr ⟨hroom, rfl⟩⟩
    · exact ⟨_, rfl⟩

theorem Bounded.unprotectedAfter_total (h : Bounded r) (hroom : r.index + 1 < u64Bound)
    (selectedTier : Option String) (isProtected : Bool) :
    ∃ count, r.unprotectedAfter selectedTier isProtected = .ok count := by
  unfold Reduction.unprotectedAfter
  cases selectedTier with
  | none => exact ⟨_, rfl⟩
  | some tier =>
    dsimp only
    split
    · exact ⟨_, rfl⟩
    · have hle := h.unprotected
      exact ⟨_, checkedAdd_eq_ok.mpr ⟨by omega, rfl⟩⟩

theorem Bounded.recoveryAfter_total (h : Bounded r) (hroom : r.index + 1 < u64Bound)
    (workflowState : Option WorkflowStateKind) :
    ∃ recovery, r.recoveryAfter workflowState = .ok recovery := by
  unfold Reduction.recoveryAfter Reduction.enteredRecovery
  split
  · split
    · exact ⟨_, rfl⟩
    · have hle := h.recovery
      exact ⟨_, map_eq_ok.mpr ⟨_, checkedAdd_eq_ok.mpr ⟨by omega, rfl⟩, rfl⟩⟩
  · split
    · exact ⟨_, rfl⟩
    · next count hcount =>
      have hle := h.since count hcount
      exact ⟨_, map_eq_ok.mpr ⟨_, checkedAdd_eq_ok.mpr ⟨by omega, rfl⟩, rfl⟩⟩

section Accepted

variable {input : GuardedRouteInput M} {intent : RouteIntent} {pre : TrajectorySnapshot}

/-- The state once the judgement of a request is read. -/
def Reduction.judged (r : Reduction) (requestId : String) (intent : RouteIntent) : Reduction :=
  { r with
    guardedRouteDigests := r.guardedRouteDigests.insert requestId
      (intent.policyDigest, intent.trajectorySnapshotDigest)
    pendingGuardActivation :=
      if Reduction.triggers (intent.clauses.map (·.record)) then some requestId
      else r.pendingGuardActivation }

/-- **The reader re-derives the snapshot** the writer took the digest of: the
route intent is admitted after it, and the counters are still those of its
prefix. -/
theorem guardedIntent_routeEvent
    (hpre : snapshotFromFacts ledger (r.facts start.sequence r.lastTimestamp) = .ok pre)
    (hids : intent.clauses.map (·.clauseId) = stableClauseIds)
    (hdigest : intent.trajectorySnapshotDigest = pre.evidenceDigest)
    (capturedAt : ℤ) (requestId : String) :
    (r.admitted capturedAt).guardedIntent ledger r.lastTimestamp
        (routeEvent ledger start input intent (start.sequence + 1)) requestId
      = .ok ((r.admitted capturedAt).judged requestId intent) := by
  unfold Reduction.guardedIntent
  rw [validatePersistedRouteIntent_routeEvent start _ hids]
  show (r.admitted capturedAt).guardedRoute ledger r.lastTimestamp _ requestId _ = _
  refine bind_eq_ok.mpr ⟨_, orFail_eq_ok.mpr policyLock_routeEvidence, bind_eq_ok.mpr
    ⟨_, orFail_eq_ok.mpr healthSnapshot_routeEvidence, bind_eq_ok.mpr
    ⟨(), ensure_eq_ok.mpr (Nat.succ_ne_zero _), bind_eq_ok.mpr
    ⟨pre, hpre, bind_eq_ok.mpr ⟨(), ensure_eq_ok.mpr hdigest, rfl⟩⟩⟩⟩⟩

theorem selectedIsProtected_routeEvent (routeSequence : ℕ) :
    Reduction.selectedIsProtected protectedTiers
        (routeEvent ledger start input intent routeSequence)
      = .ok (intent.selectedTier.any (· ∈ input.policy.protectedTiers)) := by
  have hfact : (routeEvent ledger start input intent routeSequence).evidence.structural[
      "route.selected_is_protected"]? = _ := isProtected_routeEvidence
  unfold Reduction.selectedIsProtected
  rw [hfact]
  cases intent.selectedTier.any (· ∈ input.policy.protectedTiers) <;> rfl

/-- **The route intent of a request just started is accepted.** -/
theorem routeEvent_accepted (protectedTiers : Finset String) (ho : Opened ledger start r)
    (hpending : r.pendingGuardActivation = none)
    (hpre : snapshotFromFacts ledger (r.facts start.sequence r.lastTimestamp) = .ok pre)
    (hids : intent.clauses.map (·.clauseId) = stableClauseIds)
    (hdigest : intent.trajectorySnapshotDigest = pre.evidenceDigest)
    (hprojection : RouteProjection.parseKey input.projection.key = some input.projection)
    (hroom : start.sequence + 1 < u64Bound)
    (hvalid : validateEvent ledger (routeEvent ledger start input intent (start.sequence + 1))
      = .ok ()) :
    ∃ r', Reduction.step ledger protectedTiers r
        (routeEvent ledger start input intent (start.sequence + 1)) = .ok r'
      ∧ r'.pendingGuardActivation
        = (if Reduction.triggers (intent.clauses.map (·.record)) then start.requestId else none)
      ∧ ∀ requestId, start.requestId = some requestId →
        r'.guardedRouteDigests[requestId]?
          = some (intent.policyDigest, intent.trajectorySnapshotDigest) := by
  obtain ⟨requestId, hid, hstarted⟩ := ho.started
  have hstreakRoom : r.sameProjectionStreak + 1 < u64Bound := by
    have := ho.bounded.streak
    have := ho.index
    omega
  have htierRoom : r.sameSelectedTierStreak + 1 < u64Bound := by
    have := ho.bounded.tierStreak
    have := ho.index
    omega
  have hindexRoom : r.index + 1 < u64Bound := by rw [ho.index]; exact hroom
  obtain ⟨streak, hstreak⟩ := updateStreak_total r.previousProjection
    (some input.projection.key) "same projection streak" hstreakRoom
  obtain ⟨tierStreak, htierStreak⟩ := updateStreak_total r.previousSelectedTier
    intent.selectedTier "same selected tier streak" htierRoom
  obtain ⟨unprotected, hunprotected⟩ := ho.bounded.unprotectedAfter_total hindexRoom
    intent.selectedTier (intent.selectedTier.any (· ∈ input.policy.protectedTiers))
  obtain ⟨⟨recoveryCount, since⟩, hrecovery⟩ := ho.bounded.recoveryAfter_total hindexRoom
    (some input.projection.stateKind)
  have hadmits : Admits ledger r (routeEvent ledger start input intent (start.sequence + 1))
      r.lastTimestamp :=
    { valid := hvalid
      room := hindexRoom
      sequence := by rw [ho.index]; rfl
      owner := ho.owner
      episode := ho.episode
      unclosed := ho.unclosed
      instant := ho.instant
      order := ho.timestamp.le
      answers := fun _ h => absurd h (by simp [hpending]) }
  have hstate : Reduction.parseRouteWorkflowState (some input.projection.stateKind.name)
      = .ok (some input.projection.stateKind) := by
    unfold Reduction.parseRouteWorkflowState
    dsimp only
    rw [RouteProjection.parseKey_state]
    rfl
  have hparsed : Reduction.parseRouteProjection (some input.projection.key)
      = .ok (some input.projection) := by
    unfold Reduction.parseRouteProjection
    dsimp only
    rw [hprojection]
    rfl
  have hintent := @guardedIntent_routeEvent M ledger r start input intent pre hpre hids hdigest
    r.lastTimestamp requestId
  have hprojected :
    (routeEvent ledger start input intent (start.sequence + 1)).evidence.categorical[
      "route.projection"]? = some input.projection.key := projection_routeEvidence hids
  have hworkflow : (routeEvent ledger start input intent (start.sequence + 1)).evidence.categorical[
      "route.workflow_state"]? = some input.projection.stateKind.name :=
    workflowState_routeEvidence hids
  have hselected : (routeEvent ledger start input intent (start.sequence + 1)).evidence.categorical[
      "route.selected_tier"]? = intent.selectedTier := selectedTier_routeEvidence hids
  have hmark : ((r.admitted r.lastTimestamp).judged requestId intent).markRouted requestId
      = .ok { (r.admitted r.lastTimestamp).judged requestId intent with
        requests := r.requests.insert requestId .routed } := by
    unfold Reduction.markRouted
    have hrequest : ((r.admitted r.lastTimestamp).judged requestId intent).requests[requestId]?
        = some .started := hstarted
    rw [hrequest]
    rfl
  refine ⟨_, step_eq_ok.mpr ⟨_, hadmits, bind_eq_ok.mpr ⟨requestId, orFail_eq_ok.mpr hid,
    bind_eq_ok.mpr ⟨_, hintent, bind_eq_ok.mpr ⟨_, hmark, bind_eq_ok.mpr
    ⟨some input.projection, by rw [hprojected]; exact hparsed, bind_eq_ok.mpr
    ⟨some input.projection.stateKind, by rw [hworkflow]; exact hstate, bind_eq_ok.mpr
    ⟨(), ensure_eq_ok.mpr ?_, bind_eq_ok.mpr
    ⟨streak, by rw [hprojected]; exact hstreak, bind_eq_ok.mpr
    ⟨tierStreak, by rw [hselected]; exact htierStreak, bind_eq_ok.mpr
    ⟨_, selectedIsProtected_routeEvent _, bind_eq_ok.mpr
    ⟨unprotected, by rw [hselected]; exact hunprotected, bind_eq_ok.mpr
    ⟨(recoveryCount, since), hrecovery, rfl⟩⟩⟩⟩⟩⟩⟩⟩⟩⟩⟩⟩, ?_, ?_⟩
  · rintro projection hprojection state hstate
    obtain rfl := Option.mem_some.mp hprojection
    exact Option.mem_some.mp hstate
  · show (if _ then some requestId else r.pendingGuardActivation) = _
    rw [hid, hpending]
  · intro requestId' hid'
    obtain rfl := Option.some.inj (hid.symm.trans hid')
    show (r.guardedRouteDigests.insert requestId _)[requestId]? = _
    rw [StrMap.getElem?_insert, if_pos rfl]

/-- What an accepted route intent of the writer leaves of the state it met. -/
structure Followed (start : TrajectoryEvent M) (r r' : Reduction) : Prop where
  routed : ∀ requestId, start.requestId = some requestId →
    r'.requests[requestId]? = some .routed
  unclosed : r'.closed = false
  index : r'.index = start.sequence + 1
  owner : r'.ownerUserId = r.ownerUserId
  episode : r'.episodeId = r.episodeId
  previous : r'.previousTimestamp = r.lastTimestamp
  last : r'.lastTimestamp = r.lastTimestamp
  first : r'.firstTimestamp = r.firstTimestamp
  requestCount : r'.requestCount = r.requestCount
  settledRequestCount : r'.settledRequestCount = r.settledRequestCount
  firstBytes : r'.firstCanonicalBytes = r.firstCanonicalBytes
  latestBytes : r'.latestCanonicalBytes = r.latestCanonicalBytes

theorem Opened.followed (ho : Opened ledger start r) {routeSequence : ℕ}
    (h : Reduction.step ledger protectedTiers r
      (routeEvent ledger start input intent routeSequence) = .ok r') : Followed start r r' := by
  obtain ⟨capturedAt, hadmits, hreact⟩ := step_eq_ok.mp h
  have hrouted := Reduction.routeIntentRecorded_eq_ok hreact
  obtain rfl : capturedAt = r.lastTimestamp :=
    Option.some.inj (hadmits.instant.symm.trans ho.instant)
  have hrest := hrouted.rest
  exact
    { routed := by
        obtain ⟨requestId, hid, -, hrequests⟩ := hrouted.started
        intro requestId' hid'
        obtain rfl := Option.some.inj (hid.symm.trans hid')
        rw [hrequests, StrMap.getElem?_insert, if_pos rfl]
      unclosed := by rw [hrest]; exact ho.unclosed
      index := by rw [hrest, ← ho.index]; rfl
      owner := by rw [hrest]; rfl
      episode := by rw [hrest]; rfl
      previous := by rw [hrest]; rfl
      last := by rw [hrest]; rfl
      first := by rw [hrest]; rfl
      requestCount := by rw [hrest]; rfl
      settledRequestCount := by rw [hrest]; rfl
      firstBytes := by rw [hrest]; rfl
      latestBytes := by rw [hrest]; rfl }

theorem holdForRequests_guardEvidence :
    (guardEvidence input intent).structural["guard.hold_for_requests"]?
      = some input.policy.holdForRequests :=
  StrMap.getElem?_ofPairs (by simp) (by simp)

theorem policyLock_guardEvidence :
    (guardEvidence input intent).digests["guard.policy_lock"]? = some intent.policyDigest :=
  StrMap.getElem?_ofPairs (by simp) (by simp)

theorem healthSnapshot_guardEvidence :
    (guardEvidence input intent).digests["guard.health_snapshot"]?
      = some intent.trajectorySnapshotDigest :=
  StrMap.getElem?_ofPairs (by simp) (by simp)

theorem validatePersistedGuardActivation_guardEvent (sequence : ℕ) :
    validatePersistedGuardActivation (guardEvent ledger start input intent sequence)
      = .ok true := by
  have hpolicy : (guardEvidence input intent).digests.contains "guard.policy_lock" = true :=
    contains_of_getElem? policyLock_guardEvidence
  have hhealth : (guardEvidence input intent).digests.contains "guard.health_snapshot" = true :=
    contains_of_getElem? healthSnapshot_guardEvidence
  refine bind_eq_ok.mpr ⟨(), ensure_eq_ok.mpr rfl, bind_eq_ok.mpr ⟨(), ensure_eq_ok.mpr ?_, ?_⟩⟩
  · show (guardEvidence input intent).digests.contains "guard.policy_lock"
      = (guardEvidence input intent).digests.contains "guard.health_snapshot"
    rw [hpolicy, hhealth]
  · show Except.ok ((guardEvidence input intent).digests.contains "guard.policy_lock") = _
    rw [hpolicy]

/-- **The activation is accepted right after its trigger.** -/
theorem guardEvent_accepted (protectedTiers : Finset String) (ho : Opened ledger start r)
    (hf : Followed start r r') (hpending : r'.pendingGuardActivation = start.requestId)
    (hdigests : ∀ requestId, start.requestId = some requestId →
      r'.guardedRouteDigests[requestId]?
        = some (intent.policyDigest, intent.trajectorySnapshotDigest))
    (hhold : input.policy.holdForRequests ≠ 0 ∧ input.policy.holdForRequests ≤ maxHoldRequests)
    (hroom : start.sequence + 1 + 1 < u64Bound)
    (hvalid : validateEvent ledger (guardEvent ledger start input intent (start.sequence + 1 + 1))
      = .ok ()) :
    ∃ r'', Reduction.step ledger protectedTiers r'
        (guardEvent ledger start input intent (start.sequence + 1 + 1)) = .ok r''
      ∧ r''.pendingGuardActivation = none ∧ r''.lastTimestamp = r'.lastTimestamp
      ∧ r''.firstTimestamp = r'.firstTimestamp ∧ r''.requestCount = r'.requestCount
      ∧ r''.settledRequestCount = r'.settledRequestCount
      ∧ r''.firstCanonicalBytes = r'.firstCanonicalBytes
      ∧ r''.latestCanonicalBytes = r'.latestCanonicalBytes := by
  obtain ⟨requestId, hid, -⟩ := ho.started
  have hadmits : Admits ledger r' (guardEvent ledger start input intent (start.sequence + 1 + 1))
      r'.lastTimestamp :=
    { valid := hvalid
      room := by rw [hf.index]; exact hroom
      sequence := by rw [hf.index]; rfl
      owner := ho.owner.trans hf.owner.symm
      episode := ho.episode.trans hf.episode.symm
      unclosed := hf.unclosed
      instant := ho.instant.trans (congrArg some hf.last.symm)
      order := (hf.previous.trans hf.last.symm).le
      answers := fun answered hanswered => ⟨rfl, hpending.symm.trans hanswered⟩ }
  have hanswer : (r'.admitted r'.lastTimestamp).answerTrigger
      (guardEvent ledger start input intent (start.sequence + 1 + 1)) requestId true
      = .ok { r'.admitted r'.lastTimestamp with pendingGuardActivation := none } := by
    show (ensure _ _ >>= fun _ => _) = _
    exact bind_eq_ok.mpr ⟨(), ensure_eq_ok.mpr (hpending.trans hid), bind_eq_ok.mpr
      ⟨_, orFail_eq_ok.mpr (hdigests requestId hid), bind_eq_ok.mpr
      ⟨_, orFail_eq_ok.mpr policyLock_guardEvidence, bind_eq_ok.mpr
      ⟨_, orFail_eq_ok.mpr healthSnapshot_guardEvidence, bind_eq_ok.mpr
      ⟨(), ensure_eq_ok.mpr rfl, rfl⟩⟩⟩⟩⟩
  have hmark : Reduction.markGuarded
      { r'.admitted r'.lastTimestamp with pendingGuardActivation := none } requestId
      = .ok { r'.admitted r'.lastTimestamp with
        pendingGuardActivation := none
        requests := r'.requests.insert requestId .routedGuarded } := by
    unfold Reduction.markGuarded
    have hrequest : { r'.admitted r'.lastTimestamp with
        pendingGuardActivation := none }.requests[requestId]? = some .routed :=
      hf.routed requestId hid
    rw [hrequest]
    rfl
  exact ⟨_, step_eq_ok.mpr ⟨_, hadmits, bind_eq_ok.mpr ⟨requestId, orFail_eq_ok.mpr hid,
    bind_eq_ok.mpr ⟨true, validatePersistedGuardActivation_guardEvent _, bind_eq_ok.mpr
    ⟨_, hanswer, bind_eq_ok.mpr ⟨_, hmark, bind_eq_ok.mpr
    ⟨_, orFail_eq_ok.mpr holdForRequests_guardEvidence, bind_eq_ok.mpr
    ⟨(), ensure_eq_ok.mpr hhold, rfl⟩⟩⟩⟩⟩⟩⟩, rfl, rfl, rfl, rfl, rfl, rfl, rfl⟩

end Accepted

/-! ## What a batch is -/

section Batch

variable {completeness : HistoryCompleteness} {input : GuardedRouteInput M}
  {batch : GuardedRouteBatch M}

/-- The judgement a batch is built on. -/
def guardInput (prior : Option TrajectorySnapshot) (preIntent : TrajectorySnapshot)
    (completeness : HistoryCompleteness) (input : GuardedRouteInput M) : ProgressGuardInput where
  priorSnapshot := prior
  preIntentSnapshot := preIntent
  correlationCompleteness := completeness
  currentProjection := input.projection
  candidateTier := input.candidateTier
  policyDigest := input.policyDigest

/-- **What a successful build was made of.** -/
structure Built (ledger : Ledger M) (history : List (TrajectoryEvent M))
    (start : TrajectoryEvent M) (completeness : HistoryCompleteness)
    (input : GuardedRouteInput M) (batch : GuardedRouteBatch M) where
  prior : Option TrajectorySnapshot
  preIntent : TrajectorySnapshot
  evaluation : GuardEvaluation
  intent : RouteIntent
  prior_ok : priorSnapshot ledger history input.policy.protectedTiers = .ok prior
  preIntent_ok : reduce ledger (history ++ [start]) input.policy.protectedTiers = .ok preIntent
  judgement : Judgement input.policy (guardInput prior preIntent completeness input) evaluation
  floored : applyToolFloor input evaluation.intent = .ok intent
  room : start.sequence + 1 < u64Bound
  routeEvent_eq : batch.routeEvent = routeEvent ledger start input intent (start.sequence + 1)
  guardEvent_eq : batch.guardEvent = if evaluation.activated then
      some (guardEvent ledger start input intent (start.sequence + 1 + 1)) else none
  guardRoom : evaluation.activated = true → start.sequence + 1 + 1 < u64Bound
  result_eq : batch.result = {
    snapshot := preIntent
    intent := intent
    guardActivated := evaluation.activated
    toolFloorApplied := toolFloorApplies input evaluation.intent.selectedTier
    routeSequence := start.sequence + 1
    causalCompleteness := evaluation.causalCompleteness }

theorem buildGuardedRouteBatch_built
    (h : buildGuardedRouteBatch ledger history start completeness input = .ok batch) :
    Nonempty (Built ledger history start completeness input batch) := by
  obtain ⟨prior, hprior, h⟩ := bind_eq_ok.mp h
  obtain ⟨preIntent, hpreIntent, h⟩ := bind_eq_ok.mp h
  obtain ⟨evaluation, hevaluation, h⟩ := bind_eq_ok.mp h
  obtain ⟨intent, hintent, h⟩ := bind_eq_ok.mp h
  obtain ⟨sequence, hsequence, h⟩ := bind_eq_ok.mp h
  obtain ⟨hroom, rfl⟩ := checkedAdd_eq_ok.mp hsequence
  have hguard : ∃ guard, batch = {
        routeEvent := routeEvent ledger start input intent (start.sequence + 1)
        guardEvent := guard
        result := {
          snapshot := preIntent
          intent := intent
          guardActivated := evaluation.activated
          toolFloorApplied := toolFloorApplies input evaluation.intent.selectedTier
          routeSequence := start.sequence + 1
          causalCompleteness := evaluation.causalCompleteness } }
      ∧ guard = (if evaluation.activated then
        some (guardEvent ledger start input intent (start.sequence + 1 + 1)) else none)
      ∧ (evaluation.activated = true → start.sequence + 1 + 1 < u64Bound) := by
    cases hactivated : evaluation.activated with
    | true =>
      rw [hactivated] at h
      obtain ⟨guard, hguard, h⟩ := bind_eq_ok.mp h
      obtain ⟨sequence, hsequence, rfl⟩ := map_eq_ok.mp hguard
      obtain ⟨hguardRoom, rfl⟩ := checkedAdd_eq_ok.mp hsequence
      exact ⟨_, (pure_eq_ok.mp h).symm, rfl, fun _ => hguardRoom⟩
    | false =>
      rw [hactivated] at h
      obtain ⟨guard, hguard, h⟩ := bind_eq_ok.mp h
      obtain rfl := Except.ok.inj hguard
      exact ⟨_, (pure_eq_ok.mp h).symm, rfl, fun hfalse => absurd hfalse (by simp)⟩
  obtain ⟨guard, rfl, hguardEvent, hguardRoom⟩ := hguard
  exact ⟨{
    prior := prior
    preIntent := preIntent
    evaluation := evaluation
    intent := intent
    prior_ok := hprior
    preIntent_ok := hpreIntent
    judgement := evaluate_judgement hevaluation
    floored := hintent
    room := hroom
    routeEvent_eq := rfl
    guardEvent_eq := hguardEvent
    guardRoom := hguardRoom
    result_eq := rfl }⟩

namespace Built

section

variable (b : Built ledger history start completeness input batch)

include b

theorem clauseIds :
    b.intent.clauses.map (·.clauseId) = stableClauseIds := by
  obtain ⟨-, heq⟩ := applyToolFloor_eq b.floored
  rw [heq, List.map_append, b.judgement.clauseIds]
  rfl

theorem triggers :
    Reduction.triggers (b.intent.clauses.map (·.record)) = b.evaluation.activated := by
  obtain ⟨-, heq⟩ := applyToolFloor_eq b.floored
  rw [heq, List.map_append, List.map_singleton, triggers_append_toolFloor, b.judgement.triggers_eq]

theorem digest :
    b.intent.trajectorySnapshotDigest = b.preIntent.evidenceDigest := by
  obtain ⟨-, heq⟩ := applyToolFloor_eq b.floored
  rw [heq]
  exact b.judgement.digest

theorem hold :
    input.policy.holdForRequests ≠ 0 ∧ input.policy.holdForRequests ≤ maxHoldRequests := by
  obtain ⟨_, -, h⟩ := bind_eq_ok.mp b.judgement.shape
  obtain ⟨_, -, h⟩ := bind_eq_ok.mp h
  obtain ⟨_, h, -⟩ := bind_eq_ok.mp h
  exact ensure_eq_ok.mp h

theorem opened (hkind : start.kind = .requestStarted) :
    ∃ r, reduction ledger (history ++ [start]) input.policy.protectedTiers = .ok r
      ∧ Opened ledger start r ∧ r.pendingGuardActivation = none
      ∧ snapshotFromFacts ledger (r.facts start.sequence r.lastTimestamp) = .ok b.preIntent := by
  obtain ⟨r, last, hr, hpending, hlast, hsnapshot⟩ := reduce_eq_ok.mp b.preIntent_ok
  rw [List.getLast?_append_of_ne_nil _ (List.cons_ne_nil _ _)] at hlast
  obtain rfl := Option.some.inj hlast
  exact ⟨r, hr, Trajectory.opened hr hkind, hpending, hsnapshot⟩

end

end Built

end Batch

end BitRouter.Trajectory
