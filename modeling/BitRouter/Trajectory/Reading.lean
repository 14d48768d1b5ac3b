import BitRouter.Trajectory.Judgement

/-!
# What the reducer does, event by event

One lemma for each kind of event says what an accepted event demanded and what
it left behind; a history reads as the history before it and then its last
events; and the counters never pass the number of events read, so that none of
them overflows before the sequence does.
-/

namespace BitRouter.Trajectory

variable {M : Type} {ledger : Ledger M} {protectedTiers : Finset String}
  {r r' : Reduction} {event : TrajectoryEvent M} {events events' : List (TrajectoryEvent M)}

/-! ## Admission -/

/-- **What every event is held to.** -/
structure Admits (ledger : Ledger M) (r : Reduction) (event : TrajectoryEvent M)
    (capturedAt : ℤ) : Prop where
  valid : validateEvent ledger event = .ok ()
  room : r.index + 1 < u64Bound
  sequence : event.sequence = r.index + 1
  owner : event.ownerUserId = r.ownerUserId
  episode : event.episodeId = r.episodeId
  unclosed : r.closed = false
  instant : ledger.parseFromRfc3339 event.capturedAt = some capturedAt
  order : r.previousTimestamp ≤ capturedAt
  answers : ∀ requestId ∈ r.pendingGuardActivation,
    event.kind = .guardActivated ∧ event.requestId = some requestId

theorem admit_eq_ok {capturedAt : ℤ} :
    r.accept ledger event = .ok capturedAt ↔ Admits ledger r event capturedAt := by
  constructor
  · intro h
    obtain ⟨_, hvalid, h⟩ := bind_eq_ok.mp h
    obtain ⟨expected, hexpected, h⟩ := bind_eq_ok.mp h
    obtain ⟨_, hsequence, h⟩ := bind_eq_ok.mp h
    obtain ⟨_, howner, h⟩ := bind_eq_ok.mp h
    obtain ⟨_, hclosed, h⟩ := bind_eq_ok.mp h
    obtain ⟨instant, hinstant, h⟩ := bind_eq_ok.mp h
    obtain ⟨_, horder, h⟩ := bind_eq_ok.mp h
    obtain ⟨_, hanswers, h⟩ := bind_eq_ok.mp h
    obtain rfl := pure_eq_ok.mp h
    obtain ⟨hroom, rfl⟩ := checkedAdd_eq_ok.mp hexpected
    obtain ⟨howner, hepisode⟩ := ensure_eq_ok.mp howner
    exact
      { valid := hvalid
        room := hroom
        sequence := ensure_eq_ok.mp hsequence
        owner := howner
        episode := hepisode
        unclosed := ensure_eq_ok.mp hclosed
        instant := orFail_eq_ok.mp hinstant
        order := ensure_eq_ok.mp horder
        answers := ensure_eq_ok.mp hanswers }
  · intro h
    refine bind_eq_ok.mpr ⟨_, h.valid, bind_eq_ok.mpr
      ⟨_, checkedAdd_eq_ok.mpr ⟨h.room, rfl⟩, bind_eq_ok.mpr
      ⟨(), ensure_eq_ok.mpr h.sequence, bind_eq_ok.mpr
      ⟨(), ensure_eq_ok.mpr ⟨h.owner, h.episode⟩, bind_eq_ok.mpr
      ⟨(), ensure_eq_ok.mpr h.unclosed, bind_eq_ok.mpr
      ⟨_, orFail_eq_ok.mpr h.instant, bind_eq_ok.mpr
      ⟨(), ensure_eq_ok.mpr h.order, bind_eq_ok.mpr
      ⟨(), ensure_eq_ok.mpr h.answers, rfl⟩⟩⟩⟩⟩⟩⟩⟩

/-- One kind of event, once admitted. -/
def Reduction.react (ledger : Ledger M) (protectedTiers : Finset String) (r : Reduction)
    (prefixTimestamp : ℤ) (event : TrajectoryEvent M) : Except String Reduction :=
  match event.kind with
  | .requestStarted => r.requestStarted event
  | .routeIntentRecorded => r.routeIntentRecorded ledger protectedTiers prefixTimestamp event
  | .requestSettled => r.requestSettled event
  | .guardActivated => r.guardActivated event
  | .episodeClosed => r.episodeClosed event

theorem step_eq_ok : Reduction.step ledger protectedTiers r event = .ok r' ↔
    ∃ capturedAt, Admits ledger r event capturedAt
      ∧ (r.admitted capturedAt).react ledger protectedTiers r.lastTimestamp event = .ok r' := by
  unfold Reduction.step
  rw [bind_eq_ok]
  exact exists_congr fun capturedAt => and_congr_left' admit_eq_ok

/-! ## Whole histories -/

theorem begun_append (hne : events ≠ []) : begun ledger (events ++ events')
    = begun ledger events := by
  obtain ⟨first, rest, rfl⟩ := List.exists_cons_of_ne_nil hne
  rfl

/-- **A history reads as its beginning and then the rest.** -/
theorem reduction_append (hne : events ≠ []) : reduction ledger (events ++ events') protectedTiers
    = reduction ledger events protectedTiers >>= fun r =>
      events'.foldlM (Reduction.step ledger protectedTiers) r := by
  unfold reduction
  rw [begun_append hne]
  cases begun ledger events with
  | error e => rfl
  | ok r =>
    show List.foldlM _ r (events ++ events') = List.foldlM _ r events >>= _
    rw [List.foldlM_append]

/-- **An accepted history** is one whose events are all accepted, with no
activation outstanding and a snapshot at its end. -/
theorem reduce_eq_ok {snapshot : TrajectorySnapshot} :
    reduce ledger events protectedTiers = .ok snapshot ↔
      ∃ r last, reduction ledger events protectedTiers = .ok r
        ∧ r.pendingGuardActivation = none ∧ events.getLast? = some last
        ∧ snapshotFromFacts ledger (r.facts last.sequence r.lastTimestamp) = .ok snapshot := by
  constructor
  · intro h
    obtain ⟨reduced, hreduced, h⟩ := bind_eq_ok.mp h
    obtain ⟨r, hr, hreduced⟩ := bind_eq_ok.mp hreduced
    cases hpending : r.pendingGuardActivation with
    | some requestId =>
      rw [if_pos (by simp [hpending])] at hreduced
      obtain rfl := pure_eq_ok.mp hreduced
      exact absurd h (by simp)
    | none =>
      rw [if_neg (by simp [hpending])] at hreduced
      obtain ⟨last, hlast, hreduced⟩ := bind_eq_ok.mp hreduced
      obtain ⟨snapshot', hsnapshot, hreduced⟩ := bind_eq_ok.mp hreduced
      obtain rfl := pure_eq_ok.mp hreduced
      obtain rfl := Except.ok.inj h
      exact ⟨r, last, hr, hpending, orFail_eq_ok.mp hlast, hsnapshot⟩
  · rintro ⟨r, last, hr, hpending, hlast, hsnapshot⟩
    refine bind_eq_ok.mpr ⟨.complete snapshot, bind_eq_ok.mpr ⟨r, hr, ?_⟩, rfl⟩
    rw [if_neg (by simp [hpending])]
    exact bind_eq_ok.mpr ⟨last, orFail_eq_ok.mpr hlast, bind_eq_ok.mpr ⟨snapshot, hsnapshot, rfl⟩⟩

/-- A history waits for an activation exactly when its last trigger is open. -/
theorem reducePrefix_awaiting :
    reducePrefix ledger events protectedTiers = .ok .awaitingGuardActivation ↔
      ∃ r requestId, reduction ledger events protectedTiers = .ok r
        ∧ r.pendingGuardActivation = some requestId := by
  unfold reducePrefix
  rw [bind_eq_ok]
  constructor
  · rintro ⟨r, hr, h⟩
    cases hpending : r.pendingGuardActivation with
    | some requestId => exact ⟨r, requestId, hr, hpending⟩
    | none =>
      rw [if_neg (by simp [hpending])] at h
      obtain ⟨last, -, h⟩ := bind_eq_ok.mp h
      obtain ⟨snapshot, -, h⟩ := bind_eq_ok.mp h
      exact absurd (pure_eq_ok.mp h) (by simp)
  · rintro ⟨r, requestId, hr, hpending⟩
    refine ⟨r, hr, ?_⟩
    rw [if_pos (by simp [hpending])]
    rfl

/-! ## The kinds of events -/

namespace Reduction

/-- **A start** opens a request the history does not know, and takes one
request off the hold. -/
theorem requestStarted_eq_ok (h : r.requestStarted event = .ok r') :
    ∃ requestId history source, event.requestId = some requestId
      ∧ r.requests[requestId]? = none ∧ r.requestCount + 1 < u64Bound
      ∧ r' = { r with
        activeHoldRemaining := r.activeHoldRemaining - 1
        firstCanonicalBytes := if r.requestCount = 0 then
          event.evidence.structural["request.canonical_input_bytes"]? else r.firstCanonicalBytes
        latestCanonicalBytes := event.evidence.structural["request.canonical_input_bytes"]?
        requestCount := r.requestCount + 1
        completeness := mergeCompleteness (mergeCompleteness r.completeness history) source
        requests := r.requests.insert requestId .started } := by
  obtain ⟨requestId, hid, h⟩ := bind_eq_ok.mp h
  obtain ⟨_, hfresh, h⟩ := bind_eq_ok.mp h
  obtain ⟨count, hcount, h⟩ := bind_eq_ok.mp h
  obtain ⟨history, -, h⟩ := bind_eq_ok.mp h
  obtain ⟨source, -, h⟩ := bind_eq_ok.mp h
  obtain rfl := pure_eq_ok.mp h
  obtain ⟨hroom, rfl⟩ := checkedAdd_eq_ok.mp hcount
  have hnone : r.requests[requestId]? = none :=
    Std.ExtTreeMap.getElem?_eq_none_of_contains_eq_false (ensure_eq_ok.mp hfresh)
  exact ⟨requestId, history, source, orFail_eq_ok.mp hid, hnone, hroom, rfl⟩

/-- **A settlement** closes a request that was routed. -/
theorem requestSettled_eq_ok (h : r.requestSettled event = .ok r') :
    ∃ requestId phase totalTokens cost, event.requestId = some requestId
      ∧ r.requests[requestId]? = some phase ∧ phase ≠ .started ∧ phase ≠ .settled
      ∧ r' = { r with
        requests := r.requests.insert requestId .settled
        totalTokens := totalTokens
        settledCostMicroUsd := cost
        settledRequestCount := r.settledRequestCount + 1 } := by
  obtain ⟨requestId, hid, h⟩ := bind_eq_ok.mp h
  obtain ⟨r₁, hmark, h⟩ := bind_eq_ok.mp h
  obtain ⟨totalTokens, -, h⟩ := bind_eq_ok.mp h
  obtain ⟨cost, -, h⟩ := bind_eq_ok.mp h
  obtain ⟨count, hcount, h⟩ := bind_eq_ok.mp h
  obtain rfl := pure_eq_ok.mp h
  obtain ⟨-, rfl⟩ := checkedAdd_eq_ok.mp hcount
  unfold markSettled at hmark
  split at hmark
  · exact absurd hmark (by simp)
  · exact absurd hmark (by simp)
  · exact absurd hmark (by simp)
  · next phase hstarted hsettled hphase =>
    obtain rfl := Except.ok.inj hmark
    exact ⟨requestId, phase, totalTokens, cost, orFail_eq_ok.mp hid, hphase, hstarted, hsettled,
      rfl⟩

/-- **A guard activation** sets the hold, and nothing else a judgement reads. -/
theorem guardActivated_eq_ok (h : r.guardActivated event = .ok r') :
    ∃ requestId pending hold, event.requestId = some requestId
      ∧ r.requests[requestId]? = some .routed
      ∧ event.evidence.structural["guard.hold_for_requests"]? = some hold
      ∧ r' = { r with
        pendingGuardActivation := pending
        requests := r.requests.insert requestId .routedGuarded
        activeHoldRemaining := hold } := by
  obtain ⟨requestId, hid, h⟩ := bind_eq_ok.mp h
  obtain ⟨typed, -, h⟩ := bind_eq_ok.mp h
  obtain ⟨r₁, hanswer, h⟩ := bind_eq_ok.mp h
  obtain ⟨r₂, hmark, h⟩ := bind_eq_ok.mp h
  obtain ⟨hold, hhold, h⟩ := bind_eq_ok.mp h
  obtain ⟨_, -, h⟩ := bind_eq_ok.mp h
  obtain rfl := pure_eq_ok.mp h
  obtain ⟨pending, rfl⟩ : ∃ pending, r₁ = { r with pendingGuardActivation := pending } := by
    unfold answerTrigger at hanswer
    split at hanswer
    · obtain ⟨_, -, hanswer⟩ := bind_eq_ok.mp hanswer
      obtain ⟨_, -, hanswer⟩ := bind_eq_ok.mp hanswer
      obtain ⟨_, -, hanswer⟩ := bind_eq_ok.mp hanswer
      obtain ⟨_, -, hanswer⟩ := bind_eq_ok.mp hanswer
      obtain ⟨_, -, hanswer⟩ := bind_eq_ok.mp hanswer
      exact ⟨none, (pure_eq_ok.mp hanswer).symm⟩
    · obtain ⟨_, -, hanswer⟩ := bind_eq_ok.mp hanswer
      exact ⟨r.pendingGuardActivation, (pure_eq_ok.mp hanswer).symm⟩
  unfold markGuarded at hmark
  split at hmark
  · exact absurd hmark (by simp)
  · exact absurd hmark (by simp)
  · next hphase =>
    obtain rfl := Except.ok.inj hmark
    exact ⟨requestId, pending, hold, orFail_eq_ok.mp hid, hphase, orFail_eq_ok.mp hhold, rfl⟩
  · exact absurd hmark (by simp)
  · exact absurd hmark (by simp)

theorem episodeClosed_eq_ok (h : r.episodeClosed event = .ok r') :
    r' = { r with closed := true } := by
  obtain ⟨_, -, h⟩ := bind_eq_ok.mp h
  exact (pure_eq_ok.mp h).symm

theorem guardedIntent_eq_ok {prefixTimestamp : ℤ} {requestId : String}
    (h : r.guardedIntent ledger prefixTimestamp event requestId = .ok r') :
    ∃ digests, r' = { r with
      guardedRouteDigests := digests
      pendingGuardActivation := r'.pendingGuardActivation } := by
  obtain ⟨judged, -, h⟩ := bind_eq_ok.mp h
  cases judged with
  | none =>
    obtain rfl := Except.ok.inj h
    exact ⟨_, rfl⟩
  | some clauses =>
    obtain ⟨_, -, h⟩ := bind_eq_ok.mp h
    obtain ⟨_, -, h⟩ := bind_eq_ok.mp h
    obtain ⟨_, -, h⟩ := bind_eq_ok.mp h
    obtain ⟨_, -, h⟩ := bind_eq_ok.mp h
    obtain ⟨_, -, h⟩ := bind_eq_ok.mp h
    obtain rfl := pure_eq_ok.mp h
    exact ⟨_, rfl⟩

/-- **What an accepted route intent leaves behind.** -/
structure Routed (protectedTiers : Finset String) (r : Reduction) (event : TrajectoryEvent M)
    (r' : Reduction) : Prop where
  started : ∃ requestId, event.requestId = some requestId
    ∧ r.requests[requestId]? = some .started ∧ r'.requests = r.requests.insert requestId .routed
  projection : r'.previousProjection = event.evidence.categorical["route.projection"]?
  streak : updateStreak r.previousProjection event.evidence.categorical["route.projection"]?
    r.sameProjectionStreak "same projection streak" = .ok r'.sameProjectionStreak
  tierStreak : updateStreak r.previousSelectedTier
    event.evidence.categorical["route.selected_tier"]?
    r.sameSelectedTierStreak "same selected tier streak" = .ok r'.sameSelectedTierStreak
  unprotected : ∃ isProtected, selectedIsProtected protectedTiers event = .ok isProtected
    ∧ r.unprotectedAfter event.evidence.categorical["route.selected_tier"]? isProtected
      = .ok r'.consecutiveUnprotectedRequests
  recovery : ∃ workflowState,
    r.recoveryAfter workflowState = .ok (r'.recoveryCount, r'.requestsSinceRecovery)
  rest : r' = { r with
    requests := r'.requests
    guardedRouteDigests := r'.guardedRouteDigests
    pendingGuardActivation := r'.pendingGuardActivation
    completeness := r'.completeness
    sameProjectionStreak := r'.sameProjectionStreak
    sameSelectedTierStreak := r'.sameSelectedTierStreak
    consecutiveUnprotectedRequests := r'.consecutiveUnprotectedRequests
    recoveryCount := r'.recoveryCount
    requestsSinceRecovery := r'.requestsSinceRecovery
    previousProjection := r'.previousProjection
    previousSelectedTier := r'.previousSelectedTier }

theorem routeIntentRecorded_eq_ok {prefixTimestamp : ℤ}
    (h : r.routeIntentRecorded ledger protectedTiers prefixTimestamp event = .ok r') :
    Routed protectedTiers r event r' := by
  obtain ⟨requestId, hid, h⟩ := bind_eq_ok.mp h
  obtain ⟨r₁, hintent, h⟩ := bind_eq_ok.mp h
  obtain ⟨r₂, hmark, h⟩ := bind_eq_ok.mp h
  obtain ⟨parsedProjection, -, h⟩ := bind_eq_ok.mp h
  obtain ⟨workflowState, -, h⟩ := bind_eq_ok.mp h
  obtain ⟨_, -, h⟩ := bind_eq_ok.mp h
  obtain ⟨streak, hstreak, h⟩ := bind_eq_ok.mp h
  obtain ⟨tierStreak, htierStreak, h⟩ := bind_eq_ok.mp h
  obtain ⟨isProtected, hprotected, h⟩ := bind_eq_ok.mp h
  obtain ⟨unprotected, hunprotected, h⟩ := bind_eq_ok.mp h
  obtain ⟨⟨recoveryCount, since⟩, hrecovery, h⟩ := bind_eq_ok.mp h
  obtain rfl := pure_eq_ok.mp h
  obtain ⟨digests, hr₁⟩ := guardedIntent_eq_ok hintent
  have hmarked : r₁.requests[requestId]? = some .started
      ∧ r₂ = { r₁ with requests := r₁.requests.insert requestId .routed } := by
    unfold markRouted at hmark
    split at hmark
    · exact absurd hmark (by simp)
    · next hphase => exact ⟨hphase, (Except.ok.inj hmark).symm⟩
    · exact absurd hmark (by simp)
    · exact absurd hmark (by simp)
  obtain ⟨hphase, rfl⟩ := hmarked
  rw [hr₁] at hphase hstreak htierStreak hunprotected hrecovery
  rw [hr₁]
  exact
    { started := ⟨requestId, orFail_eq_ok.mp hid, hphase, rfl⟩
      projection := rfl
      streak := hstreak
      tierStreak := htierStreak
      unprotected := ⟨isProtected, hprotected, hunprotected⟩
      recovery := ⟨workflowState, hrecovery⟩
      rest := rfl }

end Reduction

end BitRouter.Trajectory
