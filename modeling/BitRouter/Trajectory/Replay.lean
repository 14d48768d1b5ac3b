import BitRouter.Trajectory.Agreement

/-!
# A written history is read back by everyone

A guarded batch is accepted by the reader it was written for, with an
activation exactly where that reader waits for one, and under the digest that
reader derives itself. Since the protection of a selected tier is a fact of its
event, the histories made of such batches, of starts, settlements and a closure
are read alike by every later reader, whatever tiers it protects.

A projection the ledger cannot read back is the one exception: the writer
persists its key unread, and every later reader refuses the history.
-/

namespace BitRouter.Trajectory

section Replayed

variable {M : Type} {ledger : Ledger M} {protectedTiers : Finset String}
  {event start : TrajectoryEvent M} {history : List (TrajectoryEvent M)}
  {completeness : HistoryCompleteness} {input : GuardedRouteInput M} {batch : GuardedRouteBatch M}

namespace Built

section

variable (b : Built ledger history start completeness input batch)
  (hkind : start.kind = .requestStarted)
  (hprojection : RouteProjection.parseKey input.projection.key = some input.projection)

include b hkind hprojection

/-- **The route intent is accepted** right after its start. -/
theorem routed (hvalid : validateEvent ledger batch.routeEvent = .ok ()) :
    ∃ r r', reduction ledger (history ++ [start]) input.policy.protectedTiers = .ok r
      ∧ Opened ledger start r ∧ Followed start r r'
      ∧ snapshotFromFacts ledger (r.facts start.sequence r.lastTimestamp) = .ok b.preIntent
      ∧ Reduction.step ledger input.policy.protectedTiers r batch.routeEvent = .ok r'
      ∧ r'.pendingGuardActivation = (if b.evaluation.activated then start.requestId else none)
      ∧ ∀ requestId, start.requestId = some requestId →
        r'.guardedRouteDigests[requestId]?
          = some (b.intent.policyDigest, b.intent.trajectorySnapshotDigest) := by
  obtain ⟨r, hr, ho, hpending, hpre⟩ := b.opened hkind
  rw [b.routeEvent_eq] at hvalid ⊢
  obtain ⟨r', hstep, hpending', hdigests⟩ := routeEvent_accepted
    input.policy.protectedTiers ho hpending hpre b.clauseIds b.digest hprojection b.room hvalid
  rw [b.triggers] at hpending'
  exact ⟨r, r', hr, ho, ho.followed hstep, hpre, hstep, hpending', hdigests⟩

/-- **The whole batch is accepted**, and what it leaves waits for nothing. -/
theorem accepted (hvalid : ∀ e ∈ batch.events, validateEvent ledger e = .ok ()) :
    ∃ snapshot, reduce ledger (history ++ start :: batch.events) input.policy.protectedTiers
      = .ok snapshot := by
  obtain ⟨r, r', hr, ho, hf, hpre, hstep, hpending, hdigests⟩ :=
    b.routed hkind hprojection (hvalid _ List.mem_cons_self)
  have hsplit : history ++ start :: batch.events
      = (history ++ [start]) ++ batch.events := by simp
  have hread : reduction ledger (history ++ start :: batch.events) input.policy.protectedTiers
      = batch.guardEvent.toList.foldlM (Reduction.step ledger input.policy.protectedTiers) r' := by
    rw [hsplit, reduction_append (by simp), hr]
    show (batch.routeEvent :: batch.guardEvent.toList).foldlM
      (Reduction.step ledger input.policy.protectedTiers) r = _
    rw [List.foldlM_cons, hstep]
    rfl
  cases hactivated : b.evaluation.activated with
  | false =>
    have hguard : batch.guardEvent = none := by rw [b.guardEvent_eq, hactivated]; rfl
    rw [hactivated] at hpending
    obtain ⟨snapshot, hsnapshot⟩ := snapshotFromFacts_of_same
      (r'.facts batch.routeEvent.sequence r'.lastTimestamp) hpre hf.requestCount
      hf.settledRequestCount hf.first hf.last hf.firstBytes hf.latestBytes
    rw [hguard] at hread
    refine ⟨snapshot, reduce_eq_ok.mpr ⟨r', batch.routeEvent, hread, hpending, ?_, hsnapshot⟩⟩
    rw [hsplit, GuardedRouteBatch.events, hguard]
    exact List.getLast?_append_of_ne_nil _ (List.cons_ne_nil _ _)
  | true =>
    have hguard : batch.guardEvent
        = some (guardEvent ledger start input b.intent (start.sequence + 1 + 1)) := by
      rw [b.guardEvent_eq, hactivated]; rfl
    rw [hactivated] at hpending
    have hguardValid := hvalid (guardEvent ledger start input b.intent (start.sequence + 1 + 1))
      (List.mem_cons_of_mem _ (by rw [hguard]; exact List.mem_singleton.mpr rfl))
    obtain ⟨r'', hstep', hnone, hlast, hfirst, hcount, hsettled, hfirstBytes, hlatestBytes⟩ :=
      guardEvent_accepted input.policy.protectedTiers ho hf hpending hdigests
        b.hold (b.guardRoom hactivated) hguardValid
    obtain ⟨snapshot, hsnapshot⟩ := snapshotFromFacts_of_same
      (r''.facts (start.sequence + 1 + 1) r''.lastTimestamp) hpre
      (hcount.trans hf.requestCount) (hsettled.trans hf.settledRequestCount)
      (hfirst.trans hf.first) (hlast.trans hf.last) (hfirstBytes.trans hf.firstBytes)
      (hlatestBytes.trans hf.latestBytes)
    rw [hguard] at hread
    have hread' : reduction ledger (history ++ start :: batch.events) input.policy.protectedTiers
        = .ok r'' := by
      rw [hread]
      show List.foldlM (Reduction.step ledger input.policy.protectedTiers) r' [_] = _
      rw [List.foldlM_cons, hstep']
      rfl
    refine ⟨snapshot, reduce_eq_ok.mpr ⟨r'',
      guardEvent ledger start input b.intent (start.sequence + 1 + 1), hread', hnone, ?_,
      hsnapshot⟩⟩
    rw [hsplit, GuardedRouteBatch.events, hguard]
    exact List.getLast?_append_of_ne_nil _ (List.cons_ne_nil _ _)

/-- **The reader waits for an activation exactly where the batch has one.** -/
theorem awaits (hvalid : ∀ e ∈ batch.events, validateEvent ledger e = .ok ()) :
    batch.guardEvent.isSome = true ↔
      reducePrefix ledger (history ++ [start, batch.routeEvent]) input.policy.protectedTiers
        = .ok .awaitingGuardActivation := by
  obtain ⟨r, r', hr, ho, -, -, hstep, hpending, -⟩ :=
    b.routed hkind hprojection (hvalid _ List.mem_cons_self)
  obtain ⟨requestId, hid, -⟩ := ho.started
  have hread : reduction ledger (history ++ [start, batch.routeEvent]) input.policy.protectedTiers
      = .ok r' := by
    have hsplit : history ++ [start, batch.routeEvent]
        = (history ++ [start]) ++ [batch.routeEvent] := by simp
    rw [hsplit, reduction_append (by simp), hr]
    show List.foldlM (Reduction.step ledger input.policy.protectedTiers) r [batch.routeEvent] = _
    rw [List.foldlM_cons, hstep]
    rfl
  rw [reducePrefix_awaiting, b.guardEvent_eq]
  cases hactivated : b.evaluation.activated with
  | true =>
    rw [hactivated] at hpending
    exact ⟨fun _ => ⟨r', requestId, hread, hpending.trans hid⟩, fun _ => rfl⟩
  | false =>
    rw [hactivated] at hpending
    refine ⟨fun h => absurd h (by simp), ?_⟩
    rintro ⟨r'', requestId', hread', hpending'⟩
    obtain rfl := Except.ok.inj (hread.symm.trans hread')
    exact absurd (hpending.symm.trans hpending') (by simp)

end

end Built

/-! ## Readers with other tiers -/

/-- A route intent says of its selected tier itself whether it is protected. -/
def Typed (event : TrajectoryEvent M) : Prop :=
  event.kind = .routeIntentRecorded →
    event.evidence.structural["route.selected_is_protected"]?.isSome = true

theorem Typed.step_eq (h : Typed event) (P Q : Finset String) (r : Reduction) :
    Reduction.step ledger P r event = Reduction.step ledger Q r event := by
  unfold Reduction.step
  cases hkind : event.kind with
  | routeIntentRecorded =>
    obtain ⟨value, hvalue⟩ := Option.isSome_iff_exists.mp (h hkind)
    have hfact : Reduction.selectedIsProtected P event
        = Reduction.selectedIsProtected Q event := by
      unfold Reduction.selectedIsProtected
      rw [hvalue]
      split <;> simp_all
    dsimp only
    unfold Reduction.routeIntentRecorded
    rw [hfact]
  | _ => rfl

theorem reduce_of_typed (h : ∀ e ∈ history, Typed e) (P Q : Finset String) :
    reduce ledger history P = reduce ledger history Q := by
  have hfold : ∀ events : List (TrajectoryEvent M), (∀ e ∈ events, Typed e) → ∀ r : Reduction,
      events.foldlM (Reduction.step ledger P) r = events.foldlM (Reduction.step ledger Q) r := by
    intro events
    induction events with
    | nil =>
      intro _ r
      rw [List.foldlM_nil, List.foldlM_nil]
    | cons e events ih =>
      intro hall r
      obtain ⟨he, hevents⟩ := List.forall_mem_cons.mp hall
      rw [List.foldlM_cons, List.foldlM_cons, he.step_eq P Q r]
      exact bind_congr (ih hevents)
  have hreduction : reduction ledger history P = reduction ledger history Q := by
    unfold reduction
    exact congrArg _ (funext fun r => hfold history h r)
  unfold reduce reducePrefix
  rw [hreduction]

/-- **The histories this program writes**: starts, guarded batches under any
policies, settlements and a closure. -/
inductive Written (ledger : Ledger M) : List (TrajectoryEvent M) → Prop
  | nil : Written ledger []
  | started {history : List (TrajectoryEvent M)} {event : TrajectoryEvent M} :
    Written ledger history → event.kind = .requestStarted → Written ledger (history ++ [event])
  | batch {history : List (TrajectoryEvent M)} {start : TrajectoryEvent M}
    {completeness : HistoryCompleteness} {input : GuardedRouteInput M}
    {batch : GuardedRouteBatch M} :
    Written ledger history → start.kind = .requestStarted →
    buildGuardedRouteBatch ledger history start completeness input = .ok batch →
    Written ledger (history ++ start :: batch.events)
  | settled {history : List (TrajectoryEvent M)} {event : TrajectoryEvent M} :
    Written ledger history → event.kind = .requestSettled → Written ledger (history ++ [event])
  | closed {history : List (TrajectoryEvent M)} {event : TrajectoryEvent M} :
    Written ledger history → event.kind = .episodeClosed → Written ledger (history ++ [event])

theorem typed_of_kind (h : event.kind ≠ .routeIntentRecorded) : Typed event :=
  fun hkind => absurd hkind h

theorem Built.typed (b : Built ledger history start completeness input batch) :
    ∀ e ∈ batch.events, Typed e := by
  intro e he
  rcases List.mem_cons.mp he with rfl | he
  · intro _
    rw [b.routeEvent_eq]
    exact Option.isSome_iff_exists.mpr ⟨_, isProtected_routeEvidence⟩
  · rw [b.guardEvent_eq] at he
    split at he
    · obtain rfl := List.mem_singleton.mp he
      exact typed_of_kind (by simp [guardEvent, TrajectoryEvent.signed])
    · exact absurd he (by simp)

theorem Written.typed (h : Written ledger history) : ∀ e ∈ history, Typed e := by
  have hconcat : ∀ {history : List (TrajectoryEvent M)} {event : TrajectoryEvent M},
      (∀ e ∈ history, Typed e) → Typed event → ∀ e ∈ history ++ [event], Typed e := by
    intro history event hhistory hevent e he
    rcases List.mem_append.mp he with he | he
    · exact hhistory e he
    · exact List.mem_singleton.mp he ▸ hevent
  induction h with
  | nil => exact fun _ he => absurd he (by simp)
  | started _ hkind ih => exact hconcat ih (typed_of_kind (by simp [hkind]))
  | batch _ hkind hbuild ih =>
    obtain ⟨b⟩ := buildGuardedRouteBatch_built hbuild
    intro e he
    rcases List.mem_append.mp he with he | he
    · exact ih e he
    · rcases List.mem_cons.mp he with rfl | he
      · exact typed_of_kind (by simp [hkind])
      · exact b.typed e he
  | settled _ hkind ih => exact hconcat ih (typed_of_kind (by simp [hkind]))
  | closed _ hkind ih => exact hconcat ih (typed_of_kind (by simp [hkind]))

/-- **What is written is read back by everyone.** A batch under a projection
the ledger reads back is accepted by the reader it was written for, has an
activation exactly where that reader waits for one, and names the digest that
reader derives from its own counters; and the histories made of such batches
are read alike whatever tiers the reader protects. -/
theorem written_batches_replay (ledger : Ledger M) :
    (∀ (history : List (TrajectoryEvent M)) (start : TrajectoryEvent M)
        (completeness : HistoryCompleteness) (input : GuardedRouteInput M)
        (batch : GuardedRouteBatch M),
      start.kind = .requestStarted →
      RouteProjection.parseKey input.projection.key = some input.projection →
      buildGuardedRouteBatch ledger history start completeness input = .ok batch →
      (∀ e ∈ batch.events, validateEvent ledger e = .ok ()) →
      (∃ snapshot, reduce ledger (history ++ start :: batch.events) input.policy.protectedTiers
          = .ok snapshot)
        ∧ (batch.guardEvent.isSome = true ↔
          reducePrefix ledger (history ++ [start, batch.routeEvent]) input.policy.protectedTiers
            = .ok .awaitingGuardActivation)
        ∧ ∃ r snapshot,
          reduction ledger (history ++ [start]) input.policy.protectedTiers = .ok r
            ∧ snapshotFromFacts ledger ((r.admitted r.lastTimestamp).facts
              (batch.routeEvent.sequence - 1) r.lastTimestamp) = .ok snapshot
            ∧ batch.routeEvent.evidence.digests["route.health_snapshot"]?
              = some snapshot.evidenceDigest)
      ∧ ∀ history, Written ledger history → ∀ P Q, reduce ledger history P
        = reduce ledger history Q := by
  constructor
  · intro history start completeness input batch hkind hprojection hbuild hvalid
    obtain ⟨b⟩ := buildGuardedRouteBatch_built hbuild
    obtain ⟨r, hr, -, -, hpre⟩ := b.opened hkind
    refine ⟨b.accepted hkind hprojection hvalid, b.awaits hkind hprojection hvalid,
      r, b.preIntent, hr, ?_, ?_⟩
    · rw [b.routeEvent_eq]
      exact hpre
    · rw [b.routeEvent_eq, ← b.digest]
      exact healthSnapshot_routeEvidence
  · exact fun history hwritten P Q => reduce_of_typed hwritten.typed P Q

end Replayed

/-! ## One episode, as a run -/

namespace Sample

/-- The digests and the lengths of the texts of one short episode. -/
def ledger : Ledger Unit where
  eventDigest event := (([
    ("start-1", "sha256:07eec85f6008c73ac58bfee89497644ecfe85f77028f05d47bcf5b9a7cbc9804"),
    ("route-1", "sha256:0b50c7ce86017eb3f3c6789aa3dd57e7488a102db832f488eafce2fec3c6ea46"),
    ("guard-1", "sha256:1ec6f476a52860d53d75b690471fe9f53aca2ecc59777a5e475111daab9ed6db"),
    ("start-2", "sha256:b2bc2bcbf5c29554f0fe494501df42859dbaae672d8d072da65edb4c1a3b1ac0"),
    ("route-2", "sha256:6fd23a1623cfee8caaa749e960474387d646c14cc56ec05eeb27c7b999d7038e"),
    ("settled-1", "sha256:6fb0f17dfcb5c502a86ea73c5701c60b26fb14b7e23315eb8a0a588ebb0a525a"),
    ("start-3", "sha256:6f292ad43608031d419f0f52c3cde420c7499b47aeb5f0c45eb9af7fb51cb5e0"),
    ("route-3", "sha256:73c0adfbe47268f7a6084ade0f3ccd84f1d86534735b0f888dcd0a6814dd8f75"),
    ("settled-2", "sha256:af5fe2d1f40f92576bd3d497ac45888f797e8beac95cd8f3b7ccf42492d76217"),
    ("start-4", "sha256:4a3c5bb347a9c4387a2c53f1eef746a594d9acd74cf56d5b89609bcbd5040aa2"),
    ("route-4", "sha256:7ae4b654b7d8a6670f146a56d3d5e3603288cf053d661e7c3f12882a2cb63cd4"),
    ("guard-4", "sha256:9731659ac7f2538ef2c98523451e68f669991cdf2979d400c1b6708cc1208b1e"),
    ("unread-1", "sha256:ebbaa3a71f3be8473b5e41919caa880328ca41fbd700953da78190d80041c0e7")] :
      List (String × String)).lookup event.eventId).getD ""
  snapshotDigest snapshot := (([
    (1, "sha256:564e2c5d763e60e7ed07d117f373bb14024dcfbca72c0ea02d0b2920493a59c7"),
    (3, "sha256:49f8c4ab27c1a6568f1ef1b8cc1e7ee2c93923bdada24abf60a636629a489735"),
    (4, "sha256:f499d0f156116eed00fabd68eb30e3142db67d89f5b7d34733b08499fb7031db"),
    (6, "sha256:7f6ff6f7949c60f0be4be81090efc83e9ab5b413657060c20ba57c2181493656"),
    (7, "sha256:7809b1817ab303a4d15efecadeb38021cc75c833a2e120d7e7972e904d142306"),
    (9, "sha256:09742e7845764c0e99f2f1b034b80eab19e4692220a5b87d0bd42ed266b44296"),
    (10, "sha256:2611c0318399d0265dcf051483f09260f859a2e06d5d690505ee1f400fe89a01"),
    (12, "sha256:ab50ccd7d9c8a8a711457657bcf406c46d1cef4de75b8fc46fe24fd8891a12c8")] :
      List (ℕ × String)).lookup snapshot.throughSequence).getD ""
  encodedBytes event :=
    let numeral := if 10 ≤ event.sequence then 2 else 1
    match event.kind with
    | .requestStarted => 671 + numeral
    | .routeIntentRecorded => (if event.eventId = "unread-1" then 1745 else 1744) + numeral
    | .requestSettled => 502 + numeral
    | .guardActivated => 557 + numeral
    | .episodeClosed => 0
  parseFromRfc3339 text :=
    if text = "2026-01-01T00:00:00Z" then some 1767225600000000000 else none
  validateRouteMeasurement _ := .ok ()

/-- Every request of an episode is escalated, two at a time. -/
def policy : ProgressGuardPolicy where
  escalationTier := "strong"
  protectedTiers := {"strong"}
  maxConsecutiveUnprotected := none
  maxSameProjectionUnprotected := none
  maxRecoveryCount := none
  maxEpisodeRequests := some 1
  maxEpisodeElapsedMs := none
  maxEpisodeCostMicroUsd := none
  holdForRequests := 2
  incompleteHistory := .observe

def route : GuardedRouteInput Unit where
  routeEventId := "route-1"
  guardEventId := "guard-1"
  policyName := "main"
  routeProjection := "main"
  requestKey := "request-1"
  baselineTier := none
  baselineEffort := none
  tierEfforts := ∅
  preset := none
  projection := ⟨2, .edit, .normal⟩
  candidateTier := some "fast"
  policyDigest := "sha256:abababababababababababababababababababababababababababababababab"
  experiment := none
  routeMeasurement := none
  policy := policy
  carriesTools := false
  toolUseTier := none
  toolSafeTiers := ∅

def fullInputDigest : KeyedDigest where
  value := "hmac-sha256:key-1:cdcdcdcdcdcdcdcdcdcdcdcdcdcdcdcdcdcdcdcdcdcdcdcdcdcdcdcdcdcdcdcd"
  keyId := "key-1"
  reads := by decide +kernel

def request : CorrelateAndBegin Unit where
  requestId := "request-1"
  newEpisodeId := "episode-1"
  eventId := "start-1"
  correlationKeyId := "key-1"
  nativeParentId := none
  nativeParentDigest := none
  fullInputDigest := fullInputDigest
  ancestorPrefixDigests := []
  ancestorPrefixesTruncated := false
  startsWithPriorTurns := false
  canonicalInputBytes := 100
  protocol := "chat"
  capturedAt := "2026-01-01T00:00:00Z"
  guardedRoute := some route

def start : TrajectoryEvent Unit :=
  buildStartEvent ledger "owner" request "episode-1" 1 "2026-01-01T00:00:00Z"
    ⟨.explicitRoot, .complete, false, false⟩

/-- A projection of a version the ledger does not read. -/
def unread : GuardedRouteInput Unit :=
  { route with routeEventId := "unread-1", projection := ⟨3, .edit, .normal⟩ }

/-! Four requests of the episode. The first activates the guard, the next two are held, and
the last activates it again; two are settled while others are open. -/

def nth (name : String) (n : ℕ) : String := name ++ "-" ++ Nat.repr n

def nthStart (n sequence : ℕ) : TrajectoryEvent Unit :=
  buildStartEvent ledger "owner"
    { request with requestId := nth "request" n, eventId := nth "start" n } "episode-1" sequence
    "2026-01-01T00:00:00Z" ⟨.explicitRoot, .complete, false, false⟩

def nthRoute (n : ℕ) : GuardedRouteInput Unit :=
  { route with
    routeEventId := nth "route" n, guardEventId := nth "guard" n, requestKey := nth "request" n }

def settled (n sequence : ℕ) : TrajectoryEvent Unit :=
  TrajectoryEvent.signed ledger {
    schemaVersion := trajectorySchemaVersion
    eventId := nth "settled" n
    ownerUserId := "owner"
    episodeId := "episode-1"
    requestId := some (nth "request" n)
    sequence := sequence
    kind := .requestSettled
    evidence := {
      routingEvidence := []
      structural := .ofPairs [("settlement.duration_ms", 0), ("settlement.total_tokens", 30),
        ("settlement.cost_micro_usd", 7)]
      categorical := .ofPairs [("settlement.usage_origin", "provider_reported"),
        ("settlement.outcome", "settled")]
      digests := ∅
      routeMeasurement := none }
    capturedAt := "2026-01-01T00:00:00Z"
    contentDigest := "" }

/-- The batch of a request behind a history. -/
def batchOf (history : List (TrajectoryEvent Unit)) (n sequence : ℕ) :
    Except String (GuardedRouteBatch Unit) :=
  buildGuardedRouteBatch ledger history (nthStart n sequence) .complete (nthRoute n)

section Histories

variable (b₁ b₂ b₃ : GuardedRouteBatch Unit)

def afterFirst : List (TrajectoryEvent Unit) := nthStart 1 1 :: b₁.events

def afterSecond : List (TrajectoryEvent Unit) :=
  afterFirst b₁ ++ nthStart 2 4 :: b₂.events ++ [settled 1 6]

def afterThird : List (TrajectoryEvent Unit) :=
  afterSecond b₁ b₂ ++ nthStart 3 7 :: b₃.events ++ [settled 2 9]

end Histories

end Sample

/-- Every event of a batch is valid on its own. -/
def Sample.valid (batch : GuardedRouteBatch Unit) : Bool :=
  batch.events.all fun e => (validateEvent Sample.ledger e).isOk

theorem Sample.validateEvent_of_valid {batch : GuardedRouteBatch Unit}
    (h : Sample.valid batch = true) :
    ∀ e ∈ batch.events, validateEvent Sample.ledger e = .ok () := by
  intro e he
  obtain ⟨_, hok⟩ := exists_ok_of_isOk (List.all_eq_true.mp h e he)
  exact hok

/-- **The batches of the sample episode**: each is built behind those before it. -/
theorem Sample.episode_built : ∃ b₁ b₂ b₃ b₄, batchOf [] 1 1 = .ok b₁
    ∧ batchOf (afterFirst b₁) 2 4 = .ok b₂ ∧ batchOf (afterSecond b₁ b₂) 3 7 = .ok b₃
    ∧ batchOf (afterThird b₁ b₂ b₃) 4 10 = .ok b₄ ∧ b₁.guardEvent.isSome = true
    ∧ ∀ e ∈ b₄.events, validateEvent ledger e = .ok () := by
  have hrun : (do
      let b₁ ← batchOf [] 1 1
      let b₂ ← batchOf (afterFirst b₁) 2 4
      let b₃ ← batchOf (afterSecond b₁ b₂) 3 7
      let b₄ ← batchOf (afterThird b₁ b₂ b₃) 4 10
      return b₁.guardEvent.isSome && Sample.valid b₄ : Except String Bool).toOption.any id
        = true := by decide +kernel
  obtain ⟨ok, hbuilt, hok⟩ := exists_ok_of_any hrun
  obtain ⟨b₁, h₁, hbuilt⟩ := bind_eq_ok.mp hbuilt
  obtain ⟨b₂, h₂, hbuilt⟩ := bind_eq_ok.mp hbuilt
  obtain ⟨b₃, h₃, hbuilt⟩ := bind_eq_ok.mp hbuilt
  obtain ⟨b₄, h₄, hbuilt⟩ := bind_eq_ok.mp hbuilt
  obtain rfl := pure_eq_ok.mp hbuilt
  obtain ⟨hguard, hvalid⟩ := (Bool.and_eq_true _ _).mp hok
  exact ⟨b₁, b₂, b₃, b₄, h₁, h₂, h₃, h₄, hguard, Sample.validateEvent_of_valid hvalid⟩

/-- The last of four requests, behind a history with requests that are held, settled and
open. -/
theorem written_batches_replay_first :
    ∃ b₁ b₂ b₃ b₄, Sample.batchOf (Sample.afterThird b₁ b₂ b₃) 4 10 = .ok b₄
      ∧ (∃ snapshot, reduce Sample.ledger
          (Sample.afterThird b₁ b₂ b₃ ++ Sample.nthStart 4 10 :: b₄.events) {"strong"}
        = .ok snapshot)
      ∧ reduce Sample.ledger
          (Sample.afterThird b₁ b₂ b₃ ++ Sample.nthStart 4 10 :: b₄.events) {"strong"}
        = reduce Sample.ledger
          (Sample.afterThird b₁ b₂ b₃ ++ Sample.nthStart 4 10 :: b₄.events) ∅ := by
  obtain ⟨b₁, b₂, b₃, b₄, h₁, h₂, h₃, h₄, -, hvalid⟩ := Sample.episode_built
  obtain ⟨haccepted, htyped⟩ := written_batches_replay Sample.ledger
  have hread := haccepted (Sample.afterThird b₁ b₂ b₃) (Sample.nthStart 4 10) .complete
    (Sample.nthRoute 4) b₄ rfl (RouteProjection.parseKey_key (.inl rfl)) h₄ hvalid
  have hfirst : Written Sample.ledger (Sample.afterFirst b₁) := .batch .nil rfl h₁
  have hsecond : Written Sample.ledger (Sample.afterSecond b₁ b₂) :=
    .settled (.batch hfirst rfl h₂) rfl
  have hthird : Written Sample.ledger (Sample.afterThird b₁ b₂ b₃) :=
    .settled (.batch hsecond rfl h₃) rfl
  exact ⟨b₁, b₂, b₃, b₄, h₄, hread.1, htyped _ (.batch hthird rfl h₄) _ _⟩

/-- **A projection that is not read back wedges its episode**: the batch is
written, each event is valid, and the history with it is refused. -/
theorem unread_projection_refused :
    ¬ ∀ batch, buildGuardedRouteBatch Sample.ledger [] Sample.start .complete Sample.unread
          = .ok batch →
        (∀ e ∈ batch.events, validateEvent Sample.ledger e = .ok ()) →
        ∃ snapshot, reduce Sample.ledger (Sample.start :: batch.events) {"strong"}
          = .ok snapshot := by
  intro hall
  have hrun : (buildGuardedRouteBatch Sample.ledger [] Sample.start .complete
      Sample.unread).toOption.any (fun batch => Sample.valid batch
        && !(reduce Sample.ledger (Sample.start :: batch.events) {"strong"}).isOk) = true := by
    decide +kernel
  obtain ⟨batch, hbuild, htest⟩ := exists_ok_of_any hrun
  obtain ⟨hvalid, hrefused⟩ := (Bool.and_eq_true _ _).mp htest
  obtain ⟨snapshot, hsnapshot⟩ := hall batch hbuild (Sample.validateEvent_of_valid hvalid)
  rw [hsnapshot] at hrefused
  exact absurd hrefused (by simp [Except.isOk, Except.toBool])

end BitRouter.Trajectory
