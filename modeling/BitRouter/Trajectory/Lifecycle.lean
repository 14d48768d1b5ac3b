import BitRouter.Trajectory.Replay

/-!
# What an accepted history looks like

The reducer of `health.rs` reads one event after the other and keeps a phase
for each request. Its acceptance is read as a format here: the events of one
request are a start, a route intent, at most one activation and a settlement,
in this order and as far as the history goes, however the requests of an
episode interleave. `Reads` says what the phases and the counters stand for,
and every event keeps it.
-/

namespace BitRouter.Trajectory

variable {M : Type}

/-- The kinds of the events of one request. -/
def lifecycle (events : List (TrajectoryEvent M)) (requestId : String) :
    List TrajectoryEventKind :=
  (events.filter fun e => e.requestId = some requestId).map (·.kind)

/-- **A history in its format.** -/
structure WellFormed (events : List (TrajectoryEvent M)) : Prop where
  numbered : events.map (·.sequence) = List.range' 1 events.length
  named : ∀ e ∈ events, e.requestId = none ↔ e.kind = .episodeClosed
  /-- Nothing follows a closure. -/
  closing : ∀ e ∈ events.dropLast, e.kind ≠ .episodeClosed
  /-- A request is started, routed, guarded at most once and then settled. -/
  lifecycles : ∀ requestId,
    lifecycle events requestId
        <+: [.requestStarted, .routeIntentRecorded, .guardActivated, .requestSettled] ∨
      lifecycle events requestId <+: [.requestStarted, .routeIntentRecorded, .requestSettled]

/-- The events a request in some phase has had. -/
def InPhase (kinds : List TrajectoryEventKind) : Option RequestPhase → Prop
  | none => kinds = []
  | some .started => kinds = [.requestStarted]
  | some .routed => kinds = [.requestStarted, .routeIntentRecorded]
  | some .routedGuarded => kinds = [.requestStarted, .routeIntentRecorded, .guardActivated]
  | some .settled => kinds = [.requestStarted, .routeIntentRecorded, .requestSettled] ∨
      kinds = [.requestStarted, .routeIntentRecorded, .guardActivated, .requestSettled]

theorem InPhase.isPrefix {kinds : List TrajectoryEventKind} {phase : Option RequestPhase}
    (h : InPhase kinds phase) :
    kinds <+: [.requestStarted, .routeIntentRecorded, .guardActivated, .requestSettled] ∨
      kinds <+: [.requestStarted, .routeIntentRecorded, .requestSettled] := by
  match phase, h with
  | none, h | some .started, h | some .routed, h | some .routedGuarded, h =>
    exact .inl (by rw [show kinds = _ from h]; decide)
  | some .settled, .inl h => exact .inr (by rw [h])
  | some .settled, .inr h => exact .inl (by rw [h])

/-- **What the running state stands for**, some events read. -/
structure Reads (events : List (TrajectoryEvent M)) (r : Reduction) : Prop where
  index : r.index = events.length
  numbered : events.map (·.sequence) = List.range' 1 events.length
  named : ∀ e ∈ events, e.requestId = none ↔ e.kind = .episodeClosed
  closing : ∀ e ∈ events.dropLast, e.kind ≠ .episodeClosed
  closed : ∀ e ∈ events, e.kind = .episodeClosed → r.closed = true
  phases : ∀ requestId, InPhase (lifecycle events requestId) r.requests[requestId]?
  requestCount : r.requestCount = events.countP (·.kind = .requestStarted)
  settledRequestCount : r.settledRequestCount = events.countP (·.kind = .requestSettled)

variable {ledger : Ledger M} {protectedTiers : Finset String} {r r' : Reduction}
  {event : TrajectoryEvent M} {events : List (TrajectoryEvent M)} {requestId : String}

theorem lifecycle_concat (requestId : String) : lifecycle (events ++ [event]) requestId
    = lifecycle events requestId
      ++ if event.requestId = some requestId then [event.kind] else [] := by
  rw [lifecycle, List.filter_append, List.map_append]
  by_cases h : event.requestId = some requestId <;> simp [lifecycle, h]

namespace Reads

theorem initial (owner episode : String) (instant : ℤ) :
    Reads (M := M) [] (.initial owner episode instant) where
  index := rfl
  numbered := rfl
  named := fun _ h => absurd h List.not_mem_nil
  closing := fun _ h => absurd h List.not_mem_nil
  closed := fun _ h => absurd h List.not_mem_nil
  phases := fun requestId => (StrMap.getElem?_empty requestId).symm ▸ rfl
  requestCount := rfl
  settledRequestCount := rfl

/-- **One more event**: what it is held to, and what is left to say of its
kind. -/
theorem concat (h : Reads events r) {capturedAt : ℤ} (ha : Admits ledger r event capturedAt)
    (hindex : r'.index = r.index + 1)
    (hnamed : event.requestId = none ↔ event.kind = .episodeClosed)
    (hclosed : event.kind = .episodeClosed → r'.closed = true)
    (hphases : ∀ requestId,
      InPhase (lifecycle (events ++ [event]) requestId) r'.requests[requestId]?)
    (hrequests : r'.requestCount
      = r.requestCount + if event.kind = .requestStarted then 1 else 0)
    (hsettled : r'.settledRequestCount
      = r.settledRequestCount + if event.kind = .requestSettled then 1 else 0) :
    Reads (events ++ [event]) r' := by
  have hopen : ∀ e ∈ events, e.kind ≠ .episodeClosed := fun e he hk =>
    absurd (h.closed e he hk) (by rw [ha.unclosed]; exact Bool.false_ne_true)
  refine ⟨?_, ?_, List.forall_mem_append.mpr ⟨h.named, List.forall_mem_singleton.mpr hnamed⟩,
    ?_, List.forall_mem_append.mpr ⟨fun e he hk => absurd hk (hopen e he),
      List.forall_mem_singleton.mpr hclosed⟩, hphases, ?_, ?_⟩
  · rw [hindex, h.index, List.length_append, List.length_singleton]
  · rw [List.map_append, h.numbered, List.length_append, List.length_singleton,
      List.range'_concat, List.map_singleton, ha.sequence, h.index, Nat.one_mul, Nat.add_comm]
  · rw [List.dropLast_concat]
    exact hopen
  · rw [hrequests, h.requestCount, List.countP_append]
    by_cases hk : event.kind = .requestStarted <;> simp [hk]
  · rw [hsettled, h.settledRequestCount, List.countP_append]
    by_cases hk : event.kind = .requestSettled <;> simp [hk]

/-- The phase of the request an event is about moves with it. -/
theorem moved (h : Reads events r) (hid : event.requestId = some requestId)
    {old : Option RequestPhase} (hold : r.requests[requestId]? = old) {phase : RequestPhase}
    (hphase : ∀ kinds, InPhase kinds old → InPhase (kinds ++ [event.kind]) (some phase))
    (id : String) :
    InPhase (lifecycle (events ++ [event]) id) (r.requests.insert requestId phase)[id]? := by
  rw [lifecycle_concat, StrMap.getElem?_insert, hid]
  by_cases heq : requestId = id
  · subst heq
    rw [if_pos rfl, if_pos rfl]
    exact hphase _ (hold ▸ h.phases requestId)
  · rw [if_neg heq, if_neg fun hs => heq (Option.some.inj hs), List.append_nil]
    exact h.phases id

/-- **Every event keeps what the state stands for**, one kind after the
other. -/
theorem step (h : Reads events r)
    (hstep : Reduction.step ledger protectedTiers r event = .ok r') :
    Reads (events ++ [event]) r' := by
  obtain ⟨capturedAt, ha, hreact⟩ := step_eq_ok.mp hstep
  unfold Reduction.react at hreact
  split at hreact
  · next hkind =>
    obtain ⟨requestId, _, _, hid, hphase, -, rfl⟩ := Reduction.requestStarted_eq_ok hreact
    exact h.concat ha rfl (by simp [hid, hkind]) (by simp [hkind])
      (h.moved hid hphase fun _ hkinds => by rw [show _ = [] from hkinds, hkind]; rfl)
      (by rw [if_pos hkind]; rfl) (by simp [hkind, Reduction.admitted])
  · next hkind =>
    have hrouted := Reduction.routeIntentRecorded_eq_ok hreact
    obtain ⟨requestId, hid, hphase, hrequests⟩ := hrouted.started
    rw [hrouted.rest, hrequests]
    exact h.concat ha rfl (by simp [hid, hkind]) (by simp [hkind])
      (h.moved hid hphase fun _ hkinds => by rw [show _ = [_] from hkinds, hkind]; rfl)
      (by simp [hkind, Reduction.admitted]) (by simp [hkind, Reduction.admitted])
  · next hkind =>
    obtain ⟨requestId, phase, _, _, hid, hphase, hstarted, hsettled, rfl⟩ :=
      Reduction.requestSettled_eq_ok hreact
    refine h.concat ha rfl (by simp [hid, hkind]) (by simp [hkind])
      (h.moved hid hphase fun kinds hkinds => ?_)
      (by simp [hkind, Reduction.admitted]) (by rw [if_pos hkind]; rfl)
    rw [hkind]
    cases phase with
    | started => exact absurd rfl hstarted
    | settled => exact absurd rfl hsettled
    | routed => exact .inl (by rw [show kinds = _ from hkinds]; rfl)
    | routedGuarded => exact .inr (by rw [show kinds = _ from hkinds]; rfl)
  · next hkind =>
    obtain ⟨requestId, _, _, hid, hphase, -, rfl⟩ := Reduction.guardActivated_eq_ok hreact
    exact h.concat ha rfl (by simp [hid, hkind]) (by simp [hkind])
      (h.moved hid hphase fun _ hkinds => by rw [show _ = [_, _] from hkinds, hkind]; rfl)
      (by simp [hkind, Reduction.admitted]) (by simp [hkind, Reduction.admitted])
  · next hkind =>
    have hid : event.requestId = none := by
      obtain ⟨_, hnone, -⟩ := bind_eq_ok.mp hreact
      simpa using ensure_eq_ok.mp hnone
    obtain rfl := Reduction.episodeClosed_eq_ok hreact
    refine h.concat ha rfl (by simp [hid, hkind]) (fun _ => rfl) (fun id => ?_)
      (by simp [hkind, Reduction.admitted]) (by simp [hkind, Reduction.admitted])
    rw [lifecycle_concat, hid, if_neg (by simp), List.append_nil]
    exact h.phases id

/-- By induction on the events, from the last one. -/
theorem run (h : Reads (M := M) [] r)
    (hrun : events.foldlM (Reduction.step ledger protectedTiers) r = .ok r') : Reads events r' := by
  induction events using List.reverseRecOn generalizing r' with
  | nil =>
    obtain rfl := pure_eq_ok.mp hrun
    exact h
  | append_singleton events event ih =>
    rw [List.foldlM_append] at hrun
    obtain ⟨r₀, hr₀, hlast⟩ := bind_eq_ok.mp hrun
    rw [List.foldlM_cons, bind_eq_ok] at hlast
    obtain ⟨r₁, hstep, hlast⟩ := hlast
    obtain rfl := pure_eq_ok.mp hlast
    exact (ih hr₀).step hstep

end Reads

/-- **What is accepted is well formed**, and its snapshot counts its starts and
its settlements. -/
theorem accepted_wellFormed {snapshot : TrajectorySnapshot}
    (h : reduce ledger events protectedTiers = .ok snapshot) :
    WellFormed events
      ∧ snapshot.health.requestCount = events.countP (·.kind = .requestStarted)
      ∧ snapshot.health.settledRequestCount = events.countP (·.kind = .requestSettled) := by
  obtain ⟨r, last, hr, -, -, hsnapshot⟩ := reduce_eq_ok.mp h
  obtain ⟨b, hb, hrun⟩ := bind_eq_ok.mp hr
  obtain ⟨first, -, hb⟩ := bind_eq_ok.mp hb
  obtain ⟨_, -, hb⟩ := bind_eq_ok.mp hb
  obtain ⟨instant, -, hb⟩ := bind_eq_ok.mp hb
  obtain rfl := pure_eq_ok.mp hb
  have hreads := (Reads.initial first.ownerUserId first.episodeId instant).run hrun
  obtain ⟨health, hhealth, hsnapshot⟩ := bind_eq_ok.mp hsnapshot
  obtain rfl := pure_eq_ok.mp hsnapshot
  obtain ⟨_, -, hhealth⟩ := bind_eq_ok.mp hhealth
  obtain ⟨_, -, hhealth⟩ := bind_eq_ok.mp hhealth
  obtain ⟨_, -, hhealth⟩ := bind_eq_ok.mp hhealth
  obtain rfl := pure_eq_ok.mp hhealth
  exact ⟨⟨hreads.numbered, hreads.named, hreads.closing, fun id => (hreads.phases id).isPrefix⟩,
    hreads.requestCount, hreads.settledRequestCount⟩

/-- The history of four requests, two of them settled while others are open. -/
theorem accepted_wellFormed_first :
    ∃ b₁ b₂ b₃ b₄, Sample.batchOf (Sample.afterThird b₁ b₂ b₃) 4 10 = .ok b₄
      ∧ WellFormed (Sample.afterThird b₁ b₂ b₃ ++ Sample.nthStart 4 10 :: b₄.events) := by
  obtain ⟨b₁, b₂, b₃, b₄, h₁, h₂, h₃, h₄, -, hvalid⟩ := Sample.episode_built
  obtain ⟨built⟩ := buildGuardedRouteBatch_built h₄
  obtain ⟨snapshot, hsnapshot⟩ :=
    built.accepted rfl (RouteProjection.parseKey_key (.inl rfl)) hvalid
  exact ⟨b₁, b₂, b₃, b₄, h₄, (accepted_wellFormed hsnapshot).1⟩

end BitRouter.Trajectory
