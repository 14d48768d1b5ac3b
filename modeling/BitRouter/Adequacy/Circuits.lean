import BitRouter.Adequacy.Reliability
import Mathlib.Data.List.TakeWhile

/-!
# What the circuits of a ledger hold

A ledger is watched through any calls of `permit` and of the observations,
beside what each circuit saw since it last closed from half-open. The window
is the end of that, the count of consecutive failures its last run, and a
circuit that is closed has reached no threshold.

A circuit of a route leaves the open phase by a grant or by the report of a
probe. That of an endpoint does so also by a report that is no probe's: while
a route is half-open, any observation of it counts as the probe's, and moves
the endpoint along (`endpoint_closes_unflagged`).
-/

namespace BitRouter.Adequacy

open ProviderReliabilityLedger

/-- The calls of a ledger. -/
inductive Call
  | permit (routeKey : String) (nowUnix : ℕ)
  | observe (event : ReliabilityEvent)

/-- A ledger, and what its circuits saw since they last closed from
half-open: whether each outcome was a failure. -/
structure Watched where
  ledger : ProviderReliabilityLedger
  routeLog : String → List Bool := fun _ => []
  endpointLog : ReliabilityKey → List Bool := fun _ => []

namespace ProviderReliabilityLedger

variable (ledger : ProviderReliabilityLedger)

/-- The circuit of a route. -/
def route (routeKey : String) : CircuitEntry := (IndexMap.get ledger.routes routeKey).getD {}

/-- The circuit of an endpoint. -/
def endpoint (endpointKey : ReliabilityKey) : CircuitEntry :=
  (IndexMap.get ledger.endpoints endpointKey).getD {}

/-- The route an observation is applied to. -/
def routeSeen (e : ReliabilityEvent) : CircuitEntry :=
  (ledger.route e.routeKey).probed e.halfOpenProbe

/-- The endpoint it is applied to. -/
def endpointSeen (e : ReliabilityEvent) : CircuitEntry :=
  (ledger.endpoint e.endpointKey).probed
    (e.halfOpenProbe || decide ((ledger.routeSeen e).phase = .halfOpen))

end ProviderReliabilityLedger

/-- The outcomes since a probe closed it. -/
def logged (entry : CircuitEntry) (observation : ReliabilityObservation) (log : List Bool) :
    List Bool :=
  if entry.phase = .halfOpen ∧ observation = .success then [false]
  else log ++ [decide (observation = .transientFailure)]

namespace Watched

def start (t : Thresholds) : Watched := { ledger := { thresholds := t } }

/-- A call, and what it logs. -/
def step (w : Watched) : Call → Watched
  | .permit routeKey nowUnix => { w with ledger := (w.ledger.permit routeKey nowUnix).2 }
  | .observe e =>
    { ledger := w.ledger.observeEvent e
      routeLog := Function.update w.routeLog e.routeKey
        (logged (w.ledger.routeSeen e) e.observation (w.routeLog e.routeKey))
      endpointLog := Function.update w.endpointLog e.endpointKey
        (logged (w.ledger.endpointSeen e) e.observation (w.endpointLog e.endpointKey)) }

/-- The calls, in order. -/
def run (w : Watched) (calls : List Call) : Watched := calls.foldl step w

end Watched

/-! ## One circuit -/

/-- **A circuit that holds what it saw**: the latest outcomes, and the length
of the last run of failures. -/
structure Tracked (t : Thresholds) (entry : CircuitEntry) (log : List Bool) : Prop where
  window : entry.outcomes = log.drop (log.length - t.windowSize)
  streak : entry.consecutiveFailures = min (log.reverse.takeWhile id).length maxFailures
  closed : entry.phase = .closed → ¬t.reached entry

variable {nowUnix openedAt : ℕ}

section Tracked

variable {t : Thresholds} {entry : CircuitEntry} {log : List Bool}

theorem tracked_fresh (t : Thresholds) : Tracked t {} [] where
  window := List.drop_nil.symm
  streak := rfl
  closed := by
    rintro - (hstreak | ⟨hfull, -⟩)
    · exact t.threshold_pos (Nat.le_zero.mp hstreak)
    · exact t.window_pos hfull.symm

theorem Tracked.length_le (h : Tracked t entry log) : entry.outcomes.length ≤ t.windowSize := by
  rw [h.window, List.length_drop]
  omega

theorem Tracked.halfOpen (h : Tracked t entry log) :
    Tracked t { entry with phase := .halfOpen } log where
  window := h.window
  streak := h.streak
  closed := by simp

theorem Tracked.probed (h : Tracked t entry log) (probe : Bool) :
    Tracked t (entry.probed probe) log := by
  unfold CircuitEntry.probed
  split
  · exact h.halfOpen
  · exact h

theorem window_push (h : entry.outcomes = log.drop (log.length - t.windowSize)) (failed : Bool) :
    (entry.push t.windowSize failed).outcomes =
      (log ++ [failed]).drop ((log ++ [failed]).length - t.windowSize) := by
  show (if t.windowSize < (entry.outcomes ++ [failed]).length then
    (entry.outcomes ++ [failed]).drop 1 else entry.outcomes ++ [failed]) = _
  have hle : log.length - t.windowSize ≤ log.length := Nat.sub_le _ _
  rw [h, ← List.drop_append_of_le_length hle, List.length_drop, List.length_append,
    List.length_singleton, List.drop_drop]
  split
  · next hfull =>
    congr 1
    omega
  · next hroom =>
    congr 1
    omega

theorem streak_push (h : entry.consecutiveFailures
    = min (log.reverse.takeWhile id).length maxFailures)
    (failed : Bool) : (entry.push t.windowSize failed).consecutiveFailures =
      min ((log ++ [failed]).reverse.takeWhile id).length maxFailures := by
  show (if failed then min (entry.consecutiveFailures + 1) maxFailures else 0) = _
  rw [List.reverse_append, List.reverse_singleton, List.singleton_append]
  cases failed with
  | false => rfl
  | true =>
    rw [List.takeWhile_cons_of_pos rfl, List.length_cons, h, if_pos rfl]
    omega

theorem not_reached_of_trip (h : (t.trip entry nowUnix).phase = .closed) :
    ¬t.reached (t.trip entry nowUnix) := by
  unfold Thresholds.trip at h ⊢
  split at h
  · cases h
  · next hnot => rwa [if_neg hnot]

/-- **An observation keeps what a circuit holds.** -/
theorem Tracked.applyObservation (h : Tracked t entry log) (observation : ReliabilityObservation)
    (nowUnix : ℕ) : Tracked t (applyObservation t entry observation nowUnix)
      (logged entry observation log) := by
  have hpushed : ∃ pushed : CircuitEntry,
      pushed = (entry.recover observation).push t.windowSize
        (decide (observation = .transientFailure)) ∧
      pushed.outcomes = (logged entry observation log).drop
        ((logged entry observation log).length - t.windowSize) ∧
      pushed.consecutiveFailures =
        min ((logged entry observation log).reverse.takeWhile id).length maxFailures := by
    refine ⟨_, rfl, ?_⟩
    unfold CircuitEntry.recover logged
    split
    · next hrecover =>
      rw [hrecover.2]
      exact ⟨window_push (tracked_fresh t).window false, streak_push (tracked_fresh t).streak false⟩
    · exact ⟨window_push h.window _, streak_push h.streak _⟩
  obtain ⟨pushed, heq, hwindow, hstreak⟩ := hpushed
  have hphase : ∀ phase, (phase = .closed → ¬t.reached { pushed with phase }) →
      Tracked t { pushed with phase } (logged entry observation log) :=
    fun phase hclosed => ⟨hwindow, hstreak, hclosed⟩
  have htrip : Tracked t (t.trip pushed nowUnix) (logged entry observation log) := by
    refine ⟨?_, ?_, not_reached_of_trip⟩
    · rw [← hwindow]
      unfold Thresholds.trip
      split <;> rfl
    · rw [← hstreak]
      unfold Thresholds.trip
      split <;> rfl
  unfold Adequacy.applyObservation
  dsimp only
  rw [← heq]
  split
  · split
    · exact hphase _ (by simp)
    · exact htrip
  · next hopen => exact ⟨hwindow, hstreak, fun hclosed => by rw [hopen] at hclosed; cases hclosed⟩
  · exact htrip

/-- An open circuit that no probe reports on keeps its phase. -/
theorem applyObservation_opened (h : entry.phase = .opened openedAt)
    (observation : ReliabilityObservation) (nowUnix : ℕ) :
    (applyObservation t entry observation nowUnix).phase = .opened openedAt := by
  have hrecover : entry.recover observation = entry := by
    refine if_neg ?_
    rw [h]
    simp
  unfold applyObservation
  dsimp only
  rw [hrecover]
  split
  · next hhalf =>
    rw [CircuitEntry.push_phase, h] at hhalf
    cases hhalf
  · next hopen =>
    rw [CircuitEntry.push_phase, h]
  · next hclosed =>
    rw [CircuitEntry.push_phase, h] at hclosed
    cases hclosed

theorem opened_at {observation : ReliabilityObservation}
    (h : (applyObservation t entry observation nowUnix).phase = .opened openedAt) :
    entry.phase = .opened openedAt ∨ openedAt = nowUnix := by
  cases hphase : entry.phase with
  | opened t' =>
    rw [applyObservation_opened hphase] at h
    exact Or.inl h
  | _ =>
    have hne : ∀ t', (entry.recover observation).phase ≠ .opened t' := by
      intro t'
      unfold CircuitEntry.recover
      split
      · simp
      · rw [hphase]
        simp
    refine Or.inr ?_
    have htrip : ∀ pushed : CircuitEntry, (∀ t', pushed.phase ≠ .opened t') →
        (t.trip pushed nowUnix).phase = .opened openedAt → openedAt = nowUnix := by
      intro pushed hpushed hopen
      unfold Thresholds.trip at hopen
      split at hopen
      · exact (EntryPhase.opened.inj hopen).symm
      · exact absurd hopen (hpushed _)
    unfold applyObservation at h
    dsimp only at h
    split at h
    · split at h
      · exact (EntryPhase.opened.inj h).symm
      · exact htrip ((entry.recover observation).push t.windowSize _) hne h
    · next hopen => exact absurd hopen (hne _)
    · exact htrip ((entry.recover observation).push t.windowSize _) hne h

end Tracked

/-! ## All circuits -/

variable {key : String}

namespace Watched

variable {w : Watched}

theorem route_observe (e : ReliabilityEvent) (key : String) :
    (w.step (.observe e)).ledger.route key =
      if e.routeKey = key then
        applyObservation w.ledger.thresholds (w.ledger.routeSeen e) e.observation e.observedAtUnix
      else w.ledger.route key := by
  show (IndexMap.get (w.ledger.observeEvent e).routes key).getD {} = _
  split
  · next heq => rw [← heq, observeEvent_route_self]; rfl
  · next hne => rw [observeEvent_route_of_ne _ _ hne]; rfl

theorem endpoint_observe (e : ReliabilityEvent) (key : ReliabilityKey) :
    (w.step (.observe e)).ledger.endpoint key =
      if e.endpointKey = key then
        applyObservation w.ledger.thresholds (w.ledger.endpointSeen e) e.observation
          e.observedAtUnix
      else w.ledger.endpoint key := by
  show (IndexMap.get (w.ledger.observeEvent e).endpoints key).getD {} = _
  split
  · next heq => rw [← heq, observeEvent_endpoint_self]; rfl
  · next hne => rw [observeEvent_endpoint_of_ne _ _ hne]; rfl

/-- **What a permit does to a route**: nothing, or it grants a probe. -/
theorem route_permit (routeKey key : String) (nowUnix : ℕ) :
    (w.step (.permit routeKey nowUnix)).ledger.route key = w.ledger.route key ∨
      routeKey = key ∧ (w.ledger.permit key nowUnix).1 = .halfOpenProbe ∧
        (∃ openedAt, (w.ledger.route key).phase = .opened openedAt ∧
          w.ledger.thresholds.cooldownSecs ≤ nowUnix - openedAt) ∧
        (w.step (.permit routeKey nowUnix)).ledger.route key =
          { w.ledger.route key with phase := .halfOpen } := by
  show (IndexMap.get (w.ledger.permit routeKey nowUnix).2.routes key).getD {} = _ ∨ _ ∧ _ ∧ _ ∧
    (IndexMap.get (w.ledger.permit routeKey nowUnix).2.routes key).getD {} = _
  rcases w.ledger.permit_cases routeKey nowUnix with ⟨-, hsame⟩
    | ⟨entry, openedAt, hget, hphase, heq⟩
  · exact Or.inl (by rw [hsame]; rfl)
  · by_cases hkey : routeKey = key
    · subst hkey
      have hroute : w.ledger.route routeKey = entry := by
        unfold route
        rw [hget]
        rfl
      have hcool : w.ledger.thresholds.cooldownSecs ≤ nowUnix - openedAt := by
        by_contra hnot
        have hanswer := congrArg Prod.fst heq
        unfold permit at hanswer
        simp [hget, hphase, hnot] at hanswer
      rw [heq, hroute]
      exact Or.inr ⟨rfl, rfl, ⟨openedAt, hphase, hcool⟩, by rw [IndexMap.get_insert_self]; rfl⟩
    · rw [heq]
      exact Or.inl (by rw [IndexMap.get_insert_of_ne _ _ hkey]; rfl)

theorem endpoint_permit (routeKey : String) (nowUnix : ℕ) (key : ReliabilityKey) :
    (w.step (.permit routeKey nowUnix)).ledger.endpoint key = w.ledger.endpoint key := by
  show (IndexMap.get (w.ledger.permit routeKey nowUnix).2.endpoints key).getD {} = _
  rcases w.ledger.permit_cases routeKey nowUnix with ⟨-, hsame⟩ | ⟨entry, openedAt, -, -, heq⟩
  · rw [hsame]
    rfl
  · rw [heq]
    rfl

theorem thresholds_step (call : Call) :
    (w.step call).ledger.thresholds = w.ledger.thresholds := by
  cases call with
  | permit routeKey nowUnix =>
    show (w.ledger.permit routeKey nowUnix).2.thresholds = _
    rcases w.ledger.permit_cases routeKey nowUnix with ⟨-, hsame⟩ | ⟨entry, openedAt, -, -, heq⟩
    · rw [hsame]
    · rw [heq]
  | observe e => rfl

/-- **Every circuit holds what it saw.** -/
structure Sound (w : Watched) : Prop where
  routes : ∀ key, Tracked w.ledger.thresholds (w.ledger.route key) (w.routeLog key)
  endpoints : ∀ key, Tracked w.ledger.thresholds (w.ledger.endpoint key) (w.endpointLog key)

theorem sound_start (t : Thresholds) : Sound (start t) :=
  ⟨fun _ => tracked_fresh t, fun _ => tracked_fresh t⟩

theorem Sound.step (h : Sound w) (call : Call) : Sound (w.step call) := by
  refine ⟨fun key => ?_, fun key => ?_⟩
  · rw [thresholds_step]
    cases call with
    | permit routeKey nowUnix =>
      rcases route_permit (w := w) routeKey key nowUnix with hsame | ⟨-, -, -, hhalf⟩
      · rw [hsame]
        exact h.routes key
      · rw [hhalf]
        exact (h.routes key).halfOpen
    | observe e =>
      rw [route_observe]
      show Tracked _ _ (Function.update w.routeLog e.routeKey _ key)
      split
      · next heq =>
        subst heq
        rw [Function.update_self]
        exact ((h.routes e.routeKey).probed _).applyObservation _ _
      · next hne =>
        rw [Function.update_of_ne (Ne.symm hne)]
        exact h.routes key
  · rw [thresholds_step]
    cases call with
    | permit routeKey nowUnix =>
      rw [endpoint_permit]
      exact h.endpoints key
    | observe e =>
      rw [endpoint_observe]
      show Tracked _ _ (Function.update w.endpointLog e.endpointKey _ key)
      split
      · next heq =>
        subst heq
        rw [Function.update_self]
        exact ((h.endpoints e.endpointKey).probed _).applyObservation _ _
      · next hne =>
        rw [Function.update_of_ne (Ne.symm hne)]
        exact h.endpoints key

theorem Sound.run (h : Sound w) (calls : List Call) : Sound (w.run calls) := by
  induction calls generalizing w with
  | nil => exact h
  | cons call calls ih => exact ih (h.step call)

/-! ## Leaving the open phase -/

theorem route_leaves {call : Call} (hopen : (w.ledger.route key).phase = .opened openedAt)
    (hleft : ((w.step call).ledger.route key).phase ≠ .opened openedAt) :
    (∃ now, call = .permit key now ∧ (w.ledger.permit key now).1 = .halfOpenProbe ∧
        w.ledger.thresholds.cooldownSecs ≤ now - openedAt) ∨
      ∃ e, call = .observe e ∧ e.routeKey = key ∧ e.halfOpenProbe = true := by
  cases call with
  | permit routeKey nowUnix =>
    rcases route_permit (w := w) routeKey key nowUnix with hsame | ⟨rfl, hgrant, ⟨t, ht, hcool⟩, -⟩
    · rw [hsame] at hleft
      exact absurd hopen hleft
    · rw [hopen] at ht
      obtain rfl := EntryPhase.opened.inj ht
      exact Or.inl ⟨nowUnix, rfl, hgrant, hcool⟩
  | observe e =>
    rw [route_observe] at hleft
    split at hleft
    · next heq =>
      refine Or.inr ⟨e, rfl, heq, ?_⟩
      by_contra hnot
      have hflag : e.halfOpenProbe = false := by simpa using hnot
      refine hleft (applyObservation_opened ?_ _ _)
      rw [routeSeen, heq, hflag]
      exact hopen
    · exact absurd hopen hleft

/-- An endpoint leaves it by the report of a probe, or by any report on a route
that is half-open. -/
theorem endpoint_leaves {call : Call} {key : ReliabilityKey}
    (hopen : (w.ledger.endpoint key).phase = .opened openedAt)
    (hleft : ((w.step call).ledger.endpoint key).phase ≠ .opened openedAt) :
    ∃ e, call = .observe e ∧ e.endpointKey = key ∧
      (e.halfOpenProbe = true ∨ (w.ledger.route e.routeKey).phase = .halfOpen) := by
  cases call with
  | permit routeKey nowUnix =>
    rw [endpoint_permit] at hleft
    exact absurd hopen hleft
  | observe e =>
    rw [endpoint_observe] at hleft
    split at hleft
    · next heq =>
      refine ⟨e, rfl, heq, ?_⟩
      by_contra hnot
      rw [not_or, Bool.not_eq_true] at hnot
      refine hleft (applyObservation_opened ?_ _ _)
      have hroute : (w.ledger.routeSeen e).phase ≠ .halfOpen := by
        rw [routeSeen, hnot.1]
        exact hnot.2
      rw [endpointSeen, hnot.1, decide_eq_false hroute, heq]
      exact hopen
    · exact absurd hopen hleft

theorem halfOpen_run {calls : List Call} (h : (w.ledger.route key).phase = .halfOpen)
    (hquiet : ∀ e, Call.observe e ∈ calls → e.routeKey ≠ key) :
    ((w.run calls).ledger.route key).phase = .halfOpen := by
  induction calls generalizing w with
  | nil => exact h
  | cons call calls ih =>
    refine ih ?_ (fun e he => hquiet e (List.mem_cons_of_mem _ he))
    cases call with
    | permit routeKey nowUnix =>
      rcases route_permit (w := w) routeKey key nowUnix with hsame | ⟨-, -, -, hhalf⟩
      · rw [hsame]
        exact h
      · rw [hhalf]
    | observe e =>
      rw [route_observe, if_neg (hquiet e List.mem_cons_self)]
      exact h

theorem halfOpen_of_grant (h : (w.ledger.permit key nowUnix).1 = .halfOpenProbe) :
    (∃ openedAt, (w.ledger.route key).phase = .opened openedAt) ∧
      ((w.step (.permit key nowUnix)).ledger.route key).phase = .halfOpen := by
  rcases w.ledger.permit_cases key nowUnix with ⟨hno, -⟩ | ⟨entry, openedAt, hget, hphase, heq⟩
  · exact absurd h hno
  · refine ⟨⟨openedAt, ?_⟩, ?_⟩
    · unfold route
      rw [hget]
      exact hphase
    · show ((IndexMap.get (w.ledger.permit key nowUnix).2.routes key).getD {}).phase = _
      rw [heq, IndexMap.get_insert_self]
      rfl

/-- **The circuits of a ledger, whatever is called.** The windows hold the
latest outcomes since the circuit last closed from half-open and the counters
the last run of failures; a closed circuit has reached no threshold; an open
one is left by a grant after its cooldown, by a probe's report, and for an
endpoint by any report on a half-open route; and a route is observed between
two of its grants. -/
theorem run_circuits (t : Thresholds) (calls : List Call) :
    let w := (start t).run calls
    (∀ key, (w.ledger.route key).outcomes.length ≤ t.windowSize ∧
      Tracked t (w.ledger.route key) (w.routeLog key)) ∧
    (∀ key, (w.ledger.endpoint key).outcomes.length ≤ t.windowSize ∧
      Tracked t (w.ledger.endpoint key) (w.endpointLog key)) ∧
    (∀ call key openedAt, (w.ledger.route key).phase = .opened openedAt →
      ((w.step call).ledger.route key).phase ≠ .opened openedAt →
      (∃ now, call = .permit key now ∧ (w.ledger.permit key now).1 = .halfOpenProbe ∧
        t.cooldownSecs ≤ now - openedAt) ∨
      ∃ e, call = .observe e ∧ e.routeKey = key ∧ e.halfOpenProbe = true) ∧
    (∀ call key openedAt, (w.ledger.endpoint key).phase = .opened openedAt →
      ((w.step call).ledger.endpoint key).phase ≠ .opened openedAt →
      ∃ e, call = .observe e ∧ e.endpointKey = key ∧
        (e.halfOpenProbe = true ∨ (w.ledger.route e.routeKey).phase = .halfOpen)) ∧
    (∀ e key openedAt, ((w.step (.observe e)).ledger.route key).phase = .opened openedAt →
      (w.ledger.route key).phase = .opened openedAt ∨ openedAt = e.observedAtUnix) ∧
    (∀ key now between now', (w.ledger.permit key now).1 = .halfOpenProbe →
      (((w.step (.permit key now)).run between).ledger.permit key now').1 = .halfOpenProbe →
      ∃ e, Call.observe e ∈ between ∧ e.routeKey = key) := by
  intro w
  have hthresholds : w.ledger.thresholds = t := by
    have hrun : ∀ (calls : List Call) (w : Watched),
        (w.run calls).ledger.thresholds = w.ledger.thresholds := by
      intro calls
      induction calls with
      | nil => exact fun w => rfl
      | cons call calls ih => exact fun w => (ih (w.step call)).trans (thresholds_step call)
    exact hrun calls (start t)
  have h : Sound w := (sound_start t).run calls
  rw [← hthresholds]
  refine ⟨fun key => ⟨(h.routes key).length_le, h.routes key⟩,
    fun key => ⟨(h.endpoints key).length_le, h.endpoints key⟩,
    fun call key openedAt hopen hleft => route_leaves hopen hleft,
    fun call key openedAt hopen hleft => endpoint_leaves hopen hleft,
    fun e key openedAt hopen => ?_, fun key now between now' hgrant hgrant' => ?_⟩
  · rw [route_observe] at hopen
    split at hopen
    · next heq =>
      refine (opened_at hopen).imp_left (fun hseen => ?_)
      rw [routeSeen, heq] at hseen
      unfold CircuitEntry.probed at hseen
      split at hseen
      · cases hseen
      · exact hseen
    · exact Or.inl hopen
  · by_contra hnone
    have hhalf : (((w.step (.permit key now)).run between).ledger.route key).phase = .halfOpen :=
      halfOpen_run (halfOpen_of_grant hgrant).2 (fun e he heq => hnone ⟨e, he, heq⟩)
    obtain ⟨⟨openedAt, hopen⟩, -⟩ := halfOpen_of_grant hgrant'
    rw [hhalf] at hopen
    cases hopen

end Watched

/-- An endpoint that is open leaves the open phase by a report that is no
probe's: its route is half-open. -/
theorem endpoint_closes_unflagged :
    let key : ReliabilityKey := ⟨"p", "m", "c", "e", "x"⟩
    let report (o : ReliabilityObservation) : ReliabilityEvent := ⟨"q", "r", key, o, false, 0⟩
    let w := (Watched.start ⟨1, 1, 1, 0, by decide, by decide, by decide⟩).run
      [.observe (report .transientFailure), .permit "r" 0]
    (w.ledger.endpoint key).phase = .opened 0 ∧ (report .success).halfOpenProbe = false ∧
      ((w.step (.observe (report .success))).ledger.endpoint key).phase = .closed := by
  decide +kernel

end BitRouter.Adequacy
