import BitRouter.Data.IndexMap
import BitRouter.Data.Result
import BitRouter.Data.Run
import Mathlib.Algebra.Order.Ring.Nat
import Mathlib.Data.List.Nodup

/-!
# Circuits of provider routes, live and replayed

A ledger keeps one circuit per route and one per endpoint. `permit` moves an
open route to half-open once its cooldown has passed and says so in its
answer; `observeEvent` moves circuits by the outcome of a request. Only the
latter is recorded, and `replay` builds a ledger from what was recorded.

`World` runs a live ledger and its record side by side. The move that
`permit` makes is not in the record: `Follows` says that this is the whole
difference between a route and its replay, and that it lasts as long as the
probe is out. It holds as long as no request other than the probe reports on
a half-open route, for such a report ends the probe on the live ledger and
means nothing to the replay (`lateFailure_diverges`).
-/

namespace BitRouter.Adequacy

/-! ## Data -/

/-- What an endpoint circuit is about. -/
structure ReliabilityKey where
  provider : String
  model : String
  credentialClass : String
  endpointScope : String
  protocol : String
deriving DecidableEq, Repr

/-- How a request went. -/
inductive ReliabilityObservation
  | success
  | transientFailure
deriving DecidableEq, Repr

/-- An observation, as recorded. -/
structure ReliabilityEvent where
  requestId : String
  routeKey : String
  endpointKey : ReliabilityKey
  observation : ReliabilityObservation
  halfOpenProbe : Bool
  observedAtUnix : ℕ
deriving DecidableEq, Repr

/-- Whether a route may be used. -/
inductive RoutePermit
  | closed
  | halfOpenProbe
  | opened
deriving DecidableEq, Repr

/-- Where a circuit stands. -/
inductive EntryPhase
  | closed
  | opened (openedAt : ℕ)
  | halfOpen
deriving DecidableEq, Repr

/-- A window of outcomes. -/
structure CircuitEntry where
  outcomes : List Bool := []
  consecutiveFailures : ℕ := 0
  phase : EntryPhase := .closed
deriving DecidableEq, Repr

/-- The thresholds a ledger was built with, as `tryNew` accepts them. -/
structure Thresholds where
  windowSize : ℕ
  consecutiveFailureThreshold : ℕ
  errorRatePercent : ℕ
  cooldownSecs : ℕ
  window_pos : windowSize ≠ 0
  threshold_pos : consecutiveFailureThreshold ≠ 0
  rate_range : 1 ≤ errorRatePercent ∧ errorRatePercent ≤ 100
deriving DecidableEq

/-- A ledger. Its maps are read by key only. -/
structure ProviderReliabilityLedger where
  thresholds : Thresholds
  routes : List (String × CircuitEntry) := []
  endpoints : List (ReliabilityKey × CircuitEntry) := []
deriving DecidableEq

/-! ## Operations -/

def maxFailures : ℕ := 2 ^ 32 - 1

/-- The window of outcomes after one more. -/
def CircuitEntry.push (size : ℕ) (entry : CircuitEntry) (failed : Bool) : CircuitEntry :=
  let outcomes := entry.outcomes ++ [failed]
  { entry with
    outcomes := if size < outcomes.length then outcomes.drop 1 else outcomes
    consecutiveFailures :=
      if failed then min (entry.consecutiveFailures + 1) maxFailures else 0 }

/-- Does the window of an entry open its circuit? -/
def Thresholds.reached (t : Thresholds) (entry : CircuitEntry) : Prop :=
  t.consecutiveFailureThreshold ≤ entry.consecutiveFailures ∨
    (entry.outcomes.length = t.windowSize ∧
      t.errorRatePercent * t.windowSize ≤ entry.outcomes.count true * 100)

instance (t : Thresholds) (entry : CircuitEntry) : Decidable (t.reached entry) :=
  inferInstanceAs (Decidable (_ ∨ _))

/-- Opens it, if the window says so. -/
def Thresholds.trip (t : Thresholds) (entry : CircuitEntry) (nowUnix : ℕ) : CircuitEntry :=
  if t.reached entry then { entry with phase := .opened nowUnix } else entry

/-- A probe that succeeds closes it. -/
def CircuitEntry.recover (entry : CircuitEntry) (observation : ReliabilityObservation) :
    CircuitEntry :=
  if entry.phase = .halfOpen ∧ observation = .success then {} else entry

/-- One outcome more. -/
def applyObservation (t : Thresholds) (entry : CircuitEntry)
    (observation : ReliabilityObservation) (nowUnix : ℕ) : CircuitEntry :=
  let failed := decide (observation = .transientFailure)
  let entry := (entry.recover observation).push t.windowSize failed
  match entry.phase with
  | .halfOpen => if failed then { entry with phase := .opened nowUnix } else t.trip entry nowUnix
  | .opened _ => entry
  | .closed => t.trip entry nowUnix

def CircuitEntry.probed (entry : CircuitEntry) (probe : Bool) : CircuitEntry :=
  if probe then { entry with phase := .halfOpen } else entry

namespace ProviderReliabilityLedger

def tryNew (windowSize consecutiveFailureThreshold errorRatePercent cooldownSecs : ℕ) :
    Except String ProviderReliabilityLedger :=
  if hwindow : windowSize = 0 then
    .error "reliability window must be positive"
  else if hthreshold : consecutiveFailureThreshold = 0 then
    .error "consecutive failure threshold must be positive"
  else if hrate : 1 ≤ errorRatePercent ∧ errorRatePercent ≤ 100 then
    .ok { thresholds :=
      { windowSize, consecutiveFailureThreshold, errorRatePercent, cooldownSecs
        window_pos := hwindow, threshold_pos := hthreshold, rate_range := hrate } }
  else
    .error "error-rate threshold must be between 1 and 100"

/-- Both circuits see it. -/
def observeInner (ledger : ProviderReliabilityLedger) (routeKey : String)
    (endpointKey : ReliabilityKey) (observation : ReliabilityObservation)
    (halfOpenProbe : Bool) (nowUnix : ℕ) : ProviderReliabilityLedger :=
  let route := ((IndexMap.get ledger.routes routeKey).getD {}).probed halfOpenProbe
  -- on the live ledger, any observation of a half-open route counts as the probe's
  let routeWasHalfOpen := halfOpenProbe || decide (route.phase = .halfOpen)
  let endpoint := ((IndexMap.get ledger.endpoints endpointKey).getD {}).probed routeWasHalfOpen
  { ledger with
    routes := IndexMap.insert ledger.routes routeKey
      (applyObservation ledger.thresholds route observation nowUnix)
    endpoints := IndexMap.insert ledger.endpoints endpointKey
      (applyObservation ledger.thresholds endpoint observation nowUnix) }

def observeEvent (ledger : ProviderReliabilityLedger) (event : ReliabilityEvent) :
    ProviderReliabilityLedger :=
  ledger.observeInner event.routeKey event.endpointKey event.observation event.halfOpenProbe
    event.observedAtUnix

/-- A ledger from its record. -/
def replay (windowSize consecutiveFailureThreshold errorRatePercent cooldownSecs : ℕ)
    (events : List ReliabilityEvent) : Except String ProviderReliabilityLedger := do
  let ledger ← tryNew windowSize consecutiveFailureThreshold errorRatePercent cooldownSecs
  return events.foldl observeEvent ledger

/-- It may make the route half-open. -/
def permit (ledger : ProviderReliabilityLedger) (routeKey : String) (nowUnix : ℕ) :
    RoutePermit × ProviderReliabilityLedger :=
  match IndexMap.get ledger.routes routeKey with
  | none => (.closed, ledger)
  | some entry =>
    match entry.phase with
    | .closed => (.closed, ledger)
    | .halfOpen => (.opened, ledger)
    | .opened openedAt =>
      if ledger.thresholds.cooldownSecs ≤ nowUnix - openedAt then
        (.halfOpenProbe, { ledger with
          routes := IndexMap.insert ledger.routes routeKey { entry with phase := .halfOpen } })
      else (.opened, ledger)

end ProviderReliabilityLedger

/-! ## A live ledger and its record -/

/-- A request that asked for a permit, and the answer. -/
structure Admission where
  requestId : String
  routeKey : String
  permit : RoutePermit
deriving DecidableEq, Repr

inductive Step
  | permit (requestId routeKey : String) (nowUnix : ℕ)
  | observe (requestId : String) (endpointKey : ReliabilityKey)
      (observation : ReliabilityObservation) (nowUnix : ℕ)
deriving DecidableEq, Repr

def Step.nowUnix : Step → ℕ
  | .permit _ _ now => now
  | .observe _ _ _ now => now

/-- The live ledger, the requests it was asked about, and the events that
were recorded, in order. -/
structure World where
  live : ProviderReliabilityLedger
  admissions : List Admission := []
  recorded : List ReliabilityEvent := []

namespace World

/-- The request of an identity. -/
def admission (w : World) (requestId : String) : Option Admission :=
  w.admissions.find? (fun a => a.requestId = requestId)

/-- The event a request reports. -/
def event (a : Admission) (endpointKey : ReliabilityKey)
    (observation : ReliabilityObservation) (nowUnix : ℕ) : ReliabilityEvent :=
  { requestId := a.requestId
    routeKey := a.routeKey
    endpointKey, observation
    halfOpenProbe := decide (a.permit = .halfOpenProbe)
    observedAtUnix := nowUnix }

/-- One step. A permit is asked for under a new request identity, and only a
request that asked for one reports. -/
def step (w : World) : Step → Option World
  | .permit requestId routeKey nowUnix =>
    match w.admission requestId with
    | some _ => none
    | none =>
      let (permit, live) := w.live.permit routeKey nowUnix
      some { w with live, admissions := w.admissions ++ [⟨requestId, routeKey, permit⟩] }
  | .observe requestId endpointKey observation nowUnix =>
    (w.admission requestId).map fun a =>
      let e := event a endpointKey observation nowUnix
      { w with live := w.live.observeEvent e, recorded := w.recorded ++ [e] }

def run (w : World) (steps : List Step) : Option World := steps.foldlM step w

/-- The requests that were sent as a probe and have not reported yet. -/
def outstanding (w : World) : List Admission :=
  w.admissions.filter fun a =>
    a.permit = .halfOpenProbe ∧ a.requestId ∉ w.recorded.map ReliabilityEvent.requestId

/-- The phase of a route on the live ledger. -/
def phase (w : World) (routeKey : String) : EntryPhase :=
  ((IndexMap.get w.live.routes routeKey).getD {}).phase

/-- A step that does not report on a half-open route on behalf of a request
other than the probe. -/
def Undisturbed (w : World) : Step → Prop
  | .permit _ _ _ => True
  | .observe requestId _ _ _ => ∀ a ∈ w.admission requestId,
      w.phase a.routeKey = .halfOpen → a.permit = .halfOpenProbe

def RunsUndisturbed (w : World) : List Step → Prop
  | [] => True
  | s :: rest => w.Undisturbed s ∧ ∀ w' ∈ w.step s, w'.RunsUndisturbed rest

instance (w : World) : (s : Step) → Decidable (w.Undisturbed s)
  | .permit _ _ _ => inferInstanceAs (Decidable True)
  | .observe requestId _ _ _ =>
    inferInstanceAs (Decidable (∀ a ∈ w.admission requestId,
      w.phase a.routeKey = .halfOpen → a.permit = .halfOpenProbe))

instance decidableRunsUndisturbed :
    (w : World) → (steps : List Step) → Decidable (w.RunsUndisturbed steps)
  | _, [] => inferInstanceAs (Decidable True)
  | w, s :: rest =>
    haveI (w' : World) : Decidable (w'.RunsUndisturbed rest) := decidableRunsUndisturbed w' rest
    inferInstanceAs (Decidable (w.Undisturbed s ∧ ∀ w' ∈ w.step s, w'.RunsUndisturbed rest))

end World

/-! ## What an observation and a permit do -/

theorem Thresholds.trip_settled (t : Thresholds) {entry : CircuitEntry} (nowUnix : ℕ)
    (h : entry.phase ≠ .halfOpen) : (t.trip entry nowUnix).phase ≠ .halfOpen := by
  unfold trip
  split
  · simp
  · exact h

@[simp] theorem CircuitEntry.push_phase (size : ℕ) (entry : CircuitEntry) (failed : Bool) :
    (entry.push size failed).phase = entry.phase := rfl

theorem CircuitEntry.recover_success (entry : CircuitEntry) :
    (entry.recover .success).phase ≠ .halfOpen := by
  unfold recover
  split
  · simp
  · rename_i h
    simpa using h

/-- **An observation settles the circuit it moves.** -/
theorem applyObservation_settled (t : Thresholds) (entry : CircuitEntry)
    (observation : ReliabilityObservation) (nowUnix : ℕ) :
    (applyObservation t entry observation nowUnix).phase ≠ .halfOpen := by
  unfold applyObservation
  dsimp only
  split
  · rename_i hhalf
    cases observation with
    | success => exact absurd hhalf (entry.recover_success)
    | transientFailure => simp
  · rename_i hopen
    rw [hopen]
    simp
  · rename_i hclosed
    refine t.trip_settled nowUnix ?_
    rw [hclosed]
    simp

namespace ProviderReliabilityLedger

section

variable (ledger : ProviderReliabilityLedger)

include ledger

theorem observeEvent_route_self (event : ReliabilityEvent) :
    IndexMap.get (ledger.observeEvent event).routes event.routeKey
      = some (applyObservation ledger.thresholds
          (((IndexMap.get ledger.routes event.routeKey).getD {}).probed event.halfOpenProbe)
          event.observation event.observedAtUnix) :=
  IndexMap.get_insert_self _ _ _

theorem observeEvent_endpoint_self (event : ReliabilityEvent) :
    IndexMap.get (ledger.observeEvent event).endpoints event.endpointKey
      = some (applyObservation ledger.thresholds
          (((IndexMap.get ledger.endpoints event.endpointKey).getD {}).probed
            (event.halfOpenProbe || decide
              ((((IndexMap.get ledger.routes event.routeKey).getD {}).probed
              event.halfOpenProbe).phase = .halfOpen)))
          event.observation event.observedAtUnix) :=
  IndexMap.get_insert_self _ _ _

theorem observeEvent_endpoint_of_ne
    (event : ReliabilityEvent) {endpointKey : ReliabilityKey}
    (h : event.endpointKey ≠ endpointKey) :
    IndexMap.get (ledger.observeEvent event).endpoints endpointKey
      = IndexMap.get ledger.endpoints endpointKey :=
  IndexMap.get_insert_of_ne _ _ h

theorem observeEvent_route_of_ne (event : ReliabilityEvent)
    {routeKey : String} (h : event.routeKey ≠ routeKey) :
    IndexMap.get (ledger.observeEvent event).routes routeKey
      = IndexMap.get ledger.routes routeKey :=
  IndexMap.get_insert_of_ne _ _ h

end

theorem tryNew_routes {windowSize consecutiveFailureThreshold errorRatePercent cooldownSecs : ℕ}
    {ledger : ProviderReliabilityLedger}
    (h : tryNew windowSize consecutiveFailureThreshold errorRatePercent cooldownSecs = .ok ledger) :
    ledger.routes = [] := by
  unfold tryNew at h
  split at h
  · cases h
  split at h
  · cases h
  split at h
  · cases h
    rfl
  · cases h

/-- **What a permit does**: nothing, or it moves an open route to half-open
and answers that the request is its probe. -/
theorem permit_cases (ledger : ProviderReliabilityLedger) (routeKey : String) (nowUnix : ℕ) :
    ((ledger.permit routeKey nowUnix).1 ≠ .halfOpenProbe
        ∧ (ledger.permit routeKey nowUnix).2 = ledger)
      ∨ ∃ entry openedAt, IndexMap.get ledger.routes routeKey = some entry
          ∧ entry.phase = .opened openedAt
          ∧ ledger.permit routeKey nowUnix = (.halfOpenProbe,
              { ledger with routes :=
                  IndexMap.insert ledger.routes routeKey { entry with phase := .halfOpen } }) := by
  unfold permit
  cases hget : IndexMap.get ledger.routes routeKey with
  | none => exact Or.inl ⟨by simp, rfl⟩
  | some entry =>
    cases hphase : entry.phase with
    | closed => exact Or.inl ⟨by simp [hphase], by simp [hphase]⟩
    | halfOpen => exact Or.inl ⟨by simp [hphase], by simp [hphase]⟩
    | opened openedAt =>
      by_cases hcool : ledger.thresholds.cooldownSecs ≤ nowUnix - openedAt
      · exact Or.inr ⟨entry, openedAt, rfl, hphase, by simp [hphase, hcool]⟩
      · exact Or.inl ⟨by simp [hphase, hcool], by simp [hphase, hcool]⟩

end ProviderReliabilityLedger

/-! ## A replay follows the live ledger -/

/-- **What a replayed route may lack**: nothing, or the move to half-open
made for a probe that is out. -/
inductive Follows (probing : Prop) : Option CircuitEntry → Option CircuitEntry → Prop
  | same (o : Option CircuitEntry) (settled : ∀ e, o = some e → e.phase ≠ .halfOpen) :
      Follows probing o o
  | probing (e : CircuitEntry) (out : probing) :
      Follows probing (some { e with phase := .halfOpen }) (some e)

variable {o : Option CircuitEntry} {p : Prop}

theorem Follows.mono {q : Prop} {o' : Option CircuitEntry} (h : Follows p o o') (hpq : p → q) :
    Follows q o o' := by
  cases h with
  | same _ settled => exact .same _ settled
  | probing e out => exact .probing e (hpq out)

theorem Follows.eq_of_idle {o' : Option CircuitEntry} (h : Follows p o o') (hidle : ¬ p) :
    o = o' := by
  cases h with
  | same => rfl
  | probing e out => exact absurd out hidle

theorem Follows.of_opened {entry : CircuitEntry} (h : Follows p (some entry) o) {openedAt : ℕ}
    (hopen : entry.phase = .opened openedAt) :
    o = some entry := by
  cases h with
  | same => rfl
  | probing => simp at hopen

/-- An observation sees the same entry on both sides, if it is the probe's
or if the live route is not half-open. -/
theorem Follows.probed_eq {o' : Option CircuitEntry} {probe : Bool} (h : Follows p o o')
    (hprobe : (o.getD {}).phase = .halfOpen → probe = true) :
    (o.getD {}).probed probe = (o'.getD {}).probed probe := by
  cases h with
  | same => rfl
  | probing e out =>
    obtain rfl : probe = true := hprobe rfl
    rfl

/-- What a replay has in common with it. -/
structure Agrees (w : World) (replayed : ProviderReliabilityLedger) : Prop where
  thresholds : w.live.thresholds = replayed.thresholds
  endpoints : ∀ k, IndexMap.get w.live.endpoints k = IndexMap.get replayed.endpoints k
  routes : ∀ r, Follows (∃ a ∈ w.outstanding, a.routeKey = r)
    (IndexMap.get w.live.routes r) (IndexMap.get replayed.routes r)

/-- The invariant of a run: identities are not reused, only known requests
report, and the replay of the record agrees with the live ledger. -/
structure Mirrored (start : ProviderReliabilityLedger) (w : World) : Prop where
  ids : (w.admissions.map Admission.requestId).Nodup
  known : ∀ e ∈ w.recorded, ∃ a ∈ w.admissions, a.requestId = e.requestId
  agrees : Agrees w (w.recorded.foldl ProviderReliabilityLedger.observeEvent start)

variable {w : World}

theorem World.admission_eq_none {requestId : String} (h : w.admission requestId = none) :
    ∀ a ∈ w.admissions, a.requestId ≠ requestId := by
  intro a ha
  simpa using List.find?_eq_none.mp h a ha

variable {a : Admission}

theorem World.admission_eq_some {requestId : String} (h : w.admission requestId = some a) :
    a ∈ w.admissions ∧ a.requestId = requestId :=
  ⟨List.mem_of_find?_eq_some h, by simpa using List.find?_some h⟩

theorem World.mem_outstanding :
    a ∈ w.outstanding ↔ a ∈ w.admissions ∧ a.permit = .halfOpenProbe
      ∧ a.requestId ∉ w.recorded.map ReliabilityEvent.requestId := by
  rw [World.outstanding, List.mem_filter, decide_eq_true_iff]

theorem Mirrored.unique {start : ProviderReliabilityLedger} (h : Mirrored start w) {b : Admission}
    (ha : a ∈ w.admissions) (hb : b ∈ w.admissions) (hid : a.requestId = b.requestId) : a = b :=
  List.inj_on_of_nodup_map h.ids ha hb hid

theorem Mirrored.permit {start : ProviderReliabilityLedger} {w w' : World}
    {requestId routeKey : String} {nowUnix : ℕ} (h : Mirrored start w)
    (hstep : w.step (.permit requestId routeKey nowUnix) = some w') : Mirrored start w' := by
  rw [World.step] at hstep
  split at hstep
  · simp at hstep
  rename_i hfresh
  have hnew := World.admission_eq_none hfresh
  obtain rfl := Option.some.inj hstep
  have hunreported : requestId ∉ w.recorded.map ReliabilityEvent.requestId := by
    intro hmem
    obtain ⟨e, he, rfl⟩ := List.mem_map.mp hmem
    obtain ⟨a, ha, hid⟩ := h.known e he
    exact hnew a ha hid
  have hkept : ∀ r, (∃ a ∈ w.outstanding, a.routeKey = r) →
      ∃ a ∈ World.outstanding { w with
          live := (w.live.permit routeKey nowUnix).2
          admissions := w.admissions
            ++ [⟨requestId, routeKey, (w.live.permit routeKey nowUnix).1⟩] },
        a.routeKey = r := by
    rintro r ⟨a, ha, hr⟩
    obtain ⟨hmem, hprobe⟩ := World.mem_outstanding.mp ha
    exact ⟨a, World.mem_outstanding.mpr ⟨List.mem_append_left _ hmem, hprobe⟩, hr⟩
  refine ⟨?_, ?_, ?_⟩
  · show ((w.admissions ++ [_]).map Admission.requestId).Nodup
    rw [List.map_append]
    refine h.ids.append (List.nodup_singleton _) ?_
    rintro x hx hx'
    obtain ⟨a, ha, rfl⟩ := List.mem_map.mp hx
    exact hnew a ha (by simpa using hx')
  · intro e he
    obtain ⟨a, ha, hid⟩ := h.known e he
    exact ⟨a, List.mem_append_left _ ha, hid⟩
  · rcases w.live.permit_cases routeKey nowUnix with ⟨-, hlive⟩
      | ⟨entry, openedAt, hget, hopen, heq⟩
    · refine ⟨?_, ?_, fun r => ?_⟩
      · show (w.live.permit routeKey nowUnix).2.thresholds = _
        rw [hlive]
        exact h.agrees.thresholds
      · intro k
        show IndexMap.get (w.live.permit routeKey nowUnix).2.endpoints k = _
        rw [hlive]
        exact h.agrees.endpoints k
      · have hfollows := (h.agrees.routes r).mono (hkept r)
        show Follows _ (IndexMap.get (w.live.permit routeKey nowUnix).2.routes r) _
        rwa [hlive]
    · refine ⟨?_, ?_, fun r => ?_⟩
      · show (w.live.permit routeKey nowUnix).2.thresholds = _
        rw [heq]
        exact h.agrees.thresholds
      · intro k
        show IndexMap.get (w.live.permit routeKey nowUnix).2.endpoints k = _
        rw [heq]
        exact h.agrees.endpoints k
      · have hfollows := (h.agrees.routes r).mono (hkept r)
        show Follows _ (IndexMap.get (w.live.permit routeKey nowUnix).2.routes r) _
        rw [heq]
        show Follows _ (IndexMap.get (IndexMap.insert w.live.routes routeKey
          { entry with phase := .halfOpen }) r) _
        by_cases hr : routeKey = r
        · subst hr
          -- the replay still has the route open, and the new request is the probe
          have hsame : IndexMap.get
              (w.recorded.foldl ProviderReliabilityLedger.observeEvent start).routes routeKey
                = some entry := by
            have hold := h.agrees.routes routeKey
            rw [hget] at hold
            exact hold.of_opened hopen
          rw [IndexMap.get_insert_self, hsame]
          refine .probing entry ⟨_, World.mem_outstanding.mpr
            ⟨List.mem_append_right _ (List.mem_singleton.mpr rfl), ?_, hunreported⟩, rfl⟩
          show (w.live.permit routeKey nowUnix).1 = _
          rw [heq]
        · rwa [IndexMap.get_insert_of_ne _ _ hr]

theorem Mirrored.observe {start : ProviderReliabilityLedger} {w w' : World} {requestId : String}
    {endpointKey : ReliabilityKey} {observation : ReliabilityObservation} {nowUnix : ℕ}
    (h : Mirrored start w)
    (hquiet : w.Undisturbed (.observe requestId endpointKey observation nowUnix))
    (hstep : w.step (.observe requestId endpointKey observation nowUnix) = some w') :
    Mirrored start w' := by
  obtain ⟨a, hfound, rfl⟩ := Option.map_eq_some_iff.mp hstep
  obtain ⟨hmem, hid⟩ := World.admission_eq_some hfound
  set e := World.event a endpointKey observation nowUnix with he
  have hprobed := (h.agrees.routes e.routeKey).probed_eq
    (fun hhalf => show e.halfOpenProbe = true from decide_eq_true (hquiet a hfound hhalf))
  refine ⟨h.ids, ?_, ?_⟩
  · intro x hx
    rcases List.mem_append.mp hx with hx | hx
    · exact h.known x hx
    · obtain rfl := List.mem_singleton.mp hx
      exact ⟨a, hmem, rfl⟩
  · show Agrees _ ((w.recorded ++ [e]).foldl ProviderReliabilityLedger.observeEvent start)
    rw [List.foldl_append, List.foldl_cons, List.foldl_nil]
    refine ⟨h.agrees.thresholds, fun k => ?_, fun r => ?_⟩
    · show IndexMap.get (w.live.observeEvent e).endpoints k = _
      by_cases hk : e.endpointKey = k
      · subst hk
        rw [ProviderReliabilityLedger.observeEvent_endpoint_self,
          ProviderReliabilityLedger.observeEvent_endpoint_self, ← h.agrees.thresholds,
          ← h.agrees.endpoints, hprobed]
      · rw [ProviderReliabilityLedger.observeEvent_endpoint_of_ne _ _ hk,
          ProviderReliabilityLedger.observeEvent_endpoint_of_ne _ _ hk]
        exact h.agrees.endpoints k
    · show Follows _ (IndexMap.get (w.live.observeEvent e).routes r) _
      by_cases hr : e.routeKey = r
      · subst hr
        rw [ProviderReliabilityLedger.observeEvent_route_self,
          ProviderReliabilityLedger.observeEvent_route_self, ← h.agrees.thresholds, hprobed]
        refine .same _ (fun entry hentry => ?_)
        rw [← Option.some.inj hentry]
        exact applyObservation_settled _ _ _ _
      · rw [ProviderReliabilityLedger.observeEvent_route_of_ne _ _ hr,
          ProviderReliabilityLedger.observeEvent_route_of_ne _ _ hr]
        refine (h.agrees.routes r).mono ?_
        rintro ⟨b, hb, rfl⟩
        obtain ⟨hbmem, hbprobe, hbout⟩ := World.mem_outstanding.mp hb
        refine ⟨b, World.mem_outstanding.mpr ⟨hbmem, hbprobe, fun hreported => ?_⟩, rfl⟩
        rw [List.map_append, List.mem_append] at hreported
        rcases hreported with hreported | hreported
        · exact hbout hreported
        · -- the request that reported is on another route
          have hsame : b.requestId = a.requestId := by simpa [he, World.event] using hreported
          exact hr (congrArg Admission.routeKey (h.unique hmem hbmem hsame.symm))

theorem Mirrored.start {ledger : ProviderReliabilityLedger}
    (hroutes : ledger.routes = []) : Mirrored ledger { live := ledger } := by
  refine ⟨List.nodup_nil, fun e he => absurd he List.not_mem_nil, rfl, fun _ => rfl, fun r => ?_⟩
  refine .same _ (fun e he => ?_)
  rw [show IndexMap.get ledger.routes r = none by rw [hroutes]; rfl] at he
  exact absurd he (by simp)

theorem Mirrored.step {start : ProviderReliabilityLedger} {w w' : World} {s : Step}
    (h : Mirrored start w) (hquiet : w.Undisturbed s) (hstep : w.step s = some w') :
    Mirrored start w' := by
  cases s with
  | permit requestId routeKey nowUnix => exact h.permit hstep
  | observe requestId endpointKey observation nowUnix => exact h.observe hquiet hstep

theorem Mirrored.run {start : ProviderReliabilityLedger} :
    ∀ {steps : List Step} {w w' : World}, Mirrored start w → w.RunsUndisturbed steps →
      w.run steps = some w' → Mirrored start w'
  | [], w, w', h, _, hrun => by
    obtain rfl : w = w' := by simpa [World.run] using hrun
    exact h
  | s :: rest, w, w', h, hquiet, hrun => by
    obtain ⟨next, hnext, hrest⟩ := Option.bind_eq_some_iff.mp hrun
    exact (h.step hquiet.1 hnext).run (hquiet.2 next hnext) hrest

theorem Agrees.routes_eq {replayed : ProviderReliabilityLedger} (h : Agrees w replayed)
    (hidle : w.outstanding = []) (r : String) :
    IndexMap.get w.live.routes r = IndexMap.get replayed.routes r := by
  refine (h.routes r).eq_of_idle ?_
  rintro ⟨a, ha, -⟩
  rw [hidle] at ha
  exact List.not_mem_nil ha

/-- **A replay restores the circuits.** In every run in which no request
other than the probe reports on a half-open route, the replay of the record
has, whenever no probe is out, the circuits of the live ledger: their phases,
opening times and windows. -/
theorem replay_restores {windowSize consecutiveFailureThreshold errorRatePercent cooldownSecs : ℕ}
    {ledger : ProviderReliabilityLedger}
    (hnew : ProviderReliabilityLedger.tryNew windowSize consecutiveFailureThreshold
      errorRatePercent cooldownSecs = .ok ledger)
    (steps : List Step) {w : World} (hrun : World.run { live := ledger } steps = some w)
    (hquiet : World.RunsUndisturbed { live := ledger } steps) (hidle : w.outstanding = []) :
    ∃ replayed, ProviderReliabilityLedger.replay windowSize consecutiveFailureThreshold
        errorRatePercent cooldownSecs w.recorded = .ok replayed
      ∧ (∀ r, IndexMap.get w.live.routes r = IndexMap.get replayed.routes r)
      ∧ ∀ k, IndexMap.get w.live.endpoints k = IndexMap.get replayed.endpoints k := by
  have hagrees := ((Mirrored.start (ProviderReliabilityLedger.tryNew_routes hnew)).run
    hquiet hrun).agrees
  refine ⟨w.recorded.foldl ProviderReliabilityLedger.observeEvent ledger, ?_,
    hagrees.routes_eq hidle, hagrees.endpoints⟩
  rw [ProviderReliabilityLedger.replay, hnew]
  rfl

namespace Sample

def endpoint (provider : String) : ReliabilityKey :=
  ⟨provider, "model", "default", "api.example.test:443", "responses"⟩

/-- Two failures in a row open a circuit, and a probe is due ten seconds
later. -/
def ledger : ProviderReliabilityLedger :=
  { thresholds := ⟨4, 2, 100, 10, by decide, by decide, by decide⟩ }

/-- A route opens, and a probe is sent. -/
def opening : List Step :=
  [.permit "first" "route" 1, .permit "second" "route" 1, .permit "late" "route" 2,
    .observe "first" (endpoint "a") .transientFailure 3,
    .observe "second" (endpoint "a") .transientFailure 4,
    .permit "probe" "route" 14]

def probed : List Step := opening ++ [.observe "probe" (endpoint "a") .success 15]

/-- A request that was let through before the route opened fails while the
probe is out. -/
def disturbed : List Step :=
  opening ++ [.observe "late" (endpoint "b") .transientFailure 15,
    .observe "probe" (endpoint "a") .success 16]

def after (steps : List Step) : World :=
  (World.run { live := ledger } steps).getD { live := ledger }

end Sample

theorem replay_restores_probed :
    ∃ replayed, ProviderReliabilityLedger.replay 4 2 100 10 (Sample.after Sample.probed).recorded
        = .ok replayed
      ∧ (∀ r, IndexMap.get (Sample.after Sample.probed).live.routes r
          = IndexMap.get replayed.routes r)
      ∧ ∀ k, IndexMap.get (Sample.after Sample.probed).live.endpoints k
          = IndexMap.get replayed.endpoints k :=
  @replay_restores 4 2 100 10 Sample.ledger rfl Sample.probed _ rfl (by decide +kernel)
    (by decide +kernel)

/-- The live ledger takes the endpoint of the late failure, which had seen no
failure, for one that is being probed, and opens it; the replay leaves it
closed. -/
theorem lateFailure_diverges :
    ∃ w replayed, ProviderReliabilityLedger.tryNew 4 2 100 10 = .ok Sample.ledger
      ∧ Sample.disturbed.Pairwise (fun a b => a.nowUnix ≤ b.nowUnix)
      ∧ World.run { live := Sample.ledger } Sample.disturbed = some w
      ∧ w.outstanding = []
      ∧ ProviderReliabilityLedger.replay 4 2 100 10 w.recorded = .ok replayed
      ∧ (IndexMap.get w.live.endpoints (Sample.endpoint "b")).map CircuitEntry.phase
          = some (.opened 15)
      ∧ (IndexMap.get replayed.endpoints (Sample.endpoint "b")).map CircuitEntry.phase
          = some .closed :=
  ⟨Sample.after Sample.disturbed, _, rfl, by decide +kernel, rfl, by decide +kernel, rfl,
    by decide +kernel, by decide +kernel⟩

end BitRouter.Adequacy
