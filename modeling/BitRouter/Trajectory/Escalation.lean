import BitRouter.Data.Trailing
import BitRouter.Trajectory.Replay

/-!
# Escalation over a whole episode

An episode routed under one policy is a run of decisions. What the reducer
keeps of its history is a function of those decisions alone (`Mirrors`): the
streaks are trailing streaks, and the hold is a countdown set by activations
and falling by one at every request. Each decision is therefore decided by the
decisions before it (`Decided`), and the promises of the guard are facts about
such lists: no streak reaches its bound on unprotected tiers, and an activation
holds exactly as many requests as the policy says.
-/

namespace BitRouter.Trajectory

variable {M : Type}

/-- A routed request: the key of its projection and what was written for it. -/
structure Decision (M : Type) where
  projection : String
  batch : GuardedRouteBatch M

namespace Decision

variable (policy : ProgressGuardPolicy) (d : Decision M)

def selectedTier : Option String := d.batch.result.intent.selectedTier

def clauses : List RouteIntentClause := d.batch.result.intent.clauses

def escalated : Bool := d.selectedTier.any (· ∈ policy.protectedTiers)

/-- The selected tier is named and not protected. -/
def unprotected : Bool := d.selectedTier.any (· ∉ policy.protectedTiers)

/-- Some clause of the progress guard is applied. -/
def guarded : Bool := d.clauses.any fun c =>
  c.isApplied && startsWith c.clauseId "progress_guard."

def held : Bool := d.clauses.any fun c => c.isApplied && c.clauseId = "progress_guard.active_hold"

/-- An activation is appended for the request. -/
def activated : Bool := d.batch.guardEvent.isSome

variable {policy d}

theorem unprotected_eq_false (h : d.escalated policy = true) : d.unprotected policy = false := by
  unfold escalated at h
  unfold unprotected
  cases htier : d.selectedTier with
  | none => rfl
  | some tier => simp_all

end Decision

/-- **The runs of one episode under one policy**: requests routed by
`buildGuardedRouteBatch`, and settlements between them. -/
inductive GuardedRun (ledger : Ledger M) (policy : ProgressGuardPolicy) :
    List (TrajectoryEvent M) → List (Decision M) → Prop
  | nil : GuardedRun ledger policy [] []
  | request {history : List (TrajectoryEvent M)} {decisions : List (Decision M)}
    {start : TrajectoryEvent M} {completeness : HistoryCompleteness}
    {input : GuardedRouteInput M} {batch : GuardedRouteBatch M} :
    GuardedRun ledger policy history decisions →
    start.kind = .requestStarted → input.policy = policy →
    buildGuardedRouteBatch ledger history start completeness input = .ok batch →
    GuardedRun ledger policy (history ++ start :: batch.events)
      (decisions ++ [⟨input.projection.key, batch⟩])
  | settled {history : List (TrajectoryEvent M)} {decisions : List (Decision M)}
    {event : TrajectoryEvent M} :
    GuardedRun ledger policy history decisions → event.kind = .requestSettled →
    GuardedRun ledger policy (history ++ [event]) decisions

/-! ## What the reducer keeps -/

/-- **The running state is a function of the decisions.** -/
structure Mirrors (policy : ProgressGuardPolicy) (ds : List (Decision M)) (r : Reduction) :
    Prop where
  requestCount : r.requestCount = ds.length
  unprotected : r.consecutiveUnprotectedRequests = trailing (·.unprotected policy) ds
  projection : r.previousProjection = ds.getLast?.map (·.projection)
  streak : ∀ d ∈ ds.getLast?, r.sameProjectionStreak = trailing (·.projection = d.projection) ds
  hold : r.activeHoldRemaining = countdown policy.holdForRequests (·.activated) ds

/-- A state the reducer reaches by reading `events`. -/
def ReadsTo (ledger : Ledger M) (protectedTiers : Finset String)
    (events : List (TrajectoryEvent M)) (r : Reduction) : Prop :=
  ∃ owner episode instant, events.foldlM (Reduction.step ledger protectedTiers)
    (Reduction.initial owner episode instant) = .ok r

section Reading

variable {ledger : Ledger M} {protectedTiers : Finset String} {policy : ProgressGuardPolicy}
  {events events' : List (TrajectoryEvent M)} {event start : TrajectoryEvent M}
  {r r₀ : Reduction} {ds : List (Decision M)}

theorem readsTo_of_reduction (h : reduction ledger events protectedTiers = .ok r) :
    ReadsTo ledger protectedTiers events r := by
  obtain ⟨b, hbegun, h⟩ := bind_eq_ok.mp h
  obtain ⟨_, -, hbegun⟩ := bind_eq_ok.mp hbegun
  obtain ⟨_, -, hbegun⟩ := bind_eq_ok.mp hbegun
  obtain ⟨_, -, hbegun⟩ := bind_eq_ok.mp hbegun
  obtain rfl := pure_eq_ok.mp hbegun
  exact ⟨_, _, _, h⟩

theorem ReadsTo.append (h : ReadsTo ledger protectedTiers (events ++ events') r) :
    ∃ r₀, ReadsTo ledger protectedTiers events r₀
      ∧ events'.foldlM (Reduction.step ledger protectedTiers) r₀ = .ok r := by
  obtain ⟨owner, episode, instant, h⟩ := h
  rw [List.foldlM_append] at h
  obtain ⟨r₀, hr₀, h⟩ := bind_eq_ok.mp h
  exact ⟨r₀, ⟨owner, episode, instant, hr₀⟩, h⟩

theorem ReadsTo.concat (h : ReadsTo ledger protectedTiers (events ++ [event]) r) :
    ∃ r₀, ReadsTo ledger protectedTiers events r₀
      ∧ Reduction.step ledger protectedTiers r₀ event = .ok r := by
  obtain ⟨r₀, hr₀, h⟩ := h.append
  rw [List.foldlM_cons, bind_eq_ok] at h
  obtain ⟨r₁, hstep, h⟩ := h
  obtain rfl := pure_eq_ok.mp h
  exact ⟨r₀, hr₀, hstep⟩

namespace Mirrors

theorem initial (owner episode : String) (instant : ℤ) :
    Mirrors policy ([] : List (Decision M)) (Reduction.initial owner episode instant) where
  requestCount := rfl
  unprotected := rfl
  projection := rfl
  streak _ h := absurd h (by simp)
  hold := rfl

theorem settled (h : Mirrors policy ds r₀) (hkind : event.kind = .requestSettled)
    (hstep : Reduction.step ledger protectedTiers r₀ event = .ok r) : Mirrors policy ds r := by
  obtain ⟨capturedAt, -, hreact⟩ := step_eq_ok.mp hstep
  rw [Reduction.react, hkind] at hreact
  obtain ⟨_, _, _, _, -, -, -, -, rfl⟩ := Reduction.requestSettled_eq_ok hreact
  exact ⟨h.requestCount, h.unprotected, h.projection, h.streak, h.hold⟩

end Mirrors

/-- What a start leaves of the counters. -/
theorem step_start (hkind : start.kind = .requestStarted)
    (hstep : Reduction.step ledger protectedTiers r₀ start = .ok r) :
    r.requestCount = r₀.requestCount + 1
      ∧ r.activeHoldRemaining = r₀.activeHoldRemaining - 1
      ∧ r.consecutiveUnprotectedRequests = r₀.consecutiveUnprotectedRequests
      ∧ r.previousProjection = r₀.previousProjection
      ∧ r.sameProjectionStreak = r₀.sameProjectionStreak := by
  obtain ⟨capturedAt, -, hreact⟩ := step_eq_ok.mp hstep
  rw [Reduction.react, hkind] at hreact
  obtain ⟨_, _, _, -, -, -, rfl⟩ := Reduction.requestStarted_eq_ok hreact
  exact ⟨rfl, rfl, rfl, rfl, rfl⟩

variable {history : List (TrajectoryEvent M)} {completeness : HistoryCompleteness}
  {input : GuardedRouteInput M} {batch : GuardedRouteBatch M}

theorem Built.step_route (b : Built ledger history start completeness input batch)
    (hstep : Reduction.step ledger protectedTiers r₀ batch.routeEvent = .ok r) :
    r.requestCount = r₀.requestCount ∧ r.activeHoldRemaining = r₀.activeHoldRemaining
      ∧ r.consecutiveUnprotectedRequests
        = (if b.intent.selectedTier.any (· ∉ input.policy.protectedTiers) = true then
            r₀.consecutiveUnprotectedRequests + 1 else 0)
      ∧ r.previousProjection = some input.projection.key
      ∧ r.sameProjectionStreak
        = (if r₀.previousProjection = some input.projection.key then
            r₀.sameProjectionStreak + 1 else 1) := by
  rw [b.routeEvent_eq] at hstep
  obtain ⟨capturedAt, -, hreact⟩ := step_eq_ok.mp hstep
  have hrouted := Reduction.routeIntentRecorded_eq_ok hreact
  have hselected : (routeEvent ledger start input b.intent
      (start.sequence + 1)).evidence.categorical["route.selected_tier"]? = b.intent.selectedTier :=
    selectedTier_routeEvidence b.clauseIds
  have hprojected : (routeEvent ledger start input b.intent
      (start.sequence + 1)).evidence.categorical["route.projection"]? = some input.projection.key :=
    projection_routeEvidence b.clauseIds
  obtain ⟨isProtected, hprotected, hunprotected⟩ := hrouted.unprotected
  obtain rfl := Except.ok.inj ((selectedIsProtected_routeEvent _).symm.trans hprotected)
  have hstreak := hrouted.streak
  have hprojection := hrouted.projection
  rw [hselected] at hunprotected
  rw [hprojected] at hstreak hprojection
  refine ⟨by rw [hrouted.rest]; rfl, by rw [hrouted.rest]; rfl, ?_, hprojection, ?_⟩
  · unfold Reduction.unprotectedAfter at hunprotected
    cases htier : b.intent.selectedTier with
    | none =>
      rw [htier] at hunprotected
      exact (Except.ok.inj hunprotected).symm
    | some tier =>
      rw [htier] at hunprotected
      by_cases hmem : tier ∈ input.policy.protectedTiers
      · rw [if_pos (by simp [hmem])] at hunprotected
        rw [if_neg (by simp [hmem])]
        exact (Except.ok.inj hunprotected).symm
      · rw [if_neg (by simp [hmem])] at hunprotected
        rw [if_pos (by simp [hmem])]
        exact (checkedAdd_eq_ok.mp hunprotected).2.symm
  · unfold updateStreak at hstreak
    dsimp only at hstreak
    split at hstreak
    · next heq =>
      have hprevious : r₀.previousProjection = some input.projection.key := heq
      rw [if_pos hprevious]
      exact (checkedAdd_eq_ok.mp hstreak).2.symm
    · next hne =>
      have hprevious : r₀.previousProjection ≠ some input.projection.key := hne
      rw [if_neg hprevious]
      exact (Except.ok.inj hstreak).symm

theorem step_guard {intent : RouteIntent} {sequence : ℕ}
    (hstep : Reduction.step ledger protectedTiers r₀
      (guardEvent ledger start input intent sequence) = .ok r) :
    r.requestCount = r₀.requestCount
      ∧ r.activeHoldRemaining = input.policy.holdForRequests
      ∧ r.consecutiveUnprotectedRequests = r₀.consecutiveUnprotectedRequests
      ∧ r.previousProjection = r₀.previousProjection
      ∧ r.sameProjectionStreak = r₀.sameProjectionStreak := by
  obtain ⟨capturedAt, -, hreact⟩ := step_eq_ok.mp hstep
  obtain ⟨requestId, pending, hold, -, -, hhold, rfl⟩ := Reduction.guardActivated_eq_ok hreact
  obtain rfl := Option.some.inj (holdForRequests_guardEvidence.symm.trans hhold)
  exact ⟨rfl, rfl, rfl, rfl, rfl⟩

/-- **A decision is read as it was taken.** -/
theorem Mirrors.request (h : Mirrors policy ds r₀) (hkind : start.kind = .requestStarted)
    (hpolicy : input.policy = policy) (b : Built ledger history start completeness input batch)
    (hread : (start :: batch.events).foldlM (Reduction.step ledger protectedTiers) r₀ = .ok r) :
    Mirrors policy (ds ++ [⟨input.projection.key, batch⟩]) r := by
  subst hpolicy
  rw [List.foldlM_cons, bind_eq_ok] at hread
  obtain ⟨r₁, hstart, hread⟩ := hread
  rw [GuardedRouteBatch.events, List.foldlM_cons, bind_eq_ok] at hread
  obtain ⟨r₂, hroute, hread⟩ := hread
  obtain ⟨hcount₁, hhold₁, hunprotected₁, hprojection₁, hstreak₁⟩ := step_start hkind hstart
  obtain ⟨hcount₂, hhold₂, hunprotected₂, hprojection₂, hstreak₂⟩ := b.step_route hroute
  -- the activation, where there is one, only sets the hold
  have hlast : r.requestCount = r₂.requestCount
      ∧ r.activeHoldRemaining = (if batch.guardEvent.isSome = true then
        input.policy.holdForRequests else r₂.activeHoldRemaining)
      ∧ r.consecutiveUnprotectedRequests = r₂.consecutiveUnprotectedRequests
      ∧ r.previousProjection = r₂.previousProjection
      ∧ r.sameProjectionStreak = r₂.sameProjectionStreak := by
    rw [b.guardEvent_eq] at hread ⊢
    split at hread
    · rw [Option.toList_some, List.foldlM_cons, bind_eq_ok] at hread
      obtain ⟨r₃, hguard, hread⟩ := hread
      obtain rfl := pure_eq_ok.mp hread
      next hactivated =>
        rw [if_pos hactivated, Option.isSome_some, if_pos rfl]
        exact step_guard hguard
    · next hactivated =>
      obtain rfl := pure_eq_ok.mp hread
      rw [if_neg hactivated]
      exact ⟨rfl, rfl, rfl, rfl, rfl⟩
  obtain ⟨hcount, hhold, hunprotected, hprojection, hstreak⟩ := hlast
  have hintent : batch.result.intent = b.intent := by rw [b.result_eq]
  refine ⟨?_, ?_, ?_, ?_, ?_⟩
  · rw [hcount, hcount₂, hcount₁, h.requestCount, List.length_append]
    rfl
  · rw [hunprotected, hunprotected₂, hunprotected₁, h.unprotected, trailing_concat,
      Decision.unprotected, Decision.selectedTier, hintent]
  · rw [hprojection, hprojection₂, List.getLast?_concat]
    rfl
  · intro d hd
    rw [List.getLast?_concat] at hd
    obtain rfl := Option.some.inj hd
    show r.sameProjectionStreak = trailing
      (fun x : Decision M => x.projection = input.projection.key) _
    rw [trailing_concat, if_pos (decide_eq_true rfl), hstreak, hstreak₂, hprojection₁, hstreak₁]
    cases hprior : ds.getLast? with
    | none =>
      have hnil : ds = [] := List.getLast?_eq_none_iff.mp hprior
      rw [h.projection, hprior, if_neg (by simp), hnil]
      rfl
    | some last =>
      by_cases hsame : last.projection = input.projection.key
      · have hlast := h.streak last hprior
        rw [hsame] at hlast
        rw [h.projection, hprior, Option.map_some, if_pos (congrArg some hsame), hlast]
      · rw [h.projection, hprior, Option.map_some,
          if_neg (fun heq => hsame (Option.some.inj heq)),
          trailing_eq_zero (fun x hx => by
            obtain rfl := Option.some.inj (hprior.symm.trans hx)
            exact decide_eq_false hsame)]
  · rw [hhold, hhold₂, hhold₁, h.hold, countdown_concat]
    rfl

/-- **Whatever a run has written is read back as its decisions.** -/
theorem GuardedRun.mirrors (h : GuardedRun ledger policy history ds)
    (hread : ReadsTo ledger protectedTiers history r) : Mirrors policy ds r := by
  induction h generalizing r with
  | nil =>
    obtain ⟨owner, episode, instant, hread⟩ := hread
    obtain rfl := pure_eq_ok.mp hread
    exact Mirrors.initial _ _ _
  | request _ hkind hpolicy hbuild ih =>
    obtain ⟨b⟩ := buildGuardedRouteBatch_built hbuild
    obtain ⟨r₀, hr₀, hrest⟩ := hread.append
    exact (ih hr₀).request hkind hpolicy b hrest
  | settled _ hkind ih =>
    obtain ⟨r₀, hr₀, hstep⟩ := hread.concat
    exact (ih hr₀).settled hkind hstep

end Reading

/-! ## What decides a decision -/

/-- **A decision is decided by the decisions before it.** -/
structure Decided (policy : ProgressGuardPolicy) (before : List (Decision M)) (d : Decision M) :
    Prop where
  guarded : d.guarded = true → d.escalated policy = true
  held : d.held = decide (0 < countdown policy.holdForRequests (·.activated) before)
  activated : d.activated = true → d.held = false
  consecutive : ∀ m ∈ policy.maxConsecutiveUnprotected,
    m ≤ trailing (·.unprotected policy) before + 1 → d.unprotected policy = false
  sameProjection : ∀ m ∈ policy.maxSameProjectionUnprotected,
    m ≤ min (trailing (·.projection = d.projection) before)
      (trailing (·.unprotected policy) before) + 1 → d.unprotected policy = false
  requests : ∀ m ∈ policy.maxEpisodeRequests, m ≤ before.length + 1 → d.escalated policy = true

section Deciding

variable {ledger : Ledger M} {policy : ProgressGuardPolicy} {history : List (TrajectoryEvent M)}
  {start : TrajectoryEvent M} {completeness : HistoryCompleteness} {input : GuardedRouteInput M}
  {batch : GuardedRouteBatch M} {ds : List (Decision M)} {r : Reduction}

theorem snapshotFromFacts_health {facts : SnapshotFacts} {snapshot : TrajectorySnapshot}
    (h : snapshotFromFacts ledger facts = .ok snapshot) :
    snapshot.activeHoldRemaining = facts.activeHoldRemaining
      ∧ snapshot.health.requestCount = facts.requestCount
      ∧ snapshot.health.latestProjection = facts.latestProjection
      ∧ snapshot.health.sameProjectionStreak = facts.sameProjectionStreak
      ∧ snapshot.health.consecutiveUnprotectedRequests
        = facts.consecutiveUnprotectedRequests := by
  obtain ⟨health, hhealth, h⟩ := bind_eq_ok.mp h
  obtain rfl := pure_eq_ok.mp h
  obtain ⟨_, -, hhealth⟩ := bind_eq_ok.mp hhealth
  obtain ⟨_, -, hhealth⟩ := bind_eq_ok.mp hhealth
  obtain ⟨_, -, hhealth⟩ := bind_eq_ok.mp hhealth
  obtain rfl := pure_eq_ok.mp hhealth
  exact ⟨rfl, rfl, rfl, rfl, rfl⟩

namespace Built

/-- **What the guard sees of the history** is what the decisions say. -/
theorem prior_mirrors (b : Built ledger history start completeness input batch)
    (h : GuardedRun ledger input.policy history ds) :
    (∃ r, Mirrors input.policy ds r ∧ (∀ snapshot ∈ b.prior,
        snapshot.activeHoldRemaining = r.activeHoldRemaining
        ∧ snapshot.health.latestProjection = r.previousProjection
        ∧ snapshot.health.sameProjectionStreak = r.sameProjectionStreak
        ∧ snapshot.health.consecutiveUnprotectedRequests = r.consecutiveUnprotectedRequests))
      ∧ (b.prior = none → ds = []) := by
  have hprior := b.prior_ok
  unfold priorSnapshot at hprior
  split at hprior
  · next hempty =>
    obtain rfl := List.isEmpty_iff.mp hempty
    have hnone : b.prior = none := (Except.ok.inj hprior).symm
    have hread : ReadsTo ledger input.policy.protectedTiers [] (Reduction.initial "" "" 0) :=
      ⟨"", "", 0, rfl⟩
    have hmirrors := h.mirrors hread
    refine ⟨⟨_, hmirrors, fun _ hs => absurd (hnone ▸ hs) (by simp)⟩, fun _ => ?_⟩
    exact List.length_eq_zero_iff.mp hmirrors.requestCount.symm
  · obtain ⟨snapshot, hsnapshot, hsome⟩ := map_eq_ok.mp hprior
    obtain ⟨r, last, hr, -, -, hfacts⟩ := reduce_eq_ok.mp hsnapshot
    obtain ⟨hhold, -, hprojection, hstreak, hunprotected⟩ := snapshotFromFacts_health hfacts
    refine ⟨⟨r, h.mirrors (readsTo_of_reduction hr), ?_⟩, fun hnone =>
      absurd (hsome.trans hnone) (by simp)⟩
    intro snapshot' hs
    obtain rfl := Option.some.inj (hsome.trans hs)
    exact ⟨hhold, hprojection, hstreak, hunprotected⟩

theorem preIntent_requestCount (b : Built ledger history start completeness input batch)
    (hkind : start.kind = .requestStarted) (h : GuardedRun ledger input.policy history ds) :
    b.preIntent.health.requestCount = ds.length + 1 := by
  obtain ⟨r, hr, -, -, hpre⟩ := b.opened hkind
  obtain ⟨-, hcount, -⟩ := snapshotFromFacts_health hpre
  obtain ⟨r₀, hr₀, hstep⟩ := (readsTo_of_reduction hr).concat
  rw [hcount]
  exact (step_start hkind hstep).1.trans (congrArg (· + 1) (h.mirrors hr₀).requestCount)

/-- The guard applies some clause. -/
def applies (b : Built ledger history start completeness input batch) : Bool :=
  b.evaluation.intent.clauses.any (·.isApplied)

section

variable (b : Built ledger history start completeness input batch)

include b

/-- **Where the guard applies, the selected tier is protected**, the tool floor
included. -/
theorem escalates
    (h : b.applies = true) : b.intent.selectedTier.any (· ∈ input.policy.protectedTiers)
      = true := by
  obtain ⟨hfloor, heq⟩ := applyToolFloor_eq b.floored
  rw [heq]
  split
  · next hfloored => exact hfloor hfloored
  · exact b.judgement.isProtected h

theorem escalates_of_candidate
    (h : (guardInput b.prior b.preIntent completeness input).candidateIsProtected input.policy
      = true) : b.intent.selectedTier.any (· ∈ input.policy.protectedTiers) = true := by
  obtain ⟨hfloor, heq⟩ := applyToolFloor_eq b.floored
  rw [heq]
  split
  · next hfloored => exact hfloor hfloored
  · rw [b.judgement.selected, if_neg (by simp [h])]
    exact h

theorem applies_of_hold
    (h : (guardInput b.prior b.preIntent completeness input).holdActive = true) :
    b.applies = true := by
  obtain ⟨c, rest, hclauses, -, happlied⟩ := b.judgement.head
  rw [applies, hclauses, List.any_cons, happlied, h, Bool.true_or]

/-- **A clause that is reached escalates**, whether or not a hold suppresses
it. -/
theorem applies_of_raw
    (hraw : ∀ sameProjection unprotected recoveryCount,
      (guardInput b.prior b.preIntent completeness input).prospectiveSameProjectionUnprotected
        input.policy = .ok sameProjection →
      (guardInput b.prior b.preIntent completeness input).prospectiveUnprotected input.policy
        = .ok unprotected →
      ∃ c ∈ (guardInput b.prior b.preIntent completeness input).rawClauses input.policy
        sameProjection unprotected recoveryCount, c.isApplied = true) : b.applies = true := by
  cases hhold : (guardInput b.prior b.preIntent completeness input).holdActive with
  | true => exact b.applies_of_hold hhold
  | false =>
    obtain ⟨sameProjection, unprotected, recoveryCount, hsame, hunprotected, heq⟩ :=
      b.judgement.raw hhold
    rw [applies, heq, List.any_eq_true]
    exact hraw _ _ recoveryCount hsame hunprotected

end

def decision (_ : Built ledger history start completeness input batch) : Decision M :=
  ⟨input.projection.key, batch⟩

section

variable (b : Built ledger history start completeness input batch)

include b

theorem decision_clauses :
    b.decision.clauses
      = b.evaluation.intent.clauses
          ++ [toolFloorClause input b.evaluation.intent.selectedTier] := by
  obtain ⟨-, heq⟩ := applyToolFloor_eq b.floored
  show batch.result.intent.clauses = _
  rw [b.result_eq]
  exact congrArg (·.clauses) heq

theorem decision_escalated :
    b.decision.escalated input.policy
      = b.intent.selectedTier.any (· ∈ input.policy.protectedTiers) := by
  show batch.result.intent.selectedTier.any _ = _
  rw [b.result_eq]

theorem decision_held :
    b.decision.held = (guardInput b.prior b.preIntent completeness input).holdActive := by
  obtain ⟨c, rest, hclauses, hid, happlied⟩ := b.judgement.head
  have hids := b.judgement.clauseIds
  rw [hclauses, List.map_cons] at hids
  have hrest : rest.map (·.clauseId) = (stableClauseIds.take 8).tail := by
    rw [← hids]
    rfl
  have hother : ∀ c' ∈ rest, c'.clauseId ≠ "progress_guard.active_hold" := by
    intro c' hc'
    have hmem := List.mem_map_of_mem (f := (·.clauseId)) hc'
    rw [hrest] at hmem
    have hall : ∀ id ∈ (stableClauseIds.take 8).tail, id ≠ "progress_guard.active_hold" := by
      decide
    exact hall _ hmem
  unfold Decision.held
  rw [b.decision_clauses, List.any_append, hclauses, List.any_cons, hid, happlied]
  have hnone : rest.any (fun c => c.isApplied && c.clauseId = "progress_guard.active_hold")
      = false := by
    rw [List.any_eq_false]
    intro c' hc'
    simp [hother c' hc']
  rw [hnone]
  simp [toolFloorClause]

/-- **A decision is decided by the decisions before it.** -/
theorem decided
    (hkind : start.kind = .requestStarted) (h : GuardedRun ledger input.policy history ds) :
    Decided input.policy ds b.decision := by
  obtain ⟨⟨r, hmirrors, hprior⟩, hnone⟩ := b.prior_mirrors h
  have hescalated : b.applies = true → b.decision.escalated input.policy = true :=
    fun happlies => b.decision_escalated.trans (b.escalates happlies)
  have hhold : (guardInput b.prior b.preIntent completeness input).holdActive
      = decide (0 < countdown input.policy.holdForRequests (·.activated) ds) := by
    show b.prior.any (0 < ·.activeHoldRemaining) = _
    cases hb : b.prior with
    | none =>
      rw [hnone hb]
      rfl
    | some snapshot =>
      rw [Option.any_some, (hprior snapshot hb).1, hmirrors.hold]
  -- a candidate that is not protected, and the counters the guard sees of it
  have hcounters : ∀ sameProjection unprotected,
      (guardInput b.prior b.preIntent completeness input).candidateIsProtected input.policy
        = false →
      (guardInput b.prior b.preIntent completeness input).prospectiveSameProjectionUnprotected
        input.policy = .ok sameProjection →
      (guardInput b.prior b.preIntent completeness input).prospectiveUnprotected input.policy
        = .ok unprotected →
      sameProjection = min (trailing (·.projection = input.projection.key) ds)
          (trailing (·.unprotected input.policy) ds) + 1
        ∧ unprotected = trailing (·.unprotected input.policy) ds + 1 := by
    intro sameProjection unprotected hcandidate hsame hunprotected
    unfold ProgressGuardInput.prospectiveSameProjectionUnprotected at hsame
    unfold ProgressGuardInput.prospectiveUnprotected at hunprotected
    rw [if_neg (by simp [hcandidate])] at hsame hunprotected
    have hhealth : (guardInput b.prior b.preIntent completeness input).priorHealth
        = b.prior.map (·.health) := rfl
    rw [hhealth] at hsame hunprotected
    cases hb : b.prior with
    | none =>
      rw [hb] at hsame hunprotected
      rw [hnone hb]
      exact ⟨(Except.ok.inj hsame).symm, (checkedAdd_eq_ok.mp hunprotected).2.symm⟩
    | some snapshot =>
      obtain ⟨-, hprojection, hstreak, hrun⟩ := hprior snapshot hb
      rw [hb] at hsame hunprotected
      dsimp only [Option.map_some, Option.elim_some] at hsame hunprotected
      rw [hprojection, hstreak, hrun, hmirrors.unprotected, hmirrors.projection] at hsame
      rw [hrun, hmirrors.unprotected] at hunprotected
      refine ⟨?_, (checkedAdd_eq_ok.mp hunprotected).2.symm⟩
      cases hlast : ds.getLast? with
      | none =>
        obtain rfl := List.getLast?_eq_none_iff.mp hlast
        exact (Except.ok.inj hsame).symm
      | some last =>
        rw [hlast, Option.map_some] at hsame
        change (if some last.projection = some input.projection.key then _ else _) = _ at hsame
        by_cases hkey : last.projection = input.projection.key
        · rw [if_pos (congrArg some hkey), hmirrors.streak last hlast, hkey] at hsame
          exact (checkedAdd_eq_ok.mp hsame).2.symm
        · rw [if_neg (fun heq => hkey (Option.some.inj heq))] at hsame
          rw [trailing_eq_zero (fun x hx => by
            obtain rfl := Option.some.inj (hlast.symm.trans hx)
            exact decide_eq_false hkey), Nat.zero_min]
          exact (Except.ok.inj hsame).symm
  refine
    { guarded := ?_
      held := b.decision_held.trans hhold
      activated := ?_
      consecutive := ?_
      sameProjection := ?_
      requests := ?_ }
  · intro hguarded
    unfold Decision.guarded at hguarded
    rw [b.decision_clauses, List.any_append, Bool.or_eq_true] at hguarded
    rcases hguarded with hguarded | hguarded
    · obtain ⟨c, hc, happlied⟩ := List.any_eq_true.mp hguarded
      exact hescalated (List.any_eq_true.mpr ⟨c, hc, (Bool.and_eq_true _ _).mp happlied |>.1⟩)
    · -- the tool floor is no clause of the guard
      have hname : startsWith "tool_safety.floor" "progress_guard." = false := by decide +kernel
      obtain ⟨c, hc, happlied⟩ := List.any_eq_true.mp hguarded
      obtain rfl := List.mem_singleton.mp hc
      exact absurd ((Bool.and_eq_true _ _).mp happlied).2 (by simp [toolFloorClause, hname])
  · intro hactivated
    have hevaluated : b.evaluation.activated = true := by
      cases hb : b.evaluation.activated with
      | true => rfl
      | false =>
        have hguard : batch.guardEvent.isSome = true := hactivated
        rw [b.guardEvent_eq, hb] at hguard
        exact absurd hguard (by simp)
    have hnew := b.judgement.activated
    rw [hevaluated] at hnew
    rw [b.decision_held]
    exact (Bool.not_eq_true' _).mp ((Bool.and_eq_true _ _).mp hnew.symm).1
  · intro m hm hreached
    apply Decision.unprotected_eq_false
    cases hcandidate : (guardInput b.prior b.preIntent completeness input).candidateIsProtected
      input.policy with
    | true => exact b.decision_escalated.trans (b.escalates_of_candidate hcandidate)
    | false =>
      refine hescalated (b.applies_of_raw fun sameProjection unprotected recovery hsame hun => ?_)
      obtain ⟨-, rfl⟩ := hcounters _ _ hcandidate hsame hun
      refine ⟨thresholdClause "progress_guard.max_consecutive_unprotected"
        input.policy.maxConsecutiveUnprotected
        (some (trailing (·.unprotected input.policy) ds + 1)), by
          simp [ProgressGuardInput.rawClauses], ?_⟩
      rw [thresholdClause_isApplied]
      exact ⟨m, hm, _, rfl, hreached⟩
  · intro m hm hreached
    apply Decision.unprotected_eq_false
    cases hcandidate : (guardInput b.prior b.preIntent completeness input).candidateIsProtected
      input.policy with
    | true => exact b.decision_escalated.trans (b.escalates_of_candidate hcandidate)
    | false =>
      refine hescalated (b.applies_of_raw fun sameProjection unprotected recovery hsame hun => ?_)
      obtain ⟨rfl, -⟩ := hcounters _ _ hcandidate hsame hun
      refine ⟨thresholdClause "progress_guard.max_same_projection_unprotected"
        input.policy.maxSameProjectionUnprotected
        (some (min (trailing (·.projection = input.projection.key) ds)
          (trailing (·.unprotected input.policy) ds) + 1)), by
          simp [ProgressGuardInput.rawClauses], ?_⟩
      rw [thresholdClause_isApplied]
      exact ⟨m, hm, _, rfl, hreached⟩
  · intro m hm hreached
    refine hescalated (b.applies_of_raw fun sameProjection unprotected recovery _ _ => ?_)
    refine ⟨thresholdClause "progress_guard.max_episode_requests"
      input.policy.maxEpisodeRequests (some b.preIntent.health.requestCount), by
        simp [ProgressGuardInput.rawClauses, guardInput], ?_⟩
    rw [thresholdClause_isApplied]
    refine ⟨m, hm, _, rfl, ?_⟩
    rw [b.preIntent_requestCount hkind h]
    exact hreached

end

end Built

/-- **Every decision of a run is decided by those before it.** -/
theorem GuardedRun.decided (h : GuardedRun ledger policy history ds)
    {before after : List (Decision M)}
    {d : Decision M} (heq : ds = before ++ d :: after) : Decided policy before d := by
  induction h generalizing after with
  | nil => exact absurd heq (by simp)
  | request hrun hkind hpolicy hbuild ih =>
    subst hpolicy
    obtain ⟨b⟩ := buildGuardedRouteBatch_built hbuild
    induction after using List.reverseRecOn with
    | nil =>
      obtain ⟨rfl, hd⟩ := List.append_inj' heq rfl
      obtain rfl := List.singleton_inj.mp hd
      exact b.decided hkind hrun
    | append_singleton after last _ =>
      have hsplit : before ++ d :: (after ++ [last]) = (before ++ d :: after) ++ [last] := by simp
      obtain ⟨hinit, -⟩ := List.append_inj' (heq.trans hsplit) rfl
      exact ih hinit
  | settled _ _ ih => exact ih heq

end Deciding

/-! ## The promises of the guard -/

/-- **What a policy promises of the decisions of an episode.** -/
structure Escalates (policy : ProgressGuardPolicy) (ds : List (Decision M)) : Prop where
  guarded : ∀ d ∈ ds, d.guarded = true → d.escalated policy = true
  /-- No `m` requests in a row all select a named unprotected tier. -/
  consecutive : ∀ m ∈ policy.maxConsecutiveUnprotected, ∀ ys, ys <:+: ds → ys.length = m →
    ∃ d ∈ ys, d.unprotected policy = false
  sameProjection : ∀ s ∈ policy.maxSameProjectionUnprotected, ∀ key ys, ys <:+: ds →
    ys.length = s → (∀ d ∈ ys, d.projection = key) → ∃ d ∈ ys, d.unprotected policy = false
  /-- An activation holds the next `holdForRequests` requests, and not one
  more. -/
  holds : ∀ before d mid d' rest, ds = before ++ d :: (mid ++ d' :: rest) → d.activated = true →
    (mid.length < policy.holdForRequests → d'.held = true ∧ d'.activated = false)
      ∧ (mid.length = policy.holdForRequests → d'.held = false)
  /-- A request is held by an activation among the last `holdForRequests`. -/
  heldBy : ∀ before d after, ds = before ++ d :: after → d.held = true →
    ∃ pre a post, before = pre ++ a :: post ∧ a.activated = true
      ∧ post.length < policy.holdForRequests
  requests : ∀ m ∈ policy.maxEpisodeRequests, ∀ before d after, ds = before ++ d :: after →
    m ≤ before.length + 1 → d.escalated policy = true

section Promises

variable {policy : ProgressGuardPolicy} {ds : List (Decision M)}

theorem zero_notMem_thresholds (h : policy.validatePolicyShape = .ok ()) :
    0 ∉ policy.thresholds := by
  obtain ⟨_, -, h⟩ := bind_eq_ok.mp h
  obtain ⟨_, -, h⟩ := bind_eq_ok.mp h
  obtain ⟨_, -, h⟩ := bind_eq_ok.mp h
  exact ensure_eq_ok.mp h

theorem exists_concat_of_infix {ys : List (Decision M)} (hsegment : ys <:+: ds) (hpos : ys ≠ []) :
    ∃ pre init d post, ys = init ++ [d] ∧ ds = (pre ++ init) ++ d :: post := by
  obtain ⟨pre, post, rfl⟩ := hsegment
  obtain ⟨init, d, rfl⟩ := List.eq_nil_or_concat ys |>.resolve_left hpos
  exact ⟨pre, init, d, post, List.concat_eq_append, by simp⟩

/-- **Decisions that are each decided by those before them keep the promises.** -/
theorem escalates_of_decided (hpolicy : policy.validatePolicyShape = .ok ())
    (h : ∀ before d after, ds = before ++ d :: after → Decided policy before d) :
    Escalates policy ds := by
  have hpositive := zero_notMem_thresholds hpolicy
  refine
    { guarded := ?_, consecutive := ?_, sameProjection := ?_, holds := ?_, heldBy := ?_,
      requests := fun m hm before d after heq => (h before d after heq).requests m hm }
  · intro d hd
    obtain ⟨before, after, heq⟩ := List.append_of_mem hd
    exact (h before d after heq).guarded
  · intro m hm ys hsegment hlength
    have hne : ys ≠ [] := by
      rintro rfl
      obtain rfl : 0 = m := hlength
      exact hpositive (List.mem_filterMap.mpr ⟨some 0, by simp [Option.mem_def.mp hm], rfl⟩)
    obtain ⟨pre, init, d, post, rfl, heq⟩ := exists_concat_of_infix hsegment hne
    by_contra hall
    have hall : ∀ x ∈ init ++ [d], x.unprotected policy = true :=
      fun x hx => Bool.not_eq_false _ ▸ fun hfalse => hall ⟨x, hx, hfalse⟩
    -- all the requests before the last are part of the streak it sees
    have hstreak : init.length ≤ trailing (·.unprotected policy) (pre ++ init) :=
      length_le_trailing pre fun x hx => hall x (List.mem_append_left _ hx)
    have hreached : m ≤ trailing (·.unprotected policy) (pre ++ init) + 1 := by
      rw [← hlength, List.length_append]
      exact Nat.succ_le_succ hstreak
    have hprotected := (h _ d post heq).consecutive m hm hreached
    exact absurd (hall d (by simp)) (by simp [hprotected])
  · intro m hm key ys hsegment hlength hkey
    have hne : ys ≠ [] := by
      rintro rfl
      obtain rfl : 0 = m := hlength
      exact hpositive (List.mem_filterMap.mpr ⟨some 0, by simp [Option.mem_def.mp hm], rfl⟩)
    obtain ⟨pre, init, d, post, rfl, heq⟩ := exists_concat_of_infix hsegment hne
    by_contra hall
    have hall : ∀ x ∈ init ++ [d], x.unprotected policy = true :=
      fun x hx => Bool.not_eq_false _ ▸ fun hfalse => hall ⟨x, hx, hfalse⟩
    have hstreak : init.length ≤ trailing (·.unprotected policy) (pre ++ init) :=
      length_le_trailing pre fun x hx => hall x (List.mem_append_left _ hx)
    have hsame : init.length
        ≤ trailing (fun x : Decision M => x.projection = d.projection) (pre ++ init) := by
      refine length_le_trailing pre fun x hx => decide_eq_true ?_
      rw [hkey x (List.mem_append_left _ hx), hkey d (by simp)]
    have hreached : m ≤ min (trailing (fun x : Decision M => x.projection = d.projection)
        (pre ++ init)) (trailing (·.unprotected policy) (pre ++ init)) + 1 := by
      rw [← hlength, List.length_append]
      exact Nat.succ_le_succ (Nat.le_min.mpr ⟨hsame, hstreak⟩)
    have hprotected := (h _ d post heq).sameProjection m hm hreached
    exact absurd (hall d (by simp)) (by simp [hprotected])
  · intro before d mid d' rest heq hactivated
    -- by induction on the requests since the activation, none of which activates
    induction hn : mid.length using Nat.strong_induction_on generalizing mid d' rest with
    | _ n ih =>
      have hquiet : n ≤ policy.holdForRequests → ∀ x ∈ mid, x.activated = false := by
        intro hle x hx
        obtain ⟨mid₁, mid₂, rfl⟩ := List.append_of_mem hx
        have hshorter : mid₁.length < n := by
          rw [← hn, List.length_append, List.length_cons]
          omega
        have hsplit : ds = before ++ d :: (mid₁ ++ x :: (mid₂ ++ d' :: rest)) := by
          rw [heq]
          simp
        exact ((ih _ hshorter mid₁ x _ hsplit rfl).1 (Nat.lt_of_lt_of_le hshorter hle)).2
      have hdecided := h (before ++ d :: mid) d' rest (by rw [heq]; simp)
      have hleft : n ≤ policy.holdForRequests →
          countdown policy.holdForRequests (·.activated) (before ++ d :: mid)
            = policy.holdForRequests - n :=
        fun hle => hn ▸ countdown_after before hactivated (hquiet hle)
      constructor
      · intro hlt
        have hheld : d'.held = true := by
          rw [hdecided.held, hleft hlt.le]
          exact decide_eq_true (Nat.sub_pos_of_lt hlt)
        refine ⟨hheld, ?_⟩
        cases hactive : d'.activated with
        | false => rfl
        | true => exact absurd (hdecided.activated hactive) (by simp [hheld])
      · intro hlast
        rw [hdecided.held, hleft hlast.le, hlast, Nat.sub_self]
        rfl
  · intro before d after heq hheld
    rw [(h before d after heq).held] at hheld
    exact exists_of_countdown_pos (of_decide_eq_true hheld)

end Promises

/-- **An episode under a valid policy keeps the promises of the guard**, whatever
the candidates, the projections, the completeness and the settlements between
its requests. -/
theorem guardedRun_escalates (ledger : Ledger M) {policy : ProgressGuardPolicy}
    (hpolicy : policy.validatePolicyShape = .ok ()) {history : List (TrajectoryEvent M)}
    {ds : List (Decision M)} (h : GuardedRun ledger policy history ds) : Escalates policy ds :=
  escalates_of_decided hpolicy fun _ _ _ heq => h.decided heq

/-- Four requests of an episode: what the first activates holds the next two, and not the
last. -/
theorem guardedRun_escalates_first :
    ∃ b₁ b₂ b₃ b₄ : GuardedRouteBatch Unit,
      let d (n : ℕ) (b : GuardedRouteBatch Unit) : Decision Unit :=
        ⟨(Sample.nthRoute n).projection.key, b⟩
      GuardedRun Sample.ledger Sample.policy
          (Sample.afterThird b₁ b₂ b₃ ++ Sample.nthStart 4 10 :: b₄.events)
          [d 1 b₁, d 2 b₂, d 3 b₃, d 4 b₄]
        ∧ Escalates Sample.policy [d 1 b₁, d 2 b₂, d 3 b₃, d 4 b₄]
        ∧ (d 2 b₂).held = true ∧ (d 3 b₃).held = true ∧ (d 4 b₄).held = false := by
  obtain ⟨b₁, b₂, b₃, b₄, h₁, h₂, h₃, h₄, hguard, -⟩ := Sample.episode_built
  have hpolicy : Sample.policy.validatePolicyShape = .ok () := by decide +kernel
  have hrun : GuardedRun Sample.ledger Sample.policy _ _ := .request (.settled (.request
    (.settled (.request (.request .nil rfl rfl h₁) rfl rfl h₂) rfl) rfl rfl h₃) rfl) rfl rfl h₄
  have hpromises := guardedRun_escalates Sample.ledger hpolicy hrun
  exact ⟨b₁, b₂, b₃, b₄, hrun, hpromises,
    ((hpromises.holds [] _ [] _ _ rfl hguard).1 (Nat.zero_lt_two)).1,
    ((hpromises.holds [] _ [_] _ _ rfl hguard).1 (Nat.one_lt_two)).1,
    (hpromises.holds [] _ [_, _] _ _ rfl hguard).2 rfl⟩

end BitRouter.Trajectory
