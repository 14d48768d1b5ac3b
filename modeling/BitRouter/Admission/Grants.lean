import BitRouter.Admission.Holdings

/-!
# Who is granted

The scan of the queue, and the two ways to a lease: at once, or from the
queue. Both go through `reserve`, which the invariant survives because a grant
needs a free slot and no pending publication.
-/

namespace BitRouter.Admission

open Tenancy
open Receipts (ErrorCode)

variable {now : ℕ} {s' : State} {tenant : TenantId}

namespace State

variable {s : State} {profile : Profile} {x : Waiter}

/-! ## The scan -/

/-- **What the scan chooses**: the first of its tenant, not passed over, that
may be admitted – and before it no other of that kind. -/
theorem firstAdmitted_eq_some {seen : List TenantId} {queue : List Waiter} :
    s.firstAdmitted seen queue = some x ↔
      ∃ front back, queue = front ++ x :: back ∧ x.tenant ∉ seen ∧ s.admits x = true
        ∧ (∀ y ∈ front, y.tenant ≠ x.tenant) ∧ s.firstAdmitted seen front = none := by
  induction queue generalizing seen with
  | nil => simp [firstAdmitted]
  | cons w ws ih =>
    by_cases hw : w.tenant ∉ seen ∧ s.admits w = true
    · rw [firstAdmitted, if_pos hw]
      constructor
      · rintro heq
        obtain rfl := Option.some.inj heq
        exact ⟨[], ws, rfl, hw.1, hw.2, by simp, rfl⟩
      · rintro ⟨front, back, hsplit, -, -, -, hnone⟩
        cases front with
        | nil => exact congrArg some (List.cons.inj hsplit).1
        | cons y front =>
          obtain ⟨rfl, -⟩ := List.cons.inj hsplit
          rw [firstAdmitted, if_pos hw] at hnone
          exact absurd hnone (by simp)
    · rw [firstAdmitted, if_neg hw, ih]
      constructor
      · rintro ⟨front, back, rfl, hseen, hadmits, hfirst, hnone⟩
        obtain ⟨hne, hseen'⟩ := not_or.mp (List.mem_cons.not.mp hseen)
        refine ⟨w :: front, back, rfl, hseen', hadmits,
          List.forall_mem_cons.mpr ⟨Ne.symm hne, hfirst⟩, ?_⟩
        rw [firstAdmitted, if_neg hw]
        exact hnone
      · rintro ⟨front, back, hsplit, hseen, hadmits, hfirst, hnone⟩
        cases front with
        | nil =>
          obtain ⟨rfl, -⟩ := List.cons.inj hsplit
          exact absurd ⟨hseen, hadmits⟩ hw
        | cons y front =>
          obtain ⟨rfl, rfl⟩ := List.cons.inj hsplit
          obtain ⟨hne, hfirst'⟩ := List.forall_mem_cons.mp hfirst
          rw [firstAdmitted, if_neg hw] at hnone
          exact ⟨front, back, rfl,
            List.mem_cons.not.mpr (not_or.mpr ⟨Ne.symm hne, hseen⟩), hadmits, hfirst',
            hnone⟩

theorem nextEligible_eq_some :
    s.nextEligible profile = some x ↔
      s.closed = false ∧ s.active < profile.instanceActive
        ∧ s.firstAdmitted [] s.queue = some x := by
  unfold nextEligible
  by_cases hclosed : s.closed = true
  · simp [hclosed]
  · by_cases hfull : profile.instanceActive ≤ s.active
    · simp [hfull]
    · have hroom : s.active < profile.instanceActive := Nat.lt_of_not_le hfull
      simp [hclosed, hfull, hroom]

/-- **A chosen waiter is queued, a slot is free and its limit not reached.** -/
theorem nextEligible_spec (h : s.nextEligible profile = some x) :
    x ∈ s.queue ∧ s.active < profile.instanceActive ∧ s.admits x = true := by
  obtain ⟨-, hroom, hfirst⟩ := nextEligible_eq_some.mp h
  obtain ⟨front, back, hqueue, -, hadmits, -⟩ := firstAdmitted_eq_some.mp hfirst
  exact ⟨hqueue ▸ List.mem_append_right _ List.mem_cons_self, hroom, hadmits⟩

theorem receiptsReady_open (h : s.receiptsReady tenant = true) :
    s.publicationPending = none := by
  exact Option.isNone_iff_eq_none.mp (Bool.and_eq_true _ _ ▸ h).1

theorem admits_ready (h : s.admits x = true) : s.receiptsReady x.tenant = true :=
  (Bool.and_eq_true _ _ ▸ h).1

theorem admits_limit (h : s.admits x = true) : (s.counts x.tenant).active < x.activeLimit := by
  obtain ⟨c, hget, hc⟩ := (Option.any_eq_true _ _).mp (Bool.and_eq_true _ _ ▸ h).2
  rw [counts_of_get hget]
  exact of_decide_eq_true hc

/-! ## What an answer says -/

theorem tryAcquire_eq_ok {limits : Limits} {deadline : ℕ}
    (h : s.tryAcquire profile tenant limits deadline now = .ok ((), s')) :
    s.closed = false ∧ s.receiptsReady tenant = true
      ∧ (s.counts tenant).active < min limits.activeExecutions.toNat profile.tenantActive
      ∧ s.active < profile.instanceActive ∧ (s.counts tenant).queued = 0
      ∧ s.nextEligible profile = none ∧ s.reserve tenant = .ok s' := by
  unfold tryAcquire at h
  simp only [bind_eq_ok, ensure_eq_ok, pure_eq_ok, Prod.mk.injEq, true_and, not_or] at h
  obtain ⟨-, hclosed, -, ⟨-, hready, hlimit, hroom, hqueued, hnext⟩, _, hreserve, rfl⟩ := h
  exact ⟨hclosed, by simpa using hready, by omega, by omega, by simpa using hqueued,
    by simpa using hnext, hreserve⟩

/-- **What a registration has done**: it has taken a lease, past an empty line
of its tenant, or a place at the end of the queue. -/
theorem register_eq_ok {limits : Limits} {deadline id : ℕ} {answer : Registration}
    (h : s.register profile tenant limits deadline id now = .ok (answer, s')) :
    s.closed = false ∧ s.receiptsReady tenant = true ∧
    ((answer = .active ∧ s.reserve tenant = .ok s'
        ∧ (s.counts tenant).active < min limits.activeExecutions.toNat profile.tenantActive
        ∧ s.active < profile.instanceActive ∧ (s.counts tenant).queued = 0
        ∧ s.nextEligible profile = none)
      ∨ ∃ waiter : Waiter, answer = .queued waiter ∧ waiter.id = id ∧ waiter.tenant = tenant
        ∧ waiter.activeLimit = min limits.activeExecutions.toNat profile.tenantActive
        ∧ waiter.deadline = deadline
        ∧ (s.counts tenant).queued < min limits.queuedWork.toNat profile.tenantQueue
        ∧ s.queue.length < profile.instanceQueue
        ∧ s' = { s with queue := s.queue ++ [waiter] }.setCounts tenant
            { s.counts tenant with queued := (s.counts tenant).queued + 1 }) := by
  unfold register at h
  simp only [bind_eq_ok, ensure_eq_ok] at h
  obtain ⟨-, hclosed, -, -, -, hready, -, -, hrest⟩ := h
  refine ⟨hclosed, by simpa using hready, ?_⟩
  split at hrest
  · next hfast =>
    simp only [bind_eq_ok, pure_eq_ok, Prod.mk.injEq] at hrest
    obtain ⟨_, hreserve, rfl, rfl⟩ := hrest
    exact Or.inl ⟨rfl, hreserve, hfast⟩
  · simp only [bind_eq_ok, ensure_eq_ok, pure_eq_ok, Prod.mk.injEq] at hrest
    obtain ⟨-, ⟨hlimit, hroom⟩, rfl, rfl⟩ := hrest
    exact Or.inr ⟨_, rfl, rfl, rfl, rfl, rfl, hlimit, hroom, rfl⟩

theorem check_eq_ok {waiter : Waiter} {granted : Bool}
    (h : s.check profile waiter now = .ok (granted, s')) :
    s.closed = false ∧
    ((granted = true ∧ ∃ next s₁, s.nextEligible profile = some next ∧ next.id = waiter.id
        ∧ s.reserve waiter.tenant = .ok s₁ ∧ s' = s₁.remove waiter)
      ∨ (granted = false ∧ s' = s
        ∧ ∀ next, s.nextEligible profile = some next → next.id ≠ waiter.id)) := by
  unfold check at h
  simp only [bind_eq_ok, ensure_eq_ok] at h
  obtain ⟨-, hclosed, -, -, hrest⟩ := h
  refine ⟨hclosed, ?_⟩
  split at hrest
  · next hany =>
    simp only [bind_eq_ok, pure_eq_ok, Prod.mk.injEq] at hrest
    obtain ⟨s₁, hreserve, rfl, rfl⟩ := hrest
    obtain ⟨next, hnext, hid⟩ := (Option.any_eq_true _ _).mp hany
    exact Or.inl ⟨rfl, next, s₁, hnext, of_decide_eq_true hid, hreserve, rfl⟩
  · next hany =>
    obtain ⟨rfl, rfl⟩ := hrest
    refine Or.inr ⟨rfl, rfl, fun next hnext hid => hany ?_⟩
    exact (Option.any_eq_true _ _).mpr ⟨next, hnext, by simpa using hid⟩

end State

namespace Kept

variable {w : World}

/-! ## Grants keep the invariant -/

theorem tryAcquire (h : Kept w) {tenant : TenantId} {limits : Limits} {deadline now : ℕ}
    {s' : State}
    (ht : w.state.tryAcquire w.config.profile tenant limits deadline now = .ok ((), s')) :
    Kept { w with state := s', held := w.held.grant tenant } := by
  obtain ⟨-, hready, -, hroom, -, -, hreserve⟩ := State.tryAcquire_eq_ok ht
  exact h.reserve hroom (State.receiptsReady_open hready) hreserve

/-- **A grant from the queue keeps the invariant.** -/
theorem check (h : Kept w) {t : Task} (ht : t ∈ w.tasks) {now : ℕ} {s' : State}
    (hc : w.state.check w.config.profile t.waiter now = .ok (true, s')) :
    Kept { w with state := s', held := w.held.grant t.waiter.tenant } := by
  obtain ⟨-, hcase⟩ := State.check_eq_ok hc
  rcases hcase with ⟨-, next, s₁, hnext, hid, hreserve, rfl⟩ | ⟨hfalse, -⟩
  · obtain ⟨hmem, hroom, hadmits⟩ := State.nextEligible_spec hnext
    have hopen := State.receiptsReady_open (State.admits_ready hadmits)
    exact (h.reserve hroom hopen hreserve).remove ht
  · exact absurd hfalse (by simp)

end Kept

/-! ## Critical sections by their answer -/

/-- **What an update that may be refused has come to.** -/
theorem update_attempt {α : Type} {s : State} {profile : Profile} {r : Reading}
    {change : State → Except ErrorCode (α × State)} {answer : Except ErrorCode α}
    {woken : List Waiter} (h : s.update profile r (State.attempt change) = (answer, woken, s')) :
    (∃ a s₁, answer = .ok a ∧ change (s.prepared r).2 = .ok (a, s₁)
        ∧ s' = (s₁.concluded profile).2)
      ∨ ∃ e, answer = .error e ∧ s' = ((s.prepared r).2.concluded profile).2 := by
  unfold State.update State.attempt at h
  dsimp only at h
  cases hresult : change (s.prepared r).2 with
  | error e =>
    rw [hresult] at h
    obtain ⟨rfl, -, rfl⟩ := Prod.mk.injEq .. ▸ (Prod.mk.injEq .. ▸ h)
    exact Or.inr ⟨e, rfl, rfl⟩
  | ok result =>
    rw [hresult] at h
    obtain ⟨rfl, -, rfl⟩ := Prod.mk.injEq .. ▸ (Prod.mk.injEq .. ▸ h)
    exact Or.inl ⟨_, _, rfl, rfl, rfl⟩

namespace Kept

variable {w : World}

theorem refused (h : Kept w) (r : Reading) (woken : List Waiter) :
    Kept (w.after woken ((w.state.prepared r).2.concluded w.config.profile).2) :=
  (h.prepared r).concluded.after woken

/-- **A registration keeps the invariant.** -/
theorem enqueue (h : Kept w) (r : Reading) (tenant : TenantId) (limits : Limits) (deadline : ℕ) :
    Kept (w.enqueue r tenant limits deadline) := by
  unfold World.enqueue
  rcases hu : w.state.update w.config.profile r (State.attempt (fun s =>
    s.register w.config.profile tenant limits deadline w.held.nextId r.inside))
    with ⟨answer, woken, s'⟩
  have hprepared := h.prepared r
  rcases update_attempt hu with ⟨answer, s₁, rfl, hok, rfl⟩ | ⟨e, rfl, rfl⟩
  · obtain ⟨-, hready, hcase⟩ := State.register_eq_ok hok
    rcases hcase with ⟨rfl, hreserve, -, hroom, -⟩ | ⟨waiter, rfl, hid, rfl, -, -, -, -, rfl⟩
    · have hgranted := hprepared.reserve hroom (State.receiptsReady_open hready) hreserve
      exact Kept.after (w := { w with held := w.held.grant tenant }) hgranted.concluded woken
    · have hpushed := hprepared.push hid
      exact Kept.after (w := { w with
        tasks := w.tasks ++ [({ waiter := waiter } : Task)]
        held := { w.held with nextId := w.held.nextId + 1 } }) hpushed.concluded woken
  · exact h.refused r woken

/-- **The check of a queued caller keeps the invariant.** -/
theorem checkTask (h : Kept w) {t : Task} (ht : t ∈ w.tasks) (r : Reading) :
    Kept (w.checkTask t r) := by
  unfold World.checkTask
  rcases hu : w.state.update w.config.profile r
    (State.attempt (fun s => s.check w.config.profile t.waiter r.inside)) with ⟨answer, woken, s'⟩
  have hspent : ∀ phase, ∀ t : Task, ({ t with alerted := false, phase := phase } : Task).waiter
      = t.waiter := fun _ _ => rfl
  rcases update_attempt hu with ⟨granted, s₁, rfl, hok, rfl⟩ | ⟨e, rfl, rfl⟩
  · have hprepared := h.prepared r
    cases granted with
    | true =>
      have hgranted := (hprepared.check ht hok).setTask t.waiter.id (hspent .leaving)
      exact Kept.after (w := { w.setTask t.waiter.id (fun t =>
        { t with alerted := false, phase := .leaving }) with
          held := w.held.grant t.waiter.tenant }) hgranted.concluded woken
    | false =>
      obtain ⟨-, hcase⟩ := State.check_eq_ok hok
      obtain ⟨-, rfl, -⟩ := hcase.resolve_left (fun hor => absurd hor.1 (by simp))
      exact (h.setTask t.waiter.id (hspent .waiting)).refused r woken
  · exact (h.setTask t.waiter.id (hspent .leaving)).refused r woken

end Kept

end BitRouter.Admission
