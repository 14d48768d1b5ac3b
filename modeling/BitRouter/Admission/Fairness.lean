import BitRouter.Admission.Outcome

/-!
# Fairness of the queue

Four properties of every interleaving. A tenant's requests are granted in the
order of their registrations, within the limit of the request granted
(`Kept.grant_spec`); the scan passes over a tenant whose first waiter is not
eligible (`State.nextEligible_filter`, `Kept.check_granted`); and the first
eligible waiter has always been notified since it last checked, with the
notification under way where it sleeps (`World.Alert`).
-/

namespace BitRouter.Admission

open Tenancy
open Receipts (ErrorCode Accounting Inventory reservation rowOverhead)

/-! ## Grants -/

/-- The limit of the request an event may grant. -/
def Event.limit (w : World) : Event → Option ℕ
  | .acquire _ limits _ _ _ =>
    some (min limits.activeExecutions.toNat w.config.profile.tenantActive)
  | .tryAcquire _ limits _ _ =>
    some (min limits.activeExecutions.toNat w.config.profile.tenantActive)
  | .check id _ => (w.task id).map (fun t => t.waiter.activeLimit)
  | _ => none

/-- **A grant in the critical section `s`**, whose change comes to `s'`: at once,
or of a queued caller whose turn it is. -/
inductive Grant (w : World) : Event → TenantId → State → State → Prop
  | acquire {tenant : TenantId} {limits : Limits} {requestDeadline started : ℕ} {r : Reading}
      {s' : State} :
      (w.state.prepared r).2.register w.config.profile tenant limits
        (min requestDeadline (started + w.config.queueWait)) w.held.nextId r.inside
        = .ok (.active, s') →
      Grant w (.acquire tenant limits requestDeadline started r) tenant (w.state.prepared r).2 s'
  | check {id : ℕ} {r : Reading} {t : Task} {s' : State} :
      w.task id = some t →
      (w.state.prepared r).2.check w.config.profile t.waiter r.inside = .ok (true, s') →
      Grant w (.check id r) t.waiter.tenant (w.state.prepared r).2 s'
  | tryAcquire {tenant : TenantId} {limits : Limits} {deadline : ℕ} {r : Reading} {s' : State} :
      (w.state.prepared r).2.tryAcquire w.config.profile tenant limits deadline r.inside
        = .ok ((), s') →
      Grant w (.tryAcquire tenant limits deadline r) tenant (w.state.prepared r).2 s'

variable {e : Event} {l : Lease} {r : Reading} {tenant : TenantId} {α : Type}

namespace World

variable {w : World}

theorem enqueue_grant {limits : Limits} {deadline : ℕ} (hold : l ∉ w.held.leases)
    (hnew : l ∈ (w.enqueue r tenant limits deadline).held.leases) :
    ∃ s', (w.state.prepared r).2.register w.config.profile tenant limits deadline w.held.nextId
        r.inside = .ok (.active, s')
      ∧ l.tenant = tenant
      ∧ (w.enqueue r tenant limits deadline).state = (s'.concluded w.config.profile).2 := by
  unfold enqueue at hnew ⊢
  rcases hu : w.state.update w.config.profile r (State.attempt (fun s =>
    s.register w.config.profile tenant limits deadline w.held.nextId r.inside))
    with ⟨answer, woken, s'⟩
  rw [hu] at hnew
  rcases update_attempt hu with ⟨answer, s₁, rfl, hok, rfl⟩ | ⟨e, rfl, rfl⟩
  · cases answer with
    | active =>
      rcases List.mem_cons.mp hnew with rfl | hmem
      · exact ⟨s₁, hok, rfl, rfl⟩
      · exact absurd hmem hold
    | queued waiter => exact absurd hnew hold
  · exact absurd hnew hold

theorem checkTask_grant {t : Task} (hold : l ∉ w.held.leases)
    (hnew : l ∈ (w.checkTask t r).held.leases) :
    ∃ s', (w.state.prepared r).2.check w.config.profile t.waiter r.inside = .ok (true, s')
      ∧ l.tenant = t.waiter.tenant
      ∧ (w.checkTask t r).state = (s'.concluded w.config.profile).2 := by
  unfold checkTask at hnew ⊢
  rcases hu : w.state.update w.config.profile r
    (State.attempt (fun s => s.check w.config.profile t.waiter r.inside)) with ⟨answer, woken, s'⟩
  rw [hu] at hnew
  rcases update_attempt hu with ⟨granted, s₁, rfl, hok, rfl⟩ | ⟨e, rfl, rfl⟩
  · cases granted with
    | true =>
      rcases List.mem_cons.mp hnew with rfl | hmem
      · exact ⟨s₁, hok, rfl, rfl⟩
      · exact absurd hmem hold
    | false => exact absurd hnew hold
  · exact absurd hnew hold

theorem attempt_leases {change : State → Except ErrorCode (α × State)} {gain : α → Held → Held}
    (hgain : ∀ a o, (gain a o).leases = o.leases) :
    (w.attempt r change gain).held.leases = w.held.leases := by
  rcases w.attempt_held r change gain with heq | ⟨a, _, -, heq⟩
  · rw [heq]
  · rw [heq, hgain]

theorem finishPublication_leases {p : Publication} {b : Bool} {disposition : Disposition} :
    (w.finishPublication p b disposition r).held.leases = w.held.leases := by
  unfold finishPublication
  dsimp only
  split
  · split <;> rfl
  · rfl

/-- **A lease nobody held before has been granted.** -/
theorem step_grant (hold : l ∉ w.held.leases) (hnew : l ∈ (w.step e).held.leases) :
    ∃ s s', Grant w e l.tenant s s' ∧ (w.step e).state = (s'.concluded w.config.profile).2 := by
  have hattempt : ∀ {α : Type} {r : Reading} {change : State → Except ErrorCode (α × State)}
      {gain : α → Held → Held}, l ∈ (w.attempt r change gain).held.leases →
      (∀ a o, (gain a o).leases = o.leases) → False :=
    fun hmem hgain => hold (attempt_leases hgain ▸ hmem)
  cases e with
  | acquire tenant limits requestDeadline started r =>
    obtain ⟨s', hok, rfl, hstate⟩ := enqueue_grant hold hnew
    exact ⟨_, s', .acquire hok, hstate⟩
  | check id r =>
    rw [step_check] at hnew ⊢
    cases hfind : w.task id with
    | none =>
      rw [hfind] at hnew
      exact absurd hnew hold
    | some t =>
      rw [hfind] at hnew
      rw [Option.elim_some] at hnew ⊢
      split at hnew
      · next hchecking =>
        rw [if_pos hchecking]
        obtain ⟨s', hok, htenant, hstate⟩ := checkTask_grant hold hnew
        exact ⟨_, s', htenant ▸ Grant.check hfind hok, hstate⟩
      · exact absurd hnew hold
  | tryAcquire tenant limits deadline r =>
    rcases hu : w.state.update w.config.profile r (State.attempt (fun s =>
      s.tryAcquire w.config.profile tenant limits deadline r.inside)) with ⟨answer, woken, s'⟩
    unfold step attempt at hnew ⊢
    dsimp only at hnew ⊢
    rw [hu] at hnew ⊢
    rcases update_attempt hu with ⟨_, s₁, rfl, hok, rfl⟩ | ⟨e, rfl, rfl⟩
    · rcases List.mem_cons.mp hnew with rfl | hmem
      · exact ⟨_, s₁, .tryAcquire hok, rfl⟩
      · exact absurd hmem hold
    · exact absurd hnew hold
  | dropLease lease r =>
    unfold step at hnew
    dsimp only at hnew
    split at hnew
    · exact absurd (List.mem_of_mem_erase hnew) hold
    · exact absurd hnew hold
  | deliver id =>
    unfold step at hnew
    dsimp only at hnew
    split at hnew <;> exact absurd hnew hold
  | leave id r =>
    unfold step at hnew
    dsimp only at hnew
    split at hnew
    · split at hnew <;> exact absurd hnew hold
    · exact absurd hnew hold
  | bind lease execution r =>
    unfold step at hnew
    dsimp only at hnew
    split at hnew
    · exact (hattempt hnew (fun _ _ => rfl)).elim
    · exact absurd hnew hold
  | pinUnknown tenant maintenance r =>
    exact (hattempt hnew (fun a o => by split <;> rfl)).elim
  | seedUnknown read tenant count r =>
    exact (hattempt hnew (fun _ _ => rfl)).elim
  | dropPin tenant r =>
    unfold step at hnew
    dsimp only at hnew
    split at hnew <;> exact absurd hnew hold
  | learn tenant maximum r =>
    exact (hattempt hnew (fun _ _ => rfl)).elim
  | dropLearner tenant r =>
    unfold step at hnew
    dsimp only at hnew
    split at hnew <;> exact absurd hnew hold
  | upload bytes r =>
    unfold step at hnew
    dsimp only at hnew
    split at hnew
    · exact (hattempt hnew (fun _ _ => rfl)).elim
    · exact absurd hnew hold
  | dropUpload bytes r =>
    unfold step at hnew
    dsimp only at hnew
    split at hnew <;> exact absurd hnew hold
  | reserveRepair read tenant bytes entries r =>
    exact (hattempt hnew (fun _ _ => rfl)).elim
  | finishRepair repair committed r =>
    unfold step at hnew
    dsimp only at hnew
    split at hnew
    · exact (hattempt hnew (fun _ _ => rfl)).elim
    · exact absurd hnew hold
  | dropRepair repair r =>
    unfold step at hnew
    dsimp only at hnew
    split at hnew <;> exact absurd hnew hold
  | prepare read changes terminals disposition r =>
    unfold step at hnew
    dsimp only at hnew
    split at hnew
    · exact absurd hnew hold
    · exact (hattempt hnew (fun _ _ => rfl)).elim
  | finish rollback disposition r =>
    unfold step at hnew
    dsimp only at hnew
    split at hnew
    · exact absurd (finishPublication_leases ▸ hnew) hold
    · exact absurd hnew hold
  | dropPublication r =>
    unfold step at hnew
    dsimp only at hnew
    split at hnew <;> exact absurd hnew hold
  | reservePhysicalWrite bytes maintenance r =>
    exact (hattempt hnew (fun _ _ => rfl)).elim
  | _ => exact absurd hnew hold

end World

namespace State

variable {s s' : State} {t : TenantId}

theorem unqueue_active (t u : TenantId) :
    ((s.unqueue t).counts u).active = (s.counts u).active := by
  unfold unqueue
  rw [idle_active]
  cases hget : s.tenants[t]? with
  | none => rfl
  | some c =>
    show ((s.setCounts t _).counts u).active = (s.counts u).active
    rw [counts_setCounts]
    split
    · next heq => rw [heq, counts_of_get hget]
    · rfl

theorem remove_active (waiter : Waiter) (u : TenantId) :
    ((s.remove waiter).counts u).active = (s.counts u).active := by
  unfold remove
  split
  · exact unqueue_active _ _
  · rfl

theorem reserve_active (h : s.reserve t = .ok s') :
    (s'.counts t).active = (s.counts t).active + 1 := by
  obtain ⟨_, -, -, -, rfl⟩ := reserve_eq_ok h
  rw [counts_setCounts_self]

theorem concluded_open {profile : Profile} (h : s.closed = false) :
    (s.concluded profile).2 = s := by
  unfold concluded
  rw [if_neg (by simp [h])]

theorem receiptsReady_unfenced (h : s.receiptsReady t = true) : s.receipts.fenced = false := by
  obtain ⟨n, -, hn⟩ := (Option.any_eq_true _ _).mp (Bool.and_eq_true _ _ ▸ h).2
  exact (Accounting.ready_eq_true hn).1

end State

theorem Grant.reading {w : World} {s s' : State} (h : Grant w e tenant s s') :
    ∃ r, s = (w.state.prepared r).2 := by
  cases h <;> exact ⟨_, rfl⟩

/-- **A grant needs an open, unfenced controller**, and leaves it open. -/
theorem Grant.opened {w : World} {s s' : State} (h : Grant w e tenant s s') :
    s.receipts.fenced = false ∧ s'.closed = false := by
  cases h with
  | acquire hok =>
    obtain ⟨hclosed, hready, ⟨-, hreserve, -⟩ | ⟨_, hqueued, -⟩⟩ := State.register_eq_ok hok
    · obtain ⟨_, -, -, -, rfl⟩ := State.reserve_eq_ok hreserve
      exact ⟨State.receiptsReady_unfenced hready, hclosed⟩
    · exact absurd hqueued (by simp)
  | check hfind hok =>
    obtain ⟨hclosed, ⟨-, next, s₁, hnext, -, hreserve, rfl⟩ | ⟨hfalse, -⟩⟩ := State.check_eq_ok hok
    · obtain ⟨-, -, hadmits⟩ := State.nextEligible_spec hnext
      obtain ⟨_, _, -, hremove⟩ := s₁.remove_queue_tenants _
      obtain ⟨_, -, -, -, rfl⟩ := State.reserve_eq_ok hreserve
      rw [hremove]
      exact ⟨State.receiptsReady_unfenced (State.admits_ready hadmits), hclosed⟩
    · exact absurd hfalse (by simp)
  | tryAcquire hok =>
    obtain ⟨hclosed, hready, -, -, -, -, hreserve⟩ := State.tryAcquire_eq_ok hok
    obtain ⟨_, -, -, -, rfl⟩ := State.reserve_eq_ok hreserve
    exact ⟨State.receiptsReady_unfenced hready, hclosed⟩

namespace Kept

variable {w : World}

theorem nobody_queued (h : Kept w) {t : TenantId} (hzero : (w.state.counts t).queued = 0) :
    ∀ y ∈ w.state.queue, y.tenant ≠ t := by
  rw [h.books.queued, List.countP_eq_zero] at hzero
  intro y hy heq
  exact hzero y hy (by simpa using heq)

/-- **A grant is in the order of the tenant's registrations**, and within the
limit of the request. -/
theorem grant_spec (h : Kept w) (hordered : w.state.Ordered) {s s' : State}
    (hgrant : Grant w e tenant s s') :
    (∀ y ∈ s'.queue, y.tenant = tenant → ∃ id r, e = .check id r ∧ id ≤ y.id)
      ∧ ∃ limit, e.limit w = some limit ∧ (s'.counts tenant).active ≤ limit := by
  cases hgrant with
  | @acquire _ limits _ _ r _ hok =>
    have hprepared := h.prepared r
    obtain ⟨-, -, ⟨-, hreserve, hlimit, -, hqueued, -⟩ | ⟨_, hqueued, -⟩⟩ :=
      State.register_eq_ok hok
    · refine ⟨fun y hy heq => ?_, _, rfl, ?_⟩
      · exact absurd heq (hprepared.nobody_queued hqueued y
          ((State.reserve_onward hreserve).queue.subset hy))
      · rw [State.reserve_active hreserve]
        exact hlimit
    · exact absurd hqueued (by simp)
  | @check id r t _ hfind hok =>
    have hprepared := h.prepared r
    have ht := List.mem_of_find?_eq_some hfind
    have hid : t.waiter.id = id := by simpa using List.find?_some hfind
    obtain ⟨-, ⟨-, next, s₁, hnext, hnextId, hreserve, rfl⟩ | ⟨hfalse, -⟩⟩ := State.check_eq_ok hok
    · obtain ⟨hmem, -, hadmits⟩ := State.nextEligible_spec hnext
      obtain rfl : next = t.waiter := hprepared.eq_waiter ht hmem hnextId
      obtain ⟨-, -, hfirst⟩ := State.nextEligible_eq_some.mp hnext
      obtain ⟨front, back, hqueue, -, -, hfront, -⟩ := State.firstAdmitted_eq_some.mp hfirst
      refine ⟨fun y hy heq => ⟨id, r, rfl, ?_⟩, t.waiter.activeLimit, ?_, ?_⟩
      · have hin : y ∈ (w.state.prepared r).2.queue :=
          ((State.reserve_onward hreserve).trans (State.remove_onward _)).queue.subset hy
        have hsorted : (front ++ t.waiter :: back).Pairwise (fun x y => x.id < y.id) := by
          rw [← hqueue]
          exact hordered.sublist ((Onward.stable _).prepared (Onward.refl w.state) r).queue
        rw [hqueue] at hin
        rcases List.mem_append.mp hin with hin | hin
        · exact absurd heq (hfront y hin)
        · rcases List.mem_cons.mp hin with rfl | hin
          · exact hid.ge
          · have hlt := (List.pairwise_cons.mp (List.pairwise_append.mp hsorted).2.1).1 y hin
            exact hid ▸ hlt.le
      · show (w.task id).map _ = _
        rw [hfind]
        rfl
      · rw [State.remove_active, State.reserve_active hreserve]
        exact State.admits_limit hadmits
    · exact absurd hfalse (by simp)
  | @tryAcquire _ limits _ r _ hok =>
    have hprepared := h.prepared r
    obtain ⟨-, -, hlimit, -, hqueued, -, hreserve⟩ := State.tryAcquire_eq_ok hok
    refine ⟨fun y hy heq => ?_, _, rfl, ?_⟩
    · exact absurd heq (hprepared.nobody_queued hqueued y
        ((State.reserve_onward hreserve).queue.subset hy))
    · rw [State.reserve_active hreserve]
      exact hlimit

end Kept

/-! ## The scan passes over who is not eligible -/

variable {queue : List Waiter} {seen : List TenantId} {x : Waiter}

namespace State

variable {s : State} {profile : Profile}

theorem firstAdmitted_seen {seen' : List TenantId}
    (h : ∀ x ∈ queue, x.tenant ∈ seen ↔ x.tenant ∈ seen') :
    s.firstAdmitted seen queue = s.firstAdmitted seen' queue := by
  induction queue generalizing seen seen' with
  | nil => rfl
  | cons w ws ih =>
    obtain ⟨hw, hws⟩ := List.forall_mem_cons.mp h
    have hrest : s.firstAdmitted (w.tenant :: seen) ws = s.firstAdmitted (w.tenant :: seen') ws :=
      ih (fun x hx => by rw [List.mem_cons, List.mem_cons, hws x hx])
    unfold firstAdmitted
    simp only [hw, hrest]

/-- **A tenant whose first waiter may not be admitted might as well not be in the
queue.** -/
theorem firstAdmitted_filter {t : TenantId}
    (h : t ∉ seen → ∀ x, queue.find? (fun x => x.tenant = t) = some x → s.admits x = false) :
    s.firstAdmitted seen queue = s.firstAdmitted seen (queue.filter (fun x => x.tenant ≠ t)) := by
  induction queue generalizing seen with
  | nil => rfl
  | cons w ws ih =>
    by_cases hw : w.tenant = t
    · have hpass : ¬ (w.tenant ∉ seen ∧ s.admits w = true) := by
        rintro ⟨hnew, hadmits⟩
        have hfalse := h (hw ▸ hnew) w (List.find?_cons_of_pos (by simpa using hw))
        exact absurd (hadmits.symm.trans hfalse) (by simp)
      rw [firstAdmitted, if_neg hpass, List.filter_cons_of_neg (by simpa using hw),
        ih (fun hnew => absurd (hw ▸ List.mem_cons_self) hnew)]
      refine firstAdmitted_seen (fun x hx => ?_)
      have hne : x.tenant ≠ w.tenant := by simpa [hw] using (List.mem_filter.mp hx).2
      rw [List.mem_cons, or_iff_right hne]
    · rw [List.filter_cons_of_pos (by simpa using hw), firstAdmitted, firstAdmitted,
        ih (fun hnew x hx => h (fun hin => hnew (List.mem_cons_of_mem _ hin)) x ?_)]
      rw [List.find?_cons_of_neg (by simpa using hw)]
      exact hx

theorem firstAdmitted_queue {ws : List Waiter} :
    ({ s with queue := queue } : State).firstAdmitted seen ws = s.firstAdmitted seen ws := by
  induction ws generalizing seen with
  | nil => rfl
  | cons w ws ih =>
    unfold firstAdmitted
    rw [ih]
    rfl

/-- **The choice does not depend on the waiters of such a tenant.** -/
theorem nextEligible_filter {t : TenantId}
    (h : ∀ x, s.queue.find? (fun x => x.tenant = t) = some x → s.admits x = false) :
    s.nextEligible profile
      = ({ s with queue := s.queue.filter (fun x => x.tenant ≠ t) } : State).nextEligible
        profile := by
  show (if s.closed = true ∨ profile.instanceActive ≤ s.active then none
    else s.firstAdmitted [] s.queue) = if s.closed = true ∨ profile.instanceActive ≤ s.active
    then none else State.firstAdmitted _ [] _
  rw [firstAdmitted_filter (fun _ => h)]
  split
  · rfl
  · exact firstAdmitted_queue.symm

/-- Nobody is chosen among waiters of whom no first of a tenant may be admitted. -/
theorem firstAdmitted_eq_none
    (h : ∀ y ∈ queue, queue.find? (fun x => x.tenant = y.tenant) = some y → y.tenant ∉ seen →
      s.admits y = false) : s.firstAdmitted seen queue = none := by
  induction queue generalizing seen with
  | nil => rfl
  | cons w ws ih =>
    have hpass : ¬ (w.tenant ∉ seen ∧ s.admits w = true) := by
      rintro ⟨hnew, hadmits⟩
      have hfalse := h w List.mem_cons_self (List.find?_cons_of_pos (by simp)) hnew
      exact absurd (hadmits.symm.trans hfalse) (by simp)
    rw [firstAdmitted, if_neg hpass]
    refine ih (fun y hy hfind hnew => ?_)
    obtain ⟨hne, hnew⟩ := not_or.mp (List.mem_cons.not.mp hnew)
    refine h y (List.mem_cons_of_mem _ hy) ?_ hnew
    rw [List.find?_cons_of_neg (by simpa using Ne.symm hne)]
    exact hfind

/-- **The first waiter of its tenant is chosen**, where no first waiter before it
may be admitted. -/
theorem nextEligible_of_first {front back : List Waiter} (hqueue : s.queue = front ++ x :: back)
    (hclosed : s.closed = false) (hroom : s.active < profile.instanceActive)
    (hadmits : s.admits x = true) (hfirst : ∀ y ∈ front, y.tenant ≠ x.tenant)
    (hpassed : ∀ y ∈ front, s.queue.find? (fun z => z.tenant = y.tenant) = some y →
      s.admits y = false) : s.nextEligible profile = some x := by
  refine nextEligible_eq_some.mpr ⟨hclosed, hroom, firstAdmitted_eq_some.mpr
    ⟨front, back, hqueue, List.not_mem_nil, hadmits, hfirst, ?_⟩⟩
  refine firstAdmitted_eq_none (fun y hy hfind _ => hpassed y hy ?_)
  rw [hqueue, List.find?_append, hfind]
  rfl

end State

namespace Kept

variable {w : World}

/-- **A tenant that is ready is given its reservation.** -/
theorem reserve_ok (h : Kept w) {t : TenantId} (hready : w.state.receiptsReady t = true) :
    ∃ s', w.state.reserve t = .ok s' := by
  obtain ⟨n, hn, hok⟩ := (Option.any_eq_true _ _).mp (Bool.and_eq_true _ _ ▸ hready).2
  obtain ⟨-, hreserved, -⟩ := Accounting.ready_eq_true hok
  have hc := h.books.charged
  have hrows : w.state.receipts.totals.repairLive * rowOverhead
      ≤ w.state.receipts.totals.repairReserved := by
    rw [hc.repairRows, hc.repairReserved]
    exact sum_mul_le (fun r hr => (hc.charged r hr).2)
  have hsum := hc.reserved
  have hle : w.state.receipts.totals.repairLive ≤ w.state.receipts.totals.repairReserved :=
    le_trans (Nat.le_mul_of_pos_right _ (by decide)) hrows
  have hlive : w.state.receipts.totals.live - w.state.receipts.totals.repairLive
      ≤ (w.state.receipts.totals.live - w.state.receipts.totals.repairLive) * reservation :=
    Nat.le_mul_of_pos_right _ (by decide)
  have hone : 1 ≤ reservation := by decide
  have hall : w.state.receipts.totals.uncovered ≤ w.state.receipts.totals.live :=
    h.balanced.uncovered_le
  have htenant : (w.state.counts t).uncovered ≤ w.state.receipts.totals.uncovered := by
    rw [hc.uncovered, hc.allUncovered]
    exact Custody.load_mono (fun _ _ => rfl)
  have hfits : w.state.receipts.totals.live + 1 < 2 ^ 64 := by
    generalize (w.state.receipts.totals.live - w.state.receipts.totals.repairLive) * reservation
      = charged at hlive hsum
    omega
  refine ⟨_, bind_eq_ok.mpr ⟨n, orFail_eq_ok.mpr hn, bind_eq_ok.mpr ⟨_, orFail_eq_ok.mpr
    (Receipts.checkedAdd_of_lt (lt_of_le_of_lt (Nat.succ_le_succ (htenant.trans hall)) hfits)),
    bind_eq_ok.mpr ⟨_, Accounting.reserve_eq_ok.mpr ⟨hok, hreserved, hfits, ?_, rfl⟩, rfl⟩⟩⟩⟩
  exact lt_of_le_of_lt (Nat.succ_le_succ hall) hfits

/-- **Its turn is granted**: a queued caller that checks in time while its waiter
is the eligible one. -/
theorem check_granted (h : Kept w) {t : Task} (ht : w.task t.waiter.id = some t)
    (hchecking : t.phase = .checking) (htime : r.inside < t.waiter.deadline)
    (hnext : (w.state.prepared r).2.nextEligible w.config.profile = some t.waiter) :
    (⟨t.waiter.tenant, w.held.nextId⟩ : Lease)
      ∈ (w.step (.check t.waiter.id r)).held.leases := by
  obtain ⟨hclosed, -⟩ := State.nextEligible_eq_some.mp hnext
  obtain ⟨-, -, hadmits⟩ := State.nextEligible_spec hnext
  obtain ⟨s₁, hreserve⟩ := (h.prepared r).reserve_ok (State.admits_ready hadmits)
  have hcheck : (w.state.prepared r).2.check w.config.profile t.waiter r.inside
      = .ok (true, s₁.remove t.waiter) := by
    refine bind_eq_ok.mpr ⟨(), ensure_eq_ok.mpr hclosed,
      bind_eq_ok.mpr ⟨(), ensure_eq_ok.mpr htime, ?_⟩⟩
    rw [if_pos (by rw [hnext]; simp)]
    exact bind_eq_ok.mpr ⟨s₁, hreserve, rfl⟩
  obtain ⟨woken, hu⟩ := update_of_ok w.config.profile r
    (fun s => s.check w.config.profile t.waiter r.inside) hcheck
  have hstep : w.step (.check t.waiter.id r) = w.checkTask t r := by
    rw [World.step_check, ht]
    exact if_pos hchecking
  rw [hstep]
  unfold World.checkTask
  rw [hu]
  exact List.mem_cons_self

end Kept

/-! ## Notifications -/

/-- **The first eligible waiter has been notified since it last checked**; where
a caller that has been notified sleeps, its permit is there or on its way. -/
structure World.Alert (w : World) : Prop where
  first : ∀ x, w.state.nextEligible w.config.profile = some x →
    ∀ t ∈ w.tasks, t.waiter.id = x.id → t.alerted = true
  told : ∀ t ∈ w.tasks, t.alerted = true → t.phase = .waiting →
    t.permit = true ∨ t.waiter.id ∈ w.notices

namespace World

variable {w : World}

/-- The second half of it, which no update needs the state for. -/
def Told (w : World) : Prop :=
  ∀ t ∈ w.tasks, t.alerted = true → t.phase = .waiting → t.permit = true ∨ t.waiter.id ∈ w.notices

variable {s : State}

/-- **Every update chooses the first waiter that is eligible after it.** -/
theorem concluded_chooses {profile : Profile}
    (h : (s.concluded profile).2.nextEligible profile = some x) :
    x ∈ (s.concluded profile).1 := by
  unfold State.concluded at h ⊢
  by_cases hclosed : s.closed = true
  · rw [if_pos hclosed] at h
    obtain ⟨_, _, -, hdismiss⟩ := s.dismiss_eq (fun _ => true)
    rw [hdismiss] at h
    obtain ⟨hopen, -⟩ := State.nextEligible_eq_some.mp h
    exact absurd (hclosed.symm.trans hopen) (by simp)
  · rw [if_neg hclosed] at h ⊢
    exact Option.mem_toList.mpr h

theorem alert_after {woken : List Waiter} (htold : w.Told)
    (hchosen : ∀ x, s.nextEligible w.config.profile = some x → x ∈ woken) :
    (w.after woken s).Alert where
  first x hx t ht hid := by
    obtain ⟨t₀, -, rfl⟩ := List.mem_map.mp ht
    have hany : woken.any (fun y => y.id = t₀.waiter.id) = true := by
      refine List.any_eq_true.mpr ⟨x, hchosen x hx, ?_⟩
      split at hid <;> exact decide_eq_true hid.symm
    rw [if_pos hany]
  told t ht halerted hphase := by
    obtain ⟨t₀, ht₀, rfl⟩ := List.mem_map.mp ht
    by_cases hany : woken.any (fun y => y.id = t₀.waiter.id) = true
    · rw [if_pos hany] at hphase ⊢
      obtain ⟨y, hy, hid⟩ := List.any_eq_true.mp hany
      refine Or.inr (List.mem_append_right _ (List.mem_map.mpr ⟨y, hy, ?_⟩))
      simpa using hid
    · rw [if_neg hany] at halerted hphase ⊢
      exact (htold t₀ ht₀ halerted hphase).imp_right (List.mem_append_left _)

theorem update_chooses {profile : Profile} {change : State → α × State} {answer : α}
    {woken : List Waiter} {s' : State} (h : s.update profile r change = (answer, woken, s'))
    (hx : s'.nextEligible profile = some x) : x ∈ woken := by
  unfold State.update at h
  obtain ⟨-, h⟩ := Prod.mk.inj h
  obtain ⟨rfl, rfl⟩ := Prod.mk.inj h
  exact List.mem_append_right _ (concluded_chooses hx)

theorem alert_attempt {change : State → Except ErrorCode (α × State)} {gain : α → Held → Held}
    (htold : w.Told) : (w.attempt r change gain).Alert := by
  unfold attempt
  rcases hu : w.state.update w.config.profile r (State.attempt change) with ⟨answer, woken, s'⟩
  cases answer with
  | ok a =>
    exact alert_after (w := { w with held := gain a w.held }) htold
      (fun x hx => update_chooses hu hx)
  | error e => exact alert_after htold (fun x hx => update_chooses hu hx)

theorem alert_apply {change : State → State} (htold : w.Told) :
    (w.apply r change).Alert := by
  unfold apply
  rcases hu : w.state.update w.config.profile r (fun s => ((), change s)) with ⟨_, woken, s'⟩
  exact alert_after htold (fun _ hx => update_chooses hu hx)

/-- A caller whose alarm is spent owes nothing. -/
theorem told_spent (htold : w.Told) (id : ℕ) (phase : Phase) :
    (w.setTask id (fun t => { t with alerted := false, phase := phase })).Told := by
  intro t ht halerted hphase
  obtain ⟨t₀, ht₀, rfl⟩ := List.mem_map.mp ht
  by_cases hid : t₀.waiter.id = id
  · rw [if_pos hid] at halerted
    exact absurd halerted (by simp)
  · rw [if_neg hid] at halerted hphase ⊢
    exact htold t₀ ht₀ halerted hphase

theorem alert_enqueue {limits : Limits} {deadline : ℕ} (htold : w.Told) :
    (w.enqueue r tenant limits deadline).Alert := by
  unfold enqueue
  rcases hu : w.state.update w.config.profile r (State.attempt (fun s =>
    s.register w.config.profile tenant limits deadline w.held.nextId r.inside))
    with ⟨answer, woken, s'⟩
  have hchosen : ∀ x, s'.nextEligible w.config.profile = some x → x ∈ woken :=
    fun x hx => update_chooses hu hx
  cases answer with
  | error e => exact alert_after htold hchosen
  | ok answer =>
    cases answer with
    | active => exact alert_after (w := { w with held := w.held.grant tenant }) htold hchosen
    | queued waiter =>
      refine alert_after (w := { w with
        tasks := w.tasks ++ [({ waiter := waiter } : Task)]
        held := { w.held with nextId := w.held.nextId + 1 } }) ?_ hchosen
      intro t ht halerted hphase
      rcases List.mem_append.mp ht with ht | ht
      · exact htold t ht halerted hphase
      · rw [List.mem_singleton.mp ht] at halerted
        exact absurd halerted (by simp)

theorem alert_checkTask {t : Task} (htold : w.Told) : (w.checkTask t r).Alert := by
  unfold checkTask
  rcases hu : w.state.update w.config.profile r
    (State.attempt (fun s => s.check w.config.profile t.waiter r.inside)) with ⟨answer, woken, s'⟩
  have hchosen : ∀ x, s'.nextEligible w.config.profile = some x → x ∈ woken :=
    fun x hx => update_chooses hu hx
  cases answer with
  | error e => exact alert_after (told_spent htold _ _) hchosen
  | ok granted =>
    cases granted with
    | true =>
      exact alert_after (w := { w.setTask t.waiter.id (fun t =>
        { t with alerted := false, phase := .leaving }) with
          held := w.held.grant t.waiter.tenant }) (told_spent htold _ _) hchosen
    | false => exact alert_after (told_spent htold _ _) hchosen

theorem alert_finishPublication {p : Publication} {b : Bool} {disposition : Disposition}
    (htold : w.Told) : (w.finishPublication p b disposition r).Alert := by
  unfold finishPublication
  dsimp only
  split
  · rcases hu : w.state.update w.config.profile r (State.attempt (fun s =>
      (s.finishPublication p b).map (fun s => ((), s)))) with ⟨answer, woken, s'⟩
    have hafter : World.Alert (World.after
        { w with held := { w.held with publication := none } } woken s') :=
      alert_after (w := { w with held := { w.held with publication := none } }) htold
        (fun x hx => update_chooses hu hx)
    cases answer with
    | ok a => exact hafter
    | error e => exact alert_apply hafter.told
  · exact alert_apply htold

/-- A step of one caller outside the lock, which keeps what it has been told. -/
theorem alert_setTask (h : w.Alert) (id : ℕ) {f : Task → Task}
    (hwaiter : ∀ t, (f t).waiter = t.waiter) (halert : ∀ t, (f t).alerted = t.alerted)
    (hwaiting : ∀ t, (f t).phase = .waiting → t.phase = .waiting ∧ (f t).permit = t.permit) :
    (w.setTask id f).Alert where
  first x hx t ht hid := by
    obtain ⟨t₀, ht₀, rfl⟩ := List.mem_map.mp ht
    by_cases hown : t₀.waiter.id = id
    · rw [if_pos hown] at hid ⊢
      rw [halert]
      exact h.first x hx t₀ ht₀ (hwaiter t₀ ▸ hid)
    · rw [if_neg hown] at hid ⊢
      exact h.first x hx t₀ ht₀ hid
  told t ht halerted hphase := by
    obtain ⟨t₀, ht₀, rfl⟩ := List.mem_map.mp ht
    by_cases hown : t₀.waiter.id = id
    · rw [if_pos hown] at halerted hphase ⊢
      obtain ⟨hold, hpermit⟩ := hwaiting t₀ hphase
      rw [hpermit, hwaiter]
      exact h.told t₀ ht₀ (halert t₀ ▸ halerted) hold
    · rw [if_neg hown] at halerted hphase ⊢
      exact h.told t₀ ht₀ halerted hphase

theorem alert_deliver (h : w.Alert) (id : ℕ) :
    ({ w with notices := w.notices.erase id }.setTask id
      (fun t => { t with permit := true })).Alert where
  first x hx t ht hid := by
    obtain ⟨t₀, ht₀, rfl⟩ := List.mem_map.mp ht
    by_cases hown : t₀.waiter.id = id
    · rw [if_pos hown] at hid ⊢
      exact h.first x hx t₀ ht₀ hid
    · rw [if_neg hown] at hid ⊢
      exact h.first x hx t₀ ht₀ hid
  told t ht halerted hphase := by
    obtain ⟨t₀, ht₀, rfl⟩ := List.mem_map.mp ht
    by_cases hid : t₀.waiter.id = id
    · rw [if_pos hid]
      exact Or.inl rfl
    · rw [if_neg hid] at halerted hphase ⊢
      refine (h.told t₀ ht₀ halerted hphase).imp_right (fun hmem => ?_)
      exact (List.mem_erase_of_ne hid).mpr hmem

/-- **No wake-up is lost** by any step of anybody. -/
theorem step_alert (h : w.Alert) (e : Event) : (w.step e).Alert := by
  have htold : w.Told := h.told
  cases e <;> unfold step <;> dsimp only
  case acquire => exact alert_enqueue htold
  case check =>
    split
    · split
      · exact alert_checkTask htold
      · exact h
    · exact h
  case deliver id =>
    split
    · exact alert_deliver h id
    · exact h
  case wake id =>
    refine alert_setTask h id (fun t => ?_) (fun t => ?_) (fun t hphase => ?_)
    · split <;> rfl
    · split <;> rfl
    · split at hphase
      · exact absurd hphase (by simp)
      · next hawake => exact ⟨hphase, by rw [if_neg hawake]⟩
  case elapse id =>
    refine alert_setTask h id (fun t => ?_) (fun t => ?_) (fun t hphase => ?_)
    · split <;> rfl
    · split <;> rfl
    · split at hphase
      · exact absurd hphase (by simp)
      · next hawake => exact ⟨hphase, by rw [if_neg hawake]⟩
  case cancel id =>
    refine alert_setTask h id (fun t => ?_) (fun t => ?_) (fun t hphase => ?_)
    · split <;> rfl
    · split <;> rfl
    · split at hphase
      · exact absurd hphase (by simp)
      · next hawake => exact ⟨hphase, by rw [if_neg hawake]⟩
  case leave id r =>
    split
    · split
      · exact alert_apply (w := { w with tasks := w.tasks.filter (fun t => t.waiter.id ≠ id) })
          (fun t ht => htold t (List.mem_of_mem_filter ht))
      · exact h
    · exact h
  case prepare =>
    split
    · exact h
    · exact alert_attempt htold
  case finish =>
    split
    · exact alert_finishPublication htold
    · exact h
  case dropPublication =>
    split
    · exact alert_apply (w := { w with held := { w.held with publication := none } }) htold
    · exact h
  case tryAcquire => exact alert_attempt htold
  case pinUnknown => exact alert_attempt htold
  case seedUnknown => exact alert_attempt htold
  case learn => exact alert_attempt htold
  case reserveRepair => exact alert_attempt htold
  case reservePhysicalWrite => exact alert_attempt htold
  case bind =>
    split
    · exact alert_attempt htold
    · exact h
  case upload =>
    split
    · exact alert_attempt htold
    · exact h
  case finishRepair =>
    split
    · exact alert_attempt htold
    · exact h
  case dropLease lease r =>
    split
    · exact alert_apply (w := { w with
        held := { w.held with leases := w.held.leases.erase lease } }) htold
    · exact h
  case dropPin tenant r =>
    split
    · exact alert_apply (w := { w with
        held := { w.held with pins := w.held.pins.erase tenant } }) htold
    · exact h
  case dropLearner tenant r =>
    split
    · exact alert_apply (w := { w with
        held := { w.held with learners := w.held.learners.erase tenant } }) htold
    · exact h
  case dropUpload bytes r =>
    split
    · exact alert_apply (w := { w with
        held := { w.held with uploads := w.held.uploads.erase bytes } }) htold
    · exact h
  case dropRepair repair r =>
    split
    · exact alert_apply (w := { w with
        held := { w.held with repairs := w.held.repairs.erase repair } }) htold
    · exact h
  case finishPhysicalWrite => exact alert_apply htold
  case archiveReceipt => exact alert_apply htold
  case receiptProbe => exact alert_apply htold
  case observe => exact alert_apply htold
  case close => exact alert_apply htold
  case fence => exact alert_apply htold

theorem run_alert (h : w.Alert) (events : List Event) : (w.run events).Alert := by
  induction events generalizing w with
  | nil => exact h
  | cons e events ih => exact ih (step_alert h e)

theorem booted_alert (config : Config) (volume : Option String) (inventory : Inventory)
    (free : ℕ) (r : Reading) : (booted config volume inventory free r).Alert :=
  alert_attempt (w := configured config volume) (fun _ ht => absurd ht List.not_mem_nil)

end World

/-! ## Every interleaving -/

/-- **The queue is fair in every run.** A lease that is granted passes no waiter
of its tenant registered before, and stays within its own limit; the queue is
in the order of registrations; a tenant whose first waiter may not be admitted
does not matter to the choice, and the first waiter of another tenant is
granted when it checks, if only such waiters are before it; and the first
eligible waiter has been notified since it last checked, its notification
under way while it sleeps. -/
theorem queue_fair (config : Config) (volume : Option String) (inventory : Inventory) (free : ℕ)
    (boot : Reading) (events : List Event) (w : World)
    (hw : w = (World.booted config volume inventory free boot).run events) :
    (∀ e l, l ∉ w.held.leases → l ∈ (w.step e).held.leases →
      (∀ y ∈ (w.step e).state.queue, y.tenant = l.tenant → ∃ id r, e = .check id r ∧ id ≤ y.id)
        ∧ ∃ limit, e.limit w = some limit
          ∧ ((w.step e).state.counts l.tenant).active ≤ limit)
      ∧ (w.state.receipts.fenced = false → w.state.Ordered)
      ∧ (∀ (r : Reading) (t : TenantId),
        (∀ x, (w.state.prepared r).2.queue.find? (fun x => x.tenant = t) = some x →
          (w.state.prepared r).2.admits x = false) →
        (w.state.prepared r).2.nextEligible w.config.profile
          = ({ (w.state.prepared r).2 with queue :=
              (w.state.prepared r).2.queue.filter (fun x => x.tenant ≠ t) } : State).nextEligible
            w.config.profile)
      ∧ (∀ (r : Reading) (t : Task) (front back : List Waiter),
        w.task t.waiter.id = some t → t.phase = .checking → r.inside < t.waiter.deadline →
        (w.state.prepared r).2.queue = front ++ t.waiter :: back →
        (w.state.prepared r).2.closed = false →
        (w.state.prepared r).2.active < w.config.profile.instanceActive →
        (w.state.prepared r).2.admits t.waiter = true →
        (∀ y ∈ front, y.tenant ≠ t.waiter.tenant) →
        (∀ y ∈ front, (w.state.prepared r).2.queue.find? (fun z => z.tenant = y.tenant) = some y →
          (w.state.prepared r).2.admits y = false) →
        (⟨t.waiter.tenant, w.held.nextId⟩ : Lease)
          ∈ (w.step (.check t.waiter.id r)).held.leases)
      ∧ ∀ x, w.state.nextEligible w.config.profile = some x →
        ∃ t ∈ w.tasks, t.waiter = x ∧ t.alerted = true
          ∧ (t.phase = .waiting → t.permit = true ∨ x.id ∈ w.notices) := by
  have hbooted := Kept.booted config volume inventory free boot
  have hkept : w.state.receipts.fenced = false → Kept w := by
    intro hopen
    subst hw
    exact hbooted.run events hopen
  have hordered : w.state.receipts.fenced = false → w.state.Ordered := by
    intro hopen
    subst hw
    refine hbooted.run_ordered ?_ events hopen
    -- nobody is queued before the first event
    have hempty : (World.configured config volume).state.queue = [] := rfl
    have hon : Onward (World.configured config volume).state
        (World.booted config volume inventory free boot).state := (Onward.stable _).attempt
      (fun a s' hok hs => hs.trans (State.initializeReceipts_onward hok)) (Onward.refl _)
    exact List.Pairwise.sublist (hempty ▸ hon.queue) List.Pairwise.nil
  have hready : ∀ r t, (w.state.prepared r).2.receiptsReady t = true → Kept w := by
    intro r t hready
    refine hkept ?_
    cases hfence : w.state.receipts.fenced with
    | false => rfl
    | true =>
      exact absurd ((World.stable_fenced.prepared hfence r).symm.trans
        (State.receiptsReady_unfenced hready)) (by simp)
  have halert : w.Alert := by
    subst hw
    exact World.run_alert (World.booted_alert _ _ _ _ _) events
  refine ⟨fun e l hold hnew => ?_, hordered, fun r t h => State.nextEligible_filter h,
    fun r t front back ht hchecking htime hqueue hclosed hroom hadmits hfirst hpassed => ?_,
    fun x hx => ?_⟩
  · obtain ⟨s, s', hgrant, hstate⟩ := World.step_grant hold hnew
    obtain ⟨hopen, hclosed⟩ := hgrant.opened
    have hunfenced : w.state.receipts.fenced = false := by
      cases hfence : w.state.receipts.fenced with
      | false => rfl
      | true =>
        obtain ⟨r, rfl⟩ := hgrant.reading
        exact absurd ((World.stable_fenced.prepared hfence r).symm.trans hopen) (by simp)
    rw [hstate, State.concluded_open hclosed]
    exact (hkept hunfenced).grant_spec (hordered hunfenced) hgrant
  · exact (hready r _ (State.admits_ready hadmits)).check_granted ht hchecking htime
      (State.nextEligible_of_first hqueue hclosed hroom hadmits hfirst hpassed)
  · obtain ⟨hmem, -, hadmits⟩ := State.nextEligible_spec hx
    have hopen := State.receiptsReady_unfenced (State.admits_ready hadmits)
    obtain ⟨t, ht, rfl⟩ := (hkept hopen).lines.caller x hmem
    have halerted := halert.first _ hx t ht rfl
    exact ⟨t, ht, rfl, halerted, halert.told t ht halerted⟩

namespace Sample

/-- The granted request has gone, and the queued one is to be told. -/
def handed : World := booted.run (served.take 7)

def waiter : Waiter := ⟨1, alice, 1, 50⟩

end Sample

open Sample in
theorem queue_fair_handed : ∃ t ∈ handed.tasks, t.waiter = waiter ∧ t.alerted = true
    ∧ (t.phase = .waiting → t.permit = true ∨ waiter.id ∈ handed.notices) :=
  (queue_fair config none ⟨0, 0, 0, 0, 0⟩ (2 ^ 60) ⟨none, 0, 0⟩ (served.take 7) handed
    rfl).2.2.2.2 waiter (by decide +kernel)

/-- **A fence is final**: whatever is done after it, it stays, and nobody is
given a lease they did not hold before. -/
theorem World.fence_final {w : World} (h : w.state.receipts.fenced = true) (events : List Event) :
    (w.run events).state.receipts.fenced = true ∧ (w.run events).held.leases ⊆ w.held.leases := by
  induction events generalizing w with
  | nil => exact ⟨h, List.Subset.refl _⟩
  | cons e events ih =>
    obtain ⟨hfenced, hheld⟩ := ih (World.step_fenced e h)
    refine ⟨hfenced, fun l hl => ?_⟩
    by_contra hold
    obtain ⟨s, s', hgrant, -⟩ := World.step_grant hold (hheld hl)
    obtain ⟨r, rfl⟩ := hgrant.reading
    exact absurd ((World.stable_fenced.prepared h r).symm.trans hgrant.opened.1) (by simp)

open Sample in
theorem World.fence_final_handed : ((handed.apply (reading 6) State.fence).run served).held.leases
    ⊆ (handed.apply (reading 6) State.fence).held.leases :=
  (World.fence_final (World.apply_fence _) served).2

end BitRouter.Admission
