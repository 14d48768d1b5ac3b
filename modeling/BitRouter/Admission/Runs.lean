import BitRouter.Admission.Prepare

/-!
# Every run keeps the books

One step of somebody keeps the invariant unless it fences (`Kept.step`), and
a fence stays (`World.step_fenced`); so an unfenced state of a run has been
kept all along (`Kept.run`). The controllers of `World.booted` start it.
-/

namespace BitRouter.Admission

open Tenancy
open Receipts (ErrorCode Accounting)

/-! ## What the ends of an update leave alone -/

namespace State

variable {s : State}

@[simp] theorem idle_receipts (t : TenantId) : (s.idle t).receipts = s.receipts := by
  rw [idle_eq]

theorem unqueue_eq (t : TenantId) : ∃ tenants, s.unqueue t = { s with tenants := tenants } := by
  unfold unqueue
  rw [idle_eq]
  split <;> exact ⟨_, rfl⟩

theorem foldl_unqueue_eq (ws : List Waiter) : ∃ tenants,
    ws.foldl (fun s w => s.unqueue w.tenant) s = { s with tenants := tenants } := by
  induction ws generalizing s with
  | nil => exact ⟨s.tenants, rfl⟩
  | cons w ws ih =>
    obtain ⟨tenants, hone⟩ := s.unqueue_eq w.tenant
    rw [List.foldl_cons, hone]
    exact ih

theorem dismiss_eq (p : Waiter → Bool) : ∃ queue tenants, queue.Sublist s.queue
    ∧ (s.dismiss p).2 = { s with queue := queue, tenants := tenants } := by
  obtain ⟨tenants, hall⟩ := foldl_unqueue_eq
    (s := { s with queue := s.queue.filter (fun w => !p w) }) (s.queue.filter p)
  exact ⟨_, tenants, List.filter_sublist, hall⟩

theorem remove_queue_tenants (waiter : Waiter) : ∃ queue tenants, queue.Sublist s.queue
    ∧ s.remove waiter = { s with queue := queue, tenants := tenants } := by
  unfold remove
  split
  · obtain ⟨tenants, hone⟩ := unqueue_eq waiter.tenant
      (s := { s with queue := s.queue.eraseP (fun w => w.id = waiter.id) })
    exact ⟨_, tenants, List.eraseP_sublist, hone⟩
  · exact ⟨s.queue, s.tenants, List.Sublist.refl _, rfl⟩

end State

/-- **A property that neither the refresh of the volume nor a departure from the
queue can lift.** -/
structure Stable (P : State → Prop) : Prop where
  refresh : ∀ (s : State) (probe : Option ℕ), P s →
    P { s with receipts := s.receipts.refreshFree probe }
  queue : ∀ (s : State) (queue : List Waiter) (tenants : Std.TreeMap TenantId Counts),
    queue.Sublist s.queue → P s → P { s with queue := queue, tenants := tenants }

namespace Stable

variable {P : State → Prop}

section

variable (hP : Stable P)

include hP

theorem prepared {s : State} (h : P s) (r : Reading) : P (s.prepared r).2 := by
  obtain ⟨queue, tenants, hsub, hdismiss⟩ := State.dismiss_eq
    (s := { s with receipts := s.receipts.refreshFree r.probe }) (fun w => w.deadline ≤ r.expiring)
  show P (State.dismiss _ _).2
  rw [hdismiss]
  exact hP.queue _ _ _ hsub (hP.refresh s r.probe h)

theorem concluded {s : State} (h : P s) (profile : Profile) :
    P (s.concluded profile).2 := by
  unfold State.concluded
  split
  · obtain ⟨queue, tenants, hsub, hdismiss⟩ := s.dismiss_eq (fun _ => true)
    rw [hdismiss]
    exact hP.queue _ _ _ hsub h
  · exact h

theorem remove {s : State} (h : P s) (waiter : Waiter) : P (s.remove waiter) := by
  obtain ⟨queue, tenants, hsub, hremove⟩ := s.remove_queue_tenants waiter
  rw [hremove]
  exact hP.queue _ _ _ hsub h

/-- **A section that may be refused** keeps what its change keeps. -/
theorem update {α : Type} {s : State} (profile : Profile) (r : Reading)
    (change : State → Except ErrorCode (α × State))
    (hchange : ∀ a s', change (s.prepared r).2 = .ok (a, s') → P (s.prepared r).2 → P s')
    (h : P s) : P (s.update profile r (State.attempt change)).2.2 := by
  have hprepared := hP.prepared h r
  rcases hu : s.update profile r (State.attempt change) with ⟨answer, woken, s'⟩
  show P s'
  rcases update_attempt hu with ⟨a, s₁, -, hok, rfl⟩ | ⟨e, -, rfl⟩
  · exact hP.concluded (hchange a s₁ hok hprepared) _
  · exact hP.concluded hprepared _

theorem attempt {α : Type} {w : World} {r : Reading}
    {change : State → Except ErrorCode (α × State)} {gain : α → Held → Held}
    (hchange : ∀ a s', change (w.state.prepared r).2 = .ok (a, s') →
      P (w.state.prepared r).2 → P s') (h : P w.state) : P (w.attempt r change gain).state := by
  have hupdate := hP.update w.config.profile r change hchange h
  unfold World.attempt
  rcases hu : w.state.update w.config.profile r (State.attempt change) with ⟨answer, woken, s'⟩
  rw [hu] at hupdate
  cases answer <;> exact hupdate

theorem apply {w : World} {r : Reading} {change : State → State}
    (hchange : P (w.state.prepared r).2 → P (change (w.state.prepared r).2))
    (h : P w.state) : P (w.apply r change).state :=
  hP.concluded (hchange (hP.prepared h r)) _

theorem enqueue {w : World} {r : Reading} {tenant : TenantId} {limits : Limits} {deadline : ℕ}
    (hchange : ∀ a s', (w.state.prepared r).2.register w.config.profile tenant limits deadline
      w.held.nextId r.inside = .ok (a, s') → P (w.state.prepared r).2 → P s') (h : P w.state) :
    P (w.enqueue r tenant limits deadline).state := by
  have hupdate := hP.update w.config.profile r
    (fun s => s.register w.config.profile tenant limits deadline w.held.nextId r.inside) hchange h
  unfold World.enqueue
  rcases hu : w.state.update w.config.profile r (State.attempt (fun s =>
    s.register w.config.profile tenant limits deadline w.held.nextId r.inside))
    with ⟨answer, woken, s'⟩
  rw [hu] at hupdate
  dsimp only
  split <;> exact hupdate

theorem checkTask {w : World} {t : Task} {r : Reading}
    (hchange : ∀ a s', (w.state.prepared r).2.check w.config.profile t.waiter r.inside
      = .ok (a, s') → P (w.state.prepared r).2 → P s')
    (h : P w.state) : P (w.checkTask t r).state := by
  have hupdate := hP.update w.config.profile r
    (fun s => s.check w.config.profile t.waiter r.inside) hchange h
  unfold World.checkTask
  rcases hu : w.state.update w.config.profile r
    (State.attempt (fun s => s.check w.config.profile t.waiter r.inside))
    with ⟨answer, woken, s'⟩
  rw [hu] at hupdate
  dsimp only
  split <;> exact hupdate

end

end Stable

/-! ## Fences stay -/

variable {u : Unit}

namespace State

variable {s s' : State} {t : TenantId}

theorem reserve_fenced (h : s.reserve t = .ok s') : s'.receipts.fenced = s.receipts.fenced := by
  obtain ⟨_, -, -, -, rfl⟩ := reserve_eq_ok h
  rfl

theorem unknownAvailable_unfenced {maintenance : Bool}
    (h : s.unknownAvailable maintenance = .ok u) : s.receipts.fenced = false := by
  obtain ⟨_, hopen, -⟩ := bind_eq_ok.mp h
  have hnot := ensure_eq_ok.mp hopen
  simpa using fun hf => hnot (Or.inr (Or.inr hf))

theorem unknownAvailable_open {maintenance : Bool} (h : s.unknownAvailable maintenance = .ok u) :
    s.publicationPending = none := by
  obtain ⟨_, hopen, -⟩ := bind_eq_ok.mp h
  have hnot := ensure_eq_ok.mp hopen
  exact Option.not_isSome_iff_eq_none.mp (fun hp => hnot (Or.inr (Or.inl hp)))

theorem register_fenced {profile : Profile} {limits : Limits} {deadline id now : ℕ}
    {answer : Registration} (h : s.register profile t limits deadline id now = .ok (answer, s')) :
    s'.receipts.fenced = s.receipts.fenced := by
  obtain ⟨-, -, ⟨-, hreserve, -⟩ | ⟨_, -, -, -, -, -, -, -, rfl⟩⟩ := register_eq_ok h
  · exact reserve_fenced hreserve
  · rfl

theorem check_fenced {profile : Profile} {waiter : Waiter} {now : ℕ} {granted : Bool}
    (h : s.check profile waiter now = .ok (granted, s')) :
    s'.receipts.fenced = s.receipts.fenced := by
  obtain ⟨-, ⟨-, _, s₁, -, -, hreserve, rfl⟩ | ⟨-, rfl, -⟩⟩ := check_eq_ok h
  · obtain ⟨queue, tenants, -, hremove⟩ := s₁.remove_queue_tenants waiter
    rw [hremove]
    exact (reserve_fenced hreserve : s₁.receipts.fenced = s.receipts.fenced)
  · rfl

theorem learn_fenced {maximum : ℕ} (h : s.learn t maximum = .ok (u, s')) :
    s'.receipts.fenced = s.receipts.fenced := by
  unfold learn at h
  simp only [bind_eq_ok, ensure_eq_ok, pure_eq_ok, Prod.mk.injEq] at h
  obtain ⟨-, -, -, -, -, rfl⟩ := h
  rfl

theorem upload_fenced {limits : IngressLimits} {bytes : ℕ}
    (h : s.upload limits bytes = .ok (u, s')) : s'.receipts.fenced = s.receipts.fenced := by
  unfold upload at h
  simp only [bind_eq_ok, ensure_eq_ok, orFail_eq_ok, pure_eq_ok, Prod.mk.injEq] at h
  obtain ⟨-, -, _, -, -, -, -, rfl⟩ := h
  rfl

theorem dropLease_fenced (lease : Lease) (h : s.receipts.fenced = true) :
    (s.dropLease lease).receipts.fenced = true := by
  unfold dropLease
  split
  · next s₁ hok =>
    unfold releaseLease at hok
    split at hok
    · exact (releaseOwned_fenced hok).trans h
    · simp only [bind_eq_ok, ensure_eq_ok, orFail_eq_ok] at hok
      obtain ⟨live, -, -, -, hok⟩ := hok
      split at hok
      · obtain rfl := pure_eq_ok.mp hok
        exact h
      · exact (releaseOwned_fenced hok).trans h
  · rfl

theorem dropPin_fenced (h : s.receipts.fenced = true) : (s.dropPin t).receipts.fenced = true := by
  unfold dropPin
  rw [idle_receipts]
  split
  · split
    · exact h
    · rfl
  · rfl

theorem dropLearner_receipts : (s.dropLearner t).receipts = s.receipts := by
  unfold dropLearner
  rw [idle_receipts]
  split <;> rfl

theorem archiveReceipt_fenced {bytes historyBytes : ℕ} (h : s.receipts.fenced = true) :
    (s.archiveReceipt bytes historyBytes).receipts.fenced = true := by
  unfold archiveReceipt
  dsimp only
  split
  · exact h
  · rfl

theorem tryAcquire_fenced {profile : Profile} {limits : Limits} {deadline now : ℕ}
    (h : s.tryAcquire profile t limits deadline now = .ok ((), s')) :
    s'.receipts.fenced = s.receipts.fenced := by
  obtain ⟨-, -, -, -, -, -, hreserve⟩ := tryAcquire_eq_ok h
  exact reserve_fenced hreserve

theorem bindExecution_fenced {lease : Lease} {execution : ExecutionId}
    (h : s.bindExecution lease.tenant lease.completion execution = .ok s') :
    s'.receipts.fenced = s.receipts.fenced := by
  obtain ⟨-, rfl | ⟨-, -, rfl⟩⟩ := bindExecution_eq_ok h
  · rfl
  · rfl

theorem reserveRepair_fenced {read : Read} {bytes owner : ℕ} {entries : List (ExecutionId × Bool)}
    {repair : Repair} (h : s.reserveRepair read t bytes entries owner = .ok (repair, s')) :
    s'.receipts.fenced = s.receipts.fenced := by
  obtain ⟨-, -, -, -, -, -, hs'⟩ := reserveRepair_eq_ok h
  rw [hs', enterAll_eq]
  rfl

/-! The operations a fence refuses. -/

theorem pinUnknown_unfenced {maintenance pinned : Bool}
    (h : s.pinUnknown t maintenance = .ok (pinned, s')) : s.receipts.fenced = false := by
  obtain ⟨_, hopen, -⟩ := bind_eq_ok.mp h
  exact unknownAvailable_unfenced hopen

theorem seedUnknown_unfenced {read : Read} {count : ℕ}
    (h : s.seedUnknown read t count = .ok s') : s.receipts.fenced = false := by
  obtain ⟨_, -, h⟩ := bind_eq_ok.mp h
  obtain ⟨_, hopen, -⟩ := bind_eq_ok.mp h
  exact unknownAvailable_unfenced hopen

theorem finishPublication_unfenced {p : Publication} {rollback : Bool}
    (h : s.finishPublication p rollback = .ok s') : s.receipts.fenced = false := by
  obtain ⟨_, hopen, -⟩ := bind_eq_ok.mp h
  exact (ensure_eq_ok.mp hopen).1

end State

/-! The operations on the space of the volume. -/

theorem reservePhysicalWrite_unfenced {a a' : Accounting} {bytes : ℕ} {maintenance : Bool}
    (h : a.reservePhysicalWrite bytes maintenance = .ok a') : a.fenced = false := by
  obtain ⟨_, hopen, -⟩ := bind_eq_ok.mp h
  exact ensure_eq_ok.mp hopen

theorem finishPhysicalWrite_fenced {a : Accounting} {bytes : ℕ} (h : a.fenced = true) :
    (a.finishPhysicalWrite bytes).1.fenced = true := by
  unfold Accounting.finishPhysicalWrite
  split
  · rfl
  · exact h

theorem observedFree_fenced {a : Accounting} {free : ℕ} (h : a.fenced = true) :
    (a.observedFree free).fenced = true := by
  unfold Accounting.observedFree
  split <;> exact h

namespace World

variable {w : World}

theorem stable_fenced : Stable (fun s => s.receipts.fenced = true) where
  refresh s probe h := by
    show (s.receipts.refreshFree probe).fenced = true
    unfold Accounting.refreshFree
    split
    · exact h
    · exact h
    · rfl
  queue _ _ _ _ h := h

theorem fenced_of_unfenced {s s' : State} (h : s.receipts.fenced = false)
    (hfenced : s.receipts.fenced = true) : s'.receipts.fenced = true :=
  absurd (hfenced.symm.trans h) (by simp)

theorem finishPublication_fenced {p : Publication} {rollback : Bool} {disposition : Disposition}
    {r : Reading} (h : w.state.receipts.fenced = true) :
    (w.finishPublication p rollback disposition r).state.receipts.fenced = true := by
  have hupdate := stable_fenced.update w.config.profile r
    (fun s => (s.finishPublication p rollback).map (fun s => ((), s)))
    (fun a s' hok hf => by
      obtain ⟨s₁, hs₁, -⟩ := map_eq_ok.mp hok
      exact fenced_of_unfenced (State.finishPublication_unfenced hs₁) hf) h
  unfold finishPublication
  dsimp only
  split
  · rcases hu : w.state.update w.config.profile r (State.attempt (fun s =>
      (s.finishPublication p rollback).map (fun s => ((), s)))) with ⟨answer, woken, s'⟩
    rw [hu] at hupdate
    cases answer with
    | ok a => exact hupdate
    | error e => exact stable_fenced.apply (fun _ => rfl) hupdate
  · exact stable_fenced.apply (fun _ => rfl) h

/-- A step that is only taken where it may be. -/
theorem guarded_fenced {c : Prop} [Decidable c] {w' : World}
    (h : w.state.receipts.fenced = true) (hthen : w'.state.receipts.fenced = true) :
    (if c then w' else w).state.receipts.fenced = true := by
  split
  · exact hthen
  · exact h

theorem check_fenced (id : ℕ) (r : Reading) (h : w.state.receipts.fenced = true) :
    (w.step (.check id r)).state.receipts.fenced = true := by
  rw [step_check]
  cases w.task id with
  | none => exact h
  | some t =>
    rw [Option.elim_some]
    exact guarded_fenced h
      (stable_fenced.checkTask (fun a s' hok hf => (State.check_fenced hok).trans hf) h)

theorem leave_fenced (id : ℕ) (r : Reading) (h : w.state.receipts.fenced = true) :
    (w.step (.leave id r)).state.receipts.fenced = true := by
  rw [step_leave]
  cases w.task id with
  | none => exact h
  | some t =>
    rw [Option.elim_some]
    exact guarded_fenced h
      (stable_fenced.apply (fun hs => stable_fenced.remove hs t.waiter) h)

theorem prepare_fenced (read : Read) (changes : List Change)
    (terminals : List Terminal) (disposition : Disposition) (r : Reading)
    (h : w.state.receipts.fenced = true) :
    (w.step (.prepare read changes terminals disposition r)).state.receipts.fenced = true := by
  unfold step
  dsimp only
  split
  · exact h
  · refine stable_fenced.attempt (fun a s' hok hf => ?_) h
    exact fenced_of_unfenced (State.prepareUnknown_eq_ok hok).2.2.1 hf

theorem finish_fenced (rollback : Bool) (disposition : Disposition) (r : Reading)
    (h : w.state.receipts.fenced = true) :
    (w.step (.finish rollback disposition r)).state.receipts.fenced = true := by
  rw [step_finish]
  cases w.held.publication with
  | none => exact h
  | some p => exact finishPublication_fenced h

theorem dropPublication_fenced (r : Reading) (h : w.state.receipts.fenced = true) :
    (w.step (.dropPublication r)).state.receipts.fenced = true := by
  rw [step_dropPublication]
  cases w.held.publication with
  | none => exact h
  | some p => exact stable_fenced.apply (fun _ => rfl) h

theorem reservePhysicalWrite_step_fenced (bytes : ℕ) (maintenance : Bool) (r : Reading)
    (h : w.state.receipts.fenced = true) :
    (w.step (.reservePhysicalWrite bytes maintenance r)).state.receipts.fenced = true := by
  refine stable_fenced.attempt (fun a s' hok hf => ?_) h
  obtain ⟨_, -, hok⟩ := bind_eq_ok.mp hok
  obtain ⟨receipts, hreserve, -⟩ := bind_eq_ok.mp hok
  exact fenced_of_unfenced (reservePhysicalWrite_unfenced hreserve) hf

/-- **A fence stays.** -/
theorem step_fenced (e : Event) (h : w.state.receipts.fenced = true) :
    (w.step e).state.receipts.fenced = true := by
  cases e with
  | acquire tenant limits requestDeadline started r =>
    exact stable_fenced.enqueue (fun a s' hok hf => (State.register_fenced hok).trans hf) h
  | check id r => exact check_fenced id r h
  | deliver id => exact guarded_fenced h h
  | wake id => exact h
  | elapse id => exact h
  | cancel id => exact h
  | leave id r => exact leave_fenced id r h
  | tryAcquire tenant limits deadline r =>
    exact stable_fenced.attempt (fun a s' hok hf => (State.tryAcquire_fenced hok).trans hf) h
  | dropLease lease r =>
    exact guarded_fenced h (stable_fenced.apply (fun hs => State.dropLease_fenced lease hs) h)
  | bind lease execution r =>
    refine guarded_fenced h (stable_fenced.attempt (fun a s' hok hf => ?_) h)
    obtain ⟨s₁, hs₁, heq⟩ := map_eq_ok.mp hok
    obtain ⟨-, rfl⟩ := Prod.mk.inj heq
    exact (State.bindExecution_fenced hs₁).trans hf
  | pinUnknown tenant maintenance r =>
    exact stable_fenced.attempt
      (fun a s' hok hf => fenced_of_unfenced (State.pinUnknown_unfenced hok) hf) h
  | seedUnknown read tenant count r =>
    refine stable_fenced.attempt (fun a s' hok hf => ?_) h
    obtain ⟨s₁, hs₁, -⟩ := map_eq_ok.mp hok
    exact fenced_of_unfenced (State.seedUnknown_unfenced hs₁) hf
  | dropPin tenant r =>
    exact guarded_fenced h (stable_fenced.apply (fun hs => State.dropPin_fenced hs) h)
  | learn tenant maximum r =>
    exact stable_fenced.attempt (fun a s' hok hf => (State.learn_fenced hok).trans hf) h
  | dropLearner tenant r =>
    exact guarded_fenced h
      (stable_fenced.apply (fun hs => by rw [State.dropLearner_receipts]; exact hs) h)
  | upload bytes r =>
    exact guarded_fenced h
      (stable_fenced.attempt (fun a s' hok hf => (State.upload_fenced hok).trans hf) h)
  | dropUpload bytes r => exact guarded_fenced h (stable_fenced.apply (fun hs => hs) h)
  | reserveRepair read tenant bytes entries r =>
    exact stable_fenced.attempt (fun a s' hok hf => (State.reserveRepair_fenced hok).trans hf) h
  | finishRepair repair committed r =>
    refine guarded_fenced h (stable_fenced.attempt (fun a s' hok hf => ?_) h)
    obtain ⟨s₁, hs₁, -⟩ := map_eq_ok.mp hok
    exact fenced_of_unfenced (State.finishRepair_eq_ok hs₁).2.1 hf
  | dropRepair repair r => exact guarded_fenced h (stable_fenced.apply (fun _ => rfl) h)
  | prepare read changes terminals disposition r =>
    exact prepare_fenced read changes terminals disposition r h
  | finish rollback disposition r => exact finish_fenced rollback disposition r h
  | dropPublication r => exact dropPublication_fenced r h
  | reservePhysicalWrite bytes maintenance r =>
    exact reservePhysicalWrite_step_fenced bytes maintenance r h
  | finishPhysicalWrite bytes r =>
    exact stable_fenced.apply (fun hs => finishPhysicalWrite_fenced hs) h
  | archiveReceipt bytes historyBytes r =>
    exact stable_fenced.apply (fun hs => State.archiveReceipt_fenced hs) h
  | receiptProbe free r => exact stable_fenced.apply (fun hs => observedFree_fenced hs) h
  | observe r => exact stable_fenced.apply (fun hs => hs) h
  | close r => exact stable_fenced.apply (fun hs => hs) h
  | fence r => exact stable_fenced.apply (fun _ => rfl) h

theorem apply_fence (r : Reading) : (w.apply r State.fence).state.receipts.fenced = true := by
  show (State.concluded _ _).2.receipts.fenced = true
  rw [concluded_fenced]
  rfl

end World

/-! ## One step -/

namespace Kept

variable {w : World}

theorem close (h : Kept w) : Kept { w with state := { w.state with closed := true } } where
  sound := h.sound
  books := ⟨h.books.charged, h.books.queued, h.books.pins, h.books.learning,
    h.books.allLearning, h.books.ingress, h.books.ingressBytes⟩
  bounded := ⟨h.bounded.active, h.bounded.reserved, h.bounded.unknown, h.bounded.cached⟩
  pending := h.pending.frame rfl rfl rfl rfl (fun _ _ => id) rfl le_rfl rfl
  lines := ⟨h.lines.queue_nodup, h.lines.task_nodup, h.lines.task_lt, h.lines.caller⟩

theorem archiveReceipt (h : Kept w) {bytes historyBytes : ℕ}
    (hunfenced : (w.state.archiveReceipt bytes historyBytes).receipts.fenced = false) :
    Kept { w with state := w.state.archiveReceipt bytes historyBytes } := by
  unfold State.archiveReceipt at hunfenced ⊢
  dsimp only at hunfenced ⊢
  split at hunfenced
  · next hremaining _ _ =>
    obtain ⟨-, hsub⟩ := Receipts.checkedSub_eq_some.mp hremaining
    exact h.receipts rfl (hsub ▸ Nat.sub_le _ _)
  · exact absurd hunfenced (by simp [State.fence])

theorem pinUnknown (h : Kept w) {t : TenantId} {maintenance pinned : Bool} {s' : State}
    (hp : w.state.pinUnknown t maintenance = .ok (pinned, s')) :
    Kept { w with
      state := s'
      held := if pinned then { w.held with pins := t :: w.held.pins } else w.held } := by
  obtain ⟨_, hopen, hp⟩ := bind_eq_ok.mp hp
  cases hcount : w.state.tenantUnknown t with
  | none =>
    rw [hcount] at hp
    obtain ⟨rfl, rfl⟩ := Prod.mk.inj (pure_eq_ok.mp hp)
    exact h
  | some count =>
    rw [hcount] at hp
    obtain ⟨s₁, hadd, hp⟩ := bind_eq_ok.mp hp
    obtain ⟨rfl, rfl⟩ := Prod.mk.inj (pure_eq_ok.mp hp)
    exact h.addPin (State.unknownAvailable_open hopen)
      (State.tenantUnknown_lt h.bounded hcount) hadd

theorem seedUnknown (h : Kept w) {read : Read} {t : TenantId} {count : ℕ} {s' : State}
    (hp : w.state.seedUnknown read t count = .ok s') :
    Kept { w with state := s', held := { w.held with pins := t :: w.held.pins } } := by
  unfold State.seedUnknown at hp
  simp only [bind_eq_ok, ensure_eq_ok] at hp
  obtain ⟨_, -, _, hopen, -, hcount, hadd⟩ := hp
  have hle : count ≤ w.state.receipts.totals.unknown :=
    not_lt.mp (fun hlt => hcount (Or.inl hlt))
  exact h.addPin (State.unknownAvailable_open hopen) (lt_of_le_of_lt hle h.bounded.unknown) hadd

/-- **A publication that is consumed without a fence keeps the invariant.** -/
theorem consume (h : Kept w) {p : Publication} (hp : w.held.publication = some p) {b : Bool}
    {disposition : Disposition} {r : Reading}
    (hunfenced : (w.finishPublication p b disposition r).state.receipts.fenced = false) :
    Kept (w.finishPublication p b disposition r) := by
  unfold World.finishPublication at hunfenced ⊢
  dsimp only at hunfenced ⊢
  split at hunfenced
  · next hsettles =>
    rw [if_pos hsettles]
    rcases hu : w.state.update w.config.profile r (State.attempt (fun s =>
      (s.finishPublication p b).map (fun s => ((), s)))) with ⟨answer, woken, s'⟩
    rw [hu] at hunfenced
    rcases update_attempt hu with ⟨_, s₁, rfl, hok, rfl⟩ | ⟨e, rfl, rfl⟩
    · obtain ⟨s₂, hs₂, heq⟩ := map_eq_ok.mp hok
      obtain ⟨-, rfl⟩ := Prod.mk.inj heq
      obtain ⟨hfinish, hkept⟩ := (h.prepared r).finishPublication (b := b) hp
        (State.finishPublication_unfenced hs₂)
      obtain rfl := Except.ok.inj (hs₂.symm.trans hfinish)
      exact Kept.after (w := { w with held := { w.held with publication := none } })
        hkept.concluded woken
    · exact absurd (hunfenced.symm.trans (World.apply_fence r)) (by simp)
  · exact absurd (hunfenced.symm.trans (World.apply_fence r)) (by simp)

/-- A step that is only taken where it may be. -/
theorem guarded (h : Kept w) {c : Prop} [Decidable c] {w' : World}
    (hunfenced : (if c then w' else w).state.receipts.fenced = false)
    (hthen : c → w'.state.receipts.fenced = false → Kept w') : Kept (if c then w' else w) := by
  by_cases hc : c
  · rw [if_pos hc] at hunfenced ⊢
    exact hthen hc hunfenced
  · rw [if_neg hc]
    exact h

theorem check_step (h : Kept w) (id : ℕ) (r : Reading) : Kept (w.step (.check id r)) := by
  rw [World.step_check]
  cases hfind : w.task id with
  | none => exact h
  | some t =>
    rw [Option.elim_some]
    split
    · exact h.checkTask (List.mem_of_find?_eq_some hfind) r
    · exact h

theorem deliver_step (h : Kept w) (id : ℕ) : Kept (w.step (.deliver id)) := by
  show Kept (if id ∈ w.notices then
    { w with notices := w.notices.erase id }.setTask id (fun t => { t with permit := true })
    else w)
  split
  · exact Kept.setTask (w := { w with notices := w.notices.erase id })
      ⟨h.sound, h.books, h.bounded, h.pending, h.lines⟩ id (fun _ => rfl)
  · exact h

theorem leave_step (h : Kept w) (id : ℕ) (r : Reading)
    (hunfenced : (w.step (.leave id r)).state.receipts.fenced = false) :
    Kept (w.step (.leave id r)) := by
  rw [World.step_leave] at hunfenced ⊢
  cases hfind : w.task id with
  | none => exact h
  | some t =>
    rw [hfind] at hunfenced
    rw [Option.elim_some] at hunfenced ⊢
    obtain rfl : t.waiter.id = id := by simpa using List.find?_some hfind
    exact h.guarded hunfenced fun _ hopen =>
      h.apply hopen rfl (fun s hs _ => hs.leave (List.mem_of_find?_eq_some hfind))

theorem prepare_step (h : Kept w) (read : Read) (changes : List Change)
    (terminals : List Terminal) (disposition : Disposition) (r : Reading) :
    Kept (w.step (.prepare read changes terminals disposition r)) := by
  unfold World.step
  dsimp only
  split
  · exact h
  · next steps hread =>
    obtain ⟨_, -, hread⟩ := bind_eq_ok.mp hread
    obtain ⟨hkeys, hnew⟩ := readSteps_spec hread
    exact h.attempt (fun s _ s' hs hok => hs.prepareUnknown hkeys hnew hok)

theorem finish_step (h : Kept w) (rollback : Bool) (disposition : Disposition) (r : Reading)
    (hunfenced : (w.step (.finish rollback disposition r)).state.receipts.fenced = false) :
    Kept (w.step (.finish rollback disposition r)) := by
  rw [World.step_finish] at hunfenced ⊢
  cases hp : w.held.publication with
  | none => exact h
  | some p =>
    rw [hp] at hunfenced
    exact h.consume hp hunfenced

/-- A publication that is dropped fences. -/
theorem dropPublication_step (h : Kept w) (r : Reading)
    (hunfenced : (w.step (.dropPublication r)).state.receipts.fenced = false) :
    Kept (w.step (.dropPublication r)) := by
  rw [World.step_dropPublication] at hunfenced ⊢
  cases hp : w.held.publication with
  | none => exact h
  | some p =>
    rw [hp] at hunfenced
    exact absurd (hunfenced.symm.trans (World.apply_fence r)) (by simp)

theorem reservePhysicalWrite_step (h : Kept w) (bytes : ℕ) (maintenance : Bool) (r : Reading) :
    Kept (w.step (.reservePhysicalWrite bytes maintenance r)) := by
  unfold World.step
  refine h.attempt (fun s _ s' hs hok => ?_)
  obtain ⟨_, -, hok⟩ := bind_eq_ok.mp hok
  obtain ⟨receipts, hreserve, hok⟩ := bind_eq_ok.mp hok
  obtain ⟨-, rfl⟩ := Prod.mk.inj (pure_eq_ok.mp hok)
  have htotals := Receipts.Accounting.reservePhysicalWrite_totals hreserve
  exact hs.receipts (by rw [htotals]) (le_of_eq (by rw [htotals]))

/-- **One step keeps the invariant, unless it fences.** -/
theorem step (h : Kept w) (e : Event) (hunfenced : (w.step e).state.receipts.fenced = false) :
    Kept (w.step e) := by
  cases e with
  | acquire tenant limits requestDeadline started r => exact h.enqueue r tenant limits _
  | check id r => exact h.check_step id r
  | deliver id => exact h.deliver_step id
  | wake id => exact h.setTask id (fun t => by split <;> rfl)
  | elapse id => exact h.setTask id (fun t => by split <;> rfl)
  | cancel id => exact h.setTask id (fun t => by split <;> rfl)
  | leave id r => exact h.leave_step id r hunfenced
  | tryAcquire tenant limits deadline r =>
    unfold World.step
    exact h.attempt (fun s _ s' hs hok => hs.tryAcquire hok)
  | dropLease lease r =>
    exact h.guarded hunfenced fun hmem hopen =>
      h.apply hopen rfl (fun s hs _ => (hs.dropLease hmem).2)
  | bind lease execution r =>
    refine h.guarded hunfenced fun hmem _ => h.attempt (fun s _ s' hs hok => ?_)
    obtain ⟨s₁, hs₁, heq⟩ := map_eq_ok.mp hok
    obtain ⟨-, rfl⟩ := Prod.mk.inj heq
    exact hs.bind hmem hs₁
  | pinUnknown tenant maintenance r =>
    unfold World.step
    exact h.attempt (fun s _ s' hs hok => hs.pinUnknown hok)
  | seedUnknown read tenant count r =>
    unfold World.step
    refine h.attempt (fun s _ s' hs hok => ?_)
    obtain ⟨s₁, hs₁, heq⟩ := map_eq_ok.mp hok
    obtain ⟨-, rfl⟩ := Prod.mk.inj heq
    exact hs.seedUnknown hs₁
  | dropPin tenant r =>
    exact h.guarded hunfenced fun hmem hopen =>
      h.apply hopen rfl (fun s hs _ => (hs.dropPin hmem).2)
  | learn tenant maximum r =>
    unfold World.step
    exact h.attempt (fun s _ s' hs hok => hs.learn hok)
  | dropLearner tenant r =>
    exact h.guarded hunfenced fun hmem hopen =>
      h.apply hopen rfl (fun s hs _ => hs.dropLearner hmem)
  | upload bytes r =>
    exact h.guarded hunfenced fun _ _ => h.attempt (fun s _ s' hs hok => hs.upload hok)
  | dropUpload bytes r =>
    exact h.guarded hunfenced fun hmem hopen =>
      h.apply hopen rfl (fun s hs _ => hs.dropUpload hmem)
  | reserveRepair read tenant bytes entries r =>
    unfold World.step
    exact h.attempt (fun s _ s' hs hok => hs.reserveRepair hok)
  | finishRepair repair committed r =>
    refine h.guarded hunfenced fun hmem _ => h.attempt (fun s _ s' hs hok => ?_)
    obtain ⟨s₁, hs₁, heq⟩ := map_eq_ok.mp hok
    obtain ⟨-, rfl⟩ := Prod.mk.inj heq
    exact hs.finishRepair hmem hs₁
  | dropRepair repair r =>
    exact h.guarded hunfenced fun _ hopen =>
      absurd (hopen.symm.trans (World.apply_fence r)) (by simp)
  | prepare read changes terminals disposition r =>
    exact h.prepare_step read changes terminals disposition r
  | finish rollback disposition r => exact h.finish_step rollback disposition r hunfenced
  | dropPublication r => exact h.dropPublication_step r hunfenced
  | reservePhysicalWrite bytes maintenance r =>
    exact h.reservePhysicalWrite_step bytes maintenance r
  | finishPhysicalWrite bytes r =>
    refine h.apply hunfenced rfl (fun s hs _ => ?_)
    have htotals := Receipts.Accounting.finishPhysicalWrite_totals s.receipts bytes
    exact hs.receipts (by rw [htotals]) (le_of_eq (by rw [htotals]))
  | archiveReceipt bytes historyBytes r =>
    exact h.apply hunfenced rfl (fun s hs hopen => hs.archiveReceipt hopen)
  | receiptProbe free r =>
    refine h.apply hunfenced rfl (fun s hs _ => ?_)
    have htotals := Receipts.Accounting.observedFree_totals s.receipts free
    exact hs.receipts (by rw [htotals]) (le_of_eq (by rw [htotals]))
  | observe r => exact h.apply hunfenced rfl (fun s hs _ => hs)
  | close r => exact h.apply hunfenced rfl (fun s hs _ => hs.close)
  | fence r => exact absurd (hunfenced.symm.trans (World.apply_fence r)) (by simp)

end Kept

/-! ## Every run -/

namespace World

variable {w : World}

theorem run_fenced (events : List Event) (h : w.state.receipts.fenced = true) :
    (w.run events).state.receipts.fenced = true := by
  induction events generalizing w with
  | nil => exact h
  | cons e events ih => exact ih (step_fenced e h)

end World

/-- **A run nobody fences keeps the invariant in every state.** -/
theorem Kept.run {w : World} (h : Kept w) (events : List Event)
    (hunfenced : (w.run events).state.receipts.fenced = false) : Kept (w.run events) := by
  induction events generalizing w with
  | nil => exact h
  | cons e events ih =>
    refine ih (h.step e ?_) hunfenced
    -- a fence at this step would still stand at the end
    cases hfence : (w.step e).state.receipts.fenced with
    | false => rfl
    | true => exact absurd ((World.run_fenced events hfence).symm.trans hunfenced) (by simp)

end BitRouter.Admission
