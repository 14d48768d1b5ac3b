import BitRouter.Admission.Balance

/-!
# What no step takes back

`Onward` relates a state to what comes of it: a completed source stays
completed, and the queue only loses entries. Every critical section is a step
onward, apart from the registration that puts a new waiter at the end of the
queue (`Kept.step_onward`); so the queue is always in the order of its
registrations (`Kept.step_ordered`).
-/

namespace BitRouter.Admission

open Tenancy
open Receipts (Inventory)

namespace Custody

variable {c : Custody} {b : Bool}

variable {id : ℕ}

theorem complete_done {owner : ℕ} (h : (c.completions id).done = true) :
    ((c.complete owner).completions id).done = true := by
  by_cases hid : id = owner
  · rw [hid]
    exact complete_done_self owner
  · rw [complete_ne hid]
    exact h

theorem settle_done (step : Step) (h : (c.completions id).done = true) :
    ((c.settle b step).completions id).done = true := by
  unfold settle
  split
  · dsimp only
    split
    · exact complete_done h
    · exact h
  · exact h

theorem settleAll_done (steps : List Step) (h : (c.completions id).done = true) :
    ((steps.foldl (settle b) c).completions id).done = true := by
  induction steps generalizing c with
  | nil => exact h
  | cons step steps ih => exact ih (settle_done step h)

end Custody

/-- **A state that has come of another**: what is completed stays completed,
and nobody has entered the queue. -/
structure Onward (s s' : State) : Prop where
  done : ∀ id, (s.completions id).done = true → (s'.completions id).done = true
  queue : s'.queue.Sublist s.queue

namespace Onward

variable {s s' s'' : State}

theorem refl (s : State) : Onward s s where
  done _ h := h
  queue := List.Sublist.refl _

theorem trans (h : Onward s s') (h' : Onward s' s'') : Onward s s'' where
  done id hid := h'.done id (h.done id hid)
  queue := h'.queue.trans h.queue

theorem of_eq (hcompletions : s'.completions = s.completions) (hqueue : s'.queue = s.queue) :
    Onward s s' where
  done _ hid := hcompletions ▸ hid
  queue := hqueue ▸ List.Sublist.refl _

theorem stable (s : State) : Stable (Onward s) where
  refresh _ _ h := h.trans (.of_eq rfl rfl)
  queue _ _ _ hsub h := ⟨h.done, hsub.trans h.queue⟩

end Onward

/-! ## The critical sections -/

variable {bytes : ℕ} {p : Publication} {read : Read} {u : Unit}

namespace State

variable {s s' : State} {t : TenantId} {owner id : ℕ}

theorem remove_onward (waiter : Waiter) : Onward s (s.remove waiter) :=
  (Onward.stable s).remove (Onward.refl s) waiter

theorem idle_onward (t : TenantId) : Onward s (s.idle t) := by
  rw [idle_eq]
  exact .of_eq rfl rfl

theorem reserve_onward (h : s.reserve t = .ok s') : Onward s s' := by
  obtain ⟨_, -, -, -, rfl⟩ := reserve_eq_ok h
  exact .of_eq rfl rfl

theorem setDone_onward : Onward s (s.setDone owner) where
  done _ hid := Custody.complete_done (c := custody s {}) hid
  queue := List.Sublist.refl _

theorem releaseOwned_onward {key : Option Key} {covered : Bool}
    (h : s.releaseOwned t owner key covered = .ok s') : Onward s s' := by
  unfold releaseOwned at h
  cases hdone : (s.completions owner).done <;> rw [hdone] at h
    <;> simp only [if_true, Bool.false_eq_true, if_false, bind_eq_ok, pure_eq_ok] at h
  · obtain ⟨_, -, _, -, _, -, _, -, rfl⟩ := h
    rw [idle_eq]
    exact ⟨fun id hid => setDone_onward.done id hid, List.Sublist.refl _⟩
  · obtain ⟨_, -, _, -, _, -, _, -, rfl⟩ := h
    rw [idle_eq]
    exact ⟨fun id hid => setDone_onward.done id hid, List.Sublist.refl _⟩

theorem releaseLease_cases (h : s.releaseLease t owner = .ok s') :
    (∃ key covered, s.releaseOwned t owner key covered = .ok s')
      ∨ ∃ entries, s' = { s with executions := entries } := by
  unfold releaseLease at h
  split at h
  · exact Or.inl ⟨_, _, h⟩
  · obtain ⟨live, -, h⟩ := bind_eq_ok.mp h
    obtain ⟨_, -, h⟩ := bind_eq_ok.mp h
    split at h
    · obtain rfl := pure_eq_ok.mp h
      exact Or.inr ⟨_, rfl⟩
    · exact Or.inl ⟨_, _, h⟩

theorem dropLease_onward (lease : Lease) : Onward s (s.dropLease lease) := by
  unfold dropLease
  split
  · next s₁ hok =>
    rcases releaseLease_cases hok with ⟨_, _, howned⟩ | ⟨_, rfl⟩
    · exact releaseOwned_onward howned
    · exact .of_eq rfl rfl
  · exact .of_eq rfl rfl

theorem bindExecution_onward {execution : ExecutionId}
    (h : s.bindExecution t owner execution = .ok s') : Onward s s' := by
  obtain ⟨-, rfl | ⟨-, -, rfl⟩⟩ := bindExecution_eq_ok (l := ⟨t, owner⟩) h
  · exact Onward.refl _
  · refine ⟨fun id hid => ?_, List.Sublist.refl _⟩
    show ((Function.update _ _ _ : ℕ → Completion) id).done = true
    by_cases heq : id = owner
    · subst heq
      rw [Function.update_self]
      exact hid
    · rw [Function.update_of_ne heq]
      exact hid

theorem addPin_onward {count : ℕ} (h : s.addPin t count = .ok s') : Onward s s' := by
  obtain ⟨_, -, h⟩ := bind_eq_ok.mp h
  obtain rfl := pure_eq_ok.mp h
  exact .of_eq rfl rfl

theorem pinUnknown_onward {maintenance pinned : Bool}
    (h : s.pinUnknown t maintenance = .ok (pinned, s')) : Onward s s' := by
  obtain ⟨_, -, h⟩ := bind_eq_ok.mp h
  split at h
  · obtain ⟨-, rfl⟩ := Prod.mk.inj (pure_eq_ok.mp h)
    exact Onward.refl _
  · obtain ⟨s₁, hadd, h⟩ := bind_eq_ok.mp h
    obtain ⟨-, rfl⟩ := Prod.mk.inj (pure_eq_ok.mp h)
    exact addPin_onward hadd

theorem seedUnknown_onward {count : ℕ} (h : s.seedUnknown read t count = .ok s') : Onward s s' := by
  obtain ⟨_, -, h⟩ := bind_eq_ok.mp h
  obtain ⟨_, -, h⟩ := bind_eq_ok.mp h
  obtain ⟨_, -, h⟩ := bind_eq_ok.mp h
  exact addPin_onward h

theorem check_onward {profile : Profile} {waiter : Waiter} {now : ℕ} {granted : Bool}
    (h : s.check profile waiter now = .ok (granted, s')) : Onward s s' := by
  obtain ⟨-, ⟨-, _, s₁, -, -, hreserve, rfl⟩ | ⟨-, rfl, -⟩⟩ := check_eq_ok h
  · exact (reserve_onward hreserve).trans (remove_onward waiter)
  · exact Onward.refl _

theorem learn_onward {maximum : ℕ} (h : s.learn t maximum = .ok (u, s')) :
    Onward s s' := by
  unfold learn at h
  simp only [bind_eq_ok, ensure_eq_ok, pure_eq_ok, Prod.mk.injEq] at h
  obtain ⟨-, -, -, -, -, rfl⟩ := h
  exact .of_eq rfl rfl

theorem upload_onward {limits : IngressLimits} (h : s.upload limits bytes = .ok (u, s')) :
    Onward s s' := by
  unfold upload at h
  simp only [bind_eq_ok, ensure_eq_ok, orFail_eq_ok, pure_eq_ok, Prod.mk.injEq] at h
  obtain ⟨-, -, _, -, -, -, -, rfl⟩ := h
  exact .of_eq rfl rfl

theorem dropPin_onward : Onward s (s.dropPin t) := by
  refine Onward.trans ?_ (idle_onward t)
  split
  · split <;> exact .of_eq rfl rfl
  · exact .of_eq rfl rfl

theorem dropLearner_onward : Onward s (s.dropLearner t) := by
  refine Onward.trans ?_ (idle_onward t)
  split <;> exact .of_eq rfl rfl

theorem finishRepair_onward {r : Repair} {committed : Bool}
    (h : s.finishRepair r committed = .ok s') : Onward s s' := by
  unfold finishRepair at h
  simp only [bind_eq_ok, pure_eq_ok] at h
  obtain ⟨_, -, _, -, _, -, _, -, _, -, _, -, rfl⟩ := h
  rw [idle_eq]
  exact .of_eq rfl rfl

theorem archiveReceipt_onward {historyBytes : ℕ} :
    Onward s (s.archiveReceipt bytes historyBytes) := by
  unfold archiveReceipt
  dsimp only
  split <;> exact .of_eq rfl rfl

theorem enterAll_completions {tenant : TenantId} {entries : List (ExecutionId × Bool)}
    (hfresh : ∀ k, owner ≤ k → k ≠ id) :
    ((repairRows tenant owner entries).foldl enterRow s).completions id = s.completions id := by
  induction entries generalizing owner s with
  | nil => rfl
  | cons entry entries ih =>
    show ((repairRows tenant (owner + 1) entries).foldl enterRow _).completions id = _
    rw [ih (fun k hk => hfresh k (Nat.le_of_succ_le hk))]
    exact Function.update_of_ne (Ne.symm (hfresh owner le_rfl)) _ _

theorem prepareUnknown_onward {steps : List Step} {token : ℕ}
    (h : s.prepareUnknown read steps token = .ok (p, s')) : Onward s s' := by
  obtain ⟨-, -, -, claims, _, tenants, _, _, -, -, -, -, rfl⟩ := prepareUnknown_eq_ok h
  rw [markAll_eq, pinAll_eq]
  exact .of_eq rfl rfl

theorem initializeReceipts_onward {inventory : Inventory} {free : ℕ}
    (h : s.initializeReceipts inventory free = .ok (u, s')) : Onward s s' := by
  obtain ⟨_, -, h⟩ := bind_eq_ok.mp h
  obtain ⟨receipts, -, h⟩ := bind_eq_ok.mp h
  obtain ⟨-, rfl⟩ := Prod.mk.inj (pure_eq_ok.mp h)
  exact .of_eq rfl rfl

theorem foldl_idle_eq (ts : List TenantChange) (s : State) : ∃ tenants,
    ts.foldl (fun s t => s.idle t.tenant) s = { s with tenants := tenants } := by
  induction ts generalizing s with
  | nil => exact ⟨s.tenants, rfl⟩
  | cons t ts ih =>
    rw [List.foldl_cons, State.idle_eq]
    exact ih _

end State

namespace Kept

variable {w : World}

/-- A completed source has been given out, so a new row is not its own. -/
theorem reserveRepair_onward (h : Kept w) {tenant : TenantId}
    {entries : List (ExecutionId × Bool)} {repair : Repair} {s' : State}
    (hr : w.state.reserveRepair read tenant bytes entries w.held.nextId = .ok (repair, s')) :
    Onward w.state s' := by
  obtain ⟨-, -, -, -, -, -, rfl⟩ := State.reserveRepair_eq_ok hr
  refine ⟨fun id hid => ?_, ?_⟩
  · rw [State.enterAll_completions (fun k hk heq => ?_)]
    · exact hid
    · subst heq
      have hnew : w.state.completions k = {} := h.sound.fresh k hk
      rw [hnew] at hid
      exact absurd hid (by simp)
  · rw [enterAll_eq]
    exact List.Sublist.refl _

theorem consumed_onward (h : Kept w) (hp : w.held.publication = some p) {b : Bool} {s' : State}
    (hok : w.state.finishPublication p b = .ok s') :
    Onward w.state s' := by
  have hfence : w.state.receipts.fenced = false := by
    have hopen := hok
    obtain ⟨_, hopen, -⟩ := bind_eq_ok.mp hopen
    exact (ensure_eq_ok.mp hopen).1
  obtain ⟨hfinish, -⟩ := h.finishPublication (b := b) hp hfence
  obtain rfl := Except.ok.inj (hok.symm.trans hfinish)
  set ts := p.tenants.map (w.state.outcome p b)
  obtain ⟨tenants, hidle⟩ := State.foldl_idle_eq ts (w.state.settledState p b)
  rw [hidle]
  refine ⟨fun id hid => ?_, ?_⟩
  · have hdone := Custody.settleAll_done (c := custody w.state w.held) (b := b) p.steps hid
    rw [← State.custody_settleWith ts (w.state.outcomeTotals p b)
      (w.state.active - stepCount everyone w.state.slots p.steps)] at hdone
    exact hdone
  · show (w.state.settledState p b).queue.Sublist w.state.queue
    have hqueue : (w.state.settledState p b).queue = w.state.queue := State.settleWith_queue
    exact hqueue ▸ List.Sublist.refl _

theorem finishPublication_onward (h : Kept w) (hp : w.held.publication = some p) {b : Bool}
    {disposition : Disposition} {r : Reading} :
    Onward w.state (w.finishPublication p b disposition r).state := by
  have hstable := Onward.stable w.state
  have hupdate := hstable.update w.config.profile r
    (fun s => (s.finishPublication p b).map (fun s => ((), s)))
    (fun a s' hok hd => by
      obtain ⟨s₁, hs₁, heq⟩ := map_eq_ok.mp hok
      obtain ⟨-, rfl⟩ := Prod.mk.inj heq
      exact hd.trans ((h.prepared r).consumed_onward hp hs₁)) (Onward.refl _)
  unfold World.finishPublication
  dsimp only
  split
  · rcases hu : w.state.update w.config.profile r (State.attempt (fun s =>
      (s.finishPublication p b).map (fun s => ((), s)))) with ⟨answer, woken, s'⟩
    rw [hu] at hupdate
    cases answer with
    | ok a => exact hupdate
    | error e => exact hstable.apply (fun hs => hs.trans (.of_eq rfl rfl)) hupdate
  · exact hstable.apply (fun hs => hs.trans (.of_eq rfl rfl)) (Onward.refl _)

/-- **Every step but a registration goes onward.** -/
theorem step_onward (h : Kept w) (e : Event)
    (hother : ∀ tenant limits deadline started r, e ≠ .acquire tenant limits deadline started r) :
    Onward w.state (w.step e).state := by
  have hstable := Onward.stable w.state
  have hrefl := Onward.refl w.state
  cases e with
  | acquire tenant limits requestDeadline started r => exact absurd rfl (hother _ _ _ _ _)
  | check id r =>
    rw [World.step_check]
    cases w.task id with
    | none => exact hrefl
    | some t =>
      rw [Option.elim_some]
      split
      · exact hstable.checkTask (fun a s' hok hs => hs.trans (State.check_onward hok)) hrefl
      · exact hrefl
  | deliver id =>
    show Onward w.state (if id ∈ w.notices then _ else w).state
    split <;> exact hrefl
  | wake id => exact hrefl
  | elapse id => exact hrefl
  | cancel id => exact hrefl
  | leave id r =>
    rw [World.step_leave]
    cases w.task id with
    | none => exact hrefl
    | some t =>
      rw [Option.elim_some]
      split
      · exact hstable.apply (fun hs => hstable.remove hs t.waiter) hrefl
      · exact hrefl
  | tryAcquire tenant limits deadline r =>
    refine hstable.attempt (fun a s' hok hs => ?_) hrefl
    obtain ⟨-, -, -, -, -, -, hreserve⟩ := State.tryAcquire_eq_ok hok
    exact hs.trans (State.reserve_onward hreserve)
  | dropLease lease r =>
    show Onward w.state (if lease ∈ w.held.leases then _ else w).state
    split
    · exact hstable.apply (fun hs => hs.trans (State.dropLease_onward lease)) hrefl
    · exact hrefl
  | bind lease execution r =>
    show Onward w.state (if lease ∈ w.held.leases then _ else w).state
    split
    · refine hstable.attempt (fun a s' hok hs => ?_) hrefl
      obtain ⟨s₁, hs₁, heq⟩ := map_eq_ok.mp hok
      obtain ⟨-, rfl⟩ := Prod.mk.inj heq
      exact hs.trans (State.bindExecution_onward hs₁)
    · exact hrefl
  | pinUnknown tenant maintenance r =>
    exact hstable.attempt (fun a s' hok hs => hs.trans (State.pinUnknown_onward hok)) hrefl
  | seedUnknown read tenant count r =>
    refine hstable.attempt (fun a s' hok hs => ?_) hrefl
    obtain ⟨s₁, hs₁, heq⟩ := map_eq_ok.mp hok
    obtain ⟨-, rfl⟩ := Prod.mk.inj heq
    exact hs.trans (State.seedUnknown_onward hs₁)
  | dropPin tenant r =>
    show Onward w.state (if tenant ∈ w.held.pins then _ else w).state
    split
    · exact hstable.apply (fun hs => hs.trans State.dropPin_onward) hrefl
    · exact hrefl
  | learn tenant maximum r =>
    exact hstable.attempt (fun a s' hok hs => hs.trans (State.learn_onward hok)) hrefl
  | dropLearner tenant r =>
    show Onward w.state (if tenant ∈ w.held.learners then _ else w).state
    split
    · exact hstable.apply (fun hs => hs.trans State.dropLearner_onward) hrefl
    · exact hrefl
  | upload bytes r =>
    show Onward w.state (if bytes ≤ 16 * 1024 * 1024 then _ else w).state
    split
    · exact hstable.attempt (fun a s' hok hs => hs.trans (State.upload_onward hok)) hrefl
    · exact hrefl
  | dropUpload bytes r =>
    show Onward w.state (if bytes ∈ w.held.uploads then _ else w).state
    split
    · exact hstable.apply (fun hs => hs.trans (.of_eq rfl rfl)) hrefl
    · exact hrefl
  | reserveRepair read tenant bytes entries r =>
    exact hstable.attempt (fun a s' hok hs =>
      hs.trans ((h.prepared r).reserveRepair_onward hok)) hrefl
  | finishRepair repair committed r =>
    show Onward w.state (if repair ∈ w.held.repairs then _ else w).state
    split
    · refine hstable.attempt (fun a s' hok hs => ?_) hrefl
      obtain ⟨s₁, hs₁, heq⟩ := map_eq_ok.mp hok
      obtain ⟨-, rfl⟩ := Prod.mk.inj heq
      exact hs.trans (State.finishRepair_onward hs₁)
    · exact hrefl
  | dropRepair repair r =>
    show Onward w.state (if repair ∈ w.held.repairs then _ else w).state
    split
    · exact hstable.apply (fun hs => hs.trans (.of_eq rfl rfl)) hrefl
    · exact hrefl
  | prepare read changes terminals disposition r =>
    unfold World.step
    dsimp only
    split
    · exact hrefl
    · exact hstable.attempt (fun a s' hok hs => hs.trans (State.prepareUnknown_onward hok)) hrefl
  | finish rollback disposition r =>
    rw [World.step_finish]
    cases hp : w.held.publication with
    | none => exact hrefl
    | some p => exact h.finishPublication_onward hp
  | dropPublication r =>
    rw [World.step_dropPublication]
    cases w.held.publication with
    | none => exact hrefl
    | some p => exact hstable.apply (fun hs => hs.trans (.of_eq rfl rfl)) hrefl
  | reservePhysicalWrite bytes maintenance r =>
    refine hstable.attempt (fun a s' hok hs => ?_) hrefl
    obtain ⟨_, -, hok⟩ := bind_eq_ok.mp hok
    obtain ⟨receipts, -, hok⟩ := bind_eq_ok.mp hok
    obtain ⟨-, rfl⟩ := Prod.mk.inj (pure_eq_ok.mp hok)
    exact hs.trans (.of_eq rfl rfl)
  | finishPhysicalWrite bytes r => exact hstable.apply (fun hs => hs.trans (.of_eq rfl rfl)) hrefl
  | archiveReceipt bytes historyBytes r =>
    exact hstable.apply (fun hs => hs.trans State.archiveReceipt_onward) hrefl
  | receiptProbe free r => exact hstable.apply (fun hs => hs.trans (.of_eq rfl rfl)) hrefl
  | observe r => exact hstable.apply (fun hs => hs) hrefl
  | close r => exact hstable.apply (fun hs => hs.trans (.of_eq rfl rfl)) hrefl
  | fence r => exact hstable.apply (fun hs => hs.trans (.of_eq rfl rfl)) hrefl

end Kept

/-! ## Registrations -/

/-- **A registration leaves the queue as it is, or puts its own waiter at the
end.** -/
theorem World.enqueue_onward (w : World) (r : Reading) (tenant : TenantId) (limits : Limits)
    (deadline : ℕ) :
    Onward w.state (w.enqueue r tenant limits deadline).state
      ∨ ∃ waiter : Waiter, waiter.id = w.held.nextId
        ∧ (∀ id, (w.state.completions id).done = true →
          ((w.enqueue r tenant limits deadline).state.completions id).done = true)
        ∧ (w.enqueue r tenant limits deadline).state.queue.Sublist (w.state.queue ++ [waiter]) := by
  have hstable := Onward.stable w.state
  have hprepared := hstable.prepared (Onward.refl w.state) r
  unfold enqueue
  rcases hu : w.state.update w.config.profile r (State.attempt (fun s =>
    s.register w.config.profile tenant limits deadline w.held.nextId r.inside))
    with ⟨answer, woken, s'⟩
  rcases update_attempt hu with ⟨answer, s₁, rfl, hok, rfl⟩ | ⟨e, rfl, rfl⟩
  · obtain ⟨-, -, ⟨rfl, hreserve, -⟩ | ⟨waiter, rfl, hid, -, -, -, -, -, rfl⟩⟩ :=
      State.register_eq_ok hok
    · exact Or.inl (hstable.concluded (hprepared.trans (State.reserve_onward hreserve)) _)
    · refine Or.inr ⟨waiter, hid, ?_⟩
      have hpushed := (Onward.stable _).concluded (Onward.refl (State.setCounts
        { (w.state.prepared r).2 with queue := (w.state.prepared r).2.queue ++ [waiter] } tenant
        { (w.state.prepared r).2.counts tenant with
          queued := ((w.state.prepared r).2.counts tenant).queued + 1 })) w.config.profile
      exact ⟨fun id hd => hpushed.done id (hprepared.done id hd),
        hpushed.queue.trans (hprepared.queue.append_right [waiter])⟩
  · exact Or.inl (hstable.concluded hprepared _)

namespace Kept

variable {w : World}

/-- **An execution that is completed stays completed.** -/
theorem step_done (h : Kept w) {id : ℕ} (hid : (w.state.completions id).done = true) (e : Event) :
    ((w.step e).state.completions id).done = true := by
  cases e with
  | acquire tenant limits requestDeadline started r =>
    rcases w.enqueue_onward r tenant limits
      (min requestDeadline (started + w.config.queueWait)) with hon | ⟨_, -, hdone, -⟩
    · exact hon.done id hid
    · exact hdone id hid
  | _ => exact (h.step_onward _ (by simp)).done id hid

theorem run_done (h : Kept w) {id : ℕ} (hid : (w.state.completions id).done = true)
    (events : List Event) (hunfenced : (w.run events).state.receipts.fenced = false) :
    ((w.run events).state.completions id).done = true := by
  induction events generalizing w with
  | nil => exact hid
  | cons e events ih =>
    refine ih (h.step e ?_) (h.step_done hid e) hunfenced
    cases hfence : (w.step e).state.receipts.fenced with
    | false => rfl
    | true => exact absurd ((World.run_fenced events hfence).symm.trans hunfenced) (by simp)

end Kept

/-! ## The order of the queue -/

/-- **The queue is in the order of its registrations.** -/
def State.Ordered (s : State) : Prop := s.queue.Pairwise (fun x y => x.id < y.id)

theorem Kept.step_ordered {w : World} (h : Kept w) (hordered : w.state.Ordered) (e : Event) :
    (w.step e).state.Ordered := by
  have hlt : ∀ x ∈ w.state.queue, x.id < w.held.nextId := by
    intro x hx
    obtain ⟨t, ht, rfl⟩ := h.lines.caller x hx
    exact h.lines.task_lt t ht
  cases e with
  | acquire tenant limits requestDeadline started r =>
    rcases w.enqueue_onward r tenant limits
      (min requestDeadline (started + w.config.queueWait)) with
      hon | ⟨waiter, hid, -, hqueue⟩
    · exact hordered.sublist hon.queue
    · refine List.Pairwise.sublist hqueue (List.pairwise_append.mpr
        ⟨hordered, List.pairwise_singleton _ _, fun x hx y hy => ?_⟩)
      rw [List.mem_singleton.mp hy, hid]
      exact hlt x hx
  | _ => exact hordered.sublist (h.step_onward _ (by simp)).queue

theorem Kept.run_ordered {w : World} (h : Kept w) (hordered : w.state.Ordered)
    (events : List Event) (hunfenced : (w.run events).state.receipts.fenced = false) :
    (w.run events).state.Ordered := by
  induction events generalizing w with
  | nil => exact hordered
  | cons e events ih =>
    refine ih (h.step e ?_) (h.step_ordered hordered e) hunfenced
    cases hfence : (w.step e).state.receipts.fenced with
    | false => rfl
    | true => exact absurd ((World.run_fenced events hfence).symm.trans hunfenced) (by simp)

end BitRouter.Admission
