import BitRouter.Admission.Leases

/-!
# Pins, learning leases, uploads and the queue

The operations that move one counter of a tenant, or one of the instance, and
leave the custody alone. Each is the invariant with one more or one less of
something owned (`Kept.recount`), so none of their subtractions underflows.
-/

namespace BitRouter.Admission

open Tenancy

/-- Addresses that have not been used may be given out. -/
theorem Custody.Sound.raise {c : Custody} (h : c.Sound) {n : ℕ} (hn : c.nextId ≤ n) :
    ({ c with nextId := n } : Custody).Sound where
  fresh id hid := h.fresh id (le_trans hn hid)
  lease_lt l hl := lt_of_lt_of_le (h.lease_lt l hl) hn
  lease_nodup := h.lease_nodup
  unbound := h.unbound
  bound := h.bound
  entry k live hk := ⟨lt_of_lt_of_le (h.entry k live hk).1 hn, (h.entry k live hk).2⟩
  held := h.held
  loose := h.loose
  dropped := h.dropped
  inj := h.inj
  repair_nodup := h.repair_nodup
  repair_entry := h.repair_entry

/-- **The counters a custody does not see may move**, as long as they are the
numbers of what is owned. -/
theorem Kept.recount {w : World} (h : Kept w) {s' : State} {o' : Held} {tasks' : List Task}
    (hstate : s' = { w.state with
      tenants := s'.tenants, learning := s'.learning, queue := s'.queue })
    (hheld : o' = { w.held with nextId := o'.nextId, pins := o'.pins, learners := o'.learners })
    (hnext : w.held.nextId ≤ o'.nextId)
    (hcharged : ∀ t, (s'.counts t).active = (w.state.counts t).active
      ∧ (s'.counts t).uncovered = (w.state.counts t).uncovered
      ∧ (s'.counts t).repairs = (w.state.counts t).repairs)
    (hcached : ∀ t n, (s'.counts t).unknown = some n →
      (w.state.counts t).unknown = some n ∨ (w.held.publication = none ∧ n < 2 ^ 64))
    (hqueued : ∀ t, (s'.counts t).queued = s'.queue.countP (fun w => w.tenant = t))
    (hpins : ∀ t, (s'.counts t).pins = o'.pins.count t + w.held.touches t)
    (hlearning : ∀ t, (s'.counts t).learning = o'.learners.count t)
    (hall : s'.learning = o'.learners.length) (hlines : Lines s' o' tasks') :
    Kept { w with state := s', held := o', tasks := tasks' } := by
  have hcustody : custody s' o'
      = { custody w.state w.held with nextId := o'.nextId } := by rw [hstate, hheld]; rfl
  have htouches : ∀ t, o'.touches t = w.held.touches t := by
    intro t
    rw [hheld]
    rfl
  have hload : ∀ p κ, (custody s' o').load p κ = (custody w.state w.held).load p κ := by
    intro p κ
    rw [hcustody]
    rfl
  refine
    { sound := hcustody ▸ h.sound.raise hnext
      books :=
        { charged := ?_
          queued := hqueued
          pins := fun t => by rw [hpins, htouches]
          learning := hlearning
          allLearning := hall
          ingress := by rw [hstate, hheld]; exact h.books.ingress
          ingressBytes := by rw [hstate, hheld]; exact h.books.ingressBytes }
      bounded :=
        { active := by rw [hstate]; exact h.bounded.active
          reserved := by rw [hstate]; exact h.bounded.reserved
          unknown := by rw [hstate]; exact h.bounded.unknown
          cached := fun t n hn => (hcached t n hn).elim (h.bounded.cached t n) And.right }
      pending := ?_
      lines := hlines }
  · have hslots : s'.active = w.state.active
        ∧ s'.receipts.totals = w.state.receipts.totals := by
      rw [hstate]
      exact ⟨rfl, rfl⟩
    show Charged s'.counts s'.active s'.receipts.totals (custody s' o')
    rw [hslots.1, hslots.2]
    refine (h.books.charged.congr (fun t => (hcharged t).1) (fun t => (hcharged t).2.1)
      (fun t => (hcharged t).2.2)).of_load hload ?_
    rw [hcustody]
  · by_cases hnone : w.held.publication = none
    · have hp := h.pending
      unfold Pending at hp ⊢
      rw [hheld]
      rw [hnone] at hp ⊢
      rw [hstate]
      exact hp
    · have hpublication : o'.publication = w.held.publication := by rw [hheld]
      refine h.pending.frame ?_ ?_ ?_ ?_
        (fun t n hn => (hcached t n hn).resolve_right (fun hor => hnone hor.1)) ?_ ?_ hpublication
      · rw [hstate]
      · rw [hstate]
      · rw [hstate]
      · rw [hstate]
      · rw [hstate]
      · rw [hstate]

/-- A caller may move between its points: its waiter stays. -/
theorem Kept.retask {w : World} (h : Kept w) {tasks' : List Task}
    (hwaiters : tasks'.map (fun t => t.waiter) = w.tasks.map (fun t => t.waiter)) :
    Kept { w with tasks := tasks' } where
  sound := h.sound
  books := h.books
  bounded := h.bounded
  pending := h.pending
  lines :=
    { queue_nodup := h.lines.queue_nodup
      task_nodup := by
        have := congrArg (List.map Waiter.id) hwaiters
        rw [List.map_map, List.map_map] at this
        exact this ▸ h.lines.task_nodup
      task_lt := fun t ht => by
        have hmem : t.waiter ∈ w.tasks.map (fun t => t.waiter) := hwaiters ▸ List.mem_map_of_mem ht
        obtain ⟨t', ht', heq⟩ := List.mem_map.mp hmem
        exact heq ▸ h.lines.task_lt t' ht'
      caller := fun x hx => by
        obtain ⟨t, ht, heq⟩ := h.lines.caller x hx
        have hmem : t.waiter ∈ tasks'.map (fun t => t.waiter) :=
          hwaiters ▸ List.mem_map_of_mem ht
        obtain ⟨t', ht', heq'⟩ := List.mem_map.mp hmem
        exact ⟨t', ht', heq'.trans heq⟩ }

theorem setTask_waiters (w : World) (id : ℕ) {f : Task → Task} (hf : ∀ t, (f t).waiter = t.waiter) :
    (w.setTask id f).tasks.map (fun t => t.waiter) = w.tasks.map (fun t => t.waiter) := by
  show (w.tasks.map _).map _ = _
  rw [List.map_map]
  refine List.map_congr_left (fun t _ => ?_)
  rw [Function.comp_apply]
  split
  · exact hf t
  · rfl

theorem Kept.setTask {w : World} (h : Kept w) (id : ℕ) {f : Task → Task}
    (hf : ∀ t, (f t).waiter = t.waiter) : Kept (w.setTask id f) :=
  h.retask (setTask_waiters w id hf)

/-! ## The queue -/

section Distinct

variable {α : Type} {f : α → ℕ} {a : ℕ}

variable {l : List α}

/-- Among distinct keys, erasing one is filtering it out. -/
theorem eraseP_eq_filter (h : (l.map f).Nodup) :
    l.eraseP (fun x => f x = a) = l.filter (fun x => !decide (f x = a)) := by
  induction l with
  | nil => rfl
  | cons x l ih =>
    obtain ⟨hnotin, hnodup⟩ := List.nodup_cons.mp h
    by_cases hx : f x = a
    · rw [List.eraseP_cons_of_pos (by simpa using hx), List.filter_cons_of_neg (by simpa using hx)]
      refine (List.filter_eq_self.mpr (fun y hy => ?_)).symm
      simp only [Bool.not_eq_true', decide_eq_false_iff_not]
      exact fun hya => hnotin (hx.trans hya.symm ▸ List.mem_map_of_mem hy)
    · rw [List.eraseP_cons_of_neg (by simpa using hx), List.filter_cons_of_pos (by simpa using hx),
        ih hnodup]

theorem filter_key_eq (h : (l.map f).Nodup) {x : α} (hx : x ∈ l) (hfx : f x = a) :
    l.filter (fun y => decide (f y = a)) = [x] := by
  induction l with
  | nil => exact absurd hx (by simp)
  | cons y l ih =>
    obtain ⟨hnotin, hnodup⟩ := List.nodup_cons.mp h
    rcases List.mem_cons.mp hx with rfl | hmem
    · rw [List.filter_cons_of_pos (by simpa using hfx)]
      refine congrArg _ (List.filter_eq_nil_iff.mpr (fun z hz => ?_))
      simp only [decide_eq_true_eq]
      exact fun hza => hnotin (hfx.trans hza.symm ▸ List.mem_map_of_mem hz)
    · have hy : f y ≠ a := fun hya => hnotin (hya.trans hfx.symm ▸ List.mem_map_of_mem hmem)
      rw [List.filter_cons_of_neg (by simpa using hy)]
      exact ih hnodup hmem

theorem eq_of_key_eq (h : (l.map f).Nodup) {x y : α} (hx : x ∈ l) (hy : y ∈ l) (hxy : f x = f y) :
    x = y := by
  have hone := filter_key_eq h hx hxy
  have hmem : y ∈ l.filter (fun z => decide (f z = f y)) := List.mem_filter.mpr ⟨hy, by simp⟩
  rw [hone] at hmem
  exact (List.mem_singleton.mp hmem).symm

end Distinct

variable {t : Task}

namespace Kept

variable {w : World}

theorem eq_waiter (h : Kept w) (ht : t ∈ w.tasks) {x : Waiter} (hx : x ∈ w.state.queue)
    (hid : x.id = t.waiter.id) : x = t.waiter := by
  obtain ⟨t', ht', rfl⟩ := h.lines.caller x hx
  rw [eq_of_key_eq (f := fun t : Task => t.waiter.id) h.lines.task_nodup ht' ht hid]

theorem remove_eq (h : Kept w) (ht : t ∈ w.tasks) :
    w.state.remove t.waiter = (w.state.dismiss (fun x => x.id = t.waiter.id)).2 := by
  unfold State.remove State.dismiss
  by_cases hany : ∃ x ∈ w.state.queue, x.id = t.waiter.id
  · obtain ⟨x, hx, hid⟩ := hany
    have heq := h.eq_waiter ht hx hid
    rw [if_pos (List.any_eq_true.mpr ⟨x, hx, by simpa using hid⟩),
      eraseP_eq_filter h.lines.queue_nodup, filter_key_eq h.lines.queue_nodup hx hid, ← heq]
    rfl
  · have hnone : ∀ x ∈ w.state.queue, x.id ≠ t.waiter.id :=
      fun x hx hid => hany ⟨x, hx, hid⟩
    have hgone : w.state.queue.filter (fun x => decide (x.id = t.waiter.id)) = [] :=
      List.filter_eq_nil_iff.mpr (fun x hx => by simpa using hnone x hx)
    have hkept : w.state.queue.filter (fun x => !decide (x.id = t.waiter.id)) = w.state.queue :=
      List.filter_eq_self.mpr (fun x hx => by simpa using hnone x hx)
    rw [if_neg (by simpa using hnone), hgone, hkept]
    rfl

/-- **Taking a waiter out of the queue keeps the invariant.** -/
theorem remove (h : Kept w) {t : Task} (ht : t ∈ w.tasks) :
    Kept { w with state := w.state.remove t.waiter } := by
  rw [h.remove_eq ht]
  exact h.dismiss _

theorem foldl_unqueue_queue (ws : List Waiter) (s : State) :
    (ws.foldl (fun s w => s.unqueue w.tenant) s).queue = s.queue := by
  induction ws generalizing s with
  | nil => rfl
  | cons w ws ih =>
    rw [List.foldl_cons, ih]
    unfold State.unqueue
    split
    · rw [State.idle_eq]
      rfl
    · rw [State.idle_eq]

/-- **A caller that leaves takes its waiter with it.** -/
theorem leave (h : Kept w) (ht : t ∈ w.tasks) :
    Kept { w with
      state := w.state.remove t.waiter
      tasks := w.tasks.filter (fun x => x.waiter.id ≠ t.waiter.id) } := by
  have hremoved := h.remove ht
  have hqueue : (w.state.remove t.waiter).queue
      = w.state.queue.filter (fun x => !decide (x.id = t.waiter.id)) := by
    rw [h.remove_eq ht]
    exact foldl_unqueue_queue _ _
  exact
    { sound := hremoved.sound
      books := hremoved.books
      bounded := hremoved.bounded
      pending := hremoved.pending
      lines :=
        { queue_nodup := hremoved.lines.queue_nodup
          task_nodup := h.lines.task_nodup.sublist (List.filter_sublist.map _)
          task_lt := fun x hx => h.lines.task_lt x (List.mem_of_mem_filter hx)
          caller := fun x hx => by
            have hne : x.id ≠ t.waiter.id := by
              have hx' : x ∈ w.state.queue.filter (fun x => !decide (x.id = t.waiter.id)) :=
                hqueue ▸ hx
              simpa using (List.mem_filter.mp hx').2
            obtain ⟨t', ht', heq⟩ := hremoved.lines.caller x hx
            exact ⟨t', List.mem_filter.mpr ⟨ht', by simpa [heq] using hne⟩, heq⟩ } }

/-- **A new waiter at the end of the queue**, with its caller. -/
theorem push (h : Kept w) {waiter : Waiter} (hid : waiter.id = w.held.nextId) :
    Kept { w with
      state := { w.state with queue := w.state.queue ++ [waiter] }.setCounts waiter.tenant
        { w.state.counts waiter.tenant with
          queued := (w.state.counts waiter.tenant).queued + 1 }
      held := { w.held with nextId := w.held.nextId + 1 }
      tasks := w.tasks ++ [({ waiter := waiter } : Task)] } := by
  have hcounts : ∀ u, (({ w.state with queue := w.state.queue ++ [waiter] } : State).setCounts
      waiter.tenant { w.state.counts waiter.tenant with
        queued := (w.state.counts waiter.tenant).queued + 1 }).counts u
      = if u = waiter.tenant then { w.state.counts waiter.tenant with
          queued := (w.state.counts waiter.tenant).queued + 1 } else w.state.counts u :=
    fun u => State.counts_setCounts
  have hfresh : ∀ x ∈ w.state.queue, x.id ≠ waiter.id := by
    intro x hx
    obtain ⟨t, ht, rfl⟩ := h.lines.caller x hx
    rw [hid]
    exact Nat.ne_of_lt (h.lines.task_lt t ht)
  refine h.recount rfl rfl (Nat.le_succ _) (fun t => ?_) (fun t n hn => ?_) (fun t => ?_)
    (fun t => ?_) (fun t => ?_) h.books.allLearning ?_
  · rw [hcounts]
    split
    · next heq => rw [heq]; exact ⟨rfl, rfl, rfl⟩
    · exact ⟨rfl, rfl, rfl⟩
  · rw [hcounts] at hn
    split at hn
    · next heq => rw [heq]; exact Or.inl hn
    · exact Or.inl hn
  · rw [hcounts]
    show _ = (w.state.queue ++ [waiter]).countP _
    rw [List.countP_append, List.countP_singleton, ← h.books.queued]
    split
    · next heq => rw [heq, if_pos (by simp)]
    · next hne => rw [if_neg (by simpa using Ne.symm hne)]; rfl
  · rw [hcounts]
    split
    · next heq => rw [heq]; exact h.books.pins _
    · exact h.books.pins _
  · rw [hcounts]
    split
    · next heq => rw [heq]; exact h.books.learning _
    · exact h.books.learning _
  · refine ⟨?_, ?_, fun t ht => ?_, fun x hx => ?_⟩
    · show ((w.state.queue ++ [waiter]).map Waiter.id).Nodup
      rw [List.map_append, List.map_singleton]
      refine List.nodup_append.mpr ⟨h.lines.queue_nodup, List.pairwise_singleton _ _, ?_⟩
      intro a ha b hb
      obtain ⟨x, hx, rfl⟩ := List.mem_map.mp ha
      rw [List.mem_singleton.mp hb]
      exact hfresh x hx
    · rw [List.map_append, List.map_singleton]
      refine List.nodup_append.mpr ⟨h.lines.task_nodup, List.pairwise_singleton _ _, ?_⟩
      intro a ha b hb
      obtain ⟨t, ht, rfl⟩ := List.mem_map.mp ha
      rw [List.mem_singleton.mp hb]
      rw [hid]
      exact Nat.ne_of_lt (h.lines.task_lt t ht)
    · rcases List.mem_append.mp ht with hmem | hmem
      · exact Nat.lt_succ_of_lt (h.lines.task_lt t hmem)
      · rw [List.mem_singleton.mp hmem]
        rw [hid]
        exact Nat.lt_succ_self _
    · have hx' : x ∈ w.state.queue ++ [waiter] := hx
      rcases List.mem_append.mp hx' with hmem | hmem
      · obtain ⟨t, ht, heq⟩ := h.lines.caller x hmem
        exact ⟨t, List.mem_append_left _ ht, heq⟩
      · exact ⟨{ waiter := waiter }, List.mem_append_right _ (List.mem_singleton_self _),
          (List.mem_singleton.mp hmem).symm⟩

/-! ## Pins -/

theorem opened (h : Kept w) (hopen : w.state.publicationPending = none) :
    w.held.publication = none := (h.publication_none hopen).1

/-- **Dropping idle counts keeps the invariant.** -/
theorem idle (h : Kept w) (t : TenantId) : Kept { w with state := w.state.idle t } := by
  have hzero := State.uncovered_of_idle (t := t) h.sound h.books.charged
  have hidle : w.state.idle t = { w.state with tenants := (w.state.idle t).tenants } :=
    State.idle_eq
  have hqueue : (w.state.idle t).queue = w.state.queue := by rw [hidle]
  refine h.recount (hidle.trans (by rw [hidle])) rfl le_rfl
    (fun u => ⟨State.idle_active, State.idle_uncovered hzero, State.idle_repairs⟩)
    (fun u n hn => Or.inl (State.idle_unknown hn)) (fun u => ?_)
    (fun u => State.idle_pins.trans (h.books.pins u))
    (fun u => State.idle_learning.trans (h.books.learning u)) ?_ ?_
  · rw [State.idle_queued, h.books.queued, hqueue]
  · rw [hidle]
    exact h.books.allLearning
  · exact ⟨hqueue ▸ h.lines.queue_nodup, h.lines.task_nodup, h.lines.task_lt,
      hqueue ▸ h.lines.caller⟩

/-- **The pins and learning leases of one tenant may move**, with those who
own them. -/
theorem setCounts (h : Kept w) {t : TenantId} {c : Counts} {l : ℕ} {o : Held}
    (hheld : o = { w.held with pins := o.pins, learners := o.learners })
    (hcharged : c.active = (w.state.counts t).active
      ∧ c.uncovered = (w.state.counts t).uncovered ∧ c.repairs = (w.state.counts t).repairs)
    (hunknown : ∀ n, c.unknown = some n →
      (w.state.counts t).unknown = some n ∨ (w.held.publication = none ∧ n < 2 ^ 64))
    (hqueued : c.queued = (w.state.counts t).queued)
    (hpins : c.pins = o.pins.count t + w.held.touches t)
    (hlearning : c.learning = o.learners.count t)
    (hother : ∀ u, u ≠ t → o.pins.count u = w.held.pins.count u
      ∧ o.learners.count u = w.held.learners.count u) (hall : l = o.learners.length) :
    Kept { w with
      state := { w.state with learning := l }.setCounts t c, held := o } := by
  have hcounts : ∀ u, (({ w.state with learning := l } : State).setCounts t c).counts u
      = if u = t then c else w.state.counts u := fun u => State.counts_setCounts
  refine h.recount rfl (by rw [hheld]) (le_of_eq (by rw [hheld])) (fun u => ?_) (fun u n hn => ?_)
    (fun u => ?_) (fun u => ?_) (fun u => ?_) hall ?_
  · rw [hcounts]
    split
    · next heq => rw [heq]; exact hcharged
    · exact ⟨rfl, rfl, rfl⟩
  · rw [hcounts] at hn
    split at hn
    · next heq => rw [heq]; exact hunknown n hn
    · exact Or.inl hn
  · rw [hcounts]
    split
    · next heq => rw [heq, hqueued]; exact h.books.queued _
    · exact h.books.queued _
  · rw [hcounts]
    split
    · next heq => rw [heq]; exact hpins
    · next hne => rw [(hother u hne).1]; exact h.books.pins u
  · rw [hcounts]
    split
    · next heq => rw [heq]; exact hlearning
    · next hne => rw [(hother u hne).2]; exact h.books.learning u
  · refine ⟨h.lines.queue_nodup, h.lines.task_nodup, fun x hx => ?_, h.lines.caller⟩
    rw [hheld]
    exact h.lines.task_lt x hx

/-- **A new pin**, of a count that fits. -/
theorem addPin (h : Kept w) {t : TenantId} {count : ℕ} {s' : State}
    (hopen : w.state.publicationPending = none) (hcount : count < 2 ^ 64)
    (hp : w.state.addPin t count = .ok s') :
    Kept { w with state := s', held := { w.held with pins := t :: w.held.pins } } := by
  unfold State.addPin at hp
  simp only [bind_eq_ok, orFail_eq_ok, pure_eq_ok, Receipts.checkedAdd_eq_some] at hp
  obtain ⟨_, ⟨-, rfl⟩, rfl⟩ := hp
  refine h.setCounts (l := w.state.learning) rfl ⟨rfl, rfl, rfl⟩ (fun n hn => ?_) rfl ?_
    (h.books.learning t) (fun u hu => ⟨?_, rfl⟩) h.books.allLearning
  · obtain rfl : count = n := by simpa using hn
    exact Or.inr ⟨h.opened hopen, hcount⟩
  · have hold := h.books.pins t
    rw [List.count_cons_self]
    dsimp only
    omega
  · exact List.count_cons_of_ne (Ne.symm hu)

/-- **The drop of a pin does not fence**, and keeps the invariant. -/
theorem dropPin (h : Kept w) {t : TenantId} (ht : t ∈ w.held.pins) :
    (w.state.dropPin t).receipts.fenced = w.state.receipts.fenced
      ∧ Kept { w with
          state := w.state.dropPin t
          held := { w.held with pins := w.held.pins.erase t } } := by
  have hcount := List.one_le_count_iff.mpr ht
  have hold := h.books.pins t
  have hpos : 1 ≤ (w.state.counts t).pins := by omega
  have hget : w.state.tenants[t]? = some (w.state.counts t) := State.get_of_counts_ne
    (fun heq => by rw [heq] at hpos; exact absurd hpos (by simp))
  have heq : w.state.dropPin t = (w.state.setCounts t
      { w.state.counts t with pins := (w.state.counts t).pins - 1 }).idle t := by
    unfold State.dropPin
    rw [hget]
    dsimp only
    rw [Receipts.checkedSub_of_le hpos]
  have hset := h.setCounts (t := t)
    (c := { w.state.counts t with pins := (w.state.counts t).pins - 1 })
    (l := w.state.learning) (o := { w.held with pins := w.held.pins.erase t }) rfl
    ⟨rfl, rfl, rfl⟩ (fun n hn => Or.inl hn) rfl
    (by
      show (w.state.counts t).pins - 1 = (w.held.pins.erase t).count t + _
      rw [List.count_erase_self]
      omega)
    (h.books.learning t) (fun u hu => ⟨List.count_erase_of_ne hu, rfl⟩)
    h.books.allLearning
  rw [heq]
  exact ⟨by rw [State.idle_eq]; rfl, hset.idle t⟩

/-! ## Learning leases -/

theorem learn (h : Kept w) {t : TenantId} {maximum : ℕ} {s' : State}
    (hl : w.state.learn t maximum = .ok ((), s')) :
    Kept { w with state := s', held := { w.held with learners := t :: w.held.learners } } := by
  unfold State.learn at hl
  simp only [bind_eq_ok, ensure_eq_ok, pure_eq_ok, Prod.mk.injEq, true_and] at hl
  obtain ⟨-, -, -, -, rfl⟩ := hl
  refine h.setCounts rfl ⟨rfl, rfl, rfl⟩ (fun n hn => Or.inl hn) rfl (h.books.pins t) ?_
    (fun u hu => ⟨rfl, List.count_cons_of_ne (Ne.symm hu)⟩) ?_
  · have hold := h.books.learning t
    rw [List.count_cons_self]
    dsimp only
    omega
  · rw [List.length_cons, h.books.allLearning]

/-- The drop of a learning lease: neither subtraction meets a zero. -/
theorem dropLearner (h : Kept w) {t : TenantId} (ht : t ∈ w.held.learners) :
    Kept { w with
      state := w.state.dropLearner t
      held := { w.held with learners := w.held.learners.erase t } } := by
  have hcount := List.one_le_count_iff.mpr ht
  have hold := h.books.learning t
  have hpos : 1 ≤ (w.state.counts t).learning := by omega
  have hget : w.state.tenants[t]? = some (w.state.counts t) := State.get_of_counts_ne
    (fun heq => by rw [heq] at hpos; exact absurd hpos (by simp))
  have heq : w.state.dropLearner t
      = (({ w.state with learning := w.state.learning - 1 } : State).setCounts t
        { w.state.counts t with learning := (w.state.counts t).learning - 1 }).idle t := by
    unfold State.dropLearner
    rw [hget]
  have hset := h.setCounts (t := t)
    (c := { w.state.counts t with learning := (w.state.counts t).learning - 1 })
    (l := w.state.learning - 1)
    (o := { w.held with learners := w.held.learners.erase t }) rfl
    ⟨rfl, rfl, rfl⟩ (fun n hn => Or.inl hn) rfl (h.books.pins t)
    (by
      show (w.state.counts t).learning - 1 = (w.held.learners.erase t).count t
      rw [List.count_erase_self, hold])
    (fun u hu => ⟨rfl, List.count_erase_of_ne hu⟩)
    (by rw [List.length_erase_of_mem ht, h.books.allLearning])
  rw [heq]
  exact hset.idle t

/-! ## Uploads -/

theorem upload (h : Kept w) {limits : IngressLimits} {bytes : ℕ} {s' : State}
    (hu : w.state.upload limits bytes = .ok ((), s')) :
    Kept { w with state := s', held := { w.held with uploads := bytes :: w.held.uploads } } := by
  unfold State.upload at hu
  simp only [bind_eq_ok, ensure_eq_ok, orFail_eq_ok, pure_eq_ok, Receipts.checkedAdd_eq_some,
    Prod.mk.injEq, true_and] at hu
  obtain ⟨-, -, _, ⟨-, rfl⟩, -, -, rfl⟩ := hu
  exact
    { sound := h.sound
      books := ⟨h.books.charged, h.books.queued, h.books.pins, h.books.learning,
        h.books.allLearning, by rw [List.length_cons, h.books.ingress],
        by
          show w.state.ingressBytes + bytes = (bytes :: w.held.uploads).sum
          rw [List.sum_cons, ← h.books.ingressBytes, Nat.add_comm]⟩
      bounded := ⟨h.bounded.active, h.bounded.reserved, h.bounded.unknown, h.bounded.cached⟩
      pending := h.pending.frame rfl rfl rfl rfl (fun _ _ => id) rfl le_rfl rfl
      lines := ⟨h.lines.queue_nodup, h.lines.task_nodup, h.lines.task_lt, h.lines.caller⟩ }

/-- The drop of an upload: neither subtraction meets a zero. -/
theorem dropUpload (h : Kept w) {bytes : ℕ} (hb : bytes ∈ w.held.uploads) :
    Kept { w with
      state := w.state.dropUpload bytes
      held := { w.held with uploads := w.held.uploads.erase bytes } } := by
  have hperm := List.perm_cons_erase hb
  have hsum := hperm.sum_eq
  rw [List.sum_cons] at hsum
  refine
    { sound := h.sound
      books := ⟨h.books.charged, h.books.queued, h.books.pins, h.books.learning,
        h.books.allLearning, ?_, ?_⟩
      bounded := ⟨h.bounded.active, h.bounded.reserved, h.bounded.unknown, h.bounded.cached⟩
      pending := h.pending.frame rfl rfl rfl rfl (fun _ _ => id) rfl le_rfl rfl
      lines := ⟨h.lines.queue_nodup, h.lines.task_nodup, h.lines.task_lt, h.lines.caller⟩ }
  · rw [List.length_erase_of_mem hb, ← h.books.ingress]
    rfl
  · show w.state.ingressBytes - bytes = (w.held.uploads.erase bytes).sum
    rw [h.books.ingressBytes, hsum, Nat.add_sub_cancel_left]

end Kept

end BitRouter.Admission
