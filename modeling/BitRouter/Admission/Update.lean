import BitRouter.Admission.Books

/-!
# What every update does besides its change

An update refreshes the volume and expires the queue before its change, and
drains a closed queue or chooses a waiter after it. Neither end touches what
is owned: only queue entries go, each with one of its tenant's queued count.
So an update keeps the invariant where its change does (`Kept.attempt`,
`Kept.apply`).
-/

namespace BitRouter.Admission

open Tenancy
open Receipts (ErrorCode Accounting Totals)

/-- Two states that differ in the queued counts of tenants only, and in what
idle tenants have cached. -/
structure QueueOnly (s s' : State) : Prop where
  state : s' = { s with tenants := s'.tenants }
  active : ∀ t, (s'.counts t).active = (s.counts t).active
  uncovered : ∀ t, (s'.counts t).uncovered = (s.counts t).uncovered
  repairs : ∀ t, (s'.counts t).repairs = (s.counts t).repairs
  pins : ∀ t, (s'.counts t).pins = (s.counts t).pins
  learning : ∀ t, (s'.counts t).learning = (s.counts t).learning
  unknown : ∀ t n, (s'.counts t).unknown = some n → (s.counts t).unknown = some n

namespace QueueOnly

variable {s s' s'' : State}

theorem refl (s : State) : QueueOnly s s where
  state := rfl
  active _ := rfl
  uncovered _ := rfl
  repairs _ := rfl
  pins _ := rfl
  learning _ := rfl
  unknown _ _ h := h

theorem trans (h : QueueOnly s s') (h' : QueueOnly s' s'') : QueueOnly s s'' where
  state := by rw [h'.state, h.state]
  active t := (h'.active t).trans (h.active t)
  uncovered t := (h'.uncovered t).trans (h.uncovered t)
  repairs t := (h'.repairs t).trans (h.repairs t)
  pins t := (h'.pins t).trans (h.pins t)
  learning t := (h'.learning t).trans (h.learning t)
  unknown t n h'' := h.unknown t n (h'.unknown t n h'')

theorem charged (h : QueueOnly s s') {slots : ℕ} {totals : Totals} {c : Custody}
    (hc : Charged s.counts slots totals c) : Charged s'.counts slots totals c :=
  hc.congr h.active h.uncovered h.repairs

end QueueOnly

namespace State

variable {s : State} {slots : ℕ} {totals : Totals} {c : Custody}

/-- **One queue entry less of a tenant**, which has one. -/
theorem unqueue_spec (hsound : c.Sound) (h : Charged s.counts slots totals c) {t : TenantId}
    (hpos : 0 < (s.counts t).queued) :
    QueueOnly s (s.unqueue t)
      ∧ ∀ u, ((s.unqueue t).counts u).queued + (if u = t then 1 else 0) = (s.counts u).queued := by
  have hget : s.tenants[t]? = some (s.counts t) := get_of_counts_ne (fun heq => by
    rw [heq] at hpos
    exact absurd hpos (by simp))
  obtain ⟨n, hn⟩ := Nat.exists_eq_add_of_lt hpos
  have hdec : decrement (s.counts t).queued = (s.counts t).queued - 1 := by
    rw [hn, Nat.zero_add]
    rfl
  set s₁ := s.setCounts t { s.counts t with queued := decrement (s.counts t).queued } with hs₁
  have hunqueue : s.unqueue t = s₁.idle t := by
    unfold unqueue
    rw [hget]
  have hcounts : ∀ u, s₁.counts u = if u = t
      then { s.counts t with queued := (s.counts t).queued - 1 } else s.counts u := by
    intro u
    rw [hs₁, counts_setCounts, hdec]
  have hfirst : QueueOnly s s₁ :=
    { state := rfl
      active := fun u => by rw [hcounts]; split <;> simp [*]
      uncovered := fun u => by rw [hcounts]; split <;> simp [*]
      repairs := fun u => by rw [hcounts]; split <;> simp [*]
      pins := fun u => by rw [hcounts]; split <;> simp [*]
      learning := fun u => by rw [hcounts]; split <;> simp [*]
      unknown := fun u n hu => by
        rw [hcounts] at hu
        split at hu
        · next heq => rw [heq]; exact hu
        · exact hu }
  have hsecond : QueueOnly s₁ (s₁.idle t) :=
    { state := idle_eq
      active := fun _ => idle_active
      uncovered := fun _ => idle_uncovered (uncovered_of_idle hsound (hfirst.charged h))
      repairs := fun _ => idle_repairs
      pins := fun _ => idle_pins
      learning := fun _ => idle_learning
      unknown := fun _ _ => idle_unknown }
  rw [hunqueue]
  refine ⟨hfirst.trans hsecond, fun u => ?_⟩
  rw [idle_queued, hcounts]
  split
  · next heq =>
    subst heq
    dsimp only
    omega
  · rfl

/-- **The queue entries of a list less.** -/
theorem unqueueAll_spec (hsound : c.Sound) {ws : List Waiter}
    (h : Charged s.counts slots totals c)
    (hpos : ∀ t, ws.countP (fun w => w.tenant = t) ≤ (s.counts t).queued) :
    QueueOnly s (ws.foldl (fun s w => s.unqueue w.tenant) s)
      ∧ ∀ t, ((ws.foldl (fun s w => s.unqueue w.tenant) s).counts t).queued
          + ws.countP (fun w => w.tenant = t) = (s.counts t).queued := by
  induction ws generalizing s with
  | nil => exact ⟨QueueOnly.refl s, fun _ => rfl⟩
  | cons w ws ih =>
    have hw : 0 < (s.counts w.tenant).queued := by
      have := hpos w.tenant
      rw [List.countP_cons_of_pos (by simp)] at this
      omega
    obtain ⟨hone, hcount⟩ := unqueue_spec hsound h hw
    have hrest : ∀ t, ws.countP (fun w => w.tenant = t)
        ≤ ((s.unqueue w.tenant).counts t).queued := by
      intro t
      have hp := hpos t
      have hq := hcount t
      rw [List.countP_cons] at hp
      by_cases ht : t = w.tenant
      · rw [if_pos ht] at hq
        rw [if_pos (by simp [ht])] at hp
        omega
      · rw [if_neg ht] at hq
        omega
    obtain ⟨hall, hcount'⟩ := ih (hone.charged h) hrest
    refine ⟨hone.trans hall, fun t => ?_⟩
    have h1 := hcount t
    have h2 := hcount' t
    rw [List.countP_cons, List.foldl_cons]
    by_cases ht : t = w.tenant
    · rw [if_pos ht] at h1
      rw [if_pos (by simp [ht])]
      omega
    · rw [if_neg ht] at h1
      rw [if_neg (by simpa using Ne.symm ht)]
      omega

end State

/-! ## Frames of the invariant -/

section Frames

variable {s s' : State} {o o' : Held}

/-- A prepared publication sees the entries its steps have claimed, what is
cached, and the number of obligations and of bytes. -/
theorem Prepared.move {p : Publication} (h : Prepared s o p)
    (hpending : s'.publicationPending = s.publicationPending)
    (hgeneration : s'.unknownGeneration = s.unknownGeneration)
    (hclaims : (custody s' o').Claims p.steps)
    (hentries : ∀ (k : Key) (live : Live), s'.executions[k]? = some live → live.pending = true →
      ∃ live₀ : Live, s.executions[k]? = some live₀ ∧ live₀.pending = true)
    (hcached : ∀ t n, (s'.counts t).unknown = some n → (s.counts t).unknown = some n)
    (hunknown : s'.receipts.totals.unknown = s.receipts.totals.unknown)
    (hbytes : s'.receipts.totals.bytes ≤ s.receipts.totals.bytes) : Prepared s' o' p where
  token := hpending.trans h.token
  unfinished := h.unfinished
  generation := hgeneration.trans h.generation
  counter := hgeneration ▸ h.counter
  keys := h.keys
  claims := hclaims
  pending k live hk hp := by
    obtain ⟨live₀, hk₀, hp₀⟩ := hentries k live hk hp
    exact h.pending k live₀ hk₀ hp₀
  tenants := h.tenants
  touched step hstep hor := by
    refine h.touched step hstep (hor.imp_right (fun hsome => ?_))
    obtain ⟨n, hn⟩ := Option.isSome_iff_exists.mp hsome
    rw [hcached _ n hn]
    rfl
  durable := h.durable
  uncovered := h.uncovered
  cached t ht n hn := h.cached t ht n (hcached _ n hn)
  unknown := hunknown ▸ h.unknown
  bytes := lt_of_le_of_lt (Nat.add_le_add_right hbytes _) h.bytes

section

variable (h : Pending s o) (hpending : s'.publicationPending = s.publicationPending)
  (hgeneration : s'.unknownGeneration = s.unknownGeneration)

include h hpending hgeneration

theorem Pending.move
    (hclaims : ∀ steps, (custody s o).Claims steps → (custody s' o').Claims steps)
    (hentries : ∀ (k : Key) (live : Live), s'.executions[k]? = some live → live.pending = true →
      ∃ live₀ : Live, s.executions[k]? = some live₀ ∧ live₀.pending = true)
    (hcached : ∀ t n, (s'.counts t).unknown = some n → (s.counts t).unknown = some n)
    (hunknown : s'.receipts.totals.unknown = s.receipts.totals.unknown)
    (hbytes : s'.receipts.totals.bytes ≤ s.receipts.totals.bytes)
    (hpublication : o'.publication = o.publication) : Pending s' o' := by
  unfold Pending at h ⊢
  rw [hpublication]
  cases hp : o.publication with
  | some p =>
    rw [hp] at h
    exact h.move hpending hgeneration (hclaims _ h.claims) hentries hcached hunknown hbytes
  | none =>
    rw [hp] at h
    refine ⟨hpending.trans h.1, fun k live hk => Bool.eq_false_iff.mpr (fun hlive => ?_)⟩
    obtain ⟨live₀, hk₀, hp₀⟩ := hentries k live hk hlive
    exact absurd hp₀ (by rw [h.2 k live₀ hk₀]; simp)

/-- Nothing a publication sees has changed. -/
theorem Pending.frame
    (hentries : s'.executions = s.executions) (hcompletions : s'.completions = s.completions)
    (hcached : ∀ t n, (s'.counts t).unknown = some n → (s.counts t).unknown = some n)
    (hunknown : s'.receipts.totals.unknown = s.receipts.totals.unknown)
    (hbytes : s'.receipts.totals.bytes ≤ s.receipts.totals.bytes)
    (hpublication : o'.publication = o.publication) : Pending s' o' := by
  refine h.move hpending hgeneration (fun steps hclaims step hstep hsome => ?_)
    (fun k live hk hp => ⟨live, hentries ▸ hk, hp⟩) hcached hunknown hbytes hpublication
  obtain ⟨live, hlive⟩ := hclaims step hstep hsome
  refine ⟨live, ?_, hlive.owner, hlive.pending, hlive.covered, ?_, hlive.terminal⟩
  · show s'.executions[step.key]? = some live
    rw [hentries]
    exact hlive.entry
  · show (s'.completions live.owner).done = false
    rw [hcompletions]
    exact hlive.undone

end

end Frames

/-! ## Taking waiters out of the queue -/

/-- **Dismissing waiters keeps the invariant.** -/
theorem Kept.dismiss {w : World} (h : Kept w) (p : Waiter → Bool) :
    Kept { w with state := (w.state.dismiss p).2 } := by
  set s := w.state with hs
  set gone := s.queue.filter p
  set s₀ : State := { s with queue := s.queue.filter (fun w => !p w) } with hs₀
  have hsplit : ∀ t, gone.countP (fun w => w.tenant = t)
      + (s.queue.filter (fun w => !p w)).countP (fun w => w.tenant = t)
      = s.queue.countP (fun w => w.tenant = t) := by
    intro t
    rw [← List.countP_append]
    exact (List.filter_append_perm p s.queue).countP_eq _
  have hle : ∀ t, gone.countP (fun w => w.tenant = t) ≤ (s₀.counts t).queued := by
    intro t
    show _ ≤ (s.counts t).queued
    rw [h.books.queued t, ← hsplit t]
    exact Nat.le_add_right _ _
  have hcharged : Charged s₀.counts s.active s.receipts.totals (custody s w.held) :=
    h.books.charged
  obtain ⟨hless, hcount⟩ := State.unqueueAll_spec h.sound hcharged hle
  set s' := gone.foldl (fun s w => s.unqueue w.tenant) s₀ with hs'
  have hdismiss : (s.dismiss p).2 = s' := rfl
  have hstate := hless.state
  rw [hdismiss]
  have hqueued : ∀ t, (s'.counts t).queued = s'.queue.countP (fun w => w.tenant = t) := by
    intro t
    have h1 := hcount t
    have h2 := hsplit t
    have h3 : (s₀.counts t).queued = s.queue.countP (fun w => w.tenant = t) := h.books.queued t
    rw [hstate]
    show ({ s₀ with tenants := s'.tenants }.counts t).queued
      = (s.queue.filter (fun w => !p w)).countP (fun w => w.tenant = t)
    rw [← hstate]
    omega
  have hcustody : custody s' w.held = custody s w.held := by rw [hstate]; rfl
  have hbook : Books s' w.held :=
    { charged := by
        rw [hcustody]
        have : s'.active = s.active ∧ s'.receipts.totals = s.receipts.totals := by
          rw [hstate]; exact ⟨rfl, rfl⟩
        rw [this.1, this.2]
        exact hless.charged hcharged
      queued := hqueued
      pins := fun t => (hless.pins t).trans (h.books.pins t)
      learning := fun t => (hless.learning t).trans (h.books.learning t)
      allLearning := by rw [hstate]; exact h.books.allLearning
      ingress := by rw [hstate]; exact h.books.ingress
      ingressBytes := by rw [hstate]; exact h.books.ingressBytes }
  have hqueue : s'.queue = s.queue.filter (fun w => !p w) := by rw [hstate]
  refine
    { sound := hcustody ▸ h.sound
      books := hbook
      bounded := ?_
      pending := h.pending.frame ?_ ?_ ?_ ?_ hless.unknown ?_ ?_ rfl
      lines := ?_ }
  · exact
      { active := by rw [hstate]; exact h.bounded.active
        reserved := by rw [hstate]; exact h.bounded.reserved
        unknown := by rw [hstate]; exact h.bounded.unknown
        cached := fun t n hn => h.bounded.cached t n (hless.unknown t n hn) }
  · rw [hstate]
  · rw [hstate]
  · rw [hstate]
  · rw [hstate]
  · rw [hstate]
  · rw [hstate]
  · exact
      { queue_nodup := by
          show (s'.queue.map Waiter.id).Nodup
          rw [hqueue]
          exact h.lines.queue_nodup.sublist (List.filter_sublist.map _)
        task_nodup := h.lines.task_nodup
        task_lt := h.lines.task_lt
        caller := fun x hx => by
          rw [show ({ w with state := s' } : World).state.queue = s'.queue from rfl, hqueue] at hx
          exact h.lines.caller x (List.mem_of_mem_filter hx) }

/-! ## The two ends of an update -/

/-- **The accounting may move, its reservations and obligations aside.** -/
theorem Kept.receipts {w : World} (h : Kept w) {a : Accounting}
    (ht : a.totals = { w.state.receipts.totals with
      bytes := a.totals.bytes, historyBytes := a.totals.historyBytes
      historyRows := a.totals.historyRows })
    (hbytes : a.totals.bytes ≤ w.state.receipts.totals.bytes) :
    Kept { w with state := { w.state with receipts := a } } := by
  refine
    { sound := h.sound
      books := ⟨?_, h.books.queued, h.books.pins, h.books.learning, h.books.allLearning,
        h.books.ingress, h.books.ingressBytes⟩
      bounded := ⟨h.bounded.active, ?_, ?_, h.bounded.cached⟩
      pending := h.pending.frame rfl rfl rfl rfl (fun _ _ => id) (by rw [ht]) hbytes rfl
      lines := ⟨h.lines.queue_nodup, h.lines.task_nodup, h.lines.task_lt, h.lines.caller⟩ }
  · have hc := h.books.charged
    show Charged w.state.counts w.state.active a.totals (custody w.state w.held)
    rw [ht]
    exact ⟨hc.active, hc.uncovered, hc.repairs, hc.allActive, hc.allUncovered, hc.allLive,
      hc.allRepairs, hc.reserved, hc.repairReserved, hc.repairRows, hc.charged⟩
  · show a.totals.reserved < 2 ^ 64
    rw [ht]
    exact h.bounded.reserved
  · show a.totals.unknown < 2 ^ 64
    rw [ht]
    exact h.bounded.unknown

theorem refreshFree_totals (a : Accounting) (probe : Option ℕ) :
    (a.refreshFree probe).totals = a.totals := by
  unfold Accounting.refreshFree
  split <;> rfl

theorem Kept.prepared {w : World} (h : Kept w) (r : Reading) :
    Kept { w with state := (w.state.prepared r).2 } := by
  have hrefreshed := h.receipts (a := w.state.receipts.refreshFree r.probe)
    (by rw [refreshFree_totals]) (le_of_eq (by rw [refreshFree_totals]))
  exact hrefreshed.dismiss _

theorem Kept.concluded {w : World} (h : Kept w) :
    Kept { w with state := (w.state.concluded w.config.profile).2 } := by
  unfold State.concluded
  split
  · exact h.dismiss _
  · exact h

/-- What is on its way to the queued callers is no part of the invariant. -/
theorem Kept.after {w : World} {s : State} (h : Kept { w with state := s }) (woken : List Waiter) :
    Kept (w.after woken s) := by
  have hids : (w.after woken s).tasks.map (fun t => t.waiter)
      = w.tasks.map (fun t => t.waiter) := by
    show (w.tasks.map _).map _ = _
    rw [List.map_map]
    refine List.map_congr_left (fun t _ => ?_)
    rw [Function.comp_apply]
    split <;> rfl
  refine
    { sound := h.sound
      books := h.books
      bounded := h.bounded
      pending := h.pending
      lines := ⟨h.lines.queue_nodup, ?_, fun t ht => ?_, fun x hx => ?_⟩ }
  · have := congrArg (List.map Waiter.id) hids
    rw [List.map_map, List.map_map] at this
    exact this ▸ h.lines.task_nodup
  · have hmem : t.waiter ∈ w.tasks.map (fun t => t.waiter) := hids ▸ List.mem_map_of_mem ht
    obtain ⟨t', ht', heq⟩ := List.mem_map.mp hmem
    exact heq ▸ h.lines.task_lt t' ht'
  · obtain ⟨t, ht, heq⟩ := h.lines.caller x hx
    have hmem : t.waiter ∈ (w.after woken s).tasks.map (fun t => t.waiter) :=
      hids ▸ List.mem_map_of_mem ht
    obtain ⟨t', ht', heq'⟩ := List.mem_map.mp hmem
    exact ⟨t', ht', heq'.trans heq⟩

theorem concluded_fenced (s : State) (profile : Profile) :
    (s.concluded profile).2.receipts.fenced = s.receipts.fenced := by
  have hall : ∀ (ws : List Waiter) (s : State),
      (ws.foldl (fun s w => s.unqueue w.tenant) s).receipts = s.receipts := by
    intro ws
    induction ws with
    | nil => exact fun _ => rfl
    | cons w ws ih =>
      intro s
      rw [List.foldl_cons, ih]
      unfold State.unqueue
      split
      · rw [State.idle_eq]
        rfl
      · rw [State.idle_eq]
  unfold State.concluded
  split
  · exact congrArg Accounting.fenced (hall _ _)
  · rfl

/-- **A critical section that may be refused keeps the invariant** where its
success does. -/
theorem Kept.attempt {α : Type} {w : World} (h : Kept w) {r : Reading}
    {change : State → Except ErrorCode (α × State)} {gain : α → Held → Held}
    (hchange : ∀ s a s', Kept { w with state := s } → change s = .ok (a, s') →
      Kept { w with state := s', held := gain a w.held }) :
    Kept (w.attempt r change gain) := by
  have hprepared := h.prepared r
  unfold World.attempt State.update State.attempt
  dsimp only
  cases hresult : change (w.state.prepared r).2 with
  | error e => exact hprepared.concluded.after _
  | ok result =>
    obtain ⟨a, s'⟩ := result
    have hdone := hchange _ a s' hprepared hresult
    exact Kept.after (w := { w with held := gain a w.held }) hdone.concluded _

/-- **A critical section that cannot be refused keeps the invariant**, with
what its caller gives up by it, where its change does – or it fences. -/
theorem Kept.apply {w w₁ : World} (h : Kept w) {r : Reading} {change : State → State}
    (hunfenced : (w₁.apply r change).state.receipts.fenced = false) (hstate : w₁.state = w.state)
    (hchange : ∀ s, Kept { w with state := s } → (change s).receipts.fenced = false →
      Kept { w₁ with state := change s }) :
    Kept (w₁.apply r change) := by
  have hprepared := h.prepared r
  rw [← hstate] at hprepared
  have hfence : (change (w₁.state.prepared r).2).receipts.fenced = false := by
    rw [← concluded_fenced _ w₁.config.profile]
    exact hunfenced
  have hdone := hchange _ hprepared hfence
  exact Kept.after hdone.concluded _

end BitRouter.Admission
