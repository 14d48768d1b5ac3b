import BitRouter.Admission.Update

/-!
# Leases

A grant, the binding of a lease, and its drop. The drop of a lease never
fails (`Kept.releaseLease`): what it subtracts is there, because the
counters are the loads of the custody and the lease is part of them. Where a
publication holds the entry, the slot and the reservation stay with the
entry.
-/

namespace BitRouter.Admission

open Tenancy
open Receipts (Accounting Totals reservation)

namespace State

variable {s s' : State} {t : TenantId}

/-- **What a grant does.** -/
theorem reserve_eq_ok (h : s.reserve t = .ok s') :
    ∃ n, s.tenantUnknown t = some n ∧ s.receipts.ready n (s.counts t).uncovered = true
      ∧ s.receipts.totals.reserved + reservation < 2 ^ 64
      ∧ s' = { s with
          active := s.active + 1
          receipts := { s.receipts with totals := { s.receipts.totals with
            reserved := s.receipts.totals.reserved + reservation
            live := s.receipts.totals.live + 1
            uncovered := s.receipts.totals.uncovered + 1 } } }.setCounts t
          { s.counts t with
            unknown := some n
            uncovered := (s.counts t).uncovered + 1
            active := (s.counts t).active + 1 } := by
  unfold reserve at h
  simp only [bind_eq_ok, orFail_eq_ok, pure_eq_ok, Receipts.checkedAdd_eq_some,
    Accounting.reserve_eq_ok] at h
  obtain ⟨n, hn, _, ⟨-, rfl⟩, _, ⟨hready, hreserved, -, -, rfl⟩, rfl⟩ := h
  exact ⟨n, hn, hready, hreserved, rfl⟩

/-- A tenant whose count is known from the cache or from a zero total. -/
theorem tenantUnknown_lt {profile : Profile} (h : Bounded s profile) {n : ℕ}
    (hn : s.tenantUnknown t = some n) : n < 2 ^ 64 := by
  unfold tenantUnknown at hn
  split at hn
  · next m hm =>
    obtain rfl := Option.some.inj hn
    obtain ⟨c, hget, hc⟩ := Option.bind_eq_some_iff.mp hm
    exact h.cached t m (counts_of_get hget ▸ hc)
  · split at hn
    · obtain rfl := Option.some.inj hn
      exact Nat.two_pow_pos 64
    · exact absurd hn (by simp)

end State

/-! ## Grants -/

theorem Charged.grant {counts counts' : TenantId → Counts} {slots : ℕ} {totals : Totals}
    {c : Custody} (hs : c.Sound) (h : Charged counts slots totals c) {t : TenantId}
    (hself : (counts' t).active = (counts t).active + 1
      ∧ (counts' t).uncovered = (counts t).uncovered + 1
      ∧ (counts' t).repairs = (counts t).repairs) (hother : ∀ u, u ≠ t → counts' u = counts u) :
    Charged counts' (slots + 1) { totals with
      reserved := totals.reserved + reservation
      live := totals.live + 1, uncovered := totals.uncovered + 1 } (c.grant t) where
  active u := by
    rw [hs.load_grant, ← h.active]
    by_cases hu : u = t
    · rw [hu, hself.1]
      simp [Custody.newShare, Completion.share]
    · rw [hother u hu]
      simp [Ne.symm hu]
  uncovered u := by
    rw [hs.load_grant, ← h.uncovered]
    by_cases hu : u = t
    · rw [hu, hself.2.1]
      simp [Custody.newShare, Completion.share]
    · rw [hother u hu]
      simp [Ne.symm hu]
  repairs u := by
    rw [hs.load_grant, ← h.repairs]
    by_cases hu : u = t
    · rw [hu, hself.2.2]
      simp [Custody.newShare, Completion.share]
    · rw [hother u hu]
      simp [Ne.symm hu]
  allActive := by rw [hs.load_grant, ← h.allActive]; rfl
  allUncovered := by rw [hs.load_grant, ← h.allUncovered]; rfl
  allLive := by rw [hs.load_grant, ← h.allLive]; rfl
  allRepairs := by rw [hs.load_grant, ← h.allRepairs]; rfl
  reserved := by
    have hle : totals.repairLive ≤ totals.live := by
      rw [h.allRepairs, h.allLive]
      exact hs.load_repair_le_live
    show totals.reserved + reservation
      = (totals.live + 1 - totals.repairLive) * reservation + totals.repairReserved
    rw [h.reserved, Nat.sub_add_comm hle, Nat.add_mul, Nat.one_mul]
    omega
  repairReserved := h.repairReserved
  repairRows := h.repairRows
  charged := h.charged

/-- **A grant keeps the invariant**, with a new lease for its caller. -/
theorem Kept.reserve {w : World} (h : Kept w) {t : TenantId} {s' : State}
    (hroom : w.state.active < w.config.profile.instanceActive)
    (hopen : w.state.publicationPending = none) (hr : w.state.reserve t = .ok s') :
    Kept { w with state := s', held := w.held.grant t } := by
  obtain ⟨n, hn, -, hreserved, rfl⟩ := State.reserve_eq_ok hr
  have hpublication : w.held.publication = none := by
    have hp := h.pending
    unfold Pending at hp
    cases hpub : w.held.publication with
    | none => rfl
    | some p =>
      rw [hpub] at hp
      exact absurd (hp.token.symm.trans hopen) (by simp)
  have hother : ∀ (s : State) (c : Counts) (u : TenantId), u ≠ t →
      (s.setCounts t c).counts u = s.counts u := fun s c u hu => State.counts_setCounts_ne hu
  refine
    { sound := h.sound.grant t
      books :=
        { charged := h.books.charged.grant h.sound
            (by rw [State.counts_setCounts_self]; exact ⟨rfl, rfl, rfl⟩)
            (fun u hu => hother _ _ u hu)
          queued := fun u => ?_
          pins := fun u => ?_
          learning := fun u => ?_
          allLearning := h.books.allLearning
          ingress := h.books.ingress
          ingressBytes := h.books.ingressBytes }
      bounded := ⟨hroom, hreserved, h.bounded.unknown, fun u m hm => ?_⟩
      pending := ?_
      lines := ⟨h.lines.queue_nodup, h.lines.task_nodup,
        fun x hx => Nat.lt_succ_of_lt (h.lines.task_lt x hx), h.lines.caller⟩ }
  · refine Eq.trans ?_ (h.books.queued u)
    rw [State.counts_setCounts]
    split
    · next heq => rw [heq]
    · rfl
  · refine Eq.trans ?_ (h.books.pins u)
    rw [State.counts_setCounts]
    split
    · next heq => rw [heq]
    · rfl
  · refine Eq.trans ?_ (h.books.learning u)
    rw [State.counts_setCounts]
    split
    · next heq => rw [heq]
    · rfl
  · rw [State.counts_setCounts] at hm
    split at hm
    · obtain rfl : n = m := by simpa using hm
      exact State.tenantUnknown_lt h.bounded hn
    · exact h.bounded.cached u m hm
  · have hp := h.pending
    unfold Pending at hp ⊢
    rw [show (w.held.grant t).publication = w.held.publication from rfl]
    rw [hpublication] at hp ⊢
    exact hp

/-! ## Binding -/

namespace State

variable {s s' : State} {l : Lease} {execution : ExecutionId}

/-- **What a binding does**: nothing the second time, and an entry the
first. -/
theorem bindExecution_eq_ok (h : s.bindExecution l.tenant l.completion execution = .ok s') :
    s.publicationPending = none ∧ (s' = s ∨
      ((s.completions l.completion).execution = none
        ∧ s.executions[(⟨l.tenant, execution⟩ : Key)]? = none
        ∧ s' = { s with
            completions := Function.update s.completions l.completion
              { s.completions l.completion with execution := some execution }
            executions := s.executions.insert ⟨l.tenant, execution⟩
              { owner := l.completion } })) := by
  unfold bindExecution at h
  simp only [bind_eq_ok, ensure_eq_ok] at h
  obtain ⟨-, ⟨hpending, -⟩, hrest⟩ := h
  refine ⟨hpending, ?_⟩
  cases hx : (s.completions l.completion).execution with
  | some old =>
    rw [hx] at hrest
    simp only [bind_eq_ok, ensure_eq_ok, pure_eq_ok] at hrest
    obtain ⟨-, -, heq⟩ := hrest
    exact Or.inl heq.symm
  | none =>
    rw [hx] at hrest
    simp only [bind_eq_ok, ensure_eq_ok, pure_eq_ok] at hrest
    obtain ⟨-, hfresh, rfl⟩ := hrest
    refine Or.inr ⟨rfl, ?_, rfl⟩
    rwa [Std.TreeMap.mem_iff_isSome_getElem?, Bool.not_eq_true, Option.isSome_eq_false_iff,
      Option.isNone_iff_eq_none] at hfresh

end State

variable {counts : TenantId → Counts} {slots : ℕ} {totals : Totals}

theorem Charged.of_load {c c' : Custody} (h : Charged counts slots totals c)
    (hload : ∀ p κ, c'.load p κ = c.load p κ) (hrepairs : c'.repairs = c.repairs) :
    Charged counts slots totals c' where
  active t := (h.active t).trans (hload _ _).symm
  uncovered t := (h.uncovered t).trans (hload _ _).symm
  repairs t := (h.repairs t).trans (hload _ _).symm
  allActive := h.allActive.trans (hload _ _).symm
  allUncovered := h.allUncovered.trans (hload _ _).symm
  allLive := h.allLive.trans (hload _ _).symm
  allRepairs := h.allRepairs.trans (hload _ _).symm
  reserved := h.reserved
  repairReserved := hrepairs ▸ h.repairReserved
  repairRows := hrepairs ▸ h.repairRows
  charged := hrepairs ▸ h.charged

theorem Kept.publication_none {w : World} (h : Kept w) (hopen : w.state.publicationPending = none) :
    w.held.publication = none ∧ ∀ (k : Key) (live : Live), w.state.executions[k]? = some live →
      live.pending = false := by
  have hp := h.pending
  unfold Pending at hp
  cases hpub : w.held.publication with
  | none =>
    rw [hpub] at hp
    exact ⟨rfl, hp.2⟩
  | some p =>
    rw [hpub] at hp
    exact absurd (hp.token.symm.trans hopen) (by simp)

/-- **Binding keeps the invariant.** -/
theorem Kept.bind {w : World} (h : Kept w) {l : Lease} (hl : l ∈ w.held.leases)
    {execution : ExecutionId} {s' : State}
    (hb : w.state.bindExecution l.tenant l.completion execution = .ok s') :
    Kept { w with state := s' } := by
  obtain ⟨hopen, hcase⟩ := State.bindExecution_eq_ok hb
  rcases hcase with rfl | ⟨hnone, hkey, rfl⟩
  · exact h
  · obtain ⟨hpublication, hunclaimed⟩ := h.publication_none hopen
    refine
      { sound := h.sound.bind hl hnone hkey
        books := ⟨h.books.charged.of_load
            (fun p κ => h.sound.load_bind hl hnone hkey) rfl, h.books.queued, h.books.pins,
          h.books.learning, h.books.allLearning, h.books.ingress, h.books.ingressBytes⟩
        bounded := ⟨h.bounded.active, h.bounded.reserved, h.bounded.unknown, h.bounded.cached⟩
        pending := ?_
        lines := ⟨h.lines.queue_nodup, h.lines.task_nodup, h.lines.task_lt, h.lines.caller⟩ }
    unfold Pending
    rw [hpublication]
    refine ⟨hopen, fun k live hk => ?_⟩
    rcases Custody.get_insert.mp hk with ⟨-, rfl⟩ | ⟨-, hold⟩
    · rfl
    · exact hunclaimed k live hold

/-! ## Releases -/

/-- What the release of a lease takes off the counters. -/
def released (done covered : Bool) : Kind → ℕ
  | .active => 1
  | .uncovered => (!done && !covered).toNat
  | .live => (!done).toNat
  | .repair => 0

/-- **The charges after something of one tenant has gone.** -/
theorem Charged.less {counts' : TenantId → Counts} {slots' : ℕ} {totals' : Totals}
    {c c' : Custody} {t : TenantId} {amount : Kind → ℕ} (h : Charged counts slots totals c)
    (hs' : c'.Sound) (hload : ∀ p κ, c'.load p κ + (if p t then amount κ else 0) = c.load p κ)
    (hrepairs : c'.repairs = c.repairs) (hrepair : amount .repair = 0)
    (hself : (counts' t).active + amount .active = (counts t).active
      ∧ (counts' t).uncovered + amount .uncovered = (counts t).uncovered
      ∧ (counts' t).repairs = (counts t).repairs)
    (hother : ∀ u, u ≠ t → (counts' u).active = (counts u).active
      ∧ (counts' u).uncovered = (counts u).uncovered ∧ (counts' u).repairs = (counts u).repairs)
    (hslots : slots' + amount .active = slots)
    (huncovered : totals'.uncovered + amount .uncovered = totals.uncovered)
    (hlive : totals'.live + amount .live = totals.live)
    (hreserved : totals'.reserved + amount .live * reservation = totals.reserved)
    (hrows : totals'.repairLive = totals.repairLive
      ∧ totals'.repairReserved = totals.repairReserved) :
    Charged counts' slots' totals' c' := by
  have hof : ∀ u κ, c'.load (only u) κ + (if t = u then amount κ else 0)
      = c.load (only u) κ := by
    intro u κ
    simpa using hload (only u) κ
  have hall : ∀ κ, c'.load everyone κ + amount κ = c.load everyone κ := by
    intro κ
    simpa using hload everyone κ
  have hallLive := hall .live
  have hallRepair := hall .repair
  rw [← h.allLive] at hallLive
  rw [← h.allRepairs, hrepair] at hallRepair
  refine
    { active := fun u => ?_
      uncovered := fun u => ?_
      repairs := fun u => ?_
      allActive := ?_
      allUncovered := ?_
      allLive := by omega
      allRepairs := by omega
      reserved := ?_
      repairReserved := by rw [hrows.2, hrepairs]; exact h.repairReserved
      repairRows := by rw [hrows.1, hrepairs]; exact h.repairRows
      charged := by rw [hrepairs]; exact h.charged }
  · have hu := hof u .active
    rw [← h.active] at hu
    by_cases heq : t = u
    · subst heq
      rw [if_pos rfl] at hu
      omega
    · rw [if_neg heq] at hu
      rw [(hother u (Ne.symm heq)).1]
      exact hu.symm
  · have hu := hof u .uncovered
    rw [← h.uncovered] at hu
    by_cases heq : t = u
    · subst heq
      rw [if_pos rfl] at hu
      omega
    · rw [if_neg heq] at hu
      rw [(hother u (Ne.symm heq)).2.1]
      exact hu.symm
  · have hu := hof u .repair
    rw [← h.repairs, hrepair, ite_self] at hu
    by_cases heq : t = u
    · subst heq
      rw [hself.2.2]
      exact hu.symm
    · rw [(hother u (Ne.symm heq)).2.2]
      exact hu.symm
  · have := hall .active
    rw [← h.allActive] at this
    omega
  · have := hall .uncovered
    rw [← h.allUncovered] at this
    omega
  · have hle := hs'.load_repair_le_live (p := everyone)
    have hsplit : (totals.live - totals.repairLive) * reservation
        = (totals'.live - totals'.repairLive) * reservation + amount .live * reservation := by
      rw [← Nat.add_mul]
      congr 1
      omega
    have hold := h.reserved
    omega

namespace State

variable {s : State} {t : TenantId} {owner : ℕ} {key : Option Key} {covered : Bool} {c : Counts}

theorem releaseOwned_fenced {s' : State} (h : s.releaseOwned t owner key covered = .ok s') :
    s'.receipts.fenced = s.receipts.fenced := by
  unfold releaseOwned at h
  cases hdone : (s.completions owner).done <;> rw [hdone] at h
    <;> simp only [if_true, Bool.false_eq_true, if_false, bind_eq_ok, pure_eq_ok] at h
  · obtain ⟨_, -, _, -, _, -, _, -, rfl⟩ := h
    rw [idle_eq]
    rfl
  · obtain ⟨_, -, _, -, _, -, _, -, rfl⟩ := h
    rw [idle_eq]
    rfl

/-- **A release does not underflow** where the counters are large enough. -/
theorem releaseOwned_ok (hget : s.tenants[t]? = some c) (hactive : 1 ≤ s.active)
    (hslot : 1 ≤ c.active)
    (hlive : released (s.completions owner).done covered .live ≤ s.receipts.totals.live)
    (hreserved : released (s.completions owner).done covered .live * reservation
      ≤ s.receipts.totals.reserved)
    (htotal : released (s.completions owner).done covered .uncovered
      ≤ s.receipts.totals.uncovered)
    (huncovered : released (s.completions owner).done covered .uncovered ≤ c.uncovered) :
    let amount := released (s.completions owner).done covered
    s.releaseOwned t owner key covered = .ok
      (({ s with
          active := s.active - 1
          receipts := { s.receipts with totals := { s.receipts.totals with
            live := s.receipts.totals.live - amount .live
            reserved := s.receipts.totals.reserved - amount .live * reservation
            uncovered := s.receipts.totals.uncovered - amount .uncovered } }
          completions := (s.setDone owner).completions
          executions := key.elim s.executions s.executions.erase }.setCounts t
        { c with
          active := c.active - 1, uncovered := c.uncovered - amount .uncovered }).idle t) := by
  have hfirst := Receipts.checkedSub_of_le hactive
  have hsecond := Receipts.checkedSub_of_le hslot
  unfold releaseOwned releaseReservation
  cases hdone : (s.completions owner).done with
  | true =>
    simp [hget, hfirst, hsecond, released, orFail, bind, Except.bind, pure, Except.pure, setDone,
      setCounts]
  | false =>
    rw [hdone] at hlive hreserved htotal huncovered
    have hlive' := Receipts.checkedSub_of_le (show 1 ≤ s.receipts.totals.live from hlive)
    have hreserved' := Receipts.checkedSub_of_le
      (show reservation ≤ s.receipts.totals.reserved by simpa [released] using hreserved)
    cases covered with
    | true =>
      simp [hget, hfirst, hsecond, hlive', hreserved', released, orFail, bind, Except.bind, pure,
        Except.pure, setDone, setCounts]
    | false =>
      have htotal' := Receipts.checkedSub_of_le
        (show 1 ≤ s.receipts.totals.uncovered from htotal)
      have huncovered' := Receipts.checkedSub_of_le (show 1 ≤ c.uncovered from huncovered)
      simp [hget, hfirst, hsecond, hlive', hreserved', htotal', huncovered', released, orFail,
        bind, Except.bind, pure, Except.pure, setDone, setCounts]

end State

/-- The held objects without a lease. -/
def Held.dropLease (o : Held) (l : Lease) : Held := { o with leases := o.leases.erase l }

theorem Custody.Claims.keep {c c' : Custody} {steps : List Step} (h : c.Claims steps)
    (hentry : ∀ step ∈ steps, ∀ live, c.Claimed step live →
      c'.entries[step.key]? = some live ∧ (c'.completions live.owner).done = false) :
    c'.Claims steps := by
  intro step hstep hsome
  obtain ⟨live, hlive⟩ := h step hstep hsome
  obtain ⟨hentry', hdone⟩ := hentry step hstep live hlive
  exact ⟨live, hentry', hlive.owner, hlive.pending, hlive.covered, hdone, hlive.terminal⟩

section Release

variable {s : State} {o : Held} {l : Lease} {key : Option Key} {covered : Bool}

/-- The counters have what a release takes off them. -/
theorem Charged.covers {c c' : Custody} {t : TenantId} {amount : Kind → ℕ}
    (hc : Charged counts slots totals c) (hs' : c'.Sound)
    (hload : ∀ p κ, c'.load p κ + (if p t then amount κ else 0) = c.load p κ)
    (hrepair : amount .repair = 0) :
    amount .active ≤ slots ∧ amount .active ≤ (counts t).active
      ∧ amount .live ≤ totals.live ∧ amount .live * reservation ≤ totals.reserved
      ∧ amount .uncovered ≤ totals.uncovered ∧ amount .uncovered ≤ (counts t).uncovered := by
  have hone : ∀ κ, amount κ ≤ c.load (only t) κ := by
    intro κ
    have := hload (only t) κ
    rw [if_pos (by simp)] at this
    exact this ▸ Nat.le_add_left _ _
  have hall : ∀ κ, amount κ ≤ c.load everyone κ := by
    intro κ
    have := hload everyone κ
    exact this ▸ Nat.le_add_left _ _
  have hrows : amount .live ≤ totals.live - totals.repairLive := by
    have h1 := hload everyone .live
    have h2 := hload everyone .repair
    have h3 := hs'.load_repair_le_live (p := everyone)
    rw [if_pos rfl] at h1 h2
    rw [hc.allLive, hc.allRepairs]
    omega
  refine ⟨hc.allActive ▸ hall .active, hc.active t ▸ hone .active, hc.allLive ▸ hall .live, ?_,
    hc.allUncovered ▸ hall .uncovered, hc.uncovered t ▸ hone .uncovered⟩
  rw [hc.reserved]
  exact le_trans (Nat.mul_le_mul_right _ hrows) (Nat.le_add_right _ _)

/-- **A lease is released**: the counters have what it takes off them, and
the invariant is kept. -/
theorem releaseOwned_kept {profile : Profile} (hb : Books s o) (hbound : Bounded s profile)
    (hpend : Pending s o) (hsound : ((custody s o).release l key).Sound)
    (hload : ∀ p κ, ((custody s o).release l key).load p κ
      + (if p l.tenant then released (s.completions l.completion).done covered κ else 0)
      = (custody s o).load p κ)
    (hclaims : ∀ steps, (custody s o).Claims steps → ((custody s o).release l key).Claims steps)
    (hentries : ∀ (k : Key) (live : Live),
      (key.elim s.executions s.executions.erase)[k]? = some live → live.pending = true →
        ∃ live₀ : Live, s.executions[k]? = some live₀ ∧ live₀.pending = true) :
    ∃ s', s.releaseOwned l.tenant l.completion key covered = .ok s'
      ∧ s'.receipts.fenced = s.receipts.fenced ∧ s'.queue = s.queue
      ∧ custody s' (o.dropLease l) = (custody s o).release l key
      ∧ Books s' (o.dropLease l) ∧ Bounded s' profile ∧ Pending s' (o.dropLease l) := by
  generalize hamount : released (s.completions l.completion).done covered = amount at hload
  have hc := hb.charged
  have hrepair : amount .repair = 0 := hamount ▸ rfl
  have hunit : amount .active = 1 := hamount ▸ rfl
  obtain ⟨hactive, hslot, hlive, hreserved, htotal, huncovered⟩ := hc.covers hsound hload hrepair
  have hget : s.tenants[l.tenant]? = some (s.counts l.tenant) := State.get_of_counts_ne
    (fun heq => by rw [heq, hunit] at hslot; exact absurd hslot (by simp))
  have hok := @State.releaseOwned_ok s l.tenant l.completion key covered (s.counts l.tenant) hget
    (hunit ▸ hactive) (hunit ▸ hslot) (hamount ▸ hlive) (hamount ▸ hreserved)
    (hamount ▸ htotal) (hamount ▸ huncovered)
  rw [hamount] at hok
  dsimp only at hok
  generalize hfreed : amount .live * reservation = freed at hok hreserved
  generalize htotals : ({ s.receipts.totals with
      live := s.receipts.totals.live - amount .live
      reserved := s.receipts.totals.reserved - freed
      uncovered := s.receipts.totals.uncovered - amount .uncovered } : Totals) = totals at hok
  generalize hs₁ : State.setCounts _ l.tenant _ = s₁ at hok
  have hcounts : ∀ u, s₁.counts u = if u = l.tenant then
      { s.counts l.tenant with
        active := (s.counts l.tenant).active - 1
        uncovered := (s.counts l.tenant).uncovered - amount .uncovered } else s.counts u := by
    intro u
    rw [← hs₁]
    exact State.counts_setCounts
  have hsame : ∀ u, (s₁.counts u).queued = (s.counts u).queued
      ∧ (s₁.counts u).pins = (s.counts u).pins ∧ (s₁.counts u).learning = (s.counts u).learning
      ∧ (s₁.counts u).unknown = (s.counts u).unknown := by
    intro u
    rw [hcounts]
    split
    · next heq => rw [heq]; exact ⟨rfl, rfl, rfl, rfl⟩
    · exact ⟨rfl, rfl, rfl, rfl⟩
  have hcharged₁ : Charged s₁.counts (s.active - 1) totals ((custody s o).release l key) := by
    subst htotals
    refine hc.less hsound hload rfl hrepair ?_ (fun u hu => ?_) ?_ ?_ ?_ ?_ ⟨rfl, rfl⟩
    · rw [hcounts, if_pos rfl, hunit]
      exact ⟨Nat.sub_add_cancel (hunit ▸ hslot), Nat.sub_add_cancel huncovered, rfl⟩
    · rw [hcounts, if_neg hu]
      exact ⟨rfl, rfl, rfl⟩
    · rw [hunit]
      exact Nat.sub_add_cancel (hunit ▸ hactive)
    · exact Nat.sub_add_cancel htotal
    · exact Nat.sub_add_cancel hlive
    · rw [hfreed]
      exact Nat.sub_add_cancel hreserved
  have hcharged := hcharged₁.idle hsound l.tenant
  have hqueued : ∀ u, ((s₁.idle l.tenant).counts u).queued = (s.counts u).queued :=
    fun u => State.idle_queued.trans (hsame u).1
  have hpins : ∀ u, ((s₁.idle l.tenant).counts u).pins = (s.counts u).pins :=
    fun u => State.idle_pins.trans (hsame u).2.1
  have hlearning : ∀ u, ((s₁.idle l.tenant).counts u).learning = (s.counts u).learning :=
    fun u => State.idle_learning.trans (hsame u).2.2.1
  have hcached : ∀ u n, ((s₁.idle l.tenant).counts u).unknown = some n →
      (s.counts u).unknown = some n :=
    fun u n hn => (hsame u).2.2.2 ▸ State.idle_unknown hn
  refine ⟨s₁.idle l.tenant, hok, State.releaseOwned_fenced hok, ?_⟩
  rw [State.idle_eq] at hqueued hpins hlearning hcached hcharged ⊢
  subst hs₁
  refine ⟨rfl, rfl, ⟨hcharged, fun u => (hqueued u).trans (hb.queued u),
    fun u => (hpins u).trans (hb.pins u), fun u => (hlearning u).trans (hb.learning u),
    hb.allLearning, hb.ingress, hb.ingressBytes⟩, ⟨?_, ?_, ?_, ?_⟩, ?_⟩
  · exact le_trans (Nat.sub_le _ _) hbound.active
  · show totals.reserved < 2 ^ 64
    rw [← htotals]
    exact lt_of_le_of_lt (Nat.sub_le _ freed) hbound.reserved
  · show totals.unknown < 2 ^ 64
    rw [← htotals]
    exact hbound.unknown
  · exact fun u n hn => hbound.cached u n (hcached u n hn)
  · have hsame : totals.unknown = s.receipts.totals.unknown
        ∧ totals.bytes = s.receipts.totals.bytes := by
      rw [← htotals]
      exact ⟨rfl, rfl⟩
    exact hpend.move rfl rfl hclaims hentries hcached hsame.1 (le_of_eq hsame.2) rfl

end Release

namespace Kept

variable {w : World} {l : Lease}

theorem leases_lines (h : Kept w) {s' : State} (hqueue : s'.queue = w.state.queue) :
    Lines s' (w.held.dropLease l) w.tasks where
  queue_nodup := hqueue ▸ h.lines.queue_nodup
  task_nodup := h.lines.task_nodup
  task_lt := h.lines.task_lt
  caller := hqueue ▸ h.lines.caller

theorem release_completion_ne {c : Custody} {key : Option Key} {id : ℕ}
    (hid : id ≠ l.completion) : (c.release l key).completions id = c.completions id :=
  Custody.complete_ne hid

theorem releaseUnbound (h : Kept w) (hl : l ∈ w.held.leases)
    (hx : (w.state.completions l.completion).execution = none) :
    ∃ s', w.state.releaseOwned l.tenant l.completion none false = .ok s'
      ∧ s'.receipts.fenced = w.state.receipts.fenced
      ∧ Kept { w with state := s', held := w.held.dropLease l } := by
  have hsound := h.sound
  have hdone : (w.state.completions l.completion).done = false := hsound.unbound l hl hx
  have hshare : ∀ p κ, (custody w.state w.held).leaseShare p κ l
      = if p l.tenant then released (w.state.completions l.completion).done false κ else 0 := by
    intro p κ
    show (if p l.tenant then (w.state.completions l.completion).share κ else 0) = _
    cases κ <;> simp [Completion.share, released, hx, hdone]
  obtain ⟨s', hok, hfence, hqueue, hcustody, hbooks, hbound, hpend⟩ :=
    @releaseOwned_kept w.state w.held l none false w.config.profile h.books h.bounded h.pending
      (hsound.release_unbound hl hx)
      (fun p κ => hshare p κ ▸ hsound.load_release_unbound hl hx)
      (fun steps hclaims => hclaims.keep (fun step _ live hlive => ⟨hlive.entry, by
        rw [release_completion_ne (hsound.owner_ne_of_unbound hx hlive.entry)]
        exact hlive.undone⟩))
      (fun k live hk hp => ⟨live, hk, hp⟩)
  exact ⟨s', hok, hfence, hcustody ▸ hsound.release_unbound hl hx, hbooks, hbound, hpend,
    h.leases_lines hqueue⟩

section Bound

variable {execution : ExecutionId} {live : Live}

theorem releaseBound (h : Kept w) (hl : l ∈ w.held.leases)
    (hk : w.state.executions[(⟨l.tenant, execution⟩ : Key)]? = some live)
    (hx : (w.state.completions l.completion).execution = some execution)
    (howner : live.owner = l.completion) (hrepair : live.repair = false)
    (hdropped : live.dropped = false) (hpending : live.pending = false) :
    ∃ s', w.state.releaseOwned l.tenant l.completion (some ⟨l.tenant, execution⟩) live.covered
        = .ok s'
      ∧ s'.receipts.fenced = w.state.receipts.fenced
      ∧ Kept { w with state := s', held := w.held.dropLease l } := by
  have hsound := h.sound
  have hshare : ∀ p κ, (custody w.state w.held).leaseShare p κ l
        + (custody w.state w.held).entryShare p κ ⟨l.tenant, execution⟩ live
      = if p l.tenant then
          released (w.state.completions l.completion).done live.covered κ else 0 := by
    intro p κ
    show (if p l.tenant then (w.state.completions l.completion).share κ else 0)
      + (if p l.tenant then live.share (w.state.completions live.owner).done κ else 0) = _
    rw [howner]
    cases p l.tenant <;> cases κ
      <;> simp [Completion.share, Live.share, released, hx, hdropped, hrepair]
  have hclaimed : ∀ step live', (custody w.state w.held).Claimed step live' →
      step.key ≠ ⟨l.tenant, execution⟩ := by
    intro step live' hclaim heq
    have hentry := hclaim.entry
    rw [heq] at hentry
    obtain rfl := Option.some.inj (hk.symm.trans hentry)
    exact absurd hclaim.pending (by rw [hpending]; simp)
  obtain ⟨s', hok, hfence, hqueue, hcustody, hbooks, hbound, hpend⟩ :=
    @releaseOwned_kept w.state w.held l (some ⟨l.tenant, execution⟩) live.covered
      w.config.profile h.books h.bounded h.pending (hsound.release_bound hl hk howner hrepair)
      (fun p κ => hshare p κ ▸ hsound.load_release_bound hl hk howner)
      (fun steps hclaims => hclaims.keep (fun step _ live' hlive =>
        ⟨Custody.get_erase.mpr ⟨hclaimed step live' hlive, hlive.entry⟩, by
          rw [release_completion_ne (howner ▸ hsound.owner_ne_of_ne hk hlive.entry
            (hclaimed step live' hlive))]
          exact hlive.undone⟩))
      (fun k v hv hp => ⟨v, (Custody.get_erase.mp hv).2, hp⟩)
  exact ⟨s', hok, hfence, hcustody ▸ hsound.release_bound hl hk howner hrepair, hbooks,
    hbound, hpend, h.leases_lines hqueue⟩

theorem claimed_of_pending (h : Kept w) {k : Key} (hk : w.state.executions[k]? = some live)
    (hpending : live.pending = true) :
    ∃ step, (custody w.state w.held).Claimed step live := by
  have hp := h.pending
  unfold Pending at hp
  cases hpub : w.held.publication with
  | none =>
    rw [hpub] at hp
    exact absurd hpending (by rw [hp.2 _ live hk]; simp)
  | some p =>
    rw [hpub] at hp
    obtain ⟨step, hstep, hsome, hkey⟩ := hp.pending _ live hk hpending
    obtain ⟨live', hclaim⟩ := hp.claims step hstep hsome
    obtain rfl : live = live' := Option.some.inj (hk.symm.trans (hkey ▸ hclaim.entry))
    exact ⟨step, hclaim⟩

/-- The drop of a lease whose entry a publication holds: the slot and the
reservation stay with the entry. -/
theorem deferLease (h : Kept w) (hl : l ∈ w.held.leases)
    (hk : w.state.executions[(⟨l.tenant, execution⟩ : Key)]? = some live)
    (howner : live.owner = l.completion) (hrepair : live.repair = false)
    (hdropped : live.dropped = false) (hpending : live.pending = true) :
    Kept { w with
      state := { w.state with executions :=
        w.state.executions.insert ⟨l.tenant, execution⟩ { live with dropped := true } }
      held := w.held.dropLease l } := by
  obtain ⟨_, hclaim⟩ := h.claimed_of_pending hk hpending
  have hundone : (w.state.completions l.completion).done = false := howner ▸ hclaim.undone
  refine
    { sound := h.sound.defer hl hk howner hrepair hpending hundone
      books := ⟨h.books.charged.of_load
          (fun p κ => h.sound.load_defer hl hk rfl howner hdropped) rfl,
        h.books.queued, h.books.pins, h.books.learning, h.books.allLearning,
        h.books.ingress, h.books.ingressBytes⟩
      bounded := ⟨h.bounded.active, h.bounded.reserved, h.bounded.unknown, h.bounded.cached⟩
      pending := h.pending.move rfl rfl (fun steps hclaims step' hstep' hsome' => ?_) ?_
        (fun _ _ => id) rfl le_rfl rfl
      lines := ⟨h.lines.queue_nodup, h.lines.task_nodup, h.lines.task_lt, h.lines.caller⟩ }
  · obtain ⟨v, hv⟩ := hclaims step' hstep' hsome'
    by_cases hkey : step'.key = ⟨l.tenant, execution⟩
    · obtain rfl : live = v := Option.some.inj (hk.symm.trans (hkey ▸ hv.entry))
      exact ⟨{ live with dropped := true }, Custody.get_insert.mpr (Or.inl ⟨hkey, rfl⟩),
        hv.owner, hv.pending, hv.covered, hv.undone, hv.terminal⟩
    · exact ⟨v, Custody.get_insert.mpr (Or.inr ⟨hkey, hv.entry⟩), hv.owner, hv.pending,
        hv.covered, hv.undone, hv.terminal⟩
  · intro k v hv hvp
    rcases Custody.get_insert.mp hv with ⟨rfl, rfl⟩ | ⟨-, hold⟩
    · exact ⟨live, hk, hpending⟩
    · exact ⟨v, hold, hvp⟩

end Bound

/-- **Releasing a lease never fails**, and keeps the invariant. -/
theorem releaseLease (h : Kept w) (hl : l ∈ w.held.leases) :
    ∃ s', w.state.releaseLease l.tenant l.completion = .ok s'
      ∧ s'.receipts.fenced = w.state.receipts.fenced
      ∧ Kept { w with state := s', held := w.held.dropLease l } := by
  cases hx : (w.state.completions l.completion).execution with
  | none =>
    have heq : w.state.releaseLease l.tenant l.completion
        = w.state.releaseOwned l.tenant l.completion none false := by
      unfold State.releaseLease
      rw [hx]
    rw [heq]
    exact h.releaseUnbound hl hx
  | some execution =>
    obtain ⟨live, hk, howner, hrepair, hdropped⟩ := h.sound.bound l hl execution hx
    have hget : w.state.executions[(⟨l.tenant, execution⟩ : Key)]? = some live := hk
    have hentry : live.owner = l.completion ∧ live.repair = false ∧ live.dropped = false :=
      ⟨howner, hrepair, hdropped⟩
    have heq : w.state.releaseLease l.tenant l.completion
        = if live.pending then
            .ok { w.state with
              executions := w.state.executions.insert ⟨l.tenant, execution⟩
                { live with dropped := true } }
          else w.state.releaseOwned l.tenant l.completion (some ⟨l.tenant, execution⟩)
            live.covered := by
      unfold State.releaseLease
      simp only [hx, hget, orFail, ensure, if_pos hentry, Bind.bind, Except.bind, pure,
        Except.pure]
    rw [heq]
    by_cases hpending : live.pending = true
    · rw [if_pos hpending]
      exact ⟨_, rfl, rfl, h.deferLease hl hget howner hrepair hdropped hpending⟩
    · rw [if_neg hpending]
      exact h.releaseBound hl hget hx howner hrepair hdropped (Bool.not_eq_true _ ▸ hpending)

/-- **The drop of a lease does not fence**, and keeps the invariant. -/
theorem dropLease (h : Kept w) (hl : l ∈ w.held.leases) :
    (w.state.dropLease l).receipts.fenced = w.state.receipts.fenced
      ∧ Kept { w with state := w.state.dropLease l, held := w.held.dropLease l } := by
  obtain ⟨s', hok, hfence, hkept⟩ := h.releaseLease hl
  have heq : w.state.dropLease l = s' := by
    unfold State.dropLease
    rw [hok]
  rw [heq]
  exact ⟨hfence, hkept⟩

end Kept

end BitRouter.Admission
