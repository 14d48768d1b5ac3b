import BitRouter.Admission.Grants

/-!
# Repairs keep the books

The rows of a repair are charged to its tenant when they are entered, and
exactly their charge is taken off when the repair is finished: no subtraction
of `finishRepair` underflows (`Kept.finishRepair_ok`).
-/

namespace BitRouter.Admission

open Tenancy
open Receipts (ErrorCode Accounting Totals reservation rowOverhead)

/-! ## The rows that are entered -/

section Rows

variable {s : State} {o : Held} {tenant : TenantId}

section

variable (owner : ℕ) (entries : List (ExecutionId × Bool))

include owner entries

theorem repairRows_length :
    (repairRows tenant owner entries).length = entries.length := by
  induction entries generalizing owner with
  | nil => rfl
  | cons entry entries ih => exact congrArg (· + 1) (ih (owner + 1))

theorem repairRows_keys :
    (repairRows tenant owner entries).map Prod.fst
      = entries.map (fun entry => (⟨tenant, entry.1⟩ : Key)) := by
  induction entries generalizing owner with
  | nil => rfl
  | cons entry entries ih => exact congrArg (_ :: ·) (ih (owner + 1))

theorem repairRows_uncovered :
    (repairRows tenant owner entries).countP (fun row => !row.2.covered)
      = Custody.rowsShare entries .uncovered := by
  induction entries generalizing owner with
  | nil => rfl
  | cons entry entries ih =>
    obtain ⟨execution, covered⟩ := entry
    rw [repairRows, List.countP_cons, ih (owner + 1)]
    unfold Custody.rowsShare
    rw [List.map_cons, List.sum_cons, Nat.add_comm]
    cases covered <;> rfl

end

theorem rowsShare_active (entries : List (ExecutionId × Bool)) :
    Custody.rowsShare entries .active = 0 :=
  List.sum_eq_zero (fun x hx => by
    obtain ⟨_, -, rfl⟩ := List.mem_map.mp hx
    rfl)

/-- A row counts once as whatever every row is. -/
theorem rowsShare_eq_length {kind : Kind} (h : ∀ covered, Custody.rowShare covered kind = 1)
    (entries : List (ExecutionId × Bool)) :
    Custody.rowsShare entries kind = entries.length := by
  induction entries with
  | nil => rfl
  | cons entry entries ih =>
    unfold Custody.rowsShare at ih ⊢
    rw [List.map_cons, List.sum_cons, ih, List.length_cons, h]
    exact Nat.add_comm _ _

theorem custody_enterAll (rows : List (Key × Live)) :
    custody (rows.foldl State.enterRow s) { o with nextId := o.nextId + rows.length }
      = rows.foldl Custody.enter (custody s o) := by
  induction rows generalizing s o with
  | nil => rfl
  | cons row rows ih =>
    have hnext : o.nextId + (row :: rows).length = o.nextId + 1 + rows.length := by
      rw [List.length_cons]
      omega
    rw [List.foldl_cons, List.foldl_cons, hnext]
    exact ih (s := s.enterRow row) (o := { o with nextId := o.nextId + 1 })

theorem enterAll_eq (rows : List (Key × Live)) :
    rows.foldl State.enterRow s = { s with
      executions := (rows.foldl State.enterRow s).executions
      completions := (rows.foldl State.enterRow s).completions } := by
  induction rows generalizing s with
  | nil => rfl
  | cons row rows ih => exact ih

/-- **A repair of rows that are entered is taken up.** -/
theorem Custody.Sound.adopt {c : Custody} (h : c.Sound) {r : Repair} (hnodup : r.keys.Nodup)
    (hfree : ∀ k ∈ r.keys, k ∉ c.repairs.flatMap Repair.keys)
    (hentry : ∀ k ∈ r.keys, k.tenant = r.tenant ∧
      ∃ live : Live, c.entries[k]? = some live ∧ live.repair = true) :
    ({ c with repairs := r :: c.repairs } : Custody).Sound :=
  { h with
    repair_nodup := by
      show ((r :: c.repairs).flatMap Repair.keys).Nodup
      exact List.nodup_append.mpr ⟨hnodup, h.repair_nodup,
        fun k hk k' hk' heq => hfree k hk (heq ▸ hk')⟩
    repair_entry := List.forall_mem_cons.mpr ⟨hentry, h.repair_entry⟩ }

end Rows

namespace State

variable {s s' : State} {tenant : TenantId} {bytes owner : ℕ}
  {entries : List (ExecutionId × Bool)} {repair : Repair} {read : Read}

/-- **What a reserved repair has done.** -/
theorem reserveRepair_eq_ok
    (h : s.reserveRepair read tenant bytes entries owner = .ok (repair, s')) :
    (entries.map Prod.fst).Nodup ∧ entries ≠ [] ∧ s.publicationPending = none
      ∧ (∀ entry ∈ entries, s.executions[(⟨tenant, entry.1⟩ : Key)]? = none)
      ∧ repair = { tenant := tenant, charged := entries.length * rowOverhead + bytes
                   keys := entries.map (fun entry => ⟨tenant, entry.1⟩) }
      ∧ s.receipts.totals.reserved + repair.charged < 2 ^ 64
      ∧ s' = (repairRows tenant owner entries).foldl enterRow
          ({ s with receipts := { s.receipts with totals := { s.receipts.totals with
            reserved := s.receipts.totals.reserved + repair.charged
            repairReserved := s.receipts.totals.repairReserved + repair.charged
            live := s.receipts.totals.live + entries.length
            repairLive := s.receipts.totals.repairLive + entries.length
            uncovered := s.receipts.totals.uncovered
              + Custody.rowsShare entries .uncovered } } }.setCounts tenant
            { s.counts tenant with
              repairs := (s.counts tenant).repairs + entries.length
              uncovered := (s.counts tenant).uncovered
                + Custody.rowsShare entries .uncovered }) := by
  unfold reserveRepair checkRead at h
  simp only [bind_eq_ok, ensure_eq_ok, orFail_eq_ok, pure_eq_ok, Receipts.checkedAdd_eq_some,
    Prod.mk.injEq] at h
  obtain ⟨-, -, -, hnodup, -, hne, -, ⟨hopen, -⟩, -, -, -, habsent, _, ⟨-, rfl⟩, _, ⟨-, rfl⟩,
    ⟨charged, receipts⟩, hreserve, rfl, rfl⟩ := h
  obtain ⟨rfl, -, -, hreserved, rfl⟩ := Accounting.reserveRepair_eq_ok hreserve
  rw [repairRows_length, repairRows_uncovered, repairRows_keys]
  refine ⟨hnodup, fun hnil => hne (hnil ▸ rfl), hopen, fun entry hentry => ?_, rfl, ?_, rfl⟩
  · have hmem : (⟨tenant, entry.1⟩ : Key) ∈ (repairRows tenant owner entries).map Prod.fst := by
      rw [repairRows_keys]
      exact List.mem_map_of_mem hentry
    obtain ⟨row, hrow, heq⟩ := List.mem_map.mp hmem
    have hnot := of_decide_eq_true (List.all_eq_true.mp habsent row hrow)
    rw [heq] at hnot
    exact Std.TreeMap.getElem?_eq_none hnot
  · rwa [repairRows_length] at hreserved

end State

/-! ## What a repair leaves as it is -/

section Recharged

variable {w : World} {s' : State} {tenant : TenantId} {repairs uncovered : ℕ}

/-- **A state in which only the charges of a repair differ is kept**, where its
custody and its charges are in order. -/
theorem Kept.recharged (h : Kept w) {nextId : ℕ} {reserved : List Repair}
    (hrest : s' = { w.state with
      executions := s'.executions, completions := s'.completions, tenants := s'.tenants
      receipts := s'.receipts })
    (hcounts : ∀ u, s'.counts u = if u = tenant then
      { w.state.counts tenant with repairs := repairs, uncovered := uncovered }
      else w.state.counts u)
    (hnext : w.held.nextId ≤ nextId)
    (hsound : (custody s' { w.held with nextId := nextId, repairs := reserved }).Sound)
    (hcharged : Charged s'.counts w.state.active s'.receipts.totals
      (custody s' { w.held with nextId := nextId, repairs := reserved }))
    (hreserved : s'.receipts.totals.reserved < 2 ^ 64)
    (hunknown : s'.receipts.totals.unknown = w.state.receipts.totals.unknown)
    (hopen : w.state.publicationPending = none)
    (hpending : ∀ (k : Key) (live : Live), s'.executions[k]? = some live → live.pending = false) :
    Kept { w with
      state := s', held := { w.held with nextId := nextId, repairs := reserved } } := by
  have hsame : ∀ u, (s'.counts u).queued = (w.state.counts u).queued
      ∧ (s'.counts u).pins = (w.state.counts u).pins
      ∧ (s'.counts u).learning = (w.state.counts u).learning
      ∧ (s'.counts u).unknown = (w.state.counts u).unknown := by
    intro u
    rw [hcounts]
    split
    · next heq => rw [heq]; exact ⟨rfl, rfl, rfl, rfl⟩
    · exact ⟨rfl, rfl, rfl, rfl⟩
  have hactive : s'.active = w.state.active := by rw [hrest]
  have hqueue : s'.queue = w.state.queue := by rw [hrest]
  exact
    { sound := hsound
      books :=
        { charged := hactive ▸ hcharged
          queued := fun u => by rw [(hsame u).1, hqueue]; exact h.books.queued u
          pins := fun u => by rw [(hsame u).2.1]; exact h.books.pins u
          learning := fun u => by rw [(hsame u).2.2.1]; exact h.books.learning u
          allLearning := by rw [hrest]; exact h.books.allLearning
          ingress := by rw [hrest]; exact h.books.ingress
          ingressBytes := by rw [hrest]; exact h.books.ingressBytes }
      bounded :=
        { active := hactive ▸ h.bounded.active
          reserved := hreserved
          unknown := hunknown ▸ h.bounded.unknown
          cached := fun u n hn => h.bounded.cached u n ((hsame u).2.2.2 ▸ hn) }
      pending := by
        unfold Pending
        rw [show ({ w.held with nextId := nextId, repairs := reserved } : Held).publication = none
          from (h.publication_none hopen).1]
        exact ⟨by rw [hrest]; exact hopen, hpending⟩
      lines :=
        { queue_nodup := hqueue ▸ h.lines.queue_nodup
          task_nodup := h.lines.task_nodup
          task_lt := fun t ht => lt_of_lt_of_le (h.lines.task_lt t ht) hnext
          caller := hqueue ▸ h.lines.caller } }

end Recharged

/-! ## A reservation -/

section Entered

variable {counts counts' : TenantId → Counts} {slots : ℕ} {totals : Totals} {c c' : Custody}
  {tenant : TenantId} {entries : List (ExecutionId × Bool)} {r : Repair}

/-- **Rows that are entered are charged to their tenant**, a completion and a
row each, and what is uncovered. -/
theorem Charged.entered (h : Charged counts slots totals c)
    (hcounts : ∀ u, counts' u = if u = tenant then
      { counts tenant with
        repairs := (counts tenant).repairs + entries.length
        uncovered := (counts tenant).uncovered + Custody.rowsShare entries .uncovered }
      else counts u)
    (hload : ∀ p κ, c'.load p κ
      = c.load p κ + if p tenant then Custody.rowsShare entries κ else 0)
    (hrepairs : c'.repairs = r :: c.repairs) (hlength : r.keys.length = entries.length)
    (hne : r.keys ≠ []) (hcharge : r.keys.length * rowOverhead ≤ r.charged) :
    Charged counts' slots
      { totals with
        reserved := totals.reserved + r.charged
        repairReserved := totals.repairReserved + r.charged
        live := totals.live + entries.length
        repairLive := totals.repairLive + entries.length
        uncovered := totals.uncovered + Custody.rowsShare entries .uncovered } c' := by
  have hactive := rowsShare_active entries
  have hlive := @rowsShare_eq_length .live (fun _ => rfl) entries
  have hrepair := @rowsShare_eq_length .repair (fun _ => rfl) entries
  exact
    { active := fun u => by
        rw [hcounts, hload, hactive]
        split
        · next heq => rw [heq]; simpa using h.active tenant
        · simpa using h.active u
      uncovered := fun u => by
        rw [hcounts, hload]
        split
        · next heq => rw [heq, if_pos (by simp)]; exact congrArg (· + _) (h.uncovered tenant)
        · next hu => rw [if_neg (by simpa using Ne.symm hu)]; exact h.uncovered u
      repairs := fun u => by
        rw [hcounts, hload, hrepair]
        split
        · next heq => rw [heq, if_pos (by simp)]; exact congrArg (· + _) (h.repairs tenant)
        · next hu => rw [if_neg (by simpa using Ne.symm hu)]; exact h.repairs u
      allActive := by
        rw [hload, hactive]
        simpa using h.allActive
      allUncovered := by
        rw [hload, if_pos rfl]
        exact congrArg (· + _) h.allUncovered
      allLive := by
        rw [hload, if_pos rfl, hlive]
        exact congrArg (· + _) h.allLive
      allRepairs := by
        rw [hload, if_pos rfl, hrepair]
        exact congrArg (· + _) h.allRepairs
      reserved := by
        rw [Nat.add_sub_add_right, h.reserved, Nat.add_assoc]
      repairReserved := by
        rw [hrepairs, List.map_cons, List.sum_cons, ← h.repairReserved]
        exact Nat.add_comm _ _
      repairRows := by
        rw [hrepairs, List.map_cons, List.sum_cons, ← h.repairRows, hlength]
        exact Nat.add_comm _ _
      charged := by
        rw [hrepairs]
        exact List.forall_mem_cons.mpr ⟨⟨hne, hcharge⟩, h.charged⟩ }

/-- The rows of a repair that are all entered are taken up by it. -/
theorem Custody.Sound.entered (h : c.Sound) (hsound : c'.Sound) (hrepairs : c'.repairs = c.repairs)
    (hnodup : (entries.map Prod.fst).Nodup)
    (habsent : ∀ entry ∈ entries, c.entries[(⟨tenant, entry.1⟩ : Key)]? = none)
    (hentered : ∀ entry ∈ entries,
      ∃ live : Live, c'.entries[(⟨tenant, entry.1⟩ : Key)]? = some live ∧ live.repair = true)
    (htenant : r.tenant = tenant)
    (hkeys : r.keys = entries.map (fun entry => (⟨tenant, entry.1⟩ : Key))) :
    ({ c' with repairs := r :: c'.repairs } : Custody).Sound := by
  refine hsound.adopt ?_ (fun k hk hmem => ?_) (fun k hk => ?_)
  · have hmap : r.keys = (entries.map Prod.fst).map (fun x => (⟨tenant, x⟩ : Key)) := by
      rw [hkeys, List.map_map]
      rfl
    rw [hmap]
    exact List.pairwise_map.mpr (hnodup.imp (fun hab heq => hab (Key.mk.inj heq).2))
  · obtain ⟨entry, hentry, rfl⟩ := List.mem_map.mp (hkeys ▸ hk)
    rw [hrepairs] at hmem
    obtain ⟨r', hr', hkr⟩ := List.mem_flatMap.mp hmem
    obtain ⟨-, live, hlive, -⟩ := h.repair_entry r' hr' _ hkr
    exact absurd (hlive.symm.trans (habsent entry hentry)) (by simp)
  · obtain ⟨entry, hentry, rfl⟩ := List.mem_map.mp (hkeys ▸ hk)
    exact ⟨htenant.symm, hentered entry hentry⟩

end Entered

namespace Kept

variable {w : World}

/-- **A reserved repair keeps the invariant.** -/
theorem reserveRepair (h : Kept w) {read : Read} {tenant : TenantId} {bytes : ℕ}
    {entries : List (ExecutionId × Bool)} {repair : Repair} {s' : State}
    (hr : w.state.reserveRepair read tenant bytes entries w.held.nextId = .ok (repair, s')) :
    Kept { w with
      state := s'
      held := { w.held with
        nextId := w.held.nextId + entries.length, repairs := repair :: w.held.repairs } } := by
  obtain ⟨hnodup, hne, hopen, habsent, rfl, hreserved, rfl⟩ := State.reserveRepair_eq_ok hr
  obtain ⟨hsound, -, hrepairs, -, hload, -, hentered, hpending⟩ := h.sound.enterAll hnodup habsent
  set repair : Repair := { tenant := tenant, charged := entries.length * rowOverhead + bytes
                           keys := entries.map (fun entry => (⟨tenant, entry.1⟩ : Key)) }
  set c' := (repairRows tenant (custody w.state w.held).nextId entries).foldl Custody.enter
    (custody w.state w.held) with hc'
  set s₁ := { w.state with
      receipts := { w.state.receipts with totals := { w.state.receipts.totals with
        reserved := w.state.receipts.totals.reserved + repair.charged
        repairReserved := w.state.receipts.totals.repairReserved + repair.charged
        live := w.state.receipts.totals.live + entries.length
        repairLive := w.state.receipts.totals.repairLive + entries.length
        uncovered := w.state.receipts.totals.uncovered
          + Custody.rowsShare entries .uncovered } } }.setCounts tenant
      { w.state.counts tenant with
        repairs := (w.state.counts tenant).repairs + entries.length
        uncovered := (w.state.counts tenant).uncovered
          + Custody.rowsShare entries .uncovered }
  set s' := (repairRows tenant w.held.nextId entries).foldl State.enterRow s₁
  have hstate : s' = { s₁ with executions := s'.executions, completions := s'.completions } :=
    enterAll_eq _
  have hcounts : ∀ u, s'.counts u = if u = tenant then
      { w.state.counts tenant with
        repairs := (w.state.counts tenant).repairs + entries.length
        uncovered := (w.state.counts tenant).uncovered
          + Custody.rowsShare entries .uncovered } else w.state.counts u := by
    intro u
    rw [hstate]
    exact State.counts_setCounts
  have hcustody : custody s' { w.held with
      nextId := w.held.nextId + entries.length, repairs := repair :: w.held.repairs }
      = { c' with repairs := repair :: c'.repairs } := by
    have hall := custody_enterAll (s := s₁) (o := w.held) (repairRows tenant w.held.nextId entries)
    rw [repairRows_length] at hall
    rw [show c' = (repairRows tenant w.held.nextId entries).foldl Custody.enter
      (custody s₁ w.held) from rfl, ← hall]
    rfl
  have hlength : repair.keys.length = entries.length := List.length_map _
  have hkeys : repair.keys ≠ [] := fun hnil => hne (List.map_eq_nil_iff.mp hnil)
  refine h.recharged (by rw [hstate]; rfl) hcounts (Nat.le_add_right _ _)
    ?_ ?_ ?_ ?_ hopen (fun k live hk => ?_)
  · rw [hcustody]
    exact h.sound.entered hsound hrepairs hnodup habsent hentered rfl rfl
  · rw [hcustody, hstate]
    exact h.books.charged.entered (r := repair) (hstate ▸ hcounts) hload
      (congrArg (repair :: ·) hrepairs) hlength hkeys
      (hlength ▸ Nat.le_add_right _ _)
  · rw [hstate]
    exact hreserved
  · rw [hstate]
    rfl
  · have hk' : c'.entries[k]? = some live := by
      rw [show c'.entries = s'.executions from (congrArg Custody.entries hcustody).symm]
      exact hk
    exact (hpending k live hk').elim (fun hold => (h.publication_none hopen).2 k live hold) id

end Kept

/-! ## The rows that are taken out -/

variable {κ : Kind}

namespace Custody

variable {c : Custody} {r : Repair}

/-- A repair given up leaves its rows to nobody. -/
theorem Sound.abandon (h : c.Sound) (hr : r ∈ c.repairs) :
    ({ c with repairs := c.repairs.erase r } : Custody).Sound
      ∧ r.keys.Nodup ∧ ∀ k ∈ r.keys, k ∉ (c.repairs.erase r).flatMap Repair.keys := by
  have hperm := (List.perm_cons_erase hr).flatMap_right Repair.keys
  have hnodup := hperm.nodup_iff.mp h.repair_nodup
  rw [List.flatMap_cons, List.nodup_append] at hnodup
  obtain ⟨hkeys, hrest, hdisjoint⟩ := hnodup
  exact ⟨{ h with
      repair_nodup := hrest
      repair_entry := fun r' hr' => h.repair_entry r' (List.mem_of_mem_erase hr') },
    hkeys, fun k hk hmem => hdisjoint k hk k hmem rfl⟩

/-- **What the rows of a repair are charged**: a completion and a row each,
and what is uncovered; never a slot. -/
theorem Sound.shareAt_row (h : c.Sound) {k : Key} {live : Live} (hk : c.entries[k]? = some live)
    (hrepair : live.repair = true) {p : TenantId → Bool} :
    c.shareAt p κ k = if p k.tenant then rowShare live.covered κ else 0 := by
  have hdropped : live.dropped = false := by
    cases hd : live.dropped with
    | false => rfl
    | true => exact absurd (h.dropped k live hk hd).2 (by simp [hrepair])
  have hdone := (h.loose k live hk (Or.inl hrepair)).1
  unfold shareAt
  rw [entryAt_of_get hk]
  unfold entryShare
  rw [hdone]
  cases κ <;> simp [Live.share, rowShare, hdropped, hrepair]

/-- The charge of all rows of a repair. -/
def rowsAt (c : Custody) (r : Repair) (kind : Kind) : ℕ :=
  (r.keys.map (c.shareAt everyone kind)).sum

theorem Sound.rowsAt_eq (h : c.Sound) (hr : r ∈ c.repairs) {p : TenantId → Bool} :
    (r.keys.map (c.shareAt p κ)).sum = if p r.tenant then c.rowsAt r κ else 0 := by
  have hentry := h.repair_entry r hr
  by_cases hp : p r.tenant = true
  · rw [if_pos hp]
    refine congrArg List.sum (List.map_congr_left (fun k hk => ?_))
    obtain ⟨htenant, live, hlive, hrepair⟩ := hentry k hk
    rw [h.shareAt_row hlive hrepair, h.shareAt_row hlive hrepair, htenant, if_pos hp, if_pos rfl]
  · rw [if_neg hp]
    refine List.sum_eq_zero (fun x hx => ?_)
    obtain ⟨k, hk, rfl⟩ := List.mem_map.mp hx
    obtain ⟨htenant, live, hlive, hrepair⟩ := hentry k hk
    rw [h.shareAt_row hlive hrepair, htenant, if_neg hp]

theorem Sound.rowsAt_active (h : c.Sound) (hr : r ∈ c.repairs) : c.rowsAt r .active = 0 := by
  refine List.sum_eq_zero (fun x hx => ?_)
  obtain ⟨k, hk, rfl⟩ := List.mem_map.mp hx
  obtain ⟨-, live, hlive, hrepair⟩ := h.repair_entry r hr k hk
  rw [h.shareAt_row hlive hrepair]
  simp [rowShare, Live.share]

theorem Sound.rowsAt_one (h : c.Sound) (hr : r ∈ c.repairs)
    (hkind : ∀ covered, rowShare covered κ = 1) : c.rowsAt r κ = r.keys.length := by
  have hone : r.keys.map (c.shareAt everyone κ) = r.keys.map (fun _ => 1) :=
    List.map_congr_left (fun k hk => by
      obtain ⟨-, live, hlive, hrepair⟩ := h.repair_entry r hr k hk
      rw [h.shareAt_row hlive hrepair, if_pos rfl, hkind])
  unfold rowsAt
  rw [hone, List.map_const', List.sum_replicate]
  exact Nat.mul_one _

end Custody

variable {n : ℕ}

namespace State

variable {s s' : State} {o : Held} {r : Repair} {committed : Bool}

/-- **The rows that may be finished** are counted without an overflow. -/
theorem repairUncovered_ok (hs : (custody s o).Sound) {keys : List Key}
    (hkeys : ∀ k ∈ keys, ∃ live : Live, s.executions[k]? = some live ∧ live.repair = true
      ∧ live.pending = false ∧ (committed = true → live.published = true))
    (hlt : (keys.map ((custody s o).shareAt everyone .uncovered)).sum < 2 ^ 64) :
    s.repairUncovered committed keys
      = .ok (keys.map ((custody s o).shareAt everyone .uncovered)).sum := by
  induction keys with
  | nil => rfl
  | cons k keys ih =>
    obtain ⟨⟨live, hlive, hrepair, hpending, hpublished⟩, hrest⟩ := List.forall_mem_cons.mp hkeys
    rw [List.map_cons, List.sum_cons] at hlt ⊢
    have hdone : (s.completions live.owner).done = false :=
      (hs.loose k live hlive (Or.inl hrepair)).1
    have hshare : (custody s o).shareAt everyone .uncovered k = (!live.covered).toNat := by
      rw [hs.shareAt_row hlive hrepair]
      rfl
    rw [hshare] at hlt ⊢
    refine bind_eq_ok.mpr ⟨live, orFail_eq_ok.mpr hlive, bind_eq_ok.mpr ⟨(), ?_,
      bind_eq_ok.mpr ⟨_, ih hrest (by omega), ?_⟩⟩⟩
    · exact ensure_eq_ok.mpr ⟨hrepair, hpending, hdone, hpublished⟩
    · exact orFail_eq_ok.mpr (Receipts.checkedAdd_of_lt hlt)

theorem repairUncovered_published {keys : List Key} (h : s.repairUncovered committed keys = .ok n)
    (hcommitted : committed = true) :
    ∀ k ∈ keys, ∀ live : Live, s.executions[k]? = some live → live.published = true := by
  induction keys generalizing n with
  | nil => simp
  | cons k keys ih =>
    unfold repairUncovered at h
    simp only [bind_eq_ok, ensure_eq_ok, orFail_eq_ok] at h
    obtain ⟨live, hlive, -, ⟨-, -, -, hpublished⟩, rest, hrest, -⟩ := h
    refine List.forall_mem_cons.mpr ⟨fun live' hlive' => ?_, ih hrest⟩
    obtain rfl := Option.some.inj (hlive.symm.trans hlive')
    exact hpublished hcommitted

theorem finishRepair_eq_ok (h : s.finishRepair r committed = .ok s') :
    s.publicationPending = none ∧ s.receipts.fenced = false
      ∧ (committed = true → (∀ k ∈ r.keys, ∀ live : Live, s.executions[k]? = some live →
          live.published = true) ∧ s.receipts.totals.bytes + r.charged < 2 ^ 64) := by
  unfold finishRepair at h
  simp only [bind_eq_ok, ensure_eq_ok, orFail_eq_ok] at h
  obtain ⟨-, ⟨hopen, hfence⟩, n, hn, _, -, _, -, _, -, totals, htotals, -⟩ := h
  refine ⟨hopen, hfence, fun hcommitted => ⟨repairUncovered_published hn hcommitted, ?_⟩⟩
  unfold releaseRepair at htotals
  simp only [bind_eq_ok, orFail_eq_ok, if_pos hcommitted, Receipts.checkedAdd_eq_some]
    at htotals
  obtain ⟨_, -, _, -, _, -, _, -, _, -, _, ⟨hbytes, -⟩, -⟩ := htotals
  exact hbytes

theorem releaseRepair_of_le {totals : Totals} {rows charged : ℕ} (hlive : rows ≤ totals.live)
    (hrows : rows ≤ totals.repairLive) (htotal : n ≤ totals.uncovered)
    (hreserved : charged ≤ totals.reserved) (hcharged : charged ≤ totals.repairReserved)
    (hbytes : committed = true → totals.bytes + charged < 2 ^ 64) :
    ∃ bytes, (committed = false → bytes = totals.bytes)
      ∧ releaseRepair totals rows charged n committed = .ok { totals with
          live := totals.live - rows, repairLive := totals.repairLive - rows
          uncovered := totals.uncovered - n, reserved := totals.reserved - charged
          repairReserved := totals.repairReserved - charged, bytes := bytes } := by
  have hfirst := orFail_eq_ok (e := ErrorCode.authorityUnavailable)
    |>.mpr (Receipts.checkedSub_of_le hlive)
  have hsecond := orFail_eq_ok (e := ErrorCode.authorityUnavailable)
    |>.mpr (Receipts.checkedSub_of_le hrows)
  have hthird := orFail_eq_ok (e := ErrorCode.authorityUnavailable)
    |>.mpr (Receipts.checkedSub_of_le htotal)
  have hfourth := orFail_eq_ok (e := ErrorCode.authorityUnavailable)
    |>.mpr (Receipts.checkedSub_of_le hreserved)
  have hfifth := orFail_eq_ok (e := ErrorCode.authorityUnavailable)
    |>.mpr (Receipts.checkedSub_of_le hcharged)
  cases committed with
  | false =>
    exact ⟨totals.bytes, fun _ => rfl, bind_eq_ok.mpr ⟨_, hfirst, bind_eq_ok.mpr ⟨_, hsecond,
      bind_eq_ok.mpr ⟨_, hthird, bind_eq_ok.mpr ⟨_, hfourth, bind_eq_ok.mpr ⟨_, hfifth,
        bind_eq_ok.mpr ⟨_, rfl, rfl⟩⟩⟩⟩⟩⟩⟩
  | true =>
    have hsixth := orFail_eq_ok (e := ErrorCode.authorityUnavailable)
      |>.mpr (Receipts.checkedAdd_of_lt (hbytes rfl))
    exact ⟨totals.bytes + charged, fun hfalse => absurd hfalse (by simp),
      bind_eq_ok.mpr ⟨_, hfirst, bind_eq_ok.mpr ⟨_, hsecond, bind_eq_ok.mpr ⟨_, hthird,
        bind_eq_ok.mpr ⟨_, hfourth, bind_eq_ok.mpr ⟨_, hfifth,
          bind_eq_ok.mpr ⟨_, hsixth, rfl⟩⟩⟩⟩⟩⟩⟩

/-- **A repair is finished without an underflow** where the counters are large
enough. -/
theorem finishRepair_of_le {c : Counts} (hopen : s.publicationPending = none)
    (hfence : s.receipts.fenced = false) (hn : s.repairUncovered committed r.keys = .ok n)
    (hget : s.tenants[r.tenant]? = some c) (hrepairs : r.keys.length ≤ c.repairs)
    (huncovered : n ≤ c.uncovered) (hlive : r.keys.length ≤ s.receipts.totals.live)
    (hrows : r.keys.length ≤ s.receipts.totals.repairLive)
    (htotal : n ≤ s.receipts.totals.uncovered)
    (hreserved : r.charged ≤ s.receipts.totals.reserved)
    (hcharged : r.charged ≤ s.receipts.totals.repairReserved)
    (hbytes : committed = true → s.receipts.totals.bytes + r.charged < 2 ^ 64) :
    ∃ bytes, s.finishRepair r committed = .ok
      (({ s with
          executions := r.keys.foldl Std.TreeMap.erase s.executions
          receipts := { s.receipts with totals := { s.receipts.totals with
            live := s.receipts.totals.live - r.keys.length
            repairLive := s.receipts.totals.repairLive - r.keys.length
            uncovered := s.receipts.totals.uncovered - n
            reserved := s.receipts.totals.reserved - r.charged
            repairReserved := s.receipts.totals.repairReserved - r.charged
            bytes := bytes } } }.setCounts r.tenant
        { c with repairs := c.repairs - r.keys.length, uncovered := c.uncovered - n }).idle
          r.tenant) := by
  obtain ⟨bytes, -, htotals⟩ := releaseRepair_of_le hlive hrows htotal hreserved hcharged hbytes
  refine ⟨bytes, ?_⟩
  exact bind_eq_ok.mpr ⟨(), ensure_eq_ok.mpr ⟨hopen, hfence⟩, bind_eq_ok.mpr ⟨n, hn,
    bind_eq_ok.mpr ⟨c, orFail_eq_ok.mpr hget,
    bind_eq_ok.mpr ⟨_, orFail_eq_ok.mpr (Receipts.checkedSub_of_le hrepairs),
    bind_eq_ok.mpr ⟨_, orFail_eq_ok.mpr (Receipts.checkedSub_of_le huncovered),
    bind_eq_ok.mpr ⟨_, htotals, rfl⟩⟩⟩⟩⟩⟩

end State

theorem sum_mul_le {α : Type} {f g : α → ℕ} {l : List α} (h : ∀ x ∈ l, f x * n ≤ g x) :
    (l.map f).sum * n ≤ (l.map g).sum := by
  induction l with
  | nil => simp
  | cons x l ih =>
    obtain ⟨hx, hl⟩ := List.forall_mem_cons.mp h
    rw [List.map_cons, List.map_cons, List.sum_cons, List.sum_cons, Nat.add_mul]
    exact Nat.add_le_add hx (ih hl)

/-- **The rows of a finished repair are taken off again**, and nothing else. -/
theorem Charged.finished {counts counts' : TenantId → Counts} {slots : ℕ} {totals : Totals}
    {c c' : Custody} {r : Repair} {share : Kind → ℕ} (h : Charged counts slots totals c) (bytes : ℕ)
    (hcounts : ∀ u, counts' u = if u = r.tenant then
      { counts r.tenant with
        repairs := (counts r.tenant).repairs - r.keys.length
        uncovered := (counts r.tenant).uncovered - share .uncovered }
      else counts u)
    (hload : ∀ p κ, c'.load p κ + (if p r.tenant then share κ else 0) = c.load p κ)
    (hr : r ∈ c.repairs) (hrepairs : c'.repairs = c.repairs.erase r) (hactive : share .active = 0)
    (hlive : share .live = r.keys.length) (hrepair : share .repair = r.keys.length) :
    Charged counts' slots
      { totals with
        live := totals.live - r.keys.length
        repairLive := totals.repairLive - r.keys.length
        uncovered := totals.uncovered - share .uncovered
        reserved := totals.reserved - r.charged
        repairReserved := totals.repairReserved - r.charged
        bytes := bytes } c' := by
  have hone : ∀ κ, c'.load (only r.tenant) κ = c.load (only r.tenant) κ - share κ := fun κ => by
    have := hload (only r.tenant) κ
    rw [if_pos (by simp)] at this
    omega
  have hnone : ∀ u, u ≠ r.tenant → ∀ κ, c'.load (only u) κ = c.load (only u) κ := by
    intro u hu κ
    have := hload (only u) κ
    rwa [if_neg (by simpa using Ne.symm hu), Nat.add_zero] at this
  have hall : ∀ κ, c'.load everyone κ = c.load everyone κ - share κ := fun κ => by
    have := hload everyone κ
    rw [if_pos rfl] at this
    omega
  have hperm := List.perm_cons_erase hr
  have hcharge := h.repairReserved.trans (hperm.map Repair.charged).sum_eq
  have hcount := h.repairRows.trans (hperm.map (fun r => r.keys.length)).sum_eq
  rw [List.map_cons, List.sum_cons] at hcharge hcount
  exact
    { active := fun u => by
        rw [hcounts]
        split
        · next heq => rw [heq, hone, hactive]; exact h.active r.tenant
        · next hu => rw [hnone u hu]; exact h.active u
      uncovered := fun u => by
        rw [hcounts]
        split
        · next heq => rw [heq, hone]; exact congrArg (· - _) (h.uncovered r.tenant)
        · next hu => rw [hnone u hu]; exact h.uncovered u
      repairs := fun u => by
        rw [hcounts]
        split
        · next heq => rw [heq, hone, hrepair]; exact congrArg (· - _) (h.repairs r.tenant)
        · next hu => rw [hnone u hu]; exact h.repairs u
      allActive := by rw [hall, hactive]; exact h.allActive
      allUncovered := by rw [hall]; exact congrArg (· - _) h.allUncovered
      allLive := by rw [hall, hlive]; exact congrArg (· - _) h.allLive
      allRepairs := by rw [hall, hrepair]; exact congrArg (· - _) h.allRepairs
      reserved := by
        have hreserved := h.reserved
        show totals.reserved - r.charged
          = (totals.live - r.keys.length - (totals.repairLive - r.keys.length)) * reservation
            + (totals.repairReserved - r.charged)
        rw [show totals.live - r.keys.length - (totals.repairLive - r.keys.length)
          = totals.live - totals.repairLive by omega]
        generalize (totals.live - totals.repairLive) * reservation = base at hreserved ⊢
        omega
      repairReserved := by
        rw [hrepairs]
        show totals.repairReserved - r.charged = _
        omega
      repairRows := by
        rw [hrepairs]
        show totals.repairLive - r.keys.length = _
        omega
      charged := fun r' hr' => h.charged r' (List.mem_of_mem_erase (hrepairs ▸ hr')) }

namespace Kept

variable {w : World}

/-- The reservations are within sixty-four bits, so the completions are. -/
theorem live_lt (h : Kept w) : w.state.receipts.totals.live < 2 ^ 64 := by
  have hc := h.books.charged
  have hrows : w.state.receipts.totals.repairLive * rowOverhead
      ≤ w.state.receipts.totals.repairReserved := by
    rw [hc.repairRows, hc.repairReserved]
    exact sum_mul_le (fun r hr => (hc.charged r hr).2)
  have hreserved := hc.reserved
  have hbound := h.bounded.reserved
  have hle : w.state.receipts.totals.repairLive ≤ w.state.receipts.totals.repairReserved :=
    le_trans (Nat.le_mul_of_pos_right _ (by decide)) hrows
  have hlive : w.state.receipts.totals.live - w.state.receipts.totals.repairLive
      ≤ (w.state.receipts.totals.live - w.state.receipts.totals.repairLive) * reservation :=
    Nat.le_mul_of_pos_right _ (by decide)
  omega

/-- **The rows of a repair are no more than what is counted**, so every
subtraction of `finishRepair` goes through. -/
theorem finishRepair_counted (h : Kept w) {r : Repair} (hr : r ∈ w.held.repairs)
    {committed : Bool} (hopen : w.state.publicationPending = none)
    (hfence : w.state.receipts.fenced = false)
    (hpublished : committed = true → ∀ k ∈ r.keys, ∀ live : Live,
      w.state.executions[k]? = some live → live.published = true)
    (hbytes : committed = true → w.state.receipts.totals.bytes + r.charged < 2 ^ 64)
    {c' : Custody} (hload : ∀ p κ, c'.load p κ
        + (if p r.tenant then (custody w.state w.held).rowsAt r κ else 0)
      = (custody w.state w.held).load p κ) :
    ∃ bytes, w.state.finishRepair r committed = .ok
      (({ w.state with
          executions := r.keys.foldl Std.TreeMap.erase w.state.executions
          receipts := { w.state.receipts with totals := { w.state.receipts.totals with
            live := w.state.receipts.totals.live - r.keys.length
            repairLive := w.state.receipts.totals.repairLive - r.keys.length
            uncovered := w.state.receipts.totals.uncovered
              - (custody w.state w.held).rowsAt r .uncovered
            reserved := w.state.receipts.totals.reserved - r.charged
            repairReserved := w.state.receipts.totals.repairReserved - r.charged
            bytes := bytes } } }.setCounts r.tenant
        { w.state.counts r.tenant with
          repairs := (w.state.counts r.tenant).repairs - r.keys.length
          uncovered := (w.state.counts r.tenant).uncovered
            - (custody w.state w.held).rowsAt r .uncovered }).idle r.tenant) := by
  have hs := h.sound
  have hc := h.books.charged
  set c := custody w.state w.held
  have hmem : r ∈ c.repairs := hr
  have hone : ∀ κ, c.rowsAt r κ ≤ c.load (only r.tenant) κ := fun κ => by
    have := hload (only r.tenant) κ
    rw [if_pos (by simp)] at this
    omega
  have hall : ∀ κ, c.rowsAt r κ ≤ c.load everyone κ := fun κ => by
    have := hload everyone κ
    rw [if_pos rfl] at this
    omega
  have hlive : c.rowsAt r .live = r.keys.length := hs.rowsAt_one hmem (fun _ => rfl)
  have hrepair : c.rowsAt r .repair = r.keys.length := hs.rowsAt_one hmem (fun _ => rfl)
  have hcounted : w.state.repairUncovered committed r.keys = .ok (c.rowsAt r .uncovered) := by
    refine State.repairUncovered_ok hs (fun k hk => ?_) ?_
    · obtain ⟨-, live, hget, hrep⟩ := hs.repair_entry r hmem k hk
      exact ⟨live, hget, hrep, (h.publication_none hopen).2 k live hget,
        fun hcom => hpublished hcom k hk live hget⟩
    · calc c.rowsAt r .uncovered
          ≤ c.load everyone .uncovered := hall .uncovered
        _ ≤ c.load everyone .live := Custody.load_uncovered_le_live
        _ = w.state.receipts.totals.live := hc.allLive.symm
        _ < 2 ^ 64 := h.live_lt
  have hpos : 0 < r.keys.length := List.length_pos_iff.mpr (hc.charged r hmem).1
  have hself : r.keys.length ≤ (w.state.counts r.tenant).repairs :=
    hrepair ▸ hc.repairs r.tenant ▸ hone .repair
  have hget : w.state.tenants[r.tenant]? = some (w.state.counts r.tenant) := by
    refine State.get_of_counts_ne (fun heq => ?_)
    rw [heq] at hself
    exact absurd hself (Nat.not_le.mpr hpos)
  have hcharge : r.charged ≤ w.state.receipts.totals.repairReserved := by
    rw [hc.repairReserved, ((List.perm_cons_erase hmem).map Repair.charged).sum_eq,
      List.map_cons, List.sum_cons]
    exact Nat.le_add_right _ _
  have hreserved : w.state.receipts.totals.repairReserved ≤ w.state.receipts.totals.reserved := by
    rw [hc.reserved]
    exact Nat.le_add_left _ _
  exact State.finishRepair_of_le hopen hfence hcounted hget hself
    (hc.uncovered r.tenant ▸ hone .uncovered) (hlive ▸ hc.allLive ▸ hall .live)
    (hrepair ▸ hc.allRepairs ▸ hall .repair) (hc.allUncovered ▸ hall .uncovered)
    (hcharge.trans hreserved) hcharge hbytes

/-- **A repair that may be finished is finished.** It only needs no publication
pending, its rows published where it has been committed, and room for its
bytes. -/
theorem finishRepair_ok (h : Kept w) {r : Repair} (hr : r ∈ w.held.repairs) {committed : Bool}
    (hopen : w.state.publicationPending = none) (hfence : w.state.receipts.fenced = false)
    (hpublished : committed = true → ∀ k ∈ r.keys, ∀ live : Live,
      w.state.executions[k]? = some live → live.published = true)
    (hbytes : committed = true → w.state.receipts.totals.bytes + r.charged < 2 ^ 64) :
    ∃ s', w.state.finishRepair r committed = .ok s' ∧ s'.receipts.fenced = false
      ∧ Kept { w with
          state := s', held := { w.held with repairs := w.held.repairs.erase r } } := by
  have hmem : r ∈ (custody w.state w.held).repairs := hr
  obtain ⟨habandoned, hnodup, hfree⟩ := h.sound.abandon hmem
  obtain ⟨hsound, hleft, hsub⟩ := habandoned.leaveAll hnodup
    (fun k hk => ⟨(h.sound.repair_entry r hmem k hk).2, hfree k hk⟩)
  have hload : ∀ p κ, _ + (if p r.tenant then (custody w.state w.held).rowsAt r κ else 0)
      = (custody w.state w.held).load p κ := fun p κ => h.sound.rowsAt_eq hmem ▸ hleft p κ
  obtain ⟨bytes, hok⟩ := h.finishRepair_counted hr hopen hfence hpublished hbytes hload
  set c := custody w.state w.held
  set s₁ := { w.state with
      executions := r.keys.foldl Std.TreeMap.erase w.state.executions
      receipts := { w.state.receipts with totals := { w.state.receipts.totals with
        live := w.state.receipts.totals.live - r.keys.length
        repairLive := w.state.receipts.totals.repairLive - r.keys.length
        uncovered := w.state.receipts.totals.uncovered - c.rowsAt r .uncovered
        reserved := w.state.receipts.totals.reserved - r.charged
        repairReserved := w.state.receipts.totals.repairReserved - r.charged
        bytes := bytes } } }.setCounts r.tenant
    { w.state.counts r.tenant with
      repairs := (w.state.counts r.tenant).repairs - r.keys.length
      uncovered := (w.state.counts r.tenant).uncovered - c.rowsAt r .uncovered }
  have hcounts : ∀ u, s₁.counts u = if u = r.tenant then
      { w.state.counts r.tenant with
        repairs := (w.state.counts r.tenant).repairs - r.keys.length
        uncovered := (w.state.counts r.tenant).uncovered - c.rowsAt r .uncovered }
      else w.state.counts u := fun u => State.counts_setCounts
  have hcharged := h.books.charged.finished bytes hcounts hload hmem rfl
    (h.sound.rowsAt_active hmem) (h.sound.rowsAt_one hmem (fun _ => rfl))
    (h.sound.rowsAt_one hmem (fun _ => rfl))
  have hkept : Kept { w with
      state := s₁, held := { w.held with repairs := w.held.repairs.erase r } } :=
    h.recharged rfl hcounts (le_refl _) hsound hcharged
      (lt_of_le_of_lt (Nat.sub_le _ _) h.bounded.reserved) rfl hopen
      (fun k live hk => (h.publication_none hopen).2 k live (hsub k live hk))
  refine ⟨_, hok, ?_, hkept.idle r.tenant⟩
  rw [State.idle_eq]
  exact hfence

/-- **A finished repair keeps the invariant.** -/
theorem finishRepair (h : Kept w) {r : Repair} (hr : r ∈ w.held.repairs) {committed : Bool}
    {s' : State} (hf : w.state.finishRepair r committed = .ok s') :
    Kept { w with
      state := s', held := { w.held with repairs := w.held.repairs.erase r } } := by
  obtain ⟨hopen, hfence, hcommitted⟩ := State.finishRepair_eq_ok hf
  obtain ⟨s'', hok, -, hkept⟩ := h.finishRepair_ok hr hopen hfence
    (fun hc => (hcommitted hc).1) (fun hc => (hcommitted hc).2)
  obtain rfl := Except.ok.inj (hok.symm.trans hf)
  exact hkept

end Kept

end BitRouter.Admission
