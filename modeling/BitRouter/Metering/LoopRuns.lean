import BitRouter.Metering.LoopSound
import Mathlib.Tactic.IntervalCases

/-!
# Runs of reconciliation loops

Loops run one at a time over one store, with ordinary settlements between any two
of their operations. Whatever is written, no row is fetched more often than the
bound, a loop that is driven ends, and a row that is computed from prices carries
the charge of its receipt.

What does not hold is that a settled row stays as it is: the ordinary settlement
writes the charge of a row without a look at its status. So the settled rows are
kept in exactly the runs that write no other charge over them (`Run.kept_iff`).
-/

namespace BitRouter.Metering

variable {B : Billing} {M : ℕ} {rows rows' : Rows} {w w' : World} {batch : Batch} {stage : Stage}
variable {records : List ReconciliationRecord} {id : String}

/-! ## The effort that is left -/

/-- How often a row may still change its status. A row that is not there may be
written as any. -/
def rankAt (M : ℕ) (rows : Rows) (requestId : String) : ℕ :=
  ((statusAt rows requestId).map (rank M)).getD (2 * M + 2)

def backlog (M : ℕ) (rows : Rows) (requestIds : List String) : ℕ :=
  (requestIds.map (rankAt M rows)).sum

/-- **The effort that is left to a loop.** A change of a status is worth a whole
pass over the batch. -/
def effort (M : ℕ) (rows : Rows) (batch : Batch) : Stage → ℕ
  | .reading => backlog M rows batch.requestIds * (3 * batch.requestIds.length + 3)
      + 3 * batch.requestIds.length + 2
  | .working records progressed =>
      (backlog M rows batch.requestIds + progressed.toNat) * (3 * batch.requestIds.length + 3)
      + 3 * records.length + 1
  | .fetching _ _ records =>
      (backlog M rows batch.requestIds + 2) * (3 * batch.requestIds.length + 3)
      + 3 * records.length + 3
  | .exhausting _ records =>
      (backlog M rows batch.requestIds + 2) * (3 * batch.requestIds.length + 3)
      + 3 * records.length + 2
  | .ended _ => 0

theorem rankAt_of_status {p : ReconciliationStatus × ℕ} (h : statusAt rows id = some p) :
    rankAt M rows id = rank M p := by
  rw [rankAt, h]
  rfl

theorem rank_le_fresh (s : ReconciliationStatus) : rank M (s, 0) ≤ 2 * M + 2 := by
  cases s <;> simp only [rank] <;> grind

variable {record : RequestMetric}

theorem rankAt_recordRequest_le (j : String) :
    rankAt M (recordRequest rows record) j ≤ rankAt M rows j := by
  rcases statusAt_recordRequest rows record j with hsame | ⟨hnone, hnew⟩
  · rw [rankAt, hsame, rankAt]
  · rw [rankAt_of_status hnew, rankAt, hnone]
    exact rank_le_fresh record.reconciliationStatus

/-- **No write adds effort.** -/
theorem effort_recordRequest_le :
    effort M (recordRequest rows record) batch stage ≤ effort M rows batch stage := by
  have hbacklog : backlog M (recordRequest rows record) batch.requestIds
      ≤ backlog M rows batch.requestIds :=
    List.sum_le_sum fun j _ => rankAt_recordRequest_le j
  cases stage <;> simp only [effort] <;> gcongr

theorem RowMoves.backlog {s s' : ReconciliationStatus} {a a' : ℕ}
    (h : RowMoves rows rows' id s s' a a') {ids : List String} (hid : id ∈ ids) (hids : ids.Nodup) :
    backlog M rows' ids + rank M (s, a) = backlog M rows ids + rank M (s', a') := by
  induction ids with
  | nil => cases hid
  | cons j ids ih =>
    obtain ⟨hj, hids⟩ := List.nodup_cons.mp hids
    have hcons : ∀ rows, Metering.backlog M rows (j :: ids)
        = rankAt M rows j + Metering.backlog M rows ids := fun _ => List.sum_cons
    rw [hcons, hcons]
    by_cases hhead : j = id
    · -- the others of the list stay as they are
      have hrest : Metering.backlog M rows' ids = Metering.backlog M rows ids := by
        refine congrArg List.sum (List.map_congr_left fun k hk => ?_)
        have hother : k ≠ id := fun hk' => hj (hhead ▸ hk' ▸ hk)
        rw [rankAt, h.statusAt_other hother, rankAt]
      rw [hrest, hhead, rankAt_of_status h.after, rankAt_of_status h.before]
      omega
    · have hmem := (List.mem_cons.mp hid).resolve_left fun heq => hhead heq.symm
      have hih := ih hmem hids
      rw [rankAt, h.statusAt_other hhead, ← rankAt]
      omega

theorem rank_pending (a : ℕ) : rank M (.pending, a) = 2 * (M - a) + 1 := rfl

theorem rank_le_pending_succ (s : ReconciliationStatus) (a : ℕ) :
    rank M (s, a) ≤ rank M (.pending, a) + 1 := by
  cases s <;> simp only [rank] <;> grind

theorem rank_unknown_spent {a : ℕ} (h : M ≤ a) : rank M (.unknown, a) = 0 :=
  if_neg (Nat.not_lt.mpr h)

/-- An answer that is settled may leave one more change of the row, and the fetch
has been worth two. -/
theorem effort_settled {a a' : ℕ} {s : ReconciliationStatus}
    (hcurrent : Current rows batch (⟨id, .pending, a⟩ :: records))
    (hmoves : RowMoves rows rows' id .pending s a a) :
    effort M rows' batch (.working records true)
      < effort M rows batch (.fetching id a' records) := by
  have hless : backlog M rows' batch.requestIds ≤ backlog M rows batch.requestIds + 1 := by
    have hbacklog : backlog M rows' batch.requestIds + rank M (.pending, a)
      = backlog M rows batch.requestIds + rank M (s, a) :=
        hmoves.backlog hcurrent.mem hcurrent.ids
    have hrank := rank_le_pending_succ (M := M) s a
    omega
  have hmul := Nat.mul_le_mul_right (3 * batch.requestIds.length + 3) hless
  simp only [effort, Bool.toNat_true, Nat.add_mul] at hmul ⊢
  omega

/-- **Each move lowers the effort that is left.** -/
theorem LoopStep.effort {event : Event} (hstep : LoopStep B M batch w event stage w')
    (hrunning : stage.Running) (hknows : Knows M w.rows batch stage) :
    ∃ stage', w'.loop = some (batch, stage') ∧
      effort M w'.rows batch stage' < effort M w.rows batch stage := by
  -- a row of the batch that moves changes the backlog by its own rank
  have hmoved : ∀ {rows' : Rows} {record : ReconciliationRecord} {s : ReconciliationStatus} {a : ℕ}
      {records : List ReconciliationRecord}, Current w.rows batch (record :: records) →
      RowMoves w.rows rows' record.requestId record.status s record.attempts a →
      backlog M rows' batch.requestIds + rank M (record.status, record.attempts)
        = backlog M w.rows batch.requestIds + rank M (s, a) :=
    fun hcurrent hmoves => hmoves.backlog hcurrent.mem hcurrent.ids
  cases hstep with
  | fail stage error =>
    refine ⟨_, rfl, ?_⟩
    cases stage with
    | ended result => exact absurd rfl (hrunning result)
    | reading => exact Nat.succ_pos _
    | working records progressed => exact Nat.succ_pos _
    | fetching id a records => exact Nat.succ_pos _
    | exhausting id records => exact Nat.succ_pos _
  | read hlength =>
    refine ⟨_, rfl, ?_⟩
    simp only [Metering.effort, hlength, Bool.toNat_false, Nat.add_zero]
    exact Nat.lt_succ_self _
  | finish progressed hdone => exact ⟨_, rfl, Nat.succ_pos _⟩
  | again =>
    refine ⟨_, rfl, ?_⟩
    simp only [Metering.effort, Bool.toNat_true, Nat.add_mul, List.length_nil]
    omega
  | skip record records progressed =>
    refine ⟨_, rfl, ?_⟩
    simp only [Metering.effort, List.length_cons]
    omega
  | move record records progressed rows' s hmoves hunsettled hrank =>
    refine ⟨_, rfl, ?_⟩
    have hless : backlog M rows' batch.requestIds + 1 ≤ backlog M w.rows batch.requestIds := by
      have hbacklog := hmoved hknows hmoves
      omega
    have hmul := Nat.mul_le_mul_right (3 * batch.requestIds.length + 3) hless
    simp only [Metering.effort, List.length_cons, Bool.toNat_true, Nat.add_mul] at hmul ⊢
    omega
  | fetch id a records progressed rows' ha hmoves =>
    refine ⟨_, rfl, ?_⟩
    have hless : backlog M rows' batch.requestIds + 2 = backlog M w.rows batch.requestIds := by
      have hbacklog : backlog M rows' batch.requestIds + rank M (.pending, a)
        = backlog M w.rows batch.requestIds + rank M (.pending, a + 1) := hmoved hknows hmoves
      rw [rank_pending, rank_pending] at hbacklog
      omega
    have hmul := congrArg (· * (3 * batch.requestIds.length + 3)) hless
    simp only [Metering.effort, List.length_cons, Nat.add_mul] at hmul ⊢
    omega
  | defer id a records rows' s hmoves =>
    exact ⟨_, rfl, effort_settled hknows hmoves⟩
  | apply receipt a records rows' s hmoves =>
    exact ⟨_, rfl, effort_settled hknows hmoves⟩
  | miss id a records rows' ha hmoves =>
    refine ⟨_, rfl, ?_⟩
    have hbacklog := hmoved hknows hmoves
    rw [Nat.add_right_cancel_iff] at hbacklog
    simp only [Metering.effort, hbacklog]
    omega
  | exhaust id a records rows' ha hmoves =>
    refine ⟨_, rfl, ?_⟩
    obtain ⟨a', ha', hcurrent⟩ := hknows
    have hattempts := hmoves.before.symm.trans hcurrent.head
    obtain rfl : a = a' := (Prod.mk.inj (Option.some.inj hattempts)).2
    have hless : backlog M rows' batch.requestIds + 1 = backlog M w.rows batch.requestIds := by
      have hbacklog := hmoved hcurrent hmoves
      rw [rank_pending, rank_unknown_spent ha, Nat.sub_eq_zero_of_le ha] at hbacklog
      omega
    have hmul := congrArg (· * (3 * batch.requestIds.length + 3)) hless
    simp only [Metering.effort, Bool.toNat_true, Nat.add_mul] at hmul ⊢
    omega

/-! ## Settled rows -/

theorem RowMoves.settled {s s' : ReconciliationStatus} {a a' : ℕ}
    (h : RowMoves rows rows' id s s' a a') {j : String} {row : RequestRow}
    (hrow : rows[j]? = some row) (hsettled : row.reconciliationStatus.Settled) :
    rows'[j]? = some row := by
  have hother : j ≠ id := by
    rintro rfl
    have hbefore := (statusAt_of_row hrow).symm.trans h.before
    exact h.unsettled ((Prod.mk.inj (Option.some.inj hbefore)).1 ▸ hsettled)
  rw [h.others j hother, hrow]

/-- **A loop leaves settled rows alone.** -/
theorem LoopStep.settled {event : Event} (hstep : LoopStep B M batch w event stage w')
    {row : RequestRow} (hrow : w.rows[id]? = some row)
    (hsettled : row.reconciliationStatus.Settled) : w'.rows[id]? = some row := by
  cases hstep with
  | fail | read | finish | again | skip => exact hrow
  | move _ _ _ _ _ hmoves => exact hmoves.settled hrow hsettled
  | fetch _ _ _ _ _ _ hmoves => exact hmoves.settled hrow hsettled
  | defer _ _ _ _ _ hmoves => exact hmoves.settled hrow hsettled
  | apply _ _ _ _ _ hmoves => exact hmoves.settled hrow hsettled
  | miss _ _ _ _ _ hmoves => exact hmoves.settled hrow hsettled
  | exhaust _ _ _ _ _ hmoves => exact hmoves.settled hrow hsettled

theorem recordRequest_of_row {row : RequestRow} (hrow : rows[record.requestId]? = some row) :
    (recordRequest rows record)[record.requestId]? = some { row with
      providerId := record.providerId, modelId := record.modelId, charge := record.charge } := by
  rw [recordRequest, hrow, StrMap.getElem?_insert, if_pos rfl]

theorem recordRequest_other (hid : record.requestId ≠ id) :
    (recordRequest rows record)[id]? = rows[id]? := by
  unfold recordRequest
  split <;> rw [StrMap.getElem?_insert, if_neg hid]

/-- **A row that becomes computed** is that of the receipt that was received. -/
theorem LoopStep.computed {event : Event} (hstep : LoopStep B M batch w event stage w')
    {row row' : RequestRow} (hrow : w.rows[id]? = some row) (hrow' : w'.rows[id]? = some row')
    (hbefore : row.reconciliationStatus ≠ .computed)
    (hafter : row'.reconciliationStatus = .computed) :
    ∃ receipt, event = .receive (.ok receipt) ∧ receipt.requestId = id ∧
      (batch.acceptReceiptCharge = false → Reconstructed B batch.prices receipt row row') := by
  -- the row that moves is this one, and it comes to be computed
  have hmoved : ∀ {rows' : Rows} {j : String} {s s' : ReconciliationStatus} {a a' : ℕ},
      RowMoves w.rows rows' j s s' a a' → rows'[id]? = some row' → id = j ∧ s' = .computed := by
    intro rows' j s s' a a' hmoves hrow'
    by_cases hid : id = j
    · subst hid
      have hstatus := hmoves.after.symm.trans (statusAt_of_row hrow')
      exact ⟨rfl, (Prod.mk.inj (Option.some.inj hstatus)).1.trans hafter⟩
    · rw [hmoves.others id hid, hrow] at hrow'
      exact absurd (Option.some.inj hrow' ▸ hafter) hbefore
  cases hstep with
  | fail | read | finish | again | skip =>
    exact absurd (Option.some.inj (hrow.symm.trans hrow') ▸ hafter) hbefore
  | move _ _ _ _ _ hmoves hunsettled =>
    exact absurd (.inl (hmoved hmoves hrow').2) hunsettled
  | fetch _ _ _ _ _ _ hmoves => cases (hmoved hmoves hrow').2
  | defer _ _ _ _ _ hmoves hunsettled =>
    exact absurd (.inl (hmoved hmoves hrow').2) hunsettled
  | miss _ _ _ _ _ hmoves => cases (hmoved hmoves hrow').2
  | exhaust _ _ _ _ _ hmoves => cases (hmoved hmoves hrow').2
  | apply receipt _ _ _ _ hmoves hok hevent =>
    obtain ⟨hid, rfl⟩ := hmoved hmoves hrow'
    subst hid
    refine ⟨receipt, hevent, rfl, fun haccept => ?_⟩
    rw [haccept] at hok
    obtain ⟨applied, happlied, hreconstructed⟩ := reconstructed_of_apply hrow hok
    exact Option.some.inj (happlied.symm.trans hrow') ▸ hreconstructed

/-! ## Runs -/

/-- **A run**: it begins between two loops, and each event steps it. -/
structure Run (B : Billing) (M : ℕ) (worlds : ℕ → World) (events : ℕ → Event) : Prop where
  idle : (worlds 0).loop = none
  unfetched : ∀ id, (worlds 0).fetches id = 0
  step : ∀ n, worlds (n + 1) = (worlds n).step B M (events n)

/-- A loop that runs is driven again and again. -/
def Driven (worlds : ℕ → World) (events : ℕ → Event) : Prop :=
  ∀ n, ∃ m ≥ n, ∀ batch stage, (worlds m).loop = some (batch, stage) → stage.Running →
    stage.Awaits (events m)

/-- What a bill is drawn from. -/
def ChargeColumns.billed (charge : ChargeColumns) :
    TokenColumns × ChargeStatus × Option (ChargeEvidence FrozenTariff) × ℤ :=
  (charge.tokens, charge.chargeStatus, charge.chargeEvidence, charge.estimatedChargeMicroUsd)

/-- **Settled rows are kept**, with what they bill. -/
def Kept (worlds : ℕ → World) : Prop :=
  ∀ (n : ℕ) (id : String) (row : RequestRow), (worlds n).rows[id]? = some row →
    row.reconciliationStatus.Settled → ∀ m ≥ n, ∃ row' : RequestRow,
      (worlds m).rows[id]? = some row' ∧ row'.reconciliationStatus = row.reconciliationStatus
      ∧ row'.charge.billed = row.charge.billed

def Unaltered (worlds : ℕ → World) (events : ℕ → Event) : Prop :=
  ∀ (n : ℕ) (record : RequestMetric) (row : RequestRow), events n = .write record →
    (worlds n).rows[record.requestId]? = some row → row.reconciliationStatus.Settled →
      record.charge.billed = row.charge.billed

section Runs

variable {worlds : ℕ → World} {events : ℕ → Event}

theorem Run.sound (hrun : Run B M worlds events) (hsmall : M ≤ 2147483647) (n : ℕ) :
    Sound M (worlds n) := by
  induction n with
  | zero =>
    refine ⟨fun batch stage hloop => ?_, fun id => ?_, fun id => ?_⟩
    · rw [hrun.idle] at hloop
      cases hloop
    · rw [hrun.unfetched]
      exact Nat.zero_le _
    · rw [hrun.unfetched]
      exact Nat.zero_le _
  | succ n ih =>
    rw [hrun.step]
    exact ih.step hsmall _

theorem Run.outcome (hrun : Run B M worlds events) (hsmall : M ≤ 2147483647) (n : ℕ) :
    Outcome B M (worlds n) (events n) (worlds (n + 1)) := by
  rw [hrun.step]
  exact outcome_step hsmall (hrun.sound hsmall n) _

theorem Outcome.settled {event : Event} (h : Outcome B M w event w') {row : RequestRow}
    (hrow : w.rows[id]? = some row) (hsettled : row.reconciliationStatus.Settled) :
    w'.rows[id]? = some row ∨ ∃ record, event = .write record ∧ record.requestId = id ∧
      w'.rows[id]? = some { row with
        providerId := record.providerId, modelId := record.modelId, charge := record.charge } := by
  cases h with
  | idle => exact .inl hrow
  | begin => exact .inl hrow
  | move batch stage event w' hloop hawaits hstep => exact .inl (hstep.settled hrow hsettled)
  | write record =>
    by_cases hid : record.requestId = id
    · subst hid
      exact .inr ⟨record, rfl, rfl, recordRequest_of_row hrow⟩
    · exact .inl ((recordRequest_other hid).trans hrow)

/-- **Settled rows are kept in exactly the runs that do not write over them.** -/
theorem Run.kept_iff (hrun : Run B M worlds events) (hsmall : M ≤ 2147483647) :
    Kept worlds ↔ Unaltered worlds events := by
  constructor
  · intro hkept n record row hevent hrow hsettled
    obtain ⟨row', hrow', -, hbilled⟩ := hkept n _ row hrow hsettled (n + 1) (Nat.le_succ n)
    have hwritten : (worlds (n + 1)).rows = recordRequest (worlds n).rows record := by
      rw [hrun.step, hevent]
      rfl
    rw [hwritten, recordRequest_of_row hrow] at hrow'
    obtain rfl := Option.some.inj hrow'
    exact hbilled
  · intro hunaltered n id row hrow hsettled m hm
    induction m, hm using Nat.le_induction with
    | base => exact ⟨row, hrow, rfl, rfl⟩
    | succ m hm ih =>
      obtain ⟨row', hrow', hstatus, hbilled⟩ := ih
      have hsettled' : row'.reconciliationStatus.Settled := hstatus ▸ hsettled
      rcases (hrun.outcome hsmall m).settled hrow' hsettled' with hsame
        | ⟨record, hevent, rfl, hnew⟩
      · exact ⟨row', hsame, hstatus, hbilled⟩
      · exact ⟨_, hnew, hstatus, (hunaltered m record row' hevent hrow' hsettled').trans hbilled⟩

/-- One event, for a loop that runs: it is awaited and lowers the effort, or it
leaves the loop. -/
theorem Outcome.effort {event : Event} (h : Outcome B M w event w')
    (hloop : w.loop = some (batch, stage)) (hrunning : stage.Running)
    (hknows : Knows M w.rows batch stage) :
    (∃ stage', w'.loop = some (batch, stage') ∧
      effort M w'.rows batch stage' < effort M w.rows batch stage) ∨
    (¬ stage.Awaits event ∧ w'.loop = some (batch, stage) ∧
      effort M w'.rows batch stage ≤ effort M w.rows batch stage) := by
  cases h with
  | idle event hidle => exact .inr ⟨hidle batch stage hloop, hloop, le_rfl⟩
  | begin other hfree => exact absurd hrunning (hfree batch stage hloop)
  | write record => exact .inr ⟨not_awaits_write, hloop, effort_recordRequest_le⟩
  | move batch' stage' event w' hloop' hawaits hstep =>
    obtain ⟨rfl, rfl⟩ := Prod.mk.inj (Option.some.inj (hloop.symm.trans hloop'))
    exact .inl (hstep.effort hrunning hknows)

theorem Run.descends (hrun : Run B M worlds events) (hsmall : M ≤ 2147483647) (d : ℕ) {n : ℕ}
    (hloop : (worlds n).loop = some (batch, stage)) (hrunning : stage.Running)
    (hdriven : ∀ batch stage, (worlds (n + d)).loop = some (batch, stage) → stage.Running →
      stage.Awaits (events (n + d))) :
    ∃ m ≥ n, ∃ stage', (worlds m).loop = some (batch, stage') ∧
      effort M (worlds m).rows batch stage' < effort M (worlds n).rows batch stage := by
  induction d generalizing n with
  | zero =>
    rcases (hrun.outcome hsmall n).effort hloop hrunning
      ((hrun.sound hsmall n).knows _ _ hloop) with ⟨stage', hnext, hless⟩ | ⟨hidle, -, -⟩
    · exact ⟨n + 1, Nat.le_succ n, stage', hnext, hless⟩
    · exact absurd (hdriven _ _ hloop hrunning) hidle
  | succ d ih =>
    rcases (hrun.outcome hsmall n).effort hloop hrunning
      ((hrun.sound hsmall n).knows _ _ hloop) with ⟨stage', hnext, hless⟩ | ⟨-, hsame, hle⟩
    · exact ⟨n + 1, Nat.le_succ n, stage', hnext, hless⟩
    · obtain ⟨m, hm, stage', hlater, hless⟩ := ih hsame (by rwa [Nat.add_right_comm])
      exact ⟨m, Nat.le_of_succ_le hm, stage', hlater, hless.trans_le hle⟩

/-- **A loop that is driven ends.** -/
theorem Run.ends (hrun : Run B M worlds events) (hsmall : M ≤ 2147483647)
    (hdriven : Driven worlds events) {n : ℕ} (hloop : (worlds n).loop = some (batch, stage)) :
    ∃ m ≥ n, ∃ result, (worlds m).loop = some (batch, .ended result) := by
  -- the induction is on the effort that is left
  induction heffort : effort M (worlds n).rows batch stage using Nat.strong_induction_on
    generalizing n stage with
  | _ e ih =>
    by_cases hrunning : stage.Running
    · obtain ⟨k, hk, hawaits⟩ := hdriven n
      obtain ⟨d, rfl⟩ := Nat.exists_eq_add_of_le hk
      obtain ⟨m, hm, stage', hlater, hless⟩ := hrun.descends hsmall d hloop hrunning hawaits
      obtain ⟨l, hl, result, hended⟩ := ih _ (heffort ▸ hless) hlater rfl
      exact ⟨l, hm.trans hl, result, hended⟩
    · obtain ⟨result, hresult⟩ := not_forall_not.mp hrunning
      exact ⟨n, le_rfl, result, hresult ▸ hloop⟩

theorem Outcome.computed {event : Event} (h : Outcome B M w event w') {row row' : RequestRow}
    (hrow : w.rows[id]? = some row) (hrow' : w'.rows[id]? = some row')
    (hbefore : row.reconciliationStatus ≠ .computed)
    (hafter : row'.reconciliationStatus = .computed) :
    ∃ batch stage receipt, w.loop = some (batch, stage) ∧ event = .receive (.ok receipt)
      ∧ receipt.requestId = id
      ∧ (batch.acceptReceiptCharge = false → Reconstructed B batch.prices receipt row row') := by
  have hsame : w'.rows[id]? = some row → False := fun hkept =>
    hbefore (Option.some.inj (hkept.symm.trans hrow') ▸ hafter)
  cases h with
  | idle => exact (hsame hrow).elim
  | begin => exact (hsame hrow).elim
  | write record =>
    have hstatus := statusAt_recordRequest_some record (statusAt_of_row hrow)
    rw [statusAt_of_row hrow'] at hstatus
    exact absurd ((Prod.mk.inj (Option.some.inj hstatus)).1.symm.trans hafter) hbefore
  | move batch stage event w' hloop hawaits hstep =>
    obtain ⟨receipt, hevent, hid, hreconstructed⟩ := hstep.computed hrow hrow' hbefore hafter
    exact ⟨batch, stage, receipt, hloop, hevent, hid, hreconstructed⟩

/-- **Reconciliation.** The settled rows are kept exactly where no settlement
writes another bill over them. In every run a row computed against prices carries
the charge of its receipt, no row is fetched more often than the bound, a loop that
ends well leaves no row of its batch pending, and a loop that is driven ends. -/
theorem Run.reconciles_iff (hrun : Run B M worlds events) (hsmall : M ≤ 2147483647) :
    (Kept worlds ↔ Unaltered worlds events)
    ∧ (∀ (n : ℕ) (id : String) (row row' : RequestRow), (worlds n).rows[id]? = some row →
      (worlds (n + 1)).rows[id]? = some row' →
        row.reconciliationStatus ≠ .computed → row'.reconciliationStatus = .computed →
        ∃ batch stage receipt, (worlds n).loop = some (batch, stage)
          ∧ events n = .receive (.ok receipt) ∧ receipt.requestId = id
          ∧ (batch.acceptReceiptCharge = false → Reconstructed B batch.prices receipt row row'))
    ∧ (∀ n id, (worlds n).fetches id ≤ M)
    ∧ (∀ n batch summary, (worlds n).loop = some (batch, .ended (.ok summary)) →
        ∀ id ∈ batch.requestIds, ∃ row : RequestRow, (worlds n).rows[id]? = some row
          ∧ row.reconciliationStatus ≠ .pending)
    ∧ (Driven worlds events → ∀ n batch stage, (worlds n).loop = some (batch, stage) →
        ∃ m ≥ n, ∃ result, (worlds m).loop = some (batch, .ended result)) := by
  refine ⟨hrun.kept_iff hsmall, fun n id row row' hrow hrow' => (hrun.outcome hsmall n).computed
    hrow hrow', fun n => (hrun.sound hsmall n).bounded, fun n batch summary hloop id hid => ?_,
    fun hdriven n batch stage hloop => hrun.ends hsmall hdriven hloop⟩
  obtain ⟨s, a, hstatus, hpending⟩ := (hrun.sound hsmall n).knows _ _ hloop id hid
  obtain ⟨row, hrow, rfl, -⟩ := row_of_statusAt hstatus
  exact ⟨row, hrow, hpending⟩

end Runs

/-! ## A settled row is billed again -/

/-- The worlds that some events lead through. -/
def follow (B : Billing) (maxAttempts : ℕ) (w : World) (events : ℕ → Event) : ℕ → World
  | 0 => w
  | n + 1 => (follow B maxAttempts w events n).step B maxAttempts (events n)

theorem run_follow {events : ℕ → Event} (hidle : w.loop = none)
    (hunfetched : ∀ id, w.fetches id = 0) :
    Run B M (follow B M w events) events :=
  ⟨hidle, hunfetched, fun _ => rfl⟩

namespace Rebilled

def billing : Billing := ⟨fun _ => "p", fun _ _ => "o", fun _ => "r"⟩

def charge (microUsd : ℤ) : ChargeColumns where
  tokens := ⟨3, 2, 0, 0, 0, 3, 2⟩
  usageOrigin := .providerReported
  chargeStatus := .computed
  chargeEvidence := none
  estimatedChargeMicroUsd := microUsd

def receipt : SettlementReceipt where
  requestId := "request-1"
  state := .computed
  modelId := some "model"
  providerId := some "provider"
  usage := ⟨3, 0, 0, 2, 0⟩
  finalChargeMicroUsd := some 7

/-- A request that was settled with a local estimate, and awaits its receipt. -/
def estimated (microUsd : ℤ) : RequestMetric :=
  ⟨"request-1", "provider", "model", charge microUsd, .pending⟩

def start : World := ⟨∅, none, fun _ => 0⟩

def settlement : List Event :=
  [.write (estimated 5), .begin ⟨["request-1"], [], true⟩, .advance, .advance,
    .receive (.ok receipt)]

def quiet (n : ℕ) : Event := settlement.getD n .advance

/-- The ordinary settlement arrives a second time. -/
def late (n : ℕ) : Event := (settlement ++ [Event.write (estimated 5)]).getD n .advance

/-- The status and the amount of the request. -/
def billed (w : World) : Option (ReconciliationStatus × ℤ) :=
  w.rows["request-1"]?.map fun row =>
    (row.reconciliationStatus, row.charge.estimatedChargeMicroUsd)

theorem run_late : Run billing 3 (follow billing 3 start late) late := run_follow rfl fun _ => rfl

/-- **A late settlement replaces an authoritative charge** by a local estimate. -/
theorem not_kept_late : ¬ ∀ (B : Billing) (M : ℕ) (worlds : ℕ → World) (events : ℕ → Event),
    M ≤ 2147483647 → Run B M worlds events → Kept worlds := by
  intro hkept
  have hlate := hkept billing 3 _ late (by decide) run_late
  have hsettled : billed (follow billing 3 start late 5) = some (.computed, 7) := by decide +kernel
  have hrebilled : billed (follow billing 3 start late 6) = some (.computed, 5) := by decide +kernel
  obtain ⟨row, hrow, hpair⟩ := Option.map_eq_some_iff.mp hsettled
  obtain ⟨hstatus, hamount⟩ := Prod.mk.inj hpair
  obtain ⟨row', hrow', -, hbilled⟩ := hlate 5 _ row hrow (.inl hstatus) 6 (by decide)
  have hamount' : row'.charge.estimatedChargeMicroUsd = 7 :=
    (congrArg (fun bill => bill.2.2.2) hbilled).trans hamount
  rw [billed, hrow'] at hrebilled
  exact absurd (hamount'.symm.trans (Prod.mk.inj (Option.some.inj hrebilled)).2) (by decide)

theorem kept_quiet : Kept (follow billing 3 start quiet) ∧
    billed (follow billing 3 start quiet 5) = some (.computed, 7) := by
  refine ⟨(Run.reconciles_iff (run_follow rfl fun _ => rfl) (by decide)).1.mpr ?_,
    by decide +kernel⟩
  -- the only settlement is the first event, when there is no row
  intro n record row hevent hrow
  have hn : n = 0 := by
    by_contra hn
    have hquiet : ∀ k < 4, ∀ record, quiet (k + 1) ≠ .write record := by
      intro k hk record
      interval_cases k <;> exact Event.noConfusion
    obtain ⟨k, rfl⟩ := Nat.exists_eq_succ_of_ne_zero hn
    by_cases hk : k < 4
    · exact hquiet k hk record hevent
    · have hover : settlement.length ≤ k + 1 := by
        show 5 ≤ k + 1
        omega
      have hadvance : quiet (k + 1) = .advance := by
        rw [quiet, List.getD_eq_getElem?_getD, List.getElem?_eq_none hover]
        rfl
      rw [hadvance] at hevent
      cases hevent
  subst hn
  have hempty : (follow billing 3 start quiet 0).rows[record.requestId]? = none :=
    StrMap.getElem?_empty _
  cases hrow

end Rebilled

end BitRouter.Metering
