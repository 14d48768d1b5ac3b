import BitRouter.Metering.Reconciled

/-!
# The reconciliation loop

A loop that runs awaits one event (`Stage.Awaits`), and each makes one of the eleven
moves of `LoopStep`. What the loop knows of the rows it holds (`Current`) stays
true whatever is written beside it, since a write leaves every status, so none of
its own checks can fail.

Every move lowers the `effort` that is left, which no write raises. A row that is
fetched has spent one of its attempts, and a row that is reopened had some left.
-/

namespace BitRouter.Metering

variable {B : Billing} {M : ℕ} {rows rows' : Rows} {w w' : World} {batch : Batch} {stage : Stage}
variable {records : List ReconciliationRecord}

/-! ## Moves -/

/-- The events a loop awaits. -/
def Stage.Awaits : Stage → Event → Prop
  | .ended _, _ => False
  | _, .fail _ => True
  | .fetching _ _ _, event => ∃ answer, event = .receive answer
  | _, event => event = .advance

theorem Stage.Awaits.cases {event : Event} (h : stage.Awaits event) : event = .advance ∨
    (∃ error, event = .fail error) ∨
      ∃ id a records answer, stage = .fetching id a records ∧ event = .receive answer := by
  cases stage <;> cases event <;> simp [Stage.Awaits] at h ⊢

theorem not_awaits_begin {other : Batch} : ¬ stage.Awaits (.begin other) := fun h => by
  rcases h.cases with h | ⟨error, h⟩ | ⟨id, a, records, answer, -, h⟩ <;> cases h

theorem not_awaits_write {record : RequestMetric} : ¬ stage.Awaits (.write record) := fun h => by
  rcases h.cases with h | ⟨error, h⟩ | ⟨id, a, records, answer, -, h⟩ <;> cases h

def Stage.Running (stage : Stage) : Prop := ∀ result, stage ≠ .ended result

variable {event : Event}

theorem Stage.Awaits.running (h : stage.Awaits event) : stage.Running := by
  rintro result rfl
  exact h

/-- How often a row may still change its status. -/
def rank (M : ℕ) : ReconciliationStatus × ℕ → ℕ
  | (.pending, a) => 2 * (M - a) + 1
  | (.unknown, a) => if a < M then 2 * (M - a) + 2 else 0
  | _ => 0

/-- **The moves of a loop.** -/
inductive LoopStep (B : Billing) (M : ℕ) (batch : Batch) (w : World) (event : Event) :
    Stage → World → Prop
  | fail (stage : Stage) (error : String) :
      LoopStep B M batch w event stage { w with loop := some (batch, .ended (.error error)) }
  | read : (reconciliationRecords w.rows batch.requestIds).length = batch.requestIds.length →
      LoopStep B M batch w event .reading { w with
        loop := some (batch, .working (reconciliationRecords w.rows batch.requestIds) false) }
  | finish (progressed : Bool) :
      (∀ record ∈ reconciliationRecords w.rows batch.requestIds, record.status ≠ .pending) →
      LoopStep B M batch w event (.working [] progressed) { w with
        loop := some (batch,
          .ended (.ok (summarize (reconciliationRecords w.rows batch.requestIds)))) }
  | again : LoopStep B M batch w event (.working [] true) { w with loop := some (batch, .reading) }
  | skip (record : ReconciliationRecord) (records : List ReconciliationRecord)
      (progressed : Bool) : LoopStep B M batch w event (.working (record :: records) progressed)
        { w with loop := some (batch, .working records progressed) }
  | move (record : ReconciliationRecord) (records : List ReconciliationRecord) (progressed : Bool)
      (rows' : Rows) (s : ReconciliationStatus) :
      RowMoves w.rows rows' record.requestId record.status s record.attempts record.attempts →
      ¬ s.Settled → rank M (s, record.attempts) < rank M (record.status, record.attempts) →
      LoopStep B M batch w event (.working (record :: records) progressed)
        { w with rows := rows', loop := some (batch, .working records true) }
  | fetch (id : String) (a : ℕ) (records : List ReconciliationRecord) (progressed : Bool)
      (rows' : Rows) : a < M → RowMoves w.rows rows' id .pending .pending a (a + 1) →
      LoopStep B M batch w event (.working (⟨id, .pending, a⟩ :: records) progressed) {
        rows := rows', loop := some (batch, .fetching id (a + 1) records)
        fetches := Function.update w.fetches id (w.fetches id + 1) }
  | defer (id : String) (a : ℕ) (records : List ReconciliationRecord) (rows' : Rows)
      (s : ReconciliationStatus) : RowMoves w.rows rows' id .pending s a a → ¬ s.Settled →
      LoopStep B M batch w event (.fetching id a records)
        { w with rows := rows', loop := some (batch, .working records true) }
  | apply (receipt : SettlementReceipt) (a : ℕ) (records : List ReconciliationRecord)
      (rows' : Rows) (s : ReconciliationStatus) :
      RowMoves w.rows rows' receipt.requestId .pending s a a →
      applyAuthoritativeReceipt B w.rows receipt batch.prices batch.acceptReceiptCharge
        = .ok (rows', s) → event = .receive (.ok receipt) →
      LoopStep B M batch w event (.fetching receipt.requestId a records)
        { w with rows := rows', loop := some (batch, .working records true) }
  | miss (id : String) (a : ℕ) (records : List ReconciliationRecord) (rows' : Rows) : M ≤ a →
      RowMoves w.rows rows' id .pending .pending a a →
      LoopStep B M batch w event (.fetching id a records)
        { w with rows := rows', loop := some (batch, .exhausting id records) }
  | exhaust (id : String) (a : ℕ) (records : List ReconciliationRecord) (rows' : Rows) : M ≤ a →
      RowMoves w.rows rows' id .pending .unknown a a →
      LoopStep B M batch w event (.exhausting id records)
        { w with rows := rows', loop := some (batch, .working records true) }

/-! ## What a loop knows -/

/-- **Current records**: each of a row of the batch, no two of one row, and as the
rows are. Each row of the batch is there. -/
structure Current (rows : Rows) (batch : Batch) (records : List ReconciliationRecord) : Prop where
  ids : batch.requestIds.Nodup
  present : ∀ id ∈ batch.requestIds, statusAt rows id ≠ none
  distinct : (records.map (·.requestId)).Nodup
  stored : ∀ record ∈ records, record.requestId ∈ batch.requestIds ∧
    statusAt rows record.requestId = some (record.status, record.attempts)

/-- What a loop knows in each of its stages. -/
def Knows (M : ℕ) (rows : Rows) (batch : Batch) : Stage → Prop
  | .reading => batch.requestIds.Nodup
  | .working records _ => Current rows batch records
  | .fetching id a records => Current rows batch (⟨id, .pending, a⟩ :: records)
  | .exhausting id records => ∃ a, M ≤ a ∧ Current rows batch (⟨id, .pending, a⟩ :: records)
  | .ended (.ok _) => ∀ id ∈ batch.requestIds, ∃ s a, statusAt rows id = some (s, a) ∧ s ≠ .pending
  | .ended (.error _) => True

variable {record : ReconciliationRecord}

section

variable (h : Current rows batch (record :: records))

include h

theorem Current.tail :
    Current rows batch records where
  ids := h.ids
  present := h.present
  distinct := (List.nodup_cons.mp h.distinct).2
  stored other hother := h.stored other (List.mem_cons_of_mem _ hother)

theorem Current.head :
    statusAt rows record.requestId = some (record.status, record.attempts) :=
  (h.stored record List.mem_cons_self).2

theorem Current.mem :
    record.requestId ∈ batch.requestIds :=
  (h.stored record List.mem_cons_self).1

end

theorem Current.moved {id : String} {s s' : ReconciliationStatus} {a a' : ℕ}
    (h : Current rows batch (⟨id, s, a⟩ :: records)) (hmoves : RowMoves rows rows' id s s' a a') :
    Current rows' batch (⟨id, s', a'⟩ :: records) where
  ids := h.ids
  present j hj := by
    by_cases hid : j = id
    · rw [hid, hmoves.after]
      exact Option.some_ne_none _
    · rw [hmoves.statusAt_other hid]
      exact h.present j hj
  distinct := h.distinct
  stored record hrecord := by
    rcases List.mem_cons.mp hrecord with rfl | hmem
    · exact ⟨h.mem, hmoves.after⟩
    · have hother : record.requestId ≠ id := fun hid => (List.nodup_cons.mp h.distinct).1
        (List.mem_map.mpr ⟨record, hmem, hid⟩)
      rw [hmoves.statusAt_other hother]
      exact h.stored record (List.mem_cons_of_mem _ hmem)

/-- What is known stays known where no status is lost. -/
theorem Current.mono (h : Current rows batch records)
    (hkeep : ∀ id p, statusAt rows id = some p → statusAt rows' id = some p) :
    Current rows' batch records where
  ids := h.ids
  present id hid := by
    obtain ⟨p, hp⟩ := Option.ne_none_iff_exists'.mp (h.present id hid)
    rw [hkeep id p hp]
    exact Option.some_ne_none _
  distinct := h.distinct
  stored record hrecord :=
    ⟨(h.stored record hrecord).1, hkeep _ _ (h.stored record hrecord).2⟩

theorem Knows.mono (h : Knows M rows batch stage)
    (hkeep : ∀ id p, statusAt rows id = some p → statusAt rows' id = some p) :
    Knows M rows' batch stage := by
  cases stage with
  | reading => exact h
  | working records progressed => exact Current.mono h hkeep
  | fetching id a records => exact Current.mono h hkeep
  | exhausting id records =>
    obtain ⟨a, ha, hcurrent⟩ := h
    exact ⟨a, ha, hcurrent.mono hkeep⟩
  | ended result =>
    cases result with
    | error error => trivial
    | ok summary =>
      intro id hid
      obtain ⟨s, a, hstatus, hs⟩ := h id hid
      exact ⟨s, a, hkeep id _ hstatus, hs⟩

/-! ## Each awaited event is a move -/

theorem loopStep_read : LoopStep B M batch w event .reading (w.read batch) := by
  unfold World.read
  dsimp only
  split
  · exact .fail _ _
  · next h => exact .read (not_not.mp h)

theorem loopStep_check {progressed : Bool} :
    LoopStep B M batch w event (.working [] progressed) (w.check batch progressed) := by
  unfold World.check
  dsimp only
  split
  · next h => exact .finish _ fun record hrecord =>
    of_decide_eq_true (List.all_eq_true.mp h _ hrecord)
  · split
    · next hprogressed =>
      obtain rfl : progressed = true := hprogressed
      exact .again
    · exact .fail _ _

theorem loopStep_work {progressed : Bool} (hsmall : M ≤ 2147483647)
    (h : Current w.rows batch (record :: records)) :
    LoopStep B M batch w event (.working (record :: records) progressed)
      (w.work M batch record records progressed) := by
  have hhead := h.head
  obtain ⟨id, status, a⟩ := record
  unfold World.work
  cases status with
  | pending =>
    show LoopStep B M batch w event _ (if M ≤ a then _ else _)
    split
    · next ha =>
      obtain ⟨rows', hok, hmoves⟩ := exhaust_of_pending hhead "attempt_budget_exhausted"
      rw [hok]
      refine .move _ _ _ rows' .unknown hmoves unknown_unsettled ?_
      show (if a < M then _ else _) < _
      rw [if_neg (Nat.not_lt.mpr ha)]
      exact Nat.succ_pos _
    · next ha =>
      obtain ⟨rows', hok, hmoves⟩ := start_of_pending hhead
      -- the counter has room: the attempts are below a bound that fits it
      rw [show min (a + 1) 2147483647 = a + 1 by omega] at hok hmoves
      rw [hok]
      exact .fetch id a records progressed rows' (Nat.not_le.mp ha) hmoves
  | unknown =>
    by_cases ha : a < M
    · obtain ⟨rows', hok, hmoves⟩ := reopen_of_unknown hhead ha
      rw [hok]
      show LoopStep B M batch w event _
        { w with rows := rows', loop := some (batch, .working records (progressed || true)) }
      rw [Bool.or_true]
      refine .move _ _ _ rows' .pending hmoves pending_unsettled ?_
      show _ < (if a < M then _ else _)
      rw [if_pos ha]
      exact Nat.lt_succ_self _
    · have hspent := reopen_of_spent hhead (Nat.not_lt.mp ha)
      rw [hspent]
      show LoopStep B M batch w event _
        { w with loop := some (batch, .working records (progressed || false)) }
      rw [Bool.or_false]
      exact .skip _ _ _
  | computed => exact .skip _ _ _
  | notCharged => exact .skip _ _ _
  | notApplicable => exact .fail _ _

theorem loopStep_advance (hsmall : M ≤ 2147483647) (h : Knows M w.rows batch stage)
    (hawaits : stage.Awaits .advance) :
    LoopStep B M batch w event stage (w.advance M batch stage) := by
  cases stage with
  | reading => exact loopStep_read
  | working records progressed =>
    cases records with
    | nil => exact loopStep_check
    | cons record records => exact loopStep_work hsmall h
  | fetching id a records =>
    obtain ⟨answer, hanswer⟩ := hawaits
    cases hanswer
  | exhausting id records =>
    obtain ⟨a, ha, hcurrent⟩ := h
    obtain ⟨rows', hok, hmoves⟩ :=
      exhaust_of_pending hcurrent.head "receipt_fetch_attempts_exhausted"
    unfold World.advance
    dsimp only at hok ⊢
    rw [hok]
    exact .exhaust id a records rows' ha hmoves
  | ended result => exact absurd hawaits id

theorem loopStep_answered {id : String} {a : ℕ} {answer : Except String SettlementReceipt}
    (h : Knows M w.rows batch (.fetching id a records)) :
    LoopStep B M batch w (.receive answer) (.fetching id a records)
      (w.answered B M batch id a records answer) := by
  have hpending : statusAt w.rows id = some (.pending, a) := h.head
  have hsame : RowMoves w.rows w.rows id .pending .pending a a :=
    ⟨hpending, pending_unsettled, hpending, fun _ _ => rfl⟩
  unfold World.answered
  dsimp only
  split
  · next receipt hanswer =>
    split
    · -- the receipt is still pending
      split
      · obtain ⟨rows', hok, hmoves⟩ :=
          exhaust_of_pending hpending "authoritative_receipt_still_pending"
        rw [hok]
        exact .defer id a records rows' .unknown hmoves unknown_unsettled
      · exact .defer id a records w.rows .pending hsame pending_unsettled
    · cases happly : applyAuthoritativeReceipt B w.rows receipt batch.prices
        batch.acceptReceiptCharge with
      | error error => exact .fail _ _
      | ok applied =>
        obtain ⟨rows', status⟩ := applied
        -- an answer to another request has been refused
        obtain ⟨hid, rfl⟩ : receipt.requestId = id ∧ answer = .ok receipt := by
          obtain ⟨fetched, hanswered, hfetched⟩ := bind_eq_ok.mp hanswer
          split at hfetched
          · next hid =>
            obtain rfl := Except.ok.inj hfetched
            exact ⟨hid, hanswered⟩
          · cases hfetched
        subst hid
        exact .apply receipt a records rows' status (apply_of_pending hpending happly) happly rfl
  · next error _ =>
    obtain ⟨rows', hok, hmoves⟩ := recordError_of_pending hpending error
    rw [hok]
    show LoopStep B M batch w _ _
      { w with rows := rows', loop := some (batch, if M ≤ a then _ else _) }
    split
    · next ha => exact .miss id a records rows' ha hmoves
    · exact .defer id a records rows' .pending hmoves pending_unsettled

theorem loopStep_step (hsmall : M ≤ 2147483647) (hloop : w.loop = some (batch, stage))
    (h : Knows M w.rows batch stage) (hawaits : stage.Awaits event) :
    LoopStep B M batch w event stage (w.step B M event) := by
  have hrunning := hawaits.running
  rcases hawaits.cases with rfl | ⟨error, rfl⟩ | ⟨id, a, records, answer, rfl, rfl⟩
  · unfold World.step
    rw [hloop]
    exact loopStep_advance hsmall h hawaits
  · unfold World.step
    rw [hloop]
    cases stage with
    | ended result => exact absurd rfl (hrunning result)
    | reading => exact .fail _ _
    | working records progressed => exact .fail _ _
    | fetching id a records => exact .fail _ _
    | exhausting id records => exact .fail _ _
  · unfold World.step
    rw [hloop]
    exact loopStep_answered h

end BitRouter.Metering
