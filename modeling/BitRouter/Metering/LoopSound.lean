import BitRouter.Metering.Loop

/-!
# Sound worlds

What holds of every world of a run: the loop knows the rows it works on, every
fetch of a row is one of its attempts, and there are at most as many as the bound
allows (`Sound`). An event is idle, begins a loop, writes a row or is a move of the
loop (`Outcome`), and each keeps a world sound (`Sound.step`).
-/

namespace BitRouter.Metering

variable {B : Billing} {M : ℕ} {rows rows' : Rows} {w w' : World} {batch : Batch} {stage : Stage}
variable {records : List ReconciliationRecord} {id : String}

/-! ## What is known of every world -/

/-- The attempts of a row, none where there is no row. -/
def attemptsAt (rows : Rows) (requestId : String) : ℕ :=
  ((statusAt rows requestId).map Prod.snd).getD 0

/-- **A sound world**: its loop knows its rows, and each fetch is an attempt. -/
structure Sound (M : ℕ) (w : World) : Prop where
  knows : ∀ batch stage, w.loop = some (batch, stage) → Knows M w.rows batch stage
  ledger : ∀ id, w.fetches id ≤ attemptsAt w.rows id
  bounded : ∀ id, w.fetches id ≤ M

theorem attemptsAt_of_status {s : ReconciliationStatus} {a : ℕ}
    (h : statusAt rows id = some (s, a)) : attemptsAt rows id = a := by
  rw [attemptsAt, h]
  rfl

theorem RowMoves.attemptsAt {s s' : ReconciliationStatus} {a : ℕ}
    (h : RowMoves rows rows' id s s' a a) (j : String) :
    attemptsAt rows' j = attemptsAt rows j := by
  by_cases hj : j = id
  · rw [hj, attemptsAt_of_status h.after, attemptsAt_of_status h.before]
  · rw [Metering.attemptsAt, h.statusAt_other hj, Metering.attemptsAt]

theorem attemptsAt_recordRequest {record : RequestMetric} (j : String) :
    attemptsAt (recordRequest rows record) j = attemptsAt rows j := by
  rcases statusAt_recordRequest rows record j with hsame | ⟨hnone, hnew⟩
  · rw [attemptsAt, hsame, attemptsAt]
  · rw [attemptsAt_of_status hnew, attemptsAt, hnone]
    rfl

theorem Sound.enter (h : Sound M w) (hknows : Knows M w.rows batch stage) :
    Sound M { w with loop := some (batch, stage) } where
  knows := by
    rintro _ _ ⟨⟩
    exact hknows
  ledger := h.ledger
  bounded := h.bounded

theorem Sound.put (h : Sound M w) {s s' : ReconciliationStatus} {a : ℕ}
    (hmoves : RowMoves w.rows rows' id s s' a a) (hknows : Knows M rows' batch stage) :
    Sound M { w with rows := rows', loop := some (batch, stage) } where
  knows := by
    rintro _ _ ⟨⟩
    exact hknows
  ledger j := (h.ledger j).trans_eq (hmoves.attemptsAt j).symm
  bounded := h.bounded

/-- **A move keeps a world sound.** -/
theorem LoopStep.sound {event : Event} (hstep : LoopStep B M batch w event stage w') (h : Sound M w)
    (hknows : Knows M w.rows batch stage) : Sound M w' := by
  cases hstep with
  | fail stage error => exact h.enter trivial
  | read hlength =>
    exact h.enter {
      ids := hknows
      present := statusAt_of_length hlength
      distinct := nodup_reconciliationRecords
      stored := fun _ hrecord => mem_reconciliationRecords.mp hrecord }
  | finish progressed hdone =>
    refine h.enter fun id hid => ?_
    obtain ⟨⟨s, a⟩, hstatus⟩ := Option.ne_none_iff_exists'.mp (hknows.present id hid)
    exact ⟨s, a, hstatus, hdone ⟨id, s, a⟩ (mem_reconciliationRecords.mpr ⟨hid, hstatus⟩)⟩
  | again => exact h.enter hknows.ids
  | skip record records progressed => exact h.enter (Current.tail hknows)
  | move record records progressed rows' s hmoves =>
    exact h.put hmoves (Current.moved hknows hmoves).tail
  | fetch id a records progressed rows' ha hmoves =>
    have hattempts : w.fetches id ≤ a :=
      (h.ledger id).trans_eq (attemptsAt_of_status hmoves.before)
    refine ⟨?_, fun j => ?_, fun j => ?_⟩
    · rintro _ _ ⟨⟩
      exact Current.moved hknows hmoves
    · show Function.update w.fetches id _ j ≤ attemptsAt rows' j
      by_cases hj : j = id
      · rw [hj, Function.update_self, attemptsAt_of_status hmoves.after]
        exact Nat.succ_le_succ hattempts
      · rw [Function.update_of_ne hj, attemptsAt, hmoves.statusAt_other hj]
        exact h.ledger j
    · show Function.update w.fetches id _ j ≤ M
      by_cases hj : j = id
      · rw [hj, Function.update_self]
        exact Nat.lt_of_le_of_lt hattempts ha
      · rw [Function.update_of_ne hj]
        exact h.bounded j
  | defer id a records rows' s hmoves => exact h.put hmoves (Current.moved hknows hmoves).tail
  | apply receipt a records rows' s hmoves =>
    exact h.put hmoves (Current.moved hknows hmoves).tail
  | miss id a records rows' ha hmoves =>
    exact h.put hmoves ⟨a, ha, Current.moved hknows hmoves⟩
  | exhaust id a records rows' ha hmoves =>
    obtain ⟨a', -, hcurrent⟩ := hknows
    have hattempts := hmoves.before.symm.trans hcurrent.head
    obtain rfl : a = a' := (Prod.mk.inj (Option.some.inj hattempts)).2
    exact h.put hmoves (Current.moved hcurrent hmoves).tail

/-! ## Events -/

/-- **What an event is to the world.** -/
inductive Outcome (B : Billing) (M : ℕ) (w : World) : Event → World → Prop
  | idle (event : Event) : (∀ batch stage, w.loop = some (batch, stage) → ¬ stage.Awaits event) →
      Outcome B M w event w
  | begin (batch : Batch) : (∀ batch stage, w.loop = some (batch, stage) → ¬ stage.Running) →
      Outcome B M w (.begin batch)
        { w with loop := some (batch, stageOf (beginResult M batch) fun _ => .reading) }
  | write (record : RequestMetric) :
      Outcome B M w (.write record) { w with rows := recordRequest w.rows record }
  | move (batch : Batch) (stage : Stage) (event : Event) (w' : World) :
      w.loop = some (batch, stage) → stage.Awaits event → LoopStep B M batch w event stage w' →
      Outcome B M w event w'

theorem not_running_ended {result : Except String ReconciliationSummary} :
    ¬ (Stage.ended result).Running := fun h => h result rfl

theorem outcome_begin (other : Batch) :
    Outcome B M w (.begin other) (w.step B M (.begin other)) := by
  unfold World.step
  dsimp only
  split
  · next hnone =>
    exact .begin other fun batch stage hloop => by
      rw [hnone] at hloop
      cases hloop
  · next hended =>
    exact .begin other fun batch stage hloop => by
      rw [hended] at hloop
      cases hloop
      exact not_running_ended
  · exact .idle _ fun _ _ _ => not_awaits_begin

theorem outcome_step (hsmall : M ≤ 2147483647) (h : Sound M w) (event : Event) :
    Outcome B M w event (w.step B M event) := by
  by_cases hawaits : ∃ batch stage, w.loop = some (batch, stage) ∧ stage.Awaits event
  · obtain ⟨batch, stage, hloop, hawaits⟩ := hawaits
    exact .move batch stage event _ hloop hawaits
      (loopStep_step hsmall hloop (h.knows batch stage hloop) hawaits)
  -- an event the loop does not await changes nothing
  · have hidle : ∀ batch stage, w.loop = some (batch, stage) → ¬ stage.Awaits event :=
      fun batch stage hloop hstage => hawaits ⟨batch, stage, hloop, hstage⟩
    cases event with
    | begin other => exact outcome_begin other
    | write record => exact .write record
    | advance =>
      unfold World.step
      dsimp only
      split
      · exact .idle _ hidle
      · next batch stage hloop =>
        have hstage := hidle batch stage hloop
        cases stage with
        | reading => exact absurd rfl hstage
        | working records progressed => exact absurd rfl hstage
        | exhausting id records => exact absurd rfl hstage
        | fetching id a records =>
          show Outcome B M w _ { w with loop := some (batch, .fetching id a records) }
          rw [← hloop]
          exact .idle _ hidle
        | ended result =>
          show Outcome B M w _ { w with loop := some (batch, .ended result) }
          rw [← hloop]
          exact .idle _ hidle
    | receive answer =>
      unfold World.step
      dsimp only
      split
      · next batch id a records hloop => exact absurd ⟨answer, rfl⟩ (hidle batch _ hloop)
      · exact .idle _ hidle
    | fail error =>
      unfold World.step
      dsimp only
      split
      · exact .idle _ hidle
      · exact .idle _ hidle
      · next batch stage hended hloop =>
        have hstage := hidle batch stage hloop
        cases stage with
        | ended result => exact absurd rfl (hended result)
        | reading => exact absurd trivial hstage
        | working records progressed => exact absurd trivial hstage
        | fetching id a records => exact absurd trivial hstage
        | exhausting id records => exact absurd trivial hstage

/-- **Every event keeps a world sound.** -/
theorem Sound.step (hsmall : M ≤ 2147483647) (h : Sound M w) (event : Event) :
    Sound M (w.step B M event) := by
  have houtcome := outcome_step (B := B) hsmall h event
  generalize w.step B M event = w' at houtcome
  cases houtcome with
  | idle => exact h
  | begin batch hfree =>
    refine h.enter ?_
    cases hbegin : beginResult M batch with
    | error error => trivial
    | ok value =>
      obtain ⟨_, -, hrest⟩ := bind_eq_ok.mp hbegin
      obtain ⟨_, -, hnodup⟩ := bind_eq_ok.mp hrest
      show batch.requestIds.Nodup
      exact ensure_eq_ok.mp hnodup
  | write record =>
    refine ⟨fun batch stage hloop => ?_, fun id => ?_, h.bounded⟩
    · exact (h.knows batch stage hloop).mono fun _ _ => statusAt_recordRequest_some record
    · exact (h.ledger id).trans_eq (attemptsAt_recordRequest id).symm
  | move batch stage event w' hloop hawaits hstep =>
    exact hstep.sound h (h.knows batch stage hloop)

end BitRouter.Metering
