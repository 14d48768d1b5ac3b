import BitRouter.Data.Run
import BitRouter.Evolution.JobSteps

/-!
# Runs of a judge job

What holds of a job whatever its workers do, and in whatever order: in every
world that a run reaches (`World.Sound`), of every step taken there
(`World.Permitted`) and of all that comes after it (`World.Keeps`).
-/

namespace BitRouter.Evolution

namespace World

variable {J : Judge} {w w' : World} {event : JobEvent} {row row' : JobRow} {n : ℕ}

/-- A world before the job is enqueued. -/
def start (now : ℕ) (control : ControlState) (history : List AssessmentRevision)
    (head : Option String) : World :=
  { now, control, history, head }

/-- There is no job yet. -/
structure Blank (w : World) : Prop where
  row : w.row = none
  idle : ∀ n, w.workers n = .idle
  owners : w.owners = []
  issued : w.issued = []

theorem Blank.inv_write (hw : w.Blank) (hcached : row.job.cachedResponse = none)
    (hrequests : row.job.requestIds = []) (hlease : row.job.leaseOwner = none) :
    (w.write row).Inv row where
  found := rfl
  fits n := by
    show Pc.Fits row w.issued (w.workers n)
    rw [hw.idle n]
    trivial
  distinct n m owner hn _ := by
    have hn : (w.workers n).owner = some owner := hn
    rw [hw.idle n] at hn
    cases hn
  drawn n owner hn := by
    have hn : (w.workers n).owner = some owner := hn
    rw [hw.idle n] at hn
    cases hn
  lease owner h := by
    rw [hlease] at h
    cases h
  issued := by
    show row.job.requestIds = w.issued.map Prod.fst
    rw [hrequests, hw.issued]
    rfl
  attempts := by
    rw [hrequests]
    exact Nat.zero_le _
  cached response h := by
    rw [hcached] at h
    cases h
  completed _ := hlease

/-- **One step before the job is enqueued.** -/
theorem Blank.step (hw : w.Blank) (h : w.step J event = some w') :
    (w'.history = w.history ∨ ∃ receipt head, event = .assess receipt head) ∧
      (w'.Blank ∨ ∃ row, w'.Inv row ∧ row.job.cachedResponse = none) := by
  cases event with
  | tick now =>
    simp only [World.step, Option.ite_none_right_eq_some, Option.some.injEq] at h
    obtain ⟨-, rfl⟩ := h
    exact ⟨.inl rfl, .inl { hw with }⟩
  | control control =>
    obtain rfl := Option.some.inj h
    exact ⟨.inl rfl, .inl { hw with }⟩
  | assess receipt head =>
    obtain rfl := Option.some.inj h
    exact ⟨.inr ⟨receipt, head, rfl⟩, .inl { hw with }⟩
  | enqueue job =>
    simp only [World.step, hw.row, Option.ite_none_right_eq_some, Option.some.injEq] at h
    obtain ⟨-, rfl⟩ := h
    exact ⟨.inl rfl, .inr ⟨_, hw.inv_write rfl rfl rfl, rfl⟩⟩
  | crash n =>
    obtain rfl := Option.some.inj h
    refine ⟨.inl rfl, .inl ⟨hw.row, fun m => ?_, hw.owners, hw.issued⟩⟩
    show (if m = n then Pc.idle else w.workers m) = .idle
    rw [hw.idle m, ite_self]
  | recover n _ | supersede n _ | examine n _ =>
    simp [World.step, hw.row] at h
  | recovered n | superseded n | claim n _ _ _ | renew n _ _ | answer n _ | store n _ | submit n _
  | complete n _ | error n | fail n _ =>
    simp [World.step, hw.idle n] at h

/-- What the runs of a job reach. -/
def Reached (w : World) : Prop := w.Blank ∨ ∃ row, w.Inv row

theorem Reached.step (hw : w.Reached) (h : w.step J event = some w') : w'.Reached := by
  rcases hw with hblank | ⟨row, hinv⟩
  · exact (hblank.step h).2.imp_right fun ⟨row, hrow, _⟩ => ⟨row, hrow⟩
  · obtain ⟨row', hrow', -⟩ := hinv.step h
    exact .inr ⟨row', hrow'⟩

theorem reached_of_run {now : ℕ} {control : ControlState} {history : List AssessmentRevision}
    {head : Option String} {events : List JobEvent}
    (h : events.foldlM (World.step J) (start now control history head) = some w) : w.Reached :=
  foldlM_preserves (fun _ _ _ => Reached.step) events
    (.inl ⟨rfl, fun _ => rfl, rfl, rfl⟩) h

/-- **What holds of a job in every world.** -/
structure Sound (w : World) : Prop where
  attempts : w.issued.length ≤ maxAttempts
  requests : ∀ row, w.row = some row → row.job.requestIds = w.issued.map Prod.fst
  cached : ∀ row response, w.row = some row → row.job.cachedResponse = some response →
    ∃ owner, w.issued.getLast? = some (response.requestId, owner)
  drawn : ∀ n owner, (w.workers n).owner = some owner → owner ∈ w.owners

theorem Reached.sound (hw : w.Reached) : w.Sound := by
  rcases hw with hblank | ⟨row, hinv⟩
  · exact {
      attempts := by
        rw [hblank.issued]
        exact Nat.zero_le _
      requests := fun row hrow => by
        rw [hblank.row] at hrow
        cases hrow
      cached := fun row response hrow => by
        rw [hblank.row] at hrow
        cases hrow
      drawn := fun n owner hn => by
        rw [hblank.idle n] at hn
        cases hn }
  · exact {
      attempts := by
        rw [← List.length_map, ← hinv.issued]
        exact hinv.attempts
      requests := fun row' hrow => by
        obtain rfl := Option.some.inj (hinv.found.symm.trans hrow)
        exact hinv.issued
      cached := fun row' response hrow => by
        obtain rfl := Option.some.inj (hinv.found.symm.trans hrow)
        exact hinv.cached response
      drawn := hinv.drawn }

/-- **What a step may do.** -/
structure Permitted (J : Judge) (w : World) (event : JobEvent) (w' : World) : Prop where
  /-- A response is stored by the worker that made the last request, under its
  own lease. -/
  stored : ∀ row' response, w'.row = some row' → row'.job.cachedResponse = some response →
    (∃ row, w.row = some row ∧ row.job.cachedResponse = some response) ∨
    ∃ row n revision owner job, w.row = some row ∧ event = .store n revision
      ∧ w.workers n = .answered owner job response ∧ row.job.leaseOwner = some owner
      ∧ w.issued.getLast? = some (response.requestId, owner)
  /-- What is submitted for the job is the stored response. -/
  submitted : w'.history = w.history ∨ (∃ receipt head, event = .assess receipt head) ∨
    ∃ row receipt, w.row = some row ∧ w'.history = w.history ++ [receipt]
      ∧ w.Submitted J event row receipt
  /-- A worker that has lost its lease changes nothing of the job. -/
  lost : ∀ n owner row, event.worker = some n → (w.workers n).owner = some owner →
    w.row = some row → row.job.leaseOwner ≠ some owner → w'.row = some row ∧ w'.issued = w.issued

theorem Reached.permitted (hw : w.Reached) (h : w.step J event = some w') :
    w.Permitted J event w' := by
  rcases hw with hblank | ⟨row, hinv⟩
  · obtain ⟨hhistory, hnext⟩ := hblank.step h
    exact {
      stored := fun row' response hrow' hresponse => by
        rcases hnext with hblank' | ⟨row'', hinv', hnone⟩
        · rw [hblank'.row] at hrow'
          cases hrow'
        · obtain rfl := Option.some.inj (hinv'.found.symm.trans hrow')
          rw [hnone] at hresponse
          cases hresponse
      submitted := hhistory.imp_right .inl
      lost := fun n owner row _ howner => by
        rw [hblank.idle n] at howner
        cases howner }
  · obtain ⟨row', hinv', hdid⟩ := hinv.step h
    exact {
      stored := fun row'' response hrow'' hresponse => by
        obtain rfl := Option.some.inj (hinv'.found.symm.trans hrow'')
        rcases hdid.stored with hsame
          | ⟨n, revision, owner, job, answer, he, hpc, ha, hlease, hlast⟩
        · exact .inl ⟨row, hinv.found, hsame.symm.trans hresponse⟩
        · obtain rfl := Option.some.inj (ha.symm.trans hresponse)
          exact .inr ⟨row, n, revision, owner, job, hinv.found, he, hpc, hlease, hlast⟩
      submitted := by
        rcases hdid.history with hsame | ⟨receipt, head, he, -⟩ | ⟨receipt, hreceipt, hsubmitted⟩
        · exact .inl hsame
        · exact .inr (.inl ⟨receipt, head, he⟩)
        · exact .inr (.inr ⟨row, receipt, hinv.found, hreceipt, hsubmitted⟩)
      lost := fun n owner row'' hevent howner hrow'' hlost => by
        obtain rfl := Option.some.inj (hinv.found.symm.trans hrow'')
        have hactor : w.actor event = some owner := by
          rw [actor, hevent]
          exact howner
        rcases hdid.commit with rfl | hfollows
        · exact ⟨hinv'.found, issued_eq_of_requests hinv.issued hinv'.issued hdid.issued rfl⟩
        · exact absurd (hfollows.owned owner hactor) hlost }

/-- **What later worlds keep.** -/
structure Keeps (w w' : World) : Prop where
  owners : w.owners ⊆ w'.owners
  issued : w.issued <+: w'.issued
  /-- A response stays, and no request is made after it. -/
  cached : ∀ row response, w.row = some row → row.job.cachedResponse = some response →
    w'.issued = w.issued ∧ ∃ row', w'.row = some row' ∧ row'.job.cachedResponse = some response
  completed : ∀ row, w.row = some row → row.job.status = .completed → w'.row = some row
  /-- A lease that is lost is never owned again. -/
  lost : ∀ row owner, w.row = some row → owner ∈ w.owners → row.job.leaseOwner ≠ some owner →
    ∃ row', w'.row = some row' ∧ row'.job.leaseOwner ≠ some owner

theorem Keeps.refl (w : World) : w.Keeps w where
  owners := List.Subset.refl _
  issued := List.prefix_rfl
  cached row _ hrow hresponse := ⟨rfl, row, hrow, hresponse⟩
  completed _ hrow _ := hrow
  lost row _ hrow _ hlost := ⟨row, hrow, hlost⟩

theorem Keeps.trans {w'' : World} (h : w.Keeps w') (h' : w'.Keeps w'') : w.Keeps w'' where
  owners := List.Subset.trans h.owners h'.owners
  issued := h.issued.trans h'.issued
  cached row response hrow hresponse := by
    obtain ⟨hissued, row', hrow', hresponse'⟩ := h.cached row response hrow hresponse
    obtain ⟨hissued', hrow''⟩ := h'.cached row' response hrow' hresponse'
    exact ⟨hissued'.trans hissued, hrow''⟩
  completed row hrow hcompleted :=
    h'.completed row (h.completed row hrow hcompleted) hcompleted
  lost row owner hrow howner hlost := by
    obtain ⟨row', hrow', hlost'⟩ := h.lost row owner hrow howner hlost
    exact h'.lost row' owner hrow' (h.owners howner) hlost'

theorem Reached.keeps (hw : w.Reached) (h : w.step J event = some w') : w.Keeps w' := by
  rcases hw with hblank | ⟨row, hinv⟩
  · have hnone : ∀ row, w.row ≠ some row := by simp [hblank.row]
    exact {
      owners := by simp [hblank.owners]
      issued := by simp [hblank.issued]
      cached := fun row _ hrow => absurd hrow (hnone row)
      completed := fun row hrow => absurd hrow (hnone row)
      lost := fun row _ hrow => absurd hrow (hnone row) }
  · obtain ⟨row', hinv', hdid⟩ := hinv.step h
    exact {
      owners := hdid.owners
      issued := hdid.issued
      cached := fun row'' response hrow hresponse => by
        obtain rfl := Option.some.inj (hinv.found.symm.trans hrow)
        rcases hdid.commit with rfl | hfollows
        · exact ⟨issued_eq_of_requests hinv.issued hinv'.issued hdid.issued rfl, row',
            hinv'.found, hresponse⟩
        · exact ⟨issued_eq_of_requests hinv.issued hinv'.issued hdid.issued
            (hfollows.requests_of_cached hresponse),
            row', hinv'.found, hfollows.cached response hresponse⟩
      completed := fun row'' hrow hcompleted => by
        obtain rfl := Option.some.inj (hinv.found.symm.trans hrow)
        rcases hdid.commit with rfl | hfollows
        · exact hinv'.found
        · exact absurd hcompleted hfollows.unfinished
      lost := fun row'' owner hrow howner hlost => by
        obtain rfl := Option.some.inj (hinv.found.symm.trans hrow)
        refine ⟨row', hinv'.found, fun hlease => ?_⟩
        rcases hdid.commit with rfl | hfollows
        · exact hlost hlease
        · exact hlost (hfollows.lease owner howner hlease).1 }

theorem Reached.keeps_run (hw : w.Reached) {events : List JobEvent}
    (h : events.foldlM (World.step J) w = some w') : w.Keeps w' := by
  have hboth : w'.Reached ∧ w.Keeps w' := by
    refine foldlM_preserves (P := fun v => v.Reached ∧ w.Keeps v) ?_ events ⟨hw, .refl w⟩ h
    rintro v event v' ⟨hreached, hkeeps⟩ hstep
    exact ⟨hreached.step hstep, hkeeps.trans (hreached.keeps hstep)⟩
  exact hboth.2

/-- **Every run of a job.** At most `maxAttempts` requests are made, and none once
a response is stored. The response is the answer to the last of them, is stored
by the worker that made it under its own lease, and stays. Only this response is
submitted, under the submission id of the job. A completed job stays as it is,
and a worker that has lost its lease changes nothing of the job and never owns
it again. -/
theorem judge_job_runs (J : Judge) (now : ℕ) (control : ControlState)
    (history : List AssessmentRevision) (head : Option String) (before after : List JobEvent)
    (event : JobEvent) (w w' w'' : World)
    (hbefore : before.foldlM (World.step J) (start now control history head) = some w)
    (hstep : w.step J event = some w') (hafter : after.foldlM (World.step J) w' = some w'') :
    w.Sound ∧ w.Permitted J event w' ∧ w.Keeps w' ∧ w'.Keeps w'' := by
  have hw := reached_of_run hbefore
  exact ⟨hw.sound, hw.permitted hstep, hw.keeps hstep, (hw.step hstep).keeps_run hafter⟩

/-- A judge that takes every evaluation as it is. -/
def verbatimJudge : Judge :=
  { version := "v1", assessment := .ok, revisionId := ("revision:" ++ ·) }

def oneShotJob : JudgeJob :=
  { jobId := "job", identity := ⟨"owner", "harness", "session"⟩, checkpointId := "checkpoint"
    expectedRevision := none, model := "m", inputDigest := "digest", modeEpoch := none
    status := .queued }

/-- Worker 0 stores its response and is slow; worker 1 takes its lease over. -/
def takenOver : List JobEvent :=
  [.enqueue oneShotJob, .examine 0 "digest", .claim 0 "w0" "r0" 0,
    .answer 0 ⟨"r0", "m", "v1", "digest", "good"⟩, .store 0 1, .tick 180,
    .examine 1 "digest", .claim 1 "w1" "r1" 180]

theorem takenOver_reaches :
    ∃ w, takenOver.foldlM (World.step verbatimJudge) (start 0 .default [] none) = some w
      ∧ (w.workers 0).owner = some "w0" ∧ w.row.map (·.job.leaseOwner) = some (some "w1")
      ∧ ∃ w', w.step verbatimJudge (.submit 0 none) = some w' ∧ w'.history ≠ w.history := by
  have hrun : ((takenOver.foldlM (World.step verbatimJudge) (start 0 .default [] none)).bind
      fun w => (w.step verbatimJudge (.submit 0 none)).map fun w' =>
        ((w.workers 0).owner, w.row.map (·.job.leaseOwner), w.history, w'.history.length))
      = some (some "w0", some (some "w1"), [], 1) := by
    decide +kernel
  obtain ⟨w, hw, hstep⟩ := Option.bind_eq_some_iff.mp hrun
  obtain ⟨w', hw', hfacts⟩ := Option.map_eq_some_iff.mp hstep
  simp only [Prod.mk.injEq] at hfacts
  obtain ⟨howner, hlease, hhistory, hlength⟩ := hfacts
  refine ⟨w, hw, howner, hlease, w', hw', fun hsame => ?_⟩
  rw [hsame, hhistory] at hlength
  cases hlength

theorem judge_job_runs_takenOver :
    ∃ w w' : World, w.Sound ∧ w.Permitted verbatimJudge (.submit 0 none) w' ∧ w.Keeps w'
        ∧ w'.Keeps w' := by
  obtain ⟨w, hw, -, -, w', hw', -⟩ := takenOver_reaches
  exact ⟨w, w', judge_job_runs verbatimJudge 0 .default [] none takenOver []
    (.submit 0 none) w w' w'
    hw hw' rfl⟩

/-- **A worker that has lost its lease may still submit**: it has stored the
response, and submits the same one as the worker that took over. -/
theorem lost_lease_submits : ¬ ∀ (J : Judge) (now : ℕ) (control : ControlState)
    (history : List AssessmentRevision) (head : Option String) (before : List JobEvent)
    (event : JobEvent) (n : ℕ) (owner : String) (row : JobRow) (w w' : World),
    before.foldlM (World.step J) (start now control history head) = some w →
    event.worker = some n → (w.workers n).owner = some owner → w.row = some row →
    row.job.leaseOwner ≠ some owner → w.step J event = some w' → w'.history = w.history := by
  intro h
  obtain ⟨w, hw, howner, hlease, w', hw', hhistory⟩ := takenOver_reaches
  obtain ⟨row, hrow, hlease⟩ := Option.map_eq_some_iff.mp hlease
  refine hhistory (h verbatimJudge 0 .default [] none takenOver (.submit 0 none) 0 "w0" row w w'
    hw rfl howner hrow ?_ hw')
  rw [hlease]
  decide

end World

end BitRouter.Evolution
