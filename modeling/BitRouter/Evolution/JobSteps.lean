import BitRouter.Evolution.JobCommits

/-!
# Steps of a judge job

What each step of a worker leaves of the invariant, and what it does to the
requests, the response and the assessments (`World.Did`): one lemma for each
kind of commit, and from them the lemma for every step (`World.Inv.step`).
-/

namespace BitRouter.Evolution

/-- The worker that takes a step. -/
def JobEvent.worker : JobEvent → Option ℕ
  | recover n _ | recovered n | supersede n _ | superseded n | examine n _ | claim n _ _ _
  | renew n _ _ | answer n _ | store n _ | submit n _ | complete n _ | error n | fail n _
  | crash n => some n
  | tick _ | control _ | assess _ _ | enqueue _ => none

variable {owner : String} {revision : ℕ}

namespace World

/-- The owner that the worker of a step runs as. -/
def actor (w : World) (event : JobEvent) : Option String :=
  event.worker.bind fun n => (w.workers n).owner

/-- **The submission of the stored response**, under the submission id of the
job: to a history whose selected revision is the expected one, and in the epoch
of the job. -/
structure Submitted (J : Judge) (w : World) (event : JobEvent) (row : JobRow)
    (receipt : AssessmentRevision) : Prop where
  worker : ∃ n head owner job, event = .submit n head ∧ w.workers n = .submitting owner job
  response : ∃ response, row.job.cachedResponse = some response ∧ row.job.Answers J response
    ∧ row.job.submission J response = .ok receipt.input
  submissionId : receipt.input.submissionId = row.job.submissionId
  head : w.head = row.job.expectedRevision
  mode : (row.job.checkMode w.control).isOk

/-- **What a step does.** -/
structure Did (J : Judge) (w : World) (event : JobEvent) (w' : World) (row row' : JobRow) :
    Prop where
  commit : row' = row ∨ row.Follows w.owners (w.actor event) row'
  owners : w.owners ⊆ w'.owners
  issued : w.issued <+: w'.issued
  /-- A response is stored by the worker that made the last request. -/
  stored : row'.job.cachedResponse = row.job.cachedResponse ∨
    ∃ n revision owner job response, event = .store n revision
      ∧ w.workers n = .answered owner job response ∧ row'.job.cachedResponse = some response
      ∧ row.job.leaseOwner = some owner
      ∧ w.issued.getLast? = some (response.requestId, owner)
  history : w'.history = w.history ∨
    (∃ receipt head, event = .assess receipt head ∧ w'.history = w.history ++ [receipt]) ∨
    ∃ receipt, w'.history = w.history ++ [receipt] ∧ w.Submitted J event row receipt

def Leaves (J : Judge) (w : World) (event : JobEvent) (w' : World) (row : JobRow) : Prop :=
  ∃ row', w'.Inv row' ∧ w.Did J event w' row row'

variable {J : Judge} {w w' : World} {event : JobEvent} {row row' : JobRow} {n : ℕ}

/-- A step that only looks. -/
theorem Inv.leaves_still (hw : w.Inv row) (hrow : w'.row = w.row)
    (hworkers : w'.workers = w.workers) (howners : w'.owners = w.owners)
    (hissued : w'.issued = w.issued)
    (hhistory : w'.history = w.history ∨
      ∃ receipt head, event = .assess receipt head ∧ w'.history = w.history ++ [receipt]) :
    w.Leaves J event w' row := by
  refine ⟨row, ?_, .inl rfl, howners ▸ List.Subset.refl _, hissued ▸ List.prefix_rfl, .inl rfl,
    hhistory.imp_right .inl⟩
  exact {
    found := hrow.trans hw.found
    fits := fun m => hworkers ▸ hissued ▸ hw.fits m
    distinct := hworkers ▸ hw.distinct
    drawn := howners ▸ hworkers ▸ hw.drawn
    lease := howners ▸ hw.lease
    issued := hissued ▸ hw.issued
    attempts := hw.attempts
    cached := hissued ▸ hw.cached
    completed := hw.completed }

theorem Inv.leaves_place (hw : w.Inv row) (pc : Pc) (hpc : pc.Fits row w.issued)
    (howner : ∀ owner, pc.owner = some owner → (w.workers n).owner = some owner) :
    w.Leaves J event (w.place n pc) row :=
  ⟨row, hw.place hpc howner, .inl rfl, List.Subset.refl _, List.prefix_rfl, .inl rfl, .inl rfl⟩

section

variable (hw : w.Inv row) (hevent : event.worker = some n)

include hw hevent

theorem Inv.leaves_update (h : row.Follows w.owners (w.workers n).owner row')
    (hrequests : row'.job.requestIds = row.job.requestIds)
    (hcached : row'.job.cachedResponse = row.job.cachedResponse)
    (hlease : ∀ owner, row'.job.leaseOwner = some owner → row.job.leaseOwner = some owner)
    {pc : Pc} (hpc : pc.Fits row' w.issued)
    (howner : ∀ owner, pc.owner = some owner → (w.workers n).owner = some owner) :
    w.Leaves J event ((w.write row').place n pc) row := by
  have hactor : w.actor event = (w.workers n).owner := by
    rw [actor, hevent]
    rfl
  exact ⟨row', hw.update h hrequests hcached hlease hpc howner, .inr (hactor ▸ h),
    List.Subset.refl _, List.prefix_rfl, .inl hcached, .inl rfl⟩

/-- **A worker that has claimed the job lets it go.** -/
theorem Inv.leaves_owned (howner : (w.workers n).owner = some owner)
    {update : JudgeJob → JudgeJob} (htask : (update row.job).task = row.job.task)
    (hrequests : (update row.job).requestIds = row.job.requestIds)
    (hcached : (update row.job).cachedResponse = row.job.cachedResponse)
    (hlease : (update row.job).leaseOwner = none)
    (h : w.updated revision (·.owned owner update) = some row') :
    w.Leaves J event ((w.write row').place n .idle) row := by
  obtain ⟨-, job, hjob, rfl⟩ := (updated_eq_some hw.found).mp h
  obtain ⟨hown, rfl⟩ := JudgeJob.owned_eq_ok.mp hjob
  have hfollows : row.Follows w.owners (w.workers n).owner
      { revision := row.revision + 1, job := update row.job } :=
    JobRow.follows_release (hw.unfinished hown) (fun other hother => by
      obtain rfl : owner = other := Option.some.inj (howner.symm.trans hother)
      exact hown) htask hrequests hcached hlease
  refine hw.leaves_update hevent hfollows hrequests hcached (fun other hother => ?_) trivial
    (fun _ h => by cases h)
  rw [show (update row.job).leaseOwner = none from hlease] at hother
  cases hother

/-- **A worker that has not claimed the job retires it.** -/
theorem Inv.leaves_retired (hnone : (w.workers n).owner = none) {seen : JobRow}
    (hseen : row.Seen seen) {change : JudgeJob → Except String JudgeJob}
    (hchange : ∀ job, change row.job = .ok job → job.task = row.job.task
      ∧ job.requestIds = row.job.requestIds ∧ job.cachedResponse = row.job.cachedResponse
      ∧ job.leaseOwner = none) (h : w.updated seen.revision change = some row') :
    w.Leaves J event ((w.write row').place n .idle) row := by
  obtain ⟨hrevision, job, hjob, rfl⟩ := (updated_eq_some hw.found).mp h
  obtain ⟨htask, hrequests, hcached, hlease⟩ := hchange job hjob
  have hopen : row.job.status ≠ .completed := hseen.eq hrevision ▸ hseen.1
  have hfollows : row.Follows w.owners (w.workers n).owner
      { revision := row.revision + 1, job } :=
    JobRow.follows_release hopen (fun other hother => by
      rw [hnone] at hother
      cases hother) htask hrequests hcached hlease
  refine hw.leaves_update hevent hfollows hrequests hcached (fun other hother => ?_) trivial
    (fun _ h => by cases h)
  rw [show job.leaseOwner = none from hlease] at hother
  cases hother

end

def claimed (w : World) (n : ℕ) (row : JobRow) (pc : Pc) (owner : String)
    (drawn : List (String × String)) : World :=
  { (w.write row).place n pc with
    owners := w.owners ++ [owner], issued := w.issued ++ drawn }

theorem Inv.leaves_claimed (hw : w.Inv row) (hevent : event.worker = some n)
    (hnone : (w.workers n).owner = none) (hnew : owner ∉ w.owners)
    (h : row.Follows w.owners none row') {drawn : List (String × String)}
    (hrequests : row'.job.requestIds = row.job.requestIds ++ drawn.map Prod.fst)
    (hcached : row'.job.cachedResponse = row.job.cachedResponse)
    (hlease : row'.job.leaseOwner = some owner) {pc : Pc} (hpc : pc.Fits row' (w.issued ++ drawn))
    (howner : pc.owner = some owner) :
    w.Leaves J event (w.claimed n row' pc owner drawn) row := by
  have hat : (w.claimed n row' pc owner drawn).workers n = pc := if_pos rfl
  have hmem : owner ∈ (w.claimed n row' pc owner drawn).owners :=
    List.mem_append_right _ (List.mem_singleton_self _)
  have hactor : w.actor event = none := by
    rw [actor, hevent]
    exact hnone
  refine ⟨row', ?_, .inr (hactor ▸ h), List.subset_append_left _ _, List.prefix_append _ _,
    .inl hcached, .inl rfl⟩
  refine hw.commit (n := n) (hnone ▸ h) rfl (fun m hm => if_neg hm) (by rwa [hat])
    (fun other hother => ?_) (List.subset_append_left _ _) (fun other hother => ?_)
    (List.prefix_append _ _) ?_ (fun response hr => .inl (hcached ▸ hr))
  · rw [hat, howner] at hother
    obtain rfl := Option.some.inj hother
    exact .inr ⟨hnew, hmem⟩
  · rw [hlease] at hother
    obtain rfl := Option.some.inj hother
    exact hmem
  · show row'.job.requestIds = (w.issued ++ drawn).map Prod.fst
    rw [hrequests, hw.issued, List.map_append]

/-- **A claim.** The owner is new; where a request is drawn, it is the last one
and the owner's. -/
theorem Inv.leaves_claim (hw : w.Inv row) {request : String} {now : ℕ}
    (h : w.step J (.claim n owner request now) = some w') :
    w.Leaves J (.claim n owner request now) w' row := by
  cases hpc : w.workers n with
  | claiming seen =>
    simp only [step, hpc, Option.ite_none_right_eq_some] at h
    obtain ⟨⟨-, hnew, -, -⟩, h⟩ := h
    obtain ⟨row', hupdated, h⟩ := Option.map_eq_some_iff.mp h
    obtain ⟨hrevision, job, hjob, hrow'⟩ := (updated_eq_some hw.found).mp hupdated
    have hseen : row.Seen seen := by
      have hfits := hw.fits n
      rwa [hpc] at hfits
    have hopen : row.job.status ≠ .completed := hseen.eq hrevision ▸ hseen.1
    have hnone : (w.workers n).owner = none := by
      rw [hpc]
      rfl
    have hfollows : row.Follows w.owners none row' :=
      hrow' ▸ JobRow.follows_claim hopen hnew hjob
    rcases JudgeJob.of_claim_eq_ok hjob with ⟨hcached, hjob⟩ | ⟨hcached, -, hjob⟩
    · -- the stored response is submitted
      obtain ⟨response, hresponse⟩ := Option.isSome_iff_exists.mp hcached
      have hcached' : row'.job.cachedResponse = some response := by
        rw [hrow', hjob]
        exact hresponse
      rw [if_pos (by rw [hcached']; rfl)] at h
      have hw' : w' = w.claimed n row' (.submitting owner row'.job) owner [] := by
        rw [← h, claimed, List.append_nil]
        rfl
      rw [hw']
      refine hw.leaves_claimed rfl hnone hnew hfollows ?_ (hcached'.trans hresponse.symm) ?_
        ⟨rfl, rfl, response, hcached', hcached'⟩ rfl
      · rw [hrow', hjob]
        exact (List.append_nil _).symm
      · rw [hrow', hjob]
    · -- a request is made
      have hcached' : row'.job.cachedResponse = none := by
        rw [hrow', hjob]
        exact hcached
      rw [if_neg (by rw [hcached']; simp)] at h
      rw [← h]
      show w.Leaves J (.claim n owner request now)
        (w.claimed n row' (.calling owner row'.job) owner [(request, owner)]) row
      refine hw.leaves_claimed rfl hnone hnew hfollows ?_ (hcached'.trans hcached.symm) ?_
        ⟨rfl, fun _ => ⟨rfl, hcached', request, List.getLast?_concat⟩⟩ rfl
      · rw [hrow', hjob]
        rfl
      · rw [hrow', hjob]
  | _ =>
    simp [step, hpc] at h

/-- **A renewal.** -/
theorem Inv.leaves_renew (hw : w.Inv row) {now : ℕ}
    (h : w.step J (.renew n revision now) = some w') :
    w.Leaves J (.renew n revision now) w' row := by
  cases hpc : w.workers n with
  | calling owner job =>
    simp only [step, hpc, Option.ite_none_right_eq_some] at h
    obtain ⟨row', hupdated, h⟩ := Option.map_eq_some_iff.mp h.2
    obtain ⟨-, job', hjob, rfl⟩ := (updated_eq_some hw.found).mp hupdated
    obtain ⟨hown, rfl⟩ := JudgeJob.owned_eq_ok.mp hjob
    have howner : (w.workers n).owner = some owner := by
      rw [hpc]
      rfl
    have hasked : job.Asked row w.issued owner := by
      have hfits := hw.fits n
      rwa [hpc] at hfits
    have hsame : w' = (w.write { revision := row.revision + 1, job := row.job.renew now }).place n
        (.calling owner job) := by
      have hworkers : (fun m => if m = n then Pc.calling owner job else w.workers m)
          = w.workers := by
        funext m
        split
        · rename_i hm
          rw [hm, hpc]
        · rfl
      rw [← h]
      simp only [World.place, write, hworkers]
    have hevent : (JobEvent.renew n revision now).worker = some n := rfl
    have hfollows : row.Follows w.owners (w.workers n).owner
        { revision := row.revision + 1, job := row.job.renew now } := by
      rw [howner]
      exact JobRow.follows_renew (hw.unfinished hown) hown now
    rw [hsame]
    exact hw.leaves_update hevent hfollows rfl rfl (fun _ hlease => hlease)
      (show Pc.Fits _ _ (.calling owner job) from ⟨hasked.task, hasked.current⟩)
      (fun other hother => howner.trans hother)
  | _ =>
    simp [step, hpc] at h

/-- **A response is stored.** -/
theorem Inv.leaves_store (hw : w.Inv row) (h : w.step J (.store n revision) = some w') :
    w.Leaves J (.store n revision) w' row := by
  cases hpc : w.workers n with
  | answered owner job response =>
    simp only [step, hpc] at h
    obtain ⟨row', hupdated, h⟩ := Option.map_eq_some_iff.mp h
    obtain ⟨-, job', hjob, rfl⟩ := (updated_eq_some hw.found).mp hupdated
    obtain ⟨hown, rfl⟩ := JudgeJob.owned_eq_ok.mp hjob
    have howner : (w.workers n).owner = some owner := by
      rw [hpc]
      rfl
    have hfits := hw.fits n
    rw [hpc] at hfits
    obtain ⟨hasked, hanswer⟩ := hfits
    obtain ⟨hcopy, hnone, request, hlast⟩ := hasked.current hown
    have hrequest : request = response.requestId := by
      have hids : (w.issued.map Prod.fst).getLast? = some response.requestId := by
        rw [← hw.issued, hcopy, hanswer]
      rw [List.getLast?_map, hlast] at hids
      exact Option.some.inj hids
    subst hrequest
    have hfollows : row.Follows w.owners (some owner)
        { revision := row.revision + 1, job := row.job.store response } :=
      JobRow.follows_store response (hw.unfinished hown) hown hnone
    rw [← h]
    refine ⟨{ revision := row.revision + 1, job := row.job.store response }, ?_, .inr ?_,
      List.Subset.refl _, List.prefix_rfl,
        .inr ⟨n, revision, owner, job, response, rfl, hpc, rfl, hown,
        hlast⟩, .inl rfl⟩
    · have hat : ∀ pc, ((w.write
        { revision := row.revision + 1, job := row.job.store response }).place
          n pc).workers n = pc := fun pc => if_pos rfl
      refine hw.commit (n := n) (howner ▸ hfollows) rfl
        (fun m hm => if_neg hm) ?_ (fun other hother => ?_) (List.Subset.refl _) hw.lease
        List.prefix_rfl hw.issued (fun response' hr => .inr ⟨owner, ?_⟩)
      · rw [hat]
        exact ⟨hasked.task, hcopy.symm, response, rfl, rfl⟩
      · rw [hat] at hother
        exact .inl (howner.trans hother)
      · obtain rfl := Option.some.inj hr
        exact hlast
    · have hactor : w.actor (.store n revision) = some owner := howner
      exact hactor ▸ hfollows
  | _ =>
    simp [step, hpc] at h

/-- A submission finds its receipt or adds it. -/
theorem of_submitAssessment_eq_ok {input : RevisionInput} {head : Option String}
    {receipt : AssessmentRevision} (h : w.submitAssessment J input head = .ok (w', receipt)) :
    receipt.input = input ∧
      (w' = w ∨ w.head = input.expectedRevision
        ∧ w' = { w with history := w.history ++ [receipt], head }) := by
  unfold submitAssessment at h
  cases hfind : w.history.find? (·.input.submissionId = input.submissionId) with
  | some found =>
    simp only [hfind, bind_eq_ok, ensure_eq_ok, pure_eq_ok, exists_const] at h
    obtain ⟨hinput, h⟩ := h
    obtain ⟨rfl, rfl⟩ := Prod.mk.inj h
    exact ⟨hinput, .inl rfl⟩
  | none =>
    simp only [hfind, bind_eq_ok, ensure_eq_ok, pure_eq_ok, exists_const] at h
    obtain ⟨hhead, h⟩ := h
    obtain ⟨rfl, rfl⟩ := Prod.mk.inj h
    exact ⟨rfl, .inr ⟨hhead, rfl⟩⟩

/-- **A submission.** -/
theorem Inv.leaves_submit (hw : w.Inv row) {head : Option String}
    (h : w.step J (.submit n head) = some w') : w.Leaves J (.submit n head) w' row := by
  cases hpc : w.workers n with
  | submitting owner job =>
    have hfits := hw.fits n
    rw [hpc] at hfits
    obtain ⟨htask, hrequests, response, hcopy, hcached⟩ := hfits
    simp only [step, hpc, hcopy, Option.ite_none_right_eq_some] at h
    obtain ⟨⟨hanswers, hmode⟩, h⟩ := h
    cases hinput : job.submission J response with
    | error e =>
      rw [hinput] at h
      cases h
    | ok input =>
      rw [hinput] at h
      obtain ⟨⟨w₁, receipt⟩, hsubmit, rfl⟩ := Option.map_eq_some_iff.mp h
      obtain ⟨rfl, hw₁⟩ := of_submitAssessment_eq_ok (toOption_eq_some.mp hsubmit)
      have hidle : ∀ other, (Pc.completing owner job receipt).owner = some other →
          (w.workers n).owner = some other := fun other hother => by
        rw [hpc]
        exact hother
      obtain rfl | ⟨hhead, rfl⟩ := hw₁
      · exact hw.leaves_place (.completing owner job receipt) trivial hidle
      · have hinv : ({ w with history := w.history ++ [receipt], head } : World).Inv row :=
          { hw with }
        have hinput' : row.job.submission J response = .ok receipt.input :=
          (JudgeJob.submission_congr htask J response).symm.trans hinput
        have hids := JudgeJob.of_submission_eq_ok hinput'
        have hsubmitted : w.Submitted J (.submit n head) row receipt := {
          worker := ⟨n, head, owner, job, rfl, hpc⟩
          response := ⟨response, hcached, hanswers.congr htask hrequests,
            hinput'⟩
          submissionId := hids.1
          head := hhead.trans hids.2
          mode := by
            rw [← JudgeJob.checkMode_congr htask]
            exact hmode }
        exact ⟨row, hinv.place trivial hidle, .inl rfl, List.Subset.refl _, List.prefix_rfl,
          .inl rfl, .inr (.inr ⟨receipt, rfl, hsubmitted⟩)⟩
  | _ =>
    simp [step, hpc] at h

theorem unfinished_of_recoverable {job : JudgeJob} {inputDigest : String}
    {receipt : AssessmentRevision} (h : w.recoverable J job inputDigest = .ok (some receipt)) :
    job.status ≠ .completed := by
  intro hcompleted
  unfold recoverable at h
  cases hcached : job.cachedResponse with
  | none =>
    rw [hcached] at h
    cases h
  | some response =>
    rw [hcached] at h
    simp only [hcompleted, true_or, if_true] at h
    cases pure_eq_ok.mp h

/-- **One step.** -/
theorem Inv.step (hw : w.Inv row) (h : w.step J event = some w') : w.Leaves J event w' row := by
  cases event with
  | tick now =>
    simp only [World.step, Option.ite_none_right_eq_some, Option.some.injEq] at h
    exact h.2 ▸ hw.leaves_still rfl rfl rfl rfl (.inl rfl)
  | control control =>
    obtain rfl := Option.some.inj h
    exact hw.leaves_still rfl rfl rfl rfl (.inl rfl)
  | assess receipt head =>
    obtain rfl := Option.some.inj h
    exact hw.leaves_still rfl rfl rfl rfl (.inr ⟨receipt, head, rfl, rfl⟩)
  | enqueue job =>
    simp only [World.step, hw.found, Option.some.injEq] at h
    exact h ▸ hw.leaves_still rfl rfl rfl rfl (.inl rfl)
  | recover n inputDigest =>
    cases hpc : w.workers n with
    | idle =>
      simp only [World.step, hpc, hw.found] at h
      cases hreceipt : w.recoverable J row.job inputDigest with
      | error e => simp [hreceipt] at h
      | ok found =>
        cases found with
        | none => simp [hreceipt] at h
        | some receipt =>
          simp only [hreceipt, Option.some.injEq] at h
          have hopen := unfinished_of_recoverable hreceipt
          exact h ▸ hw.leaves_place (.recovering row receipt) ⟨hopen, .inl rfl⟩
            (fun _ h => by cases h)
    | _ => simp [World.step, hpc, hw.found] at h
  | recovered n =>
    cases hpc : w.workers n with
    | recovering seen receipt =>
      have hfits := hw.fits n
      simp only [World.step, hpc] at h hfits
      obtain ⟨row', hupdated, rfl⟩ := Option.map_eq_some_iff.mp h
      refine hw.leaves_retired rfl (by rw [hpc]; rfl) hfits (fun job hjob => ?_) hupdated
      obtain ⟨-, rfl⟩ := JudgeJob.recover_eq_ok.mp hjob
      exact ⟨rfl, rfl, rfl, rfl⟩
    | _ => simp [World.step, hpc] at h
  | supersede n code =>
    cases hpc : w.workers n with
    | idle =>
      simp only [World.step, hpc, hw.found, Option.ite_none_left_eq_some] at h
      obtain ⟨hopen, h⟩ := h
      obtain rfl := Option.some.inj h
      exact hw.leaves_place (.superseding row code)
        ⟨fun hcompleted => hopen (.inl hcompleted), .inl rfl⟩
        (fun _ h => by cases h)
    | _ => simp [World.step, hpc, hw.found] at h
  | superseded n =>
    cases hpc : w.workers n with
    | superseding seen code =>
      have hfits := hw.fits n
      simp only [World.step, hpc] at h hfits
      obtain ⟨row', hupdated, rfl⟩ := Option.map_eq_some_iff.mp h
      refine hw.leaves_retired rfl (by rw [hpc]; rfl) hfits (fun job hjob => ?_) hupdated
      obtain ⟨-, rfl⟩ := JudgeJob.supersede_eq_ok.mp hjob
      exact ⟨rfl, rfl, rfl, rfl⟩
    | _ => simp [World.step, hpc] at h
  | examine n inputDigest =>
    cases hpc : w.workers n with
    | idle =>
      simp only [World.step, hpc, hw.found, Option.ite_none_right_eq_some] at h
      obtain ⟨⟨hopen, -⟩, h⟩ := h
      obtain rfl := Option.some.inj h
      exact hw.leaves_place (.claiming row) ⟨hopen, .inl rfl⟩ (fun _ h => by cases h)
    | _ => simp [World.step, hpc, hw.found] at h
  | claim n owner request now => exact hw.leaves_claim h
  | renew n revision now => exact hw.leaves_renew h
  | answer n response =>
    cases hpc : w.workers n with
    | calling owner job =>
      have hfits := hw.fits n
      simp only [World.step, hpc, Option.ite_none_right_eq_some] at h hfits
      obtain ⟨⟨hlast, -⟩, h⟩ := h
      obtain rfl := Option.some.inj h
      exact hw.leaves_place (.answered owner job response) ⟨hfits, hlast⟩
        (fun other hother => by rw [hpc]; exact hother)
    | _ => simp [World.step, hpc] at h
  | store n revision => exact hw.leaves_store h
  | submit n head => exact hw.leaves_submit h
  | complete n revision =>
    cases hpc : w.workers n with
    | completing owner job receipt =>
      simp only [World.step, hpc] at h
      obtain ⟨row', hupdated, rfl⟩ := Option.map_eq_some_iff.mp h
      exact hw.leaves_owned rfl (by rw [hpc]; rfl) rfl rfl rfl rfl hupdated
    | _ => simp [World.step, hpc] at h
  | error n =>
    cases hpc : w.workers n with
    | calling owner job | answered owner job response | submitting owner job
    | completing owner job receipt =>
      simp only [World.step, hpc, Option.some.injEq] at h
      exact h ▸ hw.leaves_place (.failing owner job) trivial
        (fun other hother => by rw [hpc]; exact hother)
    | _ => simp [World.step, hpc] at h
  | fail n revision =>
    cases hpc : w.workers n with
    | failing owner job =>
      simp only [World.step, hpc] at h
      obtain ⟨row', hupdated, rfl⟩ := Option.map_eq_some_iff.mp h
      exact hw.leaves_owned rfl (by rw [hpc]; rfl) rfl rfl rfl rfl hupdated
    | _ => simp [World.step, hpc] at h
  | crash n =>
    obtain rfl := Option.some.inj h
    exact hw.leaves_place (.idle) trivial (fun _ h => by cases h)

end World

end BitRouter.Evolution
