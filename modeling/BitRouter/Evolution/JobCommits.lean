import BitRouter.Evolution.Jobs

/-!
# Commits of a judge job

A commit changes the row of a job only from the revision that its worker has
read, or under the lease that its worker owns, so that each commit is one of a
few (`JobRow.Follows`). What is known of the job, and of what its workers hold,
is kept by such a commit (`World.Inv.commit`).

An owner is drawn anew for every claim. A worker that has lost its lease
therefore never owns the job again, and what it still holds of it is stale: the
invariant speaks of a worker's copy of the requests only as long as the lease is
its own (`JudgeJob.Asked`).
-/

namespace BitRouter.Evolution

variable {now : ℕ} {owner : String} {response : JudgeOutput}

namespace JudgeJob

/-- The job as it was enqueued. -/
def task (job : JudgeJob) : JudgeJob :=
  { job with
    status := .queued, leaseOwner := none, leaseUntil := none, requestIds := []
    cachedResponse := none, outcomeRevision := none, errorCode := none }

variable {job job' : JudgeJob}

/-! What is submitted is a matter of the task. -/

theorem submission_congr (h : job.task = job'.task) (J : Judge) (response : JudgeOutput) :
    job.submission J response = job'.submission J response := by
  show job.task.submission J response = job'.task.submission J response
  rw [h]

theorem of_submission_eq_ok {J : Judge} {input : RevisionInput}
    (h : job.submission J response = .ok input) :
    input.submissionId = job.submissionId ∧ input.expectedRevision = job.expectedRevision := by
  obtain ⟨assessment, -, h⟩ := bind_eq_ok.mp h
  obtain rfl := pure_eq_ok.mp h
  exact ⟨rfl, rfl⟩

theorem checkMode_congr (h : job.task = job'.task) (control : ControlState) :
    job.checkMode control = job'.checkMode control := by
  show job.task.checkMode control = job'.task.checkMode control
  rw [h]

theorem Answers.congr {J : Judge} (hanswers : job.Answers J response) (h : job.task = job'.task)
    (hrequests : job.requestIds = job'.requestIds) :
    job'.Answers J response := by
  obtain ⟨hdigest, hmodel, hversion, hlast⟩ := hanswers
  have hdigest' : job.task.inputDigest = job'.task.inputDigest := congrArg _ h
  have hmodel' : job.task.model = job'.task.model := congrArg _ h
  exact ⟨hdigest.trans hdigest', hmodel.trans hmodel', hversion, hrequests ▸ hlast⟩

/-! ## What the updates do -/

theorem supersede_eq_ok {code : String} :
    job.supersede code now = .ok job' ↔ job.leaseLive now = false ∧ job' = { job with
      status := .superseded, errorCode := some code, leaseOwner := none, leaseUntil := none } := by
  simp only [supersede, bind_eq_ok, ensure_eq_ok, pure_eq_ok, exists_const]
  exact and_congr_right fun _ => eq_comm

theorem recover_eq_ok {revisionId : String} :
    job.recover revisionId now = .ok job' ↔ job.leaseLive now = false ∧ job' = { job with
      status := .completed, outcomeRevision := some revisionId, errorCode := none
      leaseOwner := none, leaseUntil := none } := by
  simp only [recover, bind_eq_ok, ensure_eq_ok, pure_eq_ok, exists_const]
  exact and_congr_right fun _ => eq_comm

theorem owned_eq_ok {update : JudgeJob → JudgeJob} :
    job.owned owner update = .ok job' ↔ job.leaseOwner = some owner ∧ job' = update job := by
  simp only [owned, bind_eq_ok, ensure_eq_ok, pure_eq_ok, exists_const]
  exact and_congr_right fun _ => eq_comm

theorem of_claim_eq_ok {request : String} (h : job.claim owner request now = .ok job') :
    (job.cachedResponse.isSome ∧ job' = { job with
      leaseOwner := some owner, leaseUntil := some (now + leaseSeconds) }) ∨
    (job.cachedResponse = none ∧ job.requestIds.length < maxAttempts ∧ job' = { job with
      leaseOwner := some owner, leaseUntil := some (now + leaseSeconds)
      requestIds := job.requestIds ++ [request], status := .running }) := by
  simp only [claim, bind_eq_ok, ensure_eq_ok] at h
  obtain ⟨-, -, -, hattempts, h⟩ := h
  cases hcached : job.cachedResponse with
  | some response =>
    rw [hcached] at h
    exact .inl ⟨rfl, (pure_eq_ok.mp h).symm⟩
  | none =>
    rw [hcached] at h hattempts
    exact .inr ⟨rfl, hattempts.resolve_left (by simp), (pure_eq_ok.mp h).symm⟩

end JudgeJob

namespace JobRow

variable {row row' : JobRow} {owners : List String} {actor : Option String}

theorem update_eq_ok {expected : ℕ} {change : JudgeJob → Except String JudgeJob} :
    row.update expected change = .ok row' ↔
      row.revision = expected ∧ ∃ job, change row.job = .ok job
        ∧ row' = { revision := row.revision + 1, job } := by
  simp only [update, bind_eq_ok, ensure_eq_ok, pure_eq_ok, exists_const]
  exact and_congr_right fun _ => exists_congr fun _ => and_congr_right fun _ => eq_comm

/-- **What a commit does to the row.** The `owners` are those drawn before it, the
`actor` is the owner its worker runs as. -/
structure Follows (owners : List String) (actor : Option String) (row row' : JobRow) : Prop where
  unfinished : row.job.status ≠ .completed
  /-- A worker that has claimed the job changes it only while the lease is its own. -/
  owned : ∀ owner, actor = some owner → row.job.leaseOwner = some owner
  revision : row.revision < row'.revision
  task : row'.job.task = row.job.task
  requests : row'.job.requestIds = row.job.requestIds ∨
    row.job.cachedResponse = none ∧ row.job.requestIds.length < maxAttempts
      ∧ ∃ request, row'.job.requestIds = row.job.requestIds ++ [request]
  cached : ∀ response, row.job.cachedResponse = some response →
    row'.job.cachedResponse = some response
  /-- Only a worker that has claimed the job stores a response. -/
  stored : ∀ response, row'.job.cachedResponse = some response →
    row.job.cachedResponse = some response ∨ actor ≠ none
  /-- No owner of before gets the lease. -/
  lease : ∀ owner ∈ owners, row'.job.leaseOwner = some owner →
    row.job.leaseOwner = some owner ∧ row'.job.requestIds = row.job.requestIds
  completed : row'.job.status = .completed → row'.job.leaseOwner = none

theorem Follows.requests_of_cached (h : Follows owners actor row row')
    (hcached : row.job.cachedResponse = some response) :
    row'.job.requestIds = row.job.requestIds := by
  rcases h.requests with hsame | ⟨hnone, -⟩
  · exact hsame
  · rw [hcached] at hnone
    cases hnone

/-- To retire a job, or to let it go, is a commit. -/
theorem follows_release {job : JudgeJob} (hopen : row.job.status ≠ .completed)
    (howned : ∀ owner, actor = some owner → row.job.leaseOwner = some owner)
    (htask : job.task = row.job.task) (hrequests : job.requestIds = row.job.requestIds)
    (hcached : job.cachedResponse = row.job.cachedResponse) (hlease : job.leaseOwner = none) :
    Follows owners actor row { revision := row.revision + 1, job } where
  unfinished := hopen
  owned := howned
  revision := Nat.lt_succ_self _
  task := htask
  requests := .inl hrequests
  cached _ h := hcached.trans h
  stored _ h := .inl (hcached.symm.trans h)
  lease owner _ h := by
    rw [show job.leaseOwner = none from hlease] at h
    cases h
  completed _ := hlease

theorem follows_claim {job : JudgeJob} {request : String} (hopen : row.job.status ≠ .completed)
    (hnew : owner ∉ owners) (h : row.job.claim owner request now = .ok job) :
    Follows owners none row { revision := row.revision + 1, job } := by
  have hlease : job.leaseOwner = some owner := by
    rcases JudgeJob.of_claim_eq_ok h with ⟨-, rfl⟩ | ⟨-, -, rfl⟩ <;> rfl
  have hcached : job.cachedResponse = row.job.cachedResponse := by
    rcases JudgeJob.of_claim_eq_ok h with ⟨-, rfl⟩ | ⟨-, -, rfl⟩ <;> rfl
  have hstatus : job.status ≠ .completed := by
    rcases JudgeJob.of_claim_eq_ok h with ⟨-, rfl⟩ | ⟨-, -, rfl⟩
    · exact hopen
    · simp
  exact {
    unfinished := hopen
    owned := by simp
    revision := Nat.lt_succ_self _
    task := by rcases JudgeJob.of_claim_eq_ok h with ⟨-, rfl⟩ | ⟨-, -, rfl⟩ <;> rfl
    requests := by
      rcases JudgeJob.of_claim_eq_ok h with ⟨-, rfl⟩ | ⟨hnone, hattempts, rfl⟩
      · exact .inl rfl
      · exact .inr ⟨hnone, hattempts, request, rfl⟩
    cached := fun _ hresponse => hcached.trans hresponse
    stored := fun _ hresponse => .inl (hcached.symm.trans hresponse)
    lease := fun other hother hsome => by
      have heq : owner = other := Option.some.inj (hlease.symm.trans hsome)
      exact absurd (heq ▸ hother) hnew
    completed := fun hcompleted => absurd hcompleted hstatus }

/-- To renew a lease is a commit. -/
theorem follows_renew (hopen : row.job.status ≠ .completed)
    (hlease : row.job.leaseOwner = some owner) (now : ℕ) :
    Follows owners (some owner) row
      { revision := row.revision + 1, job := row.job.renew now } where
  unfinished := hopen
  owned other h := by
    obtain rfl := Option.some.inj h
    exact hlease
  revision := Nat.lt_succ_self _
  task := rfl
  requests := .inl rfl
  cached _ h := h
  stored _ h := .inl h
  lease _ _ h := ⟨h, rfl⟩
  completed h := absurd h hopen

theorem follows_store (response : JudgeOutput) (hopen : row.job.status ≠ .completed)
    (hlease : row.job.leaseOwner = some owner) (hnone : row.job.cachedResponse = none) :
    Follows owners (some owner) row
      { revision := row.revision + 1, job := row.job.store response } where
  unfinished := hopen
  owned other h := by
    obtain rfl := Option.some.inj h
    exact hlease
  revision := Nat.lt_succ_self _
  task := rfl
  requests := .inl rfl
  cached _ h := by
    rw [hnone] at h
    cases h
  stored _ _ := .inr (Option.some_ne_none owner)
  lease _ _ h := ⟨h, rfl⟩
  completed h := by cases h

end JobRow

/-! ## The invariant -/

/-- **A worker that has made a request.** As long as the lease is its own, the
request is the last one, and no response is stored. -/
structure JudgeJob.Asked (row : JobRow) (issued : List (String × String)) (owner : String)
    (job : JudgeJob) : Prop where
  task : job.task = row.job.task
  current : row.job.leaseOwner = some owner →
    row.job.requestIds = job.requestIds ∧ row.job.cachedResponse = none
      ∧ ∃ request, issued.getLast? = some (request, owner)

/-- A row that was read and not found completed. -/
def JobRow.Seen (row seen : JobRow) : Prop :=
  seen.job.status ≠ .completed ∧ (seen = row ∨ seen.revision < row.revision)

theorem JobRow.Seen.eq {row seen : JobRow} (hseen : row.Seen seen)
    (hrevision : row.revision = seen.revision) : seen = row := by
  rcases hseen.2 with heq | hlt
  · exact heq
  · exact absurd hrevision hlt.ne'

/-- **What a worker holds of the row.** -/
def Pc.Fits (row : JobRow) (issued : List (String × String)) : Pc → Prop
  | recovering seen _ | superseding seen _ | claiming seen => row.Seen seen
  | calling owner job => job.Asked row issued owner
  | answered owner job response =>
    job.Asked row issued owner ∧ job.requestIds.getLast? = some response.requestId
  | submitting _ job =>
    job.task = row.job.task ∧ job.requestIds = row.job.requestIds
      ∧ ∃ response, job.cachedResponse = some response ∧ row.job.cachedResponse = some response
  | idle | completing _ _ _ | failing _ _ => True

/-- **The invariant.** -/
structure World.Inv (w : World) (row : JobRow) : Prop where
  found : w.row = some row
  fits : ∀ n, (w.workers n).Fits row w.issued
  distinct : ∀ n m owner, (w.workers n).owner = some owner → (w.workers m).owner = some owner →
    n = m
  drawn : ∀ n owner, (w.workers n).owner = some owner → owner ∈ w.owners
  lease : ∀ owner, row.job.leaseOwner = some owner → owner ∈ w.owners
  issued : row.job.requestIds = w.issued.map Prod.fst
  attempts : row.job.requestIds.length ≤ maxAttempts
  cached : ∀ response, row.job.cachedResponse = some response →
    ∃ owner, w.issued.getLast? = some (response.requestId, owner)
  completed : row.job.status = .completed → row.job.leaseOwner = none

/-- What the others hold survives a commit. -/
theorem Pc.Fits.follows {row row' : JobRow} {owners : List String} {actor : Option String}
    {issued issued' : List (String × String)} {pc : Pc} (hfits : pc.Fits row issued)
    (h : row.Follows owners actor row') (hdrawn : ∀ owner, pc.owner = some owner → owner ∈ owners)
    (hother : ∀ owner, pc.owner = some owner → actor ≠ some owner)
    (hissued : row'.job.requestIds = row.job.requestIds → issued' = issued) :
    pc.Fits row' issued' := by
  have hseen : ∀ seen, row.Seen seen → row'.Seen seen := by
    rintro seen ⟨hopen, rfl | hlt⟩
    · exact ⟨hopen, .inr h.revision⟩
    · exact ⟨hopen, .inr (hlt.trans h.revision)⟩
  have hasked : ∀ owner (job : JudgeJob), pc.owner = some owner → job.Asked row issued owner →
      job.Asked row' issued' owner := by
    intro owner job howner hjob
    refine ⟨hjob.task.trans h.task.symm, fun hlease => ?_⟩
    obtain ⟨hlease, hrequests⟩ := h.lease owner (hdrawn owner howner) hlease
    obtain ⟨hcopy, hnone, hlast⟩ := hjob.current hlease
    refine ⟨hrequests.trans hcopy, ?_, hissued hrequests ▸ hlast⟩
    -- a response that is stored now was stored by another, under this lease
    cases hcached : row'.job.cachedResponse with
    | none => rfl
    | some response =>
      rcases h.stored response hcached with hbefore | hactor
      · rw [hnone] at hbefore
        cases hbefore
      · obtain ⟨actor', hactor⟩ := Option.ne_none_iff_exists'.mp hactor
        have heq : actor' = owner := Option.some.inj ((h.owned actor' hactor).symm.trans hlease)
        exact absurd (heq ▸ hactor) (hother owner howner)
  cases pc with
  | idle => trivial
  | recovering seen receipt => exact hseen seen hfits
  | superseding seen code => exact hseen seen hfits
  | claiming seen => exact hseen seen hfits
  | calling owner job => exact hasked owner job rfl hfits
  | answered owner job response => exact ⟨hasked owner job rfl hfits.1, hfits.2⟩
  | submitting owner job =>
    obtain ⟨htask, hrequests, response, hcopy, hcached⟩ := hfits
    exact ⟨htask.trans h.task.symm, hrequests.trans (h.requests_of_cached hcached).symm,
      response, hcopy, h.cached response hcached⟩
  | completing owner job receipt => trivial
  | failing owner job => trivial

namespace World

variable {J : Judge} {w w' : World} {row row' : JobRow} {n : ℕ}

theorem updated_eq_some {expected : ℕ} {change : JudgeJob → Except String JudgeJob}
    (hrow : w.row = some row) : w.updated expected change = some row' ↔
      row.revision = expected ∧ ∃ job, change row.job = .ok job
        ∧ row' = { revision := row.revision + 1, job } := by
  rw [updated, hrow]
  show (row.update expected change).toOption = some row' ↔ _
  rw [← JobRow.update_eq_ok, toOption_eq_some]

/-- **A worker moves on.** -/
theorem Inv.place (hw : w.Inv row) {pc : Pc} (hpc : pc.Fits row w.issued)
    (howner : ∀ owner, pc.owner = some owner → (w.workers n).owner = some owner) :
    (w.place n pc).Inv row := by
  have hbefore : ∀ m owner, ((w.place n pc).workers m).owner = some owner →
      (w.workers m).owner = some owner := by
    intro m owner h
    by_cases hm : m = n
    · subst hm
      exact howner owner (by simpa [World.place] using h)
    · simpa [World.place, hm] using h
  exact {
    found := hw.found
    fits := fun m => by
      by_cases hm : m = n
      · simpa [World.place, hm] using hpc
      · simpa [World.place, hm] using hw.fits m
    distinct := fun m k owner hm hk =>
      hw.distinct m k owner (hbefore m owner hm) (hbefore k owner hk)
    drawn := fun m owner hm => hw.drawn m owner (hbefore m owner hm)
    lease := hw.lease
    issued := hw.issued
    attempts := hw.attempts
    cached := hw.cached
    completed := hw.completed }

theorem issued_eq_of_requests (hw : row.job.requestIds = w.issued.map Prod.fst)
    (hw' : row'.job.requestIds = w'.issued.map Prod.fst) (hgrows : w.issued <+: w'.issued)
    (hrequests : row'.job.requestIds = row.job.requestIds) : w'.issued = w.issued := by
  have hlength : (w.issued.map Prod.fst).length = (w'.issued.map Prod.fst).length := by
    rw [← hw, ← hw', hrequests]
  rw [List.length_map, List.length_map] at hlength
  exact (hgrows.eq_of_length hlength).symm

/-- **A commit keeps the invariant**, if what its own worker holds afterwards
fits. -/
theorem Inv.commit (hw : w.Inv row) (h : row.Follows w.owners (w.workers n).owner row')
    (hrow : w'.row = some row') (hothers : ∀ m, m ≠ n → w'.workers m = w.workers m)
    (hpc : (w'.workers n).Fits row' w'.issued)
    (howner : ∀ owner, (w'.workers n).owner = some owner →
      (w.workers n).owner = some owner ∨ owner ∉ w.owners ∧ owner ∈ w'.owners)
    (howners : w.owners ⊆ w'.owners)
    (hlease : ∀ owner, row'.job.leaseOwner = some owner → owner ∈ w'.owners)
    (hgrows : w.issued <+: w'.issued) (hissued : row'.job.requestIds = w'.issued.map Prod.fst)
    (hstored : ∀ response, row'.job.cachedResponse = some response →
      row.job.cachedResponse = some response ∨
        ∃ owner, w'.issued.getLast? = some (response.requestId, owner)) :
    w'.Inv row' := by
  have hsame : row'.job.requestIds = row.job.requestIds → w'.issued = w.issued :=
    issued_eq_of_requests hw.issued hissued hgrows
  exact {
    found := hrow
    fits := fun m => by
      by_cases hm : m = n
      · exact hm ▸ hpc
      rw [hothers m hm]
      refine (hw.fits m).follows h (hw.drawn m) (fun owner hm' hactor => ?_) hsame
      exact hm (hw.distinct m n owner hm' hactor)
    distinct := fun m k owner hm hk => by
      by_cases hmn : m = n <;> by_cases hkn : k = n
      · exact hmn.trans hkn.symm
      · -- the owner of the worker is its own of before, or a new one
        subst hmn
        rw [hothers k hkn] at hk
        rcases howner owner hm with hold | ⟨hnew, -⟩
        · exact hw.distinct m k owner hold hk
        · exact absurd (hw.drawn k owner hk) hnew
      · subst hkn
        rw [hothers m hmn] at hm
        rcases howner owner hk with hold | ⟨hnew, -⟩
        · exact hw.distinct m k owner hm hold
        · exact absurd (hw.drawn m owner hm) hnew
      · rw [hothers m hmn] at hm
        rw [hothers k hkn] at hk
        exact hw.distinct m k owner hm hk
    drawn := fun m owner hm => by
      by_cases hmn : m = n
      · subst hmn
        rcases howner owner hm with hold | ⟨-, hnew⟩
        · exact howners (hw.drawn m owner hold)
        · exact hnew
      · rw [hothers m hmn] at hm
        exact howners (hw.drawn m owner hm)
    lease := hlease
    issued := hissued
    attempts := by
      rcases h.requests with hrequests | ⟨-, hattempts, request, hrequests⟩
      · rw [hrequests]
        exact hw.attempts
      · rw [hrequests, List.length_append, List.length_singleton]
        exact hattempts
    cached := fun response hcached => by
      rcases hstored response hcached with hbefore | hlast
      · rw [hsame (h.requests_of_cached hbefore)]
        exact hw.cached response hbefore
      · exact hlast
    completed := h.completed }

/-- A commit that leaves the requests and the response and gives no one the
lease. -/
theorem Inv.update (hw : w.Inv row) (h : row.Follows w.owners (w.workers n).owner row')
    (hrequests : row'.job.requestIds = row.job.requestIds)
    (hcached : row'.job.cachedResponse = row.job.cachedResponse)
    (hlease : ∀ owner, row'.job.leaseOwner = some owner → row.job.leaseOwner = some owner)
    {pc : Pc} (hpc : pc.Fits row' w.issued)
    (howner : ∀ owner, pc.owner = some owner → (w.workers n).owner = some owner) :
    ((w.write row').place n pc).Inv row' := by
  have hat : ((w.write row').place n pc).workers n = pc := if_pos rfl
  refine hw.commit (n := n) h rfl (fun m hm => if_neg hm) (by rwa [hat]) ?_ (List.Subset.refl _)
    (fun owner ho => hw.lease owner (hlease owner ho)) (List.prefix_rfl)
    (hrequests.trans hw.issued) (fun response hr => .inl (hcached ▸ hr))
  intro owner ho
  rw [hat] at ho
  exact .inl (howner owner ho)

theorem Inv.unfinished (hw : w.Inv row) (hlease : row.job.leaseOwner = some owner) :
    row.job.status ≠ .completed := by
  intro hcompleted
  rw [hw.completed hcompleted] at hlease
  cases hlease

end World

end BitRouter.Evolution
