import BitRouter.Evolution.Selection

/-!
# Judge jobs

`jobs.rs`: a job asks a model once to judge a checkpoint, keeps the answer and
submits it as an assessment. Any number of workers run the job. A worker claims
it with a lease, makes the call, stores the response, submits it and completes
the job; each of these is a commit of its own, and between any two of them the
worker may be slow, crash or lose its lease. An update of the job names the
revision of the row that was read, and is refused if there is another.

A world is the row of the job, the assessments of its session, the control state
and what each worker is at; `World.step` is one commit or one read of a worker,
or something its surroundings do.
-/

namespace BitRouter.Evolution

open Registry (Value)

def maxAttempts : ℕ := 3

def leaseSeconds : ℕ := 120

inductive JobStatus where
  | queued
  | running
  | responseStored
  | completed
  | failed
  | superseded
deriving DecidableEq, Repr

/-- The response of a judge. -/
structure JudgeOutput where
  requestId : String
  model : String
  judgeVersion : String
  inputDigest : String
  evaluation : String
deriving DecidableEq, Repr

/-- **A job.** The instants of leases are seconds. -/
structure JudgeJob where
  jobId : String
  identity : SessionIdentity
  checkpointId : String
  expectedRevision : Option String
  model : String
  inputDigest : String
  modeEpoch : Option ℕ
  status : JobStatus := .queued
  leaseOwner : Option String := none
  leaseUntil : Option ℕ := none
  /-- The requests of all attempts, also of those that failed. -/
  requestIds : List String := []
  cachedResponse : Option JudgeOutput := none
  outcomeRevision : Option String := none
  errorCode : Option String := none
deriving DecidableEq

structure JobRow where
  revision : ℕ
  job : JudgeJob
deriving DecidableEq

/-- What the assessment of an evaluation is made with: the version of the judge,
the evidence of the checkpoint and the contract of the measurement. -/
structure Judge where
  version : String
  assessment : String → Except String String
  revisionId : String → String

/-- What is submitted. -/
structure RevisionInput where
  submissionId : String
  checkpointId : String
  expectedRevision : Option String
  agentic : Bool
  evaluatorId : String
  evaluatorVersion : String
  assessment : String
deriving DecidableEq, Repr

structure AssessmentRevision where
  revisionId : String
  input : RevisionInput
deriving DecidableEq, Repr

namespace JudgeJob

def leaseLive (job : JudgeJob) (now : ℕ) : Bool := job.leaseUntil.any (now < ·)

def submissionId (job : JudgeJob) : String := "judge:" ++ job.jobId

def evaluatorId (job : JudgeJob) : String := "checkpoint-judge:" ++ job.model

def checkMode (job : JudgeJob) (control : ControlState) : Except String Unit :=
  match job.modeEpoch with
  | none => .ok ()
  | some epoch => ensure (control.mode = .automatic ∧ control.modeEpoch = epoch
      ∧ control.judgeModel = some job.model)
      "automatic judge job belongs to an inactive feedback epoch"

def Answers (J : Judge) (job : JudgeJob) (response : JudgeOutput) : Prop :=
  response.inputDigest = job.inputDigest ∧ response.model = job.model
    ∧ response.judgeVersion = J.version ∧ job.requestIds.getLast? = some response.requestId

instance answersDecidable (J : Judge) (job : JudgeJob) (response : JudgeOutput) :
    Decidable (job.Answers J response) :=
  inferInstanceAs (Decidable (_ ∧ _ ∧ _ ∧ _))

/-! ## Updates of the job -/

/-- Retire a job that is obsolete. -/
def supersede (code : String) (now : ℕ) (job : JudgeJob) : Except String JudgeJob := do
  ensure (job.leaseLive now = false) "judge job became leased"
  return { job with
    status := .superseded, errorCode := some code, leaseOwner := none, leaseUntil := none }

/-- Record a result that was committed before. -/
def recover (revisionId : String) (now : ℕ) (job : JudgeJob) : Except String JudgeJob := do
  ensure (job.leaseLive now = false) "judge job became leased"
  return { job with
    status := .completed, outcomeRevision := some revisionId, errorCode := none
    leaseOwner := none, leaseUntil := none }

/-- **Claim a job**, with a new request unless there is a response. -/
def claim (owner request : String) (now : ℕ) (job : JudgeJob) : Except String JudgeJob := do
  ensure (job.leaseLive now = false) "judge job is already leased by a live worker"
  ensure (job.cachedResponse.isSome ∨ job.requestIds.length < maxAttempts)
    "judge retry limit reached; inspect the job before starting a new evaluation"
  let job := { job with leaseOwner := some owner, leaseUntil := some (now + leaseSeconds) }
  if job.cachedResponse.isSome then return job
  return { job with requestIds := job.requestIds ++ [request], status := .running }

def owned (owner : String) (update : JudgeJob → JudgeJob) (job : JudgeJob) :
    Except String JudgeJob := do
  ensure (job.leaseOwner = some owner) "judge worker lease was superseded"
  return update job

def renew (now : ℕ) (job : JudgeJob) : JudgeJob :=
  { job with leaseUntil := some (now + leaseSeconds) }

def store (response : JudgeOutput) (job : JudgeJob) : JudgeJob :=
  { job with cachedResponse := some response, status := .responseStored }

def complete (revisionId : String) (job : JudgeJob) : JudgeJob :=
  { job with
    outcomeRevision := some revisionId, status := .completed, errorCode := none
    leaseOwner := none, leaseUntil := none }

def fail (job : JudgeJob) : JudgeJob :=
  { job with
    status := .failed, errorCode := some "judge_execution_or_submission_failed"
    leaseOwner := none, leaseUntil := none }

/-- What a response is submitted as. -/
def submission (J : Judge) (job : JudgeJob) (response : JudgeOutput) :
    Except String RevisionInput := do
  let assessment ← J.assessment response.evaluation
  return {
    submissionId := job.submissionId
    checkpointId := job.checkpointId
    expectedRevision := job.expectedRevision
    agentic := true
    evaluatorId := job.evaluatorId
    evaluatorVersion := J.version
    assessment }

end JudgeJob

/-- **An update of the row**, if it still has the revision that was read. -/
def JobRow.update (row : JobRow) (expected : ℕ) (change : JudgeJob → Except String JudgeJob) :
    Except String JobRow := do
  ensure (row.revision = expected) "evolution generation changed; refresh before retrying"
  let job ← change row.job
  return { revision := row.revision + 1, job }

/-! ## The world of a job -/

/-- What a worker is at. A worker that has claimed the job keeps a copy of it. -/
inductive Pc where
  | idle
  /-- Has found the assessment of the job in the history. -/
  | recovering (row : JobRow) (receipt : AssessmentRevision)
  | superseding (row : JobRow) (code : String)
  | claiming (row : JobRow)
  | calling (owner : String) (job : JudgeJob)
  | answered (owner : String) (job : JudgeJob) (response : JudgeOutput)
  | submitting (owner : String) (job : JudgeJob)
  | completing (owner : String) (job : JudgeJob) (receipt : AssessmentRevision)
  | failing (owner : String) (job : JudgeJob)
deriving DecidableEq

namespace Pc

/-- The owner a worker runs as, once it has claimed the job. -/
def owner : Pc → Option String
  | calling owner _ | answered owner _ _ | submitting owner _ | completing owner _ _
  | failing owner _ => some owner
  | _ => none

end Pc

/-- **The row, the history and the workers.** The owners and the requests that
were drawn are kept, and with each request its owner. -/
structure World where
  now : ℕ := 0
  control : ControlState := .default
  row : Option JobRow := none
  history : List AssessmentRevision := []
  head : Option String := none
  workers : ℕ → Pc := fun _ => .idle
  owners : List String := []
  issued : List (String × String) := []

/-- What happens. Where a worker updates the row, `revision` is the one it has
read; where it looks at the clock before, `now` is what it saw. -/
inductive JobEvent where
  | tick (now : ℕ)
  | control (control : ControlState)
  /-- Another assessment is selected in the history. -/
  | assess (receipt : AssessmentRevision) (head : Option String)
  | enqueue (job : JudgeJob)
  /-- A worker reads the row, and the digest of its input as it is now. -/
  | recover (worker : ℕ) (inputDigest : String)
  | recovered (worker : ℕ)
  | supersede (worker : ℕ) (code : String)
  | superseded (worker : ℕ)
  | examine (worker : ℕ) (inputDigest : String)
  | claim (worker : ℕ) (owner request : String) (now : ℕ)
  | renew (worker : ℕ) (revision now : ℕ)
  | answer (worker : ℕ) (response : JudgeOutput)
  | store (worker : ℕ) (revision : ℕ)
  | submit (worker : ℕ) (head : Option String)
  | complete (worker : ℕ) (revision : ℕ)
  /-- A step of a claimed job has failed. -/
  | error (worker : ℕ)
  | fail (worker : ℕ) (revision : ℕ)
  | crash (worker : ℕ)

namespace World

def place (w : World) (worker : ℕ) (pc : Pc) : World :=
  { w with workers := fun n => if n = worker then pc else w.workers n }

def write (w : World) (row : JobRow) : World := { w with row := some row }

/-- The row, if an update of it succeeds. -/
def updated (w : World) (revision : ℕ) (change : JudgeJob → Except String JudgeJob) :
    Option JobRow :=
  w.row.bind fun row => (row.update revision change).toOption

/-- **Submit an assessment.** A submission that was made before is answered with
its receipt; otherwise the selected revision has to be the expected one. -/
def submitAssessment (J : Judge) (w : World) (input : RevisionInput) (head : Option String) :
    Except String (World × AssessmentRevision) :=
  match w.history.find? (·.input.submissionId = input.submissionId) with
  | some receipt => do
    ensure (receipt.input = input) "submission ID already used for different input"
    return (w, receipt)
  | none => do
    ensure (w.head = input.expectedRevision)
      "effective revision changed; refresh before submitting"
    let receipt : AssessmentRevision := { revisionId := J.revisionId input.submissionId, input }
    return ({ w with history := w.history ++ [receipt], head }, receipt)

def recoverable (J : Judge) (w : World) (job : JudgeJob) (inputDigest : String) :
    Except String (Option AssessmentRevision) := do
  match job.cachedResponse with
  | none => return none
  | some response =>
    if job.status = .completed ∨ job.leaseLive w.now ∨ inputDigest ≠ job.inputDigest then
      return none
    match w.history.find? (·.input.submissionId = job.submissionId) with
    | none => return none
    | some receipt =>
      ensure (receipt.input.checkpointId = job.checkpointId ∧ receipt.input.agentic
          ∧ receipt.input.evaluatorId = job.evaluatorId
          ∧ receipt.input.evaluatorVersion = J.version)
        "judge receipt identity mismatch"
      ensure (job.Answers J response) "cached judge response does not match the completed attempt"
      let expected ← J.assessment response.evaluation
      ensure (receipt.input.assessment = expected)
        "committed assessment differs from the cached judge response"
      return some receipt

/-- **One step.** -/
def step (J : Judge) (w : World) : JobEvent → Option World
  | .tick now => if w.now ≤ now then some { w with now } else none
  | .control control => some { w with control }
  | .assess receipt head => some { w with history := w.history ++ [receipt], head }
  | .enqueue job =>
    match w.row with
    | some _ => some w
    | none =>
      if (job.checkMode w.control).isOk then
        some (w.write { revision := 0, job := {
          jobId := job.jobId, identity := job.identity, checkpointId := job.checkpointId
          expectedRevision := job.expectedRevision, model := job.model
          inputDigest := job.inputDigest, modeEpoch := job.modeEpoch } })
      else none
  | .recover worker inputDigest =>
    match w.row, w.workers worker with
    | some row, .idle =>
      match w.recoverable J row.job inputDigest with
      | .ok (some receipt) => some (w.place worker (.recovering row receipt))
      | _ => none
    | _, _ => none
  | .recovered worker =>
    match w.workers worker with
    | .recovering row receipt =>
      (w.updated row.revision (·.recover receipt.revisionId w.now)).map fun row =>
        (w.write row).place worker .idle
    | _ => none
  | .supersede worker code =>
    match w.row, w.workers worker with
    | some row, .idle =>
      if row.job.status = .completed ∨ row.job.status = .superseded ∨ row.job.leaseLive w.now then
        none
      else some (w.place worker (.superseding row code))
    | _, _ => none
  | .superseded worker =>
    match w.workers worker with
    | .superseding row code =>
      (w.updated row.revision (·.supersede code w.now)).map fun row =>
        (w.write row).place worker .idle
    | _ => none
  | .examine worker inputDigest =>
    match w.row, w.workers worker with
    | some row, .idle =>
      if row.job.status ≠ .completed ∧ row.job.status ≠ .superseded
          ∧ inputDigest = row.job.inputDigest then
        some (w.place worker (.claiming row))
      else none
    | _, _ => none
  | .claim worker owner request now =>
    match w.workers worker with
    | .claiming row =>
      if now ≤ w.now ∧ owner ∉ w.owners ∧ request ∉ w.issued.map Prod.fst
          ∧ (row.job.checkMode w.control).isOk then
        (w.updated row.revision (·.claim owner request now)).map fun row =>
          if row.job.cachedResponse.isSome then
            { (w.write row).place worker (.submitting owner row.job) with
              owners := w.owners ++ [owner] }
          else
            { (w.write row).place worker (.calling owner row.job) with
              owners := w.owners ++ [owner], issued := w.issued ++ [(request, owner)] }
      else none
    | _ => none
  | .renew worker revision now =>
    match w.workers worker with
    | .calling owner _ =>
      if now ≤ w.now then (w.updated revision (·.owned owner (·.renew now))).map w.write else none
    | _ => none
  | .answer worker response =>
    match w.workers worker with
    | .calling owner job =>
      if job.requestIds.getLast? = some response.requestId ∧ response.model = job.model
          ∧ response.inputDigest = job.inputDigest then
        some (w.place worker (.answered owner job response))
      else none
    | _ => none
  | .store worker revision =>
    match w.workers worker with
    | .answered owner job response =>
      (w.updated revision (·.owned owner (·.store response))).map fun row =>
        (w.write row).place worker
          (.submitting owner { job with cachedResponse := some response })
    | _ => none
  | .submit worker head =>
    match w.workers worker with
    | .submitting owner job =>
      match job.cachedResponse with
      | some response =>
        if job.Answers J response ∧ (job.checkMode w.control).isOk then
          match job.submission J response with
          | .ok input =>
            ((w.submitAssessment J input head).toOption).map fun (w, receipt) =>
              w.place worker (.completing owner job receipt)
          | .error _ => none
        else none
      | none => none
    | _ => none
  | .complete worker revision =>
    match w.workers worker with
    | .completing owner _ receipt =>
      (w.updated revision (·.owned owner (·.complete receipt.revisionId))).map fun row =>
        (w.write row).place worker .idle
    | _ => none
  | .error worker =>
    match w.workers worker with
    | .calling owner job | .answered owner job _ | .submitting owner job
    | .completing owner job _ => some (w.place worker (.failing owner job))
    | _ => none
  | .fail worker revision =>
    match w.workers worker with
    | .failing owner _ =>
      (w.updated revision (·.owned owner (·.fail))).map fun row =>
        (w.write row).place worker .idle
    | _ => none
  | .crash worker => some (w.place worker .idle)

end World

end BitRouter.Evolution
