import Galaxz.Jobs.Schema
import Mathlib.Data.List.Sort

/-!
# `core/jobs/repository.py`: `SqliteJobRepository`

Every method as a function on the database. `now` is the value of `now or _utc_now()`, and the ids
that `uuid4()` generates inside a call are arguments. A method that runs a transaction is written as
its body (`..Tx`), between `BEGIN IMMEDIATE` and `commit`, and the read of the answer after it.
-/

namespace Galaxz.SqliteJobRepository

/-! ## Reads -/

/-- `_job_from_row`. -/
def jobFromRow (row : JobRow) (idempotencyKey : String) : Except PyError Job := do
  let policy ← RetryPolicy.validate row.maxAttempts row.backoffSeconds row.maxBackoffSeconds
    row.retryableOutcomes
  Job.validate row.jobId row.taskId row.status row.priority idempotencyKey policy row.createdAt
    row.updatedAt row.availableAt row.cancellationRequestedAt row.cancelledAt

/-- `jobs JOIN job_idempotency USING(job_id)`. -/
def joinKeys (s : Db) (rows : List JobRow) : List (JobRow × String) :=
  rows.flatMap fun row => (s.keysOf row.jobId).map fun k => (row, k.idempotencyKey)

/-- `get_job`. -/
def getJob (s : Db) (jobId : Uuid) : Except PyError (Option Job) :=
  match (joinKeys s (s.jobs.filter (·.jobId = jobId))).head? with
  | none => .ok none
  | some (row, key) => do return some (← jobFromRow row key)

/-- `get_job_by_idempotency_key`. -/
def getJobByIdempotencyKey (s : Db) (key : String) : Except PyError (Option Job) :=
  match (joinKeys s s.jobs).find? (·.2 = key) with
  | none => .ok none
  | some (row, key) => do return some (← jobFromRow row key)

/-- `get_task`. -/
def getTask (s : Db) (jobId : Uuid) : Option TaskContract :=
  (s.tasks.find? (·.jobId = jobId)).map (·.task)

/-- `get_result`. -/
def getResult (s : Db) (jobId : Uuid) : Option PyDict :=
  (s.outputs.find? (·.jobId = jobId)).map (·.result)

/-- `ORDER BY created_at DESC, job_id DESC`. -/
def newerFirst (a b : JobRow × String) : Prop :=
  b.1.createdAt < a.1.createdAt ∨
    (b.1.createdAt = a.1.createdAt ∧ b.1.jobId.toNat ≤ a.1.jobId.toNat)

instance : DecidableRel newerFirst := fun a b => by unfold newerFirst; infer_instance

/-- `list_jobs`. -/
def listJobs (s : Db) (limit : ℤ) : Except PyError (List Job) :=
  if 1 ≤ limit ∧ limit ≤ 500 then
    (Table.limitRows limit ((joinKeys s s.jobs).insertionSort newerFirst)).mapM
      fun r => jobFromRow r.1 r.2
  else .error (.valueError "limit must be between 1 and 500")

/-- `_attempt_from_row`. -/
def attemptFromRow (row : AttemptRow) : Except PyError ExecutionAttempt := ExecutionAttempt.validate row

/-- `attempts`. -/
def attempts (s : Db) (jobId : Uuid) : Except PyError (List ExecutionAttempt) :=
  ((s.attemptsOf jobId).insertionSort (·.attemptNumber ≤ ·.attemptNumber)).mapM attemptFromRow

/-- The job that a method returns after its commit, `assert job is not None` included. -/
def getJobAsserted (s : Db) (jobId : Uuid) : Except PyError Job := do
  match ← getJob s jobId with
  | none => .error .assertionError
  | some job => .ok job

/-! ## `enqueue` -/

/-- The largest value of an SQLite `INTEGER`. -/
def sqliteIntMax : ℤ := 2 ^ 63 - 1

/-- The parameters of `INSERT INTO jobs` can be bound and are not null: SQLite has no larger
integers, and stores a `nan` as `NULL`. -/
def bindPolicy (policy : RetryPolicy) : Except PyError Unit :=
  if sqliteIntMax < policy.maxAttempts then
    .error (.overflowError "Python int too large to convert to SQLite INTEGER")
  else if policy.backoffSeconds = .nan then
    .error (.integrityError "NOT NULL constraint failed: jobs.backoff_seconds")
  else if policy.maxBackoffSeconds = .nan then
    .error (.integrityError "NOT NULL constraint failed: jobs.max_backoff_seconds")
  else .ok ()

/-- The row that `enqueue` inserts for a new job; the outcomes are `sorted`. -/
def newJobRow (candidate : Job) : JobRow where
  jobId := candidate.jobId
  taskId := candidate.taskId
  status := candidate.status
  priority := candidate.priority
  maxAttempts := candidate.retryPolicy.maxAttempts
  backoffSeconds := candidate.retryPolicy.backoffSeconds
  maxBackoffSeconds := candidate.retryPolicy.maxBackoffSeconds
  retryableOutcomes := candidate.retryPolicy.retryableOutcomes.insertionSort (· ≤ ·)
  createdAt := candidate.createdAt
  updatedAt := candidate.createdAt
  availableAt := candidate.createdAt

/-- The insert of the task input, when the job has one. -/
def persistTask (s : Db) (jobId : Uuid) (task : Option TaskContract) : Except PyError Db :=
  match task with
  | none => .ok s
  | some task => do s.insertTask ⟨jobId, ← task.modelDumpJson⟩

/-- The transaction of `enqueue`: the row of the job that has the key already, or `none` once the new
job is inserted. -/
def enqueueTx (candidate : Job) (task : Option TaskContract) (now : Datetime) (s : Db) :
    Except PyError (Option JobRow × Db) :=
  match (joinKeys s s.jobs).find? (·.2 = candidate.idempotencyKey) with
  | some (row, _) => .ok (some row, s)
  | none => do
    bindPolicy candidate.retryPolicy
    let s ← s.insertJob (newJobRow candidate)
    let s ← s.insertKey ⟨candidate.idempotencyKey, candidate.jobId, now⟩
    let s ← persistTask s candidate.jobId task
    return (none, s.recordTransition candidate.jobId none .queued "enqueue" now)

/-- `enqueue`. -/
def enqueue (jobId taskId : Uuid) (task : Option TaskContract) (idempotencyKey : String)
    (priority : ℤ) (retryPolicy : Option RetryPolicy) (now : Datetime) (s : Db) :
    Except PyError Job × Db :=
  let policy := retryPolicy.getD .default
  if task.any (·.taskId ≠ taskId) then (.error (.valueError "task_id must match task.task_id"), s)
  else
    match Job.validate jobId taskId .queued priority idempotencyKey policy now now now none none with
    | .error e => (.error e, s)
    | .ok candidate =>
      transaction (enqueueTx candidate task now)
        (fun existing _ => match existing with
          | some row => jobFromRow row candidate.idempotencyKey
          | none => .ok candidate) s

/-! ## `claim` -/

/-- The `WHERE` clause of the claim. -/
def claimCandidates (s : Db) (now : Datetime) : List JobRow :=
  (joinKeys s (s.jobs.filter fun j =>
    j.status = .queued ∧ j.availableAt ≤ now ∧ (j.attemptCount : ℤ) < j.maxAttempts)).map (·.1)

/-- `ORDER BY priority DESC, created_at, job_id`. -/
def claimsBefore (a b : JobRow) : Bool :=
  b.priority < a.priority ∨
    (a.priority = b.priority ∧
      (a.createdAt < b.createdAt ∨ (a.createdAt = b.createdAt ∧ a.jobId.toNat ≤ b.jobId.toNat)))

/-- The fields of the attempt that `claim` starts for the row. -/
def newAttempt (row : JobRow) (attemptId leaseToken : Uuid) (workerId : String)
    (leaseExpiresAt now : Datetime) : AttemptFields where
  attemptId := attemptId
  jobId := row.jobId
  attemptNumber := row.attemptCount + 1
  workerId := workerId
  inputRef := "task:" ++ row.taskId.text
  leaseToken := leaseToken
  leaseExpiresAt := leaseExpiresAt
  startedAt := now
  endedAt := none
  outcome := none
  failureKind := none
  errorCode := none
  error := none
  outputRef := none

/-- The columns that `claim` sets. -/
def startRun (attemptId : Uuid) (now : Datetime) (j : JobRow) : JobRow :=
  { j with
    status := .running
    attemptCount := j.attemptCount + 1
    activeAttemptId := some attemptId
    updatedAt := now }

/-- The transaction of `claim`. -/
def claimTx (attemptId leaseToken : Uuid) (workerId : String) (leaseSeconds : PyFloat)
    (now : Datetime) (s : Db) : Except PyError (Option ExecutionAttempt × Db) :=
  match Table.firstBy claimsBefore (claimCandidates s now) with
  | none => .ok (none, s)
  | some row => do
    validateJobTransition .queued .running
    let leaseExpiresAt ← now.addSeconds leaseSeconds
    let attempt ← ExecutionAttempt.validate
      (newAttempt row attemptId leaseToken workerId leaseExpiresAt now)
    let hit := fun j : JobRow => decide (j.jobId = row.jobId ∧ j.status = .queued)
    -- `updated.rowcount != 1`: roll back and return None
    if (s.jobs.filter hit).length ≠ 1 then .ok (none, s)
    else
      let s ← (s.updateJobs hit (startRun attemptId now)).insertAttempt attempt.toAttemptFields
      return (some attempt, s.recordTransition row.jobId (some .queued) .running "claim" now)

/-- `claim`. -/
def claim (attemptId leaseToken : Uuid) (workerId : String) (leaseSeconds : PyFloat) (now : Datetime)
    (s : Db) : Except PyError (Option (Job × ExecutionAttempt)) × Db :=
  if leaseSeconds.le (.finite 0) then (.error (.valueError "lease_seconds must be positive"), s)
  else
    transaction (claimTx attemptId leaseToken workerId leaseSeconds now)
      (fun attempt s => match attempt with
        | none => .ok none
        | some attempt => do return some (← getJobAsserted s attempt.jobId, attempt)) s

/-! ## Leases -/

/-- `_active_attempt`. -/
def activeAttempt (s : Db) (jobId leaseToken : Uuid) : Option AttemptRow :=
  s.attempts.find? fun a =>
    s.jobs.any (fun j => j.activeAttemptId = some a.attemptId ∧ j.jobId = jobId ∧ j.status = .running) ∧
      a.leaseToken = leaseToken ∧ a.endedAt = none

/-- The active attempt, if its lease has not expired; the error carries the caller's text. -/
def activeLease (s : Db) (jobId leaseToken : Uuid) (now : Datetime) (msg : String) :
    Except PyError AttemptRow :=
  match activeAttempt s jobId leaseToken with
  | none => .error (.leaseConflict msg)
  | some a => if a.leaseExpiresAt ≤ now then .error (.leaseConflict msg) else .ok a

/-- The column of the attempt that `heartbeat` sets. -/
def renewLease (expiry : Datetime) (a : AttemptRow) : AttemptRow := { a with leaseExpiresAt := expiry }

/-- The column of the job that `heartbeat` sets. -/
def touch (now : Datetime) (j : JobRow) : JobRow := { j with updatedAt := now }

/-- The transaction of `heartbeat`: the attempt row as read, with the new expiry. -/
def heartbeatTx (jobId leaseToken : Uuid) (leaseSeconds : PyFloat) (now : Datetime) (s : Db) :
    Except PyError (AttemptRow × Db) := do
  let row ← activeLease s jobId leaseToken now "heartbeat requires the active, unexpired lease"
  let expiry ← now.addSeconds leaseSeconds
  let s := s.updateAttempts (·.attemptId = row.attemptId) (renewLease expiry)
  let s := s.updateJobs (·.jobId = jobId) (touch now)
  return (renewLease expiry row, s)

/-- `heartbeat`. -/
def heartbeat (jobId leaseToken : Uuid) (leaseSeconds : PyFloat) (now : Datetime) (s : Db) :
    Except PyError ExecutionAttempt × Db :=
  if leaseSeconds.le (.finite 0) then (.error (.valueError "lease_seconds must be positive"), s)
  else
    transaction (heartbeatTx jobId leaseToken leaseSeconds now)
      (fun row _ => ExecutionAttempt.validate row) s

/-! ## Ends of an attempt -/

/-- `UPDATE execution_attempts SET f WHERE attempt_id = ? AND ended_at IS NULL`. -/
def endAttempt (s : Db) (attemptId : Option Uuid) (f : AttemptRow → AttemptRow) : Db :=
  s.updateAttempts (fun a => some a.attemptId = attemptId ∧ a.endedAt = none) f

/-- The columns of the attempt that `cancel` and `reclaim_expired` set. -/
def closeAttempt (outcome : AttemptOutcome) (now : Datetime) (a : AttemptRow) : AttemptRow :=
  { a with endedAt := some now, outcome := some outcome }

/-- The columns of the attempt that `_finish` sets. -/
def finishAttempt (outcome : AttemptOutcome) (error outputRef : Option String) (now : Datetime)
    (a : AttemptRow) : AttemptRow :=
  { a with endedAt := some now, outcome := some outcome, error, outputRef }

/-- The columns of the job that `_finish` sets. -/
def finishRun (target : JobStatus) (now : Datetime) (j : JobRow) : JobRow :=
  { j with status := target, activeAttemptId := none, updatedAt := now }

/-- `result.get("artifacts") or result.get("status") == "escalated"`. -/
def hasEvidence (result : PyDict) : Bool :=
  (result.get "artifacts").truthy ∨ result.get "status" = .str "escalated"

/-- The early return of `_finish`: the call repeats the completion that is stored. -/
def isReplay (s : Db) (jobId leaseToken : Uuid) (outputRef : Option String) : Bool :=
  match s.attempts.find? (fun a =>
      a.jobId = jobId ∧ a.leaseToken = leaseToken ∧ a.outcome = some .completed) with
  | none => false
  | some prior => prior.outputRef = outputRef

/-- A repeated completion may not carry another result. -/
def replayTx (s : Db) (jobId : Uuid) (result : Option PyDict) : Except PyError Unit :=
  let different := PyError.invalidJobState "job already has a different persisted result"
  match result with
  | none => .ok ()
  | some result =>
    match getResult s jobId with
    | none => .error different
    | some persisted => do
      if persisted ≠ (← result.dumps) then .error different else .ok ()

/-- The writes of `_finish` to `job_outputs` and `completion_outbox`. -/
def storeResult (s : Db) (jobId attemptId : Uuid) (result : PyDict) (now : Datetime) :
    Except PyError Db := do
  let serialized ← result.dumps
  let s ← match getResult s jobId with
    | none => pure { s with outputs := s.outputs ++ [⟨jobId, serialized, now⟩] }
    | some prior =>
      if prior ≠ serialized then
        .error (.invalidJobState "job already has a different persisted result")
      else pure s
  if hasEvidence result then
    if (s.tasksOf jobId).isEmpty then
      .error (.invalidJobState "completion evidence requires persisted task input")
    else s.insertOutbox { jobId, attemptId, createdAt := now }
  else return s

/-- The transaction of `_finish`. -/
def finishTx (jobId leaseToken : Uuid) (target : JobStatus) (outcome : AttemptOutcome)
    (outputRef error : Option String) (result : Option PyDict) (now : Datetime) (s : Db) :
    Except PyError (Unit × Db) :=
  match s.job? jobId with
  | none => .error (.keyError jobId.text)
  | some job =>
    if job.status = .completed ∧ target = .completed ∧ isReplay s jobId leaseToken outputRef then do
      replayTx s jobId result
      return ((), s)
    else if job.status ≠ .running then
      .error (.invalidJobState s!"job is {job.status.value}, not running")
    else do
      let attempt ←
        activeLease s jobId leaseToken now "completion requires the active, unexpired lease"
      validateJobTransition job.status target
      let s := endAttempt s (some attempt.attemptId) (finishAttempt outcome error outputRef now)
      let s ← match result with
        | none => pure s
        | some result => storeResult s jobId attempt.attemptId result now
      let s := s.updateJobs (fun j => j.jobId = jobId ∧ j.status = .running) (finishRun target now)
      return ((), s.recordTransition jobId (some job.status) target outcome.value now)

/-- `_finish`. -/
def finish (jobId leaseToken : Uuid) (target : JobStatus) (outcome : AttemptOutcome)
    (outputRef error : Option String) (result : Option PyDict) (now : Datetime) (s : Db) :
    Except PyError Job × Db :=
  transaction (finishTx jobId leaseToken target outcome outputRef error result now)
    (fun _ s => getJobAsserted s jobId) s

/-- `complete`. -/
def complete (jobId leaseToken : Uuid) (outputRef : String) (result : Option PyDict) (now : Datetime)
    (s : Db) : Except PyError Job × Db :=
  finish jobId leaseToken .completed .completed (some outputRef) none result now s

/-- `min(backoff_seconds * (2 ** max(attempt_count - 1, 0)), max_backoff_seconds)`. -/
def retryDelay (job : JobRow) : Except PyError PyFloat := do
  let delay ← job.backoffSeconds.mulTwoPow (job.attemptCount - 1)
  return delay.pyMin job.maxBackoffSeconds

/-- `available_at`: after the delay when the job is to run again, else at once. -/
def nextAvailable (again : Bool) (delay : PyFloat) (now : Datetime) : Except PyError Datetime :=
  if again then now.addSeconds delay else .ok now

/-- The columns of the job that `record_failure` and `reclaim_expired` set. -/
def requeue (target : JobStatus) (now availableAt : Datetime) (j : JobRow) : JobRow :=
  { j with status := target, activeAttemptId := none, updatedAt := now, availableAt }

/-- The columns of the attempt that `record_failure` sets. -/
def failAttempt (failureKind errorCode error : String) (now : Datetime) (a : AttemptRow) :
    AttemptRow :=
  { a with
    endedAt := some now
    outcome := some .failed
    failureKind := some failureKind
    errorCode := some errorCode
    error := some error }

/-- `should_retry` of `record_failure`. -/
def shouldRetry (job : JobRow) (errorCode : String) (retryable : Bool) : Bool :=
  retryable ∧ errorCode ∈ job.retryableOutcomes ∧ (job.attemptCount : ℤ) < job.maxAttempts

/-- The transaction of `record_failure`. -/
def recordFailureTx (jobId leaseToken : Uuid) (error errorCode failureKind : String)
    (retryable : Bool) (now : Datetime) (s : Db) : Except PyError (Unit × Db) :=
  match s.job? jobId with
  | none => .error (.keyError jobId.text)
  | some job =>
    if job.status ≠ .running then
      .error (.invalidJobState s!"job is {job.status.value}, not running")
    else do
      let attempt ←
        activeLease s jobId leaseToken now "failure requires the active, unexpired lease"
      let retry := shouldRetry job errorCode retryable
      let target := if retry then JobStatus.queued else .failed
      validateJobTransition .running target
      let s := endAttempt s (some attempt.attemptId) (failAttempt failureKind errorCode error now)
      let delay ← retryDelay job
      let availableAt ← nextAvailable retry delay now
      let s := s.updateJobs (fun j => j.jobId = jobId ∧ j.status = .running)
        (requeue target now availableAt)
      let reason := (if retry then "retry:" else "failed:") ++ errorCode
      return ((), s.recordTransition jobId (some .running) target reason now)

/-- `record_failure`. -/
def recordFailure (jobId leaseToken : Uuid) (error errorCode failureKind : String) (retryable : Bool)
    (now : Datetime) (s : Db) : Except PyError Job × Db :=
  transaction (recordFailureTx jobId leaseToken error errorCode failureKind retryable now)
    (fun _ s => getJobAsserted s jobId) s

/-- `fail`. -/
def fail (jobId leaseToken : Uuid) (error errorCode failureKind : String) (now : Datetime) (s : Db) :
    Except PyError Job × Db :=
  recordFailure jobId leaseToken error errorCode failureKind false now s

/-- The columns of the job that `cancel` sets. -/
def cancelled (now : Datetime) (j : JobRow) : JobRow :=
  { j with
    status := .cancelled
    activeAttemptId := none
    updatedAt := now
    cancellationRequestedAt := some now
    cancelledAt := some now }

/-- The transaction of `cancel`. -/
def cancelTx (jobId : Uuid) (now : Datetime) (s : Db) : Except PyError (Unit × Db) :=
  match s.job? jobId with
  | none => .error (.keyError jobId.text)
  | some job =>
    if job.status = .cancelled then .ok ((), s)
    else do
      validateJobTransition job.status .cancelled
      let s := if job.status = .running then
          endAttempt s job.activeAttemptId (closeAttempt .cancelled now)
        else s
      let s := s.updateJobs (·.jobId = jobId) (cancelled now)
      return ((), s.recordTransition jobId (some job.status) .cancelled "cancel" now)

/-- `cancel`. -/
def cancel (jobId : Uuid) (now : Datetime) (s : Db) : Except PyError Job × Db :=
  transaction (cancelTx jobId now) (fun _ s => getJobAsserted s jobId) s

/-! ## `reclaim_expired` -/

/-- The running jobs whose active attempt has an expired lease. -/
def expiredJobs (s : Db) (now : Datetime) : List JobRow :=
  s.jobs.filter fun j => j.status = .running ∧ s.attempts.any fun a =>
    j.activeAttemptId = some a.attemptId ∧ a.endedAt = none ∧ a.leaseExpiresAt ≤ now

/-- `attempt_count >= max_attempts`. -/
def exhausted (job : JobRow) : Bool := job.maxAttempts ≤ (job.attemptCount : ℤ)

/-- The body of the loop of `reclaim_expired`. -/
def reclaimOne (now : Datetime) (job : JobRow) (s : Db) : Except PyError Db := do
  let target := if exhausted job then JobStatus.failed else .queued
  validateJobTransition .running target
  let s := endAttempt s job.activeAttemptId (closeAttempt .leaseExpired now)
  let delay ← retryDelay job
  let availableAt ← nextAvailable (!exhausted job) delay now
  let s := s.updateJobs (·.jobId = job.jobId) (requeue target now availableAt)
  return s.recordTransition job.jobId (some .running) target "lease_expired" now

/-- The loop of `reclaim_expired`. -/
def reclaimAll (now : Datetime) : List JobRow → Db → Except PyError Db
  | [], s => .ok s
  | job :: jobs, s => do reclaimAll now jobs (← reclaimOne now job s)

/-- The transaction of `reclaim_expired`: the ids of the reclaimed jobs. -/
def reclaimTx (now : Datetime) (s : Db) : Except PyError (List Uuid × Db) := do
  let jobs := expiredJobs s now
  let s ← reclaimAll now jobs s
  return (jobs.map (·.jobId), s)

/-- `reclaim_expired`. -/
def reclaimExpired (now : Datetime) (s : Db) : Except PyError (List Job) × Db :=
  transaction (reclaimTx now)
    (fun ids s => do return (← ids.mapM (getJob s)).reduceOption) s

/-! ## The completion outbox -/

/-- The rows of `pending_completions` before `LIMIT`. -/
def unpublished (s : Db) : List OutboxRow :=
  (s.outbox.filter (·.publishedAt = none)).insertionSort fun a b => a.createdAt ≤ b.createdAt

/-- `pending_completions`. -/
def pendingCompletions (s : Db) (limit : ℤ) : Except PyError (List OutboxRow) :=
  if -sqliteIntMax - 1 ≤ limit ∧ limit ≤ sqliteIntMax then .ok (Table.limitRows limit (unpublished s))
  else .error (.overflowError "Python int too large to convert to SQLite INTEGER")

/-- The column of the outbox entry that `acknowledge_completion` sets. -/
def markPublished (now : Datetime) (e : OutboxRow) : OutboxRow := { e with publishedAt := some now }

/-- `acknowledge_completion`. -/
def acknowledgeCompletion (jobId : Uuid) (now : Datetime) (s : Db) : Db :=
  let outbox := Table.updateWhere (fun e => e.jobId = jobId ∧ e.publishedAt = none)
    (markPublished now) s.outbox
  { s with outbox }

end Galaxz.SqliteJobRepository
