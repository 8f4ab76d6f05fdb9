import Galaxz.Jobs.Calls

/-!
# `core/jobs/postgres_repository.py`: `PostgresJobRepository`

The second implementation of the job store, on the same tables. Each method is one transaction, as in
the module of the SQLite repository; `FOR UPDATE` locks play no part in a single transaction, and a
`SELECT` without an order reads in table order. The class has no `record_failure` and no `fail`.
-/

namespace Galaxz.PostgresJobRepository

/-- `psycopg2` writes a text into the statement, and refuses one with a NUL character. -/
def bindText (text : String) : Except PyError Unit :=
  if text.toList.contains (Char.ofNat 0) then
    .error (.valueError "A string literal cannot contain NUL (0x00) characters.")
  else .ok ()

/-- The largest value of a PostgreSQL `INTEGER`. -/
def integerMax : ℤ := 2 ^ 31 - 1

/-- The largest value of a PostgreSQL `BIGINT`. -/
def bigintMax : ℤ := 2 ^ 63 - 1

/-- The parameters of `INSERT INTO jobs` fit their columns; a `DOUBLE PRECISION` may be `NaN`. -/
def bindPolicy (policy : RetryPolicy) : Except PyError Unit :=
  if integerMax < policy.maxAttempts then .error (.dataError "integer out of range") else .ok ()

/-! ## Reads -/

/-- `_job`: the same conversion as `_job_from_row`. -/
def job (row : JobRow × String) : Except PyError Job := SqliteJobRepository.jobFromRow row.1 row.2

/-- `get_job`. -/
def getJob (s : Db) (jobId : Uuid) : Except PyError (Option Job) :=
  match (SqliteJobRepository.joinKeys s (s.jobs.filter (·.jobId = jobId))).head? with
  | none => .ok none
  | some row => do return some (← job row)

/-! ## `enqueue` -/

/-- The transaction of `enqueue`. It looks for and stores the key as the caller wrote it, not as the
contract normalises it. -/
def enqueueTx (candidate : Job) (idempotencyKey : String) (task : Option TaskContract) (now : Datetime)
    (s : Db) : Except PyError (Option (JobRow × String) × Db) := do
  bindText idempotencyKey
  match (SqliteJobRepository.joinKeys s s.jobs).find? (·.2 = idempotencyKey) with
  | some row => .ok (some row, s)
  | none => do
    bindPolicy candidate.retryPolicy
    let s ← s.insertJob (SqliteJobRepository.newJobRow candidate)
    let s ← s.insertKey ⟨idempotencyKey, candidate.jobId, now⟩
    let s ← SqliteJobRepository.persistTask s candidate.jobId task
    return (none, s.recordTransition candidate.jobId none .queued "enqueue" now)

/-- `enqueue`. -/
def enqueue (jobId taskId : Uuid) (task : Option TaskContract) (idempotencyKey : String)
    (priority : ℤ) (retryPolicy : Option RetryPolicy) (now : Datetime) (s : Db) :
    Except PyError Job × Db :=
  if task.any (·.taskId ≠ taskId) then (.error (.valueError "task_id must match task.task_id"), s)
  else
    let policy := retryPolicy.getD .default
    match Job.validate jobId taskId .queued priority idempotencyKey policy now now now none none with
    | .error e => (.error e, s)
    | .ok candidate =>
      transaction (enqueueTx candidate idempotencyKey task now)
        (fun existing _ => match existing with
          | some row => job row
          | none => .ok candidate) s

/-! ## `claim` -/

/-- The row that `claim` selects, with its key. -/
def claimRow (s : Db) (now : Datetime) : Option (JobRow × String) :=
  Table.firstBy (fun a b => SqliteJobRepository.claimsBefore a.1 b.1)
    (SqliteJobRepository.joinKeys s (s.jobs.filter fun j =>
      j.status = .queued ∧ j.availableAt ≤ now ∧ (j.attemptCount : ℤ) < j.maxAttempts))

/-- The row as `claim` returns it: updated in memory, without the new `updated_at`. -/
def claimedRow (j : JobRow) : JobRow :=
  { j with status := .running, attemptCount := j.attemptCount + 1 }

/-- The transaction of `claim`. The worker id is stored as the caller wrote it. -/
def claimTx (attemptId leaseToken : Uuid) (workerId : String) (leaseSeconds : PyFloat)
    (now : Datetime) (s : Db) :
    Except PyError (Option ((JobRow × String) × ExecutionAttempt) × Db) :=
  match claimRow s now with
  | none => .ok (none, s)
  | some (row, key) => do
    let leaseExpiresAt ← now.addSeconds leaseSeconds
    let attempt ← ExecutionAttempt.validate
      (SqliteJobRepository.newAttempt row attemptId leaseToken workerId leaseExpiresAt now)
    validateJobTransition .queued .running
    let s := s.updateJobs (·.jobId = row.jobId) (SqliteJobRepository.startRun attemptId now)
    bindText workerId
    let s ← s.insertAttempt { attempt.toAttemptFields with workerId }
    return (some ((claimedRow row, key), attempt),
      s.recordTransition row.jobId (some .queued) .running "claim" now)

/-- `claim`. -/
def claim (attemptId leaseToken : Uuid) (workerId : String) (leaseSeconds : PyFloat) (now : Datetime)
    (s : Db) : Except PyError (Option (Job × ExecutionAttempt)) × Db :=
  transaction (claimTx attemptId leaseToken workerId leaseSeconds now)
    (fun claimed _ => match claimed with
      | none => .ok none
      | some (row, attempt) => do return some (← job row, attempt)) s

/-! ## Leases -/

/-- The transaction of `heartbeat`. It leaves `updated_at` of the job alone. -/
def heartbeatTx (jobId leaseToken : Uuid) (expiry now : Datetime) (s : Db) :
    Except PyError (AttemptRow × Db) := do
  let row ← SqliteJobRepository.activeLease s jobId leaseToken now
    "heartbeat requires the active, unexpired lease"
  let s := s.updateAttempts (·.attemptId = row.attemptId) (SqliteJobRepository.renewLease expiry)
  return (SqliteJobRepository.renewLease expiry row, s)

/-- `heartbeat`. -/
def heartbeat (jobId leaseToken : Uuid) (leaseSeconds : PyFloat) (now : Datetime) (s : Db) :
    Except PyError ExecutionAttempt × Db :=
  match now.addSeconds leaseSeconds with
  | .error e => (.error e, s)
  | .ok expiry =>
    transaction (heartbeatTx jobId leaseToken expiry now)
      (fun row _ => ExecutionAttempt.validate row) s

/-! ## `complete` -/

/-- The attempt that `complete` ends. -/
def completingAttempt (s : Db) (activeAttemptId : Option Uuid) (leaseToken : Uuid) (now : Datetime) :
    Except PyError AttemptRow :=
  let conflict := PyError.leaseConflict "completion requires the active, unexpired lease"
  match s.attempts.find? (fun a =>
      some a.attemptId = activeAttemptId ∧ a.leaseToken = leaseToken ∧ a.endedAt = none) with
  | none => .error conflict
  | some a => if a.leaseExpiresAt ≤ now then .error conflict else .ok a

/-- The column of `job_outputs` that a second result overwrites. -/
def replaceResult (serialized : PyDict) (o : OutputRow) : OutputRow := { o with result := serialized }

/-- `INSERT INTO job_outputs .. ON CONFLICT(job_id) DO UPDATE`. -/
def upsertResult (s : Db) (jobId : Uuid) (result : Option PyDict) (now : Datetime) :
    Except PyError Db :=
  match result with
  | none => .ok s
  | some result => do
    let serialized ← result.dumps
    if (s.outputsOf jobId).isEmpty then
      return { s with outputs := s.outputs ++ [⟨jobId, serialized, now⟩] }
    else
      let outputs := Table.updateWhere (·.jobId = jobId) (replaceResult serialized) s.outputs
      return { s with outputs }

/-- The columns of the attempt that `complete` sets. -/
def completeAttempt (outputRef : String) (now : Datetime) (a : AttemptRow) : AttemptRow :=
  { a with endedAt := some now, outcome := some .completed, outputRef := some outputRef }

/-- The transaction of `complete`: no repetition is recognised, and the outbox is not written. -/
def completeTx (jobId leaseToken : Uuid) (outputRef : String) (result : Option PyDict) (now : Datetime)
    (s : Db) : Except PyError (Unit × Db) :=
  match (SqliteJobRepository.joinKeys s (s.jobs.filter (·.jobId = jobId))).head? with
  | none => .error (.invalidJobState "job is not running")
  | some (job, _) =>
    if job.status ≠ .running then .error (.invalidJobState "job is not running")
    else do
      let attempt ← completingAttempt s job.activeAttemptId leaseToken now
      let s ← upsertResult s jobId result now
      bindText outputRef
      let s := s.updateAttempts (·.attemptId = attempt.attemptId) (completeAttempt outputRef now)
      let s := s.updateJobs (·.jobId = jobId) (SqliteJobRepository.finishRun .completed now)
      return ((), s.recordTransition jobId (some .running) .completed "completed" now)

/-- `complete`. -/
def complete (jobId leaseToken : Uuid) (outputRef : String) (result : Option PyDict) (now : Datetime)
    (s : Db) : Except PyError (Option Job) × Db :=
  transaction (completeTx jobId leaseToken outputRef result now) (fun _ s => getJob s jobId) s

/-! ## `cancel` -/

/-- The transaction of `cancel`: any job that is not cancelled yet is cancelled. -/
def cancelTx (jobId : Uuid) (now : Datetime) (s : Db) : Except PyError (Unit × Db) :=
  match s.job? jobId with
  | none => .error (.keyError jobId.text)
  | some job =>
    if job.status = .cancelled then .ok ((), s)
    else
      let s := if job.status = .running then
          s.updateAttempts (fun a => some a.attemptId = job.activeAttemptId)
            (SqliteJobRepository.closeAttempt .cancelled now)
        else s
      let s := s.updateJobs (·.jobId = jobId) (SqliteJobRepository.cancelled now)
      .ok ((), s.recordTransition jobId (some job.status) .cancelled "cancel" now)

/-- `cancel`. -/
def cancel (jobId : Uuid) (now : Datetime) (s : Db) : Except PyError (Option Job) × Db :=
  transaction (cancelTx jobId now) (fun _ s => getJob s jobId) s

/-! ## `reclaim_expired` -/

/-- The body of the loop of `reclaim_expired`: the job is available again at once. -/
def reclaimOne (now : Datetime) (s : Db) (job : JobRow) : Db :=
  let target := if SqliteJobRepository.exhausted job then JobStatus.failed else .queued
  let s := s.updateAttempts (fun a => some a.attemptId = job.activeAttemptId)
    (SqliteJobRepository.closeAttempt .leaseExpired now)
  let s := s.updateJobs (·.jobId = job.jobId) (SqliteJobRepository.requeue target now now)
  s.recordTransition job.jobId (some .running) target "lease_expired" now

/-- The transaction of `reclaim_expired`. -/
def reclaimTx (now : Datetime) (s : Db) : Except PyError (List Uuid × Db) :=
  let jobs := SqliteJobRepository.expiredJobs s now
  .ok (jobs.map (·.jobId), jobs.foldl (reclaimOne now) s)

/-- `reclaim_expired`. -/
def reclaimExpired (now : Datetime) (s : Db) : Except PyError (List (Option Job)) × Db :=
  transaction (reclaimTx now) (fun ids s => ids.mapM (getJob s)) s

/-! ## The completion outbox -/

/-- `pending_completions`. -/
def pendingCompletions (s : Db) (limit : ℤ) : Except PyError (List OutboxRow) :=
  if limit < 0 then .error (.dataError "LIMIT must not be negative")
  else if bigintMax < limit then .error (.dataError "bigint out of range")
  else .ok (Table.limitRows limit (SqliteJobRepository.unpublished s))

/-- `acknowledge_completion`. -/
def acknowledgeCompletion (jobId : Uuid) (now : Datetime) (s : Db) : Db :=
  SqliteJobRepository.acknowledgeCompletion jobId now s

/-! ## Runs -/

/-- The methods that the class does not have. -/
def missing (name : String) : PyError :=
  .attributeError ("'PostgresJobRepository' object has no attribute '" ++ name ++ "'")

/-- A call on the PostgreSQL repository: its answer, and the database after it. -/
def exec : JobCall → Db → Except PyError JobValue × Db
  | .enqueue jobId taskId task key priority policy now, s =>
    answer (.job ∘ some) (enqueue jobId taskId task key priority policy now s)
  | .claim attemptId leaseToken workerId leaseSeconds now, s =>
    answer .claimed (claim attemptId leaseToken workerId leaseSeconds now s)
  | .heartbeat jobId leaseToken leaseSeconds now, s =>
    answer .attempt (heartbeat jobId leaseToken leaseSeconds now s)
  | .complete jobId leaseToken outputRef result now, s =>
    answer .job (complete jobId leaseToken outputRef result now s)
  | .fail .., s => (.error (missing "fail"), s)
  | .recordFailure .., s => (.error (missing "record_failure"), s)
  | .cancel jobId now, s => answer .job (cancel jobId now s)
  | .reclaimExpired now, s => answer .jobs (reclaimExpired now s)
  | .pendingCompletions limit, s => answer .completions (pendingCompletions s limit, s)
  | .acknowledgeCompletion jobId now, s => (.ok .unit, acknowledgeCompletion jobId now s)

/-- The database after a call, whether it returned or raised. -/
def step (call : JobCall) (s : Db) : Db := (exec call s).2

/-- The database after the calls, from an empty repository. -/
def run (calls : List JobCall) : Db := Machine.run step calls Db.empty

end Galaxz.PostgresJobRepository
