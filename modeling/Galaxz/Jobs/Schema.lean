import Galaxz.Contracts.Jobs
import Galaxz.Lib.Table

/-!
# `core/jobs/migrations.py`: the tables of the job store

One structure per table, one field per column; the SQLite and the PostgreSQL store have the same
schema. A JSON or time text is represented by the value it denotes. Constraints are checked by the
`insert` functions, which raise like the engine does.
-/

namespace Galaxz

/-- A row of `jobs`. -/
structure JobRow where
  jobId : Uuid
  taskId : Uuid
  status : JobStatus
  priority : ℤ
  maxAttempts : ℤ
  backoffSeconds : PyFloat
  maxBackoffSeconds : PyFloat
  retryableOutcomes : List String
  attemptCount : ℕ := 0
  activeAttemptId : Option Uuid := none
  createdAt : Datetime
  updatedAt : Datetime
  availableAt : Datetime
  cancellationRequestedAt : Option Datetime := none
  cancelledAt : Option Datetime := none
deriving DecidableEq

/-- A row of `execution_attempts`. -/
abbrev AttemptRow := AttemptFields

/-- A row of `job_transitions`; `transition_id` is its place in the table. -/
structure TransitionRow where
  jobId : Uuid
  fromStatus : Option JobStatus
  toStatus : JobStatus
  reason : String
  createdAt : Datetime
deriving DecidableEq

/-- A row of `job_idempotency`. -/
structure IdempotencyRow where
  idempotencyKey : String
  jobId : Uuid
  createdAt : Datetime
deriving DecidableEq

/-- A row of `job_tasks`. -/
structure TaskRow where
  jobId : Uuid
  task : TaskContract
deriving DecidableEq

/-- A row of `job_outputs`. -/
structure OutputRow where
  jobId : Uuid
  result : PyDict
  createdAt : Datetime
deriving DecidableEq

/-- A row of `completion_outbox`. -/
structure OutboxRow where
  jobId : Uuid
  attemptId : Uuid
  createdAt : Datetime
  publishedAt : Option Datetime := none
deriving DecidableEq

/-- The job database. -/
structure Db where
  jobs : List JobRow := []
  attempts : List AttemptRow := []
  transitions : List TransitionRow := []
  idempotency : List IdempotencyRow := []
  tasks : List TaskRow := []
  outputs : List OutputRow := []
  outbox : List OutboxRow := []
deriving DecidableEq

namespace Db

/-- The database after `upgrade`, before any call. -/
def empty : Db := {}

/-- `SELECT * FROM jobs WHERE job_id = ?`. -/
def job? (s : Db) (jobId : Uuid) : Option JobRow := s.jobs.find? (·.jobId = jobId)

/-- The attempts of a job. -/
def attemptsOf (s : Db) (jobId : Uuid) : List AttemptRow := s.attempts.filter (·.jobId = jobId)

/-- The transition log of a job. -/
def log (s : Db) (jobId : Uuid) : List TransitionRow := s.transitions.filter (·.jobId = jobId)

/-- The idempotency keys of a job. -/
def keysOf (s : Db) (jobId : Uuid) : List IdempotencyRow := s.idempotency.filter (·.jobId = jobId)

/-- The persisted task inputs of a job. -/
def tasksOf (s : Db) (jobId : Uuid) : List TaskRow := s.tasks.filter (·.jobId = jobId)

/-- The stored results of a job. -/
def outputsOf (s : Db) (jobId : Uuid) : List OutputRow := s.outputs.filter (·.jobId = jobId)

/-- The outbox entries of a job. -/
def outboxOf (s : Db) (jobId : Uuid) : List OutboxRow := s.outbox.filter (·.jobId = jobId)

/-- `UPDATE jobs SET f WHERE p`. -/
def updateJobs (s : Db) (p : JobRow → Bool) (f : JobRow → JobRow) : Db :=
  { s with jobs := Table.updateWhere p f s.jobs }

/-- `UPDATE execution_attempts SET f WHERE p`. -/
def updateAttempts (s : Db) (p : AttemptRow → Bool) (f : AttemptRow → AttemptRow) : Db :=
  { s with attempts := Table.updateWhere p f s.attempts }

/-- `INSERT INTO job_transitions`. -/
def recordTransition (s : Db) (jobId : Uuid) (current : Option JobStatus) (target : JobStatus)
    (reason : String) (now : Datetime) : Db :=
  { s with transitions := s.transitions ++ [⟨jobId, current, target, reason, now⟩] }

/-- `INSERT INTO jobs`. -/
def insertJob (s : Db) (row : JobRow) : Except PyError Db :=
  if s.jobs.any (·.jobId = row.jobId) then
    .error (.integrityError "UNIQUE constraint failed: jobs.job_id")
  else .ok { s with jobs := s.jobs ++ [row] }

/-- `INSERT INTO job_idempotency`. -/
def insertKey (s : Db) (row : IdempotencyRow) : Except PyError Db :=
  if s.idempotency.any (·.idempotencyKey = row.idempotencyKey) then
    .error (.integrityError "UNIQUE constraint failed: job_idempotency.idempotency_key")
  else if s.idempotency.any (·.jobId = row.jobId) then
    .error (.integrityError "UNIQUE constraint failed: job_idempotency.job_id")
  else .ok { s with idempotency := s.idempotency ++ [row] }

/-- `INSERT INTO job_tasks`. -/
def insertTask (s : Db) (row : TaskRow) : Except PyError Db :=
  if s.tasks.any (·.jobId = row.jobId) then
    .error (.integrityError "UNIQUE constraint failed: job_tasks.job_id")
  else .ok { s with tasks := s.tasks ++ [row] }

/-- `INSERT INTO execution_attempts`. -/
def insertAttempt (s : Db) (row : AttemptRow) : Except PyError Db :=
  if s.attempts.any (·.attemptId = row.attemptId) then
    .error (.integrityError "UNIQUE constraint failed: execution_attempts.attempt_id")
  else if s.attempts.any (·.leaseToken = row.leaseToken) then
    .error (.integrityError "UNIQUE constraint failed: execution_attempts.lease_token")
  else if s.attempts.any (fun a => a.jobId = row.jobId ∧ a.attemptNumber = row.attemptNumber) then
    .error (.integrityError
      "UNIQUE constraint failed: execution_attempts.job_id, execution_attempts.attempt_number")
  else .ok { s with attempts := s.attempts ++ [row] }

/-- `INSERT INTO completion_outbox`. -/
def insertOutbox (s : Db) (row : OutboxRow) : Except PyError Db :=
  if s.outbox.any (·.jobId = row.jobId) then
    .error (.integrityError "UNIQUE constraint failed: completion_outbox.job_id")
  else if s.outbox.any (·.attemptId = row.attemptId) then
    .error (.integrityError "UNIQUE constraint failed: completion_outbox.attempt_id")
  else .ok { s with outbox := s.outbox ++ [row] }

end Db

/-- One transaction followed by the read that makes up the answer. An exception inside it rolls back;
the read runs after the commit, on a connection of its own, so an exception there does not. -/
def transaction {β α : Type} (body : Db → Except PyError (β × Db)) (read : β → Db → Except PyError α)
    (s : Db) : Except PyError α × Db :=
  match body s with
  | .error e => (.error e, s)
  | .ok (b, s') => (read b s', s')

/-- A transaction leaves the database as it was, or as its body made it. -/
theorem transaction_state {β α : Type} (body : Db → Except PyError (β × Db))
    (read : β → Db → Except PyError α) (s : Db) :
    (transaction body read s).2 = s ∨ ∃ b, body s = .ok (b, (transaction body read s).2) := by
  unfold transaction
  split
  · exact Or.inl rfl
  · next b s' h => exact Or.inr ⟨b, h⟩

end Galaxz
