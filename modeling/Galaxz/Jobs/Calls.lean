import Galaxz.Jobs.Repository
import Galaxz.Lib.Machine

/-!
# Runs of the job store

The calls that workers, coordinators and services make on a job repository, with the clock readings
and generated ids of each. Every call is one transaction, so any interleaving of any number of callers
is a list of calls.
-/

namespace Galaxz

/-- A call on a job repository. -/
inductive JobCall where
  | enqueue (jobId taskId : Uuid) (task : Option TaskContract) (idempotencyKey : String)
      (priority : ℤ) (retryPolicy : Option RetryPolicy) (now : Datetime)
  | claim (attemptId leaseToken : Uuid) (workerId : String) (leaseSeconds : PyFloat) (now : Datetime)
  | heartbeat (jobId leaseToken : Uuid) (leaseSeconds : PyFloat) (now : Datetime)
  | complete (jobId leaseToken : Uuid) (outputRef : String) (result : Option PyDict) (now : Datetime)
  | fail (jobId leaseToken : Uuid) (error errorCode failureKind : String) (now : Datetime)
  | recordFailure (jobId leaseToken : Uuid) (error errorCode failureKind : String)
      (retryable : Bool) (now : Datetime)
  | cancel (jobId : Uuid) (now : Datetime)
  | reclaimExpired (now : Datetime)
  | pendingCompletions (limit : ℤ)
  | acknowledgeCompletion (jobId : Uuid) (now : Datetime)

/-- The call is one of `complete`, which only workers make. -/
def JobCall.completes : JobCall → Bool
  | .complete _ _ _ _ _ => true
  | _ => false

/-- What a call returns; a job that was not found is `None`. -/
inductive JobValue where
  | unit
  | job (job : Option Job)
  | claimed (claim : Option (Job × ExecutionAttempt))
  | attempt (attempt : ExecutionAttempt)
  | jobs (jobs : List (Option Job))
  | completions (events : List OutboxRow)
deriving DecidableEq

/-- Tag the answer of a call. -/
def answer {α : Type} (f : α → JobValue) (r : Except PyError α × Db) : Except PyError JobValue × Db :=
  (r.1.map f, r.2)

@[simp] theorem answer_snd {α : Type} (f : α → JobValue) (r : Except PyError α × Db) :
    (answer f r).2 = r.2 := rfl

@[simp] theorem raised_answer {α : Type} (f : α → JobValue) (r : Except PyError α × Db) :
    raised (answer f r).1 = raised r.1 := by
  obtain ⟨r, s⟩ := r
  cases r <;> rfl

namespace SqliteJobRepository

/-- A call on the SQLite repository: its answer, and the database after it. -/
def exec : JobCall → Db → Except PyError JobValue × Db
  | .enqueue jobId taskId task key priority policy now, s =>
    answer (.job ∘ some) (enqueue jobId taskId task key priority policy now s)
  | .claim attemptId leaseToken workerId leaseSeconds now, s =>
    answer .claimed (claim attemptId leaseToken workerId leaseSeconds now s)
  | .heartbeat jobId leaseToken leaseSeconds now, s =>
    answer .attempt (heartbeat jobId leaseToken leaseSeconds now s)
  | .complete jobId leaseToken outputRef result now, s =>
    answer (.job ∘ some) (complete jobId leaseToken outputRef result now s)
  | .fail jobId leaseToken error errorCode failureKind now, s =>
    answer (.job ∘ some) (fail jobId leaseToken error errorCode failureKind now s)
  | .recordFailure jobId leaseToken error errorCode failureKind retryable now, s =>
    answer (.job ∘ some) (recordFailure jobId leaseToken error errorCode failureKind retryable now s)
  | .cancel jobId now, s => answer (.job ∘ some) (cancel jobId now s)
  | .reclaimExpired now, s => answer (fun jobs => .jobs (jobs.map some)) (reclaimExpired now s)
  | .pendingCompletions limit, s => answer .completions (pendingCompletions s limit, s)
  | .acknowledgeCompletion jobId now, s => (.ok .unit, acknowledgeCompletion jobId now s)

/-- The database after a call, whether it returned or raised. -/
def step (call : JobCall) (s : Db) : Db := (exec call s).2

/-- The database after the calls, from an empty repository. -/
def run (calls : List JobCall) : Db := Machine.run step calls Db.empty

end SqliteJobRepository

/-! ## Idempotent submission

`enqueue` promises that equal keys name one job. The promise is about whole runs: which calls returned
which job, and what the two tables of keys and jobs say in every state between them.
-/

open SqliteJobRepository

/-- The arguments of an `enqueue` call, with the id it generates and its clock reading. -/
structure Submission where
  jobId : Uuid
  taskId : Uuid
  task : Option TaskContract
  idempotencyKey : String
  priority : ℤ
  retryPolicy : Option RetryPolicy
  now : Datetime

namespace Submission

/-- The key as `Job.validate_idempotency_key` returns it. -/
def key (c : Submission) : String := strip c.idempotencyKey

/-- The call itself. -/
def call (c : Submission) : JobCall :=
  .enqueue c.jobId c.taskId c.task c.idempotencyKey c.priority c.retryPolicy c.now

/-- What the call returns, and the database after it. -/
def submit (c : Submission) (s : Db) : Except PyError Job × Db :=
  enqueue c.jobId c.taskId c.task c.idempotencyKey c.priority c.retryPolicy c.now s

/-- The key and the job, if the call returns. -/
def outcome (c : Submission) (s : Db) : Option (String × Uuid) :=
  match (c.submit s).1 with
  | .ok job => some (c.key, job.jobId)
  | .error _ => none

/-- The arguments pass the checks that `enqueue` makes before its transaction. -/
def Admitted (c : Submission) : Prop :=
  c.task.any (·.taskId ≠ c.taskId) = false ∧ (-100 ≤ c.priority ∧ c.priority ≤ 100) ∧ c.key ≠ ""

instance (c : Submission) : Decidable c.Admitted := by unfold Admitted; infer_instance

end Submission

/-- The submission that a call makes. -/
def JobCall.submission? : JobCall → Option Submission
  | .enqueue jobId taskId task idempotencyKey priority retryPolicy now =>
    some { jobId, taskId, task, idempotencyKey, priority, retryPolicy, now }
  | _ => none

/-- The key and the job of an `enqueue` call that returns. -/
def submitted? (call : JobCall) (s : Db) : Option (String × Uuid) :=
  call.submission?.bind fun c => c.outcome s

/-- The keys and the jobs of the `enqueue` calls of a run that returned, in order. -/
def submissions : List JobCall → Db → List (String × Uuid)
  | [], _ => []
  | call :: calls, s => (submitted? call s).toList ++ submissions calls (step call s)

/-- Keys and jobs are in one-to-one correspondence. -/
structure Db.KeysMatchJobs (s : Db) : Prop where
  keys_nodup : (s.idempotency.map (·.idempotencyKey)).Nodup
  ids_nodup : (s.idempotency.map (·.jobId)).Nodup
  jobs_nodup : (s.jobs.map (·.jobId)).Nodup
  same_jobs : ∀ j, j ∈ s.idempotency.map (·.jobId) ↔ j ∈ s.jobs.map (·.jobId)

/-- The rows of the submission can be inserted: the numbers of its policy fit their columns, its payload is JSON, and
no job has its id. -/
structure Submission.Storable (c : Submission) (s : Db) : Prop where
  admitted : c.Admitted
  policy : bindPolicy (c.retryPolicy.getD .default) = .ok ()
  payload : ∀ task, c.task = some task → PyValue.serializableItems task.payload = true
  fresh : s.job? c.jobId = none

/-- The job is the one that the submission asks for. -/
def Submission.Asks (c : Submission) (job : Job) : Prop :=
  job.jobId = c.jobId ∧ job.taskId = c.taskId ∧ job.idempotencyKey = c.key ∧ job.status = .queued

/-- How `enqueue` answers a submission whose key no call of the run submitted: it returns a new job if the rows of the
job can be inserted, and then the job is in the store under the key, with its task. -/
structure Begins (s : Db) (c : Submission) : Prop where
  returns_iff : (∃ job, (c.submit s).1 = .ok job) ↔ c.Storable s
  new_job : ∀ job, (c.submit s).1 = .ok job → c.Asks job
  stored : ∀ job, (c.submit s).1 = .ok job → ⟨c.key, c.jobId, c.now⟩ ∈ (c.submit s).2.idempotency ∧
    (∃ read, getJob (c.submit s).2 c.jobId = .ok (some read) ∧ c.Asks read) ∧ getTask (c.submit s).2 c.jobId = c.task

/-- How `enqueue` answers a submission whose key an earlier call of the run submitted: nothing is
written, and a call with admissible arguments returns the job as it stands. -/
structure Repeats (s : Db) (c : Submission) (jobId : Uuid) : Prop where
  unchanged : (c.submit s).2 = s
  returns_iff : (∃ job, (c.submit s).1 = .ok job) ↔ c.Admitted
  same_job : ∀ job, (c.submit s).1 = .ok job → job.jobId = jobId ∧
    getJob s jobId = .ok (some job) ∧ (s.job? jobId).map (·.status) = some job.status

end Galaxz
