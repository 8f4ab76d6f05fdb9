import Galaxz.Jobs.Calls

/-!
# `core/jobs/worker.py`: `DurableWorker`

Any number of workers on one job repository, among its other callers. A worker is a claim loop, the executions that it
has started, and a heartbeat for each; all of them are threads. An action is the next step of one thread, with at most
one call on the repository, so that an interleaving of the threads of all workers is a list of actions. The executor is
code of the caller: an action says what it did. So is the cycle hook, whose calls are among those of other callers.
-/

namespace Galaxz

open SqliteJobRepository

/-! ## Configuration -/

/-- `WorkerConfig`. -/
structure WorkerConfig where
  workerId : String
  concurrency : ℤ
  leaseSeconds : PyFloat
  heartbeatSeconds : PyFloat
  pollSeconds : PyFloat
  workerId_nonempty : strip workerId ≠ ""
  concurrency_pos : 1 ≤ concurrency
  lease_pos : leaseSeconds.le (.finite 0) = false
  heartbeat_pos : heartbeatSeconds.le (.finite 0) = false
  heartbeat_shorter : leaseSeconds.le heartbeatSeconds = false
  poll_pos : pollSeconds.le (.finite 0) = false

/-- `__post_init__`. -/
def WorkerConfig.validate (workerId : String) (concurrency : ℤ) (leaseSeconds heartbeatSeconds pollSeconds : PyFloat) :
    Except PyError WorkerConfig :=
  if h1 : strip workerId ≠ "" then
    if h2 : 1 ≤ concurrency then
      if h3 : leaseSeconds.le (.finite 0) = false then
        if h4 : heartbeatSeconds.le (.finite 0) = false then
          if h5 : leaseSeconds.le heartbeatSeconds = false then
            if h6 : pollSeconds.le (.finite 0) = false then
              .ok ⟨workerId, concurrency, leaseSeconds, heartbeatSeconds, pollSeconds, h1, h2, h3, h4, h5, h6⟩
            else .error (.valueError "poll interval must be positive")
          else .error (.valueError "heartbeat interval must be shorter than the lease")
        else .error (.valueError "lease and heartbeat intervals must be positive")
      else .error (.valueError "lease and heartbeat intervals must be positive")
    else .error (.valueError "concurrency must be at least 1")
  else .error (.valueError "worker_id must not be empty")

/-- `LeaseConflict` or `InvalidJobState`. -/
def PyError.isConflict : PyError → Bool
  | .leaseConflict _ | .invalidJobState _ => true
  | _ => false

/-- `str(exc)`. -/
def PyError.text : PyError → String
  | .valueError msg | .typeError msg | .overflowError msg | .attributeError msg | .integrityError msg | .dataError msg
  | .interfaceError msg | .invalidJobState msg | .leaseConflict msg | .payloadResolutionError msg
  | .planValidationError msg | .jsonDecodeError msg | .runtimeError msg | .permissionError msg
  | .objectStorageError msg | .osError msg | .scorecardError msg => msg
  | .keyError key => "'" ++ key ++ "'"
  | .assertionError => ""

/-- The call claims a job, which only workers do. -/
def JobCall.claims : JobCall → Bool
  | .claim .. => true
  | _ => false

namespace DurableWorker

/-! ## Executions -/

/-- What an executor does: it returns, or raises `JobCancelled`, `RetryableExecutionError`, one of the two exceptions of
the repository, or another. -/
inductive Outcome where
  | returned (result : PyDict)
  | cancelled
  | retryable (message errorCode : String)
  | conflict
  | raised (message : String)

/-- How an execution ends: `complete` returned; `JobCancelled` was caught; the executor raised an exception of the
repository; the repository refused the result or the failure; `record_failure` returned, or raised. -/
inductive Ending where
  | completed (result : PyDict)
  | cancelled
  | conflicted
  | discarded
  | failed
  | raised (e : PyError)

/-- Where `_execute` is: before `get_task`, before the `record_failure` of a missing task, in the executor, before
`complete`, before the `record_failure` of `_record_failure`, or past all of them. -/
inductive Phase where
  | starting
  | missing
  | executing
  | completing (result : PyDict)
  | recording (error errorCode : String) (retryable : Bool)
  | ended (ending : Ending)

/-- Where `_heartbeat` is: not started, in `stop.wait`, before `get_job`, before `heartbeat`, or over. -/
inductive Heartbeat where
  | unborn
  | waiting
  | woken
  | checked
  | over
deriving DecidableEq

/-- `_execute` with its heartbeat. `cancelled` is the event of the cancellation token, `task` what the executor was
given, and `isDone` is `future.done()`. -/
structure Execution where
  jobId : Uuid
  attemptId : Uuid
  leaseToken : Uuid
  phase : Phase := .starting
  task : Option TaskContract := none
  cancelled : Bool := false
  heartbeat : Heartbeat := .unborn
  isDone : Bool := false

namespace Execution

/-- What `run_cycle` submits to the pool. -/
def submitted (job : Job) (attempt : ExecutionAttempt) : Execution where
  jobId := job.jobId
  attemptId := attempt.attemptId
  leaseToken := attempt.leaseToken

/-- `get_task`, and the start of the heartbeat. -/
def read (s : Db) (e : Execution) : Execution :=
  match e.phase with
  | .starting =>
    match getTask s e.jobId with
    | none => { e with phase := .missing }
    | some task =>
      { e with
        phase := .executing
        task := some { task with executionAttemptId := some e.attemptId }
        heartbeat := .waiting }
  | _ => e

/-- What follows the executor, up to the next call on the repository. If it returned, `raise_if_cancelled` is first. -/
def leaveExecutor (outcome : Outcome) (cancelled : Bool) : Phase :=
  match outcome with
  | .returned result => if cancelled then .ended .cancelled else .completing result
  | .cancelled => .ended .cancelled
  | .retryable message errorCode => .recording message errorCode true
  | .conflict => .ended .conflicted
  | .raised message => .recording message "permanent" false

/-- The executor is over. -/
def run (outcome : Outcome) (e : Execution) : Execution :=
  match e.phase with
  | .executing => { e with phase := leaveExecutor outcome e.cancelled }
  | _ => e

/-- The call by which an execution settles its job. -/
def settlement (now : Datetime) (e : Execution) : Option JobCall :=
  match e.phase with
  | .missing => some (.recordFailure e.jobId e.leaseToken "persisted task input is missing" "invalid_input" "execution"
      false now)
  | .completing result => some (.complete e.jobId e.leaseToken ("job-output:" ++ e.jobId.text) (some result) now)
  | .recording error errorCode retryable =>
    some (.recordFailure e.jobId e.leaseToken error errorCode "execution" retryable now)
  | .starting | .executing | .ended _ => none

/-- Where the answer of that call leads. The exceptions of the repository are caught, except those of the failure of a
missing task; an exception of `complete` that is not one of them is a failure of the execution. -/
def settledPhase (answer : Except PyError JobValue) : Phase → Phase
  | .missing => match answer with
    | .ok _ => .ended .failed
    | .error x => .ended (.raised x)
  | .completing result => match answer with
    | .ok _ => .ended (.completed result)
    | .error x => if x.isConflict then .ended .discarded else .recording x.text "permanent" false
  | .recording _ _ _ => match answer with
    | .ok _ => .ended .failed
    | .error x => if x.isConflict then .ended .discarded else .ended (.raised x)
  | phase => phase

/-- The next call of `_execute`. -/
def settle (now : Datetime) (s : Db) (e : Execution) : Execution × Db :=
  match e.settlement now with
  | none => (e, s)
  | some call =>
    let (answer, s') := exec call s
    ({ e with phase := settledPhase answer e.phase }, s')

/-- The `finally` clause, which sets `heartbeat_stop`, has been reached. -/
def isOver (e : Execution) : Bool :=
  match e.phase with
  | .ended _ => true
  | _ => false

/-- `heartbeat_stop.wait` returns. -/
def wake (e : Execution) : Execution :=
  match e.heartbeat with
  | .waiting => { e with heartbeat := if e.isOver then .over else .woken }
  | _ => e

/-- `get_job` in the heartbeat; an exception ends its thread. -/
def check (s : Db) (e : Execution) : Execution :=
  match e.heartbeat with
  | .woken =>
    match getJob s e.jobId with
    | .error _ => { e with heartbeat := .over }
    | .ok none => { e with cancelled := true, heartbeat := .over }
    | .ok (some job) =>
      if job.status = .cancelled then { e with cancelled := true, heartbeat := .over }
      else { e with heartbeat := .checked }
  | _ => e

/-- What the heartbeat makes of the answer of `heartbeat`. -/
def heard (answer : Except PyError JobValue) (e : Execution) : Execution :=
  match answer with
  | .ok _ => { e with heartbeat := .waiting }
  | .error x =>
    if x.isConflict then { e with cancelled := true, heartbeat := .over } else { e with heartbeat := .over }

/-- `heartbeat` in the heartbeat. -/
def beat (leaseSeconds : PyFloat) (now : Datetime) (s : Db) (e : Execution) : Execution × Db :=
  match e.heartbeat with
  | .checked =>
    let (answer, s') := exec (.heartbeat e.jobId e.leaseToken leaseSeconds now) s
    (e.heard answer, s')
  | _ => (e, s)

/-- The end of the `finally` clause: the heartbeat was joined, or the join timed out. -/
def finish (e : Execution) : Execution := if e.isOver then { e with isDone := true } else e

end Execution

/-! ## Workers -/

/-- Where `run_forever` is: at the test of its loop; in `run_cycle` in the cycle hook, after the count of the active
executions, or after `reclaim_expired`; in `shutdown`; or past it. -/
inductive Loop where
  | idle
  | inHook
  | counted (active : ℕ)
  | reclaimed (active : ℕ)
  | draining
  | over
deriving DecidableEq

/-- A worker process. `stopping` is the event of `request_stop`. A process that has crashed does nothing more. -/
structure Worker where
  config : WorkerConfig
  stopping : Bool := false
  loop : Loop := .idle
  executions : List Execution := []
  crashed : Bool := false

/-- The next step of a thread of a worker; the executions are numbered in the order they were started in. -/
inductive WorkerAction where
  | requestStop
  | crash
  | beginCycle
  | leaveHook (raises : Bool)
  | reclaim (now : Datetime)
  | claim (attemptId leaseToken : Uuid) (now : Datetime)
  | drain
  | read (i : ℕ)
  | run (i : ℕ) (outcome : Outcome)
  | settle (i : ℕ) (now : Datetime)
  | wake (i : ℕ)
  | check (i : ℕ)
  | beat (i : ℕ) (now : Datetime)
  | finish (i : ℕ)

namespace Worker

/-- `self._active`: the executions whose future is not done. -/
def active (w : Worker) : ℕ := w.executions.countP fun e => !e.isDone

/-- `while not self._stopping.is_set()`. -/
def beginCycle (w : Worker) : Worker :=
  match w.loop with
  | .idle => { w with loop := if w.stopping then .draining else .inHook }
  | _ => w

/-- The end of the cycle hook, and the count of the active executions. An exception leaves the loop. -/
def leaveHook (raises : Bool) (w : Worker) : Worker :=
  match w.loop with
  | .inHook => { w with loop := if raises then .draining else .counted w.active }
  | _ => w

/-- `reclaim_expired`, and the test that follows it. -/
def reclaim (now : Datetime) (s : Db) (w : Worker) : Worker × Db :=
  match w.loop with
  | .counted active =>
    match exec (.reclaimExpired now) s with
    | (.error _, s') => ({ w with loop := .draining }, s')
    | (.ok _, s') =>
      ({ w with loop := if w.stopping ∨ w.config.concurrency ≤ active then .idle else .reclaimed active }, s')
  | _ => (w, s)

/-- `claim`, and the start of the execution. -/
def claim (attemptId leaseToken : Uuid) (now : Datetime) (s : Db) (w : Worker) : Worker × Db :=
  match w.loop with
  | .reclaimed _ =>
    match SqliteJobRepository.claim attemptId leaseToken w.config.workerId w.config.leaseSeconds now s with
    | (.error _, s') => ({ w with loop := .draining }, s')
    | (.ok none, s') => ({ w with loop := .idle }, s')
    | (.ok (some (job, attempt)), s') =>
      ({ w with loop := .idle, executions := w.executions ++ [.submitted job attempt] }, s')
  | _ => (w, s)

/-- `shutdown(wait=True)` returns once all executions are done. -/
def drain (w : Worker) : Worker :=
  match w.loop with
  | .draining => if w.active = 0 then { w with loop := .over } else w
  | _ => w

/-- A step of one execution. -/
def stepOne (i : ℕ) (f : Execution → Execution × Db) (s : Db) (w : Worker) : Worker × Db :=
  match w.executions[i]? with
  | none => (w, s)
  | some e => ({ w with executions := w.executions.set i (f e).1 }, (f e).2)

/-- The next step of a thread of a worker. -/
def act (action : WorkerAction) (s : Db) (w : Worker) : Worker × Db :=
  if w.crashed then (w, s)
  else match action with
    | .requestStop => ({ w with stopping := true }, s)
    | .crash => ({ w with crashed := true }, s)
    | .beginCycle => (w.beginCycle, s)
    | .leaveHook raises => (w.leaveHook raises, s)
    | .reclaim now => w.reclaim now s
    | .claim attemptId leaseToken now => w.claim attemptId leaseToken now s
    | .drain => (w.drain, s)
    | .read i => w.stepOne i (fun e => (e.read s, s)) s
    | .run i outcome => w.stepOne i (fun e => (e.run outcome, s)) s
    | .settle i now => w.stepOne i (·.settle now s) s
    | .wake i => w.stepOne i (fun e => (e.wake, s)) s
    | .check i => w.stepOne i (fun e => (e.check s, s)) s
    | .beat i now => w.stepOne i (·.beat w.config.leaseSeconds now s) s
    | .finish i => w.stepOne i (fun e => (e.finish, s)) s

end Worker

/-! ## Fleets -/

/-- The workers of a repository. -/
structure Fleet where
  jobs : Db := Db.empty
  workers : List Worker

/-- A call of another caller, or a step of worker `i`. -/
inductive FleetAction where
  | call (call : JobCall)
  | worker (i : ℕ) (action : WorkerAction)

namespace Fleet

/-- Workers that start on an empty repository. -/
def start (configs : List WorkerConfig) : Fleet where
  workers := configs.map fun config => { config }

/-- The next step. -/
def step (action : FleetAction) (f : Fleet) : Fleet :=
  match action with
  | .call call => { f with jobs := SqliteJobRepository.step call f.jobs }
  | .worker i action =>
    match f.workers[i]? with
    | none => f
    | some w =>
      let (w', jobs) := w.act action f.jobs
      { f with jobs, workers := f.workers.set i w' }

/-- The fleet after the steps. -/
def run (configs : List WorkerConfig) (actions : List FleetAction) : Fleet :=
  Machine.run step actions (start configs)

/-- All executions that were ever started. -/
def executions (f : Fleet) : List Execution := f.workers.flatMap (·.executions)

end Fleet

/-! ## What a fleet should do -/

/-- The execution has left its job to the expiry of the lease: `record_failure` raised, or the executor raised an
exception of the repository, or `JobCancelled` without a cancellation. -/
def Execution.Abandoned (e : Execution) : Prop :=
  match e.phase with
  | .ended (.raised _) | .ended .conflicted => True
  | .ended .cancelled => e.cancelled = false
  | _ => False

/-- The execution completed the job. -/
def Execution.completes (j : Uuid) (e : Execution) : Bool :=
  match e.phase with
  | .ended (.completed _) => e.jobId = j
  | _ => false

/-- A process of the worker is at work on the attempt, or it has crashed or abandoned it. -/
def Worker.Works (w : Worker) (job : JobRow) (a : AttemptRow) : Prop :=
  ∃ e ∈ w.executions, e.jobId = job.jobId ∧ e.attemptId = a.attemptId ∧ e.leaseToken = a.leaseToken ∧
    (w.crashed = true ∨ e.isOver = false ∨ e.Abandoned)

/-- At `now`, every running job is worked on by a worker, or its lease has expired and `reclaim_expired` may take it. No
worker exceeds its concurrency, and one whose `run_forever` is past has no execution left. -/
structure Fleet.Works (f : Fleet) (now : Datetime) : Prop where
  jobs : ∀ job ∈ f.jobs.jobs, job.status = .running → ∃ a ∈ f.jobs.attempts, job.activeAttemptId = some a.attemptId ∧
    (a.leaseExpiresAt ≤ now ∨ ∃ w ∈ f.workers, w.Works job a)
  slots : ∀ w ∈ f.workers, (w.active : ℤ) ≤ w.config.concurrency
  drained : ∀ w ∈ f.workers, w.loop = .over → ∀ e ∈ w.executions, e.isOver = true

end DurableWorker

end Galaxz
