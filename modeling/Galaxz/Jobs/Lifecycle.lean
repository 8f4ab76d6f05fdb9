import Galaxz.Jobs.Repository

/-!
# The life of one job

What the job store is for, one job at a time: a job is enqueued, claimed, its lease renewed, and its
run ends by completing, by being released back to the queue or to failure, or by cancellation. A
`JobView` is everything the database holds about one job; `Lifecycle.Step` are the moves of its life,
and `JobView.Ok` is what holds between them.
-/

namespace Galaxz

open SqliteJobRepository

/-- The rows of one job in every table. -/
structure JobView where
  rows : List JobRow
  keys : List IdempotencyRow
  attempts : List AttemptRow
  log : List TransitionRow
  tasks : List TaskRow
  outputs : List OutputRow
  outbox : List OutboxRow

/-- The view of an id that no job has. -/
def JobView.absent : JobView := ⟨[], [], [], [], [], [], []⟩

/-- What the database holds about a job. -/
def Db.view (s : Db) (jobId : Uuid) : JobView where
  rows := s.jobs.filter (·.jobId = jobId)
  keys := s.keysOf jobId
  attempts := s.attemptsOf jobId
  log := s.log jobId
  tasks := s.tasksOf jobId
  outputs := s.outputsOf jobId
  outbox := s.outboxOf jobId

/-! ## Well-formedness -/

/-- The attempt is over, and not by completing the job. -/
def AttemptFields.Spent (a : AttemptFields) : Prop :=
  a.endedAt.isSome ∧ a.outcome.isSome ∧ a.outcome ≠ some .completed

/-- The attempt runs. -/
def AttemptFields.Open (a : AttemptFields) : Prop := a.endedAt = none ∧ a.outcome = none

/-- The row was accepted by the validators of the contract and can be read back. -/
structure JobRow.Loads (row : JobRow) : Prop where
  maxAttempts_pos : 1 ≤ row.maxAttempts
  backoff_nonneg : row.backoffSeconds.lt (.finite 0) = false
  maxBackoff_nonneg : row.maxBackoffSeconds.lt (.finite 0) = false
  backoff_le : row.maxBackoffSeconds.lt row.backoffSeconds = false
  backoff_ne_nan : row.backoffSeconds ≠ .nan
  maxBackoff_ne_nan : row.maxBackoffSeconds ≠ .nan
  priority_range : -100 ≤ row.priority ∧ row.priority ≤ 100
  cancelled_iff : row.cancelledAt.isSome = true ↔ row.status = .cancelled

/-- The log is a path of the declared state machine from `queued` to `status`. -/
inductive LogPath : JobStatus → List TransitionRow → Prop where
  | start (t : TransitionRow) (hfrom : t.fromStatus = none) (hto : t.toStatus = .queued) :
      LogPath .queued [t]
  | step {current : JobStatus} {log : List TransitionRow} (t : TransitionRow) (h : LogPath current log)
      (hfrom : t.fromStatus = some current) (hto : t.toStatus ∈ validJobTransitions current) :
      LogPath t.toStatus (log ++ [t])

/-- The attempts of a job agree with its status: only a running job has an open attempt, its last and
active one; only a completed job has an attempt that completed it, its last. -/
def AttemptsFit (row : JobRow) (attempts : List AttemptRow) : Prop :=
  match row.status with
  | .running => ∃ pre a, attempts = pre ++ [a] ∧ row.activeAttemptId = some a.attemptId ∧ a.Open ∧
      ∀ x ∈ pre, x.Spent
  | .completed => row.activeAttemptId = none ∧ ∃ pre a, attempts = pre ++ [a] ∧ a.endedAt.isSome ∧
      a.outcome = some .completed ∧ ∀ x ∈ pre, x.Spent
  | .queued | .failed | .cancelled => row.activeAttemptId = none ∧ ∀ x ∈ attempts, x.Spent

/-- The stored result and the outbox entry of a completed job: an entry exactly for evidence, naming
the completing attempt, with a task input to publish it for. -/
def ResultFit (attemptId : Uuid) (tasks : List TaskRow) (outputs : List OutputRow)
    (outbox : List OutboxRow) : Prop :=
  (outputs = [] ∧ outbox = []) ∨
    ∃ o, outputs = [o] ∧
      ((hasEvidence o.result = false ∧ outbox = []) ∨
        (hasEvidence o.result = true ∧ tasks ≠ [] ∧
          ∃ e, outbox = [e] ∧ e.attemptId = attemptId))

/-- The view of a job that exists. -/
structure JobView.Sound (v : JobView) (row : JobRow) (key : IdempotencyRow) : Prop where
  rows : v.rows = [row]
  keys : v.keys = [key]
  key_stripped : strip key.idempotencyKey = key.idempotencyKey
  key_nonempty : key.idempotencyKey ≠ ""
  loads : row.Loads
  numbers : v.attempts.map (·.attemptNumber) = List.range' 1 row.attemptCount
  attempts : AttemptsFit row v.attempts
  budget : row.status = .queued → (row.attemptCount : ℤ) < row.maxAttempts
  log : LogPath row.status v.log
  pending : row.status ≠ .completed → v.outputs = [] ∧ v.outbox = []
  finished : row.status = .completed →
    ∀ a, v.attempts.getLast? = some a → ResultFit a.attemptId v.tasks v.outputs v.outbox

/-- A view is well formed: nothing at all, or a sound job. -/
def JobView.Ok (v : JobView) : Prop := v = .absent ∨ ∃ row key, v.Sound row key

/-! ## Moves -/

/-- One move in the life of a job. -/
inductive Lifecycle.Step : JobView → JobView → Prop where
  | enqueue (row : JobRow) (key : IdempotencyRow) (tasks : List TaskRow) (t : TransitionRow)
      (hstatus : row.status = .queued) (hcount : row.attemptCount = 0)
      (hactive : row.activeAttemptId = none) (hloads : row.Loads)
      (hstrip : strip key.idempotencyKey = key.idempotencyKey) (hkey : key.idempotencyKey ≠ "")
      (hfrom : t.fromStatus = none) (hto : t.toStatus = .queued) :
      Step .absent ⟨[row], [key], [], [t], tasks, [], []⟩
  | claim {v : JobView} (row : JobRow) (a : AttemptRow) (t : TransitionRow) (now : Datetime)
      (hrow : v.rows = [row]) (hstatus : row.status = .queued)
      (hnumber : a.attemptNumber = row.attemptCount + 1) (hopen : a.Open)
      (hfrom : t.fromStatus = some .queued) (hto : t.toStatus = .running) :
      Step v { v with
        rows := [startRun a.attemptId now row]
        attempts := v.attempts ++ [a]
        log := v.log ++ [t] }
  | renew {v : JobView} (row : JobRow) (pre : List AttemptRow) (a : AttemptRow)
      (now expiry : Datetime) (hrow : v.rows = [row]) (hstatus : row.status = .running)
      (hattempts : v.attempts = pre ++ [a]) :
      Step v { v with
        rows := [touch now row]
        attempts := pre ++ [renewLease expiry a] }
  | complete {v : JobView} (row : JobRow) (pre : List AttemptRow) (a : AttemptRow)
      (t : TransitionRow) (now : Datetime) (error outputRef : Option String)
      (outputs : List OutputRow) (outbox : List OutboxRow) (hrow : v.rows = [row])
      (hstatus : row.status = .running) (hattempts : v.attempts = pre ++ [a])
      (hfrom : t.fromStatus = some .running) (hto : t.toStatus = .completed)
      (hfit : ResultFit a.attemptId v.tasks outputs outbox) :
      Step v { v with
        rows := [finishRun .completed now row]
        attempts := pre ++ [finishAttempt .completed error outputRef now a]
        log := v.log ++ [t]
        outputs
        outbox }
  | release {v : JobView} (row : JobRow) (pre : List AttemptRow) (a : AttemptRow)
      (t : TransitionRow) (now availableAt : Datetime) (target : JobStatus) (outcome : AttemptOutcome)
      (failureKind errorCode error : Option String) (hrow : v.rows = [row])
      (hstatus : row.status = .running) (hattempts : v.attempts = pre ++ [a])
      (htarget : target = .failed ∨ target = .queued ∧ (row.attemptCount : ℤ) < row.maxAttempts)
      (houtcome : outcome ≠ .completed)
      (hfrom : t.fromStatus = some .running) (hto : t.toStatus = target) :
      Step v { v with
        rows := [requeue target now availableAt row]
        attempts := pre ++ [{ a with
          endedAt := some now, outcome := some outcome, failureKind, errorCode, error }]
        log := v.log ++ [t] }
  | cancelRunning {v : JobView} (row : JobRow) (pre : List AttemptRow) (a : AttemptRow)
      (t : TransitionRow) (now : Datetime) (hrow : v.rows = [row]) (hstatus : row.status = .running)
      (hattempts : v.attempts = pre ++ [a])
      (hfrom : t.fromStatus = some .running) (hto : t.toStatus = .cancelled) :
      Step v { v with
        rows := [cancelled now row]
        attempts := pre ++ [closeAttempt .cancelled now a]
        log := v.log ++ [t] }
  | cancelQueued {v : JobView} (row : JobRow) (t : TransitionRow) (now : Datetime)
      (hrow : v.rows = [row]) (hstatus : row.status = .queued)
      (hfrom : t.fromStatus = some .queued) (hto : t.toStatus = .cancelled) :
      Step v { v with rows := [cancelled now row], log := v.log ++ [t] }
  | acknowledge {v : JobView} (e : OutboxRow) (now : Datetime) (houtbox : v.outbox = [e]) :
      Step v { v with outbox := [markPublished now e] }

end Galaxz
