import Galaxz.Goals.Service
import Galaxz.Goals.Moves
import Galaxz.Jobs.Calls
import Galaxz.Lib.Among
import Mathlib.Logic.Relation

/-!
# What the coordinator guarantees

What it means that a cancellation is final and goes through among workers, that tasks are completed on evidence and in
order, that blocking is justified, that every rerun runs, and that the limits hold.
-/

namespace Galaxz

/-! ## Finality of a cancelled goal

What it means that a cancellation is final: once `cancel` has stored the status, no call of any thread
stores another one, enqueues a job for a task of the goal or moves one to running. A thread is
`Guarded` when it asks for the status of the goal again before any such call.
-/

/-- The task belongs to the goal. -/
def GoalDb.Owns (s : GoalDb) (goalId taskId : Uuid) : Prop :=
  ∃ row ∈ s.tasks, row.goalId = goalId ∧ row.taskId = taskId

instance (s : GoalDb) (goalId taskId : Uuid) : Decidable (s.Owns goalId taskId) := by
  unfold GoalDb.Owns; infer_instance

/-- The call stores another status for the goal, enqueues a job for one of its tasks or moves one of
its tasks to running. -/
def StoreCall.Revives (own : Uuid → Uuid → Prop) (goalId : Uuid) : StoreCall → Prop
  | .setGoalStatus g status => g = goalId ∧ status ≠ .cancelled
  | .enqueue taskId _ _ => own goalId taskId
  | .updateTask taskId update => update.status = .running ∧ own goalId taskId
  | _ => False

/-- The goal is stored as cancelled. -/
def GoalDb.Cancelled (s : GoalDb) (goalId : Uuid) : Prop :=
  ∀ row ∈ s.goals, row.goalId = goalId → row.status = .cancelled

/-- The answers of the stores while the goal is cancelled: the goal reads as cancelled, and the tasks
of a goal are its own. -/
def CancelledAnswers (own : Uuid → Uuid → Prop) (goalId : Uuid) :
    (call : StoreCall) → call.Answer → Prop
  | .getGoal g, goal => g = goalId → ∀ contract, goal = some contract → contract.status = .cancelled
  | .getTasks g, tasks => ∀ t ∈ tasks, own g t.taskId
  | _, _ => True

/-- Nothing that is left of the thread revives the goal, as long as the goal reads as cancelled: it
reads the status before each call that would. -/
def Thread.Guarded (own : Uuid → Uuid → Prop) (goalId : Uuid) (t : Thread) : Prop :=
  t.rest.Always (CancelledAnswers own goalId) (fun call => ¬ call.Revives own goalId) fun _ => True

/-- The request may work on the goal. -/
def Request.Concerns (goalId : Uuid) : Request → Prop
  | .reconcile g => g = goalId
  | .reconcileAll => True
  | .start g _ => g = goalId
  | .pause g _ _ => g = goalId
  | .cancel g _ _ => g = goalId
  | .rerun g _ _ _ => g = goalId
  | .review _ g _ _ => Uuid.parse g = .ok goalId

/-- The request is a cancellation of the goal. -/
def Request.Cancels (goalId : Uuid) : Request → Prop
  | .cancel g _ _ => g = goalId
  | _ => False

/-- The request changes the goal without asking for its status: a rerun of one of its tasks, or the
rejection of a review. -/
def Request.Unchecked (goalId : Uuid) : Request → Prop
  | .rerun g _ _ _ => g = goalId
  | .review _ g approved _ => Uuid.parse g = .ok goalId ∧ approved = false
  | _ => False

namespace Service

/-- The action is the call by which a cancellation of the goal stores its status. -/
def StoresCancelled (goalId : Uuid) (a : Action) (s : Service) : Prop :=
  ∃ i t, a = .advance i ∧ s.threads[i]? = some t ∧ t.request.Cancels goalId ∧
    t.rest.next = some (.setGoalStatus goalId .cancelled)

/-- No thread is past its check of the status: each thread on the goal, other than the cancellations of
it, reads the status before its next call that would revive the goal. -/
def NonePastCheck (goalId : Uuid) (s : Service) : Prop :=
  ∀ t ∈ s.threads, t.request.Concerns goalId → ¬ t.request.Cancels goalId →
    t.Guarded s.world.goals.Owns goalId

/-- The goal is cancelled, and the action does not revive it. -/
def Final (goalId : Uuid) (a : Action) (s : Service) : Prop :=
  s.world.goals.Cancelled goalId ∧
    ∀ call, s.callOf a = some call → ¬ call.Revives s.world.goals.Owns goalId

end Service

/-! ## A cancellation among workers

`cancel` reads each job of a running task and then cancels it, in two transactions. Workers claim, complete, fail and
reclaim jobs in between. A cancellation should go through, and leave nothing of the goal to run.
-/

/-- A call of others on the job store: any but `enqueue`. -/
abbrev WorkerCall := {call : JobCall // call.submission? = none}

/-- The job is over, if it is there. -/
def Db.Over (s : Db) (jobId : Uuid) : Prop := ∀ row, s.job? jobId = some row → row.status.terminal = true

namespace World

/-- The world after a call of others. -/
def workerStep (o : WorkerCall) (w : World) : World := w.work o.1

variable (host : Host)

/-- `cancel`, with the calls of others before each of its own and after the last. -/
def cancelAmong (goalId : Uuid) (actor : String) (reason : Option String) (others : List (List WorkerCall))
    (w : World) : Except PyError Unit × World :=
  Prog.runAmong (exec host) workerStep (DurableGoalCoordinator.cancel goalId actor reason) others w

/-- The calls that it makes, each with the world it is made in. -/
def cancelCalls (goalId : Uuid) (actor : String) (reason : Option String) (others : List (List WorkerCall))
    (w : World) : List (StoreCall × World) :=
  Prog.traceAmong (exec host) workerStep (DurableGoalCoordinator.cancel goalId actor reason) others w

end World

/-! ### What a cancellation should do -/

/-- The goal is ready, running or paused. -/
def GoalDb.IsOpen (s : GoalDb) (goalId : Uuid) : Prop :=
  ∃ row, s.goal? goalId = some row ∧ (row.status = .ready ∨ row.status = .running ∨ row.status = .paused)

/-- The cancellation returned, and nothing of the goal is left to run. -/
structure CancelCompletes (goalId : Uuid) (start : World) (answer : Except PyError Unit × World) : Prop where
  returns : answer.1 = .ok ()
  cancelled : ∃ row, answer.2.goals.goal? goalId = some row ∧ row.status = .cancelled
  tasks : ∀ t ∈ answer.2.goals.tasks, t.goalId = goalId → t.status ≠ .running ∧ t.status ≠ .pending
  jobs : ∀ t ∈ start.goals.tasks, t.goalId = goalId → ∀ jobId, t.jobId = some jobId → answer.2.jobs.Over jobId

/-! ### When it does -/

/-- The goal and its tasks can be read back. -/
def World.Reads (host : Host) (w : World) (goalId : Uuid) : Prop :=
  (∃ goal, GoalStore.getGoal w.goals goalId = .ok (some goal)) ∧
    ∃ tasks, GoalStore.getTasks host w.goals goalId = .ok tasks

/-- The jobs of tasks that are not running are over. -/
def World.RestOver (w : World) (goalId : Uuid) : Prop :=
  ∀ t ∈ w.goals.tasks, t.goalId = goalId → t.status ≠ .running → ∀ jobId, t.jobId = some jobId → w.jobs.Over jobId

/-- The job that a call cancels. -/
def StoreCall.cancelled? : StoreCall → Option Uuid
  | .cancelJob jobId => some jobId
  | _ => none

/-- A job is not cancelled after it has completed or failed. -/
def NotFinished (call : StoreCall) (w : World) : Prop :=
  ∀ jobId ∈ call.cancelled?, ∀ row ∈ w.jobs.job? jobId, row.status ≠ .completed ∧ row.status ≠ .failed

instance (call : StoreCall) (w : World) : Decidable (NotFinished call w) := by unfold NotFinished; infer_instance

/-! ## What the coordinator guarantees

Properties of the calls of a request in the stores they are made in, and of the stores between two
requests: tasks and goals are completed on evidence only, jobs are enqueued in the order of the
dependencies, and a task is blocked by a failure that is still there.
-/

open DurableGoalCoordinator

/-! ### Completion -/

/-- The status and the stored result of the job of a task. -/
def World.outcome (w : World) (r : PlannedTaskRow) : Option (JobStatus × PyDict) :=
  match w.linkedJob r.goalId r with
  | .ok (some job) => some (job.status, w.resultOf job)
  | _ => none

/-- The value is a number that is at least the threshold. -/
def AtLeast (value : PyValue) (threshold : PyFloat) : Prop := geThreshold value threshold = .ok true

/-- The value, or zero in the place of a value that counts as false, is at least the threshold. -/
def AtLeastOrZero (value : PyValue) (threshold : PyFloat) : Prop :=
  AtLeast (value.orElse (.float (.finite 0))) threshold

/-- A call completes a goal or a task on evidence only, where `enough` says when a confidence reaches
the threshold, and it changes no task whose job is not over. -/
structure CompletionSound (enough : PyValue → PyFloat → Prop) (host : Host) (call : StoreCall)
    (w : World) : Prop where
  goal : ∀ goalId, call = .setGoalStatus goalId .complete →
    ∀ r ∈ w.goals.tasks, r.goalId = goalId → r.status = .complete
  task : ∀ taskId update, call = .updateTask taskId update → update.status = .complete →
    ∃ r result threshold, w.goals.task? taskId = some r ∧ r.status = .running ∧
      w.outcome r = some (.completed, result) ∧ result.get "status" = .str "complete" ∧
      w.Threshold r.goalId threshold ∧ enough (result.get "confidence") threshold
  unfinished : ∀ r status result, w.goals.task? r.taskId = some r → r.status = .running →
    w.outcome r = some (status, result) → status = .queued ∨ status = .running →
    (World.exec host call w).2.goals.task? r.taskId = some r

/-- A start, a reconciliation, a pause or a rerun. -/
def Request.advances : Request → Bool
  | .reconcile _ | .reconcileAll | .start _ _ | .pause _ _ _ | .rerun _ _ _ _ => true
  | .cancel _ _ _ | .review _ _ _ _ => false

/-- The turn is a request of these, or a call of a worker. -/
def Turn.advances : Turn → Bool
  | .request r => r.advances
  | .work _ => true

/-! ### Order -/

/-- The task that a call enqueues a job for. -/
def StoreCall.enqueued : StoreCall → Option Uuid
  | .enqueue taskId _ _ => some taskId
  | _ => none

/-- A job is enqueued for a planned task only when all its dependencies are complete. -/
def EnqueuesReady (call : StoreCall) (w : World) : Prop :=
  ∀ taskId, call.enqueued = some taskId →
    ∀ r, w.goals.task? taskId = some r → w.goals.DependenciesComplete r.goalId r

/-- A rerun that would go through is asked for only when the dependencies of the task are complete;
reviews are not asked for. -/
def Turn.RerunsReady (host : Host) : Turn → World → Prop
  | .request (.rerun goalId taskId _ _), w => ∀ r, Rerunnable goalId taskId w r →
      Resolves host goalId taskId w → w.goals.DependenciesComplete goalId r
  | .request r, _ => r.isReview = false
  | .work _, _ => True

/-! ### Blocking -/

namespace GoalDb

/-- One task of the goal depends on the other. -/
def DependsOn (s : GoalDb) (goalId a b : Uuid) : Prop :=
  ∃ r, s.task? a = some r ∧ r.goalId = goalId ∧ b ∈ r.dependsOn

/-- The task is failed or cancelled. -/
def Down (s : GoalDb) (goalId taskId : Uuid) : Prop :=
  s.TaskIs goalId taskId .failed ∨ s.TaskIs goalId taskId .cancelled

/-- Every blocked task of the goal has a transitive dependency that is failed or cancelled. -/
def BlockedJustified (s : GoalDb) (goalId : Uuid) : Prop :=
  ∀ t, s.TaskIs goalId t .blocked → ∃ d, Relation.TransGen (s.DependsOn goalId) t d ∧ s.Down goalId d

/-- The plan of the goal can be executed in some order: its dependencies are tasks of the goal and have
no cycle. -/
structure PlanOrdered (s : GoalDb) (goalId : Uuid) : Prop where
  closed : ∀ a b, s.DependsOn goalId a b → ∃ r, s.task? b = some r ∧ r.goalId = goalId
  acyclic : ∀ t, ¬ Relation.TransGen (s.DependsOn goalId) t t

/-- A pending task of the goal whose dependencies are all complete. -/
def Ready (s : GoalDb) (goalId taskId : Uuid) : Prop :=
  s.TaskIs goalId taskId .pending ∧ ∀ dep, s.DependsOn goalId taskId dep → s.TaskIs goalId dep .complete

/-- The goal is on its way to complete: no task is blocked, and all are complete, or one runs, is under
review or is ready to run. -/
def OnItsWay (s : GoalDb) (goalId : Uuid) : Prop :=
  (∀ t, ¬ s.TaskIs goalId t .blocked) ∧
    ((∀ r ∈ s.tasks, r.goalId = goalId → r.status = .complete) ∨
      ∃ t, s.TaskIs goalId t .running ∨ s.TaskIs goalId t .escalated ∨ s.Ready goalId t)

/-- Blocking is justified, and undone: with no task failed or cancelled the goal is on its way. -/
structure BlockingSound (s : GoalDb) (goalId : Uuid) : Prop where
  justified : s.BlockedJustified goalId
  undone : (∀ t, ¬ s.Down goalId t) → s.OnItsWay goalId

end GoalDb

/-- A rerun of a failed task that would go through is asked for only when every blocked task that
depends on it, directly or not, depends on another failed or cancelled task too; reviews are not asked
for. -/
def Turn.RerunsUnblocking (host : Host) : Turn → World → Prop
  | .request (.rerun goalId taskId _ _), w => w.goals.TaskIs goalId taskId .failed →
      Resolves host goalId taskId w →
      ∀ t, w.goals.TaskIs goalId t .blocked → Relation.TransGen (w.goals.DependsOn goalId) t taskId →
        ∃ d, d ≠ taskId ∧ Relation.TransGen (w.goals.DependsOn goalId) t d ∧ w.goals.Down goalId d
  | .request r, _ => r.isReview = false
  | .work _, _ => True

/-! ## Reruns that stop

The process may stop between two calls of a request, and the request is made again. A rerun takes the number of its key
from the events, and records its own event last. The job that a task is linked to by a rerun should be one that has
not run before.
-/

open DurableGoalCoordinator

/-- A request of which so many calls are made, or a call of others on the job store. -/
inductive StoppingTurn where
  | request (request : Request) (calls : ℕ)
  | work (call : WorkerCall)

namespace World

variable (c : DurableGoalCoordinator) (host : Host)

/-- The world after it. -/
def stopping : StoppingTurn → World → World
  | .request r calls, w => (Prog.after (exec host) calls (r.program c) w).2
  | .work call, w => w.workerStep call

end World

/-! ### What a rerun should do -/

section Reruns

variable (c : DurableGoalCoordinator) (host : Host)

/-- The turn is a rerun of the task that returns. -/
def StoppingTurn.Reruns (goalId taskId : Uuid) : StoppingTurn → World → Prop
  | .request r calls, w =>
    (∃ actor reason, r = .rerun goalId taskId actor reason) ∧
      (Prog.after (World.exec host) calls (r.program c) w).1.value? = some ()
  | .work _, _ => False

/-- The turn links the task to a job that was not over before. -/
def StoppingTurn.LinksNew (taskId : Uuid) (turn : StoppingTurn) (w : World) : Prop :=
  ∃ row jobId, (w.stopping c host turn).goals.task? taskId = some row ∧ row.jobId = some jobId ∧
    ∀ job, w.jobs.job? jobId = some job → job.status.terminal = false

/-- A rerun that returns links its task to a job that was not over before. -/
def RerunRuns (turn : StoppingTurn) (w : World) : Prop :=
  ∀ goalId taskId, turn.Reruns c host goalId taskId w → turn.LinksNew c host taskId w

/-! ### When it does -/

/-- The key of a rerun, by its number. -/
def rerunKey (goalId taskId : Uuid) (number : ℕ) : String := s!"{key goalId taskId}:rerun:{number}"

/-- The number of the next rerun of a task. -/
def World.nextRerun (w : World) (goalId taskId : Uuid) : ℕ := runNumber taskId (GoalStore.events w.goals goalId)

/-- A job is left under the number of the next rerun: a rerun enqueued it, and stopped before its event. -/
def World.LeftBehind (w : World) (goalId taskId jobId : Uuid) : Prop :=
  ∃ k ∈ w.jobs.idempotency, k.idempotencyKey = rerunKey goalId taskId (w.nextRerun goalId taskId) ∧ k.jobId = jobId

/-- When a rerun returns, no job that an earlier rerun of the task left behind was over before. -/
def NoneRunBehind (turn : StoppingTurn) (w : World) : Prop :=
  ∀ goalId taskId, turn.Reruns c host goalId taskId w → ∀ jobId, w.LeftBehind goalId taskId jobId →
    ∀ job, w.jobs.job? jobId = some job → job.status.terminal = false

end Reruns

/-! ## The limits of the coordinator

`per_goal_limit` bounds the running tasks of a goal, `global_limit` the jobs of all goals that are queued or running.
`reconcile` counts the tasks of the goal that are running, and of the jobs those among the 500 newest that are running;
`rerun` counts nothing.
-/

open DurableGoalCoordinator

/-! ### What is in flight -/

/-- The key of a job of a goal. -/
def IdempotencyRow.ofGoal (k : IdempotencyRow) : Bool := "goal:".toList.isPrefixOf k.idempotencyKey.toList

namespace Db

/-- The job of the key is queued or running. -/
def inFlight (s : Db) (k : IdempotencyRow) : Bool := (s.job? k.jobId).any fun job => !job.status.terminal

/-- The number of jobs of goals that are queued or running. -/
def goalJobs (s : Db) : ℕ := s.idempotency.countP fun k => k.ofGoal && s.inFlight k

/-- A job has the key. -/
def hasKey (s : Db) (key : String) : Bool := s.idempotency.any fun k => k.idempotencyKey = key

end Db

namespace World

/-- No goal has more running tasks, and no more jobs of goals are queued or running, than the limits allow. -/
structure WithinLimits (c : DurableGoalCoordinator) (w : World) : Prop where
  perGoal : ∀ goalId, (w.goals.runningCount goalId : ℤ) ≤ c.perGoalLimit
  all : (w.jobs.goalJobs : ℤ) ≤ c.globalLimit

/-! ### When there is room -/

/-- The tasks of the goal that wait for a slot only: each is pending, its dependencies are complete, its payload resolves
and no job has its key. -/
def waiting (host : Host) (w : World) (goalId : Uuid) : List PlannedTask :=
  match GoalStore.getTasks host w.goals goalId with
  | .error _ => []
  | .ok tasks => tasks.filter fun t => t.status = .pending && dependenciesComplete tasks t.dependsOn = .ok true &&
      (resolvePayload t tasks).isOk && !w.jobs.hasKey (key goalId t.taskId)

/-- The number of the 500 newest jobs that are running. -/
def shownRunning (w : World) : ℕ :=
  match SqliteJobRepository.listJobs w.jobs 500 with
  | .error _ => 0
  | .ok jobs => (jobs.filter (·.status = .running)).length

/-- There is room for the tasks of the goal: no more of them wait than jobs are allowed, or its own limit allows no
more, or the jobs of goals in flight are outnumbered by the jobs that are shown as running. -/
def HasRoom (c : DurableGoalCoordinator) (host : Host) (goalId : Uuid) (w : World) : Prop :=
  w.jobs.goalJobs + ((w.waiting host goalId).length : ℤ) ≤ c.globalLimit ∨
    w.jobs.goalJobs + (c.perGoalLimit - w.goals.runningCount goalId) ≤ c.globalLimit ∨
    w.jobs.goalJobs ≤ w.shownRunning

instance (c : DurableGoalCoordinator) (host : Host) (goalId : Uuid) (w : World) : Decidable (w.HasRoom c host goalId) := by
  unfold HasRoom; infer_instance

end World

/-- The turn is a start, a reconciliation, a rerun or a call of a worker. -/
def Turn.schedules : Turn → Bool
  | .request (.start _ _) | .request (.reconcile _) | .request (.rerun _ _ _ _) => true
  | .request _ => false
  | .work call => call.submission? = none

/-- There is room when a reconciliation lists the jobs, and for the task that is run again by a rerun that would go
through. -/
def Turn.HasRoom (c : DurableGoalCoordinator) (host : Host) : Turn → World → Prop
  | .request (.rerun goalId taskId _ _), w => ∀ r, Rerunnable goalId taskId w r → Resolves host goalId taskId w →
      (w.goals.runningCount goalId : ℤ) < c.perGoalLimit ∧
        (w.jobs.hasKey (rerunKey goalId taskId (w.nextRerun goalId taskId)) = true ∨
          (w.jobs.goalJobs : ℤ) < c.globalLimit)
  | .request (.start goalId actor), w => ∀ x ∈ World.calls c host (.request (.start goalId actor)) w,
      x.1 = .listJobs 500 → x.2.HasRoom c host goalId
  | .request (.reconcile goalId), w => ∀ x ∈ World.calls c host (.request (.reconcile goalId)) w,
      x.1 = .listJobs 500 → x.2.HasRoom c host goalId
  | _, _ => True

end Galaxz
