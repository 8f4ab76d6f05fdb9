import Galaxz.Goals.Service

/-!
# The moves of a goal

What the calls of a request may do to the stores when the request is served on its own: every write,
with what holds in the stores at the moment it is made. The moves say once what `reconcile`, `rerun`
and `cancel` are for; everything about whole runs is derived from them.
-/

namespace Galaxz

open DurableGoalCoordinator

namespace GoalDb

/-- The task belongs to the goal and has the status. -/
def TaskIs (s : GoalDb) (goalId taskId : Uuid) (status : PlannedTaskStatus) : Prop :=
  ∃ r, s.task? taskId = some r ∧ r.goalId = goalId ∧ r.status = status

/-- The task belongs to the goal and is failed, blocked or cancelled. -/
def Broken (s : GoalDb) (goalId taskId : Uuid) : Prop :=
  s.TaskIs goalId taskId .failed ∨ s.TaskIs goalId taskId .blocked ∨ s.TaskIs goalId taskId .cancelled

/-- Every dependency is complete. -/
def DependenciesComplete (s : GoalDb) (goalId : Uuid) (r : PlannedTaskRow) : Prop :=
  ∀ dep ∈ r.dependsOn, s.TaskIs goalId dep .complete

/-- The number of running tasks of a goal. -/
def runningCount (s : GoalDb) (goalId : Uuid) : ℕ :=
  (s.tasks.filter fun r => r.goalId = goalId ∧ r.status = .running).length

end GoalDb

/-- The job of a task: the one it is linked to, or the one found by its key. -/
def World.linkedJob (w : World) (goalId : Uuid) (r : PlannedTaskRow) : Except PyError (Option Job) :=
  match r.jobId with
  | some jobId => SqliteJobRepository.getJob w.jobs jobId
  | none => SqliteJobRepository.getJobByIdempotencyKey w.jobs (key goalId r.taskId)

/-- The stored result of a job, `{}` if there is none. -/
def World.resultOf (w : World) (job : Job) : PyDict :=
  (SqliteJobRepository.getResult w.jobs job.jobId).getD []

/-- The call leaves the stores as they are. -/
def StoreCall.IsRead : StoreCall → Prop
  | .setGoalStatus _ _ => False
  | .updateTask _ _ => False
  | .recordEvent _ _ _ _ _ => False
  | .enqueue _ _ _ => False
  | .cancelJob _ => False
  | _ => True

/-- The stored confidence threshold of a goal. -/
def World.Threshold (w : World) (goalId : Uuid) (threshold : PyFloat) : Prop :=
  ∃ g, w.goals.goal? goalId = some g ∧ g.confidenceThreshold = threshold

/-- A call of `reconcile`. -/
inductive ReconcileMove (c : DurableGoalCoordinator) (goalId : Uuid) :
    StoreCall → World → Prop where
  | read {call : StoreCall} {w : World} (h : call.IsRead) : ReconcileMove c goalId call w
  /-- A running task whose job is gone waits again. -/
  | lost {w : World} {r : PlannedTaskRow} (hrow : w.goals.task? r.taskId = some r)
      (hgoal : r.goalId = goalId) (hstatus : r.status = .running)
      (hjob : w.linkedJob goalId r = .ok none) :
      ReconcileMove c goalId
        (.updateTask r.taskId { status := .pending, jobId := some none }) w
  /-- A running task takes in the accepted result of its completed job. -/
  | complete {w : World} {r : PlannedTaskRow} {job : Job} {threshold : PyFloat}
      (hrow : w.goals.task? r.taskId = some r) (hgoal : r.goalId = goalId) (hstatus : r.status = .running)
      (hjob : w.linkedJob goalId r = .ok (some job)) (hdone : job.status = .completed)
      (hthreshold : w.Threshold goalId threshold)
      (hresult : accepted (w.resultOf job) threshold = .ok true) :
      ReconcileMove c goalId (.updateTask r.taskId (completeUpdate (w.resultOf job))) w
  /-- A running task takes in the failure that its completed job reports. -/
  | fail {w : World} {r : PlannedTaskRow} {job : Job} {threshold : PyFloat}
      (hrow : w.goals.task? r.taskId = some r) (hgoal : r.goalId = goalId) (hstatus : r.status = .running)
      (hjob : w.linkedJob goalId r = .ok (some job)) (hdone : job.status = .completed)
      (hthreshold : w.Threshold goalId threshold)
      (hresult : accepted (w.resultOf job) threshold = .ok false) :
      ReconcileMove c goalId (.updateTask r.taskId (failUpdate (w.resultOf job))) w
  /-- A running task whose completed job reports anything else awaits review. -/
  | escalate {w : World} {r : PlannedTaskRow} {job : Job} {threshold : PyFloat}
      (hrow : w.goals.task? r.taskId = some r) (hgoal : r.goalId = goalId) (hstatus : r.status = .running)
      (hjob : w.linkedJob goalId r = .ok (some job)) (hdone : job.status = .completed)
      (hthreshold : w.Threshold goalId threshold)
      (hresult : accepted (w.resultOf job) threshold = .ok false) :
      ReconcileMove c goalId (.updateTask r.taskId (escalateUpdate (w.resultOf job))) w
  /-- The goal is paused after a task escalated. -/
  | pause {w : World} {taskId : Uuid} (h : w.goals.TaskIs goalId taskId .escalated) :
      ReconcileMove c goalId (.setGoalStatus goalId .paused) w
  /-- A running task fails with its job. -/
  | jobFailed {w : World} {r : PlannedTaskRow} {job : Job} (hrow : w.goals.task? r.taskId = some r)
      (hgoal : r.goalId = goalId) (hstatus : r.status = .running)
      (hjob : w.linkedJob goalId r = .ok (some job))
      (hdone : job.status = .failed ∨ job.status = .cancelled) :
      ReconcileMove c goalId
        (.updateTask r.taskId { status := .failed, error := some (.str job.status.value) }) w
  /-- A pending task is blocked by a dependency. -/
  | block {w : World} {r : PlannedTaskRow} {dep : Uuid} (hrow : w.goals.task? r.taskId = some r)
      (hgoal : r.goalId = goalId) (hstatus : r.status = .pending) (hdep : dep ∈ r.dependsOn)
      (hbroken : w.goals.Broken goalId dep) :
      ReconcileMove c goalId (.updateTask r.taskId blockUpdate) w
  /-- The payload of a pending task whose dependencies are complete does not resolve. -/
  | unresolved {w : World} {r : PlannedTaskRow} {msg : String}
      (hrow : w.goals.task? r.taskId = some r) (hgoal : r.goalId = goalId)
      (hstatus : r.status = .pending) (hready : w.goals.DependenciesComplete goalId r) :
      ReconcileMove c goalId (.updateTask r.taskId (unresolvedUpdate msg)) w
  /-- A pending task whose dependencies are complete is enqueued while a slot is free. -/
  | enqueue {w : World} {r : PlannedTaskRow} {contract : TaskContract}
      (hrow : w.goals.task? r.taskId = some r) (hgoal : r.goalId = goalId)
      (hstatus : r.status = .pending) (hready : w.goals.DependenciesComplete goalId r)
      (hslot : (w.goals.runningCount goalId : ℤ) < c.perGoalLimit) :
      ReconcileMove c goalId (.enqueue r.taskId contract (key goalId r.taskId)) w
  /-- The task that was enqueued runs. -/
  | run {w : World} {r : PlannedTaskRow} {job : Job} {payload : PyDict}
      (hrow : w.goals.task? r.taskId = some r) (hgoal : r.goalId = goalId)
      (hstatus : r.status = .pending) (hready : w.goals.DependenciesComplete goalId r)
      (hslot : (w.goals.runningCount goalId : ℤ) < c.perGoalLimit) :
      ReconcileMove c goalId (.updateTask r.taskId (runUpdate job payload)) w
  /-- The goal is complete when all its tasks are. -/
  | finish {w : World} (h : ∀ r ∈ w.goals.tasks, r.goalId = goalId → r.status = .complete) :
      ReconcileMove c goalId (.setGoalStatus goalId .complete) w
  | finished {w : World} :
      ReconcileMove c goalId (.recordEvent goalId "system" "complete" none []) w
  /-- The goal fails when nothing is left to run. -/
  | giveUp {w : World}
      (h : ∀ r ∈ w.goals.tasks, r.goalId = goalId → r.status ≠ .pending ∧ r.status ≠ .running) :
      ReconcileMove c goalId (.setGoalStatus goalId .failed) w

/-- A task in the row may be run again. -/
def Rerunnable (goalId taskId : Uuid) (w : World) (r : PlannedTaskRow) : Prop :=
  w.goals.task? taskId = some r ∧ r.goalId = goalId ∧
    (r.status = .failed ∨ r.status = .escalated ∨ r.status = .complete)

/-- The payload of the task resolves against the tasks of the goal as they are stored. -/
def Resolves (host : Host) (goalId taskId : Uuid) (w : World) : Prop :=
  ∃ tasks task payload, GoalStore.getTasks host w.goals goalId = .ok tasks ∧
    byId tasks taskId = some task ∧ resolvePayload task tasks = .ok payload

/-- A call of `rerun` that was asked for in `start`. Nothing is written before the job is enqueued. -/
inductive RerunMove (host : Host) (start : World) (goalId taskId : Uuid) :
    StoreCall → World → Prop where
  | read {call : StoreCall} {w : World} (h : call.IsRead) : RerunMove host start goalId taskId call w
  | enqueue {r : PlannedTaskRow} {contract : TaskContract} {idempotencyKey : String}
      (hrow : Rerunnable goalId taskId start r) (hpayload : Resolves host goalId taskId start) :
      RerunMove host start goalId taskId (.enqueue taskId contract idempotencyKey) start
  | run {w : World} {r : PlannedTaskRow} {job : Job} {payload : PyDict}
      (hgoals : w.goals = start.goals) (hrow : Rerunnable goalId taskId start r)
      (hpayload : Resolves host goalId taskId start) :
      RerunMove host start goalId taskId (.updateTask taskId (rerunUpdate job payload)) w
  | resume {w : World} : RerunMove host start goalId taskId (.setGoalStatus goalId .running) w
  | record {w : World} {actor : String} {reason : Option String} :
      RerunMove host start goalId taskId (.recordEvent goalId actor "rerun" reason [taskId.text]) w

/-- A call of `cancel`. -/
inductive CancelMove (goalId : Uuid) : StoreCall → World → Prop where
  | read {call : StoreCall} {w : World} (h : call.IsRead) : CancelMove goalId call w
  | cancelJob {w : World} {jobId : Uuid} : CancelMove goalId (.cancelJob jobId) w
  | cancelTask {w : World} {r : PlannedTaskRow} (hrow : w.goals.task? r.taskId = some r)
      (hgoal : r.goalId = goalId) (hstatus : r.status = .running ∨ r.status = .pending) :
      CancelMove goalId (.updateTask r.taskId { status := .cancelled }) w
  | cancel {w : World} : CancelMove goalId (.setGoalStatus goalId .cancelled) w
  | record {w : World} {actor : String} {reason : Option String} {affected : List String} :
      CancelMove goalId (.recordEvent goalId actor "cancel" reason affected) w

/-- A call of a request that is served on its own from `start` on. -/
inductive Move (c : DurableGoalCoordinator) (host : Host) (start : World) :
    Request → StoreCall → World → Prop where
  | reconcile {goalId : Uuid} {call : StoreCall} {w : World}
      (h : ReconcileMove c goalId call w) : Move c host start (.reconcile goalId) call w
  | reconcileAll {goalId : Uuid} {call : StoreCall} {w : World}
      (h : ReconcileMove c goalId call w) : Move c host start .reconcileAll call w
  | start {goalId : Uuid} {actor : String} {w : World} {r : GoalRow}
      (hrow : w.goals.goal? goalId = some r)
      (hstatus : r.status = .ready ∨ r.status = .paused ∨ r.status = .running) :
      Move c host start (.start goalId actor) (.setGoalStatus goalId .running) w
  | started {goalId : Uuid} {actor : String} {w : World} :
      Move c host start (.start goalId actor) (.recordEvent goalId actor "resume" none []) w
  | startReconcile {goalId : Uuid} {actor : String} {call : StoreCall} {w : World}
      (h : ReconcileMove c goalId call w) : Move c host start (.start goalId actor) call w
  | pause {goalId : Uuid} {actor : String} {reason : Option String} {w : World} :
      Move c host start (.pause goalId actor reason) (.setGoalStatus goalId .paused) w
  | paused {goalId : Uuid} {actor : String} {reason : Option String} {call : StoreCall} {w : World}
      (h : call.IsRead ∨ call = .recordEvent goalId actor "pause" reason []) :
      Move c host start (.pause goalId actor reason) call w
  | cancel {goalId : Uuid} {actor : String} {reason : Option String} {call : StoreCall} {w : World}
      (h : CancelMove goalId call w) : Move c host start (.cancel goalId actor reason) call w
  | rerun {goalId taskId : Uuid} {actor : String} {reason : Option String} {call : StoreCall}
      {w : World} (h : RerunMove host start goalId taskId call w) :
      Move c host start (.rerun goalId taskId actor reason) call w

end Galaxz
