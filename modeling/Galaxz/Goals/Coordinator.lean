import Galaxz.Goals.Substitution
import Galaxz.Goals.World

/-!
# `core/goals/coordinator.py`: `DurableGoalCoordinator`

Every method as the program of the calls it makes on the stores, and the review handler
`_resume_goal_from_review` of `services/andromeda_service.py`, which resumes goals through them.
-/

namespace Galaxz

open Coord

/-- The limits of a coordinator. -/
structure DurableGoalCoordinator where
  perGoalLimit : ℤ
  globalLimit : ℤ

namespace DurableGoalCoordinator

/-- `key`. -/
def key (goalId taskId : Uuid) : String := s!"goal:{goalId.text}:task:{taskId.text}"

/-! ## `reconcile`: running tasks -/

/-- The job of a running task: the one it is linked to, or the one found by its key. -/
def findJob (goalId taskId : Uuid) (execution : GoalStore.TaskExecution) : Coord (Option Job) :=
  match execution.jobId with
  | some jobId => getJob jobId
  | none => getJobByIdempotencyKey (key goalId taskId)

/-- `value >= threshold` in Python: numbers compare, everything else raises. -/
def geThreshold (value : PyValue) (threshold : PyFloat) : Except PyError Bool :=
  match value with
  | .bool b => .ok (threshold.le (.finite (if b then 1 else 0)))
  | .int n => .ok (threshold.le (.finite n))
  | .float x => .ok (threshold.le x)
  | .none => .error (.typeError "'>=' not supported between instances of 'NoneType' and 'float'")
  | .str _ => .error (.typeError "'>=' not supported between instances of 'str' and 'float'")
  | .list _ => .error (.typeError "'>=' not supported between instances of 'list' and 'float'")
  | .dict _ => .error (.typeError "'>=' not supported between instances of 'dict' and 'float'")
  | .other => .error (.typeError "'>=' not supported")

/-- `state == "complete" and (confidence or 0.0) >= threshold`. -/
def accepted (result : PyDict) (threshold : PyFloat) : Except PyError Bool :=
  if result.get "status" = .str "complete" then
    geThreshold ((result.get "confidence").orElse (.float (.finite 0))) threshold
  else .ok false

/-- The part of a result that the task keeps. -/
def taskResult (result : PyDict) : PyDict :=
  match result.get "result" with
  | .dict items => items
  | _ => result

/-- The update of a task whose job completed with an accepted result. -/
def completeUpdate (result : PyDict) : GoalStore.TaskUpdate :=
  { status := .complete
    confidence := some (result.get "confidence")
    result := some (some (taskResult result)) }

/-- The update of a task whose job completed with a failure. -/
def failUpdate (result : PyDict) : GoalStore.TaskUpdate :=
  { status := .failed
    confidence := some (result.get "confidence")
    error := some ((result.get "failure_reason").orElse (result.get "status")) }

/-- The update of a task whose job completed with anything else. -/
def escalateUpdate (result : PyDict) : GoalStore.TaskUpdate :=
  { status := .escalated
    confidence := some (result.get "confidence")
    result := some (some (taskResult result)) }

/-- The branch of a completed job; `true` when `reconcile` returns after it. -/
def settleCompleted (goal : GoalContract) (goalId taskId : Uuid) (result : PyDict) : Coord Bool :=
  match accepted result goal.confidenceThreshold with
  | .error e => .raise e
  | .ok true => do
    updateTask taskId (completeUpdate result)
    return false
  | .ok false =>
    if result.get "status" = .str "failed" ∨ result.get "status" = .str "no_agent_found" then do
      updateTask taskId (failUpdate result)
      return false
    else do
      updateTask taskId (escalateUpdate result)
      setGoalStatus goalId .paused
      return true

/-- The branches on the job of a running task; `true` when `reconcile` returns after it. -/
def settleJob (goal : GoalContract) (goalId taskId : Uuid) : Option Job → Coord Bool
  | none => do
    updateTask taskId { status := .pending, jobId := some none }
    return false
  | some job => match job.status with
    | .completed => do
      let result ← getResult job.jobId
      settleCompleted goal goalId taskId (result.getD [])
    | .failed | .cancelled => do
      updateTask taskId { status := .failed, error := some (.str job.status.value) }
      return false
    | .queued | .running => return false

/-- The body of the first loop of `reconcile`, for a running task. -/
def settleTask (goal : GoalContract) (goalId taskId : Uuid) : Coord Bool := do
  let execution ← taskExecution taskId
  let job ← findJob goalId taskId execution
  settleJob goal goalId taskId job

/-- The first loop of `reconcile`. -/
def settle (goal : GoalContract) (goalId : Uuid) : List PlannedTask → Coord Bool
  | [] => return false
  | task :: tasks =>
    if task.status = .running then do
      let stop ← settleTask goal goalId task.taskId
      if stop then return true else settle goal goalId tasks
    else settle goal goalId tasks

/-! ## `reconcile`: blocked tasks -/

/-- `failed_ids` before the loop. -/
def failedIds (tasks : List PlannedTask) : List Uuid :=
  (tasks.filter fun t => t.status = .failed ∨ t.status = .blocked ∨ t.status = .cancelled).map
    (·.taskId)

/-- The condition of the blocking loop. -/
def blocks (failed : List Uuid) (task : PlannedTask) : Bool :=
  task.status = .pending && task.taskId ∉ failed && task.dependsOn.any fun dep => dep ∈ failed

/-- The update of a blocked task. -/
def blockUpdate : GoalStore.TaskUpdate :=
  { status := .blocked, error := some (.str "dependency failed") }

/-- One pass over the tasks: `failed_ids` and `changed` after it. -/
def blockPass : List PlannedTask → List Uuid → Bool → Coord (List Uuid × Bool)
  | [], failed, changed => return (failed, changed)
  | task :: tasks, failed, changed =>
    if blocks failed task then do
      updateTask task.taskId blockUpdate
      blockPass tasks (failed ++ [task.taskId]) true
    else blockPass tasks failed changed

/-- `while changed`. A pass that changes something adds a task to `failed_ids`, so there are at most as
many as there are tasks, and one more. -/
def blockLoop (tasks : List PlannedTask) : ℕ → List Uuid → Coord Unit
  | 0, _ => return ()
  | fuel + 1, failed => do
    let (failed, changed) ← blockPass tasks failed false
    if changed then blockLoop tasks fuel failed else return ()

/-! ## `reconcile`: ready tasks -/

/-- `all(by_id[dep].status == "complete" for dep in task.depends_on)`. -/
def dependenciesComplete (tasks : List PlannedTask) : List Uuid → Except PyError Bool
  | [] => .ok true
  | dep :: deps => match byId tasks dep with
    | none => .error (.keyError dep.text)
    | some d => if d.status = .complete then dependenciesComplete tasks deps else .ok false

/-- The contract that a task is enqueued with. -/
def taskContract (goalId : Uuid) (task : PlannedTask) (payload : PyDict) (threshold : PyFloat)
    (workspaceRoot : Option String) : Except PyError TaskContract :=
  TaskContract.validate
    { taskId := task.taskId
      origin := s!"goal:{goalId.text}"
      skill := task.skill
      payload := payload
      confidenceThreshold := threshold
      workspaceRoot := workspaceRoot }

/-- The update of a task whose payload does not resolve. -/
def unresolvedUpdate (msg : String) : GoalStore.TaskUpdate :=
  { status := .failed, error := some (.str msg) }

/-- The update of a task that is handed to a job. -/
def runUpdate (job : Job) (payload : PyDict) : GoalStore.TaskUpdate :=
  { status := .running, jobId := some (some job.jobId), resolvedPayload := some (some payload) }

/-- The scheduling loop of `reconcile`. The dependencies are looked up in the tasks as they were before
the blocking loop. -/
def dispatch (goal : GoalContract) (goalId : Uuid) (before : List PlannedTask) :
    ℤ → List PlannedTask → Coord Unit
  | _, [] => return ()
  | slots, task :: tasks =>
    if slots ≤ 0 then return ()
    else if task.status ≠ .pending then dispatch goal goalId before slots tasks
    else match dependenciesComplete before task.dependsOn with
      | .error e => .raise e
      | .ok false => dispatch goal goalId before slots tasks
      | .ok true => match resolvePayload task before with
        | .error (.payloadResolutionError msg) => do
          updateTask task.taskId (unresolvedUpdate msg)
          dispatch goal goalId before slots tasks
        | .error e => .raise e
        | .ok payload =>
          match taskContract goalId task payload goal.confidenceThreshold goal.workspaceRoot with
          | .error e => .raise e
          | .ok contract => do
            let job ← enqueue contract.taskId contract (key goalId task.taskId)
            updateTask task.taskId (runUpdate job payload)
            dispatch goal goalId before (slots - 1) tasks

/-- The free slots: `sum` counts the running tasks of the goal and the running ones of the 500 newest
jobs. -/
def slots (c : DurableGoalCoordinator) (tasks : List PlannedTask) (jobs : List Job) : ℤ :=
  min (c.perGoalLimit - (tasks.filter (·.status = .running)).length)
    (c.globalLimit - (jobs.filter (·.status = .running)).length)

/-! ## `reconcile` -/

/-- The end of `reconcile`: the goal is complete, failed or goes on. -/
def finish (goalId : Uuid) : Coord Unit := do
  let tasks ← getTasks goalId
  if tasks.all (·.status = .complete) then do
    setGoalStatus goalId .complete
    recordEvent goalId "system" "complete" none []
  else if tasks.all fun t => t.status ≠ .pending ∧ t.status ≠ .running then
    setGoalStatus goalId .failed
  else return ()

/-- `reconcile` once the running tasks are settled. -/
def schedule (c : DurableGoalCoordinator) (goal : GoalContract) (goalId : Uuid) : Coord Unit := do
  let before ← getTasks goalId
  blockLoop before (before.length + 1) (failedIds before)
  let tasks ← getTasks goalId
  let jobs ← listJobs 500
  dispatch goal goalId before (c.slots tasks jobs) tasks
  finish goalId

/-- `reconcile` of a running goal. -/
def reconcileRunning (c : DurableGoalCoordinator) (goal : GoalContract) (goalId : Uuid) :
    Coord Unit := do
  let tasks ← getTasks goalId
  let stop ← settle goal goalId tasks
  if stop then return () else c.schedule goal goalId

/-- `reconcile`. -/
def reconcile (c : DurableGoalCoordinator) (goalId : Uuid) : Coord Unit := do
  let goal ← getGoal goalId
  match goal with
  | none => return ()
  | some goal => if goal.status ≠ .running then return () else c.reconcileRunning goal goalId

/-- `reconcile_all`, over the goals that it listed. -/
def reconcileEach (c : DurableGoalCoordinator) : List GoalContract → Coord Unit
  | [] => return ()
  | goal :: goals =>
    if goal.status ≠ .paused then do
      c.reconcile goal.goalId
      c.reconcileEach goals
    else c.reconcileEach goals

/-- `reconcile_all`. -/
def reconcileAll (c : DurableGoalCoordinator) : Coord Unit := do
  let goals ← listActiveGoals
  c.reconcileEach goals

/-! ## `start`, `pause` and `cancel` -/

/-- `start`. -/
def start (c : DurableGoalCoordinator) (goalId : Uuid) (actor : String) : Coord Unit := do
  let goal ← getGoal goalId
  match goal with
  | none => .raise (.keyError goalId.text)
  | some goal =>
    if goal.status = .ready ∨ goal.status = .paused ∨ goal.status = .running then do
      setGoalStatus goalId .running
      recordEvent goalId actor "resume" none []
      c.reconcile goalId
    else .raise (.valueError s!"goal is {goal.status.value}, cannot start")

/-- `pause`. -/
def pause (goalId : Uuid) (actor : String) (reason : Option String) : Coord Unit := do
  let goal ← getGoal goalId
  match goal with
  | none => .raise (.keyError goalId.text)
  | some goal =>
    if goal.status = .paused then return ()
    else if goal.status ≠ .running then
      .raise (.valueError s!"goal is {goal.status.value}, cannot pause")
    else do
      setGoalStatus goalId .paused
      recordEvent goalId actor "pause" reason []

/-- The job of a running task is cancelled, unless it is over. -/
def cancelTaskJob : Option Job → Coord Unit
  | none => return ()
  | some job =>
    if job.status = .queued ∨ job.status = .running then do
      let _ ← cancelJob job.jobId
      return ()
    else return ()

/-- The branch of `cancel` for a running task, up to its update. -/
def cancelTask (taskId : Uuid) : Coord Unit := do
  let execution ← taskExecution taskId
  match execution.jobId with
  | none => return ()
  | some jobId => do
    let job ← getJob jobId
    cancelTaskJob job

/-- The loop of `cancel`: the affected tasks. -/
def cancelTasks : List PlannedTask → List String → Coord (List String)
  | [], affected => return affected
  | task :: tasks, affected =>
    if task.status = .running then do
      cancelTask task.taskId
      updateTask task.taskId { status := .cancelled }
      cancelTasks tasks (affected ++ [task.taskId.text])
    else if task.status = .pending then do
      updateTask task.taskId { status := .cancelled }
      cancelTasks tasks (affected ++ [task.taskId.text])
    else cancelTasks tasks affected

/-- `cancel`. -/
def cancel (goalId : Uuid) (actor : String) (reason : Option String) : Coord Unit := do
  let goal ← getGoal goalId
  match goal with
  | none => .raise (.keyError goalId.text)
  | some goal =>
    if goal.status = .cancelled then return ()
    else if goal.status = .complete ∨ goal.status = .failed then
      .raise (.valueError s!"goal is {goal.status.value}, cannot cancel")
    else do
      let tasks ← getTasks goalId
      let affected ← cancelTasks tasks []
      setGoalStatus goalId .cancelled
      recordEvent goalId actor "cancel" reason affected

/-! ## `rerun` -/

/-- `run_number`. -/
def runNumber (taskId : Uuid) (events : List EventRow) : ℕ :=
  1 + (events.filter fun e => e.action = "rerun" ∧ taskId.text ∈ e.affected).length

/-- A field of the goal, which is read again for each. -/
def goalField {α : Type} (goalId : Uuid) (name : String) (field : GoalContract → α) : Coord α := do
  let goal ← getGoal goalId
  match goal with
  | none => .raise (.attributeError s!"'NoneType' object has no attribute '{name}'")
  | some goal => return field goal

/-- The update of a task that is run again. -/
def rerunUpdate (job : Job) (payload : PyDict) : GoalStore.TaskUpdate :=
  { status := .running
    error := some .none
    result := some none
    confidence := some .none
    jobId := some (some job.jobId)
    resolvedPayload := some (some payload) }

/-- `rerun` of a task that may be run again. -/
def rerunTask (goalId : Uuid) (tasks : List PlannedTask) (task : PlannedTask) (actor : String)
    (reason : Option String) : Coord Unit := do
  let events ← events goalId
  match resolvePayload task tasks with
  | .error e => .raise e
  | .ok payload => do
    let threshold ← goalField goalId "confidence_threshold" (·.confidenceThreshold)
    let workspaceRoot ← goalField goalId "workspace_root" (·.workspaceRoot)
    match taskContract goalId task payload threshold workspaceRoot with
    | .error e => .raise e
    | .ok contract => do
      let job ← enqueue task.taskId contract
        s!"{key goalId task.taskId}:rerun:{runNumber task.taskId events}"
      updateTask task.taskId (rerunUpdate job payload)
      setGoalStatus goalId .running
      recordEvent goalId actor "rerun" reason [task.taskId.text]

/-- `rerun`. -/
def rerun (goalId taskId : Uuid) (actor : String) (reason : Option String) : Coord Unit := do
  let tasks ← getTasks goalId
  match byId tasks taskId with
  | none => .raise (.keyError taskId.text)
  | some task =>
    if task.status = .failed ∨ task.status = .escalated ∨ task.status = .complete then
      rerunTask goalId tasks task actor reason
    else .raise (.valueError s!"task is {task.status.value}, cannot rerun")

/-! ## Reviews -/

/-- The item of the review queue, by the column that the handler reads. -/
structure ReviewItem where
  plannedTaskId : Option String
deriving DecidableEq

/-- The id of the task under review: `planned_task_id or queue_task_id`. -/
def reviewedId (queueTaskId : String) (item : Option ReviewItem) : String :=
  match item.bind (·.plannedTaskId) with
  | none => queueTaskId
  | some id => if id = "" then queueTaskId else id

/-- The branch of `_resume_goal_from_review` for the review of a task. -/
def resumeTask (c : DurableGoalCoordinator) (goalId taskId : Uuid) (approved : Bool) : Coord Unit :=
  if approved then do
    updateTask taskId { status := .complete }
    c.start goalId "review"
  else do
    updateTask taskId { status := .failed, error := some (.str "rejected by reviewer") }
    setGoalStatus goalId .failed

/-- `_resume_goal_from_review` once the goal id is parsed. `item` is what the review queue holds for
the id when it is asked. -/
def resumeGoal (c : DurableGoalCoordinator) (queueTaskId : String) (goalId : Uuid) (approved : Bool)
    (item : Option ReviewItem) : Coord Unit := do
  let goal ← getGoal goalId
  if goal.isNone then return ()
  else if "plan:".toList.isPrefixOf queueTaskId.toList then
    if approved then c.start goalId "review" else setGoalStatus goalId .failed
  else match Uuid.parse (reviewedId queueTaskId item) with
    | .error e => .raise e
    | .ok taskId => c.resumeTask goalId taskId approved

/-- `_resume_goal_from_review`. -/
def resumeGoalFromReview (c : DurableGoalCoordinator) (queueTaskId goalId : String)
    (approved : Bool) (item : Option ReviewItem) : Coord Unit :=
  match Uuid.parse goalId with
  | .error e => .raise e
  | .ok goalId => c.resumeGoal queueTaskId goalId approved item

end DurableGoalCoordinator

end Galaxz
