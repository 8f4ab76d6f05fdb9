import Galaxz.Contracts.Goals
import Galaxz.Lib.Sqlite
import Galaxz.Lib.Table
import Mathlib.Data.List.Sort

/-!
# `core/goals/store.py`: `GoalStore`

The tables of the goal database, and every method of the store that goals are run with as a function
on them. A method holds the lock of the store from its first statement to its commit, so it is atomic.
A JSON or time text is represented by the value it denotes. The primary keys are part of the type.
-/

namespace Galaxz

/-- A row of `goals`. -/
structure GoalRow where
  goalId : Uuid
  origin : String
  objective : String
  confidenceThreshold : PyFloat
  status : GoalStatus
  planConfidence : Option PyFloat
  createdAt : Datetime
  workspaceRoot : Option String
deriving DecidableEq

/-- A row of `projects`. -/
structure ProjectRow where
  projectId : Uuid
  goalId : Uuid
  title : String
  description : String
  ordinal : ℕ
deriving DecidableEq

/-- A row of `planned_tasks`. -/
structure PlannedTaskRow where
  taskId : Uuid
  projectId : Uuid
  goalId : Uuid
  skill : String
  payload : PyDict
  dependsOn : List Uuid
  status : PlannedTaskStatus
  confidence : RealCell
  result : Option PyDict
  error : Option String
  ordinal : ℕ
  jobId : Option Uuid := none
  resolvedPayload : Option PyDict := none
deriving DecidableEq

/-- A row of `goal_events`; `event_id` is its place in the table. -/
structure EventRow where
  goalId : Uuid
  actor : String
  action : String
  reason : Option String
  affected : List String
  createdAt : Datetime
deriving DecidableEq

/-- The goal database. -/
structure GoalDb where
  goals : List GoalRow
  projects : List ProjectRow
  tasks : List PlannedTaskRow
  events : List EventRow
  goalIds_nodup : (goals.map (·.goalId)).Nodup
  projectIds_nodup : (projects.map (·.projectId)).Nodup
  taskIds_nodup : (tasks.map (·.taskId)).Nodup
deriving DecidableEq

namespace GoalDb

/-- A database without rows. -/
def empty : GoalDb := ⟨[], [], [], [], List.nodup_nil, List.nodup_nil, List.nodup_nil⟩

/-- `SELECT * FROM goals WHERE goal_id = ?`. -/
def goal? (s : GoalDb) (goalId : Uuid) : Option GoalRow := s.goals.find? (·.goalId = goalId)

/-- `SELECT * FROM planned_tasks WHERE task_id = ?`. -/
def task? (s : GoalDb) (taskId : Uuid) : Option PlannedTaskRow := s.tasks.find? (·.taskId = taskId)

/-- `UPDATE goals SET f WHERE goal_id = ?`, for an `f` that leaves the key alone. -/
def updateGoal (s : GoalDb) (goalId : Uuid) (f : GoalRow → GoalRow)
    (hf : ∀ r, (f r).goalId = r.goalId) : GoalDb :=
  { s with
    goals := Table.updateWhere (·.goalId = goalId) f s.goals
    goalIds_nodup := by rw [Table.map_updateWhere _ hf]; exact s.goalIds_nodup }

/-- `UPDATE planned_tasks SET f WHERE task_id = ?`, for an `f` that leaves the key alone. -/
def updateTaskRow (s : GoalDb) (taskId : Uuid) (f : PlannedTaskRow → PlannedTaskRow)
    (hf : ∀ r, (f r).taskId = r.taskId) : GoalDb :=
  { s with
    tasks := Table.updateWhere (·.taskId = taskId) f s.tasks
    taskIds_nodup := by rw [Table.map_updateWhere _ hf]; exact s.taskIds_nodup }

/-- `INSERT INTO goals`. -/
def insertGoal (s : GoalDb) (row : GoalRow) : Except PyError GoalDb :=
  if h : ∀ r ∈ s.goals, r.goalId ≠ row.goalId then
    .ok { s with
      goals := s.goals ++ [row]
      goalIds_nodup := Table.nodup_append _ s.goalIds_nodup h }
  else .error (.integrityError "UNIQUE constraint failed: goals.goal_id")

/-- `INSERT INTO projects`. -/
def insertProject (s : GoalDb) (row : ProjectRow) : Except PyError GoalDb :=
  if h : ∀ r ∈ s.projects, r.projectId ≠ row.projectId then
    .ok { s with
      projects := s.projects ++ [row]
      projectIds_nodup := Table.nodup_append _ s.projectIds_nodup h }
  else .error (.integrityError "UNIQUE constraint failed: projects.project_id")

/-- `INSERT INTO planned_tasks`. -/
def insertPlannedTask (s : GoalDb) (row : PlannedTaskRow) : Except PyError GoalDb :=
  if h : ∀ r ∈ s.tasks, r.taskId ≠ row.taskId then
    .ok { s with
      tasks := s.tasks ++ [row]
      taskIds_nodup := Table.nodup_append _ s.taskIds_nodup h }
  else .error (.integrityError "UNIQUE constraint failed: planned_tasks.task_id")

end GoalDb

namespace GoalStore

open Sqlite

/-! ## Goals -/

/-- `create_goal`. -/
def createGoal (goal : GoalContract) (s : GoalDb) : Except PyError GoalDb :=
  if goal.confidenceThreshold = .nan then
    .error (.integrityError "NOT NULL constraint failed: goals.confidence_threshold")
  else s.insertGoal
    { goalId := goal.goalId
      origin := goal.origin
      objective := goal.objective
      confidenceThreshold := goal.confidenceThreshold
      status := goal.status
      planConfidence := goal.planConfidence.filter (· ≠ .nan)
      createdAt := goal.createdAt
      workspaceRoot := goal.workspaceRoot }

/-- The contract of a row. -/
def goalFromRow (row : GoalRow) : Except PyError GoalContract :=
  GoalContract.validate
    { goalId := row.goalId
      origin := row.origin
      objective := row.objective
      workspaceRoot := row.workspaceRoot
      confidenceThreshold := row.confidenceThreshold
      status := row.status
      planConfidence := row.planConfidence
      createdAt := row.createdAt }

/-- `get_goal`. -/
def getGoal (s : GoalDb) (goalId : Uuid) : Except PyError (Option GoalContract) :=
  match s.goal? goalId with
  | none => .ok none
  | some row => do return some (← goalFromRow row)

/-- `list_goals`: `ORDER BY created_at DESC, rowid DESC`. Each id is read back by `get_goal`, which
finds the row it came from. -/
def listGoals (s : GoalDb) : Except PyError (List GoalContract) :=
  (s.goals.reverse.insertionSort fun a b => b.createdAt ≤ a.createdAt).mapM goalFromRow

/-- `list_active_goals`. -/
def listActiveGoals (s : GoalDb) : Except PyError (List GoalContract) := do
  return (← listGoals s).filter fun goal =>
    goal.status = .ready ∨ goal.status = .running ∨ goal.status = .paused

/-- `set_goal_status`. -/
def setGoalStatus (goalId : Uuid) (status : GoalStatus) (s : GoalDb) : GoalDb :=
  s.updateGoal goalId (fun r => { r with status }) fun _ => rfl

/-! ## Plans -/

/-- The row that `save_plan` inserts for the task at a place of the plan. -/
def plannedTaskRow (t : PlannedTask) (ordinal : ℕ) : PlannedTaskRow where
  taskId := t.taskId
  projectId := t.projectId
  goalId := t.goalId
  skill := t.skill
  payload := t.payload
  dependsOn := t.dependsOn
  status := t.status
  confidence := match t.confidence with
    | none => .null
    | some .nan => .null
    | some x => .real x
  result := t.result
  error := t.error
  ordinal := ordinal

/-- The insert of one task, its texts first. -/
def insertPlanned (t : PlannedTask) (ordinal : ℕ) (s : GoalDb) : Except PyError GoalDb := do
  let _ ← dumpJson (some t.payload)
  let _ ← dumpJson t.result
  s.insertPlannedTask (plannedTaskRow t ordinal)

/-- The inserts of a loop. What was inserted before an exception stays in the open transaction of the
connection, and is committed with the next call. -/
def insertEach {β : Type} (insert : β → ℕ → GoalDb → Except PyError GoalDb) :
    ℕ → List β → GoalDb → Except PyError Unit × GoalDb
  | _, [], s => (.ok (), s)
  | i, x :: xs, s => match insert x i s with
    | .error e => (.error e, s)
    | .ok s' => insertEach insert (i + 1) xs s'

/-- The columns of the goal that `save_plan` sets. -/
def planned (planConfidence : PyFloat) (gated : Bool) (r : GoalRow) : GoalRow :=
  { r with
    planConfidence := if planConfidence = .nan then none else some planConfidence
    status := if gated then .paused else .ready }

/-- `save_plan`. -/
def savePlan (goalId : Uuid) (projects : List ProjectNode) (tasks : List PlannedTask)
    (planConfidence : PyFloat) (gated : Bool) (s : GoalDb) : Except PyError Unit × GoalDb :=
  match insertEach (fun p i s => s.insertProject ⟨p.projectId, p.goalId, p.title, p.description, i⟩)
      0 projects s with
  | (.error e, s) => (.error e, s)
  | (.ok _, s) =>
    match insertEach insertPlanned 0 tasks s with
    | (.error e, s) => (.error e, s)
    | (.ok _, s) => (.ok (), s.updateGoal goalId (planned planConfidence gated) fun _ => rfl)

/-! ## Tasks -/

/-- The value of the `confidence` field for a cell. -/
def readConfidence (host : Host) : RealCell → Except PyError (Option PyFloat)
  | .null => .ok none
  | .real x => .ok (some x)
  | .text s => match host.floatOfText s with
    | some x => .ok (some x)
    | none => .error (.valueError "confidence: Input should be a valid number")

/-- `_row_to_task`. -/
def rowToTask (host : Host) (row : PlannedTaskRow) : Except PyError PlannedTask := do
  let confidence ← readConfidence host row.confidence
  return {
    taskId := row.taskId
    projectId := row.projectId
    goalId := row.goalId
    skill := row.skill
    payload := row.payload
    dependsOn := row.dependsOn
    status := row.status
    confidence := confidence
    result := row.result
    error := row.error }

/-- `SELECT * FROM planned_tasks WHERE goal_id = ? ORDER BY ordinal`. -/
def taskRows (s : GoalDb) (goalId : Uuid) : List PlannedTaskRow :=
  (s.tasks.filter (·.goalId = goalId)).insertionSort fun a b => a.ordinal ≤ b.ordinal

/-- `get_tasks`. -/
def getTasks (host : Host) (s : GoalDb) (goalId : Uuid) : Except PyError (List PlannedTask) :=
  (taskRows s goalId).mapM (rowToTask host)

/-- The keyword arguments of `update_task`: `none` is one that is not given. Every call gives a
status. -/
structure TaskUpdate where
  status : PlannedTaskStatus
  confidence : Option PyValue := none
  result : Option (Option PyDict) := none
  error : Option PyValue := none
  jobId : Option (Option Uuid) := none
  resolvedPayload : Option (Option PyDict) := none
deriving DecidableEq

/-- The columns that an update sets, with their values. -/
structure TaskCells where
  status : PlannedTaskStatus
  confidence : Option RealCell
  result : Option (Option PyDict)
  error : Option (Option String)
  jobId : Option (Option Uuid)
  resolvedPayload : Option (Option PyDict)

/-- The parameters of the `UPDATE`: the JSON texts are made first, then the values are bound. -/
def TaskUpdate.cells (host : Host) (u : TaskUpdate) : Except PyError TaskCells := do
  let result ← u.result.mapM dumpJson
  let resolvedPayload ← u.resolvedPayload.mapM dumpJson
  let confidence ← u.confidence.mapM (bindReal host)
  let error ← u.error.mapM (bindText host)
  return { status := u.status, confidence, result, error, jobId := u.jobId, resolvedPayload }

/-- A row with the columns set. -/
def TaskCells.set (c : TaskCells) (r : PlannedTaskRow) : PlannedTaskRow :=
  { r with
    status := c.status
    confidence := c.confidence.getD r.confidence
    result := c.result.getD r.result
    error := c.error.getD r.error
    jobId := c.jobId.getD r.jobId
    resolvedPayload := c.resolvedPayload.getD r.resolvedPayload }

@[simp] theorem TaskCells.set_taskId (c : TaskCells) (r : PlannedTaskRow) :
    (c.set r).taskId = r.taskId := rfl

/-- `update_task`. -/
def updateTask (host : Host) (taskId : Uuid) (u : TaskUpdate) (s : GoalDb) :
    Except PyError GoalDb := do
  let cells ← u.cells host
  return s.updateTaskRow taskId cells.set cells.set_taskId

/-- The answer of `task_execution`. -/
structure TaskExecution where
  jobId : Option Uuid
  resolvedPayload : Option PyDict
deriving DecidableEq

/-- `task_execution`. -/
def taskExecution (s : GoalDb) (taskId : Uuid) : Except PyError TaskExecution :=
  match s.task? taskId with
  | none => .error (.keyError taskId.text)
  | some row => .ok ⟨row.jobId, row.resolvedPayload⟩

/-! ## Events -/

/-- `record_event`. -/
def recordEvent (goalId : Uuid) (actor action : String) (reason : Option String)
    (affected : List String) (now : Datetime) (s : GoalDb) : GoalDb :=
  { s with events := s.events ++ [⟨goalId, actor, action, reason, affected, now⟩] }

/-- `events`. -/
def events (s : GoalDb) (goalId : Uuid) : List EventRow := s.events.filter (·.goalId = goalId)

end GoalStore

end Galaxz
