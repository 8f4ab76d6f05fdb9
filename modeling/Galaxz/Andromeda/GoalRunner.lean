import Galaxz.Goals.Connection
import Galaxz.Goals.Coordinator

/-!
# `agents/andromeda/goal_runner.py`: the in-process runner

The runner routes the ready tasks of a goal one after the other until none is pending, or one of them does not
complete. The router and the review queue are outside: what they do in a round is a `Turn`. A thread that
`run_async` starts is run to its end before the next call.
-/

namespace Galaxz

namespace GoalRunner

/-- What the outside does when a task is routed. -/
structure Turn where
  /-- The id of the new `TaskContract`. -/
  contractId : Uuid
  /-- The result of `route`. -/
  reply : Except PyError PyDict
  /-- The result of `review_queue.enqueue`. -/
  enqueued : Except PyError Unit

open GoalStore DurableGoalCoordinator

/-- How a round of the loop ends. -/
inductive Ending where
  | again
  | returned
  | raised (e : PyError)
deriving DecidableEq

/-- The contract that a task is routed with. -/
def contract (goal : GoalContract) (goalId : Uuid) (task : PlannedTask) (contractId : Uuid) :
    Except PyError TaskContract :=
  TaskContract.validate
    { taskId := contractId
      origin := s!"goal:{goalId.text}"
      skill := task.skill
      payload := task.payload
      confidenceThreshold := goal.confidenceThreshold
      workspaceRoot := goal.workspaceRoot }

/-- `result.get("result") if isinstance(result.get("result"), dict) else None`. -/
def resultOf (result : PyDict) : Option PyDict :=
  match PyDict.get result "result" with
  | .dict items => some items
  | _ => none

/-- The update of a task whose result is accepted. -/
def completed (result : PyDict) : TaskUpdate :=
  { status := .complete
    confidence := some (PyDict.get result "confidence")
    result := some (resultOf result) }

/-- The update of a task that failed. -/
def failed (result : PyDict) : TaskUpdate :=
  { status := .failed
    confidence := some (PyDict.get result "confidence")
    error := some ((PyDict.get result "failure_reason").orElse (PyDict.get result "status")) }

/-- The update of a task that goes to a reviewer. -/
def escalated (result : PyDict) : TaskUpdate :=
  { status := .escalated
    confidence := some (PyDict.get result "confidence")
    result := some (resultOf result) }

variable (host : Host)

/-- An update of the task, and what follows it. -/
def updated (taskId : Uuid) (update : TaskUpdate) (s : GoalDb) (next : GoalDb → Ending × GoalDb) : Ending × GoalDb :=
  match updateTask host taskId update s with
  | .error e => (.raised e, s)
  | .ok s => next s

/-- What follows the result of a task. -/
def settle (goal : GoalContract) (goalId taskId : Uuid) (result : PyDict) (enqueued : Except PyError Unit)
    (s : GoalDb) : Ending × GoalDb :=
  match accepted result goal.confidenceThreshold with
  | .error e => (.raised e, s)
  | .ok true => updated host taskId (completed result) s fun s => (.again, s)
  | .ok false =>
    if PyDict.get result "status" = .str "failed" ∨ PyDict.get result "status" = .str "no_agent_found" then
      updated host taskId (failed result) s fun s => (.returned, setGoalStatus goalId .failed s)
    else
      updated host taskId (escalated result) s fun s => match enqueued with
        | .error e => (.raised e, s)
        | .ok _ => (.returned, setGoalStatus goalId .paused s)

/-- A round of the loop: how it ended, and the task it routed, with the database at that time. -/
structure Round where
  ending : Ending
  db : GoalDb
  routed : Option (PlannedTask × GoalDb)

/-- The round of a ready task. -/
def route (goal : GoalContract) (goalId : Uuid) (turn : Turn) (task : PlannedTask) (s : GoalDb) : Round :=
  match updateTask host task.taskId { status := .running } s with
  | .error e => ⟨.raised e, s, none⟩
  | .ok s => match contract goal goalId task turn.contractId with
    | .error e => ⟨.raised e, s, none⟩
    | .ok _ => match turn.reply with
      | .error e => ⟨.raised e, s, some (task, s)⟩
      | .ok result =>
        let settled := settle host goal goalId task.taskId result turn.enqueued s
        ⟨settled.1, settled.2, some (task, s)⟩

/-- The pending tasks whose dependencies are complete. -/
def readyTasks (tasks : List PlannedTask) : List PlannedTask → Except PyError (List PlannedTask)
  | [] => .ok []
  | t :: ts => do
    let ready ← dependenciesComplete tasks t.dependsOn
    let rest ← readyTasks tasks ts
    return if ready then t :: rest else rest

/-- The body of the loop of `_drive`. -/
def round (goal : GoalContract) (goalId : Uuid) (turn : Turn) (s : GoalDb) : Round :=
  match getTasks host s goalId with
  | .error e => ⟨.raised e, s, none⟩
  | .ok tasks =>
    let pending := tasks.filter (·.status = .pending)
    if pending = [] then ⟨.returned, setGoalStatus goalId .complete s, none⟩
    else match readyTasks tasks pending with
      | .error e => ⟨.raised e, s, none⟩
      | .ok [] => ⟨.returned, setGoalStatus goalId .paused s, none⟩
      | .ok (task :: _) => route host goal goalId turn task s

/-- A run of the loop: how it ended, `none` when it did not within `fuel` rounds, and what it routed. -/
structure Drive where
  ending : Option Ending
  db : GoalDb
  routed : List (PlannedTask × GoalDb)

/-- The loop of `_drive`, from its `k`-th round on. -/
def drive (goal : GoalContract) (goalId : Uuid) (turns : ℕ → Turn) : ℕ → ℕ → GoalDb → Drive
  | 0, _, s => ⟨none, s, []⟩
  | fuel + 1, k, s =>
    let r := round host goal goalId (turns k) s
    match r.ending with
    | .again =>
      let rest := drive goal goalId turns fuel (k + 1) r.db
      ⟨rest.ending, rest.db, r.routed.toList ++ rest.routed⟩
    | e => ⟨some e, r.db, r.routed.toList⟩

/-- The row is that of a pending task of the goal. -/
def isPending (goalId : Uuid) (r : PlannedTaskRow) : Bool := r.goalId = goalId && r.status = .pending

/-- The number of pending tasks of the goal. -/
def pendingCount (s : GoalDb) (goalId : Uuid) : ℕ := s.tasks.countP (isPending goalId)

/-- `_drive`. Every round but the last one completes a pending task, so the loop has one round more than there are
pending tasks at most. -/
def driveGoal (goalId : Uuid) (turns : ℕ → Turn) (s : GoalDb) : Drive :=
  match getGoal s goalId with
  | .error e => ⟨some (.raised e), s, []⟩
  | .ok none => ⟨some (.raised (.attributeError "'NoneType' object has no attribute 'confidence_threshold'")), s, []⟩
  | .ok (some goal) => drive host goal goalId turns (pendingCount s goalId + 1) 0 s

/-- `run`: the database after it, and the tasks it routed. -/
def run (goalId : Uuid) (turns : ℕ → Turn) (s : GoalDb) : GoalDb × List (PlannedTask × GoalDb) :=
  let claim := tryClaim goalId s
  if claim.1 then
    let driven := driveGoal host goalId turns claim.2
    match driven.ending with
    | some (.raised _) => (setGoalStatus goalId .failed driven.db, driven.routed)
    | _ => (driven.db, driven.routed)
  else (claim.2, [])

/-- The update of a task that its reviewer rejects. -/
def rejected : TaskUpdate := { status := .failed, error := some (.str "rejected by reviewer") }

/-- `resolve_escalated_task`. -/
def resolveEscalatedTask (goalId taskId : Uuid) (approved : Bool) (turns : ℕ → Turn) (s : GoalDb) :
    GoalDb × List (PlannedTask × GoalDb) :=
  if approved then
    match updateTask host taskId { status := .complete } s with
    | .error _ => (s, [])
    | .ok s => run host goalId turns s
  else
    match updateTask host taskId rejected s with
    | .error _ => (s, [])
    | .ok s => (setGoalStatus goalId .failed s, [])

/-- A call of the runner for the goal. -/
inductive Call where
  | run (turns : ℕ → Turn)
  | resolve (taskId : Uuid) (approved : Bool) (turns : ℕ → Turn)

/-- A call: the database after it, and the tasks it routed. -/
def exec (goalId : Uuid) (call : Call) (s : GoalDb) : GoalDb × List (PlannedTask × GoalDb) :=
  match call with
  | .run turns => run host goalId turns s
  | .resolve taskId approved turns => resolveEscalatedTask host goalId taskId approved turns s

end GoalRunner

end Galaxz
