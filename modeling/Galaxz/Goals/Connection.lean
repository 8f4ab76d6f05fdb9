import Galaxz.Goals.Store

/-!
# `core/goals/store.py`: the shared connection

All methods of the store use one connection. Its first write opens a transaction, which a commit ends; until then
the connection itself reads what it wrote, and nobody else does. A method that raises between a statement and
its commit leaves the transaction open.
-/

namespace Galaxz

/-- The connection of the store. -/
structure Connection where
  /-- What every other reader of the database sees. -/
  committed : GoalDb
  /-- What the connection sees. -/
  current : GoalDb

/-- The connection after a commit. -/
def Connection.commit (s : GoalDb) : Connection := ⟨s, s⟩

namespace GoalStore

/-- `status IN ('ready', 'paused')`. -/
def claimable (r : GoalRow) : Bool := r.status = .ready || r.status = .paused

/-- `try_claim`. -/
def tryClaim (goalId : Uuid) (s : GoalDb) : Bool × GoalDb :=
  (s.goals.any fun r => r.goalId = goalId && claimable r,
    s.updateGoal goalId (fun r => if claimable r then { r with status := .running } else r) fun r => by
      split_ifs <;> rfl)

end GoalStore

/-- A call of a method of the store. What `bind_repository` writes is left out. -/
inductive StoreMethod where
  | createGoal (goal : GoalContract)
  | setGoalStatus (goalId : Uuid) (status : GoalStatus)
  | tryClaim (goalId : Uuid)
  | savePlan (goalId : Uuid) (projects : List ProjectNode) (tasks : List PlannedTask) (planConfidence : PyFloat)
      (gated : Bool)
  | updateTask (taskId : Uuid) (update : GoalStore.TaskUpdate)
  | recordEvent (goalId : Uuid) (actor action : String) (reason : Option String) (affected : List String)
      (now : Datetime)
  | bindRepository
  /-- `get_goal`, `list_goals`, `get_tasks`, `task_execution`, `events`, `goal_tree`, `repository_binding`. -/
  | read

namespace Connection

variable (host : Host)

/-- `save_plan`: the commit comes last. -/
def savePlan (goalId : Uuid) (projects : List ProjectNode) (tasks : List PlannedTask) (planConfidence : PyFloat)
    (gated : Bool) (c : Connection) : Except PyError Unit × Connection :=
  match GoalStore.savePlan goalId projects tasks planConfidence gated c.current with
  | (.ok _, s) => (.ok (), commit s)
  | (.error e, s) => (.error e, { c with current := s })

/-- A method whose only statement raises changes nothing; otherwise it commits. -/
def commitOk (c : Connection) : Except PyError GoalDb → Connection
  | .ok s => commit s
  | .error _ => c

/-- The connection after a call. -/
def call (c : Connection) : StoreMethod → Connection
  | .createGoal goal => c.commitOk (GoalStore.createGoal goal c.current)
  | .setGoalStatus goalId status => commit (GoalStore.setGoalStatus goalId status c.current)
  | .tryClaim goalId => commit (GoalStore.tryClaim goalId c.current).2
  | .savePlan goalId projects tasks planConfidence gated =>
    (c.savePlan goalId projects tasks planConfidence gated).2
  | .updateTask taskId update => c.commitOk (GoalStore.updateTask host taskId update c.current)
  | .recordEvent goalId actor action reason affected now =>
    commit (GoalStore.recordEvent goalId actor action reason affected now c.current)
  | .bindRepository => commit c.current
  | .read => c

/-- The connection after the calls, in order. -/
def calls (cs : List StoreMethod) (c : Connection) : Connection := cs.foldl (call host) c

end Connection

end Galaxz
