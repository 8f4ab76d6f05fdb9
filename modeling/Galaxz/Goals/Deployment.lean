import Galaxz.Goals.Service
import Galaxz.Goals.Guarantees
import Galaxz.Jobs.Worker

/-!
# `services/worker_service.py`: where results come from

What the coordinator stores of a task is what a job returned, and the job was given a contract that the coordinator
made: from the plan of the task, the terms of its goal and the results of other tasks, which came about in the same
way. The deployment is all the threads that work on the two stores.
-/

namespace Galaxz

/-! ## Where results come from

What the coordinator stores of a task is what a job returned, and the job was given a contract that the coordinator
made: from the plan of the task, the terms of its goal and the results of other tasks, which came about in the same
way.
-/

section Lineage

open DurableGoalCoordinator

/-- The task is the one that was planned in the row; the rest of the row changes with the runs. -/
structure PlannedTask.PlannedIn (t : PlannedTask) (r : PlannedTaskRow) : Prop where
  taskId : t.taskId = r.taskId
  goalId : t.goalId = r.goalId
  skill : t.skill = r.skill
  payload : t.payload = r.payload
  dependsOn : t.dependsOn = r.dependsOn

/-- The contract was made for the task: its payload is resolved against tasks of the goal, and each result among them
was returned by a run of a contract that was made for that task. `Ran` says which contract was run with which result. -/
inductive Commissioned (goals : GoalDb) (Ran : TaskContract → PyDict → Prop) : Uuid → TaskContract → Prop where
  | commission {row : PlannedTaskRow} {goal : GoalRow} {task : PlannedTask} {tasks : List PlannedTask}
      {contracts : PlannedTask → TaskContract} {results : PlannedTask → PyDict} {payload : PyDict}
      {contract : TaskContract} (hrow : goals.task? task.taskId = some row) (hplanned : task.PlannedIn row)
      (hgoal : goals.goal? row.goalId = some goal)
      (htasks : ∀ t ∈ tasks, ∃ r, goals.task? t.taskId = some r ∧ t.PlannedIn r ∧ r.goalId = row.goalId)
      (hresults : ∀ t ∈ tasks, ∀ x, t.result = some x → x = taskResult (results t) ∧ Ran (contracts t) (results t))
      (hcontracts : ∀ t ∈ tasks, t.result.isSome = true → Commissioned goals Ran t.taskId (contracts t))
      (hpayload : resolvePayload task tasks = .ok payload)
      (hcontract : taskContract row.goalId task payload goal.confidenceThreshold goal.workspaceRoot = .ok contract) :
      Commissioned goals Ran task.taskId contract

/-- A run of a contract that was made for the task returned the result. -/
def Yielded (goals : GoalDb) (Ran : TaskContract → PyDict → Prop) (taskId : Uuid) (result : PyDict) : Prop :=
  ∃ contract, Commissioned goals Ran taskId contract ∧ Ran contract result

/-- A job with the contract completed with the result. -/
def Db.Ran (s : Db) (contract : TaskContract) (result : PyDict) : Prop :=
  ∃ j, SqliteJobRepository.getTask s j = some contract ∧ (s.job? j).map (·.status) = some .completed ∧
    SqliteJobRepository.getResult s j = some result

/-- The result of a task was returned by a run of the task, and reached the threshold of the goal. -/
def PlannedTaskRow.Earned (host : Host) (goals : GoalDb) (Ran : TaskContract → PyDict → Prop) (row : PlannedTaskRow) :
    Prop :=
  ∃ result goal, Yielded goals Ran row.taskId result ∧ goals.goal? row.goalId = some goal ∧
    accepted result goal.confidenceThreshold = .ok true ∧ row.result = some (taskResult result) ∧
    Sqlite.bindReal host (result.get "confidence") = .ok row.confidence

end Lineage

/-! ## `services/worker_service.py`: workers and coordinators

The services of a deployment share two stores, the goals and the jobs. Requests to coordinators come from the API,
from reviewers and from the cycle hooks of the workers; workers claim and execute the jobs. An action is the next step
of one thread of any of them.
-/

open DurableWorker

/-- The stores, the requests in progress, and the workers. -/
structure Deployment where
  service : Service
  workers : List Worker

/-- The next step: a goal is stored or planned, a request reaches a coordinator or makes its next call, a worker does
its next step, or somebody else calls the job store. -/
inductive DeploymentAction where
  | createGoal (goal : GoalContract)
  | savePlan (goalId : Uuid) (projects : List ProjectNode) (tasks : List PlannedTask) (planConfidence : PyFloat)
      (gated : Bool)
  | arrive (c : DurableGoalCoordinator) (request : Request)
  | advance (i : ℕ)
  | worker (i : ℕ) (action : WorkerAction)
  | call (call : JobCall)

namespace Deployment

/-- The goals. -/
def goals (d : Deployment) : GoalDb := d.service.world.goals

/-- The jobs, with the workers. -/
def fleet (d : Deployment) : Fleet := ⟨d.service.world.jobs, d.workers⟩

/-- The deployment with other goals. -/
def setGoals (goals : GoalDb) (d : Deployment) : Deployment :=
  { d with service := { d.service with world := { d.service.world with goals } } }

/-- The deployment with other jobs and workers. -/
def setFleet (f : Fleet) (d : Deployment) : Deployment :=
  { d with
    service := { d.service with world := { d.service.world with jobs := f.jobs } }
    workers := f.workers }

/-- The deployment after a step. -/
def step (host : Host) (action : DeploymentAction) (d : Deployment) : Deployment :=
  match action with
  | .createGoal goal => match GoalStore.createGoal goal d.goals with
    | .error _ => d
    | .ok goals => d.setGoals goals
  | .savePlan goalId projects tasks planConfidence gated =>
    d.setGoals (GoalStore.savePlan goalId projects tasks planConfidence gated d.goals).2
  | .arrive c request => { d with service := d.service.step c host (.arrive request) }
  | .advance i => { d with service := d.service.advance host i }
  | .worker i action => d.setFleet (d.fleet.step (.worker i action))
  | .call call => d.setFleet (d.fleet.step (.call call))

/-- Empty stores, and workers that start. -/
def start (configs : List WorkerConfig) (readings : ℕ → Reading) : Deployment where
  service := .idle { goals := GoalDb.empty, jobs := Db.empty, readings }
  workers := (Fleet.start configs).workers

/-- The deployment after the steps. -/
def run (host : Host) (configs : List WorkerConfig) (readings : ℕ → Reading) (actions : List DeploymentAction) :
    Deployment :=
  Machine.run (step host) actions (start configs readings)

/-- Exactly one execution of a worker was given the contract, under the id of its attempt, and returned what the result
is the text of. -/
def Ran (d : Deployment) (contract : TaskContract) (result : PyDict) : Prop :=
  ∃ e ∈ d.fleet.executions, ∃ returned, e.phase = .ended (.completed returned) ∧ returned.dumps = .ok result ∧
    e.task = some { contract with executionAttemptId := some e.attemptId } ∧
    d.fleet.executions.countP (·.completes e.jobId) = 1

end Deployment

/-- The key names a task of a goal: it is the one of `reconcile` or of a `rerun`. -/
def TaskKey (taskId : Uuid) (key : String) : Prop :=
  ∃ goalId, key = DurableGoalCoordinator.key goalId taskId ∨ ∃ number, key = rerunKey goalId taskId number

/-- What the others leave to the coordinators and the workers: plans come without results, no other caller enqueues
under the key of a task, and only workers complete jobs. -/
structure Deployment.Exclusive (actions : List DeploymentAction) : Prop where
  planned : ∀ goalId projects tasks planConfidence gated,
    .savePlan goalId projects tasks planConfidence gated ∈ actions →
      ∀ t ∈ tasks, t.status = .pending ∧ t.result = none
  keys : ∀ call, .call call ∈ actions → ∀ c, call.submission? = some c → ∀ taskId, ¬ TaskKey taskId c.key
  completions : ∀ call, .call call ∈ actions → call.completes = false

end Galaxz
