import Galaxz.Goals.Store
import Galaxz.Jobs.Calls
import Galaxz.Lib.Prog

/-!
# The stores of the goal coordinator

The coordinator works on two databases that share no transaction: the goals and the jobs. `StoreCall`
are the calls it makes on them, each of which is atomic, and `World.exec` is what a call does.
-/

namespace Galaxz

/-- What a call may read from outside: the value of `uuid4()` and of the clock. -/
structure Reading where
  id : Uuid
  now : Datetime

/-- The two databases, and the readings of the calls to come. -/
structure World where
  goals : GoalDb
  jobs : Db
  readings : ℕ → Reading

/-- The calls of the coordinator on its stores. -/
inductive StoreCall where
  | getGoal (goalId : Uuid)
  | listActiveGoals
  | setGoalStatus (goalId : Uuid) (status : GoalStatus)
  | getTasks (goalId : Uuid)
  | taskExecution (taskId : Uuid)
  | updateTask (taskId : Uuid) (update : GoalStore.TaskUpdate)
  | recordEvent (goalId : Uuid) (actor action : String) (reason : Option String)
      (affected : List String)
  | events (goalId : Uuid)
  | getJob (jobId : Uuid)
  | getJobByIdempotencyKey (key : String)
  | getResult (jobId : Uuid)
  | listJobs (limit : ℤ)
  | enqueue (taskId : Uuid) (task : TaskContract) (idempotencyKey : String)
  | cancelJob (jobId : Uuid)
deriving DecidableEq

/-- What a call returns. -/
@[reducible] def StoreCall.Answer : StoreCall → Type
  | .getGoal _ => Option GoalContract
  | .listActiveGoals => List GoalContract
  | .setGoalStatus _ _ => Unit
  | .getTasks _ => List PlannedTask
  | .taskExecution _ => GoalStore.TaskExecution
  | .updateTask _ _ => Unit
  | .recordEvent _ _ _ _ _ => Unit
  | .events _ => List EventRow
  | .getJob _ => Option Job
  | .getJobByIdempotencyKey _ => Option Job
  | .getResult _ => Option PyDict
  | .listJobs _ => List Job
  | .enqueue _ _ _ => Job
  | .cancelJob _ => Job

namespace World

/-- The world after a call that used its readings. -/
def used (w : World) : World := { w with readings := fun n => w.readings (n + 1) }

/-- A call on the stores. -/
def exec (host : Host) : (call : StoreCall) → World → Except PyError call.Answer × World
  | .getGoal goalId, w => (GoalStore.getGoal w.goals goalId, w)
  | .listActiveGoals, w => (GoalStore.listActiveGoals w.goals, w)
  | .setGoalStatus goalId status, w =>
    (.ok (), { w with goals := GoalStore.setGoalStatus goalId status w.goals })
  | .getTasks goalId, w => (GoalStore.getTasks host w.goals goalId, w)
  | .taskExecution taskId, w => (GoalStore.taskExecution w.goals taskId, w)
  | .updateTask taskId update, w => match GoalStore.updateTask host taskId update w.goals with
    | .error e => (.error e, w)
    | .ok goals => (.ok (), { w with goals })
  | .recordEvent goalId actor action reason affected, w =>
    (.ok (), used { w with goals :=
      GoalStore.recordEvent goalId actor action reason affected (w.readings 0).now w.goals })
  | .events goalId, w => (.ok (GoalStore.events w.goals goalId), w)
  | .getJob jobId, w => (SqliteJobRepository.getJob w.jobs jobId, w)
  | .getJobByIdempotencyKey key, w => (SqliteJobRepository.getJobByIdempotencyKey w.jobs key, w)
  | .getResult jobId, w => (.ok (SqliteJobRepository.getResult w.jobs jobId), w)
  | .listJobs limit, w => (SqliteJobRepository.listJobs w.jobs limit, w)
  | .enqueue taskId task key, w =>
    let r := SqliteJobRepository.enqueue (w.readings 0).id taskId (some task) key 0 none
      (w.readings 0).now w.jobs
    (r.1, used { w with jobs := r.2 })
  | .cancelJob jobId, w =>
    let r := SqliteJobRepository.cancel jobId (w.readings 0).now w.jobs
    (r.1, used { w with jobs := r.2 })

/-- A call that a worker makes on the job store. -/
def work (call : JobCall) (w : World) : World :=
  { w with jobs := SqliteJobRepository.step call w.jobs }

end World

/-- A program of the coordinator. -/
abbrev Coord := Prog PyError StoreCall.Answer

/-! ## The calls as programs -/

namespace Coord

def getGoal (goalId : Uuid) : Coord (Option GoalContract) := .call (.getGoal goalId) .pure

def listActiveGoals : Coord (List GoalContract) := .call .listActiveGoals .pure

def setGoalStatus (goalId : Uuid) (status : GoalStatus) : Coord Unit :=
  .call (.setGoalStatus goalId status) .pure

def getTasks (goalId : Uuid) : Coord (List PlannedTask) := .call (.getTasks goalId) .pure

def taskExecution (taskId : Uuid) : Coord GoalStore.TaskExecution :=
  .call (.taskExecution taskId) .pure

def updateTask (taskId : Uuid) (update : GoalStore.TaskUpdate) : Coord Unit :=
  .call (.updateTask taskId update) .pure

def recordEvent (goalId : Uuid) (actor action : String) (reason : Option String)
    (affected : List String) : Coord Unit :=
  .call (.recordEvent goalId actor action reason affected) .pure

def events (goalId : Uuid) : Coord (List EventRow) := .call (.events goalId) .pure

def getJob (jobId : Uuid) : Coord (Option Job) := .call (.getJob jobId) .pure

def getJobByIdempotencyKey (key : String) : Coord (Option Job) :=
  .call (.getJobByIdempotencyKey key) .pure

def getResult (jobId : Uuid) : Coord (Option PyDict) := .call (.getResult jobId) .pure

def listJobs (limit : ℤ) : Coord (List Job) := .call (.listJobs limit) .pure

def enqueue (taskId : Uuid) (task : TaskContract) (idempotencyKey : String) : Coord Job :=
  .call (.enqueue taskId task idempotencyKey) .pure

def cancelJob (jobId : Uuid) : Coord Job := .call (.cancelJob jobId) .pure

end Coord

end Galaxz
