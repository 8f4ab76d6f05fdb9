import Galaxz.Goals.Coordinator

/-!
# Runs of the goal coordinator

Requests reach the coordinator from the API, from reviewers and from the worker's cycle, each in a
thread of its own. `Service` is the stores with the threads in progress: a thread advances by one call
at a time, so every interleaving of the calls of any number of requests is a list of actions. `Turn` is
the coarser machine in which one request is served at a time.
-/

namespace Galaxz

open DurableGoalCoordinator

/-- A request to the coordinator. -/
inductive Request where
  | reconcile (goalId : Uuid)
  | reconcileAll
  | start (goalId : Uuid) (actor : String)
  | pause (goalId : Uuid) (actor : String) (reason : Option String)
  | cancel (goalId : Uuid) (actor : String) (reason : Option String)
  | rerun (goalId taskId : Uuid) (actor : String) (reason : Option String)
  | review (queueTaskId goalId : String) (approved : Bool) (item : Option ReviewItem)
deriving DecidableEq

/-- The program that serves a request. -/
def Request.program (c : DurableGoalCoordinator) : Request → Coord Unit
  | .reconcile goalId => c.reconcile goalId
  | .reconcileAll => c.reconcileAll
  | .start goalId actor => c.start goalId actor
  | .pause goalId actor reason => DurableGoalCoordinator.pause goalId actor reason
  | .cancel goalId actor reason => DurableGoalCoordinator.cancel goalId actor reason
  | .rerun goalId taskId actor reason => DurableGoalCoordinator.rerun goalId taskId actor reason
  | .review queueTaskId goalId approved item =>
    c.resumeGoalFromReview queueTaskId goalId approved item

/-- The request decides a review. -/
def Request.isReview : Request → Bool
  | .review _ _ _ _ => true
  | _ => false

/-! ## Requests at the same time -/

/-- A request in progress: what is left of its program. -/
structure Thread where
  request : Request
  rest : Coord Unit

/-- The stores and the threads. -/
structure Service where
  world : World
  threads : List Thread

/-- One step of the system: a request arrives, a thread makes its next call, or a worker makes a call
on the job store. -/
inductive Action where
  | arrive (request : Request)
  | advance (i : ℕ)
  | work (call : JobCall)

namespace Service

variable (c : DurableGoalCoordinator) (host : Host)

/-- The thread `i` makes its next call. -/
def advance (i : ℕ) (s : Service) : Service :=
  match s.threads[i]? with
  | none => s
  | some t =>
    let r := t.rest.advance (World.exec host) s.world
    { world := r.2, threads := s.threads.set i { t with rest := r.1 } }

/-- The system after an action. -/
def step : Action → Service → Service
  | .arrive request, s => { s with threads := s.threads ++ [⟨request, request.program c⟩] }
  | .advance i, s => s.advance host i
  | .work call, s => { s with world := s.world.work call }

/-- The call that an action makes for the coordinator. -/
def callOf (a : Action) (s : Service) : Option StoreCall :=
  match a with
  | .advance i => s.threads[i]?.bind fun t => t.rest.next
  | .arrive _ => none
  | .work _ => none

/-- The stores before the first request. -/
def idle (w : World) : Service := ⟨w, []⟩

end Service

/-! ## One request at a time -/

/-- A request served without interruption, or a call of a worker. -/
inductive Turn where
  | request (request : Request)
  | work (call : JobCall)

namespace World

variable (c : DurableGoalCoordinator) (host : Host)

/-- The world after a turn. -/
def step : Turn → World → World
  | .request r, w => (Prog.run (exec host) (r.program c) w).2
  | .work call, w => w.work call

/-- The calls that a turn makes on the stores, each with the world it is made in. -/
def calls : Turn → World → List (StoreCall × World)
  | .request r, w => Prog.trace (exec host) (r.program c) w
  | .work _, _ => []

end World

/-! ## A plan of two tasks -/

/-- A goal that is about to be planned. -/
def chainGoal (threshold : PyFloat) : GoalContract where
  goalId := 1
  origin := "api"
  objective := "write a page, then test it"
  confidenceThreshold := threshold
  createdAt := Datetime.ofMicros 1

/-- A task, and one that depends on it. -/
def chainTasks : List PlannedTask :=
  [{ taskId := 2, projectId := 9, goalId := 1, skill := "rigel.skill.scaffold", payload := [] },
    { taskId := 3, projectId := 9, goalId := 1, skill := "vega.skill.test_writing", payload := [],
      dependsOn := [2] }]

/-- The stores after `create_goal` and `save_plan`, with no jobs. -/
def plannedWorld (threshold : PyFloat) (tasks : List PlannedTask) : World where
  goals := match GoalStore.createGoal (chainGoal threshold) GoalDb.empty with
    | .error _ => GoalDb.empty
    | .ok s => (GoalStore.savePlan 1 [⟨9, 1, "page", ""⟩] tasks (.finite 1) false s).2
  jobs := Db.empty
  readings := fun n => ⟨BitVec.ofNat 128 (100 + n), Datetime.ofMicros (100 + n)⟩

/-- The goal with the plan of two tasks. -/
def chainWorld : World := plannedWorld (.finite (1 / 2)) chainTasks

end Galaxz
