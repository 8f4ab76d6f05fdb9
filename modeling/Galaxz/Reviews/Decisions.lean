import Galaxz.Andromeda.Approvals
import Galaxz.Goals.Guarantees
import Galaxz.Goals.Proofs.SubstitutionProofs

/-!
# Decisions on review items

The handlers of `services/andromeda_service.py` that approve, accept or reject an item of the review
queue, with what they do to the goal of the item, and the runs in which they are called. A decision is
outdated when the task of the item is no longer escalated by the attempt that the item names.
-/

namespace Galaxz

open DurableGoalCoordinator

/-- What a reviewer decides. -/
inductive ReviewVerdict where
  | approve
  | accept
  | reject
deriving DecidableEq

namespace ReviewVerdict

/-- The status that the queue stores. -/
def status : ReviewVerdict → ReviewStatus
  | .approve => .approved
  | .accept => .accepted
  | .reject => .rejected

/-- Both `approve_task` and `accept_task` release the task. -/
def releases : ReviewVerdict → Bool
  | .approve | .accept => true
  | .reject => false

end ReviewVerdict

/-- `_release_goal_task_after_review`. What it catches is raised before anything is written. -/
def releaseGoalTaskAfterReview (c : DurableGoalCoordinator) (item : ReviewRow) (goalId : String) :
    Coord Unit :=
  if (heldKey item.agentOutput).isSome then
    match Uuid.parse goalId, item.plannedTaskId.map Uuid.parse with
    | .ok goalId, some (.ok taskId) => rerun goalId taskId "review" (some "policy hold approved")
    | _, _ => return ()
  else c.resumeGoalFromReview item.taskId goalId true (some ⟨item.plannedTaskId⟩)

/-- What the handler does to the goal of an item that has one. -/
def ReviewVerdict.program (c : DurableGoalCoordinator) (item : ReviewRow) (goalId : String)
    (verdict : ReviewVerdict) : Coord Unit :=
  if verdict.releases then releaseGoalTaskAfterReview c item goalId
  else c.resumeGoalFromReview item.taskId goalId false (some ⟨item.plannedTaskId⟩)

/-- The stores of the coordinator, and the review queue. -/
structure ReviewedWorld where
  world : World
  reviews : ReviewQueue

/-- Something that happens to the stores. -/
inductive ReviewAction where
  /-- A request to the coordinator that is no decision. -/
  | request (request : Request) (other : request.isReview = false)
  | work (call : JobCall)
  /-- The review of an escalated task is asked for. -/
  | enqueue (item : ReviewItem) (now : Datetime)
  | decide (taskId : String) (verdict : ReviewVerdict) (notes : Option String) (now : Datetime)

namespace ReviewedWorld

variable (c : DurableGoalCoordinator) (host : Host)

/-- The coordinator's stores after a decision on an item. -/
def release (item : ReviewRow) (verdict : ReviewVerdict) (w : World) : World :=
  match item.goalId with
  | none => w
  | some goalId =>
    if goalId = "" then w else (Prog.run (World.exec host) (verdict.program c item goalId) w).2

/-- `approve_task`, `accept_task` and `reject_task`. -/
def decide (taskId : String) (verdict : ReviewVerdict) (notes : Option String) (now : Datetime)
    (s : ReviewedWorld) : ReviewedWorld :=
  match s.reviews.getByTaskId taskId with
  | none => s
  | some item =>
    if item.status = .pending then
      { world := release c host item verdict s.world
        reviews := s.reviews.resolve taskId verdict.status notes now }
    else s

/-- The stores after an action. -/
def step : ReviewAction → ReviewedWorld → ReviewedWorld
  | .request r _, s => { s with world := s.world.step c host (.request r) }
  | .work call, s => { s with world := s.world.work call }
  | .enqueue item now, s => match ReviewQueue.enqueue host item now s.reviews with
    | .error _ => s
    | .ok reviews => { s with reviews }
  | .decide taskId verdict notes now, s => s.decide c host taskId verdict notes now

end ReviewedWorld

/-! ## Outdated decisions -/

/-- The goal and the planned task of an item, if it is about one. -/
def ReviewRow.target (item : ReviewRow) : Option (Uuid × Uuid) :=
  if "plan:".toList.isPrefixOf item.taskId.toList then none
  else match item.goalId.map Uuid.parse, item.plannedTaskId.map Uuid.parse with
    | some (.ok goalId), some (.ok taskId) => some (goalId, taskId)
    | _, _ => none

namespace World

variable (w : World)

/-- The attempt that completed the job of a task. -/
def attemptOf (r : PlannedTaskRow) : Option String :=
  r.jobId.bind fun jobId =>
    (w.jobs.attempts.find? fun a => a.jobId = jobId ∧ a.outcome = some .completed).map (·.attemptId.text)

/-- The task is escalated, by the attempt that the item names. -/
def EscalatedBy (goalId taskId : Uuid) (item : ReviewRow) : Prop :=
  ∃ r, w.goals.task? taskId = some r ∧ r.goalId = goalId ∧ r.status = .escalated ∧
    w.attemptOf r = item.attemptId

/-- The status of a goal that can be read. -/
def goalStatus (goalId : Uuid) : Option GoalStatus :=
  match GoalStore.getGoal w.goals goalId with
  | .ok (some goal) => some goal.status
  | _ => none

/-- `start` accepts the goal. -/
def Startable (goalId : Uuid) : Prop :=
  w.goalStatus goalId = some .ready ∨ w.goalStatus goalId = some .paused ∨
    w.goalStatus goalId = some .running

/-- The task and the goal are as they were. -/
def SameTaskAndGoal (goalId taskId : Uuid) (w' : World) : Prop :=
  w'.goals.task? taskId = w.goals.task? taskId ∧ w'.goals.goal? goalId = w.goals.goal? goalId

/-- The decision comes too late: the task is no longer escalated by the attempt that the item names, or
the goal of a task that is to be released cannot be started. -/
def Outdated (goalId taskId : Uuid) (item : ReviewRow) (verdict : ReviewVerdict) : Prop :=
  ¬ w.EscalatedBy goalId taskId item ∨ (verdict.releases = true ∧ ¬ w.Startable goalId)

end World

/-- A decision that comes too late leaves the task and the goal as they were. -/
def ReviewAction.Respects (c : DurableGoalCoordinator) (host : Host) :
    ReviewAction → ReviewedWorld → Prop
  | .decide taskId verdict notes now, s =>
    ∀ item goalId task, s.reviews.getByTaskId taskId = some item → item.target = some (goalId, task) →
      s.world.Outdated goalId task item verdict →
      s.world.SameTaskAndGoal goalId task (s.decide c host taskId verdict notes now).world
  | _, _ => True

/-! ## Decisions that change nothing -/

namespace World

variable (host : Host) (w : World)

/-- The task is complete, if it is there. -/
def TaskSettled (taskId : Uuid) : Prop := ∀ r, w.goals.task? taskId = some r → r.status = .complete

/-- The task was rejected, if it is there. -/
def TaskRejected (taskId : Uuid) : Prop :=
  ∀ r, w.goals.task? taskId = some r → r.status = .failed ∧ r.error = some "rejected by reviewer"

/-- A payload of the task has a reference that denotes nothing, as the tasks of the goal are stored. -/
def BadPayload (goalId taskId : Uuid) : Prop :=
  ∃ tasks task s, GoalStore.getTasks host w.goals goalId = .ok tasks ∧ byId tasks taskId = some task ∧
    OccursInItems s task.payload ∧ BadReference task.dependsOn tasks s

/-- The task cannot be run again: the goal has no such task that failed, was escalated or is complete, or the
payload of the task does not resolve. -/
def NotRerunnable (goalId taskId : Uuid) : Prop :=
  (¬ ∃ r, Rerunnable goalId taskId w r) ∨ w.BadPayload host goalId taskId

/-- The job of the task is queued or running. -/
def Underway (goalId : Uuid) (r : PlannedTaskRow) : Prop :=
  ∃ job, w.linkedJob goalId r = .ok (some job) ∧ (job.status = .queued ∨ job.status = .running)

instance (goalId : Uuid) (r : PlannedTaskRow) : Decidable (w.Underway goalId r) :=
  match h : w.linkedJob goalId r with
  | .error e => isFalse (by simp [Underway, h])
  | .ok none => isFalse (by simp [Underway, h])
  | .ok (some job) => decidable_of_iff (job.status = .queued ∨ job.status = .running) (by simp [Underway, h])

/-- The goal and a task of it are running, and so are the jobs of its running tasks, or they are queued. -/
structure Busy (goalId : Uuid) : Prop where
  goal : w.goalStatus goalId = some .running
  task : ∃ r ∈ w.goals.tasks, r.goalId = goalId ∧ r.status = .running
  jobs : ∀ r ∈ w.goals.tasks, r.goalId = goalId → r.status = .running → w.Underway goalId r

/-- The decision finds nothing to change. A goal that cannot be read is not written to, and neither is a held
task that cannot be run again. A release finds the task complete and the goal not to be started, or busy, a
rejection the task rejected and the goal failed. -/
def Idle (goalId taskId : Uuid) (item : ReviewRow) (verdict : ReviewVerdict) : Prop :=
  w.goalStatus goalId = none ∨
    if verdict.releases then
      if (heldKey item.agentOutput).isSome then w.NotRerunnable host goalId taskId
      else w.TaskSettled taskId ∧ (¬ w.Startable goalId ∨ w.Busy goalId)
    else w.TaskRejected taskId ∧ w.goalStatus goalId = some .failed

end World

/-- The decision is made in time, or finds nothing to change. -/
def ReviewAction.Timely (host : Host) : ReviewAction → ReviewedWorld → Prop
  | .decide taskId verdict _ _, s =>
    ∀ item goalId task, s.reviews.getByTaskId taskId = some item → item.target = some (goalId, task) →
      item.status = .pending → ¬ s.world.Outdated goalId task item verdict ∨
        s.world.Idle host goalId task item verdict
  | _, _ => True

end Galaxz
