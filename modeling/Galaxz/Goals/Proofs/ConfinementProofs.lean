import Galaxz.Goals.Guarantees
import Galaxz.Goals.Proofs.StoreProofs

/-!
# Programs stay within their goal

Whatever the stores answer, a request on a goal stores the status of that goal only, and enqueues and
starts tasks of that goal only. One lemma per method, along its calls; the loops of `reconcile` that enqueue
nothing have one rule for all that is asked of their calls.
-/

namespace Galaxz

open DurableGoalCoordinator Prog

/-! ## Loops of `reconcile` -/

section Loops

variable {V : (call : StoreCall) → call.Answer → Prop} {C : StoreCall → Prop} {goalId : Uuid}

theorem always_blockPass {tasks : List PlannedTask}
    (hblock : ∀ task ∈ tasks, task.status = .pending → C (.updateTask task.taskId blockUpdate))
    (failed : List Uuid) (changed : Bool) : (blockPass tasks failed changed).Always V C fun _ => True := by
  induction tasks generalizing failed changed with
  | nil => trivial
  | cons task tasks ih =>
    have hrest := ih fun t ht => hblock t (List.mem_cons_of_mem _ ht)
    rw [blockPass]
    split_ifs with hblocks
    · simp only [blocks, Bool.and_eq_true, decide_eq_true_eq] at hblocks
      exact Always.call (hblock task List.mem_cons_self hblocks.1.1) fun _ _ => hrest _ _
    · exact hrest _ _

/-- The blocking loop updates pending tasks to blocked. -/
theorem always_blockLoop {tasks : List PlannedTask}
    (hblock : ∀ task ∈ tasks, task.status = .pending → C (.updateTask task.taskId blockUpdate))
    (fuel : ℕ) (failed : List Uuid) : (blockLoop tasks fuel failed).Always V C fun _ => True := by
  induction fuel generalizing failed with
  | zero => trivial
  | succ fuel ih =>
    rw [blockLoop]
    refine Always.bind (always_blockPass hblock failed false) fun r _ => ?_
    obtain ⟨failed', changed⟩ := r
    dsimp only
    split_ifs
    · exact ih _
    · trivial

variable (hread : ∀ call : StoreCall, call.IsRead → C call)
  (hupdate : ∀ taskId (u : GoalStore.TaskUpdate), u.status ≠ .running → C (.updateTask taskId u))
  (hpause : C (.setGoalStatus goalId .paused))

include hread hupdate hpause

theorem always_settleJob (goal : GoalContract) (taskId : Uuid) (job : Option Job) :
    (settleJob goal goalId taskId job).Always V C fun _ => True := by
  rcases job with _ | job
  · exact Always.call (hupdate _ _ (by simp)) fun _ _ => trivial
  · unfold settleJob
    simp only
    split
    · refine Always.call (hread _ trivial) fun result _ => ?_
      unfold settleCompleted
      split
      · trivial
      · exact Always.call (hupdate _ _ (by simp [completeUpdate])) fun _ _ => trivial
      · split_ifs
        · exact Always.call (hupdate _ _ (by simp [failUpdate])) fun _ _ => trivial
        · refine Always.call (hupdate _ _ (by simp [escalateUpdate])) fun _ _ => ?_
          exact Always.call hpause fun _ _ => trivial
    · exact Always.call (hupdate _ _ (by simp)) fun _ _ => trivial
    · exact Always.call (hupdate _ _ (by simp)) fun _ _ => trivial
    · trivial
    · trivial

/-- The first loop reads, updates tasks to anything but running, and pauses the goal. -/
theorem always_settle (goal : GoalContract) (tasks : List PlannedTask) :
    (settle goal goalId tasks).Always V C fun _ => True := by
  induction tasks with
  | nil => trivial
  | cons task tasks ih =>
    rw [settle]
    split_ifs
    · have htask : (settleTask goal goalId task.taskId).Always V C fun _ => True := by
        refine Always.call (hread _ trivial) fun execution _ => ?_
        unfold findJob
        split
        · exact Always.call (hread _ trivial) fun job _ => always_settleJob hread hupdate hpause goal _ job
        · exact Always.call (hread _ trivial) fun job _ => always_settleJob hread hupdate hpause goal _ job
      refine Always.bind htask fun stop _ => ?_
      split_ifs
      · trivial
      · exact ih
    · exact ih

end Loops

/-! ## Calls within a goal -/

/-- The tasks of a goal are its own. -/
def OwnAnswers (own : Uuid → Uuid → Prop) : (call : StoreCall) → call.Answer → Prop
  | .getTasks g, tasks => ∀ t ∈ tasks, own g t.taskId
  | _, _ => True

/-- The call stores no status but of the goal, and enqueues and starts no task but of the goal. -/
def StoreCall.Within (own : Uuid → Uuid → Prop) (goalId : Uuid) : StoreCall → Prop
  | .setGoalStatus g _ => g = goalId
  | .enqueue taskId _ _ => own goalId taskId
  | .updateTask taskId update => update.status = .running → own goalId taskId
  | _ => True

/-- Every call of the program stays within the goal. -/
def Confined (own : Uuid → Uuid → Prop) (goalId : Uuid) {α : Type} (p : Coord α) : Prop :=
  p.Always (OwnAnswers own) (StoreCall.Within own goalId) fun _ => True

section Methods

variable {own : Uuid → Uuid → Prop} {goalId : Uuid} (c : DurableGoalCoordinator)

/-- An update to anything but running is within every goal. -/
theorem confined_updateTask {taskId : Uuid} {u : GoalStore.TaskUpdate} (h : u.status ≠ .running)
    {α : Type} {p : Coord α} (hp : Confined own goalId p) :
    Confined own goalId (Coord.updateTask taskId u >>= fun _ => p) :=
  Always.call (fun e => absurd e h) fun _ _ => hp

theorem StoreCall.IsRead.within {call : StoreCall} (h : call.IsRead) : call.Within own goalId := by
  cases call with
  | setGoalStatus g status => cases h
  | updateTask taskId update => cases h
  | enqueue taskId task key => cases h
  | _ => trivial

theorem confined_settle (goal : GoalContract) (tasks : List PlannedTask) :
    Confined own goalId (settle goal goalId tasks) :=
  always_settle (fun _ h => h.within) (fun _ _ hu e => absurd e hu) rfl goal tasks

theorem confined_blockLoop (tasks : List PlannedTask) (fuel : ℕ) (failed : List Uuid) :
    Confined own goalId (blockLoop tasks fuel failed) :=
  always_blockLoop (fun _ _ _ e => by simp [blockUpdate] at e) fuel failed

/-- A contract is enqueued under the id of its task. -/
theorem taskContract_taskId {task : PlannedTask} {payload : PyDict} {threshold : PyFloat}
    {workspaceRoot : Option String} {contract : TaskContract}
    (h : taskContract goalId task payload threshold workspaceRoot = .ok contract) :
    contract.taskId = task.taskId := by
  unfold taskContract TaskContract.validate at h
  split_ifs at h
  cases h
  rfl

theorem confined_dispatch (goal : GoalContract) (before : List PlannedTask) (slots : ℤ)
    (tasks : List PlannedTask) (hown : ∀ t ∈ tasks, own goalId t.taskId) :
    Confined own goalId (dispatch goal goalId before slots tasks) := by
  induction tasks generalizing slots with
  | nil => trivial
  | cons task tasks ih =>
    have hrest := fun n => ih n fun t ht => hown t (List.mem_cons_of_mem _ ht)
    have htask := hown task List.mem_cons_self
    rw [dispatch]
    split_ifs
    · trivial
    · exact hrest _
    · split
      · trivial
      · exact hrest _
      · split
        · exact confined_updateTask (by simp [unresolvedUpdate]) (hrest _)
        · trivial
        · split
          · trivial
          · next hcontract =>
            have hid := taskContract_taskId hcontract
            refine Always.call (by rw [hid]; exact htask) fun job _ => ?_
            exact Always.call (fun _ => htask) fun _ _ => hrest _

theorem confined_finish : Confined own goalId (finish goalId) := by
  refine Always.call trivial fun tasks _ => ?_
  split_ifs
  · exact Always.call rfl fun _ _ => ⟨trivial, fun _ _ => trivial⟩
  · exact ⟨rfl, fun _ _ => trivial⟩
  · trivial

theorem confined_schedule (goal : GoalContract) :
    Confined own goalId (c.schedule goal goalId) := by
  refine Always.call trivial fun before _ => ?_
  refine Always.bind (confined_blockLoop before _ _) fun _ _ => ?_
  refine Always.call trivial fun tasks htasks => ?_
  refine Always.call trivial fun jobs _ => ?_
  exact Always.bind (confined_dispatch goal before _ tasks htasks) fun _ _ => confined_finish

theorem confined_reconcile : Confined own goalId (c.reconcile goalId) := by
  refine Always.call trivial fun goal _ => ?_
  split
  · trivial
  · split_ifs
    · trivial
    · refine Always.call trivial fun tasks _ => ?_
      refine Always.bind (confined_settle _ tasks) fun stop _ => ?_
      split_ifs
      · trivial
      · exact confined_schedule c _

theorem confined_start (actor : String) : Confined own goalId (c.start goalId actor) := by
  refine Always.call trivial fun goal _ => ?_
  split
  · trivial
  · split_ifs
    · refine Always.call rfl fun _ _ => ?_
      exact Always.call trivial fun _ _ => confined_reconcile c
    · trivial

theorem confined_pause (actor : String) (reason : Option String) :
    Confined own goalId (DurableGoalCoordinator.pause goalId actor reason) := by
  refine Always.call trivial fun goal _ => ?_
  split
  · trivial
  · split_ifs
    · trivial
    · trivial
    · exact Always.call rfl fun _ _ => ⟨trivial, fun _ _ => trivial⟩

theorem confined_goalField {α : Type} (name : String) (field : GoalContract → α) :
    Confined own goalId (goalField goalId name field) := by
  refine Always.call trivial fun goal _ => ?_
  split
  · trivial
  · trivial

theorem confined_rerunTask (tasks : List PlannedTask) (task : PlannedTask) (actor : String)
    (reason : Option String) (hown : own goalId task.taskId) :
    Confined own goalId (rerunTask goalId tasks task actor reason) := by
  refine Always.call trivial fun events _ => ?_
  split
  · trivial
  · refine Always.bind (confined_goalField _ _) fun threshold _ => ?_
    refine Always.bind (confined_goalField _ _) fun workspaceRoot _ => ?_
    split
    · trivial
    · refine Always.call hown fun job _ => ?_
      refine Always.call (fun _ => hown) fun _ _ => ?_
      exact Always.call rfl fun _ _ => ⟨trivial, fun _ _ => trivial⟩

theorem confined_rerun (taskId : Uuid) (actor : String) (reason : Option String) :
    Confined own goalId (DurableGoalCoordinator.rerun goalId taskId actor reason) := by
  refine Always.call trivial fun tasks htasks => ?_
  split
  · trivial
  · next task htask =>
    split_ifs
    · exact confined_rerunTask tasks task actor reason (htasks task (mem_of_byId htask).1)
    · trivial

theorem confined_resumeTask (taskId : Uuid) (approved : Bool) :
    Confined own goalId (c.resumeTask goalId taskId approved) := by
  unfold resumeTask
  split_ifs
  · exact confined_updateTask (by simp) (confined_start c "review")
  · exact confined_updateTask (by simp) ⟨rfl, fun _ _ => trivial⟩

theorem confined_resumeGoal (queueTaskId : String) (approved : Bool) (item : Option ReviewItem) :
    Confined own goalId (c.resumeGoal queueTaskId goalId approved item) := by
  refine Always.call trivial fun goal _ => ?_
  split_ifs
  · trivial
  · exact confined_start c "review"
  · exact ⟨rfl, fun _ _ => trivial⟩
  · split
    · trivial
    · exact confined_resumeTask c _ approved

end Methods

/-! ## `cancel` -/

/-- The calls of `cancel`, whatever the goal: nothing is enqueued or started, and no status but
`cancelled` is stored. -/
def StoreCall.Cancelling : StoreCall → Prop
  | .setGoalStatus _ status => status = .cancelled
  | .enqueue _ _ _ => False
  | .updateTask _ update => update.status = .cancelled
  | _ => True

/-- Every call of the program is one of `cancel`. -/
def OnlyCancels {α : Type} (p : Coord α) : Prop :=
  p.Always (fun _ _ => True) StoreCall.Cancelling fun _ => True

theorem onlyCancels_cancelTask (taskId : Uuid) : OnlyCancels (cancelTask taskId) := by
  refine Always.call trivial fun execution _ => ?_
  split
  · trivial
  · refine Always.call trivial fun job _ => ?_
    unfold cancelTaskJob
    split
    · trivial
    · split_ifs
      · exact Always.call trivial fun _ _ => trivial
      · trivial

theorem onlyCancels_cancelTasks (tasks : List PlannedTask) (affected : List String) :
    OnlyCancels (cancelTasks tasks affected) := by
  induction tasks generalizing affected with
  | nil => trivial
  | cons task tasks ih =>
    rw [cancelTasks]
    split_ifs
    · refine Always.bind (onlyCancels_cancelTask task.taskId) fun _ _ => ?_
      exact Always.call rfl fun _ _ => ih _
    · exact Always.call rfl fun _ _ => ih _
    · exact ih _

theorem onlyCancels_cancel (goalId : Uuid) (actor : String) (reason : Option String) :
    OnlyCancels (DurableGoalCoordinator.cancel goalId actor reason) := by
  refine Always.call trivial fun goal _ => ?_
  split
  · trivial
  · split_ifs
    · trivial
    · trivial
    · refine Always.call trivial fun tasks _ => ?_
      refine Always.bind (onlyCancels_cancelTasks tasks []) fun affected _ => ?_
      exact Always.call rfl fun _ _ => ⟨trivial, fun _ _ => trivial⟩

end Galaxz
