import Galaxz.Goals.Proofs.FinalityProofs
import Galaxz.Goals.Proofs.MoveProofs
import Galaxz.Reviews.Decisions

/-!
# When a decision leaves an outdated item alone

The handlers write the task by its id and the goal by its id, without asking whether the task is still
escalated. What they write is worked out below: a late decision changes nothing when what it writes is stored
already, or when the goal and the task cannot be read or run.
-/

namespace Galaxz

open DurableGoalCoordinator Prog GoalStore

section Decisions

variable {c : DurableGoalCoordinator} {host : Host} {w w' : World} {g t : Uuid}

/-! ## The calls of the handlers -/

/-- The handler of an item, once the goal is read. -/
theorem run_resumeGoal (q : String) (approved : Bool) (item : Option DurableGoalCoordinator.ReviewItem)
    (hplan : "plan:".toList.isPrefixOf q.toList = false)
    (hid : Uuid.parse (reviewedId q item) = .ok t) :
    (Prog.run (World.exec host) (c.resumeGoal q g approved item) w).2 =
      if w.goalStatus g = none then w
      else (Prog.run (World.exec host) (c.resumeTask g t approved) w).2 := by
  have hread : World.exec host (.getGoal g) w = (GoalStore.getGoal w.goals g, w) := rfl
  unfold resumeGoal Coord.getGoal World.goalStatus
  rw [call_bind, Prog.run, hread]
  rcases GoalStore.getGoal w.goals g with e | goal
  · rfl
  · rcases goal with _ | goal
    · rfl
    · simp only [pure_bind, Option.isNone_some, hplan, hid, Bool.false_eq_true, if_false, reduceCtorEq]

/-- The cells that a release writes. -/
def completeCells : TaskCells := ⟨.complete, none, none, none, none, none⟩

/-- The cells that a rejection writes. -/
def rejectCells : TaskCells := ⟨.failed, none, none, some (some "rejected by reviewer"), none, none⟩

/-- The stores after the cells of a task are written. -/
def World.write (w : World) (taskId : Uuid) (cells : TaskCells) : World :=
  { w with goals := w.goals.updateTaskRow taskId cells.set cells.set_taskId }

theorem run_resumeTask_reject :
    (Prog.run (World.exec host) (c.resumeTask g t false) w).2 =
      (World.exec host (.setGoalStatus g .failed) (w.write t rejectCells)).2 := rfl

theorem run_resumeTask_release :
    (Prog.run (World.exec host) (c.resumeTask g t true) w).2 =
      (Prog.run (World.exec host) (c.start g "review") (w.write t completeCells)).2 := rfl

/-- The stores after `start` has set the goal running and noted it. -/
def World.resumed (host : Host) (goalId : Uuid) (w : World) : World :=
  (World.exec host (.recordEvent goalId "review" "resume" none [])
    (World.exec host (.setGoalStatus goalId .running) w).2).2

/-- `start` sets a goal that it accepts running, and reconciles it. -/
theorem run_start (h : w.Startable g) :
    (Prog.run (World.exec host) (c.start g "review") w).2 =
      (w.resumed host g).step c host (.request (.reconcile g)) := by
  have hread : World.exec host (.getGoal g) w = (GoalStore.getGoal w.goals g, w) := rfl
  unfold World.Startable World.goalStatus at h
  unfold start Coord.getGoal
  rw [call_bind, Prog.run, hread]
  rcases hgoal : GoalStore.getGoal w.goals g with e | goal
  · simp [hgoal] at h
  · rcases goal with _ | goal
    · simp [hgoal] at h
    · rw [hgoal] at h
      have hready : goal.status = .ready ∨ goal.status = .paused ∨ goal.status = .running := by
        simpa using h
      simp only [pure_bind, if_pos hready]
      rfl

/-- `start` does nothing for a goal that it refuses. -/
theorem run_start_refused (h : ¬ w.Startable g) :
    (Prog.run (World.exec host) (c.start g "review") w).2 = w := by
  have hread : World.exec host (.getGoal g) w = (GoalStore.getGoal w.goals g, w) := rfl
  unfold World.Startable World.goalStatus at h
  unfold start Coord.getGoal
  rw [call_bind, Prog.run, hread]
  rcases hgoal : GoalStore.getGoal w.goals g with e | goal
  · rfl
  · rcases goal with _ | goal
    · rfl
    · rw [hgoal] at h
      have hready : ¬ (goal.status = .ready ∨ goal.status = .paused ∨ goal.status = .running) := by
        simpa using h
      simp only [pure_bind, if_neg hready]
      rfl

/-! ## What stays -/

/-- Writing cells that are stored already changes nothing. -/
theorem World.write_eq_self {cells : TaskCells}
    (h : ∀ r, w.goals.task? t = some r → cells.set r = r) : w.write t cells = w := by
  have htasks : Table.updateWhere (fun r : PlannedTaskRow => r.taskId = t) cells.set w.goals.tasks =
      w.goals.tasks := by
    conv_rhs => rw [← List.map_id w.goals.tasks]
    refine List.map_congr_left fun r hr => ?_
    by_cases hid : r.taskId = t
    · rw [if_pos (by simpa using hid)]
      exact h r (GoalDb.task?_eq_some.mpr ⟨hr, hid⟩)
    · rw [if_neg (by simpa using hid)]
      rfl
  unfold World.write GoalDb.updateTaskRow
  simp only [htasks]

theorem World.task?_write (cells : TaskCells) :
    (w.write t cells).goals.task? t = (w.goals.task? t).map cells.set := by
  unfold World.write
  rw [GoalDb.task?_updateTaskRow, if_pos rfl]

/-- A reconciliation leaves complete tasks alone. -/
theorem ReconcileMove.keeps_settled {call : StoreCall} (h : ReconcileMove c g call w)
    {x : Option PlannedTaskRow} (hx : ∀ r, x = some r → r.status = .complete)
    (hw : w.goals.task? t = x) : (World.exec host call w).2.goals.task? t = x := by
  -- every task that a move updates is running or pending
  have hopen : ∀ update, call = .updateTask t update →
      ∃ r, w.goals.task? t = some r ∧ (r.status = .running ∨ r.status = .pending) := by
    intro update hcall
    cases h with
    | read hread =>
      rw [hcall] at hread
      exact hread.elim
    | lost hrow _ hstatus _ =>
      cases hcall
      exact ⟨_, hrow, Or.inl hstatus⟩
    | complete hrow _ hstatus _ _ _ _ =>
      cases hcall
      exact ⟨_, hrow, Or.inl hstatus⟩
    | fail hrow _ hstatus _ _ _ _ =>
      cases hcall
      exact ⟨_, hrow, Or.inl hstatus⟩
    | escalate hrow _ hstatus _ _ _ _ =>
      cases hcall
      exact ⟨_, hrow, Or.inl hstatus⟩
    | jobFailed hrow _ hstatus _ _ =>
      cases hcall
      exact ⟨_, hrow, Or.inl hstatus⟩
    | block hrow _ hstatus _ _ =>
      cases hcall
      exact ⟨_, hrow, Or.inr hstatus⟩
    | unresolved hrow _ hstatus _ =>
      cases hcall
      exact ⟨_, hrow, Or.inr hstatus⟩
    | run hrow _ hstatus _ _ =>
      cases hcall
      exact ⟨_, hrow, Or.inr hstatus⟩
    | pause _ => cases hcall
    | enqueue _ _ _ _ _ => cases hcall
    | finish _ => cases hcall
    | finished => cases hcall
    | giveUp _ => cases hcall
  rcases World.exec_task? host call w t with hsame | ⟨update, cells, hcall, -, -⟩
  · rw [hsame]
    exact hw
  · obtain ⟨r, hr, hstatus⟩ := hopen update hcall
    have hcomplete := hx r (hw.symm.trans hr)
    rw [hcomplete] at hstatus
    rcases hstatus with hstatus | hstatus <;> cases hstatus

theorem reconcile_keeps_settled (h : w.TaskSettled t) :
    (w.step c host (.request (.reconcile g))).goals.task? t = w.goals.task? t := by
  refine Prog.run_invariant (I := fun w' : World => w'.goals.task? t = w.goals.task? t) _ w rfl ?_
  intro x hx hsame
  cases request_moves c (.reconcile g) rfl w x hx with
  | reconcile hmove => exact hmove.keeps_settled h hsame

/-! ## Reruns -/

/-- A rerun that is refused leaves the goals as they are. One that goes through changes its task, which was there
to be run again, with a payload that resolves and a goal that can be read. -/
def RerunEnds (host : Host) (goalId taskId : Uuid) (w : World) (r : Except PyError Unit) (w' : World) : Prop :=
  (∀ e, r = .error e → w'.goals = w.goals) ∧
    ∀ u, r = .ok u → w'.goals.task? taskId ≠ w.goals.task? taskId ∧ (∃ row, Rerunnable goalId taskId w row) ∧
      Resolves host goalId taskId w ∧ w.goalStatus goalId ≠ none

theorem RerunEnds.refused (e : PyError) (h : w.goals = w'.goals) : RerunEnds host g t w' (.error e) w :=
  ⟨fun _ _ => h, fun _ hu => by cases hu⟩

theorem ends_goalField {α : Type} (name : String) (field : GoalContract → α) {f : α → Coord Unit}
    (hf : ∀ a, w.goalStatus g ≠ none → Ends (World.exec host) (f a) (RerunEnds host g t w) w) :
    Ends (World.exec host) (goalField g name field >>= f) (RerunEnds host g t w) w := by
  refine ends_read (.getGoal g) trivial (fun goal hgoal => ?_) fun e => .refused e rfl
  rcases goal with _ | goal
  · exact .refused _ rfl
  · refine hf _ fun hnone => ?_
    have hread : GoalStore.getGoal w.goals g = .ok (some goal) := (Prod.mk.inj hgoal).1
    unfold World.goalStatus at hnone
    rw [hread] at hnone
    cases hnone

theorem ends_rerun (actor : String) (reason : Option String) :
    Ends (World.exec host) (rerun g t actor reason) (RerunEnds host g t w) w := by
  refine ends_read (.getTasks g) trivial (fun tasks htasks => ?_) fun e => .refused e rfl
  have hread : GoalStore.getTasks host w.goals g = .ok tasks := (Prod.mk.inj htasks).1
  cases htask : byId tasks t with
  | none => exact .refused _ rfl
  | some task =>
    obtain ⟨hmem, hid⟩ := mem_of_byId htask
    obtain ⟨row, hrow, hrid, hgoal, hstatus, -⟩ := (getTasks_shows hread task hmem).row
    rw [hrid, hid] at hrow
    dsimp only
    split_ifs with hopen
    · refine ends_read (.events g) trivial (fun events _ => ?_) fun e => .refused e rfl
      cases hpayload : resolvePayload task tasks with
      | error e => exact .refused e rfl
      | ok payload =>
        have hrerun : Rerunnable g t w row := ⟨hrow, hgoal, by rw [hstatus]; exact hopen⟩
        have hresolves : Resolves host g t w := ⟨tasks, task, payload, hread, htask, hpayload⟩
        refine ends_goalField _ _ fun threshold hgoal => ends_goalField _ _ fun workspaceRoot _ => ?_
        cases taskContract g task payload threshold workspaceRoot with
        | error e => exact .refused e rfl
        | ok contract =>
          refine Ends.call (fun job w₁ henqueue => ?_) fun e w₁ henqueue => ?_
          · have hgoals : w₁.goals = w.goals := by
              rw [← (Prod.mk.inj henqueue).2]
              rfl
            refine Ends.call (fun _ w₂ hupdate => ?_) fun e w₂ hupdate => ?_
            · obtain ⟨cells, hcells, rfl⟩ := World.exec_updateTask host hupdate
              have hrunning : cells.status = .running := World.cells_status host hcells
              show RerunEnds host g t w (.ok ()) _
              refine ⟨fun e he => (by cases he), fun u _ => ⟨?_, ⟨row, hrerun⟩, hresolves, hgoal⟩⟩
              show (w₁.goals.updateTaskRow task.taskId cells.set cells.set_taskId).task? t ≠ _
              rw [hgoals, GoalDb.task?_updateTaskRow, if_pos hid.symm, hrow]
              intro hsame
              have heq : (cells.set row).status = row.status :=
                congrArg PlannedTaskRow.status (Option.some.inj hsame)
              have hrow' : row.status = .running := heq.symm.trans hrunning
              rw [← hstatus, hrow'] at hopen
              rcases hopen with h | h | h <;> cases h
            · have hw₂ : w₂ = w₁ := by
                simp only [World.exec] at hupdate
                split at hupdate
                · exact (Prod.mk.inj hupdate).2.symm
                · cases (Prod.mk.inj hupdate).1
              rw [hw₂]
              exact .refused e hgoals
          · refine .refused e ?_
            rw [← (Prod.mk.inj henqueue).2]
            rfl
    · exact .refused _ rfl

/-- A payload with a reference that denotes nothing does not resolve. -/
theorem not_resolves (h : w.BadPayload host g t) : ¬ Resolves host g t w := by
  obtain ⟨tasks, task, s, htasks, htask, hoccurs, hbad⟩ := h
  rintro ⟨tasks', task', payload, htasks', htask', hpayload⟩
  rw [htasks'] at htasks
  cases htasks
  rw [htask'] at htask
  cases htask
  obtain ⟨out, hout, -⟩ := (except_bind_ok_iff _ _ _).mp hpayload
  exact SubstitutedItems.denoted ((resolveItems_ok_iff _ _).mp hout) hoccurs hbad

/-! ## Busy goals -/

/-- The call stores no status for a goal, and leaves the task alone. -/
def StoreCall.Spares (taskId : Uuid) : StoreCall → Prop
  | .setGoalStatus _ _ => False
  | .updateTask t _ => t ≠ taskId
  | _ => True

theorem StoreCall.Spares.task? {call : StoreCall} (h : call.Spares t) :
    (World.exec host call w).2.goals.task? t = w.goals.task? t := by
  rcases World.exec_task? host call w t with hsame | ⟨update, cells, rfl, -, -⟩
  · exact hsame
  · exact absurd rfl h

theorem StoreCall.Spares.goal? {call : StoreCall} (h : call.Spares t) :
    (World.exec host call w).2.goals.goal? g = w.goals.goal? g := by
  rcases World.exec_goal? host call w g with hsame | ⟨status, rfl, -⟩
  · exact hsame
  · exact h.elim

/-- A task whose job is queued or running is not settled. -/
theorem settleTask_spares {goal : GoalContract} {r : PlannedTaskRow} {job : Job}
    (hrow : w.goals.task? r.taskId = some r) (hjob : w.linkedJob g r = .ok (some job))
    (hopen : job.status = .queued ∨ job.status = .running) :
    Meets (World.exec host) (fun call _ => call.Spares t) (settleTask goal g r.taskId)
      (fun stop w' => stop = false ∧ w' = w) w := by
  have hsettle : settleJob goal g r.taskId (some job) = return false := by
    unfold settleJob
    rcases hopen with h | h <;> simp only [h]
  refine meets_read trivial trivial fun execution hanswer => ?_
  have hexecution : execution.jobId = r.jobId := by
    have h : taskExecution w.goals r.taskId = .ok execution := hanswer
    rw [taskExecution, hrow] at h
    cases h
    rfl
  unfold findJob
  rw [hexecution]
  unfold World.linkedJob at hjob
  cases hlink : r.jobId with
  | some jobId =>
    rw [hlink] at hjob
    refine meets_read trivial trivial fun found hanswer => ?_
    rw [show found = some job from Except.ok.inj (hanswer.symm.trans hjob), hsettle]
    exact ⟨rfl, rfl⟩
  | none =>
    rw [hlink] at hjob
    refine meets_read trivial trivial fun found hanswer => ?_
    rw [show found = some job from Except.ok.inj (hanswer.symm.trans hjob), hsettle]
    exact ⟨rfl, rfl⟩

theorem settle_spares {goal : GoalContract} (hbusy : w.Busy g) {tasks : List PlannedTask}
    (hshow : ∀ task ∈ tasks, Shows host g w.goals task) :
    Meets (World.exec host) (fun call _ => call.Spares t) (settle goal g tasks)
      (fun stop w' => stop = false ∧ w' = w) w := by
  induction tasks with
  | nil => exact ⟨rfl, rfl⟩
  | cons task tasks ih =>
    have hrest := ih fun x hx => hshow x (List.mem_cons_of_mem _ hx)
    rw [settle]
    split_ifs with hrun
    · obtain ⟨r, hrow, hid, hgoal, hstatus, -⟩ := (hshow task List.mem_cons_self).row
      obtain ⟨job, hjob, hopen⟩ := hbusy.jobs r (GoalDb.task?_eq_some.mp hrow).1 hgoal (hstatus.trans hrun)
      have htask : Meets (World.exec host) (fun call _ => call.Spares t) (settleTask goal g r.taskId)
          (fun stop w' => stop = false ∧ w' = w) w := settleTask_spares hrow hjob hopen
      rw [hid] at htask
      refine Meets.bind htask ?_
      rintro stop w' ⟨rfl, rfl⟩
      exact hrest
    · exact hrest

theorem blockLoop_spares {tasks : List PlannedTask} (h : ∀ task ∈ tasks, task.taskId = t → task.status ≠ .pending)
    (fuel : ℕ) (failed : List Uuid) :
    Meets (World.exec host) (fun call _ => call.Spares t) (blockLoop tasks fuel failed) (fun _ _ => True) w :=
  Always.meets (V := fun _ _ => True) (fun _ _ _ _ _ => trivial)
    (always_blockLoop (fun task htask hpending hid => h task htask hid hpending) fuel failed) w

theorem dispatch_spares {goal : GoalContract} {before tasks : List PlannedTask}
    (h : ∀ task ∈ tasks, task.taskId = t → task.status ≠ .pending) (slots : ℤ) :
    Meets (World.exec host) (fun call _ => call.Spares t) (dispatch goal g before slots tasks)
      (fun _ _ => True) w := by
  induction tasks generalizing w slots with
  | nil => trivial
  | cons task tasks ih =>
    have hrest := fun x hx => h x (List.mem_cons_of_mem _ hx)
    rw [dispatch]
    split_ifs with hslots hpending
    · trivial
    · exact ih hrest slots
    · have hne : task.taskId ≠ t := fun hid => h task List.mem_cons_self hid (not_not.mp hpending)
      split
      · trivial
      · exact ih hrest slots
      · split
        · exact Meets.call hne fun _ _ _ => ih hrest slots
        · trivial
        · split
          · trivial
          · refine Meets.call trivial fun _ _ _ => ?_
            exact Meets.call hne fun _ _ _ => ih hrest (slots - 1)

/-- The tasks of a goal as they are read show a running task as running. -/
theorem getTasks_running {tasks : List PlannedTask} (h : GoalStore.getTasks host w.goals g = .ok tasks)
    {r : PlannedTaskRow} (hrow : w.goals.task? r.taskId = some r) (hgoal : r.goalId = g)
    (hstatus : r.status = .running) :
    (∀ task ∈ tasks, task.taskId = r.taskId → task.status ≠ .pending) ∧
      ∃ task ∈ tasks, task.status = .running := by
  constructor
  · intro task htask hid
    obtain ⟨r', hrow', hid', -, hstatus', -⟩ := (getTasks_shows h task htask).row
    rw [hid', hid, hrow] at hrow'
    cases hrow'
    rw [← hstatus', hstatus]
    simp
  · obtain ⟨task, htask, hread⟩ := getTasks_mem h (GoalDb.task?_eq_some.mp hrow).1 hgoal
    exact ⟨task, htask, hread.status.trans hstatus⟩

theorem finish_spares {r : PlannedTaskRow} (hrow : w.goals.task? r.taskId = some r) (hgoal : r.goalId = g)
    (hstatus : r.status = .running) :
    Meets (World.exec host) (fun call _ => call.Spares t) (finish g) (fun _ _ => True) w := by
  refine meets_read trivial trivial fun tasks htasks => ?_
  obtain ⟨-, task, htask, hrunning⟩ := getTasks_running htasks hrow hgoal hstatus
  split_ifs with hall hnone
  · have hcomplete := List.all_eq_true.mp hall task htask
    simp [hrunning] at hcomplete
  · have hstopped := List.all_eq_true.mp hnone task htask
    simp [hrunning] at hstopped
  · trivial

/-- A reconciliation of a busy goal stores no status for it. -/
theorem reconcile_keeps_busy (h : w.Busy g) :
    (w.step c host (.request (.reconcile g))).goals.goal? g = w.goals.goal? g := by
  obtain ⟨r, hr, hgoal, hstatus⟩ := h.task
  have hrow : w.goals.task? r.taskId = some r := GoalDb.task?_eq_some.mpr ⟨hr, rfl⟩
  -- the running task stays as it is, from one call to the next
  have hkeep : ∀ {α : Type} {p : Coord α} {w' : World}, w'.goals.task? r.taskId = some r →
      Meets (World.exec host) (fun call _ => call.Spares r.taskId) p (fun _ _ => True) w' →
      Meets (World.exec host) (fun call _ => call.Spares r.taskId) p
        (fun _ s => s.goals.task? r.taskId = some r) w' := by
    intro α p w' hrow' hp
    refine ((hp.keep (I := fun s => s.goals.task? r.taskId = some r)
      (fun op s hop hs => hop.task?.trans hs) hrow').weaken fun _ _ hop => hop.1).mono fun _ _ hs => hs.2
  have hmeets : Meets (World.exec host) (fun call _ => call.Spares r.taskId) (c.reconcile g)
      (fun _ _ => True) w := by
    refine meets_read trivial trivial fun goal _ => ?_
    split
    · trivial
    · split_ifs
      · trivial
      · refine meets_read trivial trivial fun tasks htasks => ?_
        refine Meets.bind (settle_spares h (getTasks_shows htasks)) ?_
        rintro stop w' ⟨rfl, rfl⟩
        refine meets_read trivial trivial fun before hbefore => ?_
        obtain ⟨hspared, -⟩ := getTasks_running hbefore hrow hgoal hstatus
        refine Meets.bind (hkeep hrow (blockLoop_spares hspared _ _)) fun _ w₁ hrow₁ => ?_
        refine meets_read trivial trivial fun tasks htasks => ?_
        refine meets_read trivial trivial fun jobs _ => ?_
        obtain ⟨hspared, -⟩ := getTasks_running htasks hrow₁ hgoal hstatus
        refine Meets.bind (hkeep hrow₁ (dispatch_spares hspared _)) fun _ w₂ hrow₂ => ?_
        exact finish_spares hrow₂ hgoal hstatus
  refine Prog.run_invariant (I := fun s : World => s.goals.goal? g = w.goals.goal? g) _ w rfl ?_
  intro x hx hsame
  exact (hmeets.trace x hx).goal?.trans hsame

/-! ## Decisions -/

theorem goalStatus_row {status : GoalStatus} (h : w.goalStatus g = some status) :
    ∃ row, w.goals.goal? g = some row ∧ row.status = status := by
  unfold World.goalStatus at h
  rcases hgoal : GoalStore.getGoal w.goals g with e | goal
  · simp [hgoal] at h
  · rcases goal with _ | goal
    · simp [hgoal] at h
    · obtain ⟨row, hrow, hstatus, -⟩ := getGoal_row hgoal
      rw [hgoal] at h
      exact ⟨row, hrow, hstatus.symm.trans (Option.some.inj h)⟩

/-- Cells that are written are those that are stored if the task is as it was. -/
theorem task?_write_iff (cells : TaskCells) :
    (w.write t cells).goals.task? t = w.goals.task? t ↔
      ∀ r, w.goals.task? t = some r → cells.set r = r := by
  rw [World.task?_write]
  cases w.goals.task? t with
  | none => simp
  | some row => simp

theorem completeCells_set_iff (r : PlannedTaskRow) : completeCells.set r = r ↔ r.status = .complete := by
  constructor
  · intro h
    exact (congrArg PlannedTaskRow.status h).symm
  · intro h
    cases r
    cases h
    rfl

theorem rejectCells_set_iff (r : PlannedTaskRow) :
    rejectCells.set r = r ↔ r.status = .failed ∧ r.error = some "rejected by reviewer" := by
  constructor
  · intro h
    exact ⟨(congrArg PlannedTaskRow.status h).symm, (congrArg PlannedTaskRow.error h).symm⟩
  · rintro ⟨hstatus, herror⟩
    cases r
    cases hstatus
    cases herror
    rfl

theorem sameTaskAndGoal_reject_iff :
    w.SameTaskAndGoal g t (if w.goalStatus g = none then w
      else (Prog.run (World.exec host) (c.resumeTask g t false) w).2) ↔
      w.goalStatus g = none ∨ (w.TaskRejected t ∧ w.goalStatus g = some .failed) := by
  cases hstatus : w.goalStatus g with
  | none => simp [World.SameTaskAndGoal]
  | some status =>
    obtain ⟨row, hrow, rfl⟩ := goalStatus_row hstatus
    have htask : (w.write t rejectCells).goals.task? t = w.goals.task? t ↔ w.TaskRejected t := by
      rw [task?_write_iff]
      exact forall_congr' fun r => imp_congr_right fun _ => rejectCells_set_iff r
    have hgoal : (World.exec host (.setGoalStatus g .failed) (w.write t rejectCells)).2.goals.goal? g =
        w.goals.goal? g ↔ row.status = .failed := by
      have hset : (World.exec host (.setGoalStatus g .failed) (w.write t rejectCells)).2.goals.goal? g =
          (w.goals.goal? g).map fun r => { r with status := .failed } := by
        show (GoalStore.setGoalStatus g .failed (w.write t rejectCells).goals).goal? g = _
        rw [GoalStore.setGoalStatus, GoalDb.goal?_updateGoal, if_pos rfl]
        rfl
      rw [hset, hrow]
      constructor
      · intro h
        exact (congrArg GoalRow.status (Option.some.inj h)).symm
      · intro h
        rw [← h]
        rfl
    rw [if_neg (by simp), run_resumeTask_reject]
    unfold World.SameTaskAndGoal
    rw [hgoal]
    have hsame : (World.exec host (.setGoalStatus g .failed) (w.write t rejectCells)).2.goals.task? t =
        (w.write t rejectCells).goals.task? t := rfl
    rw [hsame, htask]
    simp

theorem task?_write_settled_iff :
    (w.write t completeCells).goals.task? t = w.goals.task? t ↔ w.TaskSettled t := by
  rw [task?_write_iff]
  exact forall_congr' fun r => imp_congr_right fun _ => completeCells_set_iff r

/-- A release leaves the task alone exactly when it was complete. -/
theorem task?_release_iff :
    (Prog.run (World.exec host) (c.resumeTask g t true) w).2.goals.task? t = w.goals.task? t ↔
      w.TaskSettled t := by
  have hstart : (w.write t completeCells).Startable g ↔ w.Startable g := Iff.rfl
  rw [run_resumeTask_release, ← task?_write_settled_iff]
  by_cases hready : w.Startable g
  · rw [run_start (hstart.mpr hready)]
    have hsettled : ((w.write t completeCells).resumed host g).TaskSettled t := by
      intro r hr
      have hmap : (w.goals.task? t).map completeCells.set = some r :=
        (World.task?_write completeCells).symm.trans hr
      obtain ⟨row, -, rfl⟩ := Option.map_eq_some_iff.mp hmap
      rfl
    rw [reconcile_keeps_settled hsettled]
    exact Iff.rfl
  · rw [run_start_refused (mt hstart.mp hready)]

/-- A busy goal is set running, which it is, and stays busy. -/
theorem World.Busy.resumed (h : w.Busy g) :
    (w.resumed host g).goals.goal? g = w.goals.goal? g ∧ (w.resumed host g).Busy g := by
  obtain ⟨row, hrow, hstatus⟩ := goalStatus_row h.goal
  have hsame : (w.resumed host g).goals.goal? g = w.goals.goal? g := by
    show (GoalStore.setGoalStatus g .running w.goals).goal? g = _
    rw [GoalStore.setGoalStatus, GoalDb.goal?_updateGoal, if_pos rfl, hrow, Option.map_some, ← hstatus]
  refine ⟨hsame, ⟨?_, h.task, h.jobs⟩⟩
  have hgoal := h.goal
  unfold World.goalStatus GoalStore.getGoal at hgoal ⊢
  rw [hsame]
  exact hgoal

/-- A release of a complete task leaves the goal alone when it cannot be started, or is busy. -/
theorem sameTaskAndGoal_release (h : w.goalStatus g = none ∨ (w.TaskSettled t ∧ (¬ w.Startable g ∨ w.Busy g))) :
    w.SameTaskAndGoal g t (if w.goalStatus g = none then w
      else (Prog.run (World.exec host) (c.resumeTask g t true) w).2) := by
  by_cases hnone : w.goalStatus g = none
  · rw [if_pos hnone]
    exact ⟨rfl, rfl⟩
  · rw [if_neg hnone]
    obtain ⟨hsettled, hgoal⟩ := h.resolve_left hnone
    refine ⟨task?_release_iff.mpr hsettled, ?_⟩
    rw [run_resumeTask_release, World.write_eq_self fun r hr => (completeCells_set_iff r).mpr (hsettled r hr)]
    rcases hgoal with hrefused | hbusy
    · rw [run_start_refused hrefused]
    · obtain ⟨hsame, hbusy'⟩ : (w.resumed host g).goals.goal? g = w.goals.goal? g ∧ (w.resumed host g).Busy g :=
        hbusy.resumed
      rw [run_start (Or.inr (Or.inr hbusy.goal)), reconcile_keeps_busy hbusy', hsame]

/-- A rerun changes its task exactly when it goes through. -/
theorem sameTaskAndGoal_rerun_iff :
    w.SameTaskAndGoal g t (Prog.run (World.exec host)
      (rerun g t "review" (some "policy hold approved")) w).2 ↔
      (Prog.run (World.exec host) (rerun g t "review" (some "policy hold approved")) w).1 ≠ .ok () := by
  have hends : Ends (World.exec host) (rerun g t "review" (some "policy hold approved"))
      (RerunEnds host g t w) w := ends_rerun "review" (some "policy hold approved")
  obtain ⟨herror, hok⟩ := hends
  cases hrun : (Prog.run (World.exec host) (rerun g t "review" (some "policy hold approved")) w).1 with
  | error e =>
    unfold World.SameTaskAndGoal
    rw [herror e hrun]
    simp
  | ok u =>
    constructor
    · intro hsame
      exact absurd hsame.1 (hok u hrun).1
    · intro hnot
      exact absurd rfl hnot

/-- A task that cannot be run again is not, and neither is one whose goal cannot be read. -/
theorem sameTaskAndGoal_rerun (h : w.goalStatus g = none ∨ w.NotRerunnable host g t) :
    w.SameTaskAndGoal g t (Prog.run (World.exec host)
      (rerun g t "review" (some "policy hold approved")) w).2 := by
  have hends : Ends (World.exec host) (rerun g t "review" (some "policy hold approved"))
      (RerunEnds host g t w) w := ends_rerun "review" (some "policy hold approved")
  refine sameTaskAndGoal_rerun_iff.mpr fun hrun => ?_
  obtain ⟨-, hrerun, hresolves, hread⟩ := hends.2 () hrun
  rcases h with hnone | hnot | hbad
  · exact hread hnone
  · exact hnot hrerun
  · exact not_resolves hbad hresolves

/-- A decision on an item about a planned task that finds nothing to change leaves the task and the goal as they
were. -/
theorem sameTaskAndGoal_of_idle {item : ReviewRow} (verdict : ReviewVerdict)
    (htarget : item.target = some (g, t)) (hidle : w.Idle host g t item verdict) :
    w.SameTaskAndGoal g t (ReviewedWorld.release c host item verdict w) := by
  unfold ReviewRow.target at htarget
  split_ifs at htarget with hplan
  have hplan : "plan:".toList.isPrefixOf item.taskId.toList = false := Bool.eq_false_iff.mpr hplan
  rcases hgoal : item.goalId with _ | goalText
  · simp [hgoal] at htarget
  rcases hplanned : item.plannedTaskId with _ | taskText
  · simp [hplanned] at htarget
  rw [hgoal, hplanned] at htarget
  rcases hg : Uuid.parse goalText with e | g'
  · simp [hg] at htarget
  rcases ht : Uuid.parse taskText with e | t'
  · simp [ht] at htarget
  obtain ⟨rfl, rfl⟩ : g' = g ∧ t' = t := by simpa [hg, ht] using htarget
  have hne : goalText ≠ "" := by
    rintro rfl
    cases hg
  have hid : Uuid.parse (reviewedId item.taskId (some ⟨item.plannedTaskId⟩)) = .ok t' := by
    have hne' : taskText ≠ "" := by
      rintro rfl
      cases ht
    simp [reviewedId, hplanned, hne', ht]
  have hresume : ∀ approved, (Prog.run (World.exec host) (c.resumeGoalFromReview item.taskId goalText
      approved (some ⟨item.plannedTaskId⟩)) w).2 = if w.goalStatus g' = none then w
        else (Prog.run (World.exec host) (c.resumeTask g' t' approved) w).2 := by
    intro approved
    unfold resumeGoalFromReview
    rw [hg]
    exact run_resumeGoal item.taskId approved _ hplan hid
  unfold World.Idle at hidle
  unfold ReviewedWorld.release ReviewVerdict.program
  rw [hgoal]
  simp only [if_neg hne]
  by_cases hreleases : verdict.releases = true
  · rw [if_pos hreleases] at hidle ⊢
    unfold releaseGoalTaskAfterReview
    by_cases hheld : (heldKey item.agentOutput).isSome = true
    · rw [if_pos hheld] at hidle ⊢
      rw [hg, hplanned, Option.map_some, ht]
      exact sameTaskAndGoal_rerun hidle
    · rw [if_neg hheld] at hidle ⊢
      rw [hresume]
      exact sameTaskAndGoal_release hidle
  · rw [if_neg hreleases] at hidle ⊢
    rw [hresume]
    exact sameTaskAndGoal_reject_iff.mpr hidle

end Decisions

/-! ## Runs -/

variable (c : DurableGoalCoordinator) (host : Host)

/-- A decision that is made in time, or finds nothing to change, respects what was reviewed. -/
theorem respects_of_timely (action : ReviewAction) (s : ReviewedWorld) (h : action.Timely host s) :
    action.Respects c host s := by
  cases action with
  | request r other => exact trivial
  | work call => exact trivial
  | enqueue item now => exact trivial
  | decide taskId verdict notes now =>
    intro item g t hitem htarget houtdated
    unfold ReviewedWorld.decide
    simp only [hitem]
    by_cases hpending : item.status = .pending
    · rw [if_pos hpending]
      have hidle := (h item g t hitem htarget hpending).resolve_left (not_not_intro houtdated)
      exact sameTaskAndGoal_of_idle verdict htarget hidle
    · rw [if_neg hpending]
      exact ⟨rfl, rfl⟩

/-- A result that is escalated. -/
def doubtfulResult : PyDict := [("status", .str "escalated"), ("confidence", .float (.finite (1 / 4)))]

/-- The review that is asked for an attempt at the first task of the chain. -/
def reviewOf (attempt : Uuid) : ReviewItem where
  taskId := Uuid.text attempt
  taskType := .str "scaffold"
  confidence := .float (.finite (1 / 4))
  payload := []
  skillId := "rigel.skill.scaffold"
  agentOutput := some [("artifact_versions", .list [])]
  goalId := some (Uuid.text 1)
  plannedTaskId := some (Uuid.text 2)
  attemptId := some (Uuid.text attempt)

/-- The review of an attempt is approved. -/
def approvalOf (attempt : Uuid) : ReviewAction :=
  .decide (Uuid.text attempt) .approve none (Datetime.ofMicros 60000003)

/-- The review of an attempt is rejected. -/
def rejectionOf (attempt : Uuid) : ReviewAction :=
  .decide (Uuid.text attempt) .reject none (Datetime.ofMicros 60000003)

/-- The first task of the chain is attempted twice. The orchestrator asks for a review of the first attempt, whose
lease then expires, and the task is escalated by the second one. -/
def reviewedTwice : List ReviewAction :=
  [.request (.start 1 "api") rfl,
    .work (.claim 200 201 "worker" (.finite 1) (Datetime.ofMicros 1200)),
    .enqueue (reviewOf 200) (Datetime.ofMicros 1201),
    .work (.reclaimExpired (Datetime.ofMicros 2000000)),
    .work (.claim 202 203 "worker" (.finite 30) (Datetime.ofMicros 60000000)),
    .work (.complete 101 203 "output" (some doubtfulResult) (Datetime.ofMicros 60000001)),
    .enqueue (reviewOf 202) (Datetime.ofMicros 60000002),
    .request (.reconcile 1) rfl]

/-- One action with the default configuration. -/
def reviewStep : ReviewAction → ReviewedWorld → ReviewedWorld :=
  ReviewedWorld.step Service.defaultLimits Service.plainHost

/-- The stores after the actions, from those of the chain. -/
def afterActions (actions : List ReviewAction) : ReviewedWorld :=
  Machine.run reviewStep actions ⟨chainWorld, ReviewQueue.empty⟩

/-- What is stored before a decision. -/
theorem reviewedTwice_stores : (fun s : ReviewedWorld =>
    ((s.reviews.getByTaskId (Uuid.text 202)).map fun item => (item.target, item.attemptId)) =
        some (some (1, 2), some (Uuid.text 202)) ∧
      ((s.world.goals.task? 2).map fun r => (r.goalId, r.status, s.world.attemptOf r)) =
        some (1, .escalated, some (Uuid.text 202)) ∧
      s.world.goalStatus 1 = some .paused) (afterActions reviewedTwice) := by
  decide +kernel

/-- What is stored after the rejection of the second attempt. -/
theorem rejected_stores : (fun s : ReviewedWorld =>
    ((s.reviews.getByTaskId (Uuid.text 200)).map ReviewRow.target) = some (some (1, 2)) ∧
      ((s.world.goals.task? 2).map fun r => (r.status, r.error)) =
        some (.failed, some "rejected by reviewer") ∧
      s.world.goalStatus 1 = some .failed) (reviewStep (rejectionOf 202) (afterActions reviewedTwice)) := by
  decide +kernel

/-- A decision on the second attempt is in time. -/
theorem decision_timely (verdict : ReviewVerdict) (notes : Option String) (now : Datetime) :
    (ReviewAction.decide (Uuid.text 202) verdict notes now).Timely Service.plainHost
      (afterActions reviewedTwice) := by
  intro item g t hitem htarget hpending
  obtain ⟨hreview, htask, hgoal⟩ := reviewedTwice_stores
  rw [hitem, Option.map_some] at hreview
  obtain ⟨htarget', hattempt⟩ := Prod.mk.inj (Option.some.inj hreview)
  obtain ⟨rfl, rfl⟩ : g = 1 ∧ t = 2 := by simpa [htarget] using htarget'
  obtain ⟨r, hr, hrow⟩ := Option.map_eq_some_iff.mp htask
  obtain ⟨hrgoal, hrow⟩ := Prod.mk.inj hrow
  obtain ⟨hrstatus, hrattempt⟩ := Prod.mk.inj hrow
  left
  rintro (hnot | ⟨-, hnot⟩)
  · exact hnot ⟨r, hr, hrgoal, hrstatus, hrattempt.trans hattempt.symm⟩
  · exact hnot (Or.inr (Or.inl hgoal))

/-- The rejection of the first attempt is too late, and finds the task rejected and the goal failed. -/
theorem lateRejection_timely :
    (rejectionOf 200).Timely Service.plainHost (reviewStep (rejectionOf 202) (afterActions reviewedTwice)) := by
  intro item g t hitem htarget hpending
  obtain ⟨hreview, htask, hgoal⟩ := rejected_stores
  rw [hitem, Option.map_some] at hreview
  obtain ⟨rfl, rfl⟩ : g = 1 ∧ t = 2 := by simpa [htarget] using hreview
  right
  unfold World.Idle
  rw [if_neg (show ¬ ReviewVerdict.reject.releases = true from Bool.false_ne_true)]
  refine Or.inr ⟨fun r hr => ?_, hgoal⟩
  rw [hr, Option.map_some] at htask
  exact Prod.mk.inj (Option.some.inj htask)

/-- The first task of the chain is escalated and its review asked for, then the goal is cancelled. -/
def cancelledUnderReview : List ReviewAction :=
  [.request (.start 1 "api") rfl,
    .work (.claim 200 201 "worker" (.finite 30) (Datetime.ofMicros 1200)),
    .work (.complete 101 201 "output" (some doubtfulResult) (Datetime.ofMicros 1201)),
    .request (.reconcile 1) rfl,
    .enqueue (reviewOf 200) (Datetime.ofMicros 1202),
    .request (.cancel 1 "api" none) rfl]

end Galaxz
