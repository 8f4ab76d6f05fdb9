import Galaxz.Goals.Guarantees
import Galaxz.Goals.Proofs.ConfinementProofs

/-!
# Proofs: every call of a request is a move

Along each method: what the snapshots it took still say about the table when it writes. A loop writes
only to the tasks it has passed, and no two tasks share an id, so a task ahead reads as it did.
-/

namespace Galaxz

open DurableGoalCoordinator Prog GoalStore

/-! ## What a snapshot still shows -/

/-- The row of the task belongs to the goal and still reads as the snapshot has it. -/
def Shows (host : Host) (goalId : Uuid) (s : GoalDb) (t : PlannedTask) : Prop :=
  ∃ r, s.task? t.taskId = some r ∧ r.goalId = goalId ∧ ReadsAs host r t

variable {host : Host} {goalId : Uuid} {w w' : World}

theorem getTasks_shows {s : GoalDb} {tasks : List PlannedTask}
    (h : getTasks host s goalId = .ok tasks) : ∀ t ∈ tasks, Shows host goalId s t :=
  fun _ ht => getTasks_row h ht

/-- Only an update of the task itself changes what it shows. -/
theorem Shows.of_task? {s s' : GoalDb} {t : PlannedTask} (h : Shows host goalId s t)
    (hsame : s'.task? t.taskId = s.task? t.taskId) : Shows host goalId s' t := by
  obtain ⟨r, hr, hg, hread⟩ := h
  exact ⟨r, hsame.trans hr, hg, hread⟩

/-- The row of a task that is shown. -/
theorem Shows.row {s : GoalDb} {t : PlannedTask} (h : Shows host goalId s t) :
    ∃ r, s.task? r.taskId = some r ∧ r.taskId = t.taskId ∧ r.goalId = goalId ∧
      r.status = t.status ∧ r.dependsOn = t.dependsOn := by
  obtain ⟨r, hr, hg, hread⟩ := h
  have hid := hread.taskId
  exact ⟨r, by rw [← hid]; exact hr, hid.symm, hg, hread.status.symm, hread.dependsOn.symm⟩

theorem Shows.taskIs {s : GoalDb} {t : PlannedTask} (h : Shows host goalId s t) :
    s.TaskIs goalId t.taskId t.status := by
  obtain ⟨r, hr, hg, hread⟩ := h
  exact ⟨r, hr, hg, hread.status.symm⟩

namespace World

theorem exec_read (w : World) {call : StoreCall} (hread : call.IsRead) :
    (exec host call w).2 = w := by
  cases call with
  | setGoalStatus g status => cases hread
  | updateTask t u => cases hread
  | recordEvent g actor action reason affected => cases hread
  | enqueue t task key => cases hread
  | cancelJob j => cases hread
  | _ => rfl

/-- Every call leaves the threshold of a goal as it is. -/
theorem Threshold.exec {threshold : PyFloat} (h : w.Threshold goalId threshold) (call : StoreCall) :
    (exec host call w).2.Threshold goalId threshold := by
  obtain ⟨g, hg, ht⟩ := h
  rcases exec_goal? host call w goalId with hsame | ⟨status, -, hset⟩
  · exact ⟨g, hsame.trans hg, ht⟩
  · exact ⟨{ g with status }, by rw [hset, hg]; rfl, ht⟩

end World

/-- The rule of a read and what follows it. -/
theorem meets_read {C : StoreCall → World → Prop} {call : StoreCall} {β : Type}
    {f : call.Answer → Coord β} {Q : β → World → Prop} (hC : C call w) (hread : call.IsRead)
    (hf : ∀ a, (World.exec host call w).1 = .ok a → Meets (World.exec host) C (f a) Q w) :
    Meets (World.exec host) C (Prog.call call .pure >>= f) Q w := by
  refine Meets.call hC fun a w' hexec => ?_
  have hw : (World.exec host call w).2 = w' := by rw [hexec]
  rw [← hw, World.exec_read w hread]
  exact hf a (by rw [hexec])

/-- The rule of a read and what follows it, to the end of the program. -/
theorem ends_read (call : StoreCall) {β : Type} {f : call.Answer → Coord β}
    {T : Except PyError β → World → Prop} (hread : call.IsRead)
    (hf : ∀ a, World.exec host call w = (.ok a, w) → Ends (World.exec host) (f a) T w) (he : ∀ e, T (.error e) w) :
    Ends (World.exec host) (Prog.call call .pure >>= f) T w := by
  have hsame : (World.exec host call w).2 = w := World.exec_read w hread
  refine Ends.call (fun a w' ha => ?_) fun e w' hw' => ?_
  · have hw : w' = w := by rw [← hsame, ha]
    rw [hw] at ha ⊢
    exact hf a ha
  · have hw : w' = w := by rw [← hsame, hw']
    rw [hw]
    exact he e

/-- The other tasks are as they were. -/
def OthersKept (taskId : Uuid) (w w' : World) : Prop :=
  ∀ x, x ≠ taskId → w'.goals.task? x = w.goals.task? x

theorem OthersKept.refl (taskId : Uuid) (w : World) : OthersKept taskId w w := fun _ _ => rfl

theorem othersKept_updateTask {taskId : Uuid} {u : TaskUpdate} {a : Unit}
    (h : World.exec host (.updateTask taskId u) w = (.ok a, w')) : OthersKept taskId w w' := by
  obtain ⟨cells, -, rfl⟩ := World.exec_updateTask host h
  intro x hx
  show (w.goals.updateTaskRow taskId cells.set cells.set_taskId).task? x = _
  rw [GoalDb.task?_updateTaskRow, if_neg hx]

/-- The task has the status that an update stored. -/
theorem taskIs_of_updateTask {taskId : Uuid} {u : TaskUpdate} {a : Unit}
    (h : World.exec host (.updateTask taskId u) w = (.ok a, w')) {r : PlannedTaskRow}
    (hr : w.goals.task? taskId = some r) (hg : r.goalId = goalId) :
    w'.goals.TaskIs goalId taskId u.status := by
  obtain ⟨cells, hcells, rfl⟩ := World.exec_updateTask host h
  refine ⟨cells.set r, ?_, hg, World.cells_status host hcells⟩
  show (w.goals.updateTaskRow taskId cells.set cells.set_taskId).task? taskId = _
  rw [GoalDb.task?_updateTaskRow, if_pos rfl, hr]
  rfl

/-! ## `reconcile`: running tasks -/

section Settle

variable (c : DurableGoalCoordinator) {goal : GoalContract} {r : PlannedTaskRow}

theorem meets_settleCompleted {job : Job} (hrow : w.goals.task? r.taskId = some r)
    (hgoal : r.goalId = goalId) (hstatus : r.status = .running)
    (hjob : w.linkedJob goalId r = .ok (some job)) (hdone : job.status = .completed)
    (hthr : w.Threshold goalId goal.confidenceThreshold) :
    Meets (World.exec host) (ReconcileMove c goalId)
      (settleCompleted goal goalId r.taskId (w.resultOf job))
      (fun stop w' => stop = false → OthersKept r.taskId w w') w := by
  unfold settleCompleted
  split
  · trivial
  · next haccept =>
    refine Meets.call (.complete hrow hgoal hstatus hjob hdone hthr haccept) fun a w' hexec => ?_
    exact fun _ => othersKept_updateTask hexec
  · next haccept =>
    split_ifs
    · refine Meets.call (.fail hrow hgoal hstatus hjob hdone hthr haccept) fun a w' hexec => ?_
      exact fun _ => othersKept_updateTask hexec
    · refine Meets.call (.escalate hrow hgoal hstatus hjob hdone hthr haccept) fun a w' hexec => ?_
      refine Meets.call (.pause (taskIs_of_updateTask hexec hrow hgoal)) fun _ _ _ => ?_
      intro hstop
      cases hstop

theorem meets_settleJob {job : Option Job} (hrow : w.goals.task? r.taskId = some r)
    (hgoal : r.goalId = goalId) (hstatus : r.status = .running)
    (hjob : w.linkedJob goalId r = .ok job) (hthr : w.Threshold goalId goal.confidenceThreshold) :
    Meets (World.exec host) (ReconcileMove c goalId) (settleJob goal goalId r.taskId job)
      (fun stop w' => stop = false → OthersKept r.taskId w w') w := by
  rcases job with _ | job
  · refine Meets.call (.lost hrow hgoal hstatus hjob) fun a w' hexec => ?_
    exact fun _ => othersKept_updateTask hexec
  · have hfail : job.status = .failed ∨ job.status = .cancelled →
        Meets (World.exec host) (ReconcileMove c goalId)
          (Coord.updateTask r.taskId { status := .failed, error := some (.str job.status.value) } >>=
            fun _ => return false)
          (fun stop w' => stop = false → OthersKept r.taskId w w') w := by
      intro hdone
      refine Meets.call (.jobFailed hrow hgoal hstatus hjob hdone) fun a w' hexec => ?_
      exact fun _ => othersKept_updateTask hexec
    unfold settleJob
    simp only
    split
    · next hdone =>
      refine meets_read (.read trivial) trivial fun result hanswer => ?_
      have hresult : result.getD [] = w.resultOf job := by
        cases hanswer
        rfl
      rw [hresult]
      exact meets_settleCompleted c hrow hgoal hstatus hjob hdone hthr
    · next hdone => exact hfail (Or.inl hdone)
    · next hdone => exact hfail (Or.inr hdone)
    · exact fun _ => OthersKept.refl _ _
    · exact fun _ => OthersKept.refl _ _

theorem meets_settleTask (hrow : w.goals.task? r.taskId = some r) (hgoal : r.goalId = goalId)
    (hstatus : r.status = .running) (hthr : w.Threshold goalId goal.confidenceThreshold) :
    Meets (World.exec host) (ReconcileMove c goalId) (settleTask goal goalId r.taskId)
      (fun stop w' => stop = false → OthersKept r.taskId w w') w := by
  refine meets_read (.read trivial) trivial fun execution hanswer => ?_
  have hexecution : execution.jobId = r.jobId := by
    have h : taskExecution w.goals r.taskId = .ok execution := hanswer
    rw [taskExecution, hrow] at h
    cases h
    rfl
  unfold findJob
  rw [hexecution]
  split
  · next jobId hlink =>
    refine meets_read (.read trivial) trivial fun job hanswer => ?_
    have hjob : w.linkedJob goalId r = .ok job := by
      unfold World.linkedJob
      rw [hlink]
      exact hanswer
    exact meets_settleJob c hrow hgoal hstatus hjob hthr
  · next hlink =>
    refine meets_read (.read trivial) trivial fun job hanswer => ?_
    have hjob : w.linkedJob goalId r = .ok job := by
      unfold World.linkedJob
      rw [hlink]
      exact hanswer
    exact meets_settleJob c hrow hgoal hstatus hjob hthr

/-- A task ahead of the loop reads as it did. -/
theorem shows_ahead {task : PlannedTask} {tasks : List PlannedTask}
    (hnodup : ((task :: tasks).map (·.taskId)).Nodup)
    (hshow : ∀ t ∈ task :: tasks, Shows host goalId w.goals t)
    (hkept : OthersKept task.taskId w w') : ∀ t ∈ tasks, Shows host goalId w'.goals t := by
  intro t ht
  rw [List.map_cons, List.nodup_cons] at hnodup
  have hne : t.taskId ≠ task.taskId := fun e => hnodup.1 (e ▸ List.mem_map_of_mem ht)
  exact (hshow t (List.mem_cons_of_mem _ ht)).of_task? (hkept _ hne)

theorem meets_settle {tasks : List PlannedTask} (hnodup : (tasks.map (·.taskId)).Nodup)
    (hshow : ∀ t ∈ tasks, Shows host goalId w.goals t)
    (hthr : w.Threshold goalId goal.confidenceThreshold) :
    Meets (World.exec host) (ReconcileMove c goalId) (settle goal goalId tasks) (fun _ _ => True)
      w := by
  induction tasks generalizing w with
  | nil => trivial
  | cons task tasks ih =>
    have hrest := List.Nodup.of_cons hnodup
    rw [settle]
    split_ifs with hrun
    · obtain ⟨r, hrow, hid, hgoal, hstatus, -⟩ := (hshow task List.mem_cons_self).row
      have htask : Meets (World.exec host) (ReconcileMove c goalId) (settleTask goal goalId r.taskId)
          (fun stop w' => stop = false → OthersKept r.taskId w w') w :=
        meets_settleTask c hrow hgoal (hstatus.trans hrun) hthr
      rw [hid] at htask
      have hkeep := htask.keep (I := fun s => s.Threshold goalId goal.confidenceThreshold)
        (fun op s _ hs => hs.exec op) hthr
      refine Meets.bind (hkeep.weaken fun _ _ h => h.1) ?_
      rintro stop w' ⟨hkept, hthr'⟩
      split_ifs with hstop
      · trivial
      · have hothers := hkept (Bool.eq_false_iff.mpr hstop)
        exact ih hrest (shows_ahead hnodup hshow hothers) hthr'
    · exact ih hrest (fun t ht => hshow t (List.mem_cons_of_mem _ ht)) hthr

end Settle

/-! ## `reconcile`: blocked tasks -/

section Block

variable (c : DurableGoalCoordinator)

/-- What the blocking loop keeps: a task that it has not blocked reads as before the loop, and every
id of `failed_ids` is a broken task. -/
structure BlockInv (host : Host) (goalId : Uuid) (before : List PlannedTask) (failed : List Uuid)
    (w : World) : Prop where
  shows : ∀ t ∈ before, t.taskId ∉ failed ∨ t.status ≠ .pending → Shows host goalId w.goals t
  broken : ∀ id ∈ failed, w.goals.Broken goalId id

theorem GoalDb.TaskIs.of_task? {s s' : GoalDb} {taskId : Uuid} {status : PlannedTaskStatus}
    (h : s.TaskIs goalId taskId status) (hsame : s'.task? taskId = s.task? taskId) :
    s'.TaskIs goalId taskId status := by
  obtain ⟨r, hr, hrest⟩ := h
  exact ⟨r, hsame.trans hr, hrest⟩

theorem GoalDb.Broken.of_task? {s s' : GoalDb} {taskId : Uuid} (h : s.Broken goalId taskId)
    (hsame : s'.task? taskId = s.task? taskId) : s'.Broken goalId taskId := by
  rcases h with h | h | h
  · exact Or.inl (h.of_task? hsame)
  · exact Or.inr (Or.inl (h.of_task? hsame))
  · exact Or.inr (Or.inr (h.of_task? hsame))

/-- The loop starts with the broken tasks of the snapshot. -/
theorem blockInv_start {before : List PlannedTask}
    (hshow : ∀ t ∈ before, Shows host goalId w.goals t) :
    BlockInv host goalId before (failedIds before) w := by
  refine ⟨fun t ht _ => hshow t ht, fun id hid => ?_⟩
  obtain ⟨t, ht, rfl⟩ := List.mem_map.mp hid
  obtain ⟨hmem, hstatus⟩ := List.mem_filter.mp ht
  have his := (hshow t hmem).taskIs
  simp only [decide_eq_true_eq] at hstatus
  rcases hstatus with h | h | h
  · exact Or.inl (h ▸ his)
  · exact Or.inr (Or.inl (h ▸ his))
  · exact Or.inr (Or.inr (h ▸ his))

/-- Blocking one task keeps the invariant, with the task among the broken ones. -/
theorem BlockInv.block {before : List PlannedTask} (hnodup : (before.map (·.taskId)).Nodup)
    {failed : List Uuid} (h : BlockInv host goalId before failed w) {task : PlannedTask}
    (hmem : task ∈ before) (hpending : task.status = .pending) (hnew : task.taskId ∉ failed)
    (hkept : OthersKept task.taskId w w')
    (hblocked : w'.goals.TaskIs goalId task.taskId .blocked) :
    BlockInv host goalId before (failed ++ [task.taskId]) w' := by
  constructor
  · intro t ht hcase
    have hne : t.taskId ≠ task.taskId := by
      intro hid
      have heq : t = task := Table.eq_of_key (·.taskId) hnodup ht hmem hid
      rcases hcase with hcase | hcase
      · exact hcase (List.mem_append_right _ (by rw [hid]; exact List.mem_singleton_self _))
      · exact hcase (heq ▸ hpending)
    have hold : t.taskId ∉ failed ∨ t.status ≠ .pending :=
      hcase.imp (fun hn hf => hn (List.mem_append_left _ hf)) id
    exact (h.shows t ht hold).of_task? (hkept _ hne)
  · intro id hid
    rcases List.mem_append.mp hid with hid | hid
    · have hne : id ≠ task.taskId := fun e => hnew (e ▸ hid)
      exact (h.broken id hid).of_task? (hkept _ hne)
    · rw [List.mem_singleton.mp hid]
      exact Or.inr (Or.inl hblocked)

theorem meets_blockPass {before tasks : List PlannedTask} (hnodup : (before.map (·.taskId)).Nodup)
    (hsub : ∀ t ∈ tasks, t ∈ before) {failed : List Uuid} (changed : Bool)
    (h : BlockInv host goalId before failed w) :
    Meets (World.exec host) (ReconcileMove c goalId) (blockPass tasks failed changed)
      (fun r w' => BlockInv host goalId before r.1 w') w := by
  induction tasks generalizing w failed changed with
  | nil => exact h
  | cons task tasks ih =>
    have hrest := fun t ht => hsub t (List.mem_cons_of_mem _ ht)
    have hmem := hsub task List.mem_cons_self
    rw [blockPass]
    split_ifs with hblocks
    · simp only [blocks, Bool.and_eq_true, decide_eq_true_eq, List.any_eq_true] at hblocks
      obtain ⟨⟨hpending, hnew⟩, dep, hdep, hfailed⟩ := hblocks
      obtain ⟨r, hrow, hid, hgoal, hstatus, hdeps⟩ := (h.shows task hmem (Or.inl hnew)).row
      have hmove : ReconcileMove c goalId (.updateTask task.taskId blockUpdate) w := by
        rw [← hid]
        exact .block hrow hgoal (hstatus.trans hpending) (hdeps ▸ hdep) (h.broken dep hfailed)
      refine Meets.call hmove fun a w' hexec => ih hrest true ?_
      rw [hid] at hrow
      exact h.block hnodup hmem hpending hnew (othersKept_updateTask hexec)
        (taskIs_of_updateTask hexec hrow hgoal)
    · exact ih hrest changed h

theorem meets_blockLoop {before : List PlannedTask} (hnodup : (before.map (·.taskId)).Nodup)
    (fuel : ℕ) {failed : List Uuid} (h : BlockInv host goalId before failed w) :
    Meets (World.exec host) (ReconcileMove c goalId) (blockLoop before fuel failed)
      (fun _ w' => ∃ failed', BlockInv host goalId before failed' w') w := by
  induction fuel generalizing w failed with
  | zero => exact ⟨failed, h⟩
  | succ fuel ih =>
    rw [blockLoop]
    refine Meets.bind (meets_blockPass c hnodup (fun _ ht => ht) false h) ?_
    rintro ⟨failed', changed⟩ w' h'
    dsimp only
    split_ifs
    · exact ih h'
    · exact ⟨failed', h'⟩

end Block

/-! ## `reconcile`: ready tasks -/

section Dispatch

variable (c : DurableGoalCoordinator) {goal : GoalContract}

theorem GoalDb.runningCount_eq (s : GoalDb) :
    s.runningCount goalId = s.tasks.countP fun r => r.goalId = goalId ∧ r.status = .running :=
  (List.countP_eq_length_filter ..).symm

/-- An update to anything but running does not raise the number of running tasks. -/
theorem runningCount_updateTask_le {taskId : Uuid} {u : TaskUpdate} {a : Unit}
    (h : World.exec host (.updateTask taskId u) w = (.ok a, w')) (hu : u.status ≠ .running) :
    w'.goals.runningCount goalId ≤ w.goals.runningCount goalId := by
  obtain ⟨cells, hcells, rfl⟩ := World.exec_updateTask host h
  rw [GoalDb.runningCount_eq, GoalDb.runningCount_eq]
  refine Table.countP_updateWhere_le fun r _ _ hrun => ?_
  simp only [decide_eq_true_eq] at hrun
  exact absurd ((World.cells_status host hcells).symm.trans hrun.2) hu

/-- An update raises the number of running tasks by one at most. -/
theorem runningCount_updateTask_le_succ {taskId : Uuid} {u : TaskUpdate} {a : Unit}
    (h : World.exec host (.updateTask taskId u) w = (.ok a, w')) :
    w'.goals.runningCount goalId ≤ w.goals.runningCount goalId + 1 := by
  obtain ⟨cells, hcells, rfl⟩ := World.exec_updateTask host h
  rw [GoalDb.runningCount_eq, GoalDb.runningCount_eq]
  exact Table.countP_updateWhere_le_succ _ w.goals.taskIds_nodup taskId

/-- The running tasks of a snapshot are the running rows. -/
theorem getTasks_runningCount {s : GoalDb} {tasks : List PlannedTask}
    (h : getTasks host s goalId = .ok tasks) :
    (tasks.filter (·.status = .running)).length = s.runningCount goalId := by
  have hmap := map_of_mapM_ok h (·.status) (·.status) fun _ _ hread => ReadsAs.status hread
  have hperm : (taskRows s goalId).Perm (s.tasks.filter (·.goalId = goalId)) :=
    List.perm_insertionSort _ _
  calc (tasks.filter (·.status = .running)).length
      = (tasks.map (·.status)).countP (· = .running) := by
        rw [← List.countP_eq_length_filter, List.countP_map]; rfl
    _ = ((taskRows s goalId).map (·.status)).countP (· = .running) := by rw [hmap]
    _ = ((s.tasks.filter (·.goalId = goalId)).map (·.status)).countP (· = .running) :=
        (hperm.map _).countP_eq _
    _ = s.runningCount goalId := by
        rw [GoalDb.runningCount_eq, List.countP_map, List.countP_filter]
        refine List.countP_congr fun r _ => ?_
        simp [and_comm]

/-- The dependencies that the scheduling loop accepts are complete in its snapshot. -/
theorem dependenciesComplete_ok {before : List PlannedTask} {deps : List Uuid}
    (h : dependenciesComplete before deps = .ok true) :
    ∀ dep ∈ deps, ∃ d ∈ before, d.taskId = dep ∧ d.status = .complete := by
  induction deps with
  | nil => intro dep hdep; cases hdep
  | cons dep deps ih =>
    rw [dependenciesComplete] at h
    split at h
    · cases h
    · next d hd =>
      split_ifs at h with hstatus
      · intro x hx
        rcases List.mem_cons.mp hx with rfl | hx
        · exact ⟨d, (mem_of_byId hd).1, (mem_of_byId hd).2, hstatus⟩
        · exact ih h x hx
      · cases h

/-- What the scheduling loop keeps. -/
structure DispatchInv (c : DurableGoalCoordinator) (host : Host) (goalId : Uuid)
    (before tasks : List PlannedTask) (slots : ℤ) (w : World) : Prop where
  shows : ∀ t ∈ tasks, Shows host goalId w.goals t
  done : ∀ t ∈ before, t.status = .complete → w.goals.TaskIs goalId t.taskId .complete
  slots_le : slots ≤ c.perGoalLimit - w.goals.runningCount goalId

variable {c}

theorem DispatchInv.skip {before tasks : List PlannedTask} {task : PlannedTask} {slots : ℤ}
    (h : DispatchInv c host goalId before (task :: tasks) slots w) :
    DispatchInv c host goalId before tasks slots w :=
  ⟨fun t ht => h.shows t (List.mem_cons_of_mem _ ht), h.done, h.slots_le⟩

/-- Updating the pending task in front keeps the invariant for the rest. -/
theorem DispatchInv.update {before tasks : List PlannedTask} {task : PlannedTask} {slots slots' : ℤ}
    (hnodup : ((task :: tasks).map (·.taskId)).Nodup)
    (h : DispatchInv c host goalId before (task :: tasks) slots w) (hpending : task.status = .pending)
    (hkept : OthersKept task.taskId w w')
    (hslots : slots' ≤ c.perGoalLimit - w'.goals.runningCount goalId) :
    DispatchInv c host goalId before tasks slots' w' := by
  refine ⟨shows_ahead hnodup h.shows hkept, fun t ht hdone => ?_, hslots⟩
  have his := h.done t ht hdone
  have hne : t.taskId ≠ task.taskId := by
    intro hid
    obtain ⟨r, hr, -, hcomplete⟩ := his
    obtain ⟨r', hr', -, hpending'⟩ := (h.shows task List.mem_cons_self).taskIs
    rw [hid, hr'] at hr
    cases hr
    rw [hcomplete, hpending] at hpending'
    cases hpending'
  exact his.of_task? (hkept _ hne)

variable (c)

theorem meets_dispatch {before tasks : List PlannedTask} (hnodup : (tasks.map (·.taskId)).Nodup)
    (slots : ℤ) (h : DispatchInv c host goalId before tasks slots w) :
    Meets (World.exec host) (ReconcileMove c goalId) (dispatch goal goalId before slots tasks)
      (fun _ _ => True) w := by
  induction tasks generalizing w slots with
  | nil => trivial
  | cons task tasks ih =>
    have hrest := List.Nodup.of_cons hnodup
    obtain ⟨r, hrow, hid, hgoal, hstatus, hdeps⟩ := (h.shows task List.mem_cons_self).row
    rw [dispatch]
    split_ifs with hslots hpending
    · trivial
    · exact ih hrest slots h.skip
    · rw [not_not] at hpending
      have hslot : (w.goals.runningCount goalId : ℤ) < c.perGoalLimit := by
        have := h.slots_le
        omega
      split
      · trivial
      · exact ih hrest slots h.skip
      · next hcomplete =>
        have hready : w.goals.DependenciesComplete goalId r := by
          intro dep hdep
          rw [hdeps] at hdep
          obtain ⟨d, hd, rfl, hdone⟩ := dependenciesComplete_ok hcomplete dep hdep
          exact h.done d hd hdone
        split
        · next msg _ =>
          have hmove : ReconcileMove c goalId (.updateTask task.taskId (unresolvedUpdate msg)) w := by
            rw [← hid]
            exact .unresolved hrow hgoal (hstatus.trans hpending) hready
          refine Meets.call hmove fun a w' hexec => ih hrest slots ?_
          refine h.update hnodup hpending (othersKept_updateTask hexec) ?_
          have hle : w'.goals.runningCount goalId ≤ w.goals.runningCount goalId :=
            runningCount_updateTask_le hexec (by simp [unresolvedUpdate])
          have := h.slots_le
          omega
        · trivial
        · next payload _ =>
          split
          · trivial
          · next contract hcontract =>
            have hmove : ReconcileMove c goalId
                (.enqueue contract.taskId contract (key goalId task.taskId)) w := by
              rw [taskContract_taskId hcontract, ← hid]
              exact .enqueue hrow hgoal (hstatus.trans hpending) hready hslot
            refine Meets.call hmove fun job w₁ hexec₁ => ?_
            -- the job store changed, the goal store did not
            have hgoals : w₁.goals = w.goals := by
              rw [← (Prod.mk.inj hexec₁).2]
              rfl
            have hrun : ReconcileMove c goalId (.updateTask task.taskId (runUpdate job payload)) w₁ := by
              rw [← hid]
              exact .run (hgoals ▸ hrow) hgoal (hstatus.trans hpending) (hgoals ▸ hready)
                (hgoals ▸ hslot)
            refine Meets.call hrun fun a w₂ hexec₂ => ih hrest (slots - 1) ?_
            have hkept : OthersKept task.taskId w w₂ := by
              have hkept₁ : OthersKept task.taskId w₁ w₂ := othersKept_updateTask hexec₂
              intro x hx
              rw [hkept₁ x hx, hgoals]
            refine h.update hnodup hpending hkept ?_
            have hle : w₂.goals.runningCount goalId ≤ w₁.goals.runningCount goalId + 1 :=
              runningCount_updateTask_le_succ hexec₂
            rw [hgoals] at hle
            have := h.slots_le
            omega

theorem meets_finish : Meets (World.exec host) (ReconcileMove c goalId) (finish goalId)
    (fun _ _ => True) w := by
  refine meets_read (.read trivial) trivial fun tasks hanswer => ?_
  split_ifs with hall hnone
  · refine Meets.call (.finish fun r hr hg => ?_) fun _ _ _ => ⟨.finished, fun _ _ _ => trivial⟩
    obtain ⟨t, ht, hread⟩ := getTasks_mem hanswer hr hg
    rw [← hread.status]
    simpa using List.all_eq_true.mp hall t ht
  · refine ⟨.giveUp fun r hr hg => ?_, fun _ _ _ => trivial⟩
    obtain ⟨t, ht, hread⟩ := getTasks_mem hanswer hr hg
    rw [← hread.status]
    simpa using List.all_eq_true.mp hnone t ht
  · trivial

theorem meets_schedule : Meets (World.exec host) (ReconcileMove c goalId) (c.schedule goal goalId)
    (fun _ _ => True) w := by
  refine meets_read (.read trivial) trivial fun before hbefore => ?_
  have hnodup := getTasks_nodup hbefore
  refine Meets.bind (meets_blockLoop c hnodup _ (blockInv_start (getTasks_shows hbefore))) ?_
  rintro - w₁ ⟨failed, hinv⟩
  refine meets_read (.read trivial) trivial fun tasks htasks => ?_
  refine meets_read (.read trivial) trivial fun jobs _ => ?_
  refine Meets.bind (Q := fun _ _ => True) (meets_dispatch c (getTasks_nodup htasks) _ ?_)
    fun _ _ _ => meets_finish c
  refine ⟨getTasks_shows htasks, fun t ht hdone => ?_, ?_⟩
  · have hne : t.status ≠ .pending := by
      rw [hdone]
      simp
    exact hdone ▸ (hinv.shows t ht (Or.inr hne)).taskIs
  · rw [← getTasks_runningCount htasks]
    exact min_le_left _ _

end Dispatch

/-! ## Requests -/

section Requests

variable (c : DurableGoalCoordinator)

theorem getGoal_row {s : GoalDb} {goal : GoalContract} (h : getGoal s goalId = .ok (some goal)) :
    ∃ g, s.goal? goalId = some g ∧ goal.status = g.status ∧
      goal.confidenceThreshold = g.confidenceThreshold := by
  unfold getGoal at h
  split at h
  · cases h
  · next row hrow =>
    obtain ⟨contract, hcontract, h⟩ := (except_bind_ok_iff _ _ _).mp h
    cases h
    exact ⟨row, hrow, GoalContract.validate_status hcontract,
      GoalContract.validate_threshold hcontract⟩

theorem meets_reconcile : Meets (World.exec host) (ReconcileMove c goalId) (c.reconcile goalId)
    (fun _ _ => True) w := by
  refine meets_read (.read trivial) trivial fun goal hgoal => ?_
  split
  · trivial
  · next contract =>
    split_ifs
    · trivial
    · obtain ⟨g, hg, -, hthr⟩ := getGoal_row hgoal
      refine meets_read (.read trivial) trivial fun tasks htasks => ?_
      refine Meets.bind (meets_settle c (getTasks_nodup htasks) (getTasks_shows htasks)
        ⟨g, hg, hthr.symm⟩) fun stop w' _ => ?_
      split_ifs
      · trivial
      · exact meets_schedule c

theorem meets_reconcileEach {start : World} (goals : List GoalContract) :
    Meets (World.exec host) (Move c host start .reconcileAll) (c.reconcileEach goals) (fun _ _ => True)
      w := by
  induction goals generalizing w with
  | nil => trivial
  | cons goal goals ih =>
    rw [reconcileEach]
    split_ifs
    · exact Meets.bind ((meets_reconcile c).weaken fun _ _ h => .reconcileAll h) fun _ _ _ => ih
    · exact ih

theorem meets_start (actor : String) :
    Meets (World.exec host) (Move c host w (.start goalId actor)) (c.start goalId actor) (fun _ _ => True)
      w := by
  refine meets_read (.startReconcile (.read trivial)) trivial fun goal hgoal => ?_
  split
  · trivial
  · next contract =>
    obtain ⟨g, hg, hstatus, -⟩ := getGoal_row hgoal
    split_ifs with hready
    · rw [hstatus] at hready
      refine Meets.call (.start hg hready) fun _ _ _ => ?_
      refine Meets.call .started fun _ _ _ => ?_
      exact (meets_reconcile c).weaken fun _ _ h => .startReconcile h
    · trivial

theorem meets_pause (actor : String) (reason : Option String) :
    Meets (World.exec host) (Move c host w (.pause goalId actor reason))
      (DurableGoalCoordinator.pause goalId actor reason) (fun _ _ => True) w := by
  refine meets_read (.paused (Or.inl trivial)) trivial fun goal _ => ?_
  split
  · trivial
  · split_ifs
    · trivial
    · trivial
    · exact Meets.call .pause fun _ _ _ => ⟨.paused (Or.inr rfl), fun _ _ _ => trivial⟩

theorem meets_cancelTask {taskId : Uuid} :
    Meets (World.exec host) (CancelMove goalId) (cancelTask taskId)
      (fun _ w' => w'.goals = w.goals) w := by
  refine meets_read (.read trivial) trivial fun execution _ => ?_
  split
  · rfl
  · refine meets_read (.read trivial) trivial fun job _ => ?_
    unfold cancelTaskJob
    split
    · rfl
    · split_ifs
      · refine Meets.call .cancelJob fun a w' hexec => ?_
        rw [← (Prod.mk.inj hexec).2]
        rfl
      · rfl

theorem meets_cancelTasks {tasks : List PlannedTask} (hnodup : (tasks.map (·.taskId)).Nodup)
    (hshow : ∀ t ∈ tasks, Shows host goalId w.goals t) (affected : List String) :
    Meets (World.exec host) (CancelMove goalId) (cancelTasks tasks affected) (fun _ _ => True) w := by
  induction tasks generalizing w affected with
  | nil => trivial
  | cons task tasks ih =>
    have hrest := List.Nodup.of_cons hnodup
    obtain ⟨r, hrow, hid, hgoal, hstatus, -⟩ := (hshow task List.mem_cons_self).row
    rw [cancelTasks]
    split_ifs with hrunning hpending
    · refine Meets.bind meets_cancelTask fun _ w₁ hgoals => ?_
      have hmove : CancelMove goalId (.updateTask task.taskId { status := .cancelled }) w₁ := by
        rw [← hid]
        exact .cancelTask (hgoals ▸ hrow) hgoal (Or.inl (hstatus.trans hrunning))
      refine Meets.call hmove fun a w₂ hexec => ih hrest (shows_ahead hnodup ?_
        (othersKept_updateTask hexec)) _
      rw [hgoals]
      exact hshow
    · have hmove : CancelMove goalId (.updateTask task.taskId { status := .cancelled }) w := by
        rw [← hid]
        exact .cancelTask hrow hgoal (Or.inr (hstatus.trans hpending))
      exact Meets.call hmove fun a w₂ hexec => ih hrest (shows_ahead hnodup hshow
        (othersKept_updateTask hexec)) _
    · exact ih hrest (fun t ht => hshow t (List.mem_cons_of_mem _ ht)) affected

theorem meets_cancel (actor : String) (reason : Option String) :
    Meets (World.exec host) (CancelMove goalId)
      (DurableGoalCoordinator.cancel goalId actor reason) (fun _ _ => True) w := by
  refine meets_read (.read trivial) trivial fun goal _ => ?_
  split
  · trivial
  · split_ifs
    · trivial
    · trivial
    · refine meets_read (.read trivial) trivial fun tasks htasks => ?_
      refine Meets.bind (meets_cancelTasks (getTasks_nodup htasks) (getTasks_shows htasks) [])
        fun affected _ _ => ?_
      exact Meets.call .cancel fun _ _ _ => ⟨.record, fun _ _ _ => trivial⟩

theorem meets_goalField {C : StoreCall → World → Prop} (hC : C (.getGoal goalId) w) {α β : Type} (name : String)
    (field : GoalContract → α) {f : α → Coord β} {Q : β → World → Prop}
    (hf : ∀ a, Meets (World.exec host) C (f a) Q w) :
    Meets (World.exec host) C (goalField goalId name field >>= f) Q w := by
  refine meets_read hC trivial fun goal _ => ?_
  rcases goal with _ | goal
  · trivial
  · exact hf _

theorem meets_rerun (taskId : Uuid) (actor : String) (reason : Option String) :
    Meets (World.exec host) (RerunMove host w goalId taskId)
      (DurableGoalCoordinator.rerun goalId taskId actor reason) (fun _ _ => True) w := by
  refine meets_read (.read trivial) trivial fun tasks htasks => ?_
  split
  · trivial
  · next task htask =>
    obtain ⟨hmem, hid⟩ := mem_of_byId htask
    split_ifs with hstatus
    · obtain ⟨r, hrow, hrid, hgoal, hrstatus, -⟩ := (getTasks_shows htasks task hmem).row
      have hrerun : Rerunnable goalId taskId w r := by
        rw [hrid, hid] at hrow
        exact ⟨hrow, hgoal, by rw [hrstatus]; exact hstatus⟩
      refine meets_read (.read trivial) trivial fun events _ => ?_
      split
      · trivial
      · next payload hpayload =>
        have hresolves : Resolves host goalId taskId w := ⟨tasks, task, payload, htasks, htask, hpayload⟩
        refine meets_goalField (.read trivial) _ _ fun threshold => ?_
        refine meets_goalField (.read trivial) _ _ fun workspaceRoot => ?_
        split
        · trivial
        · rw [hid]
          refine Meets.call (.enqueue hrerun hresolves) fun job w₁ hexec => ?_
          have hgoals : w₁.goals = w.goals := by
            rw [← (Prod.mk.inj hexec).2]
            rfl
          refine Meets.call (.run hgoals hrerun hresolves) fun _ _ _ => ?_
          exact Meets.call .resume fun _ _ _ => ⟨.record, fun _ _ _ => trivial⟩
    · trivial

/-- Every call of a request that is served on its own is a move. -/
theorem request_moves (r : Request) (hr : r.isReview = false) (w : World) :
    ∀ x ∈ Prog.trace (World.exec host) (r.program c) w, Move c host w r x.1 x.2 := by
  cases r with
  | reconcile g => exact ((meets_reconcile c).weaken fun _ _ h => .reconcile h).trace
  | reconcileAll =>
    have h : Meets (World.exec host) (Move c host w .reconcileAll) c.reconcileAll (fun _ _ => True) w :=
      -- a listing of the goals is a read, whatever the goal
      meets_read (.reconcileAll (@ReconcileMove.read c 0 _ _ trivial)) trivial fun goals _ =>
        meets_reconcileEach c goals
    exact h.trace
  | start g actor => exact (meets_start c actor).trace
  | pause g actor reason => exact (meets_pause c actor reason).trace
  | cancel g actor reason => exact ((meets_cancel actor reason).weaken fun _ _ h => .cancel h).trace
  | rerun g taskId actor reason =>
    exact ((meets_rerun taskId actor reason).weaken fun _ _ h => .rerun h).trace
  | review queueTaskId g approved item => cases hr

end Requests

end Galaxz
