import Galaxz.Goals.Service

/-!
# Proofs: the calls on the stores

What a snapshot of the tasks says about the table it was taken from, and what each call can do to the
goal database. Later proofs use these and never unfold a call.
-/

namespace Galaxz

open GoalStore

/-! ## Rows by key -/

theorem GoalDb.task?_eq_some {s : GoalDb} {taskId : Uuid} {r : PlannedTaskRow} :
    s.task? taskId = some r ↔ r ∈ s.tasks ∧ r.taskId = taskId :=
  Table.find?_key _ s.taskIds_nodup

theorem GoalDb.goal?_eq_some {s : GoalDb} {goalId : Uuid} {r : GoalRow} :
    s.goal? goalId = some r ↔ r ∈ s.goals ∧ r.goalId = goalId :=
  Table.find?_key _ s.goalIds_nodup

theorem GoalDb.task?_updateTaskRow (s : GoalDb) (x y : Uuid) (f : PlannedTaskRow → PlannedTaskRow)
    (hf : ∀ r, (f r).taskId = r.taskId) :
    (s.updateTaskRow y f hf).task? x = if x = y then (s.task? x).map f else s.task? x :=
  Table.find?_updateWhere _ hf s.tasks x y

theorem GoalDb.goal?_updateGoal (s : GoalDb) (x y : Uuid) (f : GoalRow → GoalRow)
    (hf : ∀ r, (f r).goalId = r.goalId) :
    (s.updateGoal y f hf).goal? x = if x = y then (s.goal? x).map f else s.goal? x :=
  Table.find?_updateWhere _ hf s.goals x y

/-! ## Snapshots -/

/-- The task is what the row reads as. -/
def ReadsAs (host : Host) (r : PlannedTaskRow) (t : PlannedTask) : Prop := rowToTask host r = .ok t

section Reads

variable {host : Host} {r : PlannedTaskRow} {t : PlannedTask}

theorem ReadsAs.fields (h : ReadsAs host r t) :
    t.taskId = r.taskId ∧ t.goalId = r.goalId ∧ t.dependsOn = r.dependsOn ∧ t.status = r.status := by
  obtain ⟨confidence, -, h⟩ := (except_bind_ok_iff _ _ _).mp h
  cases h
  exact ⟨rfl, rfl, rfl, rfl⟩

theorem ReadsAs.taskId (h : ReadsAs host r t) : t.taskId = r.taskId := h.fields.1

theorem ReadsAs.dependsOn (h : ReadsAs host r t) : t.dependsOn = r.dependsOn := h.fields.2.2.1

theorem ReadsAs.status (h : ReadsAs host r t) : t.status = r.status := h.fields.2.2.2

end Reads

section Snapshot

variable {host : Host} {s : GoalDb} {goalId : Uuid} {tasks : List PlannedTask}

theorem mem_taskRows {r : PlannedTaskRow} :
    r ∈ taskRows s goalId ↔ r ∈ s.tasks ∧ r.goalId = goalId := by
  simp [taskRows, List.mem_insertionSort]

/-- A task of the answer is what its row reads as. -/
theorem getTasks_row (h : getTasks host s goalId = .ok tasks) {t : PlannedTask} (ht : t ∈ tasks) :
    ∃ r, s.task? t.taskId = some r ∧ r.goalId = goalId ∧ ReadsAs host r t := by
  obtain ⟨r, hr, hread⟩ := mem_of_mapM_ok h ht
  have hmem := mem_taskRows.mp hr
  exact ⟨r, GoalDb.task?_eq_some.mpr ⟨hmem.1, (ReadsAs.taskId hread).symm⟩, hmem.2, hread⟩

/-- Every row of the goal is in the answer. -/
theorem getTasks_mem (h : getTasks host s goalId = .ok tasks) {r : PlannedTaskRow} (hr : r ∈ s.tasks)
    (hgoal : r.goalId = goalId) : ∃ t ∈ tasks, ReadsAs host r t :=
  mapM_ok_of_mem h (mem_taskRows.mpr ⟨hr, hgoal⟩)

/-- No two tasks of the answer share an id. -/
theorem getTasks_nodup (h : getTasks host s goalId = .ok tasks) : (tasks.map (·.taskId)).Nodup := by
  rw [map_of_mapM_ok h (·.taskId) (·.taskId) fun _ _ hread => ReadsAs.taskId hread]
  have hperm : (taskRows s goalId).Perm (s.tasks.filter (·.goalId = goalId)) :=
    List.perm_insertionSort _ _
  rw [(hperm.map _).nodup_iff]
  exact s.taskIds_nodup.sublist (List.filter_sublist.map _)

/-- A task found by its id is one of the tasks. -/
theorem mem_of_byId {id : Uuid} {task : PlannedTask} (h : byId tasks id = some task) :
    task ∈ tasks ∧ task.taskId = id := by
  unfold byId at h
  refine ⟨List.mem_reverse.mp (List.mem_of_find?_eq_some h), ?_⟩
  simpa using List.find?_some h

end Snapshot

/-! ## Calls -/

namespace World

variable (host : Host)

/-- What a call does to the goal database: nothing, or a status, a task or an event is stored. -/
theorem exec_goals (call : StoreCall) (w : World) :
    (exec host call w).2.goals = w.goals ∨
    (∃ goalId status, call = .setGoalStatus goalId status ∧
      (exec host call w).2.goals = setGoalStatus goalId status w.goals) ∨
    (∃ taskId update cells, call = .updateTask taskId update ∧ update.cells host = .ok cells ∧
      (exec host call w).2.goals = w.goals.updateTaskRow taskId cells.set cells.set_taskId) ∨
    (∃ goalId actor action reason affected now,
      call = .recordEvent goalId actor action reason affected ∧
      (exec host call w).2.goals = recordEvent goalId actor action reason affected now w.goals) := by
  cases call with
  | setGoalStatus goalId status => exact Or.inr (Or.inl ⟨goalId, status, rfl, rfl⟩)
  | updateTask taskId update =>
    rcases hcells : update.cells host with e | cells
    · refine Or.inl ?_
      simp only [exec, updateTask, hcells]
      rfl
    · refine Or.inr (Or.inr (Or.inl ⟨taskId, update, cells, rfl, hcells, ?_⟩))
      simp only [exec, updateTask, hcells]
      rfl
  | recordEvent goalId actor action reason affected =>
    exact Or.inr (Or.inr (Or.inr ⟨goalId, actor, action, reason, affected, _, rfl, rfl⟩))
  | getGoal goalId => exact Or.inl rfl
  | listActiveGoals => exact Or.inl rfl
  | getTasks goalId => exact Or.inl rfl
  | taskExecution taskId => exact Or.inl rfl
  | events goalId => exact Or.inl rfl
  | getJob jobId => exact Or.inl rfl
  | getJobByIdempotencyKey key => exact Or.inl rfl
  | getResult jobId => exact Or.inl rfl
  | listJobs limit => exact Or.inl rfl
  | enqueue taskId task key => exact Or.inl rfl
  | cancelJob jobId => exact Or.inl rfl

/-- A call changes no task but the one it updates. -/
theorem exec_task? (call : StoreCall) (w : World) (x : Uuid) :
    (exec host call w).2.goals.task? x = w.goals.task? x ∨
    ∃ update cells, call = .updateTask x update ∧ update.cells host = .ok cells ∧
      (exec host call w).2.goals.task? x = (w.goals.task? x).map cells.set := by
  rcases exec_goals host call w with h | ⟨g, st, -, h⟩ | ⟨y, u, cells, rfl, hcells, h⟩ |
    ⟨g, actor, action, reason, affected, now, -, h⟩
  · exact Or.inl (by rw [h])
  · exact Or.inl (by rw [h]; rfl)
  · by_cases hxy : x = y
    · subst hxy
      refine Or.inr ⟨u, cells, rfl, hcells, ?_⟩
      rw [h, GoalDb.task?_updateTaskRow, if_pos rfl]
    · refine Or.inl ?_
      rw [h, GoalDb.task?_updateTaskRow, if_neg hxy]
  · exact Or.inl (by rw [h]; rfl)

/-- A call changes no goal but the one whose status it stores. -/
theorem exec_goal? (call : StoreCall) (w : World) (x : Uuid) :
    (exec host call w).2.goals.goal? x = w.goals.goal? x ∨
    ∃ status, call = .setGoalStatus x status ∧
      (exec host call w).2.goals.goal? x = (w.goals.goal? x).map fun r => { r with status } := by
  rcases exec_goals host call w with h | ⟨y, st, rfl, h⟩ | ⟨t, u, cells, -, -, h⟩ |
    ⟨g, actor, action, reason, affected, now, -, h⟩
  · exact Or.inl (by rw [h])
  · by_cases hxy : x = y
    · subst hxy
      refine Or.inr ⟨st, rfl, ?_⟩
      rw [h, setGoalStatus, GoalDb.goal?_updateGoal, if_pos rfl]
    · refine Or.inl ?_
      rw [h, setGoalStatus, GoalDb.goal?_updateGoal, if_neg hxy]
  · exact Or.inl (by rw [h]; rfl)
  · exact Or.inl (by rw [h]; rfl)

/-- An update of a task that goes through sets its cells and nothing else. -/
theorem exec_updateTask {w w' : World} {taskId : Uuid} {update : TaskUpdate} {a : Unit}
    (h : exec host (.updateTask taskId update) w = (.ok a, w')) :
    ∃ cells, update.cells host = .ok cells ∧
      w' = { w with goals := w.goals.updateTaskRow taskId cells.set cells.set_taskId } := by
  rcases hcells : update.cells host with e | cells
  · simp only [exec, updateTask, hcells] at h
    cases h
  · simp only [exec, updateTask, hcells] at h
    exact ⟨cells, rfl, (Prod.mk.inj h).2.symm⟩

/-- An update that raises changes nothing. -/
theorem exec_updateTask_error {w w' : World} {taskId : Uuid} {update : TaskUpdate} {e : PyError}
    (h : exec host (.updateTask taskId update) w = (.error e, w')) : w' = w := by
  rcases hcells : update.cells host with e' | cells
  · simp only [exec, updateTask, hcells] at h
    exact (Prod.mk.inj h).2.symm
  · simp only [exec, updateTask, hcells] at h
    cases h

/-- The status that an update stores. -/
theorem cells_status {update : TaskUpdate} {cells : TaskCells} (h : update.cells host = .ok cells) :
    cells.status = update.status := by
  unfold TaskUpdate.cells at h
  obtain ⟨_, -, h⟩ := (except_bind_ok_iff _ _ _).mp h
  obtain ⟨_, -, h⟩ := (except_bind_ok_iff _ _ _).mp h
  obtain ⟨_, -, h⟩ := (except_bind_ok_iff _ _ _).mp h
  obtain ⟨_, -, h⟩ := (except_bind_ok_iff _ _ _).mp h
  cases h
  rfl

/-- The job that an update stores, if it names one. -/
theorem cells_jobId {update : TaskUpdate} {cells : TaskCells} (h : update.cells host = .ok cells) :
    cells.jobId = update.jobId := by
  unfold TaskUpdate.cells at h
  obtain ⟨_, -, h⟩ := (except_bind_ok_iff _ _ _).mp h
  obtain ⟨_, -, h⟩ := (except_bind_ok_iff _ _ _).mp h
  obtain ⟨_, -, h⟩ := (except_bind_ok_iff _ _ _).mp h
  obtain ⟨_, -, h⟩ := (except_bind_ok_iff _ _ _).mp h
  cases h
  rfl

end World

end Galaxz
