import Galaxz.Goals.Coordinator
import Galaxz.Goals.Proofs.StoreProofs
import Galaxz.Lib.Saturation
import Mathlib.Logic.Relation

/-!
# Proofs: failure propagation

The blocking loop of `reconcile` marks task ids until nothing changes, and writes every new mark to the store.
The marks are those of `Saturation.loop`; the writes set the same cells in every row whose id is marked, so
only the set of the marks counts.
-/

namespace Galaxz

open Prog DurableGoalCoordinator GoalStore

/-! ## What failure propagation is -/

/-- The task failed, or will not run for another one that did. -/
def PlannedTask.broken (t : PlannedTask) : Prop :=
  t.status = .failed ∨ t.status = .blocked ∨ t.status = .cancelled

/-- A task depends on a pending task. -/
def WaitsFor (tasks : List PlannedTask) (t u : PlannedTask) : Prop :=
  u ∈ tasks ∧ u.status = .pending ∧ u.taskId ∈ t.dependsOn

/-- The task is pending, and a chain of dependencies through pending tasks leads from it to a broken one. -/
def Doomed (tasks : List PlannedTask) (t : PlannedTask) : Prop :=
  t.status = .pending ∧ ∃ u, Relation.ReflTransGen (WaitsFor tasks) t u ∧
    ∃ b ∈ tasks, b.broken ∧ b.taskId ∈ u.dependsOn

/-- The task as the blocking loop leaves it. -/
def PlannedTask.blockedByDependency (t : PlannedTask) : PlannedTask :=
  { t with status := .blocked, error := some "dependency failed" }

/-- A task before and after the blocking loop. -/
def Propagated (tasks : List PlannedTask) (t t' : PlannedTask) : Prop :=
  (Doomed tasks t ∧ t' = t.blockedByDependency) ∨ (¬ Doomed tasks t ∧ t' = t)

/-! ## The marks -/

/-- The marks of the blocking loop. -/
def closure (tasks : List PlannedTask) (fuel : ℕ) (failed : List Uuid) : List Uuid :=
  Saturation.loop PlannedTask.taskId PlannedTask.dependsOn (fun t => t.status = .pending) tasks fuel failed

/-- The ids that are to be marked. -/
abbrev MarkedId (tasks : List PlannedTask) (failed : List Uuid) : Uuid → Prop :=
  Saturation.Marked PlannedTask.taskId PlannedTask.dependsOn (fun t => t.status = .pending) tasks failed

theorem mem_failedIds {tasks : List PlannedTask} {id : Uuid} :
    id ∈ failedIds tasks ↔ ∃ t ∈ tasks, t.broken ∧ t.taskId = id := by
  unfold failedIds PlannedTask.broken
  simp only [List.mem_map, List.mem_filter, decide_eq_true_eq, and_assoc]

theorem failedIds_subset {tasks tasks' : List PlannedTask} (h : tasks ⊆ tasks') :
    failedIds tasks ⊆ failedIds tasks' := by
  intro id hid
  obtain ⟨t, ht, hbroken⟩ := mem_failedIds.mp hid
  exact mem_failedIds.mpr ⟨t, h ht, hbroken⟩

/-- A chain to a broken task marks the task it starts from. -/
theorem Doomed.marked {tasks : List PlannedTask} {t : PlannedTask} (ht : t ∈ tasks) (h : Doomed tasks t) :
    MarkedId tasks (failedIds tasks) t.taskId := by
  obtain ⟨hpending, u, hchain, b, hb, hbroken, hdep⟩ := h
  have hmark : ∀ v ∈ tasks, v.status = .pending → Relation.ReflTransGen (WaitsFor tasks) v u →
      MarkedId tasks (failedIds tasks) v.taskId := by
    intro v hv hvpending hvu
    induction hvu using Relation.ReflTransGen.head_induction_on with
    | refl =>
      have hfirst : MarkedId tasks (failedIds tasks) b.taskId :=
        Saturation.Marked.first (mem_failedIds.mpr ⟨b, hb, hbroken, rfl⟩)
      exact Saturation.Marked.node hv (by simpa using hvpending) hdep hfirst
    | head hedge _ ih =>
      obtain ⟨hmem, hstatus, hdep'⟩ := hedge
      exact Saturation.Marked.node hv (by simpa using hvpending) hdep' (ih hmem hstatus)
  exact hmark t ht hpending hchain

/-- A mark that was not there at first comes from such a chain. -/
theorem doomed_of_marked {tasks : List PlannedTask} {id : Uuid} (h : MarkedId tasks (failedIds tasks) id) :
    id ∈ failedIds tasks ∨ ∃ t ∈ tasks, t.taskId = id ∧ Doomed tasks t := by
  induction h with
  | first hk => exact Or.inl hk
  | @node x d hx hopen hd _ ih =>
    have hpending : x.status = .pending := by simpa using hopen
    refine Or.inr ⟨x, hx, rfl, hpending, ?_⟩
    rcases ih with hfailed | ⟨y, hy, rfl, hypending, u, hchain, hend⟩
    · obtain ⟨b, hb, hbroken, rfl⟩ := mem_failedIds.mp hfailed
      exact ⟨x, Relation.ReflTransGen.refl, b, hb, hbroken, hd⟩
    · exact ⟨u, hchain.head ⟨hy, hypending, hd⟩, hend⟩

/-! ## The writes -/

/-- The cells that blocking a task sets. -/
def blockCells : TaskCells :=
  { status := .blocked, confidence := none, result := none, error := some (some "dependency failed"),
    jobId := none, resolvedPayload := none }

/-- The row, blocked if its id is one of these. -/
def blockRow (ids : List Uuid) (r : PlannedTaskRow) : PlannedTaskRow :=
  if r.taskId ∈ ids then blockCells.set r else r

@[simp] theorem blockRow_taskId (ids : List Uuid) (r : PlannedTaskRow) : (blockRow ids r).taskId = r.taskId := by
  unfold blockRow
  split_ifs
  · rfl
  · rfl

@[simp] theorem blockRow_goalId (ids : List Uuid) (r : PlannedTaskRow) : (blockRow ids r).goalId = r.goalId := by
  unfold blockRow
  split_ifs
  · rfl
  · rfl

@[simp] theorem blockRow_ordinal (ids : List Uuid) (r : PlannedTaskRow) : (blockRow ids r).ordinal = r.ordinal := by
  unfold blockRow
  split_ifs
  · rfl
  · rfl

/-- The database with the rows of these ids blocked. -/
def blockRows (ids : List Uuid) (s : GoalDb) : GoalDb :=
  { s with
    tasks := s.tasks.map (blockRow ids)
    taskIds_nodup := by
      rw [List.map_map, show PlannedTaskRow.taskId ∘ blockRow ids = PlannedTaskRow.taskId from
        funext (blockRow_taskId ids)]
      exact s.taskIds_nodup }

/-- The world with the rows of these ids blocked. -/
def blockWorld (ids : List Uuid) (w : World) : World := { w with goals := blockRows ids w.goals }

theorem GoalDb.ext_tasks {s s' : GoalDb} (hgoals : s.goals = s'.goals) (hprojects : s.projects = s'.projects)
    (htasks : s.tasks = s'.tasks) (hevents : s.events = s'.events) : s = s' := by
  cases s
  cases s'
  simp_all

theorem blockWorld_nil (w : World) : blockWorld [] w = w := by
  have hrow : blockRow [] = id := by
    funext r
    exact if_neg List.not_mem_nil
  have hrows : blockRows [] w.goals = w.goals := by
    refine GoalDb.ext_tasks rfl rfl ?_ rfl
    show w.goals.tasks.map (blockRow []) = w.goals.tasks
    rw [hrow, List.map_id]
  unfold blockWorld
  rw [hrows]

/-- Only the set of the ids counts. -/
theorem blockWorld_congr {ids ids' : List Uuid} (h : ∀ id, id ∈ ids ↔ id ∈ ids') (w : World) :
    blockWorld ids w = blockWorld ids' w := by
  have hrow : blockRow ids = blockRow ids' := by
    funext r
    unfold blockRow
    rw [if_congr (h r.taskId) rfl rfl]
  have hrows : blockRows ids w.goals = blockRows ids' w.goals := by
    refine GoalDb.ext_tasks rfl rfl ?_ rfl
    show w.goals.tasks.map (blockRow ids) = w.goals.tasks.map (blockRow ids')
    rw [hrow]
  unfold blockWorld
  rw [hrows]

/-- Blocking one more task. -/
theorem exec_block (host : Host) (ids : List Uuid) (id : Uuid) (w : World) :
    World.exec host (.updateTask id blockUpdate) (blockWorld ids w) = (.ok (), blockWorld (ids ++ [id]) w) := by
  have hrow : ∀ r : PlannedTaskRow,
      (if decide ((blockRow ids r).taskId = id) = true then blockCells.set (blockRow ids r) else blockRow ids r) =
        blockRow (ids ++ [id]) r := by
    intro r
    rw [blockRow_taskId]
    unfold blockRow
    by_cases hid : r.taskId = id
    · have hmem : r.taskId ∈ ids ++ [id] := List.mem_append_right _ (List.mem_singleton.mpr hid)
      rw [if_pos (by simpa using hid), if_pos hmem]
      split_ifs
      · rfl
      · rfl
    · have hmem : r.taskId ∈ ids ++ [id] ↔ r.taskId ∈ ids := by simp [hid]
      rw [if_neg (by simpa using hid), if_congr hmem rfl rfl]
  have hrows : (blockRows ids w.goals).updateTaskRow id blockCells.set blockCells.set_taskId =
      blockRows (ids ++ [id]) w.goals := by
    refine GoalDb.ext_tasks rfl rfl ?_ rfl
    show Table.updateWhere (fun r : PlannedTaskRow => decide (r.taskId = id)) blockCells.set
      (w.goals.tasks.map (blockRow ids)) = w.goals.tasks.map (blockRow (ids ++ [id]))
    unfold Table.updateWhere
    rw [List.map_map]
    exact List.map_congr_left fun r _ => hrow r
  show (Except.ok (), ({ blockWorld ids w with
    goals := (blockRows ids w.goals).updateTaskRow id blockCells.set blockCells.set_taskId } : World)) = _
  rw [hrows]
  rfl

/-- One pass marks what `Saturation.pass` marks, and blocks the rows of the new marks. -/
theorem run_blockPass (host : Host) (w : World) (first : List Uuid) (tasks : List PlannedTask) (ids : List Uuid)
    (changed : Bool) :
    ∃ ids', Saturation.pass PlannedTask.taskId PlannedTask.dependsOn (fun t => t.status = .pending) tasks
        (first ++ ids) = first ++ ids' ∧
      run (World.exec host) (blockPass tasks (first ++ ids) changed) (blockWorld ids w) =
        (.ok (first ++ ids', changed || decide (first ++ ids' ≠ first ++ ids)), blockWorld ids' w) := by
  induction tasks generalizing ids changed with
  | nil => exact ⟨ids, rfl, by simp [blockPass, run]⟩
  | cons task tasks ih =>
    rw [blockPass, Saturation.pass]
    by_cases hblocks : blocks (first ++ ids) task = true
    · have hhit : Saturation.hit PlannedTask.taskId PlannedTask.dependsOn (fun t => t.status = .pending)
          (first ++ ids) task = true := hblocks
      rw [if_pos hblocks, if_pos hhit, List.append_assoc]
      obtain ⟨ids', hpass, hrun⟩ := ih (ids ++ [task.taskId]) true
      refine ⟨ids', hpass, ?_⟩
      have hcall : run (World.exec host) (Coord.updateTask task.taskId blockUpdate >>= fun _ =>
          blockPass tasks (first ++ (ids ++ [task.taskId])) true) (blockWorld ids w) =
          run (World.exec host) (blockPass tasks (first ++ (ids ++ [task.taskId])) true)
            (blockWorld (ids ++ [task.taskId]) w) := by
        rw [Coord.updateTask, call_bind, run, exec_block]
        rfl
      rw [hcall, hrun]
      -- the mark that was added makes a difference
      obtain ⟨new, hnew, -⟩ := Saturation.pass_eq_append PlannedTask.taskId PlannedTask.dependsOn
        (fun t => decide (t.status = .pending)) tasks (first ++ (ids ++ [task.taskId]))
      rw [hpass] at hnew
      have hne : first ++ ids' ≠ first ++ ids := by
        intro heq
        have hlength := congrArg List.length (hnew.symm.trans heq)
        simp only [List.length_append, List.length_singleton] at hlength
        omega
      simp [hne]
    · have hhit : ¬ Saturation.hit PlannedTask.taskId PlannedTask.dependsOn (fun t => t.status = .pending)
          (first ++ ids) task = true := hblocks
      rw [if_neg hblocks, if_neg hhit]
      exact ih ids changed

/-- The loop marks what `Saturation.loop` marks, and blocks the rows of the new marks. -/
theorem run_blockLoop (host : Host) (w : World) (first : List Uuid) (tasks : List PlannedTask) (fuel : ℕ)
    (ids : List Uuid) :
    ∃ ids', closure tasks fuel (first ++ ids) = first ++ ids' ∧
      run (World.exec host) (blockLoop tasks fuel (first ++ ids)) (blockWorld ids w) = (.ok (), blockWorld ids' w) := by
  induction fuel generalizing ids with
  | zero => exact ⟨ids, rfl, rfl⟩
  | succ fuel ih =>
    obtain ⟨mid, hpass, hrun⟩ := run_blockPass host w first tasks ids false
    rw [blockLoop, run_bind, hrun]
    unfold closure
    rw [Saturation.loop, hpass]
    by_cases hstable : first ++ mid = first ++ ids
    · rw [if_pos hstable]
      refine ⟨ids, rfl, ?_⟩
      have hmid : mid = ids := List.append_cancel_left hstable
      simp [hmid, run]
    · rw [if_neg hstable]
      obtain ⟨ids', hloop, hrun'⟩ := ih mid
      refine ⟨ids', hloop, ?_⟩
      simp only [Bool.false_or, ne_eq, hstable, not_false_eq_true, decide_true, if_true]
      exact hrun'

/-! ## The tasks afterwards -/

/-- What a row reads as once it is blocked. -/
theorem ReadsAs.blockRow {host : Host} {r : PlannedTaskRow} {t : PlannedTask} (h : ReadsAs host r t)
    (ids : List Uuid) :
    ReadsAs host (blockRow ids r) (if t.taskId ∈ ids then t.blockedByDependency else t) := by
  have hid := h.taskId
  unfold Galaxz.blockRow
  by_cases hmem : r.taskId ∈ ids
  · rw [if_pos hmem, if_pos (by rw [hid]; exact hmem)]
    unfold ReadsAs rowToTask at h ⊢
    obtain ⟨confidence, hconfidence, h⟩ := (except_bind_ok_iff _ _ _).mp h
    cases h
    show (readConfidence host r.confidence).bind _ = _
    rw [hconfidence]
    rfl
  · rw [if_neg hmem, if_neg (by rw [hid]; exact hmem)]
    exact h

theorem taskRows_blockRows (ids : List Uuid) (s : GoalDb) (goalId : Uuid) :
    taskRows (blockRows ids s) goalId = (taskRows s goalId).map (blockRow ids) := by
  unfold taskRows
  have hfilter : (blockRows ids s).tasks.filter (fun r => decide (r.goalId = goalId)) =
      (s.tasks.filter fun r => decide (r.goalId = goalId)).map (blockRow ids) := by
    show (s.tasks.map (blockRow ids)).filter _ = _
    rw [List.filter_map]
    congr 1
    refine List.filter_congr fun r _ => ?_
    simp only [Function.comp_apply, blockRow_goalId]
  rw [hfilter]
  symm
  apply List.map_insertionSort
  intro a _ b _
  rw [blockRow_ordinal, blockRow_ordinal]

theorem getTasks_blockWorld {host : Host} {w : World} {goalId : Uuid} {before : List PlannedTask}
    (h : getTasks host w.goals goalId = .ok before) (ids : List Uuid) :
    getTasks host (blockWorld ids w).goals goalId =
      .ok (before.map fun t => if t.taskId ∈ ids then t.blockedByDependency else t) := by
  unfold getTasks at h ⊢
  show (taskRows (blockRows ids w.goals) goalId).mapM (rowToTask host) = _
  rw [taskRows_blockRows, except_mapM_ok_iff, List.forall₂_map_left_iff, List.forall₂_map_right_iff]
  exact ((except_mapM_ok_iff _ _ _).mp h).imp fun r t hread => ReadsAs.blockRow hread ids

/-- On any arrangement of the tasks, and with passes to spare, the loop blocks the rows of the doomed tasks. -/
theorem run_blockLoop_doomed (host : Host) (w : World) {before tasks : List PlannedTask}
    (hnodup : (before.map (·.taskId)).Nodup) (hperm : tasks.Perm before) {fuel : ℕ}
    (hfuel : before.length + 1 ≤ fuel) :
    ∃ ids, run (World.exec host) (blockLoop tasks fuel (failedIds tasks)) w = (.ok (), blockWorld ids w) ∧
      ∀ id, id ∈ ids ↔ ∃ t ∈ before, t.taskId = id ∧ Doomed before t := by
  have hmarked : ∀ id, MarkedId tasks (failedIds tasks) id ↔ MarkedId before (failedIds before) id := fun id =>
    ⟨fun hm => hm.mono hperm.subset (failedIds_subset hperm.subset),
      fun hm => hm.mono hperm.symm.subset (failedIds_subset hperm.symm.subset)⟩
  have hunmarked : Saturation.unmarked PlannedTask.taskId tasks (failedIds tasks) < fuel := by
    have hcount : Saturation.unmarked PlannedTask.taskId tasks (failedIds tasks) ≤ tasks.length :=
      List.countP_le_length
    rw [hperm.length_eq] at hcount
    omega
  obtain ⟨ids, hclosure, hrun⟩ := run_blockLoop host w (failedIds tasks) tasks fuel []
  rw [List.append_nil] at hclosure hrun
  rw [blockWorld_nil] at hrun
  obtain ⟨new, hnew, hfresh⟩ := Saturation.loop_eq_append PlannedTask.taskId PlannedTask.dependsOn
    (fun t => decide (t.status = .pending)) tasks fuel (failedIds tasks)
  have hids : new = ids := List.append_cancel_left (hnew.symm.trans hclosure)
  refine ⟨ids, hrun, fun id => ?_⟩
  have hmem : id ∈ closure tasks fuel (failedIds tasks) ↔ MarkedId before (failedIds before) id :=
    (Saturation.mem_loop_iff hunmarked).trans (hmarked id)
  rw [hclosure, List.mem_append] at hmem
  constructor
  · intro hid
    rcases doomed_of_marked (hmem.mp (Or.inr hid)) with hfailed | hdoomed
    · rw [hids] at hfresh
      exact absurd (failedIds_subset hperm.symm.subset hfailed) (hfresh _ hid)
    · exact hdoomed
  · rintro ⟨t, ht, rfl, hdoomed⟩
    rcases hmem.mpr (hdoomed.marked ht) with hfailed | hid
    · -- a doomed task is pending, so it was not among the failed ones
      obtain ⟨b, hb, hbroken, heq⟩ := mem_failedIds.mp hfailed
      rw [Table.eq_of_key PlannedTask.taskId hnodup (hperm.subset hb) ht heq] at hbroken
      rcases hbroken with hstatus | hstatus | hstatus
      all_goals
        rw [hdoomed.1] at hstatus
        cases hstatus
    · exact hid

/-- No task is left to block once the failures are propagated. -/
theorem not_blocks_of_propagated {before after : List PlannedTask}
    (h : ∀ t' ∈ after, ∃ t ∈ before, Propagated before t t') : ∀ t' ∈ after, blocks (failedIds after) t' = false := by
  intro t' ht'
  obtain ⟨t, -, hprop⟩ := h t' ht'
  rw [Bool.eq_false_iff]
  intro hblocks
  simp only [blocks, Bool.and_eq_true, decide_eq_true_eq, List.any_eq_true] at hblocks
  obtain ⟨⟨hpending, -⟩, dep, hdep, hfailed⟩ := hblocks
  rcases hprop with ⟨-, rfl⟩ | ⟨hnot, rfl⟩
  · cases hpending
  · obtain ⟨u', hu', hbroken, rfl⟩ := mem_failedIds.mp hfailed
    obtain ⟨u, hu, hprop⟩ := h u' hu'
    rcases hprop with ⟨⟨hupending, v, hchain, hend⟩, rfl⟩ | ⟨-, rfl⟩
    · exact hnot ⟨hpending, v, hchain.head ⟨hu, hupending, hdep⟩, hend⟩
    · exact hnot ⟨hpending, t', Relation.ReflTransGen.refl, u', hu, hbroken, hdep⟩

/-- A pass that finds no task to block changes nothing. -/
theorem run_blockPass_idle (host : Host) (w : World) {tasks : List PlannedTask} {failed : List Uuid}
    (h : ∀ t ∈ tasks, blocks failed t = false) (changed : Bool) :
    run (World.exec host) (blockPass tasks failed changed) w = (.ok (failed, changed), w) := by
  induction tasks with
  | nil => rfl
  | cons task tasks ih =>
    rw [blockPass, if_neg (Bool.eq_false_iff.mp (h task List.mem_cons_self))]
    exact ih fun t ht => h t (List.mem_cons_of_mem _ ht)

/-- Failure propagation is the transitive closure. The loop stops by itself after at most one pass more than
there are tasks, whatever their order; a pending task is blocked exactly if a chain of dependencies through
pending tasks leads to a task that failed, was blocked or cancelled; every other task is as it was; and another
pass changes nothing. -/
theorem blockLoop_propagates (host : Host) (w : World) (goalId : Uuid) (before : List PlannedTask)
    (h : getTasks host w.goals goalId = .ok before) :
    ∃ w' after, (∀ tasks, tasks.Perm before → ∀ fuel, before.length + 1 ≤ fuel →
        run (World.exec host) (blockLoop tasks fuel (failedIds tasks)) w = (.ok (), w')) ∧
      getTasks host w'.goals goalId = .ok after ∧ List.Forall₂ (Propagated before) before after ∧
      run (World.exec host) (blockPass after (failedIds after) false) w' = (.ok (failedIds after, false), w') := by
  have hnodup := getTasks_nodup h
  obtain ⟨ids, hrun, hids⟩ := run_blockLoop_doomed host w hnodup (List.Perm.refl before) (Nat.le_refl _)
  have hprop : ∀ t ∈ before, Propagated before t (if t.taskId ∈ ids then t.blockedByDependency else t) := by
    intro t ht
    unfold Propagated
    by_cases hdoomed : Doomed before t
    · rw [if_pos ((hids t.taskId).mpr ⟨t, ht, rfl, hdoomed⟩)]
      exact Or.inl ⟨hdoomed, rfl⟩
    · rw [if_neg]
      · exact Or.inr ⟨hdoomed, rfl⟩
      · intro hmem
        obtain ⟨t', ht', heq, hdoomed'⟩ := (hids t.taskId).mp hmem
        rw [Table.eq_of_key PlannedTask.taskId hnodup ht' ht heq] at hdoomed'
        exact hdoomed hdoomed'
  refine ⟨blockWorld ids w, _, ?_, getTasks_blockWorld h ids, ?_, ?_⟩
  · intro tasks hperm fuel hfuel
    obtain ⟨ids', hrun', hids'⟩ := run_blockLoop_doomed host w hnodup hperm hfuel
    rw [hrun', blockWorld_congr fun id => (hids' id).trans (hids id).symm]
  · rw [List.forall₂_map_right_iff, List.forall₂_same]
    exact hprop
  · have hafter : ∀ t' ∈ before.map fun t => if t.taskId ∈ ids then t.blockedByDependency else t,
        ∃ t ∈ before, Propagated before t t' := by
      intro t' ht'
      obtain ⟨t, ht, rfl⟩ := List.mem_map.mp ht'
      exact ⟨t, ht, hprop t ht⟩
    exact run_blockPass_idle host _ (not_blocks_of_propagated hafter) false

/-- Two tasks that wait for each other, one of them also for a task that failed and for one that is not there. -/
def cyclicTasks : List PlannedTask :=
  [{ taskId := 1, projectId := 1, goalId := 1, skill := "s.first", payload := [], dependsOn := [2] },
    { taskId := 2, projectId := 1, goalId := 1, skill := "s.second", payload := [], dependsOn := [1, 9, 3] },
    { taskId := 3, projectId := 1, goalId := 1, skill := "s.third", payload := [], status := .failed }]

/-- A world in which they are stored. -/
def cyclicWorld : World where
  goals := { GoalDb.empty with
    tasks := cyclicTasks.map fun t => plannedTaskRow t 0
    taskIds_nodup := by decide }
  jobs := Db.empty
  readings _ := ⟨0, .ofMicros 0⟩

theorem cyclicWorld_propagates : ∃ w' after,
    (∀ tasks, tasks.Perm cyclicTasks → ∀ fuel, cyclicTasks.length + 1 ≤ fuel →
      run (World.exec ⟨fun _ => none, fun _ => "", fun _ => none⟩) (blockLoop tasks fuel (failedIds tasks))
        cyclicWorld = (.ok (), w')) ∧
    getTasks ⟨fun _ => none, fun _ => "", fun _ => none⟩ w'.goals 1 = .ok after ∧
    List.Forall₂ (Propagated cyclicTasks) cyclicTasks after ∧
    run (World.exec ⟨fun _ => none, fun _ => "", fun _ => none⟩) (blockPass after (failedIds after) false) w' =
      (.ok (failedIds after, false), w') :=
  blockLoop_propagates _ cyclicWorld 1 cyclicTasks rfl

end Galaxz
