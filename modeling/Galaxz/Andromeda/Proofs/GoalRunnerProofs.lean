import Galaxz.Andromeda.GoalRunner
import Galaxz.Goals.Proofs.MoveProofs
import Galaxz.Lib.Machine

/-!
# Proofs: the in-process runner

What one round can do is said once. From it: the loop ends, it routes no task before its dependencies are complete,
and it stores `complete` only when no task is pending. That is not yet that every task is complete, since a task
may be escalated or failed when the goal is claimed again.
-/

namespace Galaxz

namespace GoalRunner

open GoalStore DurableGoalCoordinator

/-! ## What is said about the goal -/

section Statements

variable (host : Host) (goalId : Uuid)

/-- Every task of the goal is complete. -/
def AllComplete (s : GoalDb) : Prop := ∀ r ∈ s.tasks, r.goalId = goalId → r.status = .complete

/-- The goal is stored as complete only with every task complete. -/
def Finished (s : GoalDb) : Prop := ∀ g ∈ s.goals, g.goalId = goalId → g.status = .complete → AllComplete goalId s

/-- The row is that of a pending task of the goal whose dependencies are complete. -/
structure Ready (s : GoalDb) (r : PlannedTaskRow) : Prop where
  mem : r ∈ s.tasks
  goal : r.goalId = goalId
  pending : r.status = .pending
  dependsOn : ∀ d ∈ r.dependsOn, ∃ r' ∈ s.tasks, r'.goalId = goalId ∧ r'.taskId = d ∧ r'.status = .complete

/-- The dependencies of the task are complete tasks of the goal. -/
def DependenciesMet (task : PlannedTask) (s : GoalDb) : Prop :=
  ∀ d ∈ task.dependsOn, ∃ r ∈ s.tasks, r.goalId = goalId ∧ r.taskId = d ∧ r.status = .complete

/-- No task of the goal is anything but pending or complete. -/
def NoStuck (s : GoalDb) : Prop := ∀ r ∈ s.tasks, r.goalId = goalId → r.status = .pending ∨ r.status = .complete

/-- Some pending tasks hold each other up for ever: each one has a skill that no contract takes, or a dependency
that is not complete and, if it is pending, is one of them. -/
def Stalled (s : GoalDb) : Prop :=
  ∃ P : Uuid → Prop, (∃ r ∈ s.tasks, r.goalId = goalId ∧ r.status = .pending ∧ P r.taskId) ∧
    ∀ r ∈ s.tasks, r.goalId = goalId → r.status = .pending → P r.taskId → strip r.skill = "" ∨
      ∃ d ∈ r.dependsOn, ∀ r' ∈ s.tasks, r'.goalId = goalId → r'.taskId = d →
        r'.status ≠ .complete ∧ (r'.status = .pending → P d)

/-- The result of the turn completes the task: it is accepted, and it can be stored and read again. -/
def Completes (threshold : PyFloat) (turn : Turn) : Prop :=
  ∃ result cells confidence, turn.reply = .ok result ∧ accepted result threshold = .ok true ∧
    (completed result).cells host = .ok cells ∧ readConfidence host (cells.confidence.getD .null) = .ok confidence

end Statements

/-! ## One round -/

section Round

variable {host : Host} {goal : GoalContract} {goalId : Uuid} {turn : Turn} {s : GoalDb}

/-- The cells of an update to `running`. -/
def runningCells : TaskCells := ⟨.running, none, none, none, none, none⟩

theorem updateTask_running (taskId : Uuid) (s : GoalDb) : updateTask host taskId { status := .running } s =
    .ok (s.updateTaskRow taskId runningCells.set runningCells.set_taskId) := rfl

/-- The rows after a task was set to running and then completed. -/
def completedDb (taskId : Uuid) (cells : TaskCells) (s : GoalDb) : GoalDb :=
  (s.updateTaskRow taskId runningCells.set runningCells.set_taskId).updateTaskRow taskId cells.set cells.set_taskId

/-- The task was routed with its dependencies complete. -/
def RoutedReady (goalId : Uuid) (s : GoalDb) (routed : Option (PlannedTask × GoalDb)) : Prop :=
  ∀ task db, routed = some (task, db) → (∃ r, Ready goalId s r) ∧ DependenciesMet goalId task db

variable (host goal goalId turn s) in
/-- What a round can do: complete a ready task and go on, complete the goal when no task is pending, stop with another
status, or raise. -/
inductive RoundCase : Round → Prop where
  | again {r : PlannedTaskRow} {task : PlannedTask} {db : GoalDb} {result : PyDict} {cells : TaskCells}
      (hreads : ∃ tasks, getTasks host s goalId = .ok tasks) (hready : Ready goalId s r) (hskill : strip r.skill ≠ "") (hreply : turn.reply = .ok result)
      (haccepted : accepted result goal.confidenceThreshold = .ok true)
      (hcells : (completed result).cells host = .ok cells) (hrouted : RoutedReady goalId s (some (task, db))) :
      RoundCase ⟨.again, completedDb r.taskId cells s, some (task, db)⟩
  | finished {tasks : List PlannedTask} (htasks : getTasks host s goalId = .ok tasks)
      (hpending : tasks.filter (·.status = .pending) = []) :
      RoundCase ⟨.returned, setGoalStatus goalId .complete s, none⟩
  | stopped {status : GoalStatus} {s' : GoalDb} {routed : Option (PlannedTask × GoalDb)} (hstatus : status ≠ .complete)
      (hrouted : RoutedReady goalId s routed) : RoundCase ⟨.returned, setGoalStatus goalId status s', routed⟩
  | raised {e : PyError} {s' : GoalDb} {routed : Option (PlannedTask × GoalDb)} (hrouted : RoutedReady goalId s routed) :
      RoundCase ⟨.raised e, s', routed⟩

theorem routedReady_none : RoutedReady goalId s none := fun task db h => by cases h

theorem readyTasks_head {tasks pending rest : List PlannedTask} {task : PlannedTask}
    (h : readyTasks tasks pending = .ok (task :: rest)) :
    task ∈ pending ∧ dependenciesComplete tasks task.dependsOn = .ok true := by
  induction pending with
  | nil => cases h
  | cons t ts ih =>
    rw [readyTasks] at h
    obtain ⟨ready, hready, h⟩ := (except_bind_ok_iff _ _ _).mp h
    obtain ⟨others, hothers, h⟩ := (except_bind_ok_iff _ _ _).mp h
    cases ready with
    | true =>
      obtain ⟨rfl, -⟩ := List.cons.inj (Except.ok.inj h)
      exact ⟨List.mem_cons_self, hready⟩
    | false =>
      have h : others = task :: rest := Except.ok.inj h
      rw [h] at hothers
      obtain ⟨hmem, hcomplete⟩ := ih hothers
      exact ⟨List.mem_cons_of_mem _ hmem, hcomplete⟩

/-- A task that the round chooses is the one of a ready row. -/
theorem chosen_ready {tasks rest : List PlannedTask} {task : PlannedTask} (htasks : getTasks host s goalId = .ok tasks)
    (hready : readyTasks tasks (tasks.filter (·.status = .pending)) = .ok (task :: rest)) :
    ∃ r, Ready goalId s r ∧ ReadsAs host r task := by
  obtain ⟨hmem, hcomplete⟩ := readyTasks_head hready
  obtain ⟨hmem, hpending⟩ := List.mem_filter.mp hmem
  have hpending : task.status = .pending := of_decide_eq_true hpending
  obtain ⟨r, hr, hgoal, hread⟩ := getTasks_row htasks hmem
  obtain ⟨hr, -⟩ := GoalDb.task?_eq_some.mp hr
  refine ⟨r, ⟨hr, hgoal, by rw [← hread.status, hpending], fun d hd => ?_⟩, hread⟩
  rw [← hread.dependsOn] at hd
  obtain ⟨t, ht, rfl, hstatus⟩ := dependenciesComplete_ok hcomplete d hd
  obtain ⟨r', hr', hgoal', hread'⟩ := getTasks_row htasks ht
  obtain ⟨hr', hid⟩ := GoalDb.task?_eq_some.mp hr'
  exact ⟨r', hr', hgoal', hid, by rw [← hread'.status, hstatus]⟩

/-- Setting a ready task to running leaves its dependencies complete. -/
theorem routedReady_chosen {r : PlannedTaskRow} {task : PlannedTask} (hready : Ready goalId s r)
    (hread : ReadsAs host r task) : RoutedReady goalId s
      (some (task, s.updateTaskRow task.taskId runningCells.set runningCells.set_taskId)) := by
  intro task' db h
  obtain ⟨rfl, rfl⟩ := Prod.mk.inj (Option.some.inj h)
  refine ⟨⟨r, hready⟩, fun d hd => ?_⟩
  rw [hread.dependsOn] at hd
  obtain ⟨r', hr', hgoal, hid, hstatus⟩ := hready.dependsOn d hd
  refine ⟨r', Table.mem_updateWhere.mpr ⟨r', hr', if_neg ?_⟩, hgoal, hid, hstatus⟩
  intro hsame
  have hsame : r'.taskId = task.taskId := of_decide_eq_true hsame
  rw [hread.taskId] at hsame
  have heq : r' = r := Table.eq_of_key _ s.taskIds_nodup hr' hready.mem hsame
  rw [heq, hready.pending] at hstatus
  cases hstatus

theorem updated_cases (host : Host) (taskId : Uuid) (update : TaskUpdate) (s : GoalDb)
    (next : GoalDb → Ending × GoalDb) :
    (∃ e, updated host taskId update s next = (.raised e, s)) ∨
      ∃ cells, update.cells host = .ok cells ∧
        updated host taskId update s next = next (s.updateTaskRow taskId cells.set cells.set_taskId) := by
  unfold updated updateTask
  cases hcells : update.cells host with
  | error e => exact Or.inl ⟨e, rfl⟩
  | ok cells => exact Or.inr ⟨cells, rfl, rfl⟩

/-- What follows a result: the task is completed, or the loop ends without completing the goal. -/
theorem settle_cases (host : Host) (goal : GoalContract) (goalId taskId : Uuid) (result : PyDict)
    (enqueued : Except PyError Unit) (s : GoalDb) :
    (∃ cells, accepted result goal.confidenceThreshold = .ok true ∧ (completed result).cells host = .ok cells ∧
      settle host goal goalId taskId result enqueued s =
        (.again, s.updateTaskRow taskId cells.set cells.set_taskId)) ∨
    (∃ status s', status ≠ .complete ∧ settle host goal goalId taskId result enqueued s =
      (.returned, setGoalStatus goalId status s')) ∨
    ∃ e s', settle host goal goalId taskId result enqueued s = (.raised e, s') := by
  unfold settle
  cases haccepted : accepted result goal.confidenceThreshold with
  | error e => exact Or.inr (Or.inr ⟨e, s, rfl⟩)
  | ok accept =>
    cases accept with
    | true =>
      rcases updated_cases host taskId (completed result) s fun s => (.again, s) with ⟨e, h⟩ | ⟨cells, hcells, h⟩
      · exact Or.inr (Or.inr ⟨e, s, h⟩)
      · exact Or.inl ⟨cells, rfl, hcells, h⟩
    | false =>
      by_cases hfailed : PyDict.get result "status" = .str "failed" ∨ PyDict.get result "status" = .str "no_agent_found"
      · simp only [if_pos hfailed]
        rcases updated_cases host taskId (failed result) s fun s => (.returned, setGoalStatus goalId .failed s) with ⟨e, h⟩ | ⟨cells, -, h⟩
        · exact Or.inr (Or.inr ⟨e, s, h⟩)
        · exact Or.inr (Or.inl ⟨.failed, _, by decide, h⟩)
      · simp only [if_neg hfailed]
        cases enqueued with
        | error refusal =>
          rcases updated_cases host taskId (escalated result) s fun s => (.raised refusal, s) with
            ⟨e, h⟩ | ⟨cells, -, h⟩
          · exact Or.inr (Or.inr ⟨e, s, h⟩)
          · exact Or.inr (Or.inr ⟨refusal, _, h⟩)
        | ok u =>
          rcases updated_cases host taskId (escalated result) s
            fun s => (.returned, setGoalStatus goalId .paused s) with ⟨e, h⟩ | ⟨cells, -, h⟩
          · exact Or.inr (Or.inr ⟨e, s, h⟩)
          · exact Or.inr (Or.inl ⟨.paused, _, by decide, h⟩)

/-- A task that a contract takes has a skill. -/
theorem contract_skill {r : PlannedTaskRow} {task : PlannedTask} {contractId : Uuid} {c : TaskContract}
    (hread : ReadsAs host r task) (h : contract goal goalId task contractId = .ok c) : strip r.skill ≠ "" := by
  obtain ⟨confidence, -, hread⟩ := (except_bind_ok_iff _ _ _).mp hread
  obtain rfl := Except.ok.inj hread
  intro hblank
  unfold contract TaskContract.validate at h
  simp only [hblank, if_true] at h
  split_ifs at h

theorem route_cases {r : PlannedTaskRow} {task : PlannedTask}
    (hreads : ∃ tasks, getTasks host s goalId = .ok tasks) (hready : Ready goalId s r) (hread : ReadsAs host r task) :
    RoundCase host goal goalId turn s (route host goal goalId turn task s) := by
  have hrouted := routedReady_chosen hready hread
  unfold route
  rw [updateTask_running]
  cases hcontract : contract goal goalId task turn.contractId with
  | error e => exact .raised routedReady_none
  | ok c =>
    cases hreply : turn.reply with
    | error e => exact .raised hrouted
    | ok result =>
      rcases settle_cases host goal goalId task.taskId result turn.enqueued
        (s.updateTaskRow task.taskId runningCells.set runningCells.set_taskId) with
        ⟨cells, haccepted, hcells, h⟩ | ⟨status, s', hstatus, h⟩ | ⟨e, s', h⟩
      · simp only [h]
        rw [hread.taskId] at hrouted ⊢
        exact RoundCase.again hreads hready (contract_skill hread hcontract) hreply haccepted hcells hrouted
      · simp only [h]
        exact .stopped hstatus hrouted
      · simp only [h]
        exact .raised hrouted

/-- Every round is one of the cases. -/
theorem round_cases (host : Host) (goal : GoalContract) (goalId : Uuid) (turn : Turn) (s : GoalDb) :
    RoundCase host goal goalId turn s (round host goal goalId turn s) := by
  unfold round
  cases htasks : getTasks host s goalId with
  | error e => exact .raised routedReady_none
  | ok tasks =>
    by_cases hpending : tasks.filter (·.status = .pending) = []
    · simp only [if_pos hpending]
      exact .finished htasks hpending
    · simp only [if_neg hpending]
      cases hready : readyTasks tasks (tasks.filter (·.status = .pending)) with
      | error e => exact .raised routedReady_none
      | ok ready =>
        cases ready with
        | nil => exact .stopped (by decide) routedReady_none
        | cons task rest =>
          obtain ⟨r, hr, hread⟩ := chosen_ready htasks hready
          exact route_cases ⟨tasks, htasks⟩ hr hread

end Round

/-! ## The rows after a completed task -/

section CompletedDb

variable {host : Host} {goalId : Uuid} {s : GoalDb} {r : PlannedTaskRow} {cells : TaskCells}

/-- Every other row is as it was, and the row of the task has the cells. -/
theorem mem_completedDb {taskId : Uuid} {r' : PlannedTaskRow} : r' ∈ (completedDb taskId cells s).tasks ↔
    (r' ∈ s.tasks ∧ r'.taskId ≠ taskId) ∨ ∃ x ∈ s.tasks, x.taskId = taskId ∧ r' = cells.set (runningCells.set x) := by
  constructor
  · intro h
    obtain ⟨y, hy, rfl⟩ := Table.mem_updateWhere.mp h
    obtain ⟨x, hx, rfl⟩ := Table.mem_updateWhere.mp hy
    by_cases hid : x.taskId = taskId
    · refine Or.inr ⟨x, hx, hid, ?_⟩
      simp [hid]
    · refine Or.inl ?_
      simp [hid, hx]
  · rintro (⟨hr', hid⟩ | ⟨x, hx, hid, rfl⟩)
    · refine Table.mem_updateWhere.mpr ⟨r', Table.mem_updateWhere.mpr ⟨r', hr', ?_⟩, ?_⟩
      · simp [hid]
      · simp [hid]
    · refine Table.mem_updateWhere.mpr ⟨runningCells.set x, Table.mem_updateWhere.mpr ⟨x, hx, ?_⟩, ?_⟩
      · simp [hid]
      · simp [hid]

theorem isPending_set {x : PlannedTaskRow} (h : cells.status ≠ .pending) : isPending goalId (cells.set x) = false := by
  simp [isPending, TaskCells.set, h]

/-- The completed task was pending, and no other one changes. -/
theorem pendingCount_completedDb (hready : Ready goalId s r) (hstatus : cells.status = .complete) :
    pendingCount (completedDb r.taskId cells s) goalId + 1 = pendingCount s goalId := by
  have hnot : cells.status ≠ .pending := by
    rw [hstatus]
    decide
  have hrunning : ∀ x : PlannedTaskRow, isPending goalId (runningCells.set x) = false :=
    fun x => isPending_set (by decide)
  have hupper : pendingCount (completedDb r.taskId cells s) goalId < pendingCount s goalId := by
    refine lt_of_le_of_lt (Table.countP_updateWhere_le fun x _ _ hx => ?_)
      (Table.countP_updateWhere_lt (fun x _ _ hx => ?_) hready.mem (decide_eq_true rfl) ?_ (hrunning r))
    · rw [isPending_set hnot] at hx
      cases hx
    · rw [hrunning] at hx
      cases hx
    · simp [isPending, hready.goal, hready.pending]
  -- a row that is not pending stays so, and one row becomes such a row
  have hlower : (completedDb r.taskId cells s).tasks.countP (fun x => !isPending goalId x) ≤
      s.tasks.countP (fun x => !isPending goalId x) + 1 := by
    refine le_trans (Table.countP_updateWhere_le fun x hx hid _ => ?_)
      (Table.countP_updateWhere_le_succ (fun x : PlannedTaskRow => x.taskId) s.taskIds_nodup r.taskId)
    obtain ⟨y, hy, rfl⟩ := Table.mem_updateWhere.mp hx
    by_cases hy' : y.taskId = r.taskId
    · simp [hy', hrunning]
    · simp [hy'] at hid
  have hlength : (completedDb r.taskId cells s).tasks.length = s.tasks.length := by
    simp [completedDb, GoalDb.updateTaskRow, Table.updateWhere]
  have hsplit : ∀ rows : List PlannedTaskRow, rows.length =
      rows.countP (isPending goalId) + rows.countP fun x => !isPending goalId x := by
    intro rows
    rw [List.length_eq_countP_add_countP (isPending goalId)]
    simp
  have hbefore := hsplit s.tasks
  have hafter := hsplit (completedDb r.taskId cells s).tasks
  unfold pendingCount at hupper ⊢
  omega

theorem noStuck_completedDb (hstatus : cells.status = .complete) (h : NoStuck goalId s) :
    NoStuck goalId (completedDb r.taskId cells s) := by
  intro r' hr' hgoal
  rcases mem_completedDb.mp hr' with ⟨hr', -⟩ | ⟨x, -, -, rfl⟩
  · exact h r' hr' hgoal
  · exact Or.inr hstatus

/-- Tasks that hold each other up are not completed, and still do after another one is. -/
theorem stalled_completedDb (hready : Ready goalId s r) (hskill : strip r.skill ≠ "") (hstatus : cells.status = .complete)
    (h : Stalled goalId s) : Stalled goalId (completedDb r.taskId cells s) := by
  obtain ⟨P, ⟨r₀, hr₀, hgoal₀, hpending₀, hP₀⟩, hall⟩ := h
  -- the ready task is none of them
  have hnot : ¬ P r.taskId := by
    intro hP
    rcases hall r hready.mem hready.goal hready.pending hP with hblank | ⟨d, hd, hblocked⟩
    · exact hskill hblank
    · obtain ⟨r', hr', hgoal', hid, hcomplete⟩ := hready.dependsOn d hd
      exact (hblocked r' hr' hgoal' hid).1 hcomplete
  have hkept : ∀ x ∈ s.tasks, P x.taskId → x ∈ (completedDb r.taskId cells s).tasks :=
    fun x hx hP => mem_completedDb.mpr (Or.inl ⟨hx, fun e => hnot (e ▸ hP)⟩)
  refine ⟨P, ⟨r₀, hkept r₀ hr₀ hP₀, hgoal₀, hpending₀, hP₀⟩, fun x hx hgoal hpending hP => ?_⟩
  rcases mem_completedDb.mp hx with ⟨hx, -⟩ | ⟨y, -, -, rfl⟩
  · rcases hall x hx hgoal hpending hP with hblank | ⟨d, hd, hblocked⟩
    · exact Or.inl hblank
    · refine Or.inr ⟨d, hd, fun r' hr' hgoal' hid => ?_⟩
      rcases mem_completedDb.mp hr' with ⟨hr', -⟩ | ⟨y, hy, hyid, rfl⟩
      · exact hblocked r' hr' hgoal' hid
      · -- the dependency would be the ready task, which is pending and so one of them
        exfalso
        have hyr : y = r := Table.eq_of_key _ s.taskIds_nodup hy hready.mem hyid
        have hid : y.taskId = d := hid
        rw [hyr] at hid
        have hP' := (hblocked r hready.mem hready.goal hid).2 hready.pending
        rw [← hid] at hP'
        exact hnot hP'
  · have hpending : cells.status = .pending := hpending
    rw [hstatus] at hpending
    cases hpending

/-- The row of the completed task, with what the result says of it. -/
theorem completedDb_row (hready : Ready goalId s r) :
    cells.set (runningCells.set r) ∈ (completedDb r.taskId cells s).tasks :=
  mem_completedDb.mpr (Or.inr ⟨r, hready.mem, rfl, rfl⟩)

end CompletedDb

theorem TaskCells.set_confidence (c : TaskCells) (r : PlannedTaskRow) :
    (c.set r).confidence = c.confidence.getD r.confidence := rfl

/-! ## The loop -/

section Loop

variable {host : Host} {goal : GoalContract} {goalId : Uuid} {turns : ℕ → Turn}

theorem drive_again {fuel k : ℕ} {s : GoalDb} (h : (round host goal goalId (turns k) s).ending = .again) :
    drive host goal goalId turns (fuel + 1) k s =
      ⟨(drive host goal goalId turns fuel (k + 1) (round host goal goalId (turns k) s).db).ending,
        (drive host goal goalId turns fuel (k + 1) (round host goal goalId (turns k) s).db).db,
        (round host goal goalId (turns k) s).routed.toList ++
          (drive host goal goalId turns fuel (k + 1) (round host goal goalId (turns k) s).db).routed⟩ := by
  simp only [drive, h]

theorem drive_stop {fuel k : ℕ} {s : GoalDb} (h : (round host goal goalId (turns k) s).ending ≠ .again) :
    drive host goal goalId turns (fuel + 1) k s = ⟨some (round host goal goalId (turns k) s).ending,
      (round host goal goalId (turns k) s).db, (round host goal goalId (turns k) s).routed.toList⟩ := by
  simp only [drive]

/-- The cells of a result that completes a task. -/
theorem completed_status {result : PyDict} {cells : TaskCells} (h : (completed result).cells host = .ok cells) :
    cells.status = .complete := World.cells_status host h

/-- A result that completes a task has a cell for the confidence. -/
theorem completed_confidence {result : PyDict} {cells : TaskCells} (h : (completed result).cells host = .ok cells) :
    ∃ cell, cells.confidence = some cell := by
  unfold TaskUpdate.cells at h
  obtain ⟨_, -, h⟩ := (except_bind_ok_iff _ _ _).mp h
  obtain ⟨_, -, h⟩ := (except_bind_ok_iff _ _ _).mp h
  obtain ⟨confidence, hconfidence, h⟩ := (except_bind_ok_iff _ _ _).mp h
  obtain ⟨_, -, h⟩ := (except_bind_ok_iff _ _ _).mp h
  obtain rfl := Except.ok.inj h
  obtain ⟨cell, -, hcell⟩ := (except_bind_ok_iff _ _ _).mp hconfidence
  exact ⟨cell, (Except.ok.inj hcell).symm⟩

theorem ready_pos {s : GoalDb} {r : PlannedTaskRow} (h : Ready goalId s r) : 0 < pendingCount s goalId :=
  List.countP_pos_iff.mpr ⟨r, h.mem, by simp [isPending, h.goal, h.pending]⟩

theorem routed_length_le {s : GoalDb} {routed : Option (PlannedTask × GoalDb)} (h : RoutedReady goalId s routed) :
    routed.toList.length ≤ pendingCount s goalId := by
  cases routed with
  | none => exact Nat.zero_le _
  | some x =>
    obtain ⟨⟨r, hr⟩, -⟩ := h x.1 x.2 rfl
    exact ready_pos hr

theorem routed_met {s : GoalDb} {routed : Option (PlannedTask × GoalDb)} (h : RoutedReady goalId s routed) :
    ∀ x ∈ routed.toList, DependenciesMet goalId x.1 x.2 := by
  intro x hx
  cases routed with
  | none => cases hx
  | some y =>
    rw [List.mem_singleton.mp hx]
    exact (h y.1 y.2 rfl).2

/-- The loop ends, routes as many tasks as are pending at most, and each one with its dependencies complete. By
induction on the fuel: a round that is followed by another one takes a task from the pending ones. -/
theorem drive_orderly {fuel k : ℕ} {s : GoalDb} (hfuel : pendingCount s goalId < fuel) :
    (∃ e, (drive host goal goalId turns fuel k s).ending = some e) ∧
    (drive host goal goalId turns fuel k s).routed.length ≤ pendingCount s goalId ∧
    ∀ x ∈ (drive host goal goalId turns fuel k s).routed, DependenciesMet goalId x.1 x.2 := by
  induction fuel generalizing k s with
  | zero => omega
  | succ fuel ih =>
    have hcase := round_cases host goal goalId (turns k) s
    by_cases hagain : (round host goal goalId (turns k) s).ending = .again
    · rw [drive_again hagain]
      generalize round host goal goalId (turns k) s = r at hcase hagain ⊢
      cases hcase with
      | @again row task db result cells hreads hready hskill hreply haccepted hcells hrouted =>
        have hcount : pendingCount (completedDb row.taskId cells s) goalId + 1 = pendingCount s goalId :=
          pendingCount_completedDb hready (completed_status hcells)
        obtain ⟨hend, hlength, hmet⟩ := ih (k := k + 1) (s := completedDb row.taskId cells s) (by omega)
        refine ⟨hend, ?_, fun x hx => ?_⟩
        · simp only [Option.toList_some, List.length_append, List.length_singleton]
          omega
        · rcases List.mem_append.mp hx with hx | hx
          · exact routed_met hrouted x hx
          · exact hmet x hx
      | finished => cases hagain
      | stopped => cases hagain
      | raised => cases hagain
    · rw [drive_stop hagain]
      generalize round host goal goalId (turns k) s = r at hcase hagain ⊢
      have hrouted : RoutedReady goalId s r.routed := by
        cases hcase with
        | again _ _ _ _ _ _ hrouted => exact hrouted
        | finished => exact routedReady_none
        | stopped _ hrouted => exact hrouted
        | raised hrouted => exact hrouted
      exact ⟨⟨_, rfl⟩, routed_length_le hrouted, routed_met hrouted⟩

theorem drive_not_again {fuel k : ℕ} {s : GoalDb} : (drive host goal goalId turns fuel k s).ending ≠ some .again := by
  induction fuel generalizing k s with
  | zero => exact fun h => by cases h
  | succ fuel ih =>
    by_cases hagain : (round host goal goalId (turns k) s).ending = .again
    · rw [drive_again hagain]
      exact ih
    · rw [drive_stop hagain]
      exact fun h => hagain (Option.some.inj h)

variable (host goal goalId turns) in
/-- What is known when the loop completes the goal: no task is pending, and so each of those that were has been
completed; nothing held them up, and no other task was touched. -/
structure CompletedRun (k : ℕ) (s s' : GoalDb) : Prop where
  none_pending : ∀ r ∈ s'.tasks, r.goalId = goalId → r.status ≠ .pending
  noStuck : NoStuck goalId s → NoStuck goalId s'
  not_stalled : ¬ Stalled goalId s
  completes : ∀ j < pendingCount s goalId, Completes host goal.confidenceThreshold (turns (k + j))
  reads : ∃ tasks, getTasks host s goalId = .ok tasks

/-- The loop completes the goal only in such a run; otherwise it stores another status, or raises. -/
theorem drive_cases {fuel k : ℕ} {s : GoalDb} (h : (drive host goal goalId turns fuel k s).ending = some .returned) :
    (∃ status s', status ≠ .complete ∧ (drive host goal goalId turns fuel k s).db = setGoalStatus goalId status s') ∨
    ∃ s', (drive host goal goalId turns fuel k s).db = setGoalStatus goalId .complete s' ∧
      CompletedRun host goal goalId turns k s s' := by
  induction fuel generalizing k s with
  | zero => cases h
  | succ fuel ih =>
    have hcase := round_cases host goal goalId (turns k) s
    by_cases hagain : (round host goal goalId (turns k) s).ending = .again
    · rw [drive_again hagain] at h ⊢
      generalize round host goal goalId (turns k) s = r at hcase hagain h ⊢
      cases hcase with
      | @again row task db result cells hreads hready hskill hreply haccepted hcells hrouted =>
        have hstatus := completed_status hcells
        have hcount : pendingCount (completedDb row.taskId cells s) goalId + 1 = pendingCount s goalId :=
          pendingCount_completedDb hready hstatus
        rcases ih h with hother | ⟨s', hs', hrun⟩
        · exact Or.inl hother
        · refine Or.inr ⟨s', hs', hrun.none_pending, fun hno => hrun.noStuck (noStuck_completedDb hstatus hno),
            fun hstalled => hrun.not_stalled (stalled_completedDb hready hskill hstatus hstalled), fun j hj => ?_, ?_⟩
          · cases j with
            | zero =>
              obtain ⟨tasks, htasks⟩ := hrun.reads
              obtain ⟨t, -, hread⟩ := getTasks_mem htasks (completedDb_row hready) hready.goal
              obtain ⟨confidence, hconfidence, -⟩ := (except_bind_ok_iff _ _ _).mp hread
              obtain ⟨cell, hcell⟩ := completed_confidence hcells
              rw [TaskCells.set_confidence, hcell] at hconfidence
              refine ⟨result, cells, confidence, hreply, haccepted, hcells, ?_⟩
              rw [hcell]
              exact hconfidence
            | succ j =>
              have hlt : j < pendingCount (completedDb row.taskId cells s) goalId := by omega
              have hj' := hrun.completes j hlt
              rw [show k + (j + 1) = k + 1 + j by omega]
              exact hj'
          · exact hreads
      | finished => cases hagain
      | stopped => cases hagain
      | raised => cases hagain
    · rw [drive_stop hagain] at h ⊢
      generalize round host goal goalId (turns k) s = r at hcase hagain h ⊢
      cases hcase with
      | again => exact absurd rfl hagain
      | @finished tasks htasks hpending =>
        have hnone : ∀ r ∈ s.tasks, r.goalId = goalId → r.status ≠ .pending := by
          intro r hr hgoal hstatus
          obtain ⟨t, ht, hread⟩ := getTasks_mem htasks hr hgoal
          have hmem : t ∈ tasks.filter (·.status = .pending) :=
            List.mem_filter.mpr ⟨ht, decide_eq_true (by rw [hread.status, hstatus])⟩
          rw [hpending] at hmem
          cases hmem
        refine Or.inr ⟨s, rfl, hnone, fun h => h, ?_, fun j hj => ?_, ⟨tasks, htasks⟩⟩
        · rintro ⟨P, ⟨r, hr, hgoal, hstatus, -⟩, -⟩
          exact hnone r hr hgoal hstatus
        · obtain ⟨r, hr, hpos⟩ := List.countP_pos_iff.mp (Nat.zero_lt_of_lt hj)
          simp only [isPending, Bool.and_eq_true, decide_eq_true_eq] at hpos
          exact absurd hpos.2 (hnone r hr hpos.1)
      | stopped hstatus _ => exact Or.inl ⟨_, _, hstatus, rfl⟩
      | raised => cases h

end Loop

/-! ## Calls -/

section Calls

variable {host : Host} {goalId : Uuid} {turns : ℕ → Turn} {s : GoalDb}

variable (host goalId) in
/-- A run that claims the goal does not reach the end with a task that is neither pending nor complete: there is no
such task, or some pending tasks are held up for ever, or the goal or its tasks cannot be read, or the router does
not complete every pending task. -/
def RunSafe (turns : ℕ → Turn) (s : GoalDb) : Prop :=
  (tryClaim goalId s).1 = true → NoStuck goalId s ∨ Stalled goalId s ∨
    raised (getGoal (tryClaim goalId s).2 goalId) = true ∨ raised (getTasks host s goalId) = true ∨
    ∃ g ∈ s.goals, g.goalId = goalId ∧ ∃ j < pendingCount s goalId, ¬ Completes host g.confidenceThreshold (turns j)

variable (host goalId) in
/-- The run of the call, if it has one, is safe. -/
def Safe (call : Call) (s : GoalDb) : Prop :=
  match call with
  | .run turns => RunSafe host goalId turns s
  | .resolve taskId true turns =>
    RunSafe host goalId turns (s.updateTaskRow taskId (fun r => { r with status := .complete }) fun _ => rfl)
  | .resolve _ false _ => True

theorem finished_setGoalStatus {status : GoalStatus} (h : status ≠ .complete) (s : GoalDb) :
    Finished goalId (setGoalStatus goalId status s) := by
  intro g hg hid hcomplete
  obtain ⟨x, -, rfl⟩ := Table.mem_updateWhere.mp hg
  by_cases hx : x.goalId = goalId
  · simp only [hx, decide_true, if_true] at hcomplete
    exact absurd hcomplete h
  · simp only [hx, decide_false, Bool.false_eq_true, if_false] at hid

theorem finished_complete (h : AllComplete goalId s) : Finished goalId (setGoalStatus goalId .complete s) :=
  fun _ _ _ _ => h

/-- A claim changes no row but that of the goal, and that one only from `ready` or `paused` to `running`. -/
theorem mem_tryClaim {g : GoalRow} (hg : g ∈ (tryClaim goalId s).2.goals) : ∃ x ∈ s.goals, x.goalId = g.goalId ∧
    x.confidenceThreshold = g.confidenceThreshold ∧ (g = x ∨ g.status = .running) := by
  obtain ⟨x, hx, rfl⟩ := Table.mem_updateWhere.mp hg
  refine ⟨x, hx, ?_⟩
  split_ifs
  · exact ⟨rfl, rfl, Or.inr rfl⟩
  · exact ⟨rfl, rfl, Or.inl rfl⟩
  · exact ⟨rfl, rfl, Or.inl rfl⟩

theorem finished_tryClaim (h : Finished goalId s) : Finished goalId (tryClaim goalId s).2 := by
  intro g hg hid hcomplete
  obtain ⟨x, hx, hxid, -, rfl | hrunning⟩ := mem_tryClaim hg
  · exact h g hx hid hcomplete
  · rw [hrunning] at hcomplete
    cases hcomplete

/-- The goal that `_drive` reads has the threshold of its row. -/
theorem getGoal_threshold {goal : GoalContract} (h : getGoal (tryClaim goalId s).2 goalId = .ok (some goal)) :
    ∃ g ∈ s.goals, g.goalId = goalId ∧ g.confidenceThreshold = goal.confidenceThreshold := by
  unfold getGoal at h
  cases hrow : (tryClaim goalId s).2.goal? goalId with
  | none =>
    rw [hrow] at h
    cases h
  | some row =>
    rw [hrow] at h
    obtain ⟨goal', hgoal, h⟩ := (except_bind_ok_iff _ _ _).mp h
    obtain rfl : goal' = goal := Option.some.inj (Except.ok.inj h)
    obtain ⟨hmem, hid⟩ := GoalDb.goal?_eq_some.mp hrow
    obtain ⟨x, hx, hxid, hthreshold, -⟩ := mem_tryClaim hmem
    exact ⟨x, hx, hxid.trans hid, hthreshold.trans (GoalContract.validate_threshold hgoal).symm⟩

/-- `_drive` ends, and what it routes is in order. -/
theorem driveGoal_orderly (host : Host) (goalId : Uuid) (turns : ℕ → Turn) (s : GoalDb) :
    (∃ e, (driveGoal host goalId turns s).ending = some e) ∧
    (driveGoal host goalId turns s).routed.length ≤ pendingCount s goalId ∧
    ∀ x ∈ (driveGoal host goalId turns s).routed, DependenciesMet goalId x.1 x.2 := by
  unfold driveGoal
  split
  · exact ⟨⟨_, rfl⟩, Nat.zero_le _, fun x hx => absurd hx List.not_mem_nil⟩
  · exact ⟨⟨_, rfl⟩, Nat.zero_le _, fun x hx => absurd hx List.not_mem_nil⟩
  · exact drive_orderly (Nat.lt_succ_self _)

/-- A safe run of a loop that completes the goal leaves every task complete. -/
theorem completedRun_all {goal : GoalContract} {s' : GoalDb} (hsafe : RunSafe host goalId turns s)
    (hclaim : (tryClaim goalId s).1 = true) (hgoal : getGoal (tryClaim goalId s).2 goalId = .ok (some goal))
    (hrun : CompletedRun host goal goalId turns 0 (tryClaim goalId s).2 s') : AllComplete goalId s' := by
  rcases hsafe hclaim with hno | hstalled | hraised | hraised | ⟨g, hg, hid, j, hj, hnot⟩
  · intro r hr hgoalId
    rcases hrun.noStuck hno r hr hgoalId with hpending | hcomplete
    · exact absurd hpending (hrun.none_pending r hr hgoalId)
    · exact hcomplete
  · exact absurd hstalled hrun.not_stalled
  · rw [hgoal] at hraised
    cases hraised
  · obtain ⟨tasks, htasks⟩ := hrun.reads
    have htasks : getTasks host s goalId = .ok tasks := htasks
    rw [htasks] at hraised
    cases hraised
  · exfalso
    obtain ⟨g', hg', hid', hthreshold⟩ := getGoal_threshold hgoal
    have hsame : g = g' := Table.eq_of_key _ s.goalIds_nodup hg hg' (hid.trans hid'.symm)
    have hcompletes := hrun.completes j hj
    rw [Nat.zero_add, ← hthreshold, ← hsame] at hcompletes
    exact hnot hcompletes

theorem run_finished (hsafe : RunSafe host goalId turns s) (h : Finished goalId s) :
    Finished goalId (run host goalId turns s).1 := by
  unfold run
  by_cases hclaim : (tryClaim goalId s).1 = true
  · simp only [hclaim, if_true]
    split
    · exact finished_setGoalStatus (by decide) _
    · next hraised =>
      obtain ⟨e, he⟩ := (driveGoal_orderly host goalId turns (tryClaim goalId s).2).1
      cases hgoal : getGoal (tryClaim goalId s).2 goalId with
      | error e =>
        simp only [driveGoal, hgoal] at hraised
        exact absurd rfl (hraised e)
      | ok found =>
        cases found with
        | none =>
          simp only [driveGoal, hgoal] at hraised
          exact absurd rfl (hraised _)
        | some goal =>
          simp only [driveGoal, hgoal] at hraised he ⊢
          cases e with
          | again => exact absurd he drive_not_again
          | raised e => exact absurd he (hraised e)
          | returned =>
            rcases drive_cases he with ⟨status, s', hstatus, hdb⟩ | ⟨s', hdb, hrun⟩
            · rw [hdb]
              exact finished_setGoalStatus hstatus s'
            · rw [hdb]
              exact finished_complete (completedRun_all hsafe hclaim hgoal hrun)
  · simp only [hclaim, Bool.false_eq_true, if_false]
    exact finished_tryClaim h

theorem resolve_finished {taskId : Uuid} {approved : Bool} (hsafe : Safe host goalId (.resolve taskId approved turns) s)
    (h : Finished goalId s) : Finished goalId (resolveEscalatedTask host goalId taskId approved turns s).1 := by
  cases approved with
  | true =>
    have hupdate : updateTask host taskId { status := .complete } s =
        .ok (s.updateTaskRow taskId (fun r => { r with status := .complete }) fun _ => rfl) := rfl
    unfold resolveEscalatedTask
    simp only [if_true, hupdate]
    refine run_finished hsafe fun g hg hid hcomplete r hr hgoal => ?_
    obtain ⟨x, hx, rfl⟩ := Table.mem_updateWhere.mp hr
    split_ifs at hgoal ⊢
    · rfl
    · exact h g hg hid hcomplete x hx hgoal
  | false =>
    unfold resolveEscalatedTask
    simp only [Bool.false_eq_true, if_false]
    cases updateTask host taskId rejected s with
    | error e => exact h
    | ok s' => exact finished_setGoalStatus (by decide) s'

theorem exec_finished {call : Call} (hsafe : Safe host goalId call s) (h : Finished goalId s) :
    Finished goalId (exec host goalId call s).1 := by
  cases call with
  | run turns => exact run_finished hsafe h
  | resolve taskId approved turns => exact resolve_finished hsafe h

variable (host goalId) in
/-- The call routes as many tasks as are pending at most, each one with its dependencies complete. -/
def Orderly (call : Call) (s : GoalDb) : Prop :=
  (∀ x ∈ (exec host goalId call s).2, DependenciesMet goalId x.1 x.2) ∧
    (exec host goalId call s).2.length ≤ pendingCount s goalId

theorem run_orderly (host : Host) (goalId : Uuid) (turns : ℕ → Turn) (s : GoalDb) :
    (∀ x ∈ (run host goalId turns s).2, DependenciesMet goalId x.1 x.2) ∧
      (run host goalId turns s).2.length ≤ pendingCount s goalId := by
  obtain ⟨-, hlength, hmet⟩ := driveGoal_orderly host goalId turns (tryClaim goalId s).2
  unfold run
  by_cases hclaim : (tryClaim goalId s).1 = true
  · simp only [hclaim, if_true]
    split
    · exact ⟨hmet, hlength⟩
    · exact ⟨hmet, hlength⟩
  · simp only [hclaim, Bool.false_eq_true, if_false]
    exact ⟨fun x hx => absurd hx List.not_mem_nil, Nat.zero_le _⟩

theorem exec_orderly (host : Host) (goalId : Uuid) (call : Call) (s : GoalDb) : Orderly host goalId call s := by
  cases call with
  | run turns => exact run_orderly host goalId turns s
  | resolve taskId approved turns =>
    cases approved with
    | true =>
      have hexec : exec host goalId (.resolve taskId true turns) s = run host goalId turns
          (s.updateTaskRow taskId (fun r => { r with status := .complete }) fun _ => rfl) := rfl
      obtain ⟨hmet, hlength⟩ := run_orderly host goalId turns
        (s.updateTaskRow taskId (fun r => { r with status := .complete }) fun _ => rfl)
      unfold Orderly
      rw [hexec]
      -- an approved task is not pending any more
      refine ⟨hmet, le_trans hlength (Table.countP_updateWhere_le fun x _ _ hx => ?_)⟩
      simp [isPending] at hx
    | false =>
      have hnone : (exec host goalId (.resolve taskId false turns) s).2 = [] := by
        unfold exec resolveEscalatedTask
        simp only [Bool.false_eq_true, if_false]
        cases updateTask host taskId rejected s with
        | error e => rfl
        | ok s' => rfl
      unfold Orderly
      rw [hnone]
      exact ⟨fun x hx => absurd hx List.not_mem_nil, Nat.zero_le _⟩

end Calls

variable (host : Host) (goalId : Uuid) in
/-- The database after a call. -/
def step (call : Call) (s : GoalDb) : GoalDb := (exec host goalId call s).1

/-- The loop of the runner always ends, and has then routed as many tasks as were pending at most. In every run whose
calls are safe, no task is routed before its dependencies are complete, and the goal is stored as complete only with
every task of it complete. -/
theorem runner_completes_finished (host : Host) (goalId : Uuid) (calls : List Call) (s : GoalDb)
    (hstart : Finished goalId s) (hsafe : Machine.Along (step host goalId) (Safe host goalId) calls s) :
    (∀ turns s', (∃ e, (driveGoal host goalId turns s').ending = some e) ∧
      (driveGoal host goalId turns s').routed.length ≤ pendingCount s' goalId) ∧
    Machine.Along (step host goalId) (fun call s => Orderly host goalId call s ∧ Finished goalId s) calls s ∧
      Finished goalId (Machine.run (step host goalId) calls s) := by
  have hinvariant : Machine.Along (step host goalId) (fun _ s => Finished goalId s) calls s ∧
      Finished goalId (Machine.run (step host goalId) calls s) :=
    Machine.Along.invariant (fun _ _ h hsafe => exec_finished hsafe h) hstart hsafe
  refine ⟨fun turns s' => ?_, hinvariant.1.mono fun call s h => ⟨exec_orderly host goalId call s, h⟩, hinvariant.2⟩
  obtain ⟨hend, hlength, -⟩ := driveGoal_orderly host goalId turns s'
  exact ⟨hend, hlength⟩

/-! ## A goal of one task -/

/-- A goal with a plan of one task. -/
def plannedDb : GoalDb where
  goals := [{ goalId := 1, origin := "api", objective := "build a page", confidenceThreshold := .finite (13 / 20),
              status := .ready, planConfidence := some (.finite 1), createdAt := .ofMicros 0, workspaceRoot := none }]
  projects := []
  tasks := [{ taskId := 3, projectId := 2, goalId := 1, skill := "s.a", payload := [], dependsOn := [], status := .pending,
              confidence := .null, result := none, error := none, ordinal := 0 }]
  events := []
  goalIds_nodup := by decide
  projectIds_nodup := by decide
  taskIds_nodup := by decide

/-- A host without conversions of its own. -/
def runnerHost : Host := ⟨fun _ => none, fun _ => "", fun _ => none⟩

/-- A router that completes every task. -/
def completing (_ : ℕ) : Turn :=
  ⟨9, .ok [("status", .str "complete"), ("confidence", .float (.finite (9 / 10)))], .ok ()⟩

/-- A router that escalates every task. -/
def escalating (_ : ℕ) : Turn :=
  ⟨9, .ok [("status", .str "escalated"), ("confidence", .float (.finite (3 / 10)))], .ok ()⟩

theorem plannedDb_completes : Finished 1 plannedDb ∧
    Machine.Along (step runnerHost 1) (Safe runnerHost 1) [.run completing] plannedDb ∧
    (Machine.run (step runnerHost 1) [.run completing] plannedDb).goals.map (·.status) = [.complete] ∧
    Finished 1 (Machine.run (step runnerHost 1) [.run completing] plannedDb) := by
  have hstart : Finished 1 plannedDb := by
    unfold Finished AllComplete
    decide
  have hsafe : Machine.Along (step runnerHost 1) (Safe runnerHost 1) [.run completing] plannedDb := by
    refine ⟨fun _ => Or.inl ?_, trivial⟩
    unfold NoStuck
    decide
  exact ⟨hstart, hsafe, by decide +kernel, (runner_completes_finished runnerHost 1 _ _ hstart hsafe).2.2⟩

/-- A second run claims the paused goal, finds no task pending, and completes the goal with its task escalated. -/
theorem escalated_completes :
    (Machine.run (step runnerHost 1) [.run escalating, .run escalating] plannedDb).goals.map (·.status) = [.complete] ∧
    (Machine.run (step runnerHost 1) [.run escalating, .run escalating] plannedDb).tasks.map (·.status) = [.escalated] ∧
    ¬ ∀ (host : Host) (goalId : Uuid) (calls : List Call) (s : GoalDb), Finished goalId s →
      Finished goalId (Machine.run (step host goalId) calls s) := by
  refine ⟨by decide +kernel, by decide +kernel, fun h => ?_⟩
  have hstart : Finished 1 plannedDb := by
    unfold Finished AllComplete
    decide
  have hend := h runnerHost 1 [.run escalating, .run escalating] plannedDb hstart
  have hnot : ¬ Finished 1 (Machine.run (step runnerHost 1) [.run escalating, .run escalating] plannedDb) := by
    unfold Finished AllComplete
    decide +kernel
  exact hnot hend

end GoalRunner

end Galaxz
