import Galaxz.Goals.Guarantees
import Galaxz.Goals.Proofs.GuaranteeProofs
import Galaxz.Jobs.Proofs.CancelProofs

/-!
# Proofs: a cancellation among workers

Workers leave the goals alone, and jobs that are over. So the tasks that the cancellation has dealt with stay settled,
and it goes on to the end unless a job that it cancels has completed or failed.
-/

namespace Galaxz

open DurableGoalCoordinator SqliteJobRepository Prog

/-! ## The others -/

/-- What the calls of others leave: the goals, the jobs that are there, and those that are over. -/
structure AfterWork (w w₁ : World) : Prop where
  goals : w₁.goals = w.goals
  inv : w₁.jobs.Inv
  found : ∀ jobId, (w₁.jobs.job? jobId).isSome = true ↔ (w.jobs.job? jobId).isSome = true
  ended : ∀ jobId, w.jobs.Over jobId → w₁.jobs.Over jobId

theorem AfterWork.refl {w : World} (h : w.jobs.Inv) : AfterWork w w :=
  ⟨rfl, h, fun _ => Iff.rfl, fun _ hover => hover⟩

theorem AfterWork.trans {w w₁ w₂ : World} (h : AfterWork w w₁) (h' : AfterWork w₁ w₂) : AfterWork w w₂ where
  goals := h'.goals.trans h.goals
  inv := h'.inv
  found jobId := (h'.found jobId).trans (h.found jobId)
  ended jobId hover := h'.ended jobId (h.ended jobId hover)

/-- A call that submits nothing leaves the jobs that are over. -/
theorem Db.Over.step {s : Db} (h : s.Inv) {jobId : Uuid} (hover : s.Over jobId) {call : JobCall}
    (hcall : call.submission? = none) : (step call s).Over jobId := by
  have hfound := step_isSome_job? h hcall jobId
  cases hrow : s.job? jobId with
  | none =>
    rw [hrow] at hfound
    intro row hrow'
    rw [hrow'] at hfound
    exact absurd (hfound.mp rfl) (by simp)
  | some row =>
    intro row' hrow'
    have hsame := step_job?_of_over h call hrow (hover row hrow)
    rw [hrow'] at hsame
    cases hsame
    exact hover row hrow

theorem afterWork_step {w w₁ : World} (h : AfterWork w w₁) (o : WorkerCall) : AfterWork w (World.workerStep o w₁) where
  goals := h.goals
  inv := step_inv o.1 w₁.jobs h.inv
  found jobId := (step_isSome_job? h.inv o.2 jobId).trans (h.found jobId)
  ended jobId hover := (h.ended jobId hover).step h.inv o.2

/-! ## Calls in between -/

section Calls

variable {host : Host} {goalId : Uuid} {w : World} {β : Type} {T : β → World → Prop}

/-- The program returns among the others, if no job is cancelled after it has completed or failed. -/
abbrev ReturnsAmong (host : Host) {α : Type} (p : Coord α) (Q : α → World → Prop) (w : World) : Prop :=
  Returns (World.exec host) World.workerStep NotFinished p Q w

/-- The rule of one call and what follows it. -/
theorem returns_call {call : StoreCall} {f : call.Answer → Coord β} (hw : w.jobs.Inv)
    (hf : ∀ w₁, AfterWork w w₁ → NotFinished call w₁ →
      ∃ a w', World.exec host call w₁ = (.ok a, w') ∧ ReturnsAmong host (f a) T w') :
    ReturnsAmong host (Prog.call call .pure >>= f) T w :=
  Returns.call (I := AfterWork w) (fun o _ h => afterWork_step h o) (AfterWork.refl hw) hf

/-! ## The tasks -/

/-- What holds while the tasks are still to be dealt with: they are as they were, the others are settled, and the jobs
of those are over. -/
structure Remaining (start : World) (goalId : Uuid) (tasks : List PlannedTask) (w : World) : Prop where
  inv : w.jobs.Inv
  goal : ∃ row, w.goals.goal? goalId = some row
  todo : ∀ t ∈ tasks, ∃ r, start.goals.task? t.taskId = some r ∧ w.goals.task? t.taskId = some r ∧
    r.goalId = goalId ∧ r.status = t.status
  settled : ∀ taskId r, w.goals.task? taskId = some r → r.goalId = goalId → taskId ∉ tasks.map (·.taskId) →
    r.status ≠ .running ∧ r.status ≠ .pending
  ended : ∀ taskId r, start.goals.task? taskId = some r → r.goalId = goalId →
    taskId ∉ tasks.map (·.taskId) ∨ r.status ≠ .running → ∀ jobId, r.jobId = some jobId → w.jobs.Over jobId

theorem Remaining.afterWork {start w w₁ : World} {tasks : List PlannedTask} (h : Remaining start goalId tasks w)
    (hwork : AfterWork w w₁) : Remaining start goalId tasks w₁ where
  inv := hwork.inv
  goal := by
    rw [hwork.goals]
    exact h.goal
  todo := by
    rw [hwork.goals]
    exact h.todo
  settled := by
    rw [hwork.goals]
    exact h.settled
  ended taskId r hrow hgoal hcase jobId hjob := hwork.ended jobId (h.ended taskId r hrow hgoal hcase jobId hjob)

/-- A task that is dealt with: it is settled, and its job is over. -/
theorem Remaining.tail {start w : World} {task : PlannedTask} {tasks : List PlannedTask}
    (h : Remaining start goalId (task :: tasks) w)
    (hsettled : ∀ r, w.goals.task? task.taskId = some r → r.goalId = goalId → r.status ≠ .running ∧ r.status ≠ .pending)
    (hover : ∀ r, start.goals.task? task.taskId = some r → ∀ jobId, r.jobId = some jobId → w.jobs.Over jobId) :
    Remaining start goalId tasks w where
  inv := h.inv
  goal := h.goal
  todo t ht := h.todo t (List.mem_cons_of_mem _ ht)
  settled taskId r hrow hgoal hnot := by
    by_cases heq : taskId = task.taskId
    · subst heq
      exact hsettled r hrow hgoal
    · refine h.settled taskId r hrow hgoal ?_
      rw [List.map_cons, List.mem_cons, not_or]
      exact ⟨heq, hnot⟩
  ended taskId r hrow hgoal hcase jobId hjob := by
    by_cases heq : taskId = task.taskId
    · subst heq
      exact hover r hrow jobId hjob
    · refine h.ended taskId r hrow hgoal ?_ jobId hjob
      rcases hcase with hnot | hstatus
      · rw [List.map_cons, List.mem_cons, not_or]
        exact Or.inl ⟨heq, hnot⟩
      · exact Or.inr hstatus

/-- The update that cancels a task. -/
theorem exec_cancelUpdate (host : Host) (taskId : Uuid) (w : World) :
    World.exec host (.updateTask taskId { status := .cancelled }) w = (.ok (), { w with
      goals := w.goals.updateTaskRow taskId (fun r => { r with status := .cancelled }) fun _ => rfl }) :=
  rfl

/-- The task is cancelled in the goals, and its job is over. -/
theorem Remaining.cancelled {start w : World} {task : PlannedTask} {tasks : List PlannedTask}
    (h : Remaining start goalId (task :: tasks) w) (hnodup : ((task :: tasks).map (·.taskId)).Nodup)
    (hover : ∀ r, start.goals.task? task.taskId = some r → ∀ jobId, r.jobId = some jobId → w.jobs.Over jobId) :
    Remaining start goalId tasks { w with
      goals := w.goals.updateTaskRow task.taskId (fun r => { r with status := .cancelled }) fun _ => rfl } := by
  rw [List.map_cons, List.nodup_cons] at hnodup
  have hkept : ∀ taskId, taskId ≠ task.taskId →
      (w.goals.updateTaskRow task.taskId (fun r => { r with status := .cancelled }) fun _ => rfl).task? taskId =
        w.goals.task? taskId := by
    intro taskId hne
    rw [GoalDb.task?_updateTaskRow, if_neg hne]
  constructor
  · exact h.inv
  · exact h.goal
  · intro t ht
    obtain ⟨r, hstart, hrow, hgoal, hstatus⟩ := h.todo t (List.mem_cons_of_mem _ ht)
    have hne : t.taskId ≠ task.taskId := fun e => hnodup.1 (e ▸ List.mem_map_of_mem ht)
    exact ⟨r, hstart, (hkept _ hne).trans hrow, hgoal, hstatus⟩
  · intro taskId r hrow hgoal hnot
    by_cases heq : taskId = task.taskId
    · subst heq
      dsimp only at hrow
      rw [GoalDb.task?_updateTaskRow, if_pos rfl] at hrow
      obtain ⟨r', -, rfl⟩ := Option.map_eq_some_iff.mp hrow
      exact ⟨by simp, by simp⟩
    · refine h.settled taskId r ((hkept _ heq).symm.trans hrow) hgoal ?_
      rw [List.map_cons, List.mem_cons, not_or]
      exact ⟨heq, hnot⟩
  · intro taskId r hrow hgoal hcase jobId hjob
    by_cases heq : taskId = task.taskId
    · subst heq
      exact hover r hrow jobId hjob
    · refine h.ended taskId r hrow hgoal ?_ jobId hjob
      rcases hcase with hnot | hstatus
      · rw [List.map_cons, List.mem_cons, not_or]
        exact Or.inl ⟨heq, hnot⟩
      · exact Or.inr hstatus

/-! ## The program -/

/-- A cancellation of a job leaves what the calls of others leave. -/
theorem afterWork_cancelJob (h : w.jobs.Inv) (jobId : Uuid) : AfterWork w (World.exec host (.cancelJob jobId) w).2 := by
  have hstep := afterWork_step (AfterWork.refl h) ⟨.cancel jobId (w.readings 0).now, rfl⟩
  exact ⟨rfl, hstep.inv, hstep.found, hstep.ended⟩

/-- A job that is read is cancelled, unless it is over. -/
theorem returns_cancelTaskJob (hw : w.jobs.Inv) {jobId : Uuid} {job : Option Job}
    (hjob : getJob w.jobs jobId = .ok job) :
    ReturnsAmong host (cancelTaskJob job) (fun _ w' => AfterWork w w' ∧ w'.jobs.Over jobId) w := by
  cases hrow : w.jobs.job? jobId with
  | none =>
    obtain ⟨found, hfound, hiff⟩ := getJob_ok hw jobId
    rw [hjob] at hfound
    cases hfound
    cases job with
    | none =>
      refine ⟨AfterWork.refl hw, fun row hsome => ?_⟩
      rw [hrow] at hsome
      cases hsome
    | some job =>
      rw [hrow] at hiff
      exact absurd (hiff.mp rfl) (by simp)
  | some row =>
    obtain ⟨job', -, hget, hid, hstatus⟩ := getJobAsserted_spec hw hrow
    rw [hjob] at hget
    cases hget
    unfold cancelTaskJob
    dsimp only
    by_cases hactive : job'.status = .queued ∨ job'.status = .running
    · rw [if_pos hactive, hid]
      refine returns_call hw fun w₁ hwork hfit => ?_
      obtain ⟨row₁, hrow₁⟩ := Option.isSome_iff_exists.mp ((hwork.found jobId).mpr (by rw [hrow]; rfl))
      have hcancelled := cancel_spec hwork.inv hrow₁ (w₁.readings 0).now
      rcases hcancelled with ⟨hend, -⟩ | ⟨-, job, s', row', hok, -, hrow', hcancelled⟩
      · have hnot := hfit jobId (Option.mem_some_self jobId) row₁ hrow₁
        rcases hend with hend | hend
        · exact absurd hend hnot.1
        · exact absurd hend hnot.2
      · have hexec : World.exec host (.cancelJob jobId) w₁ = (.ok job, World.used { w₁ with jobs := s' }) := by
          show ((cancel jobId (w₁.readings 0).now w₁.jobs).1,
            World.used { w₁ with jobs := (cancel jobId (w₁.readings 0).now w₁.jobs).2 }) = _
          rw [hok]
        have hafter : AfterWork w₁ (World.exec host (.cancelJob jobId) w₁).2 := afterWork_cancelJob hwork.inv jobId
        rw [hexec] at hafter
        refine ⟨job, _, hexec, hwork.trans hafter, fun row₂ hrow₂ => ?_⟩
        have hsame : s'.job? jobId = some row₂ := hrow₂
        rw [hrow'] at hsame
        cases hsame
        rw [hcancelled]
        rfl
    · rw [if_neg hactive]
      refine ⟨AfterWork.refl hw, fun row' hrow' => ?_⟩
      rw [hrow] at hrow'
      cases hrow'
      rw [hstatus, not_or] at hactive
      cases hend : row.status with
      | queued => exact absurd hend hactive.1
      | running => exact absurd hend hactive.2
      | completed => rfl
      | failed => rfl
      | cancelled => rfl

/-- The job of a running task is over afterwards. -/
theorem returns_cancelTask {start : World} {task : PlannedTask} {tasks : List PlannedTask}
    (h : Remaining start goalId (task :: tasks) w) :
    ReturnsAmong host (cancelTask task.taskId) (fun _ w' => Remaining start goalId (task :: tasks) w' ∧
      ∀ r, start.goals.task? task.taskId = some r → ∀ jobId, r.jobId = some jobId → w'.jobs.Over jobId) w := by
  obtain ⟨r, hstart, hrow, -⟩ := h.todo task List.mem_cons_self
  refine returns_call h.inv fun w₁ hwork _ => ?_
  have hread : GoalStore.taskExecution w₁.goals task.taskId = .ok ⟨r.jobId, r.resolvedPayload⟩ := by
    unfold GoalStore.taskExecution
    rw [hwork.goals, hrow]
  refine ⟨⟨r.jobId, r.resolvedPayload⟩, w₁, by rw [← hread]; rfl, ?_⟩
  cases hjob : r.jobId with
  | none =>
    refine ⟨h.afterWork hwork, fun r' hr' jobId hjob' => ?_⟩
    rw [hstart] at hr'
    cases hr'
    rw [hjob] at hjob'
    cases hjob'
  | some jobId =>
    refine returns_call hwork.inv fun w₂ hwork₂ _ => ?_
    obtain ⟨job, hget, -⟩ := getJob_ok hwork₂.inv jobId
    refine ⟨job, w₂, by rw [← hget]; rfl, ?_⟩
    have hcancel := @returns_cancelTaskJob host w₂ hwork₂.inv jobId job hget
    refine Returns.mono hcancel fun _ w' hw' => ⟨((h.afterWork hwork).afterWork hwork₂).afterWork hw'.1, ?_⟩
    intro r' hr' jobId' hjob'
    rw [hstart] at hr'
    cases hr'
    rw [hjob] at hjob'
    cases hjob'
    exact hw'.2

/-- All tasks are dealt with, one after the other. -/
theorem returns_cancelTasks {start : World} {tasks : List PlannedTask} (hnodup : (tasks.map (·.taskId)).Nodup)
    (h : Remaining start goalId tasks w) (affected : List String) :
    ReturnsAmong host (cancelTasks tasks affected) (fun _ w' => Remaining start goalId [] w') w := by
  induction tasks generalizing w affected with
  | nil => exact h
  | cons task tasks ih =>
    have hrest := List.Nodup.of_cons hnodup
    obtain ⟨r, hstart, hrow, hgoal, hstatus⟩ := h.todo task List.mem_cons_self
    have hover : task.status ≠ .running → ∀ w', Remaining start goalId (task :: tasks) w' →
        ∀ r, start.goals.task? task.taskId = some r → ∀ jobId, r.jobId = some jobId → w'.jobs.Over jobId := by
      intro hnot w' hw' r' hr' jobId hjob
      rw [hstart] at hr'
      cases hr'
      exact hw'.ended task.taskId r hstart hgoal (Or.inr (by rw [hstatus]; exact hnot)) jobId hjob
    rw [cancelTasks]
    split_ifs with hrunning hpending
    · refine Returns.bind (returns_cancelTask h) fun _ w₁ hw₁ => returns_call hw₁.1.inv fun w₂ hwork _ => ?_
      refine ⟨(), _, exec_cancelUpdate host task.taskId w₂, ih hrest ?_ _⟩
      exact (hw₁.1.afterWork hwork).cancelled hnodup fun r hr jobId hjob => hwork.ended jobId (hw₁.2 r hr jobId hjob)
    · refine returns_call h.inv fun w₁ hwork _ => ?_
      refine ⟨(), _, exec_cancelUpdate host task.taskId w₁, ih hrest ?_ _⟩
      exact (h.afterWork hwork).cancelled hnodup (hover hrunning w₁ (h.afterWork hwork))
    · refine ih hrest (h.tail (fun r' hr' _ => ?_) (hover hrunning w h)) affected
      rw [hrow] at hr'
      cases hr'
      rw [hstatus]
      exact ⟨hrunning, hpending⟩

end Calls

/-! ## The cancellation -/

/-- What holds when the cancellation has returned, and stays so. -/
structure CancelSettled (start : World) (goalId : Uuid) (w : World) : Prop where
  inv : w.jobs.Inv
  cancelled : ∃ row, w.goals.goal? goalId = some row ∧ row.status = .cancelled
  tasks : ∀ t ∈ w.goals.tasks, t.goalId = goalId → t.status ≠ .running ∧ t.status ≠ .pending
  jobs : ∀ t ∈ start.goals.tasks, t.goalId = goalId → ∀ jobId, t.jobId = some jobId → w.jobs.Over jobId

section Cancellation

variable {host : Host} {goalId : Uuid} {start : World}

theorem CancelSettled.step {w : World} (h : CancelSettled start goalId w) (o : WorkerCall) :
    CancelSettled start goalId (World.workerStep o w) where
  inv := step_inv o.1 w.jobs h.inv
  cancelled := h.cancelled
  tasks := h.tasks
  jobs t ht hgoal jobId hjob := (h.jobs t ht hgoal jobId hjob).step h.inv o.2

/-- An open goal that can be read is read as open. -/
theorem getGoal_open (hopen : start.goals.IsOpen goalId) {answer : Option GoalContract}
    (hread : GoalStore.getGoal start.goals goalId = .ok answer) : ∃ goal, answer = some goal ∧
      goal.status ≠ .cancelled ∧ ¬ (goal.status = .complete ∨ goal.status = .failed) := by
  obtain ⟨row, hrow, hstatus⟩ := hopen
  unfold GoalStore.getGoal at hread
  rw [hrow] at hread
  obtain ⟨goal, hgoal, h⟩ := (except_bind_ok_iff _ _ _).mp hread
  cases h
  refine ⟨goal, rfl, ?_⟩
  rw [GoalContract.validate_status hgoal]
  show row.status ≠ _ ∧ ¬ (row.status = _ ∨ row.status = _)
  rcases hstatus with h | h | h
  · rw [h]
    decide
  · rw [h]
    decide
  · rw [h]
    decide

/-- Before the first task, all of them remain. -/
theorem remaining_all (hrest : start.RestOver goalId) (hopen : start.goals.IsOpen goalId) {w : World}
    (hwork : AfterWork start w) {tasks : List PlannedTask}
    (hread : GoalStore.getTasks host start.goals goalId = .ok tasks) : Remaining start goalId tasks w where
  inv := hwork.inv
  goal := by
    obtain ⟨row, hrow, -⟩ := hopen
    rw [hwork.goals]
    exact ⟨row, hrow⟩
  todo t ht := by
    obtain ⟨r, hrow, hgoal, hreads⟩ := getTasks_row hread ht
    rw [hwork.goals]
    exact ⟨r, hrow, hrow, hgoal, hreads.status.symm⟩
  settled taskId r hrow hgoal hnot := by
    rw [hwork.goals] at hrow
    obtain ⟨hmem, hid⟩ := GoalDb.task?_eq_some.mp hrow
    obtain ⟨t, ht, hreads⟩ := getTasks_mem hread hmem hgoal
    rw [← hid, ← hreads.taskId] at hnot
    exact absurd (List.mem_map_of_mem ht) hnot
  ended taskId r hrow hgoal hcase jobId hjob := by
    obtain ⟨hmem, hid⟩ := GoalDb.task?_eq_some.mp hrow
    rcases hcase with hnot | hstatus
    · obtain ⟨t, ht, hreads⟩ := getTasks_mem hread hmem hgoal
      rw [← hid, ← hreads.taskId] at hnot
      exact absurd (List.mem_map_of_mem ht) hnot
    · exact hwork.ended jobId (hrest r hmem hgoal hstatus jobId hjob)

/-- The cancellation goes through, among whatever calls. -/
theorem returns_cancel (hinv : start.jobs.Inv) (hopen : start.goals.IsOpen goalId) (hreads : start.Reads host goalId)
    (hrest : start.RestOver goalId) (actor : String) (reason : Option String) :
    ReturnsAmong host (DurableGoalCoordinator.cancel goalId actor reason) (fun _ => CancelSettled start goalId) start := by
  obtain ⟨⟨goal, hgoal⟩, tasks, htasks⟩ := hreads
  obtain ⟨goal', heq, hcancelled, hover⟩ := getGoal_open hopen hgoal
  cases heq
  refine returns_call hinv fun w₁ hwork _ => ⟨some goal, w₁, ?_, ?_⟩
  · show (GoalStore.getGoal w₁.goals goalId, w₁) = _
    rw [hwork.goals, hgoal]
  dsimp only
  rw [if_neg hcancelled, if_neg hover]
  refine returns_call hwork.inv fun w₂ hwork₂ _ => ⟨tasks, w₂, ?_, ?_⟩
  · show (GoalStore.getTasks host w₂.goals goalId, w₂) = _
    rw [hwork₂.goals, hwork.goals, htasks]
  have hremaining := remaining_all hrest hopen (hwork.trans hwork₂) htasks
  refine Returns.bind (returns_cancelTasks (getTasks_nodup htasks) hremaining []) fun affected w₃ hw₃ => ?_
  refine returns_call hw₃.inv fun w₄ hwork₄ _ => ⟨(), _, rfl, ?_⟩
  have hw₄ := hw₃.afterWork hwork₄
  have hsettled : CancelSettled start goalId { w₄ with goals := GoalStore.setGoalStatus goalId .cancelled w₄.goals } := by
    constructor
    · exact hw₄.inv
    · obtain ⟨row, hrow⟩ := hw₄.goal
      refine ⟨{ row with status := .cancelled }, ?_, rfl⟩
      show (GoalStore.setGoalStatus goalId .cancelled w₄.goals).goal? goalId = _
      unfold GoalStore.setGoalStatus
      rw [GoalDb.goal?_updateGoal, if_pos rfl, hrow]
      rfl
    · intro t ht hgoal
      exact hw₄.settled t.taskId t (GoalDb.task?_eq_some.mpr ⟨ht, rfl⟩) hgoal List.not_mem_nil
    · intro t ht hgoal
      exact hw₄.ended t.taskId t (GoalDb.task?_eq_some.mpr ⟨ht, rfl⟩) hgoal (Or.inl List.not_mem_nil)
  intro others _
  have hlast := Machine.run_invariant (I := CancelSettled start goalId) (fun o _ h => CancelSettled.step h o) others _ hsettled
  exact ⟨(), _, rfl, hlast.inv, hlast.cancelled, hlast.tasks, hlast.jobs⟩

/-! ## When it goes through -/

/-- What the calls on the job store preserve, every call of the coordinator does. -/
theorem exec_keepsJobs {I : Db → Prop} (hstep : ∀ call s, I s → I (step call s)) (call : StoreCall) (w : World)
    (h : I w.jobs) : I (World.exec host call w).2.jobs := by
  cases call with
  | enqueue taskId task key =>
    exact hstep (.enqueue (w.readings 0).id taskId (some task) key 0 none (w.readings 0).now) _ h
  | cancelJob jobId => exact hstep (.cancel jobId (w.readings 0).now) _ h
  | updateTask taskId update =>
    rw [World.exec]
    split
    · exact h
    · exact h
  | _ => exact h

/-- A call that returns cancels no job that has completed or failed. -/
theorem notFinished_of_ok {call : StoreCall} {w : World} (h : w.jobs.Inv) {answer : call.Answer}
    (hok : (World.exec host call w).1 = .ok answer) : NotFinished call w := by
  intro jobId hjob row hrow
  have hcall : call = .cancelJob jobId := by
    cases call with
    | cancelJob jobId' => exact congrArg _ (Option.some.inj hjob)
    | _ => cases hjob
  subst hcall
  rcases cancel_spec h hrow (w.readings 0).now with ⟨-, message, he⟩ | ⟨hnot, -⟩
  · have herror : (cancel jobId (w.readings 0).now w.jobs).1 = .ok answer := hok
    rw [he] at herror
    cases herror
  · exact hnot

theorem notFinished_of_returns (hinv : start.jobs.Inv) {actor : String} {reason : Option String}
    {others : List (List WorkerCall)} (h : (World.cancelAmong host goalId actor reason others start).1 = .ok ()) :
    ∀ x ∈ World.cancelCalls host goalId actor reason others start, NotFinished x.1 x.2 := by
  intro x hx
  have hx_inv := invariant_of_mem_traceAmong (I := fun w : World => w.jobs.Inv)
    (fun o w hw => step_inv o.1 w.jobs hw) (fun op w hw => exec_keepsJobs step_inv op w hw) hinv x hx
  obtain ⟨answer, hok⟩ := ok_of_mem_traceAmong h x hx
  exact notFinished_of_ok hx_inv hok

/-- A cancellation that returns has read the goal and its tasks. -/
theorem reads_of_returns (hinv : start.jobs.Inv) (hopen : start.goals.IsOpen goalId) {actor : String}
    {reason : Option String} {others : List (List WorkerCall)}
    (h : (World.cancelAmong host goalId actor reason others start).1 = .ok ()) : start.Reads host goalId := by
  have hok := ok_of_mem_traceAmong h
  let w₁ := Machine.run World.workerStep (others.headD []) start
  let w₂ := Machine.run World.workerStep (others.tail.headD []) w₁
  have hwork₁ : AfterWork start w₁ :=
    Machine.run_invariant (I := AfterWork start) (fun o _ h => afterWork_step h o) _ _ (AfterWork.refl hinv)
  have hwork₂ : AfterWork start w₂ :=
    Machine.run_invariant (I := AfterWork start) (fun o _ h => afterWork_step h o) _ _ hwork₁
  have hfirst : (StoreCall.getGoal goalId, w₁) ∈ World.cancelCalls host goalId actor reason others start := by
    unfold World.cancelCalls DurableGoalCoordinator.cancel Coord.getGoal
    rw [call_bind, traceAmong]
    exact List.mem_cons_self
  obtain ⟨answer, hgoal⟩ := hok _ hfirst
  have hgoal' : GoalStore.getGoal start.goals goalId = .ok answer := by
    rw [← hwork₁.goals]
    exact hgoal
  obtain ⟨goal, rfl, hcancelled, hover⟩ := getGoal_open hopen hgoal'
  have hmem : (StoreCall.getTasks goalId, w₂) ∈ World.cancelCalls host goalId actor reason others start := by
    have hexec : World.exec host (.getGoal goalId) w₁ = (.ok (some goal), w₁) := Prod.ext hgoal rfl
    unfold World.cancelCalls DurableGoalCoordinator.cancel Coord.getGoal
    rw [call_bind, traceAmong, hexec]
    dsimp only
    rw [pure_bind]
    dsimp only
    rw [if_neg hcancelled, if_neg hover]
    unfold Coord.getTasks
    rw [call_bind, traceAmong]
    exact List.mem_cons_of_mem _ List.mem_cons_self
  obtain ⟨tasks, htasks⟩ := hok _ hmem
  refine ⟨⟨goal, hgoal'⟩, tasks, ?_⟩
  rw [← hwork₂.goals]
  exact htasks

/-- Where the jobs of the other tasks are over, a cancellation of an open goal goes through exactly if the goal and its
tasks can be read, and no job completes or fails between its read and its cancellation. -/
theorem cancelCompletes_iff (hjobs : ∃ calls, start.jobs = SqliteJobRepository.run calls)
    (hopen : start.goals.IsOpen goalId) (hrest : start.RestOver goalId) (actor : String) (reason : Option String) (others : List (List WorkerCall)) :
    CancelCompletes goalId start (World.cancelAmong host goalId actor reason others start) ↔
      start.Reads host goalId ∧
        ∀ x ∈ World.cancelCalls host goalId actor reason others start, NotFinished x.1 x.2 := by
  obtain ⟨calls, hcalls⟩ := hjobs
  have hinv : start.jobs.Inv := by
    rw [hcalls]
    exact run_inv calls
  constructor
  · exact fun h => ⟨reads_of_returns hinv hopen h.returns, notFinished_of_returns hinv h.returns⟩
  · rintro ⟨hreads, hfit⟩
    obtain ⟨⟨a, hreturns⟩, hsettled⟩ := (returns_cancel hinv hopen hreads hrest actor reason).runAmong
      (fun o _ h => CancelSettled.step h o) hfit
    exact ⟨hreturns, hsettled.cancelled, hsettled.tasks, hsettled.jobs⟩

end Cancellation

/-! ## A job that completes in between -/

/-- The goal with the plan of two tasks, once it is started. -/
def startedChain : World := demoTurn (.request (.start 1 "api")) chainWorld

/-- A worker claims the job of the first task, and completes it. -/
def claimAndComplete : List WorkerCall :=
  [⟨.claim 200 201 "worker" (.finite 30) (Datetime.ofMicros 1200), rfl⟩,
    ⟨.complete 101 201 "output" (some goodResult) (Datetime.ofMicros 1201), rfl⟩]

/-- The call that made the job of the first task. -/
def chainEnqueue : JobCall :=
  .enqueue 101 2 (chainTasks.head?.bind fun task => (taskContract 1 task [] (.finite (1 / 2)) none).toOption) (key 1 2)
    0 none (Datetime.ofMicros 101)

/-- If a worker only claims the job meanwhile, the cancellation goes through. -/
theorem startedChain_cancelCompletes :
    startedChain.goals.IsOpen 1 ∧ startedChain.RestOver 1 ∧ CancelCompletes 1 startedChain
      (World.cancelAmong Service.plainHost 1 "api" none [[], [], [], [], claimAndComplete.take 1] startedChain) := by
  have hjobs : startedChain.jobs = SqliteJobRepository.run [chainEnqueue] := by decide +kernel
  have hinv : startedChain.jobs.Inv := by
    rw [hjobs]
    exact run_inv _
  have hopen : startedChain.goals.IsOpen 1 := by
    have hstatus : (startedChain.goals.goal? 1).map (·.status) = some .running := by decide +kernel
    obtain ⟨row, hrow, hrunning⟩ := Option.map_eq_some_iff.mp hstatus
    exact ⟨row, hrow, Or.inr (Or.inl hrunning)⟩
  have hrest : startedChain.RestOver 1 := by
    have hall : startedChain.goals.tasks.all (fun t => t.status = .running || t.jobId = none) = true := by
      decide +kernel
    intro t ht _ hnot jobId hjob
    have hcase := List.all_eq_true.mp hall t ht
    rw [Bool.or_eq_true, decide_eq_true_eq, decide_eq_true_eq] at hcase
    rcases hcase with hrunning | hnone
    · exact absurd hrunning hnot
    · rw [hjob] at hnone
      cases hnone
  have hreturns : (World.cancelAmong Service.plainHost 1 "api" none [[], [], [], [], claimAndComplete.take 1]
      startedChain).1 = .ok () := by decide +kernel
  exact ⟨hopen, hrest, (cancelCompletes_iff ⟨_, hjobs⟩ hopen hrest "api" none _).mpr
    ⟨reads_of_returns hinv hopen hreturns, notFinished_of_returns hinv hreturns⟩⟩

/-- The job completes between its read and its cancellation, and the cancellation raises. -/
theorem cancel_raises : ¬ CancelCompletes 1 startedChain
    (World.cancelAmong Service.plainHost 1 "api" none [[], [], [], [], claimAndComplete] startedChain) := by
  intro h
  have hraised : raised (World.cancelAmong Service.plainHost 1 "api" none [[], [], [], [], claimAndComplete]
      startedChain).1 = true := by decide +kernel
  rw [h.returns] at hraised
  cases hraised

end Galaxz
