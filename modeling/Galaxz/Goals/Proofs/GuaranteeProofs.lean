import Galaxz.Goals.Proofs.FinalityProofs
import Galaxz.Goals.Proofs.MoveProofs

/-!
# Proofs: completion, order and blocking

Each guarantee holds of every move, and so of every call of every request in every run.
-/

namespace Galaxz

open DurableGoalCoordinator GoalStore

variable {c : DurableGoalCoordinator} {host : Host} {w : World} {call : StoreCall} {goalId : Uuid}

/-! ## Completion -/

theorem accepted_ok_true {result : PyDict} {threshold : PyFloat}
    (h : accepted result threshold = .ok true) :
    result.get "status" = .str "complete" ∧ AtLeastOrZero (result.get "confidence") threshold := by
  unfold accepted at h
  split_ifs at h with hstatus
  · exact ⟨hstatus, h⟩
  · cases h

theorem outcome_eq {r : PlannedTaskRow} {job : Job} (hgoal : r.goalId = goalId)
    (hjob : w.linkedJob goalId r = .ok (some job)) :
    w.outcome r = some (job.status, w.resultOf job) := by
  unfold World.outcome
  rw [hgoal, hjob]

/-- A call that updates no running task with an unfinished job leaves those tasks alone. -/
theorem unfinished_of (h : ∀ taskId update r status result, call = .updateTask taskId update →
      w.goals.task? taskId = some r → r.status = .running → w.outcome r = some (status, result) →
      status ≠ .queued ∧ status ≠ .running)
    (r : PlannedTaskRow) (status : JobStatus) (result : PyDict)
    (hrow : w.goals.task? r.taskId = some r) (hrunning : r.status = .running)
    (houtcome : w.outcome r = some (status, result)) (hstatus : status = .queued ∨ status = .running) :
    (World.exec host call w).2.goals.task? r.taskId = some r := by
  rcases World.exec_task? host call w r.taskId with hsame | ⟨update, cells, hcall, -, -⟩
  · exact hsame.trans hrow
  · obtain ⟨hq, hr⟩ := h _ update r status result hcall hrow hrunning houtcome
    exact absurd hstatus (not_or.mpr ⟨hq, hr⟩)

/-- A call that stores no completion and updates no running task is sound. -/
theorem completionSound_of (hgoal : ∀ g, call ≠ .setGoalStatus g .complete)
    (htask : ∀ taskId update, call = .updateTask taskId update → update.status ≠ .complete ∧
      ∀ r, w.goals.task? taskId = some r → r.status ≠ .running) :
    CompletionSound AtLeastOrZero host call w where
  goal := fun g hg => absurd hg (hgoal g)
  task := fun t u hu hcomplete => absurd hcomplete (htask t u hu).1
  unfinished := unfinished_of fun t u r _ _ hu hr hrunning _ => absurd hrunning ((htask t u hu).2 r hr)

/-- A call that updates a running task whose job is gone or over, to anything but complete. -/
theorem completionSound_of_over {r : PlannedTaskRow} {update : TaskUpdate}
    (hrow : w.goals.task? r.taskId = some r) (hgoal : r.goalId = goalId)
    (hupdate : update.status ≠ .complete)
    (hjob : ∀ job, w.linkedJob goalId r = .ok (some job) →
      job.status ≠ .queued ∧ job.status ≠ .running) :
    CompletionSound AtLeastOrZero host (.updateTask r.taskId update) w where
  goal := fun g hg => by cases hg
  task := fun t u hu hcomplete => by cases hu; exact absurd hcomplete hupdate
  unfinished := by
    refine unfinished_of fun t u r' status result hu hr' _ houtcome => ?_
    cases hu
    rw [hrow] at hr'
    cases hr'
    unfold World.outcome at houtcome
    split at houtcome
    · next job hlinked =>
      cases houtcome
      exact hjob job (hgoal ▸ hlinked)
    · cases houtcome

theorem ReconcileMove.completionSound (h : ReconcileMove c goalId call w) :
    CompletionSound AtLeastOrZero host call w := by
  cases h with
  | read hread =>
    refine completionSound_of (fun g e => ?_) fun t u e => ?_
    · subst e
      cases hread
    · subst e
      cases hread
  | lost hrow hgoal hstatus hjob =>
    refine completionSound_of_over hrow hgoal (by simp) fun job hjob' => ?_
    rw [hjob] at hjob'
    cases hjob'
  | @complete w r job threshold hrow hgoal hstatus hjob hdone hthreshold hresult =>
    obtain ⟨hcomplete, henough⟩ := accepted_ok_true hresult
    have houtcome := outcome_eq hgoal hjob
    refine ⟨fun g e => (by cases e), fun t u e _ => ?_, ?_⟩
    · cases e
      exact ⟨r, w.resultOf job, threshold, hrow, hstatus, hdone ▸ houtcome, hcomplete,
        hgoal ▸ hthreshold, henough⟩
    · refine unfinished_of fun t u r' status result e hr' _ houtcome' => ?_
      cases e
      rw [hrow] at hr'
      cases hr'
      rw [houtcome, hdone] at houtcome'
      cases houtcome'
      exact ⟨by simp, by simp⟩
  | fail hrow hgoal hstatus hjob hdone hthreshold hresult =>
    refine completionSound_of_over hrow hgoal (by simp [failUpdate]) fun job hjob' => ?_
    rw [hjob] at hjob'
    cases hjob'
    rw [hdone]
    exact ⟨by simp, by simp⟩
  | escalate hrow hgoal hstatus hjob hdone hthreshold hresult =>
    refine completionSound_of_over hrow hgoal (by simp [escalateUpdate]) fun job hjob' => ?_
    rw [hjob] at hjob'
    cases hjob'
    rw [hdone]
    exact ⟨by simp, by simp⟩
  | pause hescalated => exact completionSound_of (fun g e => by cases e) fun t u e => by cases e
  | jobFailed hrow hgoal hstatus hjob hdone =>
    refine completionSound_of_over hrow hgoal (by simp) fun job hjob' => ?_
    rw [hjob] at hjob'
    cases hjob'
    rcases hdone with hdone | hdone
    · rw [hdone]
      exact ⟨by simp, by simp⟩
    · rw [hdone]
      exact ⟨by simp, by simp⟩
  | block hrow hgoal hstatus hdep hbroken =>
    refine completionSound_of (fun g e => by cases e) fun t u e => ?_
    cases e
    exact ⟨by simp [blockUpdate], fun r hr => by rw [hrow] at hr; cases hr; simp [hstatus]⟩
  | unresolved hrow hgoal hstatus hready =>
    refine completionSound_of (fun g e => by cases e) fun t u e => ?_
    cases e
    exact ⟨by simp [unresolvedUpdate], fun r hr => by rw [hrow] at hr; cases hr; simp [hstatus]⟩
  | enqueue hrow hgoal hstatus hready hslot =>
    exact completionSound_of (fun g e => by cases e) fun t u e => by cases e
  | run hrow hgoal hstatus hready hslot =>
    refine completionSound_of (fun g e => by cases e) fun t u e => ?_
    cases e
    exact ⟨by simp [runUpdate], fun r hr => by rw [hrow] at hr; cases hr; simp [hstatus]⟩
  | finish hall =>
    refine ⟨fun g e => (by cases e; exact hall), fun t u e => (by cases e), ?_⟩
    exact unfinished_of fun t u r status result e => by cases e
  | finished => exact completionSound_of (fun g e => by cases e) fun t u e => by cases e
  | giveUp hnone => exact completionSound_of (fun g e => by cases e) fun t u e => by cases e

theorem RerunMove.completionSound {taskId : Uuid} {start : World} (h : RerunMove host start goalId taskId call w) :
    CompletionSound AtLeastOrZero host call w := by
  cases h with
  | read hread =>
    refine completionSound_of (fun g e => ?_) fun t u e => ?_
    · subst e
      cases hread
    · subst e
      cases hread
  | enqueue hrow hpayload => exact completionSound_of (fun g e => by cases e) fun t u e => by cases e
  | run hgoals hrow hpayload =>
    refine completionSound_of (fun g e => by cases e) fun t u e => ?_
    cases e
    refine ⟨by simp [rerunUpdate], fun r hr => ?_⟩
    obtain ⟨hrow, -, hstatus⟩ := hrow
    rw [hgoals, hrow] at hr
    cases hr
    rcases hstatus with hs | hs | hs <;> simp [hs]
  | resume => exact completionSound_of (fun g e => by cases e) fun t u e => by cases e
  | record => exact completionSound_of (fun g e => by cases e) fun t u e => by cases e

theorem Move.completionSound {start : World} {r : Request} (h : Move c host start r call w) (hr : r.advances = true) :
    CompletionSound AtLeastOrZero host call w := by
  cases h with
  | reconcile h => exact h.completionSound
  | reconcileAll h => exact h.completionSound
  | startReconcile h => exact h.completionSound
  | rerun h => exact h.completionSound
  | cancel h => cases hr
  | start hrow hstatus => exact completionSound_of (fun g e => by cases e) fun t u e => by cases e
  | started => exact completionSound_of (fun g e => by cases e) fun t u e => by cases e
  | pause => exact completionSound_of (fun g e => by cases e) fun t u e => by cases e
  | paused h =>
    refine completionSound_of (fun g e => ?_) fun t u e => ?_
    · subst e
      rcases h with h | h <;> cases h
    · subst e
      rcases h with h | h <;> cases h

theorem Request.not_isReview_of_advances {r : Request} (h : r.advances = true) :
    r.isReview = false := by
  cases r with
  | review queueTaskId g approved item => cases h
  | _ => rfl

/-- In every run of starts, reconciliations, pauses and reruns among calls of workers, every call that
completes a goal or a task does it on evidence, and no call changes a running task whose job is not
over. -/
theorem run_completionSound (c : DurableGoalCoordinator) (host : Host) (w : World)
    (turns : List Turn) (hturns : ∀ turn ∈ turns, turn.advances = true) :
    Machine.Along (World.step c host) (fun turn w => ∀ x ∈ World.calls c host turn w,
      CompletionSound AtLeastOrZero host x.1 x.2) turns w := by
  induction turns generalizing w with
  | nil => trivial
  | cons turn turns ih =>
    refine ⟨?_, ih _ fun t ht => hturns t (List.mem_cons_of_mem _ ht)⟩
    have hturn := hturns turn List.mem_cons_self
    cases turn with
    | work call => intro x hx; cases hx
    | request r =>
      intro x hx
      exact (request_moves c r (Request.not_isReview_of_advances hturn) w x hx).completionSound hturn

/-! ### Runs of the plan of two tasks -/

/-- One turn of the coordinator with the default configuration. -/
def demoTurn : Turn → World → World := World.step Service.defaultLimits Service.plainHost

/-- The calls of a turn. -/
def demoCalls : Turn → World → List (StoreCall × World) :=
  World.calls Service.defaultLimits Service.plainHost

/-- A worker claims the next job, with the ids `n` and `n + 1`, and completes it. -/
def workerCompletes (jobId : Uuid) (n : ℕ) (result : PyDict) : List Turn :=
  [.work (.claim (BitVec.ofNat 128 n) (BitVec.ofNat 128 (n + 1)) "worker" (.finite 30)
      (Datetime.ofMicros (1000 + n))),
    .work (.complete jobId (BitVec.ofNat 128 (n + 1)) "output" (some result)
      (Datetime.ofMicros (1001 + n)))]

/-- A result that the threshold of the goal accepts. -/
def goodResult : PyDict := [("status", .str "complete"), ("confidence", .float (.finite 1))]

/-- The goal is started and its first task completed, then the second is enqueued. -/
def firstCompleted : List Turn :=
  .request (.start 1 "api") :: workerCompletes 101 200 goodResult ++ [.request (.reconcile 1)]

/-- The run takes in the result of the first task, and every call of it is sound. -/
theorem firstCompleted_completionSound :
    (∀ turn ∈ firstCompleted, turn.advances = true) ∧
      (Machine.run demoTurn firstCompleted chainWorld).goals.TaskIs 1 2 .complete ∧
      Machine.Along demoTurn (fun turn w => ∀ x ∈ demoCalls turn w,
        CompletionSound AtLeastOrZero Service.plainHost x.1 x.2) firstCompleted chainWorld := by
  have hturns : ∀ turn ∈ firstCompleted, turn.advances = true := by decide
  refine ⟨hturns, ?_, run_completionSound _ _ _ _ hturns⟩
  have hrow : ((Machine.run demoTurn firstCompleted chainWorld).goals.task? 2).map
      (fun r => (r.goalId, r.status)) = some (1, .complete) := by decide +kernel
  obtain ⟨r, hr, hfields⟩ := Option.map_eq_some_iff.mp hrow
  exact ⟨r, hr, (Prod.mk.inj hfields).1, (Prod.mk.inj hfields).2⟩

/-- A result without a confidence. -/
def bareResult : PyDict := [("status", .str "complete")]

/-- The first task is completed with a result that has no confidence. -/
def bareRun : List Turn := .request (.start 1 "api") :: workerCompletes 101 200 bareResult

/-- With a threshold of zero a result without a confidence completes the task. -/
theorem completion_without_confidence :
    ¬ ∀ x ∈ demoCalls (.request (.reconcile 1))
        (Machine.run demoTurn bareRun (plannedWorld (.finite 0) chainTasks)),
      CompletionSound AtLeast Service.plainHost x.1 x.2 := by
  intro hsound
  have hfound : ((demoCalls (.request (.reconcile 1))
        (Machine.run demoTurn bareRun (plannedWorld (.finite 0) chainTasks))).find?
      fun x => x.1 = .updateTask 2 (completeUpdate bareResult)).map
      (fun x => (x.2.goals.task? 2).bind x.2.outcome) = some (some (.completed, bareResult)) := by
    decide +kernel
  obtain ⟨x, hx, houtcome⟩ := Option.map_eq_some_iff.mp hfound
  have hcall : x.1 = .updateTask 2 (completeUpdate bareResult) := by simpa using List.find?_some hx
  obtain ⟨r, result, threshold, hr, -, hresult, -, -, henough⟩ :=
    (hsound x (List.mem_of_find?_eq_some hx)).task 2 _ hcall rfl
  rw [hr, Option.bind_some, hresult] at houtcome
  cases houtcome
  cases henough

end Galaxz
