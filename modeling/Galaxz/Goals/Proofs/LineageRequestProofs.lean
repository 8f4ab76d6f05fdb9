import Galaxz.Goals.Proofs.LineageProofs

/-!
# Proofs: requests that are traced

Every request stores and enqueues only what has a lineage, whatever the others do between its calls. What it has read
stays true of the stores, so each of its calls is justified when it is made.
-/

namespace Galaxz

open DurableGoalCoordinator SqliteJobRepository Prog

/-! ## Programs -/

section Rules

variable {host : Host} {reviewed : Prop} {w w' w'' : World} {α β : Type}

/-- The stores are traced later, and have only grown. -/
structure World.Kept (host : Host) (reviewed : Prop) (w w' : World) : Prop where
  traced : w'.Traced host reviewed
  grows : w.Grows w'

/-- What others may do. -/
def World.Later (host : Host) (reviewed : Prop) (w w' : World) : Prop :=
  w.Traced host reviewed → w.Kept host reviewed w'

/-- A justified call on traced stores. -/
structure StoreCall.Does (host : Host) (reviewed : Prop) (call : StoreCall) (w : World) (a : call.Answer) (w' : World) :
    Prop where
  traced : w.Traced host reviewed
  justified : call.Justified reviewed w
  exec : World.exec host call w = (.ok a, w')

/-- The calls of the program are justified, whatever the others do in between. -/
def Traces (host : Host) (reviewed : Prop) (p : Coord α) (Q : α → World → Prop) (w : World) : Prop :=
  Among (StoreCall.Does host reviewed) (World.Later host reviewed)
    (fun call w => w.Traced host reviewed → call.Justified reviewed w) p Q w

theorem World.Traced.kept (h : w.Traced host reviewed) : w.Kept host reviewed w := ⟨h, .refl w⟩

theorem World.Kept.trans (h : w.Kept host reviewed w') (h' : w'.Kept host reviewed w'') : w.Kept host reviewed w'' :=
  ⟨h'.traced, h.grows.trans h'.grows⟩

theorem World.Later.refl (w : World) : w.Later host reviewed w := fun h => h.kept

theorem World.Later.trans (h : w.Later host reviewed w') (h' : w'.Later host reviewed w'') :
    w.Later host reviewed w'' :=
  fun hw => (h hw).trans (h' (h hw).traced)

theorem Traces.pure {a : α} {Q : α → World → Prop} (hw : w.Traced host reviewed)
    (hQ : ∀ w', w.Kept host reviewed w' → Q a w') : Traces host reviewed (.pure a) Q w :=
  fun w' h => hQ w' (h hw)

theorem Traces.raise {e : PyError} {Q : α → World → Prop} : Traces host reviewed (.raise e) Q w := trivial

/-- The rule of one call and what follows it. -/
theorem Traces.call {call : StoreCall} {f : call.Answer → Coord β} {T : β → World → Prop} (hw : w.Traced host reviewed)
    (hcall : ∀ w₁, w.Kept host reviewed w₁ → call.Justified reviewed w₁)
    (hf : ∀ w₁ a w₂, w.Kept host reviewed w₁ → World.exec host call w₁ = (.ok a, w₂) → w₁.Kept host reviewed w₂ →
      Traces host reviewed (f a) T w₂) : Traces host reviewed (Prog.call call .pure >>= f) T w := by
  refine Among.call (fun w₁ hlater _ => hcall w₁ (hlater hw)) fun w₁ a w₂ hlater hdoes => ?_
  have hafter := hdoes.traced.exec call hdoes.justified
  rw [hdoes.exec] at hafter
  exact hf w₁ a w₂ (hlater hw) hdoes.exec ⟨hafter.1, hafter.2⟩

/-- The rule of a read. -/
theorem Traces.read {call : StoreCall} {f : call.Answer → Coord β} {T : β → World → Prop} (hread : call.IsRead)
    (hw : w.Traced host reviewed)
    (hf : ∀ w₁ a, w.Kept host reviewed w₁ → (World.exec host call w₁).1 = .ok a → Traces host reviewed (f a) T w₁) :
    Traces host reviewed (Prog.call call .pure >>= f) T w := by
  refine Traces.call hw (fun w₁ _ => ?_) fun w₁ a w₂ hkept hexec _ => ?_
  · cases call with
    | updateTask taskId update => exact hread.elim
    | enqueue taskId contract k => exact hread.elim
    | _ => trivial
  · have hsame : (World.exec host call w₁).2 = w₁ := World.exec_read w₁ hread
    rw [hexec] at hsame
    obtain rfl : w₂ = w₁ := hsame
    exact hf w₂ a hkept (congrArg Prod.fst hexec)

/-- The rule of a call whose answer does not matter. -/
theorem Traces.write {call : StoreCall} {f : call.Answer → Coord β} {T : β → World → Prop} (hw : w.Traced host reviewed)
    (hcall : ∀ w₁, w.Kept host reviewed w₁ → call.Justified reviewed w₁)
    (hf : ∀ a w', w.Kept host reviewed w' → Traces host reviewed (f a) T w') :
    Traces host reviewed (Prog.call call .pure >>= f) T w :=
  Traces.call hw hcall fun _ a w₂ hkept _ hafter => hf a w₂ (hkept.trans hafter)

/-- The rule of sequence. -/
theorem Traces.bind {p : Coord α} {f : α → Coord β} {Q : α → World → Prop} {T : β → World → Prop}
    (hp : Traces host reviewed p Q w) (hf : ∀ a w', Q a w' → Traces host reviewed (f a) T w') :
    Traces host reviewed (p >>= f) T w :=
  Among.bind World.Later.refl hp hf

theorem Traces.mono {p : Coord α} {Q R : α → World → Prop} (hp : Traces host reviewed p Q w)
    (hQ : ∀ a w', Q a w' → R a w') : Traces host reviewed p R w :=
  Among.mono hp hQ

/-- What others do does not matter. -/
theorem Traces.later {p : Coord α} {Q : α → World → Prop} (h : Traces host reviewed p Q w)
    (hlater : w.Later host reviewed w') : Traces host reviewed p Q w' :=
  Among.later (R := World.Later host reviewed) (fun hst htu => hst.trans htu) h hlater

/-- Every call of the program is justified in any stores. -/
def Plain (reviewed : Prop) (p : Coord α) : Prop :=
  p.Always (fun _ _ => True) (fun call => ∀ w, call.Justified reviewed w) fun _ => True

theorem Plain.traces {p : Coord α} (h : Plain reviewed p) (hw : w.Traced host reviewed) :
    Traces host reviewed p (fun _ w' => w.Kept host reviewed w') w := by
  induction p generalizing w with
  | pure a => exact Traces.pure hw fun w' hkept => hkept
  | raise e => exact Traces.raise
  | call call k ih =>
    refine Traces.call (f := k) hw (fun w₁ _ => h.1 w₁) fun w₁ a w₂ hkept _ hafter => ?_
    exact (ih a (h.2 a trivial) hafter.traced).mono fun _ w' hkept' => (hkept.trans hafter).trans hkept'

end Rules

/-! ## What is read -/

section Facts

variable {host : Host} {reviewed : Prop} {w w' : World} {goalId : Uuid} {goal : GoalContract} {tasks : List PlannedTask}

/-- The terms that the contract of a goal states. -/
abbrev World.Terms (w : World) (goalId : Uuid) (goal : GoalContract) : Prop :=
  w.goals.Terms goalId goal.confidenceThreshold goal.workspaceRoot

/-- The task is planned for the goal. -/
def World.Planned (w : World) (goalId : Uuid) (t : PlannedTask) : Prop :=
  ∃ r, w.goals.task? t.taskId = some r ∧ t.PlannedIn r ∧ r.goalId = goalId

/-- The tasks are planned for the goal, and their results were returned by runs of them. -/
structure World.Snapshot (w : World) (goalId : Uuid) (tasks : List PlannedTask) : Prop where
  planned : ∀ t ∈ tasks, w.Planned goalId t
  results : ∀ t ∈ tasks, ∀ x, t.result = some x → ∃ result, x = taskResult result ∧ w.Yields t.taskId result

theorem World.Grows.planned (h : w.Grows w') {t : PlannedTask} (ht : w.Planned goalId t) : w'.Planned goalId t := by
  obtain ⟨r, hr, htr, hgoal⟩ := ht
  obtain ⟨r', hr', hsame⟩ := h.goals.tasks _ _ hr
  exact ⟨r', hr', hsame.planned htr, hsame.goalId.trans hgoal⟩

theorem World.Grows.terms (h : w.Grows w') (hterms : w.Terms goalId goal) : w'.Terms goalId goal :=
  h.goals.terms _ _ _ hterms

theorem World.Grows.snapshot (h : w.Grows w') (hsnapshot : w.Snapshot goalId tasks) : w'.Snapshot goalId tasks where
  planned t ht := h.planned (hsnapshot.planned t ht)
  results t ht x hx := by
    obtain ⟨result, hx, hyields⟩ := hsnapshot.results t ht x hx
    exact ⟨result, hx, h.yields hyields⟩

/-- A goal that is read states its terms. -/
theorem terms_of_getGoal (h : GoalStore.getGoal w.goals goalId = .ok (some goal)) : w.Terms goalId goal := by
  unfold GoalStore.getGoal at h
  split at h
  · cases h
  · next row hrow =>
    obtain ⟨contract, hcontract, h⟩ := (except_bind_ok_iff _ _ _).mp h
    cases h
    refine ⟨row, hrow, (GoalContract.validate_threshold hcontract).symm, ?_⟩
    unfold GoalStore.goalFromRow GoalContract.validate at hcontract
    split_ifs at hcontract
    cases hcontract
    rfl

/-- The tasks of a goal that are read. -/
theorem snapshot_of_getTasks (hw : w.Traced host reviewed) (h : GoalStore.getTasks host w.goals goalId = .ok tasks) :
    w.Snapshot goalId tasks := by
  have hread : ∀ t ∈ tasks, ∃ r, w.goals.task? t.taskId = some r ∧ t.PlannedIn r ∧ r.goalId = goalId ∧
      t.result = r.result := by
    intro t ht
    obtain ⟨r, hr, hgoal, hreads⟩ := getTasks_row h ht
    unfold ReadsAs GoalStore.rowToTask at hreads
    obtain ⟨confidence, -, hreads⟩ := (except_bind_ok_iff _ _ _).mp hreads
    cases hreads
    exact ⟨r, hr, ⟨rfl, rfl, rfl, rfl, rfl⟩, hgoal, rfl⟩
  refine ⟨fun t ht => ?_, fun t ht x hx => ?_⟩
  · obtain ⟨r, hr, htr, hgoal, -⟩ := hread t ht
    exact ⟨r, hr, htr, hgoal⟩
  · obtain ⟨r, hr, -, -, hresult⟩ := hread t ht
    exact (hw.rows _ r hr).result x (hresult ▸ hx)

/-- The contract that is made of a task, the terms of its goal and results that were read. -/
theorem commissioned_of_snapshot {before : List PlannedTask} {task : PlannedTask} {threshold : PyFloat}
    {workspaceRoot : Option String} {payload : PyDict} {contract : TaskContract} (hbefore : w.Snapshot goalId before)
    (htask : w.Planned goalId task) (hterms : w.goals.Terms goalId threshold workspaceRoot)
    (hpayload : resolvePayload task before = .ok payload)
    (hcontract : taskContract goalId task payload threshold workspaceRoot = .ok contract) :
    Commissioned w.goals w.jobs.Ran task.taskId contract := by
  have hruns : ∀ t, ∃ run : TaskContract × PyDict, t ∈ before → ∀ x, t.result = some x →
      x = taskResult run.2 ∧ w.jobs.Ran run.1 run.2 ∧ Commissioned w.goals w.jobs.Ran t.taskId run.1 := by
    intro t
    by_cases ht : t ∈ before
    · cases hresult : t.result with
      | none => exact ⟨(contract, []), fun _ x hx => by cases hx⟩
      | some y =>
        obtain ⟨result, hy, made, hmade, hran⟩ := hbefore.results t ht y hresult
        refine ⟨(made, result), fun _ x hx => ?_⟩
        rw [← Option.some.inj hx]
        exact ⟨hy, hran, hmade⟩
    · exact ⟨(contract, []), fun hmem => absurd hmem ht⟩
  choose run hrun using hruns
  obtain ⟨row, hrow, hplanned, hgoal⟩ := htask
  obtain ⟨goal, hgoalrow, hthreshold, hroot⟩ := hterms
  refine @Commissioned.commission _ _ _ _ _ _ (fun t => (run t).1) (fun t => (run t).2) _ _ hrow hplanned
    (by rw [hgoal]; exact hgoalrow) (fun t ht => ?_) (fun t ht x hx => ?_) (fun t ht hsome => ?_) hpayload ?_
  · obtain ⟨r, hr, htr, hgoalId⟩ := hbefore.planned t ht
    exact ⟨r, hr, htr, hgoalId.trans hgoal.symm⟩
  · exact ⟨(hrun t ht x hx).1, (hrun t ht x hx).2.1⟩
  · obtain ⟨x, hx⟩ := Option.isSome_iff_exists.mp hsome
    exact (hrun t ht x hx).2.2
  · rw [hgoal, hthreshold, hroot]
    exact hcontract

/-- The job that a justified `enqueue` returns was made for the task. -/
theorem hasJob_of_enqueue {taskId : Uuid} {contract : TaskContract} {k : String} {job : Job} {w₁ w₂ : World}
    (hw : w₁.Traced host reviewed) (hcall : (StoreCall.enqueue taskId contract k).Justified reviewed w₁)
    (hexec : World.exec host (.enqueue taskId contract k) w₁ = (.ok job, w₂)) (hkept : w₁.Kept host reviewed w₂) :
    w₂.HasJob taskId job.jobId := by
  let c : Submission := ⟨(w₁.readings 0).id, taskId, some contract, k, 0, none, (w₁.readings 0).now⟩
  have hkey : c.key = k := hcall.2.stripped
  have hok : (c.submit w₁.jobs).1 = .ok job := congrArg Prod.fst hexec
  have hjobs : (c.submit w₁.jobs).2 = w₂.jobs := congrArg (fun r => r.2.jobs) hexec
  rcases submit_cases hw.inv c with ⟨e, he, -⟩ | ⟨row, hrow, jobrow, job', hrowkey, hsound, hjob, hsubmit⟩ |
    ⟨job', hsubmit, hid, -, hkeys, htasks⟩
  · rw [he] at hok
    cases hok
  · rw [hsubmit] at hok
    cases hok
    have hrowid : jobrow.jobId = row.jobId := (Db.mem_view_rows.mp (by rw [hsound.rows]; simp)).2
    rw [(jobFromRow_fields hjob).1.trans hrowid]
    refine hkept.grows.hasJob (hw.keys row hrow taskId ?_)
    rw [hrowkey, hkey]
    exact hcall.2
  · rw [hsubmit] at hok
    cases hok
    have hinv : (SqliteJobRepository.step c.call w₁.jobs).Inv := step_inv c.call w₁.jobs hw.inv
    have htask := getTask_of_inserted hw.inv c.call (c := c) hinv rfl hkeys htasks
    rw [hid]
    refine ⟨contract, ?_, hkept.grows.commissioned hcall.1⟩
    rw [← hjobs]
    exact htask

end Facts

/-! ## `reconcile` -/

section Reconcile

variable {host : Host} {reviewed : Prop} {w : World} {goalId taskId : Uuid} {goal : GoalContract}

/-- An update that sets neither a job nor a result, and completes nothing. -/
theorem justified_update {update : GoalStore.TaskUpdate} (hjob : update.jobId.join = none)
    (hresult : update.result.join = none) (hstatus : decide (update.status = .complete) = false) (w : World) :
    (StoreCall.updateTask taskId update).Justified reviewed w := by
  refine ⟨fun j hj => ?_, fun x hx => ?_, fun _ hdone => absurd hdone (of_decide_eq_false hstatus)⟩
  · rw [hj] at hjob
    cases hjob
  · rw [hx] at hresult
    cases hresult

/-- The result of a completed job is taken in. -/
theorem traces_settleCompleted {task : PlannedTask} {result : PyDict} (hw : w.Traced host reviewed)
    (hterms : w.Terms goalId goal) (htask : w.Planned goalId task) (hyields : w.Yields task.taskId result) :
    Traces host reviewed (settleCompleted goal goalId task.taskId result) (fun _ w' => w.Kept host reviewed w') w := by
  unfold settleCompleted
  cases haccepted : accepted result goal.confidenceThreshold with
  | error e => exact Traces.raise
  | ok enough =>
    cases enough with
    | true =>
      refine Traces.write hw (fun w₁ hkept => ⟨nofun, fun x hx => ⟨result, ?_, hkept.grows.yields hyields⟩,
        fun _ _ => ⟨result, rfl, hkept.grows.yields hyields, fun r hr => ?_⟩⟩) fun _ w' hkept =>
          Traces.pure hkept.traced fun _ => hkept.trans
      · exact (Option.some.inj (Option.some.inj hx)).symm
      · obtain ⟨row, hrow, -, hgoal⟩ := hkept.grows.planned htask
        obtain ⟨g, hg, hthreshold, -⟩ := hkept.grows.terms hterms
        rw [hrow] at hr
        cases hr
        exact ⟨g, by rw [hgoal]; exact hg, by rw [hthreshold]; exact haccepted⟩
    | false =>
      dsimp only
      split_ifs
      · refine Traces.write hw (fun w₁ _ => justified_update rfl rfl rfl w₁) fun _ w' hkept => ?_
        exact Traces.pure hkept.traced fun _ => hkept.trans
      · refine Traces.write hw (fun w₁ hkept => ⟨nofun, fun x hx => ⟨result, ?_, hkept.grows.yields hyields⟩, nofun⟩)
          fun _ w' hkept => Traces.write hkept.traced (fun _ _ => trivial) fun _ w'' hkept' => ?_
        · exact (Option.some.inj (Option.some.inj hx)).symm
        · exact Traces.pure hkept'.traced fun _ h => (hkept.trans hkept').trans h

/-- A running task is settled by its job. -/
theorem traces_settleJob {task : PlannedTask} {job : Option Job} (hw : w.Traced host reviewed)
    (hterms : w.Terms goalId goal) (htask : w.Planned goalId task)
    (hjob : ∀ j, job = some j → w.HasJob task.taskId j.jobId ∧ w.jobs.status? j.jobId = some j.status) :
    Traces host reviewed (settleJob goal goalId task.taskId job) (fun _ w' => w.Kept host reviewed w') w := by
  have hupdate : ∀ update : GoalStore.TaskUpdate, update.jobId.join = none → update.result.join = none →
      decide (update.status = .complete) = false →
      Traces host reviewed (do Coord.updateTask task.taskId update; return false : Coord Bool)
        (fun _ w' => w.Kept host reviewed w') w := by
    intro update hnojob hnoresult hstatus
    refine Traces.write hw (fun w₁ _ => justified_update hnojob hnoresult hstatus w₁) fun _ w' hkept => ?_
    exact Traces.pure hkept.traced fun _ => hkept.trans
  rcases job with _ | job
  · exact hupdate _ rfl rfl rfl
  · obtain ⟨hmade, hstatus⟩ := hjob job rfl
    rw [settleJob]
    cases hcase : job.status with
    | completed =>
      rw [hcase] at hstatus
      refine Traces.read trivial hw fun w₁ result hkept hexec => ?_
      -- the job was completed before it was asked for its result
      obtain ⟨hdone, -⟩ := hkept.grows.finished _ hstatus
      obtain ⟨stored, hstored⟩ := Option.isSome_iff_exists.mp (hkept.traced.outputs _ hdone)
      have hresult : result = some stored := by
        rw [← hstored]
        exact (Except.ok.inj hexec).symm
      subst hresult
      have hyields := (hkept.grows.hasJob hmade).yields hdone hstored
      exact (traces_settleCompleted hkept.traced (hkept.grows.terms hterms) (hkept.grows.planned htask) hyields).mono
        fun _ _ h => hkept.trans h
    | failed => exact hupdate _ rfl rfl rfl
    | cancelled => exact hupdate _ rfl rfl rfl
    | queued => exact Traces.pure hw fun _ h => h
    | running => exact Traces.pure hw fun _ h => h

theorem traces_settleTask {task : PlannedTask} (hw : w.Traced host reviewed) (hterms : w.Terms goalId goal)
    (htask : w.Planned goalId task) :
    Traces host reviewed (settleTask goal goalId task.taskId) (fun _ w' => w.Kept host reviewed w') w := by
  refine Traces.read trivial hw fun w₁ execution hkept hexec => ?_
  have hlink : ∀ j, execution.jobId = some j → w₁.HasJob task.taskId j := by
    intro j hj
    have hread : GoalStore.taskExecution w₁.goals task.taskId = .ok execution := hexec
    obtain ⟨r, hr, -⟩ := hkept.grows.planned htask
    unfold GoalStore.taskExecution at hread
    rw [hr] at hread
    cases hread
    exact (hkept.traced.rows _ r hr).link j hj
  have hrest : ∀ w₂ (job : Option Job), w₁.Kept host reviewed w₂ →
      (∀ j, job = some j → w₂.HasJob task.taskId j.jobId ∧ w₂.jobs.status? j.jobId = some j.status) →
      Traces host reviewed (settleJob goal goalId task.taskId job) (fun _ w' => w.Kept host reviewed w') w₂ := by
    intro w₂ job hkept' hjob
    have hboth := hkept.trans hkept'
    exact (traces_settleJob hboth.traced (hboth.grows.terms hterms) (hboth.grows.planned htask) hjob).mono
      fun _ _ h => hboth.trans h
  unfold findJob
  cases hid : execution.jobId with
  | some jobId =>
    refine Traces.read trivial hkept.traced fun w₂ job hkept' hjob => hrest w₂ job hkept' ?_
    rintro j rfl
    obtain ⟨hj, hstatus⟩ := getJob_read hkept'.traced.inv hjob
    rw [hj]
    exact ⟨hkept'.grows.hasJob (hlink jobId hid), hj ▸ hstatus⟩
  | none =>
    refine Traces.read trivial hkept.traced fun w₂ job hkept' hjob => hrest w₂ job hkept' ?_
    rintro j rfl
    obtain ⟨⟨row, hrow, hkey, hj⟩, hstatus⟩ := getJobByIdempotencyKey_read hkept'.traced.inv hjob
    rw [← hj]
    exact ⟨hkept'.traced.keys row hrow task.taskId ⟨goalId, Or.inl hkey⟩, hj ▸ hstatus⟩

theorem traces_settle {tasks : List PlannedTask} (hw : w.Traced host reviewed) (hterms : w.Terms goalId goal)
    (htasks : ∀ t ∈ tasks, w.Planned goalId t) :
    Traces host reviewed (settle goal goalId tasks) (fun _ w' => w.Kept host reviewed w') w := by
  induction tasks generalizing w with
  | nil => exact Traces.pure hw fun _ h => h
  | cons task tasks ih =>
    rw [settle]
    split_ifs
    · refine Traces.bind (traces_settleTask hw hterms (htasks task List.mem_cons_self)) fun stop w' hkept => ?_
      split_ifs
      · exact Traces.pure hkept.traced fun _ h => hkept.trans h
      · exact (ih hkept.traced (hkept.grows.terms hterms) fun t ht =>
          hkept.grows.planned (htasks t (List.mem_cons_of_mem _ ht))).mono fun _ _ h => hkept.trans h
    · exact ih hw hterms fun t ht => htasks t (List.mem_cons_of_mem _ ht)

theorem plain_blockLoop (tasks : List PlannedTask) (fuel : ℕ) (failed : List Uuid) :
    Plain reviewed (blockLoop tasks fuel failed) :=
  always_blockLoop (fun _ _ _ w => justified_update rfl rfl rfl w) fuel failed

theorem plain_finish (goalId : Uuid) : Plain reviewed (finish goalId) := by
  refine Always.call (fun _ => trivial) fun tasks _ => ?_
  split_ifs
  · exact Always.call (fun _ => trivial) fun _ _ => ⟨fun _ => trivial, fun _ _ => trivial⟩
  · exact ⟨fun _ => trivial, fun _ _ => trivial⟩
  · trivial

/-- The task is enqueued with a contract that was made for it, and linked to the job. -/
theorem traces_dispatch {before tasks : List PlannedTask} (slots : ℤ) (hw : w.Traced host reviewed)
    (hterms : w.Terms goalId goal) (hbefore : w.Snapshot goalId before) (htasks : ∀ t ∈ tasks, w.Planned goalId t) :
    Traces host reviewed (dispatch goal goalId before slots tasks) (fun _ w' => w.Kept host reviewed w') w := by
  induction tasks generalizing w slots with
  | nil => exact Traces.pure hw fun _ h => h
  | cons task tasks ih =>
    have htask := htasks task List.mem_cons_self
    have hrest : ∀ t ∈ tasks, w.Planned goalId t := fun t ht => htasks t (List.mem_cons_of_mem _ ht)
    have hgoOn : ∀ slots w', w.Kept host reviewed w' →
        Traces host reviewed (dispatch goal goalId before slots tasks) (fun _ w' => w.Kept host reviewed w') w' := by
      intro slots w' hkept
      exact (ih slots hkept.traced (hkept.grows.terms hterms) (hkept.grows.snapshot hbefore)
        fun t ht => hkept.grows.planned (hrest t ht)).mono fun _ _ h => hkept.trans h
    rw [dispatch]
    split_ifs
    · exact Traces.pure hw fun _ h => h
    · exact hgoOn slots w hw.kept
    · split
      · exact Traces.raise
      · exact hgoOn slots w hw.kept
      · split
        · refine Traces.write hw (fun w₁ _ => justified_update rfl rfl rfl w₁) fun _ w' hkept => ?_
          exact hgoOn slots w' hkept
        · exact Traces.raise
        · next payload hpayload =>
          split
          · exact Traces.raise
          · next contract hcontract =>
            have hid : contract.taskId = task.taskId := by
              unfold taskContract TaskContract.validate at hcontract
              split_ifs at hcontract
              cases hcontract
              rfl
            have hmade : ∀ w₁, w.Kept host reviewed w₁ →
                (StoreCall.enqueue contract.taskId contract (key goalId task.taskId)).Justified reviewed w₁ := by
              intro w₁ hkept
              rw [hid]
              exact ⟨commissioned_of_snapshot (hkept.grows.snapshot hbefore) (hkept.grows.planned htask)
                (hkept.grows.terms hterms) hpayload hcontract, goalId, Or.inl rfl⟩
            refine Traces.call hw hmade fun w₁ job w₂ hkept hexec hkept' => ?_
            have hjob := hasJob_of_enqueue hkept.traced (hmade w₁ hkept) hexec hkept'
            rw [hid] at hjob
            refine Traces.write hkept'.traced (fun w₃ hkept'' => ⟨fun j hj => ?_, nofun, nofun⟩) fun _ w₃ hkept'' => ?_
            · rw [← Option.some.inj (Option.some.inj hj)]
              exact hkept''.grows.hasJob hjob
            · exact hgoOn (slots - 1) w₃ ((hkept.trans hkept').trans hkept'')

variable (c : DurableGoalCoordinator)

theorem traces_reconcileRunning (hw : w.Traced host reviewed) (hterms : w.Terms goalId goal) :
    Traces host reviewed (c.reconcileRunning goal goalId) (fun _ w' => w.Kept host reviewed w') w := by
  refine Traces.read trivial hw fun w₁ tasks hkept hread => ?_
  have hsnapshot := snapshot_of_getTasks hkept.traced hread
  refine Traces.bind (traces_settle hkept.traced (hkept.grows.terms hterms) hsnapshot.planned)
    fun stop w₂ hkept₂ => ?_
  have hkept₂ := hkept.trans hkept₂
  split_ifs
  · exact Traces.pure hkept₂.traced fun _ h => hkept₂.trans h
  · refine Traces.read trivial hkept₂.traced fun w₃ before hkept₃ hbefore => ?_
    have hbefore := snapshot_of_getTasks hkept₃.traced hbefore
    refine Traces.bind ((plain_blockLoop before _ _).traces hkept₃.traced) fun _ w₄ hkept₄ => ?_
    refine Traces.read trivial hkept₄.traced fun w₅ tasks hkept₅ htasks => ?_
    have htasks := snapshot_of_getTasks hkept₅.traced htasks
    refine Traces.read trivial hkept₅.traced fun w₆ jobs hkept₆ _ => ?_
    have hsince := (hkept₄.trans hkept₅).trans hkept₆
    have hall := (hkept₂.trans hkept₃).trans hsince
    refine Traces.bind (traces_dispatch _ hkept₆.traced (hall.grows.terms hterms) (hsince.grows.snapshot hbefore)
      (hkept₆.grows.snapshot htasks).planned) fun _ w₇ hkept₇ => ?_
    exact ((plain_finish goalId).traces hkept₇.traced).mono fun _ _ h => (hall.trans hkept₇).trans h

theorem traces_reconcile (goalId : Uuid) (hw : w.Traced host reviewed) :
    Traces host reviewed (c.reconcile goalId) (fun _ w' => w.Kept host reviewed w') w := by
  refine Traces.read trivial hw fun w₁ goal hkept hread => ?_
  cases goal with
  | none => exact Traces.pure hkept.traced fun _ h => hkept.trans h
  | some goal =>
    dsimp only
    split_ifs
    · exact Traces.pure hkept.traced fun _ h => hkept.trans h
    · exact (traces_reconcileRunning c hkept.traced (terms_of_getGoal hread)).mono fun _ _ h => hkept.trans h

theorem traces_reconcileEach (goals : List GoalContract) (hw : w.Traced host reviewed) :
    Traces host reviewed (c.reconcileEach goals) (fun _ w' => w.Kept host reviewed w') w := by
  induction goals generalizing w with
  | nil => exact Traces.pure hw fun _ h => h
  | cons goal goals ih =>
    rw [reconcileEach]
    split_ifs
    · refine Traces.bind (traces_reconcile c goal.goalId hw) fun _ w' hkept => ?_
      exact (ih hkept.traced).mono fun _ _ h => hkept.trans h
    · exact ih hw

/-! ## The other requests -/

theorem traces_start (goalId : Uuid) (actor : String) (hw : w.Traced host reviewed) :
    Traces host reviewed (c.start goalId actor) (fun _ w' => w.Kept host reviewed w') w := by
  refine Traces.read trivial hw fun w₁ goal hkept _ => ?_
  cases goal with
  | none => exact Traces.raise
  | some goal =>
    dsimp only
    split_ifs
    · refine Traces.write hkept.traced (fun _ _ => trivial) fun _ w₂ hkept₂ => ?_
      refine Traces.write hkept₂.traced (fun _ _ => trivial) fun _ w₃ hkept₃ => ?_
      exact (traces_reconcile c goalId hkept₃.traced).mono fun _ _ h =>
        ((hkept.trans hkept₂).trans hkept₃).trans h
    · exact Traces.raise

theorem plain_pause (goalId : Uuid) (actor : String) (reason : Option String) :
    Plain reviewed (DurableGoalCoordinator.pause goalId actor reason) := by
  refine Always.call (fun _ => trivial) fun goal _ => ?_
  cases goal with
  | none => trivial
  | some goal =>
    dsimp only
    split_ifs
    · trivial
    · trivial
    · exact Always.call (fun _ => trivial) fun _ _ => ⟨fun _ => trivial, fun _ _ => trivial⟩

theorem plain_cancelTask (taskId : Uuid) : Plain reviewed (cancelTask taskId) := by
  refine Always.call (fun _ => trivial) fun execution _ => ?_
  cases execution.jobId with
  | none => trivial
  | some jobId =>
    refine Always.call (fun _ => trivial) fun job _ => ?_
    cases job with
    | none => trivial
    | some job =>
      rw [cancelTaskJob]
      split_ifs
      · exact Always.call (fun _ => trivial) fun _ _ => trivial
      · trivial

theorem plain_cancelTasks (tasks : List PlannedTask) (affected : List String) :
    Plain reviewed (cancelTasks tasks affected) := by
  induction tasks generalizing affected with
  | nil => trivial
  | cons task tasks ih =>
    rw [cancelTasks]
    split_ifs
    · refine Always.bind (plain_cancelTask task.taskId) fun _ _ => ?_
      exact Always.call (fun w => justified_update rfl rfl rfl w) fun _ _ => ih _
    · exact Always.call (fun w => justified_update rfl rfl rfl w) fun _ _ => ih _
    · exact ih _

theorem plain_cancel (goalId : Uuid) (actor : String) (reason : Option String) :
    Plain reviewed (DurableGoalCoordinator.cancel goalId actor reason) := by
  refine Always.call (fun _ => trivial) fun goal _ => ?_
  cases goal with
  | none => trivial
  | some goal =>
    dsimp only
    split_ifs
    · trivial
    · trivial
    · refine Always.call (fun _ => trivial) fun tasks _ => Always.bind (plain_cancelTasks tasks []) fun affected _ => ?_
      exact Always.call (fun _ => trivial) fun _ _ => ⟨fun _ => trivial, fun _ _ => trivial⟩

theorem traces_rerun (goalId taskId : Uuid) (actor : String) (reason : Option String) (hw : w.Traced host reviewed) :
    Traces host reviewed (DurableGoalCoordinator.rerun goalId taskId actor reason)
      (fun _ w' => w.Kept host reviewed w') w := by
  refine Traces.read trivial hw fun w₁ tasks hkept hread => ?_
  have hsnapshot := snapshot_of_getTasks hkept.traced hread
  cases htask : byId tasks taskId with
  | none => exact Traces.raise
  | some task =>
    have hplanned := hsnapshot.planned task (mem_of_byId htask).1
    dsimp only
    split_ifs
    · refine Traces.read trivial hkept.traced fun w₂ events hkept₂ _ => ?_
      split
      · exact Traces.raise
      · next payload hpayload =>
        refine Traces.read trivial hkept₂.traced fun w₃ goal hkept₃ hgoal => ?_
        cases goal with
        | none => exact Traces.raise
        | some goal =>
          refine Traces.read trivial hkept₃.traced fun w₄ goal' hkept₄ hgoal' => ?_
          cases goal' with
          | none => exact Traces.raise
          | some goal' =>
            dsimp only [Prog.bind, Prog.pure_eq]
            split
            · exact Traces.raise
            · next contract hcontract =>
              -- the terms are read twice, and are the same
              have hterms : w₄.goals.Terms goalId goal.confidenceThreshold goal'.workspaceRoot := by
                obtain ⟨row, hrow, hthreshold, -⟩ := hkept₄.grows.terms (terms_of_getGoal hgoal)
                obtain ⟨row', hrow', -, hroot⟩ := terms_of_getGoal hgoal'
                rw [hrow] at hrow'
                cases hrow'
                exact ⟨row, hrow, hthreshold, hroot⟩
              have hsince := (hkept₂.trans hkept₃).trans hkept₄
              have hmade : ∀ w₅, w₄.Kept host reviewed w₅ → (StoreCall.enqueue task.taskId contract
                  (rerunKey goalId task.taskId (runNumber task.taskId events))).Justified reviewed w₅ := by
                intro w₅ hkept₅
                have hthen := hsince.trans hkept₅
                exact ⟨commissioned_of_snapshot (hthen.grows.snapshot hsnapshot) (hthen.grows.planned hplanned)
                  (hkept₅.grows.goals.terms _ _ _ hterms) hpayload hcontract, goalId, Or.inr ⟨_, rfl⟩⟩
              refine Traces.call hkept₄.traced hmade fun w₅ job w₆ hkept₅ hexec hkept₆ => ?_
              have hjob := hasJob_of_enqueue hkept₅.traced (hmade w₅ hkept₅) hexec hkept₆
              refine Traces.write hkept₆.traced (fun w₇ hkept₇ => ⟨fun j hj => ?_, nofun, nofun⟩) fun _ w₇ hkept₇ => ?_
              · rw [← Option.some.inj (Option.some.inj hj)]
                exact hkept₇.grows.hasJob hjob
              · refine Traces.write hkept₇.traced (fun _ _ => trivial) fun _ w₈ hkept₈ => ?_
                refine Traces.write (f := Prog.pure) hkept₈.traced (fun _ _ => trivial) fun _ w₉ hkept₉ => ?_
                have hall := hkept.trans
                  (((hsince.trans hkept₅).trans hkept₆).trans ((hkept₇.trans hkept₈).trans hkept₉))
                exact Traces.pure hkept₉.traced fun _ h => hall.trans h
    · exact Traces.raise

/-- A decision of a reviewer completes or fails the task as it is. -/
theorem traces_resumeGoalFromReview (hreviewed : reviewed) (queueTaskId goalId : String) (approved : Bool)
    (item : Option ReviewItem) (hw : w.Traced host reviewed) :
    Traces host reviewed (c.resumeGoalFromReview queueTaskId goalId approved item)
      (fun _ w' => w.Kept host reviewed w') w := by
  have hplain : ∀ {w' : World} (taskId : Uuid) (status : PlannedTaskStatus) (error : Option PyValue),
      (StoreCall.updateTask taskId { status, error }).Justified reviewed w' :=
    fun _ _ _ => ⟨nofun, nofun, fun hnot => absurd hreviewed hnot⟩
  unfold resumeGoalFromReview
  split
  · exact Traces.raise
  · next goalId _ =>
    refine Traces.read trivial hw fun w₁ goal hkept _ => ?_
    split_ifs
    · exact Traces.pure hkept.traced fun _ h => hkept.trans h
    · exact (traces_start c goalId "review" hkept.traced).mono fun _ _ h => hkept.trans h
    · refine Traces.write (f := Prog.pure) hkept.traced (fun _ _ => trivial) fun _ w₂ hkept₂ => ?_
      exact Traces.pure hkept₂.traced fun _ h => (hkept.trans hkept₂).trans h
    · split
      · exact Traces.raise
      · next taskId _ =>
        unfold resumeTask
        split_ifs
        · refine Traces.write hkept.traced (fun _ _ => hplain taskId .complete none) fun _ w₂ hkept₂ => ?_
          exact (traces_start c goalId "review" hkept₂.traced).mono fun _ _ h => (hkept.trans hkept₂).trans h
        · refine Traces.write hkept.traced (fun _ _ => hplain taskId .failed (some (.str "rejected by reviewer")))
            fun _ w₂ hkept₂ => ?_
          refine Traces.write (f := Prog.pure) hkept₂.traced (fun _ _ => trivial) fun _ w₃ hkept₃ => ?_
          exact Traces.pure hkept₃.traced fun _ h => ((hkept.trans hkept₂).trans hkept₃).trans h

/-- Every request, whatever the others do between its calls. -/
theorem traces_request (request : Request) (hreview : request.isReview = true → reviewed)
    (hw : w.Traced host reviewed) :
    Traces host reviewed (request.program c) (fun _ w' => w.Kept host reviewed w') w := by
  cases request with
  | reconcile goalId => exact traces_reconcile c goalId hw
  | reconcileAll =>
    refine Traces.read trivial hw fun w₁ goals hkept _ => ?_
    exact (traces_reconcileEach c goals hkept.traced).mono fun _ _ h => hkept.trans h
  | start goalId actor => exact traces_start c goalId actor hw
  | pause goalId actor reason => exact (plain_pause goalId actor reason).traces hw
  | cancel goalId actor reason => exact (plain_cancel goalId actor reason).traces hw
  | rerun goalId taskId actor reason => exact traces_rerun goalId taskId actor reason hw
  | review queueTaskId goalId approved item =>
    exact traces_resumeGoalFromReview c (hreview rfl) queueTaskId goalId approved item hw

end Reconcile

end Galaxz
