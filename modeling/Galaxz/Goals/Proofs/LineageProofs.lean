import Galaxz.Goals.Deployment
import Galaxz.Goals.Proofs.GuaranteeProofs
import Galaxz.Goals.Proofs.RerunProofs
import Galaxz.Jobs.Proofs.ReplayProofs
import Galaxz.Jobs.Proofs.SubmissionProofs

/-!
# Proofs: where results come from

Everything that a lineage rests on stays once it is there: what a row was planned as, the terms of a goal, the contract
of a job and the result of a job that completed. So what a request has read it may rely on, whatever the others do
before its next call.
-/

namespace Galaxz

open DurableGoalCoordinator SqliteJobRepository Prog

/-! ## Keys -/

theorem length_text (u : Uuid) : u.text.toList.length = 36 := by
  rw [Uuid.text_eq, String.toList_ofList]
  simp [hexPadded]

/-- The key of a task has its id at a fixed place. -/
theorem TaskKey.text {taskId : Uuid} {k : String} (h : TaskKey taskId k) :
    taskId.text.toList = (k.toList.drop 47).take 36 := by
  obtain ⟨goalId, h⟩ := h
  have hgoal := length_text goalId
  have htask := length_text taskId
  have hkey : (key goalId taskId).toList = ("goal:".toList ++ goalId.text.toList ++ ":task:".toList) ++
      taskId.text.toList := by
    unfold key
    simp [toString, String.toList_append]
  have hlength : ("goal:".toList ++ goalId.text.toList ++ ":task:".toList).length = 47 := by
    simp [hgoal]
  rcases h with rfl | ⟨number, rfl⟩
  · rw [hkey, List.drop_left' hlength, ← htask, List.take_length]
  · have hrerun : (rerunKey goalId taskId number).toList = (key goalId taskId).toList ++
        (":rerun:" ++ toString number).toList := by
      unfold rerunKey
      simp [toString, String.toList_append]
    rw [hrerun, hkey, List.append_assoc, List.drop_left' hlength, List.take_left' htask]

/-- A key names one task. -/
theorem TaskKey.unique {t t' : Uuid} {k : String} (h : TaskKey t k) (h' : TaskKey t' k) : t = t' := by
  refine Uuid.text_injective (String.toList_inj.mp ?_)
  rw [h.text, h'.text]

theorem TaskKey.stripped {t : Uuid} {k : String} (h : TaskKey t k) : strip k = k := by
  obtain ⟨goalId, rfl | ⟨number, rfl⟩⟩ := h
  · exact strip_key goalId t
  · exact strip_rerunKey goalId t number

/-! ## The job store -/

section Jobs

variable {s : Db}

/-- A completed job stays so, with its result. -/
theorem step_finished (h : s.Inv) (call : JobCall) {j : Uuid} (hdone : s.status? j = some .completed) :
    (step call s).status? j = some .completed ∧ getResult (step call s) j = getResult s j := by
  obtain ⟨row, hrow, hstatus⟩ := Option.map_eq_some_iff.mp hdone
  have hfrozen := step_keepsFinished call s h j row (h.job?_eq_some.mp hrow) (by rw [hstatus]; rfl)
  constructor
  · rw [Db.status?_eq] at hdone ⊢
    rw [hfrozen.rows]
    exact hdone
  · rw [getResult_eq, getResult_eq, hfrozen.outputs]

/-- A call that completes a job stores a result, unless it passes none. -/
theorem step_hasResult (h : s.Inv) (houts : ∀ j, s.status? j = some .completed → (getResult s j).isSome = true)
    {call : JobCall} (hcall : ∀ j token ref now, call ≠ .complete j token ref none now) (j : Uuid)
    (hdone : (step call s).status? j = some .completed) : (getResult (step call s) j).isSome = true := by
  by_cases hbefore : s.status? j = some .completed
  · rw [(step_finished h call hbefore).2]
    exact houts j hbefore
  · obtain ⟨token, ref, result, now, rfl, hcompleted⟩ := step_completed h hbefore hdone
    cases result with
    | none => exact absurd rfl (hcall j token ref now)
    | some result =>
      have hresult := hcompleted.result
      unfold canonicalJson at hresult
      cases hdumps : result.dumps with
      | error e =>
        simp only [hdumps] at hresult
        cases hresult
      | ok serialized =>
        simp only [hdumps] at hresult
        rw [← Except.ok.inj hresult]
        rfl

/-- The task of a new job can be read. -/
theorem getTask_of_inserted (h : s.Inv) (call : JobCall) {c : Submission} {contract : TaskContract}
    (hinv : (step call s).Inv) (htask : c.task = some contract)
    (hkeys : (step call s).idempotency = s.idempotency ++ [⟨c.key, c.jobId, c.now⟩])
    (htasks : (step call s).tasks = s.tasks ++ c.taskRows) : getTask (step call s) c.jobId = some contract := by
  have habsent : s.tasks.find? (·.jobId = c.jobId) = none := by
    rcases h.views c.jobId with habs | ⟨row, key, hs⟩
    · have hnone : s.tasks.filter (·.jobId = c.jobId) = [] := congrArg JobView.tasks habs
      rw [← List.head?_filter, hnone]
      rfl
    · -- the job would have two keys
      exfalso
      have hkey : key ∈ s.idempotency ∧ key.jobId = c.jobId :=
        Db.mem_view_keys.mp (by rw [hs.keys]; exact List.mem_singleton_self key)
      have hnodup := hinv.ids_nodup
      rw [hkeys, List.map_append, List.nodup_append] at hnodup
      exact hnodup.2.2 _ (List.mem_map_of_mem hkey.1) _ (List.mem_singleton_self _) hkey.2
  unfold getTask
  rw [htasks, List.find?_append, habsent]
  unfold Submission.taskRows
  rw [htask]
  simp

/-- A job that is read is the one that was asked for, as it stands. -/
theorem getJob_read (h : s.Inv) {j : Uuid} {job : Job} (hjob : getJob s j = .ok (some job)) :
    job.jobId = j ∧ s.status? j = some job.status := by
  cases hrow : s.job? j with
  | none =>
    obtain ⟨found, hfound, hiff⟩ := getJob_ok h j
    rw [hjob] at hfound
    cases hfound
    rw [hrow] at hiff
    exact absurd (hiff.mp rfl) (by simp)
  | some row =>
    obtain ⟨job', -, hget, hid, hstatus⟩ := getJobAsserted_spec h hrow
    rw [hjob] at hget
    cases hget
    refine ⟨hid, ?_⟩
    unfold Db.status?
    rw [hrow, hstatus]
    rfl

/-- A job that is found by a key has the key, and reads as it stands. -/
theorem getJobByIdempotencyKey_read (h : s.Inv) {k : String} {job : Job}
    (hjob : getJobByIdempotencyKey s k = .ok (some job)) :
    (∃ row ∈ s.idempotency, row.idempotencyKey = k ∧ row.jobId = job.jobId) ∧
      s.status? job.jobId = some job.status := by
  unfold getJobByIdempotencyKey at hjob
  cases hfind : (joinKeys s s.jobs).find? (·.2 = k) with
  | none =>
    rw [hfind] at hjob
    cases hjob
  | some found =>
    obtain ⟨row, text⟩ := found
    rw [hfind] at hjob
    obtain ⟨job', hread, hjob⟩ := (except_bind_ok_iff _ _ _).mp hjob
    cases hjob
    obtain ⟨hid, hstatus⟩ := jobFromRow_fields hread
    obtain ⟨key, hkey, htext, hs⟩ := find_joinKeys h hfind
    have hrowid : row.jobId = key.jobId := (Db.mem_view_rows.mp (by rw [hs.rows]; exact List.mem_singleton_self row)).2
    refine ⟨⟨key, hkey, htext, (hid.trans hrowid).symm⟩, ?_⟩
    unfold Db.status?
    rw [hid, hrowid, h.job?_eq_some.mpr hs.rows, hstatus]
    rfl

end Jobs

/-! ## What stays -/

/-- The rows are of the same task; what was planned is the same. -/
structure PlannedTaskRow.SamePlan (r r' : PlannedTaskRow) : Prop where
  taskId : r'.taskId = r.taskId
  goalId : r'.goalId = r.goalId
  skill : r'.skill = r.skill
  payload : r'.payload = r.payload
  dependsOn : r'.dependsOn = r.dependsOn

theorem PlannedTaskRow.SamePlan.refl (r : PlannedTaskRow) : r.SamePlan r := ⟨rfl, rfl, rfl, rfl, rfl⟩

theorem PlannedTaskRow.SamePlan.trans {r r' r'' : PlannedTaskRow} (h : r.SamePlan r') (h' : r'.SamePlan r'') :
    r.SamePlan r'' where
  taskId := h'.taskId.trans h.taskId
  goalId := h'.goalId.trans h.goalId
  skill := h'.skill.trans h.skill
  payload := h'.payload.trans h.payload
  dependsOn := h'.dependsOn.trans h.dependsOn

theorem PlannedTaskRow.SamePlan.planned {r r' : PlannedTaskRow} (h : r.SamePlan r') {t : PlannedTask}
    (ht : t.PlannedIn r) : t.PlannedIn r' where
  taskId := ht.taskId.trans h.taskId.symm
  goalId := ht.goalId.trans h.goalId.symm
  skill := ht.skill.trans h.skill.symm
  payload := ht.payload.trans h.payload.symm
  dependsOn := ht.dependsOn.trans h.dependsOn.symm

/-- The terms of a goal that its tasks run under. -/
def GoalDb.Terms (s : GoalDb) (goalId : Uuid) (threshold : PyFloat) (workspaceRoot : Option String) : Prop :=
  ∃ goal, s.goal? goalId = some goal ∧ goal.confidenceThreshold = threshold ∧ goal.workspaceRoot = workspaceRoot

/-- Plans and terms are kept. -/
structure GoalDb.Keeps (s s' : GoalDb) : Prop where
  tasks : ∀ id r, s.task? id = some r → ∃ r', s'.task? id = some r' ∧ r.SamePlan r'
  terms : ∀ id threshold workspaceRoot, s.Terms id threshold workspaceRoot → s'.Terms id threshold workspaceRoot

theorem GoalDb.Keeps.refl (s : GoalDb) : s.Keeps s := ⟨fun _ r hr => ⟨r, hr, .refl r⟩, fun _ _ _ h => h⟩

theorem GoalDb.Keeps.trans {s s' s'' : GoalDb} (h : s.Keeps s') (h' : s'.Keeps s'') : s.Keeps s'' where
  tasks id r hr := by
    obtain ⟨r', hr', hsame⟩ := h.tasks id r hr
    obtain ⟨r'', hr'', hsame'⟩ := h'.tasks id r' hr'
    exact ⟨r'', hr'', hsame.trans hsame'⟩
  terms id threshold workspaceRoot hterms := h'.terms id _ _ (h.terms id _ _ hterms)

/-- A contract that was made for a task was, also when more is planned and more was run. -/
theorem Commissioned.mono {goals goals' : GoalDb} {Ran Ran' : TaskContract → PyDict → Prop}
    (hgoals : goals.Keeps goals')
    (hran : ∀ contract result, Ran contract result → Ran' contract result) {taskId : Uuid} {contract : TaskContract}
    (h : Commissioned goals Ran taskId contract) : Commissioned goals' Ran' taskId contract := by
  induction h with
  | commission hrow hplanned hgoal htasks hresults hcontracts hpayload hcontract ih =>
    obtain ⟨row', hrow', hsame⟩ := hgoals.tasks _ _ hrow
    obtain ⟨goal', hgoal', hthreshold, hroot⟩ := hgoals.terms _ _ _ ⟨_, hgoal, rfl, rfl⟩
    refine .commission hrow' (hsame.planned hplanned) (hsame.goalId ▸ hgoal') (fun t ht => ?_)
      (fun t ht x hx => ⟨(hresults t ht x hx).1, hran _ _ (hresults t ht x hx).2⟩) ih hpayload ?_
    · obtain ⟨r, hr, htr, hgoalId⟩ := htasks t ht
      obtain ⟨r', hr', hsame'⟩ := hgoals.tasks _ _ hr
      exact ⟨r', hr', hsame'.planned htr, by rw [hsame'.goalId, hsame.goalId, hgoalId]⟩
    · rw [hsame.goalId, hthreshold, hroot]
      exact hcontract

theorem Yielded.mono {goals goals' : GoalDb} {Ran Ran' : TaskContract → PyDict → Prop} (hgoals : goals.Keeps goals')
    (hran : ∀ contract result, Ran contract result → Ran' contract result) {taskId : Uuid} {result : PyDict}
    (h : Yielded goals Ran taskId result) : Yielded goals' Ran' taskId result := by
  obtain ⟨contract, hcontract, hresult⟩ := h
  exact ⟨contract, hcontract.mono hgoals hran, hran contract result hresult⟩

/-! ## The stores -/

/-- Whatever happens to the stores, what a lineage rests on stays. -/
structure World.Grows (w w' : World) : Prop where
  goals : w.goals.Keeps w'.goals
  tasks : ∀ j contract, getTask w.jobs j = some contract → getTask w'.jobs j = some contract
  finished : ∀ j, w.jobs.status? j = some .completed →
    w'.jobs.status? j = some .completed ∧ getResult w'.jobs j = getResult w.jobs j

/-- A run of a contract for the task returned the result. -/
abbrev World.Yields (w : World) (taskId : Uuid) (result : PyDict) : Prop := Yielded w.goals w.jobs.Ran taskId result

/-- The contract of the job was made for the task. -/
def World.HasJob (w : World) (taskId j : Uuid) : Prop :=
  ∃ contract, getTask w.jobs j = some contract ∧ Commissioned w.goals w.jobs.Ran taskId contract

section Grows

variable {w w' w'' : World}

theorem World.Grows.refl (w : World) : w.Grows w := ⟨.refl _, fun _ _ h => h, fun _ h => ⟨h, rfl⟩⟩

theorem World.Grows.trans (h : w.Grows w') (h' : w'.Grows w'') : w.Grows w'' where
  goals := h.goals.trans h'.goals
  tasks j contract htask := h'.tasks j contract (h.tasks j contract htask)
  finished j hdone := by
    obtain ⟨hdone', hresult⟩ := h.finished j hdone
    obtain ⟨hdone'', hresult'⟩ := h'.finished j hdone'
    exact ⟨hdone'', hresult'.trans hresult⟩

theorem World.Grows.ran (h : w.Grows w') (contract : TaskContract) (result : PyDict)
    (hran : w.jobs.Ran contract result) :
    w'.jobs.Ran contract result := by
  obtain ⟨j, htask, hdone, hresult⟩ := hran
  obtain ⟨hdone', hresult'⟩ := h.finished j hdone
  exact ⟨j, h.tasks j contract htask, hdone', hresult'.trans hresult⟩

theorem World.Grows.commissioned (h : w.Grows w') {taskId : Uuid} {contract : TaskContract}
    (hcontract : Commissioned w.goals w.jobs.Ran taskId contract) : Commissioned w'.goals w'.jobs.Ran taskId contract :=
  hcontract.mono h.goals h.ran

theorem World.Grows.yields (h : w.Grows w') {taskId : Uuid} {result : PyDict} (hresult : w.Yields taskId result) :
    w'.Yields taskId result :=
  hresult.mono h.goals h.ran

theorem World.Grows.hasJob (h : w.Grows w') {taskId j : Uuid} (hjob : w.HasJob taskId j) : w'.HasJob taskId j := by
  obtain ⟨contract, htask, hcontract⟩ := hjob
  exact ⟨contract, h.tasks j contract htask, h.commissioned hcontract⟩

/-- The result of a completed job of the task. -/
theorem World.HasJob.yields {taskId j : Uuid} (h : w.HasJob taskId j) (hdone : w.jobs.status? j = some .completed)
    {result : PyDict} (hresult : getResult w.jobs j = some result) : w.Yields taskId result := by
  obtain ⟨contract, htask, hcontract⟩ := h
  exact ⟨contract, hcontract, j, htask, hdone, hresult⟩

end Grows

/-- Where the entries of a row come from: the link is to a job of the task, the result was returned by a run of it, and,
unless reviewers decide too, the task is complete on such a result. -/
structure World.RowTraced (host : Host) (reviewed : Prop) (w : World) (id : Uuid) (r : PlannedTaskRow) : Prop where
  link : ∀ j, r.jobId = some j → w.HasJob id j
  result : ∀ x, r.result = some x → ∃ result, x = taskResult result ∧ w.Yields id result
  complete : ¬ reviewed → r.status = .complete → r.Earned host w.goals w.jobs.Ran

/-- All rows and all keys of tasks are traced. -/
structure World.Traced (host : Host) (reviewed : Prop) (w : World) : Prop where
  inv : w.jobs.Inv
  outputs : ∀ j, w.jobs.status? j = some .completed → (getResult w.jobs j).isSome = true
  keys : ∀ k ∈ w.jobs.idempotency, ∀ taskId, TaskKey taskId k.idempotencyKey → w.HasJob taskId k.jobId
  rows : ∀ id r, w.goals.task? id = some r → w.RowTraced host reviewed id r

/-- The accepted result of a run of the task. -/
def World.Accepts (w : World) (taskId : Uuid) (result : PyDict) : Prop :=
  w.Yields taskId result ∧ ∀ r, w.goals.task? taskId = some r → ∃ goal, w.goals.goal? r.goalId = some goal ∧
    accepted result goal.confidenceThreshold = .ok true

/-- The call stores and enqueues only what has a lineage. -/
def StoreCall.Justified (reviewed : Prop) : StoreCall → World → Prop
  | .enqueue taskId contract k, w => Commissioned w.goals w.jobs.Ran taskId contract ∧ TaskKey taskId k
  | .updateTask taskId update, w =>
    (∀ j, update.jobId = some (some j) → w.HasJob taskId j) ∧
      (∀ x, update.result = some (some x) → ∃ result, x = taskResult result ∧ w.Yields taskId result) ∧
      (¬ reviewed → update.status = .complete → ∃ result, update = completeUpdate result ∧ w.Accepts taskId result)
  | _, _ => True

section Traced

variable {host : Host} {reviewed : Prop} {w w' : World}

/-- What a row was traced to stays. -/
theorem World.RowTraced.mono {id : Uuid} {r : PlannedTaskRow} (h : w.RowTraced host reviewed id r)
    (hgrows : w.Grows w') :
    w'.RowTraced host reviewed id r where
  link j hj := hgrows.hasJob (h.link j hj)
  result x hx := by
    obtain ⟨result, hx, hyields⟩ := h.result x hx
    exact ⟨result, hx, hgrows.yields hyields⟩
  complete hnot hstatus := by
    obtain ⟨result, goal, hyields, hgoal, haccepted, hresult, hconfidence⟩ := h.complete hnot hstatus
    obtain ⟨goal', hgoal', hthreshold, -⟩ := hgrows.goals.terms _ _ _ ⟨goal, hgoal, rfl, rfl⟩
    exact ⟨result, goal', hgrows.yields hyields, hgoal', by rw [hthreshold]; exact haccepted, hresult, hconfidence⟩

/-! ## Steps of the stores -/

/-- A step of the job store. Jobs that are enqueued under the key of a task have a contract that was made for it, and a
completion passes a result. -/
theorem World.Traced.jobs_step (h : w.Traced host reviewed) (call : JobCall)
    (hkeys : ∀ c, call.submission? = some c → ∀ taskId, TaskKey taskId c.key →
      ∃ contract, c.task = some contract ∧ Commissioned w.goals w.jobs.Ran taskId contract)
    (hcall : ∀ j token ref now, call ≠ .complete j token ref none now) :
    (w.work call).Traced host reviewed ∧ w.Grows (w.work call) := by
  have hinv : (SqliteJobRepository.step call w.jobs).Inv := step_inv call w.jobs h.inv
  have hgrows : w.Grows (w.work call) :=
    ⟨.refl _, fun j contract htask => step_getTask h.inv call htask, fun j hdone => step_finished h.inv call hdone⟩
  refine ⟨⟨hinv, step_hasResult h.inv h.outputs hcall, fun k hk taskId htask => ?_,
    fun id r hr => (h.rows id r hr).mono hgrows⟩, hgrows⟩
  rcases step_submitted h.inv call with ⟨hsame, -⟩ | ⟨c, hc, -, hnew, htasks⟩
  · refine hgrows.hasJob (h.keys k ?_ taskId htask)
    rw [← hsame]
    exact hk
  · have hk' : k ∈ w.jobs.idempotency ++ [⟨c.key, c.jobId, c.now⟩] := by
      rw [← hnew]
      exact hk
    rcases List.mem_append.mp hk' with hold | hnewkey
    · exact hgrows.hasJob (h.keys k hold taskId htask)
    · rw [List.mem_singleton.mp hnewkey] at htask ⊢
      obtain ⟨contract, hcontract, hmade⟩ := hkeys c hc taskId htask
      exact ⟨contract, getTask_of_inserted h.inv call hinv hcontract hnew htasks, hgrows.commissioned hmade⟩

/-- A step of the goal store that keeps what was planned, and leaves traced rows. -/
theorem World.Traced.goals_step (h : w.Traced host reviewed) (goals : GoalDb) (hkeeps : w.goals.Keeps goals)
    (hrows : ∀ id r, goals.task? id = some r → w.RowTraced host reviewed id r) :
    ({ w with goals } : World).Traced host reviewed ∧ w.Grows { w with goals } := by
  have hgrows : w.Grows { w with goals } := ⟨hkeeps, fun _ _ h => h, fun _ h => ⟨h, rfl⟩⟩
  exact ⟨⟨h.inv, h.outputs, fun k hk taskId htask => hgrows.hasJob (h.keys k hk taskId htask),
    fun id r hr => (hrows id r hr).mono hgrows⟩, hgrows⟩

/-- Readings that are used up leave the stores. -/
theorem World.Traced.used (h : w.Traced host reviewed) : w.used.Traced host reviewed :=
  ⟨h.inv, h.outputs, h.keys, fun id r hr => (h.rows id r hr).mono ⟨.refl _, fun _ _ h => h, fun _ h => ⟨h, rfl⟩⟩⟩

theorem World.Grows.used (h : w.Grows w') : w.Grows w'.used := ⟨h.goals, h.tasks, h.finished⟩

/-- An update of a goal that leaves its terms. -/
theorem GoalDb.keeps_updateGoal (goals : GoalDb) (goalId : Uuid) (f : GoalRow → GoalRow)
    (hf : ∀ g, (f g).goalId = g.goalId)
    (hterms : ∀ g, (f g).confidenceThreshold = g.confidenceThreshold ∧ (f g).workspaceRoot = g.workspaceRoot) :
    goals.Keeps (goals.updateGoal goalId f hf) where
  tasks id r hr := ⟨r, hr, .refl r⟩
  terms id threshold workspaceRoot h := by
    obtain ⟨goal, hgoal, hthreshold, hroot⟩ := h
    unfold Terms
    rw [goal?_updateGoal, hgoal]
    split_ifs
    · exact ⟨f goal, rfl, (hterms goal).1.trans hthreshold, (hterms goal).2.trans hroot⟩
    · exact ⟨goal, rfl, hthreshold, hroot⟩

theorem GoalDb.keeps_updateTask (goals : GoalDb) (taskId : Uuid) (cells : GoalStore.TaskCells) :
    goals.Keeps (goals.updateTaskRow taskId cells.set cells.set_taskId) where
  tasks id r hr := by
    rw [task?_updateTaskRow, hr]
    split_ifs
    · exact ⟨cells.set r, rfl, rfl, rfl, rfl, rfl, rfl⟩
    · exact ⟨r, rfl, .refl r⟩
  terms id threshold workspaceRoot hterms := hterms

/-- The texts that an update stores are those of its values. -/
theorem cells_values {update : GoalStore.TaskUpdate} {cells : GoalStore.TaskCells} (h : update.cells host = .ok cells) :
    cells.result = update.result ∧
      ∀ value, update.confidence = some value → ∃ cell, cells.confidence = some cell ∧
        Sqlite.bindReal host value = .ok cell := by
  have hdump : ∀ {x y : Option PyDict}, Sqlite.dumpJson x = .ok y → y = x := by
    intro x y hxy
    unfold Sqlite.dumpJson at hxy
    split at hxy
    · exact (Except.ok.inj hxy).symm
    · split_ifs at hxy
      exact (Except.ok.inj hxy).symm
  unfold GoalStore.TaskUpdate.cells at h
  obtain ⟨result, hresult, h⟩ := (except_bind_ok_iff _ _ _).mp h
  obtain ⟨payload, -, h⟩ := (except_bind_ok_iff _ _ _).mp h
  obtain ⟨confidence, hconfidence, h⟩ := (except_bind_ok_iff _ _ _).mp h
  obtain ⟨error, -, h⟩ := (except_bind_ok_iff _ _ _).mp h
  cases h
  refine ⟨?_, fun value hvalue => ?_⟩
  · cases hu : update.result with
    | none =>
      rw [hu] at hresult
      exact (Except.ok.inj hresult).symm
    | some x =>
      rw [hu] at hresult
      obtain ⟨y, hy, hresult⟩ := (except_bind_ok_iff _ _ _).mp hresult
      cases hresult
      rw [hdump hy]
  · rw [hvalue] at hconfidence
    obtain ⟨cell, hcell, hconfidence⟩ := (except_bind_ok_iff _ _ _).mp hconfidence
    cases hconfidence
    exact ⟨cell, rfl, hcell⟩

/-- A justified update leaves a traced row. -/
theorem World.RowTraced.update {id : Uuid} {r : PlannedTaskRow} (h : w.RowTraced host reviewed id r)
    (hrow : w.goals.task? id = some r) {update : GoalStore.TaskUpdate} {cells : GoalStore.TaskCells}
    (hcells : update.cells host = .ok cells) (hjustified : (StoreCall.updateTask id update).Justified reviewed w) :
    w.RowTraced host reviewed id (cells.set r) := by
  obtain ⟨hlink, hresult, hcomplete⟩ := hjustified
  obtain ⟨hresults, hconfidence⟩ := cells_values hcells
  have hjob : (cells.set r).jobId = update.jobId.getD r.jobId := by
    rw [← World.cells_jobId host hcells]
    rfl
  have hres : (cells.set r).result = update.result.getD r.result := by
    rw [← hresults]
    rfl
  have hstatus : (cells.set r).status = update.status := World.cells_status host hcells
  refine ⟨fun j hj => ?_, fun x hx => ?_, fun hnot hdone => ?_⟩
  · rw [hjob] at hj
    cases hu : update.jobId with
    | none =>
      rw [hu] at hj
      exact h.link j hj
    | some link =>
      rw [hu] at hj
      exact hlink j (by rw [hu]; exact congrArg some hj)
  · rw [hres] at hx
    cases hu : update.result with
    | none =>
      rw [hu] at hx
      exact h.result x hx
    | some stored =>
      rw [hu] at hx
      exact hresult x (by rw [hu]; exact congrArg some hx)
  · rw [hstatus] at hdone
    obtain ⟨result, rfl, hyields, haccepts⟩ := hcomplete hnot hdone
    obtain ⟨goal, hgoal, haccepted⟩ := haccepts r hrow
    obtain ⟨cell, hcell, hbind⟩ := hconfidence (result.get "confidence") rfl
    have hid : (cells.set r).taskId = id := (GoalDb.task?_eq_some.mp hrow).2
    refine ⟨result, goal, by rw [hid]; exact hyields, hgoal, haccepted, hres, ?_⟩
    show _ = Except.ok (cells.confidence.getD r.confidence)
    rw [hcell]
    exact hbind

/-- A justified call keeps the stores traced. -/
theorem World.Traced.exec (h : w.Traced host reviewed) (call : StoreCall) (hcall : call.Justified reviewed w) :
    (World.exec host call w).2.Traced host reviewed ∧ w.Grows (World.exec host call w).2 := by
  cases call with
  | setGoalStatus goalId status =>
    exact h.goals_step _ (w.goals.keeps_updateGoal goalId _ _ fun _ => ⟨rfl, rfl⟩) fun id r hr => h.rows id r hr
  | updateTask taskId update =>
    rcases hexec : World.exec host (.updateTask taskId update) w with ⟨e | a, w'⟩
    · rw [World.exec_updateTask_error host hexec]
      exact ⟨h, .refl w⟩
    · obtain ⟨cells, hcells, rfl⟩ := World.exec_updateTask host hexec
      refine h.goals_step _ (w.goals.keeps_updateTask taskId cells) fun id r hr => ?_
      rw [GoalDb.task?_updateTaskRow] at hr
      split_ifs at hr with heq
      · subst heq
        obtain ⟨row, hrow, rfl⟩ := Option.map_eq_some_iff.mp hr
        exact (h.rows id row hrow).update hrow hcells hcall
      · exact h.rows id r hr
  | recordEvent goalId actor action reason affected =>
    have hstep := h.goals_step
      (GoalStore.recordEvent goalId actor action reason affected (w.readings 0).now w.goals)
      ⟨fun id r hr => ⟨r, hr, .refl r⟩, fun _ _ _ h => h⟩ fun id r hr => h.rows id r hr
    exact ⟨hstep.1.used, hstep.2.used⟩
  | enqueue taskId contract k =>
    let c : Submission := ⟨(w.readings 0).id, taskId, some contract, k, 0, none, (w.readings 0).now⟩
    have hkeys : ∀ c', c.call.submission? = some c' → ∀ t, TaskKey t c'.key →
        ∃ contract, c'.task = some contract ∧ Commissioned w.goals w.jobs.Ran t contract := by
      intro c' hc' t ht
      obtain rfl : c = c' := Option.some.inj hc'
      have ht' : TaskKey t k := by
        rw [← hcall.2.stripped]
        exact ht
      obtain rfl := ht'.unique hcall.2
      exact ⟨contract, rfl, hcall.1⟩
    have hstep := h.jobs_step c.call hkeys nofun
    exact ⟨hstep.1.used, hstep.2.used⟩
  | cancelJob jobId =>
    have hstep := h.jobs_step (.cancel jobId (w.readings 0).now) (fun c hc => by cases hc) nofun
    exact ⟨hstep.1.used, hstep.2.used⟩
  | _ => exact ⟨h, .refl w⟩

end Traced

end Galaxz
