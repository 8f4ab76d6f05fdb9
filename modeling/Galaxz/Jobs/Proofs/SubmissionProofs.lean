import Galaxz.Jobs.Proofs.FencingProofs
import Galaxz.Jobs.Calls

/-!
# Proofs: idempotent submission

`submit_cases` says once what an `enqueue` call can do. The keys stay pairwise distinct because a new
one is inserted only when no job has it; that a job has one key, and a key a job, comes with the
invariant of the store.
-/

namespace Galaxz

open SqliteJobRepository

/-! ## The contract of a job -/

theorem Job.validate_queued (jobId taskId : Uuid) {priority : ℤ} {key : String} (policy : RetryPolicy)
    (now : Datetime) (hpriority : -100 ≤ priority ∧ priority ≤ 100) (hkey : strip key ≠ "") :
    ∃ job, Job.validate jobId taskId .queued priority key policy now now now none none = .ok job := by
  unfold Job.validate
  rw [dif_pos hpriority, dif_pos hkey, dif_pos (by simp)]
  exact ⟨_, rfl⟩

/-! ## The tables of keys and jobs -/

theorem Db.mem_view_keys {s : Db} {j : Uuid} {k : IdempotencyRow} :
    k ∈ (s.view j).keys ↔ k ∈ s.idempotency ∧ k.jobId = j := by
  simp [Db.view, Db.keysOf]

/-- A key belongs to a job, and is its only one. -/
theorem Db.Inv.view_of_key {s : Db} (h : s.Inv) {k : IdempotencyRow} (hk : k ∈ s.idempotency) :
    ∃ row, (s.view k.jobId).Sound row k := by
  have hmem : k ∈ (s.view k.jobId).keys := Db.mem_view_keys.mpr ⟨hk, rfl⟩
  rcases h.views k.jobId with habs | ⟨row, key, hs⟩
  · rw [habs] at hmem
    cases hmem
  · rw [hs.keys, List.mem_singleton] at hmem
    rw [hmem] at hs ⊢
    exact ⟨row, hs⟩

theorem Db.Inv.ids_nodup {s : Db} (h : s.Inv) : (s.idempotency.map (·.jobId)).Nodup := by
  rw [List.nodup_iff_count_le_one]
  intro j
  rw [List.count_eq_length_filter, List.filter_map, List.length_map]
  have hkeys : s.idempotency.filter ((· == j) ∘ fun k => k.jobId) = (s.view j).keys := by
    apply List.filter_congr
    intro k _
    show (k.jobId == j) = decide (k.jobId = j)
    rw [beq_eq_decide]
  rw [hkeys]
  rcases h.views j with habs | ⟨row, key, hs⟩
  · rw [habs]
    exact Nat.zero_le 1
  · rw [hs.keys]
    exact le_rfl

theorem Db.Inv.keys_of_jobs {s : Db} (h : s.Inv) (j : Uuid) :
    j ∈ s.idempotency.map (·.jobId) ↔ j ∈ s.jobs.map (·.jobId) := by
  constructor
  · intro hj
    obtain ⟨k, hk, rfl⟩ := List.mem_map.mp hj
    obtain ⟨row, hs⟩ := h.view_of_key hk
    have hmem : row ∈ (s.view k.jobId).rows := by rw [hs.rows]; exact List.mem_singleton_self row
    obtain ⟨hrow, hid⟩ := Db.mem_view_rows.mp hmem
    exact List.mem_map.mpr ⟨row, hrow, hid⟩
  · intro hj
    obtain ⟨row, hrow, rfl⟩ := List.mem_map.mp hj
    obtain ⟨key, hs⟩ := (h.views row.jobId).sound (h.view_of_mem hrow)
    have hmem : key ∈ (s.view row.jobId).keys := by rw [hs.keys]; exact List.mem_singleton_self key
    obtain ⟨hkey, hid⟩ := Db.mem_view_keys.mp hmem
    exact List.mem_map.mpr ⟨key, hkey, hid⟩

/-- A job that is not there has no task. -/
theorem Db.Inv.getTask_none {s : Db} (h : s.Inv) {jobId : Uuid} (hnew : ∀ r ∈ s.jobs, r.jobId ≠ jobId) :
    s.tasks.find? (fun t => decide (t.jobId = jobId)) = none := by
  have htasks : s.tasksOf jobId = [] := by
    rcases h.views jobId with habs | ⟨row, key, hs⟩
    · exact congrArg JobView.tasks habs
    · have hmem : row ∈ (s.view jobId).rows := by
        rw [hs.rows]
        exact List.mem_singleton_self row
      obtain ⟨hrow, hid⟩ := Db.mem_view_rows.mp hmem
      exact absurd hid (hnew row hrow)
  rw [List.find?_eq_none]
  intro t ht
  have hno := List.filter_eq_nil_iff.mp htasks t ht
  simpa using hno

theorem Db.job?_eq_none_iff {s : Db} {jobId : Uuid} : s.job? jobId = none ↔ ∀ r ∈ s.jobs, r.jobId ≠ jobId := by
  unfold Db.job?
  rw [List.find?_eq_none]
  exact forall₂_congr fun r _ => by simp

/-- The keys of the database are pairwise distinct. -/
def Db.KeysNodup (s : Db) : Prop := (s.idempotency.map (·.idempotencyKey)).Nodup

theorem Db.Inv.keysMatchJobs {s : Db} (h : s.Inv) (hkeys : s.KeysNodup) : s.KeysMatchJobs :=
  ⟨hkeys, h.ids_nodup, h.jobs_nodup, h.keys_of_jobs⟩

/-! ## What a submission does -/

section Submit

variable {s : Db} {c : Submission}

/-- The look-up of `enqueue` finds the row of the job that has the key. -/
theorem find_joinKeys (h : s.Inv) {key : String} {row : JobRow} {text : String}
    (hfind : (joinKeys s s.jobs).find? (·.2 = key) = some (row, text)) :
    ∃ k ∈ s.idempotency, k.idempotencyKey = key ∧ (s.view k.jobId).Sound row k := by
  have hmem := List.mem_of_find?_eq_some hfind
  have htext : text = key := by simpa using List.find?_some hfind
  obtain ⟨hrow, k, hk, hkey⟩ := mem_joinKeys hmem
  obtain ⟨hkmem, hid⟩ := Db.mem_view_keys.mp hk
  obtain ⟨row', hs⟩ := h.view_of_key hkmem
  have hrows : (s.view k.jobId).rows = [row] := by
    rw [hid]
    exact h.view_of_mem hrow
  rw [hs.row_eq hrows]
  exact ⟨k, hkmem, hkey.trans htext, hs⟩

theorem find_joinKeys_none (h : s.Inv) {key : String}
    (hfind : (joinKeys s s.jobs).find? (·.2 = key) = none) :
    ∀ k ∈ s.idempotency, k.idempotencyKey ≠ key := by
  intro k hk hkey
  obtain ⟨row, hs⟩ := h.view_of_key hk
  have hmem : row ∈ (s.view k.jobId).rows := by rw [hs.rows]; exact List.mem_singleton_self row
  obtain ⟨hrow, hid⟩ := Db.mem_view_rows.mp hmem
  have hjoin : (row, k.idempotencyKey) ∈ joinKeys s s.jobs := by
    refine List.mem_flatMap.mpr ⟨row, hrow, List.mem_map.mpr ⟨k, ?_, rfl⟩⟩
    exact List.mem_filter.mpr ⟨hk, by simp [hid]⟩
  have hno := List.find?_eq_none.mp hfind _ hjoin
  exact hno (by simpa using hkey)

/-- The rows that a new job adds to `job_tasks`. -/
def Submission.taskRows (c : Submission) : List TaskRow :=
  (c.task.map fun task => ⟨c.jobId, task⟩).toList

/-- What an `enqueue` call can do: raise and write nothing, find the job of its key, or insert a new
job under a key that no job has. It raises for its arguments alone when a job has the key. -/
theorem submit_cases (h : s.Inv) (c : Submission) :
    (∃ e, c.submit s = (.error e, s) ∧
      (c.Admitted → ∀ k ∈ s.idempotency, k.idempotencyKey ≠ c.key)) ∨
    (∃ k ∈ s.idempotency, ∃ row job, k.idempotencyKey = c.key ∧ (s.view k.jobId).Sound row k ∧
      jobFromRow row c.key = .ok job ∧ c.submit s = (.ok job, s)) ∨
    ∃ job, (c.submit s).1 = .ok job ∧ job.jobId = c.jobId ∧
      (∀ k ∈ s.idempotency, k.idempotencyKey ≠ c.key) ∧
      (c.submit s).2.idempotency = s.idempotency ++ [⟨c.key, c.jobId, c.now⟩] ∧
      (c.submit s).2.tasks = s.tasks ++ c.taskRows := by
  unfold Submission.submit enqueue
  dsimp only
  split_ifs with htask
  · refine Or.inl ⟨_, rfl, fun hadm => ?_⟩
    rw [hadm.1] at htask
    cases htask
  cases hvalid : Job.validate c.jobId c.taskId .queued c.priority c.idempotencyKey
      (c.retryPolicy.getD .default) c.now c.now c.now none none with
  | error e =>
    refine Or.inl ⟨e, rfl, fun hadm => ?_⟩
    obtain ⟨job, hok⟩ := Job.validate_queued c.jobId c.taskId (c.retryPolicy.getD .default) c.now
      hadm.2.1 hadm.2.2
    rw [hvalid] at hok
    cases hok
  | ok candidate =>
    obtain ⟨hid, -, -, hkey, -⟩ := Job.validate_fields hvalid
    have hkey : candidate.idempotencyKey = c.key := hkey
    dsimp only
    unfold transaction
    cases hbody : enqueueTx candidate c.task c.now s with
    | error e =>
      refine Or.inl ⟨e, rfl, fun _ => find_joinKeys_none h ?_⟩
      by_contra hfound
      obtain ⟨found, hfind⟩ := Option.ne_none_iff_exists'.mp hfound
      unfold enqueueTx at hbody
      rw [hkey, hfind] at hbody
      cases hbody
    | ok r =>
      obtain ⟨res, s'⟩ := r
      dsimp only
      right
      rcases enqueueTx_cases hbody with ⟨row, text, hfind, rfl, rfl⟩ | ⟨hfind, rfl, -, -, rfl⟩
      · left
        rw [hkey] at hfind
        obtain ⟨k, hk, hkk, hs⟩ := find_joinKeys h hfind
        obtain ⟨job, hjob⟩ := jobFromRow_ok hs.loads hs.key_stripped hs.key_nonempty
        rw [hkk] at hjob
        refine ⟨k, hk, row, job, hkk, hs, hjob, ?_⟩
        dsimp only
        rw [hkey, hjob]
      · rw [hkey] at hfind
        refine Or.inr ⟨candidate, rfl, hid, find_joinKeys_none h hfind, ?_, ?_⟩
        · rw [← hkey, ← hid]
          rfl
        · show s.tasks ++ newTaskRows candidate.jobId c.task = s.tasks ++ c.taskRows
          rw [hid]
          rfl

/-- The arguments of a call that returns pass its checks. -/
theorem submit_admitted {job : Job} (hok : (c.submit s).1 = .ok job) : c.Admitted := by
  unfold Submission.submit enqueue at hok
  dsimp only at hok
  split_ifs at hok with htask
  cases hvalid : Job.validate c.jobId c.taskId .queued c.priority c.idempotencyKey
      (c.retryPolicy.getD .default) c.now c.now c.now none none with
  | error e =>
    rw [hvalid] at hok
    cases hok
  | ok candidate =>
    obtain ⟨-, -, -, -, -, hpriority, hkey⟩ := Job.validate_fields hvalid
    exact ⟨by simpa using htask, hpriority, hkey⟩

/-- A submission under a key that a job has returns that job as it stands. -/
theorem submit_repeats (h : s.Inv) (hkeys : s.KeysNodup) {k : IdempotencyRow} (hk : k ∈ s.idempotency)
    (hkey : k.idempotencyKey = c.key) : Repeats s c k.jobId := by
  rcases submit_cases h c with ⟨e, he, hfresh⟩ | ⟨k', hk', row, job, hkey', hs, hjob, hok⟩ |
    ⟨job, -, -, hfresh, -, -⟩
  · have hreturns : c.Admitted → ∃ job, (c.submit s).1 = .ok job :=
      fun hadm => absurd hkey (hfresh hadm k hk)
    refine ⟨by rw [he], ⟨fun ⟨job, hok⟩ => submit_admitted hok, hreturns⟩, fun job hok => ?_⟩
    rw [he] at hok
    cases hok
  · have heq : k' = k :=
      Table.eq_of_key IdempotencyRow.idempotencyKey hkeys hk' hk (hkey'.trans hkey.symm)
    rw [heq] at hs
    have hget : getJob s k.jobId = .ok (some job) := by
      rw [getJob_of_view hs.rows hs.keys, hkey, hjob]
      rfl
    obtain ⟨hid, hstatus⟩ := jobFromRow_fields hjob
    have hrow : s.job? k.jobId = some row := h.job?_eq_some.mpr hs.rows
    have hrowid : row.jobId = k.jobId :=
      (Db.mem_view_rows.mp (by rw [hs.rows]; exact List.mem_singleton_self row)).2
    refine ⟨by rw [hok], ⟨fun ⟨job, hok⟩ => submit_admitted hok, fun _ => ⟨job, by rw [hok]⟩⟩, ?_⟩
    intro job' hok'
    rw [hok] at hok'
    cases hok'
    refine ⟨hid.trans hrowid, hget, ?_⟩
    rw [hrow, hstatus]
    rfl
  · exact absurd hkey (hfresh k hk)

/-- The rows of a new job can be inserted if its policy binds and its payload is JSON. -/
theorem enqueueTx_fresh (h : s.Inv) {candidate : Job} {task : Option TaskContract} {now : Datetime}
    (hpolicy : bindPolicy candidate.retryPolicy = .ok ())
    (htask : ∀ t, task = some t → PyValue.serializableItems t.payload = true)
    (hkey : ∀ k ∈ s.idempotency, k.idempotencyKey ≠ candidate.idempotencyKey)
    (hfresh : ∀ r ∈ s.jobs, r.jobId ≠ candidate.jobId) :
    ∃ s', enqueueTx candidate task now s = .ok (none, s') := by
  have hfind : (joinKeys s s.jobs).find? (·.2 = candidate.idempotencyKey) = none := by
    by_contra hfound
    obtain ⟨⟨row, found⟩, hfind⟩ := Option.ne_none_iff_exists'.mp hfound
    obtain ⟨k, hk, hkk, -⟩ := find_joinKeys h hfind
    exact hkey k hk hkk
  have hjobs : s.jobs.any (·.jobId = (newJobRow candidate).jobId) = false := by
    rw [List.any_eq_false]
    exact fun r hr heq => hfresh r hr (of_decide_eq_true heq)
  have hkeys : s.idempotency.any (·.idempotencyKey = candidate.idempotencyKey) = false := by
    rw [List.any_eq_false]
    exact fun k hk heq => hkey k hk (of_decide_eq_true heq)
  have hids : s.idempotency.any (·.jobId = candidate.jobId) = false := by
    rw [List.any_eq_false]
    intro k hk
    obtain ⟨r, hr, hid⟩ := List.mem_map.mp ((h.keys_of_jobs k.jobId).mp (List.mem_map_of_mem hk))
    simpa [← hid] using hfresh r hr
  have htasks : s.tasks.any (·.jobId = candidate.jobId) = false := by
    rw [List.any_eq_false]
    exact List.find?_eq_none.mp (h.getTask_none hfresh)
  unfold enqueueTx Db.insertJob Db.insertKey persistTask
  simp only [hfind, hpolicy, hjobs, hkeys, hids, bind, Except.bind, Bool.false_eq_true, if_false]
  cases task with
  | none => exact ⟨_, rfl⟩
  | some t =>
    unfold TaskContract.modelDumpJson Db.insertTask
    simp only [if_pos (htask t rfl), htasks, Bool.false_eq_true, if_false]
    exact ⟨_, rfl⟩

/-- The payload of a job that was inserted is JSON. -/
theorem enqueueTx_payload {s' : Db} {candidate : Job} {task : TaskContract} {now : Datetime}
    (hok : enqueueTx candidate (some task) now s = .ok (none, s')) :
    PyValue.serializableItems task.payload = true := by
  unfold enqueueTx at hok
  split at hok
  · cases hok
  · obtain ⟨_, -, hok⟩ := (except_bind_ok_iff _ _ _).mp hok
    obtain ⟨s1, -, hok⟩ := (except_bind_ok_iff _ _ _).mp hok
    obtain ⟨s2, -, hok⟩ := (except_bind_ok_iff _ _ _).mp hok
    obtain ⟨s3, h3, -⟩ := (except_bind_ok_iff _ _ _).mp hok
    obtain ⟨dumped, hdump, -⟩ := (except_bind_ok_iff _ _ _).mp h3
    unfold TaskContract.modelDumpJson at hdump
    split_ifs at hdump with hpayload
    exact hpayload

/-- Under a key that no job has, a submission that returns made a new job. -/
theorem submit_new (hkey : ∀ k ∈ s.idempotency, k.idempotencyKey ≠ c.key) (h : s.Inv) {job : Job}
    (hok : (c.submit s).1 = .ok job) : ∃ s', enqueueTx job c.task c.now s = .ok (none, s') ∧ (c.submit s).2 = s' ∧
      c.Asks job ∧ job.retryPolicy = c.retryPolicy.getD .default := by
  unfold Submission.submit enqueue at hok ⊢
  dsimp only at hok ⊢
  split_ifs at hok ⊢ with htask
  cases hvalid : Job.validate c.jobId c.taskId .queued c.priority c.idempotencyKey
      (c.retryPolicy.getD .default) c.now c.now c.now none none with
  | error e =>
    rw [hvalid] at hok
    cases hok
  | ok candidate =>
    obtain ⟨hid, htaskId, hstatus, hkeyEq, hpolicy, -⟩ := Job.validate_fields hvalid
    rw [hvalid] at hok
    unfold transaction at hok ⊢
    dsimp only at hok ⊢
    cases hbody : enqueueTx candidate c.task c.now s with
    | error e =>
      rw [hbody] at hok
      cases hok
    | ok r =>
      obtain ⟨res, s'⟩ := r
      rw [hbody] at hok
      rcases enqueueTx_cases hbody with ⟨row, text, hfind, -, -⟩ | ⟨-, rfl, -, -, -⟩
      · obtain ⟨k, hk, hkk, -⟩ := find_joinKeys h hfind
        exact absurd (hkk.trans hkeyEq) (hkey k hk)
      · cases hok
        exact ⟨s', hbody, rfl, ⟨hid, htaskId, hkeyEq, hstatus⟩, hpolicy⟩

/-- A submission whose rows can be inserted returns. -/
theorem submit_storable (h : s.Inv) (hkey : ∀ k ∈ s.idempotency, k.idempotencyKey ≠ c.key) (hs : c.Storable s) :
    ∃ job, (c.submit s).1 = .ok job := by
  obtain ⟨candidate, hvalid⟩ := Job.validate_queued c.jobId c.taskId (c.retryPolicy.getD .default) c.now
    hs.admitted.2.1 hs.admitted.2.2
  obtain ⟨hid, -, -, hkeyEq, hpolicy, -⟩ := Job.validate_fields hvalid
  obtain ⟨s', hbody⟩ : ∃ s', enqueueTx candidate c.task c.now s = .ok (none, s') := by
    refine enqueueTx_fresh h ?_ hs.payload ?_ ?_
    · rw [hpolicy]
      exact hs.policy
    · rw [hkeyEq]
      exact hkey
    · rw [hid]
      exact Db.job?_eq_none_iff.mp hs.fresh
  refine ⟨candidate, ?_⟩
  unfold Submission.submit enqueue transaction
  simp only [hs.admitted.1, hvalid, hbody, Bool.false_eq_true, if_false]

/-- A job is read from its row and its key. -/
theorem getJob_of_rows (h : s.Inv) {row : JobRow} (hrow : row ∈ s.jobs) {k : IdempotencyRow} (hk : k ∈ s.idempotency)
    (hid : row.jobId = k.jobId) :
    ∃ job, getJob s k.jobId = .ok (some job) ∧ jobFromRow row k.idempotencyKey = .ok job := by
  obtain ⟨row', hs⟩ := h.view_of_key hk
  have hrows : (s.view k.jobId).rows = [row] := by
    rw [← hid]
    exact h.view_of_mem hrow
  rw [hs.row_eq hrows]
  obtain ⟨job, hjob⟩ := jobFromRow_ok hs.loads hs.key_stripped hs.key_nonempty
  refine ⟨job, ?_, hjob⟩
  rw [getJob_of_view hs.rows hs.keys, hjob]
  rfl

/-- A submission under a key that no job has makes a new job, or raises. -/
theorem submit_begins (h : s.Inv) (hkey : ∀ k ∈ s.idempotency, k.idempotencyKey ≠ c.key) : Begins s c := by
  refine ⟨⟨?_, submit_storable h hkey⟩, ?_, ?_⟩
  · rintro ⟨job, hok⟩
    obtain ⟨s', hbody, -, ⟨hid, -⟩, hpolicy⟩ := submit_new hkey h hok
    rcases enqueueTx_cases hbody with ⟨row, text, -, hres, -⟩ | ⟨-, -, hbind, hnew, -⟩
    · cases hres
    · rw [hpolicy] at hbind
      rw [hid] at hnew
      refine ⟨submit_admitted hok, hbind, fun task htask => ?_, Db.job?_eq_none_iff.mpr hnew⟩
      rw [htask] at hbody
      exact enqueueTx_payload hbody
  · intro job hok
    obtain ⟨s', -, -, hasks, -⟩ := submit_new hkey h hok
    exact hasks
  · intro job hok
    have hinv : (c.submit s).2.Inv := step_inv c.call s h
    obtain ⟨s', hbody, hdb, ⟨hid, htaskId, hkeyEq, hstatus⟩, -⟩ := submit_new hkey h hok
    rw [hdb] at hinv ⊢
    rcases enqueueTx_cases hbody with ⟨row, text, -, hres, -⟩ | ⟨-, -, -, hnew, rfl⟩
    · cases hres
    · have hrow : newJobRow job ∈ s.jobs ++ [newJobRow job] := List.mem_append_right _ (List.mem_singleton_self _)
      have hk : ⟨c.key, c.jobId, c.now⟩ ∈ s.idempotency ++ [⟨job.idempotencyKey, job.jobId, c.now⟩] := by
        rw [hid, hkeyEq]
        exact List.mem_append_right _ (List.mem_singleton_self _)
      refine ⟨hk, ?_, ?_⟩
      · obtain ⟨read, hget, hread⟩ := getJob_of_rows hinv hrow hk hid
        obtain ⟨policy, -, hfields⟩ := (except_bind_ok_iff _ _ _).mp hread
        obtain ⟨hreadId, hreadTask, hreadStatus, hreadKey, -⟩ := Job.validate_fields hfields
        refine ⟨read, hget, hreadId.trans hid, hreadTask.trans htaskId, ?_, hreadStatus.trans hstatus⟩
        rw [hreadKey]
        exact strip_strip _
      · have hnone := h.getTask_none hnew
        rw [hid] at hnone
        show ((s.tasks ++ newTaskRows job.jobId c.task).find? (·.jobId = c.jobId)).map (·.task) = c.task
        rw [List.find?_append, hnone, Option.none_or, hid]
        cases c.task with
        | none => rfl
        | some task => simp [newTaskRows]

/-- What every call does to the two tables that submissions write: nothing, unless it is an `enqueue`
call that inserts a job under a key that no job had. -/
theorem step_submitted (h : s.Inv) (call : JobCall) :
    ((step call s).idempotency = s.idempotency ∧ (step call s).tasks = s.tasks) ∨
    ∃ c, call.submission? = some c ∧ (∀ k ∈ s.idempotency, k.idempotencyKey ≠ c.key) ∧
      (step call s).idempotency = s.idempotency ++ [⟨c.key, c.jobId, c.now⟩] ∧
      (step call s).tasks = s.tasks ++ c.taskRows := by
  by_cases hcall : call.keepsRecords = true
  · have hrecords := step_records h hcall
    exact Or.inl ⟨congrArg (fun r => r.1) hrecords, congrArg (fun r => r.2.1) hrecords⟩
  cases call with
  | enqueue jobId taskId task key priority policy now =>
    let c : Submission := ⟨jobId, taskId, task, key, priority, policy, now⟩
    have hstep : step c.call s = (c.submit s).2 := rfl
    rcases submit_cases h c with ⟨e, he, -⟩ | ⟨k, -, row, job, -, -, -, hok⟩ |
      ⟨job, -, -, hfresh, hkeys, htasks⟩
    · left
      show (step c.call s).idempotency = _ ∧ (step c.call s).tasks = _
      rw [hstep, he]
      exact ⟨rfl, rfl⟩
    · left
      show (step c.call s).idempotency = _ ∧ (step c.call s).tasks = _
      rw [hstep, hok]
      exact ⟨rfl, rfl⟩
    · exact Or.inr ⟨c, rfl, hfresh, hkeys, htasks⟩
  | complete j token ref result now =>
    left
    have hframe : ∀ u s', finishTx j token .completed .completed (some ref) none result now s =
        .ok (u, s') → (s'.idempotency, s'.tasks) = (s.idempotency, s.tasks) := by
      intro u s' hb
      rcases completeTx_cases h hb with ⟨rfl, -⟩ |
        ⟨row, pre, a, outs, box, -, -, -, -, -, -, -, -, -, rfl⟩
      · rfl
      · rfl
    have htx : ((step (.complete j token ref result now) s).idempotency,
        (step (.complete j token ref result now) s).tasks) = (s.idempotency, s.tasks) :=
      transaction_frame (fun s => (s.idempotency, s.tasks)) hframe
    exact ⟨congrArg (fun r => r.1) htx, congrArg (fun r => r.2) htx⟩
  | _ => exact absurd rfl hcall

end Submit

/-- No call replaces the task of a job. -/
theorem step_getTask {db : Db} (h : db.Inv) (call : JobCall) {jobId : Uuid} {task : TaskContract}
    (htask : SqliteJobRepository.getTask db jobId = some task) :
    SqliteJobRepository.getTask (SqliteJobRepository.step call db) jobId = some task := by
  unfold SqliteJobRepository.getTask at htask ⊢
  rcases step_submitted h call with ⟨-, htasks⟩ | ⟨c, -, -, -, htasks⟩
  · rw [htasks]
    exact htask
  · obtain ⟨row, hrow, rfl⟩ := Option.map_eq_some_iff.mp htask
    rw [htasks, List.find?_append, hrow]
    rfl

/-! ## Runs -/

theorem step_keysNodup (call : JobCall) (s : Db) (hs : s.Inv ∧ s.KeysNodup) :
    (step call s).Inv ∧ (step call s).KeysNodup := by
  obtain ⟨h, hkeys⟩ := hs
  refine ⟨step_inv call s h, ?_⟩
  unfold Db.KeysNodup
  rcases step_submitted h call with ⟨heq, -⟩ | ⟨c, -, hfresh, heq, -⟩
  · rw [heq]
    exact hkeys
  · rw [heq, List.map_append, List.nodup_append]
    refine ⟨hkeys, List.nodup_singleton _, ?_⟩
    intro key hkey key' hkey' heq
    obtain ⟨k, hk, rfl⟩ := List.mem_map.mp hkey
    have hkey' : key' = c.key := by simpa using hkey'
    exact hfresh k hk (heq.trans hkey')

theorem run_keysNodup (calls : List JobCall) : (run calls).Inv ∧ (run calls).KeysNodup := by
  have hempty : Db.empty.Inv ∧ Db.empty.KeysNodup := ⟨Db.empty_inv, List.nodup_nil⟩
  exact Machine.run_invariant step_keysNodup calls _ hempty

/-- No call removes a key. -/
theorem step_key_mem {s : Db} (h : s.Inv) (call : JobCall) {k : IdempotencyRow}
    (hk : k ∈ s.idempotency) : k ∈ (step call s).idempotency := by
  rcases step_submitted h call with ⟨heq, -⟩ | ⟨c, -, -, heq, -⟩
  · rw [heq]
    exact hk
  · rw [heq]
    exact List.mem_append_left _ hk

theorem run_key_mem (calls : List JobCall) :
    ∀ {s : Db}, s.Inv → ∀ {k : IdempotencyRow}, k ∈ s.idempotency →
      k ∈ (Machine.run step calls s).idempotency := by
  induction calls with
  | nil => exact fun _ _ hk => hk
  | cons call calls ih => exact fun h _ hk => ih (step_inv call _ h) (step_key_mem h call hk)

/-- The key that a returning call submits is in the table afterwards, with the job it returned. -/
theorem submitted?_mem {s : Db} (h : s.Inv) {call : JobCall} {p : String × Uuid}
    (hp : submitted? call s = some p) :
    ∃ k ∈ (step call s).idempotency, k.idempotencyKey = p.1 ∧ k.jobId = p.2 := by
  cases call with
  | enqueue jobId taskId task key priority policy now =>
    let c : Submission := ⟨jobId, taskId, task, key, priority, policy, now⟩
    have hstep : step c.call s = (c.submit s).2 := rfl
    have hp : c.outcome s = some p := hp
    unfold Submission.outcome at hp
    show ∃ k ∈ (step c.call s).idempotency, k.idempotencyKey = p.1 ∧ k.jobId = p.2
    rw [hstep]
    rcases submit_cases h c with ⟨e, he, -⟩ | ⟨k, hk, row, job, hkey, hs, hjob, hok⟩ |
      ⟨job, hok, hid, -, hkeys, -⟩
    · rw [he] at hp
      cases hp
    · rw [hok] at hp ⊢
      cases hp
      have hrowid : row.jobId = k.jobId :=
        (Db.mem_view_rows.mp (by rw [hs.rows]; exact List.mem_singleton_self row)).2
      exact ⟨k, hk, hkey, hrowid.symm.trans (jobFromRow_fields hjob).1.symm⟩
    · rw [hok] at hp
      cases hp
      rw [hkeys]
      exact ⟨⟨c.key, c.jobId, c.now⟩, List.mem_append_right _ (List.mem_singleton_self _), rfl, hid.symm⟩
  | _ => cases hp

/-- Every submission of a run that returned is in the table at its end. -/
theorem submissions_mem (calls : List JobCall) :
    ∀ {s : Db}, s.Inv → ∀ p ∈ submissions calls s,
      ∃ k ∈ (Machine.run step calls s).idempotency, k.idempotencyKey = p.1 ∧ k.jobId = p.2 := by
  induction calls with
  | nil =>
    intro s _ p hp
    cases hp
  | cons call calls ih =>
    intro s h p hp
    have hstep := step_inv call s h
    rcases List.mem_append.mp hp with hp | hp
    · obtain ⟨k, hk, hkey, hid⟩ := submitted?_mem h (Option.mem_toList.mp hp)
      exact ⟨k, run_key_mem calls hstep hk, hkey, hid⟩
    · exact ih hstep p hp

/-- A key that a call brings is the one that it submits. -/
theorem step_key_new {s : Db} (h : s.Inv) (call : JobCall) {k : IdempotencyRow}
    (hk : k ∈ (step call s).idempotency) : k ∈ s.idempotency ∨ submitted? call s = some (k.idempotencyKey, k.jobId) := by
  rcases step_submitted h call with ⟨hsame, -⟩ | ⟨c, hc, -, hnew, -⟩
  · rw [hsame] at hk
    exact Or.inl hk
  · have hstep : step call s = (c.submit s).2 := by
      cases call with
      | enqueue jobId taskId task key priority policy now =>
        cases hc
        rfl
      | _ => cases hc
    have hgrown : (c.submit s).2 ≠ s := by
      intro hsame
      rw [hstep, hsame] at hnew
      exact absurd hnew.symm (by simp)
    rw [hnew] at hk
    rcases List.mem_append.mp hk with hk | hk
    · exact Or.inl hk
    · right
      rw [List.mem_singleton.mp hk]
      unfold submitted?
      rw [hc, Option.bind_some]
      unfold Submission.outcome
      rcases submit_cases h c with ⟨e, he, -⟩ | ⟨k', -, row, job, -, -, -, hok⟩ | ⟨job, hok, hid, -⟩
      · rw [he] at hgrown
        exact absurd rfl hgrown
      · rw [hok] at hgrown
        exact absurd rfl hgrown
      · rw [hok]
        simp only [hid]

/-- The keys of the table are those that the calls of the run submitted. -/
theorem mem_submissions (calls : List JobCall) : ∀ {s : Db}, s.Inv →
    ∀ k ∈ (Machine.run step calls s).idempotency,
      k ∈ s.idempotency ∨ (k.idempotencyKey, k.jobId) ∈ submissions calls s := by
  induction calls with
  | nil => exact fun _ k hk => Or.inl hk
  | cons call calls ih =>
    intro s h k hk
    rcases ih (step_inv call s h) k hk with hk | hk
    · rcases step_key_new h call hk with hk | hk
      · exact Or.inl hk
      · exact Or.inr (List.mem_append_left _ (Option.mem_toList.mpr hk))
    · exact Or.inr (List.mem_append_right _ hk)

/-- Idempotent submission. In every reachable database keys and jobs correspond one to one; two calls
of the run that returned were given one job exactly when their stripped keys are equal; a submission
under a key of the run changes nothing and returns that job as it stands; a submission under another key
makes a new job, if its rows can be inserted; and a submission that raises changes nothing. -/
theorem run_idempotent (calls : List JobCall) :
    (run calls).KeysMatchJobs ∧
    (∀ p ∈ submissions calls Db.empty, ∀ q ∈ submissions calls Db.empty, p.1 = q.1 ↔ p.2 = q.2) ∧
    (∀ c : Submission, ∀ p ∈ submissions calls Db.empty, c.key = p.1 → Repeats (run calls) c p.2) ∧
    (∀ c : Submission, (∀ p ∈ submissions calls Db.empty, p.1 ≠ c.key) → Begins (run calls) c) ∧
    ∀ (c : Submission) (e : PyError), (c.submit (run calls)).1 = .error e →
      (c.submit (run calls)).2 = run calls := by
  obtain ⟨h, hkeys⟩ := run_keysNodup calls
  have hmem := submissions_mem calls Db.empty_inv
  refine ⟨h.keysMatchJobs hkeys, fun p hp q hq => ?_, fun c p hp hkey => ?_, fun c hnew => ?_, fun c e herr => ?_⟩
  · obtain ⟨k, hk, hkp, hidp⟩ := hmem p hp
    obtain ⟨l, hl, hlq, hidq⟩ := hmem q hq
    rw [← hkp, ← hlq, ← hidp, ← hidq]
    constructor
    · intro heq
      rw [Table.eq_of_key IdempotencyRow.idempotencyKey hkeys hk hl heq]
    · intro heq
      rw [Table.eq_of_key IdempotencyRow.jobId h.ids_nodup hk hl heq]
  · obtain ⟨k, hk, hkp, hidp⟩ := hmem p hp
    rw [← hidp]
    exact submit_repeats h hkeys hk (hkp.trans hkey.symm)
  · refine submit_begins h fun k hk => ?_
    rcases mem_submissions calls Db.empty_inv k hk with hempty | hsubmitted
    · cases hempty
    · exact hnew _ hsubmitted
  · rcases submit_cases h c with ⟨e', he, -⟩ | ⟨k, -, row, job, -, -, -, hok⟩ | ⟨job, hok, -⟩
    · rw [he]
    · rw [hok]
    · rw [hok] at herr
      cases herr

def logTask : TaskContract where
  taskId := 1
  origin := "andromeda"
  skill := "log"
  payload := [("path", .str "a.log"), ("lines", .list [.int 1, .int 2])]
  confidenceThreshold := .finite 0

def logSubmission (jobId : Uuid) (key : String) : Submission where
  jobId
  taskId := 1
  task := some logTask
  idempotencyKey := key
  priority := 0
  retryPolicy := none
  now := .ofMicros 1000

/-- Two submissions under one key, with a claim between, and one under another key without a task. -/
def logCalls : List JobCall :=
  [(logSubmission 10 " k ").call, .claim 20 21 "vega" (.finite 60) (.ofMicros 2000), (logSubmission 11 "k").call,
    .enqueue 12 2 none "other" 5 none (.ofMicros 3000)]

/-- The third submission under the key returns the running job, and one under a new key stores a job. -/
theorem run_idempotent_logCalls : submissions logCalls Db.empty = [("k", 10), ("k", 10), ("other", 12)] ∧
    (∃ job, ((logSubmission 13 "k\n").submit (run logCalls)).1 = .ok job ∧ job.jobId = 10 ∧ job.status = .running) ∧
    (∃ job, ((logSubmission 13 " new ").submit (run logCalls)).1 = .ok job) ∧
      ⟨"new", 13, .ofMicros 1000⟩ ∈ ((logSubmission 13 " new ").submit (run logCalls)).2.idempotency ∧
      getTask ((logSubmission 13 " new ").submit (run logCalls)).2 13 = some logTask := by
  have hsubmissions : submissions logCalls Db.empty = [("k", 10), ("k", 10), ("other", 12)] := by decide +kernel
  obtain ⟨-, -, hrepeats, hbegins, -⟩ := run_idempotent logCalls
  rw [hsubmissions] at hrepeats hbegins
  refine ⟨hsubmissions, ?_, ?_⟩
  · have hagain := hrepeats (logSubmission 13 "k\n") ("k", 10) List.mem_cons_self (by decide +kernel)
    obtain ⟨job, hok⟩ := hagain.returns_iff.mpr (by decide +kernel)
    obtain ⟨hid, -, hstatus⟩ := hagain.same_job job hok
    have hrunning : ((run logCalls).job? 10).map (·.status) = some .running := by decide +kernel
    rw [hrunning] at hstatus
    exact ⟨job, hok, hid, (Option.some.inj hstatus).symm⟩
  · have hnew := hbegins (logSubmission 13 " new ") (by decide +kernel)
    have hstorable : (logSubmission 13 " new ").Storable (run logCalls) := by
      refine ⟨by decide +kernel, by decide +kernel, fun task htask => ?_, by decide +kernel⟩
      cases htask
      decide +kernel
    obtain ⟨job, hok⟩ := hnew.returns_iff.mpr hstorable
    obtain ⟨hkey, -, htask⟩ := hnew.stored job hok
    exact ⟨⟨job, hok⟩, hkey, htask⟩

end Galaxz
