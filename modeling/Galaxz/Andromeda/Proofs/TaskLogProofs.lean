import Galaxz.Andromeda.TaskLog

/-!
# What the task log shows of a task

A row keeps its place when it is updated, so the row that `get` takes for the latest is the one of the status that
was new last. It is the one written last if no other status was new after it.
-/

namespace Galaxz.TaskLog

/-! ## The table of a run -/

/-- The rows that the calls write, in order. -/
def written (actions : List TaskLogAction) : List TaskLogRow := actions.filterMap fun a => (rowOf a).toOption

/-- The row that is written last for a task. -/
def lastWrite (taskId : String) (actions : List TaskLogAction) : Option TaskLogRow := get taskId (written actions)

theorem call_rows (action : TaskLogAction) (rows : List TaskLogRow) :
    (call action rows).2 = (rowOf action).toOption.elim rows fun row => upsert row rows := by
  unfold call
  cases rowOf action with
  | error e => rfl
  | ok row => rfl

theorem run_eq (actions : List TaskLogAction) :
    run actions = (written actions).foldl (fun rows row => upsert row rows) [] := by
  unfold run written
  induction actions using List.reverseRecOn with
  | nil => rfl
  | append_singleton actions a ih =>
    rw [Machine.run_concat, ih, call_rows, List.filterMap_append, List.foldl_append]
    cases ha : (rowOf a).toOption with
    | none =>
      have hnone : [a].filterMap (fun a => (rowOf a).toOption) = [] := by simp [ha]
      rw [hnone]
      rfl
    | some row =>
      have hsome : [a].filterMap (fun a => (rowOf a).toOption) = [row] := by simp [ha]
      rw [hsome]
      rfl

/-- Each row of the table is the last one that was written with its key. -/
theorem get_key_run (actions : List TaskLogAction) (k : String × String) :
    Keyed.get TaskLogRow.key k (run actions) = (written actions).reverse.find? (·.key = k) := by
  have hget : Keyed.get TaskLogRow.key k ((written actions).foldl (fun rows row => upsert row rows) []) =
      ((written actions).reverse.find? (·.key = k)).or none := Keyed.get_foldl_put k (written actions) []
  rw [run_eq, hget, Option.or_none]

theorem mem_keys_run (actions : List TaskLogAction) (k : String × String) :
    k ∈ (run actions).map TaskLogRow.key ↔ k ∈ (written actions).map TaskLogRow.key := by
  rw [run_eq]
  exact Keyed.mem_keys_foldl_put k (written actions)

/-- How many rows were written before the first one with the key. -/
def firstWrite (k : String × String) (actions : List TaskLogAction) : ℕ := (written actions).findIdx (·.key = k)

/-- The rows stand in the order in which their keys were new. -/
theorem pairwise_run (actions : List TaskLogAction) : (run actions).Pairwise
    fun row other => firstWrite row.key actions < firstWrite other.key actions := by
  have hpairs : (((written actions).foldl (fun rows row => upsert row rows) []).map TaskLogRow.key).Pairwise
      fun k l => firstWrite k actions < firstWrite l actions := Keyed.pairwise_foldl_put (written actions)
  rw [List.pairwise_map] at hpairs
  rw [run_eq]
  exact hpairs

/-! ## The latest row -/

theorem get_eq_some {taskId : String} {row : TaskLogRow} {rows : List TaskLogRow} (h : get taskId rows = some row) :
    row ∈ rows ∧ row.taskId = taskId :=
  ⟨List.mem_reverse.mp (List.mem_of_find?_eq_some h), by simpa using List.find?_some h⟩

theorem get_eq_none_iff {taskId : String} {rows : List TaskLogRow} :
    get taskId rows = none ↔ ∀ row ∈ rows, row.taskId ≠ taskId := by
  unfold get
  rw [List.find?_eq_none]
  simp

/-- `get` finds the row behind all other rows of the task. -/
theorem get_pairwise {R : TaskLogRow → TaskLogRow → Prop} {taskId : String} {row : TaskLogRow} {rows : List TaskLogRow}
    (hrows : rows.Pairwise R) (h : get taskId rows = some row) {other : TaskLogRow} (hother : other ∈ rows)
    (htask : other.taskId = taskId) : other = row ∨ R other row := by
  induction rows with
  | nil => cases hother
  | cons first rows ih =>
    obtain ⟨hfirst, hrest⟩ := List.pairwise_cons.mp hrows
    have hsplit : get taskId (first :: rows) = (get taskId rows).or (if first.taskId = taskId then some first else none) := by
      unfold get
      rw [List.reverse_cons, List.find?_append, List.find?_singleton]
      by_cases hmatch : first.taskId = taskId
      · simp [hmatch]
      · simp [hmatch]
    rw [hsplit] at h
    cases hlater : get taskId rows with
    | none =>
      rw [hlater, Option.none_or] at h
      split_ifs at h with hmatch
      rcases List.mem_cons.mp hother with rfl | hmem
      · exact Or.inl (Option.some.inj h)
      · exact absurd htask (get_eq_none_iff.mp hlater other hmem)
    | some later =>
      rw [hlater, Option.some_or] at h
      obtain rfl := Option.some.inj h
      rcases List.mem_cons.mp hother with rfl | hmem
      · exact Or.inr (hfirst later (get_eq_some hlater).1)
      · exact ih hrest hlater hmem

/-- No status of the task was written for the first time after the first write of the status written last. -/
def LastStatusNewest (taskId : String) (actions : List TaskLogAction) : Prop :=
  ∀ last ∈ lastWrite taskId actions, ∀ row ∈ written actions, row.taskId = taskId →
    firstWrite row.key actions ≤ firstWrite last.key actions

/-- The row that is written last for a task is in the table. -/
theorem lastWrite_mem_run {taskId : String} {actions : List TaskLogAction} {last : TaskLogRow}
    (h : lastWrite taskId actions = some last) : last ∈ run actions := by
  have hlast : (written actions).reverse.find? (·.key = last.key) = some last := by
    unfold lastWrite get at h
    obtain ⟨hmatch, before, after, hsplit, hbefore⟩ := List.find?_eq_some_iff_append.mp h
    refine List.find?_eq_some_iff_append.mpr ⟨by simp, before, after, hsplit, fun row hrow => ?_⟩
    have hne : row.taskId ≠ taskId := by simpa using hbefore row hrow
    have htask : last.taskId = taskId := by simpa using hmatch
    have hkey : row.key ≠ last.key := fun hkey => hne ((Prod.mk.inj hkey).1.trans htask)
    simpa using hkey
  rw [← get_key_run] at hlast
  exact (Keyed.get_eq_some hlast).1

/-- After any calls, `get` returns the values that were written last for the task exactly if no other status of the
task was new after the first write of its last status. -/
theorem get_latest_iff (taskId : String) (actions : List TaskLogAction) :
    get taskId (run actions) = lastWrite taskId actions ↔ LastStatusNewest taskId actions := by
  unfold LastStatusNewest
  cases hlast : lastWrite taskId actions with
  | none =>
    have hnone := get_eq_none_iff.mp hlast
    refine iff_of_true (get_eq_none_iff.mpr fun row hrow htask => ?_) fun last h => by cases h
    have hkey := (mem_keys_run actions row.key).mp (List.mem_map_of_mem hrow)
    obtain ⟨other, hother, heq⟩ := List.mem_map.mp hkey
    exact hnone other hother ((Prod.mk.inj heq).1.trans htask)
  | some last =>
    have hmem := lastWrite_mem_run hlast
    have htask := (get_eq_some hlast).2
    have hsome : ∃ row, get taskId (run actions) = some row := by
      cases hget : get taskId (run actions) with
      | none => exact absurd htask (get_eq_none_iff.mp hget last hmem)
      | some row => exact ⟨row, rfl⟩
    obtain ⟨row, hrow⟩ := hsome
    have hpairs := pairwise_run actions
    rw [hrow, Option.some.injEq]
    simp only [Option.mem_some_iff, forall_eq']
    constructor
    · rintro rfl other hother hsame
      -- the row of the other status stands before the one that is found
      have hkey := (mem_keys_run actions other.key).mpr (List.mem_map_of_mem hother)
      obtain ⟨stored, hstored, heq⟩ := List.mem_map.mp hkey
      have hstoredTask : stored.taskId = taskId := (Prod.mk.inj heq).1.trans hsame
      rcases get_pairwise hpairs hrow hstored hstoredTask with rfl | hlt
      · rw [heq]
      · rw [← heq]
        exact hlt.le
    · intro hnewest
      rcases get_pairwise hpairs hrow hmem htask with heq | hlt
      · exact heq.symm
      · obtain ⟨hrowMem, hrowTask⟩ := get_eq_some hrow
        have hkey := (mem_keys_run actions row.key).mp (List.mem_map_of_mem hrowMem)
        obtain ⟨other, hother, heq⟩ := List.mem_map.mp hkey
        have hle := hnewest other hother ((Prod.mk.inj heq).1.trans hrowTask)
        rw [heq] at hle
        omega

/-- A task that fails and runs again, as a retried attempt does. -/
def retriedTask (status : String) (retryCount : ℕ) : TaskLogAction :=
  .write { taskId := "t", taskType := "bug", status, retryCount, issuedAt := "2026-01-01T00:00:00+00:00" }

/-- The log still shows the failure of the first attempt while the second one runs. -/
theorem retried_task_shows_failure : get "t" (run [retriedTask "running" 0, retriedTask "failed" 0, retriedTask "running" 1]) ≠
    lastWrite "t" [retriedTask "running" 0, retriedTask "failed" 0, retriedTask "running" 1] := by
  decide +kernel

end Galaxz.TaskLog
