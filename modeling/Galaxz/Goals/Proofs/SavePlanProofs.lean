import Galaxz.Goals.Connection

/-!
# Proofs: saving a plan

A plan is saved row by row. When no insert fails, all rows are there and are committed; when the first one fails,
nothing was written. In every other case the rows before the failing one stay in the open transaction.
-/

namespace Galaxz

/-! ## Inserts in a row -/

/-- The insert puts a row at the end of a table, if the value is valid and the key is new there. -/
structure Inserts {β ρ : Type} (insert : β → ℕ → GoalDb → Except PyError GoalDb) (valid : β → Prop) (key : β → Uuid)
    (row : β → ℕ → ρ) (rows : GoalDb → List ρ) (rowKey : ρ → Uuid) : Prop where
  ok_iff (x : β) (i : ℕ) (s : GoalDb) :
    (∃ s', insert x i s = .ok s') ↔ valid x ∧ ∀ r ∈ rows s, rowKey r ≠ key x
  rows_eq {x : β} {i : ℕ} {s s' : GoalDb} (h : insert x i s = .ok s') : rows s' = rows s ++ [row x i]
  rowKey_row (x : β) (i : ℕ) : rowKey (row x i) = key x

section Inserts

variable {β ρ : Type} {insert : β → ℕ → GoalDb → Except PyError GoalDb} {valid : β → Prop} {key : β → Uuid}
  {row : β → ℕ → ρ} {rows : GoalDb → List ρ} {rowKey : ρ → Uuid}

/-- What every insert keeps, all of them keep. -/
theorem insertEach_rel {R : GoalDb → GoalDb → Prop} (hrefl : ∀ s, R s s) (htrans : ∀ {s t u}, R s t → R t u → R s u)
    (hinsert : ∀ {x i s s'}, insert x i s = .ok s' → R s s') (i : ℕ) (xs : List β) (s : GoalDb) :
    R s (GoalStore.insertEach insert i xs s).2 := by
  induction xs generalizing i s with
  | nil => exact hrefl s
  | cons x xs ih =>
    rw [GoalStore.insertEach]
    cases hx : insert x i s with
    | error e => exact hrefl s
    | ok s' => exact htrans (hinsert hx) (ih (i + 1) s')

/-- All inserts succeed when the values are valid, and their keys new and different from each other. -/
theorem Inserts.ok_all_iff (h : Inserts insert valid key row rows rowKey) (i : ℕ) (xs : List β) (s : GoalDb) :
    (GoalStore.insertEach insert i xs s).1 = .ok () ↔
      (∀ x ∈ xs, valid x) ∧ (xs.map key).Nodup ∧ ∀ x ∈ xs, ∀ r ∈ rows s, rowKey r ≠ key x := by
  induction xs generalizing i s with
  | nil => simp [GoalStore.insertEach]
  | cons x xs ih =>
    rw [GoalStore.insertEach]
    cases hx : insert x i s with
    | error e =>
      refine ⟨fun hok => (by cases hok), fun ⟨hvalid, _, hnew⟩ => ?_⟩
      obtain ⟨s', hs'⟩ := (h.ok_iff x i s).mpr ⟨hvalid x List.mem_cons_self, hnew x List.mem_cons_self⟩
      rw [hx] at hs'
      cases hs'
    | ok s' =>
      obtain ⟨hxvalid, hxnew⟩ := (h.ok_iff x i s).mp ⟨s', hx⟩
      have hrows := h.rows_eq hx
      refine (ih (i + 1) s').trans ?_
      rw [hrows, List.map_cons, List.nodup_cons]
      constructor
      · rintro ⟨hvalid, hnodup, hnew⟩
        refine ⟨fun y hy => ?_, ⟨fun hmem => ?_, hnodup⟩, fun y hy r hr => ?_⟩
        · rcases List.mem_cons.mp hy with rfl | hy
          · exact hxvalid
          · exact hvalid y hy
        · obtain ⟨y, hy, hkey⟩ := List.mem_map.mp hmem
          have hne := hnew y hy (row x i) (List.mem_append_right _ (List.mem_singleton_self _))
          rw [h.rowKey_row] at hne
          exact hne hkey.symm
        · rcases List.mem_cons.mp hy with rfl | hy
          · exact hxnew r hr
          · exact hnew y hy r (List.mem_append_left _ hr)
      · rintro ⟨hvalid, ⟨hnotin, hnodup⟩, hnew⟩
        refine ⟨fun y hy => hvalid y (List.mem_cons_of_mem _ hy), hnodup, fun y hy r hr => ?_⟩
        rcases List.mem_append.mp hr with hr | hr
        · exact hnew y (List.mem_cons_of_mem _ hy) r hr
        · rw [List.mem_singleton.mp hr, h.rowKey_row]
          exact fun hkey => hnotin (List.mem_map.mpr ⟨y, hy, hkey.symm⟩)

/-- The rows after inserts that all succeed. -/
theorem Inserts.rows_all (h : Inserts insert valid key row rows rowKey) {i : ℕ} {xs : List β} {s : GoalDb}
    (hok : (GoalStore.insertEach insert i xs s).1 = .ok ()) :
    rows (GoalStore.insertEach insert i xs s).2 = rows s ++ (xs.zipIdx i).map fun x => row x.1 x.2 := by
  induction xs generalizing i s with
  | nil => simp [GoalStore.insertEach]
  | cons x xs ih =>
    rw [GoalStore.insertEach] at hok ⊢
    cases hx : insert x i s with
    | error e =>
      rw [hx] at hok
      cases hok
    | ok s' =>
      rw [hx] at hok
      refine (ih hok).trans ?_
      rw [h.rows_eq hx, List.zipIdx_cons, List.map_cons, List.append_assoc, List.singleton_append]

/-- Rows are only added. -/
theorem Inserts.rows_mono (h : Inserts insert valid key row rows rowKey) (i : ℕ) (xs : List β) (s : GoalDb) {r : ρ}
    (hr : r ∈ rows s) : r ∈ rows (GoalStore.insertEach insert i xs s).2 :=
  insertEach_rel (R := fun s s' => ∀ r ∈ rows s, r ∈ rows s') (fun _ _ hr => hr) (fun hst htu r hr => htu r (hst r hr))
    (fun hx r hr => by rw [h.rows_eq hx]; exact List.mem_append_left _ hr) i xs s r hr

/-- Inserts of which one fails: either the first one, and nothing is written, or a new row is left behind. -/
theorem Inserts.error_cases (h : Inserts insert valid key row rows rowKey) {xs : List β} {s : GoalDb} {e : PyError}
    (herror : (GoalStore.insertEach insert 0 xs s).1 = .error e) :
    (∃ x xs', xs = x :: xs' ∧ ¬ (valid x ∧ ∀ r ∈ rows s, rowKey r ≠ key x) ∧
      (GoalStore.insertEach insert 0 xs s).2 = s) ∨
    ∃ x xs', xs = x :: xs' ∧ (valid x ∧ ∀ r ∈ rows s, rowKey r ≠ key x) ∧
      row x 0 ∈ rows (GoalStore.insertEach insert 0 xs s).2 ∧ row x 0 ∉ rows s := by
  cases xs with
  | nil => cases herror
  | cons x xs =>
    by_cases hfirst : valid x ∧ ∀ r ∈ rows s, rowKey r ≠ key x
    · obtain ⟨s', hs'⟩ := (h.ok_iff x 0 s).mpr hfirst
      refine Or.inr ⟨x, xs, rfl, hfirst, ?_, fun hmem => hfirst.2 _ hmem (h.rowKey_row x 0)⟩
      have hstep : (GoalStore.insertEach insert 0 (x :: xs) s).2 = (GoalStore.insertEach insert 1 xs s').2 := by
        rw [GoalStore.insertEach, hs']
      rw [hstep]
      refine h.rows_mono 1 xs s' ?_
      rw [h.rows_eq hs']
      exact List.mem_append_right _ (List.mem_singleton_self _)
    · refine Or.inl ⟨x, xs, rfl, hfirst, ?_⟩
      rw [GoalStore.insertEach]
      cases hx : insert x 0 s with
      | error e' => rfl
      | ok s' => exact absurd ((h.ok_iff x 0 s).mp ⟨s', hx⟩) hfirst

end Inserts

/-! ## The two tables -/

/-- The row of a project at a place of the plan. -/
def projectRow (p : ProjectNode) (ordinal : ℕ) : ProjectRow := ⟨p.projectId, p.goalId, p.title, p.description, ordinal⟩

/-- The texts of the task can be made. -/
def Serializable (t : PlannedTask) : Prop :=
  PyValue.serializableItems t.payload = true ∧ ∀ result, t.result = some result → PyValue.serializableItems result = true

theorem insertProject_inserts : Inserts (fun p i s => s.insertProject (projectRow p i)) (fun _ => True) (·.projectId)
    projectRow (·.projects) (·.projectId) where
  ok_iff p i s := by
    unfold GoalDb.insertProject
    by_cases hnew : ∀ r ∈ s.projects, r.projectId ≠ (projectRow p i).projectId
    · rw [dif_pos hnew]
      exact ⟨fun _ => ⟨trivial, hnew⟩, fun _ => ⟨_, rfl⟩⟩
    · rw [dif_neg hnew]
      exact ⟨fun ⟨s', h⟩ => (by cases h), fun h => absurd h.2 hnew⟩
  rows_eq h := by
    unfold GoalDb.insertProject at h
    split_ifs at h
    rw [← Except.ok.inj h]
  rowKey_row p i := rfl

theorem dumpJson_some_ok {items : PyDict} {cell : Option PyDict} (h : Sqlite.dumpJson (some items) = .ok cell) :
    PyValue.serializableItems items = true := by
  by_contra hjson
  have hraise : Sqlite.dumpJson (some items) = .error (.typeError "Object is not JSON serializable") := if_neg hjson
  rw [hraise] at h
  cases h

theorem insertPlanned_ok_iff {t : PlannedTask} {i : ℕ} {s s' : GoalDb} : GoalStore.insertPlanned t i s = .ok s' ↔
    Serializable t ∧ s.insertPlannedTask (GoalStore.plannedTaskRow t i) = .ok s' := by
  unfold GoalStore.insertPlanned Serializable
  constructor
  · intro h
    obtain ⟨payload, hpayload, h⟩ := (except_bind_ok_iff _ _ _).mp h
    obtain ⟨result, hresult, h⟩ := (except_bind_ok_iff _ _ _).mp h
    refine ⟨⟨dumpJson_some_ok hpayload, fun items hitems => ?_⟩, h⟩
    rw [hitems] at hresult
    exact dumpJson_some_ok hresult
  · rintro ⟨⟨hpayload, hresult⟩, h⟩
    have hdump : ∃ result, Sqlite.dumpJson t.result = .ok result := by
      unfold Sqlite.dumpJson
      cases hitems : t.result with
      | none => exact ⟨none, rfl⟩
      | some items => exact ⟨some items, if_pos (hresult items hitems)⟩
    obtain ⟨result, hdump⟩ := hdump
    exact (except_bind_ok_iff _ _ _).mpr ⟨some t.payload, if_pos hpayload,
      (except_bind_ok_iff _ _ _).mpr ⟨result, hdump, h⟩⟩

theorem insertPlanned_inserts : Inserts GoalStore.insertPlanned Serializable (·.taskId) GoalStore.plannedTaskRow
    (·.tasks) (·.taskId) where
  ok_iff t i s := by
    simp only [insertPlanned_ok_iff, exists_and_left]
    refine and_congr_right fun _ => ?_
    unfold GoalDb.insertPlannedTask
    by_cases hnew : ∀ r ∈ s.tasks, r.taskId ≠ (GoalStore.plannedTaskRow t i).taskId
    · rw [dif_pos hnew]
      exact ⟨fun _ => hnew, fun _ => ⟨_, rfl⟩⟩
    · rw [dif_neg hnew]
      exact ⟨fun ⟨s', h⟩ => (by cases h), fun h => absurd h hnew⟩
  rows_eq h := by
    obtain ⟨-, h⟩ := insertPlanned_ok_iff.mp h
    unfold GoalDb.insertPlannedTask at h
    split_ifs at h
    rw [← Except.ok.inj h]
  rowKey_row t i := rfl

/-- Inserting projects leaves the other tables alone. -/
theorem insertProjects_same (i : ℕ) (projects : List ProjectNode) (s : GoalDb) :
    (GoalStore.insertEach (fun p i s => s.insertProject (projectRow p i)) i projects s).2.tasks = s.tasks ∧
    (GoalStore.insertEach (fun p i s => s.insertProject (projectRow p i)) i projects s).2.goals = s.goals := by
  refine insertEach_rel (R := fun s s' => s'.tasks = s.tasks ∧ s'.goals = s.goals) (fun _ => ⟨rfl, rfl⟩)
    (fun hst htu => ⟨htu.1.trans hst.1, htu.2.trans hst.2⟩) (fun h => ?_) i projects s
  unfold GoalDb.insertProject at h
  split_ifs at h
  rw [← Except.ok.inj h]
  exact ⟨rfl, rfl⟩

/-- Inserting tasks leaves the other tables alone. -/
theorem insertTasks_same (i : ℕ) (tasks : List PlannedTask) (s : GoalDb) :
    (GoalStore.insertEach GoalStore.insertPlanned i tasks s).2.projects = s.projects ∧
    (GoalStore.insertEach GoalStore.insertPlanned i tasks s).2.goals = s.goals := by
  refine insertEach_rel (R := fun s s' => s'.projects = s.projects ∧ s'.goals = s.goals) (fun _ => ⟨rfl, rfl⟩)
    (fun hst htu => ⟨htu.1.trans hst.1, htu.2.trans hst.2⟩) (fun h => ?_) i tasks s
  obtain ⟨-, h⟩ := insertPlanned_ok_iff.mp h
  unfold GoalDb.insertPlannedTask at h
  split_ifs at h
  rw [← Except.ok.inj h]
  exact ⟨rfl, rfl⟩

/-! ## All or nothing -/

section SavePlan

variable (host : Host) (goalId : Uuid) (projects : List ProjectNode) (tasks : List PlannedTask)
  (planConfidence : PyFloat) (gated : Bool) (c : Connection)

/-- Every row of the plan can be inserted. -/
structure Fits (s : GoalDb) : Prop where
  projects_nodup : (projects.map (·.projectId)).Nodup
  projects_new : ∀ p ∈ projects, ∀ r ∈ s.projects, r.projectId ≠ p.projectId
  tasks_nodup : (tasks.map (·.taskId)).Nodup
  tasks_new : ∀ t ∈ tasks, ∀ r ∈ s.tasks, r.taskId ≠ t.taskId
  serializable : ∀ t ∈ tasks, Serializable t

/-- The first row of the plan cannot be inserted. -/
def Blocked (s : GoalDb) : Prop :=
  (∃ p ps, projects = p :: ps ∧ ∃ r ∈ s.projects, r.projectId = p.projectId) ∨
  (projects = [] ∧ ∃ t ts, tasks = t :: ts ∧ ¬ (Serializable t ∧ ∀ r ∈ s.tasks, r.taskId ≠ t.taskId))

/-- The plan is stored and committed: its projects and tasks, and what it says of the goal. -/
structure Stored (before after : Connection) : Prop where
  committed : after.committed = after.current
  projects : after.current.projects = before.current.projects ++ projects.zipIdx.map fun p => projectRow p.1 p.2
  tasks : after.current.tasks = before.current.tasks ++ tasks.zipIdx.map fun t => GoalStore.plannedTaskRow t.1 t.2
  goals : after.current.goals =
    Table.updateWhere (·.goalId = goalId) (GoalStore.planned planConfidence gated) before.current.goals

/-- What a reader sees: the store itself what it wrote, every other one what is committed. -/
def Connection.view (c : Connection) (other : Bool) : GoalDb := if other then c.committed else c.current

/-- No calls, in any order, show a row of a project or a task of the plan that they would not show without the failed
one, neither to the store nor to another reader. -/
def Unseen (before after : Connection) : Prop :=
  ∀ cs other, (∀ r ∈ ((after.calls host cs).view other).projects, r.projectId ∈ projects.map (·.projectId) →
      r ∈ ((before.calls host cs).view other).projects) ∧
    ∀ r ∈ ((after.calls host cs).view other).tasks, r.taskId ∈ tasks.map (·.taskId) →
      r ∈ ((before.calls host cs).view other).tasks

/-- The call stored the plan, or it raised and left nothing of it to be seen. -/
def AllOrNothing : Prop :=
  ((c.savePlan goalId projects tasks planConfidence gated).1 = .ok () ∧
    Stored goalId projects tasks planConfidence gated c (c.savePlan goalId projects tasks planConfidence gated).2) ∨
  ∃ e, (c.savePlan goalId projects tasks planConfidence gated).1 = .error e ∧
    Unseen host projects tasks c (c.savePlan goalId projects tasks planConfidence gated).2

variable {host goalId projects tasks planConfidence gated c}

/-- The inserts of the projects, and of the tasks after them. -/
def afterProjects (projects : List ProjectNode) (s : GoalDb) : Except PyError Unit × GoalDb :=
  GoalStore.insertEach (fun p i s => s.insertProject (projectRow p i)) 0 projects s

def afterTasks (projects : List ProjectNode) (tasks : List PlannedTask) (s : GoalDb) : Except PyError Unit × GoalDb :=
  GoalStore.insertEach GoalStore.insertPlanned 0 tasks (afterProjects projects s).2

/-- The call inserts the projects, then the tasks, and then updates the goal and commits. -/
theorem savePlan_eq : c.savePlan goalId projects tasks planConfidence gated =
    match (afterProjects projects c.current).1, (afterTasks projects tasks c.current).1 with
    | .error e, _ => (.error e, { c with current := (afterProjects projects c.current).2 })
    | .ok _, .error e => (.error e, { c with current := (afterTasks projects tasks c.current).2 })
    | .ok _, .ok _ => (.ok (), Connection.commit
      ((afterTasks projects tasks c.current).2.updateGoal goalId (GoalStore.planned planConfidence gated) fun _ => rfl)) := by
  have hprojects : GoalStore.insertEach (fun p i s => s.insertProject ⟨p.projectId, p.goalId, p.title, p.description, i⟩)
      0 projects c.current = afterProjects projects c.current := rfl
  unfold Connection.savePlan GoalStore.savePlan afterTasks
  rw [hprojects]
  rcases afterProjects projects c.current with ⟨e | _, s⟩
  · rfl
  · rcases hrest : GoalStore.insertEach GoalStore.insertPlanned 0 tasks s with ⟨e | _, s'⟩
    · simp only [hrest]
    · simp only [hrest]

variable (goalId projects tasks planConfidence gated c) in
/-- The outcomes of the call: it stores the plan, or it raises; then nothing was written, or a row of the plan was. -/
theorem savePlan_cases :
    (Fits projects tasks c.current ∧ (c.savePlan goalId projects tasks planConfidence gated).1 = .ok () ∧
      Stored goalId projects tasks planConfidence gated c (c.savePlan goalId projects tasks planConfidence gated).2) ∨
    (∃ e, (c.savePlan goalId projects tasks planConfidence gated).1 = .error e) ∧ ¬ Fits projects tasks c.current ∧
      ((Blocked projects tasks c.current ∧ (c.savePlan goalId projects tasks planConfidence gated).2 = c) ∨
      (¬ Blocked projects tasks c.current ∧
        ((∃ p ∈ projects, ∃ r ∈ (c.savePlan goalId projects tasks planConfidence gated).2.current.projects,
          r.projectId = p.projectId ∧ r ∉ c.current.projects) ∨
        ∃ t ∈ tasks, ∃ r ∈ (c.savePlan goalId projects tasks planConfidence gated).2.current.tasks,
          r.taskId = t.taskId ∧ r ∉ c.current.tasks))) := by
  have hprojectsIff := insertProject_inserts.ok_all_iff 0 projects c.current
  cases hprojects : (afterProjects projects c.current).1 with
  | error e =>
    have hfits : ¬ Fits projects tasks c.current := by
      intro h
      have hok := hprojectsIff.mpr ⟨fun _ _ => trivial, h.projects_nodup, h.projects_new⟩
      rw [afterProjects, hok] at hprojects
      cases hprojects
    rw [savePlan_eq, hprojects]
    dsimp only
    refine Or.inr ⟨⟨e, rfl⟩, hfits, ?_⟩
    rcases insertProject_inserts.error_cases hprojects with ⟨p, ps, rfl, hfirst, hsame⟩ | ⟨p, ps, rfl, hfirst, hrow, hnew⟩
    · refine Or.inl ⟨Or.inl ⟨p, ps, rfl, ?_⟩, by rw [afterProjects, hsame]⟩
      by_contra hno
      exact hfirst ⟨trivial, fun r hr hid => hno ⟨r, hr, hid⟩⟩
    · refine Or.inr ⟨?_, Or.inl ⟨p, List.mem_cons_self, projectRow p 0, hrow, rfl, hnew⟩⟩
      rintro (⟨p', ps', h, r, hr, hid⟩ | ⟨h, -⟩)
      · rw [← (List.cons.inj h).1] at hid
        exact hfirst.2 r hr hid
      · cases h
  | ok u =>
    have hsameTasks : (afterProjects projects c.current).2.tasks = c.current.tasks :=
      (insertProjects_same 0 projects c.current).1
    obtain ⟨-, hprojectsNodup, hprojectsNew⟩ := hprojectsIff.mp hprojects
    have htasksIff := insertPlanned_inserts.ok_all_iff 0 tasks (afterProjects projects c.current).2
    rw [hsameTasks] at htasksIff
    have hprojectRows : (afterTasks projects tasks c.current).2.projects =
        c.current.projects ++ projects.zipIdx.map fun p => projectRow p.1 p.2 := by
      rw [afterTasks, (insertTasks_same 0 tasks _).1]
      exact insertProject_inserts.rows_all hprojects
    cases htasks : (afterTasks projects tasks c.current).1 with
    | error e =>
      have hfits : ¬ Fits projects tasks c.current := by
        intro h
        have hok := htasksIff.mpr ⟨h.serializable, h.tasks_nodup, h.tasks_new⟩
        rw [afterTasks, hok] at htasks
        cases htasks
      rw [savePlan_eq, hprojects, htasks]
      dsimp only
      refine Or.inr ⟨⟨e, rfl⟩, hfits, ?_⟩
      rcases insertPlanned_inserts.error_cases htasks with ⟨t, ts, rfl, hfirst, hsame⟩ | ⟨t, ts, rfl, hfirst, hrow, hnew⟩
      · rw [hsameTasks] at hfirst
        cases projects with
        | nil =>
          refine Or.inl ⟨Or.inr ⟨rfl, t, ts, rfl, hfirst⟩, ?_⟩
          rw [afterTasks, hsame]
          rfl
        | cons p ps =>
          refine Or.inr ⟨?_, Or.inl ⟨p, List.mem_cons_self, projectRow p 0, ?_, rfl, ?_⟩⟩
          · rintro (⟨p', ps', h, r, hr, hid⟩ | ⟨h, -⟩)
            · rw [← (List.cons.inj h).1] at hid
              exact hprojectsNew p List.mem_cons_self r hr hid
            · cases h
          · show projectRow p 0 ∈ (afterTasks (p :: ps) (t :: ts) c.current).2.projects
            rw [hprojectRows, List.zipIdx_cons, List.map_cons]
            exact List.mem_append_right _ List.mem_cons_self
          · exact fun hmem => hprojectsNew p List.mem_cons_self _ hmem rfl
      · rw [hsameTasks] at hfirst hnew
        refine Or.inr ⟨?_, Or.inr ⟨t, List.mem_cons_self, GoalStore.plannedTaskRow t 0, hrow, rfl, hnew⟩⟩
        rintro (⟨p', ps', rfl, r, hr, hid⟩ | ⟨-, t', ts', h, hblocked⟩)
        · exact hprojectsNew p' List.mem_cons_self r hr hid
        · rw [← (List.cons.inj h).1] at hblocked
          exact hblocked hfirst
    | ok u' =>
      obtain ⟨hserializable, htasksNodup, htasksNew⟩ := htasksIff.mp htasks
      have htaskRows := insertPlanned_inserts.rows_all htasks
      rw [hsameTasks] at htaskRows
      rw [savePlan_eq, hprojects, htasks]
      dsimp only
      refine Or.inl ⟨⟨hprojectsNodup, hprojectsNew, htasksNodup, htasksNew, hserializable⟩, rfl, ⟨rfl, hprojectRows,
        htaskRows, ?_⟩⟩
      have hgoals : (afterTasks projects tasks c.current).2.goals = c.current.goals :=
        (insertTasks_same 0 tasks _).2.trans (insertProjects_same 0 projects c.current).2
      show Table.updateWhere _ _ (afterTasks projects tasks c.current).2.goals = _
      rw [hgoals]

end SavePlan

/-- `save_plan` is all or nothing exactly when every row of the plan can be inserted or the first one cannot. -/
theorem savePlan_allOrNothing_iff (host : Host) (goalId : Uuid) (projects : List ProjectNode)
    (tasks : List PlannedTask) (planConfidence : PyFloat) (gated : Bool) (c : Connection) :
    AllOrNothing host goalId projects tasks planConfidence gated c ↔
      Fits projects tasks c.current ∨ Blocked projects tasks c.current := by
  rcases savePlan_cases goalId projects tasks planConfidence gated c with
    ⟨hfits, hok, hstored⟩ | ⟨⟨e, herror⟩, hfits, ⟨hblocked, hsame⟩ | ⟨hblocked, hrow⟩⟩
  · exact ⟨fun _ => Or.inl hfits, fun _ => Or.inl ⟨hok, hstored⟩⟩
  · refine ⟨fun _ => Or.inr hblocked, fun _ => Or.inr ⟨e, herror, fun cs other => ?_⟩⟩
    rw [hsame]
    exact ⟨fun r hr _ => hr, fun r hr _ => hr⟩
  · refine ⟨?_, ?_⟩
    · rintro (⟨hok, -⟩ | ⟨e', -, hunseen⟩)
      · rw [herror] at hok
        cases hok
      · exfalso
        obtain ⟨hprojects, htasks⟩ := hunseen [] false
        rcases hrow with ⟨p, hp, r, hr, hid, hnew⟩ | ⟨t, ht, r, hr, hid, hnew⟩
        · exact hnew (hprojects r hr (List.mem_map.mpr ⟨p, hp, hid.symm⟩))
        · exact hnew (htasks r hr (List.mem_map.mpr ⟨t, ht, hid.symm⟩))
    · rintro (h | h)
      · exact absurd h hfits
      · exact absurd h hblocked

/-- A host without conversions of its own. -/
def planHost : Host := ⟨fun _ => none, fun _ => "", fun _ => none⟩

def plannedGoal : GoalContract where
  goalId := 1
  origin := "api"
  objective := "build a page"
  confidenceThreshold := .finite (13 / 20)
  createdAt := .ofMicros 0

def plannedProject : ProjectNode := ⟨2, 1, "page", ""⟩

def plannedTask : PlannedTask where
  taskId := 3
  projectId := 2
  goalId := 1
  skill := "rigel.skill.code_generation"
  payload := []

/-- The connection after the goal is created. -/
def created : Connection := (Connection.commit GoalDb.empty).calls planHost [.createGoal plannedGoal]

/-- The connection after a plan whose second task has the id of the first one. -/
def interrupted : Connection := (created.savePlan 1 [plannedProject] [plannedTask, plannedTask] (.finite 1) false).2

/-- The next commit, of an unrelated call, publishes the project and the first task of the plan that failed. -/
theorem savePlan_repeatedTask :
    projectRow plannedProject 0 ∈ (interrupted.calls planHost [.setGoalStatus 1 .failed]).committed.projects ∧
    ¬ ∀ (host : Host) (goalId : Uuid) (projects : List ProjectNode) (tasks : List PlannedTask)
      (planConfidence : PyFloat) (gated : Bool) (c : Connection),
      AllOrNothing host goalId projects tasks planConfidence gated c := by
  have hshown : projectRow plannedProject 0 ∈
      (interrupted.calls planHost [.setGoalStatus 1 .failed]).committed.projects := by decide +kernel
  refine ⟨hshown, fun h => ?_⟩
  rcases h planHost 1 [plannedProject] [plannedTask, plannedTask] (.finite 1) false created with
    ⟨hok, -⟩ | ⟨e, -, hunseen⟩
  · have hraised :
        raised (created.savePlan 1 [plannedProject] [plannedTask, plannedTask] (.finite 1) false).1 = true := by
      decide +kernel
    rw [hok] at hraised
    cases hraised
  · have hbefore := (hunseen [.setGoalStatus 1 .failed] true).1 _ hshown List.mem_cons_self
    have hno : projectRow plannedProject 0 ∉ (created.calls planHost [.setGoalStatus 1 .failed]).committed.projects := by
      decide +kernel
    exact hno hbefore

end Galaxz
