import Galaxz.Andromeda.Planner

/-!
# Proofs: plans from a model's reply

What every check of a spec leaves behind, and from it what holds of every plan that is returned.
-/

namespace Galaxz

open Relation

/-! ## Cycles -/

/-- `_has_cycle` ends, and tells whether the graph has a cycle. -/
theorem hasCycle_iff {edges : ℕ → List ℕ} {n : ℕ} (hedges : ∀ u v, v ∈ edges u → u < n ∧ v < n) :
    ∃ b, hasCycle edges n = some b ∧ (b = true ↔ CycleSearch.Cyclic edges) := by
  have hrange : ∀ u v, CycleSearch.Edge edges u v → u ∈ List.range n ∧ v ∈ List.range n := by
    intro u v huv
    rw [List.mem_range, List.mem_range]
    exact hedges u v huv
  obtain ⟨found, hfound, hiff⟩ := CycleSearch.search_iff hrange (List.length_range (n := n)).le
  refine ⟨found.1, ?_, hiff⟩
  unfold hasCycle
  rw [hfound]
  rfl

/-! ## The checks of a spec -/

/-- A list of which every element has a value, and the list of the values. -/
theorem option_mapM_some_iff {α β : Type} (f : α → Option β) (xs : List α) (ys : List β) :
    xs.mapM f = some ys ↔ List.Forall₂ (fun x y => f x = some y) xs ys := by
  induction xs generalizing ys with
  | nil =>
    rw [List.mapM_nil, List.forall₂_nil_left_iff]
    exact ⟨fun h => (Option.some.inj h).symm, fun h => by rw [h]; rfl⟩
  | cons x xs ih =>
    rw [List.mapM_cons, List.forall₂_cons_left_iff]
    constructor
    · intro h
      obtain ⟨y, hy, h⟩ := Option.bind_eq_some_iff.mp h
      obtain ⟨zs, hzs, h⟩ := Option.bind_eq_some_iff.mp h
      exact ⟨y, zs, hy, (ih zs).mp hzs, (Option.some.inj h).symm⟩
    · rintro ⟨y, zs, hy, hzs, rfl⟩
      rw [hy, (ih zs).mpr hzs]
      rfl

section Checks

variable {text : PlannerText} {skills : List PlannerSkill} {n i : ℕ}

theorem checkSkill_known {skill : PyValue} {known : String} (h : checkSkill text skills skill = .ok known) :
    known ∈ knownSkills skills := by
  unfold checkSkill at h
  split_ifs at h
  split at h
  · next found hfind =>
    obtain rfl : found = known := Except.ok.inj h
    exact List.mem_of_find?_eq_some hfind
  · split at h
    · next only hmatches =>
      obtain rfl : only = known := Except.ok.inj h
      have hmem : only ∈ skillMatches text skills skill := by
        rw [hmatches]
        exact List.mem_singleton_self only
      exact List.mem_of_mem_filter hmem
    · cases h

theorem anyMissing_false {payload : PyDict} {keys : List PyValue} (h : anyMissing payload keys = .ok false) :
    ∀ key ∈ keys, ∃ item ∈ payload, PyValue.str item.1 = key := by
  induction keys with
  | nil => exact fun key hkey => absurd hkey List.not_mem_nil
  | cons key keys ih =>
    rw [anyMissing] at h
    split_ifs at h with hhash hpresent
    · intro k hk
      rcases List.mem_cons.mp hk with rfl | hk
      · obtain ⟨item, hitem, hkey⟩ := List.any_eq_true.mp hpresent
        exact ⟨item, hitem, of_decide_eq_true hkey⟩
      · exact ih h k hk
    · cases h

theorem checkPayload_ok {skill : String} {value : PyValue} {payload : PyDict}
    (h : checkPayload text skills i skill value = .ok payload) : value = .dict payload ∧
      ∃ keys, (requiredOf skills skill).iterate = .ok keys ∧ anyMissing payload keys = .ok false := by
  unfold checkPayload at h
  cases value with
  | dict items =>
    obtain ⟨keys, hkeys, h⟩ := (except_bind_ok_iff _ _ _).mp h
    obtain ⟨missing, hmissing, h⟩ := (except_bind_ok_iff _ _ _).mp h
    cases missing with
    | true => cases h
    | false =>
      obtain rfl := Except.ok.inj h
      exact ⟨rfl, keys, hkeys, hmissing⟩
  | _ => cases h

theorem checkIndex_some {d : PyValue} {k : ℕ} (h : checkIndex n i d = some k) : d.asInt = some (k : ℤ) ∧ k < n ∧ k ≠ i := by
  unfold checkIndex at h
  cases hd : d.asInt with
  | none =>
    rw [hd] at h
    cases h
  | some m =>
    rw [hd] at h
    by_cases hrange : m < 0 ∨ (n : ℤ) ≤ m ∨ m = i
    · simp only [if_pos hrange] at h
      cases h
    · simp only [if_neg hrange, Option.some.injEq] at h
      push Not at hrange
      obtain ⟨hnonneg, hlt, hne⟩ := hrange
      have hm : (k : ℤ) = m := by omega
      refine ⟨by rw [hm], by omega, fun e => hne (by rw [← hm, e])⟩

theorem checkDepends_ok {value : PyValue} {deps : List ℕ} (h : checkDepends text n i value = .ok deps) :
    ∃ ds, value = .list ds ∧ ds.mapM (checkIndex n i) = some deps := by
  unfold checkDepends at h
  cases value with
  | list ds =>
    cases hds : ds.mapM (checkIndex n i) with
    | none =>
      simp only [hds] at h
      cases h
    | some checked =>
      simp only [hds] at h
      obtain rfl := Except.ok.inj h
      exact ⟨ds, rfl, hds⟩
  | _ => cases h

variable (skills n i) in
/-- What the checks promise of a spec at index `i`. -/
structure CheckedSpec.Sound (spec : CheckedSpec) : Prop where
  registered : spec.skill ∈ knownSkills skills
  required : ∃ keys, (requiredOf skills spec.skill).iterate = .ok keys ∧
    ∀ key ∈ keys, ∃ item ∈ spec.payload, PyValue.str item.1 = key
  indices : ∀ d ∈ spec.dependsOn, d < n ∧ d ≠ i

theorem checkSpec_sound {spec : TaskSpec} {checked : CheckedSpec} (h : checkSpec text skills n i spec = .ok checked) :
    checked.Sound skills n i := by
  unfold checkSpec at h
  obtain ⟨skill, hskill, h⟩ := (except_bind_ok_iff _ _ _).mp h
  obtain ⟨payload, hpayload, h⟩ := (except_bind_ok_iff _ _ _).mp h
  obtain ⟨deps, hdeps, h⟩ := (except_bind_ok_iff _ _ _).mp h
  obtain rfl := Except.ok.inj h
  obtain ⟨-, keys, hkeys, hmissing⟩ := checkPayload_ok hpayload
  obtain ⟨ds, -, hds⟩ := checkDepends_ok hdeps
  refine ⟨checkSkill_known hskill, ⟨keys, hkeys, anyMissing_false hmissing⟩, fun d hd => ?_⟩
  obtain ⟨value, -, hvalue⟩ := mem_right_of_forall₂ ((option_mapM_some_iff _ _ _).mp hds) hd
  exact (checkIndex_some hvalue).2

/-- The specs are checked one by one, each at its own index. -/
theorem checkSpecs_ok {specs : List TaskSpec} {checked : List CheckedSpec}
    (h : checkSpecs text skills n i specs = .ok checked) : checked.length = specs.length ∧
      ∀ (j : ℕ) (c : CheckedSpec), checked[j]? = some c → c.Sound skills n (i + j) := by
  induction specs generalizing i checked with
  | nil =>
    obtain rfl := Except.ok.inj h
    exact ⟨rfl, fun j c hc => by cases hc⟩
  | cons spec specs ih =>
    rw [checkSpecs] at h
    obtain ⟨first, hfirst, h⟩ := (except_bind_ok_iff _ _ _).mp h
    obtain ⟨rest, hrest, h⟩ := (except_bind_ok_iff _ _ _).mp h
    obtain rfl := Except.ok.inj h
    obtain ⟨hlength, hsound⟩ := ih hrest
    refine ⟨by rw [List.length_cons, List.length_cons, hlength], fun j c hc => ?_⟩
    cases j with
    | zero =>
      obtain rfl := Option.some.inj hc
      exact checkSpec_sound hfirst
    | succ j =>
      have hc : rest[j]? = some c := hc
      have hj := hsound j c hc
      rw [show i + (j + 1) = i + 1 + j by omega]
      exact hj

end Checks

/-! ## Plans -/

section Plans

variable {text : PlannerText} {skills : List PlannerSkill} {ids : ℕ → Uuid} {goal : GoalContract} {reply : String}
  {r : PlanResult}

/-- The indices that the spec at an index depends on. -/
def edgesOf (checked : List CheckedSpec) (u : ℕ) : List ℕ := (checked[u]?.map (·.dependsOn)).getD []

/-- A task of the plan depends on another one. -/
def PlanResult.DependsOn (r : PlanResult) (a b : Uuid) : Prop := ∃ task ∈ r.tasks, task.taskId = a ∧ b ∈ task.dependsOn

theorem mem_planTasks {goalId : Uuid} {first : ℕ} {checked : List CheckedSpec} {task : PlannedTask} :
    task ∈ planTasks goalId ids first checked ↔ ∃ i spec, checked[i]? = some spec ∧ task =
      { taskId := ids (first + i), projectId := spec.projectId, goalId, skill := spec.skill, payload := spec.payload,
        dependsOn := spec.dependsOn.map fun d => ids (first + d) } := by
  unfold planTasks
  rw [List.mem_map]
  constructor
  · rintro ⟨⟨spec, i⟩, hmem, rfl⟩
    exact ⟨i, spec, List.mem_zipIdx_iff_getElem?.mp hmem, rfl⟩
  · rintro ⟨i, spec, hspec, rfl⟩
    exact ⟨(spec, i), List.mem_zipIdx_iff_getElem?.mpr hspec, rfl⟩

/-- What a returned plan went through. -/
theorem planOnce_ok (h : planOnce text skills ids goal reply = .ok r) :
    ∃ first checked, r.tasks = planTasks goal.goalId ids first checked ∧ checked ≠ [] ∧
      (∀ (j : ℕ) (c : CheckedSpec), checked[j]? = some c → c.Sound skills checked.length j) ∧
      hasCycle (edgesOf checked) checked.length = some false := by
  unfold planOnce at h
  split at h
  · cases h
  · cases h
  · split at h
    · obtain ⟨confidence, -, h⟩ := (except_bind_ok_iff _ _ _).mp h
      obtain ⟨read, -, h⟩ := (except_bind_ok_iff _ _ _).mp h
      by_cases hempty : read.flatMap (·.2) = []
      · simp only [if_pos hempty] at h
        cases h
      · simp only [if_neg hempty] at h
        obtain ⟨checked, hchecked, h⟩ := (except_bind_ok_iff _ _ _).mp h
        obtain ⟨hlength, hsound⟩ := checkSpecs_ok hchecked
        split at h
        · cases h
        · cases h
        · next hcycle =>
          obtain rfl := Except.ok.inj h
          refine ⟨read.length, checked, rfl, ?_, fun j c hc => ?_, ?_⟩
          · intro hnil
            rw [hnil] at hlength
            exact hempty (List.length_eq_zero_iff.mp hlength.symm)
          · have hj := hsound j c hc
            rw [← hlength, Nat.zero_add] at hj
            exact hj
          · rw [hlength]
            exact hcycle
    · cases h
  · cases h

theorem mem_edgesOf {checked : List CheckedSpec} {u v : ℕ} :
    v ∈ edgesOf checked u ↔ ∃ c, checked[u]? = some c ∧ v ∈ c.dependsOn := by
  unfold edgesOf
  cases checked[u]? with
  | none => simp
  | some c => simp

theorem edgesOf_lt {checked : List CheckedSpec} (hsound : ∀ (j : ℕ) (c : CheckedSpec), checked[j]? = some c → c.Sound skills checked.length j)
    (u v : ℕ) (huv : v ∈ edgesOf checked u) : u < checked.length ∧ v < checked.length := by
  obtain ⟨c, hc, hv⟩ := mem_edgesOf.mp huv
  exact ⟨(List.getElem?_eq_some_iff.mp hc).1, ((hsound u c hc).indices v hv).1⟩

/-- Tasks that depend on each other, one after the other, are so by their indices. -/
theorem transGen_dependsOn {first : ℕ} {checked : List CheckedSpec}
    (hsound : ∀ (j : ℕ) (c : CheckedSpec), checked[j]? = some c → c.Sound skills checked.length j)
    (htasks : r.tasks = planTasks goal.goalId ids first checked)
    (hinj : ∀ i j, i < checked.length → j < checked.length → ids (first + i) = ids (first + j) → i = j) {a b : Uuid}
    (hab : TransGen r.DependsOn a b) : ∃ i j, i < checked.length ∧ j < checked.length ∧ ids (first + i) = a ∧
      ids (first + j) = b ∧ TransGen (CycleSearch.Edge (edgesOf checked)) i j := by
  have hstep : ∀ {a b : Uuid}, r.DependsOn a b → ∃ i j, i < checked.length ∧ j < checked.length ∧
      ids (first + i) = a ∧ ids (first + j) = b ∧ CycleSearch.Edge (edgesOf checked) i j := by
    rintro a b ⟨task, htask, rfl, hb⟩
    rw [htasks] at htask
    obtain ⟨i, spec, hspec, rfl⟩ := mem_planTasks.mp htask
    obtain ⟨j, hj, rfl⟩ := List.mem_map.mp hb
    have hedge : j ∈ edgesOf checked i := mem_edgesOf.mpr ⟨spec, hspec, hj⟩
    obtain ⟨hi, hj⟩ := edgesOf_lt hsound i j hedge
    exact ⟨i, j, hi, hj, rfl, rfl, hedge⟩
  induction hab with
  | single hedge =>
    obtain ⟨i, j, hi, hj, ha, hb, hedge⟩ := hstep hedge
    exact ⟨i, j, hi, hj, ha, hb, .single hedge⟩
  | tail _ hedge ih =>
    obtain ⟨i, j, hi, hj, ha, hb, hpath⟩ := ih
    obtain ⟨k, l, hk, hl, hb', hc, hedge⟩ := hstep hedge
    have hkj : k = j := hinj k j hk hj (hb'.trans hb.symm)
    rw [hkj] at hedge
    exact ⟨i, l, hi, hl, ha, hc, hpath.tail hedge⟩

theorem planTasks_ids (goalId : Uuid) (first : ℕ) (checked : List CheckedSpec) :
    (planTasks goalId ids first checked).map (·.taskId) = (List.range checked.length).map fun i => ids (first + i) := by
  unfold planTasks
  rw [List.range_eq_range', ← List.zipIdx_map_snd 0 checked, List.map_map, List.map_map]
  rfl

/-- A plan has no cycle, when every task has an id of its own. -/
theorem planOnce_acyclic (h : planOnce text skills ids goal reply = .ok r)
    (hids : (r.tasks.map (·.taskId)).Nodup) (a : Uuid) : ¬ TransGen r.DependsOn a a := by
  obtain ⟨first, checked, htasks, -, hsound, hcycle⟩ := planOnce_ok h
  have hinj : ∀ i j, i < checked.length → j < checked.length → ids (first + i) = ids (first + j) → i = j := by
    intro i j hi hj hij
    rw [htasks, planTasks_ids] at hids
    exact List.inj_on_of_nodup_map hids (List.mem_range.mpr hi) (List.mem_range.mpr hj) hij
  intro hback
  obtain ⟨i, j, hi, hj, hia, hja, hpath⟩ := transGen_dependsOn hsound htasks hinj hback
  have hji : j = i := hinj j i hj hi (hja.trans hia.symm)
  rw [hji] at hpath
  obtain ⟨b, hb, hiff⟩ := hasCycle_iff (edgesOf_lt hsound)
  rw [hcycle] at hb
  obtain rfl := Option.some.inj hb
  have hfound := hiff.mpr ⟨i, hpath⟩
  cases hfound

/-- What every task of a plan depends on is in the plan, its skill is registered, and its payload has the keys that
the skill requires. -/
theorem planOnce_task (h : planOnce text skills ids goal reply = .ok r) {task : PlannedTask} (htask : task ∈ r.tasks) :
    (∀ d ∈ task.dependsOn, ∃ other ∈ r.tasks, other.taskId = d) ∧ task.skill ∈ knownSkills skills ∧
      ∃ keys, (requiredOf skills task.skill).iterate = .ok keys ∧
        ∀ key ∈ keys, ∃ item ∈ task.payload, PyValue.str item.1 = key := by
  obtain ⟨first, checked, htasks, -, hsound, -⟩ := planOnce_ok h
  rw [htasks] at htask ⊢
  obtain ⟨i, spec, hspec, rfl⟩ := mem_planTasks.mp htask
  have hspecsound := hsound i spec hspec
  refine ⟨fun d hd => ?_, hspecsound.registered, hspecsound.required⟩
  obtain ⟨j, hj, rfl⟩ := List.mem_map.mp hd
  have hlt : j < checked.length := (hspecsound.indices j hj).1
  exact ⟨_, mem_planTasks.mpr ⟨j, checked[j], List.getElem?_eq_getElem hlt, rfl⟩, rfl⟩

/-- `_has_cycle` finds exactly the graphs with a cycle, so every plan that is returned is a graph of its own tasks
without one; the skills of its tasks are registered, and their payloads have the required keys. -/
theorem plans_are_acyclic (text : PlannerText) (skills : List PlannerSkill) (ids : ℕ → Uuid) (goal : GoalContract)
    (reply : String) :
    (∀ (n : ℕ) (edges : ℕ → List ℕ), (∀ u v, v ∈ edges u → u < n ∧ v < n) →
      (hasCycle edges n = some true ↔ ∃ v, TransGen (fun u v => v ∈ edges u) v v) ∧
      (hasCycle edges n = some false ↔ ¬ ∃ v, TransGen (fun u v => v ∈ edges u) v v)) ∧
    ∀ r, planOnce text skills ids goal reply = .ok r →
      ((r.tasks.map (·.taskId)).Nodup → ∀ a, ¬ TransGen r.DependsOn a a) ∧
      ∀ task ∈ r.tasks, (∀ d ∈ task.dependsOn, ∃ other ∈ r.tasks, other.taskId = d) ∧
        task.skill ∈ knownSkills skills ∧ ∃ keys, (requiredOf skills task.skill).iterate = .ok keys ∧
          ∀ key ∈ keys, ∃ item ∈ task.payload, PyValue.str item.1 = key := by
  refine ⟨fun n edges hedges => ?_, fun r h => ⟨planOnce_acyclic h, fun task htask => planOnce_task h htask⟩⟩
  obtain ⟨b, hb, hiff⟩ := hasCycle_iff hedges
  have hiff : b = true ↔ ∃ v, TransGen (fun u v => v ∈ edges u) v v := hiff
  rw [hb, ← hiff]
  cases b with
  | true => simp
  | false => simp

end Plans

/-- A reply with two tasks, the second of which depends on the first. -/
def orderedReply : String :=
  "\x7b\"projects\": [\x7b\"tasks\": [\x7b\"skill\": \"gen\"\x7d, \x7b\"skill\": \"check\", \"depends_on\": [0]\x7d]\x7d]\x7d"

/-- A reply whose only project is a text. -/
def shapelessReply : String := "\x7b\"projects\": [\"x\"]\x7d"

/-- The two replies, read as Python reads them. -/
def replyText : PlannerText where
  loads reply :=
    if reply = orderedReply then
      .ok (.dict [("projects", .list [.dict [("tasks", .list [.dict [("skill", .str "gen")],
        .dict [("skill", .str "check"), ("depends_on", .list [.int 0])]])]])])
    else if reply = shapelessReply then .ok (.dict [("projects", .list [.str "x"])])
    else .error (.jsonDecodeError "Expecting value: line 1 column 1 (char 0)")
  loads_ne s msg := by
    split_ifs
    all_goals
      intro h
      cases h
  float _ := none
  str
    | .str s => s
    | _ => ""
  repr
    | .str s => "'" ++ s ++ "'"
    | _ => ""
  isUnicode _ := true

def twoSkills : List PlannerSkill := [⟨"gen", []⟩, ⟨"check", [("required", .list [])]⟩]

def someGoal : GoalContract where
  goalId := 1
  origin := "test"
  objective := "build a todo API with tests"
  confidenceThreshold := .finite (13 / 20)
  createdAt := .ofMicros 0

/-- The plan of two tasks. -/
def orderedPlan : Except PyError PlanResult := planOnce replyText twoSkills (BitVec.ofNat 128) someGoal orderedReply

theorem orderedPlan_acyclic : (hasCycle (fun u => if u = 0 then [1] else if u = 1 then [0] else []) 2 = some true ↔
      ∃ v, TransGen (fun u v => v ∈ if u = 0 then [1] else if u = 1 then [0] else []) v v) ∧
    ∃ r, orderedPlan = .ok r ∧ (r.tasks.map (·.taskId)).Nodup ∧ (∀ a, ¬ TransGen r.DependsOn a a) ∧
      ∀ task ∈ r.tasks, task.skill ∈ knownSkills twoSkills := by
  have hspec := plans_are_acyclic replyText twoSkills (BitVec.ofNat 128) someGoal orderedReply
  have hedges : ∀ u v : ℕ, v ∈ (if u = 0 then [1] else if u = 1 then [0] else []) → u < 2 ∧ v < 2 := by
    intro u v huv
    split_ifs at huv with hzero hone
    · rw [List.mem_singleton.mp huv, hzero]
      decide
    · rw [List.mem_singleton.mp huv, hone]
      decide
    · cases huv
  refine ⟨(hspec.1 2 _ hedges).1, ?_⟩
  obtain ⟨r, hr⟩ := eq_ok_of_not_raised (x := orderedPlan) (by decide +kernel)
  have hids : (r.tasks.map (·.taskId)).Nodup := by
    have hall : (match orderedPlan with
      | .ok r => decide (r.tasks.map (·.taskId)).Nodup
      | .error _ => false) = true := by decide +kernel
    rw [hr] at hall
    exact of_decide_eq_true hall
  obtain ⟨hacyclic, htasks⟩ := hspec.2 r hr
  exact ⟨r, hr, hids, hacyclic hids, fun task htask => (htasks task htask).2.1⟩

end Galaxz
