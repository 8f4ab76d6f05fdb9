import Galaxz.Goals.Proofs.LineageRequestProofs
import Galaxz.Goals.Proofs.SavePlanProofs
import Galaxz.Jobs.Proofs.FleetProofs

/-!
# Proofs: the results of a deployment

The jobs and the workers of a deployment run as a fleet, whatever the coordinators do. Every request in progress stays
traced while the others go on, so whatever is stored of a task goes back to an execution.
-/

namespace Galaxz

open DurableGoalCoordinator SqliteJobRepository Prog DurableWorker

/-! ## Plans -/

section Plans

/-- Rows that stay, and goals that stay on their terms. -/
theorem GoalDb.keeps_of_subset {s s' : GoalDb} (htasks : ∀ r ∈ s.tasks, r ∈ s'.tasks)
    (hgoals : ∀ g ∈ s.goals, ∃ g' ∈ s'.goals, g'.goalId = g.goalId ∧ g'.confidenceThreshold = g.confidenceThreshold ∧
      g'.workspaceRoot = g.workspaceRoot) : s.Keeps s' where
  tasks id r hr := by
    obtain ⟨hmem, hid⟩ := task?_eq_some.mp hr
    exact ⟨r, task?_eq_some.mpr ⟨htasks r hmem, hid⟩, .refl r⟩
  terms id threshold workspaceRoot hterms := by
    obtain ⟨goal, hgoal, hthreshold, hroot⟩ := hterms
    obtain ⟨hmem, hid⟩ := goal?_eq_some.mp hgoal
    obtain ⟨goal', hmem', hid', hthreshold', hroot'⟩ := hgoals goal hmem
    exact ⟨goal', goal?_eq_some.mpr ⟨hmem', hid'.trans hid⟩, hthreshold'.trans hthreshold, hroot'.trans hroot⟩

theorem createGoal_keeps {goal : GoalContract} {s s' : GoalDb} (h : GoalStore.createGoal goal s = .ok s') :
    s.Keeps s' ∧ s'.tasks = s.tasks := by
  unfold GoalStore.createGoal at h
  split_ifs at h
  unfold GoalDb.insertGoal at h
  split_ifs at h
  cases h
  refine ⟨GoalDb.keeps_of_subset (fun _ hr => hr) fun g hg => ⟨g, ?_, rfl, rfl, rfl⟩, rfl⟩
  exact List.mem_append_left _ hg

/-- The rows after inserts, of which one may have failed: those from before, and some of the plan. -/
theorem insertTasks_rows (i : ℕ) (tasks : List PlannedTask) (s : GoalDb) :
    ∀ r ∈ (GoalStore.insertEach GoalStore.insertPlanned i tasks s).2.tasks,
      r ∈ s.tasks ∨ ∃ t ∈ tasks, ∃ n, r = GoalStore.plannedTaskRow t n := by
  induction tasks generalizing i s with
  | nil => exact fun r hr => Or.inl hr
  | cons task tasks ih =>
    intro r hr
    rw [GoalStore.insertEach] at hr
    cases hinsert : GoalStore.insertPlanned task i s with
    | error e =>
      rw [hinsert] at hr
      exact Or.inl hr
    | ok s' =>
      rw [hinsert] at hr
      rcases ih (i + 1) s' r hr with hold | ⟨t, ht, n, hrow⟩
      · rw [insertPlanned_inserts.rows_eq hinsert] at hold
        rcases List.mem_append.mp hold with hold | hnew
        · exact Or.inl hold
        · exact Or.inr ⟨task, List.mem_cons_self, i, List.mem_singleton.mp hnew⟩
      · exact Or.inr ⟨t, List.mem_cons_of_mem _ ht, n, hrow⟩

/-- What `save_plan` does to the goals, also when it raises: some rows of the plan are added. -/
theorem savePlan_keeps (goalId : Uuid) (projects : List ProjectNode) (tasks : List PlannedTask)
    (planConfidence : PyFloat) (gated : Bool) (s : GoalDb) :
    s.Keeps (GoalStore.savePlan goalId projects tasks planConfidence gated s).2 ∧
      ∀ r ∈ (GoalStore.savePlan goalId projects tasks planConfidence gated s).2.tasks,
        r ∈ s.tasks ∨ ∃ t ∈ tasks, ∃ n, r = GoalStore.plannedTaskRow t n := by
  obtain ⟨hptasks, hpgoals⟩ := insertProjects_same 0 projects s
  unfold GoalStore.savePlan
  cases hprojects : GoalStore.insertEach (fun p i s => s.insertProject (projectRow p i)) 0 projects s with
  | mk presult ps =>
  rw [hprojects] at hptasks hpgoals
  have hafter : s.Keeps ps := by
    refine GoalDb.keeps_of_subset (fun r hr => ?_) fun g hg => ⟨g, ?_, rfl, rfl, rfl⟩
    · rw [hptasks]
      exact hr
    · rw [hpgoals]
      exact hg
  have hrows : ∀ r ∈ ps.tasks, r ∈ s.tasks := fun r hr => hptasks ▸ hr
  unfold projectRow at hprojects
  rw [hprojects]
  cases presult with
  | error e => exact ⟨hafter, fun r hr => Or.inl (hrows r hr)⟩
  | ok u =>
    dsimp only
    have htgoals := (insertTasks_same 0 tasks ps).2
    have htrows := insertTasks_rows 0 tasks ps
    have hmono := fun r => insertPlanned_inserts.rows_mono 0 tasks ps (r := r)
    cases htasks : GoalStore.insertEach GoalStore.insertPlanned 0 tasks ps with
    | mk tresult ts =>
    rw [htasks] at htgoals htrows hmono
    have hall : ∀ r ∈ ts.tasks, r ∈ s.tasks ∨ ∃ t ∈ tasks, ∃ n, r = GoalStore.plannedTaskRow t n :=
      fun r hr => (htrows r hr).imp_left (hrows r)
    have hkeeps : s.Keeps ts := by
      refine hafter.trans (GoalDb.keeps_of_subset (fun r hr => hmono r hr) fun g hg => ⟨g, ?_, rfl, rfl, rfl⟩)
      rw [htgoals]
      exact hg
    cases tresult with
    | error e => exact ⟨hkeeps, hall⟩
    | ok u =>
      refine ⟨hkeeps.trans ?_, hall⟩
      exact ts.keeps_updateGoal goalId (GoalStore.planned planConfidence gated) (fun _ => rfl) fun _ => ⟨rfl, rfl⟩

end Plans

/-! ## The jobs -/

/-- A call of a coordinator leaves the jobs, or makes one call on their store, which completes nothing. -/
theorem exec_jobs_cases (host : Host) (call : StoreCall) (w : World) :
    (World.exec host call w).2.jobs = w.jobs ∨
      ∃ c : JobCall, c.completes = false ∧ (World.exec host call w).2.jobs = SqliteJobRepository.step c w.jobs := by
  cases call with
  | enqueue taskId task k =>
    exact Or.inr ⟨.enqueue (w.readings 0).id taskId (some task) k 0 none (w.readings 0).now, rfl, rfl⟩
  | cancelJob jobId => exact Or.inr ⟨.cancel jobId (w.readings 0).now, rfl, rfl⟩
  | updateTask taskId update =>
    left
    rw [World.exec]
    split
    · rfl
    · rfl
  | _ => exact Or.inl rfl

/-- The call submits nothing and, if it completes a job, passes a result. -/
def JobCall.ofWorker (call : JobCall) : Prop :=
  call.submission? = none ∧ ∀ j token ref now, call ≠ .complete j token ref none now

theorem DurableWorker.Execution.moves_jobs {s s' : Db} {e e' : Execution} {t : Option Datetime}
    (h : e.Moves s t e' s') :
    s' = s ∨ ∃ call : JobCall, call.ofWorker ∧ s' = SqliteJobRepository.step call s := by
  cases h with
  | read => exact Or.inl rfl
  | run outcome => exact Or.inl rfl
  | wake => exact Or.inl rfl
  | check => exact Or.inl rfl
  | finish => exact Or.inl rfl
  | settle now =>
    unfold Execution.settle
    cases hcall : e.settlement now with
    | none => exact Or.inl rfl
    | some call =>
      refine Or.inr ⟨call, ?_, rfl⟩
      unfold Execution.settlement at hcall
      split at hcall
      · cases hcall
        exact ⟨rfl, fun _ _ _ _ heq => by cases heq⟩
      · cases hcall
        exact ⟨rfl, fun _ _ _ _ heq => by cases heq⟩
      · cases hcall
        exact ⟨rfl, fun _ _ _ _ heq => by cases heq⟩
      all_goals cases hcall
  | beat leaseSeconds now =>
    unfold Execution.beat
    split
    · exact Or.inr ⟨.heartbeat e.jobId e.leaseToken leaseSeconds now, ⟨rfl, nofun⟩, rfl⟩
    · exact Or.inl rfl

/-- A step of a worker leaves the jobs, or makes one call on their store. -/
theorem DurableWorker.Fleet.worker_jobs {f : Fleet} (h : f.jobs.Inv) (i : ℕ) (action : WorkerAction) :
    (f.step (.worker i action)).jobs = f.jobs ∨
      ∃ call : JobCall, call.ofWorker ∧ (f.step (.worker i action)).jobs = SqliteJobRepository.step call f.jobs := by
  rcases f.step_change h (.worker i action) with ⟨c, hc, -⟩ | ⟨pre, post, xs, xs', -, -, hchange⟩
  · cases hc
  · generalize (f.step (.worker i action)).jobs = jobs at hchange
    cases hchange with
    | none => exact Or.inl rfl
    | reclaim now => exact Or.inr ⟨.reclaimExpired now, ⟨rfl, nofun⟩, rfl⟩
    | claim attemptId token workerId leaseSeconds now =>
      exact Or.inr ⟨.claim attemptId token workerId leaseSeconds now, ⟨rfl, nofun⟩, rfl⟩
    | move l r e e' _ hmoves => exact Execution.moves_jobs hmoves

/-! ## Runs -/

namespace Deployment

variable {host : Host} {reviewed : Prop} {configs : List WorkerConfig} {readings : ℕ → Reading} {d : Deployment}

/-- The jobs and the workers are a fleet whose other callers complete nothing. -/
def IsFleet (configs : List WorkerConfig) (d : Deployment) : Prop :=
  ∃ actions, (∀ c, .call c ∈ actions → c.completes = false) ∧ d.fleet = Fleet.run configs actions

/-- A step of the fleet. -/
theorem IsFleet.step (h : d.IsFleet configs) (action : FleetAction)
    (haction : ∀ c, action = .call c → c.completes = false)
    {d' : Deployment} (hfleet : d'.fleet = d.fleet.step action) : d'.IsFleet configs := by
  obtain ⟨actions, hcalls, hrun⟩ := h
  refine ⟨actions ++ [action], fun c hc => ?_, ?_⟩
  · rcases List.mem_append.mp hc with hc | hc
    · exact hcalls c hc
    · exact haction c (List.mem_singleton.mp hc).symm
  · rw [hfleet, hrun]
    exact (Machine.run_concat _ _ _ _).symm

/-- The stores are traced, and so is every request in progress. -/
structure Sound (host : Host) (reviewed : Prop) (d : Deployment) : Prop where
  world : d.service.world.Traced host reviewed
  threads : ∀ t ∈ d.service.threads, Traces host reviewed t.rest (fun _ _ => True) d.service.world

/-- The stores go on, and the requests with them. -/
theorem Sound.later (h : d.Sound host reviewed) {w : World} (hkept : d.service.world.Kept host reviewed w)
    {workers : List Worker} : Sound host reviewed ⟨⟨w, d.service.threads⟩, workers⟩ where
  world := hkept.traced
  threads t ht := (h.threads t ht).later fun _ => hkept

/-- A request makes its next call. -/
theorem Sound.advance (h : d.Sound host reviewed) (i : ℕ) :
    Sound host reviewed { d with service := d.service.advance host i } := by
  cases hi : d.service.threads[i]? with
  | none =>
    unfold Service.advance
    rw [hi]
    exact h
  | some t =>
    have hmem := List.mem_of_getElem? hi
    have hrest := h.threads t hmem
    rw [Service.advance_threads host hi]
    -- what the call does to the stores, and what is left of the request
    have hnext : d.service.world.Kept host reviewed (t.rest.advance (World.exec host) d.service.world).2 ∧
        Traces host reviewed (t.rest.advance (World.exec host) d.service.world).1 (fun _ _ => True)
          (t.rest.advance (World.exec host) d.service.world).2 := by
      cases hprog : t.rest with
      | pure a => exact ⟨h.world.kept, fun _ _ => trivial⟩
      | raise e => exact ⟨h.world.kept, trivial⟩
      | call call k =>
        rw [hprog] at hrest
        obtain ⟨hcall, hk⟩ := hrest d.service.world (World.Later.refl _)
        have hafter := h.world.exec call (hcall h.world)
        rw [Prog.advance]
        rcases hexec : World.exec host call d.service.world with ⟨e | a, w'⟩
        · rw [hexec] at hafter
          exact ⟨⟨hafter.1, hafter.2⟩, trivial⟩
        · rw [hexec] at hafter
          exact ⟨⟨hafter.1, hafter.2⟩, hk a w' ⟨h.world, hcall h.world, hexec⟩⟩
    refine ⟨hnext.1.traced, fun t' ht' => ?_⟩
    rcases List.mem_or_eq_of_mem_set ht' with hold | rfl
    · exact (h.threads t' hold).later fun _ => hnext.1
    · exact hnext.2

/-- The goals change, and keep what was planned. -/
theorem Sound.setGoals (h : d.Sound host reviewed) {goals : GoalDb} (hkeeps : d.goals.Keeps goals)
    (hrows : ∀ id r, goals.task? id = some r → d.goals.task? id = some r ∨
      r.jobId = none ∧ r.result = none ∧ r.status = .pending) : Sound host reviewed (d.setGoals goals) := by
  have hstep := h.world.goals_step _ hkeeps fun id r hr => ?_
  · exact h.later ⟨hstep.1, hstep.2⟩
  · rcases hrows id r hr with hold | ⟨hjob, hresult, hstatus⟩
    · exact h.world.rows id r hold
    · refine ⟨fun j hj => ?_, fun x hx => ?_, fun _ hdone => ?_⟩
      · rw [hjob] at hj
        cases hj
      · rw [hresult] at hx
        cases hx
      · rw [hstatus] at hdone
        cases hdone

/-- What a step asks of the others. -/
def Respects (reviewed : Prop) : DeploymentAction → Prop
  | .savePlan _ _ tasks _ _ => ∀ t ∈ tasks, t.status = .pending ∧ t.result = none
  | .arrive _ request => request.isReview = true → reviewed
  | .call jobCall =>
    (∀ c, jobCall.submission? = some c → ∀ taskId, ¬ TaskKey taskId c.key) ∧ jobCall.completes = false
  | _ => True

theorem Sound.step (h : d.Sound host reviewed) {action : DeploymentAction} (haction : Respects reviewed action) :
    (d.step host action).Sound host reviewed := by
  cases action with
  | createGoal goal =>
    rw [Deployment.step]
    cases hcreate : GoalStore.createGoal goal d.goals with
    | error e => exact h
    | ok goals =>
      obtain ⟨hkeeps, htasks⟩ := createGoal_keeps hcreate
      refine h.setGoals hkeeps fun id r hr => Or.inl ?_
      unfold GoalDb.task? at hr ⊢
      rw [← htasks]
      exact hr
  | savePlan goalId projects tasks planConfidence gated =>
    obtain ⟨hkeeps, hrows⟩ := savePlan_keeps goalId projects tasks planConfidence gated d.goals
    refine h.setGoals hkeeps fun id r hr => ?_
    obtain ⟨hmem, hid⟩ := GoalDb.task?_eq_some.mp hr
    rcases hrows r hmem with hold | ⟨t, ht, n, rfl⟩
    · exact Or.inl (GoalDb.task?_eq_some.mpr ⟨hold, hid⟩)
    · obtain ⟨hstatus, hresult⟩ := haction t ht
      exact Or.inr ⟨rfl, hresult, hstatus⟩
  | arrive c request =>
    refine ⟨h.world, fun t ht => ?_⟩
    rcases List.mem_append.mp ht with hold | hnew
    · exact h.threads t hold
    · rw [List.mem_singleton.mp hnew]
      exact (traces_request c request haction h.world).mono fun _ _ _ => trivial
  | advance i => exact h.advance i
  | worker i action =>
    rcases d.fleet.worker_jobs h.world.inv i action with hsame | ⟨call, ⟨hnone, hcall⟩, hjobs⟩
    · have hkept : d.service.world.Kept host reviewed
          { d.service.world with jobs := (d.fleet.step (.worker i action)).jobs } := by
        rw [hsame]
        exact h.world.kept
      exact h.later hkept
    · have hstep := h.world.jobs_step call (fun c hc => by rw [hnone] at hc; cases hc) hcall
      have hkept : d.service.world.Kept host reviewed
          { d.service.world with jobs := (d.fleet.step (.worker i action)).jobs } := by
        rw [hjobs]
        exact ⟨hstep.1, hstep.2⟩
      exact h.later hkept
  | call call =>
    obtain ⟨hkeys, hcompletes⟩ := haction
    have hstep := h.world.jobs_step call (fun c hc taskId htask => absurd htask (hkeys c hc taskId))
      fun j token ref now heq => by
        rw [heq] at hcompletes
        cases hcompletes
    exact h.later ⟨hstep.1, hstep.2⟩

theorem IsFleet.of_step (h : d.IsFleet configs) {action : DeploymentAction}
    (haction : Respects reviewed action) : (d.step host action).IsFleet configs := by
  have hsame : ∀ {d' : Deployment}, d'.fleet = d.fleet → d'.IsFleet configs := by
    intro d' heq
    unfold IsFleet
    rw [heq]
    exact h
  cases action with
  | createGoal goal =>
    rw [Deployment.step]
    split
    · exact h
    · exact hsame rfl
  | savePlan goalId projects tasks planConfidence gated => exact hsame rfl
  | arrive c request => exact hsame rfl
  | worker i action => exact h.step (.worker i action) (fun _ hc => by cases hc) rfl
  | call call =>
    refine h.step (.call call) (fun c hc => ?_) rfl
    cases hc
    exact haction.2
  | advance i =>
    cases hi : d.service.threads[i]? with
    | none =>
      refine hsame ?_
      rw [Deployment.step, Service.advance, hi]
    | some t =>
      rw [Deployment.step, Service.advance_threads host hi]
      rcases advance_state (World.exec host) t.rest d.service.world with heq | ⟨call, -, heq⟩
      · refine hsame ?_
        unfold fleet
        rw [heq]
      · rcases exec_jobs_cases host call d.service.world with hjobs | ⟨c, hc, hjobs⟩
        · refine hsame ?_
          unfold fleet
          rw [heq, hjobs]
        · refine h.step (.call c) (fun c' hc' => ?_) ?_
          · cases hc'
            exact hc
          · unfold fleet
            rw [heq, hjobs]
            rfl

theorem Respects.of_exclusive {actions : List DeploymentAction} (h : Exclusive actions) {action : DeploymentAction}
    (hmem : action ∈ actions) :
    Respects (∃ c request, .arrive c request ∈ actions ∧ request.isReview = true) action := by
  cases action with
  | savePlan goalId projects tasks planConfidence gated => exact h.planned _ _ _ _ _ hmem
  | arrive c request => exact fun hreview => ⟨c, request, hmem, hreview⟩
  | call call => exact ⟨h.keys call hmem, h.completions call hmem⟩
  | _ => trivial

theorem traced_start (configs : List WorkerConfig) (readings : ℕ → Reading) :
    (start configs readings).Sound host reviewed := by
  have hworld : (start configs readings).service.world = { goals := GoalDb.empty, jobs := Db.empty, readings } := rfl
  have hthreads : (start configs readings).service.threads = [] := rfl
  refine ⟨?_, fun t ht => ?_⟩
  · rw [hworld]
    refine ⟨Db.empty_inv, fun j hdone => ?_, fun k hk => absurd hk List.not_mem_nil, fun id r hr => ?_⟩
    · cases hdone
    · cases hr
  · rw [hthreads] at ht
    cases ht

theorem isFleet_start (configs : List WorkerConfig) (readings : ℕ → Reading) :
    (start configs readings).IsFleet configs :=
  ⟨[], fun _ hc => absurd hc List.not_mem_nil, rfl⟩

/-- What holds of every deployment whose others keep to their part. -/
theorem run_sound (host : Host) (configs : List WorkerConfig) (readings : ℕ → Reading)
    (actions : List DeploymentAction) (h : ∀ action ∈ actions, Respects reviewed action) :
    (run host configs readings actions).Sound host reviewed ∧ (run host configs readings actions).IsFleet configs := by
  have hstart : (start configs readings).Sound host reviewed ∧ (start configs readings).IsFleet configs :=
    ⟨traced_start configs readings, isFleet_start configs readings⟩
  have halong : Machine.Along (step host) (fun action _ => Respects reviewed action) actions (start configs readings) :=
    .of_forall (fun action haction _ => h action haction) _
  refine (Machine.Along.invariant (I := fun d : Deployment => d.Sound host reviewed ∧ d.IsFleet configs)
    (fun action d hd haction => ?_) hstart halong).2
  exact ⟨hd.1.step haction, hd.2.of_step haction⟩

/-- A job that completed has one execution. -/
theorem IsFleet.ran (h : d.IsFleet configs) {contract : TaskContract} {result : PyDict}
    (hran : d.service.world.jobs.Ran contract result) : d.Ran contract result := by
  obtain ⟨actions, hcalls, hrun⟩ := h
  obtain ⟨j, htask, hdone, hresult⟩ := hran
  obtain ⟨-, heffective, hone⟩ := fleet_effectivelyOnce configs actions j
  rw [← hrun] at heffective hone
  have hcount := hone hcalls hdone
  have hpos : 0 < d.fleet.executions.countP (·.completes j) := by omega
  obtain ⟨e, he, hcompletes⟩ := List.countP_pos_iff.mp hpos
  unfold Execution.completes at hcompletes
  split at hcompletes
  · next returned hphase =>
    have hj : e.jobId = j := of_decide_eq_true hcompletes
    have heff := heffective e he returned hphase
    obtain ⟨task, hget, hgiven⟩ := heff.task
    obtain ⟨serialized, hdumps, hstored⟩ := heff.result
    rw [hj] at hget hstored
    have htask' : task = contract := Option.some.inj (hget.symm.trans htask)
    have hresult' : serialized = result := Option.some.inj (hstored.symm.trans hresult)
    subst htask' hresult'
    exact ⟨e, he, returned, hphase, hdumps, hgiven, by rw [hj]; exact hcount⟩
  · cases hcompletes

end Deployment

/-- Where results come from. Whatever requests, workers and other callers do, in any interleaving, as long as plans come
without results, and only coordinators enqueue under the keys of tasks, and only workers complete jobs: each result that
is stored of a task was returned by exactly one execution, of a contract that was made for the task from its plan, the
terms of its goal, and results that came about in the same way. Unless a reviewer decides too, a task is complete only
on such a result, one that reaches the threshold of the goal. -/
theorem deployment_lineage (host : Host) (configs : List WorkerConfig) (readings : ℕ → Reading)
    (actions : List DeploymentAction) (h : Deployment.Exclusive actions) :
    (∀ row ∈ (Deployment.run host configs readings actions).goals.tasks, ∀ x, row.result = some x →
      ∃ result, x = taskResult result ∧ Yielded (Deployment.run host configs readings actions).goals
        (Deployment.run host configs readings actions).Ran row.taskId result) ∧
    ((∀ c request, .arrive c request ∈ actions → request.isReview = false) →
      ∀ row ∈ (Deployment.run host configs readings actions).goals.tasks, row.status = .complete →
        row.Earned host (Deployment.run host configs readings actions).goals
          (Deployment.run host configs readings actions).Ran) := by
  obtain ⟨hsound, hfleet⟩ := Deployment.run_sound host configs readings actions fun action haction =>
    Deployment.Respects.of_exclusive h haction
  refine ⟨fun row hrow x hx => ?_, fun hreview row hrow hdone => ?_⟩
  · obtain ⟨result, hx, hyields⟩ := (hsound.world.rows _ row (GoalDb.task?_eq_some.mpr ⟨hrow, rfl⟩)).result x hx
    exact ⟨result, hx, hyields.mono (.refl _) fun _ _ => hfleet.ran⟩
  · have htraced := hsound.world.rows _ row (GoalDb.task?_eq_some.mpr ⟨hrow, rfl⟩)
    have hearned := htraced.complete (fun ⟨c, request, harrive, hr⟩ => ?_) hdone
    · obtain ⟨result, goal, hyields, hrest⟩ := hearned
      exact ⟨result, goal, hyields.mono (.refl _) fun _ _ => hfleet.ran, hrest⟩
    · rw [hreview c request harrive] at hr
      cases hr

/-- A plan of two tasks is started; a worker completes the job of the first, and the goal is reconciled. -/
def firstEarned : List DeploymentAction :=
  .createGoal (chainGoal (.finite (1 / 2))) ::
    .savePlan 1 [⟨9, 1, "page", ""⟩] chainTasks (.finite 1) false ::
    .arrive Service.defaultLimits (.start 1 "api") :: List.replicate 24 (.advance 0) ++
  [.worker 0 .beginCycle, .worker 0 (.leaveHook false), .worker 0 (.reclaim (.ofMicros 200)),
    .worker 0 (.claim 300 301 (.ofMicros 201)), .worker 0 (.read 0), .worker 0 (.run 0 (.returned goodResult)),
    .worker 0 (.settle 0 (.ofMicros 202)),
    .arrive Service.defaultLimits (.reconcile 1)] ++ List.replicate 24 (.advance 1)

/-- The deployment after these steps. -/
def earnedDeployment : Deployment :=
  Deployment.run Service.plainHost oneWorker (fun n => ⟨BitVec.ofNat 128 (100 + n), .ofMicros (100 + n)⟩) firstEarned

/-- The first task of the plan is complete, on the result of that execution. -/
theorem earnedDeployment_earned :
    ∃ row ∈ earnedDeployment.goals.tasks, row.taskId = 2 ∧ row.status = .complete ∧
      row.Earned Service.plainHost earnedDeployment.goals earnedDeployment.Ran := by
  have hnoCall : ∀ call, .call call ∉ firstEarned := by
    intro call hmem
    simp only [firstEarned, List.cons_append, List.mem_cons, List.mem_append, List.mem_replicate, reduceCtorEq,
      List.not_mem_nil, and_false, or_self] at hmem
  have hexclusive : Deployment.Exclusive firstEarned := by
    refine ⟨fun goalId projects tasks planConfidence gated hmem => ?_, fun call hmem => absurd hmem (hnoCall call),
      fun call hmem => absurd hmem (hnoCall call)⟩
    simp only [firstEarned, List.cons_append, List.mem_cons, List.mem_append, List.mem_replicate, reduceCtorEq,
      List.not_mem_nil, and_false, or_false, false_or, DeploymentAction.savePlan.injEq] at hmem
    rw [hmem.2.2.1]
    decide
  have hnoReview : ∀ c request, .arrive c request ∈ firstEarned → request.isReview = false := by
    intro c request hmem
    simp only [firstEarned, List.cons_append, List.mem_cons, List.mem_append, List.mem_replicate, reduceCtorEq,
      List.not_mem_nil, and_false, or_false, false_or, DeploymentAction.arrive.injEq] at hmem
    rcases hmem with ⟨-, rfl⟩ | ⟨-, rfl⟩ <;> rfl
  have hdone : earnedDeployment.goals.tasks.any (fun row =>
      decide (row.taskId = 2 ∧ row.status = .complete)) = true := by decide +kernel
  have hearned := (deployment_lineage Service.plainHost oneWorker
    (fun n => ⟨BitVec.ofNat 128 (100 + n), .ofMicros (100 + n)⟩) firstEarned hexclusive).2 hnoReview
  obtain ⟨row, hmem, hrow⟩ := List.any_eq_true.mp hdone
  rw [decide_eq_true_eq] at hrow
  exact ⟨row, hmem, hrow.1, hrow.2, hearned row hmem hrow.2⟩

end Galaxz
