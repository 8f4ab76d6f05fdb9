import Galaxz.Goals.Guarantees
import Galaxz.Goals.Proofs.RerunProofs
import Galaxz.Goals.Proofs.SubstitutionProofs

/-!
# Proofs: the limits of the coordinator

A job of a goal comes into flight with a new key only, so between two of its listings `reconcile` adds as many as it
enqueues: no more than slots are free, and no more than tasks wait.
-/

namespace Galaxz

open DurableGoalCoordinator SqliteJobRepository GoalStore Prog

/-! ## Jobs in flight -/

section Jobs

variable {s : Db}

theorem inFlight_of_step (h : s.Inv) (call : JobCall) {k : IdempotencyRow} (hk : k ∈ s.idempotency)
    (hafter : (step call s).inFlight k = true) : s.inFlight k = true := by
  have hsome : (s.job? k.jobId).isSome = true := (h.isSome_job? k.jobId).mpr (List.mem_map_of_mem hk)
  obtain ⟨row, hrow⟩ := Option.isSome_iff_exists.mp hsome
  by_cases hover : row.status.terminal = true
  · rw [Db.inFlight, step_job?_of_over h call hrow hover] at hafter
    simp [hover] at hafter
  · rw [Db.inFlight, hrow]
    simpa using hover

theorem goalJobs_le_of_keys (h : s.Inv) (call : JobCall) (hkeys : (step call s).idempotency = s.idempotency) :
    (step call s).goalJobs ≤ s.goalJobs := by
  unfold Db.goalJobs
  rw [hkeys]
  refine List.countP_mono_left fun k hk hin => ?_
  rw [Bool.and_eq_true] at hin ⊢
  exact ⟨hin.1, inFlight_of_step h call hk hin.2⟩

/-- Calls that submit nothing bring no job into flight. -/
theorem goalJobs_step_le (h : s.Inv) {call : JobCall} (hcall : call.submission? = none) :
    (step call s).goalJobs ≤ s.goalJobs := by
  rcases step_submitted h call with ⟨hkeys, -⟩ | ⟨c, hc, -⟩
  · exact goalJobs_le_of_keys h call hkeys
  · rw [hcall] at hc
    cases hc

/-- A submission brings one job into flight at most, and none if a job has its key. -/
theorem goalJobs_submit_le (h : s.Inv) (c : Submission) :
    (step c.call s).goalJobs ≤ s.goalJobs ∨
      s.hasKey c.key = false ∧ (step c.call s).goalJobs ≤ s.goalJobs + 1 := by
  rcases step_submitted h c.call with ⟨hkeys, -⟩ | ⟨c', hc', hfresh, hkeys, -⟩
  · exact Or.inl (goalJobs_le_of_keys h c.call hkeys)
  · obtain rfl : c = c' := Option.some.inj hc'
    right
    constructor
    · unfold Db.hasKey
      rw [List.any_eq_false]
      intro k hk
      simpa using hfresh k hk
    · unfold Db.goalJobs
      rw [hkeys, List.countP_append]
      have hold : s.idempotency.countP (fun k => k.ofGoal && (step c.call s).inFlight k) ≤ s.goalJobs := by
        refine List.countP_mono_left fun k hk hin => ?_
        rw [Bool.and_eq_true] at hin ⊢
        exact ⟨hin.1, inFlight_of_step h c.call hk hin.2⟩
      have hnew := List.countP_le_length (l := [(⟨c.key, c.jobId, c.now⟩ : IdempotencyRow)])
        (p := fun k => k.ofGoal && (step c.call s).inFlight k)
      unfold Db.goalJobs at hold
      rw [List.length_singleton] at hnew
      omega

/-- No call takes a key away. -/
theorem hasKey_step (h : s.Inv) (call : JobCall) {key : String} (hkey : s.hasKey key = true) :
    (step call s).hasKey key = true := by
  unfold Db.hasKey at hkey ⊢
  rw [List.any_eq_true] at hkey ⊢
  obtain ⟨k, hk, heq⟩ := hkey
  exact ⟨k, step_key_mem h call hk, heq⟩

end Jobs

/-! ## Calls that add no job -/

variable {c : DurableGoalCoordinator} {host : Host} {goalId : Uuid} {goal : GoalContract} {w w' : World}

/-- The call leaves the job store as it is. -/
def StoreCall.SparesJobs : StoreCall → Prop
  | .enqueue _ _ _ => False
  | .cancelJob _ => False
  | _ => True

theorem exec_sparesJobs {call : StoreCall} (hcall : call.SparesJobs) (w : World) :
    (World.exec host call w).2.jobs = w.jobs := by
  cases call with
  | enqueue taskId task key => exact hcall.elim
  | cancelJob jobId => exact hcall.elim
  | updateTask taskId update =>
    rw [World.exec]
    split
    · rfl
    · rfl
  | _ => rfl

theorem jobs_of_spares {call : StoreCall} {answer : Except PyError call.Answer}
    (hexec : World.exec host call w = (answer, w')) (hcall : call.SparesJobs) : w'.jobs = w.jobs := by
  have hsame : (World.exec host call w).2.jobs = w.jobs := exec_sparesJobs hcall w
  rw [hexec] at hsame
  exact hsame

/-- The submission that an `enqueue` call makes. -/
def World.submission (w : World) (taskId : Uuid) (contract : TaskContract) (key : String) : Submission :=
  ⟨(w.readings 0).id, taskId, some contract, key, 0, none, (w.readings 0).now⟩

theorem exec_enqueue_jobs (taskId : Uuid) (contract : TaskContract) (key : String) (w : World) :
    (World.exec host (.enqueue taskId contract key) w).2.jobs = step (w.submission taskId contract key).call w.jobs :=
  rfl

/-- The job store is sound, and no more jobs of goals are in flight than the limit allows. -/
def InLimit (c : DurableGoalCoordinator) (w : World) : Prop := w.jobs.Inv ∧ (w.jobs.goalJobs : ℤ) ≤ c.globalLimit

/-- The call is made within the limit, and keeps it. -/
def KeepsInLimit (c : DurableGoalCoordinator) (host : Host) (call : StoreCall) (w : World) : Prop :=
  InLimit c w ∧ InLimit c (World.exec host call w).2

theorem keepsInLimit_of_spares {call : StoreCall} (hcall : call.SparesJobs) (h : InLimit c w) :
    KeepsInLimit c host call w := by
  refine ⟨h, ?_⟩
  unfold InLimit
  rw [exec_sparesJobs hcall]
  exact h

/-- The rule for a program that adds no job. -/
theorem meets_inLimit {α : Type} {p : Coord α} {Q : α → World → Prop}
    (hp : Meets (World.exec host) (fun call _ => call.SparesJobs) p Q w) (h : InLimit c w) :
    Meets (World.exec host) (KeepsInLimit c host) p (fun _ w' => InLimit c w') w := by
  have hstep : ∀ call w, StoreCall.SparesJobs call → InLimit c w → InLimit c (World.exec host call w).2 :=
    fun _ _ hcall h => (keepsInLimit_of_spares hcall h).2
  exact ((hp.keep hstep h).weaken fun _ _ hcall => keepsInLimit_of_spares hcall.1 hcall.2).mono fun _ _ h => h.2

section Spares

variable (host)

/-- The program leaves the job store as it is. -/
def Spares {α : Type} (p : Coord α) : Prop :=
  ∀ w, Meets (World.exec host) (fun call _ => call.SparesJobs) p (fun _ _ => True) w

variable {host}

theorem Spares.of_always {α : Type} {p : Coord α}
    (h : p.Always (fun _ _ => True) StoreCall.SparesJobs fun _ => True) : Spares host p :=
  h.meets fun _ _ _ _ _ => trivial

theorem Spares.call {β : Type} {call : StoreCall} {f : call.Answer → Coord β} (hcall : call.SparesJobs)
    (hf : ∀ a, Spares host (f a)) : Spares host (Prog.call call .pure >>= f) :=
  fun _ => Meets.call hcall fun a w' _ => hf a w'

theorem Spares.pure {α : Type} (a : α) : Spares host (Prog.pure a) := fun _ => trivial

theorem StoreCall.IsRead.sparesJobs {call : StoreCall} (h : call.IsRead) : call.SparesJobs := by
  cases call with
  | enqueue taskId task key => cases h
  | cancelJob jobId => cases h
  | _ => trivial

theorem spares_settle (tasks : List PlannedTask) : Spares host (settle goal goalId tasks) :=
  .of_always (always_settle (fun _ h => h.sparesJobs) (fun _ _ _ => trivial) trivial goal tasks)

theorem spares_blockLoop (tasks : List PlannedTask) (fuel : ℕ) (failed : List Uuid) :
    Spares host (blockLoop tasks fuel failed) :=
  .of_always (always_blockLoop (fun _ _ _ => trivial) fuel failed)

theorem spares_finish (goalId : Uuid) : Spares host (finish goalId) := by
  refine Spares.call trivial fun tasks => ?_
  split_ifs
  · exact Spares.call trivial fun _ => Spares.call trivial fun _ => .pure ()
  · exact Spares.call trivial fun _ => .pure ()
  · exact .pure ()

end Spares

/-! ## Tasks that wait for a slot -/

/-- The task waits for a slot only, as the jobs are. -/
def WaitsForSlot (goalId : Uuid) (tasks : List PlannedTask) (s : Db) (t : PlannedTask) : Bool :=
  t.status = .pending && dependenciesComplete tasks t.dependsOn = .ok true && (resolvePayload t tasks).isOk &&
    !s.hasKey (key goalId t.taskId)

theorem waiting_eq {tasks : List PlannedTask} (h : getTasks host w.goals goalId = .ok tasks) :
    w.waiting host goalId = tasks.filter (WaitsForSlot goalId tasks w.jobs) := by
  unfold World.waiting
  rw [h]
  rfl

theorem byId_of_mem {tasks : List PlannedTask} (hnodup : (tasks.map (·.taskId)).Nodup) {t : PlannedTask}
    (ht : t ∈ tasks) : byId tasks t.taskId = some t := by
  unfold byId
  cases hfind : tasks.reverse.find? (·.taskId = t.taskId) with
  | none =>
    have hnone := List.find?_eq_none.mp hfind t (List.mem_reverse.mpr ht)
    simp at hnone
  | some t' =>
    have hmem := List.mem_reverse.mp (List.mem_of_find?_eq_some hfind)
    have hid : t'.taskId = t.taskId := by simpa using List.find?_some hfind
    rw [List.inj_on_of_nodup_map hnodup hmem ht hid]

theorem dependenciesComplete_of {tasks : List PlannedTask} {deps : List Uuid}
    (h : ∀ dep ∈ deps, ∃ d, byId tasks dep = some d ∧ d.status = .complete) :
    dependenciesComplete tasks deps = .ok true := by
  induction deps with
  | nil => rfl
  | cons dep deps ih =>
    obtain ⟨d, hd, hstatus⟩ := h dep List.mem_cons_self
    rw [dependenciesComplete, hd]
    dsimp only
    rw [if_pos hstatus]
    exact ih fun x hx => h x (List.mem_cons_of_mem _ hx)

/-- The two snapshots agree on the dependencies that are complete in the first. -/
def SamePending (before tasks : List PlannedTask) : Prop :=
  ∀ d ∈ before, d.status = .complete → byId before d.taskId = some d ∧ byId tasks d.taskId = some d

theorem SamePending.dependenciesComplete {before tasks : List PlannedTask} (h : SamePending before tasks) {t : PlannedTask}
    (hdone : dependenciesComplete before t.dependsOn = .ok true) :
    DurableGoalCoordinator.dependenciesComplete tasks t.dependsOn = .ok true ∧
      resolvePayload t before = resolvePayload t tasks := by
  constructor
  · refine dependenciesComplete_of fun dep hdep => ?_
    obtain ⟨d, hd, rfl, hstatus⟩ := dependenciesComplete_ok hdone dep hdep
    exact ⟨d, (h d hd hstatus).2, hstatus⟩
  · refine resolvePayload_congr (fun dep hdep => ?_) _
    obtain ⟨d, hd, rfl, hstatus⟩ := dependenciesComplete_ok hdone dep hdep
    unfold resultOf
    rw [(h d hd hstatus).1, (h d hd hstatus).2]

theorem samePending_of_blockInv {before tasks : List PlannedTask} {failed : List Uuid}
    (hnodup : (before.map (·.taskId)).Nodup) (h : BlockInv host goalId before failed w)
    (htasks : getTasks host w.goals goalId = .ok tasks) : SamePending before tasks := by
  intro d hd hstatus
  refine ⟨byId_of_mem hnodup hd, ?_⟩
  have hne : d.status ≠ .pending := by
    rw [hstatus]
    simp
  obtain ⟨r, hr, hgoal, hread⟩ := h.shows d hd (Or.inr hne)
  obtain ⟨t, ht, hread'⟩ := getTasks_mem htasks (GoalDb.task?_eq_some.mp hr).1 hgoal
  obtain rfl : d = t := Except.ok.inj (hread.symm.trans hread')
  exact byId_of_mem (getTasks_nodup htasks) ht

/-! ## The scheduling loop -/

/-- What the scheduling loop keeps: no more tasks wait than jobs are allowed, or no more slots are free. -/
structure RoomInv (c : DurableGoalCoordinator) (goalId : Uuid) (all tasks : List PlannedTask) (slots : ℤ)
    (w : World) : Prop where
  inLimit : InLimit c w
  room : w.jobs.goalJobs + (tasks.countP (WaitsForSlot goalId all w.jobs) : ℤ) ≤ c.globalLimit ∨
    w.jobs.goalJobs + slots ≤ c.globalLimit

section Dispatch

variable {all tasks : List PlannedTask} {task : PlannedTask} {slots : ℤ}

theorem countP_waits_step {s : Db} (h : s.Inv) (call : JobCall) :
    tasks.countP (WaitsForSlot goalId all (step call s)) ≤ tasks.countP (WaitsForSlot goalId all s) := by
  refine List.countP_mono_left fun t _ hwaits => ?_
  unfold WaitsForSlot at hwaits ⊢
  rw [Bool.and_eq_true] at hwaits ⊢
  refine ⟨hwaits.1, ?_⟩
  cases hkey : s.hasKey (key goalId t.taskId) with
  | false => rfl
  | true =>
    rw [hasKey_step h call hkey] at hwaits
    simp at hwaits

theorem RoomInv.skip (h : RoomInv c goalId all (task :: tasks) slots w) (hjobs : w'.jobs = w.jobs) :
    RoomInv c goalId all tasks slots w' := by
  have hcount : tasks.countP (WaitsForSlot goalId all w.jobs) ≤ (task :: tasks).countP (WaitsForSlot goalId all w.jobs) := by
    rw [List.countP_cons]
    omega
  refine ⟨?_, ?_⟩
  · unfold InLimit
    rw [hjobs]
    exact h.inLimit
  · rw [hjobs]
    rcases h.room with hroom | hroom
    · left
      omega
    · exact Or.inr hroom

/-- A task that waits is enqueued while a slot is free. -/
theorem RoomInv.enqueue (h : RoomInv c goalId all (task :: tasks) slots w) (hslots : 0 < slots)
    (hpending : task.status = .pending) (hdone : dependenciesComplete all task.dependsOn = .ok true)
    (hpayload : (resolvePayload task all).isOk = true) {sub : Submission} (hkey : sub.key = key goalId task.taskId)
    (hjobs : w'.jobs = step sub.call w.jobs) : RoomInv c goalId all tasks (slots - 1) w' := by
  have hinv := h.inLimit.1
  have hlimit := h.inLimit.2
  have hinv' : w'.jobs.Inv := by
    rw [hjobs]
    exact step_inv sub.call w.jobs hinv
  have hrest : tasks.countP (WaitsForSlot goalId all w'.jobs) ≤ tasks.countP (WaitsForSlot goalId all w.jobs) := by
    rw [hjobs]
    exact countP_waits_step hinv sub.call
  have hcount : (task :: tasks).countP (WaitsForSlot goalId all w.jobs) =
      tasks.countP (WaitsForSlot goalId all w.jobs) + if WaitsForSlot goalId all w.jobs task then 1 else 0 := List.countP_cons
  rcases goalJobs_submit_le hinv sub with hle | ⟨hnew, hle⟩
  · -- the job is there, and is no new one
    rw [← hjobs] at hle
    refine ⟨⟨hinv', by omega⟩, ?_⟩
    rcases h.room with hroom | hroom
    · left
      omega
    · right
      omega
  · -- the task waits no longer
    rw [← hjobs] at hle
    have hwaits : WaitsForSlot goalId all w.jobs task = true := by
      rw [hkey] at hnew
      simp [WaitsForSlot, hpending, hdone, hpayload, hnew]
    rw [hwaits, if_pos rfl] at hcount
    refine ⟨⟨hinv', ?_⟩, ?_⟩
    · rcases h.room with hroom | hroom
      · omega
      · omega
    · rcases h.room with hroom | hroom
      · left
        omega
      · right
        omega

theorem meets_dispatch_inLimit {before : List PlannedTask} (hsame : SamePending before all)
    (h : RoomInv c goalId all tasks slots w) :
    Meets (World.exec host) (KeepsInLimit c host) (dispatch goal goalId before slots tasks)
      (fun _ w' => InLimit c w') w := by
  induction tasks generalizing w slots with
  | nil => exact h.inLimit
  | cons task tasks ih =>
    rw [dispatch]
    split_ifs with hslots hpending
    · exact h.inLimit
    · exact ih (h.skip rfl)
    · rw [not_not] at hpending
      split
      · trivial
      · exact ih (h.skip rfl)
      · next hcomplete =>
        obtain ⟨hdone, hresolve⟩ := hsame.dependenciesComplete hcomplete
        split
        · exact Meets.call (keepsInLimit_of_spares trivial h.inLimit) fun a w' hexec =>
            ih (h.skip (jobs_of_spares hexec trivial))
        · trivial
        · next payload hpayload =>
          split
          · trivial
          · next contract hcontract =>
            have hroom : ∀ w₁ : World, w₁ = (World.exec host (.enqueue contract.taskId contract
                (key goalId task.taskId)) w).2 → RoomInv c goalId all tasks (slots - 1) w₁ := by
              intro w₁ heq
              have hjobs : w₁.jobs =
                  step (w.submission contract.taskId contract (key goalId task.taskId)).call w.jobs := by
                rw [heq]
                exact exec_enqueue_jobs _ _ _ w
              refine h.enqueue (not_le.mp hslots) hpending hdone ?_ ?_ hjobs
              · rw [← hresolve, hpayload]
                rfl
              · exact strip_key goalId task.taskId
            refine Meets.call ⟨h.inLimit, (hroom _ rfl).inLimit⟩ fun job w₁ hexec₁ => ?_
            have hroom₁ := hroom w₁ (Prod.mk.inj hexec₁).2.symm
            refine Meets.call (keepsInLimit_of_spares trivial hroom₁.inLimit) fun a w₂ hexec₂ => ih ?_
            have hjobs₂ : w₂.jobs = w₁.jobs := jobs_of_spares hexec₂ trivial
            refine ⟨?_, ?_⟩
            · unfold InLimit
              rw [hjobs₂]
              exact hroom₁.inLimit
            · rw [hjobs₂]
              exact hroom₁.room

end Dispatch

/-- There is room when the jobs are listed. -/
def ListsWithRoom (c : DurableGoalCoordinator) (host : Host) (goalId : Uuid) (call : StoreCall) (w : World) : Prop :=
  call = .listJobs 500 → w.HasRoom c host goalId

/-- Room for the tasks that wait is room for the slots, or for the tasks. -/
theorem roomInv_of_hasRoom (h : InLimit c w) (hroom : w.HasRoom c host goalId) {tasks : List PlannedTask}
    (htasks : getTasks host w.goals goalId = .ok tasks) {jobs : List Job}
    (hjobs : listJobs w.jobs 500 = .ok jobs) : RoomInv c goalId tasks tasks (c.slots tasks jobs) w := by
  refine ⟨h, ?_⟩
  have hgoal : c.slots tasks jobs ≤ c.perGoalLimit - w.goals.runningCount goalId := by
    rw [← getTasks_runningCount htasks]
    exact min_le_left _ _
  have hall : c.slots tasks jobs ≤ c.globalLimit - w.shownRunning := by
    unfold World.shownRunning
    rw [hjobs]
    exact min_le_right _ _
  rcases hroom with hroom | hroom | hroom
  · left
    rw [List.countP_eq_length_filter, ← waiting_eq htasks]
    exact hroom
  · right
    omega
  · right
    omega

theorem meets_schedule_inLimit (h : InLimit c w)
    (hroom : Meets (World.exec host) (ListsWithRoom c host goalId) (c.schedule goal goalId) (fun _ _ => True) w) :
    Meets (World.exec host) (KeepsInLimit c host) (c.schedule goal goalId) (fun _ w' => InLimit c w') w := by
  refine meets_read (keepsInLimit_of_spares trivial h) trivial fun before hbefore => ?_
  have hnodup := getTasks_nodup hbefore
  have hafter := hroom.2 before w (Prod.ext hbefore (World.exec_read w trivial))
  have hloop : Meets (World.exec host) (ReconcileMove c goalId)
      (blockLoop before (before.length + 1) (failedIds before)) _ w :=
    meets_blockLoop c hnodup (before.length + 1) (blockInv_start (getTasks_shows hbefore))
  have hblock := hloop.and (Meets.of_bind hafter)
  have hspares : Meets (World.exec host) (KeepsInLimit c host) _ (fun _ w' => InLimit c w') w :=
    meets_inLimit (spares_blockLoop before (before.length + 1) (failedIds before) w) h
  refine Meets.bind ((hspares.and hblock).weaken fun _ _ h => h.1) ?_
  rintro - w₁ ⟨h₁, ⟨failed, hinv⟩, hroom₁⟩
  refine meets_read (keepsInLimit_of_spares trivial h₁) trivial fun tasks htasks => ?_
  refine meets_read (keepsInLimit_of_spares trivial h₁) trivial fun jobs hjobs => ?_
  have hlist := (hroom₁.2 tasks w₁ (Prod.ext htasks (World.exec_read w₁ trivial))).1 rfl
  refine Meets.bind (meets_dispatch_inLimit (samePending_of_blockInv hnodup hinv htasks)
    (roomInv_of_hasRoom h₁ hlist htasks hjobs)) fun _ w₂ h₂ => ?_
  exact meets_inLimit (spares_finish goalId w₂) h₂

theorem meets_reconcile_inLimit (h : InLimit c w)
    (hroom : Meets (World.exec host) (ListsWithRoom c host goalId) (c.reconcile goalId) (fun _ _ => True) w) :
    Meets (World.exec host) (KeepsInLimit c host) (c.reconcile goalId) (fun _ w' => InLimit c w') w := by
  refine meets_read (keepsInLimit_of_spares trivial h) trivial fun goal hgoal => ?_
  have hafter := hroom.2 goal w (Prod.ext hgoal (World.exec_read w trivial))
  rcases goal with _ | goal
  · exact h
  · change Meets _ _ (if _ then _ else _) _ _ at hafter
    dsimp only
    split_ifs at hafter ⊢
    · exact h
    · refine meets_read (keepsInLimit_of_spares trivial h) trivial fun tasks htasks => ?_
      have hrest : Meets (World.exec host) (ListsWithRoom c host goalId)
          (settle goal goalId tasks >>= fun stop => if stop then Pure.pure () else c.schedule goal goalId)
          (fun _ _ => True) w := hafter.2 tasks w (Prod.ext htasks (World.exec_read w trivial))
      have hspares : Meets (World.exec host) (KeepsInLimit c host) (settle goal goalId tasks)
          (fun _ w' => InLimit c w') w := meets_inLimit (spares_settle tasks w) h
      refine Meets.bind ((hspares.and (Meets.of_bind hrest)).weaken fun _ _ h => h.1) ?_
      rintro stop w₁ ⟨h₁, hroom₁⟩
      cases stop with
      | true => exact h₁
      | false => exact meets_schedule_inLimit h₁ hroom₁

theorem meets_start_inLimit (actor : String) (h : InLimit c w)
    (hroom : Meets (World.exec host) (ListsWithRoom c host goalId) (c.start goalId actor) (fun _ _ => True) w) :
    Meets (World.exec host) (KeepsInLimit c host) (c.start goalId actor) (fun _ w' => InLimit c w') w := by
  refine meets_read (keepsInLimit_of_spares trivial h) trivial fun goal hgoal => ?_
  have hafter := hroom.2 goal w (Prod.ext hgoal (World.exec_read w trivial))
  rcases goal with _ | goal
  · trivial
  · change Meets _ _ (if _ then _ else _) _ _ at hafter
    dsimp only
    split_ifs at hafter ⊢
    · refine Meets.call (keepsInLimit_of_spares trivial h) fun _ w₁ hexec₁ => ?_
      have h₁ : InLimit c w₁ := by
        unfold InLimit
        rw [jobs_of_spares hexec₁ trivial]
        exact h
      refine Meets.call (keepsInLimit_of_spares trivial h₁) fun _ w₂ hexec₂ => ?_
      have h₂ : InLimit c w₂ := by
        unfold InLimit
        rw [jobs_of_spares hexec₂ trivial]
        exact h₁
      exact meets_reconcile_inLimit h₂ ((hafter.2 () w₁ hexec₁).2 () w₂ hexec₂)
    · trivial

theorem meets_rerun_inLimit {taskId : Uuid} (actor : String) (reason : Option String) (h : InLimit c w)
    (hroom : ∀ r, Rerunnable goalId taskId w r → Resolves host goalId taskId w →
      w.jobs.hasKey (rerunKey goalId taskId (w.nextRerun goalId taskId)) = true ∨
        (w.jobs.goalJobs : ℤ) < c.globalLimit) :
    Meets (World.exec host) (KeepsInLimit c host) (rerun goalId taskId actor reason) (fun _ _ => True) w := by
  have hread : ∀ {call : StoreCall}, call.SparesJobs → KeepsInLimit c host call w :=
    fun hcall => keepsInLimit_of_spares hcall h
  refine meets_read (hread trivial) trivial fun tasks htasks => ?_
  split
  · trivial
  · next task htask =>
    obtain ⟨hmem, hid⟩ := mem_of_byId htask
    split_ifs with hstatus
    · obtain ⟨r, hrow, hrid, hgoal, hrstatus, -⟩ := (getTasks_shows htasks task hmem).row
      have hrerun : Rerunnable goalId taskId w r := by
        rw [hrid, hid] at hrow
        exact ⟨hrow, hgoal, by rw [hrstatus]; exact hstatus⟩
      refine meets_read (hread trivial) trivial fun events hevents => ?_
      have hnumber : runNumber task.taskId events = w.nextRerun goalId taskId := by
        have hread : GoalStore.events w.goals goalId = events := Except.ok.inj hevents
        rw [← hread, hid]
        rfl
      split
      · trivial
      · next payload hpayload =>
        have hfree := hroom r hrerun ⟨tasks, task, payload, htasks, htask, hpayload⟩
        refine meets_goalField (hread trivial) _ _ fun threshold => ?_
        refine meets_goalField (hread trivial) _ _ fun workspaceRoot => ?_
        split
        · trivial
        · next contract _ =>
          rw [hnumber, hid]
          have hnew : ∀ w₁ : World, w₁ = (World.exec host (.enqueue taskId contract
              (rerunKey goalId taskId (w.nextRerun goalId taskId))) w).2 → InLimit c w₁ := by
            intro w₁ heq
            let sub := w.submission taskId contract (rerunKey goalId taskId (w.nextRerun goalId taskId))
            have hjobs : w₁.jobs = step sub.call w.jobs := by
              rw [heq]
              exact exec_enqueue_jobs _ _ _ w
            have hkey : sub.key = rerunKey goalId taskId (w.nextRerun goalId taskId) := strip_rerunKey _ _ _
            have hlimit := h.2
            unfold InLimit
            rw [hjobs]
            refine ⟨step_inv sub.call w.jobs h.1, ?_⟩
            rcases goalJobs_submit_le h.1 sub with hle | ⟨hfresh, hle⟩
            · omega
            · rcases hfree with hheld | hlt
              · rw [hkey, hheld] at hfresh
                cases hfresh
              · omega
          refine Meets.call ⟨h, hnew _ rfl⟩ fun job w₁ hexec₁ => ?_
          have h₁ := hnew w₁ (Prod.mk.inj hexec₁).2.symm
          have hspares : Spares host (do
              Coord.updateTask taskId (rerunUpdate job payload)
              Coord.setGoalStatus goalId .running
              Coord.recordEvent goalId actor "rerun" reason [taskId.text]) :=
            .call trivial fun _ => .call trivial fun _ => .call trivial fun _ => .pure ()
          exact (meets_inLimit (hspares w₁) h₁).mono fun _ _ _ => trivial
    · trivial

/-! ## Running tasks -/

/-- The call moves a task to running. -/
def StoreCall.Runs : StoreCall → Prop
  | .updateTask _ update => update.status = .running
  | _ => False

theorem runningCount_exec_le {call : StoreCall} (hcall : ¬ call.Runs) (w : World) :
    (World.exec host call w).2.goals.runningCount goalId ≤ w.goals.runningCount goalId := by
  cases call with
  | updateTask taskId update =>
    rcases hexec : World.exec host (.updateTask taskId update) w with ⟨e | a, w'⟩
    · rw [World.exec_updateTask_error host hexec]
    · exact runningCount_updateTask_le hexec hcall
  | _ => exact le_refl _

/-- An update moves one task of its own goal to running at most. -/
theorem runningCount_updateTask {taskId : Uuid} {update : TaskUpdate} {r : PlannedTaskRow}
    (hrow : w.goals.task? taskId = some r) (g : Uuid) :
    (World.exec host (.updateTask taskId update) w).2.goals.runningCount g ≤
      w.goals.runningCount g + if r.goalId = g then 1 else 0 := by
  rcases hexec : World.exec host (.updateTask taskId update) w with ⟨e | a, w'⟩
  · rw [World.exec_updateTask_error host hexec]
    exact Nat.le_add_right _ _
  · split_ifs with hgoal
    · exact runningCount_updateTask_le_succ hexec
    · obtain ⟨cells, -, rfl⟩ := World.exec_updateTask host hexec
      rw [GoalDb.runningCount_eq, GoalDb.runningCount_eq]
      refine Table.countP_updateWhere_le fun r' hr' hid hrun => ?_
      have hsame : w.goals.task? taskId = some r' := GoalDb.task?_eq_some.mpr ⟨hr', by simpa using hid⟩
      obtain rfl := Option.some.inj (hrow.symm.trans hsame)
      exact absurd (of_decide_eq_true hrun).1 hgoal

/-- No goal has more running tasks than its limit. -/
def PerGoal (c : DurableGoalCoordinator) (s : GoalDb) : Prop := ∀ goalId, (s.runningCount goalId : ℤ) ≤ c.perGoalLimit

theorem PerGoal.exec {call : StoreCall} (h : PerGoal c w.goals)
    (hcall : call.Runs → ∃ taskId update r, call = .updateTask taskId update ∧ w.goals.task? taskId = some r ∧
      (w.goals.runningCount r.goalId : ℤ) < c.perGoalLimit) :
    PerGoal c (World.exec host call w).2.goals := by
  intro goalId
  have hlimit := h goalId
  by_cases hruns : call.Runs
  · obtain ⟨taskId, update, r, rfl, hrow, hfree⟩ := hcall hruns
    have hle : (World.exec host (.updateTask taskId update) w).2.goals.runningCount goalId ≤
        w.goals.runningCount goalId + if r.goalId = goalId then 1 else 0 := runningCount_updateTask hrow goalId
    split_ifs at hle with hgoal
    · rw [hgoal] at hfree
      omega
    · omega
  · have hle : (World.exec host call w).2.goals.runningCount goalId ≤ w.goals.runningCount goalId :=
      runningCount_exec_le hruns w
    omega

theorem StoreCall.IsRead.not_runs {call : StoreCall} (h : call.IsRead) : ¬ call.Runs := by
  cases call with
  | updateTask taskId update => exact h.elim
  | _ => exact fun hruns => hruns

/-- `reconcile` runs a task in a free slot of its goal only. -/
theorem ReconcileMove.perGoal {call : StoreCall} (hmove : ReconcileMove c goalId call w) (h : PerGoal c w.goals) :
    PerGoal c (World.exec host call w).2.goals := by
  refine h.exec fun hruns => ?_
  cases hmove with
  | read hread => exact absurd hruns hread.not_runs
  | run hrow hgoal hstatus hready hslot => exact ⟨_, _, _, rfl, hrow, by rw [hgoal]; exact hslot⟩
  | _ => cases hruns

theorem RerunMove.perGoal {start : World} {taskId : Uuid} {call : StoreCall}
    (hmove : RerunMove host start goalId taskId call w)
    (hfree : ∀ r, Rerunnable goalId taskId start r → Resolves host goalId taskId start →
      (start.goals.runningCount goalId : ℤ) < c.perGoalLimit) (h : PerGoal c w.goals) :
    PerGoal c (World.exec host call w).2.goals := by
  refine h.exec fun hruns => ?_
  cases hmove with
  | read hread => exact absurd hruns hread.not_runs
  | run hgoals hrow hpayload =>
    refine ⟨_, _, _, rfl, by rw [hgoals]; exact hrow.1, ?_⟩
    rw [hgoals, hrow.2.1]
    exact hfree _ hrow hpayload
  | _ => cases hruns

/-! ## Runs -/

/-- The job store is sound, and the limits hold. -/
def Limited (c : DurableGoalCoordinator) (w : World) : Prop := w.jobs.Inv ∧ w.WithinLimits c

theorem Limited.inLimit (h : Limited c w) : InLimit c w := ⟨h.1, h.2.all⟩

/-- A program that keeps the jobs in limit, and whose calls keep each goal in limit. -/
theorem limited_of_meets {p : Coord Unit} {C : StoreCall → World → Prop} {Q R : Unit → World → Prop}
    (h : Limited c w) (hjobs : Meets (World.exec host) (KeepsInLimit c host) p Q w)
    (hC : Meets (World.exec host) C p R w)
    (hgoals : ∀ call w, C call w → PerGoal c w.goals → PerGoal c (World.exec host call w).2.goals) :
    (∀ x ∈ Prog.trace (World.exec host) p w, x.2.WithinLimits c) ∧ Limited c (Prog.run (World.exec host) p w).2 := by
  have hper : PerGoal c w.goals := h.2.perGoal
  have hkept := (hjobs.and hC).keep (I := fun w => PerGoal c w.goals) (fun call w hcall h => hgoals call w hcall.2 h)
    hper
  refine ⟨fun x hx => ?_, Prog.run_invariant p w h fun x hx hlimited => ?_⟩
  · obtain ⟨⟨hin, -⟩, hper⟩ := hkept.trace x hx
    exact ⟨hper, hin.1.2⟩
  · obtain ⟨⟨hin, hcall⟩, hper⟩ := hkept.trace x hx
    exact ⟨hin.2.1, hgoals _ _ hcall hper, hin.2.2⟩

theorem limited_turn {turn : Turn} (h : Limited c w) (hturn : turn.schedules = true) (hroom : turn.HasRoom c host w) :
    (∀ x ∈ World.calls c host turn w, x.2.WithinLimits c) ∧ Limited c (World.step c host turn w) := by
  cases turn with
  | work call =>
    have hcall : call.submission? = none := of_decide_eq_true hturn
    have hle := goalJobs_step_le h.1 hcall
    have hlimit := h.2.all
    refine ⟨fun x hx => (List.not_mem_nil hx).elim, step_inv call w.jobs h.1, h.2.perGoal, ?_⟩
    show ((step call w.jobs).goalJobs : ℤ) ≤ _
    omega
  | request r =>
    cases r with
    | reconcile goalId =>
      exact limited_of_meets h (meets_reconcile_inLimit h.inLimit (Meets.of_trace hroom)) (meets_reconcile c)
        fun _ _ hmove => hmove.perGoal
    | start goalId actor =>
      refine limited_of_meets h (meets_start_inLimit actor h.inLimit (Meets.of_trace hroom)) (meets_start c actor)
        fun call w hmove hper => ?_
      cases hmove with
      | startReconcile hmove => exact hmove.perGoal hper
      | start hrow hstatus => exact hper
      | started => exact hper
    | rerun goalId taskId actor reason =>
      have hfree : ∀ r, Rerunnable goalId taskId w r → Resolves host goalId taskId w →
          (w.goals.runningCount goalId : ℤ) < c.perGoalLimit := fun r hr hp => (hroom r hr hp).1
      exact limited_of_meets h (meets_rerun_inLimit actor reason h.inLimit fun r hr hp => (hroom r hr hp).2)
        (meets_rerun taskId actor reason) fun _ _ hmove => hmove.perGoal hfree
    | _ => cases hturn

/-- In every run of starts, reconciliations, reruns and calls of workers with room whenever one reconciles or reruns,
the limits hold before every call and after every turn, if they do at the start. -/
theorem run_withinLimits (c : DurableGoalCoordinator) (host : Host)
    (hjobs : ∃ calls, w.jobs = SqliteJobRepository.run calls) (hstart : w.WithinLimits c) (turns : List Turn)
    (hturns : ∀ turn ∈ turns, turn.schedules = true)
    (hroom : Machine.Along (World.step c host) (Turn.HasRoom c host) turns w) :
    Machine.Along (World.step c host)
        (fun turn w => w.WithinLimits c ∧ ∀ x ∈ World.calls c host turn w, x.2.WithinLimits c) turns w ∧
      (Machine.run (World.step c host) turns w).WithinLimits c := by
  have hlimited : Limited c w := by
    refine ⟨?_, hstart⟩
    obtain ⟨calls, hrun⟩ := hjobs
    rw [hrun]
    exact run_inv calls
  have hC : Machine.Along (World.step c host) (fun turn w => turn.schedules = true ∧ turn.HasRoom c host w) turns w :=
    (Machine.Along.of_forall (fun turn hturn _ => hturns turn hturn) w).and hroom
  obtain ⟨halong, hend⟩ := Machine.Along.invariant
    (fun turn w (h : Limited c w) hturn => (limited_turn h hturn.1 hturn.2).2) hlimited hC
  exact ⟨(halong.and hC).mono fun turn w h => ⟨h.1.2, (limited_turn h.1 h.2.1 h.2.2).1⟩, hend.2⟩

/-! ## Two tasks and one job -/

/-- Four tasks of a goal may run, and one job in all. -/
def oneJob : DurableGoalCoordinator := ⟨4, 1⟩

/-- The goal with a plan of two tasks that depend on nothing. -/
def pairWorld : World := plannedWorld (.finite (1 / 2)) (chainTasks.map fun t => { t with dependsOn := [] })

/-- A worker claims the next job. -/
def claimNext : Turn := .work (.claim 200 201 "worker" (.finite 30) (Datetime.ofMicros 1200))

theorem pairWorld_withinLimits : pairWorld.WithinLimits oneJob := by
  constructor
  · intro goalId
    have hnone : pairWorld.goals.tasks.all (fun t => t.status ≠ .running) = true := by decide +kernel
    have hempty : pairWorld.goals.runningCount goalId = 0 := by
      unfold GoalDb.runningCount
      rw [List.length_eq_zero_iff, List.filter_eq_nil_iff]
      intro t ht hrun
      have hnot := List.all_eq_true.mp hnone t ht
      exact of_decide_eq_true hnot (of_decide_eq_true hrun).2
    rw [hempty]
    decide
  · decide +kernel

/-- A worker claims the job of the first task before the goal is reconciled again. -/
theorem claimed_withinLimits :
    (Machine.run (World.step oneJob Service.plainHost)
      [.request (.start 1 "api"), claimNext, .request (.reconcile 1)] pairWorld).WithinLimits oneJob := by
  have hlists : ∀ turn w, (World.calls oneJob Service.plainHost turn w).all (fun x =>
      x.1 ≠ .listJobs 500 || decide (x.2.HasRoom oneJob Service.plainHost 1)) = true →
      ∀ x ∈ World.calls oneJob Service.plainHost turn w, x.1 = .listJobs 500 →
        x.2.HasRoom oneJob Service.plainHost 1 := by
    intro turn w hall x hx hlist
    have hcase := List.all_eq_true.mp hall x hx
    rw [Bool.or_eq_true, decide_eq_true_eq, decide_eq_true_eq] at hcase
    exact hcase.resolve_left fun hne => hne hlist
  have hroom : Machine.Along (World.step oneJob Service.plainHost) (Turn.HasRoom oneJob Service.plainHost)
      [.request (.start 1 "api"), claimNext, .request (.reconcile 1)] pairWorld :=
    ⟨hlists _ _ (by decide +kernel), trivial, hlists _ _ (by decide +kernel), trivial⟩
  exact (run_withinLimits oneJob Service.plainHost ⟨[], rfl⟩ pairWorld_withinLimits _ (by decide) hroom).2

/-- Without it the second reconciliation does not count the job that is queued. -/
theorem queued_exceeds_limit :
    pairWorld.WithinLimits oneJob ∧
      ¬ (Machine.run (World.step oneJob Service.plainHost) [.request (.start 1 "api"), .request (.reconcile 1)]
        pairWorld).WithinLimits oneJob := by
  refine ⟨pairWorld_withinLimits, fun h => ?_⟩
  have htwo : (Machine.run (World.step oneJob Service.plainHost) [.request (.start 1 "api"), .request (.reconcile 1)]
      pairWorld).jobs.goalJobs = 2 := by decide +kernel
  have hall := h.all
  rw [htwo] at hall
  exact absurd hall (by decide)

end Galaxz
