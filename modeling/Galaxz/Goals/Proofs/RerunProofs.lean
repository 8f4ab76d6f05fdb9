import Galaxz.Goals.Proofs.CancellationProofs
import Galaxz.Goals.Guarantees

/-!
# Proofs: reruns that stop

A rerun that returns has enqueued its job under the number of the next rerun: either a job has this key, and it is the
one that is linked, or the job is new.
-/

namespace Galaxz

open DurableGoalCoordinator SqliteJobRepository Prog

/-! ## Keys -/

theorem rerunKey_toList (goalId taskId : Uuid) (number : ℕ) : ∃ cs : List Char,
    (rerunKey goalId taskId number).toList = 'g' :: cs ++ Nat.toDigits 10 number := by
  refine ⟨("oal:" ++ goalId.text ++ ":task:" ++ taskId.text ++ ":rerun:").toList, ?_⟩
  unfold rerunKey DurableGoalCoordinator.key
  simp [toString, Nat.repr, String.toList_append]

theorem not_isPySpace_of_isDigit {c : Char} (h : c.isDigit = true) : isPySpace c = false := by
  have hbounds : 48 ≤ c.toNat ∧ c.toNat ≤ 57 := by
    simpa [Char.isDigit, UInt32.le_iff_toNat_le] using h
  unfold isPySpace
  simp only [Bool.or_eq_false_iff, Bool.and_eq_false_iff, decide_eq_false_iff_not, beq_eq_false_iff_ne]
  omega

/-- A key that ends in no white space is stored as it is. -/
theorem strip_goalKey {key : String} {cs : List Char} {last : Char} (hkey : key.toList = 'g' :: cs ++ [last])
    (hlast : isPySpace last = false) : strip key = key := by
  have hkept : stripChars key.toList = key.toList := by
    rw [hkey]
    apply stripChars_eq_self
    · intro c hc
      have hg : c = 'g' := (Option.some.inj hc).symm
      rw [hg]
      decide
    · intro c hc
      rw [List.getLast?_append] at hc
      obtain rfl := Option.some.inj hc
      exact hlast
  unfold strip
  rw [hkept, String.ofList_toList]

theorem strip_rerunKey (goalId taskId : Uuid) (number : ℕ) :
    strip (rerunKey goalId taskId number) = rerunKey goalId taskId number := by
  obtain ⟨cs, hkey⟩ := rerunKey_toList goalId taskId number
  have hdigits : Nat.toDigits 10 number ≠ [] := Nat.toDigits_ne_nil
  rw [← List.dropLast_append_getLast hdigits, ← List.append_assoc] at hkey
  exact strip_goalKey hkey
    (not_isPySpace_of_isDigit (Nat.isDigit_of_mem_toDigits (by decide) (by decide) (List.getLast_mem hdigits)))

theorem strip_key (goalId taskId : Uuid) : strip (key goalId taskId) = key goalId taskId := by
  have hdigit : ∀ n < 16, isPySpace (hexDigit n) = false := by decide
  have htext : ∃ cs, taskId.text.toList = cs ++ [hexDigit (taskId.toNat % 16)] := by
    have hlast : hexPadded 12 taskId.toNat = hexPadded 11 (taskId.toNat / 16) ++ [hexDigit (taskId.toNat % 16)] := rfl
    rw [Uuid.text_eq taskId, hlast, String.toList_ofList]
    refine ⟨(hexPadded 8 (taskId.toNat / 16 ^ 24) ++ '-' :: (hexPadded 4 (taskId.toNat / 16 ^ 20) ++
      '-' :: (hexPadded 4 (taskId.toNat / 16 ^ 16) ++ '-' :: (hexPadded 4 (taskId.toNat / 16 ^ 12) ++
      '-' :: hexPadded 11 (taskId.toNat / 16))))), ?_⟩
    simp only [List.append_nil, List.append_assoc, List.cons_append]
  obtain ⟨cs, htext⟩ := htext
  have hkey : (key goalId taskId).toList =
      'g' :: (("oal:" ++ goalId.text ++ ":task:").toList ++ cs) ++ [hexDigit (taskId.toNat % 16)] := by
    unfold key
    simp [toString, String.toList_append, htext]
  exact strip_goalKey hkey (hdigit _ (Nat.mod_lt _ (by decide)))

/-! ## The job of a rerun -/

section Rerun

variable {c : DurableGoalCoordinator} {host : Host} {w w' : World} {goalId taskId : Uuid}

/-- The job was enqueued under the key before, or it is new. -/
def World.UnderKey (w : World) (key : String) (jobId : Uuid) : Prop :=
  (∃ k ∈ w.jobs.idempotency, k.idempotencyKey = key ∧ k.jobId = jobId) ∨
    (∀ k ∈ w.jobs.idempotency, k.idempotencyKey ≠ key) ∧ w.jobs.job? jobId = none

theorem underKey_of_enqueue (h : w.jobs.Inv) {contract : TaskContract} {number : ℕ} {job : Job}
    (hexec : World.exec host (.enqueue taskId contract (rerunKey goalId taskId number)) w = (.ok job, w')) :
    w.UnderKey (rerunKey goalId taskId number) job.jobId := by
  let c : Submission := ⟨(w.readings 0).id, taskId, some contract, rerunKey goalId taskId number, 0, none,
    (w.readings 0).now⟩
  have hkey : c.key = rerunKey goalId taskId number := strip_rerunKey goalId taskId number
  have hok : (c.submit w.jobs).1 = .ok job := congrArg Prod.fst hexec
  rw [← hkey]
  rcases submit_cases h c with ⟨e, he, -⟩ | ⟨k, hk, row, job', hkk, hsound, hjob, hsubmit⟩ |
    ⟨job', hsubmit, hid, hfresh, hkeys, -⟩
  · rw [he] at hok
    cases hok
  · rw [hsubmit] at hok
    cases hok
    have hrow : row.jobId = k.jobId := (Db.mem_view_rows.mp (by rw [hsound.rows]; simp)).2
    exact Or.inl ⟨k, hk, hkk, ((jobFromRow_fields hjob).1.trans hrow).symm⟩
  · rw [hsubmit] at hok
    cases hok
    have hinv : (c.submit w.jobs).2.Inv := step_inv c.call w.jobs h
    have hnodup := hinv.ids_nodup
    rw [hkeys, List.map_append, List.nodup_append] at hnodup
    refine Or.inr ⟨hfresh, ?_⟩
    rw [← Option.not_isSome_iff_eq_none, h.isSome_job?, hid]
    intro hmem
    exact hnodup.2.2 _ hmem _ (by simp) rfl

/-- What a rerun that returns leaves: the task is linked to the job under the key of the next rerun. -/
def LinksByKey (goalId taskId : Uuid) (w w' : World) : Prop :=
  ∃ row jobId, w'.goals.task? taskId = some row ∧ row.jobId = some jobId ∧
    w.UnderKey (rerunKey goalId taskId (w.nextRerun goalId taskId)) jobId

/-- The rerun ends with an exception, or the task is linked. -/
def LinksIfOk (goalId taskId : Uuid) (w : World) (r : Except PyError Unit) (w' : World) : Prop :=
  r = .ok () → LinksByKey goalId taskId w w'

theorem LinksIfOk.error (e : PyError) : LinksIfOk goalId taskId w (.error e) w' := fun h => by cases h

theorem ends_goalField_links {α : Type} (name : String) (field : GoalContract → α) {f : α → Coord Unit}
    (hf : ∀ a, Ends (World.exec host) (f a) (LinksIfOk goalId taskId w) w) :
    Ends (World.exec host) (goalField goalId name field >>= f) (LinksIfOk goalId taskId w) w := by
  refine ends_read (.getGoal goalId) trivial (fun goal _ => ?_) fun e => .error e
  rcases goal with _ | goal
  · exact .error _
  · exact hf _

theorem ends_rerun_links (h : w.jobs.Inv) (actor : String) (reason : Option String) :
    Ends (World.exec host) (rerun goalId taskId actor reason) (LinksIfOk goalId taskId w) w := by
  refine ends_read (.getTasks goalId) trivial (fun tasks htasks => ?_) fun e => .error e
  have hread : GoalStore.getTasks host w.goals goalId = .ok tasks := (Prod.mk.inj htasks).1
  cases htask : byId tasks taskId with
  | none => exact .error _
  | some task =>
    obtain ⟨hmem, hid⟩ := mem_of_byId htask
    obtain ⟨row, hrow, -⟩ := getTasks_row hread hmem
    dsimp only
    split_ifs with hopen
    · refine ends_read (.events goalId) trivial (fun events hevents => ?_) fun e => .error e
      have hnumber : runNumber task.taskId events = w.nextRerun goalId taskId := by
        have hread : GoalStore.events w.goals goalId = events := Except.ok.inj (Prod.mk.inj hevents).1
        rw [← hread, hid]
        rfl
      cases resolvePayload task tasks with
      | error e => exact .error e
      | ok payload =>
        refine ends_goalField_links _ _ fun threshold => ends_goalField_links _ _ fun workspaceRoot => ?_
        cases taskContract goalId task payload threshold workspaceRoot with
        | error e => exact .error e
        | ok contract =>
          dsimp only
          rw [hnumber, hid]
          refine Ends.call (fun job w₁ henqueue => ?_) fun e w₁ _ => .error e
          have hunder := underKey_of_enqueue h henqueue
          have hgoals : w₁.goals = w.goals := by
            rw [← (Prod.mk.inj henqueue).2]
            rfl
          refine Ends.call (fun _ w₂ hupdate => ?_) fun e w₂ _ => .error e
          obtain ⟨cells, hcells, rfl⟩ := World.exec_updateTask host hupdate
          intro _
          refine ⟨cells.set row, job.jobId, ?_, ?_, hunder⟩
          · show (w₁.goals.updateTaskRow taskId cells.set cells.set_taskId).task? taskId = _
            rw [hgoals, GoalDb.task?_updateTaskRow, if_pos rfl, ← hid, hrow]
            rfl
          · show cells.jobId.getD row.jobId = _
            rw [World.cells_jobId host hcells]
            rfl
    · exact .error _

/-- A rerun that returns links the task to a job that was not over before, if and only if no job that an earlier rerun
left behind was. -/
theorem rerunRuns_iff_noneRunBehind (h : w.jobs.Inv ∧ w.jobs.KeysNodup) (turn : StoppingTurn) :
    RerunRuns c host turn w ↔ NoneRunBehind c host turn w := by
  have hlinks : ∀ goalId taskId, turn.Reruns c host goalId taskId w →
      LinksByKey goalId taskId w (w.stopping c host turn) := by
    intro goalId taskId hreruns
    cases turn with
    | work call => exact hreruns.elim
    | request r calls =>
      obtain ⟨⟨actor, reason, rfl⟩, hvalue⟩ := hreruns
      have hends : Ends (World.exec host) (rerun goalId taskId actor reason) (LinksIfOk goalId taskId w) w :=
        ends_rerun_links h.1 actor reason
      have hrun := run_of_value? hvalue
      unfold Ends at hends
      rw [show Prog.run (World.exec host) (rerun goalId taskId actor reason) w = _ from hrun] at hends
      exact hends rfl
  constructor
  · intro hruns goalId taskId hreruns jobId ⟨k, hk, hkey, hjob⟩ job hread
    obtain ⟨row, linked, hrow, hlinked, hnew⟩ := hruns goalId taskId hreruns
    obtain ⟨row', linked', hrow', hlinked', hunder⟩ := hlinks goalId taskId hreruns
    rw [hrow] at hrow'
    obtain rfl := Option.some.inj hrow'
    rw [hlinked] at hlinked'
    obtain rfl := Option.some.inj hlinked'
    rcases hunder with ⟨k', hk', hkey', hjob'⟩ | ⟨hfresh, -⟩
    · have hsame : k' = k := List.inj_on_of_nodup_map h.2 hk' hk (hkey'.trans hkey.symm)
      apply hnew
      rw [← hjob', hsame, hjob]
      exact hread
    · exact absurd hkey (hfresh k hk)
  · intro hnone goalId taskId hreruns
    obtain ⟨row, jobId, hrow, hjob, hunder⟩ := hlinks goalId taskId hreruns
    refine ⟨row, jobId, hrow, hjob, fun job hread => ?_⟩
    rcases hunder with hbehind | ⟨-, hnew⟩
    · exact hnone goalId taskId hreruns jobId hbehind job hread
    · rw [hnew] at hread
      cases hread

theorem stopping_jobs {I : Db → Prop} (hstep : ∀ call s, I s → I (step call s)) (turn : StoppingTurn) (w : World)
    (h : I w.jobs) : I (w.stopping c host turn).jobs := by
  cases turn with
  | work call => exact hstep call.1 w.jobs h
  | request r calls =>
    exact after_invariant (I := fun w => I w.jobs) (exec_keepsJobs hstep) calls (r.program c) w h

/-- In a run in which requests stop anywhere and workers call in between, every rerun that returns links its task to a
job that was not over before, if and only if no job that an earlier rerun of the task left behind ever was. -/
theorem rerunRuns_iff (c : DurableGoalCoordinator) (host : Host)
    (hjobs : ∃ calls, w.jobs = SqliteJobRepository.run calls) (turns : List StoppingTurn) :
    Machine.Along (World.stopping c host) (RerunRuns c host) turns w ↔
      Machine.Along (World.stopping c host) (NoneRunBehind c host) turns w := by
  have hinv : w.jobs.Inv ∧ w.jobs.KeysNodup := by
    obtain ⟨calls, hrun⟩ := hjobs
    rw [hrun]
    exact run_keysNodup calls
  have hkept : Machine.Along (World.stopping c host) (fun _ w => w.jobs.Inv ∧ w.jobs.KeysNodup) turns w :=
    (Machine.Along.invariant (C := fun _ _ => True) (fun turn w h _ => stopping_jobs step_keysNodup turn w h) hinv
      (Machine.Along.of_forall (fun _ _ _ => trivial) w)).1
  constructor
  · intro hruns
    exact (hkept.and hruns).mono fun turn w h => (rerunRuns_iff_noneRunBehind h.1 turn).mp h.2
  · intro hnone
    exact (hkept.and hnone).mono fun turn w h => (rerunRuns_iff_noneRunBehind h.1 turn).mpr h.2

end Rerun

/-! ## A rerun that stops after its enqueue -/

/-- The plan of two tasks, the first of which has failed. -/
def failedWorld : World :=
  plannedWorld (.finite (1 / 2)) (chainTasks.map fun t => if t.taskId = 2 then { t with status := .failed } else t)

/-- A rerun of the first task of which so many calls are made. -/
def rerunFirst (calls : ℕ) : StoppingTurn := .request (.rerun 1 2 "api" none) calls

/-- Turns of the coordinator with the default configuration. -/
def demoStopping : StoppingTurn → World → World := World.stopping Service.defaultLimits Service.plainHost

theorem noneRunBehind_rerunFirst {calls : ℕ} {w : World}
    (h : w.jobs.idempotency.all (fun k => k.idempotencyKey ≠ rerunKey 1 2 (w.nextRerun 1 2) ||
      (w.jobs.job? k.jobId).all fun job => !job.status.terminal) = true) :
    NoneRunBehind Service.defaultLimits Service.plainHost (rerunFirst calls) w := by
  rintro goalId taskId ⟨⟨actor, reason, hrerun⟩, -⟩ jobId ⟨k, hk, hkey, hjob⟩ job hread
  cases hrerun
  have hcase := List.all_eq_true.mp h k hk
  rw [Bool.or_eq_true, decide_eq_true_eq] at hcase
  rcases hcase with hne | hnew
  · exact absurd hkey hne
  · rw [hjob, hread] at hnew
    simpa using hnew

/-- The rerun stops and is made again while its job is still queued. -/
theorem stopped_rerun_runs :
    Machine.Along demoStopping (RerunRuns Service.defaultLimits Service.plainHost) [rerunFirst 5, rerunFirst 8]
      failedWorld := by
  have hbehind : Machine.Along demoStopping (NoneRunBehind Service.defaultLimits Service.plainHost)
      [rerunFirst 5, rerunFirst 8] failedWorld :=
    ⟨noneRunBehind_rerunFirst (by decide +kernel), noneRunBehind_rerunFirst (by decide +kernel), trivial⟩
  exact (rerunRuns_iff _ _ ⟨[], rfl⟩ _).mpr hbehind

end Galaxz
