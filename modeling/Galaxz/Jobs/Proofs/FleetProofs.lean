import Galaxz.Jobs.Proofs.ExecutionProofs

/-!
# Proofs: the workers of a repository

The invariants speak of the database and of the list of all executions; an action changes at most one of them, or adds
one. Of all executions of a job at most one completes it, and as long as a lease holds somebody works under it.
-/

namespace Galaxz

open SqliteJobRepository

namespace DurableWorker

/-- What an execution that completed its job has done: it was given the task of the job with the id of its attempt, that
attempt is the one that completed the job, and the job keeps what the executor returned. -/
structure Execution.Effective (s : Db) (e : Execution) (result : PyDict) : Prop where
  task : ∃ task, getTask s e.jobId = some task ∧ e.task = some { task with executionAttemptId := some e.attemptId }
  attempt : ∃ a, s.CompletedBy e.jobId a ∧ a.attemptId = e.attemptId ∧ a.leaseToken = e.leaseToken
  status : s.status? e.jobId = some .completed
  result : ∃ serialized, result.dumps = .ok serialized ∧ getResult s e.jobId = some serialized

/-! ## Steps of a fleet -/

/-- The clock reading of a step. -/
def FleetAction.now? : FleetAction → Option Datetime
  | .call c => c.now?
  | .worker _ (.reclaim now) => some now
  | .worker _ (.claim _ _ now) => some now
  | .worker _ (.settle _ now) => some now
  | .worker _ (.beat _ now) => some now
  | .worker _ _ => none

section Fleets

variable {f : Fleet} {w : Worker} {s : Db} {t : Option Datetime} {now : Datetime}

/-- An element of a list and its replacement. -/
theorem set_split {α : Type} {xs : List α} {i : ℕ} {a : α} (h : xs[i]? = some a) :
    ∃ l r, xs = l ++ a :: r ∧ ∀ b, xs.set i b = l ++ b :: r := by
  obtain ⟨hlt, rfl⟩ := List.getElem?_eq_some_iff.mp h
  refine ⟨xs.take i, xs.drop (i + 1), ?_, fun b => ?_⟩
  · rw [List.getElem_cons_drop, List.take_append_drop]
  · exact List.set_eq_take_append_cons_drop.trans (if_pos hlt)

/-- What a step does to the executions of a worker, and to the database. -/
inductive Change (s : Db) (t : Option Datetime) (xs : List Execution) : List Execution → Db → Prop
  | none : Change s t xs xs s
  | reclaim (now : Datetime) (hnow : t = some now) : Change s t xs xs (step (.reclaimExpired now) s)
  | claim (attemptId token : Uuid) (workerId : String) (leaseSeconds : PyFloat) (now : Datetime) (hnow : t = some now)
      (job : Job) (attempt : ExecutionAttempt)
      (hclaim : (claim attemptId token workerId leaseSeconds now s).1 = .ok (some (job, attempt))) :
      Change s t xs (xs ++ [.submitted job attempt])
        (step (.claim attemptId token workerId leaseSeconds now) s)
  | move {s' : Db} (l r : List Execution) (e e' : Execution) (hxs : xs = l ++ e :: r) (hmoves : e.Moves s t e' s') :
      Change s t xs (l ++ e' :: r) s'

theorem Worker.change_stepOne {i : ℕ} {g : Execution → Execution × Db}
    (hmoves : ∀ e : Execution, e.Moves s t (g e).1 (g e).2) :
    Change s t w.executions (w.stepOne i g s).1.executions (w.stepOne i g s).2 := by
  unfold Worker.stepOne
  split
  · exact .none
  · next e he =>
    obtain ⟨l, r, hxs, hset⟩ := set_split he
    dsimp only
    rw [hset]
    exact .move l r e _ hxs (hmoves e)

/-- A claim that gives no job writes nothing. -/
theorem claim_unchanged (h : s.Inv) {attemptId token : Uuid} {workerId : String} {leaseSeconds : PyFloat}
    (hnone : ∀ c, (claim attemptId token workerId leaseSeconds now s).1 ≠ .ok (some c)) :
    (claim attemptId token workerId leaseSeconds now s).2 = s := by
  have hinv := step_inv (.claim attemptId token workerId leaseSeconds now) s h
  simp only [step, exec, answer_snd] at hinv
  unfold claim at hnone hinv ⊢
  split_ifs at hnone hinv ⊢
  · rfl
  · unfold transaction at hnone hinv ⊢
    split at hnone
    · rfl
    · next res s' hb =>
      rw [hb] at hinv
      dsimp only at hnone hinv ⊢
      rcases claimTx_attempts hb with ⟨-, heq⟩ | ⟨a, row, rfl, -, hattempts, -, -, -, -, -⟩
      · exact heq
      · -- the job of the new attempt exists, so the read after the commit returns
        exfalso
        have hatt : s'.HasAttempt a.jobId a.attemptId a.leaseToken :=
          ⟨a.toAttemptFields, by rw [hattempts]; simp, rfl, rfl, rfl⟩
        obtain ⟨row, hrow⟩ := job?_of_hasAttempt hinv hatt
        obtain ⟨job, hjob, -⟩ := getJobAsserted_spec hinv hrow
        refine hnone (job, a) ?_
        dsimp only
        rw [hjob]
        rfl

/-- A claim that gives a job starts an attempt of it under a new token. -/
theorem claim_started (h : s.Inv) {attemptId token : Uuid} {workerId : String} {leaseSeconds : PyFloat} {job : Job}
    {attempt : ExecutionAttempt}
    (hok : (claim attemptId token workerId leaseSeconds now s).1 = .ok (some (job, attempt))) :
    job.jobId = attempt.jobId ∧ attempt.leaseToken = token ∧ (∀ x ∈ s.attempts, x.leaseToken ≠ token) ∧
      (step (.claim attemptId token workerId leaseSeconds now) s).attempts =
        s.attempts ++ [attempt.toAttemptFields] := by
  have hinv := step_inv (.claim attemptId token workerId leaseSeconds now) s h
  simp only [step, exec, answer_snd] at hinv ⊢
  unfold claim at hok hinv ⊢
  split_ifs at hok hinv ⊢
  unfold transaction at hok hinv ⊢
  split at hok
  · cases hok
  · next res s' hb =>
    rw [hb] at hinv
    dsimp only at hok hinv ⊢
    rcases claimTx_attempts hb with ⟨rfl, -⟩ | ⟨a, row, rfl, -, hattempts, -, htoken, -, -, hfresh⟩
    · cases hok
    · have hatt : s'.HasAttempt a.jobId a.attemptId a.leaseToken :=
        ⟨a.toAttemptFields, by rw [hattempts]; simp, rfl, rfl, rfl⟩
      obtain ⟨row, hrow⟩ := job?_of_hasAttempt hinv hatt
      obtain ⟨job', hjob, -, hid, -⟩ := getJobAsserted_spec hinv hrow
      dsimp only at hok
      rw [hjob] at hok
      cases hok
      exact ⟨hid, htoken, hfresh, hattempts⟩

theorem Worker.change_act (h : s.Inv) (i : ℕ) (action : WorkerAction) (w : Worker) :
    Change s (FleetAction.worker i action).now? w.executions (w.act action s).1.executions (w.act action s).2 := by
  unfold Worker.act
  split_ifs
  · exact .none
  · cases action with
    | requestStop => exact .none
    | crash => exact .none
    | beginCycle =>
      dsimp only [Worker.beginCycle]
      split
      · exact .none
      · exact .none
    | leaveHook raises =>
      dsimp only [Worker.leaveHook]
      split
      · exact .none
      · exact .none
    | reclaim now =>
      have hstep : step (.reclaimExpired now) s = (exec (.reclaimExpired now) s).2 := rfl
      dsimp only [Worker.reclaim]
      split
      · split
        · next s' hexec =>
          rw [hexec] at hstep
          rw [← hstep]
          exact .reclaim now rfl
        · next s' hexec =>
          rw [hexec] at hstep
          rw [← hstep]
          exact .reclaim now rfl
      · exact .none
    | claim attemptId token now =>
      have hstep : step (.claim attemptId token w.config.workerId w.config.leaseSeconds now) s =
        (SqliteJobRepository.claim attemptId token w.config.workerId w.config.leaseSeconds now s).2 := rfl
      dsimp only [Worker.claim]
      split
      · split
        · next x s' hclaim =>
          have hsame := claim_unchanged h (fun c hc => by rw [hclaim] at hc; cases hc)
          rw [hclaim] at hsame
          rw [hsame]
          exact .none
        · next s' hclaim =>
          have hsame := claim_unchanged h (fun c hc => by rw [hclaim] at hc; cases hc)
          rw [hclaim] at hsame
          rw [hsame]
          exact .none
        · next job attempt s' hclaim =>
          rw [hclaim] at hstep
          rw [← hstep]
          exact .claim attemptId token _ _ now rfl job attempt (congrArg Prod.fst hclaim)
      · exact .none
    | drain =>
      dsimp only [Worker.drain]
      split
      · split_ifs
        · exact .none
        · exact .none
      · exact .none
    | read i => exact Worker.change_stepOne fun e => .read
    | run i outcome => exact Worker.change_stepOne fun e => .run outcome
    | settle i now => exact Worker.change_stepOne fun e => .settle now
    | wake i => exact Worker.change_stepOne fun e => .wake
    | check i => exact Worker.change_stepOne fun e => .check
    | beat i now => exact Worker.change_stepOne fun e => .beat w.config.leaseSeconds now
    | finish i => exact Worker.change_stepOne fun e => .finish

/-- What a step of a fleet does to all executions, and to the database. -/
theorem Fleet.step_change (h : f.jobs.Inv) (action : FleetAction) :
    (∃ c, action = .call c ∧ (f.step action).executions = f.executions ∧
      (f.step action).jobs = SqliteJobRepository.step c f.jobs) ∨
    ∃ pre post xs xs', f.executions = pre ++ xs ++ post ∧ (f.step action).executions = pre ++ xs' ++ post ∧
      Change f.jobs action.now? xs xs' (f.step action).jobs := by
  cases action with
  | call c => exact Or.inl ⟨c, rfl, rfl, rfl⟩
  | worker i action =>
    right
    cases hw : f.workers[i]? with
    | none =>
      have hsame : f.step (.worker i action) = f := by
        simp only [Fleet.step, hw]
      rw [hsame]
      exact ⟨[], f.executions, [], [], by simp, by simp, .none⟩
    | some w =>
      obtain ⟨l, r, hworkers, hset⟩ := set_split hw
      have hnext : f.step (.worker i action) =
          { f with jobs := (w.act action f.jobs).2, workers := l ++ (w.act action f.jobs).1 :: r } := by
        simp only [Fleet.step, hw, hset]
      rw [hnext]
      refine ⟨l.flatMap (·.executions), r.flatMap (·.executions), w.executions, (w.act action f.jobs).1.executions,
        ?_, ?_, Worker.change_act h i action w⟩
      · unfold Fleet.executions
        rw [hworkers]
        simp
      · unfold Fleet.executions
        simp

/-! ## What every run keeps -/

/-- What holds of the database and of all executions, whatever is done. -/
structure Invariant (s : Db) (es : List Execution) : Prop where
  inv : s.Inv
  tokens : s.TokensNodup
  ok : ∀ e ∈ es, e.Ok s
  distinct : (es.map (·.leaseToken)).Nodup

theorem Invariant.step {es : List Execution} (h : Invariant s es) (call : JobCall) :
    Invariant (SqliteJobRepository.step call s) es where
  inv := step_inv call s h.inv
  tokens := step_tokensNodup h.inv h.tokens call
  ok e he := (h.ok e he).step h.inv call
  distinct := h.distinct

theorem Invariant.change {pre post xs xs' : List Execution} {s' : Db} (h : Invariant s (pre ++ xs ++ post))
    (hchange : Change s t xs xs' s') : Invariant s' (pre ++ xs' ++ post) := by
  cases hchange with
  | none => exact h
  | reclaim now hnow => exact h.step _
  | claim attemptId token workerId leaseSeconds now hnow job attempt hclaim =>
    obtain ⟨hjob, htoken, hfresh, hattempts⟩ := claim_started h.inv hclaim
    have hafter := h.step (.claim attemptId token workerId leaseSeconds now)
    refine ⟨hafter.inv, hafter.tokens, fun e he => ?_, ?_⟩
    · have hcases : e ∈ pre ++ xs ++ post ∨ e = .submitted job attempt := by
        simp only [List.mem_append, List.mem_singleton] at he ⊢
        tauto
      rcases hcases with hold | rfl
      · exact hafter.ok e hold
      · refine ⟨⟨attempt.toAttemptFields, ?_, hjob.symm, rfl, rfl⟩, nofun, nofun, nofun⟩
        rw [hattempts]
        simp
    · -- the token of the new execution is that of no attempt
      have hnew : ∀ e ∈ pre ++ xs ++ post, e.leaseToken ≠ attempt.leaseToken := by
        intro e he heq
        obtain ⟨a, ha, -, -, hatoken⟩ := (h.ok e he).attempt
        exact hfresh a ha (hatoken.trans (heq.trans htoken))
      have hperm : (pre ++ (xs ++ [Execution.submitted job attempt]) ++ post).Perm
          (.submitted job attempt :: (pre ++ xs ++ post)) := by
        rw [← List.append_assoc, List.append_assoc (pre ++ xs)]
        exact List.perm_middle
      rw [(hperm.map _).nodup_iff, List.map_cons, List.nodup_cons]
      refine ⟨fun hmem => ?_, h.distinct⟩
      obtain ⟨e, he, heq⟩ := List.mem_map.mp hmem
      exact hnew e he heq
  | move l r e e' hxs hmoves =>
    subst hxs
    have he : e ∈ pre ++ (l ++ e :: r) ++ post := by simp
    have hsame := hmoves.same
    have hothers : Invariant s' (pre ++ (l ++ e :: r) ++ post) := by
      rcases hmoves.jobs with heq | ⟨call, _, _, heq, -⟩
      · rw [heq]
        exact h
      · rw [heq]
        exact h.step call
    refine ⟨hothers.inv, hothers.tokens, fun x hx => ?_, ?_⟩
    · have hcases : x ∈ pre ++ (l ++ e :: r) ++ post ∨ x = e' := by
        simp only [List.mem_append, List.mem_cons] at hx ⊢
        tauto
      rcases hcases with hold | rfl
      · exact hothers.ok x hold
      · exact (h.ok e he).moves h.inv hmoves
    · have hmap : (pre ++ (l ++ e' :: r) ++ post).map (·.leaseToken) =
          (pre ++ (l ++ e :: r) ++ post).map (·.leaseToken) := by
        simp [hsame.leaseToken]
      rw [hmap]
      exact h.distinct

theorem Fleet.step_invariant (action : FleetAction) (f : Fleet) (h : Invariant f.jobs f.executions) :
    Invariant (f.step action).jobs (f.step action).executions := by
  rcases f.step_change h.inv action with ⟨c, -, hexecs, hjobs⟩ | ⟨pre, post, xs, xs', hbefore, hafter, hchange⟩
  · rw [hexecs, hjobs]
    exact h.step c
  · rw [hafter]
    rw [hbefore] at h
    exact h.change hchange

theorem Invariant.empty : Invariant Db.empty [] where
  inv := Db.empty_inv
  tokens := List.nodup_nil
  ok _ he := absurd he List.not_mem_nil
  distinct := List.nodup_nil

/-- No worker has an execution at the start. -/
theorem Fleet.start_executions (configs : List WorkerConfig) : (Fleet.start configs).executions = [] := by
  unfold Fleet.executions Fleet.start
  rw [List.flatMap_map]
  simp

theorem Fleet.run_invariant (configs : List WorkerConfig) (actions : List FleetAction) :
    Invariant (Fleet.run configs actions).jobs (Fleet.run configs actions).executions := by
  refine Machine.run_invariant (I := fun f : Fleet => Invariant f.jobs f.executions) Fleet.step_invariant actions _ ?_
  rw [Fleet.start_executions]
  exact Invariant.empty

/-! ## Once -/

/-- Tokens tell attempts apart. -/
theorem attempt_of_token (htokens : s.TokensNodup) {a b : AttemptRow} (ha : a ∈ s.attempts) (hb : b ∈ s.attempts)
    (htoken : a.leaseToken = b.leaseToken) : a = b :=
  Table.eq_of_key (fun a : AttemptRow => a.leaseToken) htokens ha hb htoken

theorem Invariant.effective {es : List Execution} (h : Invariant s es) {e : Execution} (he : e ∈ es) {result : PyDict}
    (hphase : e.phase = .ended (.completed result)) : e.Effective s result := by
  have hok := h.ok e he
  have hdone := hok.completed result hphase
  refine ⟨?_, ?_, hdone.status, ?_⟩
  · obtain ⟨t, ht⟩ := Option.isSome_iff_exists.mp (hok.given (by rw [hphase]; rfl))
    obtain ⟨task, htask, rfl⟩ := hok.task t ht
    exact ⟨task, htask, ht⟩
  · obtain ⟨a, hby, htoken, -⟩ := hdone.attempt
    obtain ⟨b, hb, -, hbid, hbtoken⟩ := hok.attempt
    have hab : a = b :=
      attempt_of_token h.tokens (List.mem_of_mem_filter hby.1) hb (htoken.trans hbtoken.symm)
    exact ⟨a, hby, by rw [hab, hbid], htoken⟩
  · have hresult := hdone.result
    obtain ⟨serialized, hser, hget⟩ := (except_bind_ok_iff _ _ _).mp hresult
    exact ⟨serialized, hser, (Except.ok.inj hget).symm⟩

/-- Two executions that completed one job are one. -/
theorem Invariant.completed_le_one {es : List Execution} (h : Invariant s es) (j : Uuid) :
    es.countP (·.completes j) ≤ 1 := by
  rw [List.countP_eq_length_filter]
  have hsame : ∀ e ∈ es.filter (·.completes j), ∀ e' ∈ es.filter (·.completes j), e.leaseToken = e'.leaseToken := by
    have hcompleted : ∀ e ∈ es.filter (·.completes j), ∃ a, s.CompletedBy j a ∧ a.leaseToken = e.leaseToken := by
      intro e he
      obtain ⟨hmem, hcompletes⟩ := List.mem_filter.mp he
      unfold Execution.completes at hcompletes
      split at hcompletes
      · next result hphase =>
        obtain ⟨a, hby, -, htoken⟩ := (h.effective hmem hphase).attempt
        rw [of_decide_eq_true hcompletes] at hby
        exact ⟨a, hby, htoken⟩
      · cases hcompletes
    intro e he e' he'
    obtain ⟨a, hby, htoken⟩ := hcompleted e he
    obtain ⟨b, hby', htoken'⟩ := hcompleted e' he'
    rw [← htoken, ← htoken', hby.2.2 b hby'.1 hby'.2.1]
  have hdistinct : ((es.filter (·.completes j)).map (·.leaseToken)).Nodup :=
    h.distinct.sublist (List.filter_sublist.map _)
  generalize es.filter (·.completes j) = ended at hsame hdistinct ⊢
  rcases ended with _ | ⟨a, _ | ⟨b, rest⟩⟩
  · exact Nat.zero_le 1
  · exact Nat.le_refl 1
  · have htoken := hsame a (by simp) b (by simp)
    simp [htoken] at hdistinct

/-- The call that completes a job returns. -/
theorem exec_complete_ok (h : s.Inv) {j token : Uuid} {ref : String} {result : Option PyDict}
    (hbefore : s.status? j ≠ some .completed)
    (hafter : (step (.complete j token ref result now) s).status? j = some .completed) :
    ∃ v, (exec (.complete j token ref result now) s).1 = .ok v := by
  have hinv := step_inv (.complete j token ref result now) s h
  obtain ⟨row, hrow, -⟩ := Option.map_eq_some_iff.mp hafter
  obtain ⟨job, hjob, -⟩ := getJobAsserted_spec hinv hrow
  simp only [step, exec, answer_snd, complete, finish] at hafter hjob ⊢
  unfold transaction at hafter hjob ⊢
  cases hb : finishTx j token .completed .completed (some ref) none result now s with
  | error x =>
    rw [hb] at hafter
    exact absurd hafter hbefore
  | ok r =>
    obtain ⟨u, s'⟩ := r
    rw [hb] at hjob
    have hread : getJobAsserted s' j = .ok job := hjob
    show ∃ v, (getJobAsserted s' j).map (JobValue.job ∘ some) = .ok v
    rw [hread]
    exact ⟨_, rfl⟩

/-- Every completed job was completed by an execution. -/
def Completers (s : Db) (es : List Execution) : Prop :=
  ∀ j, s.status? j = some .completed → ∃ e ∈ es, e.completes j = true

theorem Completers.step {es : List Execution} (h : Completers s es) (hinv : s.Inv) {call : JobCall}
    (hcall : call.completes = false) : Completers (SqliteJobRepository.step call s) es :=
  fun j hj => h j (step_status_of_not_completes hinv hcall hj)

/-- An execution that completed its job is over with it. -/
theorem Execution.Moves.completes {e e' : Execution} {s' : Db} (hmoves : e.Moves s t e' s') {j : Uuid}
    (h : e.completes j = true) : e'.completes j = true := by
  have hphase : ∃ result, e.phase = .ended (.completed result) := by
    unfold Execution.completes at h
    split at h
    · next result hphase => exact ⟨result, hphase⟩
    · cases h
  obtain ⟨result, hphase⟩ := hphase
  have hwaits : ∀ {x : Execution}, e.Waits x → x.completes j = true := by
    intro x hx
    unfold Execution.completes at h ⊢
    rw [hx.phase, hx.jobId]
    exact h
  cases hmoves with
  | read =>
    unfold Execution.read
    rw [hphase]
    exact h
  | run outcome =>
    unfold Execution.run
    rw [hphase]
    exact h
  | settle now =>
    have hnone : e.settlement now = none := by
      unfold Execution.settlement
      rw [hphase]
    unfold Execution.settle
    rw [hnone]
    exact h
  | wake => exact hwaits e.waits_wake
  | check => exact hwaits (e.waits_check s)
  | beat leaseSeconds now => exact hwaits (e.waits_beat leaseSeconds now s)
  | finish => exact hwaits e.waits_finish

theorem Completers.move {pre post : List Execution} {e e' : Execution} {s' : Db}
    (h : Completers s (pre ++ e :: post)) (hinv : s.Inv) (hmoves : e.Moves s t e' s') :
    Completers s' (pre ++ e' :: post) := by
  have hkeep : ∀ j, (∃ x ∈ pre ++ e :: post, x.completes j = true) → ∃ x ∈ pre ++ e' :: post, x.completes j = true := by
    rintro j ⟨x, hx, hcompletes⟩
    rcases List.mem_append.mp hx with hx | hx
    · exact ⟨x, by simp [hx], hcompletes⟩
    · rcases List.mem_cons.mp hx with rfl | hx
      · exact ⟨e', by simp, hmoves.completes hcompletes⟩
      · exact ⟨x, by simp [hx], hcompletes⟩
  intro j hj
  by_cases hbefore : s.status? j = some .completed
  · exact hkeep j (h j hbefore)
  · cases hmoves with
    | settle now =>
      rcases e.settle_eq now s with heq | ⟨call, hcall, heq⟩
      · rw [heq] at hj
        exact absurd hj hbefore
      · rw [heq] at hj ⊢
        obtain ⟨token, ref, result, now', rfl, -⟩ := step_completed hinv hbefore hj
        obtain ⟨v, hok⟩ := exec_complete_ok hinv hbefore hj
        have hlease := e.settlement_lease hcall
        have hsome : (e.settlement now).isSome := by rw [hcall]; rfl
        obtain rfl : j = e.jobId := congrArg Prod.fst (Option.some.inj hlease)
        rcases e.settled_cases (exec _ s).1 hsome with ⟨result', v', -, -, hnext⟩ | ⟨_, x, -, hx, -⟩ |
          ⟨v', -, -, hnot⟩ | ⟨x, hx, -⟩ | ⟨x, hx, -⟩
        · refine ⟨{ e with phase := Execution.settledPhase (.ok v) e.phase }, by rw [hok]; simp, ?_⟩
          rw [hok] at hnext
          unfold Execution.completes
          rw [hnext]
          exact decide_eq_true rfl
        · rw [hok] at hx
          cases hx
        · obtain ⟨_, _, _, _, hfailure⟩ := Execution.settlement_failure hcall hnot
          cases hfailure
        · rw [hok] at hx
          cases hx
        · rw [hok] at hx
          cases hx
    | beat leaseSeconds now =>
      rcases e.beat_eq leaseSeconds now s with heq | heq
      · rw [heq] at hj
        exact absurd hj hbefore
      · rw [heq] at hj
        exact absurd (step_status_of_not_completes hinv rfl hj) hbefore
    | _ => exact absurd hj hbefore

theorem Completers.change {pre post xs xs' : List Execution} {s' : Db} (h : Completers s (pre ++ xs ++ post))
    (hinv : s.Inv) (hchange : Change s t xs xs' s') : Completers s' (pre ++ xs' ++ post) := by
  cases hchange with
  | none => exact h
  | reclaim now hnow => exact h.step hinv rfl
  | claim attemptId token workerId leaseSeconds now hnow job attempt hclaim =>
    intro j hj
    obtain ⟨e, he, hcompletes⟩ := h.step hinv rfl j hj
    refine ⟨e, ?_, hcompletes⟩
    simp only [List.mem_append] at he ⊢
    tauto
  | move l r e e' hxs hmoves =>
    subst hxs
    have hbefore : pre ++ (l ++ e :: r) ++ post = (pre ++ l) ++ e :: (r ++ post) := by simp
    have hafter : pre ++ (l ++ e' :: r) ++ post = (pre ++ l) ++ e' :: (r ++ post) := by simp
    rw [hbefore] at h
    rw [hafter]
    exact h.move hinv hmoves

/-- Callers that complete nothing leave all completions to the workers. -/
theorem Fleet.run_completers (configs : List WorkerConfig) (actions : List FleetAction)
    (hothers : ∀ c, .call c ∈ actions → c.completes = false) :
    Completers (Fleet.run configs actions).jobs (Fleet.run configs actions).executions := by
  induction actions using List.reverseRecOn with
  | nil =>
    intro j hj
    cases hj
  | append_singleton actions action ih =>
    have hinv := (Fleet.run_invariant configs actions).inv
    have hbefore := ih fun c hc => hothers c (List.mem_append_left _ hc)
    have hrun : Fleet.run configs (actions ++ [action]) = (Fleet.run configs actions).step action :=
      Machine.run_concat _ _ _ _
    rw [hrun]
    rcases Fleet.step_change hinv action with ⟨c, rfl, hexecs, hjobs⟩ | ⟨pre, post, xs, xs', hold, hnew, hchange⟩
    · rw [hexecs, hjobs]
      exact hbefore.step hinv (hothers c (by simp))
    · rw [hnew]
      rw [hold] at hbefore
      exact hbefore.change hinv hchange

end Fleets

/-- Effectively once. Whatever the workers of a repository and its other callers do, in any interleaving, with crashes
and with expired and reclaimed leases: at most one execution of a job ends by completing it, it was given the task of
the job with the id of its attempt, this attempt is the one that completed the job, and the result of the job is what
its executor returned. If no other caller completes jobs, each completed job has exactly one such execution. -/
theorem fleet_effectivelyOnce (configs : List WorkerConfig) (actions : List FleetAction) (j : Uuid) :
    (Fleet.run configs actions).executions.countP (·.completes j) ≤ 1 ∧
    (∀ e ∈ (Fleet.run configs actions).executions, ∀ result, e.phase = .ended (.completed result) →
      e.Effective (Fleet.run configs actions).jobs result) ∧
    ((∀ c, .call c ∈ actions → c.completes = false) → (Fleet.run configs actions).jobs.status? j = some .completed →
      (Fleet.run configs actions).executions.countP (·.completes j) = 1) := by
  have h := Fleet.run_invariant configs actions
  have hle := h.completed_le_one j
  refine ⟨hle, fun e he result hphase => h.effective he hphase, fun hothers hj => ?_⟩
  have hpos := List.countP_pos_iff.mpr (Fleet.run_completers configs actions hothers j hj)
  exact le_antisymm hle hpos

/-! ## Leases and executions -/

section Leases

variable {s s' : Db} {t : Option Datetime} {now : Datetime} {es : List Execution}

/-- At `now`, an execution whose lease is not over is at work or abandoned, and every attempt that has not ended is one
of an execution. -/
structure Leased (s : Db) (now : Datetime) (es : List Execution) : Prop where
  released : ∀ e ∈ es, e.Released s now
  owned : ∀ a ∈ s.attempts, a.endedAt = none → ∃ e ∈ es, e.leaseToken = a.leaseToken

theorem Leased.mono {later : Datetime} (h : Leased s now es) (hle : now ≤ later) : Leased s later es where
  released e he := (h.released e he).mono hle
  owned := h.owned

/-- The attempts after a call that have not ended were there before it, or the call has claimed them. -/
theorem owned_step (hinv : s.Inv) (howned : ∀ a ∈ s.attempts, a.endedAt = none → ∃ e ∈ es, e.leaseToken = a.leaseToken)
    (call : JobCall) {b : AttemptRow} (hb : b ∈ (step call s).attempts) (hopen : b.endedAt = none) :
    (∃ e ∈ es, e.leaseToken = b.leaseToken) ∨
      ∃ workerId leaseSeconds now, call = .claim b.attemptId b.leaseToken workerId leaseSeconds now := by
  obtain ⟨g, new, hstep⟩ := step_attempts hinv call
  rw [hstep.attempts] at hb
  rcases List.mem_append.mp hb with hold | hnew
  · left
    obtain ⟨a, ha, rfl⟩ := List.mem_map.mp hold
    have hturns := hstep.turns a ha
    have haopen : a.endedAt = none := by
      by_contra hended
      rw [hturns.of_ended hended] at hopen
      exact hended hopen
    obtain ⟨e, he, htoken⟩ := howned a ha haopen
    exact ⟨e, he, htoken.trans hturns.sameRun.leaseToken.symm⟩
  · exact Or.inr (hstep.fresh b hnew).2.2

theorem Leased.step (hinv : s.Inv) (h : Leased s now es) {call : JobCall} (hclaims : call.claims = false)
    (hnow : ∀ t, call.now? = some t → now ≤ t) : Leased (SqliteJobRepository.step call s) now es where
  released e he := (h.released e he).step hinv call hnow
  owned b hb hopen := by
    rcases owned_step hinv h.owned call hb hopen with howned | ⟨_, _, _, rfl⟩
    · exact howned
    · cases hclaims

theorem Leased.move {pre post : List Execution} {e e' : Execution} (hinv : Invariant s (pre ++ e :: post))
    (h : Leased s now (pre ++ e :: post)) (hmoves : e.Moves s t e' s') (hnow : ∀ later, t = some later → later = now) :
    Leased s' now (pre ++ e' :: post) := by
  have hafter : Leased s' now (pre ++ e :: post) := by
    rcases hmoves.jobs with heq | ⟨call, token, later, heq, hlease, ht⟩
    · rw [heq]
      exact h
    · rw [heq]
      obtain rfl := hnow later ht
      refine h.step hinv.inv ?_ fun u hu => ?_
      · cases call with
        | claim => cases hlease
        | _ => rfl
      · rw [now?_of_lease hlease] at hu
        cases hu
        exact Nat.le_refl _
  have he : e ∈ pre ++ e :: post := by simp
  refine ⟨fun x hx => ?_, fun a ha hopen => ?_⟩
  · rcases List.mem_append.mp hx with hx | hx
    · exact hafter.released x (by simp [hx])
    · rcases List.mem_cons.mp hx with rfl | hx
      · exact (h.released e he).moves hinv.inv (hinv.ok e he) hmoves hnow
      · exact hafter.released x (by simp [hx])
  · obtain ⟨x, hx, htoken⟩ := hafter.owned a ha hopen
    rcases List.mem_append.mp hx with hx | hx
    · exact ⟨x, by simp [hx], htoken⟩
    · rcases List.mem_cons.mp hx with rfl | hx
      · exact ⟨e', by simp, hmoves.same.leaseToken.trans htoken⟩
      · exact ⟨x, by simp [hx], htoken⟩

theorem Leased.change {pre post xs xs' : List Execution} (hinv : Invariant s (pre ++ xs ++ post))
    (h : Leased s now (pre ++ xs ++ post)) (hchange : Change s t xs xs' s')
    (hnow : ∀ later, t = some later → later = now) : Leased s' now (pre ++ xs' ++ post) := by
  cases hchange with
  | none => exact h
  | reclaim later ht =>
    obtain rfl := hnow later ht
    refine h.step hinv.inv rfl fun u hu => ?_
    cases hu
    exact Nat.le_refl _
  | claim attemptId token workerId leaseSeconds later ht job attempt hclaim =>
    obtain rfl := hnow later ht
    obtain ⟨hjob, htoken, hfresh, hattempts⟩ := claim_started hinv.inv hclaim
    have hkeep : ∀ e ∈ pre ++ xs ++ post, e ∈ pre ++ (xs ++ [.submitted job attempt]) ++ post := by
      intro e he
      simp only [List.mem_append] at he ⊢
      tauto
    refine ⟨fun e he => ?_, fun b hb hopen => ?_⟩
    · have hcases : e ∈ pre ++ xs ++ post ∨ e = .submitted job attempt := by
        simp only [List.mem_append, List.mem_singleton] at he ⊢
        tauto
      rcases hcases with hold | rfl
      · refine (h.released e hold).step hinv.inv _ fun u hu => ?_
        cases hu
        exact Nat.le_refl _
      · exact ⟨nofun, nofun⟩
    · rcases owned_step hinv.inv h.owned _ hb hopen with ⟨e, he, hetoken⟩ | ⟨_, _, _, hcall⟩
      · exact ⟨e, hkeep e he, hetoken⟩
      · refine ⟨.submitted job attempt, by simp, ?_⟩
        have hbtoken : token = b.leaseToken := by
          cases hcall
          rfl
        exact htoken.trans hbtoken
  | move l r e e' hxs hmoves =>
    subst hxs
    have hbefore : pre ++ (l ++ e :: r) ++ post = (pre ++ l) ++ e :: (r ++ post) := by simp
    have hafter : pre ++ (l ++ e' :: r) ++ post = (pre ++ l) ++ e' :: (r ++ post) := by simp
    rw [hbefore] at h hinv
    rw [hafter]
    exact h.move hinv hmoves hnow

theorem Leased.fleetStep {f : Fleet} {action : FleetAction} (hinv : Invariant f.jobs f.executions)
    (h : Leased f.jobs now f.executions) (hothers : ∀ c, action = .call c → c.claims = false)
    (hnow : ∀ later, action.now? = some later → later = now) :
    Leased (f.step action).jobs now (f.step action).executions := by
  rcases Fleet.step_change hinv.inv action with ⟨c, rfl, hexecs, hjobs⟩ | ⟨pre, post, xs, xs', hold, hnew, hchange⟩
  · rw [hexecs, hjobs]
    exact h.step hinv.inv (hothers c rfl) fun u hu => Nat.le_of_eq (congrArg _ (hnow u hu).symm)
  · rw [hold] at h hinv
    rw [hnew]
    exact h.change hinv hchange hnow

/-- The readings of the clock never go back, and no other caller claims jobs. -/
structure Orderly (actions : List FleetAction) : Prop where
  clock : (actions.filterMap FleetAction.now?).Pairwise (· ≤ ·)
  others : ∀ c, .call c ∈ actions → c.claims = false

theorem Orderly.init {actions : List FleetAction} {action : FleetAction} (h : Orderly (actions ++ [action])) :
    Orderly actions where
  clock := by
    have hclock := h.clock
    rw [List.filterMap_append, List.pairwise_append] at hclock
    exact hclock.1
  others c hc := h.others c (List.mem_append_left _ hc)

theorem Orderly.le {actions : List FleetAction} {action : FleetAction} (h : Orderly (actions ++ [action]))
    {before : FleetAction} (hbefore : before ∈ actions) {u v : Datetime} (hu : before.now? = some u)
    (hv : action.now? = some v) : u ≤ v := by
  have hclock := h.clock
  rw [List.filterMap_append, List.pairwise_append] at hclock
  exact hclock.2.2 u (List.mem_filterMap.mpr ⟨before, hbefore, hu⟩) v (by simp [hv])

theorem Fleet.run_leased (configs : List WorkerConfig) (actions : List FleetAction) (h : Orderly actions)
    (now : Datetime) (hlast : ∀ action ∈ actions, ∀ u, action.now? = some u → u ≤ now) :
    Leased (Fleet.run configs actions).jobs now (Fleet.run configs actions).executions := by
  induction actions using List.reverseRecOn generalizing now with
  | nil =>
    have hnone : (Fleet.run configs []).executions = [] := Fleet.start_executions configs
    rw [hnone]
    exact ⟨fun _ he => absurd he List.not_mem_nil, fun _ ha => absurd ha List.not_mem_nil⟩
  | append_singleton actions action ih =>
    have hinv := Fleet.run_invariant configs actions
    have hrun : Fleet.run configs (actions ++ [action]) = (Fleet.run configs actions).step action :=
      Machine.run_concat _ _ _ _
    have hothers : ∀ c, action = .call c → c.claims = false := fun c hc => h.others c (by simp [hc])
    have haction : action ∈ actions ++ [action] := by simp
    rw [hrun]
    cases hnow : action.now? with
    | none =>
      -- the step reads no clock
      have hbefore := ih h.init now fun a ha => hlast a (List.mem_append_left _ ha)
      exact hbefore.fleetStep hinv hothers fun later hlater => by
        rw [hnow] at hlater
        cases hlater
    | some u =>
      have hbefore := ih h.init u fun a ha v hv => h.le ha hv hnow
      have hafter := hbefore.fleetStep hinv hothers fun later hlater => by
        rw [hnow] at hlater
        exact (Option.some.inj hlater).symm
      exact hafter.mono (hlast action haction u hnow)

end Leases

/-! ## Slots -/

section Slots

variable {s s' : Db} {t : Option Datetime} {e e' : Execution} {w : Worker}

/-- An execution that is over stays over, and only one that is over gets done. -/
theorem Execution.Moves.isOver (h : e.Moves s t e' s') :
    (e.isOver = true → e'.isOver = true) ∧ (e.isDone = true → e'.isDone = true) ∧
      (e'.isDone = true → e.isDone = true ∨ e'.isOver = true) := by
  have hphase : ∀ {x : Execution}, x.phase = e.phase → e.isOver = true → x.isOver = true := by
    intro x hx hover
    unfold Execution.isOver at hover ⊢
    rw [hx]
    exact hover
  cases h with
  | read =>
    unfold Execution.read
    cases hstart : e.phase with
    | starting =>
      refine ⟨fun hover => ?_, ?_, ?_⟩
      · unfold Execution.isOver at hover
        rw [hstart] at hover
        cases hover
      all_goals
        dsimp only
        split
        · tauto
        · tauto
    | _ => exact ⟨id, id, Or.inl⟩
  | run outcome =>
    rcases e.run_eq outcome with heq | ⟨hexecuting, heq⟩
    · rw [heq]
      exact ⟨id, id, Or.inl⟩
    · rw [heq]
      refine ⟨fun hover => ?_, id, Or.inl⟩
      unfold Execution.isOver at hover
      rw [hexecuting] at hover
      cases hover
  | settle now =>
    rcases e.settle_eq now s with heq | ⟨call, hcall, heq⟩
    · rw [heq]
      exact ⟨id, id, Or.inl⟩
    · rw [heq]
      refine ⟨fun hover => ?_, id, Or.inl⟩
      unfold Execution.isOver at hover
      unfold Execution.settlement at hcall
      cases hp : e.phase with
      | ended ending =>
        rw [hp] at hcall
        cases hcall
      | _ =>
        rw [hp] at hover
        cases hover
  | wake =>
    unfold Execution.wake
    split
    · exact ⟨hphase rfl, id, Or.inl⟩
    · exact ⟨id, id, Or.inl⟩
  | check =>
    refine ⟨hphase (e.waits_check s).phase, ?_⟩
    unfold Execution.check
    split
    · split
      · exact ⟨id, Or.inl⟩
      · exact ⟨id, Or.inl⟩
      · split_ifs
        · exact ⟨id, Or.inl⟩
        · exact ⟨id, Or.inl⟩
    · exact ⟨id, Or.inl⟩
  | beat leaseSeconds now =>
    refine ⟨hphase (e.waits_beat leaseSeconds now s).phase, ?_⟩
    unfold Execution.beat
    split
    · dsimp only [Execution.heard]
      split
      · exact ⟨id, Or.inl⟩
      · split_ifs
        · exact ⟨id, Or.inl⟩
        · exact ⟨id, Or.inl⟩
    · exact ⟨id, Or.inl⟩
  | finish =>
    unfold Execution.finish
    split_ifs with hover
    · exact ⟨hphase rfl, fun _ => rfl, fun _ => Or.inr hover⟩
    · exact ⟨id, id, Or.inl⟩

/-- What holds of a worker on its own. -/
structure Worker.Ok (w : Worker) : Prop where
  slots : (w.active : ℤ) ≤ w.config.concurrency
  counted : ∀ n, w.loop = .counted n → w.active ≤ n
  reclaimed : ∀ n, w.loop = .reclaimed n → w.active ≤ n ∧ (n : ℤ) < w.config.concurrency
  drained : w.loop = .over → w.active = 0
  finished : ∀ e ∈ w.executions, e.isDone = true → e.isOver = true

/-- A worker with other executions, not more of them active. -/
theorem Worker.Ok.setExecutions (h : w.Ok) {es : List Execution}
    (hactive : es.countP (fun e => !e.isDone) ≤ w.active) (hdone : ∀ e ∈ es, e.isDone = true → e.isOver = true) :
    Worker.Ok { w with executions := es } := by
  obtain ⟨hslots, hcounted, hreclaimed, hover, -⟩ := h
  refine ⟨?_, fun n hn => ?_, fun n hn => ?_, fun hn => ?_, hdone⟩
  · exact le_trans (Int.ofNat_le.mpr hactive) hslots
  · exact le_trans hactive (hcounted n hn)
  · exact ⟨le_trans hactive (hreclaimed n hn).1, (hreclaimed n hn).2⟩
  · exact Nat.le_zero.mp (le_trans hactive (Nat.le_of_eq (hover hn)))

theorem Worker.Ok.stepOne (h : w.Ok) {i : ℕ} {g : Execution → Execution × Db}
    (hmoves : ∀ e : Execution, e.Moves s t (g e).1 (g e).2) : (w.stepOne i g s).1.Ok := by
  unfold Worker.stepOne
  split
  · exact h
  · next e he =>
    obtain ⟨l, r, hxs, hset⟩ := set_split he
    obtain ⟨hover, hdone, hnew⟩ := (hmoves e).isOver
    dsimp only
    rw [hset]
    refine h.setExecutions ?_ fun x hx hxdone => ?_
    · have hcount : w.active = (l ++ e :: r).countP fun e => !e.isDone := by
        unfold Worker.active
        rw [hxs]
      rw [hcount]
      simp only [List.countP_append, List.countP_cons]
      have hle : (if (!(g e).1.isDone) = true then 1 else 0) ≤ if (!e.isDone) = true then 1 else 0 := by
        by_cases hd : e.isDone = true
        · rw [hdone hd, hd]
        · rw [(Bool.not_eq_true _).mp hd]
          cases (g e).1.isDone with
          | true => exact Nat.zero_le 1
          | false => exact Nat.le_refl 1
      omega
    · have hmem : x ∈ w.executions ∨ x = (g e).1 := by
        rw [hxs]
        simp only [List.mem_append, List.mem_cons] at hx ⊢
        tauto
      have he' : e ∈ w.executions := by rw [hxs]; simp
      rcases hmem with hold | rfl
      · exact h.finished x hold hxdone
      · rcases hnew hxdone with hold | hnow
        · exact hover (h.finished e he' hold)
        · exact hnow

/-- A worker with another place in its loop, which its executions allow. -/
theorem Worker.Ok.setLoop (h : w.Ok) {loop : Loop} (hcounted : ∀ n, loop = .counted n → w.active ≤ n)
    (hreclaimed : ∀ n, loop = .reclaimed n → w.active ≤ n ∧ (n : ℤ) < w.config.concurrency)
    (hover : loop = .over → w.active = 0) : Worker.Ok { w with loop } :=
  ⟨h.slots, hcounted, hreclaimed, hover, h.finished⟩

theorem Worker.Ok.act (h : w.Ok) (action : WorkerAction) : (w.act action s).1.Ok := by
  unfold Worker.act
  split_ifs
  · exact h
  · cases action with
    | requestStop => exact ⟨h.slots, h.counted, h.reclaimed, h.drained, h.finished⟩
    | crash => exact ⟨h.slots, h.counted, h.reclaimed, h.drained, h.finished⟩
    | beginCycle =>
      dsimp only [Worker.beginCycle]
      split
      · split_ifs
        · exact h.setLoop nofun nofun nofun
        · exact h.setLoop nofun nofun nofun
      · exact h
    | leaveHook raises =>
      dsimp only [Worker.leaveHook]
      split
      · split_ifs
        · exact h.setLoop nofun nofun nofun
        · refine h.setLoop (fun n hn => ?_) nofun nofun
          cases hn
          exact Nat.le_refl _
      · exact h
    | reclaim now =>
      dsimp only [Worker.reclaim]
      split
      · next active hloop =>
        split
        · exact h.setLoop nofun nofun nofun
        · dsimp only
          split_ifs with hfull
          · exact h.setLoop nofun nofun nofun
          · refine h.setLoop nofun (fun n hn => ?_) nofun
            cases hn
            rw [not_or, not_le] at hfull
            exact ⟨h.counted active hloop, hfull.2⟩
      · exact h
    | claim attemptId token now =>
      dsimp only [Worker.claim]
      split
      · next active hloop =>
        split
        · exact h.setLoop nofun nofun nofun
        · exact h.setLoop nofun nofun nofun
        · next job attempt s' hclaim =>
          obtain ⟨hactive, hfree⟩ := h.reclaimed active hloop
          have hcount : (w.executions ++ [Execution.submitted job attempt]).countP (fun e => !e.isDone) =
              w.active + 1 := by
            rw [List.countP_append]
            rfl
          refine ⟨?_, nofun, nofun, nofun, fun e he hdone => ?_⟩
          · unfold Worker.active
            dsimp only
            rw [hcount]
            push_cast
            omega
          · rcases List.mem_append.mp he with hold | hnew
            · exact h.finished e hold hdone
            · rw [List.mem_singleton.mp hnew] at hdone
              cases hdone
      · exact h
    | drain =>
      dsimp only [Worker.drain]
      split
      · split_ifs with hnone
        · exact h.setLoop nofun nofun fun _ => hnone
        · exact h
      · exact h
    | read i => exact h.stepOne fun e => .read
    | run i outcome => exact h.stepOne fun e => .run outcome
    | settle i now => exact h.stepOne fun e => .settle now
    | wake i => exact h.stepOne fun e => .wake
    | check i => exact h.stepOne fun e => .check
    | beat i now => exact h.stepOne fun e => .beat w.config.leaseSeconds now
    | finish i => exact h.stepOne fun e => .finish

theorem Fleet.run_workers (configs : List WorkerConfig) (actions : List FleetAction) :
    ∀ w ∈ (Fleet.run configs actions).workers, w.Ok := by
  refine Machine.run_invariant (I := fun f : Fleet => ∀ w ∈ f.workers, w.Ok) (fun action f h => ?_) actions _ ?_
  · cases action with
    | call c => exact h
    | worker i action =>
      cases hw : f.workers[i]? with
      | none =>
        simp only [Fleet.step, hw]
        exact h
      | some w =>
        simp only [Fleet.step, hw]
        intro x hx
        rcases List.mem_or_eq_of_mem_set hx with hold | rfl
        · exact h x hold
        · exact (h w (List.mem_of_getElem? hw)).act action
  · intro w hw
    obtain ⟨config, -, rfl⟩ := List.mem_map.mp hw
    have hpos := config.concurrency_pos
    refine ⟨?_, nofun, nofun, nofun, fun e he => absurd he List.not_mem_nil⟩
    show (0 : ℤ) ≤ config.concurrency
    omega

end Slots

/-- Leases and drains. As long as the readings of the clock do not go back and only workers claim jobs: at every time,
each running job is worked on under its lease, or was abandoned or lost by a crash, or its lease has expired; a worker
never exceeds its concurrency; and a worker that was stopped has finished all that it started. -/
theorem fleet_works (configs : List WorkerConfig) (actions : List FleetAction) (h : Orderly actions) (now : Datetime)
    (hlast : ∀ action ∈ actions, ∀ u, action.now? = some u → u ≤ now) : (Fleet.run configs actions).Works now := by
  have hinv := Fleet.run_invariant configs actions
  have hleased := Fleet.run_leased configs actions h now hlast
  have hworkers := Fleet.run_workers configs actions
  refine ⟨fun job hjob hrun => ?_, fun w hw => (hworkers w hw).slots, fun w hw hover e he => ?_⟩
  · obtain ⟨key, hs⟩ := (hinv.inv.views job.jobId).sound (hinv.inv.view_of_mem hjob)
    obtain ⟨pre, a, hatt, hptr, hopen, -⟩ := hs.attempts.running hrun
    obtain ⟨ha, hid⟩ := Db.mem_view_attempts.mp (show a ∈ ((Fleet.run configs actions).jobs.view job.jobId).attempts by
      rw [hatt]
      simp)
    refine ⟨a, ha, hptr, ?_⟩
    obtain ⟨e, he, htoken⟩ := hleased.owned a ha hopen.1
    obtain ⟨b, hb, hbjob, hbid, hbtoken⟩ := (hinv.ok e he).attempt
    have hba : b = a := attempt_of_token hinv.tokens hb ha (hbtoken.trans htoken)
    by_cases hexp : a.leaseExpiresAt ≤ now
    · exact Or.inl hexp
    · right
      obtain ⟨w, hw, hew⟩ := List.mem_flatMap.mp he
      refine ⟨w, hw, e, hew, by rw [← hbjob, hba, hid], by rw [← hbid, hba], htoken, ?_⟩
      by_cases hover : e.isOver = true
      · rcases (hleased.released e he).ended hover with habandoned | ⟨c, hc, hctoken, hended⟩
        · exact Or.inr (Or.inr habandoned)
        · have hca : c = a := attempt_of_token hinv.tokens hc ha (hctoken.trans htoken)
          rw [hca] at hended
          rcases hended with hended | hpast
          · exact absurd hopen.1 hended
          · exact absurd hpast hexp
      · exact Or.inr (Or.inl ((Bool.not_eq_true _).mp hover))
  · have hactive := (hworkers w hw).drained hover
    unfold Worker.active at hactive
    rw [List.countP_eq_zero] at hactive
    have hdone := hactive e he
    exact (hworkers w hw).finished e he (by simpa using hdone)

def oneWorker : List WorkerConfig :=
  (WorkerConfig.validate "worker-1" 1 (.finite 30) (.finite 10) (.finite (1 / 4))).toOption.toList

/-- A job is enqueued, claimed and started, and its lease extended. -/
def heartbeatActions : List FleetAction :=
  [.call (.enqueue 1 1
      (some { taskId := 1, origin := "api", skill := "report", payload := [], confidenceThreshold := .finite (7 / 8) })
      "key" 0 none (.ofMicros 0)),
    .worker 0 .beginCycle, .worker 0 (.leaveHook false), .worker 0 (.reclaim (.ofMicros 1)),
    .worker 0 (.claim 1 1 (.ofMicros 2)), .worker 0 (.read 0), .worker 0 (.wake 0), .worker 0 (.check 0),
    .worker 0 (.beat 0 (.ofMicros 10000000))]

/-- The job is still worked on when the lease of its claim has expired. -/
theorem heartbeatActions_work :
    (Fleet.run oneWorker heartbeatActions).executions.map (fun e => (e.heartbeat, e.task.isSome)) = [(.waiting, true)] ∧
      (Fleet.run oneWorker heartbeatActions).Works (.ofMicros 35000000) := by
  refine ⟨by decide +kernel, fleet_works oneWorker heartbeatActions ⟨by decide +kernel, fun c hc => ?_⟩ _ ?_⟩
  · simp only [heartbeatActions, List.mem_cons, FleetAction.call.injEq, reduceCtorEq, List.not_mem_nil, or_false] at hc
    rw [hc]
    rfl
  · intro action haction u hu
    have hle : ∀ v ∈ heartbeatActions.filterMap FleetAction.now?, v ≤ .ofMicros 35000000 := by decide +kernel
    exact hle u (List.mem_filterMap.mpr ⟨action, haction, hu⟩)

end DurableWorker

end Galaxz