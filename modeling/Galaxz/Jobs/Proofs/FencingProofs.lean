import Galaxz.Jobs.Proofs.StoreInvariantProofs

/-!
# Proofs: fencing

A call under a lease that is not the job's active, unexpired one changes nothing; a job gets at most
one result, the one its completing attempt passed; and what a finished job is, it stays.
-/

namespace Galaxz

open SqliteJobRepository

/-! ## Stale leases -/

/-- The job, the lease token and the clock reading of a call that is made under a lease. -/
def JobCall.lease? : JobCall → Option (Uuid × Uuid × Datetime)
  | .heartbeat j token _ now => some (j, token, now)
  | .complete j token _ _ now => some (j, token, now)
  | .fail j token _ _ _ now => some (j, token, now)
  | .recordFailure j token _ _ _ _ now => some (j, token, now)
  | .enqueue .. | .claim .. | .cancel .. | .reclaimExpired .. | .pendingCompletions ..
  | .acknowledgeCompletion .. => none

/-- Every attempt with the token is not the active attempt of the job, or its lease has expired. -/
def Db.StaleLease (s : Db) (j token : Uuid) (now : Datetime) : Prop :=
  ∀ a ∈ s.attempts, a.leaseToken = token →
    (∀ job ∈ s.jobs, job.jobId = j → job.activeAttemptId ≠ some a.attemptId) ∨ a.leaseExpiresAt ≤ now

/-- The active attempt of a job, before its expiry, is not stale. -/
theorem Db.StaleLease.elim {s : Db} {j token : Uuid} {now : Datetime} (hstale : s.StaleLease j token now)
    {row : JobRow} {pre : List AttemptRow} {a : AttemptRow} (hrow : (s.view j).rows = [row])
    (hptr : row.activeAttemptId = some a.attemptId) (hatt : (s.view j).attempts = pre ++ [a])
    (htok : a.leaseToken = token) (hexp : now < a.leaseExpiresAt) : False := by
  have hamem : a ∈ (s.view j).attempts := by rw [hatt]; simp
  have hrmem : row ∈ (s.view j).rows := by rw [hrow]; simp
  obtain ⟨hjob, hid⟩ := Db.mem_view_rows.mp hrmem
  rcases hstale a (Db.mem_view_attempts.mp hamem).1 htok with hptr' | hle
  · exact hptr' row hjob hid hptr
  · exact Datetime.not_le.mpr hexp hle

/-- A transaction whose body returns only with the database as it was changes nothing. -/
theorem transaction_eq_self {β α : Type} {body : Db → Except PyError (β × Db)}
    {read : β → Db → Except PyError α} {s : Db} (h : ∀ b s', body s = .ok (b, s') → s' = s) :
    (transaction body read s).2 = s := by
  rcases transaction_state body read s with heq | ⟨b, hb⟩
  · exact heq
  · exact h b _ hb

theorem recordFailureTx_stale {s s' : Db} (h : s.Inv) {j token : Uuid}
    {error errorCode failureKind : String} {retryable : Bool} {now : Datetime} {u : Unit}
    (hstale : s.StaleLease j token now)
    (hok : recordFailureTx j token error errorCode failureKind retryable now s = .ok (u, s')) :
    s' = s := by
  obtain ⟨row, pre, a, _, _, _, hrow, _, hptr, hatt, _, _, htok, hexp, _, _, _⟩ :=
    recordFailureTx_cases h hok
  exact (hstale.elim hrow hptr hatt htok hexp).elim

/-- A call under a stale lease changes no table. -/
theorem step_staleLease {s : Db} (h : s.Inv) {call : JobCall} {j token : Uuid} {now : Datetime}
    (hlease : call.lease? = some (j, token, now)) (hstale : s.StaleLease j token now) :
    step call s = s := by
  cases call with
  | heartbeat j' token' leaseSeconds now' =>
    cases hlease
    simp only [step, exec, answer_snd, heartbeat]
    split_ifs
    · rfl
    · refine transaction_eq_self fun b s' hb => ?_
      unfold heartbeatTx at hb
      obtain ⟨a, ha, -⟩ := (except_bind_ok_iff _ _ _).mp hb
      obtain ⟨row, pre, hrow, -, hptr, hatt, -, -, htok, hexp⟩ := activeLease_spec h ha
      exact (hstale.elim hrow hptr hatt htok hexp).elim
  | complete j' token' ref result now' =>
    cases hlease
    simp only [step, exec, answer_snd, complete, finish]
    refine transaction_eq_self fun b s' hb => ?_
    -- the early return of a repeated completion writes nothing either
    rcases completeTx_cases h hb with ⟨heq, -⟩ |
      ⟨row, pre, a, _, _, hrow, _, hptr, hatt, _, _, htok, hexp, _⟩
    · exact heq
    · exact (hstale.elim hrow hptr hatt htok hexp).elim
  | fail j' token' error errorCode failureKind now' =>
    cases hlease
    simp only [step, exec, answer_snd, fail, recordFailure]
    exact transaction_eq_self fun b s' hb => recordFailureTx_stale h hstale hb
  | recordFailure j' token' error errorCode failureKind retryable now' =>
    cases hlease
    simp only [step, exec, answer_snd, recordFailure]
    exact transaction_eq_self fun b s' hb => recordFailureTx_stale h hstale hb
  | enqueue _ _ _ _ _ _ _ => cases hlease
  | claim _ _ _ _ _ => cases hlease
  | cancel _ _ => cases hlease
  | reclaimExpired _ => cases hlease
  | pendingCompletions _ => cases hlease
  | acknowledgeCompletion _ _ => cases hlease

/-! ## Finished jobs -/

/-- The job is finished, and has the same rows, attempts and results in both databases. -/
structure JobView.Frozen (v v' : JobView) : Prop where
  rows : v'.rows = v.rows
  attempts : v'.attempts = v.attempts
  outputs : v'.outputs = v.outputs

/-- No move changes a finished job; only its outbox entry may be acknowledged. -/
theorem Lifecycle.Step.frozen {v v' : JobView} (h : Lifecycle.Step v v') {row : JobRow}
    (hrow : v.rows = [row]) (hterm : row.status.terminal = true) : v.Frozen v' := by
  have hopen : ∀ row' : JobRow, v.rows = [row'] → row'.status.terminal = false → False := by
    intro row' hrow' hst
    rw [hrow] at hrow'
    obtain rfl : row = row' := by simpa using hrow'
    rw [hst] at hterm
    cases hterm
  cases h with
  | enqueue => cases hrow
  | acknowledge e now houtbox => exact ⟨rfl, rfl, rfl⟩
  | claim row' a t now hrow' hstatus => exact (hopen row' hrow' (by rw [hstatus]; rfl)).elim
  | renew row' pre a now expiry hrow' hstatus => exact (hopen row' hrow' (by rw [hstatus]; rfl)).elim
  | complete row' pre a t now error outputRef outputs outbox hrow' hstatus =>
    exact (hopen row' hrow' (by rw [hstatus]; rfl)).elim
  | release row' pre a t now availableAt target outcome failureKind errorCode error hrow' hstatus =>
    exact (hopen row' hrow' (by rw [hstatus]; rfl)).elim
  | cancelRunning row' pre a t now hrow' hstatus =>
    exact (hopen row' hrow' (by rw [hstatus]; rfl)).elim
  | cancelQueued row' t now hrow' hstatus => exact (hopen row' hrow' (by rw [hstatus]; rfl)).elim

/-- The jobs that are finished in the first database are so, and the same, in the second. -/
def Db.KeepsFinished (s s' : Db) : Prop :=
  ∀ j row, (s.view j).rows = [row] → row.status.terminal = true → (s.view j).Frozen (s'.view j)

theorem Db.KeepsFinished.refl (s : Db) : s.KeepsFinished s := fun _ _ _ _ => ⟨rfl, rfl, rfl⟩

theorem Db.KeepsFinished.trans {s t u : Db} (hst : s.KeepsFinished t) (htu : t.KeepsFinished u) :
    s.KeepsFinished u := by
  intro j row hrow hterm
  have h1 := hst j row hrow hterm
  have h2 := htu j row (h1.rows.trans hrow) hterm
  exact ⟨h2.rows.trans h1.rows, h2.attempts.trans h1.attempts, h2.outputs.trans h1.outputs⟩

theorem step_keepsFinished (call : JobCall) (s : Db) (h : s.Inv) : s.KeepsFinished (step call s) := by
  intro j row hrow hterm
  rcases (step_refines h call).views j with heq | hstep
  · rw [heq]
    exact ⟨rfl, rfl, rfl⟩
  · exact hstep.frozen hrow hterm

/-- No continuation of a run changes a finished job. -/
theorem run_keepsFinished (calls more : List JobCall) :
    (run calls).KeepsFinished (run (calls ++ more)) := by
  unfold run
  rw [Machine.run_append]
  exact Machine.run_rel step_inv Db.KeepsFinished.refl Db.KeepsFinished.trans step_keepsFinished more _
    (run_inv calls)

/-! ## Results -/

/-- A stored result belongs to a completed job. -/
theorem Db.Inv.completed_of_output {s : Db} (h : s.Inv) {o : OutputRow} (ho : o ∈ s.outputs) :
    ∃ row key, (s.view o.jobId).Sound row key ∧ row.status = .completed := by
  have hmem : o ∈ (s.view o.jobId).outputs := List.mem_filter.mpr ⟨ho, decide_eq_true rfl⟩
  rcases h.views o.jobId with habs | ⟨row, key, hs⟩
  · rw [habs] at hmem
    cases hmem
  · refine ⟨row, key, hs, ?_⟩
    by_contra hst
    rw [(hs.pending hst).1] at hmem
    cases hmem

/-- A job has at most one stored result. -/
theorem Db.Inv.outputs_le_one {s : Db} (h : s.Inv) (j : Uuid) : (s.outputsOf j).length ≤ 1 := by
  have hview : s.outputsOf j = (s.view j).outputs := rfl
  rw [hview]
  rcases h.views j with habs | ⟨row, key, hs⟩
  · rw [habs]
    exact Nat.zero_le 1
  · by_cases hst : row.status = .completed
    · obtain ⟨-, pre, a, hatt, -⟩ := hs.attempts.completed hst
      rcases hs.finished hst a (by rw [hatt]; simp) with ⟨ho, -⟩ | ⟨o, ho, -⟩
      · rw [ho]
        exact Nat.zero_le 1
      · rw [ho]
        exact Nat.le_refl 1
    · rw [(hs.pending hst).1]
      exact Nat.zero_le 1

/-- The one attempt that completed its job. -/
def Db.CompletedBy (s : Db) (j : Uuid) (a : AttemptRow) : Prop :=
  a ∈ s.attemptsOf j ∧ a.outcome = some .completed ∧
    ∀ b ∈ s.attemptsOf j, b.outcome = some .completed → b = a

/-- A completed job has one completing attempt, the last. -/
theorem completedBy_last {s : Db} {j : Uuid} {pre : List AttemptRow} {a : AttemptRow}
    (hatt : (s.view j).attempts = pre ++ [a]) (hout : a.outcome = some .completed)
    (hpre : ∀ x ∈ pre, x.Spent) : s.CompletedBy j a := by
  have hatt' : s.attemptsOf j = pre ++ [a] := hatt
  refine ⟨by rw [hatt']; simp, hout, fun b hb hbout => ?_⟩
  rw [hatt'] at hb
  rcases List.mem_append.mp hb with hb | hb
  · exact absurd hbout (hpre b hb).2.2
  · exact List.mem_singleton.mp hb

/-! Only `enqueue` writes to `job_idempotency` and `job_tasks`, and only `complete` to `job_outputs`. -/

/-- The tables that the moves of a job between its submission and its completion leave alone. -/
def Db.records (s : Db) : List IdempotencyRow × List TaskRow × List OutputRow :=
  (s.idempotency, s.tasks, s.outputs)

/-- What the body of a transaction keeps, the transaction keeps. -/
theorem transaction_frame {β α γ : Type} (f : Db → γ) {body : Db → Except PyError (β × Db)}
    {read : β → Db → Except PyError α} {s : Db} (h : ∀ b s', body s = .ok (b, s') → f s' = f s) :
    f (transaction body read s).2 = f s := by
  rcases transaction_state body read s with heq | ⟨b, hb⟩
  · rw [heq]
  · exact h b _ hb

theorem enqueueTx_outputs {s s' : Db} {candidate : Job} {task : Option TaskContract} {now : Datetime}
    {res : Option JobRow} (h : enqueueTx candidate task now s = .ok (res, s')) :
    s'.outputs = s.outputs := by
  rcases enqueueTx_cases h with ⟨row, text, -, -, rfl⟩ | ⟨-, -, -, -, rfl⟩
  · rfl
  · rfl

theorem claimTx_records {s s' : Db} {attemptId token : Uuid} {workerId : String}
    {leaseSeconds : PyFloat} {now : Datetime} {res : Option ExecutionAttempt}
    (h : claimTx attemptId token workerId leaseSeconds now s = .ok (res, s')) :
    s'.records = s.records := by
  rcases claimTx_cases h with ⟨-, rfl, -⟩ | ⟨row, expires, attempt, _, -, -, -, -, -, rfl, rfl⟩
  · rfl
  · rfl

theorem cancelTx_records {s s' : Db} {j : Uuid} {now : Datetime} {u : Unit}
    (h : cancelTx j now s = .ok (u, s')) : s'.records = s.records := by
  unfold cancelTx at h
  split at h
  · cases h
  · split_ifs at h
    · cases h
      rfl
    all_goals
      obtain ⟨-, -, h⟩ := (except_bind_ok_iff _ _ _).mp h
      cases h
      rfl

theorem reclaimAll_records {now : Datetime} (jobs : List JobRow) :
    ∀ {s s' : Db}, reclaimAll now jobs s = .ok s' → s'.records = s.records := by
  induction jobs with
  | nil =>
    intro s s' h
    cases h
    rfl
  | cons job jobs ih =>
    intro s s' h
    obtain ⟨s1, h1, h⟩ := (except_bind_ok_iff _ _ _).mp h
    obtain ⟨-, -, h1⟩ := (except_bind_ok_iff _ _ _).mp h1
    obtain ⟨delay, -, h1⟩ := (except_bind_ok_iff _ _ _).mp h1
    obtain ⟨availableAt, -, h1⟩ := (except_bind_ok_iff _ _ _).mp h1
    have hs1 : s1.records = s.records := by
      cases h1
      rfl
    exact (ih h).trans hs1

theorem heartbeatTx_records {s s' : Db} {j token : Uuid} {leaseSeconds : PyFloat} {now : Datetime}
    {a : AttemptRow} (h : heartbeatTx j token leaseSeconds now s = .ok (a, s')) :
    s'.records = s.records := by
  obtain ⟨row, -, h⟩ := (except_bind_ok_iff _ _ _).mp h
  obtain ⟨expiry, -, h⟩ := (except_bind_ok_iff _ _ _).mp h
  cases h
  rfl

theorem reclaimTx_records {s s' : Db} {now : Datetime} {ids : List Uuid}
    (h : reclaimTx now s = .ok (ids, s')) : s'.records = s.records := by
  obtain ⟨s1, hall, h⟩ := (except_bind_ok_iff _ _ _).mp h
  cases h
  exact reclaimAll_records _ hall

theorem recordFailureTx_records {s s' : Db} (h : s.Inv) {j token : Uuid}
    {error errorCode failureKind : String} {retryable : Bool} {now : Datetime} {u : Unit}
    (hb : recordFailureTx j token error errorCode failureKind retryable now s = .ok (u, s')) :
    s'.records = s.records := by
  obtain ⟨row, pre, a, availableAt, target, reason, -, -, -, -, -, -, -, -, -, -, rfl⟩ :=
    recordFailureTx_cases h hb
  rfl

/-- The calls that neither submit nor complete a job. -/
def JobCall.keepsRecords : JobCall → Bool
  | .enqueue .. | .complete .. => false
  | _ => true

theorem step_records {s : Db} (h : s.Inv) {call : JobCall} (hcall : call.keepsRecords = true) :
    (step call s).records = s.records := by
  cases call with
  | enqueue jobId taskId task key priority policy now => cases hcall
  | claim attemptId token workerId leaseSeconds now =>
    simp only [step, exec, answer_snd, claim]
    split_ifs
    · rfl
    · exact transaction_frame Db.records fun b s' hb => claimTx_records hb
  | heartbeat j token leaseSeconds now =>
    simp only [step, exec, answer_snd, heartbeat]
    split_ifs
    · rfl
    · exact transaction_frame Db.records fun b s' hb => heartbeatTx_records hb
  | complete j token ref result now => cases hcall
  | fail j token error errorCode failureKind now =>
    simp only [step, exec, answer_snd, fail, recordFailure]
    exact transaction_frame Db.records fun b s' hb => recordFailureTx_records h hb
  | recordFailure j token error errorCode failureKind retryable now =>
    simp only [step, exec, answer_snd, recordFailure]
    exact transaction_frame Db.records fun b s' hb => recordFailureTx_records h hb
  | cancel j now =>
    simp only [step, exec, answer_snd, cancel]
    exact transaction_frame Db.records fun b s' hb => cancelTx_records hb
  | reclaimExpired now =>
    simp only [step, exec, answer_snd, reclaimExpired]
    exact transaction_frame Db.records fun b s' hb => reclaimTx_records hb
  | pendingCompletions limit => rfl
  | acknowledgeCompletion j now => rfl

/-- A call leaves the results alone, or it is a `complete` call that stores the first result of its job
for the attempt whose lease it carries. -/
theorem step_outputs {s : Db} (h : s.Inv) (call : JobCall) :
    (step call s).outputs = s.outputs ∨
    ∃ j a ref result now serialized, call = .complete j a.leaseToken ref (some result) now ∧
      result.dumps = .ok serialized ∧ s.outputsOf j = [] ∧ (step call s).CompletedBy j a ∧
      (step call s).outputs = s.outputs ++ [⟨j, serialized, now⟩] := by
  by_cases hcall : call.keepsRecords = true
  · exact Or.inl (congrArg (fun records => records.2.2) (step_records h hcall))
  cases call with
  | enqueue jobId taskId task key priority policy now =>
    left
    simp only [step, exec, answer_snd, enqueue]
    split_ifs
    · rfl
    · split
      · rfl
      · exact transaction_frame Db.outputs fun b s' hb => enqueueTx_outputs hb
  | complete j token ref result now =>
    simp only [step, exec, answer_snd, complete, finish]
    rcases transaction_state (finishTx j token .completed .completed (some ref) none result now)
      (fun _ s => getJobAsserted s j) s with heq | ⟨u, hb⟩
    · left
      rw [heq]
    · set s' := (transaction (finishTx j token .completed .completed (some ref) none result now)
        (fun _ s => getJobAsserted s j) s).2
      rcases completeTx_view h hb with heq |
        ⟨row, pre, a, t, outs, box, hrow, hrun, hatt, rfl, _, _, hpre, hrows, houts, _, _, hself⟩
      · left
        rw [heq]
      · cases result with
        | none =>
          left
          rw [houts, hrows.1, List.append_nil]
        | some result =>
          obtain ⟨serialized, hser, rfl, -⟩ := hrows
          obtain ⟨key, hs⟩ := (h.views j).sound hrow
          refine Or.inr ⟨j, finishAttempt .completed none (some ref) now a, ref, result, now, serialized,
            rfl, hser, (hs.pending (by rw [hrun]; decide)).1, ?_, houts⟩
          exact completedBy_last (by rw [hself]) rfl hpre
  | _ => exact absurd rfl hcall

/-- The stored result came from a `complete` call of the run, made under the lease of the one attempt
that completed the job, when the job had no result. -/
def StoredBy (calls : List JobCall) (s : Db) (o : OutputRow) : Prop :=
  ∃ a before ref result after,
    calls = before ++ .complete o.jobId a.leaseToken ref (some result) o.createdAt :: after ∧
    result.dumps = .ok o.result ∧ getResult (run before) o.jobId = none ∧ s.CompletedBy o.jobId a

theorem run_storedBy (calls : List JobCall) :
    ∀ o ∈ (run calls).outputs, StoredBy calls (run calls) o := by
  induction calls using List.reverseRecOn with
  | nil =>
    intro o ho
    cases ho
  | append_singleton calls call ih =>
    intro o ho
    have h := run_inv calls
    have hrun : run (calls ++ [call]) = step call (run calls) := Machine.run_concat _ _ _ _
    rw [hrun] at ho ⊢
    -- a result that was there before: its job is completed, so its attempts stay
    have hold : o ∈ (run calls).outputs → StoredBy (calls ++ [call]) (step call (run calls)) o := by
      intro ho
      obtain ⟨a, before, ref, result, after, hcalls, hdumps, hnone, hby⟩ := ih o ho
      obtain ⟨row, key, hs, hst⟩ := h.completed_of_output ho
      have hfrozen := step_keepsFinished call _ h o.jobId row hs.rows (by rw [hst]; rfl)
      have hatt : (step call (run calls)).attemptsOf o.jobId = (run calls).attemptsOf o.jobId :=
        hfrozen.attempts
      refine ⟨a, before, ref, result, after ++ [call], by rw [hcalls]; simp, hdumps, hnone, ?_⟩
      unfold Db.CompletedBy
      rw [hatt]
      exact hby
    rcases step_outputs h call with heq |
      ⟨j, a, ref, result, now, serialized, rfl, hdumps, hnone, hby, houts⟩
    · rw [heq] at ho
      exact hold ho
    · rw [houts] at ho
      rcases List.mem_append.mp ho with ho | ho
      · exact hold ho
      · rw [List.mem_singleton.mp ho]
        refine ⟨a, calls, ref, result, [], rfl, hdumps, ?_, hby⟩
        unfold getResult
        rw [← List.head?_filter]
        exact congrArg (fun outs : List OutputRow => outs.head?.map (·.result)) hnone

/-- Fencing. In every reachable database: a call under a lease that is not the active, unexpired lease
of its job changes nothing; a job has at most one stored result, which a `complete` call passed under
the lease of the attempt that completed it; and no continuation of the run changes a stored result, or
the status and the result of a finished job. -/
theorem run_fencing (calls : List JobCall) :
    (∀ call j token now, call.lease? = some (j, token, now) → (run calls).StaleLease j token now →
      step call (run calls) = run calls) ∧
    (∀ j, ((run calls).outputsOf j).length ≤ 1) ∧
    (∀ o ∈ (run calls).outputs, StoredBy calls (run calls) o) ∧
    (∀ more j result, getResult (run calls) j = some result →
      getResult (run (calls ++ more)) j = some result) ∧
    ∀ more j status, (run calls).status? j = some status → status.terminal = true →
      (run (calls ++ more)).status? j = some status ∧
      getResult (run (calls ++ more)) j = getResult (run calls) j := by
  have h := run_inv calls
  have hget : ∀ (s : Db) (j : Uuid), getResult s j = (s.view j).outputs.head?.map (·.result) := by
    intro s j
    unfold getResult
    rw [← List.head?_filter]
    rfl
  refine ⟨fun call j token now => step_staleLease h, h.outputs_le_one, run_storedBy calls, ?_, ?_⟩
  · intro more j result hres
    obtain ⟨o, ho, -⟩ := Option.map_eq_some_iff.mp hres
    have hid : o.jobId = j := by simpa using List.find?_some ho
    obtain ⟨row, key, hs, hst⟩ := h.completed_of_output (List.mem_of_find?_eq_some ho)
    rw [hid] at hs
    have hfrozen := run_keepsFinished calls more j row hs.rows (by rw [hst]; rfl)
    rw [hget] at hres ⊢
    rw [hfrozen.outputs, hres]
  · intro more j status hst hterm
    obtain ⟨row, hrow, rfl⟩ := Option.map_eq_some_iff.mp hst
    have hrows := h.job?_eq_some.mp hrow
    have hfrozen := run_keepsFinished calls more j row hrows hterm
    rw [Db.status?_eq, hget, hget, hfrozen.rows, hfrozen.outputs, hrows]
    exact ⟨rfl, rfl⟩

end Galaxz
