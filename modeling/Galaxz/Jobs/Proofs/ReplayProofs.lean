import Galaxz.Jobs.Proofs.FencingProofs

/-!
# Proofs: repeated completions

A worker that does not hear the answer to `complete` calls it again. Whatever happened to the
repository in between, the same completion is accepted and changes nothing, any other one is rejected
and changes nothing, and the result of the job stays the one it was completed with.
-/

namespace Galaxz

open SqliteJobRepository

/-- `json.dumps(result, sort_keys=True)` of an optional result. -/
def canonicalJson : Option PyDict → Except PyError (Option PyDict)
  | none => .ok none
  | some result => do return some (← result.dumps)

/-! ## The call that completed a job -/

/-- The transitions to `completed`. -/
def Db.completions (s : Db) : List TransitionRow := s.transitions.filter (·.toStatus = .completed)

/-- Logging any other transition adds no completion. -/
theorem Db.completions_recordTransition {s : Db} {j : Uuid} {current : Option JobStatus}
    {target : JobStatus} {reason : String} {now : Datetime} (htarget : target ≠ .completed) :
    (s.recordTransition j current target reason now).completions = s.completions := by
  unfold Db.completions Db.recordTransition
  rw [List.filter_append]
  simp [htarget]

theorem enqueueTx_completions {s s' : Db} {candidate : Job} {task : Option TaskContract}
    {now : Datetime} {res : Option JobRow} (h : enqueueTx candidate task now s = .ok (res, s')) :
    s'.completions = s.completions := by
  rcases enqueueTx_cases h with ⟨row, text, -, -, rfl⟩ | ⟨-, -, -, -, rfl⟩
  · rfl
  · exact Db.completions_recordTransition (by decide)

theorem claimTx_completions {s s' : Db} {attemptId token : Uuid} {workerId : String}
    {leaseSeconds : PyFloat} {now : Datetime} {res : Option ExecutionAttempt}
    (h : claimTx attemptId token workerId leaseSeconds now s = .ok (res, s')) :
    s'.completions = s.completions := by
  rcases claimTx_cases h with ⟨-, rfl, -⟩ | ⟨row, expires, attempt, _, -, -, -, -, -, rfl, rfl⟩
  · rfl
  · exact Db.completions_recordTransition (by decide)

theorem heartbeatTx_completions {s s' : Db} {j token : Uuid} {leaseSeconds : PyFloat}
    {now : Datetime} {a : AttemptRow} (h : heartbeatTx j token leaseSeconds now s = .ok (a, s')) :
    s'.completions = s.completions := by
  obtain ⟨row, -, h⟩ := (except_bind_ok_iff _ _ _).mp h
  obtain ⟨expiry, -, h⟩ := (except_bind_ok_iff _ _ _).mp h
  cases h
  rfl

theorem recordFailureTx_completions {s s' : Db} (h : s.Inv) {j token : Uuid}
    {error errorCode failureKind : String} {retryable : Bool} {now : Datetime} {u : Unit}
    (hb : recordFailureTx j token error errorCode failureKind retryable now s = .ok (u, s')) :
    s'.completions = s.completions := by
  obtain ⟨row, pre, a, availableAt, target, reason, -, -, -, -, -, -, -, -, htarget, -, rfl⟩ :=
    recordFailureTx_cases h hb
  refine Db.completions_recordTransition ?_
  rw [htarget]
  split_ifs <;> decide

theorem cancelTx_completions {s s' : Db} {j : Uuid} {now : Datetime} {u : Unit}
    (h : cancelTx j now s = .ok (u, s')) : s'.completions = s.completions := by
  unfold cancelTx at h
  split at h
  · cases h
  · split_ifs at h
    · cases h
      rfl
    all_goals
      obtain ⟨-, -, h⟩ := (except_bind_ok_iff _ _ _).mp h
      cases h
      exact Db.completions_recordTransition (by decide)

theorem reclaimAll_completions {now : Datetime} (jobs : List JobRow) :
    ∀ {s s' : Db}, reclaimAll now jobs s = .ok s' → s'.completions = s.completions := by
  induction jobs with
  | nil =>
    intro s s' h
    cases h
    rfl
  | cons job jobs ih =>
    intro s s' h
    obtain ⟨s1, h1, h⟩ := (except_bind_ok_iff _ _ _).mp h
    obtain ⟨-, -, h1⟩ := (except_bind_ok_iff _ _ _).mp h1
    obtain ⟨delay, -, h1⟩ := (except_bind_ok_iff _ _ _).mp h1
    obtain ⟨availableAt, -, h1⟩ := (except_bind_ok_iff _ _ _).mp h1
    have hs1 : s1.completions = s.completions := by
      cases h1
      refine Db.completions_recordTransition ?_
      split_ifs <;> decide
    exact (ih h).trans hs1

/-- Only `complete` logs a completion. -/
theorem step_completions {s : Db} (h : s.Inv) {call : JobCall} (hcall : call.completes = false) :
    (step call s).completions = s.completions := by
  cases call with
  | enqueue jobId taskId task key priority policy now =>
    simp only [step, exec, answer_snd, enqueue]
    split_ifs
    · rfl
    · split
      · rfl
      · exact transaction_frame Db.completions fun b s' hb => enqueueTx_completions hb
  | claim attemptId token workerId leaseSeconds now =>
    simp only [step, exec, answer_snd, claim]
    split_ifs
    · rfl
    · exact transaction_frame Db.completions fun b s' hb => claimTx_completions hb
  | heartbeat j token leaseSeconds now =>
    simp only [step, exec, answer_snd, heartbeat]
    split_ifs
    · rfl
    · exact transaction_frame Db.completions fun b s' hb => heartbeatTx_completions hb
  | complete j token ref result now => cases hcall
  | fail j token error errorCode failureKind now =>
    simp only [step, exec, answer_snd, fail, recordFailure]
    exact transaction_frame Db.completions fun b s' hb => recordFailureTx_completions h hb
  | recordFailure j token error errorCode failureKind retryable now =>
    simp only [step, exec, answer_snd, recordFailure]
    exact transaction_frame Db.completions fun b s' hb => recordFailureTx_completions h hb
  | cancel j now =>
    simp only [step, exec, answer_snd, cancel]
    exact transaction_frame Db.completions fun b s' hb => cancelTx_completions hb
  | reclaimExpired now =>
    simp only [step, exec, answer_snd, reclaimExpired]
    refine transaction_frame Db.completions fun b s' hb => ?_
    obtain ⟨s1, hall, hb⟩ := (except_bind_ok_iff _ _ _).mp hb
    cases hb
    exact reclaimAll_completions _ hall
  | pendingCompletions limit => rfl
  | acknowledgeCompletion j now => rfl

/-- The `complete` call of the run that completed the job: the job was not completed before the call,
and was after it. -/
def CompletedIn (calls : List JobCall) (j token : Uuid) (ref : String) (result : Option PyDict) :
    Prop :=
  ∃ before now after, calls = before ++ .complete j token ref result now :: after ∧
    (run before).status? j ≠ some .completed ∧
    (run (before ++ [.complete j token ref result now])).status? j = some .completed

/-- What a completed job holds of the call that completed it. -/
structure Db.Completed (s : Db) (j token : Uuid) (ref : String) (result : Option PyDict) : Prop where
  status : s.status? j = some .completed
  attempt : ∃ a, s.CompletedBy j a ∧ a.leaseToken = token ∧ a.outputRef = some ref
  result : canonicalJson result = .ok (getResult s j)

/-- `get_result` reads the result of the view. -/
theorem getResult_eq (s : Db) (j : Uuid) :
    getResult s j = (s.view j).outputs.head?.map (·.result) := by
  unfold getResult
  rw [← List.head?_filter]
  rfl

/-- What a job that turns completed logs. -/
theorem completions_log (s : Db) (j : Uuid) :
    ((s.view j).log.filter (·.toStatus = .completed)) = s.completions.filter (·.jobId = j) := by
  unfold Db.completions
  rw [List.filter_comm]
  rfl

/-- No other call turns a job completed. -/
theorem step_status_of_not_completes {s : Db} (h : s.Inv) {call : JobCall} {j : Uuid}
    (hcall : call.completes = false) (hafter : (step call s).status? j = some .completed) :
    s.status? j = some .completed := by
  rw [Db.status?_eq] at hafter ⊢
  rcases (step_refines h call).views j with heq | hstep
  · rw [← heq]
    exact hafter
  · rcases hstep.log_step with ⟨-, hsame⟩ | ⟨t, hlog, -, hto, -⟩
    · rw [← hsame]
      exact hafter
    · -- the move would have logged a completion
      exfalso
      have hcompleted : t.toStatus = .completed := by
        rw [hafter] at hto
        exact (Option.some.inj hto).symm
      have hkept := completions_log (step call s) j
      rw [step_completions h hcall, ← completions_log s j, hlog, List.filter_append] at hkept
      have hlength := congrArg List.length hkept
      simp [hcompleted] at hlength

/-- A call that turns a job completed is a `complete` call for it, and leaves what it passed. -/
theorem step_completed {s : Db} (h : s.Inv) {call : JobCall} {j : Uuid}
    (hbefore : s.status? j ≠ some .completed) (hafter : (step call s).status? j = some .completed) :
    ∃ token ref result now, call = .complete j token ref result now ∧
      (step call s).Completed j token ref result := by
  cases hcall : call.completes with
  | false => exact absurd (step_status_of_not_completes h hcall hafter) hbefore
  | true =>
    cases call with
    | complete i token ref result now =>
      simp only [step, exec, answer_snd, complete, finish] at hafter ⊢
      rcases transaction_state (finishTx i token .completed .completed (some ref) none result now)
        (fun _ s => getJobAsserted s i) s with heq | ⟨u, hb⟩
      · rw [heq] at hafter
        exact absurd hafter hbefore
      · set s' := (transaction (finishTx i token .completed .completed (some ref) none result now)
          (fun _ s => getJobAsserted s i) s).2
        rcases completeTx_view h hb with heq |
          ⟨row, pre, a, t, outs, box, -, -, -, htok, -, -, hpre, hrows, -, -, hother, hself⟩
        · rw [heq] at hafter
          exact absurd hafter hbefore
        · obtain rfl : j = i := by
            by_contra hne
            rw [Db.status?_eq, hother j hne, ← Db.status?_eq] at hafter
            exact hbefore hafter
          refine ⟨token, ref, result, now, rfl, hafter, ?_, ?_⟩
          · refine ⟨finishAttempt .completed none (some ref) now a, ?_, htok, rfl⟩
            exact completedBy_last (by rw [hself]) rfl hpre
          · have houts : (s'.view j).outputs = outs := by rw [hself]
            rw [getResult_eq, houts]
            cases result with
            | none =>
              rw [hrows.1]
              rfl
            | some result =>
              obtain ⟨serialized, hser, rfl, -⟩ := hrows
              simp only [canonicalJson, hser]
              rfl
    | _ => cases hcall

/-- A completed job was completed by a call of the run. -/
theorem completedIn_of_completed (calls : List JobCall) (j : Uuid)
    (hdone : (run calls).status? j = some .completed) :
    ∃ token ref result, CompletedIn calls j token ref result := by
  induction calls using List.reverseRecOn with
  | nil => cases hdone
  | append_singleton calls call ih =>
    have hrun : run (calls ++ [call]) = step call (run calls) := Machine.run_concat _ _ _ _
    by_cases hbefore : (run calls).status? j = some .completed
    · obtain ⟨token, ref, result, before, now, after, rfl, hopen, hcompleted⟩ := ih hbefore
      exact ⟨token, ref, result, before, now, after ++ [call], by simp, hopen, hcompleted⟩
    · have hstep : (step call (run calls)).status? j = some .completed := by
        rw [← hrun]
        exact hdone
      obtain ⟨token, ref, result, now, rfl, -⟩ := step_completed (run_inv calls) hbefore hstep
      exact ⟨token, ref, result, calls, now, [], rfl, hbefore, hdone⟩

/-! ## Afterwards -/

/-- What a completed job holds, it keeps. -/
theorem Db.Completed.keeps {s s' : Db} (hkeeps : s.KeepsFinished s') {j token : Uuid} {ref : String}
    {result : Option PyDict} (h : s.Completed j token ref result) (hs : s.Inv) :
    s'.Completed j token ref result := by
  obtain ⟨row, hrow, hstatus⟩ := Option.map_eq_some_iff.mp h.status
  have hfrozen := hkeeps j row (hs.job?_eq_some.mp hrow) (by rw [hstatus]; rfl)
  refine ⟨?_, ?_, ?_⟩
  · have hst := h.status
    rw [Db.status?_eq] at hst ⊢
    rw [hfrozen.rows]
    exact hst
  · obtain ⟨a, hby, htok, href⟩ := h.attempt
    have hatt : s'.attemptsOf j = s.attemptsOf j := hfrozen.attempts
    refine ⟨a, ?_, htok, href⟩
    unfold Db.CompletedBy
    rw [hatt]
    exact hby
  · have hresult := h.result
    rw [getResult_eq] at hresult ⊢
    rw [hfrozen.outputs]
    exact hresult

/-- In every state after the call that completed the job, the job holds what the call passed. -/
theorem CompletedIn.completed {calls : List JobCall} {j token : Uuid} {ref : String}
    {result : Option PyDict} (h : CompletedIn calls j token ref result) (more : List JobCall) :
    (run (calls ++ more)).Completed j token ref result := by
  obtain ⟨before, now, after, rfl, hopen, hdone⟩ := h
  have hrun : run (before ++ [.complete j token ref result now]) =
      step (.complete j token ref result now) (run before) := Machine.run_concat _ _ _ _
  rw [hrun] at hdone
  obtain ⟨token', ref', result', now', hcall, hc⟩ := step_completed (run_inv before) hopen hdone
  cases hcall
  rw [← hrun] at hc
  have hkeeps := run_keepsFinished (before ++ [.complete j token ref result now]) (after ++ more)
  have hlater := hc.keeps hkeeps (run_inv _)
  have hcalls : before ++ [.complete j token ref result now] ++ (after ++ more) =
      before ++ .complete j token ref result now :: after ++ more := by simp
  rw [hcalls] at hlater
  exact hlater

section Completed

variable {s : Db} {j token : Uuid} {ref : String} {result : Option PyDict}

/-- The early return of `_finish` is taken exactly for the completing attempt and its `output_ref`. -/
theorem Db.Completed.isReplay_iff (h : s.Completed j token ref result) {token' : Uuid} {ref' : String} :
    isReplay s j token' (some ref') = true ↔ token' = token ∧ ref' = ref := by
  obtain ⟨a, ⟨hmem, hout, huniq⟩, htok, href⟩ := h.attempt
  have hrow := Db.mem_view_attempts.mp hmem
  -- the completing attempt is the only one that the query can find
  have hfound : ∀ b ∈ s.attempts, b.jobId = j ∧ b.leaseToken = token' ∧ b.outcome = some .completed →
      b = a := by
    intro b hb hsel
    exact huniq b (Db.mem_view_attempts.mpr ⟨hb, hsel.1⟩) hsel.2.2
  unfold isReplay
  split
  · next hnone =>
    have hmiss := List.find?_eq_none.mp hnone a hrow.1
    simp only [hrow.2, hout, htok, decide_eq_true_eq, true_and, and_true] at hmiss
    constructor
    · intro hfalse
      cases hfalse
    · intro hsame
      exact absurd hsame.1.symm hmiss
  · next b hsome =>
    have hsel := List.find?_some hsome
    simp only [decide_eq_true_eq] at hsel
    obtain rfl := hfound b (List.mem_of_find?_eq_some hsome) hsel
    rw [decide_eq_true_eq, href, ← hsel.2.1, htok]
    constructor
    · intro heq
      exact ⟨rfl, (Option.some.inj heq).symm⟩
    · intro heq
      rw [heq.2]

/-- A repeated completion is accepted without a result, or with one that has the stored text. -/
theorem Db.Completed.replayTx_iff (h : s.Completed j token ref result) (result' : Option PyDict) :
    replayTx s j result' = .ok () ↔ result' = none ∨ canonicalJson result' = canonicalJson result := by
  rw [h.result]
  cases result' with
  | none => simp [replayTx]
  | some r =>
    have hne : some r ≠ none := Option.some_ne_none r
    simp only [replayTx, canonicalJson]
    cases hget : getResult s j with
    | none => cases hser : r.dumps <;> simp [bind, Except.bind, pure, Except.pure]
    | some persisted =>
      cases hser : r.dumps with
      | error e => simp [bind, Except.bind]
      | ok serialized =>
        by_cases heq : persisted = serialized
        · simp [heq, bind, Except.bind, pure, Except.pure]
        · have hne' : serialized ≠ persisted := fun e => heq e.symm
          simp [heq, hne', bind, Except.bind, pure, Except.pure]

/-- The same completion again returns the job and changes nothing. -/
theorem Db.Completed.repeated (h : s.Completed j token ref result) (hs : s.Inv)
    {result' : Option PyDict} (hresult : result' = none ∨ canonicalJson result' = canonicalJson result)
    (now : Datetime) : ∃ job, complete j token ref result' now s = (.ok job, s) ∧
      job.status = .completed ∧ getJob s j = .ok (some job) := by
  obtain ⟨row, hrow, hrowstatus⟩ := Option.map_eq_some_iff.mp h.status
  obtain ⟨job, hasserted, hget, -, hstatus⟩ := getJobAsserted_spec hs hrow
  refine ⟨job, ?_, hstatus.trans hrowstatus, hget⟩
  have hbody : finishTx j token .completed .completed (some ref) none result' now s = .ok ((), s) := by
    unfold finishTx
    rw [hrow]
    have hreplay : row.status = .completed ∧ JobStatus.completed = .completed ∧
        isReplay s j token (some ref) = true :=
      ⟨hrowstatus, rfl, h.isReplay_iff.mpr ⟨rfl, rfl⟩⟩
    dsimp only
    rw [if_pos hreplay, (h.replayTx_iff result').mpr hresult]
    rfl
  unfold complete finish transaction
  rw [hbody]
  exact congrArg (fun answer => (answer, s)) hasserted

/-- Any other completion raises and changes nothing. -/
theorem Db.Completed.rejected (h : s.Completed j token ref result) {token' : Uuid} {ref' : String}
    {result' : Option PyDict} (hother : token' ≠ token ∨ ref' ≠ ref ∨
      (result' ≠ none ∧ canonicalJson result' ≠ canonicalJson result)) (now : Datetime) :
    raised (complete j token' ref' result' now s).1 = true ∧
      (complete j token' ref' result' now s).2 = s := by
  obtain ⟨row, hrow, hrowstatus⟩ := Option.map_eq_some_iff.mp h.status
  have hbody : ∃ e, finishTx j token' .completed .completed (some ref') none result' now s = .error e := by
    unfold finishTx
    rw [hrow]
    dsimp only
    split_ifs with hreplay hrunning
    · -- the same attempt and `output_ref`, so the result differs
      have hsame := h.isReplay_iff.mp hreplay.2.2
      have hresult : ¬(result' = none ∨ canonicalJson result' = canonicalJson result) := by
        rcases hother with htok | href | ⟨hsome, hdiffer⟩
        · exact absurd hsame.1 htok
        · exact absurd hsame.2 href
        · exact not_or.mpr ⟨hsome, hdiffer⟩
      rw [← h.replayTx_iff] at hresult
      cases hreplayTx : replayTx s j result' with
      | error e => exact ⟨e, rfl⟩
      | ok u => exact absurd hreplayTx hresult
    · exact ⟨_, rfl⟩
    · rw [hrowstatus] at hrunning
      exact absurd (by decide) hrunning
  obtain ⟨e, hbody⟩ := hbody
  unfold complete finish transaction
  rw [hbody]
  exact ⟨rfl, rfl⟩

end Completed

/-- The completion of a job is final: repeating it returns the job, any other one raises, neither
changes anything, and the result is the one passed. -/
structure Db.FinalCompletion (s : Db) (j token : Uuid) (ref : String) (result : Option PyDict) :
    Prop where
  attempt : ∃ a, s.CompletedBy j a ∧ a.leaseToken = token ∧ a.outputRef = some ref
  repeated : ∀ result' now, result' = none ∨ canonicalJson result' = canonicalJson result →
    ∃ job, complete j token ref result' now s = (.ok job, s) ∧ job.status = .completed ∧
      getJob s j = .ok (some job)
  rejected : ∀ token' ref' result' now, token' ≠ token ∨ ref' ≠ ref ∨
      (result' ≠ none ∧ canonicalJson result' ≠ canonicalJson result) →
    raised (complete j token' ref' result' now s).1 = true ∧
      (complete j token' ref' result' now s).2 = s
  result : canonicalJson result = .ok (getResult s j)

/-- Completion is idempotent and its result immutable: every job that is completed after a run was
completed by a `complete` call of it, and the completion that this call made is final in every later
state. -/
theorem run_completionFinal (calls : List JobCall) (j : Uuid) :
    ((run calls).status? j = some .completed →
      ∃ token ref result, CompletedIn calls j token ref result) ∧
    ∀ token ref result, CompletedIn calls j token ref result →
      ∀ more, (run (calls ++ more)).FinalCompletion j token ref result := by
  refine ⟨completedIn_of_completed calls j, fun token ref result hin more => ?_⟩
  have h := hin.completed more
  exact
    { attempt := h.attempt
      repeated := fun result' now hresult => h.repeated (run_inv _) hresult now
      rejected := fun token' ref' result' now hother => h.rejected hother now
      result := h.result }

/-- The claimed job, completed with a result. -/
def completionCalls : List JobCall :=
  claimedCalls ++ [.complete 1 1 "out" (some [("answer", .int 1)]) (.ofMicros 1)]

/-- The completion stays final after the lease is over. -/
theorem completionCalls_final :
    (run (completionCalls ++ [.reclaimExpired (.ofMicros 60000000)])).FinalCompletion 1 1 "out"
      (some [("answer", .int 1)]) :=
  (run_completionFinal completionCalls 1).2 1 "out" (some [("answer", .int 1)])
    ⟨claimedCalls, .ofMicros 1, [], rfl, by decide +kernel, by decide +kernel⟩
    [.reclaimExpired (.ofMicros 60000000)]

end Galaxz
