import Galaxz.Jobs.Proofs.RecoveryProofs
import Galaxz.Jobs.Proofs.LoadProofs
import Galaxz.Jobs.Worker
import Galaxz.Jobs.Proofs.ReplayProofs
import Galaxz.Jobs.Proofs.CancelProofs

/-!
# Proofs: attempts, refused and settled calls

What a call does to an attempt, which calls the repository refuses, and what a call that settles a job leaves.
-/

namespace Galaxz

/-! ## Proofs: the attempts, call by call

A call leaves an attempt as it is, ends it, or renews its lease, which only a heartbeat under that lease does before its
expiry. Only `claim` adds an attempt, under a token that no attempt has. A lease that is over stays so.
-/

section Attempts

open SqliteJobRepository

variable {s s' : Db} {call : JobCall} {j token : Uuid} {now : Datetime}

/-! ## What becomes of an attempt -/

/-- Both rows are of one attempt. -/
structure AttemptFields.SameRun (a b : AttemptFields) : Prop where
  attemptId : b.attemptId = a.attemptId
  jobId : b.jobId = a.jobId
  leaseToken : b.leaseToken = a.leaseToken

/-- The attempt is as it was, or it was open and has ended. -/
def AttemptFields.MayEnd (a b : AttemptFields) : Prop := b = a ∨ (a.SameRun b ∧ a.endedAt = none ∧ b.endedAt ≠ none)

/-- What a call makes of an attempt. -/
def AttemptFields.Turns (call : JobCall) (a b : AttemptFields) : Prop :=
  a.MayEnd b ∨ ∃ j leaseSeconds now expiry, call = .heartbeat j a.leaseToken leaseSeconds now ∧ a.endedAt = none ∧
    now < a.leaseExpiresAt ∧ b = renewLease expiry a

theorem AttemptFields.MayEnd.trans {a b c : AttemptFields} (hab : a.MayEnd b) (hbc : b.MayEnd c) : a.MayEnd c := by
  rcases hab with rfl | ⟨hsame, hopen, hended⟩
  · exact hbc
  · rcases hbc with rfl | ⟨-, hnone, -⟩
    · exact Or.inr ⟨hsame, hopen, hended⟩
    · exact absurd hnone hended

theorem AttemptFields.Turns.sameRun {a b : AttemptFields} (h : a.Turns call b) : a.SameRun b := by
  rcases h with (rfl | ⟨hsame, -, -⟩) | ⟨_, _, _, _, -, -, -, rfl⟩
  · exact ⟨rfl, rfl, rfl⟩
  · exact hsame
  · exact ⟨rfl, rfl, rfl⟩

/-- An attempt that ended stays as it is. -/
theorem AttemptFields.Turns.of_ended {a b : AttemptFields} (h : a.Turns call b) (hended : a.endedAt ≠ none) :
    b = a := by
  rcases h with (rfl | ⟨-, hopen, -⟩) | ⟨_, _, _, _, -, hopen, -, -⟩
  · rfl
  · exact absurd hopen hended
  · exact absurd hopen hended

/-- The attempts are those that were there, some of which may have ended. -/
def Db.MayEnd (s s' : Db) : Prop :=
  ∃ g : AttemptRow → AttemptRow, s'.attempts = s.attempts.map g ∧ ∀ a : AttemptRow, a.MayEnd (g a)

theorem Db.MayEnd.of_eq (h : s'.attempts = s.attempts) : s.MayEnd s' :=
  ⟨id, by rw [h, List.map_id], fun _ => Or.inl rfl⟩

theorem Db.MayEnd.trans {t : Db} (hst : s.MayEnd s') (htu : s'.MayEnd t) : s.MayEnd t := by
  obtain ⟨g, hg, hends⟩ := hst
  obtain ⟨g', hg', hends'⟩ := htu
  refine ⟨g' ∘ g, by rw [hg', hg, List.map_map], fun a => (hends a).trans (hends' (g a))⟩

/-- `UPDATE execution_attempts .. WHERE attempt_id = ? AND ended_at IS NULL`, when it sets `ended_at`. -/
theorem mayEnd_endAttempt (id : Option Uuid) {f : AttemptRow → AttemptRow} (hsame : ∀ a : AttemptRow, a.SameRun (f a))
    (hended : ∀ a, (f a).endedAt ≠ none) : s.MayEnd (endAttempt s id f) := by
  refine ⟨_, rfl, fun a => ?_⟩
  dsimp only
  split_ifs with hp
  · exact Or.inr ⟨hsame a, (of_decide_eq_true hp).2, hended a⟩
  · exact Or.inl rfl

/-! ## Transactions -/

/-- What its body does to the attempts, a transaction does. -/
theorem transaction_mayEnd {β α : Type} {body : Db → Except PyError (β × Db)} {read : β → Db → Except PyError α}
    (h : ∀ b s', body s = .ok (b, s') → s.MayEnd s') : s.MayEnd (transaction body read s).2 := by
  rcases transaction_state body read s with heq | ⟨b, hb⟩
  · exact .of_eq (congrArg Db.attempts heq)
  · exact h b _ hb

theorem enqueueTx_attempts {candidate : Job} {task : Option TaskContract} {res : Option JobRow}
    (hok : enqueueTx candidate task now s = .ok (res, s')) : s'.attempts = s.attempts := by
  rcases enqueueTx_cases hok with ⟨row, text, -, -, rfl⟩ | ⟨-, -, -, -, rfl⟩
  · rfl
  · rfl

theorem completeTx_mayEnd (h : s.Inv) {ref : String} {result : Option PyDict} {u : Unit}
    (hok : finishTx j token .completed .completed (some ref) none result now s = .ok (u, s')) : s.MayEnd s' := by
  rcases completeTx_cases h hok with ⟨rfl, -⟩ | ⟨row, pre, a, outs, box, -, -, -, -, -, -, -, -, -, rfl⟩
  · exact .of_eq rfl
  · have hend : s.MayEnd (endAttempt s (some a.attemptId) (finishAttempt .completed none (some ref) now)) :=
      mayEnd_endAttempt (some a.attemptId) (fun _ => ⟨rfl, rfl, rfl⟩) (fun _ => Option.some_ne_none now)
    exact hend.trans (.of_eq rfl)

theorem recordFailureTx_mayEnd (h : s.Inv) {error errorCode failureKind : String} {retryable : Bool} {u : Unit}
    (hok : recordFailureTx j token error errorCode failureKind retryable now s = .ok (u, s')) : s.MayEnd s' := by
  obtain ⟨row, pre, a, availableAt, target, reason, -, -, -, -, -, -, -, -, -, -, rfl⟩ := recordFailureTx_cases h hok
  have hend : s.MayEnd (endAttempt s (some a.attemptId) (failAttempt failureKind errorCode error now)) :=
    mayEnd_endAttempt (some a.attemptId) (fun _ => ⟨rfl, rfl, rfl⟩) (fun _ => Option.some_ne_none now)
  exact hend.trans (.of_eq rfl)

theorem mayEnd_close (id : Option Uuid) (outcome : AttemptOutcome) :
    s.MayEnd (endAttempt s id (closeAttempt outcome now)) :=
  mayEnd_endAttempt id (fun _ => ⟨rfl, rfl, rfl⟩) (fun _ => Option.some_ne_none now)

theorem cancelTx_mayEnd {u : Unit} (hok : cancelTx j now s = .ok (u, s')) : s.MayEnd s' := by
  unfold cancelTx at hok
  split at hok
  · cases hok
  · next job hjob =>
    split_ifs at hok
    · cases hok
      exact .of_eq rfl
    · obtain ⟨-, -, hok⟩ := (except_bind_ok_iff _ _ _).mp hok
      cases hok
      exact (mayEnd_close job.activeAttemptId .cancelled).trans (.of_eq rfl)
    · obtain ⟨-, -, hok⟩ := (except_bind_ok_iff _ _ _).mp hok
      cases hok
      exact .of_eq rfl

theorem reclaimAll_mayEnd (jobs : List JobRow) : ∀ {s s' : Db}, reclaimAll now jobs s = .ok s' → s.MayEnd s' := by
  induction jobs with
  | nil =>
    intro s s' hok
    cases hok
    exact .of_eq rfl
  | cons job jobs ih =>
    intro s s' hok
    obtain ⟨s₁, hone, hok⟩ := (except_bind_ok_iff _ _ _).mp hok
    obtain ⟨-, -, hone⟩ := (except_bind_ok_iff _ _ _).mp hone
    obtain ⟨delay, -, hone⟩ := (except_bind_ok_iff _ _ _).mp hone
    obtain ⟨availableAt, -, hone⟩ := (except_bind_ok_iff _ _ _).mp hone
    have hfirst : s.MayEnd s₁ := by
      cases hone
      exact (mayEnd_close job.activeAttemptId .leaseExpired).trans (.of_eq rfl)
    exact hfirst.trans (ih hok)

theorem reclaimTx_mayEnd {ids : List Uuid} (hok : reclaimTx now s = .ok (ids, s')) : s.MayEnd s' := by
  obtain ⟨s₁, hall, hok⟩ := (except_bind_ok_iff _ _ _).mp hok
  cases hok
  exact reclaimAll_mayEnd _ hall

/-- A heartbeat renews the one attempt whose lease it carries. -/
theorem heartbeatTx_attempts (h : s.Inv) {leaseSeconds : PyFloat} {a : AttemptRow}
    (hok : heartbeatTx j token leaseSeconds now s = .ok (a, s')) :
    ∃ b ∈ s.attempts, ∃ expiry, b.leaseToken = token ∧ b.endedAt = none ∧ now < b.leaseExpiresAt ∧
      s'.attempts = s.attempts.map fun x => if x.attemptId = b.attemptId then renewLease expiry x else x := by
  obtain ⟨b, hlease, hok⟩ := (except_bind_ok_iff _ _ _).mp hok
  obtain ⟨expiry, -, hok⟩ := (except_bind_ok_iff _ _ _).mp hok
  obtain ⟨row, pre, -, -, -, hatt, hopen, -, htok, hexp⟩ := activeLease_spec h hlease
  have hb : b ∈ (s.view j).attempts := by rw [hatt]; simp
  refine ⟨b, (Db.mem_view_attempts.mp hb).1, expiry, htok, hopen.1, hexp, ?_⟩
  cases hok
  simp only [Db.updateJobs, Db.updateAttempts, Table.updateWhere, decide_eq_true_eq]

/-- A `claim` that changes the attempts adds one, which is open and has a token of its own. -/
theorem claimTx_attempts {attemptId : Uuid} {workerId : String} {leaseSeconds : PyFloat} {res : Option ExecutionAttempt}
    (hok : claimTx attemptId token workerId leaseSeconds now s = .ok (res, s')) :
    (res = none ∧ s' = s) ∨ ∃ a row, res = some a ∧ row ∈ s.jobs ∧ s'.attempts = s.attempts ++ [a.toAttemptFields] ∧
      a.attemptId = attemptId ∧ a.leaseToken = token ∧ a.jobId = row.jobId ∧ a.endedAt = none ∧
      ∀ x ∈ s.attempts, x.leaseToken ≠ token := by
  unfold claimTx at hok
  split at hok
  · cases hok
    exact Or.inl ⟨rfl, rfl⟩
  · next row hfirst =>
    obtain ⟨-, -, hok⟩ := (except_bind_ok_iff _ _ _).mp hok
    obtain ⟨expires, -, hok⟩ := (except_bind_ok_iff _ _ _).mp hok
    obtain ⟨attempt, hattempt, hok⟩ := (except_bind_ok_iff _ _ _).mp hok
    have hfields := ExecutionAttempt.validate_eq_ok hattempt
    have htoken : attempt.leaseToken = token := by rw [hfields]; rfl
    dsimp only at hok
    split_ifs at hok with hcount
    · cases hok
      exact Or.inl ⟨rfl, rfl⟩
    · obtain ⟨s₁, hinsert, hok⟩ := (except_bind_ok_iff _ _ _).mp hok
      unfold Db.insertAttempt at hinsert
      split_ifs at hinsert with hid htok
      cases hinsert
      cases hok
      have hrow := (mem_claimCandidates (Table.mem_of_firstBy hfirst)).1
      refine Or.inr ⟨attempt, row, rfl, hrow, rfl, by rw [hfields]; rfl, htoken, by rw [hfields]; rfl,
        by rw [hfields]; rfl, fun x hx he => ?_⟩
      exact htok (List.any_eq_true.mpr ⟨x, hx, decide_eq_true (he.trans htoken.symm)⟩)

/-! ## Calls -/

/-- What a call does to the attempts: each takes a turn, and `claim` may add one. -/
structure Db.AttemptStep (call : JobCall) (s s' : Db) (g : AttemptRow → AttemptRow) (new : List AttemptRow) : Prop where
  attempts : s'.attempts = s.attempts.map g ++ new
  turns : ∀ a ∈ s.attempts, a.Turns call (g a)
  fresh : ∀ b ∈ new, b.endedAt = none ∧ (∀ a ∈ s.attempts, a.leaseToken ≠ b.leaseToken) ∧
    ∃ workerId leaseSeconds now, call = .claim b.attemptId b.leaseToken workerId leaseSeconds now
  new_le_one : new.length ≤ 1

theorem Db.MayEnd.attemptStep (h : s.MayEnd s') (call : JobCall) : ∃ g new, Db.AttemptStep call s s' g new := by
  obtain ⟨g, hg, hends⟩ := h
  exact ⟨g, [], by rw [hg, List.append_nil], fun a _ => Or.inl (hends a), by simp, by simp⟩

theorem step_attempts (h : s.Inv) (call : JobCall) : ∃ g new, Db.AttemptStep call s (step call s) g new := by
  cases call with
  | enqueue jobId taskId task key priority policy now =>
    refine Db.MayEnd.attemptStep ?_ _
    simp only [step, exec, answer_snd, enqueue]
    split_ifs
    · exact .of_eq rfl
    · split
      · exact .of_eq rfl
      · exact transaction_mayEnd fun b s' hb => .of_eq (enqueueTx_attempts hb)
  | claim attemptId token workerId leaseSeconds now =>
    simp only [step, exec, answer_snd, claim]
    split_ifs
    · exact Db.MayEnd.attemptStep (.of_eq rfl) _
    · rcases transaction_state (claimTx attemptId token workerId leaseSeconds now) _ s with heq | ⟨res, hb⟩
      · rw [heq]
        exact Db.MayEnd.attemptStep (.of_eq rfl) _
      · rcases claimTx_attempts hb with ⟨-, heq⟩ | ⟨a, row, -, -, hattempts, rfl, rfl, -, hopen, hfresh⟩
        · rw [heq]
          exact Db.MayEnd.attemptStep (.of_eq rfl) _
        · refine ⟨id, [a.toAttemptFields], by rw [hattempts, List.map_id], fun _ _ => Or.inl (Or.inl rfl), ?_, by simp⟩
          intro b hbmem
          rw [List.mem_singleton.mp hbmem]
          exact ⟨hopen, hfresh, workerId, leaseSeconds, now, rfl⟩
  | heartbeat j token leaseSeconds now =>
    simp only [step, exec, answer_snd, heartbeat]
    split_ifs
    · exact Db.MayEnd.attemptStep (.of_eq rfl) _
    · rcases transaction_state (heartbeatTx j token leaseSeconds now) _ s with heq | ⟨row, hb⟩
      · rw [heq]
        exact Db.MayEnd.attemptStep (.of_eq rfl) _
      · obtain ⟨b, hbmem, expiry, rfl, hopen, hexp, hattempts⟩ := heartbeatTx_attempts h hb
        refine ⟨_, [], by rw [hattempts, List.append_nil], fun a ha => ?_, by simp, by simp⟩
        split_ifs with hid
        · obtain rfl := Table.eq_of_key (·.attemptId) h.attempts_nodup ha hbmem hid
          exact Or.inr ⟨j, leaseSeconds, now, expiry, rfl, hopen, hexp, rfl⟩
        · exact Or.inl (Or.inl rfl)
  | complete j token ref result now =>
    refine Db.MayEnd.attemptStep ?_ _
    simp only [step, exec, answer_snd, complete, finish]
    exact transaction_mayEnd fun b s' hb => completeTx_mayEnd h hb
  | fail j token error errorCode failureKind now =>
    refine Db.MayEnd.attemptStep ?_ _
    simp only [step, exec, answer_snd, fail, recordFailure]
    exact transaction_mayEnd fun b s' hb => recordFailureTx_mayEnd h hb
  | recordFailure j token error errorCode failureKind retryable now =>
    refine Db.MayEnd.attemptStep ?_ _
    simp only [step, exec, answer_snd, recordFailure]
    exact transaction_mayEnd fun b s' hb => recordFailureTx_mayEnd h hb
  | cancel j now =>
    refine Db.MayEnd.attemptStep ?_ _
    simp only [step, exec, answer_snd, cancel]
    exact transaction_mayEnd fun b s' hb => cancelTx_mayEnd hb
  | reclaimExpired now =>
    refine Db.MayEnd.attemptStep ?_ _
    simp only [step, exec, answer_snd, reclaimExpired]
    exact transaction_mayEnd fun b s' hb => reclaimTx_mayEnd hb
  | pendingCompletions limit => exact Db.MayEnd.attemptStep (.of_eq rfl) _
  | acknowledgeCompletion j now =>
    have hsame : s.MayEnd (step (.acknowledgeCompletion j now) s) := .of_eq rfl
    exact hsame.attemptStep _

/-- The tokens of the attempts are distinct. -/
def Db.TokensNodup (s : Db) : Prop := (s.attempts.map (·.leaseToken)).Nodup

theorem step_tokensNodup (h : s.Inv) (htokens : s.TokensNodup) (call : JobCall) : (step call s).TokensNodup := by
  obtain ⟨g, new, hstep⟩ := step_attempts h call
  have hsame : (s.attempts.map g).map (·.leaseToken) = s.attempts.map (·.leaseToken) := by
    rw [List.map_map]
    exact List.map_congr_left fun a ha => (hstep.turns a ha).sameRun.leaseToken
  unfold Db.TokensNodup
  rw [hstep.attempts, List.map_append, hsame]
  rcases new with _ | ⟨b, _ | ⟨c, rest⟩⟩
  · rw [List.map_nil, List.append_nil]
    exact htokens
  · obtain ⟨-, hfresh, -⟩ := hstep.fresh b List.mem_cons_self
    rw [List.nodup_append]
    refine ⟨htokens, by simp, ?_⟩
    simpa using hfresh
  · have := hstep.new_le_one
    simp at this

/-- The attempt of a job that was started under the token. -/
def Db.HasAttempt (s : Db) (j attemptId token : Uuid) : Prop :=
  ∃ a ∈ s.attempts, a.jobId = j ∧ a.attemptId = attemptId ∧ a.leaseToken = token

theorem Db.HasAttempt.step (hinv : s.Inv) {attemptId : Uuid} (h : s.HasAttempt j attemptId token) (call : JobCall) :
    (step call s).HasAttempt j attemptId token := by
  obtain ⟨a, ha, rfl, rfl, rfl⟩ := h
  obtain ⟨g, new, hstep⟩ := step_attempts hinv call
  have hsame := (hstep.turns a ha).sameRun
  refine ⟨g a, ?_, hsame.jobId, hsame.attemptId, hsame.leaseToken⟩
  rw [hstep.attempts]
  exact List.mem_append_left _ (List.mem_map_of_mem ha)

/-! ## Leases that are over -/

/-- The lease under the token is over at `now`: its attempt has ended, or its expiry has passed. -/
def Db.LeaseOver (s : Db) (token : Uuid) (now : Datetime) : Prop :=
  ∃ a ∈ s.attempts, a.leaseToken = token ∧ (a.endedAt ≠ none ∨ a.leaseExpiresAt ≤ now)

theorem Db.LeaseOver.mono {later : Datetime} (h : s.LeaseOver token now) (hle : now ≤ later) :
    s.LeaseOver token later := by
  obtain ⟨a, ha, htok, hended | hexp⟩ := h
  · exact ⟨a, ha, htok, Or.inl hended⟩
  · refine ⟨a, ha, htok, Or.inr ?_⟩
    rw [Datetime.le_iff] at *
    omega

/-- No call at a later reading of the clock revives a lease. -/
theorem Db.LeaseOver.step (hinv : s.Inv) (h : s.LeaseOver token now) (call : JobCall)
    (hnow : ∀ t, call.now? = some t → now ≤ t) : (step call s).LeaseOver token now := by
  obtain ⟨a, ha, rfl, hover⟩ := h
  obtain ⟨g, new, hstep⟩ := step_attempts hinv call
  have hmem : g a ∈ (SqliteJobRepository.step call s).attempts := by
    rw [hstep.attempts]
    exact List.mem_append_left _ (List.mem_map_of_mem ha)
  refine ⟨g a, hmem, (hstep.turns a ha).sameRun.leaseToken, ?_⟩
  rcases hstep.turns a ha with (heq | ⟨-, -, hended⟩) | ⟨_, _, t, _, rfl, hopen, hlt, -⟩
  · rw [heq]
    exact hover
  · exact Or.inl hended
  · -- a heartbeat under this lease comes too late
    have hle := hnow t rfl
    rcases hover with hended | hexp
    · exact absurd hopen hended
    · rw [Datetime.le_iff] at hle hexp
      rw [Datetime.lt_iff] at hlt
      omega

/-- Unless its lease is over, an attempt is the active one of its job, which runs. -/
theorem Db.Inv.runs_of_lease (h : s.Inv) {a : AttemptRow} (ha : a ∈ s.attempts) (hopen : a.endedAt = none) :
    ∃ job ∈ s.jobs, job.jobId = a.jobId ∧ job.status = .running ∧ job.activeAttemptId = some a.attemptId := by
  have hview : a ∈ (s.view a.jobId).attempts := Db.mem_view_attempts.mpr ⟨ha, rfl⟩
  rcases h.views a.jobId with habs | ⟨row, key, hs⟩
  · rw [habs] at hview
    cases hview
  · obtain ⟨hrow, hid⟩ := Db.mem_view_rows.mp (show row ∈ (s.view a.jobId).rows by rw [hs.rows]; simp)
    obtain ⟨pre, post, hatt, hpre, hcase⟩ := hs.attempts.split_last
    rw [hatt] at hview
    rcases List.mem_append.mp hview with hold | hlast
    · have hspent := (hpre a hold).1
      rw [hopen] at hspent
      cases hspent
    · rcases hcase with ⟨-, -, hended⟩ | ⟨hrun, b, rfl, hptr, -⟩
      · have hspent := (hended a hlast).1
        rw [hopen] at hspent
        cases hspent
      · obtain rfl := List.mem_singleton.mp hlast
        exact ⟨row, hrow, hid, hrun, hptr⟩

end Attempts

/-! ## Proofs: refused and settled calls

The repository refuses a call under a lease only once the lease is over, and a call that settles a job ends its lease.
-/

open SqliteJobRepository

/-! ### Refused calls -/

section Refused

variable {s s' : Db} {j attemptId token : Uuid} {now : Datetime}

/-- The computation raises no exception of the repository. -/
def NoConflict {α : Type} (x : Except PyError α) : Prop := ∀ e, x = .error e → e.isConflict = false

theorem noConflict_ok {α : Type} (a : α) : NoConflict (.ok a : Except PyError α) := by
  intro e he
  cases he

theorem noConflict_error {α : Type} {e : PyError} (h : e.isConflict = false) :
    NoConflict (.error e : Except PyError α) := by
  intro e' he
  cases he
  exact h

theorem NoConflict.bind {α β : Type} {x : Except PyError α} {f : α → Except PyError β} (hx : NoConflict x)
    (hf : ∀ a, x = .ok a → NoConflict (f a)) : NoConflict (x >>= f) := by
  cases x with
  | error e => exact noConflict_error (hx e rfl)
  | ok a => exact hf a rfl

theorem NoConflict.of_ok {α : Type} {x : Except PyError α} {a : α} (h : x = .ok a) : NoConflict x := by
  rw [h]
  exact noConflict_ok a

/-- A transaction raises what its body raises, or what the read after it does. -/
theorem NoConflict.transaction {β α : Type} {body : Db → Except PyError (β × Db)} {read : β → Db → Except PyError α}
    (hbody : NoConflict (body s)) (hread : ∀ b s', body s = .ok (b, s') → NoConflict (read b s')) :
    NoConflict (transaction body read s).1 := by
  unfold Galaxz.transaction
  split
  · next e he => exact noConflict_error (hbody e he)
  · next b s' hb => exact hread b s' hb

theorem noConflict_answer {α : Type} {f : α → JobValue} {r : Except PyError α × Db} (h : NoConflict r.1) :
    NoConflict (answer f r).1 := by
  obtain ⟨_ | a, s'⟩ := r
  · exact noConflict_error (h _ rfl)
  · exact noConflict_ok _

theorem noConflict_addSeconds (t : Datetime) (x : PyFloat) : NoConflict (t.addSeconds x) := by
  have hdelta : NoConflict (timedelta x) := by
    unfold timedelta
    split
    · exact noConflict_error rfl
    · exact noConflict_error rfl
    · exact noConflict_error rfl
    · dsimp only
      split_ifs
      · exact noConflict_ok _
      · exact noConflict_error rfl
  refine hdelta.bind fun delta _ => ?_
  unfold Datetime.add
  split_ifs
  · exact noConflict_ok _
  · exact noConflict_error rfl

theorem noConflict_retryDelay (job : JobRow) : NoConflict (retryDelay job) := by
  refine NoConflict.bind ?_ fun _ _ => noConflict_ok _
  unfold PyFloat.mulTwoPow
  split_ifs
  · exact noConflict_error rfl
  · exact noConflict_ok _

theorem noConflict_nextAvailable (again : Bool) (delay : PyFloat) : NoConflict (nextAvailable again delay now) := by
  unfold nextAvailable
  split_ifs
  · exact noConflict_addSeconds now delay
  · exact noConflict_ok _

theorem noConflict_validateJobTransition (current target : JobStatus) :
    NoConflict (validateJobTransition current target) := by
  unfold validateJobTransition
  split_ifs
  · exact noConflict_ok _
  · exact noConflict_error rfl

theorem noConflict_validateAttempt (a : AttemptFields) : NoConflict (ExecutionAttempt.validate a) := by
  have hcheck : NoConflict a.check := by
    unfold AttemptFields.check
    split_ifs
    all_goals first | exact noConflict_error rfl | exact noConflict_ok _
  unfold ExecutionAttempt.validate
  split
  · next e he => exact noConflict_error (hcheck e he)
  · exact noConflict_ok _

/-- A result is refused only if the job has one already, or it is evidence and the job has no task input. -/
theorem noConflict_storeResult {attemptId : Uuid} {result : PyDict} (hnone : getResult s j = none)
    (htasks : s.tasksOf j ≠ []) : NoConflict (storeResult s j attemptId result now) := by
  refine NoConflict.bind ?_ fun serialized _ => ?_
  · unfold PyDict.dumps
    split_ifs
    · exact noConflict_ok _
    · exact noConflict_error rfl
  · rw [hnone]
    refine NoConflict.bind (noConflict_ok _) fun s₁ hs₁ => ?_
    cases hs₁
    dsimp only
    split_ifs with hevidence hempty
    · exact absurd (List.isEmpty_iff.mp hempty) htasks
    · unfold Db.insertOutbox
      split_ifs
      · exact noConflict_error rfl
      · exact noConflict_error rfl
      · exact noConflict_ok _
    · exact noConflict_ok _

/-- The read of the job after the commit. -/
theorem noConflict_getJobAsserted (h : s.Inv) (hjob : (s.job? j).isSome = true) : NoConflict (getJobAsserted s j) := by
  obtain ⟨job, hok⟩ := getJobAsserted_ok h hjob
  exact .of_ok hok

/-- No call removes a job. -/
theorem step_keepsJob (h : s.Inv) (call : JobCall) (hjob : (s.job? j).isSome = true) :
    ((step call s).job? j).isSome = true := by
  rw [(step_inv call s h).isSome_job?]
  rw [h.isSome_job?] at hjob
  rcases step_submitted h call with ⟨heq, -⟩ | ⟨c, -, -, heq, -⟩
  · rw [heq]
    exact hjob
  · rw [heq, List.map_append]
    exact List.mem_append_left _ hjob

/-- The read of the job that the call is about, after it. -/
theorem noConflict_committed (h : s.Inv) (hjob : (s.job? j).isSome = true) (call : JobCall)
    (hstep : step call s = s') : NoConflict (getJobAsserted s' j) := by
  rw [← hstep]
  exact noConflict_getJobAsserted (step_inv call s h) (step_keepsJob h call hjob)

/-- Unless its lease is over, the attempt is the active one of a job that runs, and the lease check passes. -/
theorem active_of_not_over (h : s.Inv) (hatt : s.HasAttempt j attemptId token) (hover : ¬ s.LeaseOver token now) :
    ∃ job a, s.job? j = some job ∧ job.status = .running ∧ ∀ msg, activeLease s j token now msg = .ok a := by
  obtain ⟨a, ha, rfl, rfl, rfl⟩ := hatt
  have hopen : a.endedAt = none := by
    by_contra hended
    exact hover ⟨a, ha, rfl, Or.inl hended⟩
  have hlive : now < a.leaseExpiresAt := by
    rw [← Datetime.not_le]
    exact fun hexp => hover ⟨a, ha, rfl, Or.inr hexp⟩
  obtain ⟨job, hjob, hid, hrun, hptr⟩ := h.runs_of_lease ha hopen
  refine ⟨job, a, ?_, hrun, fun msg => ?_⟩
  · rw [h.job?_eq_some, ← hid]
    exact h.view_of_mem hjob
  · rw [← hid]
    exact activeLease_ok h hjob ha hptr hlive msg

theorem noConflict_recordFailure (h : s.Inv) {job : JobRow} (hjob : s.job? j = some job) (hrun : job.status = .running)
    {a : AttemptRow} (hactive : activeLease s j token now "failure requires the active, unexpired lease" = .ok a)
    {error errorCode failureKind : String} {retryable : Bool} :
    NoConflict (recordFailure j token error errorCode failureKind retryable now s).1 := by
  unfold recordFailure
  refine NoConflict.transaction ?_ fun u s' hb => ?_
  · unfold recordFailureTx
    rw [hjob]
    have hrunning : ¬ job.status ≠ .running := not_not.mpr hrun
    dsimp only
    rw [if_neg hrunning]
    refine NoConflict.bind (.of_ok hactive) fun attempt _ => ?_
    refine NoConflict.bind (noConflict_validateJobTransition _ _) fun _ _ => ?_
    refine NoConflict.bind (noConflict_retryDelay job) fun delay _ => ?_
    exact NoConflict.bind (noConflict_nextAvailable _ delay) fun available _ => noConflict_ok _
  · have hsome : (s.job? j).isSome = true := by
      rw [hjob]
      rfl
    refine noConflict_committed h hsome (.recordFailure j token error errorCode failureKind retryable now) ?_
    simp only [step, exec, answer_snd, recordFailure, transaction, hb]

/-- A call under a lease is refused only once the lease is over. -/
theorem leaseOver_of_conflict (h : s.Inv) (hatt : s.HasAttempt j attemptId token) {call : JobCall}
    (hlease : call.lease? = some (j, token, now)) (htasks : call.completes = true → s.tasksOf j ≠ []) {x : PyError}
    (herror : (exec call s).1 = .error x) (hx : x.isConflict = true) : s.LeaseOver token now := by
  by_contra hover
  obtain ⟨job, a, hjob, hrun, hactive⟩ := active_of_not_over h hatt hover
  have hsome : (s.job? j).isSome = true := by
    rw [hjob]
    rfl
  have hplain : NoConflict (exec call s).1 := by
    cases call with
    | heartbeat j' token' leaseSeconds now' =>
      cases hlease
      refine noConflict_answer ?_
      unfold heartbeat
      split_ifs
      · exact noConflict_error rfl
      · refine NoConflict.transaction ?_ fun row _ _ => noConflict_validateAttempt row
        refine NoConflict.bind (.of_ok (hactive _)) fun row _ => ?_
        exact NoConflict.bind (noConflict_addSeconds _ _) fun expiry _ => noConflict_ok _
    | complete j' token' ref result now' =>
      cases hlease
      refine noConflict_answer ?_
      unfold complete finish
      refine NoConflict.transaction ?_ fun u s' hb => ?_
      · unfold finishTx
        rw [hjob]
        have hopen : ¬(job.status = .completed ∧ JobStatus.completed = .completed ∧
            isReplay s j token (some ref) = true) := by
          rw [hrun]
          exact fun hdone => by cases hdone.1
        have hrunning : ¬ job.status ≠ .running := not_not.mpr hrun
        dsimp only
        rw [if_neg hopen, if_neg hrunning]
        refine NoConflict.bind (.of_ok (hactive _)) fun attempt _ => ?_
        refine NoConflict.bind (noConflict_validateJobTransition _ _) fun _ _ => ?_
        cases result with
        | none => exact noConflict_ok _
        | some result =>
          obtain ⟨key, hs⟩ := (h.views j).sound (h.job?_eq_some.mp hjob)
          have houtputs : (s.view j).outputs = [] := (hs.pending (by rw [hrun]; decide)).1
          have hnone : getResult s j = none := by
            rw [getResult_eq, houtputs]
            rfl
          exact NoConflict.bind (noConflict_storeResult hnone (htasks rfl)) fun s₁ _ => noConflict_ok _
      · refine noConflict_committed h hsome (.complete j token ref result now) ?_
        simp only [step, exec, answer_snd, complete, finish, transaction, hb]
    | recordFailure j' token' error errorCode failureKind retryable now' =>
      cases hlease
      refine noConflict_answer (noConflict_recordFailure h hjob hrun (hactive _))
    | fail j' token' error errorCode failureKind now' =>
      cases hlease
      refine noConflict_answer (noConflict_recordFailure h hjob hrun (hactive _))
    | _ => cases hlease
  rw [hplain x herror] at hx
  cases hx

end Refused

/-! ### Settled jobs -/

section Settled

variable {s s' : Db} {j attemptId token : Uuid} {now : Datetime}

/-- The lease of a job that does not run is over. -/
theorem leaseOver_of_not_running (h : s.Inv) (hatt : s.HasAttempt j attemptId token) {job : JobRow}
    (hjob : s.job? j = some job) (hrun : job.status ≠ .running) : s.LeaseOver token now := by
  by_contra hover
  obtain ⟨job', a, hjob', hrun', -⟩ := active_of_not_over h hatt hover
  rw [hjob] at hjob'
  cases hjob'
  exact hrun hrun'

/-- A job that has an attempt exists. -/
theorem job?_of_hasAttempt (h : s.Inv) (hatt : s.HasAttempt j attemptId token) : ∃ job, s.job? j = some job := by
  obtain ⟨a, ha, rfl, -, -⟩ := hatt
  have hview : a ∈ (s.view a.jobId).attempts := Db.mem_view_attempts.mpr ⟨ha, rfl⟩
  rcases h.views a.jobId with habs | ⟨row, key, hs⟩
  · rw [habs] at hview
    cases hview
  · exact ⟨row, h.job?_eq_some.mpr hs.rows⟩

/-- The body of a transaction that returned. -/
theorem body_of_transaction {β α : Type} {body : Db → Except PyError (β × Db)} {read : β → Db → Except PyError α}
    {a : α} (hok : (transaction body read s).1 = .ok a) : ∃ b, body s = .ok (b, (transaction body read s).2) := by
  unfold transaction at hok ⊢
  split at hok
  · cases hok
  · next b s' hb =>
    rw [hb]
    exact ⟨b, rfl⟩

/-- A job that has a completing attempt is completed, by this attempt alone. -/
theorem completedBy_of_outcome (h : s.Inv) {a : AttemptRow} (ha : a ∈ s.attemptsOf j)
    (hout : a.outcome = some .completed) :
    s.status? j = some .completed ∧ s.CompletedBy j a := by
  have hview : a ∈ (s.view j).attempts := ha
  rcases h.views j with habs | ⟨row, key, hs⟩
  · rw [habs] at hview
    cases hview
  · have hspent : ¬ a.Spent := fun hspent => hspent.2.2 hout
    have hfit := hs.attempts
    unfold AttemptsFit at hfit
    split at hfit
    · obtain ⟨pre, b, hatt, -, hopen, hpre⟩ := hfit
      rw [hatt] at hview
      rcases List.mem_append.mp hview with hold | hlast
      · exact absurd (hpre a hold) hspent
      · rw [List.mem_singleton.mp hlast, hopen.2] at hout
        cases hout
    · next hstatus =>
      obtain ⟨-, pre, b, hatt, -, hbout, hpre⟩ := hfit
      have hby := completedBy_last hatt hbout hpre
      rw [← hby.2.2 a ha hout] at hby
      refine ⟨?_, hby⟩
      rw [Db.status?_eq, hs.rows, ← hstatus]
      rfl
    all_goals exact absurd (hfit.2 a hview) hspent

/-- A completion of a completed job has passed the comparison of the results. -/
theorem replayTx_of_completed {ref : String} {result : PyDict} {u : Unit} (hstatus : s.status? j = some .completed)
    (hb : finishTx j token .completed .completed (some ref) none (some result) now s = .ok (u, s')) :
    replayTx s j (some result) = .ok () := by
  obtain ⟨row, hrow, hdone⟩ := Option.map_eq_some_iff.mp hstatus
  unfold finishTx at hb
  rw [hrow] at hb
  dsimp only at hb
  split_ifs at hb with hreplay hrun
  · obtain ⟨_, hsame, -⟩ := (except_bind_ok_iff _ _ _).mp hb
    exact hsame
  · rw [hdone] at hrun
    exact absurd (by decide) hrun

theorem canonicalJson_of_replay {result : PyDict} (hok : replayTx s j (some result) = .ok ()) :
    canonicalJson (some result) = .ok (getResult s j) := by
  unfold replayTx at hok
  unfold canonicalJson
  dsimp only at hok ⊢
  split at hok
  · cases hok
  · next persisted hget =>
    obtain ⟨serialized, hser, hok⟩ := (except_bind_ok_iff _ _ _).mp hok
    split_ifs at hok with hne
    rw [not_not] at hne
    rw [hser, hget, hne]
    rfl

/-- After a `complete` call that returned, the job is completed by its attempt, with its result. -/
theorem complete_completed (h : s.Inv) {ref : String} {result : PyDict} {job : Job}
    (hok : (complete j token ref (some result) now s).1 = .ok job) :
    (complete j token ref (some result) now s).2.Completed j token ref (some result) := by
  have hstep : step (.complete j token ref (some result) now) s = (complete j token ref (some result) now s).2 := rfl
  obtain ⟨u, hb⟩ := body_of_transaction hok
  rcases completeTx_cases h hb with ⟨heq, hreplay⟩ |
    ⟨row, pre, a, outs, box, hrow, hrun, hptr, hatt, hopen, hpre, htok, hexp, hrows, hs⟩
  · -- the completion is repeated
    have hsame : (complete j token ref (some result) now s).2 = s := heq
    rw [hsame]
    unfold isReplay at hreplay
    split at hreplay
    · cases hreplay
    · next prior hprior =>
      have hsel := List.find?_some hprior
      simp only [decide_eq_true_eq] at hsel hreplay
      have hmem : prior ∈ s.attemptsOf j :=
        List.mem_filter.mpr ⟨List.mem_of_find?_eq_some hprior, decide_eq_true hsel.1⟩
      obtain ⟨hstatus, hby⟩ := completedBy_of_outcome h hmem hsel.2.2
      exact ⟨hstatus, ⟨prior, hby, hsel.2.1, hreplay⟩, canonicalJson_of_replay (replayTx_of_completed hstatus hb)⟩
  · have hbefore : s.status? j ≠ some .completed := by
      rw [Db.status?_eq, hrow]
      simp [hrun]
    have hafter : (step (.complete j token ref (some result) now) s).status? j = some .completed := by
      rw [hstep, Db.status?_eq]
      rcases completeTx_view h hb with heq | ⟨_, _, _, _, _, _, -, -, -, -, -, -, -, -, -, -, -, hself⟩
      · -- the completion was logged
        have hlog := congrArg (fun s : Db => s.transitions.length) (hs.symm.trans heq)
        simp [Db.recordTransition, Db.updateJobs, endAttempt, Db.updateAttempts] at hlog
      · have hview : ((complete j token ref (some result) now s).2.view j).rows = _ := congrArg JobView.rows hself
        rw [hview]
        rfl
    obtain ⟨token', ref', result', now', hcall, hdone⟩ := step_completed h hbefore hafter
    cases hcall
    exact hdone

/-- After a `record_failure` call that returned, the lease is over. -/
theorem recordFailure_leaseOver (h : s.Inv) {error errorCode failureKind : String} {retryable : Bool} {job : Job}
    (hok : (recordFailure j token error errorCode failureKind retryable now s).1 = .ok job) (later : Datetime) :
    (recordFailure j token error errorCode failureKind retryable now s).2.LeaseOver token later := by
  obtain ⟨u, hb⟩ := body_of_transaction hok
  obtain ⟨row, pre, a, availableAt, target, reason, -, -, -, hatt, hopen, -, htok, -, -, -, hs⟩ :=
    recordFailureTx_cases h hb
  have ha : a ∈ (s.view j).attempts := by rw [hatt]; simp
  unfold recordFailure
  rw [hs]
  refine ⟨failAttempt failureKind errorCode error now a, ?_, htok, Or.inl (Option.some_ne_none now)⟩
  refine Table.mem_updateWhere.mpr ⟨a, (Db.mem_view_attempts.mp ha).1, if_pos ?_⟩
  exact decide_eq_true ⟨rfl, hopen.1⟩

/-- A call under a lease reads the clock. -/
theorem now?_of_lease {call : JobCall} {j token : Uuid} (h : call.lease? = some (j, token, now)) :
    call.now? = some now := by
  cases call with
  | heartbeat => cases h; rfl
  | complete => cases h; rfl
  | fail => cases h; rfl
  | recordFailure => cases h; rfl
  | _ => cases h

theorem Db.LeaseOver.call (hinv : s.Inv) {token' : Uuid} (h : s.LeaseOver token' now) {call : JobCall} {j token : Uuid}
    (hlease : call.lease? = some (j, token, now)) : (SqliteJobRepository.step call s).LeaseOver token' now := by
  refine h.step hinv call fun t ht => ?_
  rw [now?_of_lease hlease] at ht
  cases ht
  exact Nat.le_refl _

end Settled

end Galaxz
