import Galaxz.Jobs.Proofs.StoreInvariantProofs

/-!
# Proofs: stored rows load

The SQL updates of an attempt set its columns without the validators that read them back. They keep
the row valid as long as the clock does not run backwards: every attempt started at or before the last
reading of the clock, so neither a renewed lease nor an end is before its start.
-/

namespace Galaxz

open SqliteJobRepository

/-! ## Valid attempts -/

/-- What the validators of `ExecutionAttempt` accept. -/
structure AttemptFields.Valid (a : AttemptFields) : Prop where
  number : 1 ≤ a.attemptNumber
  worker : strip a.workerId ≠ ""
  input : strip a.inputRef ≠ ""
  kind : ∀ k, a.failureKind = some k → k ∈ failureKinds
  together : a.endedAt = none ↔ a.outcome = none
  error : a.error ≠ none → a.outcome = some .failed
  metadata : a.failureKind ≠ none ∨ a.errorCode ≠ none → a.outcome = some .failed
  output : a.outputRef ≠ none → a.outcome = some .completed
  lease : a.startedAt < a.leaseExpiresAt
  ended : ∀ t, a.endedAt = some t → a.startedAt ≤ t

theorem AttemptFields.check_eq_ok_iff (a : AttemptFields) : a.check = .ok () ↔ a.Valid := by
  unfold AttemptFields.check
  simp only [except_guard_ok_iff, and_true]
  constructor
  · rintro ⟨hnumber, hworker, hinput, hkind, htogether, herror, hmeta, houtput, hlease, hended⟩
    exact
      { number := by omega
        worker := hworker
        input := hinput
        kind := fun k hk => by simpa [hk] using hkind
        together := by
          have heq : a.endedAt.isNone = a.outcome.isNone := not_not.mp htogether
          rw [← Option.isNone_iff_eq_none, heq, Option.isNone_iff_eq_none]
        error := fun hne => by
          by_contra hout
          exact herror ⟨Option.isSome_iff_ne_none.mpr hne, hout⟩
        metadata := fun hne => by
          by_contra hout
          refine hmeta ⟨?_, hout⟩
          rwa [Option.isSome_iff_ne_none, Option.isSome_iff_ne_none]
        output := fun hne => by
          by_contra hout
          exact houtput ⟨Option.isSome_iff_ne_none.mpr hne, hout⟩
        lease := Datetime.not_le.mp hlease
        ended := fun t ht => by
          simp only [ht, Option.any_some, decide_eq_true_eq] at hended
          exact Nat.not_lt.mp hended }
  · intro h
    have hnumber := h.number
    have hkind : a.failureKind.any (fun k => decide (k ∉ failureKinds)) = false := by
      cases hk : a.failureKind with
      | none => rfl
      | some k => simpa using h.kind k hk
    have htogether : a.endedAt.isNone = a.outcome.isNone := by
      rw [Bool.eq_iff_iff, Option.isNone_iff_eq_none, Option.isNone_iff_eq_none]
      exact h.together
    have hmeta : a.failureKind.isSome ∨ a.errorCode.isSome → a.outcome = some .failed := by
      rw [Option.isSome_iff_ne_none, Option.isSome_iff_ne_none]
      exact h.metadata
    have hended : a.endedAt.any (fun t => decide (t < a.startedAt)) = false := by
      cases he : a.endedAt with
      | none => rfl
      | some t => simpa [Datetime.lt_iff, Datetime.le_iff] using h.ended t he
    refine ⟨by omega, h.worker, h.input, ?_, not_not.mpr htogether, ?_, ?_, ?_,
      Datetime.not_le.mpr h.lease, ?_⟩
    · rw [hkind]
      decide
    · exact fun hbad => hbad.2 (h.error (Option.isSome_iff_ne_none.mp hbad.1))
    · exact fun hbad => hbad.2 (hmeta hbad.1)
    · exact fun hbad => hbad.2 (h.output (Option.isSome_iff_ne_none.mp hbad.1))
    · rw [hended]
      decide

/-- A valid row reads back. -/
theorem AttemptFields.Valid.loads {a : AttemptFields} (h : a.Valid) :
    ∃ attempt, ExecutionAttempt.validate a = .ok attempt := by
  have hcheck := a.check_eq_ok_iff.mpr h
  unfold ExecutionAttempt.validate
  split
  · next e he =>
    rw [hcheck] at he
    cases he
  · exact ⟨_, rfl⟩

/-- The row is valid, and started at or before the reading of the clock. -/
structure AttemptFields.LoadsAt (clock : Datetime) (a : AttemptFields) : Prop extends a.Valid where
  started : a.startedAt ≤ clock

section Updates

variable {now : Datetime} {a : AttemptRow}

theorem AttemptFields.LoadsAt.mono {later : Datetime} (h : a.LoadsAt now) (hle : now ≤ later) :
    a.LoadsAt later :=
  { h with started := Nat.le_trans h.started hle }

/-- A renewed lease ends after the start. -/
theorem AttemptFields.LoadsAt.renew (h : a.LoadsAt now) {expiry : Datetime} (hlt : now < expiry) :
    (renewLease expiry a).LoadsAt now :=
  { h with lease := Nat.lt_of_le_of_lt h.started hlt }

/-- An attempt that has not ended has no error, no failure and no output. -/
theorem AttemptFields.Valid.open_fields (h : a.Valid) (hopen : a.endedAt = none) :
    a.failureKind = none ∧ a.errorCode = none ∧ a.error = none ∧ a.outputRef = none := by
  have hout : a.outcome = none := h.together.mp hopen
  refine ⟨?_, ?_, ?_, ?_⟩ <;> by_contra hne
  · cases hout.symm.trans (h.metadata (Or.inl hne))
  · cases hout.symm.trans (h.metadata (Or.inr hne))
  · cases hout.symm.trans (h.error hne)
  · cases hout.symm.trans (h.output hne)

theorem AttemptFields.LoadsAt.close (h : a.LoadsAt now) (hopen : a.endedAt = none)
    (outcome : AttemptOutcome) : (closeAttempt outcome now a).LoadsAt now := by
  obtain ⟨hkind, hcode, herror, hout⟩ := h.open_fields hopen
  exact
    { h with
      together := by simp [closeAttempt]
      error := fun hne => absurd herror hne
      metadata := fun hne => hne.elim (absurd hkind) (absurd hcode)
      output := fun hne => absurd hout hne
      ended := fun t ht => by
        obtain rfl : now = t := Option.some.inj ht
        exact h.started }

theorem AttemptFields.LoadsAt.complete (h : a.LoadsAt now) (hopen : a.endedAt = none)
    (ref : Option String) : (finishAttempt .completed none ref now a).LoadsAt now := by
  obtain ⟨hkind, hcode, -, -⟩ := h.open_fields hopen
  exact
    { h with
      together := by simp [finishAttempt]
      error := fun hne => absurd rfl hne
      metadata := fun hne => hne.elim (absurd hkind) (absurd hcode)
      output := fun _ => rfl
      ended := fun t ht => by
        obtain rfl : now = t := Option.some.inj ht
        exact h.started }

theorem AttemptFields.LoadsAt.fail (h : a.LoadsAt now) (hopen : a.endedAt = none) {failureKind : String}
    (hkind : failureKind ∈ failureKinds) (errorCode error : String) :
    (failAttempt failureKind errorCode error now a).LoadsAt now := by
  obtain ⟨-, -, -, hout⟩ := h.open_fields hopen
  exact
    { h with
      kind := fun k hk => by
        obtain rfl : failureKind = k := Option.some.inj hk
        exact hkind
      together := by simp [failAttempt]
      error := fun _ => rfl
      metadata := fun _ => rfl
      output := fun hne => absurd hout hne
      ended := fun t ht => by
        obtain rfl : now = t := Option.some.inj ht
        exact h.started }

end Updates

/-! ## The calls -/

/-- Every attempt row is valid, and started at or before the reading of the clock. -/
def Db.AttemptsLoad (clock : Datetime) (s : Db) : Prop := ∀ a ∈ s.attempts, a.LoadsAt clock

section Calls

variable {s s' : Db} {now : Datetime}

theorem Db.AttemptsLoad.mono {later : Datetime} (h : s.AttemptsLoad now) (hle : now ≤ later) :
    s.AttemptsLoad later :=
  fun a ha => (h a ha).mono hle

/-- A table of attempts that was not written to. -/
theorem Db.AttemptsLoad.congr (h : s.AttemptsLoad now) (hattempts : s'.attempts = s.attempts) :
    s'.AttemptsLoad now := by
  intro a ha
  rw [hattempts] at ha
  exact h a ha

theorem Db.AttemptsLoad.update (h : s.AttemptsLoad now) {p : AttemptRow → Bool}
    {f : AttemptRow → AttemptRow} (hf : ∀ a, a.LoadsAt now → p a = true → (f a).LoadsAt now) :
    (s.updateAttempts p f).AttemptsLoad now := by
  intro a ha
  obtain ⟨x, hx, rfl⟩ := Table.mem_updateWhere.mp ha
  split_ifs with hp
  · exact hf x (h x hx) hp
  · exact h x hx

/-- Ending the attempts that an `UPDATE .. AND ended_at IS NULL` meets. -/
theorem Db.AttemptsLoad.endAttempt (h : s.AttemptsLoad now) (id : Option Uuid)
    {f : AttemptRow → AttemptRow}
    (hf : ∀ a, a.LoadsAt now → a.endedAt = none → (f a).LoadsAt now) :
    (SqliteJobRepository.endAttempt s id f).AttemptsLoad now :=
  h.update fun a ha hp => hf a ha (of_decide_eq_true hp).2

/-- What the body of a transaction keeps valid, the transaction keeps valid. -/
theorem transaction_loads {β α : Type} {body : Db → Except PyError (β × Db)}
    {read : β → Db → Except PyError α} (h : s.AttemptsLoad now)
    (hbody : ∀ b s', body s = .ok (b, s') → s'.AttemptsLoad now) :
    (transaction body read s).2.AttemptsLoad now := by
  rcases transaction_state body read s with heq | ⟨b, hb⟩
  · rw [heq]
    exact h
  · exact hbody b _ hb

theorem enqueueTx_loads {candidate : Job} {task : Option TaskContract} {res : Option JobRow}
    (h : s.AttemptsLoad now) (hok : enqueueTx candidate task now s = .ok (res, s')) :
    s'.AttemptsLoad now := by
  rcases enqueueTx_cases hok with ⟨row, text, -, -, rfl⟩ | ⟨-, -, -, -, rfl⟩
  · exact h
  · exact h.congr rfl

theorem claimTx_loads {attemptId token : Uuid} {workerId : String} {leaseSeconds : PyFloat}
    {res : Option ExecutionAttempt} (h : s.AttemptsLoad now)
    (hok : claimTx attemptId token workerId leaseSeconds now s = .ok (res, s')) :
    s'.AttemptsLoad now := by
  rcases claimTx_cases hok with ⟨-, rfl, -⟩ | ⟨row, expires, attempt, _, -, -, hattempt, -, -, rfl, rfl⟩
  · exact h
  · intro a ha
    rcases List.mem_append.mp ha with hold | hnew
    · exact h a hold
    · -- the new attempt passed its validators, and starts now
      rw [List.mem_singleton.mp hnew]
      have hstarted : attempt.startedAt = now := by
        rw [ExecutionAttempt.validate_eq_ok hattempt]
        rfl
      exact ⟨attempt.check_eq_ok_iff.mp attempt.checked, Nat.le_of_eq (congrArg _ hstarted)⟩

/-- The lease of the call is at least one microsecond as the `timedelta` it becomes; a value that is
not finite becomes none. -/
def LeaseOk (leaseSeconds : PyFloat) : Prop :=
  ∀ q, leaseSeconds = .finite q → 1 ≤ PyFloat.roundHalfEven (q * 1000000)

/-- A lease of at least one microsecond ends after it starts. -/
theorem LeaseOk.lt {leaseSeconds : PyFloat} (h : LeaseOk leaseSeconds) {expiry : Datetime}
    (hexpiry : now.addSeconds leaseSeconds = .ok expiry) : now < expiry := by
  obtain ⟨q, rfl, heq⟩ := Datetime.addSeconds_eq_ok_iff.mp hexpiry
  have hround := h q rfl
  rw [Datetime.lt_iff]
  omega

theorem heartbeatTx_loads {j token : Uuid} {leaseSeconds : PyFloat} {a : AttemptRow}
    (h : s.AttemptsLoad now) (hlease : LeaseOk leaseSeconds)
    (hok : heartbeatTx j token leaseSeconds now s = .ok (a, s')) : s'.AttemptsLoad now := by
  obtain ⟨row, -, hok⟩ := (except_bind_ok_iff _ _ _).mp hok
  obtain ⟨expiry, hexpiry, hok⟩ := (except_bind_ok_iff _ _ _).mp hok
  cases hok
  have hrenewed := h.update (p := fun x => decide (x.attemptId = row.attemptId))
    (f := renewLease expiry) fun x hx _ => hx.renew (hlease.lt hexpiry)
  exact hrenewed.congr rfl

theorem completeTx_loads (hinv : s.Inv) {j token : Uuid} {ref : String} {result : Option PyDict}
    {u : Unit} (h : s.AttemptsLoad now)
    (hok : finishTx j token .completed .completed (some ref) none result now s = .ok (u, s')) :
    s'.AttemptsLoad now := by
  rcases completeTx_cases hinv hok with ⟨rfl, -⟩ |
    ⟨row, pre, a, outs, box, -, -, -, -, -, -, -, -, -, rfl⟩
  · exact h
  · have hended := h.endAttempt (some a.attemptId) fun x hx hopen => hx.complete hopen (some ref)
    exact hended.congr rfl

theorem recordFailureTx_loads (hinv : s.Inv) {j token : Uuid} {error errorCode failureKind : String}
    {retryable : Bool} {u : Unit} (h : s.AttemptsLoad now) (hkind : failureKind ∈ failureKinds)
    (hok : recordFailureTx j token error errorCode failureKind retryable now s = .ok (u, s')) :
    s'.AttemptsLoad now := by
  obtain ⟨row, pre, a, availableAt, target, reason, -, -, -, -, -, -, -, -, -, -, rfl⟩ :=
    recordFailureTx_cases hinv hok
  have hended := h.endAttempt (some a.attemptId) fun x hx hopen => hx.fail hopen hkind errorCode error
  exact hended.congr rfl

theorem cancelTx_loads {j : Uuid} {u : Unit} (h : s.AttemptsLoad now)
    (hok : cancelTx j now s = .ok (u, s')) : s'.AttemptsLoad now := by
  unfold cancelTx at hok
  split at hok
  · cases hok
  · next job hjob =>
    have hclosed := h.endAttempt job.activeAttemptId fun x hx hopen => hx.close hopen .cancelled
    split_ifs at hok
    · cases hok
      exact h
    · obtain ⟨-, -, hok⟩ := (except_bind_ok_iff _ _ _).mp hok
      cases hok
      exact hclosed.congr rfl
    · obtain ⟨-, -, hok⟩ := (except_bind_ok_iff _ _ _).mp hok
      cases hok
      exact h.congr rfl

theorem reclaimAll_loads (jobs : List JobRow) : ∀ {s s' : Db}, s.AttemptsLoad now →
    reclaimAll now jobs s = .ok s' → s'.AttemptsLoad now := by
  induction jobs with
  | nil =>
    intro s s' h hok
    cases hok
    exact h
  | cons job jobs ih =>
    intro s s' h hok
    obtain ⟨s1, hone, hok⟩ := (except_bind_ok_iff _ _ _).mp hok
    obtain ⟨-, -, hone⟩ := (except_bind_ok_iff _ _ _).mp hone
    obtain ⟨delay, -, hone⟩ := (except_bind_ok_iff _ _ _).mp hone
    obtain ⟨availableAt, -, hone⟩ := (except_bind_ok_iff _ _ _).mp hone
    have hclosed := h.endAttempt job.activeAttemptId fun x hx hopen =>
      hx.close hopen .leaseExpired
    cases hone
    refine ih ?_ hok
    exact hclosed.congr rfl

end Calls

/-- The reading of the clock that a call makes. -/
def JobCall.now? : JobCall → Option Datetime
  | .enqueue _ _ _ _ _ _ now => some now
  | .claim _ _ _ _ now => some now
  | .heartbeat _ _ _ now => some now
  | .complete _ _ _ _ now => some now
  | .fail _ _ _ _ _ now => some now
  | .recordFailure _ _ _ _ _ _ now => some now
  | .cancel _ now => some now
  | .reclaimExpired now => some now
  | .pendingCompletions _ => none
  | .acknowledgeCompletion _ now => some now

/-- The lease of a call is at least one microsecond, and its kind of failure one of the contract. -/
def JobCall.ArgsOk : JobCall → Prop
  | .claim _ _ _ leaseSeconds _ => LeaseOk leaseSeconds
  | .heartbeat _ _ leaseSeconds _ => LeaseOk leaseSeconds
  | .fail _ _ _ _ failureKind _ => failureKind ∈ failureKinds
  | .recordFailure _ _ _ _ failureKind _ _ => failureKind ∈ failureKinds
  | _ => True

/-- A call at a clock reading that no earlier one exceeds keeps every attempt row valid. -/
theorem step_loads {s : Db} {now : Datetime} (hinv : s.Inv) (h : s.AttemptsLoad now) (call : JobCall)
    (hargs : call.ArgsOk) (hnow : ∀ t, call.now? = some t → t = now) :
    (step call s).AttemptsLoad now := by
  cases call with
  | enqueue jobId taskId task key priority policy t =>
    obtain rfl := hnow t rfl
    simp only [step, exec, answer_snd, enqueue]
    split_ifs
    · exact h
    · split
      · exact h
      · exact transaction_loads h fun b s' hb => enqueueTx_loads h hb
  | claim attemptId token workerId leaseSeconds t =>
    obtain rfl := hnow t rfl
    simp only [step, exec, answer_snd, claim]
    split_ifs
    · exact h
    · exact transaction_loads h fun b s' hb => claimTx_loads h hb
  | heartbeat j token leaseSeconds t =>
    obtain rfl := hnow t rfl
    simp only [step, exec, answer_snd, heartbeat]
    split_ifs
    · exact h
    · exact transaction_loads h fun b s' hb => heartbeatTx_loads h hargs hb
  | complete j token ref result t =>
    obtain rfl := hnow t rfl
    simp only [step, exec, answer_snd, complete, finish]
    exact transaction_loads h fun b s' hb => completeTx_loads hinv h hb
  | fail j token error errorCode failureKind t =>
    obtain rfl := hnow t rfl
    simp only [step, exec, answer_snd, fail, recordFailure]
    exact transaction_loads h fun b s' hb => recordFailureTx_loads hinv h hargs hb
  | recordFailure j token error errorCode failureKind retryable t =>
    obtain rfl := hnow t rfl
    simp only [step, exec, answer_snd, recordFailure]
    exact transaction_loads h fun b s' hb => recordFailureTx_loads hinv h hargs hb
  | cancel j t =>
    obtain rfl := hnow t rfl
    simp only [step, exec, answer_snd, cancel]
    exact transaction_loads h fun b s' hb => cancelTx_loads h hb
  | reclaimExpired t =>
    obtain rfl := hnow t rfl
    simp only [step, exec, answer_snd, reclaimExpired]
    refine transaction_loads h fun b s' hb => ?_
    obtain ⟨s1, hall, hb⟩ := (except_bind_ok_iff _ _ _).mp hb
    cases hb
    exact reclaimAll_loads _ h hall
  | pendingCompletions limit => exact h
  | acknowledgeCompletion j t => exact h.congr rfl

/-! ## Runs -/

/-- The readings of the clock never go back. -/
def ClockMonotone (calls : List JobCall) : Prop := (calls.filterMap JobCall.now?).Pairwise (· ≤ ·)

instance (calls : List JobCall) : Decidable (ClockMonotone calls) := by
  unfold ClockMonotone
  infer_instance

theorem ClockMonotone.concat {calls : List JobCall} {call : JobCall}
    (h : ClockMonotone (calls ++ [call])) :
    ClockMonotone calls ∧ ∀ c ∈ calls, ∀ t u, c.now? = some t → call.now? = some u → t ≤ u := by
  unfold ClockMonotone at h ⊢
  rw [List.filterMap_append, List.pairwise_append] at h
  refine ⟨h.1, fun c hc t u ht hu => h.2.2 t ?_ u ?_⟩
  · exact List.mem_filterMap.mpr ⟨c, hc, ht⟩
  · simp [hu]

/-- At every time from the last reading of the clock on, the attempt rows of a run are valid. -/
theorem run_attemptsLoad (calls : List JobCall) (hclock : ClockMonotone calls)
    (hargs : ∀ call ∈ calls, call.ArgsOk) (clock : Datetime)
    (hlast : ∀ call ∈ calls, ∀ t, call.now? = some t → t ≤ clock) : (run calls).AttemptsLoad clock := by
  induction calls using List.reverseRecOn generalizing clock with
  | nil =>
    intro a ha
    cases ha
  | append_singleton calls call ih =>
    obtain ⟨hbefore, hle⟩ := hclock.concat
    have hargs' : ∀ c ∈ calls, c.ArgsOk := fun c hc => hargs c (List.mem_append_left _ hc)
    have hcall : call ∈ calls ++ [call] := by simp
    have hrun : run (calls ++ [call]) = step call (run calls) := Machine.run_concat _ _ _ _
    rw [hrun]
    cases hnow : call.now? with
    | none =>
      -- the call reads no clock
      have hold := ih hbefore hargs' clock fun c hc => hlast c (List.mem_append_left _ hc)
      exact step_loads (run_inv calls) hold call (hargs call hcall) fun t ht => by
        rw [hnow] at ht
        cases ht
    | some now =>
      have hold := ih hbefore hargs' now fun c hc t ht => hle c hc t now ht hnow
      have hstep := step_loads (run_inv calls) hold call (hargs call hcall) fun t ht => by
        rw [hnow] at ht
        exact (Option.some.inj ht).symm
      exact hstep.mono (hlast call hcall now hnow)

/-- Every job row reads back under its key. -/
theorem Db.Inv.jobFromRow_ok {s : Db} (h : s.Inv) {row : JobRow} (hrow : row ∈ s.jobs) :
    ∃ key, s.keysOf row.jobId = [key] ∧ ∃ job, jobFromRow row key.idempotencyKey = .ok job := by
  obtain ⟨key, hs⟩ := (h.views row.jobId).sound (h.view_of_mem hrow)
  exact ⟨key, hs.keys, Galaxz.jobFromRow_ok hs.loads hs.key_stripped hs.key_nonempty⟩

/-- `list_jobs` returns for every limit it accepts. -/
theorem Db.Inv.listJobs_ok {s : Db} (h : s.Inv) (limit : ℤ) :
    (∃ jobs, listJobs s limit = .ok jobs) ↔ 1 ≤ limit ∧ limit ≤ 500 := by
  unfold listJobs
  by_cases hlimit : 1 ≤ limit ∧ limit ≤ 500
  · rw [if_pos hlimit]
    refine iff_of_true (mapM_ok _ fun r hr => ?_) hlimit
    have hjoin : r ∈ joinKeys s s.jobs := by
      have hmem := Table.mem_of_mem_limitRows hr
      exact (List.mem_insertionSort _).mp hmem
    obtain ⟨hrow, k, hk, hkey⟩ := mem_joinKeys hjoin
    obtain ⟨key, hkeys, job, hjob⟩ := h.jobFromRow_ok hrow
    rw [hkeys, List.mem_singleton] at hk
    rw [hk] at hkey
    exact ⟨job, by rw [← hkey]; exact hjob⟩
  · rw [if_neg hlimit]
    refine iff_of_false ?_ hlimit
    rintro ⟨jobs, hjobs⟩
    cases hjobs

/-- Stored rows always load. In every state of a run whose clock never goes back and whose arguments
the contract allows, every job row and every attempt row passes its validators, so `get_job` and
`attempts` return, and `list_jobs` does for every limit it accepts. -/
theorem run_loads (calls : List JobCall) (hclock : ClockMonotone calls)
    (hargs : ∀ call ∈ calls, call.ArgsOk) :
    (∀ row ∈ (run calls).jobs, ∃ key, (run calls).keysOf row.jobId = [key] ∧
      ∃ job, jobFromRow row key.idempotencyKey = .ok job) ∧
    (∀ row ∈ (run calls).attempts, ∃ attempt, attemptFromRow row = .ok attempt) ∧
    (∀ j, ∃ job, getJob (run calls) j = .ok job) ∧
    (∀ limit, (∃ jobs, listJobs (run calls) limit = .ok jobs) ↔ 1 ≤ limit ∧ limit ≤ 500) ∧
    ∀ j, ∃ rows, attempts (run calls) j = .ok rows := by
  have h := run_inv calls
  -- no reading of the clock is after `datetime.max`
  have hload := run_attemptsLoad calls hclock hargs ⟨datetimeBound - 1, by decide⟩ fun _ _ t _ =>
    Nat.le_sub_one_of_lt t.micros_lt
  have hrows : ∀ row ∈ (run calls).attempts, ∃ attempt, attemptFromRow row = .ok attempt :=
    fun row hrow => (hload row hrow).toValid.loads
  refine ⟨fun row hrow => h.jobFromRow_ok hrow, hrows, fun j => ?_, h.listJobs_ok, fun j => ?_⟩
  · obtain ⟨res, hres, -⟩ := getJob_ok h j
    exact ⟨res, hres⟩
  · refine mapM_ok _ fun row hrow => hrows row ?_
    have hmem := (List.mem_insertionSort _).mp hrow
    exact (Db.mem_view_attempts.mp hmem).1

/-- The claimed job, whose lease is renewed and whose attempt then fails. -/
def failedCalls : List JobCall :=
  claimedCalls ++ [.heartbeat 1 1 (.finite 30) (.ofMicros 5),
    .fail 1 1 "no answer" "timeout" "execution" (.ofMicros 10)]

/-- Its rows load. -/
theorem failedCalls_load : (run failedCalls).attempts.length = 1 ∧
    ∃ rows, attempts (run failedCalls) 1 = .ok rows := by
  have hlease : LeaseOk (.finite 30) := by
    rintro q ⟨⟩
    decide +kernel
  have hargs : ∀ call ∈ failedCalls, call.ArgsOk := by
    simp [failedCalls, claimedCalls, JobCall.ArgsOk, hlease, failureKinds]
  exact ⟨by decide +kernel, (run_loads failedCalls (by decide) hargs).2.2.2.2 1⟩

end Galaxz
