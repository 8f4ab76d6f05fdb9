import Galaxz.Jobs.Proofs.FencingProofs

/-!
# Proofs: retry arithmetic and recovery

When `record_failure` and `reclaim_expired` return. The back-off is computed as a float before it is
capped, so it raises from the attempt 1025 on, even for a job that is not retried; and the capped delay
must still lead to a date. One expired job that fails either test rolls back the whole batch.
-/

namespace Galaxz

open SqliteJobRepository

/-! ## The delay -/

/-- The seconds before the next attempt, `min(backoff_seconds * 2^(attempt_count-1),
max_backoff_seconds)` over the rationals; none for an infinite `backoff_seconds`. -/
def JobRow.delaySeconds (job : JobRow) : Option ℚ :=
  match job.backoffSeconds, job.maxBackoffSeconds with
  | .finite b, .finite m => some (min (b * 2 ^ (job.attemptCount - 1)) m)
  | .finite b, _ => some (b * 2 ^ (job.attemptCount - 1))
  | _, _ => none

/-- `available` is the time `now`, later by the delay of the job to the microsecond. -/
def JobRow.RetriesAt (job : JobRow) (now available : Datetime) : Prop :=
  ∃ q, job.delaySeconds = some q ∧
    (available.micros : ℤ) = now.micros + PyFloat.roundHalfEven (q * 1000000)

/-- The delay after `now` ends before the year 10000. -/
def JobRow.DelayFits (job : JobRow) (now : Datetime) : Prop :=
  ∃ q, job.delaySeconds = some q ∧
    now.micros + PyFloat.roundHalfEven (q * 1000000) < datetimeBound

/-- A row that can be read back has a finite non-negative or an infinite back-off. -/
theorem JobRow.Loads.backoff {job : JobRow} (h : job.Loads) :
    (∃ b, job.backoffSeconds = .finite b ∧ 0 ≤ b) ∨ job.backoffSeconds = .posInf := by
  have hneg := h.backoff_nonneg
  have hnan := h.backoff_ne_nan
  cases hb : job.backoffSeconds with
  | finite b =>
    rw [hb] at hneg
    exact Or.inl ⟨b, rfl, by simpa [PyFloat.lt] using hneg⟩
  | posInf => exact Or.inr rfl
  | negInf =>
    rw [hb] at hneg
    cases hneg
  | nan => exact absurd hb hnan

theorem JobRow.Loads.maxBackoff {job : JobRow} (h : job.Loads) :
    (∃ m, job.maxBackoffSeconds = .finite m ∧ 0 ≤ m) ∨ job.maxBackoffSeconds = .posInf := by
  have hneg := h.maxBackoff_nonneg
  have hnan := h.maxBackoff_ne_nan
  cases hm : job.maxBackoffSeconds with
  | finite m =>
    rw [hm] at hneg
    exact Or.inl ⟨m, rfl, by simpa [PyFloat.lt] using hneg⟩
  | posInf => exact Or.inr rfl
  | negInf =>
    rw [hm] at hneg
    cases hneg
  | nan => exact absurd hm hnan

theorem JobRow.Loads.delaySeconds_nonneg {job : JobRow} (h : job.Loads) {q : ℚ}
    (hq : job.delaySeconds = some q) : 0 ≤ q := by
  unfold JobRow.delaySeconds at hq
  rcases h.backoff with ⟨b, hb, hb0⟩ | hb
  · have hp : 0 ≤ b * 2 ^ (job.attemptCount - 1) := by positivity
    rcases h.maxBackoff with ⟨m, hm, hm0⟩ | hm
    · simp only [hb, hm, Option.some.injEq] at hq
      rw [← hq]
      exact le_min hp hm0
    · simp only [hb, hm, Option.some.injEq] at hq
      rw [← hq]
      exact hp
  · simp [hb] at hq

/-- A delay that fits leads to a date, and only such a delay does. -/
theorem JobRow.Loads.delayFits_iff {job : JobRow} (h : job.Loads) {now : Datetime} :
    job.DelayFits now ↔ ∃ available, job.RetriesAt now available := by
  constructor
  · rintro ⟨q, hq, hlt⟩
    have h0 : 0 ≤ PyFloat.roundHalfEven (q * 1000000) :=
      PyFloat.roundHalfEven_nonneg (mul_nonneg (h.delaySeconds_nonneg hq) (by norm_num))
    refine ⟨⟨(now.micros + PyFloat.roundHalfEven (q * 1000000)).toNat, by omega⟩, q, hq, ?_⟩
    simp only
    omega
  · rintro ⟨available, q, hq, heq⟩
    refine ⟨q, hq, ?_⟩
    rw [← heq]
    exact_mod_cast available.micros_lt

/-- A number of seconds too large for a double leads to no date. -/
theorem not_date_of_overflow {q : ℚ} (hq : PyFloat.overflowBound ≤ q) (now available : Datetime) :
    (available.micros : ℤ) ≠ now.micros + PyFloat.roundHalfEven (q * 1000000) := by
  have hbig : PyFloat.roundHalfEven (datetimeBound : ℚ) = datetimeBound := by
    simp [PyFloat.roundHalfEven]
  have hle : (datetimeBound : ℚ) ≤ q * 1000000 := by
    have hpow : (2 : ℚ) ^ 64 ≤ q :=
      (pow_le_pow_right₀ (by norm_num) (by norm_num)).trans hq
    unfold datetimeBound
    push_cast
    linarith
  have hround := PyFloat.roundHalfEven_mono hle
  rw [hbig] at hround
  have := available.micros_lt
  omega

/-- Longer after more attempts. -/
theorem JobRow.RetriesAt.mono {job : JobRow} (h : job.Loads) {n m : ℕ} (hnm : n ≤ m)
    {now u v : Datetime} (hu : ({ job with attemptCount := n } : JobRow).RetriesAt now u)
    (hv : ({ job with attemptCount := m } : JobRow).RetriesAt now v) : u ≤ v := by
  obtain ⟨p, hp, hpu⟩ := hu
  obtain ⟨q, hq, hqv⟩ := hv
  have hpq : p ≤ q := by
    unfold JobRow.delaySeconds at hp hq
    rcases h.backoff with ⟨b, hb, hb0⟩ | hb
    · have hpow : b * 2 ^ (n - 1) ≤ b * 2 ^ (m - 1) :=
        mul_le_mul_of_nonneg_left (pow_le_pow_right₀ (by norm_num) (by omega)) hb0
      rcases h.maxBackoff with ⟨c, hc, -⟩ | hc
      · simp only [hb, hc, Option.some.injEq] at hp hq
        rw [← hp, ← hq]
        exact min_le_min_right c hpow
      · simp only [hb, hc, Option.some.injEq] at hp hq
        rw [← hp, ← hq]
        exact hpow
    · simp [hb] at hp
  have hround := PyFloat.roundHalfEven_mono (mul_le_mul_of_nonneg_right hpq (by norm_num : (0 : ℚ) ≤ 1000000))
  rw [Datetime.le_iff]
  omega

/-- The float delay is the rational one, wherever it leads to a date. -/
theorem JobRow.Loads.retryDelay_finite_iff {job : JobRow} (h : job.Loads)
    (hcount : job.attemptCount ≤ 1024) {delay : PyFloat} (hdelay : retryDelay job = .ok delay)
    {now available : Datetime} :
    now.addSeconds delay = .ok available ↔ job.RetriesAt now available := by
  rw [Datetime.addSeconds_eq_ok_iff]
  have hk : ¬ 1024 ≤ job.attemptCount - 1 := by omega
  unfold retryDelay PyFloat.mulTwoPow at hdelay
  rw [if_neg hk] at hdelay
  unfold JobRow.RetriesAt JobRow.delaySeconds
  rcases h.backoff with ⟨b, hb, hb0⟩ | hb
  · have hp0 : 0 ≤ b * 2 ^ (job.attemptCount - 1) := by positivity
    set p := b * 2 ^ (job.attemptCount - 1) with hp
    have hneg : ¬ p ≤ -PyFloat.overflowBound := by
      have : (0 : ℚ) < PyFloat.overflowBound := by unfold PyFloat.overflowBound; positivity
      linarith
    by_cases hover : PyFloat.overflowBound ≤ p
    · -- the product is infinite, and so at least as large as any cap that leads to a date
      rcases h.maxBackoff with ⟨m, hm, -⟩ | hm
      · simp only [hb, hm, ← hp, PyFloat.ofProduct, if_pos hover, bind, Except.bind, pure, Except.pure,
          Except.ok.injEq, PyFloat.pyMin, PyFloat.lt, if_true] at hdelay
        simp only [hb, hm, ← hdelay, PyFloat.finite.injEq, Option.some.injEq, exists_eq_left']
        rcases le_total m p with hmp | hmp
        · rw [min_eq_right hmp]
        · rw [min_eq_left hmp]
          exact iff_of_false (not_date_of_overflow (hover.trans hmp) _ _) (not_date_of_overflow hover _ _)
      · simp only [hb, hm, ← hp, PyFloat.ofProduct, if_pos hover, bind, Except.bind, pure, Except.pure,
          Except.ok.injEq, PyFloat.pyMin, PyFloat.lt, Bool.false_eq_true, if_false] at hdelay
        simp only [hb, hm, ← hdelay, reduceCtorEq, false_and, exists_false, Option.some.injEq,
          exists_eq_left', false_iff]
        exact not_date_of_overflow hover _ _
    · rcases h.maxBackoff with ⟨m, hm, -⟩ | hm
      · simp only [hb, hm, ← hp, PyFloat.ofProduct, if_neg hover, if_neg hneg, bind, Except.bind, pure,
          Except.pure, Except.ok.injEq, PyFloat.pyMin, PyFloat.lt, decide_eq_true_eq] at hdelay
        have hmin : delay = .finite (min p m) := by
          rw [← hdelay]
          split_ifs with hlt
          · rw [min_eq_right hlt.le]
          · rw [min_eq_left (not_lt.mp hlt)]
        simp only [hb, hm, hmin, ← hp, PyFloat.finite.injEq, Option.some.injEq, exists_eq_left']
      · simp only [hb, hm, ← hp, PyFloat.ofProduct, if_neg hover, if_neg hneg, bind, Except.bind, pure,
          Except.pure, Except.ok.injEq, PyFloat.pyMin, PyFloat.lt, Bool.false_eq_true, if_false] at hdelay
        simp only [hb, hm, ← hdelay, ← hp, PyFloat.finite.injEq, Option.some.injEq, exists_eq_left']
  · -- an infinite back-off has an infinite cap
    have hm : job.maxBackoffSeconds = .posInf := by
      have hle := h.backoff_le
      rcases h.maxBackoff with ⟨m, hm, -⟩ | hm
      · rw [hb, hm] at hle
        cases hle
      · exact hm
    simp only [hb, hm, bind, Except.bind, pure, Except.pure, Except.ok.injEq, PyFloat.pyMin, PyFloat.lt,
      Bool.false_eq_true, if_false] at hdelay
    simp [hb, ← hdelay]

/-- The job can be released at `now`: its back-off is computed from at most 1024 attempts, and if it
runs `again`, the delay leads to a date. -/
def JobRow.Recoverable (job : JobRow) (now : Datetime) (again : Bool) : Prop :=
  job.attemptCount ≤ 1024 ∧ (again = true → job.DelayFits now)

/-- The back-off raises exactly from the attempt 1025 on. -/
theorem retryDelay_ok_iff {job : JobRow} :
    (∃ delay, retryDelay job = .ok delay) ↔ job.attemptCount ≤ 1024 := by
  unfold retryDelay PyFloat.mulTwoPow
  split_ifs with hk
  · simp only [bind, Except.bind, reduceCtorEq, exists_false, false_iff]
    omega
  · simp only [bind, Except.bind, pure, Except.pure, Except.ok.injEq, exists_eq', true_iff]
    omega

/-- What `available_at` is set to. -/
theorem JobRow.Loads.nextAvailable_spec {job : JobRow} (h : job.Loads) {delay : PyFloat} {again : Bool}
    {now available : Datetime} (hdelay : retryDelay job = .ok delay)
    (hnext : nextAvailable again delay now = .ok available) :
    job.Recoverable now again ∧ (again = true → job.RetriesAt now available) := by
  have hcount := retryDelay_ok_iff.mp ⟨delay, hdelay⟩
  have hretries : again = true → job.RetriesAt now available := by
    rintro rfl
    exact (h.retryDelay_finite_iff hcount hdelay).mp hnext
  exact ⟨⟨hcount, fun hagain => h.delayFits_iff.mpr ⟨available, hretries hagain⟩⟩, hretries⟩

/-- A recoverable job gets its `available_at`. -/
theorem JobRow.Loads.nextAvailable_ok {job : JobRow} (h : job.Loads) {again : Bool} {now : Datetime}
    (hrec : job.Recoverable now again) :
    ∃ delay available, retryDelay job = .ok delay ∧ nextAvailable again delay now = .ok available := by
  obtain ⟨delay, hdelay⟩ := retryDelay_ok_iff.mpr hrec.1
  cases again with
  | false => exact ⟨delay, now, hdelay, rfl⟩
  | true =>
    obtain ⟨available, hretries⟩ := h.delayFits_iff.mp (hrec.2 rfl)
    exact ⟨delay, available, hdelay, (h.retryDelay_finite_iff hrec.1 hdelay).mpr hretries⟩

/-! ## Leases of the reachable databases -/

/-- The lease under which the job runs has expired. -/
def Db.LeaseExpired (s : Db) (job : JobRow) (now : Datetime) : Prop :=
  ∃ a ∈ s.attempts, job.activeAttemptId = some a.attemptId ∧ a.leaseExpiresAt ≤ now

/-- A job with an active attempt is running, and the attempt is open. -/
theorem Db.Inv.active {s : Db} (h : s.Inv) {job : JobRow} (hjob : job ∈ s.jobs) {a : AttemptRow}
    (ha : a ∈ s.attempts) (hptr : job.activeAttemptId = some a.attemptId) :
    job.status = .running ∧ a.jobId = job.jobId ∧ a.Open := by
  obtain ⟨key, hs⟩ := (h.views job.jobId).sound (h.view_of_mem hjob)
  obtain ⟨pre, post, hatt, -, ⟨-, hnone, -⟩ | ⟨hrun, b, rfl, hptr', hopen⟩⟩ := hs.attempts.split_last
  · rw [hptr] at hnone
    cases hnone
  · have hb : b ∈ (s.view job.jobId).attempts := by rw [hatt]; simp
    obtain ⟨hbmem, hbid⟩ := Db.mem_view_attempts.mp hb
    have hid : a.attemptId = b.attemptId := by
      rw [hptr] at hptr'
      exact Option.some.inj hptr'
    obtain rfl := Table.eq_of_key (·.attemptId) h.attempts_nodup ha hbmem hid
    exact ⟨hrun, hbid, hopen⟩

/-- The selection of `reclaim_expired` is what it should be. -/
theorem mem_expiredJobs_iff {s : Db} (h : s.Inv) {now : Datetime} {job : JobRow} :
    job ∈ expiredJobs s now ↔ job ∈ s.jobs ∧ s.LeaseExpired job now := by
  unfold expiredJobs
  simp only [List.mem_filter, List.any_eq_true, decide_eq_true_eq]
  constructor
  · rintro ⟨hjob, -, a, ha, hptr, -, hexp⟩
    exact ⟨hjob, a, ha, hptr, hexp⟩
  · rintro ⟨hjob, a, ha, hptr, hexp⟩
    obtain ⟨hrun, -, hopen⟩ := h.active hjob ha hptr
    exact ⟨hjob, hrun, a, ha, hptr, hopen.1, hexp⟩

/-- The lease check passes for the active attempt, before its expiry. -/
theorem activeLease_ok {s : Db} (h : s.Inv) {job : JobRow} (hjob : job ∈ s.jobs) {a : AttemptRow}
    (ha : a ∈ s.attempts) (hptr : job.activeAttemptId = some a.attemptId) {now : Datetime}
    (hexp : now < a.leaseExpiresAt) (msg : String) :
    activeLease s job.jobId a.leaseToken now msg = .ok a := by
  obtain ⟨hrun, hid, hopen⟩ := h.active hjob ha hptr
  have hfind : activeAttempt s job.jobId a.leaseToken = some a := by
    unfold activeAttempt
    cases hfound : s.attempts.find? _ with
    | none =>
      have hfalse := List.find?_eq_none.mp hfound a ha
      simp only [decide_eq_true_eq, List.any_eq_true, not_and] at hfalse
      exact absurd hopen.1 (hfalse ⟨job, hjob, hptr, rfl, hrun⟩ trivial)
    | some b =>
      have hb := List.find?_some hfound
      simp only [decide_eq_true_eq, List.any_eq_true] at hb
      obtain ⟨⟨row, hrow, hptr', hrowid, -⟩, -, -⟩ := hb
      have hrowjob : row = job := Table.eq_of_key (·.jobId) h.jobs_nodup hrow hjob hrowid
      rw [hrowjob, hptr] at hptr'
      rw [Table.eq_of_key (·.attemptId) h.attempts_nodup (List.mem_of_find?_eq_some hfound) ha
        (Option.some.inj hptr').symm]
  unfold activeLease
  rw [hfind]
  exact if_neg (Datetime.not_le.mpr hexp)

/-! ## Releases -/

/-- The job has been released at `now`: to the queue after its delay if it runs `again`, else to
failure. -/
def Db.Released (s : Db) (job : JobRow) (now : Datetime) (again : Bool) : Prop :=
  ∃ row, s.job? job.jobId = some row ∧ row.attemptCount = job.attemptCount ∧
    if again then row.status = .queued ∧ job.RetriesAt now row.availableAt else row.status = .failed

/-- The row that a release writes. -/
theorem released_of_requeue {s : Db} (h : s.Inv) {job : JobRow} {now available : Datetime} {again : Bool}
    (hrow : (s.view job.jobId).rows =
      [requeue (if again then JobStatus.queued else .failed) now available job])
    (hretries : again = true → job.RetriesAt now available) : s.Released job now again := by
  refine ⟨_, h.job?_eq_some.mpr hrow, rfl, ?_⟩
  cases again with
  | true => exact ⟨rfl, hretries rfl⟩
  | false => rfl

/-- The row of a job after its run was ended and its row rewritten. -/
theorem view_rows_release {s : Db} {job : JobRow} (hrow : (s.view job.jobId).rows = [job])
    {p : JobRow → Bool} (hp : p job = true) {g : AttemptRow → AttemptRow}
    (hg : ∀ x, (g x).jobId = x.jobId) (id : Option Uuid) (target : JobStatus) (now available : Datetime)
    (reason : String) :
    ((((endAttempt s id g).updateJobs p (requeue target now available)).recordTransition job.jobId
      (some .running) target reason now).view job.jobId).rows = [requeue target now available job] := by
  rw [view_recordTransition, view_updateJobs _ _ _ (f := requeue target now available) (fun _ => rfl),
    endAttempt, view_updateAttempts _ _ _ hg]
  simp only [hrow, Table.updateWhere_singleton, hp, if_true]

/-- `record_failure` under the active, unexpired lease releases the job exactly when the job is
recoverable; else it raises. -/
theorem recordFailure_iff {s : Db} (h : s.Inv) {job : JobRow} (hjob : job ∈ s.jobs) {a : AttemptRow}
    (ha : a ∈ s.attempts) (hptr : job.activeAttemptId = some a.attemptId) {now : Datetime}
    (hexp : now < a.leaseExpiresAt) (error errorCode failureKind : String) (retryable : Bool) :
    (raised (recordFailure job.jobId a.leaseToken error errorCode failureKind retryable now s).1 = false ∧
      (recordFailure job.jobId a.leaseToken error errorCode failureKind retryable now s).2.Released job
        now (shouldRetry job errorCode retryable)) ↔
    job.Recoverable now (shouldRetry job errorCode retryable) := by
  have hrow := h.view_of_mem hjob
  obtain ⟨key, hs⟩ := (h.views job.jobId).sound hrow
  obtain ⟨hrun, -, -⟩ := h.active hjob ha hptr
  constructor
  · rintro ⟨hraised, -⟩
    unfold recordFailure transaction at hraised
    split at hraised
    · cases hraised
    · next u s' hb =>
      obtain ⟨row, _, _, available, _, _, hrow', -, -, -, -, -, -, -, -, ⟨delay, hdelay, hnext⟩, -⟩ :=
        recordFailureTx_cases h hb
      obtain rfl : job = row := by simpa [hrow] using hrow'
      exact (hs.loads.nextAvailable_spec hdelay hnext).1
  · intro hrec
    obtain ⟨delay, available, hdelay, hnext⟩ := hs.loads.nextAvailable_ok hrec
    have hvalid : validateJobTransition .running
        (if shouldRetry job errorCode retryable then JobStatus.queued else .failed) = .ok () := by
      split_ifs <;> rfl
    obtain ⟨s', hb⟩ : ∃ s', recordFailureTx job.jobId a.leaseToken error errorCode failureKind retryable
        now s = .ok ((), s') := by
      unfold recordFailureTx
      rw [h.job?_eq_some.mpr hrow]
      simp only [hrun, ne_eq, not_true_eq_false, if_false, bind, Except.bind,
        activeLease_ok h hjob ha hptr hexp, hvalid, hdelay, hnext, pure, Except.pure]
      exact ⟨_, rfl⟩
    have hread := recordFailureTx_read h hb
    have htx : recordFailure job.jobId a.leaseToken error errorCode failureKind retryable now s =
        (getJobAsserted s' job.jobId, s') := by
      unfold recordFailure transaction
      rw [hb]
    rw [htx]
    refine ⟨hread, ?_⟩
    obtain ⟨row, _, b, available, _, reason, hrow', -, -, -, -, -, -, -, rfl, ⟨delay, hdelay, hnext⟩, rfl⟩ :=
      recordFailureTx_cases h hb
    obtain rfl : job = row := by simpa [hrow] using hrow'
    refine released_of_requeue ((recordFailureTx_moves h hb).refines.inv h) ?_
      (hs.loads.nextAvailable_spec hdelay hnext).2
    exact view_rows_release hrow (decide_eq_true ⟨rfl, hrun⟩)
      (g := failAttempt failureKind errorCode error now) (fun _ => rfl) (some b.attemptId) _ _ _ reason

/-! ## `reclaim_expired` -/

theorem reclaimOne_ok_iff (s : Db) (now : Datetime) {job : JobRow} (hloads : job.Loads) :
    (∃ s', reclaimOne now job s = .ok s') ↔ job.Recoverable now (!exhausted job) := by
  have hvalid : validateJobTransition .running
      (if exhausted job then JobStatus.failed else .queued) = .ok () := by
    split_ifs <;> rfl
  unfold reclaimOne
  simp only [hvalid, bind, Except.bind, pure, Except.pure]
  constructor
  · rintro ⟨s', hok⟩
    split at hok
    · cases hok
    · next delay hdelay =>
      split at hok
      · cases hok
      · next available hnext => exact (hloads.nextAvailable_spec hdelay hnext).1
  · intro hrec
    obtain ⟨delay, available, hdelay, hnext⟩ := hloads.nextAvailable_ok hrec
    rw [hdelay]
    simp only [hnext]
    exact ⟨_, rfl⟩

/-- Reclaiming a job releases it. -/
theorem reclaimOne_released {s s' : Db} (h : s.Inv) {now : Datetime} {job : JobRow}
    (hrow : (s.view job.jobId).rows = [job]) (hrun : job.status = .running)
    (hok : reclaimOne now job s = .ok s') : s'.Released job now (!exhausted job) := by
  have hinv := (reclaimOne_moves h hrow hrun hok).refines.inv h
  obtain ⟨key, hs⟩ := (h.views job.jobId).sound hrow
  unfold reclaimOne at hok
  obtain ⟨-, -, hok⟩ := (except_bind_ok_iff _ _ _).mp hok
  obtain ⟨delay, hdelay, hok⟩ := (except_bind_ok_iff _ _ _).mp hok
  obtain ⟨available, hnext, hok⟩ := (except_bind_ok_iff _ _ _).mp hok
  cases hok
  have htarget : (if exhausted job then JobStatus.failed else .queued) =
      if (!exhausted job) then JobStatus.queued else .failed := by
    cases exhausted job <;> rfl
  refine released_of_requeue hinv ?_ (hs.loads.nextAvailable_spec hdelay hnext).2
  rw [← htarget]
  exact view_rows_release hrow (decide_eq_true rfl) (g := closeAttempt .leaseExpired now)
    (fun _ => rfl) job.activeAttemptId _ _ _ "lease_expired"

/-- A view determines whether its job was released. -/
theorem Db.Released.of_view {s s' : Db} {job : JobRow} {now : Datetime} {again : Bool} (h : s.Inv)
    (h' : s'.Inv) (hview : s'.view job.jobId = s.view job.jobId) (hrel : s.Released job now again) :
    s'.Released job now again := by
  obtain ⟨row, hrow, hrest⟩ := hrel
  refine ⟨row, h'.job?_eq_some.mpr ?_, hrest⟩
  rw [hview]
  exact h.job?_eq_some.mp hrow

/-- The loop of `reclaim_expired` runs to its end exactly when each of its jobs is recoverable; a later
job does not undo the release of an earlier one. -/
theorem reclaimAll_iff (now : Datetime) (jobs : List JobRow) :
    ∀ {s : Db}, s.Inv → (jobs.map (·.jobId)).Nodup →
      (∀ job ∈ jobs, (s.view job.jobId).rows = [job] ∧ job.status = .running) →
      ((∃ s', reclaimAll now jobs s = .ok s') ↔
          ∀ job ∈ jobs, job.Recoverable now (!exhausted job)) ∧
        ∀ s', reclaimAll now jobs s = .ok s' → ∀ job ∈ jobs, s'.Released job now (!exhausted job) := by
  induction jobs with
  | nil =>
    intro s _ _ _
    exact ⟨by simp [reclaimAll], by simp⟩
  | cons job jobs ih =>
    intro s h hnodup hcur
    obtain ⟨hrow, hrun⟩ := hcur job List.mem_cons_self
    obtain ⟨key, hs⟩ := (h.views job.jobId).sound hrow
    have hone := reclaimOne_ok_iff s now hs.loads
    have hrest : ∀ s1, reclaimOne now job s = .ok s1 → s1.Inv ∧
        ∀ x ∈ jobs, (s1.view x.jobId).rows = [x] ∧ x.status = .running := by
      intro s1 hs1
      have hmove := reclaimOne_moves h hrow hrun hs1
      refine ⟨hmove.refines.inv h, fun x hx => ?_⟩
      have hne : x.jobId ≠ job.jobId := fun e =>
        (List.nodup_cons.mp hnodup).1 (List.mem_map.mpr ⟨x, hx, e⟩)
      rw [hmove.other _ hne]
      exact hcur x (List.mem_cons_of_mem _ hx)
    have hnodup' := (List.nodup_cons.mp hnodup).2
    constructor
    · rw [List.forall_mem_cons, ← hone]
      constructor
      · rintro ⟨s', hok⟩
        obtain ⟨s1, h1, hok⟩ := (except_bind_ok_iff _ _ _).mp hok
        obtain ⟨hinv, hcur'⟩ := hrest s1 h1
        exact ⟨⟨s1, h1⟩, (ih hinv hnodup' hcur').1.mp ⟨s', hok⟩⟩
      · rintro ⟨⟨s1, h1⟩, hall⟩
        obtain ⟨hinv, hcur'⟩ := hrest s1 h1
        obtain ⟨s', hok⟩ := (ih hinv hnodup' hcur').1.mpr hall
        exact ⟨s', (except_bind_ok_iff _ _ _).mpr ⟨s1, h1, hok⟩⟩
    · intro s' hok
      obtain ⟨s1, h1, hok⟩ := (except_bind_ok_iff _ _ _).mp hok
      obtain ⟨hinv, hcur'⟩ := hrest s1 h1
      have hlater := reclaimAll_refines jobs hinv hnodup' hcur' hok
      rw [List.forall_mem_cons]
      refine ⟨?_, (ih hinv hnodup' hcur').2 s' hok⟩
      exact (reclaimOne_released h hrow hrun h1).of_view hinv (hlater.1.inv hinv)
        (hlater.2 _ (List.nodup_cons.mp hnodup).1)

/-- `reclaim_expired` at `now` recovers every job whose lease has expired: it returns, and has put each
back in the queue after its delay, or failed it when its attempts are used up. -/
def RecoversExpired (s : Db) (now : Datetime) : Prop :=
  raised (reclaimExpired now s).1 = false ∧ ∀ job ∈ s.jobs, s.LeaseExpired job now →
    (reclaimExpired now s).2.Released job now ((job.attemptCount : ℤ) < job.maxAttempts)

theorem not_exhausted (job : JobRow) :
    (!exhausted job) = decide ((job.attemptCount : ℤ) < job.maxAttempts) := by
  unfold exhausted
  rw [← decide_not]
  exact decide_eq_decide.mpr not_le

theorem recoversExpired_iff {s : Db} (h : s.Inv) (now : Datetime) :
    RecoversExpired s now ↔ ∀ job ∈ s.jobs, s.LeaseExpired job now →
      job.Recoverable now ((job.attemptCount : ℤ) < job.maxAttempts) := by
  obtain ⟨hnodup, hcur⟩ := expiredJobs_current h now
  obtain ⟨hok_iff, hreleased⟩ := reclaimAll_iff now (expiredJobs s now) h hnodup hcur
  simp only [not_exhausted, mem_expiredJobs_iff h, and_imp] at hok_iff hreleased
  rw [← hok_iff]
  unfold RecoversExpired reclaimExpired transaction reclaimTx
  constructor
  · rintro ⟨hraised, -⟩
    cases hall : reclaimAll now (expiredJobs s now) s with
    | error e => simp [hall, bind, Except.bind] at hraised
    | ok s' => exact ⟨s', rfl⟩
  · rintro ⟨s', hall⟩
    have hs' := (reclaimAll_refines _ h hnodup hcur hall).1.inv h
    obtain ⟨jobs, hjobs⟩ := mapM_getJob_ok hs' ((expiredJobs s now).map (·.jobId))
    simp only [hall, bind, Except.bind, pure, Except.pure, hjobs, raised_ok, true_and]
    exact hreleased s' hall

/-- Recovery in every reachable database, at every clock reading: `record_failure` under the active,
unexpired lease releases its job, and `reclaim_expired` every expired job, exactly when the jobs in
question are recoverable. The time a job is requeued for grows with its attempts. -/
theorem run_recovery_iff (calls : List JobCall) (now : Datetime) :
    (∀ job ∈ (run calls).jobs, ∀ a ∈ (run calls).attempts, job.activeAttemptId = some a.attemptId →
      now < a.leaseExpiresAt → ∀ error errorCode failureKind retryable,
      ((raised (recordFailure job.jobId a.leaseToken error errorCode failureKind retryable now
          (run calls)).1 = false ∧
        (recordFailure job.jobId a.leaseToken error errorCode failureKind retryable now
          (run calls)).2.Released job now (shouldRetry job errorCode retryable)) ↔
        job.Recoverable now (shouldRetry job errorCode retryable))) ∧
    (RecoversExpired (run calls) now ↔
      ∀ job ∈ (run calls).jobs, (run calls).LeaseExpired job now →
        job.Recoverable now ((job.attemptCount : ℤ) < job.maxAttempts)) ∧
    ∀ job ∈ (run calls).jobs, ∀ (n m : ℕ) (u v : Datetime), n ≤ m →
      ({ job with attemptCount := n } : JobRow).RetriesAt now u →
      ({ job with attemptCount := m } : JobRow).RetriesAt now v → u ≤ v := by
  have h := run_inv calls
  refine ⟨fun job hjob a ha hptr hexp => recordFailure_iff h hjob ha hptr hexp,
    recoversExpired_iff h now, fun job hjob n m u v hnm => ?_⟩
  obtain ⟨key, hs⟩ := (h.views job.jobId).sound (h.view_of_mem hjob)
  exact JobRow.RetriesAt.mono hs.loads hnm

/-- A back-off of `10 ^ 15` seconds, which the validators admit. -/
def hugeBackoff : RetryPolicy :=
  { RetryPolicy.default with
    backoffSeconds := .finite 1000000000000000
    maxBackoffSeconds := .finite 1000000000000000
    backoff_nonneg := by decide +kernel
    maxBackoff_nonneg := by decide +kernel
    backoff_le := by decide +kernel }

/-- Two jobs run under a lease of a second, one of them with the huge back-off. -/
def hugeBackoffCalls : List JobCall :=
  [.enqueue 1 1 none "huge" 0 (some hugeBackoff) (.ofMicros 0),
    .enqueue 2 2 none "default" 0 none (.ofMicros 0),
    .claim 1 1 "w" (.finite 1) (.ofMicros 0), .claim 2 2 "w" (.finite 1) (.ofMicros 0)]

/-- Both leases have expired after two seconds; `reclaim_expired` raises, and recovers neither job. -/
theorem hugeBackoff_poisons :
    ¬ RecoversExpired (run hugeBackoffCalls) (.ofMicros 2000000) ∧
    (reclaimExpired (.ofMicros 2000000) (run hugeBackoffCalls)).1 =
      .error (.overflowError "days; must have magnitude <= 999999999") ∧
    (expiredJobs (run hugeBackoffCalls) (.ofMicros 2000000)).length = 2 ∧
    (reclaimExpired (.ofMicros 2000000) (run hugeBackoffCalls)).2.jobs.map (·.status) =
      [.running, .running] := by
  refine ⟨?_, by decide +kernel, by decide +kernel, by decide +kernel⟩
  rintro ⟨hraised, -⟩
  revert hraised
  decide +kernel

end Galaxz
