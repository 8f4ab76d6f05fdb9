import Galaxz.Jobs.Proofs.RefinementProofs
import Mathlib.Data.List.Chain

/-!
# Proofs: what holds in every reachable database

The lease and attempt invariant, the transition log, and the atomicity of the calls with the
completion outbox, each read off the well-formed views of the jobs.
-/

namespace Galaxz

open SqliteJobRepository

/-- The attempts of a job that have not ended. -/
def Db.openAttempts (s : Db) (jobId : Uuid) : List AttemptRow :=
  (s.attemptsOf jobId).filter (·.endedAt = none)

/-! ## Leases and attempts -/

/-- A job, its active attempt and its attempt rows agree. -/
structure LeaseInvariant (s : Db) (job : JobRow) : Prop where
  running_iff : job.status = .running ↔ job.activeAttemptId.isSome = true
  active : ∀ id, job.activeAttemptId = some id →
    ∃ a ∈ s.attempts, a.attemptId = id ∧ a.jobId = job.jobId ∧ a.endedAt = none
  open_le_one : (s.openAttempts job.jobId).length ≤ 1
  open_none : job.status ≠ .running → s.openAttempts job.jobId = []
  ended_iff : ∀ a ∈ s.attemptsOf job.jobId, a.endedAt.isSome = true ↔ a.outcome.isSome = true
  count : job.attemptCount = (s.attemptsOf job.jobId).length
  numbers : (s.attemptsOf job.jobId).map (·.attemptNumber) = List.range' 1 job.attemptCount
  budget : job.status = .queued → (job.attemptCount : ℤ) < job.maxAttempts
  claimable : job.status = .queued → ∀ now, job.availableAt ≤ now → job ∈ claimCandidates s now

/-- Spent attempts are not open. -/
theorem filter_open_spent {xs : List AttemptRow} (h : ∀ x ∈ xs, x.Spent) :
    xs.filter (fun a => decide (a.endedAt = none)) = [] := by
  rw [List.filter_eq_nil_iff]
  intro x hx
  have := (h x hx).1
  simp only [decide_eq_true_eq]
  intro hnone
  rw [hnone] at this
  cases this

/-- What the attempts of a job look like, whatever its status: spent ones, then at most one that is
open or completed the job. -/
theorem AttemptsFit.split_last {row : JobRow} {attempts : List AttemptRow}
    (h : AttemptsFit row attempts) :
    ∃ pre post, attempts = pre ++ post ∧ (∀ x ∈ pre, x.Spent) ∧
      ((row.status ≠ .running ∧ row.activeAttemptId = none ∧
          ∀ x ∈ post, x.endedAt.isSome = true ∧ x.outcome.isSome = true) ∨
        (row.status = .running ∧ ∃ a, post = [a] ∧ row.activeAttemptId = some a.attemptId ∧ a.Open)) := by
  unfold AttemptsFit at h
  split at h
  · next hs =>
    obtain ⟨pre, a, hatt, hptr, hopen, hpre⟩ := h
    exact ⟨pre, [a], hatt, hpre, Or.inr ⟨hs, a, rfl, hptr, hopen⟩⟩
  · next hs =>
    obtain ⟨hptr, pre, a, hatt, hended, hout, hpre⟩ := h
    refine ⟨pre, [a], hatt, hpre, Or.inl ⟨by rw [hs]; decide, hptr, ?_⟩⟩
    intro x hx
    rw [List.mem_singleton.mp hx]
    exact ⟨hended, by rw [hout]; rfl⟩
  all_goals
    next hs =>
    exact ⟨attempts, [], by simp, h.2, Or.inl ⟨by rw [hs]; decide, h.1, by simp⟩⟩

/-- In every reachable database every job satisfies the lease and attempt invariant. -/
theorem run_leaseInvariant (calls : List JobCall) :
    ∀ job ∈ (run calls).jobs, LeaseInvariant (run calls) job := by
  intro job hjob
  have h := run_inv calls
  have hrow := h.view_of_mem hjob
  obtain ⟨key, hs⟩ := (h.views job.jobId).sound hrow
  set s := run calls
  obtain ⟨pre, post, hatt, hpre, hcase⟩ := hs.attempts.split_last
  have hattempts : s.attemptsOf job.jobId = pre ++ post := hatt
  have hopen : s.openAttempts job.jobId = post.filter (fun a => decide (a.endedAt = none)) := by
    unfold Db.openAttempts
    rw [hattempts, List.filter_append, filter_open_spent hpre, List.nil_append]
  have hnumbers : (s.attemptsOf job.jobId).map (·.attemptNumber) = List.range' 1 job.attemptCount :=
    hs.numbers
  have hcount : job.attemptCount = (s.attemptsOf job.jobId).length := by
    have := congrArg List.length hnumbers
    simpa using this.symm
  have hclaim : job.status = .queued → ∀ now, job.availableAt ≤ now → job ∈ claimCandidates s now := by
    intro hq now hnow
    have hkeys : s.keysOf job.jobId = [key] := hs.keys
    refine List.mem_map.mpr ⟨(job, key.idempotencyKey), ?_, rfl⟩
    refine List.mem_flatMap.mpr ⟨job, ?_, ?_⟩
    · exact List.mem_filter.mpr ⟨hjob, decide_eq_true ⟨hq, hnow, hs.budget hq⟩⟩
    · rw [hkeys]
      simp
  rcases hcase with ⟨hne, hptr, hended⟩ | ⟨hrun, a, rfl, hptr, haopen⟩
  · have hnil : post.filter (fun a => decide (a.endedAt = none)) = [] := by
      rw [List.filter_eq_nil_iff]
      intro x hx hnone
      have hsome := (hended x hx).1
      rw [of_decide_eq_true hnone] at hsome
      cases hsome
    exact
      { running_iff := by rw [hptr]; simp [hne]
        active := fun id hid => by rw [hptr] at hid; cases hid
        open_le_one := by rw [hopen, hnil]; simp
        open_none := fun _ => by rw [hopen, hnil]
        ended_iff := fun x hx => by
          rw [hattempts] at hx
          rcases List.mem_append.mp hx with hx | hx
          · simp [(hpre x hx).1, (hpre x hx).2.1]
          · simp [(hended x hx).1, (hended x hx).2]
        count := hcount
        numbers := hnumbers
        budget := hs.budget
        claimable := hclaim }
  · have hamem : a ∈ (s.view job.jobId).attempts := by rw [hatt]; simp
    exact
      { running_iff := by rw [hptr]; simp [hrun]
        active := fun id hid => by
          rw [hptr] at hid
          obtain ⟨hmem, hid'⟩ := Db.mem_view_attempts.mp hamem
          exact ⟨a, hmem, Option.some.inj hid, hid', haopen.1⟩
        open_le_one := by rw [hopen]; simp [haopen.1]
        open_none := fun hne => absurd hrun hne
        ended_iff := fun x hx => by
          rw [hattempts] at hx
          rcases List.mem_append.mp hx with hx | hx
          · simp [(hpre x hx).1, (hpre x hx).2.1]
          · rw [List.mem_singleton.mp hx, haopen.1, haopen.2]
            simp
        count := hcount
        numbers := hnumbers
        budget := hs.budget
        claimable := hclaim }

/-- A job that is enqueued and claimed. -/
def claimedCalls : List JobCall :=
  [.enqueue 1 1 none "key" 0 none (.ofMicros 0), .claim 1 1 "w" (.finite 30) (.ofMicros 0)]

theorem claimedCalls_leaseInvariant : ∃ job, (run claimedCalls).jobs = [job] ∧ job.status = .running ∧
    LeaseInvariant (run claimedCalls) job := by
  have hstatus : (run claimedCalls).jobs.map (·.status) = [.running] := by decide +kernel
  obtain ⟨job, hjobs, hrun⟩ := List.map_eq_singleton_iff.mp hstatus
  exact ⟨job, hjobs, hrun, run_leaseInvariant claimedCalls job (by rw [hjobs]; exact List.mem_singleton_self job)⟩

/-! ## The transition log -/

/-- The log of a job is a path of the declared state machine to its current status. -/
structure LogInvariant (s : Db) (job : JobRow) : Prop where
  first : (s.log job.jobId).head?.map (fun t => (t.fromStatus, t.toStatus)) = some (none, .queued)
  chained : (s.log job.jobId).IsChain (fun t u => u.fromStatus = some t.toStatus)
  edges : ∀ t ∈ (s.log job.jobId).tail,
    ∃ current, t.fromStatus = some current ∧ t.toStatus ∈ validJobTransitions current
  last : (s.log job.jobId).getLast?.map (·.toStatus) = some job.status

/-- The recursive form of the log invariant. -/
theorem LogPath.props {status : JobStatus} {log : List TransitionRow} (h : LogPath status log) :
    log.head?.map (fun t => (t.fromStatus, t.toStatus)) = some (none, .queued) ∧
    log.IsChain (fun t u => u.fromStatus = some t.toStatus) ∧
    (∀ t ∈ log.tail, ∃ current, t.fromStatus = some current ∧
      t.toStatus ∈ validJobTransitions current) ∧
    log.getLast?.map (·.toStatus) = some status := by
  induction h with
  | start t hfrom hto => simp [hfrom, hto]
  | @step current log t h hfrom hto ih =>
    obtain ⟨hfirst, hchain, hedges, hlast⟩ := ih
    have hne : log ≠ [] := by
      rintro rfl
      cases hfirst
    refine ⟨?_, ?_, ?_, by simp⟩
    · rw [List.head?_append_of_ne_nil _ hne]
      exact hfirst
    · rw [List.isChain_append]
      refine ⟨hchain, by simp, ?_⟩
      intro x hx y hy
      have hx' : log.getLast? = some x := hx
      rw [hx'] at hlast
      simp only [List.head?_cons, Option.mem_def, Option.some.injEq] at hy
      rw [← hy, hfrom]
      simpa using hlast.symm
    · intro u hu
      rw [List.tail_append_of_ne_nil hne] at hu
      rcases List.mem_append.mp hu with hu | hu
      · exact hedges u hu
      · rw [List.mem_singleton.mp hu]
        exact ⟨current, hfrom, hto⟩

/-- The status of a job, if it exists. -/
def Db.status? (s : Db) (jobId : Uuid) : Option JobStatus := (s.job? jobId).map (·.status)

theorem Db.status?_eq (s : Db) (j : Uuid) :
    s.status? j = (s.view j).rows.head?.map (·.status) := by
  unfold Db.status? Db.job?
  rw [← List.head?_filter]
  rfl

/-- A move logs exactly the status change it makes. -/
theorem Lifecycle.Step.log_step {v v' : JobView} (h : Lifecycle.Step v v') :
    (v'.log = v.log ∧ v'.rows.head?.map (·.status) = v.rows.head?.map (·.status)) ∨
    ∃ t, v'.log = v.log ++ [t] ∧ t.fromStatus = v.rows.head?.map (·.status) ∧
      v'.rows.head?.map (·.status) = some t.toStatus ∧ t.fromStatus ≠ some t.toStatus := by
  cases h with
  | enqueue row key tasks t hstatus hcount hactive hloads hstrip hkey hfrom hto =>
    exact Or.inr ⟨t, rfl, by simp [JobView.absent, hfrom], by simp [hstatus, hto], by simp [hfrom]⟩
  | claim row a t now hrow hstatus hnumber hopen hfrom hto =>
    exact Or.inr ⟨t, rfl, by simp [hrow, hstatus, hfrom], by simp [startRun, hto],
      by simp [hfrom, hto]⟩
  | renew row pre a now expiry hrow hstatus hattempts => exact Or.inl ⟨rfl, by simp [hrow, touch]⟩
  | complete row pre a t now error outputRef outputs outbox hrow hstatus hattempts hfrom hto hfit =>
    exact Or.inr ⟨t, rfl, by simp [hrow, hstatus, hfrom], by simp [finishRun, hto],
      by simp [hfrom, hto]⟩
  | release row pre a t now availableAt target outcome failureKind errorCode error hrow hstatus
      hattempts htarget houtcome hfrom hto =>
    refine Or.inr ⟨t, rfl, by simp [hrow, hstatus, hfrom], by simp [requeue, hto], ?_⟩
    rcases htarget with rfl | ⟨rfl, -⟩ <;> simp [hfrom, hto]
  | cancelRunning row pre a t now hrow hstatus hattempts hfrom hto =>
    exact Or.inr ⟨t, rfl, by simp [hrow, hstatus, hfrom], by simp [cancelled, hto],
      by simp [hfrom, hto]⟩
  | cancelQueued row t now hrow hstatus hfrom hto =>
    exact Or.inr ⟨t, rfl, by simp [hrow, hstatus, hfrom], by simp [cancelled, hto],
      by simp [hfrom, hto]⟩
  | acknowledge e now houtbox => exact Or.inl ⟨rfl, rfl⟩

/-- In every reachable database the log of every job is a path of the declared state machine from its
creation to its current status; and every call, returning or raising, adds to the log of a job exactly
the change of status it makes, if it makes one. -/
theorem run_logInvariant (calls : List JobCall) :
    (∀ job ∈ (run calls).jobs, LogInvariant (run calls) job) ∧
    ∀ (call : JobCall) (j : Uuid),
      ((step call (run calls)).log j = (run calls).log j ∧
        (step call (run calls)).status? j = (run calls).status? j) ∨
      ∃ t, (step call (run calls)).log j = (run calls).log j ++ [t] ∧
        t.fromStatus = (run calls).status? j ∧
        (step call (run calls)).status? j = some t.toStatus ∧ t.fromStatus ≠ some t.toStatus := by
  have h := run_inv calls
  constructor
  · intro job hjob
    obtain ⟨key, hs⟩ := (h.views job.jobId).sound (h.view_of_mem hjob)
    obtain ⟨hfirst, hchain, hedges, hlast⟩ := hs.log.props
    exact ⟨hfirst, hchain, hedges, hlast⟩
  · intro call j
    have href := step_refines h call
    rw [Db.status?_eq, Db.status?_eq]
    rcases href.views j with heq | hstep
    · left
      have hlog : (step call (run calls)).log j = (run calls).log j := congrArg JobView.log heq
      exact ⟨hlog, by rw [heq]⟩
    · exact hstep.log_step

/-! ## Atomic calls and the completion outbox -/

/-- A sound row reads back as a job. -/
theorem jobFromRow_ok {row : JobRow} {key : String} (hrow : row.Loads) (hstrip : strip key = key)
    (hkey : key ≠ "") : ∃ job, jobFromRow row key = .ok job := by
  have hpolicy : RetryPolicy.validate row.maxAttempts row.backoffSeconds row.maxBackoffSeconds
      row.retryableOutcomes = .ok ⟨_, _, _, row.retryableOutcomes, hrow.maxAttempts_pos,
        hrow.backoff_nonneg, hrow.maxBackoff_nonneg, hrow.backoff_le⟩ := by
    unfold RetryPolicy.validate
    rw [dif_pos hrow.maxAttempts_pos, dif_pos hrow.backoff_nonneg, dif_pos hrow.maxBackoff_nonneg,
      dif_pos hrow.backoff_le]
  unfold jobFromRow
  rw [hpolicy]
  simp only [bind, Except.bind]
  unfold Job.validate
  rw [dif_pos hrow.priority_range, dif_pos (by rw [hstrip]; exact hkey), dif_pos hrow.cancelled_iff]
  exact ⟨_, rfl⟩

/-- The job read from a row has its id and status. -/
theorem jobFromRow_fields {row : JobRow} {key : String} {job : Job} (h : jobFromRow row key = .ok job) :
    job.jobId = row.jobId ∧ job.status = row.status := by
  obtain ⟨policy, -, h⟩ := (except_bind_ok_iff _ _ _).mp h
  obtain ⟨hid, -, hstatus, -⟩ := Job.validate_fields h
  exact ⟨hid, hstatus⟩

/-- `get_job` reads the row and the key of the view. -/
theorem getJob_of_view {s : Db} {j : Uuid} {row : JobRow} {key : IdempotencyRow}
    (hrows : (s.view j).rows = [row]) (hkeys : (s.view j).keys = [key]) :
    getJob s j = (jobFromRow row key.idempotencyKey).map some := by
  have hid : row.jobId = j := (Db.mem_view_rows.mp (by rw [hrows]; simp)).2
  have hrows' : s.jobs.filter (fun r => decide (r.jobId = j)) = [row] := hrows
  have hkeys' : s.keysOf row.jobId = [key] := by rw [hid]; exact hkeys
  unfold getJob
  simp only [hrows', joinKeys, List.flatMap_cons, List.flatMap_nil, List.append_nil, hkeys',
    List.map_cons, List.map_nil, List.head?_cons, bind, Except.bind, pure, Except.pure]
  cases jobFromRow row key.idempotencyKey <;> rfl

/-- `get_job` never raises on a well-formed database, and finds the jobs that exist. -/
theorem getJob_ok {s : Db} (h : s.Inv) (j : Uuid) :
    ∃ res, getJob s j = .ok res ∧ (res.isSome = true ↔ (s.job? j).isSome = true) := by
  rcases h.views j with habs | ⟨row, key, hs⟩
  · have hrows : s.jobs.filter (fun r => decide (r.jobId = j)) = [] := congrArg JobView.rows habs
    unfold getJob
    rw [hrows, h.job?_eq_none.mpr habs]
    exact ⟨none, rfl, by simp⟩
  · obtain ⟨job, hjob⟩ := jobFromRow_ok hs.loads hs.key_stripped hs.key_nonempty
    rw [getJob_of_view hs.rows hs.keys, hjob, h.job?_eq_some.mpr hs.rows]
    exact ⟨some job, rfl, by simp⟩

/-- A job that exists is returned. -/
theorem getJobAsserted_ok {s : Db} (h : s.Inv) {j : Uuid} (hj : (s.job? j).isSome = true) :
    ∃ job, getJobAsserted s j = .ok job := by
  obtain ⟨res, hres, hiff⟩ := getJob_ok h j
  obtain ⟨job, rfl⟩ := Option.isSome_iff_exists.mp (hiff.mpr hj)
  exact ⟨job, by simp [getJobAsserted, hres, bind, Except.bind]⟩

/-- The job that is returned has the id and the status of its row. -/
theorem getJobAsserted_spec {s : Db} (h : s.Inv) {j : Uuid} {row : JobRow} (hrow : s.job? j = some row) :
    ∃ job, getJobAsserted s j = .ok job ∧ getJob s j = .ok (some job) ∧ job.jobId = j ∧
      job.status = row.status := by
  have hrows := h.job?_eq_some.mp hrow
  obtain ⟨key, hs⟩ := (h.views j).sound hrows
  obtain ⟨job, hjob⟩ := jobFromRow_ok hs.loads hs.key_stripped hs.key_nonempty
  obtain ⟨hid, hstatus⟩ := jobFromRow_fields hjob
  have hget : getJob s j = .ok (some job) := by
    rw [getJob_of_view hs.rows hs.keys, hjob]
    rfl
  have hrowid : row.jobId = j := (Db.mem_view_rows.mp (by rw [hrows]; simp)).2
  exact ⟨job, by simp [getJobAsserted, hget, bind, Except.bind], hget, hid.trans hrowid, hstatus⟩

/-- A transaction whose answer can be read leaves no trace of a call that raises. -/
theorem transaction_atomic {β α : Type} {body : Db → Except PyError (β × Db)}
    {read : β → Db → Except PyError α} {s : Db}
    (hread : ∀ b s', body s = .ok (b, s') → raised (read b s') = false)
    (h : raised (transaction body read s).1 = true) : (transaction body read s).2 = s := by
  unfold transaction at h ⊢
  split at h
  · rfl
  · next b s' hb =>
    rw [hread b s' hb] at h
    cases h

/-- The calls that enqueue, end or recover work. -/
def JobCall.endsWork : JobCall → Bool
  | .enqueue .. | .complete .. | .fail .. | .recordFailure .. | .cancel .. | .reclaimExpired .. => true
  | .claim .. | .heartbeat .. | .pendingCompletions .. | .acknowledgeCompletion .. => false

/-- No move removes a job. -/
theorem Lifecycle.Step.ne_absent {v v' : JobView} (h : Lifecycle.Step v v') (hrows : v.rows ≠ []) :
    v' ≠ .absent := by
  intro habs
  have hnil : v'.rows = [] := by rw [habs]; rfl
  cases h with
  | acknowledge e now houtbox => exact hrows hnil
  | _ => cases hnil

/-- A job that exists keeps existing. -/
theorem Db.Refines.job?_isSome {s s' : Db} (h : s.Inv) (href : s.Refines s') {j : Uuid}
    (hj : (s.job? j).isSome = true) : (s'.job? j).isSome = true := by
  obtain ⟨row, hrow⟩ := Option.isSome_iff_exists.mp hj
  have hs' := href.inv h
  by_contra hnone
  have habs := hs'.job?_eq_none.mp (by simpa using hnone)
  have hrows := h.job?_eq_some.mp hrow
  rcases href.views j with heq | hstep
  · rw [← heq, habs] at hrows
    cases hrows
  · rw [habs] at hstep
    exact hstep.ne_absent (by rw [hrows]; simp) rfl

/-- The job that `record_failure` returns can be read. -/
theorem recordFailureTx_read {s s' : Db} (h : s.Inv) {j token : Uuid}
    {error errorCode failureKind : String} {retryable : Bool} {now : Datetime} {u : Unit}
    (hb : recordFailureTx j token error errorCode failureKind retryable now s = .ok (u, s')) :
    raised (getJobAsserted s' j) = false := by
  have href := (recordFailureTx_moves h hb).refines
  have hj : (s.job? j).isSome = true := by
    unfold recordFailureTx at hb
    split at hb
    · cases hb
    · next job hjob => rw [hjob]; rfl
  obtain ⟨job, hjob⟩ := getJobAsserted_ok (href.inv h) (href.job?_isSome h hj)
  rw [hjob]
  rfl

/-- The jobs that `reclaim_expired` returns can be read. -/
theorem mapM_getJob_ok {s : Db} (h : s.Inv) (ids : List Uuid) :
    ∃ jobs, ids.mapM (getJob s) = .ok jobs := by
  refine mapM_ok ids fun j _ => ?_
  obtain ⟨job, hjob, -⟩ := getJob_ok h j
  exact ⟨job, hjob⟩

/-- A call that ends work and raises changes nothing: whatever raises inside the transaction rolls it
back, and what is read after the commit can be read. -/
theorem step_atomic {s : Db} (h : s.Inv) (call : JobCall) (hcall : call.endsWork = true)
    (hraise : raised (exec call s).1 = true) : step call s = s := by
  cases call with
  | enqueue jobId taskId task key priority policy now =>
    simp only [exec, raised_answer, step, answer_snd, enqueue] at hraise ⊢
    split_ifs at hraise ⊢
    · rfl
    · split at hraise
      · rfl
      · next candidate hvalid =>
        -- the read raises at most for a job that exists, and then nothing was written
        unfold transaction at hraise ⊢
        split at hraise
        · rfl
        · next b s' hb =>
          cases b with
          | none => cases hraise
          | some row =>
            unfold enqueueTx at hb
            split at hb
            · cases hb
              rfl
            · simp only [bind, Except.bind] at hb
              repeat' split at hb
              all_goals cases hb
  | complete j token ref result now =>
    simp only [exec, raised_answer, step, answer_snd, complete, finish] at hraise ⊢
    refine transaction_atomic (fun b s' hb => ?_) hraise
    have href := completeTx_refines h hb
    have hj : (s.job? j).isSome = true := by
      unfold finishTx at hb
      split at hb
      · cases hb
      · next job hjob => rw [hjob]; rfl
    obtain ⟨job, hjob⟩ := getJobAsserted_ok (href.inv h) (href.job?_isSome h hj)
    rw [hjob]
    rfl
  | fail j token error errorCode failureKind now =>
    simp only [exec, raised_answer, step, answer_snd, fail, recordFailure] at hraise ⊢
    refine transaction_atomic (fun b s' hb => ?_) hraise
    exact recordFailureTx_read h hb
  | recordFailure j token error errorCode failureKind retryable now =>
    simp only [exec, raised_answer, step, answer_snd, recordFailure] at hraise ⊢
    refine transaction_atomic (fun b s' hb => ?_) hraise
    exact recordFailureTx_read h hb
  | cancel j now =>
    simp only [exec, raised_answer, step, answer_snd, cancel] at hraise ⊢
    refine transaction_atomic (fun b s' hb => ?_) hraise
    have href := cancelTx_refines h hb
    have hj : (s.job? j).isSome = true := by
      unfold cancelTx at hb
      split at hb
      · cases hb
      · next job hjob => rw [hjob]; rfl
    obtain ⟨job, hjob⟩ := getJobAsserted_ok (href.inv h) (href.job?_isSome h hj)
    rw [hjob]
    rfl
  | reclaimExpired now =>
    simp only [exec, raised_answer, step, answer_snd, reclaimExpired] at hraise ⊢
    refine transaction_atomic (fun ids s' hb => ?_) hraise
    have hs' := (reclaimTx_refines h hb).inv h
    obtain ⟨jobs, hjobs⟩ := mapM_getJob_ok hs' ids
    rw [hjobs]
    rfl
  | claim attemptId token workerId leaseSeconds now => cases hcall
  | heartbeat j token leaseSeconds now => cases hcall
  | pendingCompletions limit => cases hcall
  | acknowledgeCompletion j now => cases hcall

/-- The outbox of a job agrees with its stored result. -/
structure OutboxInvariant (s : Db) (job : JobRow) : Prop where
  entry_iff : s.outboxOf job.jobId ≠ [] ↔
    job.status = .completed ∧ ∃ result, getResult s job.jobId = some result ∧
      ((result.get "artifacts").truthy = true ∨ result.get "status" = .str "escalated")
  at_most_one : (s.outboxOf job.jobId).length ≤ 1
  names : ∀ e ∈ s.outboxOf job.jobId, (∃ a ∈ s.attemptsOf job.jobId, a.attemptId = e.attemptId ∧
    a.outcome = some .completed) ∧ (getTask s job.jobId).isSome = true

/-- The outbox of a sound job agrees with its stored result. -/
theorem JobView.Sound.outboxInvariant {s : Db} {job : JobRow} {key : IdempotencyRow}
    (hs : (s.view job.jobId).Sound job key) : OutboxInvariant s job := by
  have hresult : getResult s job.jobId = ((s.view job.jobId).outputs.head?).map (·.result) := by
    unfold getResult
    rw [← List.head?_filter]
    rfl
  have htask : getTask s job.jobId = ((s.view job.jobId).tasks.head?).map (·.task) := by
    unfold getTask
    rw [← List.head?_filter]
    rfl
  have hbox : s.outboxOf job.jobId = (s.view job.jobId).outbox := rfl
  by_cases hst : job.status = .completed
  · obtain ⟨-, pre, a, hatt, -, hout, -⟩ := hs.attempts.completed hst
    have hamem : a ∈ s.attemptsOf job.jobId := by
      have : s.attemptsOf job.jobId = pre ++ [a] := hatt
      rw [this]
      simp
    rcases hs.finished hst a (by rw [hatt]; simp) with ⟨ho, hb⟩ | ⟨o, ho, ⟨hev, hb⟩ | ⟨hev, ht, e, hb, hid⟩⟩
    · rw [ho] at hresult
      exact
        { entry_iff := by rw [hbox, hb, hresult]; simp
          at_most_one := by rw [hbox, hb]; simp
          names := by rw [hbox, hb]; simp }
    · rw [ho] at hresult
      simp only [hasEvidence, decide_eq_false_iff_not] at hev
      exact
        { entry_iff := by rw [hbox, hb, hresult]; simpa [hst] using hev
          at_most_one := by rw [hbox, hb]; simp
          names := by rw [hbox, hb]; simp }
    · rw [ho] at hresult
      simp only [hasEvidence, decide_eq_true_eq] at hev
      exact
        { entry_iff := by rw [hbox, hb, hresult]; simpa [hst] using hev
          at_most_one := by rw [hbox, hb]; simp
          names := by
            rw [hbox, hb]
            intro e' he'
            rw [List.mem_singleton.mp he']
            refine ⟨⟨a, hamem, hid.symm, hout⟩, ?_⟩
            rw [htask, Option.isSome_map, List.isSome_head?]
            simpa using ht }
  · obtain ⟨-, hb⟩ := hs.pending hst
    exact
      { entry_iff := by rw [hbox, hb]; simp [hst]
        at_most_one := by rw [hbox, hb]; simp
        names := by rw [hbox, hb]; simp }

/-- In every reachable database: a call that ends work and raises leaves every table as it was; every
job has an outbox entry exactly when it is completed with evidence, one entry that names the completing
attempt, with a task input; no entry belongs to no job; and acknowledging never removes one. -/
theorem run_outboxInvariant (calls : List JobCall) :
    (∀ call : JobCall, call.endsWork = true → raised (exec call (run calls)).1 = true →
      step call (run calls) = run calls) ∧
    (∀ job ∈ (run calls).jobs, OutboxInvariant (run calls) job) ∧
    (∀ e ∈ (run calls).outbox, ∃ job ∈ (run calls).jobs, job.jobId = e.jobId) ∧
    ∀ j now, (acknowledgeCompletion j now (run calls)).outbox.map (fun e => (e.jobId, e.attemptId)) =
      (run calls).outbox.map (fun e => (e.jobId, e.attemptId)) := by
  have h := run_inv calls
  refine ⟨fun call => step_atomic h call, ?_, ?_, ?_⟩
  · intro job hjob
    obtain ⟨key, hs⟩ := (h.views job.jobId).sound (h.view_of_mem hjob)
    exact hs.outboxInvariant
  · intro e he
    have hmem : e ∈ ((run calls).view e.jobId).outbox := List.mem_filter.mpr ⟨he, decide_eq_true rfl⟩
    rcases h.views e.jobId with habs | ⟨row, key, hs⟩
    · rw [habs] at hmem
      cases hmem
    · have hrow : row ∈ ((run calls).view e.jobId).rows := by rw [hs.rows]; simp
      exact ⟨row, (Db.mem_view_rows.mp hrow).1, (Db.mem_view_rows.mp hrow).2⟩
  · intro j now
    exact Table.map_updateWhere (f := markPublished now) _ (fun _ => rfl) _

end Galaxz
