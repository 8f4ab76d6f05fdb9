import Galaxz.Jobs.PostgresRepository
import Galaxz.Jobs.Proofs.RecoveryProofs

/-!
# Proofs: the two backends

`PostgresJobRepository` against `SqliteJobRepository`, call by call. The two databases correspond when
they have the same rows but for `updated_at`, which only SQLite keeps through a heartbeat, and white
space around a worker id. `JobCall.Mirrored` says when a call is answered alike from such databases.
-/

namespace Galaxz

open SqliteJobRepository

/-! ## Correspondence -/

/-- The row without what `updated_at` says. -/
def JobRow.untouched (r : JobRow) : JobRow := { r with updatedAt := r.createdAt }

/-- The job without what `updated_at` says. -/
def Job.untouched (j : Job) : Job := { j with updatedAt := j.createdAt }

/-- The value of a call without what `updated_at` says. -/
def JobValue.untouched : JobValue → JobValue
  | .job j => .job (j.map Job.untouched)
  | .jobs js => .jobs (js.map (Option.map Job.untouched))
  | .claimed c => .claimed (c.map fun c => (c.1.untouched, c.2))
  | .attempt a => .attempt a
  | .completions es => .completions es
  | .unit => .unit

/-- Both calls raise, or both return the same but for `updated_at`. -/
def SameAnswer (x y : Except PyError JobValue) : Prop :=
  x.toOption.map JobValue.untouched = y.toOption.map JobValue.untouched

/-- The rows of the SQLite database `q` and of the PostgreSQL database `p` agree. -/
structure SameRows (q p : Db) : Prop where
  jobs : p.jobs.map JobRow.untouched = q.jobs.map JobRow.untouched
  attempts : p.attempts.map AttemptFields.stripped = q.attempts.map AttemptFields.stripped
  transitions : p.transitions = q.transitions
  idempotency : p.idempotency = q.idempotency
  tasks : p.tasks = q.tasks
  outputs : p.outputs = q.outputs
  outbox : p.outbox = q.outbox

/-- The databases correspond. As long as no result carries evidence and no failure is recorded, the
outbox stays empty and no attempt has an error. -/
structure Corresponds (q p : Db) : Prop where
  inv : q.Inv
  rows : SameRows q p
  outbox : q.outbox = []
  errors : ∀ a ∈ q.attempts, a.error = none

theorem SameRows.refl (s : Db) : SameRows s s := ⟨rfl, rfl, rfl, rfl, rfl, rfl, rfl⟩

/-- Rows that agree differ in `updated_at` at most. -/
theorem JobRow.untouched_eq {x y : JobRow} (h : x.untouched = y.untouched) :
    x = { y with updatedAt := x.updatedAt } := by
  cases x
  cases y
  simp only [JobRow.untouched, JobRow.mk.injEq] at h ⊢
  simp [h]

/-- Attempts that agree differ in white space around two columns at most. -/
theorem AttemptFields.stripped_eq {x y : AttemptFields} (h : x.stripped = y.stripped) :
    x = { y with workerId := x.workerId, inputRef := x.inputRef } ∧
      strip x.workerId = strip y.workerId ∧ strip x.inputRef = strip y.inputRef := by
  cases x
  cases y
  simp only [AttemptFields.stripped, AttemptFields.mk.injEq] at h ⊢
  simp [h]

/-- Two transactions in step: both raise, or both commit to corresponding databases and read the same
answer from them. -/
theorem transaction_same {β β' α α' : Type} {body : Db → Except PyError (β × Db)}
    {body' : Db → Except PyError (β' × Db)} {read : β → Db → Except PyError α}
    {read' : β' → Db → Except PyError α'} {f : α → JobValue} {f' : α' → JobValue} {q p : Db}
    (h : Corresponds q p)
    (hbody : (raised (body q) = true ∧ raised (body' p) = true) ∨
      ∃ b b' q' p', body q = .ok (b, q') ∧ body' p = .ok (b', p') ∧ Corresponds q' p' ∧
        SameAnswer ((read b q').map f) ((read' b' p').map f')) :
    SameAnswer (answer f (transaction body read q)).1 (answer f' (transaction body' read' p)).1 ∧
      Corresponds (answer f (transaction body read q)).2 (answer f' (transaction body' read' p)).2 := by
  unfold transaction
  rcases hbody with ⟨hq, hp⟩ | ⟨b, b', q', p', hq, hp, hcor, hans⟩
  · cases hbq : body q with
    | ok _ => rw [hbq] at hq; cases hq
    | error e =>
      cases hbp : body' p with
      | ok _ => rw [hbp] at hp; cases hp
      | error e' => exact ⟨rfl, h⟩
  · rw [hq, hp]
    exact ⟨hans, hcor⟩

/-! ## Reads -/

theorem jobFromRow_untouched (row : JobRow) (key : String) :
    (jobFromRow row key).map Job.untouched = (jobFromRow row.untouched key).map Job.untouched := by
  unfold jobFromRow JobRow.untouched
  simp only [bind, Except.bind]
  split
  · rfl
  · unfold Job.validate
    split_ifs <;> rfl

/-- Rows that agree are read as the same job. -/
theorem jobFromRow_same {x y : JobRow} (h : x.untouched = y.untouched) (key : String) :
    (jobFromRow x key).map Job.untouched = (jobFromRow y key).map Job.untouched := by
  rw [jobFromRow_untouched x, jobFromRow_untouched y, h]

/-- A joined row without what `updated_at` says. -/
def joinedUntouched (r : JobRow × String) : JobRow × String := (r.1.untouched, r.2)

/-- Tables of jobs that agree have joins that agree. -/
theorem joinKeys_same {q p : Db} (h : SameRows q p) {xs ys : List JobRow}
    (hrows : xs.map JobRow.untouched = ys.map JobRow.untouched) :
    (joinKeys p xs).map joinedUntouched = (joinKeys q ys).map joinedUntouched := by
  have hnorm : ∀ (s : Db) (rows : List JobRow), (joinKeys s rows).map joinedUntouched =
      (rows.map JobRow.untouched).flatMap
        fun r => (s.keysOf r.jobId).map fun k => (r, k.idempotencyKey) := by
    intro s rows
    unfold joinKeys
    rw [List.map_flatMap, List.flatMap_map]
    congr 1
    funext r
    rw [List.map_map]
    rfl
  have hkeys : p.keysOf = q.keysOf := by
    funext j
    unfold Db.keysOf
    rw [h.idempotency]
  rw [hnorm, hnorm, hrows, hkeys]

theorem filter_jobId_same {q p : Db} (h : SameRows q p) (j : Uuid) :
    (p.jobs.filter (·.jobId = j)).map JobRow.untouched =
      (q.jobs.filter (·.jobId = j)).map JobRow.untouched := by
  apply Table.map_filter_congr h.jobs
  intro x _ y _ hxy
  rw [JobRow.untouched_eq hxy]

/-- `SELECT * FROM jobs WHERE job_id = ?` finds the same row. -/
theorem job?_same {q p : Db} (h : SameRows q p) (j : Uuid) :
    (p.job? j).map JobRow.untouched = (q.job? j).map JobRow.untouched := by
  apply Table.find?_congr h.jobs
  intro x _ y _ hxy
  rw [JobRow.untouched_eq hxy]

theorem getJob_eq (s : Db) (j : Uuid) : PostgresJobRepository.getJob s j = getJob s j := by
  unfold PostgresJobRepository.getJob getJob
  rcases (joinKeys s (s.jobs.filter (·.jobId = j))).head? with _ | ⟨row, key⟩ <;> rfl

theorem getJob_same {q p : Db} (h : SameRows q p) (j : Uuid) :
    (getJob p j).map (Option.map Job.untouched) = (getJob q j).map (Option.map Job.untouched) := by
  have hhead := congrArg List.head? (joinKeys_same h (filter_jobId_same h j))
  rw [List.head?_map, List.head?_map] at hhead
  unfold getJob
  cases hq : (joinKeys q (q.jobs.filter (·.jobId = j))).head? with
  | none =>
    rw [hq, Option.map_none, Option.map_eq_none_iff] at hhead
    rw [hhead]
  | some r =>
    rw [hq, Option.map_some] at hhead
    obtain ⟨r', hr', heq⟩ := Option.map_eq_some_iff.mp hhead
    rw [hr']
    obtain ⟨row, key⟩ := r
    obtain ⟨row', key'⟩ := r'
    simp only [joinedUntouched, Prod.mk.injEq] at heq
    obtain ⟨hrow, rfl⟩ := heq
    have hsame := jobFromRow_same hrow key'
    simp only [bind, Except.bind, pure, Except.pure]
    cases h1 : jobFromRow row' key' with
    | error e =>
      rw [h1] at hsame
      cases h2 : jobFromRow row key' with
      | error e' => rw [h2] at hsame; cases hsame; rfl
      | ok job => rw [h2] at hsame; cases hsame
    | ok job' =>
      rw [h1] at hsame
      cases h2 : jobFromRow row key' with
      | error e' => rw [h2] at hsame; cases hsame
      | ok job =>
        rw [h2] at hsame
        simp only [Except.map, Except.ok.injEq] at hsame ⊢
        simp [hsame]

/-- The job that a call on SQLite returns after its commit is the one that PostgreSQL reads. -/
theorem sameAnswer_getJob {q p : Db} (h : Corresponds q p) {j : Uuid}
    (hj : (q.job? j).isSome = true) :
    SameAnswer ((getJobAsserted q j).map (.job ∘ some))
      ((PostgresJobRepository.getJob p j).map .job) := by
  rw [getJob_eq]
  have hsame := getJob_same h.rows j
  obtain ⟨res, hres, hiff⟩ := getJob_ok h.inv j
  obtain ⟨job, rfl⟩ := Option.isSome_iff_exists.mp (hiff.mpr hj)
  have hq : getJobAsserted q j = .ok job := by simp [getJobAsserted, hres, bind, Except.bind]
  rw [hres] at hsame
  rw [hq]
  cases hp : getJob p j with
  | error e => rw [hp] at hsame; cases hsame
  | ok res' =>
    rw [hp] at hsame
    simp only [Except.map, Except.ok.injEq] at hsame
    simp only [SameAnswer, Except.map, Except.toOption, Option.map_some, JobValue.untouched,
      Function.comp_apply, hsame]

/-! ## Leases -/

/-- The join of `_active_attempt` is on columns that agree. -/
theorem activeAttempt_same {q p : Db} (h : SameRows q p) (j token : Uuid) :
    (activeAttempt p j token).map AttemptFields.stripped =
      (activeAttempt q j token).map AttemptFields.stripped := by
  apply Table.find?_congr h.attempts
  intro x _ y _ hxy
  have hx := (AttemptFields.stripped_eq hxy).1
  have hany : ∀ id : Uuid, (p.jobs.any fun r =>
      decide (r.activeAttemptId = some id ∧ r.jobId = j ∧ r.status = .running)) =
      q.jobs.any fun r => decide (r.activeAttemptId = some id ∧ r.jobId = j ∧ r.status = .running) := by
    intro id
    apply Table.any_congr h.jobs
    intro r _ r' _ hr
    rw [JobRow.untouched_eq hr]
  rw [hx, hany]

/-- The lease check passes on both databases, for the same attempt, or on neither. -/
theorem activeLease_same {q p : Db} (h : SameRows q p) (j token : Uuid) (now : Datetime)
    (msg : String) :
    (raised (activeLease q j token now msg) = true ∧ raised (activeLease p j token now msg) = true) ∨
    ∃ a b, activeLease q j token now msg = .ok a ∧ activeLease p j token now msg = .ok b ∧
      b.stripped = a.stripped := by
  have hsame := activeAttempt_same h j token
  unfold activeLease
  cases hq : activeAttempt q j token with
  | none =>
    rw [hq, Option.map_none, Option.map_eq_none_iff] at hsame
    rw [hsame]
    exact Or.inl ⟨rfl, rfl⟩
  | some a =>
    rw [hq, Option.map_some] at hsame
    obtain ⟨b, hb, hba⟩ := Option.map_eq_some_iff.mp hsame
    rw [hb]
    have hexp : b.leaseExpiresAt = a.leaseExpiresAt := by rw [(AttemptFields.stripped_eq hba).1]
    simp only [hexp]
    split_ifs
    · exact Or.inl ⟨rfl, rfl⟩
    · exact Or.inr ⟨a, b, rfl, rfl, hba⟩

/-- Under a stale lease the check fails. -/
theorem Db.StaleLease.raised {s : Db} (h : s.Inv) {j token : Uuid} {now : Datetime}
    (hstale : s.StaleLease j token now) (msg : String) :
    raised (activeLease s j token now msg) = true := by
  cases hlease : activeLease s j token now msg with
  | error e => rfl
  | ok a =>
    obtain ⟨row, pre, hrow, -, hptr, hatt, -, -, htok, hexp⟩ := activeLease_spec h hlease
    exact (hstale.elim hrow hptr hatt htok hexp).elim

/-- The rows of one attempt id are one open attempt, so a condition on `ended_at` beside the id of an
active attempt selects nothing else. -/
theorem Db.Inv.open_of_id {s : Db} (h : s.Inv) {a b : AttemptRow} (ha : a ∈ s.attempts)
    (hopen : a.Open) (hb : b ∈ s.attempts) (hid : b.attemptId = a.attemptId) : b.endedAt = none := by
  rw [Table.eq_of_key (·.attemptId) h.attempts_nodup hb ha hid]
  exact hopen.1

/-- Ending the active attempt, with and without the condition on `ended_at`. -/
theorem endAttempt_same {q p : Db} (h : Corresponds q p) {a : AttemptRow} (ha : a ∈ q.attempts)
    (hopen : a.Open) (f f' : AttemptRow → AttemptRow) (P : AttemptRow → Bool)
    (hf : ∀ x ∈ p.attempts, ∀ y ∈ q.attempts, x.stripped = y.stripped → (f x).stripped = (f' y).stripped)
    (hP : ∀ x, P x = true ↔ x.attemptId = a.attemptId) :
    (p.updateAttempts P f).attempts.map AttemptFields.stripped =
      (endAttempt q (some a.attemptId) f').attempts.map AttemptFields.stripped := by
  apply Table.map_updateWhere_congr h.rows.attempts
  · intro x _ y hy hxy
    have hid : x.attemptId = y.attemptId := by rw [(AttemptFields.stripped_eq hxy).1]
    rw [Bool.eq_iff_iff, hP, decide_eq_true_iff, hid, Option.some.injEq]
    constructor
    · intro he
      exact ⟨he, h.inv.open_of_id ha hopen hy he⟩
    · exact fun he => he.1
  · exact hf

/-- A row update by columns that agree, with and without a condition that its row meets. -/
theorem updateJobs_same {q p : Db} (h : Corresponds q p) {row : JobRow} (hrow : row ∈ q.jobs)
    (f : JobRow → JobRow) (P P' : JobRow → Bool)
    (hf : ∀ x, (f x.untouched).untouched = (f x).untouched)
    (hP : ∀ x, P x = true ↔ x.jobId = row.jobId)
    (hP' : ∀ x, P' x = true → x.jobId = row.jobId) (hrowP : P' row = true) :
    (p.updateJobs P f).jobs.map JobRow.untouched = (q.updateJobs P' f).jobs.map JobRow.untouched := by
  apply Table.map_updateWhere_congr h.rows.jobs
  · intro x _ y hy hxy
    have hid : x.jobId = y.jobId := by rw [JobRow.untouched_eq hxy]
    rw [Bool.eq_iff_iff, hP, hid]
    constructor
    · intro he
      rw [Table.eq_of_key (·.jobId) h.inv.jobs_nodup hy hrow he]
      exact hrowP
    · exact hP' y
  · intro x _ y _ hxy
    rw [← hf x, hxy, hf y]

/-- An update that keeps the `error` column keeps it empty. -/
theorem errors_updateWhere {rows : List AttemptRow} (h : ∀ a ∈ rows, a.error = none)
    {P : AttemptRow → Bool} {f : AttemptRow → AttemptRow} (hf : ∀ x, x.error = none → (f x).error = none) :
    ∀ a ∈ Table.updateWhere P f rows, a.error = none := by
  intro a ha
  obtain ⟨x, hx, rfl⟩ := Table.mem_updateWhere.mp ha
  split_ifs
  · exact hf x (h x hx)
  · exact h x hx

/-! ## `heartbeat` -/

/-- Attempts that agree are validated alike. -/
theorem ExecutionAttempt.validate_same {x y : AttemptFields} (h : x.stripped = y.stripped) :
    ExecutionAttempt.validate x = ExecutionAttempt.validate y := by
  have hstrip : ∀ a : AttemptFields,
      ExecutionAttempt.validate a.stripped = ExecutionAttempt.validate a := by
    intro a
    have hidem : a.stripped.stripped = a.stripped := by simp only [AttemptFields.stripped, strip_strip]
    have hcheck := a.check_stripped
    unfold ExecutionAttempt.validate
    split <;> split
    · next e he e' he' =>
      rw [hcheck, he'] at he
      cases he
      rfl
    · next e he _ he' =>
      rw [hcheck, he'] at he
      cases he
    · next he e' he' =>
      rw [hcheck, he'] at he
      cases he
    · simp only [hidem]
  rw [← hstrip x, ← hstrip y, h]

theorem heartbeat_same {q p : Db} (h : Corresponds q p) {j token : Uuid} {leaseSeconds : PyFloat}
    {now : Datetime}
    (hcond : leaseSeconds.le (.finite 0) = false ∨ q.StaleLease j token now) :
    SameAnswer (exec (.heartbeat j token leaseSeconds now) q).1
        (PostgresJobRepository.exec (.heartbeat j token leaseSeconds now) p).1 ∧
      Corresponds (exec (.heartbeat j token leaseSeconds now) q).2
        (PostgresJobRepository.exec (.heartbeat j token leaseSeconds now) p).2 := by
  have hlease := activeLease_same h.rows j token now "heartbeat requires the active, unexpired lease"
  have hraised_q : raised (activeLease q j token now "heartbeat requires the active, unexpired lease") =
      true ∨ leaseSeconds.le (.finite 0) = false := by
    rcases hcond with hpos | hstale
    · exact Or.inr hpos
    · exact Or.inl (hstale.raised h.inv _)
  simp only [exec, heartbeat, PostgresJobRepository.exec, PostgresJobRepository.heartbeat]
  cases hexp : now.addSeconds leaseSeconds with
  | error e =>
    -- PostgreSQL raises at once, SQLite in its transaction at the latest
    split_ifs
    · exact ⟨rfl, h⟩
    · have hraise : raised (heartbeatTx j token leaseSeconds now q) = true := by
        rcases hlease with ⟨hq, -⟩ | ⟨a, -, hq, -⟩
        · exact raised_bind hq _
        · simp only [heartbeatTx, hq, hexp, bind, Except.bind, raised_error]
      obtain ⟨e', he'⟩ := eq_error_of_raised hraise
      simp only [transaction, he']
      exact ⟨rfl, h⟩
  | ok expiry =>
    split_ifs with hle
    · have hq := hraised_q.resolve_right (by rw [hle]; simp)
      rcases hlease with ⟨-, hp⟩ | ⟨a, -, hok, -⟩
      · have hraise : raised (PostgresJobRepository.heartbeatTx j token expiry now p) = true :=
          raised_bind hp _
        obtain ⟨e', he'⟩ := eq_error_of_raised hraise
        simp only [transaction, he']
        exact ⟨rfl, h⟩
      · rw [hok] at hq
        cases hq
    · refine transaction_same h ?_
      rcases hlease with ⟨hq, hp⟩ | ⟨a, b, hq, hp, hba⟩
      · exact Or.inl ⟨raised_bind hq _, raised_bind hp _⟩
      · right
        have htx : heartbeatTx j token leaseSeconds now q = .ok (renewLease expiry a,
            (q.updateAttempts (·.attemptId = a.attemptId) (renewLease expiry)).updateJobs
              (·.jobId = j) (touch now)) := by
          simp only [heartbeatTx, hq, hexp, bind, Except.bind, pure, Except.pure]
        have hab : b.attemptId = a.attemptId := by rw [(AttemptFields.stripped_eq hba).1]
        have htx' : PostgresJobRepository.heartbeatTx j token expiry now p = .ok (renewLease expiry b,
            p.updateAttempts (·.attemptId = b.attemptId) (renewLease expiry)) := by
          simp only [PostgresJobRepository.heartbeatTx, hp, bind, Except.bind, pure, Except.pure]
        refine ⟨_, _, _, _, htx, htx', ?_, ?_⟩
        · refine ⟨(heartbeatTx_moves h.inv htx).refines.inv h.inv, ?_, h.outbox,
            errors_updateWhere h.errors fun x hx => hx⟩
          exact
            { h.rows with
              jobs := h.rows.jobs.trans (Table.map_updateWhere (f := touch now) _ (fun _ => rfl) _).symm
              attempts := by
                apply Table.map_updateWhere_congr h.rows.attempts
                · intro x _ y _ hxy
                  have hid : x.attemptId = y.attemptId := by rw [(AttemptFields.stripped_eq hxy).1]
                  rw [hid, hab]
                · exact fun x _ y _ hxy => congrArg (renewLease expiry) hxy }
        · have hsame : (renewLease expiry b).stripped = (renewLease expiry a).stripped :=
            congrArg (renewLease expiry) hba
          rw [ExecutionAttempt.validate_same hsame]
          rfl

/-! ## `claim` -/

/-- `INSERT INTO execution_attempts` of rows that agree. -/
theorem insertAttempt_same {q p : Db}
    (h : p.attempts.map AttemptFields.stripped = q.attempts.map AttemptFields.stripped)
    {x y : AttemptRow} (hxy : x.stripped = y.stripped) :
    (raised (q.insertAttempt y) = true ∧ raised (p.insertAttempt x) = true) ∨
    (q.insertAttempt y = .ok { q with attempts := q.attempts ++ [y] } ∧
      p.insertAttempt x = .ok { p with attempts := p.attempts ++ [x] }) := by
  have hx := (AttemptFields.stripped_eq hxy).1
  have hid : p.attempts.any (·.attemptId = x.attemptId) = q.attempts.any (·.attemptId = y.attemptId) := by
    apply Table.any_congr h
    intro a _ b _ hab
    rw [(AttemptFields.stripped_eq hab).1, hx]
  have htoken : p.attempts.any (·.leaseToken = x.leaseToken) =
      q.attempts.any (·.leaseToken = y.leaseToken) := by
    apply Table.any_congr h
    intro a _ b _ hab
    rw [(AttemptFields.stripped_eq hab).1, hx]
  have hnumber : p.attempts.any (fun a => a.jobId = x.jobId ∧ a.attemptNumber = x.attemptNumber) =
      q.attempts.any (fun a => a.jobId = y.jobId ∧ a.attemptNumber = y.attemptNumber) := by
    apply Table.any_congr h
    intro a _ b _ hab
    rw [(AttemptFields.stripped_eq hab).1, hx]
  unfold Db.insertAttempt
  rw [hid, htoken, hnumber]
  split_ifs
  · exact Or.inl ⟨rfl, rfl⟩
  · exact Or.inl ⟨rfl, rfl⟩
  · exact Or.inl ⟨rfl, rfl⟩
  · exact Or.inr ⟨rfl, rfl⟩

/-- SQLite claims the row that PostgreSQL would claim on the same database. -/
theorem firstBy_claimCandidates (s : Db) (now : Datetime) :
    Table.firstBy claimsBefore (claimCandidates s now) =
      (PostgresJobRepository.claimRow s now).map (·.1) :=
  Table.firstBy_map _ _ _

theorem claimRow_same {q p : Db} (h : SameRows q p) (now : Datetime) :
    (PostgresJobRepository.claimRow p now).map joinedUntouched =
      (PostgresJobRepository.claimRow q now).map joinedUntouched := by
  apply Table.firstBy_congr
  · apply joinKeys_same h
    apply Table.map_filter_congr h.jobs
    intro x _ y _ hxy
    rw [JobRow.untouched_eq hxy]
  · rintro ⟨x, k⟩ ⟨x', k'⟩ ⟨y, l⟩ ⟨y', l'⟩ hxy hxy'
    have h1 : x.untouched = y.untouched := congrArg Prod.fst hxy
    have h2 : x'.untouched = y'.untouched := congrArg Prod.fst hxy'
    simp only
    rw [JobRow.untouched_eq h1, JobRow.untouched_eq h2]
    rfl

/-- A lease of no time is refused when the attempt is validated. -/
theorem validate_raised_of_expired {a : AttemptFields} (h : a.leaseExpiresAt ≤ a.startedAt) :
    raised (ExecutionAttempt.validate a) = true := by
  have hcheck : raised a.check = true := by
    unfold AttemptFields.check
    split_ifs <;> rfl
  obtain ⟨e, he⟩ := eq_error_of_raised hcheck
  unfold ExecutionAttempt.validate
  split
  · rfl
  · next h' =>
    rw [he] at h'
    cases h'

theorem addSeconds_nonpos {now u : Datetime} {x : PyFloat} (hx : x.le (.finite 0) = true)
    (h : now.addSeconds x = .ok u) : u ≤ now := by
  obtain ⟨r, rfl, hu⟩ := Datetime.addSeconds_eq_ok_iff.mp h
  have hr : r ≤ 0 := of_decide_eq_true hx
  have hround : PyFloat.roundHalfEven (r * 1000000) ≤ PyFloat.roundHalfEven 0 :=
    PyFloat.roundHalfEven_mono (by linarith)
  have h0 : PyFloat.roundHalfEven 0 = 0 := by simp [PyFloat.roundHalfEven]
  rw [Datetime.le_iff]
  omega

/-- The text can be part of a statement. -/
def NoNul (text : String) : Prop := text.toList.contains (Char.ofNat 0) = false

theorem NoNul.bindText {text : String} (h : NoNul text) :
    PostgresJobRepository.bindText text = .ok () := by
  unfold PostgresJobRepository.bindText
  rw [h]
  rfl

/-- The queued row that was selected is the one row that the `UPDATE` of SQLite meets. -/
theorem claim_rowcount {s : Db} (h : s.Inv) {row : JobRow} (hrow : row ∈ s.jobs)
    (hqueued : row.status = .queued) :
    (s.jobs.filter fun r => decide (r.jobId = row.jobId ∧ r.status = .queued)).length = 1 := by
  have hview : s.jobs.filter (fun r => decide (r.jobId = row.jobId)) = [row] := h.view_of_mem hrow
  have hsplit : (s.jobs.filter fun r => decide (r.jobId = row.jobId ∧ r.status = .queued)) =
      (s.jobs.filter fun r => decide (r.jobId = row.jobId)).filter
        fun r => decide (r.status = .queued) := by
    rw [List.filter_filter]
    apply List.filter_congr
    intro r _
    rw [Bool.decide_and, Bool.and_comm]
  rw [hsplit, hview]
  simp [hqueued]

/-- The job that PostgreSQL returns from the row in memory is the one SQLite reads back. -/
theorem claimed_same {row row' : JobRow} (h : row'.untouched = row.untouched) (key : String)
    (attemptId : Uuid) (now : Datetime) :
    (jobFromRow (PostgresJobRepository.claimedRow row') key).map Job.untouched =
      (jobFromRow (startRun attemptId now row) key).map Job.untouched := by
  have hrow : (PostgresJobRepository.claimedRow row').untouched =
      (PostgresJobRepository.claimedRow row).untouched := by
    have hcongr := congrArg (fun r => (PostgresJobRepository.claimedRow r).untouched) h
    exact hcongr
  rw [jobFromRow_same hrow, jobFromRow_untouched, jobFromRow_untouched (startRun attemptId now row)]
  rfl

/-- The transaction of SQLite, once it has found a row. -/
theorem claimTx_eq {q : Db} (h : q.Inv) {row : JobRow} {key : String} {now : Datetime}
    (hq : PostgresJobRepository.claimRow q now = some (row, key)) (attemptId token : Uuid)
    (workerId : String) (leaseSeconds : PyFloat) :
    claimTx attemptId token workerId leaseSeconds now q = (do
      let expires ← now.addSeconds leaseSeconds
      let attempt ← ExecutionAttempt.validate (newAttempt row attemptId token workerId expires now)
      let s ← (q.updateJobs (fun r => r.jobId = row.jobId ∧ r.status = .queued)
        (startRun attemptId now)).insertAttempt attempt.toAttemptFields
      return (some attempt, s.recordTransition row.jobId (some .queued) .running "claim" now)) := by
  have hfirst := firstBy_claimCandidates q now
  rw [hq, Option.map_some] at hfirst
  obtain ⟨hmem, hqueued, -, -⟩ := mem_claimCandidates (Table.mem_of_firstBy hfirst)
  have hrowcount := claim_rowcount h hmem hqueued
  have hvalid : validateJobTransition .queued .running = .ok () := rfl
  simp only [claimTx, hfirst, hvalid, hrowcount, bind, Except.bind, ne_eq, not_true_eq_false, if_false]

/-- The transaction of PostgreSQL, once it has found a row. -/
theorem postgres_claimTx_eq {p : Db} {row : JobRow} {key : String} {now : Datetime}
    (hp : PostgresJobRepository.claimRow p now = some (row, key)) (attemptId token : Uuid)
    {workerId : String} (hnul : NoNul workerId) (leaseSeconds : PyFloat) :
    PostgresJobRepository.claimTx attemptId token workerId leaseSeconds now p = (do
      let expires ← now.addSeconds leaseSeconds
      let attempt ← ExecutionAttempt.validate (newAttempt row attemptId token workerId expires now)
      let s ← (p.updateJobs (·.jobId = row.jobId) (startRun attemptId now)).insertAttempt
        { attempt.toAttemptFields with workerId }
      return (some ((PostgresJobRepository.claimedRow row, key), attempt),
        s.recordTransition row.jobId (some .queued) .running "claim" now)) := by
  have hvalid : validateJobTransition .queued .running = .ok () := rfl
  simp only [PostgresJobRepository.claimTx, hp, hvalid, hnul.bindText, bind, Except.bind]

/-- A lease of no time is refused by PostgreSQL too, once there is a row to claim. -/
theorem postgres_claimTx_raised {p : Db} {row : JobRow} {key : String} {now : Datetime}
    (hp : PostgresJobRepository.claimRow p now = some (row, key)) (attemptId token : Uuid)
    {workerId : String} (hnul : NoNul workerId) {leaseSeconds : PyFloat}
    (hle : leaseSeconds.le (.finite 0) = true) :
    raised (PostgresJobRepository.claimTx attemptId token workerId leaseSeconds now p) = true := by
  rw [postgres_claimTx_eq hp attemptId token hnul]
  cases hexp : now.addSeconds leaseSeconds with
  | error e => rfl
  | ok expires =>
    have hraised : raised (ExecutionAttempt.validate
        (newAttempt row attemptId token workerId expires now)) = true :=
      validate_raised_of_expired (addSeconds_nonpos hle hexp)
    exact raised_bind hraised _

/-- The answers to a claim of rows that agree. -/
theorem claimed_answer {s : Db} {row row' : JobRow} {k : IdempotencyRow} {now : Datetime}
    {attemptId j : Uuid} {attempt : ExecutionAttempt} (hj : attempt.jobId = j)
    (hrow : row'.untouched = row.untouched) (hrows : (s.view j).rows = [startRun attemptId now row])
    (hkeys : (s.view j).keys = [k]) :
    SameAnswer
      ((do return some (← getJobAsserted s attempt.jobId, attempt) :
        Except PyError (Option (Job × ExecutionAttempt))).map .claimed)
      ((do return some (← PostgresJobRepository.job
          (PostgresJobRepository.claimedRow row', k.idempotencyKey), attempt) :
        Except PyError (Option (Job × ExecutionAttempt))).map .claimed) := by
  have hsame := claimed_same hrow k.idempotencyKey attemptId now
  unfold PostgresJobRepository.job getJobAsserted
  rw [hj, getJob_of_view hrows hkeys]
  simp only [bind, Except.bind, pure, Except.pure]
  cases h1 : jobFromRow (PostgresJobRepository.claimedRow row') k.idempotencyKey with
  | error e =>
    rw [h1] at hsame
    cases h2 : jobFromRow (startRun attemptId now row) k.idempotencyKey with
    | error e' => rfl
    | ok job => rw [h2] at hsame; cases hsame
  | ok job' =>
    rw [h1] at hsame
    cases h2 : jobFromRow (startRun attemptId now row) k.idempotencyKey with
    | error e' => rw [h2] at hsame; cases hsame
    | ok job =>
      rw [h2] at hsame
      simp only [Except.map, Except.ok.injEq] at hsame
      simp [SameAnswer, Except.map, Except.toOption, JobValue.untouched, hsame]

/-- What `claim` leaves of the claimed job. -/
theorem view_claim {s : Db} {row : JobRow} (hrow : (s.view row.jobId).rows = [row])
    (hqueued : row.status = .queued) (attemptId : Uuid) (now : Datetime) (a : AttemptRow) :
    let s' := ({ s.updateJobs (fun r => r.jobId = row.jobId ∧ r.status = .queued)
        (startRun attemptId now) with attempts := s.attempts ++ [a] } : Db).recordTransition row.jobId
      (some .queued) .running "claim" now
    (s'.view row.jobId).rows = [startRun attemptId now row] ∧
      (s'.view row.jobId).keys = (s.view row.jobId).keys := by
  have hadd := view_addAttempt (s.updateJobs (fun r => r.jobId = row.jobId ∧ r.status = .queued)
    (startRun attemptId now)) row.jobId a
  rw [view_updateJobs _ _ _ (f := startRun attemptId now) (fun _ => rfl)] at hadd
  simp only [Db.updateJobs] at hadd
  simp only [view_recordTransition, Db.updateJobs, hadd, hrow, Table.updateWhere_singleton, hqueued,
    and_self, decide_true, if_true]

theorem claim_same {q p : Db} (h : Corresponds q p) {attemptId token : Uuid} {workerId : String}
    {leaseSeconds : PyFloat} {now : Datetime} (hnul : NoNul workerId)
    (hcond : leaseSeconds.le (.finite 0) = false ∨ claimCandidates q now ≠ []) :
    SameAnswer (exec (.claim attemptId token workerId leaseSeconds now) q).1
        (PostgresJobRepository.exec (.claim attemptId token workerId leaseSeconds now) p).1 ∧
      Corresponds (exec (.claim attemptId token workerId leaseSeconds now) q).2
        (PostgresJobRepository.exec (.claim attemptId token workerId leaseSeconds now) p).2 := by
  have hsame := claimRow_same h.rows now
  have hfirst := firstBy_claimCandidates q now
  simp only [exec, claim, PostgresJobRepository.exec, PostgresJobRepository.claim]
  cases hq : PostgresJobRepository.claimRow q now with
  | none =>
    -- nothing to claim: PostgreSQL returns None, and so does SQLite for a positive lease
    rw [hq, Option.map_none] at hfirst hsame
    have hp := Option.map_eq_none_iff.mp hsame
    have hpos : ¬ leaseSeconds.le (.finite 0) = true := by
      rcases hcond with hpos | hne
      · rw [hpos]
        simp
      · exact absurd (Table.firstBy_eq_none_iff.mp hfirst) hne
    rw [if_neg hpos]
    refine transaction_same h (Or.inr ⟨none, none, q, p, ?_, ?_, h, rfl⟩)
    · simp only [claimTx, hfirst]
    · simp only [PostgresJobRepository.claimTx, hp]
  | some r =>
    obtain ⟨row, key⟩ := r
    rw [hq, Option.map_some] at hfirst hsame
    obtain ⟨⟨row', key'⟩, hp, heq⟩ := Option.map_eq_some_iff.mp hsame
    simp only [joinedUntouched, Prod.mk.injEq] at heq
    obtain ⟨hrow, rfl⟩ := heq
    split_ifs with hle
    · obtain ⟨e', he'⟩ := eq_error_of_raised
        (postgres_claimTx_raised hp attemptId token hnul hle)
      simp only [transaction, he']
      exact ⟨rfl, h⟩
    · obtain ⟨hmem, hqueued, -, -⟩ := mem_claimCandidates (Table.mem_of_firstBy hfirst)
      have hview := h.inv.view_of_mem hmem
      obtain ⟨k, hs⟩ := (h.inv.views row.jobId).sound hview
      have hkey : k.idempotencyKey = key' := by
        obtain ⟨-, k', hk', hkey⟩ := mem_joinKeys (Table.mem_of_firstBy hq)
        have hkeys : q.keysOf row.jobId = [k] := hs.keys
        rw [hkeys, List.mem_singleton] at hk'
        rw [← hk', hkey]
      have hjobId : row'.jobId = row.jobId := by rw [JobRow.untouched_eq hrow]
      have hnew : ∀ expires, newAttempt row' attemptId token workerId expires now =
          newAttempt row attemptId token workerId expires now := by
        intro expires
        rw [JobRow.untouched_eq hrow]
        rfl
      have hinv : ∀ res s', claimTx attemptId token workerId leaseSeconds now q = .ok (res, s') →
          s'.Inv := fun res s' htx => (claimTx_refines h.inv htx).inv h.inv
      refine transaction_same h ?_
      rw [claimTx_eq h.inv hq] at hinv ⊢
      rw [postgres_claimTx_eq hp attemptId token hnul, hjobId]
      simp only [hnew]
      cases hexp : now.addSeconds leaseSeconds with
      | error e => exact Or.inl ⟨rfl, rfl⟩
      | ok expires =>
        cases hattempt : ExecutionAttempt.validate
          (newAttempt row attemptId token workerId expires now) with
        | error e =>
          simp only [bind, Except.bind, hattempt]
          exact Or.inl ⟨rfl, rfl⟩
        | ok attempt =>
          have hstripped := ExecutionAttempt.validate_eq_ok hattempt
          have hraw : ({ attempt.toAttemptFields with workerId } : AttemptFields).stripped =
              attempt.toAttemptFields.stripped := by
            rw [hstripped]
            simp only [AttemptFields.stripped, newAttempt, strip_strip]
          simp only [bind, Except.bind, hexp, hattempt] at hinv ⊢
          rcases insertAttempt_same
            (q := q.updateJobs (fun r => r.jobId = row.jobId ∧ r.status = .queued)
              (startRun attemptId now))
            (p := p.updateJobs (·.jobId = row.jobId) (startRun attemptId now)) h.rows.attempts hraw with
            ⟨hq', hp'⟩ | ⟨hq', hp'⟩
          · exact Or.inl ⟨raised_bind hq' _, raised_bind hp' _⟩
          · right
            rw [hq'] at hinv ⊢
            rw [hp']
            have hjob : attempt.jobId = row.jobId := by rw [hstripped]; rfl
            refine ⟨_, _, _, _, rfl, rfl, ⟨hinv _ _ rfl, ?_, h.outbox, ?_⟩, ?_⟩
            · exact
                { h.rows with
                  jobs := updateJobs_same h hmem (startRun attemptId now) _ _ (fun _ => rfl)
                    (fun x => by simp) (fun x hx => (of_decide_eq_true hx).1)
                    (decide_eq_true ⟨rfl, hqueued⟩)
                  attempts := by
                    simp only [Db.recordTransition, Db.updateJobs, List.map_append, h.rows.attempts,
                      List.map_cons, List.map_nil, hraw]
                  transitions := by
                    simp only [Db.recordTransition, Db.updateJobs, h.rows.transitions] }
            · intro a ha
              rcases List.mem_append.mp ha with ha | ha
              · exact h.errors a ha
              · rw [List.mem_singleton.mp ha, hstripped]
                rfl
            · rw [← hkey]
              obtain ⟨hrows, hkeys⟩ :=
                view_claim hview hqueued attemptId now attempt.toAttemptFields
              exact claimed_answer hjob hrow hrows (hkeys.trans hs.keys)

end Galaxz
