import Galaxz.Jobs.Proofs.StoreInvariantProofs
import Galaxz.Lib.Isoformat

/-!
# Proofs: which job is claimed

SQL compares the times and ids of the job tables as texts. Their orders are those of the instants and
of the numbers, so `claim` takes the queued job that is due and least by priority, age and id.
-/

namespace Galaxz

namespace SqliteJobRepository

/-! ## The comparisons of SQL -/

/-- The `WHERE` clause of the claim, as SQL compares the stored text. -/
def claimCandidatesText (s : Db) (now : Datetime) : List JobRow :=
  (joinKeys s (s.jobs.filter fun j =>
    j.status = .queued ∧ j.availableAt.isoformat ≤ now.isoformat ∧
      (j.attemptCount : ℤ) < j.maxAttempts)).map (·.1)

/-- `ORDER BY priority DESC, created_at, job_id`, as SQL compares the stored texts. -/
def claimsBeforeText (a b : JobRow) : Bool :=
  b.priority < a.priority ∨
    (a.priority = b.priority ∧
      (a.createdAt.isoformat < b.createdAt.isoformat ∨
        (a.createdAt.isoformat = b.createdAt.isoformat ∧ a.jobId.text ≤ b.jobId.text)))

/-- The selection of `reclaim_expired`, as SQL compares the stored text. -/
def expiredJobsText (s : Db) (now : Datetime) : List JobRow :=
  s.jobs.filter fun j => j.status = .running ∧ s.attempts.any fun a =>
    j.activeAttemptId = some a.attemptId ∧ a.endedAt = none ∧
      a.leaseExpiresAt.isoformat ≤ now.isoformat

theorem claimCandidatesText_eq (s : Db) (now : Datetime) :
    claimCandidatesText s now = claimCandidates s now := by
  unfold claimCandidatesText claimCandidates
  simp only [Datetime.isoformat_le_iff]

theorem claimsBeforeText_eq : claimsBeforeText = claimsBefore := by
  funext a b
  have hid : a.jobId.text ≤ b.jobId.text ↔ a.jobId.toNat ≤ b.jobId.toNat := by
    rw [← String.not_lt, Uuid.text_lt_iff, Nat.not_lt]
  unfold claimsBeforeText claimsBefore
  simp only [Datetime.isoformat_lt_iff, Datetime.isoformat_inj, hid]

theorem expiredJobsText_eq (s : Db) (now : Datetime) : expiredJobsText s now = expiredJobs s now := by
  unfold expiredJobsText expiredJobs
  simp only [Datetime.isoformat_le_iff]

end SqliteJobRepository

open SqliteJobRepository

/-! ## The least job -/

/-- The job is queued and due. -/
def JobRow.Due (now : Datetime) (row : JobRow) : Prop := row.status = .queued ∧ row.availableAt ≤ now

/-- The job comes strictly first: of higher priority, else older, else of smaller id. -/
def JobRow.ClaimedFirst (a b : JobRow) : Prop :=
  b.priority < a.priority ∨ a.priority = b.priority ∧
    (a.createdAt < b.createdAt ∨ a.createdAt = b.createdAt ∧ a.jobId.text < b.jobId.text)

/-- The job is due, and comes before every other job that is. -/
structure Db.NextClaim (s : Db) (now : Datetime) (row : JobRow) : Prop where
  mem : row ∈ s.jobs
  due : row.Due now
  least : ∀ other ∈ s.jobs, other.Due now → other ≠ row → row.ClaimedFirst other

theorem claimsBefore_iff {a b : JobRow} : claimsBefore a b = true ↔
    b.priority < a.priority ∨ a.priority = b.priority ∧
      (a.createdAt.micros < b.createdAt.micros ∨
        a.createdAt.micros = b.createdAt.micros ∧ a.jobId.toNat ≤ b.jobId.toNat) := by
  have heq : a.createdAt = b.createdAt ↔ a.createdAt.micros = b.createdAt.micros :=
    ⟨congrArg Datetime.micros, Datetime.ext_micros⟩
  unfold claimsBefore
  rw [decide_eq_true_eq, heq]
  rfl

theorem claimsBefore_total (a b : JobRow) : claimsBefore a b = true ∨ claimsBefore b a = true := by
  rw [claimsBefore_iff, claimsBefore_iff]
  omega

theorem claimsBefore_trans (a b c : JobRow) (hab : claimsBefore a b = true)
    (hbc : claimsBefore b c = true) : claimsBefore a c = true := by
  rw [claimsBefore_iff] at *
  omega

/-- Two rows with different ids are ordered strictly. -/
theorem claimedFirst_of_claimsBefore {a b : JobRow} (h : claimsBefore a b = true)
    (hid : a.jobId ≠ b.jobId) : a.ClaimedFirst b := by
  have hne : a.jobId.toNat ≠ b.jobId.toNat := fun heq => hid (BitVec.eq_of_toNat_eq heq)
  unfold JobRow.ClaimedFirst
  rw [Uuid.text_lt_iff]
  rcases claimsBefore_iff.mp h with hpriority | ⟨hpriority, hage | ⟨hage, hle⟩⟩
  · exact Or.inl hpriority
  · exact Or.inr ⟨hpriority, Or.inl hage⟩
  · exact Or.inr ⟨hpriority, Or.inr ⟨Datetime.ext_micros hage, by omega⟩⟩

/-- `claim` selects among the jobs that are queued and due: each has attempts left and a key. -/
theorem Db.Inv.mem_claimCandidates_iff {s : Db} (h : s.Inv) {now : Datetime} {row : JobRow} :
    row ∈ claimCandidates s now ↔ row ∈ s.jobs ∧ row.Due now := by
  constructor
  · intro hrow
    obtain ⟨hmem, hstatus, hdue, -⟩ := mem_claimCandidates hrow
    exact ⟨hmem, hstatus, hdue⟩
  · rintro ⟨hmem, hstatus, hdue⟩
    obtain ⟨key, hs⟩ := (h.views row.jobId).sound (h.view_of_mem hmem)
    have hkeys : s.keysOf row.jobId = [key] := hs.keys
    refine List.mem_map.mpr ⟨(row, key.idempotencyKey), ?_, rfl⟩
    refine List.mem_flatMap.mpr ⟨row, ?_, ?_⟩
    · exact List.mem_filter.mpr ⟨hmem, decide_eq_true ⟨hstatus, hdue, hs.budget hstatus⟩⟩
    · rw [hkeys]
      simp

/-- The row that the query of `claim` returns is the least that is due. -/
theorem Db.Inv.nextClaim_of_firstBy {s : Db} (h : s.Inv) {now : Datetime} {row : JobRow}
    (hfirst : Table.firstBy claimsBefore (claimCandidates s now) = some row) : s.NextClaim now row := by
  obtain ⟨hmem, hdue⟩ := h.mem_claimCandidates_iff.mp (Table.mem_of_firstBy hfirst)
  refine ⟨hmem, hdue, fun other hother hotherDue hne => ?_⟩
  have hle := Table.le_firstBy claimsBefore_total claimsBefore_trans hfirst other
    (h.mem_claimCandidates_iff.mpr ⟨hother, hotherDue⟩)
  refine claimedFirst_of_claimsBefore hle fun hid => hne ?_
  exact Table.eq_of_key (·.jobId) h.jobs_nodup hother hmem hid.symm

/-! ## The transaction -/

/-- The row that was read is the one row the update hits. -/
theorem Db.Inv.queued_length {s : Db} (h : s.Inv) {row : JobRow} (hmem : row ∈ s.jobs)
    (hstatus : row.status = .queued) :
    (s.jobs.filter fun j => decide (j.jobId = row.jobId ∧ j.status = .queued)).length = 1 := by
  have hrows : s.jobs.filter (fun j => decide (j.jobId = row.jobId)) = [row] := h.view_of_mem hmem
  have hsplit : (s.jobs.filter fun j => decide (j.jobId = row.jobId ∧ j.status = .queued)) =
      (s.jobs.filter fun j => decide (j.jobId = row.jobId)).filter fun j => decide (j.status = .queued) := by
    rw [List.filter_filter]
    apply List.filter_congr
    intro j _
    simp [and_comm]
  rw [hsplit, hrows]
  simp [hstatus]

/-- A `claim` that returns no attempt finds no job that is due. -/
theorem claimTx_none {s s' : Db} (h : s.Inv) {attemptId token : Uuid} {workerId : String}
    {leaseSeconds : PyFloat} {now : Datetime}
    (hok : claimTx attemptId token workerId leaseSeconds now s = .ok (none, s')) :
    ∀ row ∈ s.jobs, ¬ row.Due now := by
  rcases claimTx_cases hok with ⟨-, -, hmiss⟩ | ⟨_, _, _, _, -, -, -, -, hres, -, -⟩
  · intro row hmem hdue
    have hrow := h.mem_claimCandidates_iff.mpr ⟨hmem, hdue⟩
    cases hfirst : Table.firstBy claimsBefore (claimCandidates s now) with
    | none =>
      rw [Table.firstBy_eq_none_iff.mp hfirst] at hrow
      cases hrow
    | some best =>
      have hbest := h.nextClaim_of_firstBy hfirst
      exact hmiss best hfirst (h.queued_length hbest.mem hbest.due.1)
  · cases hres

/-! ## The call -/

/-- The caller, the clock and the generated ids allow a claim: a worker with a name, a lease that
starts now and ends later, at a date, and ids that no attempt has. -/
structure Db.ClaimArgs (s : Db) (attemptId token : Uuid) (workerId : String) (leaseSeconds : PyFloat)
    (now : Datetime) : Prop where
  worker : strip workerId ≠ ""
  lease : ∃ expires, now.addSeconds leaseSeconds = .ok expires ∧ now < expires
  attemptId_fresh : ∀ a ∈ s.attempts, a.attemptId ≠ attemptId
  token_fresh : ∀ a ∈ s.attempts, a.leaseToken ≠ token

/-- A lease that ends later is positive. -/
theorem le_zero_of_addSeconds {now expires : Datetime} {x : PyFloat} (h : now.addSeconds x = .ok expires)
    (hlt : now < expires) : x.le (.finite 0) = false := by
  obtain ⟨q, rfl, heq⟩ := Datetime.addSeconds_eq_ok_iff.mp h
  rw [Datetime.lt_iff] at hlt
  simp only [PyFloat.le, decide_eq_false_iff_not, not_le]
  by_contra hle
  have hround : PyFloat.roundHalfEven (q * 1000000) ≤ PyFloat.roundHalfEven 0 :=
    PyFloat.roundHalfEven_mono (by linarith)
  have hzero : PyFloat.roundHalfEven 0 = 0 := by simp [PyFloat.roundHalfEven]
  omega

section Claim

variable {s : Db} {attemptId token : Uuid} {workerId : String} {leaseSeconds : PyFloat} {now : Datetime}

/-- The attempt of an allowed claim passes its validators. -/
theorem validate_newAttempt (row : JobRow) (attemptId token : Uuid) {expires : Datetime} (hworker : strip workerId ≠ "")
    (hlt : now < expires) :
    ∃ attempt, ExecutionAttempt.validate (newAttempt row attemptId token workerId expires now) =
      .ok attempt := by
  have hinput : strip ("task:" ++ row.taskId.text) ≠ "" := by
    refine strip_ne_empty (c := 't') ?_ (by decide)
    rw [String.toList_append]
    rfl
  have hcheck : (newAttempt row attemptId token workerId expires now).check = .ok () := by
    unfold AttemptFields.check newAttempt
    simp [hworker, hinput, Datetime.not_le.mpr hlt]
  unfold ExecutionAttempt.validate
  split
  · next e he =>
    rw [hcheck] at he
    cases he
  · exact ⟨_, rfl⟩

/-- With a positive lease, `claim` returns `None` exactly when no job is due. -/
theorem claim_eq_none_iff (h : s.Inv) (hlease : leaseSeconds.le (.finite 0) = false) :
    (claim attemptId token workerId leaseSeconds now s).1 = .ok none ↔ ∀ row ∈ s.jobs, ¬ row.Due now := by
  unfold claim transaction
  rw [if_neg (by rw [hlease]; decide)]
  constructor
  · intro hnone
    split at hnone
    · cases hnone
    · next res s' hok =>
      cases res with
      | none => exact claimTx_none h hok
      | some attempt =>
        -- an attempt was started, so the call returns it
        obtain ⟨job, -, hjob⟩ := (except_bind_ok_iff _ _ _).mp hnone
        cases hjob
  · intro hdue
    have hcandidates : claimCandidates s now = [] := by
      rw [List.eq_nil_iff_forall_not_mem]
      intro row hrow
      obtain ⟨hmem, hrowdue⟩ := h.mem_claimCandidates_iff.mp hrow
      exact hdue row hmem hrowdue
    unfold claimTx
    rw [hcandidates]
    rfl

/-- After a claim the job that was claimed has the row `startRun` makes. -/
theorem claimed_job? (h : s.Inv) {row : JobRow} (hmem : row ∈ s.jobs) (hstatus : row.status = .queued)
    (attemptId : Uuid) (now : Datetime) (attempts : List AttemptRow) (t : TransitionRow) :
    ({ s.updateJobs (fun j => j.jobId = row.jobId ∧ j.status = .queued) (startRun attemptId now) with
        attempts, transitions := s.transitions ++ [t] } : Db).job? row.jobId =
      some (startRun attemptId now row) := by
  have hrow := h.view_of_mem hmem
  have hview := congrArg JobView.rows (view_updateJobs s row.jobId
    (fun j => decide (j.jobId = row.jobId ∧ j.status = .queued)) (f := startRun attemptId now)
    (fun _ => rfl))
  simp only [hrow, Table.updateWhere_singleton, hstatus, and_self, decide_true, if_true] at hview
  unfold Db.job?
  rw [← List.head?_filter]
  exact congrArg List.head? hview

/-- The job that `claim` returns is the least that is due, and it runs under the returned attempt. -/
theorem claim_eq_some (h : s.Inv) {job : Job} {attempt : ExecutionAttempt}
    (hclaim : (claim attemptId token workerId leaseSeconds now s).1 = .ok (some (job, attempt))) :
    ∃ row, s.NextClaim now row ∧ job.jobId = row.jobId ∧ job.status = .running ∧
      attempt.jobId = row.jobId ∧ attempt.attemptId = attemptId ∧ attempt.leaseToken = token ∧
      (claim attemptId token workerId leaseSeconds now s).2.job? row.jobId =
        some (startRun attemptId now row) := by
  unfold claim transaction at hclaim ⊢
  split_ifs at hclaim ⊢
  split at hclaim
  · cases hclaim
  · next res s' hok =>
    rcases claimTx_cases hok with ⟨rfl, -, -⟩ | ⟨row, expires, attempt', _, hfirst, -, hattempt, -, rfl, rfl, rfl⟩
    · cases hclaim
    · have hnext := h.nextClaim_of_firstBy hfirst
      have hfields := ExecutionAttempt.validate_eq_ok hattempt
      have hid : attempt'.jobId = row.jobId := by rw [hfields]; rfl
      have hrow := claimed_job? h hnext.mem hnext.due.1 attemptId now
        (s.attempts ++ [attempt'.toAttemptFields]) ⟨row.jobId, some .queued, .running, "claim", now⟩
      have hs' := (claimTx_refines h hok).inv h
      obtain ⟨job', hjob, -, hjobid, hstatus⟩ := getJobAsserted_spec hs' hrow
      dsimp only at hclaim
      rw [hid, hjob] at hclaim
      obtain ⟨rfl, rfl⟩ := Prod.mk.inj (Option.some.inj (Except.ok.inj hclaim))
      exact ⟨row, hnext, hjobid, hstatus, hid, by rw [hfields]; rfl, by rw [hfields]; rfl, hrow⟩

/-- The attempt of an allowed claim can be stored: no attempt has its ids, and those of the job are
numbered up to its count. -/
theorem insertAttempt_ok (h : s.Inv) (hargs : s.ClaimArgs attemptId token workerId leaseSeconds now)
    {row : JobRow} (hmem : row ∈ s.jobs) {expires : Datetime} {attempt : ExecutionAttempt}
    (hattempt : ExecutionAttempt.validate (newAttempt row attemptId token workerId expires now) =
      .ok attempt) (p : JobRow → Bool) (f : JobRow → JobRow) :
    ∃ s1, (s.updateJobs p f).insertAttempt attempt.toAttemptFields = .ok s1 := by
  have hfields := ExecutionAttempt.validate_eq_ok hattempt
  have hid : s.attempts.any (fun a => decide (a.attemptId = attempt.attemptId)) = false := by
    rw [List.any_eq_false, hfields]
    exact fun a ha hsame => hargs.attemptId_fresh a ha (of_decide_eq_true hsame)
  have htoken : s.attempts.any (fun a => decide (a.leaseToken = attempt.leaseToken)) = false := by
    rw [List.any_eq_false, hfields]
    exact fun a ha hsame => hargs.token_fresh a ha (of_decide_eq_true hsame)
  have hnumber : s.attempts.any (fun a => decide (a.jobId = attempt.jobId ∧
      a.attemptNumber = attempt.attemptNumber)) = false := by
    obtain ⟨key, hs⟩ := (h.views row.jobId).sound (h.view_of_mem hmem)
    rw [List.any_eq_false, hfields]
    intro a ha hsame
    obtain ⟨hjob, hnum⟩ := of_decide_eq_true hsame
    have hview := List.mem_map_of_mem (f := fun a : AttemptRow => a.attemptNumber)
      (Db.mem_view_attempts.mpr ⟨ha, hjob⟩)
    rw [hnum] at hview
    have hrange := hs.numbers ▸ hview
    have hbound := List.mem_range'_1.mp hrange
    change 1 ≤ row.attemptCount + 1 ∧ row.attemptCount + 1 < 1 + row.attemptCount at hbound
    omega
  unfold Db.insertAttempt
  simp only [Db.updateJobs, hid, htoken, hnumber]
  exact ⟨_, rfl⟩

/-- An allowed claim returns a job when one is due. -/
theorem claim_returns (h : s.Inv) (hargs : s.ClaimArgs attemptId token workerId leaseSeconds now)
    (hdue : ∃ row ∈ s.jobs, row.Due now) :
    ∃ job attempt, (claim attemptId token workerId leaseSeconds now s).1 = .ok (some (job, attempt)) := by
  obtain ⟨expires, hexpires, hlt⟩ := hargs.lease
  have hlease := le_zero_of_addSeconds hexpires hlt
  have hne : (claim attemptId token workerId leaseSeconds now s).1 ≠ .ok none := by
    rw [Ne, claim_eq_none_iff h hlease]
    obtain ⟨row, hmem, hrow⟩ := hdue
    exact fun hnone => hnone row hmem hrow
  -- the transaction reaches its commit
  have hok : ∃ res s', claimTx attemptId token workerId leaseSeconds now s = .ok (res, s') := by
    unfold claimTx
    split
    · exact ⟨none, s, rfl⟩
    · next row hfirst =>
      have hnext := h.nextClaim_of_firstBy hfirst
      obtain ⟨attempt, hattempt⟩ := validate_newAttempt row attemptId token hargs.worker hlt
      have hvalid : validateJobTransition .queued .running = .ok () := rfl
      simp only [hvalid, hexpires, hattempt, bind, Except.bind]
      split_ifs
      · exact ⟨none, s, rfl⟩
      · obtain ⟨s1, hinsert⟩ := insertAttempt_ok h hargs hnext.mem hattempt
          (fun j => decide (j.jobId = row.jobId ∧ j.status = .queued)) (startRun attemptId now)
        rw [hinsert]
        exact ⟨_, _, rfl⟩
  obtain ⟨res, s', hok⟩ := hok
  unfold claim transaction at hne ⊢
  rw [if_neg (by rw [hlease]; decide), hok] at hne ⊢
  rcases claimTx_cases hok with ⟨rfl, -, -⟩ | ⟨row, expires', attempt, _, hfirst, -, hattempt, -, rfl, rfl, rfl⟩
  · exact absurd rfl hne
  · have hnext := h.nextClaim_of_firstBy hfirst
    have hid : attempt.jobId = row.jobId := by
      rw [ExecutionAttempt.validate_eq_ok hattempt]
      rfl
    have hrow := claimed_job? h hnext.mem hnext.due.1 attemptId now
      (s.attempts ++ [attempt.toAttemptFields]) ⟨row.jobId, some .queued, .running, "claim", now⟩
    obtain ⟨job, hjob, -⟩ := getJobAsserted_spec ((claimTx_refines h hok).inv h) hrow
    refine ⟨job, attempt, ?_⟩
    dsimp only
    rw [hid, hjob]
    rfl

end Claim

/-- The order of claims. The texts that SQL compares are ordered like the instants, so its selections
are those of the model; and in every reachable database, with a positive lease, `claim` returns `None`
exactly when no job is due, whatever it returns otherwise is the least job that is, and it does return
that one unless its arguments are refused. -/
theorem run_claimOrder (calls : List JobCall) (attemptId token : Uuid) (workerId : String)
    (leaseSeconds : PyFloat) (now : Datetime) :
    (∀ a b : Datetime, (a.isoformat ≤ b.isoformat ↔ a ≤ b) ∧ (a.isoformat < b.isoformat ↔ a < b) ∧
      (a.isoformat = b.isoformat ↔ a = b)) ∧
    (claimCandidatesText (run calls) now = claimCandidates (run calls) now ∧
      claimsBeforeText = claimsBefore ∧ expiredJobsText (run calls) now = expiredJobs (run calls) now) ∧
    (leaseSeconds.le (.finite 0) = false →
      ((claim attemptId token workerId leaseSeconds now (run calls)).1 = .ok none ↔
        ∀ row ∈ (run calls).jobs, ¬ row.Due now)) ∧
    (∀ job attempt,
      (claim attemptId token workerId leaseSeconds now (run calls)).1 = .ok (some (job, attempt)) →
      ∃ row, (run calls).NextClaim now row ∧ job.jobId = row.jobId ∧ job.status = .running ∧
        attempt.jobId = row.jobId ∧ attempt.attemptId = attemptId ∧ attempt.leaseToken = token ∧
        (claim attemptId token workerId leaseSeconds now (run calls)).2.job? row.jobId =
          some (startRun attemptId now row)) ∧
    ((run calls).ClaimArgs attemptId token workerId leaseSeconds now →
      (∃ row ∈ (run calls).jobs, row.Due now) → ∃ job attempt,
        (claim attemptId token workerId leaseSeconds now (run calls)).1 = .ok (some (job, attempt))) := by
  have h := run_inv calls
  refine ⟨fun a b => ?_, ?_, claim_eq_none_iff h, fun job attempt => claim_eq_some h, claim_returns h⟩
  · exact ⟨Datetime.isoformat_le_iff a b, Datetime.isoformat_lt_iff a b, Datetime.isoformat_inj a b⟩
  · exact ⟨claimCandidatesText_eq _ now, claimsBeforeText_eq, expiredJobsText_eq _ now⟩

/-- Two queued jobs, the second of higher priority. -/
def queuedCalls : List JobCall :=
  [.enqueue 1 1 none "a" 0 none (.ofMicros 0), .enqueue 2 2 none "b" 5 none (.ofMicros 1)]

/-- One of them is claimed, the next one by priority, age and id. -/
theorem queuedCalls_claimed : ∃ job attempt row,
    (claim 1 1 "w" (.finite 30) (.ofMicros 2) (run queuedCalls)).1 = .ok (some (job, attempt)) ∧
      (run queuedCalls).NextClaim (.ofMicros 2) row ∧ attempt.jobId = row.jobId := by
  obtain ⟨-, -, -, hleast, hreturns⟩ := run_claimOrder queuedCalls 1 1 "w" (.finite 30) (.ofMicros 2)
  have hargs : (run queuedCalls).ClaimArgs 1 1 "w" (.finite 30) (.ofMicros 2) :=
    ⟨by decide, ⟨.ofMicros 30000002, by decide +kernel, by decide⟩, by decide +kernel, by decide +kernel⟩
  have hdue : ∃ row ∈ (run queuedCalls).jobs, row.Due (.ofMicros 2) := by
    unfold JobRow.Due
    decide +kernel
  obtain ⟨job, attempt, hclaim⟩ := hreturns hargs hdue
  obtain ⟨row, hnext, -, -, hid, -⟩ := hleast job attempt hclaim
  exact ⟨job, attempt, row, hclaim, hnext, hid⟩

end Galaxz
