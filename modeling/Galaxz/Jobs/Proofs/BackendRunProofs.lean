import Galaxz.Jobs.Proofs.BackendProofs
import Mathlib.Data.List.ReduceOption

/-!
# Proofs: runs of the two backends

The remaining calls, and whole runs: two databases that correspond stay so, and every call is answered
alike, as long as each call of the run is mirrored.
-/

namespace Galaxz

open SqliteJobRepository

/-- Two transactions that end a job in step, and return the job. -/
theorem transaction_same_job {q p : Db} (h : Corresponds q p) {j : Uuid}
    {body body' : Db → Except PyError (Unit × Db)}
    (hbody : (raised (body q) = true ∧ raised (body' p) = true) ∨
      ∃ q' p', body q = .ok ((), q') ∧ body' p = .ok ((), p') ∧ Corresponds q' p' ∧
        (q'.job? j).isSome = true) :
    SameAnswer (answer (.job ∘ some) (transaction body (fun _ s => getJobAsserted s j) q)).1
        (answer .job (transaction body' (fun _ s => PostgresJobRepository.getJob s j) p)).1 ∧
      Corresponds (answer (.job ∘ some) (transaction body (fun _ s => getJobAsserted s j) q)).2
        (answer .job (transaction body' (fun _ s => PostgresJobRepository.getJob s j) p)).2 := by
  refine transaction_same h ?_
  rcases hbody with hraise | ⟨q', p', hq, hp, hcor, hj⟩
  · exact Or.inl hraise
  · exact Or.inr ⟨(), (), q', p', hq, hp, hcor, sameAnswer_getJob hcor hj⟩

/-! ## `complete` -/

/-- What a completion with this result adds to `job_outputs`. -/
def outputRows (j : Uuid) (result : Option PyDict) (now : Datetime) : Except PyError (List OutputRow) :=
  match result with
  | none => .ok []
  | some result => do return [⟨j, ← result.dumps, now⟩]

/-- The row of a job that both databases have, with its key. -/
theorem joinedRow_same {q p : Db} (h : Corresponds q p) {j : Uuid} {row : JobRow}
    (hrow : (q.view j).rows = [row]) :
    ∃ row' key, (joinKeys p (p.jobs.filter (·.jobId = j))).head? = some (row', key) ∧
      row'.untouched = row.untouched := by
  obtain ⟨k, hs⟩ := (h.inv.views j).sound hrow
  have hid : row.jobId = j := (Db.mem_view_rows.mp (by rw [hrow]; simp)).2
  have hfilter : q.jobs.filter (fun r => decide (r.jobId = j)) = [row] := hrow
  have hkeys : q.keysOf row.jobId = [k] := by rw [hid]; exact hs.keys
  have hhead := congrArg List.head? (joinKeys_same h.rows (filter_jobId_same h.rows j))
  rw [List.head?_map, List.head?_map, hfilter] at hhead
  simp only [joinKeys, List.flatMap_cons, List.flatMap_nil, List.append_nil, hkeys, List.map_cons,
    List.map_nil, List.head?_cons, Option.map_some] at hhead
  obtain ⟨⟨row', key⟩, hr', heq⟩ := Option.map_eq_some_iff.mp hhead
  exact ⟨row', key, hr', congrArg Prod.fst heq⟩

/-- A job that SQLite does not have, PostgreSQL does not have either. -/
theorem joinedRow_none {q p : Db} (h : SameRows q p) {j : Uuid} (hnone : q.job? j = none) :
    (joinKeys p (p.jobs.filter (·.jobId = j))).head? = none := by
  have hjob := job?_same h j
  rw [hnone, Option.map_none, Option.map_eq_none_iff] at hjob
  have hfilter : p.jobs.filter (fun r => decide (r.jobId = j)) = [] := by
    rw [List.filter_eq_nil_iff]
    exact List.find?_eq_none.mp hjob
  rw [hfilter]
  rfl

/-- The attempt that PostgreSQL completes is the one whose lease SQLite checks. -/
theorem completingAttempt_same {q p : Db} (h : Corresponds q p) {j : Uuid} {row row' : JobRow}
    (hrow : (q.view j).rows = [row]) (hrun : row.status = .running)
    (hrow' : row'.untouched = row.untouched) (token : Uuid) (now : Datetime) (msg : String) :
    (raised (activeLease q j token now msg) = true ∧
      raised (PostgresJobRepository.completingAttempt p row'.activeAttemptId token now) = true) ∨
    ∃ a b, activeLease q j token now msg = .ok a ∧
      PostgresJobRepository.completingAttempt p row'.activeAttemptId token now = .ok b ∧
      b.stripped = a.stripped := by
  have hptr : row'.activeAttemptId = row.activeAttemptId := by rw [JobRow.untouched_eq hrow']
  have hmem := Db.mem_view_rows.mp (show row ∈ (q.view j).rows by rw [hrow]; simp)
  have hany : ∀ id : Uuid, (q.jobs.any fun r =>
      decide (r.activeAttemptId = some id ∧ r.jobId = j ∧ r.status = .running)) =
      decide (some id = row.activeAttemptId) := by
    intro id
    rw [Bool.eq_iff_iff, List.any_eq_true, decide_eq_true_iff]
    constructor
    · rintro ⟨r, hr, hcond⟩
      obtain ⟨hptr, hid, -⟩ := of_decide_eq_true hcond
      rw [← Table.eq_of_key (·.jobId) h.inv.jobs_nodup hr hmem.1 (hid.trans hmem.2.symm)]
      exact hptr.symm
    · intro he
      exact ⟨row, hmem.1, decide_eq_true ⟨he.symm, hmem.2, hrun⟩⟩
  have hfind : (p.attempts.find? fun a => decide (some a.attemptId = row'.activeAttemptId ∧
        a.leaseToken = token ∧ a.endedAt = none)).map AttemptFields.stripped =
      (activeAttempt q j token).map AttemptFields.stripped := by
    apply Table.find?_congr h.rows.attempts
    intro x _ y _ hxy
    rw [(AttemptFields.stripped_eq hxy).1, hany, hptr]
    simp only [decide_eq_true_eq]
  unfold PostgresJobRepository.completingAttempt activeLease
  cases hq : activeAttempt q j token with
  | none =>
    rw [hq, Option.map_none, Option.map_eq_none_iff] at hfind
    rw [hfind]
    exact Or.inl ⟨rfl, rfl⟩
  | some a =>
    rw [hq, Option.map_some] at hfind
    obtain ⟨b, hb, hba⟩ := Option.map_eq_some_iff.mp hfind
    rw [hb]
    have hexp : b.leaseExpiresAt = a.leaseExpiresAt := by rw [(AttemptFields.stripped_eq hba).1]
    simp only [hexp]
    split_ifs
    · exact Or.inl ⟨rfl, rfl⟩
    · exact Or.inr ⟨a, b, rfl, rfl, hba⟩

/-- The transaction of SQLite under the active lease, for a result without evidence. -/
theorem finishTx_eq {q : Db} (h : q.Inv) {j token : Uuid} {row : JobRow} {a : AttemptRow} (ref : String)
    {result : Option PyDict} {now : Datetime} (hrow : (q.view j).rows = [row])
    (hrun : row.status = .running)
    (hlease : activeLease q j token now "completion requires the active, unexpired lease" = .ok a)
    (hev : ∀ r, result = some r → hasEvidence r = false) :
    finishTx j token .completed .completed (some ref) none result now q = (do
      let outs ← outputRows j result now
      return ((), (({ endAttempt q (some a.attemptId) (finishAttempt .completed none (some ref) now) with
          outputs := q.outputs ++ outs } : Db).updateJobs (fun r => r.jobId = j ∧ r.status = .running)
          (finishRun .completed now)).recordTransition j (some .running) .completed "completed" now)) := by
  obtain ⟨k, hs⟩ := (h.views j).sound hrow
  have hvalid : validateJobTransition .running .completed = .ok () := rfl
  have hget : getResult (endAttempt q (some a.attemptId)
      (finishAttempt .completed none (some ref) now)) j = none := by
    have hout : q.outputsOf j = [] := (hs.pending (by rw [hrun]; decide)).1
    unfold getResult
    rw [Option.map_eq_none_iff, ← List.head?_filter]
    exact congrArg List.head? hout
  unfold finishTx
  rw [h.job?_eq_some.mpr hrow]
  simp only [hrun, reduceCtorEq, false_and, if_false, ne_eq, not_true_eq_false, hlease, hvalid, bind,
    Except.bind, pure, Except.pure]
  cases result with
  | none =>
    simp only [outputRows, List.append_nil]
    rfl
  | some r =>
    simp only [outputRows, storeResult, hget, bind, Except.bind, pure, Except.pure, hev r rfl]
    cases r.dumps <;> rfl

/-- The transaction of PostgreSQL under the active lease, for a job without a result. -/
theorem postgres_completeTx_eq {p : Db} {j token : Uuid} {row : JobRow} {key : String} {b : AttemptRow}
    {ref : String} {result : Option PyDict} {now : Datetime}
    (hrow : (joinKeys p (p.jobs.filter (·.jobId = j))).head? = some (row, key))
    (hrun : row.status = .running)
    (hlease : PostgresJobRepository.completingAttempt p row.activeAttemptId token now = .ok b)
    (hnul : NoNul ref) (hnone : p.outputsOf j = []) :
    PostgresJobRepository.completeTx j token ref result now p = (do
      let outs ← outputRows j result now
      return ((), ((({ p with outputs := p.outputs ++ outs } : Db).updateAttempts
          (·.attemptId = b.attemptId) (PostgresJobRepository.completeAttempt ref now)).updateJobs
          (·.jobId = j) (finishRun .completed now)).recordTransition j (some .running) .completed
          "completed" now)) := by
  unfold PostgresJobRepository.completeTx
  rw [hrow]
  simp only [hrun, ne_eq, not_true_eq_false, if_false, hlease, bind, Except.bind, hnul.bindText]
  cases result with
  | none =>
    simp only [PostgresJobRepository.upsertResult, outputRows, List.append_nil]
  | some r =>
    simp only [PostgresJobRepository.upsertResult, outputRows, hnone, bind, Except.bind, pure,
      Except.pure]
    cases r.dumps <;> rfl

theorem complete_same {q p : Db} (h : Corresponds q p) {j token : Uuid} {ref : String}
    {result : Option PyDict} {now : Datetime}
    (hreplay : isReplay q j token (some ref) = true → raised (replayTx q j result) = true)
    (hcond : q.StaleLease j token now ∨
      (NoNul ref ∧ ∀ r, result = some r → hasEvidence r = false)) :
    SameAnswer (exec (.complete j token ref result now) q).1
        (PostgresJobRepository.exec (.complete j token ref result now) p).1 ∧
      Corresponds (exec (.complete j token ref result now) q).2
        (PostgresJobRepository.exec (.complete j token ref result now) p).2 := by
  simp only [exec, complete, finish, PostgresJobRepository.exec, PostgresJobRepository.complete]
  refine transaction_same_job h ?_
  cases hjob : q.job? j with
  | none =>
    have hnone := joinedRow_none h.rows hjob
    left
    simp only [finishTx, hjob, PostgresJobRepository.completeTx, hnone, raised_error, and_self]
  | some row =>
    have hrow := h.inv.job?_eq_some.mp hjob
    obtain ⟨row', key, hrow', hsame⟩ := joinedRow_same h hrow
    have hstatus : row'.status = row.status := by rw [JobRow.untouched_eq hsame]
    by_cases hrun : row.status = .running
    · rcases completingAttempt_same h hrow hrun hsame token now
        "completion requires the active, unexpired lease" with ⟨hq, hp⟩ | ⟨a, b, hq, hp, hba⟩
      · left
        constructor
        · simp only [finishTx, hjob, hrun, reduceCtorEq, false_and, if_false, ne_eq, not_true_eq_false]
          exact raised_bind hq _
        · simp only [PostgresJobRepository.completeTx, hrow', hstatus, hrun, ne_eq, not_true_eq_false,
            if_false]
          exact raised_bind hp _
      · obtain ⟨hnul, hev⟩ : NoNul ref ∧ ∀ r, result = some r → hasEvidence r = false := by
          rcases hcond with hstale | hcond
          · have hraised := hstale.raised h.inv "completion requires the active, unexpired lease"
            rw [hq] at hraised
            cases hraised
          · exact hcond
        obtain ⟨_, pre, _, _, _, hatt, hopen, _, _, _⟩ := activeLease_spec h.inv hq
        have hamem : a ∈ q.attempts := (Db.mem_view_attempts.mp (by rw [hatt]; simp)).1
        obtain ⟨k, hs⟩ := (h.inv.views j).sound hrow
        have hnone : p.outputsOf j = [] := by
          unfold Db.outputsOf
          rw [h.rows.outputs]
          exact (hs.pending (by rw [hrun]; decide)).1
        have hab : b.attemptId = a.attemptId := by rw [(AttemptFields.stripped_eq hba).1]
        have htx := finishTx_eq h.inv ref hrow hrun hq hev
        have hmem := Db.mem_view_rows.mp (show row ∈ (q.view j).rows by rw [hrow]; simp)
        rw [postgres_completeTx_eq hrow' (by rw [hstatus]; exact hrun) hp hnul hnone]
        cases houts : outputRows j result now with
        | error e =>
          rw [htx, houts]
          exact Or.inl ⟨rfl, rfl⟩
        | ok outs =>
          right
          rw [houts] at htx
          have href := completeTx_refines h.inv htx
          refine ⟨_, _, htx, rfl, ⟨href.inv h.inv, ?_, h.outbox, ?_⟩,
            href.job?_isSome h.inv (by rw [hjob]; rfl)⟩
          · exact
              { h.rows with
                jobs := updateJobs_same h hmem.1 (finishRun .completed now) _ _ (fun _ => rfl)
                  (fun x => by simp [hmem.2]) (fun x hx => (of_decide_eq_true hx).1.trans hmem.2.symm)
                  (decide_eq_true ⟨hmem.2, hrun⟩)
                attempts := by
                  refine endAttempt_same h hamem hopen (PostgresJobRepository.completeAttempt ref now)
                    (finishAttempt .completed none (some ref) now) _ (fun x _ y hy hxy => ?_)
                    (fun x => by simp [hab])
                  have herror : x.error = none := by
                    rw [(AttemptFields.stripped_eq hxy).1]
                    exact h.errors y hy
                  have hx : PostgresJobRepository.completeAttempt ref now x =
                      finishAttempt .completed none (some ref) now x := by
                    simp only [PostgresJobRepository.completeAttempt, finishAttempt, herror]
                  rw [hx]
                  exact congrArg (finishAttempt .completed none (some ref) now) hxy
                transitions := by
                  simp only [Db.recordTransition, Db.updateJobs, Db.updateAttempts, endAttempt,
                    h.rows.transitions]
                outputs := by
                  simp only [Db.recordTransition, Db.updateJobs, Db.updateAttempts, h.rows.outputs] }
          · exact errors_updateWhere h.errors fun x hx => rfl
    · left
      constructor
      · simp only [finishTx, hjob]
        split_ifs with hrep
        · exact raised_bind (hreplay hrep.2.2) _
        · rfl
      · simp only [PostgresJobRepository.completeTx, hrow', hstatus, ne_eq, hrun, not_false_eq_true,
          if_true, raised_error]

/-! ## `cancel` -/

theorem cancel_same {q p : Db} (h : Corresponds q p) {j : Uuid} {now : Datetime}
    (hcond : ∀ row ∈ q.jobs, row.jobId = j → row.status ≠ .completed ∧ row.status ≠ .failed) :
    SameAnswer (exec (.cancel j now) q).1 (PostgresJobRepository.exec (.cancel j now) p).1 ∧
      Corresponds (exec (.cancel j now) q).2 (PostgresJobRepository.exec (.cancel j now) p).2 := by
  simp only [exec, cancel, PostgresJobRepository.exec, PostgresJobRepository.cancel]
  refine transaction_same_job h ?_
  have hjobs := job?_same h.rows j
  cases hjob : q.job? j with
  | none =>
    rw [hjob, Option.map_none, Option.map_eq_none_iff] at hjobs
    left
    simp only [cancelTx, hjob, PostgresJobRepository.cancelTx, hjobs, raised_error, and_self]
  | some row =>
    rw [hjob, Option.map_some] at hjobs
    obtain ⟨row', hjob', hsame⟩ := Option.map_eq_some_iff.mp hjobs
    have hrow := h.inv.job?_eq_some.mp hjob
    obtain ⟨hmem, hid⟩ := Db.mem_view_rows.mp (show row ∈ (q.view j).rows by rw [hrow]; simp)
    have hstatus : row'.status = row.status := by rw [JobRow.untouched_eq hsame]
    have hptr' : row'.activeAttemptId = row.activeAttemptId := by rw [JobRow.untouched_eq hsame]
    obtain ⟨hne1, hne2⟩ := hcond row hmem hid
    right
    by_cases hcancelled : row.status = .cancelled
    · refine ⟨q, p, ?_, ?_, h, by rw [hjob]; rfl⟩
      · simp only [cancelTx, hjob, if_pos hcancelled]
      · simp only [PostgresJobRepository.cancelTx, hjob', hstatus, if_pos hcancelled]
    · have hvalid : validateJobTransition row.status .cancelled = .ok () := by
        revert hne1 hne2 hcancelled
        cases row.status <;> simp [validateJobTransition, validJobTransitions]
      have hupdate := updateJobs_same h hmem (cancelled now) (·.jobId = j) (·.jobId = j) (fun _ => rfl)
        (fun x => by simp [hid])
        (fun x hx => (of_decide_eq_true hx).trans hid.symm) (decide_eq_true hid)
      by_cases hrun : row.status = .running
      · obtain ⟨k, hs⟩ := (h.inv.views j).sound hrow
        obtain ⟨pre, a, hatt, hptr, hopen, -⟩ := hs.attempts.running hrun
        have hamem : a ∈ q.attempts := (Db.mem_view_attempts.mp (by rw [hatt]; simp)).1
        have htx : cancelTx j now q = .ok ((), ((endAttempt q (some a.attemptId)
            (closeAttempt .cancelled now)).updateJobs (·.jobId = j) (cancelled now)).recordTransition j
            (some .running) .cancelled "cancel" now) := by
          rw [hrun] at hvalid
          simp only [cancelTx, hjob, hrun, reduceCtorEq, if_false, if_true, hvalid, hptr, bind,
            Except.bind, pure, Except.pure]
        have href := cancelTx_refines h.inv htx
        have htx' : PostgresJobRepository.cancelTx j now p = .ok ((), ((p.updateAttempts
            (fun x => some x.attemptId = some a.attemptId) (closeAttempt .cancelled now)).updateJobs
            (·.jobId = j) (cancelled now)).recordTransition j (some .running) .cancelled "cancel"
            now) := by
          simp only [PostgresJobRepository.cancelTx, hjob', hstatus, hptr', hptr, hrun, reduceCtorEq,
            if_false, if_true]
        refine ⟨_, _, htx, htx', ⟨href.inv h.inv, ?_, h.outbox, ?_⟩,
          href.job?_isSome h.inv (by rw [hjob]; rfl)⟩
        · exact
            { h.rows with
              jobs := hupdate
              attempts := endAttempt_same h hamem hopen (closeAttempt .cancelled now)
                (closeAttempt .cancelled now) (fun x => some x.attemptId = some a.attemptId)
                (fun x _ y _ hxy => congrArg (closeAttempt .cancelled now) hxy) (fun x => by simp)
              transitions := by
                simp only [Db.recordTransition, Db.updateJobs, Db.updateAttempts, endAttempt,
                  h.rows.transitions] }
        · exact errors_updateWhere h.errors fun x hx => hx
      · have htx : cancelTx j now q = .ok ((), (q.updateJobs (·.jobId = j)
            (cancelled now)).recordTransition j (some row.status) .cancelled "cancel" now) := by
          simp only [cancelTx, hjob, hcancelled, hrun, if_false, hvalid, bind, Except.bind, pure,
            Except.pure]
        have href := cancelTx_refines h.inv htx
        have htx' : PostgresJobRepository.cancelTx j now p = .ok ((), (p.updateJobs (·.jobId = j)
            (cancelled now)).recordTransition j (some row.status) .cancelled "cancel" now) := by
          simp only [PostgresJobRepository.cancelTx, hjob', hstatus, hcancelled, hrun, if_false]
        refine ⟨_, _, htx, htx', ⟨href.inv h.inv, ?_, h.outbox, h.errors⟩,
          href.job?_isSome h.inv (by rw [hjob]; rfl)⟩
        exact
          { h.rows with
            jobs := hupdate
            transitions := by simp only [Db.recordTransition, Db.updateJobs, h.rows.transitions] }

/-! ## `reclaim_expired` -/

/-- SQLite releases the job at `now` without a delay, as PostgreSQL always does. -/
def JobRow.DueAtOnce (job : JobRow) (now : Datetime) : Prop :=
  job.attemptCount ≤ 1024 ∧ ((job.attemptCount : ℤ) < job.maxAttempts → job.RetriesAt now now)

theorem JobRow.DueAtOnce.nextAvailable {job : JobRow} {now : Datetime} (h : job.DueAtOnce now)
    (hloads : job.Loads) :
    ∃ delay, retryDelay job = .ok delay ∧ nextAvailable (!exhausted job) delay now = .ok now := by
  obtain ⟨delay, hdelay⟩ := retryDelay_ok_iff.mpr h.1
  refine ⟨delay, hdelay, ?_⟩
  by_cases hlt : (job.attemptCount : ℤ) < job.maxAttempts
  · have hagain : (!exhausted job) = true := by rw [not_exhausted, decide_eq_true hlt]
    rw [hagain]
    exact (hloads.retryDelay_finite_iff h.1 hdelay).mpr (h.2 hlt)
  · have hagain : (!exhausted job) = false := by rw [not_exhausted, decide_eq_false hlt]
    rw [hagain]
    rfl

/-- One round of the two loops. -/
theorem reclaimOne_same {q p : Db} (h : Corresponds q p) {job job' : JobRow} {now : Datetime}
    (hrow : (q.view job.jobId).rows = [job]) (hrun : job.status = .running)
    (hsame : job'.untouched = job.untouched) (hdue : job.DueAtOnce now) :
    ∃ q', reclaimOne now job q = .ok q' ∧ q.Moves job.jobId q' ∧
      Corresponds q' (PostgresJobRepository.reclaimOne now p job') := by
  obtain ⟨k, hs⟩ := (h.inv.views job.jobId).sound hrow
  obtain ⟨pre, a, hatt, hptr, hopen, -⟩ := hs.attempts.running hrun
  obtain ⟨delay, hdelay, hnext⟩ := hdue.nextAvailable hs.loads
  have hamem : a ∈ q.attempts := (Db.mem_view_attempts.mp (by rw [hatt]; simp)).1
  have hmem := (Db.mem_view_rows.mp (show job ∈ (q.view job.jobId).rows by rw [hrow]; simp)).1
  have hid : job'.jobId = job.jobId := by rw [JobRow.untouched_eq hsame]
  have hptr' : job'.activeAttemptId = some a.attemptId := by rw [JobRow.untouched_eq hsame, ← hptr]
  have hexhausted : exhausted job' = exhausted job := by
    rw [JobRow.untouched_eq hsame]
    rfl
  set target := if exhausted job then JobStatus.failed else .queued with htarget
  have hvalid : validateJobTransition .running target = .ok () := by
    rw [htarget]
    split_ifs <;> rfl
  have hok : reclaimOne now job q = .ok (((endAttempt q (some a.attemptId)
      (closeAttempt .leaseExpired now)).updateJobs (·.jobId = job.jobId)
      (requeue target now now)).recordTransition job.jobId (some .running) target "lease_expired"
      now) := by
    simp only [reclaimOne, ← htarget, hvalid, hdelay, hnext, hptr, bind, Except.bind, pure, Except.pure]
  have hmoves := reclaimOne_moves h.inv hrow hrun hok
  refine ⟨_, hok, hmoves, ⟨hmoves.refines.inv h.inv, ?_, h.outbox, ?_⟩⟩
  · unfold PostgresJobRepository.reclaimOne
    rw [hexhausted, hid, hptr', ← htarget]
    exact
      { h.rows with
        jobs := updateJobs_same h hmem (requeue target now now) _ _ (fun _ => rfl) (fun x => by simp)
          (fun x hx => of_decide_eq_true hx) (decide_eq_true rfl)
        attempts := endAttempt_same h hamem hopen (closeAttempt .leaseExpired now)
          (closeAttempt .leaseExpired now) (fun x => some x.attemptId = some a.attemptId)
          (fun x _ y _ hxy => congrArg (closeAttempt .leaseExpired now) hxy) (fun x => by simp)
        transitions := by
          simp only [Db.recordTransition, Db.updateJobs, Db.updateAttempts, endAttempt,
            h.rows.transitions] }
  · exact errors_updateWhere h.errors fun x hx => hx

/-- The two loops, over selections that agree. -/
theorem reclaimAll_same {now : Datetime} (jobs : List JobRow) :
    ∀ {q p : Db} {jobs' : List JobRow}, Corresponds q p →
      jobs'.map JobRow.untouched = jobs.map JobRow.untouched → (jobs.map (·.jobId)).Nodup →
      (∀ job ∈ jobs, (q.view job.jobId).rows = [job] ∧ job.status = .running) →
      (∀ job ∈ jobs, job.DueAtOnce now) →
      ∃ q', reclaimAll now jobs q = .ok q' ∧
        Corresponds q' (jobs'.foldl (PostgresJobRepository.reclaimOne now) p) := by
  induction jobs with
  | nil =>
    intro q p jobs' h hsame _ _ _
    rw [List.map_nil, List.map_eq_nil_iff] at hsame
    subst hsame
    exact ⟨q, rfl, h⟩
  | cons job jobs ih =>
    intro q p jobs' h hsame hnodup hcur hdue
    obtain ⟨job', jobs'', rfl, hjob, hrest⟩ := Table.cons_of_map_eq hsame.symm
    obtain ⟨hrow, hrun⟩ := hcur job List.mem_cons_self
    obtain ⟨q1, hq1, hmoves, hcor⟩ :=
      reclaimOne_same h hrow hrun hjob.symm (hdue job List.mem_cons_self)
    rw [List.map_cons, List.nodup_cons] at hnodup
    have hcur1 : ∀ x ∈ jobs, (q1.view x.jobId).rows = [x] ∧ x.status = .running := by
      intro x hx
      have hne : x.jobId ≠ job.jobId := fun e => hnodup.1 (List.mem_map.mpr ⟨x, hx, e⟩)
      rw [hmoves.other _ hne]
      exact hcur x (List.mem_cons_of_mem _ hx)
    obtain ⟨q', hq', hcor'⟩ := ih hcor hrest.symm hnodup.2 hcur1
      fun x hx => hdue x (List.mem_cons_of_mem _ hx)
    exact ⟨q', (except_bind_ok_iff _ _ _).mpr ⟨q1, hq1, hq'⟩, hcor'⟩

theorem expiredJobs_same {q p : Db} (h : SameRows q p) (now : Datetime) :
    (expiredJobs p now).map JobRow.untouched = (expiredJobs q now).map JobRow.untouched := by
  apply Table.map_filter_congr h.jobs
  intro x _ y _ hxy
  have hany : ∀ id : Option Uuid, (p.attempts.any fun a =>
      decide (id = some a.attemptId ∧ a.endedAt = none ∧ a.leaseExpiresAt ≤ now)) =
      q.attempts.any fun a =>
        decide (id = some a.attemptId ∧ a.endedAt = none ∧ a.leaseExpiresAt ≤ now) := by
    intro id
    apply Table.any_congr h.attempts
    intro a _ b _ hab
    rw [(AttemptFields.stripped_eq hab).1]
  rw [JobRow.untouched_eq hxy, hany]

/-- The jobs that the two calls return. -/
theorem mapM_getJob_same {q p : Db} (h : Corresponds q p) (ids : List Uuid)
    (hids : ∀ j ∈ ids, (q.job? j).isSome = true) :
    ∃ (js : List Job) (js' : List (Option Job)), ids.mapM (getJob q) = .ok (js.map some) ∧
      ids.mapM (PostgresJobRepository.getJob p) = .ok js' ∧
      js'.map (Option.map Job.untouched) = (js.map some).map (Option.map Job.untouched) := by
  induction ids with
  | nil => exact ⟨[], [], rfl, rfl, rfl⟩
  | cons j ids ih =>
    obtain ⟨js, js', hjs, hjs', hrest⟩ := ih fun i hi => hids i (List.mem_cons_of_mem _ hi)
    obtain ⟨res, hres, hiff⟩ := getJob_ok h.inv j
    obtain ⟨job, rfl⟩ := Option.isSome_iff_exists.mp (hiff.mpr (hids j List.mem_cons_self))
    have hsame := getJob_same h.rows j
    rw [hres] at hsame
    cases hp : getJob p j with
    | error e => rw [hp] at hsame; cases hsame
    | ok res' =>
      rw [hp] at hsame
      simp only [Except.map, Except.ok.injEq] at hsame
      refine ⟨job :: js, res' :: js', ?_, ?_, ?_⟩
      · rw [List.mapM_cons, hres, hjs]
        rfl
      · rw [List.mapM_cons, getJob_eq, hp, hjs']
        rfl
      · rw [List.map_cons, hsame, hrest]
        rfl

theorem reduceOption_map_some {α : Type} (xs : List α) : (xs.map some).reduceOption = xs := by
  induction xs with
  | nil => rfl
  | cons x xs ih => rw [List.map_cons, List.reduceOption_cons_of_some, ih]

theorem reclaimExpired_same {q p : Db} (h : Corresponds q p) {now : Datetime}
    (hcond : ∀ job ∈ q.jobs, q.LeaseExpired job now → job.DueAtOnce now) :
    SameAnswer (exec (.reclaimExpired now) q).1 (PostgresJobRepository.exec (.reclaimExpired now) p).1 ∧
      Corresponds (exec (.reclaimExpired now) q).2
        (PostgresJobRepository.exec (.reclaimExpired now) p).2 := by
  simp only [exec, reclaimExpired, PostgresJobRepository.exec, PostgresJobRepository.reclaimExpired]
  refine transaction_same h (Or.inr ?_)
  obtain ⟨hnodup, hcur⟩ := expiredJobs_current h.inv now
  have hsame := expiredJobs_same h.rows now
  obtain ⟨q', hall, hcor⟩ := reclaimAll_same (expiredJobs q now) h hsame hnodup hcur fun job hjob => by
    obtain ⟨hmem, hexp⟩ := (mem_expiredJobs_iff h.inv).mp hjob
    exact hcond job hmem hexp
  have hids : (expiredJobs p now).map (·.jobId) = (expiredJobs q now).map (·.jobId) := by
    have hcongr := congrArg (List.map JobRow.jobId) hsame
    rw [List.map_map, List.map_map] at hcongr
    exact hcongr
  have htx : reclaimTx now q = .ok ((expiredJobs q now).map (·.jobId), q') := by
    simp only [reclaimTx, hall, bind, Except.bind, pure, Except.pure]
  refine ⟨_, _, q', _, htx, rfl, hcor, ?_⟩
  have hexist : ∀ j ∈ (expiredJobs q now).map (·.jobId), (q'.job? j).isSome = true := by
    intro j hj
    obtain ⟨job, hjob, rfl⟩ := List.mem_map.mp hj
    refine (reclaimTx_refines h.inv htx).job?_isSome h.inv ?_
    rw [h.inv.job?_eq_some.mpr (hcur job hjob).1]
    rfl
  obtain ⟨js, js', hjs, hjs', hrest⟩ := mapM_getJob_same hcor _ hexist
  have hreduce := reduceOption_map_some js
  rw [hids, hjs, hjs']
  simp only [SameAnswer, bind, Except.bind, pure, Except.pure, Except.map, Except.toOption,
    Option.map_some, JobValue.untouched, hreduce, hrest]

/-! ## `enqueue` -/

/-- The two inserts of a job. -/
theorem insertJob_same {q p : Db} (h : SameRows q p) (row : JobRow) :
    (raised (q.insertJob row) = true ∧ raised (p.insertJob row) = true) ∨
    (q.insertJob row = .ok { q with jobs := q.jobs ++ [row] } ∧
      p.insertJob row = .ok { p with jobs := p.jobs ++ [row] }) := by
  have hany : p.jobs.any (·.jobId = row.jobId) = q.jobs.any (·.jobId = row.jobId) := by
    apply Table.any_congr h.jobs
    intro x _ y _ hxy
    rw [JobRow.untouched_eq hxy]
  unfold Db.insertJob
  rw [hany]
  split_ifs
  · exact Or.inl ⟨rfl, rfl⟩
  · exact Or.inr ⟨rfl, rfl⟩

theorem insertKey_same {q p : Db} (h : p.idempotency = q.idempotency) (row : IdempotencyRow) :
    (raised (q.insertKey row) = true ∧ raised (p.insertKey row) = true) ∨
    (q.insertKey row = .ok { q with idempotency := q.idempotency ++ [row] } ∧
      p.insertKey row = .ok { p with idempotency := p.idempotency ++ [row] }) := by
  unfold Db.insertKey
  rw [h]
  split_ifs
  · exact Or.inl ⟨rfl, rfl⟩
  · exact Or.inl ⟨rfl, rfl⟩
  · exact Or.inr ⟨rfl, rfl⟩

theorem persistTask_same {q p : Db} (h : p.tasks = q.tasks) (j : Uuid) (task : Option TaskContract) :
    (raised (persistTask q j task) = true ∧ raised (persistTask p j task) = true) ∨
    ∃ tasks, persistTask q j task = .ok { q with tasks := q.tasks ++ tasks } ∧
      persistTask p j task = .ok { p with tasks := p.tasks ++ tasks } := by
  cases task with
  | none =>
    refine Or.inr ⟨[], ?_, ?_⟩ <;> simp only [persistTask, List.append_nil]
  | some task =>
    cases hdump : task.modelDumpJson with
    | error e =>
      left
      constructor <;> simp only [persistTask, hdump, bind, Except.bind, raised_error]
    | ok dumped =>
      simp only [persistTask, hdump, bind, Except.bind, Db.insertTask, h]
      split_ifs
      · exact Or.inl ⟨rfl, rfl⟩
      · exact Or.inr ⟨[⟨j, dumped⟩], rfl, rfl⟩

/-- Both databases refuse the policy, or both can store it. -/
def RetryPolicy.Storable (policy : RetryPolicy) : Prop :=
  sqliteIntMax < policy.maxAttempts ∨
    (policy.maxAttempts ≤ PostgresJobRepository.integerMax ∧ policy.backoffSeconds ≠ .nan ∧
      policy.maxBackoffSeconds ≠ .nan)

theorem bindPolicy_same {policy : RetryPolicy} (h : policy.Storable) :
    (raised (bindPolicy policy) = true ∧ raised (PostgresJobRepository.bindPolicy policy) = true) ∨
    (bindPolicy policy = .ok () ∧ PostgresJobRepository.bindPolicy policy = .ok ()) := by
  have hmax : PostgresJobRepository.integerMax < sqliteIntMax := by decide
  unfold bindPolicy PostgresJobRepository.bindPolicy
  rcases h with hbig | ⟨hle, hb, hm⟩
  · left
    rw [if_pos hbig, if_pos (lt_trans hmax hbig)]
    exact ⟨rfl, rfl⟩
  · right
    rw [if_neg (by omega), if_neg hb, if_neg hm, if_neg (by omega)]
    exact ⟨rfl, rfl⟩

/-- The job that has the key is found in both databases, or in neither. -/
theorem findKey_same {q p : Db} (h : SameRows q p) (key : String) :
    ((joinKeys p p.jobs).find? (·.2 = key)).map joinedUntouched =
      ((joinKeys q q.jobs).find? (·.2 = key)).map joinedUntouched := by
  apply Table.find?_congr (joinKeys_same h h.jobs)
  rintro ⟨x, k⟩ _ ⟨y, l⟩ _ hxy
  have hkey : k = l := congrArg Prod.snd hxy
  simp only [hkey]

/-- The transactions of `enqueue`, for a key that needs no normalisation. -/
theorem enqueueTx_same {q p : Db} (h : Corresponds q p) {candidate : Job} (task : Option TaskContract)
    (now : Datetime) (hstatus : candidate.status = .queued) (hnul : NoNul candidate.idempotencyKey)
    (hpolicy : (∃ r ∈ joinKeys q q.jobs, r.2 = candidate.idempotencyKey) ∨
      candidate.retryPolicy.Storable) :
    (raised (enqueueTx candidate task now q) = true ∧
      raised (PostgresJobRepository.enqueueTx candidate candidate.idempotencyKey task now p) = true) ∨
    ∃ b b' q' p', enqueueTx candidate task now q = .ok (b, q') ∧
      PostgresJobRepository.enqueueTx candidate candidate.idempotencyKey task now p = .ok (b', p') ∧
      Corresponds q' p' ∧
      ((b = none ∧ b' = none) ∨ ∃ row row', b = some row ∧
        b' = some (row', candidate.idempotencyKey) ∧ row'.untouched = row.untouched) := by
  have hfind := findKey_same h.rows candidate.idempotencyKey
  cases hq : (joinKeys q q.jobs).find? (·.2 = candidate.idempotencyKey) with
  | some r =>
    obtain ⟨row, key⟩ := r
    rw [hq, Option.map_some] at hfind
    obtain ⟨⟨row', key'⟩, hp, heq⟩ := Option.map_eq_some_iff.mp hfind
    have hkey' : key' = candidate.idempotencyKey := by simpa using List.find?_some hp
    subst hkey'
    refine Or.inr ⟨some row, _, q, p, ?_, ?_, h, Or.inr ⟨row, row', rfl, rfl, ?_⟩⟩
    · simp only [enqueueTx, hq]
    · simp only [PostgresJobRepository.enqueueTx, hnul.bindText, hp, bind, Except.bind]
    · exact congrArg Prod.fst heq
  | none =>
    rw [hq, Option.map_none, Option.map_eq_none_iff] at hfind
    have hstore : candidate.retryPolicy.Storable := by
      rcases hpolicy with ⟨r, hr, hkey⟩ | hstore
      · exact absurd (decide_eq_true hkey) (List.find?_eq_none.mp hq r hr)
      · exact hstore
    have htxp : PostgresJobRepository.enqueueTx candidate candidate.idempotencyKey task now p = (do
        PostgresJobRepository.bindPolicy candidate.retryPolicy
        let s ← p.insertJob (newJobRow candidate)
        let s ← s.insertKey ⟨candidate.idempotencyKey, candidate.jobId, now⟩
        let s ← persistTask s candidate.jobId task
        return (none, s.recordTransition candidate.jobId none .queued "enqueue" now)) := by
      simp only [PostgresJobRepository.enqueueTx, hnul.bindText, hfind, bind, Except.bind]
    have htxq : enqueueTx candidate task now q = (do
        bindPolicy candidate.retryPolicy
        let s ← q.insertJob (newJobRow candidate)
        let s ← s.insertKey ⟨candidate.idempotencyKey, candidate.jobId, now⟩
        let s ← persistTask s candidate.jobId task
        return (none, s.recordTransition candidate.jobId none .queued "enqueue" now)) := by
      simp only [enqueueTx, hq]
    have hinv : ∀ b s', enqueueTx candidate task now q = .ok (b, s') → s'.Inv := fun b s' hok =>
      (enqueueTx_refines h.inv hstatus hok).inv h.inv
    rw [htxq] at hinv ⊢
    rw [htxp]
    rcases bindPolicy_same hstore with ⟨hbq, hbp⟩ | ⟨hbq, hbp⟩
    · exact Or.inl ⟨raised_bind hbq _, raised_bind hbp _⟩
    rcases insertJob_same h.rows (newJobRow candidate) with ⟨hjq, hjp⟩ | ⟨hjq, hjp⟩
    · left
      rw [hbq, hbp]
      exact ⟨raised_bind hjq _, raised_bind hjp _⟩
    rcases insertKey_same (q := { q with jobs := q.jobs ++ [newJobRow candidate] })
      (p := { p with jobs := p.jobs ++ [newJobRow candidate] }) h.rows.idempotency
      ⟨candidate.idempotencyKey, candidate.jobId, now⟩ with ⟨hkq, hkp⟩ | ⟨hkq, hkp⟩
    · left
      rw [hbq, hbp, hjq, hjp]
      exact ⟨raised_bind hkq _, raised_bind hkp _⟩
    rcases persistTask_same
      (q := { q with
        jobs := q.jobs ++ [newJobRow candidate]
        idempotency := q.idempotency ++ [⟨candidate.idempotencyKey, candidate.jobId, now⟩] })
      (p := { p with
        jobs := p.jobs ++ [newJobRow candidate]
        idempotency := p.idempotency ++ [⟨candidate.idempotencyKey, candidate.jobId, now⟩] })
      h.rows.tasks candidate.jobId task with ⟨htq, htp⟩ | ⟨tasks, htq, htp⟩
    · left
      rw [hbq, hbp, hjq, hjp]
      simp only [bind, Except.bind, hkq, hkp]
      exact ⟨raised_bind htq _, raised_bind htp _⟩
    · right
      rw [hbq, hbp, hjq, hjp]
      rw [hbq, hjq] at hinv
      simp only [bind, Except.bind, hkq, hkp, htq, htp, pure, Except.pure] at hinv ⊢
      refine ⟨none, none, _, _, rfl, rfl, ⟨hinv _ _ rfl, ?_, h.outbox, h.errors⟩, Or.inl ⟨rfl, rfl⟩⟩
      exact
        { h.rows with
          jobs := by simp only [Db.recordTransition, List.map_append, h.rows.jobs]
          transitions := by simp only [Db.recordTransition, h.rows.transitions]
          idempotency := by simp only [Db.recordTransition, h.rows.idempotency]
          tasks := by simp only [Db.recordTransition, h.rows.tasks] }

/-- The contract refuses the arguments of `enqueue`, whatever the database. -/
def EnqueueRefused (taskId : Uuid) (task : Option TaskContract) (key : String) (priority : ℤ) : Prop :=
  task.any (·.taskId ≠ taskId) = true ∨ ¬ (-100 ≤ priority ∧ priority ≤ 100) ∨ strip key = ""

theorem enqueue_same {q p : Db} (h : Corresponds q p) {jobId taskId : Uuid}
    {task : Option TaskContract} {key : String} {priority : ℤ} {policy : Option RetryPolicy}
    {now : Datetime}
    (hcond : EnqueueRefused taskId task key priority ∨
      (strip key = key ∧ NoNul key ∧
        ((∃ r ∈ joinKeys q q.jobs, r.2 = key) ∨ (policy.getD .default).Storable))) :
    SameAnswer (exec (.enqueue jobId taskId task key priority policy now) q).1
        (PostgresJobRepository.exec (.enqueue jobId taskId task key priority policy now) p).1 ∧
      Corresponds (exec (.enqueue jobId taskId task key priority policy now) q).2
        (PostgresJobRepository.exec (.enqueue jobId taskId task key priority policy now) p).2 := by
  simp only [exec, enqueue, PostgresJobRepository.exec, PostgresJobRepository.enqueue]
  split_ifs with htask
  · exact ⟨rfl, h⟩
  · cases hvalid : Job.validate jobId taskId .queued priority key (policy.getD .default) now now now
      none none with
    | error e => exact ⟨rfl, h⟩
    | ok candidate =>
      obtain ⟨-, -, hqueued, hkey, hpolicy, hpriority, hblank⟩ := Job.validate_fields hvalid
      obtain ⟨hstrip, hnul, hstore⟩ : strip key = key ∧ NoNul key ∧
          ((∃ r ∈ joinKeys q q.jobs, r.2 = key) ∨ (policy.getD .default).Storable) := by
        rcases hcond with hrefused | hcond
        · rcases hrefused with hbad | hbad | hbad
          · exact absurd hbad htask
          · exact absurd hpriority hbad
          · exact absurd hbad hblank
        · exact hcond
      rw [hstrip] at hkey
      rw [← hkey] at hnul hstore ⊢
      rw [← hpolicy] at hstore
      refine transaction_same h ?_
      rcases enqueueTx_same h task now hqueued hnul hstore with
        hraise | ⟨b, b', q', p', hq, hp, hcor, hrows⟩
      · exact Or.inl hraise
      · refine Or.inr ⟨b, b', q', p', hq, hp, hcor, ?_⟩
        rcases hrows with ⟨rfl, rfl⟩ | ⟨row, row', rfl, rfl, hsame⟩
        · rfl
        · have hjob := jobFromRow_same hsame candidate.idempotencyKey
          simp only [PostgresJobRepository.job]
          cases h1 : jobFromRow row' candidate.idempotencyKey with
          | error e =>
            rw [h1] at hjob
            cases h2 : jobFromRow row candidate.idempotencyKey with
            | error e' => rfl
            | ok job => rw [h2] at hjob; cases hjob
          | ok job' =>
            rw [h1] at hjob
            cases h2 : jobFromRow row candidate.idempotencyKey with
            | error e' => rw [h2] at hjob; cases hjob
            | ok job =>
              rw [h2] at hjob
              simp only [Except.map, Except.ok.injEq] at hjob
              simp [SameAnswer, Except.map, Except.toOption, JobValue.untouched, hjob]

/-! ## Runs -/

/-- When the two backends answer the call alike from corresponding databases, of which `q` is the one
of SQLite. -/
def JobCall.Mirrored (q : Db) : JobCall → Prop
  | .enqueue _ taskId task key priority policy _ =>
    EnqueueRefused taskId task key priority ∨
      (strip key = key ∧ NoNul key ∧
        ((∃ r ∈ joinKeys q q.jobs, r.2 = key) ∨ (policy.getD .default).Storable))
  | .claim _ _ workerId leaseSeconds now =>
    NoNul workerId ∧ (leaseSeconds.le (.finite 0) = false ∨ claimCandidates q now ≠ [])
  | .heartbeat j token leaseSeconds now =>
    leaseSeconds.le (.finite 0) = false ∨ q.StaleLease j token now
  | .complete j token ref result now =>
    (isReplay q j token (some ref) = true → raised (replayTx q j result) = true) ∧
      (q.StaleLease j token now ∨ (NoNul ref ∧ ∀ r, result = some r → hasEvidence r = false))
  | .fail j token _ _ _ now => q.StaleLease j token now
  | .recordFailure j token _ _ _ _ now => q.StaleLease j token now
  | .cancel j _ => ∀ row ∈ q.jobs, row.jobId = j → row.status ≠ .completed ∧ row.status ≠ .failed
  | .reclaimExpired now => ∀ job ∈ q.jobs, q.LeaseExpired job now → job.DueAtOnce now
  | .pendingCompletions limit => 0 ≤ limit
  | .acknowledgeCompletion _ _ => True

/-- Under a stale lease a failure is not recorded by SQLite either. -/
theorem recordFailure_stale_raised {q : Db} (h : q.Inv) {j token : Uuid} {now : Datetime}
    (hstale : q.StaleLease j token now) (error errorCode failureKind : String) (retryable : Bool) :
    ∃ e, recordFailure j token error errorCode failureKind retryable now q = (.error e, q) := by
  have hraise : raised (recordFailureTx j token error errorCode failureKind retryable now q) = true := by
    unfold recordFailureTx
    split
    · rfl
    · split_ifs
      · rfl
      · exact raised_bind (hstale.raised h "failure requires the active, unexpired lease") _
  obtain ⟨e, he⟩ := eq_error_of_raised hraise
  exact ⟨e, by simp only [recordFailure, transaction, he]⟩

/-- One call from corresponding databases. -/
theorem exec_same {q p : Db} (h : Corresponds q p) (call : JobCall) (hcall : call.Mirrored q) :
    SameAnswer (exec call q).1 (PostgresJobRepository.exec call p).1 ∧
      Corresponds (exec call q).2 (PostgresJobRepository.exec call p).2 := by
  cases call with
  | enqueue jobId taskId task key priority policy now => exact enqueue_same h hcall
  | claim attemptId token workerId leaseSeconds now => exact claim_same h hcall.1 hcall.2
  | heartbeat j token leaseSeconds now => exact heartbeat_same h hcall
  | complete j token ref result now => exact complete_same h hcall.1 hcall.2
  | fail j token error errorCode failureKind now =>
    obtain ⟨e, he⟩ := recordFailure_stale_raised h.inv hcall error errorCode failureKind false
    simp only [exec, fail, he, PostgresJobRepository.exec]
    exact ⟨rfl, h⟩
  | recordFailure j token error errorCode failureKind retryable now =>
    obtain ⟨e, he⟩ := recordFailure_stale_raised h.inv hcall error errorCode failureKind retryable
    simp only [exec, he, PostgresJobRepository.exec]
    exact ⟨rfl, h⟩
  | cancel j now => exact cancel_same h hcall
  | reclaimExpired now => exact reclaimExpired_same h hcall
  | pendingCompletions limit =>
    have hlimit : 0 ≤ limit := hcall
    have hsame : unpublished p = unpublished q := by
      unfold unpublished
      rw [h.rows.outbox]
    have hmin : -sqliteIntMax - 1 ≤ limit := le_trans (by decide) hlimit
    have hbigint : PostgresJobRepository.bigintMax = sqliteIntMax := rfl
    simp only [exec, PostgresJobRepository.exec, pendingCompletions,
      PostgresJobRepository.pendingCompletions, hsame, if_neg (not_lt.mpr hlimit), hmin, true_and,
      hbigint]
    by_cases hmax : limit ≤ sqliteIntMax
    · rw [if_pos hmax, if_neg (not_lt.mpr hmax)]
      exact ⟨rfl, h⟩
    · rw [if_neg hmax, if_pos (not_le.mp hmax)]
      exact ⟨rfl, h⟩
  | acknowledgeCompletion j now =>
    have hout : (acknowledgeCompletion j now q).outbox = [] := by
      simp only [acknowledgeCompletion, h.outbox, Table.updateWhere_nil]
    refine ⟨rfl, ⟨step_inv (.acknowledgeCompletion j now) q h.inv, ?_, hout, h.errors⟩⟩
    exact { h.rows with
      outbox := by
        simp only [exec, PostgresJobRepository.exec, PostgresJobRepository.acknowledgeCompletion,
          acknowledgeCompletion, h.rows.outbox] }

/-- The two backends, over every run whose calls are mirrored: every call is answered alike, and the
databases correspond at the end. -/
theorem run_backends (calls : List JobCall)
    (h : Machine.Along step (fun call q => call.Mirrored q) calls Db.empty) :
    List.Forall₂ SameAnswer (Machine.answers exec calls Db.empty)
        (Machine.answers PostgresJobRepository.exec calls Db.empty) ∧
      SameRows (run calls) (PostgresJobRepository.run calls) := by
  have hempty : Corresponds Db.empty Db.empty :=
    ⟨Db.empty_inv, SameRows.refl _, rfl, by simp [Db.empty]⟩
  have hstep : ∀ (call : JobCall) (q p : Db), Corresponds q p → call.Mirrored q →
      SameAnswer (exec call q).1 (PostgresJobRepository.exec call p).1 ∧
        Corresponds (exec call q).2 (PostgresJobRepository.exec call p).2 :=
    fun call q p hcor hcall => exec_same hcor call hcall
  obtain ⟨hanswers, hcor⟩ := Machine.run_simulation hstep calls Db.empty Db.empty hempty h
  exact ⟨hanswers, hcor.rows⟩

/-- A job that is enqueued, claimed and completed. -/
def completedCalls : List JobCall :=
  [.enqueue 1 1 none "key" 0 none (.ofMicros 0), .claim 1 1 "w" (.finite 30) (.ofMicros 0),
    .complete 1 1 "ref" (some [("status", .str "complete")]) (.ofMicros 1000000),
    .pendingCompletions 10]

theorem completedCalls_backends :
    SameRows (run completedCalls) (PostgresJobRepository.run completedCalls) := by
  refine (run_backends completedCalls ⟨Or.inr ⟨by decide, by unfold NoNul; decide, Or.inr (Or.inr ?_)⟩,
    ⟨by unfold NoNul; decide, Or.inl (by decide +kernel)⟩, ⟨?_, Or.inr ⟨by unfold NoNul; decide, ?_⟩⟩,
    by unfold JobCall.Mirrored; decide, trivial⟩).2
  · exact ⟨by decide, by decide, by decide⟩
  · intro hreplay
    revert hreplay
    decide +kernel
  · intro r hr
    cases hr
    decide

/-- The completed job is cancelled: SQLite refuses, PostgreSQL takes the job out of its final status. -/
theorem cancel_completed_diverges :
    ¬ SameRows (run (completedCalls ++ [.cancel 1 (.ofMicros 2000000)]))
        (PostgresJobRepository.run (completedCalls ++ [.cancel 1 (.ofMicros 2000000)])) ∧
      raised (exec (.cancel 1 (.ofMicros 2000000)) (run completedCalls)).1 = true ∧
      raised (PostgresJobRepository.exec (.cancel 1 (.ofMicros 2000000))
        (PostgresJobRepository.run completedCalls)).1 = false := by
  refine ⟨fun h => ?_, by decide +kernel, by decide +kernel⟩
  have hstatus := congrArg (List.map JobRow.status) h.jobs
  revert hstatus
  decide +kernel

end Galaxz
