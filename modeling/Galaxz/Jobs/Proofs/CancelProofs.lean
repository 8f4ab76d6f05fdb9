import Galaxz.Jobs.Proofs.FencingProofs
import Galaxz.Jobs.Proofs.SubmissionProofs

/-!
# Proofs: cancelling a job

`cancel` ends a job unless it has completed or failed before. Calls that submit nothing create no job, and leave a job
that is over as it is.
-/

namespace Galaxz

open SqliteJobRepository

variable {s : Db} {jobId : Uuid} {row : JobRow}

/-- A job is found exactly if it has a key. -/
theorem Db.Inv.isSome_job? (h : s.Inv) (jobId : Uuid) :
    (s.job? jobId).isSome = true ↔ jobId ∈ s.idempotency.map (·.jobId) := by
  rw [h.keys_of_jobs]
  unfold Db.job?
  rw [List.find?_isSome, List.mem_map]
  simp only [decide_eq_true_eq]

/-- Calls that submit nothing create and remove no job. -/
theorem step_isSome_job? (h : s.Inv) {call : JobCall} (hcall : call.submission? = none) (jobId : Uuid) :
    ((step call s).job? jobId).isSome = true ↔ (s.job? jobId).isSome = true := by
  rw [(step_inv call s h).isSome_job?, h.isSome_job?]
  rcases step_submitted h call with ⟨heq, -⟩ | ⟨c, hc, -⟩
  · rw [heq]
  · rw [hcall] at hc
    cases hc

/-- No call changes the row of a job that is over. -/
theorem step_job?_of_over (h : s.Inv) (call : JobCall) (hrow : s.job? jobId = some row)
    (hover : row.status.terminal = true) : (step call s).job? jobId = some row := by
  have hrows := h.job?_eq_some.mp hrow
  have hkept := step_keepsFinished call s h jobId row hrows hover
  exact (step_inv call s h).job?_eq_some.mpr (hkept.rows.trans hrows)

theorem cancelTx_error (hrow : s.job? jobId = some row) (hend : row.status = .completed ∨ row.status = .failed)
    (now : Datetime) : ∃ message, cancelTx jobId now s = .error (.valueError message) := by
  have hnot : row.status ≠ .cancelled := by
    rcases hend with hend | hend
    · rw [hend]
      decide
    · rw [hend]
      decide
  have hinvalid : JobStatus.cancelled ∉ validJobTransitions row.status := by
    rcases hend with hend | hend
    · rw [hend]
      decide
    · rw [hend]
      decide
  unfold cancelTx
  rw [hrow]
  dsimp only
  rw [if_neg hnot]
  unfold validateJobTransition
  rw [if_neg hinvalid]
  exact ⟨_, rfl⟩

theorem cancelTx_ok (hrow : s.job? jobId = some row) (hcompleted : row.status ≠ .completed)
    (hfailed : row.status ≠ .failed) (now : Datetime) :
    ∃ s' row', cancelTx jobId now s = .ok ((), s') ∧ s'.job? jobId = some row' ∧ row'.status = .cancelled := by
  unfold cancelTx
  rw [hrow]
  dsimp only
  by_cases hcancelled : row.status = .cancelled
  · rw [if_pos hcancelled]
    exact ⟨s, row, rfl, hrow, hcancelled⟩
  · have hvalid : validateJobTransition row.status .cancelled = .ok () := by
      unfold validateJobTransition
      refine if_pos ?_
      cases hstatus : row.status with
      | queued => decide
      | running => decide
      | completed => exact absurd hstatus hcompleted
      | failed => exact absurd hstatus hfailed
      | cancelled => exact absurd hstatus hcancelled
    rw [if_neg hcancelled, hvalid]
    refine ⟨_, cancelled now row, rfl, ?_, rfl⟩
    have hkeeps : ∀ r : JobRow, (cancelled now r).jobId = r.jobId := fun _ => rfl
    have hjobs : (if row.status = .running then endAttempt s row.activeAttemptId (closeAttempt .cancelled now)
        else s).jobs = s.jobs := by
      split_ifs <;> rfl
    show (Table.updateWhere (fun r : JobRow => decide (r.jobId = jobId)) (cancelled now)
      (if row.status = .running then endAttempt s row.activeAttemptId (closeAttempt .cancelled now)
        else s).jobs).find? _ = _
    rw [Table.find?_updateWhere (k := JobRow.jobId) hkeeps, if_pos rfl, hjobs]
    exact congrArg (Option.map (cancelled now)) hrow

/-- The repository cancels a job, or says that it cannot be cancelled: it has completed or failed before. -/
theorem cancel_spec (h : s.Inv) (hrow : s.job? jobId = some row) (now : Datetime) :
    ((row.status = .completed ∨ row.status = .failed) ∧
        ∃ message, cancel jobId now s = (.error (.valueError message), s)) ∨
      (row.status ≠ .completed ∧ row.status ≠ .failed) ∧ ∃ job s' row', cancel jobId now s = (.ok job, s') ∧
        job.status = .cancelled ∧ s'.job? jobId = some row' ∧ row'.status = .cancelled := by
  by_cases hend : row.status = .completed ∨ row.status = .failed
  · obtain ⟨message, he⟩ := cancelTx_error hrow hend now
    refine Or.inl ⟨hend, message, ?_⟩
    unfold cancel transaction
    rw [he]
  · rw [not_or] at hend
    obtain ⟨s', row', hok, hrow', hcancelled⟩ := cancelTx_ok hrow hend.1 hend.2 now
    have hstep : (cancel jobId now s).2.Inv := step_inv (.cancel jobId now) s h
    unfold cancel transaction at hstep ⊢
    rw [hok] at hstep ⊢
    dsimp only at hstep ⊢
    obtain ⟨job, hjob, -, -, hstatus⟩ := getJobAsserted_spec hstep hrow'
    exact Or.inr ⟨hend, job, s', row', by rw [hjob], hstatus.trans hcancelled, hrow', hcancelled⟩

end Galaxz
