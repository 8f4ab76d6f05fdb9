import Galaxz.Jobs.Calls
import Galaxz.Jobs.Proofs.LifecycleProofs

/-!
# Proofs: every call is a move of the lives of jobs

Each transaction of `SqliteJobRepository` changes the view of a job by at most one `Lifecycle.Step`.
Most of them end a run, which is treated once (`view_endRun`).
-/

namespace Galaxz

open SqliteJobRepository

/-! ## Leases -/

/-- The lease check passes only for the last attempt of a running job, before its expiry. -/
theorem activeLease_spec {s : Db} (h : s.Inv) {j token : Uuid} {now : Datetime} {msg : String}
    {a : AttemptRow} (ha : activeLease s j token now msg = .ok a) :
    ∃ row pre, (s.view j).rows = [row] ∧ row.status = .running ∧
      row.activeAttemptId = some a.attemptId ∧ (s.view j).attempts = pre ++ [a] ∧ a.Open ∧
      (∀ x ∈ pre, x.Spent) ∧ a.leaseToken = token ∧ now < a.leaseExpiresAt := by
  unfold activeLease at ha
  split at ha
  · cases ha
  · next a' hact =>
    split_ifs at ha with hexp
    cases ha
    have hmem := List.mem_of_find?_eq_some hact
    have hfound := List.find?_some hact
    simp only [decide_eq_true_eq, List.any_eq_true] at hfound
    obtain ⟨⟨row, hrow, hptr, hid, hstatus⟩, htoken, hended⟩ := hfound
    subst hid
    have hview := h.view_of_mem hrow
    obtain ⟨key, hs⟩ := (h.views row.jobId).sound hview
    obtain ⟨pre, b, hatt, hptr', hopen, hpre⟩ := hs.attempts.running hstatus
    -- the attempt found by id is the one the view ends with
    have hb : b ∈ (s.view row.jobId).attempts := by rw [hatt]; simp
    have hbid : b.attemptId = a.attemptId := by
      rw [hptr] at hptr'
      exact (Option.some.inj hptr').symm
    have heq : b = a := Table.eq_of_key (·.attemptId) h.attempts_nodup
      (Db.mem_view_attempts.mp hb).1 hmem hbid
    subst heq
    exact ⟨row, pre, hview, hstatus, hptr, hatt, hopen, hpre, htoken, Datetime.not_le.mp hexp⟩

/-! ## Ends of a run -/

/-- Ending a run, as every method that does it: the open attempt is rewritten by `g`, the row of the
job by `f`, and the transition logged; completion also adds results and outbox entries. -/
theorem view_endRun {s : Db} (h : s.Inv) {j : Uuid} {row : JobRow} {pre : List AttemptRow}
    {a : AttemptRow} (hrow : (s.view j).rows = [row]) (hatt : (s.view j).attempts = pre ++ [a])
    (hopen : a.Open) (hpre : ∀ x ∈ pre, x.Spent) {p : JobRow → Bool} {f : JobRow → JobRow}
    {g : AttemptRow → AttemptRow} (hp : ∀ r, p r = true → r.jobId = j) (hprow : p row = true)
    (hf : ∀ r, (f r).jobId = r.jobId) (hg : ∀ x, (g x).jobId = x.jobId)
    (hgid : ∀ x, (g x).attemptId = x.attemptId) (outs : List OutputRow) (box : List OutboxRow)
    (houts : ∀ o ∈ outs, o.jobId = j) (hbox : ∀ e ∈ box, e.jobId = j) (c : Option JobStatus)
    (t : JobStatus) (r : String) (now : Datetime) (s1 : Db)
    (hs1 : s1 = { endAttempt s (some a.attemptId) g with
      outputs := s.outputs ++ outs, outbox := s.outbox ++ box }) :
    (((s1.updateJobs p f).recordTransition j c t r now).attempts.map (·.attemptId)).Nodup ∧
    (∀ i, i ≠ j → ((s1.updateJobs p f).recordTransition j c t r now).view i = s.view i) ∧
    ((s1.updateJobs p f).recordTransition j c t r now).view j =
      { s.view j with
        rows := [f row]
        attempts := pre ++ [g a]
        log := (s.view j).log ++ [⟨j, c, t, r, now⟩]
        outputs := (s.view j).outputs ++ outs
        outbox := (s.view j).outbox ++ box } := by
  have hamem : a ∈ (s.view j).attempts := by rw [hatt]; simp
  have hview1 : ∀ i, s1.view i = { s.view i with
      attempts := Table.updateWhere
        (fun x => decide (some x.attemptId = some a.attemptId ∧ x.endedAt = none)) g
        (s.view i).attempts
      outputs := (s.view i).outputs ++ outs.filter (·.jobId = i)
      outbox := (s.view i).outbox ++ box.filter (·.jobId = i) } := by
    intro i
    rw [hs1]
    have hadd := view_addResults (endAttempt s (some a.attemptId) g) i outs box
    rw [endAttempt, view_updateAttempts s i _ hg] at hadd
    exact hadd
  refine ⟨?_, ?_, ?_⟩
  · rw [hs1]
    simp only [Db.recordTransition, Db.updateJobs, endAttempt, Db.updateAttempts]
    rw [Table.map_updateWhere _ hgid]
    exact h.attempts_nodup
  · intro i hi
    have ho : outs.filter (fun o => decide (o.jobId = i)) = [] := by
      rw [List.filter_eq_nil_iff]
      intro o hmem
      simpa [houts o hmem] using hi.symm
    have hb : box.filter (fun e => decide (e.jobId = i)) = [] := by
      rw [List.filter_eq_nil_iff]
      intro e hmem
      simpa [hbox e hmem] using hi.symm
    rw [view_recordTransition, view_updateJobs _ _ _ hf, hview1, if_neg hi.symm]
    simp only [List.append_nil, ho, hb]
    rw [updateWhere_rows_other hi.symm hp,
      updateWhere_attempts_other h hi.symm hamem (fun x hx => by simpa using (of_decide_eq_true hx).1)]
  · have ho : outs.filter (fun o => decide (o.jobId = j)) = outs :=
      List.filter_eq_self.mpr fun o hmem => decide_eq_true (houts o hmem)
    have hb : box.filter (fun e => decide (e.jobId = j)) = box :=
      List.filter_eq_self.mpr fun e hmem => decide_eq_true (hbox e hmem)
    have hpre' : Table.updateWhere
        (fun x : AttemptRow => decide (some x.attemptId = some a.attemptId ∧ x.endedAt = none)) g pre =
        pre := by
      apply Table.updateWhere_eq_self
      intro x hx
      have := (hpre x hx).1
      simp only [decide_eq_false_iff_not]
      rintro ⟨_, hnone⟩
      rw [hnone] at this
      cases this
    rw [view_recordTransition, view_updateJobs _ _ _ hf, hview1, if_pos rfl]
    simp only [ho, hb, hrow, hatt, Table.updateWhere_append, Table.updateWhere_singleton, hpre', hprow,
      if_true, hopen.1, and_self, decide_true]

/-! ## `complete` -/

/-- The stored text is evidence exactly when the result it was written from is. -/
theorem hasEvidence_dumps {result serialized : PyDict} (h : result.dumps = .ok serialized) :
    hasEvidence serialized = hasEvidence result := by
  unfold PyDict.dumps at h
  split_ifs at h
  cases h
  unfold hasEvidence PyDict.get
  rw [PyValue.lookup_sortKeysItems, PyValue.lookup_sortKeysItems]
  have hart : ((result.lookup "artifacts").map PyValue.sortKeys).getD .none =
      ((result.lookup "artifacts").getD .none).sortKeys := by
    cases result.lookup "artifacts" <;> rfl
  have hst : ((result.lookup "status").map PyValue.sortKeys).getD .none =
      ((result.lookup "status").getD .none).sortKeys := by
    cases result.lookup "status" <;> rfl
  rw [hart, hst, PyValue.truthy_sortKeys]
  simp only [PyValue.sortKeys_eq_str_iff]

/-- What a completion with `result` adds to `job_outputs` and `completion_outbox`. -/
def ResultRows (j attemptId : Uuid) (tasks : List TaskRow) (result : Option PyDict) (now : Datetime)
    (outs : List OutputRow) (box : List OutboxRow) : Prop :=
  match result with
  | none => outs = [] ∧ box = []
  | some result => ∃ serialized, result.dumps = .ok serialized ∧ outs = [⟨j, serialized, now⟩] ∧
      if hasEvidence result then tasks ≠ [] ∧ box = [{ jobId := j, attemptId, createdAt := now }]
      else box = []

theorem ResultRows.fit {j attemptId : Uuid} {tasks : List TaskRow} {result : Option PyDict}
    {now : Datetime} {outs : List OutputRow} {box : List OutboxRow}
    (h : ResultRows j attemptId tasks result now outs box) : ResultFit attemptId tasks outs box := by
  cases result with
  | none => exact Or.inl h
  | some result =>
    obtain ⟨serialized, hser, houts, hbox⟩ := h
    refine Or.inr ⟨_, houts, ?_⟩
    have hev := hasEvidence_dumps hser
    split_ifs at hbox with hcase
    · exact Or.inr ⟨by rw [hev, hcase], hbox.1, _, hbox.2, rfl⟩
    · exact Or.inl ⟨by rw [hev]; simpa using hcase, hbox⟩

theorem ResultRows.jobId {j attemptId : Uuid} {tasks : List TaskRow} {result : Option PyDict}
    {now : Datetime} {outs : List OutputRow} {box : List OutboxRow}
    (h : ResultRows j attemptId tasks result now outs box) :
    (∀ o ∈ outs, o.jobId = j) ∧ ∀ e ∈ box, e.jobId = j := by
  cases result with
  | none =>
    obtain ⟨rfl, rfl⟩ := h
    simp
  | some result =>
    obtain ⟨serialized, _, rfl, hbox⟩ := h
    split_ifs at hbox with hcase
    · rw [hbox.2]; simp
    · rw [hbox]; simp

/-- The writes of a result, when the job has none yet. -/
theorem storeResult_spec {s s' : Db} {j attemptId : Uuid} {result : PyDict} {now : Datetime}
    (hnone : s.outputsOf j = []) (h : storeResult s j attemptId result now = .ok s') :
    ∃ outs box, ResultRows j attemptId (s.tasksOf j) (some result) now outs box ∧
      s' = { s with outputs := s.outputs ++ outs, outbox := s.outbox ++ box } := by
  have hget : getResult s j = none := by
    unfold getResult
    rw [Option.map_eq_none_iff, ← List.head?_filter]
    exact congrArg List.head? hnone
  unfold storeResult at h
  rw [hget] at h
  cases hser : result.dumps with
  | error e => simp [hser, bind, Except.bind] at h
  | ok serialized =>
    simp only [hser, bind, Except.bind, pure, Except.pure] at h
    by_cases hev : hasEvidence result = true
    · rw [if_pos hev] at h
      split_ifs at h with htasks
      unfold Db.insertOutbox at h
      split_ifs at h
      cases h
      refine ⟨[⟨j, serialized, now⟩], [{ jobId := j, attemptId, createdAt := now }], ?_, rfl⟩
      refine ⟨serialized, hser, rfl, ?_⟩
      rw [if_pos hev]
      refine ⟨fun hnil => htasks ?_, rfl⟩
      have : ({ s with outputs := s.outputs ++ [⟨j, serialized, now⟩] } : Db).tasksOf j = [] := hnil
      rw [this]
      rfl
    · rw [if_neg hev] at h
      cases h
      refine ⟨[⟨j, serialized, now⟩], [], ⟨serialized, hser, rfl, ?_⟩, ?_⟩
      · rw [if_neg hev]
      · simp

/-- A `complete` call that returns repeats the stored completion and changes nothing, or it ends the
run of the job under its lease. -/
theorem completeTx_cases {s s' : Db} (h : s.Inv) {j token : Uuid} {ref : String}
    {result : Option PyDict} {now : Datetime} {u : Unit}
    (hok : finishTx j token .completed .completed (some ref) none result now s = .ok (u, s')) :
    (s' = s ∧ isReplay s j token (some ref) = true) ∨
    ∃ row pre a outs box, (s.view j).rows = [row] ∧ row.status = .running ∧
      row.activeAttemptId = some a.attemptId ∧ (s.view j).attempts = pre ++ [a] ∧ a.Open ∧
      (∀ x ∈ pre, x.Spent) ∧ a.leaseToken = token ∧ now < a.leaseExpiresAt ∧
      ResultRows j a.attemptId (s.tasksOf j) result now outs box ∧
      s' = (({ endAttempt s (some a.attemptId) (finishAttempt .completed none (some ref) now) with
            outputs := s.outputs ++ outs, outbox := s.outbox ++ box } : Db).updateJobs
          (fun r => r.jobId = j ∧ r.status = .running) (finishRun .completed now)).recordTransition
        j (some .running) .completed "completed" now := by
  unfold finishTx at hok
  split at hok
  · cases hok
  · next job hjob =>
    have hrow := h.job?_eq_some.mp hjob
    split_ifs at hok with hreplay hstatus
    · -- the early return of a repeated completion
      left
      cases hrep : replayTx s j result with
      | error e => simp [hrep, bind, Except.bind] at hok
      | ok _ =>
        simp only [hrep, bind, Except.bind, pure, Except.pure, Except.ok.injEq, Prod.mk.injEq] at hok
        exact ⟨hok.2.symm, hreplay.2.2⟩
    · right
      rw [not_not] at hstatus
      cases hlease : activeLease s j token now "completion requires the active, unexpired lease" with
      | error e => simp [hlease, bind, Except.bind] at hok
      | ok a =>
        obtain ⟨row, pre, hrow', hrun, hptr, hatt, hopen, hpre, htok, hexp⟩ := activeLease_spec h hlease
        obtain rfl : job = row := by simpa [hrow] using hrow'
        have hvalid : validateJobTransition job.status .completed = .ok () := by
          rw [hstatus]; rfl
        obtain ⟨key, hs⟩ := (h.views j).sound hrow
        have hout : s.outputsOf j = [] := (hs.pending (by rw [hstatus]; decide)).1
        simp only [hlease, bind, Except.bind, hvalid, pure, Except.pure] at hok
        cases result with
        | none =>
          simp only [Except.ok.injEq, Prod.mk.injEq] at hok
          refine ⟨job, pre, a, [], [], hrow, hrun, hptr, hatt, hopen, hpre, htok, hexp, ⟨rfl, rfl⟩, ?_⟩
          rw [← hok.2, hstatus]
          simp only [List.append_nil]
          rfl
        | some result =>
          dsimp only at hok
          split at hok
          · cases hok
          · next s2 hstore =>
            obtain ⟨outs, box, hrows, hs2⟩ := storeResult_spec (by exact hout) hstore
            simp only [Except.ok.injEq, Prod.mk.injEq] at hok
            refine ⟨job, pre, a, outs, box, hrow, hrun, hptr, hatt, hopen, hpre, htok, hexp, hrows, ?_⟩
            rw [← hok.2, hs2, hstatus]
            rfl

/-- The same, seen through the views. -/
theorem completeTx_view {s s' : Db} (h : s.Inv) {j token : Uuid} {ref : String}
    {result : Option PyDict} {now : Datetime} {u : Unit}
    (hok : finishTx j token .completed .completed (some ref) none result now s = .ok (u, s')) :
    s' = s ∨
    ∃ row pre a t outs box, (s.view j).rows = [row] ∧ row.status = .running ∧
      (s.view j).attempts = pre ++ [a] ∧ a.leaseToken = token ∧
      t.fromStatus = some .running ∧ t.toStatus = .completed ∧
      (∀ x ∈ pre, x.Spent) ∧ ResultRows j a.attemptId (s.tasksOf j) result now outs box ∧
      s'.outputs = s.outputs ++ outs ∧ (s'.attempts.map (·.attemptId)).Nodup ∧ (∀ i, i ≠ j → s'.view i = s.view i) ∧
      s'.view j = { s.view j with
        rows := [finishRun .completed now row]
        attempts := pre ++ [finishAttempt .completed none (some ref) now a]
        log := (s.view j).log ++ [t]
        outputs := outs
        outbox := box } := by
  rcases completeTx_cases h hok with ⟨rfl, _⟩ |
    ⟨row, pre, a, outs, box, hrow, hrun, _, hatt, hopen, hpre, htok, _, hrows, rfl⟩
  · exact Or.inl rfl
  · obtain ⟨houts, hbox⟩ := hrows.jobId
    obtain ⟨key, hs⟩ := (h.views j).sound hrow
    obtain ⟨hout0, hbox0⟩ := hs.pending (by rw [hrun]; decide)
    obtain ⟨hnodup, hother, hself⟩ := view_endRun h hrow hatt hopen hpre
      (p := fun r => decide (r.jobId = j ∧ r.status = .running))
      (fun r hr => (of_decide_eq_true hr).1)
      (decide_eq_true ⟨(Db.mem_view_rows.mp (by rw [hrow]; simp)).2, hrun⟩)
      (f := finishRun .completed now) (fun _ => rfl)
      (g := finishAttempt .completed none (some ref) now) (fun _ => rfl) (fun _ => rfl) outs box
      houts hbox (some .running) .completed "completed" now _ rfl
    rw [hout0, hbox0, List.nil_append, List.nil_append] at hself
    exact Or.inr ⟨row, pre, a, _, outs, box, hrow, hrun, hatt, htok, rfl, rfl, hpre, hrows, rfl, hnodup,
      hother, hself⟩

theorem completeTx_refines {s s' : Db} (h : s.Inv) {j token : Uuid} {ref : String}
    {result : Option PyDict} {now : Datetime} {u : Unit}
    (hok : finishTx j token .completed .completed (some ref) none result now s = .ok (u, s')) :
    s.Refines s' := by
  rcases completeTx_view h hok with rfl |
    ⟨row, pre, a, t, outs, box, hrow, hrun, hatt, _, hfrom, hto, _, hrows, _, hnodup, hother, hself⟩
  · exact h.refl
  · refine ⟨hnodup, fun i => ?_⟩
    by_cases hi : i = j
    · subst hi
      right
      rw [hself]
      exact Lifecycle.Step.complete row pre a t now none (some ref) outs box hrow hrun hatt hfrom hto
        hrows.fit
    · exact Or.inl (hother i hi)

/-! ## Releases -/

/-- A change of one job only. -/
structure Db.Moves (s : Db) (j : Uuid) (s' : Db) : Prop where
  attempts_nodup : (s'.attempts.map (·.attemptId)).Nodup
  other : ∀ i, i ≠ j → s'.view i = s.view i
  self : Lifecycle.Step (s.view j) (s'.view j)

theorem Db.Moves.refines {s s' : Db} {j : Uuid} (h : s.Moves j s') : s.Refines s' := by
  refine ⟨h.attempts_nodup, fun i => ?_⟩
  by_cases hi : i = j
  · subst hi
    exact Or.inr h.self
  · exact Or.inl (h.other i hi)

/-- At most one job moves. -/
theorem Db.Inv.refines_of_cases {s s' : Db} (h : s.Inv) (hcases : s' = s ∨ ∃ j, s.Moves j s') :
    s.Refines s' := by
  rcases hcases with rfl | ⟨j, hmoves⟩
  · exact h.refl
  · exact hmoves.refines

/-- Releasing the run of a job, to the queue or to failure. -/
theorem moves_release {s : Db} (h : s.Inv) {j : Uuid} {row : JobRow} {pre : List AttemptRow}
    {a : AttemptRow} (hrow : (s.view j).rows = [row]) (hrun : row.status = .running)
    (hatt : (s.view j).attempts = pre ++ [a]) (hopen : a.Open) (hpre : ∀ x ∈ pre, x.Spent)
    {p : JobRow → Bool} (hp : ∀ r, p r = true → r.jobId = j) (hprow : p row = true)
    {target : JobStatus} {availableAt now : Datetime} {reason : String}
    (htarget : target = .failed ∨ target = .queued ∧ (row.attemptCount : ℤ) < row.maxAttempts)
    {g : AttemptRow → AttemptRow} (hg : ∀ x, (g x).jobId = x.jobId)
    (hgid : ∀ x, (g x).attemptId = x.attemptId) {outcome : AttemptOutcome}
    {failureKind errorCode error : Option String} (houtcome : outcome ≠ .completed)
    (hga : g a = { a with
      endedAt := some now, outcome := some outcome, failureKind, errorCode, error }) :
    s.Moves j (((endAttempt s (some a.attemptId) g).updateJobs p
      (requeue target now availableAt)).recordTransition j (some .running) target reason now) := by
  obtain ⟨hnodup, hother, hself⟩ := view_endRun h hrow hatt hopen hpre hp hprow
    (f := requeue target now availableAt) (fun _ => rfl) hg hgid
    [] [] (by simp) (by simp) (some .running) target reason now
    (endAttempt s (some a.attemptId) g) (by simp only [List.append_nil]; rfl)
  refine ⟨hnodup, hother, ?_⟩
  rw [hself, hga]
  simp only [List.append_nil]
  exact Lifecycle.Step.release row pre a _ now availableAt target outcome failureKind errorCode error
    hrow hrun hatt htarget houtcome rfl rfl

/-- A `record_failure` call that returns releases the run of the job under its lease. -/
theorem recordFailureTx_cases {s s' : Db} (h : s.Inv) {j token : Uuid}
    {error errorCode failureKind : String} {retryable : Bool} {now : Datetime} {u : Unit}
    (hok : recordFailureTx j token error errorCode failureKind retryable now s = .ok (u, s')) :
    ∃ row pre a availableAt target reason, (s.view j).rows = [row] ∧ row.status = .running ∧
      row.activeAttemptId = some a.attemptId ∧ (s.view j).attempts = pre ++ [a] ∧ a.Open ∧
      (∀ x ∈ pre, x.Spent) ∧ a.leaseToken = token ∧ now < a.leaseExpiresAt ∧
      target = (if shouldRetry row errorCode retryable then JobStatus.queued else .failed) ∧
      (∃ delay, retryDelay row = .ok delay ∧
        nextAvailable (shouldRetry row errorCode retryable) delay now = .ok availableAt) ∧
      s' = ((endAttempt s (some a.attemptId) (failAttempt failureKind errorCode error now)).updateJobs
          (fun r => r.jobId = j ∧ r.status = .running)
          (requeue target now availableAt)).recordTransition j (some .running) target reason now := by
  unfold recordFailureTx at hok
  split at hok
  · cases hok
  · next job hjob =>
    have hrow := h.job?_eq_some.mp hjob
    split_ifs at hok with hstatus
    cases hlease : activeLease s j token now "failure requires the active, unexpired lease" with
    | error e => simp [hlease, bind, Except.bind] at hok
    | ok a =>
      obtain ⟨row, pre, hrow', hrun, hptr, hatt, hopen, hpre, htok, hexp⟩ := activeLease_spec h hlease
      obtain rfl : job = row := by simpa [hrow] using hrow'
      have hvalid : validateJobTransition .running
          (if shouldRetry job errorCode retryable then JobStatus.queued else .failed) = .ok () := by
        split_ifs <;> rfl
      simp only [hlease, bind, Except.bind, hvalid, pure, Except.pure] at hok
      split at hok
      · cases hok
      · next delay hdelay =>
        split at hok
        · cases hok
        · next availableAt havail =>
          simp only [Except.ok.injEq, Prod.mk.injEq] at hok
          exact ⟨job, pre, a, availableAt, _, _, hrow, hrun, hptr, hatt, hopen, hpre, htok, hexp, rfl,
            ⟨delay, hdelay, havail⟩, hok.2.symm⟩

theorem recordFailureTx_moves {s s' : Db} (h : s.Inv) {j token : Uuid}
    {error errorCode failureKind : String} {retryable : Bool} {now : Datetime} {u : Unit}
    (hok : recordFailureTx j token error errorCode failureKind retryable now s = .ok (u, s')) :
    s.Moves j s' := by
  obtain ⟨row, pre, a, availableAt, target, reason, hrow, hrun, _, hatt, hopen, hpre, _, _, htarget, _,
    rfl⟩ := recordFailureTx_cases h hok
  refine moves_release h hrow hrun hatt hopen hpre (fun r hr => (of_decide_eq_true hr).1)
    (decide_eq_true ⟨(Db.mem_view_rows.mp (by rw [hrow]; simp)).2, hrun⟩) ?_ (fun _ => rfl)
    (fun _ => rfl) (by decide : AttemptOutcome.failed ≠ .completed) rfl
  split_ifs at htarget with hretry
  · simp only [shouldRetry, decide_eq_true_eq] at hretry
    exact Or.inr ⟨htarget, hretry.2.2⟩
  · exact Or.inl htarget

/-! ## `cancel` -/

/-- A `cancel` call that returns finds the job cancelled already, or cancels it. -/
theorem cancelTx_refines {s s' : Db} (h : s.Inv) {j : Uuid} {now : Datetime} {u : Unit}
    (hok : cancelTx j now s = .ok (u, s')) : s.Refines s' := by
  refine h.refines_of_cases ?_
  unfold cancelTx at hok
  split at hok
  · cases hok
  · next job hjob =>
    have hrow := h.job?_eq_some.mp hjob
    have hid : job.jobId = j := (Db.mem_view_rows.mp (by rw [hrow]; simp)).2
    split_ifs at hok with hcancelled hrunning
    · cases hok
      exact Or.inl rfl
    · -- a running job: its attempt is closed as well
      refine Or.inr ⟨j, ?_⟩
      have hvalid : validateJobTransition job.status .cancelled = .ok () := by rw [hrunning]; rfl
      simp only [hvalid, bind, Except.bind, pure, Except.pure, Except.ok.injEq, Prod.mk.injEq] at hok
      obtain ⟨key, hs⟩ := (h.views j).sound hrow
      obtain ⟨pre, a, hatt, hptr, hopen, hpre⟩ := hs.attempts.running hrunning
      obtain ⟨hnodup, hother, hself⟩ := view_endRun h hrow hatt hopen hpre
        (p := fun r => decide (r.jobId = j)) (fun r hr => of_decide_eq_true hr) (decide_eq_true hid)
        (f := cancelled now) (fun _ => rfl) (g := closeAttempt .cancelled now) (fun _ => rfl)
        (fun _ => rfl) [] [] (by simp) (by simp) (some .running) .cancelled "cancel"
        now (endAttempt s (some a.attemptId) (closeAttempt .cancelled now))
        (by simp only [List.append_nil]; rfl)
      rw [hptr, hrunning] at hok
      rw [← hok.2]
      refine ⟨hnodup, hother, ?_⟩
      rw [hself]
      simp only [List.append_nil]
      exact Lifecycle.Step.cancelRunning job pre a _ now hrow hrunning hatt rfl rfl
    · refine Or.inr ⟨j, ?_⟩
      cases hvalid : validateJobTransition job.status .cancelled with
      | error e => simp [hvalid, bind, Except.bind] at hok
      | ok _ =>
        have hqueued : job.status = .queued := by
          unfold validateJobTransition at hvalid
          revert hvalid hcancelled hrunning
          cases job.status <;> simp [validJobTransitions]
        simp only [hvalid, bind, Except.bind, pure, Except.pure, Except.ok.injEq, Prod.mk.injEq] at hok
        rw [← hok.2]
        refine ⟨h.attempts_nodup, fun i hi => ?_, ?_⟩
        · rw [view_recordTransition, view_updateJobs _ _ _ (f := cancelled now) (fun _ => rfl),
            if_neg hi.symm, updateWhere_rows_other hi.symm fun r hr => of_decide_eq_true hr]
          simp
        · rw [view_recordTransition, view_updateJobs _ _ _ (f := cancelled now) (fun _ => rfl), if_pos rfl,
            hqueued]
          simp only [hrow, Table.updateWhere_singleton, hid, decide_true, if_true]
          exact Lifecycle.Step.cancelQueued job _ now hrow hqueued rfl rfl

/-! ## `reclaim_expired` -/

/-- Reclaiming a job whose row is current releases its run. -/
theorem reclaimOne_moves {s s' : Db} (h : s.Inv) {now : Datetime} {job : JobRow}
    (hrow : (s.view job.jobId).rows = [job]) (hrun : job.status = .running)
    (hok : reclaimOne now job s = .ok s') : s.Moves job.jobId s' := by
  obtain ⟨key, hs⟩ := (h.views job.jobId).sound hrow
  obtain ⟨pre, a, hatt, hptr, hopen, hpre⟩ := hs.attempts.running hrun
  have hvalid : validateJobTransition .running
      (if exhausted job then JobStatus.failed else .queued) = .ok () := by
    split_ifs <;> rfl
  simp only [reclaimOne, hvalid, bind, Except.bind, pure, Except.pure, hptr] at hok
  split at hok
  · cases hok
  · next delay hdelay =>
    split at hok
    · cases hok
    · next availableAt havail =>
      cases hok
      refine moves_release h hrow hrun hatt hopen hpre (fun r hr => of_decide_eq_true hr)
        (decide_eq_true rfl) ?_ (fun _ => rfl) (fun _ => rfl)
        (by decide : AttemptOutcome.leaseExpired ≠ .completed) rfl
      by_cases hex : exhausted job
      · exact Or.inl (if_pos hex)
      · refine Or.inr ⟨if_neg hex, ?_⟩
        simpa [exhausted] using hex

/-- The loop of `reclaim_expired` moves each of the selected jobs once, and no other. The rows it was
given stay current, since no job is selected twice. -/
theorem reclaimAll_refines {now : Datetime} (jobs : List JobRow) :
    ∀ {s s' : Db}, s.Inv → (jobs.map (·.jobId)).Nodup →
      (∀ job ∈ jobs, (s.view job.jobId).rows = [job] ∧ job.status = .running) →
      reclaimAll now jobs s = .ok s' →
      s.Refines s' ∧ ∀ j, j ∉ jobs.map (·.jobId) → s'.view j = s.view j := by
  induction jobs with
  | nil =>
    intro s s' h _ _ hok
    cases hok
    exact ⟨h.refl, fun _ _ => rfl⟩
  | cons job jobs ih =>
    intro s s' h hnodup hcur hok
    obtain ⟨hrow, hrun⟩ := hcur job List.mem_cons_self
    rw [List.map_cons, List.nodup_cons] at hnodup
    unfold reclaimAll at hok
    cases hone : reclaimOne now job s with
    | error e => simp [hone, bind, Except.bind] at hok
    | ok s1 =>
      simp only [hone, bind, Except.bind] at hok
      have hmove := reclaimOne_moves h hrow hrun hone
      have hcur1 : ∀ x ∈ jobs, (s1.view x.jobId).rows = [x] ∧ x.status = .running := by
        intro x hx
        have hne : x.jobId ≠ job.jobId := fun e =>
          hnodup.1 (e ▸ List.mem_map_of_mem hx)
        rw [hmove.other _ hne]
        exact hcur x (List.mem_cons_of_mem _ hx)
      obtain ⟨href, hrest⟩ := ih (hmove.refines.inv h) hnodup.2 hcur1 hok
      refine ⟨⟨href.attempts_nodup, fun j => ?_⟩, fun j hj => ?_⟩
      · by_cases hj : j = job.jobId
        · subst hj
          rw [hrest _ hnodup.1]
          exact Or.inr hmove.self
        · rw [← hmove.other j hj]
          exact href.views j
      · rw [List.map_cons, List.mem_cons, not_or] at hj
        rw [hrest j hj.2, hmove.other j hj.1]

/-- A job has one row. -/
theorem Db.Inv.jobs_nodup {s : Db} (h : s.Inv) : (s.jobs.map (·.jobId)).Nodup := by
  rw [List.nodup_iff_count_le_one]
  intro j
  rw [List.count_eq_length_filter, List.filter_map, List.length_map]
  have hrows : (s.jobs.filter ((· == j) ∘ fun r => r.jobId)) = (s.view j).rows := by
    apply List.filter_congr
    intro r _
    simp [beq_eq_decide]
  rw [hrows]
  rcases h.views j with habs | ⟨row, key, hs⟩
  · rw [habs]
    simp [JobView.absent]
  · rw [hs.rows]
    simp

/-- The selection of `reclaim_expired` has each running job at most once, with its current row. -/
theorem expiredJobs_current {s : Db} (h : s.Inv) (now : Datetime) :
    ((expiredJobs s now).map (·.jobId)).Nodup ∧
      ∀ job ∈ expiredJobs s now, (s.view job.jobId).rows = [job] ∧ job.status = .running := by
  refine ⟨(h.jobs_nodup.sublist ((List.filter_sublist).map _)), fun job hjob => ?_⟩
  obtain ⟨hmem, hcond⟩ := List.mem_filter.mp hjob
  exact ⟨h.view_of_mem hmem, (of_decide_eq_true hcond).1⟩

theorem reclaimTx_refines {s s' : Db} (h : s.Inv) {now : Datetime} {ids : List Uuid}
    (hok : reclaimTx now s = .ok (ids, s')) : s.Refines s' := by
  unfold reclaimTx at hok
  cases hall : reclaimAll now (expiredJobs s now) s with
  | error e => simp [hall, bind, Except.bind] at hok
  | ok s1 =>
    simp only [hall, bind, Except.bind, pure, Except.pure, Except.ok.injEq, Prod.mk.injEq] at hok
    obtain ⟨hnodup, hcur⟩ := expiredJobs_current h now
    rw [← hok.2]
    exact (reclaimAll_refines _ h hnodup hcur hall).1

/-! ## `heartbeat` -/

theorem heartbeatTx_moves {s s' : Db} (h : s.Inv) {j token : Uuid} {leaseSeconds : PyFloat}
    {now : Datetime} {a : AttemptRow} (hok : heartbeatTx j token leaseSeconds now s = .ok (a, s')) :
    s.Moves j s' := by
  unfold heartbeatTx at hok
  cases hlease : activeLease s j token now "heartbeat requires the active, unexpired lease" with
  | error e => simp [hlease, bind, Except.bind] at hok
  | ok b =>
    cases hexp : now.addSeconds leaseSeconds with
    | error e => simp [hlease, hexp, bind, Except.bind] at hok
    | ok expiry =>
      simp only [hlease, hexp, bind, Except.bind, pure, Except.pure, Except.ok.injEq,
        Prod.mk.injEq] at hok
      obtain ⟨row, pre, hrow, hrun, hptr, hatt, hopen, hpre, -, -⟩ := activeLease_spec h hlease
      have hbmem : b ∈ (s.view j).attempts := by rw [hatt]; simp
      have hid : row.jobId = j := (Db.mem_view_rows.mp (by rw [hrow]; simp)).2
      have hpre' : Table.updateWhere (fun x : AttemptRow => decide (x.attemptId = b.attemptId))
          (renewLease expiry) pre = pre := by
        apply Table.updateWhere_eq_self
        intro x hx
        simp only [decide_eq_false_iff_not]
        intro hxid
        have hxmem : x ∈ (s.view j).attempts := by rw [hatt]; simp [hx]
        obtain ⟨rfl, -⟩ := h.attempt_unique hxmem hbmem hxid
        have hspent := (hpre x hx).1
        rw [hopen.1] at hspent
        cases hspent
      have hview : ∀ i, s'.view i = { s.view i with
          attempts := Table.updateWhere (fun x => decide (x.attemptId = b.attemptId))
            (renewLease expiry) (s.view i).attempts
          rows := Table.updateWhere (fun r => decide (r.jobId = j)) (touch now)
            (s.view i).rows } := by
        intro i
        rw [← hok.2, view_updateJobs _ _ _ (f := touch now) (fun _ => rfl),
          view_updateAttempts _ _ _ (f := renewLease expiry) (fun _ => rfl)]
      refine ⟨?_, fun i hi => ?_, ?_⟩
      · rw [← hok.2]
        simp only [Db.updateJobs, Db.updateAttempts]
        rw [Table.map_updateWhere (f := renewLease expiry) _ (fun _ => rfl)]
        exact h.attempts_nodup
      · rw [hview, updateWhere_rows_other hi.symm fun r hr => of_decide_eq_true hr,
          updateWhere_attempts_other h hi.symm hbmem fun x hx => of_decide_eq_true hx]
      · rw [hview]
        simp only [hrow, hatt, Table.updateWhere_append, Table.updateWhere_singleton, hpre', hid,
          decide_true, if_true]
        exact Lifecycle.Step.renew row pre b now expiry hrow hrun hatt

/-! ## `claim` -/

theorem mem_joinKeys {s : Db} {rows : List JobRow} {r : JobRow × String} (h : r ∈ joinKeys s rows) :
    r.1 ∈ rows ∧ ∃ k ∈ s.keysOf r.1.jobId, k.idempotencyKey = r.2 := by
  obtain ⟨row, hrow, hr⟩ := List.mem_flatMap.mp h
  obtain ⟨k, hk, rfl⟩ := List.mem_map.mp hr
  exact ⟨hrow, k, hk, rfl⟩

/-- What `claim` selects is a queued job that is due and has attempts left. -/
theorem mem_claimCandidates {s : Db} {now : Datetime} {row : JobRow}
    (h : row ∈ claimCandidates s now) :
    row ∈ s.jobs ∧ row.status = .queued ∧ row.availableAt ≤ now ∧
      (row.attemptCount : ℤ) < row.maxAttempts := by
  obtain ⟨r, hr, rfl⟩ := List.mem_map.mp h
  obtain ⟨hmem, hcond⟩ := List.mem_filter.mp (mem_joinKeys hr).1
  exact ⟨hmem, of_decide_eq_true hcond⟩

/-- A `claim` that returns finds no row, or one that the update does not hit, or it starts a run of the
first row. -/
theorem claimTx_cases {s s' : Db} {attemptId token : Uuid} {workerId : String}
    {leaseSeconds : PyFloat} {now : Datetime} {res : Option ExecutionAttempt}
    (hok : claimTx attemptId token workerId leaseSeconds now s = .ok (res, s')) :
    (res = none ∧ s' = s ∧ ∀ row, Table.firstBy claimsBefore (claimCandidates s now) = some row →
      (s.jobs.filter fun j => decide (j.jobId = row.jobId ∧ j.status = .queued)).length ≠ 1) ∨
    ∃ row expires attempt s1, Table.firstBy claimsBefore (claimCandidates s now) = some row ∧
      now.addSeconds leaseSeconds = .ok expires ∧
      ExecutionAttempt.validate (newAttempt row attemptId token workerId expires now) = .ok attempt ∧
      (∀ x ∈ s.attempts, x.attemptId ≠ attempt.attemptId) ∧ res = some attempt ∧
      s1 = s.updateJobs (fun j => j.jobId = row.jobId ∧ j.status = .queued) (startRun attemptId now) ∧
      s' = ({ s1 with attempts := s1.attempts ++ [attempt.toAttemptFields] } : Db).recordTransition
        row.jobId (some .queued) .running "claim" now := by
  unfold claimTx at hok
  split at hok
  · next hnone =>
    cases hok
    refine Or.inl ⟨rfl, rfl, fun row hrow => ?_⟩
    rw [hnone] at hrow
    cases hrow
  · next row hfirst =>
    obtain ⟨-, -, hok⟩ := (except_bind_ok_iff _ _ _).mp hok
    obtain ⟨expires, hexpires, hok⟩ := (except_bind_ok_iff _ _ _).mp hok
    obtain ⟨attempt, hattempt, hok⟩ := (except_bind_ok_iff _ _ _).mp hok
    dsimp only at hok
    split_ifs at hok with hcount
    · cases hok
      refine Or.inl ⟨rfl, rfl, fun row' hrow' => ?_⟩
      rw [hfirst] at hrow'
      cases hrow'
      exact hcount
    · obtain ⟨s1, hinsert, hok⟩ := (except_bind_ok_iff _ _ _).mp hok
      unfold Db.insertAttempt at hinsert
      split_ifs at hinsert with hid
      cases hinsert
      cases hok
      refine Or.inr ⟨row, expires, attempt, _, hfirst, hexpires, hattempt, fun x hx he => ?_, rfl, rfl, rfl⟩
      exact hid (List.any_eq_true.mpr ⟨x, hx, decide_eq_true he⟩)

/-- A `claim` that returns an attempt starts a run of a queued job. -/
theorem claimTx_refines {s s' : Db} (h : s.Inv) {attemptId token : Uuid} {workerId : String}
    {leaseSeconds : PyFloat} {now : Datetime} {res : Option ExecutionAttempt}
    (hok : claimTx attemptId token workerId leaseSeconds now s = .ok (res, s')) :
    s.Refines s' := by
  refine h.refines_of_cases ?_
  rcases claimTx_cases hok with ⟨-, rfl, -⟩ |
    ⟨row, expires, attempt, s1, hfirst, -, hattempt, hnew, -, hs1, rfl⟩
  · exact Or.inl rfl
  · obtain ⟨hmem, hstatus, -, -⟩ := mem_claimCandidates (Table.mem_of_firstBy hfirst)
    have hfields := ExecutionAttempt.validate_eq_ok hattempt
    have hview := h.view_of_mem hmem
    have hjob : attempt.jobId = row.jobId := by rw [hfields]; rfl
    have haid : attempt.attemptId = attemptId := by rw [hfields]; rfl
    refine Or.inr ⟨row.jobId, ?_, fun i hi => ?_, ?_⟩
    · rw [hs1]
      exact Table.nodup_append (fun x : AttemptRow => x.attemptId) h.attempts_nodup hnew
    · rw [view_recordTransition, view_addAttempt, hs1,
        view_updateJobs _ _ _ (f := startRun attemptId now) (fun _ => rfl), if_neg hi.symm,
        if_neg (hjob ▸ hi.symm), updateWhere_rows_other hi.symm fun r hr => (of_decide_eq_true hr).1]
      simp only [List.append_nil]
    · rw [view_recordTransition, view_addAttempt, hs1,
        view_updateJobs _ _ _ (f := startRun attemptId now) (fun _ => rfl), if_pos rfl, if_pos hjob]
      simp only [hview, Table.updateWhere_singleton, hstatus, and_self, decide_true, if_true]
      rw [← haid]
      refine Lifecycle.Step.claim row attempt.toAttemptFields _ now hview hstatus ?_ ?_ rfl rfl
      · rw [hfields]; rfl
      · rw [hfields]; exact ⟨rfl, rfl⟩

/-! ## `enqueue` -/

/-- The row of an accepted candidate can be read back, if SQLite could store it. -/
theorem newJobRow_loads {candidate : Job} (hstatus : candidate.status = .queued)
    (hbind : bindPolicy candidate.retryPolicy = .ok ()) : (newJobRow candidate).Loads := by
  unfold bindPolicy at hbind
  split_ifs at hbind with h1 h2 h3
  exact
    { maxAttempts_pos := candidate.retryPolicy.maxAttempts_pos
      backoff_nonneg := candidate.retryPolicy.backoff_nonneg
      maxBackoff_nonneg := candidate.retryPolicy.maxBackoff_nonneg
      backoff_le := candidate.retryPolicy.backoff_le
      backoff_ne_nan := h2
      maxBackoff_ne_nan := h3
      priority_range := candidate.priority_range
      cancelled_iff := by simp [newJobRow, hstatus] }

/-- The rows that a new job adds to `job_tasks`. -/
def newTaskRows (jobId : Uuid) (task : Option TaskContract) : List TaskRow :=
  (task.map fun task => ⟨jobId, task⟩).toList

theorem persistTask_ok {s s' : Db} {j : Uuid} {task : Option TaskContract}
    (h : persistTask s j task = .ok s') : s' = { s with tasks := s.tasks ++ newTaskRows j task } := by
  unfold persistTask at h
  unfold newTaskRows
  cases task with
  | none =>
    cases h
    simp
  | some task =>
    obtain ⟨dumped, hdump, h⟩ := (except_bind_ok_iff _ _ _).mp h
    unfold TaskContract.modelDumpJson at hdump
    split_ifs at hdump
    cases hdump
    unfold Db.insertTask at h
    split_ifs at h
    cases h
    rfl

/-- The transaction of `enqueue` finds the row of the key, or adds the rows of a new job. -/
theorem enqueueTx_cases {s s' : Db} {candidate : Job} {task : Option TaskContract} {now : Datetime}
    {res : Option JobRow} (hok : enqueueTx candidate task now s = .ok (res, s')) :
    (∃ row text, (joinKeys s s.jobs).find? (·.2 = candidate.idempotencyKey) = some (row, text) ∧
      res = some row ∧ s' = s) ∨
    ((joinKeys s s.jobs).find? (·.2 = candidate.idempotencyKey) = none ∧ res = none ∧
      bindPolicy candidate.retryPolicy = .ok () ∧ (∀ r ∈ s.jobs, r.jobId ≠ candidate.jobId) ∧
      s' = ({ s with
          jobs := s.jobs ++ [newJobRow candidate]
          idempotency := s.idempotency ++ [⟨candidate.idempotencyKey, candidate.jobId, now⟩]
          tasks := s.tasks ++ newTaskRows candidate.jobId task } : Db).recordTransition
        candidate.jobId none .queued "enqueue" now) := by
  unfold enqueueTx at hok
  split at hok
  · next row text hfind =>
    cases hok
    exact Or.inl ⟨row, text, hfind, rfl, rfl⟩
  · next hfind =>
    obtain ⟨_, hbind, hok⟩ := (except_bind_ok_iff _ _ _).mp hok
    obtain ⟨s1, h1, hok⟩ := (except_bind_ok_iff _ _ _).mp hok
    obtain ⟨s2, h2, hok⟩ := (except_bind_ok_iff _ _ _).mp hok
    obtain ⟨s3, h3, hend⟩ := (except_bind_ok_iff _ _ _).mp hok
    unfold Db.insertJob at h1
    split_ifs at h1 with hany
    cases h1
    unfold Db.insertKey at h2
    split_ifs at h2
    cases h2
    rw [persistTask_ok h3] at hend
    cases hend
    refine Or.inr ⟨hfind, rfl, hbind, fun r hr heq => ?_, rfl⟩
    exact hany (List.any_eq_true.mpr ⟨r, hr, decide_eq_true heq⟩)

/-- An `enqueue` that returns finds the job of its key, or adds a new job. -/
theorem enqueueTx_refines {s s' : Db} (h : s.Inv) {candidate : Job} {task : Option TaskContract}
    {now : Datetime} {res : Option JobRow} (hstatus : candidate.status = .queued)
    (hok : enqueueTx candidate task now s = .ok (res, s')) :
    s.Refines s' := by
  refine h.refines_of_cases ?_
  rcases enqueueTx_cases hok with ⟨row, text, -, -, rfl⟩ | ⟨-, -, hbind, hnew, rfl⟩
  · exact Or.inl rfl
  · -- no job has the id, so nothing in the database belongs to it
    have habs : s.view candidate.jobId = .absent := by
      rcases h.views candidate.jobId with habs | ⟨row, key, hs⟩
      · exact habs
      · obtain ⟨hmem, hid⟩ := Db.mem_view_rows.mp (by rw [hs.rows]; exact List.mem_singleton_self row)
        exact absurd hid (hnew row hmem)
    have htasks : ∀ x ∈ newTaskRows candidate.jobId task, x.jobId = candidate.jobId := by
      intro x hx
      unfold newTaskRows at hx
      cases task with
      | none => cases hx
      | some task =>
        rw [List.mem_singleton.mp hx]
    have hview : ∀ i, ((({ s with
          jobs := s.jobs ++ [newJobRow candidate]
          idempotency := s.idempotency ++ [⟨candidate.idempotencyKey, candidate.jobId, now⟩]
          tasks := s.tasks ++ newTaskRows candidate.jobId task } : Db).recordTransition
        candidate.jobId none .queued "enqueue" now).view i) = { s.view i with
        rows := (s.view i).rows ++ [newJobRow candidate].filter (·.jobId = i)
        keys := (s.view i).keys ++
          [(⟨candidate.idempotencyKey, candidate.jobId, now⟩ : IdempotencyRow)].filter (·.jobId = i)
        tasks := (s.view i).tasks ++ (newTaskRows candidate.jobId task).filter (·.jobId = i)
        log := (s.view i).log ++
          if candidate.jobId = i then [⟨candidate.jobId, none, .queued, "enqueue", now⟩] else [] } := by
      intro i
      rw [view_recordTransition]
      simp only [Db.view, Db.keysOf, Db.tasksOf, Db.log, Db.attemptsOf, Db.outputsOf, Db.outboxOf,
        List.filter_append]
    refine Or.inr ⟨candidate.jobId, h.attempts_nodup, fun i hi => ?_, ?_⟩
    · have hnone : (newTaskRows candidate.jobId task).filter (fun x => decide (x.jobId = i)) = [] := by
        rw [List.filter_eq_nil_iff]
        intro x hx
        simpa [htasks x hx] using hi.symm
      rw [hview, hnone, if_neg hi.symm]
      simp [newJobRow, hi.symm]
    · have hall : (newTaskRows candidate.jobId task).filter
          (fun x => decide (x.jobId = candidate.jobId)) = newTaskRows candidate.jobId task :=
        List.filter_eq_self.mpr fun x hx => decide_eq_true (htasks x hx)
      rw [hview, hall, habs, if_pos rfl]
      simp only [JobView.absent, List.nil_append]
      have hrow : [newJobRow candidate].filter (fun r => decide (r.jobId = candidate.jobId)) =
          [newJobRow candidate] := by simp [newJobRow]
      have hkeyrow : [(⟨candidate.idempotencyKey, candidate.jobId, now⟩ : IdempotencyRow)].filter
          (fun k => decide (k.jobId = candidate.jobId)) =
          [⟨candidate.idempotencyKey, candidate.jobId, now⟩] := by simp
      rw [hrow, hkeyrow]
      exact Lifecycle.Step.enqueue (newJobRow candidate) _ (newTaskRows candidate.jobId task) _ hstatus rfl
        rfl (newJobRow_loads hstatus hbind) candidate.key_stripped candidate.key_nonempty rfl rfl

/-! ## `acknowledge_completion` -/

/-- Acknowledging changes nothing, or marks the one outbox entry of the job. -/
theorem acknowledge_refines {s : Db} (h : s.Inv) (j : Uuid) (now : Datetime) :
    s.Refines (acknowledgeCompletion j now s) := by
  have hview : ∀ i, (acknowledgeCompletion j now s).view i = { s.view i with
      outbox := Table.updateWhere (fun e => decide (e.jobId = j ∧ e.publishedAt = none))
        (markPublished now) (s.view i).outbox } := by
    intro i
    have hf := Table.filter_updateWhere
      (p := fun e : OutboxRow => decide (e.jobId = j ∧ e.publishedAt = none))
      (f := markPublished now) (q := fun e => decide (e.jobId = i)) (fun e => rfl) s.outbox
    simp only [acknowledgeCompletion, Db.view, Db.outboxOf, hf]
    rfl
  refine ⟨h.attempts_nodup, fun i => ?_⟩
  rw [hview]
  rcases h.views i with habs | ⟨row, key, hs⟩
  · left
    rw [habs]
    rfl
  · -- the outbox of the job is empty or has one entry
    have hbox : (s.view i).outbox = [] ∨ ∃ e, (s.view i).outbox = [e] := by
      by_cases hst : row.status = .completed
      · obtain ⟨-, pre, a, hatt, -, -, -⟩ := hs.attempts.completed hst
        rcases hs.finished hst a (by rw [hatt]; simp) with hnil | ⟨o, -, hnil | ⟨-, -, e, he, -⟩⟩
        · exact Or.inl hnil.2
        · exact Or.inl hnil.2
        · exact Or.inr ⟨e, he⟩
      · exact Or.inl (hs.pending hst).2
    rcases hbox with hnil | ⟨e, he⟩
    · left
      rw [hnil]
      simp only [Table.updateWhere_nil]
      rw [← hnil]
    · by_cases hc : e.jobId = j ∧ e.publishedAt = none
      · right
        rw [he]
        simp only [Table.updateWhere_singleton, hc, and_self, decide_true, if_true]
        exact Lifecycle.Step.acknowledge e now he
      · left
        rw [he]
        simp only [Table.updateWhere_singleton, hc, decide_false, Bool.false_eq_true, if_false]
        rw [← he]

/-! ## All calls -/

/-- What a transaction refines, the method that runs it does: an exception rolls it back. -/
theorem transaction_refines {β α : Type} {body : Db → Except PyError (β × Db)}
    {read : β → Db → Except PyError α} {s : Db} (h : s.Inv)
    (hbody : ∀ b s', body s = .ok (b, s') → s.Refines s') :
    s.Refines (transaction body read s).2 := by
  rcases transaction_state body read s with heq | ⟨b, hb⟩
  · rw [heq]
    exact h.refl
  · exact hbody b _ hb

/-- Every call moves each job at most once. -/
theorem step_refines {s : Db} (h : s.Inv) (call : JobCall) : s.Refines (step call s) := by
  cases call with
  | enqueue jobId taskId task key priority policy now =>
    simp only [step, exec, answer_snd, enqueue]
    split_ifs
    · exact h.refl
    · split
      · exact h.refl
      · next candidate hvalid =>
        exact transaction_refines h fun b s' hb => enqueueTx_refines h (Job.validate_fields hvalid).2.2.1 hb
  | claim attemptId token workerId leaseSeconds now =>
    simp only [step, exec, answer_snd, claim]
    split_ifs
    · exact h.refl
    · exact transaction_refines h fun b s' hb => claimTx_refines h hb
  | heartbeat j token leaseSeconds now =>
    simp only [step, exec, answer_snd, heartbeat]
    split_ifs
    · exact h.refl
    · exact transaction_refines h fun b s' hb => (heartbeatTx_moves h hb).refines
  | complete j token ref result now =>
    simp only [step, exec, answer_snd, complete, finish]
    exact transaction_refines h fun b s' hb => completeTx_refines h hb
  | fail j token error errorCode failureKind now =>
    simp only [step, exec, answer_snd, fail, recordFailure]
    exact transaction_refines h fun b s' hb => (recordFailureTx_moves h hb).refines
  | recordFailure j token error errorCode failureKind retryable now =>
    simp only [step, exec, answer_snd, recordFailure]
    exact transaction_refines h fun b s' hb => (recordFailureTx_moves h hb).refines
  | cancel j now =>
    simp only [step, exec, answer_snd, cancel]
    exact transaction_refines h fun b s' hb => cancelTx_refines h hb
  | reclaimExpired now =>
    simp only [step, exec, answer_snd, reclaimExpired]
    exact transaction_refines h fun b s' hb => reclaimTx_refines h hb
  | pendingCompletions limit => exact h.refl
  | acknowledgeCompletion j now => exact acknowledge_refines h j now

theorem step_inv (call : JobCall) (s : Db) (h : s.Inv) : (step call s).Inv :=
  (step_refines h call).inv h

/-- Every reachable database satisfies the invariant. -/
theorem run_inv (calls : List JobCall) : (run calls).Inv :=
  Machine.run_invariant step_inv calls _ Db.empty_inv

end Galaxz
