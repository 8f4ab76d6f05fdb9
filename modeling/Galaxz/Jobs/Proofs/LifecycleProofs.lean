import Galaxz.Jobs.Lifecycle

/-!
# Proofs: the life of one job

Every move keeps the view of a job well formed, and a job that has ended stays as it ended.
-/

namespace Galaxz

open SqliteJobRepository

/-- A sound view of a running job ends in the open attempt that the row points to. -/
theorem AttemptsFit.running {row : JobRow} {attempts : List AttemptRow} (h : AttemptsFit row attempts)
    (hs : row.status = .running) :
    ∃ pre a, attempts = pre ++ [a] ∧ row.activeAttemptId = some a.attemptId ∧ a.Open ∧
      ∀ x ∈ pre, x.Spent := by
  simpa only [AttemptsFit, hs] using h

/-- A sound view of a queued job has no open attempt. -/
theorem AttemptsFit.queued {row : JobRow} {attempts : List AttemptRow} (h : AttemptsFit row attempts)
    (hs : row.status = .queued) : row.activeAttemptId = none ∧ ∀ x ∈ attempts, x.Spent := by
  simpa only [AttemptsFit, hs] using h

/-- A completed job has one attempt that completed it, its last. -/
theorem AttemptsFit.completed {row : JobRow} {attempts : List AttemptRow} (h : AttemptsFit row attempts)
    (hs : row.status = .completed) :
    row.activeAttemptId = none ∧ ∃ pre a, attempts = pre ++ [a] ∧ a.endedAt.isSome ∧
      a.outcome = some .completed ∧ ∀ x ∈ pre, x.Spent := by
  simpa only [AttemptsFit, hs] using h

/-- All attempts before the last one of a running job are spent, however the list is split. -/
theorem AttemptsFit.split {row : JobRow} {pre : List AttemptRow} {a : AttemptRow}
    (h : AttemptsFit row (pre ++ [a])) (hs : row.status = .running) :
    row.activeAttemptId = some a.attemptId ∧ a.Open ∧ ∀ x ∈ pre, x.Spent := by
  obtain ⟨pre', a', heq, hact, hopen, hpre⟩ := h.running hs
  obtain ⟨rfl, h1⟩ := List.append_inj' heq rfl
  obtain rfl : a = a' := by simpa using h1
  exact ⟨hact, hopen, hpre⟩

/-- One more transition, given by its end points. -/
theorem LogPath.extend {current from' target : JobStatus} {log : List TransitionRow}
    {t : TransitionRow} (h : LogPath current log) (hcur : current = from')
    (hfrom : t.fromStatus = some from') (hto : t.toStatus = target)
    (hvalid : target ∈ validJobTransitions from') : LogPath target (log ++ [t]) := by
  subst hcur hto
  exact LogPath.step t h hfrom hvalid

section Sound

variable {v : JobView} {row : JobRow} {key : IdempotencyRow}

/-- The row of a sound view is the one a move names. -/
theorem JobView.Sound.row_eq (h : v.Sound row key) {r : JobRow} (hr : v.rows = [r]) : r = row := by
  have := h.rows
  rw [hr] at this
  simpa using this

/-- Rewriting the last attempt without renumbering it keeps the numbers. -/
theorem JobView.Sound.numbers_last (h : v.Sound row key) {pre : List AttemptRow} {a b : AttemptRow}
    (ha : v.attempts = pre ++ [a]) (hb : b.attemptNumber = a.attemptNumber) :
    (pre ++ [b]).map (·.attemptNumber) = List.range' 1 row.attemptCount := by
  have hn := h.numbers
  rw [ha] at hn
  simpa [hb] using hn

/-- A well-formed view with a row is sound. -/
theorem JobView.Ok.sound (h : v.Ok) (hr : v.rows = [row]) : ∃ key, v.Sound row key := by
  rcases h with rfl | ⟨row', key, h⟩
  · simp [JobView.absent] at hr
  · obtain rfl := h.row_eq hr
    exact ⟨key, h⟩

end Sound

/-- Every move keeps the view well formed. -/
theorem Lifecycle.Step.ok {v v' : JobView} (h : Lifecycle.Step v v') (hv : v.Ok) : v'.Ok := by
  cases h with
  | enqueue row key tasks t hstatus hcount hactive hloads hstrip hkey hfrom hto =>
    refine Or.inr ⟨row, key, ?_⟩
    exact
      { rows := rfl
        keys := rfl
        key_stripped := hstrip
        key_nonempty := hkey
        loads := hloads
        numbers := by simp [hcount]
        attempts := by simp [AttemptsFit, hstatus, hactive]
        budget := fun _ => by have := hloads.maxAttempts_pos; rw [hcount]; omega
        log := by rw [hstatus]; exact LogPath.start t hfrom hto
        pending := fun _ => ⟨rfl, rfl⟩
        finished := fun h => by rw [hstatus] at h; cases h }
  | claim row a t now hrow hstatus hnumber hopen hfrom hto =>
    obtain ⟨key, hs⟩ := hv.sound hrow
    obtain ⟨hact, hspent⟩ := hs.attempts.queued hstatus
    refine Or.inr ⟨startRun a.attemptId now row, key, ?_⟩
    exact
      { hs with
        rows := rfl
        loads := { hs.loads with
          cancelled_iff := by
            have := hs.loads.cancelled_iff
            simp only [hstatus] at this
            simpa [startRun] using this }
        numbers := by
          simp only [List.map_append, List.map_cons, List.map_nil, hs.numbers, hnumber, startRun]
          rw [List.range'_concat]
          simp [Nat.add_comm]
        attempts := ⟨v.attempts, a, rfl, rfl, hopen, hspent⟩
        budget := fun h => by cases h
        log := hs.log.extend hstatus hfrom hto
          (by show JobStatus.running ∈ validJobTransitions .queued; decide)
        pending := fun _ => hs.pending (by rw [hstatus]; decide)
        finished := fun h => by cases h }
  | renew row pre a now expiry hrow hstatus hattempts =>
    obtain ⟨key, hs⟩ := hv.sound hrow
    have hfit := hs.attempts
    rw [hattempts] at hfit
    obtain ⟨hact, hopen, hpre⟩ := hfit.split hstatus
    refine Or.inr ⟨touch now row, key, ?_⟩
    exact
      { hs with
        rows := rfl
        loads := { hs.loads with }
        numbers := hs.numbers_last hattempts rfl
        attempts := by
          simp only [AttemptsFit, touch, hstatus]
          exact ⟨pre, _, rfl, hact, hopen, hpre⟩
        finished := fun h => by cases hstatus.symm.trans h }
  | complete row pre a t now error outputRef outputs outbox hrow hstatus hattempts hfrom hto hresult =>
    obtain ⟨key, hs⟩ := hv.sound hrow
    have hfit := hs.attempts
    rw [hattempts] at hfit
    obtain ⟨hact, hopen, hpre⟩ := hfit.split hstatus
    refine Or.inr ⟨finishRun .completed now row, key, ?_⟩
    exact
      { hs with
        rows := rfl
        loads := { hs.loads with
          cancelled_iff := by
            have := hs.loads.cancelled_iff
            simp only [hstatus] at this
            simpa [finishRun] using this }
        numbers := hs.numbers_last hattempts rfl
        attempts := ⟨rfl, pre, _, rfl, rfl, rfl, hpre⟩
        budget := fun h => by cases h
        log := hs.log.extend hstatus hfrom hto
          (by show JobStatus.completed ∈ validJobTransitions .running; decide)
        pending := fun h => absurd rfl h
        finished := fun _ b hb => by
          simp only [List.getLast?_append, List.getLast?_singleton, Option.some_or,
            Option.some.injEq] at hb
          subst hb
          exact hresult }
  | release row pre a t now availableAt target outcome failureKind errorCode error hrow hstatus
      hattempts htarget houtcome hfrom hto =>
    obtain ⟨key, hs⟩ := hv.sound hrow
    have hfit := hs.attempts
    rw [hattempts] at hfit
    obtain ⟨hact, hopen, hpre⟩ := hfit.split hstatus
    have hne : target ≠ .completed := by
      rcases htarget with rfl | ⟨rfl, _⟩ <;> decide
    have hspent : ∀ x ∈ pre ++ [{ a with
        endedAt := some now, outcome := some outcome, failureKind, errorCode, error }],
        AttemptFields.Spent x := by
      intro x hx
      rcases List.mem_append.mp hx with hx | hx
      · exact hpre x hx
      · rw [List.mem_singleton.mp hx]
        exact ⟨rfl, rfl, by simpa using houtcome⟩
    refine Or.inr ⟨requeue target now availableAt row, key, ?_⟩
    exact
      { hs with
        rows := rfl
        loads := { hs.loads with
          cancelled_iff := by
            have := hs.loads.cancelled_iff
            simp only [hstatus] at this
            rcases htarget with rfl | ⟨rfl, _⟩ <;> simpa [requeue] using this }
        numbers := hs.numbers_last hattempts rfl
        attempts := by
          rcases htarget with rfl | ⟨rfl, _⟩
          · exact ⟨rfl, hspent⟩
          · exact ⟨rfl, hspent⟩
        budget := fun h => by
          rcases htarget with rfl | ⟨_, hlt⟩
          · cases h
          · exact hlt
        log := by
          refine hs.log.extend hstatus hfrom hto ?_
          rcases htarget with rfl | ⟨rfl, _⟩ <;> simp [requeue, validJobTransitions]
        pending := fun _ => hs.pending (by rw [hstatus]; decide)
        finished := fun h => absurd h hne }
  | cancelRunning row pre a t now hrow hstatus hattempts hfrom hto =>
    obtain ⟨key, hs⟩ := hv.sound hrow
    have hfit := hs.attempts
    rw [hattempts] at hfit
    obtain ⟨hact, hopen, hpre⟩ := hfit.split hstatus
    refine Or.inr ⟨cancelled now row, key, ?_⟩
    exact
      { hs with
        rows := rfl
        loads := { hs.loads with cancelled_iff := by simp [cancelled] }
        numbers := hs.numbers_last hattempts rfl
        attempts := by
          refine ⟨rfl, fun x hx => ?_⟩
          rcases List.mem_append.mp hx with hx | hx
          · exact hpre x hx
          · rw [List.mem_singleton.mp hx]
            exact ⟨rfl, rfl, by simp [closeAttempt]⟩
        budget := fun h => by cases h
        log := hs.log.extend hstatus hfrom hto
          (by show JobStatus.cancelled ∈ validJobTransitions .running; decide)
        pending := fun _ => hs.pending (by rw [hstatus]; decide)
        finished := fun h => by cases h }
  | cancelQueued row t now hrow hstatus hfrom hto =>
    obtain ⟨key, hs⟩ := hv.sound hrow
    obtain ⟨hact, hspent⟩ := hs.attempts.queued hstatus
    refine Or.inr ⟨cancelled now row, key, ?_⟩
    exact
      { hs with
        rows := rfl
        loads := { hs.loads with cancelled_iff := by simp [cancelled] }
        attempts := ⟨rfl, hspent⟩
        budget := fun h => by cases h
        log := hs.log.extend hstatus hfrom hto
          (by show JobStatus.cancelled ∈ validJobTransitions .queued; decide)
        pending := fun _ => hs.pending (by rw [hstatus]; decide)
        finished := fun h => by cases h }
  | acknowledge e now houtbox =>
    rcases hv with rfl | ⟨row, key, hs⟩
    · simp [JobView.absent] at houtbox
    · refine Or.inr ⟨row, key, { hs with pending := ?_, finished := ?_ }⟩
      · intro h
        have := (hs.pending h).2
        rw [houtbox] at this
        cases this
      · intro h a ha
        rcases hs.finished h a ha with ⟨_, hnil⟩ | ⟨o, ho, hfit⟩
        · rw [houtbox] at hnil
          cases hnil
        · refine Or.inr ⟨o, ho, ?_⟩
          rcases hfit with ⟨_, hnil⟩ | ⟨hev, htasks, e', he', hid⟩
          · rw [houtbox] at hnil
            cases hnil
          · rw [houtbox] at he'
            obtain rfl : e = e' := by simpa using he'
            exact Or.inr ⟨hev, htasks, _, rfl, hid⟩

/-! ## Proofs: what statements do to the views

Each SQL statement, seen from one job. A statement that names another job's rows leaves the view
alone; attempts are found by `attempt_id`, so this needs that ids are not shared between jobs.
-/

/-- The invariant of the database: attempt ids are distinct, and every view is well formed. -/
structure Db.Inv (s : Db) : Prop where
  attempts_nodup : (s.attempts.map (·.attemptId)).Nodup
  views : ∀ j, (s.view j).Ok

/-- `s'` comes from `s` by at most one move of each job. -/
structure Db.Refines (s s' : Db) : Prop where
  attempts_nodup : (s'.attempts.map (·.attemptId)).Nodup
  views : ∀ j, s'.view j = s.view j ∨ Lifecycle.Step (s.view j) (s'.view j)

theorem Db.Inv.refl {s : Db} (h : s.Inv) : s.Refines s := ⟨h.attempts_nodup, fun _ => Or.inl rfl⟩

/-- Moves keep the invariant. -/
theorem Db.Refines.inv {s s' : Db} (h : s.Refines s') (hs : s.Inv) : s'.Inv := by
  refine ⟨h.attempts_nodup, fun j => ?_⟩
  rcases h.views j with heq | hstep
  · rw [heq]; exact hs.views j
  · exact hstep.ok (hs.views j)

theorem Db.empty_inv : Db.empty.Inv := ⟨by simp [Db.empty], fun _ => Or.inl rfl⟩

/-! ### Membership -/

theorem Db.mem_view_rows {s : Db} {j : Uuid} {r : JobRow} :
    r ∈ (s.view j).rows ↔ r ∈ s.jobs ∧ r.jobId = j := by
  simp [Db.view]

theorem Db.mem_view_attempts {s : Db} {j : Uuid} {a : AttemptRow} :
    a ∈ (s.view j).attempts ↔ a ∈ s.attempts ∧ a.jobId = j := by
  simp [Db.view, Db.attemptsOf]

/-- A row of the table is the one row of its view. -/
theorem Db.Inv.view_of_mem {s : Db} (h : s.Inv) {r : JobRow} (hr : r ∈ s.jobs) :
    (s.view r.jobId).rows = [r] := by
  have hmem : r ∈ (s.view r.jobId).rows := Db.mem_view_rows.mpr ⟨hr, rfl⟩
  rcases h.views r.jobId with habs | ⟨row, key, hs⟩
  · rw [habs] at hmem
    cases hmem
  · rw [hs.rows] at hmem ⊢
    rw [List.mem_singleton.mp hmem]

/-- `SELECT .. WHERE job_id = ?` finds the row of the view. -/
theorem Db.Inv.job?_eq_some {s : Db} (h : s.Inv) {j : Uuid} {r : JobRow} :
    s.job? j = some r ↔ (s.view j).rows = [r] := by
  constructor
  · intro hj
    have hmem := List.mem_of_find?_eq_some hj
    have hid : r.jobId = j := by simpa using List.find?_some hj
    rw [← hid]
    exact h.view_of_mem hmem
  · intro hj
    unfold Db.job?
    rw [← List.head?_filter]
    exact congrArg List.head? hj

theorem Db.Inv.job?_eq_none {s : Db} (h : s.Inv) {j : Uuid} :
    s.job? j = none ↔ s.view j = .absent := by
  constructor
  · intro hj
    rcases h.views j with habs | ⟨row, key, hs⟩
    · exact habs
    · rw [h.job?_eq_some.mpr hs.rows] at hj
      cases hj
  · intro hj
    unfold Db.job?
    rw [← List.head?_filter]
    have : s.jobs.filter (fun r => decide (r.jobId = j)) = [] := congrArg JobView.rows hj
    rw [this]
    rfl

/-- An attempt of one job is not an attempt of another, not even by id. -/
theorem Db.Inv.attempt_unique {s : Db} (h : s.Inv) {i j : Uuid} {a b : AttemptRow}
    (ha : a ∈ (s.view i).attempts) (hb : b ∈ (s.view j).attempts) (hid : a.attemptId = b.attemptId) :
    a = b ∧ i = j := by
  obtain ⟨ha, hai⟩ := Db.mem_view_attempts.mp ha
  obtain ⟨hb, hbj⟩ := Db.mem_view_attempts.mp hb
  have heq := Table.eq_of_key (·.attemptId) h.attempts_nodup ha hb hid
  exact ⟨heq, by rw [← hai, ← hbj, heq]⟩

/-! ### Statements -/

section Statements

variable (s : Db) (j : Uuid)

theorem view_updateJobs (p : JobRow → Bool) {f : JobRow → JobRow} (hf : ∀ r, (f r).jobId = r.jobId) :
    (s.updateJobs p f).view j =
      { s.view j with rows := Table.updateWhere p f (s.view j).rows } := by
  have h := Table.filter_updateWhere (p := p) (f := f) (q := fun r => decide (r.jobId = j))
    (fun r => by simp only [hf r]) s.jobs
  simp only [Db.view, Db.updateJobs, h]
  rfl

theorem view_updateAttempts (p : AttemptRow → Bool) {f : AttemptRow → AttemptRow}
    (hf : ∀ a, (f a).jobId = a.jobId) :
    (s.updateAttempts p f).view j =
      { s.view j with attempts := Table.updateWhere p f (s.view j).attempts } := by
  have h := Table.filter_updateWhere (p := p) (f := f) (q := fun a => decide (a.jobId = j))
    (fun a => by simp only [hf a]) s.attempts
  simp only [Db.view, Db.updateAttempts, Db.attemptsOf, h]
  rfl

theorem view_recordTransition (i : Uuid) (c : Option JobStatus) (t : JobStatus) (r : String)
    (now : Datetime) :
    (s.recordTransition i c t r now).view j =
      { s.view j with
        log := (s.view j).log ++ if i = j then [⟨i, c, t, r, now⟩] else [] } := by
  have h : [(⟨i, c, t, r, now⟩ : TransitionRow)].filter (fun x => decide (x.jobId = j)) =
      if i = j then [⟨i, c, t, r, now⟩] else [] := by
    by_cases h : i = j <;> simp [h]
  simp only [Db.view, Db.recordTransition, Db.log, List.filter_append, h]
  rfl

/-- Adding results and outbox entries of a job. -/
theorem view_addResults (outs : List OutputRow) (box : List OutboxRow) :
    ({ s with outputs := s.outputs ++ outs, outbox := s.outbox ++ box } : Db).view j =
      { s.view j with
        outputs := (s.view j).outputs ++ outs.filter (·.jobId = j)
        outbox := (s.view j).outbox ++ box.filter (·.jobId = j) } := by
  simp only [Db.view, Db.outputsOf, Db.outboxOf, List.filter_append]
  rfl

theorem view_addAttempt (a : AttemptRow) :
    ({ s with attempts := s.attempts ++ [a] } : Db).view j =
      { s.view j with attempts := (s.view j).attempts ++ if a.jobId = j then [a] else [] } := by
  have h : [a].filter (fun x => decide (x.jobId = j)) = if a.jobId = j then [a] else [] := by
    by_cases h : a.jobId = j <;> simp [h]
  simp only [Db.view, Db.attemptsOf, List.filter_append, h]
  rfl

end Statements

/-- An update of another job's row is not seen. -/
theorem updateWhere_rows_other {s : Db} {i j : Uuid} (hij : i ≠ j) {p : JobRow → Bool}
    {f : JobRow → JobRow} (hp : ∀ r, p r = true → r.jobId = i) :
    Table.updateWhere p f (s.view j).rows = (s.view j).rows := by
  apply Table.updateWhere_eq_self
  intro r hr
  have hrj := (Db.mem_view_rows.mp hr).2
  by_contra hne
  exact hij ((hp r (by simpa using hne)).symm.trans hrj)

/-- An update of an attempt of another job is not seen. -/
theorem updateWhere_attempts_other {s : Db} (h : s.Inv) {i j : Uuid} (hij : i ≠ j) {a : AttemptRow}
    (ha : a ∈ (s.view i).attempts) {p : AttemptRow → Bool} {f : AttemptRow → AttemptRow}
    (hp : ∀ x, p x = true → x.attemptId = a.attemptId) :
    Table.updateWhere p f (s.view j).attempts = (s.view j).attempts := by
  apply Table.updateWhere_eq_self
  intro x hx
  by_contra hne
  have hid := hp x (by simpa using hne)
  exact hij (h.attempt_unique ha hx hid.symm).2

end Galaxz
