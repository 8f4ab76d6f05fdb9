import Galaxz.Jobs.Proofs.RefusalProofs

/-!
# Proofs: one execution of a worker

A step of an execution makes at most one call, under its lease. What an execution completed is completed for good; an
execution that was cancelled, or that has ended, is given up only once its lease is over.
-/

namespace Galaxz

open SqliteJobRepository

namespace DurableWorker

/-! ## Steps of an execution -/

section Executions

variable {s s' : Db} {e e' : Execution} {t : Option Datetime} {now : Datetime}

/-- A step of an execution, with the clock reading of its call. -/
inductive Execution.Moves (s : Db) (e : Execution) : Option Datetime → Execution → Db → Prop
  | read : Moves s e none (e.read s) s
  | run (outcome : Outcome) : Moves s e none (e.run outcome) s
  | settle (now : Datetime) : Moves s e (some now) (e.settle now s).1 (e.settle now s).2
  | wake : Moves s e none e.wake s
  | check : Moves s e none (e.check s) s
  | beat (leaseSeconds : PyFloat) (now : Datetime) :
    Moves s e (some now) (e.beat leaseSeconds now s).1 (e.beat leaseSeconds now s).2
  | finish : Moves s e none e.finish s

/-- Both are the same execution. -/
structure Execution.Same (e e' : Execution) : Prop where
  jobId : e'.jobId = e.jobId
  attemptId : e'.attemptId = e.attemptId
  leaseToken : e'.leaseToken = e.leaseToken

/-- The step is none of `_execute`. -/
structure Execution.Waits (e e' : Execution) : Prop extends e.Same e' where
  phase : e'.phase = e.phase
  task : e'.task = e.task

theorem Execution.Same.refl (e : Execution) : e.Same e := ⟨rfl, rfl, rfl⟩

theorem Execution.Waits.refl (e : Execution) : e.Waits e := ⟨.refl e, rfl, rfl⟩

theorem Execution.waits_wake (e : Execution) : e.Waits e.wake := by
  unfold Execution.wake
  split
  · exact ⟨⟨rfl, rfl, rfl⟩, rfl, rfl⟩
  · exact .refl e

theorem Execution.waits_check (s : Db) (e : Execution) : e.Waits (e.check s) := by
  unfold Execution.check
  split
  · split
    · exact ⟨⟨rfl, rfl, rfl⟩, rfl, rfl⟩
    · exact ⟨⟨rfl, rfl, rfl⟩, rfl, rfl⟩
    · split_ifs
      · exact ⟨⟨rfl, rfl, rfl⟩, rfl, rfl⟩
      · exact ⟨⟨rfl, rfl, rfl⟩, rfl, rfl⟩
  · exact .refl e

theorem Execution.waits_heard (answer : Except PyError JobValue) (e : Execution) : e.Waits (e.heard answer) := by
  unfold Execution.heard
  split
  · exact ⟨⟨rfl, rfl, rfl⟩, rfl, rfl⟩
  · split_ifs
    · exact ⟨⟨rfl, rfl, rfl⟩, rfl, rfl⟩
    · exact ⟨⟨rfl, rfl, rfl⟩, rfl, rfl⟩

theorem Execution.waits_beat (leaseSeconds : PyFloat) (now : Datetime) (s : Db) (e : Execution) :
    e.Waits (e.beat leaseSeconds now s).1 := by
  unfold Execution.beat
  split
  · exact e.waits_heard _
  · exact .refl e

theorem Execution.waits_finish (e : Execution) : e.Waits e.finish := by
  unfold Execution.finish
  split_ifs
  · exact ⟨⟨rfl, rfl, rfl⟩, rfl, rfl⟩
  · exact .refl e

theorem Execution.same_read (s : Db) (e : Execution) : e.Same (e.read s) := by
  unfold Execution.read
  split
  · split
    · exact ⟨rfl, rfl, rfl⟩
    · exact ⟨rfl, rfl, rfl⟩
  · exact .refl e

theorem Execution.run_eq (outcome : Outcome) (e : Execution) :
    e.run outcome = e ∨
      e.phase = .executing ∧ e.run outcome = { e with phase := leaveExecutor outcome e.cancelled } := by
  unfold Execution.run
  split
  · next hphase => exact Or.inr ⟨hphase, rfl⟩
  · exact Or.inl rfl

theorem Execution.settle_eq (now : Datetime) (s : Db) (e : Execution) :
    e.settle now s = (e, s) ∨ ∃ call, e.settlement now = some call ∧
      e.settle now s = ({ e with phase := settledPhase (exec call s).1 e.phase }, step call s) := by
  unfold Execution.settle
  split
  · exact Or.inl rfl
  · next call hcall => exact Or.inr ⟨call, hcall, rfl⟩

/-- The call that settles a job is made under the lease of the execution. -/
theorem Execution.settlement_lease {call : JobCall} (h : e.settlement now = some call) :
    call.lease? = some (e.jobId, e.leaseToken, now) := by
  unfold Execution.settlement at h
  split at h
  all_goals
    cases h
    try rfl

theorem Execution.beat_eq (leaseSeconds : PyFloat) (now : Datetime) (s : Db) (e : Execution) :
    e.beat leaseSeconds now s = (e, s) ∨
      e.beat leaseSeconds now s = (e.heard (exec (.heartbeat e.jobId e.leaseToken leaseSeconds now) s).1,
        step (.heartbeat e.jobId e.leaseToken leaseSeconds now) s) := by
  unfold Execution.beat
  split
  · exact Or.inr rfl
  · exact Or.inl rfl

/-- A step of an execution makes at most one call, under its lease and at its clock reading. -/
theorem Execution.Moves.jobs (h : e.Moves s t e' s') :
    s' = s ∨ ∃ call token now, s' = step call s ∧ call.lease? = some (e.jobId, token, now) ∧ t = some now := by
  cases h with
  | settle now =>
    rcases e.settle_eq now s with heq | ⟨call, hcall, heq⟩
    · exact Or.inl (congrArg Prod.snd heq)
    · exact Or.inr ⟨call, e.leaseToken, now, congrArg Prod.snd heq, e.settlement_lease hcall, rfl⟩
  | beat leaseSeconds now =>
    rcases e.beat_eq leaseSeconds now s with heq | heq
    · exact Or.inl (congrArg Prod.snd heq)
    · exact Or.inr ⟨_, e.leaseToken, now, congrArg Prod.snd heq, rfl, rfl⟩
  | _ => exact Or.inl rfl

theorem Execution.Moves.same (h : e.Moves s t e' s') : e.Same e' := by
  cases h with
  | read => exact e.same_read s
  | run outcome =>
    rcases e.run_eq outcome with heq | ⟨-, heq⟩
    · rw [heq]
      exact .refl e
    · rw [heq]
      exact ⟨rfl, rfl, rfl⟩
  | settle now =>
    rcases e.settle_eq now s with heq | ⟨call, -, heq⟩
    · rw [heq]
      exact .refl e
    · rw [heq]
      exact ⟨rfl, rfl, rfl⟩
  | wake => exact e.waits_wake.toSame
  | check => exact (e.waits_check s).toSame
  | beat leaseSeconds now => exact (e.waits_beat leaseSeconds now s).toSame
  | finish => exact e.waits_finish.toSame

/-! ## What holds of an execution -/

/-- The phases that follow a task. -/
def Phase.hasTask : Phase → Bool
  | .executing | .completing _ | .ended (.completed _) => true
  | _ => false

/-- What holds of an execution at all times: its attempt was started under its token, it was given the task of its job,
and what it completed is completed. -/
structure Execution.Ok (s : Db) (e : Execution) : Prop where
  attempt : s.HasAttempt e.jobId e.attemptId e.leaseToken
  task : ∀ t, e.task = some t →
    ∃ task, getTask s e.jobId = some task ∧ t = { task with executionAttemptId := some e.attemptId }
  given : e.phase.hasTask = true → e.task.isSome = true
  completed : ∀ result, e.phase = .ended (.completed result) →
    s.Completed e.jobId e.leaseToken ("job-output:" ++ e.jobId.text) (some result)

/-- No call of anybody changes that. -/
theorem Execution.Ok.step (hinv : s.Inv) (h : e.Ok s) (call : JobCall) : e.Ok (SqliteJobRepository.step call s) where
  attempt := h.attempt.step hinv call
  task t ht := by
    obtain ⟨task, htask, rfl⟩ := h.task t ht
    exact ⟨task, step_getTask hinv call htask, rfl⟩
  given := h.given
  completed result hphase := (h.completed result hphase).keeps (step_keepsFinished call s hinv) hinv

theorem Execution.Ok.waits (h : e.Ok s) (hwaits : e.Waits e') : e'.Ok s := by
  obtain ⟨⟨hjob, hattempt, htoken⟩, hphase, htask⟩ := hwaits
  refine ⟨?_, ?_, ?_, ?_⟩
  · rw [hjob, hattempt, htoken]
    exact h.attempt
  · rw [hjob, hattempt, htask]
    exact h.task
  · rw [hphase, htask]
    exact h.given
  · rw [hjob, htoken, hphase]
    exact h.completed

theorem Execution.Ok.read (h : e.Ok s) : (e.read s).Ok s := by
  unfold Execution.read
  split
  · split
    · exact ⟨h.attempt, h.task, nofun, nofun⟩
    · next task htask =>
      refine ⟨h.attempt, fun t ht => ?_, fun _ => rfl, nofun⟩
      exact ⟨task, htask, (Option.some.inj ht).symm⟩
  · exact h

theorem Execution.Ok.run (h : e.Ok s) (outcome : Outcome) : (e.run outcome).Ok s := by
  rcases e.run_eq outcome with heq | ⟨hphase, heq⟩
  · rw [heq]
    exact h
  · have hgiven := h.given (by rw [hphase]; rfl)
    rw [heq]
    refine ⟨h.attempt, h.task, fun _ => hgiven, fun result hdone => ?_⟩
    -- no outcome of the executor ends the execution as completed
    exfalso
    cases outcome with
    | returned result =>
      dsimp only [leaveExecutor] at hdone
      split_ifs at hdone
      cases hdone
    | _ => cases hdone

/-- Where the answer of the settling call leads. -/
theorem Execution.settled_cases (e : Execution) (answer : Except PyError JobValue) (hcall : (e.settlement now).isSome) :
    (∃ result v, e.phase = .completing result ∧ answer = .ok v ∧
        settledPhase answer e.phase = .ended (.completed result)) ∨
    (∃ result x, e.phase = .completing result ∧ answer = .error x ∧ x.isConflict = false ∧
        settledPhase answer e.phase = .recording x.text "permanent" false) ∨
    (∃ v, answer = .ok v ∧ settledPhase answer e.phase = .ended .failed ∧ ∀ result, e.phase ≠ .completing result) ∨
    (∃ x, answer = .error x ∧ x.isConflict = true ∧ settledPhase answer e.phase = .ended .discarded) ∨
    ∃ x, answer = .error x ∧ settledPhase answer e.phase = .ended (.raised x) := by
  unfold Execution.settlement at hcall
  cases hphase : e.phase with
  | starting => rw [hphase] at hcall; cases hcall
  | executing => rw [hphase] at hcall; cases hcall
  | ended ending => rw [hphase] at hcall; cases hcall
  | missing =>
    cases answer with
    | ok v => exact Or.inr (Or.inr (Or.inl ⟨v, rfl, rfl, nofun⟩))
    | error x => exact Or.inr (Or.inr (Or.inr (Or.inr ⟨x, rfl, rfl⟩)))
  | completing result =>
    cases answer with
    | ok v => exact Or.inl ⟨result, v, rfl, rfl, rfl⟩
    | error x =>
      cases hx : x.isConflict with
      | false => exact Or.inr (Or.inl ⟨result, x, rfl, rfl, hx, by simp [settledPhase, hx]⟩)
      | true => exact Or.inr (Or.inr (Or.inr (Or.inl ⟨x, rfl, hx, by simp [settledPhase, hx]⟩)))
  | recording error errorCode retryable =>
    cases answer with
    | ok v => exact Or.inr (Or.inr (Or.inl ⟨v, rfl, rfl, nofun⟩))
    | error x =>
      cases hx : x.isConflict with
      | false => exact Or.inr (Or.inr (Or.inr (Or.inr ⟨x, rfl, by simp [settledPhase, hx]⟩)))
      | true => exact Or.inr (Or.inr (Or.inr (Or.inl ⟨x, rfl, hx, by simp [settledPhase, hx]⟩)))

theorem Execution.settlement_completing {result : PyDict} (hphase : e.phase = .completing result) (now : Datetime) :
    e.settlement now =
      some (.complete e.jobId e.leaseToken ("job-output:" ++ e.jobId.text) (some result) now) := by
  unfold Execution.settlement
  rw [hphase]

/-- A `complete` call that returned has completed the job. -/
theorem exec_complete_completed (hinv : s.Inv) {j token : Uuid} {ref : String} {result : PyDict} {v : JobValue}
    (hok : (exec (.complete j token ref (some result) now) s).1 = .ok v) :
    (step (.complete j token ref (some result) now) s).Completed j token ref (some result) := by
  cases hanswer : (complete j token ref (some result) now s).1 with
  | error x =>
    rw [exec, answer, hanswer] at hok
    cases hok
  | ok job => exact complete_completed hinv hanswer

theorem Execution.Ok.settle (hinv : s.Inv) (h : e.Ok s) (now : Datetime) :
    (e.settle now s).1.Ok (e.settle now s).2 := by
  rcases e.settle_eq now s with heq | ⟨call, hcall, heq⟩
  · rw [heq]
    exact h
  · rw [heq]
    have hstep := h.step hinv call
    have hsome : (e.settlement now).isSome := by rw [hcall]; rfl
    rcases e.settled_cases (exec call s).1 hsome with ⟨result, v, hphase, hok, hnext⟩ | ⟨result, x, -, -, -, hnext⟩ |
      ⟨v, -, hnext, -⟩ | ⟨x, -, -, hnext⟩ | ⟨x, -, hnext⟩
    · rw [hnext]
      refine ⟨hstep.attempt, hstep.task, fun _ => h.given (by rw [hphase]; rfl), fun result' hdone => ?_⟩
      cases hdone
      rw [Execution.settlement_completing hphase] at hcall
      cases hcall
      exact exec_complete_completed hinv hok
    all_goals
      rw [hnext]
      exact ⟨hstep.attempt, hstep.task, nofun, nofun⟩

theorem Execution.Ok.moves (hinv : s.Inv) (h : e.Ok s) (hmoves : e.Moves s t e' s') : e'.Ok s' := by
  cases hmoves with
  | read => exact h.read
  | run outcome => exact h.run outcome
  | settle now => exact h.settle hinv now
  | wake => exact h.waits e.waits_wake
  | check => exact h.waits (e.waits_check s)
  | beat leaseSeconds now =>
    have hwaits := e.waits_beat leaseSeconds now s
    rcases e.beat_eq leaseSeconds now s with heq | heq
    · rw [heq] at hwaits ⊢
      exact h
    · rw [heq] at hwaits ⊢
      exact (h.step hinv _).waits hwaits
  | finish => exact h.waits e.waits_finish

/-! ## Leases of executions that are given up -/

/-- The lease of an execution is over once it is cancelled, and once it has ended, unless it was abandoned. -/
structure Execution.Released (s : Db) (now : Datetime) (e : Execution) : Prop where
  cancelled : e.cancelled = true → s.LeaseOver e.leaseToken now
  ended : e.isOver = true → e.Abandoned ∨ s.LeaseOver e.leaseToken now

theorem Execution.Released.step (hinv : s.Inv) (h : e.Released s now) (call : JobCall)
    (hnow : ∀ t, call.now? = some t → now ≤ t) : e.Released (SqliteJobRepository.step call s) now where
  cancelled hcancelled := (h.cancelled hcancelled).step hinv call hnow
  ended hover := (h.ended hover).imp id fun hlease => hlease.step hinv call hnow

theorem Execution.Released.mono {later : Datetime} (h : e.Released s now) (hle : now ≤ later) : e.Released s later where
  cancelled hcancelled := (h.cancelled hcancelled).mono hle
  ended hover := (h.ended hover).imp id fun hlease => hlease.mono hle

/-- The lease is over, whatever the execution does. -/
theorem Execution.Released.of_leaseOver (h : s.LeaseOver e.leaseToken now) : e.Released s now :=
  ⟨fun _ => h, fun _ => Or.inr h⟩

theorem Execution.Released.congr (h : e.Released s now) (htoken : e'.leaseToken = e.leaseToken)
    (hphase : e'.phase = e.phase) (hcancelled : e'.cancelled = e.cancelled) : e'.Released s now := by
  obtain ⟨hlease, hover⟩ := h
  unfold Execution.isOver Execution.Abandoned at hover
  refine ⟨?_, ?_⟩
  · rw [htoken, hcancelled]
    exact hlease
  · unfold Execution.isOver Execution.Abandoned
    rw [htoken, hphase, hcancelled]
    exact hover

/-- A step to a phase in which the execution runs on, or has been abandoned. -/
theorem Execution.Released.toPhase (h : e.Released s now) {phase : Phase}
    (hphase : Execution.isOver { e with phase } = true → Execution.Abandoned { e with phase } ∨ e.cancelled = true) :
    Execution.Released s now { e with phase } where
  cancelled := h.cancelled
  ended hover := (hphase hover).imp id fun hcancelled => h.cancelled hcancelled

theorem Execution.Released.read (h : e.Released s now) : (e.read s).Released s now := by
  unfold Execution.read
  split
  · split
    · exact ⟨h.cancelled, nofun⟩
    · exact ⟨h.cancelled, nofun⟩
  · exact h

theorem Execution.Released.run (h : e.Released s now) (outcome : Outcome) : (e.run outcome).Released s now := by
  rcases e.run_eq outcome with heq | ⟨-, heq⟩
  · rw [heq]
    exact h
  · rw [heq]
    refine h.toPhase fun hover => ?_
    cases outcome with
    | returned result =>
      dsimp only [leaveExecutor] at hover ⊢
      split_ifs at hover with hcancelled
      · exact Or.inr hcancelled
      · cases hover
    | cancelled =>
      by_cases hcancelled : e.cancelled = true
      · exact Or.inr hcancelled
      · exact Or.inl ((Bool.not_eq_true _).mp hcancelled)
    | retryable message errorCode => cases hover
    | conflict => exact Or.inl trivial
    | raised message => cases hover

/-- After a call under a lease, what was known of the lease is known still. -/
theorem Execution.Released.call (hinv : s.Inv) (h : e.Released s now) {call : JobCall} {j token : Uuid}
    (hlease : call.lease? = some (j, token, now)) : e.Released (SqliteJobRepository.step call s) now := by
  refine h.step hinv call fun t ht => ?_
  rw [now?_of_lease hlease] at ht
  cases ht
  exact Nat.le_refl _

/-- Every settling call but `complete` records a failure. -/
theorem Execution.settlement_failure {call : JobCall} (hcall : e.settlement now = some call)
    (hnot : ∀ result, e.phase ≠ .completing result) : ∃ error errorCode failureKind retryable,
      call = .recordFailure e.jobId e.leaseToken error errorCode failureKind retryable now := by
  unfold Execution.settlement at hcall
  split at hcall
  · cases hcall
    exact ⟨_, _, _, _, rfl⟩
  · next result hphase => exact absurd hphase (hnot result)
  · cases hcall
    exact ⟨_, _, _, _, rfl⟩
  all_goals cases hcall

/-- An execution that completes its job has the task of the job. -/
theorem Execution.Ok.tasks (h : e.Ok s) {call : JobCall} (hcall : e.settlement now = some call)
    (hcompletes : call.completes = true) : s.tasksOf e.jobId ≠ [] := by
  have hphase : ∃ result, e.phase = .completing result := by
    by_contra hnot
    rw [not_exists] at hnot
    obtain ⟨_, _, _, _, rfl⟩ := Execution.settlement_failure hcall hnot
    cases hcompletes
  obtain ⟨result, hphase⟩ := hphase
  obtain ⟨t, ht⟩ := Option.isSome_iff_exists.mp (h.given (by rw [hphase]; rfl))
  obtain ⟨task, htask, -⟩ := h.task t ht
  unfold getTask at htask
  rw [← List.head?_filter] at htask
  intro hnone
  unfold Db.tasksOf at hnone
  rw [hnone] at htask
  cases htask

theorem exec_recordFailure_leaseOver (hinv : s.Inv) {j token : Uuid} {error errorCode failureKind : String}
    {retryable : Bool} {v : JobValue}
    (hok : (exec (.recordFailure j token error errorCode failureKind retryable now) s).1 = .ok v) (later : Datetime) :
    (SqliteJobRepository.step (.recordFailure j token error errorCode failureKind retryable now) s).LeaseOver token
      later := by
  cases hanswer : (recordFailure j token error errorCode failureKind retryable now s).1 with
  | error x =>
    rw [exec, answer, hanswer] at hok
    cases hok
  | ok job => exact recordFailure_leaseOver hinv hanswer later

theorem Execution.Released.settle (hinv : s.Inv) (hok : e.Ok s) (h : e.Released s now) :
    (e.settle now s).1.Released (e.settle now s).2 now := by
  rcases e.settle_eq now s with heq | ⟨call, hcall, heq⟩
  · rw [heq]
    exact h
  · have hlease := e.settlement_lease hcall
    have hsome : (e.settlement now).isSome := by rw [hcall]; rfl
    have hafter := h.call hinv hlease
    have hokafter := hok.settle hinv now
    rw [heq] at hokafter ⊢
    rcases e.settled_cases (exec call s).1 hsome with ⟨result, v, hphase, hv, hnext⟩ | ⟨result, x, -, -, -, hnext⟩ |
      ⟨v, hv, hnext, hnot⟩ | ⟨x, hx, hconflict, hnext⟩ | ⟨x, -, hnext⟩
    · -- the job is completed
      rw [hnext] at hokafter ⊢
      have hdone := hokafter.completed result rfl
      obtain ⟨row, hrow, hstatus⟩ := Option.map_eq_some_iff.mp hdone.status
      refine .of_leaseOver (leaseOver_of_not_running (step_inv call s hinv) hokafter.attempt hrow ?_)
      rw [hstatus]
      decide
    · rw [hnext]
      exact hafter.toPhase nofun
    · -- the failure is recorded
      rw [hnext]
      obtain ⟨_, _, _, _, rfl⟩ := Execution.settlement_failure hcall hnot
      exact .of_leaseOver (exec_recordFailure_leaseOver hinv hv now)
    · -- the call was refused
      rw [hnext]
      have hover := leaseOver_of_conflict hinv hok.attempt hlease (hok.tasks hcall) hx hconflict
      exact .of_leaseOver (hover.call hinv hlease)
    · rw [hnext]
      exact hafter.toPhase fun _ => Or.inl trivial

/-- The heartbeat cancels an execution only if its job is cancelled. -/
theorem Execution.Released.check (hinv : s.Inv) (hok : e.Ok s) (h : e.Released s now) : (e.check s).Released s now := by
  unfold Execution.check
  split
  · obtain ⟨row, hrow⟩ := job?_of_hasAttempt hinv hok.attempt
    obtain ⟨job, -, hget, -, hstatus⟩ := getJobAsserted_spec hinv hrow
    rw [hget]
    dsimp only
    split_ifs with hcancelled
    · refine .of_leaseOver (leaseOver_of_not_running hinv hok.attempt hrow ?_)
      rw [← hstatus, hcancelled]
      decide
    · exact h.congr rfl rfl rfl
  · exact h

/-- Or if the repository refuses to renew its lease. -/
theorem Execution.Released.beat (hinv : s.Inv) (hok : e.Ok s) (h : e.Released s now) (leaseSeconds : PyFloat) :
    (e.beat leaseSeconds now s).1.Released (e.beat leaseSeconds now s).2 now := by
  rcases e.beat_eq leaseSeconds now s with heq | heq
  · rw [heq]
    exact h
  · rw [heq]
    set call := JobCall.heartbeat e.jobId e.leaseToken leaseSeconds now
    have hlease : call.lease? = some (e.jobId, e.leaseToken, now) := rfl
    have hafter := h.call hinv hlease
    cases hanswer : (exec call s).1 with
    | ok v => exact hafter.congr rfl rfl rfl
    | error x =>
      dsimp only [Execution.heard]
      split_ifs with hconflict
      · have hover := leaseOver_of_conflict hinv hok.attempt hlease nofun hanswer hconflict
        exact .of_leaseOver (hover.call hinv hlease)
      · exact hafter.congr rfl rfl rfl

/-- A step of an execution at a later reading of the clock keeps what is known of its lease. -/
theorem Execution.Released.moves (hinv : s.Inv) (hok : e.Ok s) (h : e.Released s now) (hmoves : e.Moves s t e' s')
    (hnow : ∀ later, t = some later → later = now) : e'.Released s' now := by
  cases hmoves with
  | read => exact h.read
  | run outcome => exact h.run outcome
  | settle later =>
    obtain rfl := hnow later rfl
    exact h.settle hinv hok
  | wake =>
    unfold Execution.wake
    split
    · exact h.congr rfl rfl rfl
    · exact h
  | check => exact h.check hinv hok
  | beat leaseSeconds later =>
    obtain rfl := hnow later rfl
    exact h.beat hinv hok leaseSeconds
  | finish =>
    unfold Execution.finish
    split_ifs
    · exact h.congr rfl rfl rfl
    · exact h

end Executions

end DurableWorker

end Galaxz
