import Galaxz.Lib.Datetime
import Galaxz.Lib.Digits
import Galaxz.Lib.PyStr
import Galaxz.Lib.PyValue

/-!
# `core/contracts`: the durable-execution contracts

The `pydantic` models of `core/contracts/jobs.py` and the `TaskContract` of `contracts.py`. A model is
a structure whose fields state what its validators guarantee; `validate` is its constructor on raw
field values, which raises the first failing validator's error.
-/

namespace Galaxz

/-- A `uuid.UUID`. -/
abbrev Uuid := BitVec 128

instance : LawfulBEq Uuid := inferInstance

/-- `str(u)`: the 32 digits in groups of 8, 4, 4, 4 and 12. All texts have the dashes at the same
places, so their order is the order of the numbers. -/
def Uuid.text (u : Uuid) : String :=
  let digits := (List.range 32).map fun i => hexDigit (u.toNat / 16 ^ (31 - i) % 16)
  String.ofList (digits.take 8 ++ '-' :: (digits.drop 8).take 4 ++ '-' :: (digits.drop 12).take 4 ++
    '-' :: (digits.drop 16).take 4 ++ '-' :: digits.drop 20)

theorem Uuid.text_ne_empty (u : Uuid) : u.text ≠ "" := by
  intro h
  have hlength := congrArg (·.toList.length) h
  unfold Uuid.text at hlength
  simp at hlength

/-- The text of a `UUID` determines it. -/
theorem Uuid.text_injective {u v : Uuid} (h : u.text = v.text) : u = v := by
  have hdigits : ((List.range 32).map fun i => hexDigit (u.toNat / 16 ^ (31 - i) % 16)) =
      (List.range 32).map fun i => hexDigit (v.toNat / 16 ^ (31 - i) % 16) := by
    -- without the dashes
    exact congrArg (fun cs : List Char => cs.take 8 ++ (cs.drop 9).take 4 ++ (cs.drop 14).take 4 ++
      (cs.drop 19).take 4 ++ cs.drop 24) (String.ofList_injective h)
  refine BitVec.eq_of_toNat_eq (eq_of_hexDigits 32 (by have := u.isLt; omega) (by have := v.isLt; omega)
    fun i hi => ?_)
  have hchar := List.map_inj_left.mp hdigits (31 - i) (List.mem_range.mpr (by omega))
  rw [show 31 - (31 - i) = i by omega] at hchar
  exact hexDigit_injective (Nat.mod_lt _ (by decide)) (Nat.mod_lt _ (by decide)) hchar

/-- The groups of digits of a `UUID`. -/
theorem Uuid.text_eq (u : Uuid) : u.text = String.ofList (hexPadded 8 (u.toNat / 16 ^ 24) ++
    '-' :: (hexPadded 4 (u.toNat / 16 ^ 20) ++ '-' :: (hexPadded 4 (u.toNat / 16 ^ 16) ++
    '-' :: (hexPadded 4 (u.toNat / 16 ^ 12) ++ '-' :: (hexPadded 12 u.toNat ++ []))))) := by
  unfold Uuid.text
  simp only [hexPadded_eq, Nat.div_div_eq_div_mul, ← pow_add]
  rfl

/-- The texts are ordered like the numbers. -/
theorem Uuid.text_lt_iff (u v : Uuid) : u.text < v.text ↔ u.toNat < v.toNat := by
  have hdash : ¬ '-' < '-' := by decide
  have hnil : ¬ ([] : List Char) < [] := by decide
  have hfirst : ∀ w : Uuid, w.toNat / 16 ^ 24 % 16 ^ 8 = w.toNat / 16 ^ 24 := by
    intro w
    have := w.isLt
    omega
  -- the groups read so far, and the next one
  have hgroup : ∀ (k w : ℕ) (R : Prop), u.toNat / 16 ^ (k + w) < v.toNat / 16 ^ (k + w) ∨
      u.toNat / 16 ^ (k + w) = v.toNat / 16 ^ (k + w) ∧
        (u.toNat / 16 ^ k % 16 ^ w < v.toNat / 16 ^ k % 16 ^ w ∨
          u.toNat / 16 ^ k % 16 ^ w = v.toNat / 16 ^ k % 16 ^ w ∧ R) ↔
      u.toNat / 16 ^ k < v.toNat / 16 ^ k ∨ u.toNat / 16 ^ k = v.toNat / 16 ^ k ∧ R := by
    intro k w R
    rw [pow_add, ← Nat.div_div_eq_div_mul, ← Nat.div_div_eq_div_mul]
    exact lex_div_mod (Nat.pow_pos (by decide)) R
  have hlast := hgroup 0 12 False
  rw [pow_zero, Nat.div_one, Nat.div_one] at hlast
  simp only [and_false, or_false] at hlast
  rw [Uuid.text_eq, Uuid.text_eq, String.lt_iff, String.toList_ofList, String.toList_ofList]
  simp only [hexPadded_append_lt_iff, List.cons_lt_cons_iff, hdash, hnil, false_or, true_and, and_false,
    or_false, hfirst]
  rw [hgroup 20 4, hgroup 16 4, hgroup 12 4]
  exact hlast

inductive JobStatus where
  | queued
  | running
  | completed
  | failed
  | cancelled
deriving DecidableEq

/-- `status.value`. -/
def JobStatus.value : JobStatus → String
  | .queued => "queued"
  | .running => "running"
  | .completed => "completed"
  | .failed => "failed"
  | .cancelled => "cancelled"

/-- The job will never run again. -/
def JobStatus.terminal : JobStatus → Bool
  | .queued | .running => false
  | .completed | .failed | .cancelled => true

inductive AttemptOutcome where
  | completed
  | failed
  | leaseExpired
  | cancelled
deriving DecidableEq

/-- `outcome.value`. -/
def AttemptOutcome.value : AttemptOutcome → String
  | .completed => "completed"
  | .failed => "failed"
  | .leaseExpired => "lease_expired"
  | .cancelled => "cancelled"

/-- `_VALID_JOB_TRANSITIONS`. -/
def validJobTransitions : JobStatus → List JobStatus
  | .queued => [.running, .cancelled]
  | .running => [.queued, .completed, .failed, .cancelled]
  | .completed => []
  | .failed => []
  | .cancelled => []

/-- `validate_job_transition`. -/
def validateJobTransition (current target : JobStatus) : Except PyError Unit :=
  if target ∈ validJobTransitions current then .ok ()
  else .error (.valueError s!"invalid job transition: {current.value} -> {target.value}")

/-- `RetryPolicy`. The bounds are those of the `ge` constraints and of `validate_backoff`, which a
`nan` passes, since every comparison with it is false. -/
structure RetryPolicy where
  maxAttempts : ℤ
  backoffSeconds : PyFloat
  maxBackoffSeconds : PyFloat
  retryableOutcomes : List String
  maxAttempts_pos : 1 ≤ maxAttempts
  backoff_nonneg : backoffSeconds.lt (.finite 0) = false
  maxBackoff_nonneg : maxBackoffSeconds.lt (.finite 0) = false
  backoff_le : maxBackoffSeconds.lt backoffSeconds = false
deriving DecidableEq

/-- The constructor of `RetryPolicy`. -/
def RetryPolicy.validate (maxAttempts : ℤ) (backoffSeconds maxBackoffSeconds : PyFloat)
    (retryableOutcomes : List String) : Except PyError RetryPolicy :=
  if h1 : 1 ≤ maxAttempts then
    if h2 : backoffSeconds.lt (.finite 0) = false then
      if h3 : maxBackoffSeconds.lt (.finite 0) = false then
        if h4 : maxBackoffSeconds.lt backoffSeconds = false then
          .ok ⟨maxAttempts, backoffSeconds, maxBackoffSeconds, retryableOutcomes, h1, h2, h3, h4⟩
        else .error (.valueError "max_backoff_seconds must be at least backoff_seconds")
      else .error (.valueError "max_backoff_seconds: Input should be greater than or equal to 0")
    else .error (.valueError "backoff_seconds: Input should be greater than or equal to 0")
  else .error (.valueError "max_attempts: Input should be greater than or equal to 1")

/-- `RetryPolicy()`. -/
def RetryPolicy.default : RetryPolicy where
  maxAttempts := 3
  backoffSeconds := .finite 1
  maxBackoffSeconds := .finite 60
  retryableOutcomes := ["timeout", "transient", "worker_lost"]
  maxAttempts_pos := by decide
  backoff_nonneg := by decide +kernel
  maxBackoff_nonneg := by decide +kernel
  backoff_le := by decide +kernel

/-- The fields of a policy pass their own validators. -/
theorem RetryPolicy.validate_fields (p : RetryPolicy) (outcomes : List String) :
    RetryPolicy.validate p.maxAttempts p.backoffSeconds p.maxBackoffSeconds outcomes =
      .ok { p with retryableOutcomes := outcomes } := by
  unfold RetryPolicy.validate
  rw [dif_pos p.maxAttempts_pos, dif_pos p.backoff_nonneg, dif_pos p.maxBackoff_nonneg,
    dif_pos p.backoff_le]

/-- `Job`. Timestamps are aware by their type. -/
structure Job where
  jobId : Uuid
  taskId : Uuid
  status : JobStatus
  priority : ℤ
  idempotencyKey : String
  retryPolicy : RetryPolicy
  createdAt : Datetime
  updatedAt : Datetime
  availableAt : Datetime
  cancellationRequestedAt : Option Datetime
  cancelledAt : Option Datetime
  priority_range : -100 ≤ priority ∧ priority ≤ 100
  key_stripped : strip idempotencyKey = idempotencyKey
  key_nonempty : idempotencyKey ≠ ""
  cancelled_iff : cancelledAt.isSome = true ↔ status = .cancelled
deriving DecidableEq

/-- The constructor of `Job`. -/
def Job.validate (jobId taskId : Uuid) (status : JobStatus) (priority : ℤ) (idempotencyKey : String)
    (retryPolicy : RetryPolicy) (createdAt updatedAt availableAt : Datetime)
    (cancellationRequestedAt cancelledAt : Option Datetime) : Except PyError Job :=
  if hp : -100 ≤ priority ∧ priority ≤ 100 then
    if hk : strip idempotencyKey ≠ "" then
      if hc : cancelledAt.isSome = true ↔ status = .cancelled then
        .ok { jobId, taskId, status, priority, idempotencyKey := strip idempotencyKey, retryPolicy,
              createdAt, updatedAt, availableAt, cancellationRequestedAt, cancelledAt,
              priority_range := hp, key_stripped := strip_strip _, key_nonempty := hk,
              cancelled_iff := hc }
      else if cancelledAt.isSome then .error (.valueError "cancelled_at requires cancelled status")
      else .error (.valueError "cancelled status requires cancelled_at")
    else .error (.valueError "idempotency_key must not be empty")
  else .error (.valueError "priority: Input should be between -100 and 100")

/-- A validated job has the fields it was given, with the key stripped. -/
theorem Job.validate_fields {jobId taskId : Uuid} {status : JobStatus} {priority : ℤ} {key : String}
    {policy : RetryPolicy} {createdAt updatedAt availableAt : Datetime}
    {cancellationRequestedAt cancelledAt : Option Datetime} {job : Job}
    (h : Job.validate jobId taskId status priority key policy createdAt updatedAt availableAt
      cancellationRequestedAt cancelledAt = .ok job) :
    job.jobId = jobId ∧ job.taskId = taskId ∧ job.status = status ∧ job.idempotencyKey = strip key ∧
      job.retryPolicy = policy ∧ (-100 ≤ priority ∧ priority ≤ 100) ∧ strip key ≠ "" := by
  unfold Job.validate at h
  split_ifs at h with hpriority hkey hcancel
  cases h
  exact ⟨rfl, rfl, rfl, rfl, rfl, hpriority, hkey⟩

/-- The field values of an `ExecutionAttempt`, which are also the columns of its row. -/
structure AttemptFields where
  attemptId : Uuid
  jobId : Uuid
  attemptNumber : ℕ
  workerId : String
  inputRef : String
  leaseToken : Uuid
  leaseExpiresAt : Datetime
  startedAt : Datetime
  endedAt : Option Datetime
  outcome : Option AttemptOutcome
  failureKind : Option String
  errorCode : Option String
  error : Option String
  outputRef : Option String
deriving DecidableEq

/-- The `Literal` of `failure_kind`. -/
def failureKinds : List String := ["execution", "confidence"]

/-- The field validators of `ExecutionAttempt`, then `validate_terminal_fields`, in the order of the
source. -/
def AttemptFields.check (a : AttemptFields) : Except PyError Unit :=
  if a.attemptNumber < 1 then
    .error (.valueError "attempt_number: Input should be greater than or equal to 1")
  else if strip a.workerId = "" then .error (.valueError "worker_id must not be empty")
  else if strip a.inputRef = "" then .error (.valueError "worker_id must not be empty")
  else if (a.failureKind.any fun k => k ∉ failureKinds) then
    .error (.valueError "failure_kind: Input should be 'execution' or 'confidence'")
  else if a.endedAt.isNone ≠ a.outcome.isNone then
    .error (.valueError "ended_at and outcome must be set together")
  else if a.error.isSome ∧ a.outcome ≠ some .failed then
    .error (.valueError "error requires failed outcome")
  else if (a.failureKind.isSome ∨ a.errorCode.isSome) ∧ a.outcome ≠ some .failed then
    .error (.valueError "failure metadata requires failed outcome")
  else if a.outputRef.isSome ∧ a.outcome ≠ some .completed then
    .error (.valueError "output_ref requires completed outcome")
  else if a.leaseExpiresAt ≤ a.startedAt then
    .error (.valueError "lease_expires_at must be after started_at")
  else if (a.endedAt.any fun t => t < a.startedAt) then
    .error (.valueError "ended_at must not be before started_at")
  else .ok ()

/-- The fields as the validators return them. -/
def AttemptFields.stripped (a : AttemptFields) : AttemptFields :=
  { a with workerId := strip a.workerId, inputRef := strip a.inputRef }

theorem AttemptFields.check_stripped (a : AttemptFields) : a.stripped.check = a.check := by
  unfold AttemptFields.check AttemptFields.stripped
  simp only [strip_strip]

/-- `ExecutionAttempt`: field values that passed the validators. -/
structure ExecutionAttempt extends AttemptFields where
  checked : toAttemptFields.check = .ok ()
  normal : toAttemptFields.stripped = toAttemptFields
deriving DecidableEq

/-- The constructor of `ExecutionAttempt`. -/
def ExecutionAttempt.validate (a : AttemptFields) : Except PyError ExecutionAttempt :=
  match h : a.check with
  | .error e => .error e
  | .ok _ => .ok
    { toAttemptFields := a.stripped
      checked := by rw [a.check_stripped, h]
      normal := by simp only [AttemptFields.stripped, strip_strip] }

/-- A validated attempt has the fields it was given, up to white space around two of them. -/
theorem ExecutionAttempt.validate_eq_ok {a : AttemptFields} {e : ExecutionAttempt}
    (h : ExecutionAttempt.validate a = .ok e) : e.toAttemptFields = a.stripped := by
  unfold ExecutionAttempt.validate at h
  split at h
  · cases h
  · cases h
    rfl

/-- `TaskContract`, without `created_at`, which nothing here reads. -/
structure TaskContract where
  taskId : Uuid
  origin : String
  skill : String
  payload : PyDict
  confidenceThreshold : PyFloat
  deadlineMs : Option ℕ := none
  workspaceRoot : Option String := none
  outputPath : Option String := none
  executionAttemptId : Option Uuid := none
deriving DecidableEq

/-- The constructor of `TaskContract`. -/
def TaskContract.validate (c : TaskContract) : Except PyError TaskContract :=
  if strip c.origin = "" then .error (.valueError "origin: must not be empty")
  else if strip c.skill = "" then .error (.valueError "skill: must not be empty")
  else if c.confidenceThreshold.lt (.finite 0) then
    .error (.valueError "confidence_threshold: Input should be greater than or equal to 0")
  else if PyFloat.lt (.finite 1) c.confidenceThreshold then
    .error (.valueError "confidence_threshold: Input should be less than or equal to 1")
  else .ok { c with origin := strip c.origin, skill := strip c.skill }

/-- `task.model_dump_json()`, the text by the contract it denotes. -/
def TaskContract.modelDumpJson (c : TaskContract) : Except PyError TaskContract :=
  if PyValue.serializableItems c.payload then .ok c
  else .error (.valueError "Unable to serialize unknown type")

end Galaxz
