import Galaxz.A2A.Config
import Galaxz.Contracts.Goals
import Galaxz.Jobs.Calls
import Galaxz.Lib.Json
import Galaxz.Lib.Machine

/-!
# `core/a2a/server.py`: A2A requests over the job queue

The handlers of the JSON-RPC methods that create, show and cancel jobs. A request is one step on the job
database; the workers' calls come in between, and a stream that a request opened looks at its job again
later. The ids that `uuid4()` generates in a request are arguments.
-/

namespace Galaxz

open SqliteJobRepository

/-! ## Errors -/

/-- `A2AError`. -/
structure A2AError where
  code : ℤ
  message : String
  reason : Option String := none
deriving DecidableEq

namespace A2AError

def invalidParams (detail : String) : A2AError := ⟨-32602, detail, some "INVALID_PARAMS"⟩

def taskNotFound : A2AError := ⟨-32050, "Task not found or not accessible", some "TASK_NOT_FOUND"⟩

def taskNotCancelable : A2AError := ⟨-32051, "Task is not in a cancelable state", some "TASK_NOT_CANCELABLE"⟩

end A2AError

/-- What a handler raises: an `A2AError`, which is answered, or another exception. -/
inductive A2AFailure where
  | a2a (e : A2AError)
  | raised (e : PyError)
deriving DecidableEq

/-- An exception of the repository or of Python itself passes through a handler. -/
def passing {α : Type} (x : Except PyError α) : Except A2AFailure α := x.mapError .raised

def invalidParams {α : Type} (detail : String) : Except A2AFailure α := .error (.a2a (.invalidParams detail))

/-! ## Messages -/

/-- The skill and the data of a part that makes a call. -/
def callData : PyValue → Option (String × PyDict)
  | .dict part => match PyDict.get part "data" with
    | .dict data => match PyDict.get data "skill" with
      | .str skill => some (skill, data)
      | _ => none
    | _ => none
  | _ => none

/-- The loop of `_extract_call`. -/
def findCall : List PyValue → Except A2AFailure (String × PyDict)
  | [] => invalidParams
      "message needs a data part \x7b\"skill\": \"...\", \"payload\": \x7b...\x7d\x7d"
  | part :: parts => match callData part with
    | none => findCall parts
    | some (skill, data) => match (data.lookup "payload").getD (.dict []) with
      | .dict payload => .ok (skill, payload)
      | _ => invalidParams "data.payload must be an object"

/-- `_extract_call(message)`. -/
def extractCall (message : PyDict) : Except A2AFailure (String × PyDict) := do
  findCall (← passing (iterated (PyDict.get message "parts")))

/-- `_DEFAULT_THRESHOLD`. -/
def DEFAULT_THRESHOLD : PyFloat := .finite (PyFloat.toDouble (65 / 100))

/-- `_threshold(message)`. -/
def threshold (message : PyDict) : Except A2AFailure PyFloat :=
  let range := "confidenceThreshold must be a number between 0 and 1"
  match (PyDict.get message "metadata").orElse (.dict []) with
  | .dict metadata => match (metadata.lookup "confidenceThreshold").getD (.float DEFAULT_THRESHOLD) with
    | .int n => if 0 ≤ n ∧ n ≤ 1 then .ok (.finite n) else invalidParams range
    | .float x => if PyFloat.le (.finite 0) x && x.le (.finite 1) then .ok x else invalidParams range
    | _ => invalidParams range
  | _ => invalidParams "message.metadata must be an object"

/-- What `enqueue` reads of a message. -/
structure A2AMessage where
  /-- The message id, stripped. -/
  messageId : String
  skill : String
  payload : PyDict
  threshold : PyFloat
deriving DecidableEq

/-- The checks of `enqueue` on the parameters. -/
def readMessage (params : PyDict) : Except A2AFailure A2AMessage :=
  match PyDict.get params "message" with
  | .dict message => match PyDict.get message "messageId" with
    | .str messageId =>
      if strip messageId = "" then invalidParams "message.messageId is required"
      else if PyDict.get message "role" = .str "ROLE_USER" then do
        let (skill, payload) ← extractCall message
        let threshold ← threshold message
        .ok { messageId := strip messageId, skill, payload, threshold }
      else invalidParams "message.role must be ROLE_USER"
    | _ => invalidParams "message.messageId is required"
  | _ => invalidParams "params.message is required"

/-- `f"a2a:{caller.origin}:{message_id.strip()}"`. -/
def messageKey (origin messageId : String) : String := "a2a:" ++ origin ++ ":" ++ messageId

/-! ## Views -/

/-- The task that a caller sees; the time stamp and the id of the status message are left out. -/
structure TaskView where
  id : String
  state : String
  text : Option String := none
  artifacts : List PyValue := []

/-- `_artifact(result)`. -/
def resultArtifact (result : PyDict) : PyValue :=
  .dict [("artifactId", .str "result"), ("name", .str "result"),
    ("parts", .list [.dict [("data", .dict [("result", PyDict.get result "result"),
      ("summary", (PyDict.get result "summary").orElse (.str "")),
      ("gaps", (PyDict.get result "gaps").orElse (.list []))])]]),
    ("metadata", .dict [("confidence", PyDict.get result "confidence")])]

/-- `reason in _REJECTION_REASONS`; a `list` or a `dict` cannot be looked up. -/
def isRejection : PyValue → Except PyError Bool
  | .str s => .ok (s ∈ ["origin_not_allowed", "policy_denied"])
  | .list _ | .dict _ => .error (.typeError "unhashable type")
  | _ => .ok false

/-- `_map_job` for a completed job. -/
def mapResult (text : PyText) (result : PyDict) : Except PyError (String × Option String × List PyValue) := do
  let outcome := PyDict.get result "status"
  let reason := PyDict.get result "failure_reason"
  if outcome = .str "complete" then .ok ("TASK_STATE_COMPLETED", none, [resultArtifact result])
  else if outcome = .str "escalated" then
    .ok ("TASK_STATE_INPUT_REQUIRED", some "awaiting human review", [])
  else
    let rejected ← if outcome = .str "no_agent_found" then isRejection reason else .ok false
    if rejected then .ok ("TASK_STATE_REJECTED", some "not permitted for this caller", [])
    else .ok ("TASK_STATE_FAILED", some (text.str ((reason.orElse outcome).orElse (.str "task failed"))), [])

/-- `_map_job(job, result)`. -/
def mapJob (text : PyText) (job : Job) (result : Option PyDict) :
    Except PyError (String × Option String × List PyValue) :=
  match job.status with
  | .queued => .ok ("TASK_STATE_SUBMITTED", none, [])
  | .running => .ok ("TASK_STATE_WORKING", none, [])
  | .cancelled => .ok ("TASK_STATE_CANCELED", none, [])
  | .failed => .ok ("TASK_STATE_FAILED", some "task failed", [])
  | .completed => mapResult text (result.getD [])

/-- `_task_view(repo, job)`. -/
def taskView (text : PyText) (s : Db) (job : Job) : Except PyError TaskView := do
  let (state, message, artifacts) ← mapJob text job (getResult s job.jobId)
  .ok { id := job.jobId.text, state, text := message, artifacts }

/-- `STOP_STATES`. -/
def stopStates : List String :=
  ["TASK_STATE_COMPLETED", "TASK_STATE_FAILED", "TASK_STATE_CANCELED", "TASK_STATE_REJECTED",
    "TASK_STATE_INPUT_REQUIRED", "TASK_STATE_AUTH_REQUIRED"]

/-! ## Handlers -/

/-- The ids that a request generates, and its clock. -/
structure RequestIds where
  taskId : Uuid
  jobId : Uuid
  rejectedId : Uuid
  now : Datetime

/-- What a handler returns: a view, with the job that it shows. -/
abbrev Shown := Option Uuid × TaskView

namespace A2AServer

section Handlers

variable (text : PyText) (caller : CallerConfig)

/-- The task of a message, before its validators. -/
def contractOf (m : A2AMessage) (ids : RequestIds) : TaskContract :=
  { taskId := ids.taskId, origin := caller.origin, skill := m.skill, payload := m.payload,
    confidenceThreshold := m.threshold }

/-- The submission that a message makes. -/
def submissionOf (m : A2AMessage) (task : TaskContract) (ids : RequestIds) : Submission :=
  { jobId := ids.jobId, taskId := ids.taskId, task := some task,
    idempotencyKey := messageKey caller.origin m.messageId, priority := 0, retryPolicy := none, now := ids.now }

/-- The view of a job, with the job. -/
def showJob (s : Db) (job : Job) : Except A2AFailure Shown := do
  let view ← passing (taskView text s job)
  .ok (some job.jobId, view)

/-- The view of a message whose skill is not allowed. -/
def rejectedView (ids : RequestIds) : TaskView :=
  { id := ids.rejectedId.text, state := "TASK_STATE_REJECTED",
    text := some "skill not permitted for this caller" }

/-- `enqueue(params, caller)`. -/
def enqueue (params : PyDict) (ids : RequestIds) (s : Db) : Except A2AFailure Shown × Db :=
  match readMessage params with
  | .error e => (.error e, s)
  | .ok m =>
    if caller.allowsSkill m.skill then
      match (contractOf caller m ids).validate with
      | .error _ => (invalidParams "invalid skill", s)
      | .ok task =>
        match (submissionOf caller m task ids).submit s with
        | (.error e, s') => (.error (.raised e), s')
        | (.ok job, s') => (showJob text s' job, s')
    else
      (.ok (none, rejectedView ids), s)

/-- `owned_job(params, caller)`. -/
def ownedJob (params : PyDict) (s : Db) : Except A2AFailure Job :=
  match Uuid.parse (text.str (PyDict.get params "id")) with
  | .error _ => .error (.a2a .taskNotFound)
  | .ok jobId => do
    match ← passing (getJob s jobId) with
    | none => .error (.a2a .taskNotFound)
    | some job => match getTask s jobId with
      | none => .error (.a2a .taskNotFound)
      | some task => if task.origin = caller.origin then .ok job else .error (.a2a .taskNotFound)

/-- The handler of `GetTask`. -/
def getTaskView (params : PyDict) (s : Db) : Except A2AFailure Shown := do
  showJob text s (← ownedJob text caller params s)

/-- How `cancel` answers an exception of the repository. -/
def cancelFailure : PyError → A2AFailure
  | .keyError _ => .a2a .taskNotFound
  | .valueError _ | .invalidJobState _ => .a2a .taskNotCancelable
  | e => .raised e

/-- `cancel(params, caller)`. -/
def cancelTask (params : PyDict) (ids : RequestIds) (s : Db) : Except A2AFailure Shown × Db :=
  match ownedJob text caller params s with
  | .error e => (.error e, s)
  | .ok job => match cancel job.jobId ids.now s with
    | (.error e, s') => (.error (cancelFailure e), s')
    | (.ok job', s') => (showJob text s' job', s')

end Handlers

/-! ## Runs -/

inductive Method where
  | sendMessage
  | sendStreamingMessage
  | getTask
  | cancelTask
deriving DecidableEq

/-- A stream that is being sent: the job it follows, and the state that was sent last. -/
structure Stream where
  caller : CallerConfig
  jobId : Uuid
  state : String

/-- The job database with the open streams. `sent` remembers the messages that were submitted, by origin and
id, and `resolved` the jobs that they were answered with. -/
structure System where
  db : Db := {}
  streams : List Stream := []
  sent : List (String × String) := []
  resolved : List (String × Uuid) := []

/-- A request of a caller, a look of a stream at its job, or a call of a worker. -/
inductive Event where
  | request (caller : CallerConfig) (method : Method) (params : PyDict) (ids : RequestIds)
  | poll (stream : ℕ)
  | worker (call : JobCall) (hcall : call.submission? = none)

variable (text : PyText)

/-- A request: its answer, and the database after it. -/
def serve (caller : CallerConfig) (method : Method) (params : PyDict) (ids : RequestIds) (s : Db) :
    Except A2AFailure Shown × Db :=
  match method with
  | .sendMessage | .sendStreamingMessage => enqueue text caller params ids s
  | .getTask => (getTaskView text caller params s, s)
  | .cancelTask => cancelTask text caller params ids s

/-- One turn of the loop in `events`: what it sends, if the state has changed. -/
def pollStream (stream : Stream) (s : Db) : Except A2AFailure (Option Shown) :=
  if stream.state ∈ stopStates then .ok none
  else do
    match ← passing (getJob s stream.jobId) with
    | none => .ok none
    | some job =>
      let shown ← showJob text s job
      .ok (if shown.2.state = stream.state then none else some shown)

/-- The message of a send request, if the repository returned a job for it: its origin and id, and the job. -/
def resolution (caller : CallerConfig) (method : Method) (params : PyDict) (ids : RequestIds) (s : Db) :
    Option (String × String × Uuid) :=
  match method with
  | .getTask | .cancelTask => none
  | .sendMessage | .sendStreamingMessage => match readMessage params with
    | .error _ => none
    | .ok m =>
      if caller.allowsSkill m.skill then
        match (contractOf caller m ids).validate with
        | .error _ => none
        | .ok task => match ((submissionOf caller m task ids).submit s).1 with
          | .error _ => none
          | .ok job => some (caller.origin, m.messageId, job.jobId)
      else none

/-- The stream that a request opens. -/
def openedStream (caller : CallerConfig) (method : Method) (answer : Except A2AFailure Shown) : Option Stream :=
  match method, answer with
  | .sendStreamingMessage, .ok (some jobId, view) => some { caller, jobId, state := view.state }
  | _, _ => none

def step : Event → System → System
  | .request caller method params ids, s =>
    let served := serve text caller method params ids s.db
    let resolved := resolution caller method params ids s.db
    { db := served.2
      streams := s.streams ++ (openedStream caller method served.1).toList
      sent := s.sent ++ (resolved.map fun r => (r.1, r.2.1)).toList
      resolved := s.resolved ++ (resolved.map fun r => (r.1, r.2.2)).toList }
  | .poll i, s => match s.streams[i]? with
    | none => s
    | some stream => match pollStream text stream s.db with
      | .ok (some shown) => { s with streams := s.streams.set i { stream with state := shown.2.state } }
      | _ => s
  | .worker call _, s => { s with db := SqliteJobRepository.step call s.db }

/-! ## Confinement -/

/-- The job has a task of this origin. -/
def TaskOf (s : Db) (jobId : Uuid) (origin : String) : Prop :=
  ∃ task, getTask s jobId = some task ∧ task.origin = origin

/-- What a request of the caller may do: a job that it creates has the caller's origin and a skill that the
caller is allowed, and a job that it changes or shows has the caller's origin. -/
structure Confines (caller : CallerConfig) (s s' : Db) (shown : Option Uuid) : Prop where
  created : ∀ jobId, s.job? jobId = none → s'.job? jobId ≠ none →
    ∃ task, getTask s' jobId = some task ∧ task.origin = caller.origin ∧ caller.allowsSkill task.skill = true
  changed : ∀ jobId, s'.job? jobId ≠ s.job? jobId → TaskOf s' jobId caller.origin
  shown : ∀ jobId, shown = some jobId → TaskOf s' jobId caller.origin

/-- The job that an answer shows. -/
def shownJob : Except A2AFailure Shown → Option Uuid
  | .ok shown => shown.1
  | .error _ => none

/-- The job that a turn of a stream shows. -/
def streamedJob : Except A2AFailure (Option Shown) → Option Uuid
  | .ok (some shown) => shown.1
  | _ => none

/-- The callers are confined at this event. -/
def Confined : Event → System → Prop
  | .request caller method params ids, s =>
    let served := serve text caller method params ids s.db
    Confines caller s.db served.2 (shownJob served.1)
  | .poll i, s => ∀ stream, s.streams[i]? = some stream →
    Confines stream.caller s.db s.db (streamedJob (pollStream text stream s.db))
  | .worker _ _, _ => True

/-- A message can be told from those of the other callers by `origin:message_id`, and if it is new, the skill
that is allowed is also allowed without the white space around it. -/
def Distinguishable (caller : CallerConfig) (m : A2AMessage) (s : System) : Prop :=
  (∀ p ∈ s.sent, messageKey p.1 p.2 = messageKey caller.origin m.messageId → p.1 = caller.origin) ∧
    ((caller.origin, m.messageId) ∈ s.sent ∨ strip m.skill = "" ∨ caller.allowsSkill (strip m.skill) = true)

instance (caller : CallerConfig) (m : A2AMessage) (s : System) : Decidable (Distinguishable caller m s) := by
  unfold Distinguishable
  infer_instance

/-- The message that the request sends, if its skill is allowed, is distinguishable. -/
def Separated : Event → System → Prop
  | .request caller .sendMessage params _, s | .request caller .sendStreamingMessage params _, s =>
    ∀ m ∈ (readMessage params).toOption, caller.allowsSkill m.skill = true → Distinguishable caller m s
  | _, _ => True

instance : (e : Event) → (s : System) → Decidable (Separated e s)
  | .request caller .sendMessage params _, s =>
    inferInstanceAs (Decidable (∀ m ∈ (readMessage params).toOption,
      caller.allowsSkill m.skill = true → Distinguishable caller m s))
  | .request caller .sendStreamingMessage params _, s =>
    inferInstanceAs (Decidable (∀ m ∈ (readMessage params).toOption,
      caller.allowsSkill m.skill = true → Distinguishable caller m s))
  | .request _ .getTask _ _, _ => inferInstanceAs (Decidable True)
  | .request _ .cancelTask _ _, _ => inferInstanceAs (Decidable True)
  | .poll _, _ => inferInstanceAs (Decidable True)
  | .worker _ _, _ => inferInstanceAs (Decidable True)

end A2AServer

end Galaxz
