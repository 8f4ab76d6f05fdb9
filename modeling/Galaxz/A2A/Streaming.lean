import Galaxz.A2A.Server
import Mathlib.Data.List.Destutter

/-!
# The event stream of a request

`SendStreamingMessage` enqueues a job and answers with the frames of `events`, which looks at the job again
and again. A look reads the job and then its result, in two transactions, and so does the first view; the
database may change before and between them.
-/

namespace Galaxz

open SqliteJobRepository

/-- The payload of a frame; `contextId` is the id of the task. -/
inductive StreamFrame where
  | task (view : TaskView)
  | artifactUpdate (taskId : String) (artifact : PyValue)
  | statusUpdate (taskId state : String) (text : Option String)

namespace StreamFrame

/-- The state that a frame reports. -/
def state? : StreamFrame → Option String
  | .task view => some view.state
  | .artifactUpdate _ _ => none
  | .statusUpdate _ state _ => some state

def artifacts : StreamFrame → List PyValue
  | .task view => view.artifacts
  | .artifactUpdate _ artifact => [artifact]
  | .statusUpdate _ _ _ => []

def isTask : StreamFrame → Bool
  | .task _ => true
  | _ => false

end StreamFrame

namespace A2AServer

variable (text : PyText)

/-! ## The first view -/

/-- `enqueue(params, caller)` up to the view: the job that the repository returned, or `none` if the skill
is not permitted. -/
def submitMessage (caller : CallerConfig) (params : PyDict) (ids : RequestIds) (s : Db) :
    Except A2AFailure (Option Job) × Db :=
  match readMessage params with
  | .error e => (.error e, s)
  | .ok m =>
    if caller.allowsSkill m.skill then
      match (contractOf caller m ids).validate with
      | .error _ => (invalidParams "invalid skill", s)
      | .ok task =>
        match (submissionOf caller m task ids).submit s with
        | (.error e, s') => (.error (.raised e), s')
        | (.ok job, s') => (.ok (some job), s')
    else (.ok none, s)

/-- The view of the job, with the result that the database then has. -/
def firstView (ids : RequestIds) (job : Option Job) (s : Db) : Except A2AFailure Shown :=
  match job with
  | none => .ok (none, rejectedView ids)
  | some job => showJob text s job

/-! ## `events` -/

/-- A look at the job: the job and its result are read from two databases. -/
def pollView (jobId : Uuid) (poll : Db × Db) : Except PyError (Option TaskView) := do
  match ← getJob poll.1 jobId with
  | none => .ok none
  | some job =>
    let view ← taskView text poll.2 job
    .ok (some view)

/-- The frames for a view with a new state. -/
def updates (view : TaskView) : List StreamFrame :=
  (if view.state = "TASK_STATE_COMPLETED" then view.artifacts.map (.artifactUpdate view.id) else []) ++
    [.statusUpdate view.id view.state view.text]

/-- The loop of `events`, with its looks before the deadline: the frames, and how it ends. -/
def pollLoop (jobId : Uuid) (state : String) : List (Db × Db) → List StreamFrame × Except PyError Unit
  | [] => ([], .ok ())
  | poll :: polls =>
    if state ∈ stopStates then ([], .ok ())
    else match pollView text jobId poll with
      | .error e => ([], .error e)
      | .ok none => ([], .ok ())
      | .ok (some view) =>
        if view.state = state then pollLoop jobId state polls
        else (updates view ++ (pollLoop jobId view.state polls).1, (pollLoop jobId view.state polls).2)

/-- `events(request_id, job_id, first_view)`. -/
def events (jobId : Option Uuid) (first : TaskView) (polls : List (Db × Db)) :
    List StreamFrame × Except PyError Unit :=
  match jobId with
  | none => ([.task first], .ok ())
  | some jobId =>
    (.task first :: (pollLoop text jobId first.state polls).1, (pollLoop text jobId first.state polls).2)

/-! ## What a stream should report -/

/-- The views that the looks get, until the job is gone or its view raises. -/
def polledViews (jobId : Uuid) : List (Db × Db) → List TaskView
  | [] => []
  | poll :: polls =>
    match pollView text jobId poll with
    | .ok (some view) => view :: polledViews jobId polls
    | _ => []

/-- The states that the looks get. -/
def polledStates (jobId : Option Uuid) (polls : List (Db × Db)) : List String :=
  match jobId with
  | none => []
  | some jobId => (polledViews text jobId polls).map (·.state)

/-- The first states, up to a stop state. -/
def upToStop : List String → List String
  | [] => []
  | state :: states => if state ∈ stopStates then [state] else state :: upToStop states

/-- The A2A image of the state that a job is in. -/
def image (jobId : Uuid) (s : Db) : Option String :=
  match getJob s jobId with
  | .ok (some job) => (taskView text s job).toOption.map (·.state)
  | _ => none

def reported (frames : List StreamFrame) : List String := frames.filterMap StreamFrame.state?

def sentArtifacts (frames : List StreamFrame) : List PyValue := frames.flatMap StreamFrame.artifacts

/-- The frames of a stream report each change once and end right. `actual` are the images of the states that
the job was in, and `result` is its stored result in the end. -/
structure StreamReports (first : TaskView) (polled : List String) (actual : Option (List (Option String)))
    (result : Option PyDict) (frames : List StreamFrame) : Prop where
  initial : ∃ later, frames = .task first :: later ∧ ∀ f ∈ later, f.isTask = false
  changes : reported frames = upToStop ((first.state :: polled).destutter (· ≠ ·))
  no_repeat : (reported frames).IsChain (· ≠ ·)
  stops : ∀ before f after, frames = before ++ f :: after →
    (∃ state ∈ stopStates, f.state? = some state) → after = []
  artifact : (reported frames).getLast? = some "TASK_STATE_COMPLETED" →
    ∃ r, result = some r ∧ sentArtifacts frames = [resultArtifact r] ∧
      (frames = [.task first] ∨ ∃ before taskId shown, frames = before ++
        [.artifactUpdate taskId (resultArtifact r), .statusUpdate taskId "TASK_STATE_COMPLETED" shown])
  actual_states : ∀ states ∈ actual, ((reported frames).map some).Sublist states

/-- The database after the first `n` calls. -/
def dbAt (calls : List JobCall) (s : Db) (n : ℕ) : Db := Machine.run SqliteJobRepository.step (calls.take n) s

/-- The numbers of the calls that were made before each reading come in order. -/
def InOrder (bound first : ℕ) (polls : List (ℕ × ℕ)) : Prop :=
  (first :: polls.flatMap fun p => [p.1, p.2]).Pairwise (· ≤ ·) ∧
    ∀ n ∈ first :: polls.flatMap fun p => [p.1, p.2], n ≤ bound

end A2AServer

end Galaxz
