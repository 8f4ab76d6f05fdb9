import Galaxz.Artifacts.Store
import Galaxz.Jobs.Repository
import Galaxz.Reviews.ReviewQueue

/-!
# `core/jobs/completion.py`: `CompletionPublisher`

The three stores that a publisher writes, its calls on them, each of which is atomic, and the publisher
as a program of these calls. A call of `record` holds the lock of the artifact store from its beginning
to its end, so it is one call here.
-/

namespace Galaxz

open SqliteJobRepository

/-- A reading of the clock, and its `isoformat()`. -/
structure Now where
  time : Datetime
  text : String
deriving DecidableEq

/-- The stores, and the clock: the readings to come. -/
structure PublisherWorld where
  jobs : Db
  artifacts : ArtifactState ArtifactDb
  reviews : ReviewQueue
  clock : ℕ → Now
  /-- What the publishers' calls of `record` have returned so far. No method reads it. -/
  published : List (RecordArgs × List Recorded)

/-- A call of a publisher. -/
inductive PublisherCall where
  | pendingCompletions (limit : ℤ)
  | getTask (jobId : Uuid)
  | getResult (jobId : Uuid)
  | record (args : RecordArgs)
  | getVersion (identityKey : String) (version : ℕ)
  | enqueueReview (item : ReviewItem)
  | getByTaskId (taskId : String)
  | acknowledgeCompletion (jobId : Uuid)

/-- What a call returns. -/
@[reducible] def PublisherCall.Answer : PublisherCall → Type
  | .pendingCompletions _ => List OutboxRow
  | .getTask _ => Option TaskContract
  | .getResult _ => Option PyDict
  | .record _ => List Recorded
  | .getVersion _ _ => Option VersionRow
  | .enqueueReview _ => Unit
  | .getByTaskId _ => Option ReviewRow
  | .acknowledgeCompletion _ => Unit

namespace PublisherWorld

variable (host : ArtifactHost) (storage : Option ObjectStorage)

/-- The clock after a reading. -/
def tick (w : PublisherWorld) : PublisherWorld := { w with clock := fun n => w.clock (n + 1) }

/-- A call of `record`, by a publisher or by somebody else. -/
def recordArtifacts (args : RecordArgs) (w : PublisherWorld) :
    Except PyError (List Recorded) × PublisherWorld :=
  let r := Prog.run (ArtifactState.exec storage)
    (ArtifactStore.record host storage args (w.clock 0).text) w.artifacts
  (r.1, { w.tick with artifacts := r.2 })

/-- A call of `ReviewQueue.enqueue`, by a publisher or by somebody else. -/
def enqueueReview (item : ReviewItem) (w : PublisherWorld) : Except PyError Unit × PublisherWorld :=
  match ReviewQueue.enqueue host.toHost item (w.clock 0).time w.reviews with
  | .error e => (.error e, w.tick)
  | .ok reviews => (.ok (), { w.tick with reviews })

/-- Note what a call of `record` returned. -/
def note (args : RecordArgs) (r : Except PyError (List Recorded) × PublisherWorld) :
    Except PyError (List Recorded) × PublisherWorld :=
  match r.1 with
  | .error _ => r
  | .ok rs => (r.1, { r.2 with published := r.2.published ++ [(args, rs)] })

/-- A call of a publisher. -/
def exec : (call : PublisherCall) → PublisherWorld → Except PyError call.Answer × PublisherWorld
  | .pendingCompletions limit, w => (pendingCompletions w.jobs limit, w)
  | .getTask jobId, w => (.ok (getTask w.jobs jobId), w)
  | .getResult jobId, w => (.ok (getResult w.jobs jobId), w)
  | .record args, w => note args (w.recordArtifacts host storage args)
  | .getVersion key version, w =>
    (ArtifactStore.getVersion storage ArtifactDb.version? w.artifacts key version, w)
  | .enqueueReview item, w => w.enqueueReview host item
  | .getByTaskId taskId, w => (.ok (w.reviews.getByTaskId taskId), w)
  | .acknowledgeCompletion jobId, w =>
    (.ok (), { w.tick with jobs := acknowledgeCompletion jobId (w.clock 0).time w.jobs })

end PublisherWorld

/-- A program of a publisher. -/
abbrev PublisherProg := Prog PyError PublisherCall.Answer

/-- A program of a publisher that catches what its calls raise. -/
abbrev PublisherRun := Prog PyError fun call : PublisherCall => Except PyError call.Answer

namespace CompletionPublisher

variable (event : OutboxRow) (task : TaskContract) (result : PyDict)

/-- `task.origin.removeprefix("goal:") if task.origin.startswith("goal:") else None`. -/
def goalIdOf : Option String :=
  if "goal:".toList <+: task.origin.toList then some (String.ofList (task.origin.toList.drop 5)) else none

/-- `goal_id` is true. -/
def hasGoal : Bool := (goalIdOf task).any (· ≠ "")

/-- `task.skill.split(".")[-1]`. -/
def lastSegment (skill : String) : String :=
  String.ofList (skill.toList.reverse.takeWhile (· ≠ '.')).reverse

/-- The arguments of the call of `record`. -/
def recordArgs : RecordArgs where
  artifacts := (result.get "artifacts").orElse (.list [])
  workspaceRoot := task.workspaceRoot.getD ""
  taskId := task.taskId.text
  skill := task.skill
  attemptId := some event.attemptId.text

/-- `result.get("result") if isinstance(result.get("result"), dict) else {}`. -/
def outputOf : PyDict :=
  match result.get "result" with
  | .dict items => items
  | _ => []

/-- A reference to a version. -/
def reference (r : Recorded) (contentHash : String) : PyValue :=
  .dict [("identity_key", .str r.identityKey), ("version", .int r.version),
    ("content_hash", .str contentHash)]

/-- `{**output, "artifact_versions": references}`. -/
def evidenceOf (references : List PyValue) : PyDict :=
  (outputOf result).set "artifact_versions" (.list references)

/-- The task id of the review. -/
def reviewTaskId : String := if hasGoal task then event.attemptId.text else task.taskId.text

/-- The arguments of the call of `enqueue`; the deadline is an hour after the completion. -/
@[irreducible] def reviewItem (references : List PyValue) : Except PyError ReviewItem := do
  let deadline ← event.createdAt.add (3600 * 1000000)
  return {
    taskId := reviewTaskId event task
    taskType := (result.get "task_type").orElse (.str (lastSegment task.skill))
    confidence := (result.get "confidence").orElse (.float (.finite 0))
    payload := task.payload
    skillId := task.skill
    agentId := (result.get "assigned_agent").orElse (.str "")
    agentOutput := some (evidenceOf result references)
    slaDeadline := some deadline
    goalId := goalIdOf task
    plannedTaskId := if hasGoal task then some task.taskId.text else none
    attemptId := some event.attemptId.text }

/-- The review in the queue is that of the completion. -/
def confirms (references : List PyValue) (review : Option ReviewRow) : Bool :=
  review.any fun r => r.attemptId = some event.attemptId.text &&
    PyValue.pyEq (.dict r.agentOutput) (.dict (evidenceOf result references))

/-- The references to the versions, each of which is read back. -/
def referencesOf : List Recorded → PublisherProg (List PyValue)
  | [] => return []
  | r :: rs => do
    let row ← Prog.call (.getVersion r.identityKey r.version) .pure
    match row with
    | none => .raise (.runtimeError "artifact publication did not persist its content")
    | some row => do
      let references ← referencesOf rs
      return reference r row.contentHash :: references

/-- The review of an escalated result. -/
def publishReview (references : List PyValue) : PublisherProg Unit := do
  let item ← Prog.ofExcept (reviewItem event task result references)
  Prog.call (.enqueueReview item) .pure
  let review ← Prog.call (.getByTaskId (reviewTaskId event task)) .pure
  if confirms event result references review then return ()
  else .raise (.runtimeError "review identity already belongs to different completion evidence")

/-- `_publish` once it has the task and the result. -/
def publishCompletion : PublisherProg Unit := do
  let versions ← Prog.call (.record (recordArgs event task result)) .pure
  let references ← referencesOf versions
  if result.get "status" = .str "escalated" then publishReview event task result references
  Prog.call (.acknowledgeCompletion event.jobId) .pure

/-- `_publish`. -/
def publish : PublisherProg Unit := do
  let task ← Prog.call (.getTask event.jobId) .pure
  let result ← Prog.call (.getResult event.jobId) .pure
  match task, result with
  | some task, some result => publishCompletion event task result
  | _, _ => .raise (.runtimeError "committed completion is missing its task or result")

/-- The loop of `publish_pending`: an exception of a publication is logged. -/
def publishEach : List OutboxRow → PublisherRun Unit
  | [] => return ()
  | event :: events => do
    let _ ← (publish event).attempt
    publishEach events

/-- `publish_pending`. -/
def publishPending : PublisherRun Unit := do
  let events ← Prog.call (.pendingCompletions 100) .pure
  match events with
  | .error e => .raise e
  | .ok events => publishEach events

end CompletionPublisher

end Galaxz
