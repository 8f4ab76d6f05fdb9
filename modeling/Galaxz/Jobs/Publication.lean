import Galaxz.Artifacts.Recording
import Galaxz.Jobs.Calls
import Galaxz.Jobs.Completion
import Galaxz.Lib.Rounds

/-!
# Publication of completed jobs

Any number of publishers at once, each of which may be cut off between any two calls, among other users
of the stores. `ExactlyOnce` is what they guarantee together.
-/

namespace Galaxz

/-- Something that happens to the stores. -/
inductive PublisherAction where
  /-- A publisher calls `publish_pending`. -/
  | start
  /-- The next call of a run is executed. -/
  | turn (i : ℕ)
  /-- The next call of a run raises: the tables are as they were, and the backend in any state. -/
  | fault (i : ℕ) (e : PyError) (objects : Objects) (works : ℕ → Bool)
  /-- Somebody else records artifacts. -/
  | record (args : RecordArgs)
  /-- Somebody else asks for a review that is not that of an attempt. -/
  | review (item : ReviewItem)
  /-- A reviewer decides. -/
  | resolve (taskId : String) (status : ReviewStatus) (notes : Option String)

/-- The stores and the runs of `publish_pending`. A run that is never given a turn again has crashed. -/
structure Publishers where
  world : PublisherWorld
  runs : List (PublisherRun Unit)

namespace Publishers

variable (host : ArtifactHost) (storage : Option ObjectStorage)

/-- A call that raises without an effect on the tables. -/
def failed (e : PyError) (objects : Objects) (works : ℕ → Bool) (call : PublisherCall)
    (w : PublisherWorld) : Except PyError (Except PyError call.Answer) × PublisherWorld :=
  (.ok (.error e), { w with artifacts := { w.artifacts with objects, works } })

/-- Let a run make its next call. -/
def advance (s : Publishers) (i : ℕ)
    (exec : (call : PublisherCall) → PublisherWorld →
      Except PyError (Except PyError call.Answer) × PublisherWorld) : Publishers :=
  match s.runs[i]? with
  | none => s
  | some run => ⟨(run.advance exec s.world).2, s.runs.set i (run.advance exec s.world).1⟩

/-- The state after an action. -/
def step : PublisherAction → Publishers → Publishers
  | .start, s => { s with runs := s.runs ++ [CompletionPublisher.publishPending] }
  | .turn i, s => s.advance i (Prog.caught (PublisherWorld.exec host storage))
  | .fault i e objects works, s => s.advance i (failed e objects works)
  | .record args, s => { s with world := (s.world.recordArtifacts host storage args).2 }
  | .review item, s =>
    { s with world := (s.world.enqueueReview host { item with attemptId := none }).2 }
  | .resolve taskId status notes, s =>
    let reviews := s.world.reviews.resolve taskId status notes (s.world.clock 0).time
    { s with world := { s.world.tick with reviews } }

/-- The jobs that the calls left, an artifact store and a review queue without rows, and no run. -/
def initial (calls : List JobCall) (objects : Objects) (works : ℕ → Bool) (clock : ℕ → Now) :
    Publishers where
  world := ⟨SqliteJobRepository.run calls, ArtifactStore.fresh objects works, ReviewQueue.empty, clock, []⟩
  runs := []

end Publishers

/-- The identity key and the version in a reference. -/
def referenceIn : PyValue → PyValue × PyValue
  | .dict items => (PyDict.get items "identity_key", PyDict.get items "version")
  | _ => (.none, .none)

/-- The references in the output of a review. -/
def referencesIn (output : PyDict) : List (PyValue × PyValue) :=
  match output.get "artifact_versions" with
  | .list xs => xs.map referenceIn
  | _ => []

/-- A result as a reference in an output. -/
def Recorded.asReference (r : Recorded) : PyValue × PyValue := (.str r.identityKey, .int r.version)

/-- A publisher has recorded the artifacts of the attempt, with this result. -/
def PublisherWorld.Obtained (w : PublisherWorld) (event : OutboxRow) (rs : List Recorded) : Prop :=
  ∃ args, (args, rs) ∈ w.published ∧ args.attemptId = some event.attemptId.text

/-- The review is that of the attempt. -/
def ReviewRow.Of (event : OutboxRow) (r : ReviewRow) : Prop := r.attemptId = some event.attemptId.text

/-- Publication takes effect exactly once. `start` is the world before the first run. -/
structure ExactlyOnce (start w : PublisherWorld) : Prop where
  /-- All runs that publish an event obtain the same versions. -/
  references : ∀ event ∈ w.jobs.outbox, ∀ rs rs', w.Obtained event rs → w.Obtained event rs' →
    rs.map Recorded.reference = rs'.map Recorded.reference
  /-- There is at most one review of an event. -/
  review : ∀ event ∈ w.jobs.outbox, ∀ r ∈ w.reviews.rows, ∀ r' ∈ w.reviews.rows,
    r.Of event → r'.Of event → r = r'
  /-- It holds the versions that the runs obtained. -/
  evidence : ∀ event ∈ w.jobs.outbox, ∀ r ∈ w.reviews.rows, r.Of event →
    (∃ rs, w.Obtained event rs) ∧
      ∀ rs, w.Obtained event rs → referencesIn r.agentOutput = rs.map Recorded.asReference
  /-- An event is acknowledged when its versions exist and, if its result is escalated, its review. -/
  acknowledged : ∀ event ∈ w.jobs.outbox, event.publishedAt ≠ none →
    (∀ e ∈ start.jobs.outbox, e.jobId = event.jobId → e.publishedAt = none) →
    ∃ rs, w.Obtained event rs ∧ Resolved rs w.artifacts.db ∧
      ∀ result, SqliteJobRepository.getResult w.jobs event.jobId = some result →
        result.get "status" = .str "escalated" → ∃ r ∈ w.reviews.rows, r.Of event

/-! ## Passes over the completion outbox

One publisher that calls `publish_pending` again and again, with nobody else at work.
-/

open SqliteJobRepository

namespace CompletionPublisher

variable (host : ArtifactHost) (storage : Option ObjectStorage)

/-- `publish_pending`, executed with nothing in between. -/
def pass (w : PublisherWorld) : PublisherWorld :=
  (Prog.run (Prog.caught (PublisherWorld.exec host storage)) publishPending w).2

/-- So many passes. -/
def passes : ℕ → PublisherWorld → PublisherWorld
  | 0, w => w
  | n + 1, w => passes n (pass host storage w)

/-- The publications of the events one after the other: each event, and whether its publication
returned. -/
def outcomes : List OutboxRow → PublisherWorld → List (OutboxRow × Bool)
  | [], _ => []
  | event :: events, w =>
    let r := Prog.run (PublisherWorld.exec host storage) (publish event) w
    (event, !raised r.1) :: outcomes events r.2

/-- The publications of a pass. -/
def passOutcomes (w : PublisherWorld) : List (OutboxRow × Bool) :=
  match pendingCompletions w.jobs 100 with
  | .error _ => []
  | .ok events => outcomes host storage events w

/-- In so many passes, whenever the publication of an event is tried it returns or raises as assigned. -/
def Assigned (succeeds : Uuid → Bool) : ℕ → PublisherWorld → Prop
  | 0, _ => True
  | n + 1, w => (∀ x ∈ passOutcomes host storage w, x.2 = succeeds x.1.jobId) ∧
      Assigned succeeds n (pass host storage w)

/-- Every event whose publication succeeds has been acknowledged. -/
def AllAcknowledged (succeeds : Uuid → Bool) (w : PublisherWorld) : Prop :=
  ∀ e ∈ w.jobs.outbox, succeeds e.jobId = true → e.publishedAt ≠ none

/-- Every unpublished event whose publication succeeds has fewer than a hundred before it, in the order
of `pending_completions`, whose publication raises. -/
def FewFailuresBefore (succeeds : Uuid → Bool) (w : PublisherWorld) : Prop :=
  ∀ before e after, unpublished w.jobs = before ++ e :: after → succeeds e.jobId = true →
    (before.filter fun b => succeeds b.jobId = false).length < 100

end CompletionPublisher

end Galaxz
