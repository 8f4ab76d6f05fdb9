import Galaxz.Orion.Lessons

/-!
# `services/andromeda_service.py` and `orion/core/lesson_store.py`: reviews of one lesson

Requests to approve or to reject one lesson run at the same time. A request is the phase it is in; every call of
the lesson store and of Nebula is a step of its own, since each is one transaction under the lock of its store.
-/

namespace Galaxz

/-- A row of `lesson_candidates` with all its columns. -/
structure LessonRow where
  candidateId : String
  skillId : String
  agentId : String
  content : String
  evidence : List String
  status : LessonStatus
  createdAt : String
  reviewedAt : Option String
  reviewedBy : Option String
  reviewerNote : Option String
  memoryId : Option String
deriving DecidableEq

/-- A memory as `remember` stores it. -/
structure LessonMemory where
  memoryId : String
  memoryNamespace : String
  content : String
  tags : List String
deriving DecidableEq

/-- The body of a request, a `LessonReviewRequest`. -/
structure LessonReview where
  reviewedBy : String
  reviewerNote : Option String
  content : Option String

inductive ReviewRequest where
  | approve (req : LessonReview)
  | reject (req : LessonReview)

/-- What a request is answered. -/
inductive ReviewAnswer where
  | reviewed
  /-- 422: the edited content is empty or too long. -/
  | badContent
  /-- 409: the lesson is not pending. -/
  | alreadyReviewed
  /-- 500: Nebula did not store the lesson. -/
  | notStored
deriving DecidableEq

/-- How far a request has come. -/
inductive ReviewPhase where
  | arrived
  /-- The candidate was read, and the edited content is in order. -/
  | read (candidate : LessonRow)
  /-- An approval has claimed the candidate. -/
  | claimed (candidate : LessonRow)
  /-- Nebula has stored the lesson. -/
  | stored (memoryId : String)
  /-- Nebula has raised. -/
  | failed
  | answered (answer : ReviewAnswer)
deriving DecidableEq

/-- The candidate, what Nebula has stored for it, and the requests. -/
structure ReviewState where
  row : LessonRow
  memories : List LessonMemory
  phases : ℕ → ReviewPhase

/-! ## The lesson store -/

namespace LessonRow

/-- `claim`: pending to approved or rejected, with the edited content if there is one. -/
def claim (status : LessonStatus) (now reviewedBy : String) (reviewerNote content : Option String) (row : LessonRow) :
    Option LessonRow :=
  if row.status = .pending then
    some { row with
      status
      reviewedAt := some now
      reviewedBy := some reviewedBy
      reviewerNote
      content := ((content.filter (· ≠ "")).map normalize).getD row.content }
  else none

/-- `attach_memory`. -/
def attachMemory (memoryId : String) (row : LessonRow) : LessonRow := { row with memoryId := some memoryId }

/-- `revert`. -/
def revert (row : LessonRow) : LessonRow :=
  { row with status := .pending, reviewedAt := none, reviewedBy := none, reviewerNote := none, memoryId := none }

/-- A candidate as `add` makes it: nobody has reviewed it. -/
def Unreviewed (row : LessonRow) : Prop :=
  row.status = .pending ∧ row.reviewedAt = none ∧ row.reviewedBy = none ∧ row.reviewerNote = none ∧ row.memoryId = none

instance (row : LessonRow) : Decidable row.Unreviewed := by unfold Unreviewed; infer_instance

end LessonRow

/-! ## The requests -/

/-- `edited`. -/
def LessonReview.edited (req : LessonReview) : Option String := req.content.map normalize

/-- `SKILL_NAMESPACE_PREFIX`. -/
def skillNamespacePrefix : String := "skill:"

/-- The entry that `remember` makes. -/
def lessonMemory (memoryId : String) (req : LessonReview) (candidate : LessonRow) : LessonMemory where
  memoryId
  memoryNamespace := skillNamespacePrefix ++ candidate.skillId
  content := (req.edited.filter (· ≠ "")).getD candidate.content
  tags := ["lesson", "agent:" ++ candidate.agentId]

/-- A step of a request, with the clock, and the id of the memory unless Nebula raises. -/
structure LessonReviewStep where
  request : ℕ
  now : String
  remembered : Option String

namespace ReviewState

/-- The request is in another phase. -/
def enter (i : ℕ) (phase : ReviewPhase) (s : ReviewState) : ReviewState :=
  { s with phases := Function.update s.phases i phase }

/-- `approve_skill_lesson`, one step. -/
def approveStep (req : LessonReview) (a : LessonReviewStep) (s : ReviewState) : ReviewState :=
  match s.phases a.request with
  | .arrived =>
    if LessonStore.refused req.content then s.enter a.request (.answered .badContent)
    else s.enter a.request (.read s.row)
  | .read candidate =>
    match s.row.claim .approved a.now req.reviewedBy req.reviewerNote req.edited with
    | none => s.enter a.request (.answered .alreadyReviewed)
    | some row => { s with row }.enter a.request (.claimed candidate)
  | .claimed candidate =>
    match a.remembered with
    | none => s.enter a.request .failed
    | some memoryId =>
      { s with memories := s.memories ++ [lessonMemory memoryId req candidate] }.enter a.request (.stored memoryId)
  | .stored memoryId => { s with row := s.row.attachMemory memoryId }.enter a.request (.answered .reviewed)
  | .failed => { s with row := s.row.revert }.enter a.request (.answered .notStored)
  | .answered _ => s

/-- `reject_skill_lesson`, one step. -/
def rejectStep (req : LessonReview) (a : LessonReviewStep) (s : ReviewState) : ReviewState :=
  match s.phases a.request with
  | .arrived => s.enter a.request (.read s.row)
  | .read _ =>
    match s.row.claim .rejected a.now req.reviewedBy req.reviewerNote none with
    | none => s.enter a.request (.answered .alreadyReviewed)
    | some row => { s with row }.enter a.request (.answered .reviewed)
  | _ => s

/-- One step of one of the requests. -/
def step (requests : ℕ → ReviewRequest) (a : LessonReviewStep) (s : ReviewState) : ReviewState :=
  match requests a.request with
  | .approve req => approveStep req a s
  | .reject req => rejectStep req a s

/-- No request has come yet. -/
def initial (row : LessonRow) : ReviewState := { row, memories := [], phases := fun _ => .arrived }

end ReviewState

end Galaxz
