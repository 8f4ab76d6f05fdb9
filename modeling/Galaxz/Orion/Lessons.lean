import Galaxz.Lib.JsonWriter
import Galaxz.Lib.Machine
import Galaxz.Lib.PyStr
import Mathlib.Data.List.Dedup
import Mathlib.Data.List.Sort

/-!
# `orion/pipeline/lesson_proposal.py` and `orion/core/lesson_store.py`

Lessons are proposed from batches of corrected events and reviewed one by one. A run of `propose_lessons`
reads whatever the event table holds by then, and the model replies to each batch with any text or not at
all. A lesson may have a surrogate that stands alone, which no candidate can have. `json.loads` and `str.lower`
are parameters: nothing below depends on what they do.
-/

namespace Galaxz

/-- The columns of `events` that a proposal reads, but for the texts of its prompt. -/
structure LessonEvent where
  eventId : String
  skillId : String
  agentId : String
  quarantined : Bool
  humanCorrection : Option String
  createdAt : String
deriving DecidableEq

/-- The event table: `id` is its primary key. -/
structure EventTable where
  rows : List LessonEvent
  ids_nodup : (rows.map (·.eventId)).Nodup

inductive LessonStatus where
  | pending
  | approved
  | rejected
deriving DecidableEq

/-- A row of `lesson_candidates`; its place in the table stands for its id. -/
structure LessonCandidate where
  skillId : String
  agentId : String
  content : CodeString
  evidence : List String
  status : LessonStatus := .pending
deriving DecidableEq

/-- Both tables, and every batch whose reply was parsed, with the lessons of the reply. -/
structure LessonState where
  candidates : List LessonCandidate := []
  sources : List String := []
  batches : List (List String × List CodeString) := []

/-- What the standard library does with texts. -/
structure LessonTexts where
  loads : CodeString → Except PyError JsonValue
  lower : CodeString → CodeString

def maxLessonChars : ℕ := 300
def maxLessons : ℕ := 3

/-- `normalize`. -/
def normalize (content : String) : String := joinWords content

/-- `normalize`, of a text by its code points: a surrogate is no space. -/
def normalizeCodes (content : CodeString) : CodeString := joinWordsWith (fun n => isPySpace (Char.ofNat n)) 32 content

/-! ## Replies -/

/-- `raw[raw.find("[") : raw.rfind("]") + 1]`, if there is such a part. -/
def arrayPart (raw : CodeString) : Option CodeString :=
  let tail := raw.dropWhile (· ≠ '['.toNat)
  let part := tail.reverse.dropWhile (· ≠ ']'.toNat)
  if part = [] then none else some part.reverse

section Parse

variable (texts : LessonTexts)

/-- The loop of `parse_lessons`. -/
def collectLessons (seen : List CodeString) : List JsonValue → List CodeString
  | [] => []
  | .str item :: items =>
    let text := normalizeCodes item
    if text = [] ∨ maxLessonChars < text.length ∨ texts.lower text ∈ seen then collectLessons seen items
    else text :: collectLessons (texts.lower text :: seen) items
  | _ :: items => collectLessons seen items

/-- `parse_lessons`. -/
def parseLessons (raw : CodeString) : Except PyError (List CodeString) :=
  match arrayPart raw with
  | none => .error (.valueError "no JSON array in the model reply")
  | some part => match texts.loads part with
    | .ok (.arr items) => .ok ((collectLessons texts [] items).take maxLessons)
    | .ok _ => .error (.valueError "model reply is not a list")
    -- the recursion limit is no `ValueError`
    | .error (.runtimeError message) => .error (.runtimeError message)
    | .error _ => .error (.valueError "model reply is not valid JSON")

end Parse

namespace LessonStore

variable (texts : LessonTexts)

/-- The candidate is pending or approved. -/
def live (c : LessonCandidate) : Bool := c.status = .pending || c.status = .approved

/-- A content up to case and spacing. -/
def contentKey (content : CodeString) : CodeString := texts.lower (normalizeCodes content)

/-- `has_content`. -/
def hasContent (skillId : String) (content : CodeString) (s : LessonState) : Bool :=
  s.candidates.any fun c =>
    c.skillId = skillId && live c && contentKey texts c.content = contentKey texts content

/-- `INSERT OR IGNORE INTO lesson_sources`, for each event. -/
def insertSources (eventIds sources : List String) : List String :=
  eventIds.foldl (fun sources e => if e ∈ sources then sources else sources ++ [e]) sources

/-- `mark_used`. -/
def markUsed (eventIds : List String) (s : LessonState) : LessonState :=
  { s with sources := insertSources eventIds s.sources }

/-- `add`. The content of a `LessonCandidate` has no surrogates. -/
def add (skillId agentId : String) (content : CodeString) (evidence : List String) (s : LessonState) :
    Except PyError LessonState :=
  if (normalizeCodes content).IsText then
    .ok { s with
      candidates := s.candidates ++ [{ skillId, agentId, content := normalizeCodes content, evidence }]
      sources := insertSources evidence s.sources }
  else .error (.valueError "content: Input should be a valid string, unable to parse raw data as a unicode string")

/-- `claim`: pending to approved or rejected. -/
def claim (i : ℕ) (status : LessonStatus) (content : Option CodeString) (s : LessonState) : LessonState :=
  { s with
    candidates := s.candidates.modify i fun c =>
      if c.status = .pending then
        { c with status, content := (content.map normalizeCodes).getD c.content }
      else c }

/-- `revert`. -/
def revert (i : ℕ) (s : LessonState) : LessonState :=
  { s with candidates := s.candidates.modify i fun c => { c with status := .pending } }

end LessonStore

/-! ## Proposals -/

/-- `TRIM(value) != ''`: SQLite trims spaces only. -/
def trimNonEmpty (value : String) : Bool := value.toList.any (· ≠ ' ')

/-- The query of `_correction_groups`. -/
def correctedEvents (events : EventTable) : List LessonEvent :=
  (events.rows.filter fun e => !e.quarantined && e.humanCorrection.any trimNonEmpty).insertionSort
    fun a b => a.createdAt < b.createdAt ∨ (a.createdAt = b.createdAt ∧ a.eventId ≤ b.eventId)

/-- The skill and the agent of an event. -/
def LessonEvent.group (e : LessonEvent) : String × String := (e.skillId, e.agentId)

/-- `sorted(_correction_groups(..).items())`: the events that are not used, by skill and agent. -/
def correctionGroups (events : EventTable) (used : List String) :
    List ((String × String) × List LessonEvent) :=
  let rows := (correctedEvents events).filter (·.eventId ∉ used)
  let keys := (rows.map (·.group)).dedup.insertionSort fun a b => a.1 < b.1 ∨ (a.1 = b.1 ∧ a.2 ≤ b.2)
  keys.map fun key => (key, rows.filter (·.group = key))

/-- `xs[:k]`. -/
def sliceTo {α : Type} (k : ℤ) (xs : List α) : List α :=
  xs.take (if 0 ≤ k then k.toNat else (xs.length + k).toNat)

/-- The arguments of a run: the model may raise or reply with any text. -/
structure ProposeArgs where
  events : EventTable
  llm : String → List LessonEvent → Except PyError CodeString
  minExamples : ℤ := 3
  maxExamples : ℤ := 8

section Propose

variable (texts : LessonTexts)

/-- `store.add` of one lesson after the other. What is raised leaves those that were added. -/
def addLessons (key : String × String) (evidence : List String) : List CodeString → LessonState →
    Except PyError Unit × LessonState
  | [], s => (.ok (), s)
  | lesson :: lessons, s => match LessonStore.add key.1 key.2 lesson evidence s with
    | .error e => (.error e, s)
    | .ok s => addLessons key evidence lessons s

/-- The reply to a batch that was parsed. -/
def recordLessons (key : String × String) (evidence : List String) (lessons : List CodeString) (s : LessonState) :
    Except PyError Unit × LessonState :=
  let s := { s with batches := s.batches ++ [(evidence, lessons)] }
  let fresh := lessons.filter fun lesson => !LessonStore.hasContent texts key.1 lesson s
  if lessons ≠ [] ∧ fresh = [] then (.ok (), LessonStore.markUsed evidence s)
  else addLessons key evidence fresh s

/-- The body of the loop of `propose_lessons`. -/
def proposeGroup (args : ProposeArgs) (group : (String × String) × List LessonEvent) (s : LessonState) :
    Except PyError Unit × LessonState :=
  if (group.2.length : ℤ) < args.minExamples then (.ok (), s)
  else
    let batch := sliceTo args.maxExamples group.2
    match args.llm group.1.1 batch >>= parseLessons texts with
    | .error _ => (.ok (), s)
    | .ok lessons => recordLessons texts group.1 (batch.map (·.eventId)) lessons s

/-- The loop of `propose_lessons`, which what `add` raises ends. -/
def proposeGroups (args : ProposeArgs) : List ((String × String) × List LessonEvent) → LessonState →
    Except PyError Unit × LessonState
  | [], s => (.ok (), s)
  | group :: groups, s => match proposeGroup texts args group s with
    | (.error e, s) => (.error e, s)
    | (.ok _, s) => proposeGroups args groups s

/-- `propose_lessons`. -/
def proposeLessons (args : ProposeArgs) (s : LessonState) : Except PyError Unit × LessonState :=
  proposeGroups texts args (correctionGroups args.events s.sources) s

end Propose

/-! ## Runs -/

inductive LessonAction where
  | propose (args : ProposeArgs)
  /-- `approve_skill_lesson`, with the edited content and whether Nebula stores the lesson. -/
  | approve (i : ℕ) (content : Option String) (stored : Bool)
  /-- `reject_skill_lesson`. -/
  | reject (i : ℕ)

namespace LessonStore

variable (texts : LessonTexts)

/-- The edited content is refused. -/
def refused (content : Option String) : Bool :=
  content.any fun c => normalize c = "" || maxLessonChars < (normalize c).length

/-- The candidate can be approved or rejected. -/
def isPending (i : ℕ) (s : LessonState) : Bool := s.candidates[i]?.any (·.status = .pending)

/-- `approve_skill_lesson`. -/
def approve (i : ℕ) (content : Option String) (stored : Bool) (s : LessonState) : LessonState :=
  if refused content || !isPending i s then s
  else
    let s := claim i .approved (content.map fun c => .ofChars (normalize c).toList) s
    if stored then s else revert i s

def step : LessonAction → LessonState → LessonState
  | .propose args, s => (proposeLessons texts args s).2
  | .approve i content stored, s => approve i content stored s
  | .reject i, s => claim i .rejected none s

/-- No two candidates of one skill that are pending or approved have the same content. -/
def Distinct (s : LessonState) : Prop :=
  ∀ (i j : ℕ) (c d : LessonCandidate), s.candidates[i]? = some c → s.candidates[j]? = some d → i ≠ j →
    live c = true → live d = true → c.skillId = d.skillId →
    contentKey texts c.content ≠ contentKey texts d.content

/-- No event of a batch of which the reply had lessons, all of them texts, is in a later batch. -/
def OneBatch (s : LessonState) : Prop :=
  s.batches.Pairwise fun a b => a.2 ≠ [] → (∀ lesson ∈ a.2, lesson.IsText) → ∀ e ∈ a.1, e ∉ b.1

end LessonStore

/-- An edited content that is taken is not that of another candidate of the skill. -/
def LessonAction.Apart (texts : LessonTexts) : LessonAction → LessonState → Prop
  | .approve i (some content) _, s => LessonStore.refused (some content) = false →
      ∀ (j : ℕ) (c d : LessonCandidate), s.candidates[i]? = some c → s.candidates[j]? = some d → i ≠ j →
      c.status = .pending → LessonStore.live d = true → c.skillId = d.skillId →
      LessonStore.contentKey texts (.ofChars content.toList) ≠ LessonStore.contentKey texts d.content
  | _, _ => True

end Galaxz
