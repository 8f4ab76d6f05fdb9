import Galaxz.Contracts.Goals
import Galaxz.Lib.Machine
import Galaxz.Lib.PyData
import Galaxz.Lib.PyDatetime
import Galaxz.Lib.Sqlite
import Mathlib.Data.List.Sort

/-!
# `FeedbackEvent` and the table `feedback_events`

`EventLog.append` writes an event as a row of texts and numbers, and `_row_to_event` makes an event of a
row. The two JSON columns are kept by the syntax of their texts.
-/

namespace Galaxz

inductive OutcomeType where
  | completed
  | failed
  | escalated
  | corrected
  | approved
  | rejected
deriving DecidableEq

/-- `outcome.value`. -/
def OutcomeType.value : OutcomeType → String
  | .completed => "completed"
  | .failed => "failed"
  | .escalated => "escalated"
  | .corrected => "corrected"
  | .approved => "approved"
  | .rejected => "rejected"

/-- `OutcomeType(text)`. -/
def OutcomeType.ofText (text : String) : Except PyError OutcomeType :=
  if text = "completed" then .ok .completed
  else if text = "failed" then .ok .failed
  else if text = "escalated" then .ok .escalated
  else if text = "corrected" then .ok .corrected
  else if text = "approved" then .ok .approved
  else if text = "rejected" then .ok .rejected
  else .error (.valueError (text ++ " is not a valid OutcomeType"))

/-- `confidence_score: float = Field(ge=0.0, le=1.0)`; `nan` passes both checks. -/
def InUnit (x : PyFloat) : Prop := x.lt (.finite 0) = false ∧ PyFloat.lt (.finite 1) x = false

instance (x : PyFloat) : Decidable (InUnit x) := by unfold InUnit; infer_instance

structure FeedbackEvent where
  taskId : Uuid
  taskCategory : String
  agentId : String
  outcome : OutcomeType
  confidenceScore : PyFloat
  inputHash : String
  agentOutput : List (PyKey × PyData)
  humanCorrection : Option (List (PyKey × PyData)) := none
  humanVerified : Bool := false
  latencyMs : ℕ
  timestamp : PyDatetime
  confidence_ok : InUnit confidenceScore
  output_keys : PyData.wellFormedItems agentOutput = true
  correction_keys : ∀ c ∈ humanCorrection, PyData.wellFormedItems c = true

/-- `a == b` for optional dicts. -/
def dictEq : Option (List (PyKey × PyData)) → Option (List (PyKey × PyData)) → Bool
  | none, none => true
  | some xs, some ys => (PyData.dict xs).pyEq (.dict ys)
  | _, _ => false

/-- `a == b`, field by field. -/
structure FeedbackEvent.Equal (a b : FeedbackEvent) : Prop where
  taskId : a.taskId = b.taskId
  taskCategory : a.taskCategory = b.taskCategory
  agentId : a.agentId = b.agentId
  outcome : a.outcome = b.outcome
  confidenceScore : PyValue.sameNumber a.confidenceScore b.confidenceScore = true
  inputHash : a.inputHash = b.inputHash
  agentOutput : (PyData.dict a.agentOutput).pyEq (.dict b.agentOutput) = true
  humanCorrection : dictEq a.humanCorrection b.humanCorrection = true
  humanVerified : a.humanVerified = b.humanVerified
  latencyMs : a.latencyMs = b.latencyMs
  timestamp : a.timestamp.pyEq b.timestamp = true

/-- What of an event its row can hold: not the flag, JSON values only, and no offset that depends on
`fold`. -/
def FeedbackEvent.Storable (event : FeedbackEvent) : Prop :=
  event.humanVerified = false ∧ PyData.survivesItems event.agentOutput = true ∧
  (∀ c ∈ event.humanCorrection, PyData.survivesItems c = true) ∧
  (event.timestamp.offset = none ∨ event.timestamp.foldDependent = false)

/-- A row of `feedback_events`. -/
structure FeedbackEventRow where
  id : String
  taskId : String
  taskCategory : String
  agentId : String
  outcome : String
  confidenceScore : PyFloat
  inputHash : String
  agentOutput : PyValue
  humanCorrection : Option PyValue
  latencyMs : ℤ
  timestamp : String
  quarantined : Bool := false
deriving DecidableEq

namespace EventLog

/-- `json.dumps(value)`. -/
def dumpsText (items : List (PyKey × PyData)) : Except PyError PyValue :=
  match (PyData.dict items).dumps with
  | none => .error (.typeError "Object is not JSON serializable")
  | some v => .ok v

/-- `json.dumps(value) if value is not None else None`. -/
def dumpsOptional : Option (List (PyKey × PyData)) → Except PyError (Option PyValue)
  | none => .ok none
  | some items => (dumpsText items).map some

/-- The row that `append` inserts. SQLite stores `nan` as `NULL`. -/
def newRow (eventId : Uuid) (event : FeedbackEvent) : Except PyError FeedbackEventRow := do
  let agentOutput ← dumpsText event.agentOutput
  let humanCorrection ← dumpsOptional event.humanCorrection
  let latencyMs ← Sqlite.bindInt event.latencyMs
  if event.confidenceScore = .nan then
    .error (.integrityError "NOT NULL constraint failed: feedback_events.confidence_score")
  else .ok {
    id := eventId.text
    taskId := event.taskId.text
    taskCategory := event.taskCategory
    agentId := event.agentId
    outcome := event.outcome.value
    confidenceScore := event.confidenceScore
    inputHash := event.inputHash
    agentOutput
    humanCorrection
    latencyMs
    timestamp := event.timestamp.isoformat }

/-- `append`, with the id that `uuid4()` returns. -/
def append (eventId : Uuid) (event : FeedbackEvent) (rows : List FeedbackEventRow) :
    Except PyError String × List FeedbackEventRow :=
  match newRow eventId event with
  | .error e => (.error e, rows)
  | .ok row =>
    if rows.any (·.id = row.id) then
      (.error (.integrityError "UNIQUE constraint failed: feedback_events.id"), rows)
    else (.ok row.id, rows ++ [row])

/-- The `UPDATE` of `quarantine`. -/
def quarantine (eventId : String) (rows : List FeedbackEventRow) : List FeedbackEventRow :=
  rows.map fun row => if row.id = eventId then { row with quarantined := true } else row

/-- A JSON text, for a field `dict`. -/
def readDict (name : String) :
    PyValue → Except PyError {items : List (PyKey × PyData) // PyData.wellFormedItems items = true}
  | .dict pairs =>
    .ok ⟨PyData.ofPairs (PyData.loadsItems pairs), PyData.wellFormedItems_loads pairs⟩
  | _ => .error (.valueError (name ++ ": Input should be a valid dictionary"))

/-- A JSON text or `NULL`, for a field `dict | None`. -/
def readOptionalDict (name : String) : Option PyValue →
    Except PyError (Option {items : List (PyKey × PyData) // PyData.wellFormedItems items = true})
  | none => .ok none
  | some .none => .ok none
  | some v => (readDict name v).map some

/-- `_row_to_event`. -/
def rowToEvent (row : FeedbackEventRow) : Except PyError FeedbackEvent := do
  let outcome ← OutcomeType.ofText row.outcome
  let agentOutput ← readDict "agent_output" row.agentOutput
  let humanCorrection ← readOptionalDict "human_correction" row.humanCorrection
  let timestamp ← PyDatetime.fromisoformat row.timestamp
  let taskId ← Uuid.parse row.taskId
  if h : InUnit row.confidenceScore then
    if row.latencyMs < 0 then
      .error (.valueError "latency_ms: Input should be greater than or equal to 0")
    else .ok {
      taskId
      taskCategory := row.taskCategory
      agentId := row.agentId
      outcome
      confidenceScore := row.confidenceScore
      inputHash := row.inputHash
      agentOutput := agentOutput.1
      humanCorrection := humanCorrection.map (·.1)
      latencyMs := row.latencyMs.toNat
      timestamp
      confidence_ok := h
      output_keys := agentOutput.2
      correction_keys := fun c hc => by
        obtain ⟨items, -, hitems⟩ := Option.map_eq_some_iff.mp hc
        exact hitems ▸ items.2 }
  else .error (.valueError "confidence_score: Input should be between 0 and 1")

/-- The condition of both queries: a column, the flag and the cutoff. -/
def inWindow (column : FeedbackEventRow → String) (value : String) (cutoff : Datetime)
    (row : FeedbackEventRow) : Bool :=
  column row = value && !row.quarantined && PyDatetime.isoformat { wall := cutoff } ≤ row.timestamp

/-- The rows that a query returns, `ORDER BY timestamp ASC`. -/
def selectRows (column : FeedbackEventRow → String) (value : String) (cutoff : Datetime)
    (rows : List FeedbackEventRow) : List FeedbackEventRow :=
  (rows.filter (inWindow column value cutoff)).insertionSort fun a b => a.timestamp ≤ b.timestamp

/-- Both queries; `now` is what the clock shows in UTC. -/
def readWindow (column : FeedbackEventRow → String) (value : String) (micros : ℤ) (now : Datetime)
    (rows : List FeedbackEventRow) : Except PyError (List FeedbackEvent) := do
  let cutoff ← now.add (-micros)
  (selectRows column value cutoff rows).mapM rowToEvent

/-- `get_window`. -/
def getWindow (taskCategory : String) (hours : ℤ) (now : Datetime) (rows : List FeedbackEventRow) :
    Except PyError (List FeedbackEvent) :=
  readWindow (·.taskCategory) taskCategory (hours * 3600000000) now rows

/-- `get_by_agent`. -/
def getByAgent (agentId : String) (days : ℤ) (now : Datetime) (rows : List FeedbackEventRow) :
    Except PyError (List FeedbackEvent) :=
  readWindow (·.agentId) agentId (days * 86400000000) now rows

end EventLog

/-- A call on the log. -/
inductive FeedbackAction where
  | append (eventId : Uuid) (event : FeedbackEvent)
  | quarantine (eventId : String)

/-- The table, and the events that were appended with their ids, which no code reads. -/
structure FeedbackLog where
  rows : List FeedbackEventRow := []
  appended : List (String × FeedbackEvent) := []

namespace FeedbackLog

def step : FeedbackAction → FeedbackLog → FeedbackLog
  | .append eventId event, log =>
    match EventLog.append eventId event log.rows with
    | (.error _, rows) => { log with rows }
    | (.ok id, rows) => { rows, appended := log.appended ++ [(id, event)] }
  | .quarantine eventId, log => { log with rows := EventLog.quarantine eventId log.rows }

/-- The log after the calls. -/
def run (actions : List FeedbackAction) : FeedbackLog := Machine.run step actions {}

end FeedbackLog

end Galaxz
