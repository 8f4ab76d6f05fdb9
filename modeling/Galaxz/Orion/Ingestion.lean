import Galaxz.Lib.Machine
import Galaxz.Lib.PyStr
import Galaxz.Lib.PyValue
import Galaxz.Lib.Table
import Galaxz.Orion.EventsTable
import Galaxz.Pulsar.Registry
import Mathlib.Logic.Function.Basic

/-!
# `orion/pipeline/ingestion.py`: `IngestionWorker`

Four listeners read messages of Redis streams, store them and acknowledge them. A consumer group delivers a
new message to one consumer and keeps it pending until it is acknowledged; a read from the start of the
history returns the pending messages of the consumer that asks. The listeners run at the same time, and the
worker may stop between any two steps and start again as another consumer.
-/

namespace Galaxz

/-- The streams of the worker. -/
inductive FeedbackStream where
  | feedback
  | escalated
  | vega
  | rigel
deriving DecidableEq

/-- The fields of a message. -/
abbrev StreamFields := List (String × String)

/-- A `RefineryFeedbackEvent` as `ingest` takes it: `append_event` does not write its `execution_outcome`. -/
structure RefineryEvent extends RefineryFeedbackEvent where
  executionOutcome : Option String := none
deriving DecidableEq

/-- What the code takes from its libraries, and how it was set up. -/
structure IngestHost where
  /-- `json.loads`, which raises a `JSONDecodeError`, or anything else at a number or a nesting that is too large. -/
  loads : String → Except PyError PyValue
  /-- `FeedbackEvent(**data)`: the fields of the event, if the data are valid. -/
  feedbackEvent : PyDict → Option PyDict
  /-- `RefineryFeedbackEvent(**data)`. -/
  refineryEvent : PyDict → Option RefineryEvent
  /-- `set_ingest_fn` was called. -/
  hasIngest : Bool

/-- A row of `feedback_events`, with the message that it was made of. -/
structure FeedbackRow where
  rowId : ℕ
  event : PyDict
  quarantined : Bool := false
  source : FeedbackStream × ℕ
deriving DecidableEq

/-- What a handler makes of a message. -/
inductive Parsed where
  | store (event : PyDict)
  | quarantine
  | ingest (event : RefineryEvent)
  | drop
deriving DecidableEq

namespace IngestionWorker

variable (host : IngestHost)

/-- A value of the flat-field format. Only a `JSONDecodeError` leaves it as it is. -/
def decodeField (v : String) : Except PyError PyValue :=
  match (strip v).toList.head? with
  | some c =>
    if c = '\x7b' ∨ c = '[' ∨ c = '"' then
      match host.loads (strip v) with
      | .ok value => .ok value
      | .error (.jsonDecodeError _) => .ok (.str v)
      | .error e => .error e
    else .ok (.str v)
  | none => .ok (.str v)

/-- `_decode_fields`. -/
def decodeFields (fields : StreamFields) : Except PyError PyValue :=
  match fields.lookup "data" with
  | some text => host.loads text
  | none => do
    let decoded ← fields.mapM fun f => (decodeField host f.2).map fun v => (f.1, v)
    .ok (.dict decoded)

/-- `_process_feedback` up to the storage: data that are no `dict` are no arguments. -/
def parseFeedback (data : Except PyError PyValue) : Parsed :=
  match data with
  | .ok (.dict items) => match host.feedbackEvent items with
    | some event => .store event
    | none => .quarantine
  | _ => .drop

/-- `data["outcome"] = "escalated"`. -/
def markEscalated : Except PyError PyValue → Except PyError PyValue
  | .ok (.dict items) => .ok (.dict (PyDict.set items "outcome" (.str "escalated")))
  | .ok _ => .error (.typeError "object does not support item assignment")
  | .error e => .error e

/-- `_process_refinery_event` up to `ingest`: invalid data are not quarantined. -/
def parseRefinery (data : Except PyError PyValue) : Parsed :=
  match data with
  | .ok (.dict items) => match host.refineryEvent items with
    | some event => if host.hasIngest then .ingest event else .drop
    | none => .drop
  | _ => .drop

/-- What the handler of a stream makes of a message. -/
def parse (stream : FeedbackStream) (fields : StreamFields) : Parsed :=
  match stream with
  | .feedback => parseFeedback host (decodeFields host fields)
  | .escalated => parseFeedback host (markEscalated (decodeFields host fields))
  | .vega => parseRefinery host (decodeFields host fields)
  | .rigel => parseRefinery host (decodeFields host fields)

/-- The registry of `OrionService` takes the event: `get_agent` and `validate_feedback_event`. -/
def admits (registry : Option (List SkillManifest)) (event : RefineryEvent) : Bool :=
  match registry with
  | none => true
  | some agents => match PulsarRegistry.getAgent agents event.agentId with
    | none => false
    | some manifest =>
      event.agentId = manifest.agentId && manifest.skills.any (·.skillId = event.skill)

/-- `eligible`. -/
def eligible (event : RefineryEvent) : Bool :=
  event.humanVerified ||
    ((event.outcome = .success || event.outcome = .partlySuccess) &&
      (PyFloat.finite (3 / 4)).le event.confidenceScore &&
      !(event.executionOutcome = some "fail" || event.executionOutcome = some "timeout" ||
        event.executionOutcome = some "error"))

/-- The sentinel of `_quarantine_raw`. -/
def sentinel (fields : StreamFields) : PyDict :=
  [("task_category", .str "__invalid__"), ("agent_id", .str "__unknown__"), ("outcome", .str "failed"),
    ("agent_output", .dict [("raw", .dict (fields.map fun f => (f.1, .str f.2)))])]

end IngestionWorker

/-! ## The worker -/

/-- Where a listener is with the first message of its batch. -/
inductive ListenerStage where
  | handler
  /-- The sentinel with this id is stored. -/
  | quarantine (rowId : ℕ)
  | ack
deriving DecidableEq

/-- A stream with its consumer group and its listener. -/
structure StreamLane where
  entries : List StreamFields := []
  /-- How many messages were delivered. -/
  delivered : ℕ := 0
  /-- The messages that are not acknowledged, with their consumers. -/
  pending : List (ℕ × String) := []
  switched : Bool := false
  /-- The messages of the last read that are still to be acknowledged. -/
  batch : List ℕ := []
  /-- `total_messages`. -/
  size : ℕ := 0
  stage : ListenerStage := .handler
  /-- The messages whose handler has ended, in order. -/
  handled : List ℕ := []
  acked : List ℕ := []
  /-- The messages that were pending when the worker started. -/
  inherited : List ℕ := []
  /-- The messages that the worker read before it switched to new ones. -/
  replayed : List ℕ := []

/-- The streams, both tables and the memory of the worker. -/
structure IngestState where
  lane : FeedbackStream → StreamLane := fun _ => {}
  feedback : List FeedbackRow := []
  events : List EventsRow := []
  consumer : String := ""
  /-- `_skill_counts`. -/
  counts : String → ℕ := fun _ => 0
  /-- The messages that raised a count. -/
  counted : List (FeedbackStream × ℕ) := []
  registry : Option (List SkillManifest) := none

inductive IngestAction where
  | publish (stream : FeedbackStream) (fields : StreamFields)
  | setRegistry (registry : Option (List SkillManifest))
  /-- `xreadgroup`. -/
  | read (stream : FeedbackStream) (works : Bool)
  /-- The next commit of the handler; `now` is the clock of SQLite. -/
  | handle (stream : FeedbackStream) (works : Bool) (now : Datetime)
  /-- `xack`. -/
  | acknowledge (stream : FeedbackStream) (works : Bool)
  /-- The process stops at this point, and another one starts. -/
  | restart (consumer : String)

namespace IngestionWorker

variable (host : IngestHost)

/-- The messages of a lane are as given now. -/
def setLane (stream : FeedbackStream) (l : StreamLane) (s : IngestState) : IngestState :=
  { s with lane := Function.update s.lane stream l }

/-- The pending messages of a consumer, ten at most. -/
def history (consumer : String) (l : StreamLane) : List ℕ :=
  ((l.pending.filter (·.2 = consumer)).map (·.1)).take 10

/-- The messages that come next, ten at most. -/
def news (l : StreamLane) : List ℕ := List.range' l.delivered (min 10 (l.entries.length - l.delivered))

/-- `xreadgroup` and what the loop does with an empty answer. -/
def readLane (consumer : String) (l : StreamLane) : StreamLane :=
  if l.batch ≠ [] then l
  else if l.switched then
    { l with
      batch := news l
      size := (news l).length
      stage := .handler
      delivered := l.delivered + (news l).length
      pending := l.pending ++ (news l).map fun m => (m, consumer) }
  else
    { l with
      batch := history consumer l
      size := (history consumer l).length
      stage := .handler
      replayed := l.replayed ++ history consumer l
      switched := (history consumer l).isEmpty }

/-- The handler of the first message has ended. -/
def endHandler (m : ℕ) (l : StreamLane) : StreamLane :=
  { l with stage := .ack, handled := l.handled ++ [m] }

/-- `EventLog.append`; `uuid4()` gives a new id. -/
def append (event : PyDict) (source : FeedbackStream × ℕ) (s : IngestState) : IngestState :=
  { s with feedback := s.feedback ++ [{ rowId := s.feedback.length, event, source }] }

/-- `EventLog.quarantine`. -/
def quarantine (rowId : ℕ) (s : IngestState) : IngestState :=
  { s with feedback := Table.updateWhere (·.rowId = rowId) (fun r => { r with quarantined := true }) s.feedback }

/-- `OrionService.ingest`: `append_event`, and the count of an eligible event. -/
def ingest (event : RefineryEvent) (now : Datetime) (source : FeedbackStream × ℕ) (s : IngestState) : IngestState :=
  match EventsTable.appendEvent event.toRefineryFeedbackEvent (!eligible event) now s.events with
  | (.error _, _) => s
  | (.ok _, events) =>
    if eligible event then
      { s with
        events
        counts := Function.update s.counts event.skill (s.counts event.skill + 1)
        counted := s.counted ++ [source] }
    else { s with events }

/-- The handler of a message, up to its next commit. An exception of the storage is logged. -/
def handleMessage (stream : FeedbackStream) (m : ℕ) (works : Bool) (now : Datetime) (s : IngestState) : IngestState :=
  let l := s.lane stream
  let ended := setLane stream (endHandler m l)
  match parse host stream (l.entries.getD m []) with
  | .store event => if works then ended (append event (stream, m) s) else ended s
  | .quarantine =>
    if works then
      setLane stream { l with stage := .quarantine s.feedback.length }
        (append (sentinel (l.entries.getD m [])) (stream, m) s)
    else ended s
  | .ingest event => if works && admits s.registry event then ended (ingest event now (stream, m) s) else ended s
  | .drop => ended s

/-- The next commit of a listener. -/
def handle (stream : FeedbackStream) (works : Bool) (now : Datetime) (s : IngestState) : IngestState :=
  match (s.lane stream).batch, (s.lane stream).stage with
  | m :: _, .handler => handleMessage host stream m works now s
  | m :: _, .quarantine rowId =>
    setLane stream (endHandler m (s.lane stream)) (if works then quarantine rowId s else s)
  | _, _ => s

/-- The `finally` of the loop: `_ack`, and the switch after the last message of a short batch. -/
def ackLane (works : Bool) (l : StreamLane) : StreamLane :=
  match l.batch, l.stage with
  | m :: rest, .ack =>
    { l with
      batch := rest
      stage := .handler
      switched := l.switched || (rest.isEmpty && decide (l.size < 10))
      pending := if works then l.pending.filter (·.1 ≠ m) else l.pending
      acked := if works then l.acked ++ [m] else l.acked }
  | _, _ => l

/-- A new process: its listeners start with the history of a consumer of their own. -/
def restartLane (l : StreamLane) : StreamLane :=
  { l with
    switched := false
    batch := []
    size := 0
    stage := .handler
    inherited := l.pending.map (·.1)
    replayed := [] }

def step : IngestAction → IngestState → IngestState
  | .publish stream fields, s =>
    setLane stream { s.lane stream with entries := (s.lane stream).entries ++ [fields] } s
  | .setRegistry registry, s => { s with registry }
  | .read stream works, s => if works then setLane stream (readLane s.consumer (s.lane stream)) s else s
  | .handle stream works now, s => handle host stream works now s
  | .acknowledge stream works, s => setLane stream (ackLane works (s.lane stream)) s
  | .restart consumer, s =>
    { s with lane := fun stream => restartLane (s.lane stream), consumer, counts := fun _ => 0 }

/-! ## What ingestion is for -/

/-- The rows that were made of a message. -/
def rowsOf (s : IngestState) (source : FeedbackStream × ℕ) : List FeedbackRow :=
  s.feedback.filter (·.source = source)

/-- The row has what the event says, and is quarantined if the event is not eligible; the time of its insertion is left
open. -/
def records (event : RefineryEvent) (row : EventsRow) : Bool :=
  match EventsTable.eventRow event.toRefineryFeedbackEvent (!eligible event) (Datetime.ofMicros 0) with
  | .ok r => { r with createdAt := row.createdAt } = row
  | .error _ => false

/-- Of the rows of `events`, one has the id of the event, and it records the event. -/
def Recorded (events : List EventsRow) (event : RefineryEvent) : Prop :=
  ∃ row, events.filter (·.id = event.taskId.text) = [row] ∧ records event row = true

/-- Exactly one event is stored, or one sentinel is quarantined, for a message that was parsed so. -/
def storedAs (rows : List FeedbackRow) (events : List EventsRow) : Parsed → Prop
  | .store event => rows.map (fun r => (r.event, r.quarantined)) = [(event, false)]
  | .quarantine => rows.map (·.quarantined) = [true]
  | .ingest event => Recorded events event
  | .drop => False

/-- How often a message that was parsed so raises a count. -/
def countsAs : Parsed → ℕ
  | .ingest event => if eligible event then 1 else 0
  | _ => 0

/-- What the handler makes of a message of a stream. -/
def parsed (s : IngestState) (stream : FeedbackStream) (m : ℕ) : Parsed :=
  parse host stream ((s.lane stream).entries.getD m [])

/-- Exactly one event of the message is stored, or its sentinel is quarantined. -/
def StoredOnce (s : IngestState) (stream : FeedbackStream) (m : ℕ) : Prop :=
  storedAs (rowsOf s (stream, m)) s.events (parsed host s stream m)

/-- A message is acknowledged only when it is stored or quarantined; the worker reads all messages that it
inherits before it switches to new ones; and every message that was processed has one stored event and has
raised the count of its skill once, if it raises one. -/
structure NothingLost (s : IngestState) : Prop where
  acked : ∀ stream, ∀ m ∈ (s.lane stream).acked, StoredOnce host s stream m
  replayed : ∀ stream, (s.lane stream).switched = true →
    ∀ m ∈ (s.lane stream).inherited, m ∈ (s.lane stream).replayed
  processed : ∀ stream, ∀ m ∈ (s.lane stream).handled, StoredOnce host s stream m ∧
    s.counted.count (stream, m) = countsAs (parsed host s stream m)

/-- The event can be recorded: the row that has its id records it already, or there is none, its latency fits the column
and its confidence is a number. -/
def recordable (events : List EventsRow) (event : RefineryEvent) : Bool :=
  match events.find? (·.id = event.taskId.text) with
  | some row => records event row
  | none => (Sqlite.bindInt event.latencyMs).toOption.isSome && event.confidenceScore ≠ .nan

/-- A handler stores what it parsed so. -/
def storable (s : IngestState) : Parsed → Bool
  | .store _ => true
  | .quarantine => true
  | .ingest event => admits s.registry event && recordable s.events event
  | .drop => false

/-- The storage works and the handlers store all their messages; the process stops only when no message is
pending. -/
def Attended (action : IngestAction) (s : IngestState) : Prop :=
  match action with
  | .handle stream works _ => works = true ∧
      ((s.lane stream).stage = .handler →
        ∀ m ∈ (s.lane stream).batch.head?.toList, storable s (parsed host s stream m) = true)
  | .restart _ => ∀ stream ∈ [FeedbackStream.feedback, .escalated, .vega, .rigel],
      (s.lane stream).pending = []
  | _ => True

instance (action : IngestAction) (s : IngestState) : Decidable (Attended host action s) :=
  match action with
  | .publish _ _ => inferInstanceAs (Decidable True)
  | .setRegistry _ => inferInstanceAs (Decidable True)
  | .read _ _ => inferInstanceAs (Decidable True)
  | .acknowledge _ _ => inferInstanceAs (Decidable True)
  | .handle stream works _ => inferInstanceAs (Decidable (works = true ∧
      ((s.lane stream).stage = .handler →
        ∀ m ∈ (s.lane stream).batch.head?.toList, storable s (parsed host s stream m) = true)))
  | .restart _ => inferInstanceAs (Decidable (∀ stream ∈ [FeedbackStream.feedback, .escalated, .vega, .rigel],
      (s.lane stream).pending = []))

end IngestionWorker

end Galaxz
