import Galaxz.Lib.Machine
import Galaxz.Lib.PyValue
import Mathlib.Data.List.Sort
import Mathlib.Logic.Function.Basic

/-!
# `OrionService._curate_from_events`, `EventLog` and `DatasetStore`

Events are selected, buffered in memory, marked as curated in the database, and written to a dataset file
when the buffer is large. A run of `_curate_from_events` may be suspended between any two of these steps
while other runs go on, and the service may stop at any time, with what its buffers hold.
-/

namespace Galaxz

/-- `_CURATE_DOMAINS`, which are the `VALID_DOMAINS` of the dataset store. -/
inductive DatasetDomain where
  | vega
  | rigel
deriving DecidableEq

/-- The columns of `events` that curation reads, but for the texts of the example. -/
structure CurateEvent where
  eventId : String
  domain : String
  outcome : String
  confidence : PyFloat
  humanVerified : Bool
  payload : Option String := none
  result : Option String := none
  createdAt : String
  quarantined : Bool := false
deriving DecidableEq

/-- An example in a buffer; one that `DatasetCurator` made comes from no event. -/
structure DatasetExample where
  source : Option String
  humanVerified : Bool
deriving DecidableEq

/-- How far a run of `_curate_from_events` is. -/
inductive CuratePhase where
  | ready
  /-- The domains that are still to be done. -/
  | selected (groups : List (DatasetDomain × List CurateEvent))
  /-- The events of a domain are in the buffer and not marked. -/
  | buffered (ids : List String) (domain : DatasetDomain) (groups : List (DatasetDomain × List CurateEvent))
  | marked (domain : DatasetDomain) (groups : List (DatasetDomain × List CurateEvent))
  | done
  | raised
deriving DecidableEq

/-- Both tables, the events in the dataset files in the order they were written, and the service: its
buffers and its runs. -/
structure CurationState where
  events : List CurateEvent := []
  curated : List String := []
  files : List String := []
  buffer : DatasetDomain → List DatasetExample := fun _ => []
  runs : List CuratePhase := []

inductive CurationAction where
  /-- `append_event`, or another insert that leaves an event that is there. -/
  | arrive (event : CurateEvent)
  /-- `DatasetCurator` appends an example. -/
  | append (domain : DatasetDomain) (humanVerified : Bool)
  /-- A run starts, from `ingest` or from the extraction cycle. -/
  | start
  /-- A run goes on to its next step. -/
  | advance (i : ℕ)
  | flush (domain : DatasetDomain)
  /-- A flush that ends after some examples are written. -/
  | tornFlush (domain : DatasetDomain) (count : ℕ)
  /-- The service stops and starts again. -/
  | restart

/-- The domain of an event, if it is one of the two. -/
def DatasetDomain.ofText (domain : String) : Option DatasetDomain :=
  if domain = "vega" then some .vega else if domain = "rigel" then some .rigel else none

/-- The double that `0.9` is. -/
def curateThreshold : PyFloat := .finite (8106479329266893 / 9007199254740992)

namespace CurateEvent

/-- The condition of `get_uncurated_events`. -/
def wanted (e : CurateEvent) : Bool :=
  !e.quarantined && (e.humanVerified || (curateThreshold.le e.confidence && e.outcome = "success"))

/-- `json.loads(text) if text else {}`, of which an item is read. -/
def objectOf (loads : String → Except PyError PyValue) : Option String → Except PyError PyDict
  | none => .ok []
  | some text =>
    if text = "" then .ok []
    else do
      match ← loads text with
      | .dict items => .ok items
      | _ => .error (.attributeError "object has no attribute 'get'")

/-- The example of the event can be built. -/
def readable (loads : String → Except PyError PyValue) (e : CurateEvent) : Bool :=
  !raised (objectOf loads e.payload) && !raised (objectOf loads e.result)

/-- The example of the event. -/
def toExample (e : CurateEvent) : DatasetExample :=
  { source := some e.eventId, humanVerified := e.humanVerified }

end CurateEvent

namespace OrionService

variable (loads : String → Except PyError PyValue)

/-- `get_uncurated_events`. -/
def uncuratedEvents (s : CurationState) : List CurateEvent :=
  (s.events.filter fun e => e.wanted && !s.curated.contains e.eventId).insertionSort
    fun a b => a.createdAt ≤ b.createdAt

/-- The domains in the order in which they come first. -/
def firstSeen : List DatasetDomain → List DatasetDomain
  | [] => []
  | d :: ds => d :: (firstSeen ds).filter (· ≠ d)

/-- `by_domain`. -/
def byDomain (rows : List CurateEvent) : List (DatasetDomain × List CurateEvent) :=
  (firstSeen (rows.filterMap fun e => DatasetDomain.ofText e.domain)).map fun d =>
    (d, rows.filter fun e => DatasetDomain.ofText e.domain = some d)

/-- `should_flush`. -/
def shouldFlush (domain : DatasetDomain) (s : CurationState) : Bool :=
  100 ≤ (s.buffer domain).countP (·.humanVerified) || 500 ≤ (s.buffer domain).length

/-- `flush`. -/
def flush (domain : DatasetDomain) (s : CurationState) : CurationState :=
  { s with
    files := s.files ++ (s.buffer domain).filterMap (·.source)
    buffer := Function.update s.buffer domain [] }

/-- The run is now in the phase. -/
def setPhase (i : ℕ) (phase : CuratePhase) (s : CurationState) : CurationState :=
  { s with runs := s.runs.modify i fun _ => phase }

/-- The events of a domain are appended to its buffer; one whose texts cannot be read ends the run. -/
def appendRows (i : ℕ) (domain : DatasetDomain) (rows : List CurateEvent)
    (groups : List (DatasetDomain × List CurateEvent)) (s : CurationState) : CurationState :=
  let read := rows.takeWhile (·.readable loads)
  let s := { s with
    buffer := Function.update s.buffer domain (s.buffer domain ++ read.map (·.toExample)) }
  if rows.all (·.readable loads) then setPhase i (.buffered (rows.map (·.eventId)) domain groups) s
  else setPhase i .raised s

/-- The next step of a run. -/
def advance (i : ℕ) (s : CurationState) : CurationState :=
  match s.runs[i]? with
  | none => s
  | some .ready => setPhase i (.selected (byDomain (uncuratedEvents s))) s
  | some (.selected []) => setPhase i .done s
  | some (.selected ((domain, rows) :: groups)) => appendRows loads i domain rows groups s
  | some (.buffered ids domain groups) =>
    { setPhase i (.marked domain groups) s with
      curated := s.curated ++ ids.filter fun id => !s.curated.contains id }
  | some (.marked domain groups) =>
    setPhase i (.selected groups) (if shouldFlush domain s then flush domain s else s)
  | some .done => s
  | some .raised => s

def step : CurationAction → CurationState → CurationState
  | .arrive event, s =>
    if s.events.any (·.eventId = event.eventId) then s else { s with events := s.events ++ [event] }
  | .append domain humanVerified, s =>
    { s with
      buffer := Function.update s.buffer domain (s.buffer domain ++ [{ source := none, humanVerified }]) }
  | .start, s => { s with runs := s.runs ++ [.ready] }
  | .advance i, s => advance loads i s
  | .flush domain, s => flush domain s
  | .tornFlush domain count, s =>
    { s with files := s.files ++ ((s.buffer domain).take count).filterMap (·.source) }
  | .restart, s => { s with buffer := fun _ => [], runs := [] }

/-! ## Examples of events -/

/-- The events in the buffers. -/
def bufferedIds (s : CurationState) : List String :=
  (s.buffer .vega ++ s.buffer .rigel).filterMap (·.source)

/-- No event is written twice, and every event that is marked is in a file or in a buffer. -/
def ExactlyOnce (s : CurationState) : Prop :=
  s.files.Nodup ∧ ∀ id ∈ s.curated, id ∈ s.files ∨ id ∈ bufferedIds s

end OrionService

/-- The events that a run has selected and not marked. -/
def CuratePhase.unmarked : CuratePhase → List String
  | .selected groups => groups.flatMap fun g => g.2.map (·.eventId)
  | .buffered ids _ groups => ids ++ groups.flatMap fun g => g.2.map (·.eventId)
  | .marked _ groups => groups.flatMap fun g => g.2.map (·.eventId)
  | _ => []

/-- A run selects no event that another has selected and not marked, and no text stops it. -/
def CuratePhase.Steady (loads : String → Except PyError PyValue) (s : CurationState) :
    Option CuratePhase → Prop
  | some .ready => ∀ e ∈ OrionService.uncuratedEvents s, ∀ run ∈ s.runs, e.eventId ∉ run.unmarked
  | some (.selected (group :: _)) => ∀ e ∈ group.2, e.readable loads = true
  | _ => True

/-- Runs go on steadily. A flush that ends early has written no event. The service stops only when no event
in its buffers is marked and every event in the files is. -/
def CurationAction.Steady (loads : String → Except PyError PyValue) : CurationAction → CurationState → Prop
  | .advance i, s => CuratePhase.Steady loads s s.runs[i]?
  | .tornFlush domain count, s => ((s.buffer domain).take count).filterMap (·.source) = []
  | .restart, s => (∀ id ∈ OrionService.bufferedIds s, id ∉ s.curated) ∧ ∀ id ∈ s.files, id ∈ s.curated
  | _, _ => True

instance (loads : String → Except PyError PyValue) (s : CurationState) :
    (phase : Option CuratePhase) → Decidable (CuratePhase.Steady loads s phase)
  | none => inferInstanceAs (Decidable True)
  | some .ready => inferInstanceAs (Decidable (∀ e ∈ OrionService.uncuratedEvents s, ∀ run ∈ s.runs,
      e.eventId ∉ run.unmarked))
  | some (.selected []) => inferInstanceAs (Decidable True)
  | some (.selected (group :: _)) => inferInstanceAs (Decidable (∀ e ∈ group.2, e.readable loads = true))
  | some (.buffered _ _ _) => inferInstanceAs (Decidable True)
  | some (.marked _ _) => inferInstanceAs (Decidable True)
  | some .done => inferInstanceAs (Decidable True)
  | some .raised => inferInstanceAs (Decidable True)

instance (loads : String → Except PyError PyValue) :
    (action : CurationAction) → (s : CurationState) → Decidable (action.Steady loads s)
  | .arrive _, _ => inferInstanceAs (Decidable True)
  | .append _ _, _ => inferInstanceAs (Decidable True)
  | .start, _ => inferInstanceAs (Decidable True)
  | .advance i, s => inferInstanceAs (Decidable (CuratePhase.Steady loads s s.runs[i]?))
  | .flush _, _ => inferInstanceAs (Decidable True)
  | .tornFlush domain count, s =>
    inferInstanceAs (Decidable (((s.buffer domain).take count).filterMap (·.source) = []))
  | .restart, s => inferInstanceAs (Decidable ((∀ id ∈ OrionService.bufferedIds s, id ∉ s.curated) ∧
      ∀ id ∈ s.files, id ∈ s.curated))

end Galaxz
