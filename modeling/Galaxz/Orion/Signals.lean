import Galaxz.Andromeda.Routing
import Galaxz.Orion.Curation
import Galaxz.Orion.FeedbackLog

/-!
# From the feedback log to fine-tuning and to the datasets

`SignalExtractor.extract` sums up a window of the log, keeping one event of each input. The fine-tune step
of `HeuristicEngine.run_cycle` and the corrections of `DatasetCurator.curate` work on such a summary.
-/

namespace Galaxz

/-- `x / y` for integers, as a double. -/
def PyFloat.ratio (x y : ℕ) : PyFloat := .finite (PyFloat.toDouble (x / y))

/-- `round(x, digits)`. -/
def PyFloat.round (x : PyFloat) (digits : ℕ) : PyFloat :=
  match x with
  | .finite q => .finite (PyFloat.toDouble (roundHalfEven (q * 10 ^ digits) / 10 ^ digits))
  | x => x

/-! ## `orion/pipeline/signal_extraction.py` -/

structure SignalRecord where
  domain : String
  windowStart : Datetime
  windowEnd : Datetime
  totalEvents : ℕ
  completedCount : ℕ
  failedCount : ℕ
  escalatedCount : ℕ
  correctedCount : ℕ
  avgConfidence : PyFloat
  correctionRate : PyFloat
  escalationRate : PyFloat
  highQualityEvents : List FeedbackEvent
  correctionPairs : List (FeedbackEvent × List (PyKey × PyData))

namespace SignalExtractor

/-- One round of `_deduplicate`; the kept events stand in the order in which their inputs came. -/
def keepBest (best : List FeedbackEvent) (event : FeedbackEvent) : List FeedbackEvent :=
  if best.any (·.inputHash = event.inputHash) then
    best.map fun b =>
      if b.inputHash = event.inputHash ∧ b.confidenceScore.lt event.confidenceScore then event else b
  else best ++ [event]

/-- `_deduplicate`. -/
def deduplicate (events : List FeedbackEvent) : List FeedbackEvent := events.foldl keepBest []

/-- How many events have the outcome. -/
def outcomes (outcome : OutcomeType) (events : List FeedbackEvent) : ℕ :=
  events.countP (·.outcome = outcome)

/-- `x / total if total else 0.0`. -/
def rate (x total : ℕ) : PyFloat := if total = 0 then .finite 0 else PyFloat.ratio x total

/-- The double `0.9`. -/
def highConfidence : PyFloat := curateThreshold

/-- `extract`, from the window that `get_window` returned. -/
def summarize (domain : String) (windowStart windowEnd : Datetime) (events : List FeedbackEvent) :
    SignalRecord :=
  let deduped := deduplicate events
  let total := deduped.length
  { domain
    windowStart
    windowEnd
    totalEvents := total
    completedCount := outcomes .completed deduped
    failedCount := outcomes .failed deduped
    escalatedCount := outcomes .escalated deduped
    correctedCount := outcomes .corrected deduped
    avgConfidence := (Andromeda.mean (deduped.map (·.confidenceScore))).round 4
    correctionRate := (rate (outcomes .corrected deduped) total).round 4
    escalationRate := (rate (outcomes .escalated deduped) total).round 4
    highQualityEvents := deduped.filter fun e =>
      highConfidence.lt e.confidenceScore && e.humanCorrection.isNone
    correctionPairs := (deduped.filter (·.outcome = .corrected)).filterMap fun e =>
      e.humanCorrection.map fun c => (e, c) }

/-- `extract`; the clock is read once more by `get_window`. -/
def extract (domain : String) (windowHours : ℤ) (now windowNow : Datetime)
    (rows : List FeedbackEventRow) : Except PyError SignalRecord := do
  let windowStart ← now.add (-(windowHours * 3600000000))
  let events ← EventLog.getWindow domain windowHours windowNow rows
  .ok (summarize domain windowStart now events)

end SignalExtractor

/-! ## `orion/pipeline/heuristic_generation.py`, the fine-tune step -/

/-- The thresholds of `OrionConfig` for fine-tuning; `0.40` by default. -/
structure FineTuneConfig where
  correctionCount : ℤ := 200
  correctionRate : PyFloat := .finite (3602879701896397 / 9007199254740992)

/-- What the dataset store and Redis answer for a domain. -/
structure FineTuneHost where
  /-- `human_correction_count` of `get_domain_stats`, which raises for a file that it cannot read. -/
  humanCorrectionCount : String → Except PyError ℤ
  snapshot : String → Except PyError String
  /-- `_emit_fine_tune_trigger`. -/
  emit : String → String → Except PyError Unit

namespace HeuristicEngine

/-- `json.dumps(correction, sort_keys=True)`, for a correction whose keys are strings. -/
def sortedText (correction : List (PyKey × PyData)) : Except PyError String := do
  let v ← EventLog.dumpsText correction
  .ok (String.ofList (PyValue.text "" v.sortKeys))

/-- The loop of `_has_conflicting_corrections`; `seen` has the last text of each input. -/
def conflictsWith (seen : List (String × String)) :
    List (FeedbackEvent × List (PyKey × PyData)) → Except PyError Bool
  | [] => .ok false
  | (event, correction) :: pairs => do
    let text ← sortedText correction
    if (seen.lookup event.inputHash).any (· ≠ text) then .ok true
    else conflictsWith ((event.inputHash, text) :: seen) pairs

/-- `_has_conflicting_corrections`. -/
def hasConflictingCorrections (signal : SignalRecord) : Except PyError Bool :=
  conflictsWith [] signal.correctionPairs

variable (cfg : FineTuneConfig) (host : FineTuneHost)

/-- `_check_fine_tune`: whether a trigger was fired. -/
def checkFineTune (signal : SignalRecord) : Except PyError Bool := do
  let correctionCount ← host.humanCorrectionCount signal.domain
  if cfg.correctionCount ≤ correctionCount ∨ cfg.correctionRate.le signal.correctionRate = true then do
    let path ← host.snapshot signal.domain
    host.emit signal.domain path
    .ok true
  else .ok false

/-- Step 3 of `run_cycle`: the domains whose trigger was fired, and how the loop ended. -/
def fineTuneStep : List SignalRecord → List String × Except PyError Unit
  | [] => ([], .ok ())
  | signal :: signals =>
    match hasConflictingCorrections signal with
    | .error e => ([], .error e)
    | .ok true => fineTuneStep signals
    | .ok false =>
      match checkFineTune cfg host signal with
      | .error e => ([], .error e)
      | .ok true => (signal.domain :: (fineTuneStep signals).1, (fineTuneStep signals).2)
      | .ok false => fineTuneStep signals

end HeuristicEngine

/-- Two corrected events of one input with different corrections. -/
def Conflicting (events : List FeedbackEvent) : Prop :=
  ∃ a ∈ events, ∃ b ∈ events, (a.outcome = .corrected ∧ b.outcome = .corrected ∧
    a.inputHash = b.inputHash) ∧ ∃ c ∈ a.humanCorrection, ∃ d ∈ b.humanCorrection,
      HeuristicEngine.sortedText c ≠ HeuristicEngine.sortedText d

instance (events : List FeedbackEvent) : Decidable (Conflicting events) := by
  unfold Conflicting
  infer_instance

/-! ## `orion/pipeline/dataset_curation.py`, the corrections -/

/-- The example of an event. -/
structure CuratedExample where
  prompt : String
  completion : String
  skillId : String
  confidence : PyFloat
  humanVerified : Bool
  taskId : String
  createdAt : String
  domain : DatasetDomain
  qualityWeight : PyFloat

namespace DatasetCurator

/-- `_domain_for_task_type`. -/
def domainForTaskType (taskType : String) (agentId : Option String) : Option DatasetDomain :=
  if "qa.".isPrefixOf taskType || agentId = some "vega" then some .vega
  else if "rigel.".isPrefixOf taskType || agentId = some "rigel" then some .rigel
  else none

/-- `_domain_for_event`. -/
def domainForEvent (event : FeedbackEvent) : Option DatasetDomain :=
  domainForTaskType event.taskCategory (some event.agentId)

/-- `value if isinstance(value, dict) else {key: value}`. -/
def asPayload (key : String) : PyData → List (PyKey × PyData)
  | .dict items => items
  | value => [(.str key, value)]

/-- `_task_payload`; an event has no attribute `task_payload`. -/
def taskPayload (event : FeedbackEvent) : List (PyKey × PyData) :=
  let value := fun key : String => PyData.lookup (.str key) event.agentOutput
  match value "task_payload", value "payload", value "input" with
  | some v, _, _ => asPayload "task_payload" v
  | none, some v, _ => asPayload "payload" v
  | none, none, some v => asPayload "input" v
  | none, none, none => event.agentOutput

/-- `json.dumps(payload)`. -/
def jsonText (payload : List (PyKey × PyData)) : Except PyError String := do
  let v ← EventLog.dumpsText payload
  .ok (String.ofList (PyValue.text "" v))

/-- `_example_for_event`, for a completion that is a `dict`. -/
def exampleForEvent (event : FeedbackEvent) (domain : DatasetDomain)
    (completionPayload : List (PyKey × PyData)) (qualityWeight : PyFloat) (now : Datetime) :
    Except PyError (Option CuratedExample) :=
  if (taskPayload event).isEmpty || completionPayload.isEmpty then .ok none
  else do
    let prompt ← jsonText (taskPayload event)
    let completion ← jsonText completionPayload
    if strip prompt = "" ∨ strip completion = "" then .ok none
    else .ok (some {
      prompt
      completion
      skillId := event.taskCategory
      confidence := event.confidenceScore
      humanVerified := event.humanVerified
      taskId := event.taskId.text
      createdAt := now.isoformat
      domain
      qualityWeight })

/-- The example that the first loop of `curate` makes of a correction, if it makes one. -/
def correctionExample (now : Datetime) (event : FeedbackEvent) (correction : List (PyKey × PyData)) :
    Except PyError (Option CuratedExample) :=
  if event.humanVerified = false then .ok none
  else
    match domainForEvent event with
    | none => .ok none
    | some domain => exampleForEvent event domain correction (.finite 1) now

/-- The first loop of `curate`: the examples it appends. -/
def curateCorrections (now : Datetime) :
    List (FeedbackEvent × List (PyKey × PyData)) → Except PyError (List CuratedExample)
  | [] => .ok []
  | (event, correction) :: pairs => do
    let example? ← correctionExample now event correction
    let examples ← curateCorrections now pairs
    .ok (example?.toList ++ examples)

end DatasetCurator

/-- A human correction that was verified when its event was appended, and that the window selects. -/
def VerifiedCorrection (log : FeedbackLog) (domain : String) (cutoff : Datetime) (event : FeedbackEvent) :
    Prop :=
  ∃ row ∈ log.rows, (row.id, event) ∈ log.appended ∧
    EventLog.inWindow (·.taskCategory) domain cutoff row = true ∧
    event.humanVerified = true ∧ event.humanCorrection ≠ none

end Galaxz
