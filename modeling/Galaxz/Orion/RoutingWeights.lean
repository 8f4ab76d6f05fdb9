import Galaxz.Lib.Doubles
import Galaxz.Lib.Mapping
import Galaxz.Orion.Signals

/-!
# `orion/pipeline/heuristic_generator.py`, `orion/core/weights_loader.py`

`HeuristicGenerator.run` reads the feedback events of every skill of the weights file and writes new
weights for those that have improved. The metrics of the last update are kept for each skill, the version
for the file as a whole.
-/

namespace Galaxz

namespace PyFloat

/-- `-x`. -/
def neg : PyFloat → PyFloat
  | finite a => finite (-a)
  | posInf => negInf
  | negInf => posInf
  | nan => nan

/-- `x - y`. -/
def sub (x y : PyFloat) : PyFloat := x.add y.neg

/-- `abs(x)`. -/
def abs (x : PyFloat) : PyFloat := if x.lt (finite 0) then x.neg else x

/-- `x / y`, for a `y` that is positive or no number. -/
def div : PyFloat → PyFloat → PyFloat
  | nan, _ => nan
  | _, nan => nan
  | finite a, finite b => ofProduct (toDouble (a / b))
  | finite _, _ => finite 0
  | x, finite _ => x
  | _, _ => nan

end PyFloat

/-- The weights of a skill, by agent. -/
abbrev Weights := Mapping String PyFloat

/-- `last_update_metrics` of a skill. -/
structure UpdateMetrics where
  avgConfidence : Option PyFloat := none
  eventCount : Option ℕ := none
deriving DecidableEq

/-- The weights file as it is parsed, with the values `get` takes where a key is missing. -/
structure WeightsFile where
  version : ℤ := 0
  source : Option String := none
  updatedAt : Option String := none
  coldStartThreshold : ℤ := 50
  weights : Mapping String Weights := {}
  lastUpdateMetrics : Mapping String UpdateMetrics := {}
deriving DecidableEq

/-- The hours of the longest window. -/
def weekHours : ℕ := 168

/-- What the clock of a run shows: not the first week of the first year. -/
structure RunClock where
  now : Datetime
  week_le : weekHours * 3600000000 ≤ now.micros
deriving DecidableEq

namespace RunClock

/-- `now - timedelta(hours=hours)`. -/
def before (clock : RunClock) (hours : ℕ) : Datetime :=
  ⟨clock.now.micros - hours * 3600000000, lt_of_le_of_lt (Nat.sub_le _ _) clock.now.micros_lt⟩

end RunClock

/-! ## `RoutingWeightsLoader` -/

namespace RoutingWeightsLoader

/-- `get_weights`. -/
def getWeights (data : WeightsFile) (skillId : String) : Weights := (data.weights.get skillId).getD {}

/-- `last_version`. -/
def lastVersion (data : WeightsFile) : ℤ := data.version

end RoutingWeightsLoader

/-! ## `HeuristicGenerator` -/

structure SkillAnalysis where
  skillId : String
  eventCount : ℕ
  avgConfidence : PyFloat
  successRate : PyFloat
  humanEscalationRate : PyFloat
  belowColdStartThreshold : Bool
deriving DecidableEq

structure DriftReport where
  skillId : String
  baseline : PyFloat
  current : PyFloat
  drop : PyFloat
  agentId : String
deriving DecidableEq

structure HeuristicSummary where
  updatedSkills : List String := []
  driftDetected : List DriftReport := []
  skippedColdStart : List String := []
deriving DecidableEq

/-- What a run reads: the events, the file, and the clock in each query about a skill. -/
structure HeuristicRun where
  events : List FeedbackEventRow
  data : WeightsFile
  clock : String → ℕ → RunClock
  /-- The clock when the file is written. -/
  finished : Datetime

namespace HeuristicGenerator

/-- `SUCCESS_OUTCOMES`. -/
def successOutcomes : List String := ["success", "completed", "approved"]

/-- `HUMAN_ESCALATION_OUTCOMES`. -/
def humanEscalationOutcomes : List String := ["escalated", "approved", "rejected"]

/-- `WEIGHT_TOLERANCE`, the double `0.05`. -/
def weightTolerance : PyFloat := .finite (3602879701896397 / 72057594037927936)

/-- `IMPROVEMENT_THRESHOLD`, the double `0.05`. -/
def improvementThreshold : PyFloat := .finite (3602879701896397 / 72057594037927936)

/-- `DRIFT_DROP_THRESHOLD`, the double `0.10`. -/
def driftDropThreshold : PyFloat := .finite (3602879701896397 / 36028797018963968)

/-- `DEFAULT_AGENT_IDS`. -/
def defaultAgentIds : List String := ["vega", "rigel"]

/-- `_query_events`. -/
def queryEvents (events : List FeedbackEventRow) (clock : RunClock) (skillId : String) (windowHours : ℕ)
    (beforeHours : ℕ := 0) : List FeedbackEventRow :=
  let windowEnd := (clock.before beforeHours).isoformat
  let windowStart := (clock.before (beforeHours + windowHours)).isoformat
  (events.filter fun row => row.taskCategory = skillId && (windowStart ≤ row.timestamp && row.timestamp < windowEnd &&
    !row.quarantined)).insertionSort fun a b => a.timestamp ≤ b.timestamp

/-- `_group_confidence_by_agent`. -/
def groupConfidenceByAgent (rows : List FeedbackEventRow) : Mapping String (List PyFloat) :=
  rows.foldl (fun grouped row =>
    grouped.set row.agentId (((grouped.get row.agentId).getD []) ++ [row.confidenceScore])) {}

/-- `_weights_match`. -/
def weightsMatch (current suggested : Weights) : Bool :=
  let agentIds := current.keys ++ suggested.keys
  !agentIds.isEmpty && agentIds.all fun agentId =>
    (PyFloat.abs (((current.get agentId).getD (.finite 0)).sub ((suggested.get agentId).getD (.finite 0)))).le
      weightTolerance

/-- `analyze`, from the rows that its query returns. -/
def analyzeRows (data : WeightsFile) (skillId : String) (rows : List FeedbackEventRow) : SkillAnalysis where
  skillId
  eventCount := rows.length
  avgConfidence := (Andromeda.mean (rows.map (·.confidenceScore))).round 4
  successRate :=
    if rows.isEmpty then .finite 0
    else (PyFloat.ratio (rows.countP fun row => successOutcomes.contains row.outcome) rows.length).round 4
  humanEscalationRate :=
    if rows.isEmpty then .finite 0
    else (PyFloat.ratio (rows.countP fun row =>
      humanEscalationOutcomes.contains row.outcome || row.agentId = "human_reviewer") rows.length).round 4
  belowColdStartThreshold := (rows.length : ℤ) < data.coldStartThreshold

/-- `max(score, 0.0)`. -/
def atLeastZero (score : PyFloat) : PyFloat := if PyFloat.lt score (.finite 0) then .finite 0 else score

/-- `_suggested_weights`, from the rows that its query returns. -/
def suggestedFrom (current : Weights) (rows : List FeedbackEventRow) : Weights :=
  if rows.isEmpty then {}
  else
    let scored := (groupConfidenceByAgent rows).mapValues fun scores => atLeastZero (Andromeda.mean scores)
    let agentScores := (if current.items.isEmpty then defaultAgentIds else current.keys).foldl
      (fun scores agentId => scores.setdefault agentId (.finite 0)) scored
    let total := agentScores.values.foldl PyFloat.add (.finite 0)
    if total.le (.finite 0) then
      let equal := PyFloat.ratio 1 agentScores.items.length
      agentScores.sorted.mapValues fun _ => equal.round 4
    else agentScores.sorted.mapValues fun score => (score.div total).round 4

variable (r : HeuristicRun) (skillId : String)

/-- The rows of the last week, in the `i`-th query about the skill. -/
def weekRows (i : ℕ) : List FeedbackEventRow := queryEvents r.events (r.clock skillId i) skillId weekHours

/-- `analyze`, in the `i`-th query. -/
def analyze (i : ℕ) : SkillAnalysis := analyzeRows r.data skillId (weekRows r skillId i)

/-- `_suggested_weights`, in the `i`-th query. -/
def suggestedWeights (i : ℕ) : Weights :=
  suggestedFrom (RoutingWeightsLoader.getWeights r.data skillId) (weekRows r skillId i)

/-- `_last_avg_confidence`, whose query is the `i`-th. -/
def lastAvgConfidence (i : ℕ) : PyFloat :=
  match (r.data.lastUpdateMetrics.get skillId).bind (·.avgConfidence) with
  | some avg => avg
  | none =>
    if RoutingWeightsLoader.lastVersion r.data = 0 then .finite 0 else (analyze r skillId i).avgConfidence

/-- `should_update_weights`, with the queries from `1` on. -/
def shouldUpdateWeights : Bool :=
  let analysis := analyze r skillId 1
  if (analysis.eventCount : ℤ) < r.data.coldStartThreshold then false
  else
    let suggested := suggestedWeights r skillId 2
    if suggested.items.isEmpty then false
    else
      let improved := improvementThreshold.lt (analysis.avgConfidence.sub (lastAvgConfidence r skillId 3))
      if weightsMatch (RoutingWeightsLoader.getWeights r.data skillId) suggested then
        RoutingWeightsLoader.lastVersion r.data = 0 && improved
      else improved

/-- `generate_weight_update`. -/
def generateWeightUpdate : Option Weights :=
  if shouldUpdateWeights r skillId then some (suggestedWeights r skillId 4) else none

/-- The drift of an agent, from its scores of the last day and of the six days before. -/
def agentDrift (agentId : String) (currentScores baselineScores : List PyFloat) : Option DriftReport :=
  let baseline := Andromeda.mean baselineScores
  let current := Andromeda.mean currentScores
  let drop := baseline.sub current
  if drop.le driftDropThreshold then none
  else some { skillId, baseline := baseline.round 4, current := current.round 4, drop := drop.round 4, agentId }

/-- One round of the loop of `detect_drift`. -/
def strongerDrift (baselineByAgent : Mapping String (List PyFloat)) (strongest : Option DriftReport)
    (entry : String × List PyFloat) : Option DriftReport :=
  match (baselineByAgent.get entry.1).filter (fun scores => !scores.isEmpty) with
  | none => strongest
  | some baselineScores =>
    match agentDrift skillId entry.1 entry.2 baselineScores with
    | none => strongest
    | some drift =>
      match strongest with
      | none => some drift
      | some known => if known.drop.lt drift.drop then some drift else some known

/-- `detect_drift`, with the queries `5` and `6`. -/
def detectDrift : Option DriftReport :=
  let currentRows := queryEvents r.events (r.clock skillId 5) skillId 24
  let baselineRows := queryEvents r.events (r.clock skillId 6) skillId 144 24
  if currentRows.isEmpty || baselineRows.isEmpty then none
  else (groupConfidenceByAgent currentRows).items.foldl
    (strongerDrift skillId (groupConfidenceByAgent baselineRows)) none

/-- What the loop of `run` has gathered. -/
structure Progress where
  summary : HeuristicSummary := {}
  weights : Mapping String Weights
  metrics : Mapping String UpdateMetrics

/-- One round of the loop of `run`. -/
def runSkill (p : Progress) (skillId : String) : Progress :=
  let analysis := analyze r skillId 0
  let skipped := if analysis.belowColdStartThreshold then [skillId] else []
  let drift := (detectDrift r skillId).toList
  match generateWeightUpdate r skillId with
  | none =>
    { p with
      summary := { p.summary with
        driftDetected := p.summary.driftDetected ++ drift
        skippedColdStart := p.summary.skippedColdStart ++ skipped } }
  | some update =>
    { summary := {
        updatedSkills := p.summary.updatedSkills ++ [skillId]
        driftDetected := p.summary.driftDetected ++ drift
        skippedColdStart := p.summary.skippedColdStart ++ skipped }
      weights := p.weights.set skillId update
      metrics := p.metrics.set skillId ⟨some analysis.avgConfidence, some analysis.eventCount⟩ }

/-- The loop of `run`, over the skills of the file. -/
def runSkills : Progress :=
  r.data.weights.keys.foldl (runSkill r) { weights := r.data.weights, metrics := r.data.lastUpdateMetrics }

/-- `run`: its summary, and the file after it. -/
def run : HeuristicSummary × WeightsFile :=
  let p := runSkills r
  if p.summary.updatedSkills.isEmpty then (p.summary, r.data)
  else (p.summary, { r.data with
    version := r.data.version + 1
    source := some "heuristic_generator"
    updatedAt := some r.finished.isoformat
    weights := p.weights
    lastUpdateMetrics := p.metrics })

end HeuristicGenerator

end Galaxz
