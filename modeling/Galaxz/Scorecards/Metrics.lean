import Galaxz.Lib.Mapping
import Galaxz.Orion.EventsTable
import Galaxz.Orion.Signals

/-!
# `core/scorecards/metrics.py`

A scorecard sums up the events of one agent with one skill in the last days. The confidence interval of the
success rate is left out.
-/

namespace Galaxz

/-- What a query returns of an event. -/
structure ScoredEvent where
  agentId : String
  skillId : String
  outcome : String
  confidence : PyFloat
  humanVerified : Bool
  latencyMs : Option ℤ
deriving DecidableEq

structure Scorecard where
  issuer : String
  agentId : String
  skillId : String
  issuedAt : String
  windowFrom : String
  windowTo : String
  days : ℕ
  tasks : ℕ
  successRate : PyFloat
  partialRate : PyFloat
  failRate : PyFloat
  avgConfidence : PyFloat
  humanVerifiedRate : PyFloat
  latencyMsP50 : Option ℤ
  latencyMsP95 : Option ℤ
  sufficient : Bool

namespace Scorecards

/-- `MIN_TASKS`. -/
def minTasks : ℕ := 20

/-- `_percentile`. -/
def percentile (sortedValues : List ℤ) (q : ℕ) : Option ℤ :=
  let rank := max 1 ⌈PyFloat.toDouble (PyFloat.toDouble (q / 100) * sortedValues.length)⌉
  sortedValues[(rank - 1).toNat]?

/-- `_iso`, where `Z` stands for UTC. -/
def isoText (moment : Datetime) : String :=
  String.ofList (moment.isoformat.toList.take (moment.isoformat.length - 6) ++ ['Z'])

/-- `event` of a row. -/
def scoredEvent (row : EventsRow) : ScoredEvent where
  agentId := row.agentId
  skillId := row.skillId
  outcome := row.outcome
  confidence := row.confidence
  humanVerified := row.humanVerified
  latencyMs := row.latencyMs

/-- `_scorecard`, for a key of a group and its events. -/
def scorecard (issuer : String) (days : ℕ) (now windowFrom : Datetime) (group : (String × String) × List ScoredEvent) : Scorecard :=
  let events := group.2
  let rate (p : ScoredEvent → Bool) := (PyFloat.ratio (events.countP p) events.length).round 4
  let latencies := (events.filterMap (·.latencyMs)).insertionSort (· ≤ ·)
  { issuer
    agentId := group.1.2
    skillId := group.1.1
    issuedAt := isoText now
    windowFrom := isoText windowFrom
    windowTo := isoText now
    days
    tasks := events.length
    successRate := rate (·.outcome = "success")
    partialRate := rate (·.outcome = "partial")
    failRate := rate (·.outcome = "fail")
    avgConfidence := (Andromeda.mean (events.map (·.confidence))).round 4
    humanVerifiedRate := rate (·.humanVerified)
    latencyMsP50 := percentile latencies 50
    latencyMsP95 := percentile latencies 95
    sufficient := minTasks ≤ events.length }

/-- The rows that the query selects; without a skill it takes every skill. -/
def scoredRows (cutoff : Datetime) (skillId : Option String) (rows : List EventsRow) : List EventsRow :=
  rows.filter fun row => !row.quarantined && cutoff.sqlText ≤ row.createdAt && skillId.all (row.skillId = ·)

/-- `groups.setdefault((skill, agent), []).append(..)`. -/
def addToGroup (groups : Mapping (String × String) (List ScoredEvent)) (event : ScoredEvent) :
    Mapping (String × String) (List ScoredEvent) :=
  groups.set (event.skillId, event.agentId) (((groups.get (event.skillId, event.agentId)).getD []) ++ [event])

/-- The order of the keys. -/
def keyLe (a b : String × String) : Bool := a.1 < b.1 || (a.1 = b.1 && a.2 ≤ b.2)

/-- What the query of `build_scorecards` returns. -/
def fetchedRows (days : ℕ) (skillId : Option String) (now : Datetime) (rows : List EventsRow) :
    Except PyError (List EventsRow) := do
  let cutoff ← now.add (-(days * 86400000000))
  .ok (scoredRows cutoff skillId rows)

/-- `build_scorecards`. -/
def buildScorecards (days : ℕ) (issuer : String) (skillId : Option String) (now : Datetime) (rows : List EventsRow) :
    Except PyError (List Scorecard) := do
  let fetched ← fetchedRows days skillId now rows
  let windowFrom ← now.add (-(days * 86400000000))
  let groups := (fetched.map scoredEvent).foldl addToGroup {}
  .ok ((groups.items.insertionSort fun a b => keyLe a.1 b.1).map (scorecard issuer days now windowFrom))

end Scorecards

end Galaxz
