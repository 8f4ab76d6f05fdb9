import Galaxz.Contracts.Jobs
import Galaxz.Lib.Prog
import Galaxz.Lib.Sqlite
import Galaxz.Policy.Grants
import Galaxz.Pulsar.Registry

/-!
# `agents/andromeda`: the routing graph

The nodes of the graph, its edges, and a run of it. What the nodes read from outside (grants, registry,
weights, agents) are calls of the program, so that anything may happen between two of them. The state
keeps the fields that nodes read; the texts and times they only report are left out.
-/

namespace Galaxz

namespace PyFloat

/-- `x + y`. -/
def add : PyFloat → PyFloat → PyFloat
  | nan, _ => nan
  | _, nan => nan
  | finite a, finite b => ofProduct (toDouble (a + b))
  | finite _, y => y
  | x, finite _ => x
  | posInf, posInf => posInf
  | negInf, negInf => negInf
  | posInf, negInf => nan
  | negInf, posInf => nan

/-- `x / n` for a positive `int`. -/
def divNat (x : PyFloat) (n : ℕ) : PyFloat :=
  match x with
  | finite a => ofProduct (toDouble (a / n))
  | x => x

/-- `max(xs, key=key)`: the first element with the largest key. -/
def maxBy {α : Type} (key : α → PyFloat) : α → List α → α
  | best, [] => best
  | best, x :: xs => maxBy key (if lt (key best) (key x) then x else best) xs

end PyFloat

/-- `status` of the routing state. -/
inductive RoutingStatus where
  | routing
  | assigned
  | failed
  | complete
  | escalated
  | noAgentFound
deriving DecidableEq

structure AndromedaState where
  taskId : String
  origin : Option String := none
  requiredSkills : List String
  payload : PyDict := []
  context : PyDict := []
  matchedAgents : List String := []
  assignedAgent : Option String := none
  result : Option PyDict := none
  confidence : Option PyFloat := none
  confidenceThreshold : Option PyFloat := none
  confidenceBreakdown : Option PyDict := none
  gaps : List String := []
  status : RoutingStatus := .routing
  retryCount : ℕ := 0
  failureReason : Option String := none
  escalatedToHuman : Bool := false

/-- What the nodes of the graph ask for. -/
inductive RoutingCall where
  /-- `grants.consume(..)`. -/
  | consume (key : GrantKey)
  /-- The content of the registry, under its lock. -/
  | agents
  /-- `weights_loader.get_weights(skill_id)`. -/
  | getWeights (skillId : String)
  /-- Whether `self._agents` has an agent. -/
  | hasAgent (agentId : String)
  /-- `agent.run(skill_id, payload, context)`. -/
  | runAgent (agentId skillId : String) (payload context : PyDict)

/-- What they are answered; an agent returns a value or raises an exception with a text. -/
@[reducible] def RoutingCall.Answer : RoutingCall → Type
  | .consume _ => Bool
  | .agents => List SkillManifest
  | .getWeights _ => List (String × PyFloat)
  | .hasAgent _ => Bool
  | .runAgent _ _ _ _ => Except String PyValue

/-- A program of the routing graph. -/
abbrev Routing := Prog PyError RoutingCall.Answer

/-- The record of a run. -/
abbrev RoutingLog := Prog.Log RoutingCall.Answer

namespace Andromeda

/-- What the graph is built from. -/
structure Config where
  policy : PolicyEngine
  sha256 : String → String
  /-- What `default=str` makes of a payload value that is no JSON value. -/
  unknown : String
  completionThreshold : PyFloat
  failureThreshold : PyFloat
  host : Host

variable (cfg : Config)

/-! ## The policy node -/

/-- The arguments of `consume` for a skill of the task. -/
def grantKey (s : AndromedaState) (skill : String) : GrantKey :=
  { origin := s.origin.getD ""
    skill
    digest := payloadDigest cfg.sha256 cfg.unknown s.origin skill s.payload }

/-- The first loop of the policy node: the decision that denies the task, or the skills to be held. -/
def heldSkills (origin : Option String) :
    List String → Except PolicyDecision (List (String × PolicyDecision))
  | [] => .ok []
  | skill :: skills =>
    let decision := cfg.policy.evaluateSkill skill origin
    if decision.action = .deny then .error decision
    else do
      let held ← heldSkills origin skills
      .ok (if decision.action = .requireReview then (skill, decision) :: held else held)

/-- The record of a hold, for the reviewer. -/
def policyHold (key : GrantKey) (decision : PolicyDecision) : PyDict :=
  [("policy_hold", .dict [
    ("origin", .str key.origin),
    ("skill", .str key.skill),
    ("digest", .str key.digest),
    ("reason", .str decision.reason),
    ("rule_index", (decision.ruleIndex.map fun i => .int i).getD .none)])]

/-- The second loop of the policy node: every held skill needs a grant. -/
def consumeGrants (s : AndromedaState) : List (String × PolicyDecision) → Routing AndromedaState
  | [] => .pure s
  | (skill, decision) :: held => do
    let granted ← .call (.consume (grantKey cfg s skill)) .pure
    if granted then consumeGrants s held
    else
      .pure { s with
        failureReason := some "policy_requires_review"
        gaps := [decision.reason]
        result := some (policyHold (grantKey cfg s skill) decision) }

def policyNode (s : AndromedaState) : Routing AndromedaState :=
  if cfg.policy.enabled then
    match heldSkills cfg s.origin s.requiredSkills with
    | .error decision =>
      .pure { s with failureReason := some "policy_denied", gaps := [decision.reason] }
    | .ok held => consumeGrants cfg s held
  else .pure s

/-! ## Matching -/

/-- What the loop of the matching node collects. -/
structure Matching where
  agentSets : List (List String) := []
  weightedScores : List (String × PyFloat) := []
  hasSeedWeights : Bool := false
  originBlocked : Bool := false

/-- `weighted_scores.get(agent_id, 0.0)`. -/
def scoreOf (scores : List (String × PyFloat)) (agentId : String) : PyFloat :=
  (scores.lookup agentId).getD (.finite 0)

/-- `weighted_scores[agent_id] = ..`, the newest entry in front. -/
def addScore (weights : List (String × PyFloat)) (scores : List (String × PyFloat)) (agentId : String) :
    List (String × PyFloat) :=
  (agentId, (scoreOf scores agentId).add (scoreOf weights agentId)) :: scores

/-- Agents offer the skill, but not to the origin. -/
def blocksOrigin (origin : Option String) (skillId : String) (found : List SkillManifest) : Routing Bool :=
  if found.isEmpty && origin.isSome then do
    let agents ← .call .agents .pure
    pure (!(PulsarRegistry.getAgentsForSkill agents skillId none).isEmpty)
  else pure false

/-- One round of the loop. -/
def matchSkill (origin : Option String) (m : Matching) (skillId : String) : Routing Matching := do
  let agents ← .call .agents .pure
  let found := PulsarRegistry.getAgentsForSkill agents skillId origin
  let blocked ← blocksOrigin origin skillId found
  let agentIds := (found.map (·.agentId)).dedup
  let weights ← .call (.getWeights skillId) .pure
  pure {
    agentSets := m.agentSets ++ [agentIds]
    weightedScores := if weights.isEmpty then m.weightedScores
      else agentIds.foldl (addScore weights) m.weightedScores
    hasSeedWeights := m.hasSeedWeights || !weights.isEmpty
    originBlocked := m.originBlocked || blocked }

def matchSkills (origin : Option String) : Matching → List String → Routing Matching
  | m, [] => pure m
  | m, skillId :: skills => do
    let m ← matchSkill origin m skillId
    matchSkills origin m skills

/-- `agent_sets[0].intersection(*agent_sets[1:])`. -/
def capable : List (List String) → List String
  | [] => []
  | ids :: rest => ids.filter fun id => rest.all fun other => other.contains id

/-- `sorted(capable)`. -/
def sorted (ids : List String) : List String := ids.insertionSort fun a b => a ≤ b

def skillMatchNode (s : AndromedaState) : Routing AndromedaState := do
  let m ← matchSkills s.origin {} s.requiredSkills
  match sorted (capable m.agentSets) with
  | [] =>
    pure { s with
      matchedAgents := []
      status := .noAgentFound
      failureReason := some (if m.originBlocked then "origin_not_allowed" else "no_skill_match") }
  | id :: ids =>
    if m.hasSeedWeights then
      pure { s with matchedAgents := [PyFloat.maxBy (scoreOf m.weightedScores) id ids] }
    else pure { s with matchedAgents := id :: ids }

/-! ## The other nodes -/

/-- `sum(scores) / len(scores)`, or zero. -/
def mean (scores : List PyFloat) : PyFloat :=
  if scores.isEmpty then .finite 0 else (scores.foldl PyFloat.add (.finite 0)).divNat scores.length

def scoreAgentForSkills (agents : List SkillManifest) (agentId : String) (requiredSkills : List String) :
    PyFloat :=
  match PulsarRegistry.getAgent agents agentId with
  | none => .finite 0
  | some agent => mean (requiredSkills.filterMap fun skillId =>
      (agent.skills.find? (·.skillId = skillId)).map (·.avgConfidence))

/-- The agents with their scores, each read on its own. -/
def rankAgents (requiredSkills : List String) : List String → Routing (List (String × PyFloat))
  | [] => pure []
  | id :: ids => do
    let agents ← .call .agents .pure
    let ranked ← rankAgents requiredSkills ids
    pure ((id, scoreAgentForSkills agents id requiredSkills) :: ranked)

def loadCheckNode (s : AndromedaState) : Routing AndromedaState := do
  let ranked ← rankAgents s.requiredSkills s.matchedAgents
  match ranked with
  | [] => pure { s with status := .noAgentFound, failureReason := some "no_agents_available" }
  | best :: rest => pure { s with assignedAgent := some (PyFloat.maxBy (·.2) best rest).1 }

def assignNode (s : AndromedaState) : AndromedaState := { s with status := .assigned }

/-- `result.get(key, default)`. -/
def field (result : PyDict) (key : String) (default : PyValue) : PyValue :=
  (result.lookup key).getD default

/-- The double `0.80`. -/
def defaultConfidence : PyFloat := .finite (3602879701896397 / 4503599627370496)

/-- The double `0.60`. -/
def retryThreshold : PyFloat := .finite (5404319552844595 / 9007199254740992)

/-- What `pydantic` makes of a value for a field `dict | None`. -/
def dictField (name : String) : PyValue → Except PyError (Option PyDict)
  | .none => .ok none
  | .dict items => .ok (some items)
  | _ => .error (.valueError (name ++ ": Input should be a valid dictionary"))

/-- What `pydantic` makes of a value for a field `float | None` with `ge=0.0, le=1.0`. -/
def confidenceField (v : PyValue) : Except PyError (Option PyFloat) :=
  let number := match v with
    | .str text => cfg.host.floatOfText text
    | v => v.number
  match v, number with
  | .none, _ => .ok none
  | _, none => .error (.valueError "confidence: Input should be a valid number")
  | _, some x =>
    if x.lt (.finite 0) then
      .error (.valueError "confidence: Input should be greater than or equal to 0")
    else if PyFloat.lt (.finite 1) x then
      .error (.valueError "confidence: Input should be less than or equal to 1")
    else .ok (some x)

/-- What `pydantic` makes of a value for a field `list[str]`. -/
def gapsField : PyValue → Except PyError (List String)
  | .list xs => xs.mapM fun x => match x with
    | .str text => .ok text
    | _ => .error (.valueError "gaps: Input should be a valid string")
  | _ => .error (.valueError "gaps: Input should be a valid list")

/-- `type(value).__name__`. -/
def typeName : PyValue → String
  | .none => "NoneType"
  | .bool _ => "bool"
  | .int _ => "int"
  | .float _ => "float"
  | .str _ => "str"
  | .list _ => "list"
  | .dict _ => "dict"
  | .other => "object"

/-- An agent that could not be run. -/
def failed (s : AndromedaState) (reason : String) : AndromedaState :=
  { s with status := .failed, failureReason := some reason, confidence := some (.finite 0) }

/-- The agent could not verify its program. -/
def sandboxUnavailable (result : PyDict) : Bool :=
  PyDict.get result "failure_reason" = .str "execution_sandbox_unavailable"

/-- The state with what the agent returned merged in, as far as it fits the schema. -/
def merge (s : AndromedaState) (result : PyDict) : Except PyError AndromedaState :=
  if sandboxUnavailable result then do
    let breakdown ← dictField "confidence_breakdown" (field result "confidence_breakdown" (.dict []))
    .ok { s with
      result := some result
      confidence := some (.finite 0)
      confidenceBreakdown := breakdown
      gaps := ["Execution could not be verified in the configured sandbox."]
      status := .failed
      failureReason := some "execution_sandbox_unavailable" }
  else do
    let output ← dictField "result" (field result "result" (.dict result))
    let confidence ← confidenceField cfg (field result "confidence" (.float defaultConfidence))
    let breakdown ← dictField "confidence_breakdown" (field result "confidence_breakdown" (.dict []))
    let gaps ← gapsField (field result "gaps" (.list []))
    .ok { s with
      result := output
      confidence
      confidenceBreakdown := breakdown
      gaps
      status := .complete }

/-- The state after the run of an agent, whatever it answered. -/
def received (s : AndromedaState) : Except String PyValue → Except PyError AndromedaState
  | .error text => .ok (failed s text)
  | .ok (.dict result) => merge cfg s result
  | .ok v => .ok (failed s ("'" ++ typeName v ++ "' object has no attribute 'get'"))

def executeNode (s : AndromedaState) : Routing AndromedaState :=
  let agentId := s.assignedAgent.getD ""
  match s.requiredSkills with
  | [] => .raise (.valueError "list index out of range")
  | skillId :: _ => do
    let known ← .call (.hasAgent agentId) .pure
    if known then
      let answer ← .call (.runAgent agentId skillId s.payload
        (PyDict.set s.context "task_id" (.str s.taskId))) .pure
      .ofExcept (received cfg s answer)
    else pure (failed s ("unknown agent: " ++ agentId))

def handleFailureNode (s : AndromedaState) : AndromedaState :=
  let confidence := s.confidence.getD (.finite 0)
  if s.retryCount < 1 ∧ retryThreshold.le confidence then
    { s with retryCount := s.retryCount + 1, status := .routing }
  else { s with escalatedToHuman := true, status := .escalated }

def escalateNode (s : AndromedaState) : AndromedaState :=
  { s with status := .escalated, escalatedToHuman := true }

def completeNode (s : AndromedaState) : AndromedaState := { s with status := .complete }

def noAgentFoundNode (s : AndromedaState) : AndromedaState := { s with status := .noAgentFound }

/-! ## The graph -/

inductive Node where
  | policyCheck
  | skillMatch
  | loadCheck
  | assign
  | execute
  | handleFailure
  | escalate
  | complete
  | noAgentFound

def Node.run : Node → AndromedaState → Routing AndromedaState
  | .policyCheck, s => policyNode cfg s
  | .skillMatch, s => skillMatchNode s
  | .loadCheck, s => loadCheckNode s
  | .assign, s => pure (assignNode s)
  | .execute, s => executeNode cfg s
  | .handleFailure, s => pure (handleFailureNode s)
  | .escalate, s => pure (escalateNode s)
  | .complete, s => pure (completeNode s)
  | .noAgentFound, s => pure (noAgentFoundNode s)

def afterPolicy (s : AndromedaState) : Node :=
  if s.failureReason = some "policy_denied" then .noAgentFound
  else if s.failureReason = some "policy_requires_review" then .escalate
  else .skillMatch

def afterSkillMatch (s : AndromedaState) : Node :=
  if s.matchedAgents ≠ [] then .loadCheck
  else if s.status = .noAgentFound then .noAgentFound
  else .escalate

def afterLoadCheck (s : AndromedaState) : Node :=
  if s.assignedAgent.getD "" ≠ "" then .assign
  else if s.status = .noAgentFound then .noAgentFound
  else .escalate

def afterExecute (s : AndromedaState) : Node :=
  let confidence := s.confidence.getD (.finite 0)
  let threshold := s.confidenceThreshold.getD cfg.completionThreshold
  if s.status = .failed then .escalate
  else if threshold.le confidence then .complete
  else if cfg.failureThreshold.le confidence then .handleFailure
  else .escalate

def afterHandleFailure (s : AndromedaState) : Node :=
  if s.status = .routing then .skillMatch else .escalate

/-- The next node; `none` is `END`. -/
def Node.next : Node → AndromedaState → Option Node
  | .policyCheck, s => some (afterPolicy s)
  | .skillMatch, s => some (afterSkillMatch s)
  | .loadCheck, s => some (afterLoadCheck s)
  | .assign, _ => some .execute
  | .execute, s => some (afterExecute cfg s)
  | .handleFailure, s => some (afterHandleFailure s)
  | .escalate, _ => none
  | .complete, _ => none
  | .noAgentFound, _ => none

/-- The graph from a node on, with the number of steps that LangGraph's recursion limit leaves. -/
def invoke : ℕ → Node → AndromedaState → Routing AndromedaState
  | 0, _, _ => .raise (.runtimeError "Recursion limit reached without hitting a stop condition")
  | n + 1, node, s => do
    let s ← node.run cfg s
    match node.next cfg s with
    | none => .pure s
    | some next => invoke n next s

/-- LangGraph's default `recursion_limit`. -/
def recursionLimit : ℕ := 25

/-- The state that `route` starts the graph with. -/
def initialState (task : TaskContract) (requiredSkills : List String) (context : PyDict) :
    AndromedaState :=
  { taskId := task.taskId.text
    origin := some task.origin
    requiredSkills := if requiredSkills.isEmpty then [task.skill] else requiredSkills
    payload := task.payload
    context
    confidenceThreshold := some task.confidenceThreshold }

/-- The graph run of `route`, with what the registry, the grants, the weights and the agents answer: its
result and the record of its calls. -/
def routeGraph (env : RoutingLog → (call : RoutingCall) → call.Answer) (task : TaskContract)
    (requiredSkills : List String) (context : PyDict) : Except PyError AndromedaState × RoutingLog :=
  (invoke cfg recursionLimit .policyCheck (initialState task requiredSkills context)).play env []

end Andromeda

end Galaxz
