import Galaxz.Andromeda.Routing
import Mathlib.Data.List.DropRight

/-!
# What routing promises

Both promises are about the record of a run of the graph, whatever its calls are answered: which agents
may be run, and how often and with which verdict a run ends.
-/

namespace Galaxz.Andromeda

/-- The event is the run of an agent. -/
def isRun : (Σ call, RoutingCall.Answer call) → Bool
  | ⟨.runAgent _ _ _ _, _⟩ => true
  | _ => false

/-- What the agents answered, in order. -/
def runs (log : RoutingLog) : List (Except String PyValue) :=
  log.filterMap fun e => match e with
    | ⟨.runAgent _ _ _ _, answer⟩ => some answer
    | _ => none

/-- The part of the record that belongs to the current pass: a pass ends when an agent is run. -/
def currentPass (log : RoutingLog) : RoutingLog := log.rtakeWhile fun e => !isRun e

/-! ## Authorisation -/

/-- The policy allows the skill, or holds it and a grant for it was consumed. -/
def Permitted (cfg : Config) (s : AndromedaState) (log : RoutingLog) (skill : String) : Prop :=
  (cfg.policy.evaluateSkill skill s.origin).action = .allow ∨
    (cfg.policy.evaluateSkill skill s.origin).action = .requireReview ∧
      ⟨.consume (grantKey cfg s skill), true⟩ ∈ log

/-- The registry, as it was read in this pass, has the agent with the skill open to the origin. -/
def Offered (s : AndromedaState) (log : RoutingLog) (agentId skill : String) : Prop :=
  ∃ agents, ⟨.agents, agents⟩ ∈ currentPass log ∧
    ∃ agent ∈ agents, agent.agentId = agentId ∧ PulsarRegistry.offers agent skill s.origin = true

/-- No agent runs without authorisation. -/
structure Authorised (cfg : Config) (s : AndromedaState) (log : RoutingLog) : Prop where
  permitted : ∀ before agentId skillId payload context answer after,
    log = before ++ ⟨.runAgent agentId skillId payload context, answer⟩ :: after →
    ∀ skill ∈ s.requiredSkills, Permitted cfg s before skill
  offered : ∀ before agentId skillId payload context answer after,
    log = before ++ ⟨.runAgent agentId skillId payload context, answer⟩ :: after →
    ∀ skill ∈ s.requiredSkills, Offered s before agentId skill
  denied : (∃ skill ∈ s.requiredSkills, (cfg.policy.evaluateSkill skill s.origin).action = .deny) →
    runs log = []
  held : (∃ key, ⟨.consume key, false⟩ ∈ log) → runs log = []

/-! ## The verdict -/

/-- The confidence that an agent returned: `0.80` where it returned none, zero for `None`. -/
def confidenceOf (result : PyDict) : PyFloat :=
  ((field result "confidence" (.float defaultConfidence)).number).getD (.finite 0)

/-- The confidence of a run that did not fail. -/
def outcome : Except String PyValue → Option PyFloat
  | .ok (.dict result) => if sandboxUnavailable result then none else some (confidenceOf result)
  | _ => none

/-- A `dict` or `None`. -/
def isDictOrNone : PyValue → Bool
  | .none => true
  | .dict _ => true
  | _ => false

/-- A list of strings. -/
def isStrList : PyValue → Bool
  | .list xs => xs.all fun x => match x with
    | .str _ => true
    | _ => false
  | _ => false

/-- `None`, or a number from zero to one. -/
def isConfidence (v : PyValue) : Bool :=
  v = .none || v.number.any fun x => PyFloat.le (.finite 0) x && x.le (.finite 1)

/-- The fields of what an agent returned fit the state schema. -/
def FitsSchema (result : PyDict) : Prop :=
  isDictOrNone (field result "result" (.dict result)) = true ∧
    isConfidence (field result "confidence" (.float defaultConfidence)) = true ∧
    isDictOrNone (field result "confidence_breakdown" (.dict [])) = true ∧
    isStrList (field result "gaps" (.list [])) = true

instance (result : PyDict) : Decidable (FitsSchema result) := by unfold FitsSchema; infer_instance

/-- An agent raises, or returns something whose fields fit. -/
def AnswerFits : (call : RoutingCall) → call.Answer → Prop
  | .runAgent _ _ _ _, answer => ∀ result, answer = .ok (.dict result) → FitsSchema result
  | _, _ => True

/-- The last run of an agent did not fail and was confident enough. -/
def Succeeded (threshold : PyFloat) (log : RoutingLog) : Prop :=
  ∃ answer confidence, (runs log).getLast? = some answer ∧ outcome answer = some confidence ∧
    threshold.le confidence = true

/-- A run of an agent that failed, or returned the confidence zero or one. -/
def Binary (answer : Except String PyValue) : Prop :=
  ∀ confidence, outcome answer = some confidence → confidence = .finite 0 ∨ confidence = .finite 1

/-- How a run of the graph goes and ends. -/
structure Verdict (threshold : PyFloat) (r : Except PyError AndromedaState × RoutingLog) : Prop where
  at_most_twice : (runs r.2).length ≤ 2
  at_most_once : (∀ answer ∈ runs r.2, Binary answer) → (runs r.2).length ≤ 1
  ends : ∃ s, r.1 = .ok s ∧
    (s.status = .complete ∨ s.status = .escalated ∨ s.status = .noAgentFound) ∧
    (s.status = .complete ↔ Succeeded threshold r.2)

end Galaxz.Andromeda
