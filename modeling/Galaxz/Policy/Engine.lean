import Galaxz.Lib.Fnmatch
import Galaxz.Lib.JsonText

/-!
# `core/policy/engine.py`: pre-action authorization

The rules of a policy, the decision they make about a task, and the digest that binds an approval to the
task it was given for. SHA-256 is a parameter: what the code relies on is that it has no collisions.
-/

namespace Galaxz

/-- What a policy decides. -/
inductive PolicyAction where
  | allow
  | deny
  | requireReview
deriving DecidableEq

/-- `_SEVERITY`. -/
def PolicyAction.severity : PolicyAction → ℕ
  | .allow => 0
  | .requireReview => 1
  | .deny => 2

structure PolicyRule where
  skill : String
  action : PolicyAction
  origin : String := "*"
  reason : String := ""

def PolicyRule.matches (rule : PolicyRule) (skill origin : String) : Bool :=
  fnmatchcase skill rule.skill && fnmatchcase origin rule.origin

structure PolicyDecision where
  action : PolicyAction := .allow
  reason : String := ""
  ruleIndex : Option ℕ := none
deriving DecidableEq

structure PolicyEngine where
  rules : List PolicyRule := []

namespace PolicyEngine

def enabled (engine : PolicyEngine) : Bool := !engine.rules.isEmpty

/-- The decision of the first rule that matches. -/
def evaluateSkill (engine : PolicyEngine) (skill : String) (origin : Option String) : PolicyDecision :=
  match engine.rules.zipIdx.find? fun entry => entry.1.matches skill (origin.getD "") with
  | some (rule, index) =>
    { action := rule.action
      reason := if rule.reason = "" then s!"policy rule {index}" else rule.reason
      ruleIndex := some index }
  | none => {}

/-- The strictest decision across skills, the first of these. -/
def evaluate (engine : PolicyEngine) (skills : List String) (origin : Option String) : PolicyDecision :=
  skills.foldl (fun strictest skill =>
    let decision := engine.evaluateSkill skill origin
    if decision.action.severity > strictest.action.severity then decision else strictest) {}

end PolicyEngine

/-- `{"origin": origin or "", "skill": skill, "payload": payload}`. -/
def digestInput (origin : Option String) (skill : String) (payload : PyDict) : PyValue :=
  .dict [("origin", .str (origin.getD "")), ("skill", .str skill), ("payload", .dict payload)]

/-- `payload_digest`: the digest of the canonical text. `unknown` is what `default=str` makes of an
object in the payload that is no JSON value. -/
def payloadDigest (sha256 : String → String) (unknown : String) (origin : Option String) (skill : String)
    (payload : PyDict) : String :=
  sha256 (String.ofList (PyValue.text unknown (digestInput origin skill payload).sortKeys))

end Galaxz
