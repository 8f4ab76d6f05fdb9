import Galaxz.Lib.Fnmatch
import Galaxz.Lib.PyFloat

/-!
# `core/pulsar/registry.py`: the skill registry

The manifests that agents register, and the lookups on the registry's content. Routing reads the content
anew at every lookup, so it may have changed in between.
-/

namespace Galaxz

structure SkillDefinition where
  skillId : String
  avgConfidence : PyFloat := .finite (1 / 2)
  /-- `None` is open to any origin, an empty list denies every origin. -/
  allowedOrigins : Option (List String) := none
deriving DecidableEq

def SkillDefinition.permits (skill : SkillDefinition) (origin : String) : Bool :=
  match skill.allowedOrigins with
  | none => true
  | some patterns => patterns.any fun pattern => fnmatchcase origin pattern

structure SkillManifest where
  agentId : String
  skills : List SkillDefinition

namespace PulsarRegistry

/-- A skill of the manifest is the one asked for, and open to the origin. -/
def offers (agent : SkillManifest) (skillId : String) (origin : Option String) : Bool :=
  agent.skills.any fun skill =>
    skill.skillId = skillId && (match origin with
      | none => true
      | some o => skill.permits o)

/-- Agents offering `skillId`; with `origin`, only those whose skill permits it. -/
def getAgentsForSkill (agents : List SkillManifest) (skillId : String) (origin : Option String) :
    List SkillManifest :=
  agents.filter fun agent => offers agent skillId origin

def getAgent (agents : List SkillManifest) (agentId : String) : Option SkillManifest :=
  agents.find? (·.agentId = agentId)

end PulsarRegistry

end Galaxz
