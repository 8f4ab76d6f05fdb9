import Galaxz.A2A.Config
import Galaxz.Lib.Keyed
import Galaxz.Pulsar.Persistence

/-!
# `core/a2a/agent.py`: remote agents behind the Wormhole

The Wormhole connects to the configured agents one after the other and offers the skills on their cards as
skills of its own. Three tables are filled on the way: the clients by agent name, the targets by skill id,
and the definitions that are registered, whose ids go through the validator of `SkillDefinition`.
-/

namespace Galaxz

/-! ## Connecting -/

/-- An `A2AClient`, by what it was made of: the server it calls, and how. -/
structure A2AClient where
  url : String
  token : Option String
  timeoutS : PyFloat
deriving DecidableEq

/-- `client_factory(cfg.url, token=cfg.token, timeout_s=cfg.timeout_s)`. -/
def AgentConfig.client (cfg : AgentConfig) : A2AClient :=
  { url := cfg.url, token := cfg.token, timeoutS := cfg.timeoutS }

/-- A configured agent with what `connect()` does: it returns a card, or raises an `A2AClientError`. -/
structure Remote where
  cfg : AgentConfig
  connect : Except String PyDict

/-- An entry of `status()["agents"]`. -/
structure AgentStatus where
  name : String
  ok : Bool := false
  error : Option String := none
  skills : List (String × String) := []
  allowedOrigins : Option (List String)

/-- What the loop over the agents fills. -/
structure WormholeTables where
  clients : List (String × A2AClient) := []
  skills : List (String × String × String) := []
  status : List AgentStatus := []
  definitions : List SkillRecord := []

section Connecting

variable (text : PyText)

/-- `[\w.:-]`. -/
def PyText.isIdChar (c : Char) : Bool := text.isWord c || c = '.' || c = ':' || c = '-'

/-- The id of a skill on a card, with its description, if the Wormhole takes it. -/
def acceptedSkill : PyValue → Option (String × PyValue)
  | .dict items => match PyDict.get items "id" with
    | .str remoteId =>
      if matchesLine text.isIdChar remoteId then some (remoteId, PyDict.get items "description") else none
    | _ => none
  | _ => none

/-- `f"wormhole.{name}.{remote_id}"`. -/
def proxyId (name remoteId : String) : String := "wormhole." ++ name ++ "." ++ remoteId

/-- `str(remote.get("description") or "").strip() or remote_id`. -/
def proxyDescription (remoteId : String) (description : PyValue) : String :=
  let stripped := strip (text.str (description.orElse (.str "")))
  if stripped = "" then remoteId else stripped

/-- The definition that is registered for a skill. -/
def proxyDefinition (cfg : AgentConfig) (remoteId : String) (description : PyValue) : Except PyError SkillRecord :=
  SkillRecord.validate
    { skillId := proxyId cfg.name remoteId, description := proxyDescription text remoteId description,
      inputSchema := .dict [], outputSchema := .dict [], avgConfidence := .finite (9 / 10),
      allowedOrigins := cfg.allowedOrigins }

/-- One turn of the loop over the skills of a card, with the status of the agent. -/
def addSkill (cfg : AgentConfig) (acc : WormholeTables × AgentStatus) (remote : PyValue) :
    Except PyError (WormholeTables × AgentStatus) :=
  match acceptedSkill text remote with
  | none => .ok acc
  | some (remoteId, description) => do
    let skillId := proxyId cfg.name remoteId
    let definition ← proxyDefinition text cfg remoteId description
    .ok ({ acc.1 with
        skills := Keyed.put Prod.fst (skillId, cfg.name, remoteId) acc.1.skills
        definitions := acc.1.definitions ++ [definition] },
      { acc.2 with skills := acc.2.skills ++ [(skillId, proxyDescription text remoteId description)] })

/-- One turn of the loop over the agents. -/
def addAgent (tables : WormholeTables) (r : Remote) : Except PyError WormholeTables :=
  let status : AgentStatus := { name := r.cfg.name, allowedOrigins := r.cfg.allowedOrigins }
  match r.connect with
  | .error message =>
    .ok { tables with status := tables.status ++ [{ status with error := some message }] }
  | .ok card => do
    let remotes ← iterated (PyDict.get card "skills")
    let connected := { tables with clients := Keyed.put Prod.fst (r.cfg.name, r.cfg.client) tables.clients }
    let filled ← remotes.foldlM (addSkill text r.cfg) (connected, { status with ok := true })
    .ok { filled.1 with status := filled.1.status ++ [filled.2] }

end Connecting

/-! ## The agent -/

structure WormholeAgent where
  clients : List (String × A2AClient)
  skills : List (String × String × String)
  status : List AgentStatus

/-- The `RemoteResult` of a call. -/
structure RemoteResult where
  state : String
  text : String
  data : List PyValue

namespace WormholeAgent

variable {Time : Type}

def agentId : String := "wormhole"

/-- `WormholeAgent(registry, agents)`, with the manifests of the registry before and after it. -/
def init (text : PyText) (now : Time) (registry : List (ManifestRecord Time)) (remotes : List Remote) :
    Except PyError (WormholeAgent × List (ManifestRecord Time)) := do
  let tables ← remotes.foldlM (addAgent text) {}
  let agent := { clients := tables.clients, skills := tables.skills, status := tables.status }
  if tables.definitions = [] then
    -- Pulsar persists manifests; skills from a previous config are not advertised
    .ok (agent, Keyed.remove ManifestRecord.agentId agentId registry)
  else
    .ok (agent, Keyed.put ManifestRecord.agentId
      { agentId, agentName := "Wormhole A2A Gateway", version := "0.1.0", skills := tables.definitions,
        healthEndpoint := "http://wormhole:8000/health", registeredAt := now } registry)

/-- The definitions that the registry holds for the Wormhole. -/
def advertised (registry : List (ManifestRecord Time)) : List SkillRecord :=
  ((Keyed.get ManifestRecord.agentId agentId registry).map (·.skills)).getD []

/-- What `run` returns for the result of a remote task. -/
def taskOutput (result : RemoteResult) : PyDict :=
  let succeeded := result.state = "TASK_STATE_COMPLETED"
  let confidence : PyValue := .float (.finite (if succeeded then 1 else 0))
  let gap := if result.text = "" then "remote task ended as " ++ result.state else result.text
  [("state", .str result.state), ("text", .str result.text), ("data", .list result.data),
    ("artifacts", .list []), ("summary", .str result.text), ("writable", .bool false),
    ("confidence", confidence),
    ("confidence_breakdown", .dict [("structural", confidence), ("self_critique", confidence),
      ("historical", .float (.finite (1 / 2)))]),
    ("gaps", .list (if succeeded then [] else [.str gap])), ("execution_result", .none),
    ("externally_calibrated", .bool false)]

/-- `run(skill_id, payload)`; `execute` calls a client. -/
def run (text : PyText) (w : WormholeAgent)
    (execute : A2AClient → String → PyDict → Except PyError RemoteResult) (skillId : String) (payload : PyDict) :
    Except PyError PyDict :=
  match Keyed.get Prod.fst skillId w.skills with
  | none => .error (.valueError ("wormhole: unknown skill " ++ text.repr skillId))
  | some (_, name, remoteId) => match Keyed.get Prod.fst name w.clients with
    | none => .error (.keyError name)
    | some (_, client) => do
      let result ← execute client remoteId payload
      .ok (taskOutput result)

end WormholeAgent

/-! ## Every advertised skill reaches the server that advertised it -/

section Reaching

variable {Time : Type} (text : PyText)

/-- The skills that the Wormhole takes from the agent's card, with their descriptions. -/
def Remote.accepted (r : Remote) : List (String × PyValue) :=
  match r.connect with
  | .error _ => []
  | .ok card => match iterated (PyDict.get card "skills") with
    | .error _ => []
    | .ok remotes => remotes.filterMap (acceptedSkill text)

/-- The agent's own ids for them. -/
def Remote.listed (r : Remote) : List String := (r.accepted text).map Prod.fst

/-- The id under which the skill is registered. -/
def Remote.registeredId (r : Remote) (remoteId : String) : String := strip (proxyId r.cfg.name remoteId)

/-- Every registered id stands for a skill on a card, `run` sends a call for it to the agent whose card
listed it, with the agent's own id, its definitions have the origins of that agent's configuration, and
different skills have different ids. -/
structure WormholeAgent.Reaches (remotes : List Remote) (w : WormholeAgent)
    (registry : List (ManifestRecord Time)) : Prop where
  listed : ∀ s ∈ advertised registry, ∃ r ∈ remotes, ∃ remoteId ∈ r.listed text,
    s.skillId = r.registeredId remoteId
  called : ∀ r ∈ remotes, ∀ remoteId ∈ r.listed text, ∀ execute payload,
    w.run text execute (r.registeredId remoteId) payload =
      (execute r.cfg.client remoteId payload).map taskOutput
  origins : ∀ r ∈ remotes, ∀ remoteId ∈ r.listed text, ∀ s ∈ advertised registry,
    s.skillId = r.registeredId remoteId → s.allowedOrigins = r.cfg.allowedOrigins
  distinct : ∀ r ∈ remotes, ∀ remoteId ∈ r.listed text, ∀ r' ∈ remotes, ∀ remoteId' ∈ r'.listed text,
    r.registeredId remoteId = r'.registeredId remoteId' → r.cfg.client = r'.cfg.client ∧ remoteId = remoteId'

/-- The agent answered. -/
def Remote.connected (r : Remote) : Bool :=
  match r.connect with
  | .ok _ => true
  | .error _ => false

/-- No id that is taken ends in a newline, an agent whose skills are taken has the client of the last agent
of its name that answered, and agents of one name with a skill in common have the same origins. -/
structure Unambiguous (remotes : List Remote) : Prop where
  newline : ∀ r ∈ remotes, ∀ remoteId ∈ r.listed text, remoteId.toList.getLast? ≠ some '\n'
  client : ∀ r ∈ remotes, r.listed text ≠ [] →
    (remotes.reverse.find? fun r' => r'.connected && r'.cfg.name = r.cfg.name).map (·.cfg.client) =
      some r.cfg.client
  origins : ∀ r ∈ remotes, ∀ remoteId ∈ r.listed text, ∀ r' ∈ remotes, remoteId ∈ r'.listed text →
    r'.cfg.name = r.cfg.name → r'.cfg.allowedOrigins = r.cfg.allowedOrigins

end Reaching

end Galaxz
