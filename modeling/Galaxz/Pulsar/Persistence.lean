import Galaxz.Lib.Keyed
import Galaxz.Lib.Machine
import Galaxz.Lib.PyStr
import Galaxz.Lib.PyValue
import Galaxz.Pulsar.Registry

/-!
# `core/pulsar/sqlite_store.py` and `PulsarRegistry`: manifests in memory and in the store

A manifest is registered in memory first and in the store second. The stored text is represented by the
value that `json.loads` reads from it; opening a registry validates that value again. A call of the store
is one statement and one commit, and each of them may raise: what was executed and not committed stays in
the transaction of the connection, where the next commit takes it along.
-/

namespace Galaxz

/-! ## Manifests -/

/-- `SkillDefinition` with all its fields. A schema is a `dict`; one that is not JSON (with a key that is
not a text, a tuple, an object) is `other` where it is not. -/
structure SkillRecord extends SkillDefinition where
  description : String
  inputSchema : PyValue
  outputSchema : PyValue
  avgLatencyMs : ℤ := 1000
deriving DecidableEq

/-- `SkillManifest` with all its fields. -/
structure ManifestRecord (Time : Type) where
  agentId : String
  agentName : String
  version : String
  skills : List SkillRecord
  healthEndpoint : String
  registeredAt : Time
  heartbeatIntervalS : ℤ := 30
deriving DecidableEq

variable {Time : Type}

/-- What routing reads of a manifest. -/
def ManifestRecord.toManifest (m : ManifestRecord Time) : SkillManifest :=
  { agentId := m.agentId, skills := m.skills.map (·.toSkillDefinition) }

/-- `validate_skill_strings` and `validate_manifest_strings`. -/
def validateNonEmpty (field value : String) : Except PyError String :=
  if strip value = "" then .error (.valueError (field ++ ": must not be empty")) else .ok (strip value)

/-- The validators of `SkillDefinition`. -/
def SkillRecord.validate (s : SkillRecord) : Except PyError SkillRecord := do
  let skillId ← validateNonEmpty "skill_id" s.skillId
  let description ← validateNonEmpty "description" s.description
  if s.avgConfidence.le (.finite 1) && PyFloat.le (.finite 0) s.avgConfidence then
    if 0 ≤ s.avgLatencyMs then .ok { s with skillId, description }
    else .error (.valueError "avg_latency_ms: Input should be greater than or equal to 0")
  else .error (.valueError "avg_confidence: Input should be between 0 and 1")

/-- The validators of `SkillManifest`. -/
def ManifestRecord.validate (m : ManifestRecord Time) : Except PyError (ManifestRecord Time) := do
  let agentId ← validateNonEmpty "agent_id" m.agentId
  let agentName ← validateNonEmpty "agent_name" m.agentName
  let version ← validateNonEmpty "version" m.version
  let skills ← m.skills.mapM SkillRecord.validate
  let healthEndpoint ← validateNonEmpty "health_endpoint" m.healthEndpoint
  if 1 ≤ m.heartbeatIntervalS then
    .ok { m with agentId, agentName, version, skills, healthEndpoint }
  else .error (.valueError "heartbeat_interval_s: Input should be greater than or equal to 1")

/-- A `SkillManifest`: fields that the validators leave as they are. -/
abbrev Manifest (Time : Type) := { m : ManifestRecord Time // m.validate = .ok m }

/-! ## Manifests as JSON -/

mutual

/-- The value is JSON as it is: its numbers are finite, and there is no other object in it. -/
def PyValue.isJson : PyValue → Bool
  | .float (.finite _) => true
  | .float _ => false
  | .list xs => PyValue.isJsonList xs
  | .dict items => PyValue.isJsonItems items
  | .other => false
  | _ => true

/-- The same, for the elements of a list. -/
def PyValue.isJsonList : List PyValue → Bool
  | [] => true
  | x :: xs => x.isJson && PyValue.isJsonList xs

/-- The same, for the items of a `dict`. -/
def PyValue.isJsonItems : List (String × PyValue) → Bool
  | [] => true
  | (_, x) :: xs => x.isJson && PyValue.isJsonItems xs

end

/-- What `pydantic` does where JSON has no say: the JSON form of a schema that is not JSON, and the texts
of datetimes. -/
structure Pydantic (Time : Type) where
  convert : PyValue → Except PyError PyValue
  timeText : Time → String
  parseTime : String → Except PyError Time

section Codec

variable (pydantic : Pydantic Time)

/-- A schema in `model_dump(mode="json")`. -/
def Pydantic.jsonMode (schema : PyValue) : Except PyError PyValue :=
  if schema.isJson then .ok schema else pydantic.convert schema

/-- `model_dump(mode="json")` of a skill. -/
def SkillRecord.modelDump (s : SkillRecord) : Except PyError PyValue := do
  let inputSchema ← pydantic.jsonMode s.inputSchema
  let outputSchema ← pydantic.jsonMode s.outputSchema
  .ok (.dict [("skill_id", .str s.skillId), ("description", .str s.description),
    ("input_schema", inputSchema), ("output_schema", outputSchema),
    ("avg_confidence", .float s.avgConfidence), ("avg_latency_ms", .int s.avgLatencyMs),
    ("allowed_origins", (s.allowedOrigins.map fun os => .list (os.map .str)).getD .none)])

/-- `model_dump(mode="json")` of a manifest. -/
def ManifestRecord.modelDump (m : ManifestRecord Time) : Except PyError PyDict := do
  let skills ← m.skills.mapM (SkillRecord.modelDump pydantic)
  .ok [("agent_id", .str m.agentId), ("agent_name", .str m.agentName), ("version", .str m.version),
    ("skills", .list skills), ("health_endpoint", .str m.healthEndpoint),
    ("registered_at", .str (pydantic.timeText m.registeredAt)),
    ("heartbeat_interval_s", .int m.heartbeatIntervalS)]

/-- A field that has to be there. -/
def requiredField (d : PyDict) (key : String) : Except PyError PyValue :=
  match d.lookup key with
  | none => .error (.valueError (key ++ ": Field required"))
  | some v => .ok v

def strField (d : PyDict) (key : String) : Except PyError String := do
  match ← requiredField d key with
  | .str s => .ok s
  | _ => .error (.valueError (key ++ ": Input should be a valid string"))

def dictField (d : PyDict) (key : String) : Except PyError PyValue := do
  match ← requiredField d key with
  | .dict items => .ok (.dict items)
  | _ => .error (.valueError (key ++ ": Input should be a valid dictionary"))

def intField (d : PyDict) (key : String) (default : ℤ) : Except PyError ℤ :=
  match d.lookup key with
  | none => .ok default
  | some (.int n) => .ok n
  | _ => .error (.valueError (key ++ ": Input should be a valid integer"))

def floatField (d : PyDict) (key : String) (default : PyFloat) : Except PyError PyFloat :=
  match d.lookup key with
  | none => .ok default
  | some (.float x) => .ok x
  | some (.int n) => .ok (.finite n)
  | _ => .error (.valueError (key ++ ": Input should be a valid number"))

def strElement : PyValue → Except PyError String
  | .str s => .ok s
  | _ => .error (.valueError "Input should be a valid string")

/-- `allowed_origins: list[str] | None`. -/
def originsField (d : PyDict) : Except PyError (Option (List String)) :=
  match d.lookup "allowed_origins" with
  | none => .ok none
  | some .none => .ok none
  | some (.list xs) => do
    let origins ← xs.mapM strElement
    .ok (some origins)
  | _ => .error (.valueError "allowed_origins: Input should be a valid list")

/-- `SkillDefinition.model_validate`. -/
def SkillRecord.modelValidate : PyValue → Except PyError SkillRecord
  | .dict d => do
    let skillId ← strField d "skill_id"
    let description ← strField d "description"
    let inputSchema ← dictField d "input_schema"
    let outputSchema ← dictField d "output_schema"
    let avgConfidence ← floatField d "avg_confidence" (.finite (1 / 2))
    let avgLatencyMs ← intField d "avg_latency_ms" 1000
    let allowedOrigins ← originsField d
    SkillRecord.validate
      { skillId, avgConfidence, allowedOrigins, description, inputSchema, outputSchema, avgLatencyMs }
  | _ => .error (.valueError "Input should be a valid dictionary or instance of SkillDefinition")

def skillsField (d : PyDict) : Except PyError (List SkillRecord) := do
  match ← requiredField d "skills" with
  | .list xs => xs.mapM SkillRecord.modelValidate
  | _ => .error (.valueError "skills: Input should be a valid list")

/-- `registered_at`; without it the time of the validation. -/
def timeField (now : Time) (d : PyDict) : Except PyError Time :=
  match d.lookup "registered_at" with
  | none => .ok now
  | some (.str s) => pydantic.parseTime s
  | _ => .error (.valueError "registered_at: Input should be a valid datetime")

/-- `SkillManifest.model_validate`. -/
def ManifestRecord.modelValidate (now : Time) (d : PyDict) : Except PyError (ManifestRecord Time) := do
  let agentId ← strField d "agent_id"
  let agentName ← strField d "agent_name"
  let version ← strField d "version"
  let skills ← skillsField d
  let healthEndpoint ← strField d "health_endpoint"
  let registeredAt ← timeField pydantic now d
  let heartbeatIntervalS ← intField d "heartbeat_interval_s" 30
  ManifestRecord.validate
    { agentId, agentName, version, skills, healthEndpoint, registeredAt, heartbeatIntervalS }

end Codec

/-! ## The store -/

/-- A row of `agents`. -/
structure AgentRow where
  registryKey : String
  agentId : String
  data : PyDict

namespace SqliteStore

/-- `_key`. -/
def key (agentId : String) : String := "pulsar:agents:" ++ agentId

/-- The statement of `register_agent`. -/
def upsert (agentId : String) (metadata : PyDict) (rows : List AgentRow) :
    Except PyError (List AgentRow) :=
  if rows.any fun row => row.agentId = agentId && row.registryKey ≠ key agentId then
    .error (.integrityError "UNIQUE constraint failed: agents.agent_id")
  else .ok (Keyed.put (·.registryKey) { registryKey := key agentId, agentId, data := metadata } rows)

/-- The statement of `deregister_agent`. -/
def delete (agentId : String) (rows : List AgentRow) : List AgentRow := Keyed.remove (·.agentId) agentId rows

end SqliteStore

/-- How a call of the store ends. -/
inductive StoreOutcome where
  | done
  | executeRaised
  /-- The commit raises, and the transaction may keep what it holds. -/
  | commitRaised (kept : Bool)
deriving DecidableEq

/-! ## The registry -/

/-- The agents in memory, the rows that the connection sees, and the committed rows. -/
structure RegistryState (Time : Type) where
  agents : List (ManifestRecord Time) := []
  work : List AgentRow := []
  disk : List AgentRow := []

/-- The calls, with how the store fares in them. -/
inductive RegistryAction (Time : Type) where
  | register (manifest : Manifest Time) (outcome : StoreOutcome)
  | deregister (agentId : String) (outcome : StoreOutcome)
  /-- The process starts again, at a time. -/
  | reopen (now : Time)

namespace PulsarRegistry

variable (pydantic : Pydantic Time)

/-- The loop of `__init__`. -/
def loadAgents (now : Time) : List AgentRow → List (ManifestRecord Time) →
    Except PyError (List (ManifestRecord Time))
  | [], agents => .ok agents
  | row :: rows, agents => do
    let manifest ← ManifestRecord.modelValidate pydantic now row.data
    loadAgents now rows (Keyed.put (·.agentId) manifest agents)

/-- The agents of a registry opened on the database. -/
def opened (now : Time) (rows : List AgentRow) : Except PyError (List (ManifestRecord Time)) :=
  loadAgents pydantic now rows []

/-- A statement that changed the rows, and its commit. -/
def commit (rows : List AgentRow) (outcome : StoreOutcome) (s : RegistryState Time) :
    RegistryState Time :=
  match outcome with
  | .done => { s with work := rows, disk := rows }
  | .executeRaised => s
  | .commitRaised kept => { s with work := if kept then rows else s.disk }

/-- `register`. -/
def register (manifest : Manifest Time) (outcome : StoreOutcome) (s : RegistryState Time) :
    RegistryState Time :=
  let s := { s with agents := Keyed.put (·.agentId) manifest.1 s.agents }
  match manifest.1.modelDump pydantic with
  | .error _ => s
  | .ok metadata => match SqliteStore.upsert manifest.1.agentId metadata s.work with
    | .error _ => s
    | .ok rows => commit rows outcome s

/-- `deregister`. -/
def deregister (agentId : String) (outcome : StoreOutcome) (s : RegistryState Time) :
    RegistryState Time :=
  commit (SqliteStore.delete agentId s.work) outcome
    { s with agents := Keyed.remove (·.agentId) agentId s.agents }

/-- A registry opened anew reads what is committed; if it cannot, the old one stays. -/
def reopen (now : Time) (s : RegistryState Time) : RegistryState Time :=
  match opened pydantic now s.disk with
  | .error _ => s
  | .ok agents => { s with agents, work := s.disk }

def step : RegistryAction Time → RegistryState Time → RegistryState Time
  | .register manifest outcome, s => register pydantic manifest outcome s
  | .deregister agentId outcome, s => deregister agentId outcome s
  | .reopen now, s => reopen pydantic now s

end PulsarRegistry

/-! ## Memory and store -/

/-- The schemas of the manifest are JSON objects. -/
def ManifestRecord.Json (m : ManifestRecord Time) : Prop :=
  ∀ s ∈ m.skills, (s.inputSchema.isJson = true ∧ ∃ d, s.inputSchema = .dict d) ∧
    (s.outputSchema.isJson = true ∧ ∃ d, s.outputSchema = .dict d)

/-- A registry opened on the database, at whatever time, has the agents of the running one. -/
def RegistryState.Mirrors (pydantic : Pydantic Time) (s : RegistryState Time) : Prop :=
  ∀ now, PulsarRegistry.opened pydantic now s.disk = .ok s.agents

/-- The store does not raise and the schemas are JSON, or the call asks for what is the case already. -/
def RegistryAction.Smooth : RegistryAction Time → RegistryState Time → Prop
  | .register manifest outcome, s => (outcome = .done ∧ manifest.1.Json) ∨
      Keyed.get (·.agentId) manifest.1.agentId s.agents = some manifest.1
  | .deregister agentId outcome, s => outcome = .done ∨ Keyed.get (·.agentId) agentId s.agents = none
  | .reopen _, _ => True

end Galaxz
