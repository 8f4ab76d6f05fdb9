import Galaxz.Lib.Keyed
import Galaxz.Pulsar.Persistence
import Galaxz.Quasar.Client

/-!
# `core/quasar/agent.py`: the tools of MCP servers as skills

The constructor lists the tools of the configured servers one after the other, skips a server that raises an
`McpError`, and registers what the others offer. What servers may print without harm is stated here too:
for one request, for the pages of one server, and for a tool.
-/

namespace Galaxz

open Fuel

/-- A configured server, the client that is made for it, and what meets the calls of that client. -/
structure McpServer where
  name : String
  client : McpStdioClient
  allowedOrigins : Option (List String) := none
  runs : ℕ → CallRun

/-- An entry of `status()["servers"]`. -/
structure ServerStatus where
  name : String
  ok : Bool := false
  error : Option String := none
  tools : List (String × PyValue) := []
  allowedOrigins : Option (List String)

/-- What the loop over the servers fills. -/
structure QuasarTables where
  clients : List (String × McpStdioClient) := []
  skills : List (String × String × PyValue) := []
  status : List ServerStatus := []
  definitions : List SkillRecord := []

structure QuasarAgent where
  clients : List (String × McpStdioClient)
  skills : List (String × String × PyValue)
  status : List ServerStatus

namespace QuasarAgent

variable {Time : Type} (text : McpText)

def AGENT_ID : String := "quasar"

/-- `tool["name"]`. -/
def toolName : PyValue → Except PyError PyValue
  | .dict tool => match tool.lookup "name" with
    | some name => .ok name
    | none => .error (.keyError "name")
  | .str _ => .error (.typeError "string indices must be integers, not 'str'")
  | .list _ => .error (.typeError "list indices must be integers or slices, not str")
  | _ => .error (.typeError "object is not subscriptable")

/-- The items of a tool, which `tool["name"]` has shown to be a `dict`. -/
def toolItems : PyValue → PyDict
  | .dict tool => tool
  | _ => []

/-- `f"{value}"`. -/
def formatted (value : PyValue) : Except PyError String :=
  match text.str value with
  | some s => .ok s
  | none => .error (.runtimeError "maximum recursion depth exceeded")

/-- `f"quasar.{name}.{tool['name']}"`. -/
def skillIdOf (server shown : String) : String := "quasar." ++ server ++ "." ++ shown

/-- The `SkillDefinition` that is made for a tool. -/
def toolDefinition (srv : McpServer) (skillId : String) (description inputSchema : PyValue) :
    Except PyError SkillRecord :=
  match description with
  | .str description => match inputSchema with
    | .dict schema =>
      if text.isUnicode skillId = true ∧ text.isUnicode description = true then
        SkillRecord.validate
          { skillId, description, inputSchema := .dict schema, outputSchema := .dict [],
            avgConfidence := .finite (9 / 10), allowedOrigins := srv.allowedOrigins }
      else .error (.valueError "Input should be a valid string, unable to parse raw data as a unicode string")
    | _ => .error (.valueError "input_schema: Input should be a valid dictionary")
  | _ => .error (.valueError "description: Input should be a valid string")

/-- One turn of the loop over the tools of a server, with its status. -/
def addTool (srv : McpServer) (acc : QuasarTables × ServerStatus) (tool : PyValue) :
    Except PyError (QuasarTables × ServerStatus) := do
  let name ← toolName tool
  let shown ← formatted text name
  let skillId := skillIdOf srv.name shown
  let description := (PyDict.get (toolItems tool) "description").orElse name
  let inputSchema := (PyDict.get (toolItems tool) "inputSchema").orElse (.dict [])
  let definition ← toolDefinition text srv skillId description inputSchema
  .ok ({ acc.1 with
      skills := Keyed.put Prod.fst (skillId, srv.name, name) acc.1.skills
      definitions := acc.1.definitions ++ [definition] },
    { acc.2 with tools := acc.2.tools ++ [(skillId, description)] })

/-- The status of a server before its tools are listed. -/
def newStatus (srv : McpServer) : ServerStatus := { name := srv.name, allowedOrigins := srv.allowedOrigins }

/-- What the loop over the servers does when `list_tools` has ended. -/
def addListed (srv : McpServer) (tables : QuasarTables) :
    Except McpFailure (List PyValue) → Except PyError QuasarTables
  | .error (.mcpError message) => do
    let error ← formatted text message
    .ok { tables with status := tables.status ++ [{ newStatus srv with error := some error }] }
  | .error (.other e) => .error e
  | .ok tools => do
    let filled ← tools.foldlM (addTool text srv)
      ({ tables with clients := Keyed.put Prod.fst (srv.name, srv.client) tables.clients },
        { newStatus srv with ok := true })
    .ok { filled.1 with status := filled.1.status ++ [filled.2] }

/-- The loop over the servers. -/
def addServers (fuel : ℕ) : List McpServer → QuasarTables → Option (Except PyError QuasarTables)
  | [], tables => some (.ok tables)
  | srv :: servers, tables => (srv.client.listTools text srv.runs fuel).bind fun listed =>
    match addListed text srv tables listed with
    | .error e => some (.error e)
    | .ok tables => addServers fuel servers tables

/-- The manifest of the tools. -/
def manifest (now : Time) (definitions : List SkillRecord) : ManifestRecord Time :=
  { agentId := AGENT_ID, agentName := "Quasar MCP Tool Manager", version := "0.1.0", skills := definitions,
    healthEndpoint := "http://quasar:8000/health", registeredAt := now }

/-- The end of the constructor, on a store that works. -/
def register (now : Time) (registry : List (ManifestRecord Time)) (tables : QuasarTables) :
    Except PyError (QuasarAgent × List (ManifestRecord Time)) :=
  let agent := { clients := tables.clients, skills := tables.skills, status := tables.status }
  if tables.definitions = [] then
    -- Pulsar persists manifests; tools from a previous config are not advertised
    .ok (agent, Keyed.remove ManifestRecord.agentId AGENT_ID registry)
  else if tables.definitions.all (fun d => text.storable d.inputSchema) = true then
    .ok (agent, Keyed.put ManifestRecord.agentId (manifest now tables.definitions) registry)
  else .error (.valueError "Unable to serialize")

/-- `QuasarAgent(registry, servers)`, with the manifests of the registry before and after it. -/
def init (now : Time) (registry : List (ManifestRecord Time)) (servers : List McpServer) (fuel : ℕ) :
    Option (Except PyError (QuasarAgent × List (ManifestRecord Time))) :=
  (addServers text fuel servers {}).map fun filled => filled.bind (register text now registry)

/-- The definitions that the registry holds for Quasar. -/
def advertised (registry : List (ManifestRecord Time)) : List SkillRecord :=
  ((Keyed.get ManifestRecord.agentId AGENT_ID registry).map (·.skills)).getD []

/-! ## What a server may offer -/

/-- The tool has a name that can be written, a description that is text, and a schema that is an object, all
of them such that the registry takes them. -/
def ToolFits (srv : McpServer) (tool : PyValue) : Prop :=
  ∃ items name shown description schema, tool = .dict items ∧ items.lookup "name" = some name ∧
    text.str name = some shown ∧ (PyDict.get items "description").orElse name = .str description ∧
    (PyDict.get items "inputSchema").orElse (.dict []) = .dict schema ∧
    text.isUnicode (skillIdOf srv.name shown) = true ∧ text.isUnicode description = true ∧
    strip description ≠ "" ∧ text.storable (.dict schema) = true

/-- The server refuses with a message that can be written, or lists tools that fit. -/
def Fits (srv : McpServer) : Prop :=
  (∃ m, McpStdioClient.Pages text srv.client srv.runs {} (.error m) ∧ (text.str m).isSome = true) ∨
    ∃ tools, McpStdioClient.Pages text srv.client srv.runs {} (.ok tools) ∧ ∀ tool ∈ tools, ToolFits text srv tool

/-- The definition was made for the tool. -/
def OfTool (srv : McpServer) (tool : PyValue) (d : SkillRecord) : Prop :=
  ∃ name shown, toolName tool = .ok name ∧ text.str name = some shown ∧
    d.skillId = strip (skillIdOf srv.name shown)

/-- The server is skipped because `list_tools` raised an `McpError`, or all its tools are among the skills. -/
def Served (skills : List SkillRecord) (srv : McpServer) (status : ServerStatus) : Prop :=
  status.name = srv.name ∧
    ((∃ m, Yields (srv.client.listTools text srv.runs) (.error (.mcpError m)) ∧
        status.ok = false ∧ status.error = text.str m) ∨
      ∃ tools, Yields (srv.client.listTools text srv.runs) (.ok tools) ∧ status.ok = true ∧
        ∀ tool ∈ tools, ∃ d ∈ skills, OfTool text srv tool d)

/-- The agent starts, and skips only the servers that fail. -/
def Starts (now : Time) (registry : List (ManifestRecord Time)) (servers : List McpServer) : Prop :=
  ∃ agent registry', Yields (init text now registry servers) (.ok (agent, registry')) ∧
    List.Forall₂ (Served text (advertised registry')) servers agent.status

end QuasarAgent

end Galaxz
