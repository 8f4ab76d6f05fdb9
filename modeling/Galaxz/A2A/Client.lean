import Galaxz.A2A.Server
import Galaxz.A2A.Wormhole

/-!
# `core/a2a/client.py`: calls of remote agents

The client fetches the card of a remote agent, picks an interface on it, and sends tasks there. Whatever a
remote answers is a parameter of the functions here: one reply for each request that the client makes. The
constructor of the Wormhole connects to every remote and catches the client's own exception only.
-/

namespace Galaxz

/-! ## Replies -/

/-- What `resp.json()` makes of the content: a value, a `ValueError`, or a `RecursionError`. -/
inductive Body where
  | json (v : PyValue)
  | invalid
  | tooDeep

/-- What a request brings: an `httpx.HTTPError` by its class, another exception (`httpx.InvalidURL` is none of
the former), or a response with its status and the size of its content. -/
inductive HttpReply where
  | httpError (name : String)
  | raised (error : PyError)
  | answered (status size : ℕ) (body : Body)

/-- What a call of the client raises. -/
inductive ClientFailure where
  | a2aError (message : String)
  | other (error : PyError)

/-- An exception that the client does not catch. -/
def uncaught {α : Type} (x : Except PyError α) : Except ClientFailure α := x.mapError .other

def MAX_RESPONSE_BYTES : ℕ := 5000000

/-- `_origin(url)`, where `urlsplit` finds one. -/
abbrev Origins := String → Option (String × String)

/-! ## Connecting -/

/-- What the requests of `connect` bring. -/
structure ConnectRun where
  card : HttpReply
  extended : HttpReply

namespace A2AClient

variable (text : PyText) (origin : Origins) (c : A2AClient)

/-- `_base`. -/
def base : String := String.ofList (c.url.toList.rdropWhile (· = '/'))

def fetchCard : HttpReply → Except ClientFailure PyDict
  | .httpError name => .error (.a2aError ("agent card fetch failed: " ++ name))
  | .raised e => .error (.other e)
  | .answered status _ body =>
    if status ≠ 200 then .error (.a2aError ("agent card fetch failed: HTTP " ++ toString status))
    else match body with
      | .invalid => .error (.a2aError "agent card fetch failed: invalid JSON")
      | .tooDeep => .error (.other (.runtimeError "maximum recursion depth exceeded"))
      | .json (.dict card) => .ok card
      | .json _ => .error (.a2aError "agent card fetch failed: card is not an object")

def JSONRPC_BINDINGS : List String := ["JSONRPC", "JSON-RPC"]

def A2A_VERSION : String := "1.0"

/-- `url.startswith(("http://", "https://"))`. -/
def isHttp (url : String) : Bool :=
  "http://".toList.isPrefixOf url.toList || "https://".toList.isPrefixOf url.toList

/-- The url of an interface that the client can use. -/
def interfaceUrl : PyValue → Except PyError (Option String)
  | .dict interface =>
    match PyDict.get interface "protocolBinding" with
    | .list _ => .error (.typeError "unhashable type: 'list'")
    | .dict _ => .error (.typeError "unhashable type: 'dict'")
    | .str binding =>
      if binding ∈ JSONRPC_BINDINGS ∧ PyDict.get interface "protocolVersion" = .str A2A_VERSION then
        match PyDict.get interface "url" with
        | .str url =>
          if isHttp url = true then
            match origin url, origin c.base with
            | some o, some o' => .ok (if o = o' then some url else none)
            | _, _ => .error (.valueError "Invalid URL")
          else .ok none
        | _ => .ok none
      else .ok none
    | _ => .ok none
  | _ => .ok none

/-- The loop of `_pick_interface`. -/
def firstInterface : List PyValue → Except PyError (Option String)
  | [] => .ok none
  | interface :: interfaces => do
    match ← interfaceUrl origin c interface with
    | some url => .ok (some url)
    | none => firstInterface interfaces

/-- `_pick_interface(card)`. -/
def pickInterface (card : PyDict) : Except ClientFailure String := do
  let interfaces ← uncaught (iterated (PyDict.get card "supportedInterfaces"))
  match ← uncaught (firstInterface origin c interfaces) with
  | some url => .ok url
  | none => .error (.a2aError "agent has no JSON-RPC 1.0 interface on its own host")

/-- `_call(method, params)`, which returns the result of the reply. -/
def call (method : String) : HttpReply → Except ClientFailure PyDict
  | .httpError name => .error (.a2aError (method ++ " failed: " ++ name))
  | .raised e => .error (.other e)
  | .answered status size body =>
    if status ≠ 200 then .error (.a2aError (method ++ " failed: HTTP " ++ toString status))
    else if MAX_RESPONSE_BYTES < size then .error (.a2aError (method ++ " failed: response too large"))
    else match body with
      | .invalid => .error (.a2aError (method ++ " failed: invalid JSON"))
      | .tooDeep => .error (.other (.runtimeError "maximum recursion depth exceeded"))
      | .json (.dict payload) =>
        match PyDict.get payload "error" with
        | .dict error => .error (.a2aError (method ++ " failed: " ++ text.str (PyDict.get error "code") ++ " " ++
            String.ofList ((text.str (PyDict.get error "message")).toList.take 200)))
        | _ => match PyDict.get payload "result" with
          | .dict result => .ok result
          | _ => .error (.a2aError (method ++ " failed: missing result"))
      | .json _ => .error (.a2aError (method ++ " failed: invalid response"))

/-- The caller is known to the remote, which may list more skills for it. -/
def asksExtended (card : PyDict) : Bool :=
  match PyDict.get card "capabilities" with
  | .dict capabilities => c.token.any (· ≠ "") && PyDict.get capabilities "extendedAgentCard" = .bool true
  | _ => false

/-- `connect()`; the url that it finds is the second part. -/
def connect (r : ConnectRun) : Except ClientFailure (PyDict × String) := do
  let card ← fetchCard r.card
  let url ← pickInterface origin c card
  if c.asksExtended card = true then
    match call text "GetExtendedAgentCard" r.extended with
    | .error (.a2aError _) => .ok (card, url)
    | .error (.other e) => .error (.other e)
    | .ok extended => match PyDict.get extended "skills" with
      | .list skills => .ok (PyDict.set card "skills" (.list skills), url)
      | _ => .ok (card, url)
  else .ok (card, url)

/-! ## Tasks -/

/-- `_parts_text(parts)`. -/
def partsText (parts : PyValue) : Except PyError (List String) := do
  let parts ← iterated parts
  .ok (parts.filterMap fun
    | .dict part => match PyDict.get part "text" with
      | .str s => some s
      | _ => none
    | _ => none)

/-- The data parts of an artifact. -/
def partsData (parts : PyValue) : Except PyError (List PyValue) := do
  let parts ← iterated parts
  .ok (parts.filterMap fun
    | .dict part => part.lookup "data"
    | _ => none)

/-- `_task_state(task)`. -/
def taskState (task : PyDict) : Except ClientFailure String :=
  match PyDict.get task "id", PyDict.get task "status" with
  | .str _, .dict status => match PyDict.get status "state" with
    | .str state => .ok state
    | _ => .error (.a2aError "remote returned a malformed task")
  | _, _ => .error (.a2aError "remote returned a malformed task")

/-- The texts and the data of an artifact. -/
def artifactParts : PyValue → Except PyError (List String × List PyValue)
  | .dict artifact => do
    let texts ← partsText (PyDict.get artifact "parts")
    let data ← partsData (PyDict.get artifact "parts")
    .ok (texts, data)
  | _ => .ok ([], [])

/-- The texts of the message of a status. -/
def statusTexts (status : PyValue) : Except PyError (List String) :=
  match status with
  | .dict status => match PyDict.get status "message" with
    | .dict message => partsText (PyDict.get message "parts")
    | _ => .ok []
  | _ => .ok []

/-- `_task_result(task)`, for a task in the state. -/
def taskResult (task : PyDict) (state : String) : Except PyError RemoteResult := do
  let texts ← statusTexts (PyDict.get task "status")
  let artifacts ← iterated (PyDict.get task "artifacts")
  let parts ← artifacts.mapM artifactParts
  .ok { state, text := "\n".intercalate (texts ++ parts.flatMap (·.1)), data := parts.flatMap (·.2) }

/-- The result of a task that has stopped. -/
def stoppedResult (task : PyValue) : Except ClientFailure (Option RemoteResult) :=
  match task with
  | .dict task => do
    let state ← taskState task
    if state ∈ stopStates then do
      let result ← uncaught (taskResult task state)
      .ok (some result)
    else .ok none
  | _ => .error (.other (.attributeError "object has no attribute 'get'"))

/-- What the requests of `execute` bring. The polls are those for which the time is not up before. -/
structure ExecuteRun where
  send : HttpReply
  polls : List HttpReply
  cancel : HttpReply

/-- `_cancel_quietly(task_id)`. -/
def cancelQuietly (cancel : HttpReply) : Except ClientFailure Unit :=
  match call text "CancelTask" cancel with
  | .error (.other e) => .error (.other e)
  | _ => .ok ()

/-- The loop of `execute`. -/
def waitFor (cancel : HttpReply) : PyValue → List HttpReply → Except ClientFailure RemoteResult
  | task, [] => do
    match ← stoppedResult task with
    | some result => .ok result
    | none => do
      cancelQuietly text cancel
      .error (.a2aError "timed out waiting for remote task")
  | task, reply :: polls => do
    match ← stoppedResult task with
    | some result => .ok result
    | none => do
      let next ← call text "GetTask" reply
      waitFor cancel (.dict next) polls

/-- `execute(remote_skill, payload)` on a client that has connected. -/
def executeConnected (x : ExecuteRun) : Except ClientFailure RemoteResult := do
  let result ← call text "SendMessage" x.send
  match result.lookup "task", PyDict.get result "message" with
  | none, .dict reply => do
    let texts ← uncaught (partsText (PyDict.get reply "parts"))
    .ok { state := "TASK_STATE_COMPLETED", text := "\n".intercalate texts, data := [] }
  | task, _ => waitFor text x.cancel (task.getD (.dict result)) x.polls

/-- `execute(remote_skill, payload)`. -/
def execute (connected : Bool) (r : ConnectRun) (x : ExecuteRun) : Except ClientFailure RemoteResult := do
  if connected then executeConnected text x
  else do
    let _ ← connect text origin c r
    executeConnected text x

/-! ## What a remote may answer -/

/-- A request that brings it is answered, or fails with an exception that the client catches. -/
def Readable (limit : ℕ → Prop) (reply : HttpReply) : Prop :=
  (∀ e, reply ≠ .raised e) ∧ ∀ size, limit size → reply ≠ .answered 200 size .tooDeep

/-- A response that the client reads. -/
def Small (size : ℕ) : Prop := size ≤ MAX_RESPONSE_BYTES

/-- The reply has the result. -/
def HasResult (reply : HttpReply) (result : PyDict) : Prop :=
  ∃ size payload, Small size ∧ reply = .answered 200 size (.json (.dict payload)) ∧
    (∀ error, PyDict.get payload "error" ≠ .dict error) ∧ PyDict.get payload "result" = .dict result

/-- The loop over the value can be run. -/
def Iterable (value : PyValue) : Prop := ∃ xs, iterated value = .ok xs

/-- The interface is one for this client, at a url of http. -/
def Offers (interface : PyDict) (url : String) : Prop :=
  (∃ binding ∈ JSONRPC_BINDINGS, PyDict.get interface "protocolBinding" = .str binding) ∧
    PyDict.get interface "protocolVersion" = .str A2A_VERSION ∧ PyDict.get interface "url" = .str url ∧
    isHttp url = true

/-- The interface is on the client's own host. -/
def Picks (v : PyValue) (url : String) : Prop :=
  ∃ interface, v = .dict interface ∧ Offers interface url ∧ (origin url).isSome = true ∧
    origin url = origin c.base

/-- The binding of an interface can be looked up, and the url of one for this client has an origin. -/
def InterfaceFits (v : PyValue) : Prop :=
  ∀ interface, v = .dict interface → (∀ xs, PyDict.get interface "protocolBinding" ≠ .list xs) ∧
    (∀ items, PyDict.get interface "protocolBinding" ≠ .dict items) ∧
    ∀ url, Offers interface url → (origin url).isSome = true ∧ (origin c.base).isSome = true

/-- The interfaces up to the first one that is picked fit. -/
def InterfacesFit (interfaces : List PyValue) : Prop :=
  ∀ before v after, interfaces = before ++ v :: after → (∀ u ∈ before, ∀ url, ¬Picks origin c u url) →
    InterfaceFits origin c v

/-- The card can be read, its interfaces can be iterated and fit, and where one is picked and the remote is
asked for more, that reply can be read. -/
def ConnectFits (r : ConnectRun) : Prop :=
  Readable (fun _ => True) r.card ∧ ∀ size card, r.card = .answered 200 size (.json (.dict card)) →
    ∃ interfaces, iterated (PyDict.get card "supportedInterfaces") = .ok interfaces ∧
      InterfacesFit origin c interfaces ∧
      ((∃ v ∈ interfaces, ∃ url, Picks origin c v url) → c.asksExtended card = true → Readable Small r.extended)

/-- The remote has the card, with an interface that is picked. -/
def Connects (r : ConnectRun) (card : PyDict) : Prop :=
  ∃ size interfaces, r.card = .answered 200 size (.json (.dict card)) ∧
    iterated (PyDict.get card "supportedInterfaces") = .ok interfaces ∧
    ∃ v ∈ interfaces, ∃ url, Picks origin c v url

/-- The task has an id, and the state. -/
def HasState (task : PyDict) (state : String) : Prop :=
  (∃ id, PyDict.get task "id" = .str id) ∧
    ∃ status, PyDict.get task "status" = .dict status ∧ PyDict.get status "state" = .str state

/-- Whatever parts the task has can be iterated, and so can its artifacts. -/
def ResultFits (task : PyDict) : Prop :=
  (∀ status message, PyDict.get task "status" = .dict status → PyDict.get status "message" = .dict message →
      Iterable (PyDict.get message "parts")) ∧
    ∃ artifacts, iterated (PyDict.get task "artifacts") = .ok artifacts ∧
      ∀ artifact, .dict artifact ∈ artifacts → Iterable (PyDict.get artifact "parts")

/-- The task is an object without id or state, or has stopped and can be read, or goes on until a reply to
`GetTask` has no result or the time is up; and these replies, and the last one, can be read. -/
inductive TaskFits (cancel : HttpReply) : PyValue → List HttpReply → Prop where
  | malformed {task : PyDict} {polls : List HttpReply} (h : ∀ state, ¬HasState task state) :
    TaskFits cancel (.dict task) polls
  | stopped {task : PyDict} {polls : List HttpReply} {state : String} (h : HasState task state)
    (hstop : state ∈ stopStates) (hresult : ResultFits task) : TaskFits cancel (.dict task) polls
  | timedOut {task : PyDict} {state : String} (h : HasState task state) (hgoes : state ∉ stopStates)
    (hcancel : Readable Small cancel) : TaskFits cancel (.dict task) []
  | refused {task : PyDict} {state : String} {reply : HttpReply} {polls : List HttpReply}
    (h : HasState task state) (hgoes : state ∉ stopStates) (hread : Readable Small reply)
    (hnone : ∀ next, ¬HasResult reply next) : TaskFits cancel (.dict task) (reply :: polls)
  | polled {task next : PyDict} {state : String} {reply : HttpReply} {polls : List HttpReply}
    (h : HasState task state) (hgoes : state ∉ stopStates) (hresult : HasResult reply next)
    (rest : TaskFits cancel (.dict next) polls) : TaskFits cancel (.dict task) (reply :: polls)

/-- The reply to `SendMessage` can be read, and its message has parts that can be iterated or its task fits. -/
def SendFits (x : ExecuteRun) : Prop :=
  Readable Small x.send ∧ ∀ result, HasResult x.send result →
    ((∃ reply, result.lookup "task" = none ∧ PyDict.get result "message" = .dict reply ∧
        Iterable (PyDict.get reply "parts")) ∨
      ((∀ reply, ¬(result.lookup "task" = none ∧ PyDict.get result "message" = .dict reply)) ∧
        TaskFits x.cancel ((result.lookup "task").getD (.dict result)) x.polls))

/-- The client connects where it has to, and where it has connected the rest fits. -/
def ExecuteFits (connected : Bool) (r : ConnectRun) (x : ExecuteRun) : Prop :=
  (connected = false → ConnectFits origin c r) ∧
    (connected = true ∨ (∃ card, Connects origin c r card) → SendFits x)

/-! ## What is asked of the client -/

/-- It returns, or raises an `A2AClientError`. -/
def Tame {α : Type} (x : Except ClientFailure α) : Prop := ∀ e, x ≠ .error (.other e)

end A2AClient

/-! ## The constructor of the Wormhole -/

/-- A configured agent with what the requests of `connect` bring. -/
structure A2ARemote where
  cfg : AgentConfig
  replies : ConnectRun

namespace WormholeAgent

variable {Time : Type} (text : PyText) (isUnicode : String → Bool) (origin : Origins)

/-- `SkillDefinition` refuses texts that are no Unicode. -/
def checkTexts (cfg : AgentConfig) (remote : PyValue) : Except PyError Unit :=
  match acceptedSkill text remote with
  | none => .ok ()
  | some (remoteId, description) =>
    if isUnicode (proxyId cfg.name remoteId) = true ∧
        isUnicode (proxyDescription text remoteId description) = true then .ok ()
    else .error (.valueError "Input should be a valid string, unable to parse raw data as a unicode string")

/-- One turn of the loop over the agents. -/
def addRemote (tables : WormholeTables) (r : A2ARemote) : Except PyError WormholeTables :=
  match r.cfg.client.connect text origin r.replies with
  | .error (.other e) => .error e
  | .error (.a2aError message) => addAgent text tables { cfg := r.cfg, connect := .error message }
  | .ok (card, _) => do
    let remotes ← iterated (PyDict.get card "skills")
    remotes.forM (checkTexts text isUnicode r.cfg)
    addAgent text tables { cfg := r.cfg, connect := .ok card }

/-- The end of the constructor. -/
def finish (now : Time) (registry : List (ManifestRecord Time)) (tables : WormholeTables) :
    WormholeAgent × List (ManifestRecord Time) :=
  let agent := { clients := tables.clients, skills := tables.skills, status := tables.status }
  if tables.definitions = [] then (agent, Keyed.remove ManifestRecord.agentId agentId registry)
  else (agent, Keyed.put ManifestRecord.agentId
    { agentId, agentName := "Wormhole A2A Gateway", version := "0.1.0", skills := tables.definitions,
      healthEndpoint := "http://wormhole:8000/health", registeredAt := now } registry)

/-- `WormholeAgent(registry, agents)` on what the remotes answer. -/
def start (now : Time) (registry : List (ManifestRecord Time)) (remotes : List A2ARemote) :
    Except PyError (WormholeAgent × List (ManifestRecord Time)) := do
  let tables ← remotes.foldlM (addRemote text isUnicode origin) {}
  .ok (finish now registry tables)

/-- What the skills are that a remote lists: those of the extended card where the client asks for it and it
has a list of them, and those of its card otherwise. -/
inductive Lists (c : A2AClient) (r : ConnectRun) (card : PyDict) : PyValue → Prop where
  | extended {extended : PyDict} {skills : List PyValue} (hasks : c.asksExtended card = true)
    (hresult : A2AClient.HasResult r.extended extended) (hskills : PyDict.get extended "skills" = .list skills) :
    Lists c r card (.list skills)
  | card (h : ¬(c.asksExtended card = true ∧ ∃ extended skills, A2AClient.HasResult r.extended extended ∧
      PyDict.get extended "skills" = .list skills)) : Lists c r card (PyDict.get card "skills")

/-- The skills can be iterated, and the texts of those that are taken are Unicode. -/
def SkillsFit (cfg : AgentConfig) (skills : PyValue) : Prop :=
  ∃ remotes, iterated skills = .ok remotes ∧
    ∀ remote ∈ remotes, ∀ remoteId description, acceptedSkill text remote = some (remoteId, description) →
      isUnicode (proxyId cfg.name remoteId) = true ∧
        isUnicode (proxyDescription text remoteId description) = true

/-- The replies to `connect` fit, and so do the skills of a remote that is connected. -/
def RemoteFits (r : A2ARemote) : Prop :=
  A2AClient.ConnectFits origin r.cfg.client r.replies ∧
    ∀ card, A2AClient.Connects origin r.cfg.client r.replies card → ∀ skills, Lists r.cfg.client r.replies card skills →
      SkillsFit text isUnicode r.cfg skills

/-- The remote is marked as failed because `connect` raised an `A2AClientError`, or its skills are registered. -/
def Marked (skills : List SkillRecord) (r : A2ARemote) (status : AgentStatus) : Prop :=
  status.name = r.cfg.name ∧
    ((∃ message, r.cfg.client.connect text origin r.replies = .error (.a2aError message) ∧
        status.ok = false ∧ status.error = some message) ∨
      ∃ card url remotes, r.cfg.client.connect text origin r.replies = .ok (card, url) ∧
        iterated (PyDict.get card "skills") = .ok remotes ∧ status.ok = true ∧
        ∀ remote ∈ remotes, ∀ skill, acceptedSkill text remote = some skill →
          ∃ s ∈ skills, s.skillId = strip (proxyId r.cfg.name skill.1))

/-- The constructor finishes, and every remote only costs itself. -/
def Finishes (now : Time) (registry : List (ManifestRecord Time)) (remotes : List A2ARemote) : Prop :=
  ∃ w registry', start text isUnicode origin now registry remotes = .ok (w, registry') ∧
    List.Forall₂ (Marked text origin (advertised registry')) remotes w.status

end WormholeAgent

end Galaxz
