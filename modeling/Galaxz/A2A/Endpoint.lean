import Galaxz.A2A.Client
import Galaxz.A2A.Streaming
import Galaxz.Lib.Digits
import Galaxz.Lib.JsonEncoding

/-!
# `core/a2a/server.py` and `card.py`: the JSON-RPC endpoint

A request of an authenticated caller, from its headers and its bytes to the response that is sent. What
`json.loads` makes of the bytes is a parameter. A text of Python may have lone surrogates, and a value may be
nested deeper than what writes or reads it goes; the job database and the response encoder refuse both.
-/

namespace Galaxz

open SqliteJobRepository

/-! ## Python -/

/-- What is taken from Python and `pydantic` as it is: the characters that stand for lone surrogates, and how
deep a value may be nested in a response, in a frame of a stream, and in a task that is written or read. -/
structure Interpreter where
  isSurrogate : Char → Bool
  ascii : ∀ c, c.toNat < 128 → isSurrogate c = false
  responseDepth : ℕ
  response_room : 9 ≤ responseDepth
  frameDepth : ℕ
  frame_room : 9 ≤ frameDepth
  dumpDepth : ℕ
  readDepth : ℕ

namespace Interpreter

variable (py : Interpreter)

/-- The text can be encoded in UTF-8. -/
def isUnicode (s : String) : Bool := s.toList.all fun c => !py.isSurrogate c

/-- `json.dumps(content, ensure_ascii=False, allow_nan=False).encode("utf-8")`, as `JSONResponse` calls it. -/
def response : JsonEncoder where
  number
    | .finite _ => true
    | _ => false
  text := py.isUnicode
  maxDepth := py.responseDepth

/-- `json.dumps(content)`. -/
def frame : JsonEncoder where
  number _ := true
  text _ := true
  maxDepth := py.frameDepth

/-- `model_dump_json()`. -/
def dump : JsonEncoder where
  number _ := true
  text := py.isUnicode
  maxDepth := py.dumpDepth

end Interpreter

/-! ## `protocol.py` -/

namespace A2AError

def parseError : A2AError := ⟨-32700, "Parse error", none⟩

def invalidRequest (detail : String := "Invalid request") : A2AError := ⟨-32600, detail, none⟩

def unsupportedOperation : A2AError := ⟨-32052, "Operation not supported", some "UNSUPPORTED_OPERATION"⟩

def versionNotSupported : A2AError := ⟨-32055, "Protocol version not supported", some "VERSION_NOT_SUPPORTED"⟩

/-- `body["data"]` of an error that has a reason. -/
def details (e : A2AError) : PyDict :=
  match e.reason with
  | none => []
  | some reason =>
    if reason = "" then []
    else [("data", .dict [("details", .list [.dict [("@type", .str "type.googleapis.com/google.rpc.ErrorInfo"),
      ("reason", .str reason), ("domain", .str "a2a-protocol.org")]])])]

end A2AError

/-- `rpc_result(request_id, result)`. -/
def rpcResult (requestId result : PyValue) : PyValue :=
  .dict [("jsonrpc", .str "2.0"), ("id", requestId), ("result", result)]

/-- `rpc_error(request_id, error)`. -/
def rpcError (requestId : PyValue) (e : A2AError) : PyValue :=
  .dict [("jsonrpc", .str "2.0"), ("id", requestId),
    ("error", .dict ([("code", .int e.code), ("message", .str e.message)] ++ e.details))]

/-- The time of a status, and the id of its message. -/
structure Stamp where
  timestamp : String
  messageId : Uuid
  ascii : ∀ c ∈ timestamp.toList, c.toNat < 128

/-- The status of a task. -/
def statusValue (stamp : Stamp) (state : String) (text : Option String) : PyValue :=
  .dict ([("state", .str state), ("timestamp", .str stamp.timestamp)] ++ match text with
    | none => []
    | some text =>
      if text = "" then []
      else [("message", .dict [("messageId", .str stamp.messageId.text), ("role", .str "ROLE_AGENT"),
        ("parts", .list [.dict [("text", .str text)]])])])

/-- `make_task(task_id, state, ...)`. -/
def makeTask (stamp : Stamp) (view : TaskView) : PyValue :=
  .dict ([("id", .str view.id), ("contextId", .str view.id),
    ("status", statusValue stamp view.state view.text)] ++
      if view.artifacts.isEmpty then [] else [("artifacts", .list view.artifacts)])

/-! ## `card.py` -/

section Card

variable {Time : Type}

/-- `_skill_entry(skill)`. -/
def skillEntry (skill : SkillRecord) : PyValue :=
  let modes : PyValue := .list [.str "application/json"]
  .dict [("id", .str skill.skillId), ("name", .str skill.skillId), ("description", .str skill.description),
    ("tags", .list [.str (String.ofList (skill.skillId.toList.takeWhile (· ≠ '.')))]),
    ("inputModes", modes), ("outputModes", modes)]

/-- `_collect(registry, allowed)`, before the entries are made: of the skills with one id, the first. -/
def collectSkills (registry : List (ManifestRecord Time)) (allowed : SkillRecord → Bool) : List SkillRecord :=
  let manifests := registry.filter (·.agentId ≠ WormholeAgent.agentId)
  let seen := (manifests.flatMap (·.skills)).foldl (fun seen skill =>
    if seen.any (·.skillId = skill.skillId) = false ∧ allowed skill = true then seen ++ [skill] else seen) []
  seen.insertionSort (·.skillId ≤ ·.skillId)

/-- `url.rstrip("/")`. -/
def rstripSlash (url : String) : String := String.ofList (url.toList.rdropWhile (· = '/'))

/-- `_card(base_url, skills)`; the version is that of the installed package. -/
def cardValue (version base : String) (skills : List PyValue) : PyValue :=
  let modes : PyValue := .list [.str "application/json"]
  .dict [("name", .str "Galaxz"),
    ("description", .str ("Galaxz multi-agent platform. To run a skill, send a data part " ++
      "\x7b\"skill\": \"<skill id>\", \"payload\": \x7b...\x7d\x7d.")),
    ("version", .str version),
    ("supportedInterfaces", .list [.dict [("url", .str (rstripSlash base ++ "/a2a")),
      ("protocolBinding", .str "JSONRPC"), ("protocolVersion", .str "1.0")]]),
    ("capabilities", .dict [("streaming", .bool true), ("pushNotifications", .bool false),
      ("extendedAgentCard", .bool true)]),
    ("securitySchemes", .dict [("bearer", .dict [("httpAuthSecurityScheme",
      .dict [("scheme", .str "Bearer")])])]),
    ("securityRequirements", .list [.dict [("schemes", .dict [("bearer", .dict [("list", .list [])])])]]),
    ("defaultInputModes", modes), ("defaultOutputModes", modes), ("skills", .list skills)]

/-- The skills on the card of a caller. -/
def callerSkills (registry : List (ManifestRecord Time)) (caller : CallerConfig) : List SkillRecord :=
  collectSkills registry fun s => s.permits caller.origin && caller.allowsSkill s.skillId

/-- `build_extended_card(registry, base_url, caller)`. -/
def buildExtendedCard (registry : List (ManifestRecord Time)) (version base : String) (caller : CallerConfig) :
    PyValue := cardValue version base ((callerSkills registry caller).map skillEntry)

end Card

/-! ## Requests -/

/-- What the handler reads of a request: `headers.get("content-length", "")`, `headers.get("A2A-Version")`,
the url of the endpoint (`A2A_PUBLIC_URL` or `request.base_url`), and the bytes. -/
structure A2ARequest where
  contentLength : String := ""
  version : Option String
  url : String
  raw : List UInt8

def MAX_BODY_BYTES : ℕ := 1000000

/-- `c.isdigit()` for a character of a header. These are Latin-1, where three superscripts are digits. -/
def isLatinDigit (c : Char) : Bool := c.isDigit || c = '²' || c = '³' || c = '¹'

/-- `int(declared)`, if `declared.isdigit()`. It takes no superscripts and no more than 4300 digits. -/
def declaredLength (declared : String) : Except PyError (Option ℕ) :=
  let cs := declared.toList
  if cs ≠ [] ∧ cs.all isLatinDigit = true then
    if cs.all Char.isDigit = true ∧ cs.length ≤ 4300 then .ok (some (natOf cs))
    else .error (.valueError "invalid literal for int() with base 10")
  else .ok none

/-- What `_parse` returns. -/
structure ParsedCall where
  requestId : PyValue := .none
  method : String := ""
  params : PyDict := []
  error : Option A2AError := none

/-- `_parse(raw)`, on what `json.loads` makes of the bytes. -/
def parseCall : Body → Except PyError ParsedCall
  | .tooDeep => .error (.runtimeError "maximum recursion depth exceeded while decoding a JSON array")
  | .invalid => .ok { error := some .parseError }
  | .json (.dict body) =>
    let requestId := PyDict.get body "id"
    match PyDict.get body "method" with
    | .str method =>
      if PyDict.get body "jsonrpc" = .str "2.0" then
        match (body.lookup "params").getD (.dict []) with
        | .dict params => .ok { requestId, method, params }
        | _ => .ok { requestId, method, error := some (.invalidParams "params must be an object") }
      else .ok { requestId, error := some .invalidRequest }
    | _ => .ok { requestId, error := some .invalidRequest }
  | .json _ => .ok { error := some .invalidRequest }

/-! ## Handlers -/

/-- What the endpoint sends: a JSON document, or the frames of a stream and how it ends. -/
inductive A2AReply where
  | json (content : PyValue)
  | stream (frames : List PyValue) (ending : Except PyError Unit)

namespace A2AEndpoint

variable (text : PyText) (py : Interpreter) (caller : CallerConfig)

/-- `JSONResponse(content)`. -/
def jsonResponse (content : PyValue) : Except PyError A2AReply :=
  if py.response.Fits 0 content then .ok (.json content)
  else if py.response.maxDepth < content.depth then
    .error (.runtimeError "maximum recursion depth exceeded while encoding a JSON object")
  else .error (.valueError "Out of range float values are not JSON compliant, or surrogates not allowed")

/-- `repo.enqueue(...)` of a task. `Job` refuses a key that is no Unicode, and the transaction is rolled back
when the task of a new job cannot be dumped. -/
def storeTask (m : A2AMessage) (task : TaskContract) (ids : RequestIds) (s : Db) : Except PyError Job × Db :=
  let c := A2AServer.submissionOf caller m task ids
  if py.isUnicode c.idempotencyKey = true then
    if s.idempotency.any (·.idempotencyKey = c.idempotencyKey) = true ∨ py.dump.Fits 1 (.dict task.payload) then
      c.submit s
    else (.error (.valueError "Error serializing to JSON"), s)
  else (.error (.valueError "idempotency_key: Input should be a valid string"), s)

/-- `enqueue(params, caller)` up to the view: the job that the repository returned, or `none` if the skill
is not permitted. `TaskContract` refuses texts that are no Unicode. -/
def submit (params : PyDict) (ids : RequestIds) (s : Db) : Except A2AFailure (Option Job) × Db :=
  match readMessage params with
  | .error e => (.error e, s)
  | .ok m =>
    if caller.allowsSkill m.skill = true then
      if py.isUnicode caller.origin = true ∧ py.isUnicode m.skill = true then
        match (A2AServer.contractOf caller m ids).validate with
        | .error _ => (invalidParams "invalid skill", s)
        | .ok task => match storeTask py caller m task ids s with
          | (.error e, s') => (.error (.raised e), s')
          | (.ok job, s') => (.ok (some job), s')
      else (invalidParams "invalid skill", s)
    else (.ok none, s)

/-- `enqueue(params, caller)`. -/
def enqueue (params : PyDict) (ids : RequestIds) (s : Db) : Except A2AFailure Shown × Db :=
  let submitted := submit py caller params ids s
  (submitted.1 >>= fun job => A2AServer.firstView text ids job submitted.2, submitted.2)

/-- `repo.get_task(job_id)`, which validates the stored text. -/
def readTask (s : Db) (jobId : Uuid) : Except PyError (Option TaskContract) :=
  match getTask s jobId with
  | none => .ok none
  | some task =>
    if 1 + (PyValue.dict task.payload).depth ≤ py.readDepth then .ok (some task)
    else .error (.valueError "Invalid JSON: recursion limit exceeded")

/-- `owned_job(params, caller)`. -/
def ownedJob (params : PyDict) (s : Db) : Except A2AFailure Job :=
  match Uuid.parse (text.str (PyDict.get params "id")) with
  | .error _ => .error (.a2a .taskNotFound)
  | .ok jobId => do
    match ← passing (getJob s jobId) with
    | none => .error (.a2a .taskNotFound)
    | some job => match ← passing (readTask py s jobId) with
      | none => .error (.a2a .taskNotFound)
      | some task => if task.origin = caller.origin then .ok job else .error (.a2a .taskNotFound)

/-- `cancel(params, caller)` up to the view. -/
def cancelOwned (params : PyDict) (ids : RequestIds) (s : Db) : Except A2AFailure Job × Db :=
  match ownedJob text py caller params s with
  | .error e => (.error e, s)
  | .ok job => match cancel job.jobId ids.now s with
    | (.error e, s') => (.error (A2AServer.cancelFailure e), s')
    | (.ok job', s') => (.ok job', s')

/-- `_task_view(repo, job)`, as the value that is sent. -/
def shownTask (stamp : Stamp) (s : Db) (job : Job) : Except A2AFailure PyValue := do
  let shown ← A2AServer.showJob text s job
  .ok (makeTask stamp shown.2)

/-- `dispatch(method, params, caller, base)`, where `card` is the extended card. -/
def dispatch (card : PyValue) (method : String) (params : PyDict) (ids : RequestIds) (stamp : Stamp) (s : Db) :
    Except A2AFailure PyValue × Db :=
  if method = "SendMessage" then
    let answer := enqueue text py caller params ids s
    (answer.1.map fun shown => .dict [("task", makeTask stamp shown.2)], answer.2)
  else if method = "GetTask" then
    (ownedJob text py caller params s >>= shownTask text stamp s, s)
  else if method = "CancelTask" then
    let cancelled := cancelOwned text py caller params ids s
    (cancelled.1 >>= shownTask text stamp cancelled.2, cancelled.2)
  else if method = "GetExtendedAgentCard" then (.ok card, s)
  else (.error (.a2a .unsupportedOperation), s)

/-- The payload of a frame. -/
def framePayload (stamp : Stamp) : StreamFrame → PyValue
  | .task view => .dict [("task", makeTask stamp view)]
  | .artifactUpdate taskId artifact => .dict [("artifactUpdate",
      .dict [("taskId", .str taskId), ("contextId", .str taskId), ("artifact", artifact)])]
  | .statusUpdate taskId state text => .dict [("statusUpdate",
      .dict [("taskId", .str taskId), ("contextId", .str taskId), ("status", statusValue stamp state text)])]

/-- The frames of `events` as they are sent, each in its turn. -/
def sendFrames (requestId : PyValue) (stamps : ℕ → Stamp) (ending : Except PyError Unit) :
    ℕ → List StreamFrame → List PyValue × Except PyError Unit
  | _, [] => ([], ending)
  | n, f :: frames =>
    let content := rpcResult requestId (framePayload (stamps n) f)
    if py.frame.Fits 0 content then
      let rest := sendFrames requestId stamps ending (n + 1) frames
      (content :: rest.1, rest.2)
    else ([], .error (.runtimeError "maximum recursion depth exceeded while encoding a JSON object"))

/-- The response for what a handler returned or raised. -/
def respond {α : Type} (requestId : PyValue) (send : α → Except PyError A2AReply) :
    Except A2AFailure α × Db → Except PyError A2AReply × Db
  | (.error (.a2a e), s) => (jsonResponse py (rpcError requestId e), s)
  | (.error (.raised e), s) => (.error e, s)
  | (.ok a, s) => (send a, s)

/-- The content length or the content itself is too large. -/
def tooLarge (declared : Option ℕ) (raw : List UInt8) : Bool :=
  declared.any (MAX_BODY_BYTES < ·) || MAX_BODY_BYTES < raw.length

/-- A call that was parsed. The databases that the loop of `events` looks at are given. -/
def answerCall (card : PyValue) (version : Option String) (call : ParsedCall) (ids : RequestIds)
    (stamps : ℕ → Stamp) (polls : List (Db × Db)) (s : Db) : Except PyError A2AReply × Db :=
  match call.error with
  | some e => (jsonResponse py (rpcError call.requestId e), s)
  | none =>
    if version ≠ some "1.0" then (jsonResponse py (rpcError call.requestId .versionNotSupported), s)
    else if call.method = "SendStreamingMessage" then
      respond py call.requestId (fun shown =>
        let sent := A2AServer.events text shown.1 shown.2 polls
        let frames := sendFrames py call.requestId stamps sent.2 0 sent.1
        .ok (.stream frames.1 frames.2)) (enqueue text py caller call.params ids s)
    else
      respond py call.requestId (fun result => jsonResponse py (rpcResult call.requestId result))
        (dispatch text py caller card call.method call.params ids (stamps 0) s)

variable {Time : Type} (loads : List UInt8 → Body) (registry : List (ManifestRecord Time)) (version : String)

/-- The handler of `POST /a2a` for a caller that is authenticated. -/
def a2a (request : A2ARequest) (ids : RequestIds) (stamps : ℕ → Stamp) (polls : List (Db × Db)) (s : Db) :
    Except PyError A2AReply × Db :=
  match declaredLength request.contentLength with
  | .error e => (.error e, s)
  | .ok declared =>
    if tooLarge declared request.raw = true then
      (jsonResponse py (rpcError .none (.invalidRequest "Request too large")), s)
    else match parseCall (loads request.raw) with
      | .error e => (.error e, s)
      | .ok call =>
        answerCall text py caller (buildExtendedCard registry version (rstripSlash request.url) caller)
          request.version call ids stamps polls s

/-! ## What a request may be -/

/-- The response has the id of the request, whichever this is. -/
def SendsId (requestId : PyValue) : Prop := py.response.Fits 1 requestId

/-- The parameters have a message of a user, with an id. -/
structure IsMessage (params message : PyDict) (messageId : String) : Prop where
  isDict : PyDict.get params "message" = .dict message
  hasId : PyDict.get message "messageId" = .str messageId
  nonblank : strip messageId ≠ ""
  isUser : PyDict.get message "role" = .str "ROLE_USER"

/-- The first part that makes a call, with what it calls. -/
def FirstCall (parts : List PyValue) (skill : String) (data : PyDict) : Prop :=
  ∃ before part after, parts = before ++ part :: after ∧ (∀ p ∈ before, callData p = none) ∧
    callData part = some (skill, data)

/-- The threshold of a message is a number between 0 and 1. -/
def HasThreshold (message : PyDict) (level : PyFloat) : Prop :=
  ∃ metadata, (PyDict.get message "metadata").orElse (.dict []) = .dict metadata ∧
    ((metadata.lookup "confidenceThreshold").getD (.float DEFAULT_THRESHOLD) = .float level ∧
        PyFloat.le (.finite 0) level = true ∧ level.le (.finite 1) = true ∨
      ∃ n : ℤ, (metadata.lookup "confidenceThreshold").getD (.float DEFAULT_THRESHOLD) = .int n ∧
        0 ≤ n ∧ n ≤ 1 ∧ level = .finite n)

/-- The message that the parameters have. -/
inductive ReadsAs (params : PyDict) : A2AMessage → Prop where
  | mk {message data payload : PyDict} {messageId skill : String} {parts : List PyValue} {level : PyFloat}
    (h : IsMessage params message messageId) (hparts : iterated (PyDict.get message "parts") = .ok parts)
    (hcall : FirstCall parts skill data) (hpayload : (data.lookup "payload").getD (.dict []) = .dict payload)
    (hlevel : HasThreshold message level) :
    ReadsAs params { messageId := strip messageId, skill, payload, threshold := level }

/-- The parts of the message can be iterated. -/
def PartsFit (params : PyDict) : Prop :=
  ∀ message messageId, IsMessage params message messageId → A2AClient.Iterable (PyDict.get message "parts")

/-- The message makes a task of the caller. -/
def MakesTask (m : A2AMessage) : Prop :=
  (py.isUnicode caller.origin = true ∧ py.isUnicode m.skill = true) ∧ strip m.skill ≠ ""

/-- The job has the key of the message. -/
def HasKey (m : A2AMessage) (s : Db) (jobId : Uuid) : Prop :=
  ∃ k ∈ s.idempotency, k.idempotencyKey = messageKey caller.origin m.messageId ∧ k.jobId = jobId

/-- The id of the message is Unicode, and the message was sent before, or the id of its job is new and its
payload can be dumped. -/
def Stores (m : A2AMessage) (ids : RequestIds) (s : Db) : Prop :=
  py.isUnicode m.messageId = true ∧ ((∃ jobId, HasKey caller m s jobId) ∨
    s.job? ids.jobId = none ∧ py.dump.Fits 1 (.dict m.payload))

/-- What is shown of the result of a completed job may be sent. -/
def ResultFits (fits : PyValue → Prop) (tells : String → Prop) (result : PyDict) : Prop :=
  let outcome := PyDict.get result "status"
  let reason := PyDict.get result "failure_reason"
  (outcome = .str "complete" → fits (resultArtifact result)) ∧
    (outcome ≠ .str "complete" → outcome ≠ .str "escalated" →
      (outcome = .str "no_agent_found" →
        (∀ xs, reason ≠ .list xs) ∧ ∀ items, reason ≠ .dict items) ∧
      (¬(outcome = .str "no_agent_found" ∧ (reason = .str "origin_not_allowed" ∨ reason = .str "policy_denied")) →
        tells (text.str ((reason.orElse outcome).orElse (.str "task failed")))))

/-- If the job is completed, its result may be sent. The job and its result are read from two databases. -/
def JobFits (fits : PyValue → Prop) (tells : String → Prop) (s r : Db) (jobId : Uuid) : Prop :=
  ∀ row, s.job? jobId = some row → row.status = .completed → ResultFits text fits tells ((getResult r jobId).getD [])

/-- The parameters of `SendMessage` are answered. -/
def SendFits (params : PyDict) (ids : RequestIds) (s : Db) : Prop :=
  PartsFit params ∧ ∀ m, ReadsAs params m → caller.allowsSkill m.skill = true → MakesTask py caller m →
    Stores py caller m ids s ∧ ∀ jobId, HasKey caller m s jobId →
      JobFits text (py.response.Fits 4) (fun t => py.isUnicode t = true) s s jobId

/-- The job may still change, as far as the database knows it. -/
def Waits (s : Db) (jobId : Uuid) : Prop :=
  ∀ row, s.job? jobId = some row → row.status = .queued ∨ row.status = .running

/-- Every look at a job that was there and has been waiting until then finds one that may be sent. -/
def LooksFit (jobId : Uuid) (polls : List (Db × Db)) : Prop :=
  ∀ before poll after, polls = before ++ poll :: after →
    (∀ p ∈ before, p.1.job? jobId ≠ none ∧ Waits p.1 jobId) →
      JobFits text (py.frame.Fits 3) (fun _ => True) poll.1 poll.2 jobId

/-- The request opens a stream. -/
def Streams (params : PyDict) : Prop :=
  ∃ m, ReadsAs params m ∧ (caller.allowsSkill m.skill = true → MakesTask py caller m)

/-- The parameters of `SendStreamingMessage` are answered, with a stream or an error. -/
def StreamFits (requestId : PyValue) (params : PyDict) (ids : RequestIds) (polls : List (Db × Db)) (s : Db) :
    Prop :=
  PartsFit params ∧ (¬Streams py caller params → SendsId py requestId) ∧
    (Streams py caller params → py.frame.Fits 1 requestId) ∧
    ∀ m, ReadsAs params m → caller.allowsSkill m.skill = true → MakesTask py caller m →
      Stores py caller m ids s ∧
        ∀ jobId, HasKey caller m s jobId ∨ (∀ other, ¬HasKey caller m s other) ∧ jobId = ids.jobId →
          JobFits text (py.frame.Fits 4) (fun _ => True) s s jobId ∧
            (Waits s jobId → LooksFit text py jobId polls)

/-- A job with the id in the parameters has a task that can be read. -/
def IdFits (params : PyDict) (s : Db) (fits : Uuid → Prop) : Prop :=
  ∀ jobId, Uuid.parse (text.str (PyDict.get params "id")) = .ok jobId → s.job? jobId ≠ none →
    (∀ task, getTask s jobId = some task → 1 + (PyValue.dict task.payload).depth ≤ py.readDepth) ∧
      (A2AServer.TaskOf s jobId caller.origin → fits jobId)

/-- The texts on the card are Unicode. -/
def CardFits (url : String) : Prop :=
  py.isUnicode version = true ∧ py.isUnicode (rstripSlash url) = true ∧
    ∀ skill ∈ callerSkills registry caller, py.isUnicode skill.skillId = true ∧ py.isUnicode skill.description = true

/-- The method is answered on the parameters. -/
def MethodFits (url : String) (requestId : PyValue) (method : String) (params : PyDict) (ids : RequestIds)
    (polls : List (Db × Db)) (s : Db) : Prop :=
  if method = "SendStreamingMessage" then StreamFits text py caller requestId params ids polls s
  else SendsId py requestId ∧
    (if method = "SendMessage" then SendFits text py caller params ids s
    else if method = "GetTask" then IdFits text py caller params s fun jobId =>
      JobFits text (py.response.Fits 3) (fun t => py.isUnicode t = true) s s jobId
    else if method = "CancelTask" then IdFits text py caller params s fun _ => True
    else if method = "GetExtendedAgentCard" then CardFits py caller registry version url
    else True)

/-- The body is a call of the method. -/
structure IsCall (request : A2ARequest) (body : PyDict) (method : String) (params : PyDict) : Prop where
  jsonrpc : PyDict.get body "jsonrpc" = .str "2.0"
  method : PyDict.get body "method" = .str method
  params : (body.lookup "params").getD (.dict []) = .dict params
  version : request.version = some "1.0"

/-- The request is answered: its length can be read, it is not nested too deep, and the method fits, or the id
can be sent with an error. -/
def RequestFits (request : A2ARequest) (ids : RequestIds) (polls : List (Db × Db)) (s : Db) : Prop :=
  ∃ declared, declaredLength request.contentLength = .ok declared ∧
    (tooLarge declared request.raw = false → loads request.raw ≠ .tooDeep ∧
      ∀ body, loads request.raw = .json (.dict body) →
        ((∀ method params, ¬IsCall request body method params) → SendsId py (PyDict.get body "id")) ∧
          ∀ method params, IsCall request body method params →
            MethodFits text py caller registry version request.url (PyDict.get body "id") method params ids polls s)

/-! ## What an answer is -/

/-- The id of the request, where the body is read. -/
def readId (request : A2ARequest) : PyValue :=
  match declaredLength request.contentLength, loads request.raw with
  | .ok declared, .json (.dict body) =>
    if tooLarge declared request.raw = true then .none else PyDict.get body "id"
  | _, _ => .none

/-- A JSON-RPC response with this id and exactly one of a result and an error. -/
def IsResponse (requestId content : PyValue) (isError : Bool) : Prop :=
  ∃ body, content = .dict body ∧ PyDict.get body "jsonrpc" = .str "2.0" ∧ body.lookup "id" = some requestId ∧
    (body.lookup "error").isSome = isError ∧ (body.lookup "result").isSome = !isError

/-- The endpoint answers in protocol: with a response, and where this is an error the jobs are as before, or
with a stream of results, which ends without an exception. -/
def Answers (request : A2ARequest) (s : Db) (answer : Except PyError A2AReply × Db) : Prop :=
  match answer with
  | (.error _, _) => False
  | (.ok (.json content), s') =>
    IsResponse (readId loads request) content false ∨ IsResponse (readId loads request) content true ∧ s' = s
  | (.ok (.stream frames ending), _) =>
    (∃ body, loads request.raw = .json (.dict body) ∧ PyDict.get body "method" = .str "SendStreamingMessage") ∧
      ending = .ok () ∧ frames ≠ [] ∧ ∀ frame ∈ frames, IsResponse (readId loads request) frame false

end A2AEndpoint

end Galaxz
