import Galaxz.Lib.Fuel
import Galaxz.Lib.PyError
import Galaxz.Lib.PyValue
import Mathlib.Order.Monotone.Defs

/-!
# `core/quasar/client.py`: the MCP client

The client talks to a server process over its pipes. A thread reads the lines of the server and queues what
`json.loads` makes of them; the queue also carries the mark of the end, a `None`. A request waits for the
reply with its own id, until its time is up, and passes over everything else. What the server prints meanwhile
is an endless sequence here, with the times at which it comes: that the output ends is an element of it, and
while a server is silent its elements are nothing but time.
-/

namespace Galaxz

open Fuel

/-! ## What the reader queues -/

/-- What the output of a server brings a client that waits. -/
inductive Output where
  /-- A line that `json.loads` reads. -/
  | json (v : PyValue)
  /-- A line that it does not read. -/
  | noise
  /-- A line at which the reader stops: it is no text, or nested too deeply. -/
  | broken
  | ended
  /-- No line, for a while. -/
  | silence

/-- What `queue.get` does. -/
inductive Received where
  | message (v : PyValue)
  | empty

/-- `_read`, by what the next `queue.get` does when it does anything. -/
def Output.received : Output → Option Received
  | .json v => some (.message v)
  | .noise => none
  | .broken => some (.message .none)
  | .ended => some (.message .none)
  | .silence => none

/-! ## Requests -/

/-- What a call of the client raises: an `McpError`, by the value it is made of, or anything else. -/
inductive McpFailure where
  | mcpError (message : PyValue)
  | other (error : PyError)

/-- What Python decides where the model does not: `str()` of a value, which is not there for one that is
nested too deeply, whether `json.dumps` ends on one, whether a text is Unicode, and whether a schema goes
through `model_dump` and `json.dumps`. -/
structure McpText where
  str : PyValue → Option String
  str_str : ∀ s, str (.str s) = some s
  encodes : PyValue → Bool
  encodes_handshake : encodes (.dict [("protocolVersion", .str "2024-11-05"), ("capabilities", .dict []),
    ("clientInfo", .dict [("name", .str "galaxz-quasar"), ("version", .str "0.1.0")])]) = true
  encodes_empty : encodes (.dict []) = true
  isUnicode : String → Bool
  storable : PyValue → Bool

/-- An `McpStdioClient`, by its `timeout_s` and what it writes in its errors: `repr(command[0])` and
`f"{timeout_s:.1f}"`. -/
structure McpStdioClient where
  command : String
  timeout : ℚ
  timeoutText : String
  /-- No lock waits for longer. -/
  timeout_le : timeout ≤ 9223372036

/-- The process of the client, if it has started one and not stopped it, and `_next_id`. -/
structure ClientState where
  started : Bool := false
  nextId : ℕ := 0

/-- What meets one `_request`: whether its message cannot be written, and what the server prints. The times are
in seconds since the deadline was set. -/
structure Exchange where
  sendError : Option String := none
  outputs : ℕ → Output
  /-- When the reader is done with the output. -/
  arrives : ℕ → ℚ
  /-- When the client asks for the next message, the output before having been one. -/
  asks : ℕ → ℚ
  /-- How much later than it should a wait that began then sees that its time is up. -/
  late : ℕ → ℚ
  arrives_mono : Monotone arrives
  asks_nonneg : 0 ≤ asks 0
  asks_after : ∀ n, arrives n ≤ asks (n + 1)
  late_nonneg : ∀ n, 0 ≤ late n
  endless : ∀ t, ∃ n, t < arrives n

/-- Until when the client waits for the output: until the time is up, and for a millisecond at least. What is no
message does not end a wait. -/
def Exchange.limit (x : Exchange) (timeout : ℚ) : ℕ → ℚ
  | 0 => max timeout (x.asks 0 + 1 / 1000) + x.late 0
  | n + 1 =>
    if (x.outputs n).received.isSome then max timeout (x.asks (n + 1) + 1 / 1000) + x.late (n + 1)
    else x.limit timeout n

/-- What meets one `_call`: whether the process still runs, whether a new one can be started, the exchange
that initialises it, whether the notification after it cannot be written, and the exchange of the call. -/
structure CallRun where
  running : Bool := true
  startError : Option String := none
  handshake : Exchange
  notifyError : Option String := none
  request : Exchange

def PROTOCOL_VERSION : String := "2024-11-05"

/-- The parameters of `initialize`. -/
def handshakeParams : PyDict :=
  [("protocolVersion", .str PROTOCOL_VERSION), ("capabilities", .dict []),
    ("clientInfo", .dict [("name", .str "galaxz-quasar"), ("version", .str "0.1.0")])]

/-- `items.get(key, default)`. -/
def getOr (items : PyDict) (key : String) (default : PyValue) : PyValue := (items.lookup key).getD default

namespace McpStdioClient

variable (text : McpText) (c : McpStdioClient)

/-- What the loop of `_request` makes of what it gets, and whether it stops the process; a notification, a
request of the server or a reply to another request makes nothing. -/
def judge (method : String) (rid : ℕ) : Received → Option (Except McpFailure PyValue × Bool)
  | .empty =>
    -- a late reply would be stale state, so the process is dropped
    some (.error (.mcpError (.str ("MCP " ++ method ++ " timed out after " ++ c.timeoutText ++ "s"))), true)
  | .message .none => some (.error (.mcpError (.str "MCP server exited unexpectedly")), true)
  | .message (.dict message) =>
    if (PyValue.int rid).pyEq (PyDict.get message "id") = false ∨ (message.lookup "method").isSome = true then none
    else match message.lookup "error" with
      | some (.dict error) => some (.error (.mcpError (getOr error "message" (.str "MCP error"))), false)
      | some _ => some (.error (.other (.attributeError "object has no attribute 'get'")), false)
      | none => some (.ok (getOr message "result" (.dict [])), false)
  | .message _ => some (.error (.other (.attributeError "object has no attribute 'get'")), false)

/-- The same, for what the server prints. -/
def judgeOutput (method : String) (rid : ℕ) (o : Output) : Option (Except McpFailure PyValue × Bool) :=
  o.received.bind (c.judge method rid)

/-- The same, for the output at a place: it is there in time, or `queue.get` gives up. -/
def judgeAt (method : String) (rid : ℕ) (x : Exchange) (n : ℕ) : Option (Except McpFailure PyValue × Bool) :=
  if x.arrives n ≤ x.limit c.timeout n then c.judgeOutput method rid (x.outputs n) else c.judge method rid .empty

/-- `_send`, and whether it stops the process. -/
def send (params : PyDict) (sendError : Option String) : Except McpFailure Unit × Bool :=
  if text.encodes (.dict params) = true then
    match sendError with
    | some e => (.error (.mcpError (.str ("MCP server connection lost: " ++ e))), true)
    | none => (.ok (), false)
  else (.error (.other (.runtimeError "maximum recursion depth exceeded")), false)

/-- `_stop()`, if it is called. -/
def stopIf (stops : Bool) (s : ClientState) : ClientState := if stops then { s with started := false } else s

/-- `_request(method, params)`. -/
def request (x : Exchange) (method : String) (params : PyDict) (s : ClientState) (fuel : ℕ) :
    Option (Except McpFailure PyValue × ClientState) :=
  let rid := s.nextId + 1
  match send text params x.sendError with
  | (.error e, stops) => some (.error e, stopIf stops { s with nextId := rid })
  | (.ok _, _) => (search (c.judgeAt method rid x) id fuel).map fun out =>
    (out.1, stopIf out.2 { s with nextId := rid })

/-- The part of `_ensure_started` after the first request to a new process. -/
def finishStart (x : CallRun) (out : Except McpFailure PyValue × ClientState) :
    Except McpFailure Unit × ClientState :=
  match out.1 with
  | .error (.mcpError message) => (.error (.mcpError message), stopIf true out.2)
  | .error (.other e) => (.error (.other e), out.2)
  | .ok _ => match send text [] x.notifyError with
    | (.error (.mcpError message), _) => (.error (.mcpError message), stopIf true out.2)
    | (.error (.other e), _) => (.error (.other e), out.2)
    | (.ok _, _) => (.ok (), out.2)

/-- `_ensure_started()`. -/
def ensureStarted (x : CallRun) (s : ClientState) (fuel : ℕ) : Option (Except McpFailure Unit × ClientState) :=
  if s.started = true ∧ x.running = true then some (.ok (), s)
  else match x.startError with
    | some e => some (.error (.mcpError (.str ("failed to start MCP server " ++ c.command ++ ": " ++ e))),
        stopIf true s)
    | none => (request text c x.handshake "initialize" handshakeParams { started := true, nextId := 0 } fuel).map
        (finishStart text x)

/-- What `_call` does when `_ensure_started` has ended. -/
def afterStart (x : CallRun) (method : String) (params : PyDict) (started : Except McpFailure Unit × ClientState)
    (fuel : ℕ) : Option (Except McpFailure PyValue × ClientState) :=
  match started.1 with
  | .error e => some (.error e, started.2)
  | .ok _ => request text c x.request method params started.2 fuel

/-- `_call(method, params)`. -/
def call (x : CallRun) (method : String) (params : PyDict) (s : ClientState) (fuel : ℕ) :
    Option (Except McpFailure PyValue × ClientState) :=
  (ensureStarted text c x s fuel).bind fun started => afterStart text c x method params started fuel

/-! ## The tools of a server -/

/-- The elements that `list.extend` takes from a value. -/
def extended : PyValue → Except PyError (List PyValue)
  | .list xs => .ok xs
  | .dict items => .ok (items.map fun item => .str item.1)
  | .str s => .ok (s.toList.map fun ch => .str (String.singleton ch))
  | _ => .error (.typeError "object is not iterable")

/-- What `list_tools` has between two pages: how many calls it made, the tools, the cursor and the client. -/
structure ToolListing where
  calls : ℕ := 0
  tools : List PyValue := []
  cursor : PyValue := .none
  state : ClientState := {}

/-- `{"cursor": cursor} if cursor else {}`. -/
def pageParams (cursor : PyValue) : PyDict := if cursor.truthy = true then [("cursor", cursor)] else []

/-- What `list_tools` makes of the result of a call: it goes on with the next page, or ends. -/
def takePage (l : ToolListing) (out : Except McpFailure PyValue × ClientState) :
    ToolListing ⊕ Except McpFailure (List PyValue) :=
  match out.1 with
  | .error e => .inr (.error e)
  | .ok (.dict result) => match extended (getOr result "tools" (.list [])) with
    | .error e => .inr (.error (.other e))
    | .ok tools =>
      let cursor := PyDict.get result "nextCursor"
      if cursor.truthy = true then
        .inl { calls := l.calls + 1, tools := l.tools ++ tools, cursor, state := out.2 }
      else .inr (.ok (l.tools ++ tools))
  | .ok _ => .inr (.error (.other (.attributeError "object has no attribute 'get'")))

/-- One turn of the loop of `list_tools`, on a server by what meets the calls. -/
def listTurn (runs : ℕ → CallRun) (fuel : ℕ) (l : ToolListing) :
    Option (ToolListing ⊕ Except McpFailure (List PyValue)) :=
  (call text c (runs l.calls) "tools/list" (pageParams l.cursor) l.state fuel).map (takePage l)

/-- `list_tools()` of a new client. -/
def listTools (runs : ℕ → CallRun) (fuel : ℕ) : Option (Except McpFailure (List PyValue)) :=
  loop (listTurn text c runs) fuel {}

end McpStdioClient

/-! ## What a server may print -/

/-- The id of a reply to the request: its number, which JSON may write with a fraction. -/
def OwnId (rid : ℕ) (id : PyValue) : Prop := id = .int rid ∨ id = .float (.finite rid)

/-- The message is no request, and Python takes its id for that of the request. -/
def ForRequest (rid : ℕ) (message : PyDict) : Prop :=
  (PyValue.int rid).pyEq (PyDict.get message "id") = true ∧ message.lookup "method" = none

/-- A request passes over it: it is no JSON, or an object that is not for the request. -/
inductive Output.Ignored (rid : ℕ) : Output → Prop where
  | silence : Ignored rid .silence
  | noise : Ignored rid .noise
  | foreign {message : PyDict} (h : ¬ForRequest rid message) : Ignored rid (.json (.dict message))

/-- It settles a request properly: with the result of a reply for it, or with an `McpError`. -/
inductive Output.Settles (rid : ℕ) : Output → Except PyValue PyValue → Prop where
  | reply {message : PyDict} (h : ForRequest rid message) (herror : message.lookup "error" = none) :
    Settles rid (.json (.dict message)) (.ok (getOr message "result" (.dict [])))
  | error {message error : PyDict} (h : ForRequest rid message)
    (herror : message.lookup "error" = some (.dict error)) :
    Settles rid (.json (.dict message)) (.error (getOr error "message" (.str "MCP error")))
  | null : Settles rid (.json .none) (.error (.str "MCP server exited unexpectedly"))
  | broken : Settles rid .broken (.error (.str "MCP server exited unexpectedly"))
  | ended : Settles rid .ended (.error (.str "MCP server exited unexpectedly"))

/-- The reply with the id of the request, and its result. -/
inductive Output.OwnReply (rid : ℕ) : Output → PyValue → Prop where
  | intro {message : PyDict} (hid : OwnId rid (PyDict.get message "id"))
    (hmethod : message.lookup "method" = none) (herror : message.lookup "error" = none) :
    OwnReply rid (.json (.dict message)) (getOr message "result" (.dict []))

namespace McpStdioClient

variable (text : McpText) (c : McpStdioClient)

/-- The output at the place is there before the client gives up. -/
def InTime (x : Exchange) (n : ℕ) : Prop := x.arrives n ≤ x.limit c.timeout n

/-- The client passes over the output at the place, and waits on. -/
def Passes (rid : ℕ) (x : Exchange) (n : ℕ) : Prop := c.InTime x n ∧ (x.outputs n).Ignored rid

/-- What a request comes to properly, at an output that it does not pass over. -/
inductive Ends (method : String) (rid : ℕ) (x : Exchange) (n : ℕ) : Except PyValue PyValue → Prop where
  | timedOut (h : ¬c.InTime x n) :
    Ends method rid x n (.error (.str ("MCP " ++ method ++ " timed out after " ++ c.timeoutText ++ "s")))
  | settled {r : Except PyValue PyValue} (h : c.InTime x n) (hsettles : (x.outputs n).Settles rid r) :
    Ends method rid x n r

/-- The request ends at the first output that it does not pass over, or cannot be written. -/
def Exchanges (method : String) (rid : ℕ) (x : Exchange) (r : Except PyValue PyValue) : Prop :=
  (∃ e, x.sendError = some e ∧ r = .error (.str ("MCP server connection lost: " ++ e))) ∨
    (x.sendError = none ∧ ∃ n, (∀ m < n, c.Passes rid x m) ∧ c.Ends method rid x n r)

/-- What a call comes to before its own request. -/
inductive Begins (x : CallRun) (s : ClientState) : Except PyValue ClientState → Prop where
  | running (h : s.started = true ∧ x.running = true) : Begins x s (.ok s)
  | failed {e : String} (h : ¬(s.started = true ∧ x.running = true)) (hstart : x.startError = some e) :
    Begins x s (.error (.str ("failed to start MCP server " ++ c.command ++ ": " ++ e)))
  | refused {m : PyValue} (h : ¬(s.started = true ∧ x.running = true)) (hstart : x.startError = none)
    (hinit : c.Exchanges "initialize" 1 x.handshake (.error m)) : Begins x s (.error m)
  | lost {v : PyValue} {e : String} (h : ¬(s.started = true ∧ x.running = true)) (hstart : x.startError = none)
    (hinit : c.Exchanges "initialize" 1 x.handshake (.ok v)) (hnotify : x.notifyError = some e) :
    Begins x s (.error (.str ("MCP server connection lost: " ++ e)))
  | initialised {v : PyValue} (h : ¬(s.started = true ∧ x.running = true)) (hstart : x.startError = none)
    (hinit : c.Exchanges "initialize" 1 x.handshake (.ok v)) (hnotify : x.notifyError = none) :
    Begins x s (.ok { started := true, nextId := 1 })

/-- What a call comes to: a message of an `McpError`, or a result with the state after it. -/
inductive Gives (x : CallRun) (method : String) (params : PyDict) (s : ClientState) :
    Except PyValue (PyValue × ClientState) → Prop where
  | notBegun {m : PyValue} (h : c.Begins x s (.error m)) : Gives x method params s (.error m)
  | refused {s' : ClientState} {m : PyValue} (h : c.Begins x s (.ok s'))
    (hencodes : text.encodes (.dict params) = true)
    (hrequest : c.Exchanges method (s'.nextId + 1) x.request (.error m)) : Gives x method params s (.error m)
  | result {s' : ClientState} {v : PyValue} (h : c.Begins x s (.ok s'))
    (hencodes : text.encodes (.dict params) = true)
    (hrequest : c.Exchanges method (s'.nextId + 1) x.request (.ok v)) :
    Gives x method params s (.ok (v, { s' with nextId := s'.nextId + 1 }))

/-- The page is an object whose tools can be iterated, and it has a cursor for the next one. -/
inductive Continues (runs : ℕ → CallRun) (l : ToolListing) : ToolListing → Prop where
  | intro {result : PyDict} {tools : List PyValue} {s : ClientState}
    (h : Gives text c (runs l.calls) "tools/list" (pageParams l.cursor) l.state (.ok (.dict result, s)))
    (htools : extended (getOr result "tools" (.list [])) = .ok tools)
    (hcursor : (PyDict.get result "nextCursor").truthy = true) :
    Continues runs l
      { calls := l.calls + 1, tools := l.tools ++ tools, cursor := PyDict.get result "nextCursor", state := s }

/-- What the pages of a server come to: they go on until one has no cursor, or until a call fails. -/
inductive Pages (runs : ℕ → CallRun) : ToolListing → Except PyValue (List PyValue) → Prop where
  | refused {l : ToolListing} {m : PyValue}
    (h : Gives text c (runs l.calls) "tools/list" (pageParams l.cursor) l.state (.error m)) :
    Pages runs l (.error m)
  | last {l : ToolListing} {result : PyDict} {tools : List PyValue} {s : ClientState}
    (h : Gives text c (runs l.calls) "tools/list" (pageParams l.cursor) l.state (.ok (.dict result, s)))
    (htools : extended (getOr result "tools" (.list [])) = .ok tools)
    (hcursor : (PyDict.get result "nextCursor").truthy = false) : Pages runs l (.ok (l.tools ++ tools))
  | more {l l' : ToolListing} {r : Except PyValue (List PyValue)} (h : Continues text c runs l l')
    (rest : Pages runs l' r) : Pages runs l r

/-! ## What is asked of the client -/

/-- The loop of the request ends with the output at the place. -/
def Takes (method : String) (rid : ℕ) (x : Exchange) (n : ℕ) : Prop :=
  (∀ m < n, c.judgeAt method rid x m = none) ∧ c.judgeAt method rid x n ≠ none

/-- The request ends, with an `McpError` or with the result of the reply that has its own id. -/
def RequestTolerates (x : Exchange) (method : String) (params : PyDict) (s : ClientState) : Prop :=
  ∃ out, Yields (request text c x method params s) out ∧
    ((∃ m, out.1 = .error (.mcpError m)) ∨
      ∃ n v, c.Takes method (s.nextId + 1) x n ∧ (x.outputs n).OwnReply (s.nextId + 1) v ∧ out.1 = .ok v)

/-- `list_tools` makes a bounded number of calls. -/
def ListsInFinitelyMany (runs : ℕ → CallRun) : Prop :=
  ∃ bound, ∀ n l, Turns (listTurn text c runs) n {} l → n ≤ bound

/-- `list_tools` ends, with the tools or with an `McpError`. -/
def ListTolerates (runs : ℕ → CallRun) : Prop :=
  ∃ r, Yields (listTools text c runs) r ∧ ((∃ tools, r = .ok tools) ∨ ∃ m, r = .error (.mcpError m))

end McpStdioClient

end Galaxz
