import Galaxz.Lib.HashChain
import Galaxz.Lib.JsonText
import Galaxz.Lib.Machine

/-!
# `core/security/audit.py`: `AuditLog`

The hash-chained history. A text that `json.dumps` wrote is represented by the value it denotes, with the
items of every `dict` in the order of the text. The parts of an append (the read of the last hash, the
insert and the commit) are steps of their own, so any interleaving of any number of appends is a list of
actions.
-/

namespace Galaxz

/-! ## Verification -/

/-- What `verify` reads of an item. -/
structure AuditItem where
  event : PyDict
  eventHash : PyValue

namespace AuditLog

variable (sha256 : String → String)

/-- The text of `json.dumps(.., separators=(",", ":"))` for a value with its items in this order. -/
def compactText (v : PyValue) : String := String.ofList (PyValue.textWith [] "" v)

/-- `json.dumps(event, sort_keys=True, separators=(",", ":"))`. -/
def encode (event : PyDict) : Except PyError String :=
  if PyValue.serializableItems event then .ok (compactText (PyValue.dict event).sortKeys)
  else .error (.typeError "Object is not JSON serializable")

/-- The loop of `verify`. -/
def verifyFrom (prior : PyValue) : List AuditItem → Except PyError Bool
  | [] => .ok true
  | item :: items =>
    if PyValue.pyEq (item.event.get "prior_hash") prior then do
      let encoded ← encode item.event
      if PyValue.pyEq (.str (sha256 encoded)) item.eventHash then
        verifyFrom (.str (sha256 encoded)) items
      else .ok false
    else .ok false

/-- `verify`. -/
def verify (items : List AuditItem) : Except PyError Bool := verifyFrom sha256 .none items

end AuditLog

/-- The same JSON object, the items in whatever order. -/
def SameEvent (a b : AuditItem) : Prop :=
  (PyValue.dict a.event).sortKeys = (PyValue.dict b.event).sortKeys

/-! ## What `append` encodes -/

/-- A key of a `dict` that `json.dumps` accepts. -/
inductive JsonKey where
  | str (s : String)
  | int (n : ℤ)
  | float (x : PyFloat)
  | bool (b : Bool)
  | none
deriving DecidableEq

namespace JsonKey

/-- The key in the text. -/
def text : JsonKey → String
  | .str s => s
  | .int n => String.ofList (intText n)
  | .float x => String.ofList x.reprText
  | .bool b => if b then "true" else "false"
  | .none => "null"

/-- The number that a key is, for a comparison. -/
def number : JsonKey → Option PyFloat
  | .int n => some (.finite n)
  | .float x => some x
  | .bool b => some (.finite (if b then 1 else 0))
  | _ => Option.none

/-- `a < b`: texts compare, and numbers do; everything else raises. -/
def lt (a b : JsonKey) : Except PyError Bool :=
  match a, b with
  | .str s, .str t => .ok (s < t)
  | a, b => match a.number, b.number with
    | some x, some y => .ok (x.lt y)
    | _, _ => .error (.typeError "'<' not supported")

end JsonKey

/-- A Python value as `json.dumps` takes it; a tuple is a list. -/
inductive PyArg where
  | none
  | bool (b : Bool)
  | int (n : ℤ)
  | float (x : PyFloat)
  | str (s : String)
  | list (xs : List PyArg)
  | dict (items : List (JsonKey × PyArg))
  | other

namespace PyArg

/-- The place of an item among items that are in order already. -/
def insertByKey (key : JsonKey) (value : PyValue) :
    List (JsonKey × PyValue) → Except PyError (List (JsonKey × PyValue))
  | [] => .ok [(key, value)]
  | x :: xs => do
    if ← JsonKey.lt x.1 key then
      let rest ← insertByKey key value xs
      .ok (x :: rest)
    else .ok ((key, value) :: x :: xs)

mutual

/-- The value that the text of `json.dumps(value, sort_keys=True)` lists. -/
def dumped : PyArg → Except PyError PyValue
  | .none => .ok .none
  | .bool b => .ok (.bool b)
  | .int n => .ok (.int n)
  | .float x => .ok (.float x)
  | .str s => .ok (.str s)
  | .list xs => do
    let values ← dumpedList xs
    .ok (.list values)
  | .dict items => do
    let sorted ← dumpedItems items
    .ok (.dict (sorted.map fun item => (item.1.text, item.2)))
  | .other => .error (.typeError "Object is not JSON serializable")

/-- The same, for the elements of a list. -/
def dumpedList : List PyArg → Except PyError (List PyValue)
  | [] => .ok []
  | x :: xs => do
    let value ← dumped x
    let values ← dumpedList xs
    .ok (value :: values)

/-- The same, for the items of a `dict`, in the order of their keys. -/
def dumpedItems : List (JsonKey × PyArg) → Except PyError (List (JsonKey × PyValue))
  | [] => .ok []
  | (key, x) :: items => do
    let value ← dumped x
    let sorted ← dumpedItems items
    insertByKey key value sorted

end

end PyArg

/-- The arguments of `append`. -/
structure AuditArgs where
  actor : String
  action : String
  reason : String
  evidenceVersion : String
  extra : List (JsonKey × PyArg) := []

/-- A row of `audit_events`, in the order of `sequence`. -/
structure AuditRow where
  event : PyDict
  eventHash : String

namespace AuditLog

/-- The last hash, as `append` puts it into the event. -/
def priorValue (prior : Option String) : PyValue := (prior.map PyValue.str).getD .none

/-- What the text of the event lists. -/
def eventOf (args : AuditArgs) (prior : Option String) : Except PyError PyDict := do
  let extra ← PyArg.dumped (.dict args.extra)
  .ok [("action", .str args.action), ("actor", .str args.actor),
    ("evidence_version", .str args.evidenceVersion), ("extra", extra),
    ("prior_hash", priorValue prior), ("reason", .str args.reason)]

/-- The row that `append` inserts. -/
def newRow (sha256 : String → String) (args : AuditArgs) (prior : Option String) :
    Except PyError AuditRow := do
  let event ← eventOf args prior
  .ok { event, eventHash := sha256 (compactText (.dict event)) }

mutual

/-- `json.loads`: a key that comes again takes the later value. -/
def loads : PyValue → PyValue
  | .list xs => .list (loadsList xs)
  | .dict items => .dict (loadsItems items)
  | v => v

/-- The same, for the elements of a list. -/
def loadsList : List PyValue → List PyValue
  | [] => []
  | x :: xs => loads x :: loadsList xs

/-- The same, for the items of a `dict`. -/
def loadsItems : List (String × PyValue) → List (String × PyValue)
  | [] => []
  | (key, x) :: items =>
    let rest := loadsItems items
    match rest.lookup key with
    | none => (key, loads x) :: rest
    | some y => (key, y) :: rest.filter fun item => item.1 ≠ key

end

/-- What `export` returns, as far as `verify` reads it. -/
def exported (rows : List AuditRow) : List AuditItem :=
  rows.map fun row => { event := loadsItems row.event, eventHash := .str row.eventHash }

end AuditLog

/-! ## Appends that take turns -/

/-- How far an append is. -/
inductive AppendPhase where
  | ready
  | read (prior : Option String)
  | inserted (row : AuditRow)
  | returned (row : AuditRow)
  | raised

structure AuditAppend where
  args : AuditArgs
  phase : AppendPhase := .ready

/-- The committed rows, the append that has inserted and not committed, and all appends. -/
structure AuditState where
  rows : List AuditRow := []
  writer : Option ℕ := none
  appends : List AuditAppend := []

inductive AuditAction where
  /-- `append` is called, on whatever instance. -/
  | start (args : AuditArgs)
  /-- The append makes its next step. -/
  | advance (i : ℕ)
  /-- The append ends without another step: its process stops, or its wait for the lock times out. -/
  | stop (i : ℕ)

namespace AuditState

variable (sha256 : String → String)

/-- The last committed hash. -/
def lastHash (s : AuditState) : Option String := s.rows.getLast?.map (·.eventHash)

/-- The append is now in the phase. -/
def setPhase (i : ℕ) (phase : AppendPhase) (s : AuditState) : AuditState :=
  { s with appends := s.appends.modify i fun a => { a with phase } }

/-- The insert of an append; the row is there for others after the commit. -/
def insert (i : ℕ) (row : AuditRow) (s : AuditState) : AuditState :=
  if s.rows.any (·.eventHash = row.eventHash) then s.setPhase i .raised
  else { s.setPhase i (.inserted row) with writer := some i }

/-- The next step of an append. An insert waits while another append holds the lock. -/
def advance (i : ℕ) (s : AuditState) : AuditState :=
  match s.appends[i]? with
  | none => s
  | some a => match a.phase with
    | .ready => s.setPhase i (.read s.lastHash)
    | .read prior => match AuditLog.newRow sha256 a.args prior with
      | .error _ => s.setPhase i .raised
      | .ok row => if s.writer.isSome then s else s.insert i row
    | .inserted row =>
      { s.setPhase i (.returned row) with rows := s.rows ++ [row], writer := none }
    | .returned _ => s
    | .raised => s

/-- An append that has not returned is given up, with what it has not committed. -/
def stop (i : ℕ) (s : AuditState) : AuditState :=
  match s.appends[i]? with
  | none => s
  | some a => match a.phase with
    | .returned _ => s
    | .raised => s
    | .inserted _ => { s.setPhase i .raised with writer := none }
    | _ => s.setPhase i .raised

def step : AuditAction → AuditState → AuditState
  | .start args, s => { s with appends := s.appends ++ [{ args }] }
  | .advance i, s => s.advance sha256 i
  | .stop i, s => s.stop i

end AuditState

/-! ## Honest logs -/

mutual

/-- The keys of every `dict` in the value are in order, and none comes twice. -/
def PyValue.KeysSorted : PyValue → Prop
  | .list xs => PyValue.KeysSortedList xs
  | .dict items => (items.map (·.1)).Pairwise (· < ·) ∧ PyValue.KeysSortedItems items
  | _ => True

/-- The same, for the elements of a list. -/
def PyValue.KeysSortedList : List PyValue → Prop
  | [] => True
  | x :: xs => PyValue.KeysSorted x ∧ PyValue.KeysSortedList xs

/-- The same, for the values of the items of a `dict`. -/
def PyValue.KeysSortedItems : List (String × PyValue) → Prop
  | [] => True
  | (_, x) :: xs => PyValue.KeysSorted x ∧ PyValue.KeysSortedItems xs

end

/-- In every `dict` of the extra the keys are in the order of their texts, and no two have the same
text. -/
def AuditArgs.Ordered (args : AuditArgs) : Prop :=
  ∀ v, PyArg.dumped (.dict args.extra) = .ok v → v.KeysSorted

namespace AuditState

variable (sha256 : String → String)

/-- The export verifies, and every append that returned is in it. -/
def Honest (s : AuditState) : Prop :=
  AuditLog.verify sha256 (AuditLog.exported s.rows) = .ok true ∧
    ∀ a ∈ s.appends, ∀ row, a.phase = .returned row → row ∈ s.rows

/-- The state after the actions. -/
def run (actions : List AuditAction) : AuditState := Machine.run (step sha256) actions {}

end AuditState

/-- An append commits only while the last hash is the one it has read, and its extra is in order. -/
def AuditAction.Orderly : AuditAction → AuditState → Prop
  | .advance i, s => ∀ a row, s.appends[i]? = some a → a.phase = .inserted row →
      PyDict.get row.event "prior_hash" = AuditLog.priorValue s.lastHash ∧ a.args.Ordered
  | _, _ => True

end Galaxz
