import Galaxz.Contracts.Jobs

/-!
# `core/contracts/contracts.py`: goals and their plans

The models a goal and its planned tasks are made of, and `uuid.UUID` on a text.
-/

namespace Galaxz

inductive GoalStatus where
  | planning
  | ready
  | running
  | paused
  | complete
  | failed
  | cancelled
deriving DecidableEq

/-- The text of the `Literal`. -/
def GoalStatus.value : GoalStatus → String
  | .planning => "planning"
  | .ready => "ready"
  | .running => "running"
  | .paused => "paused"
  | .complete => "complete"
  | .failed => "failed"
  | .cancelled => "cancelled"

inductive PlannedTaskStatus where
  | pending
  | running
  | complete
  | failed
  | escalated
  | blocked
  | cancelled
deriving DecidableEq

/-- The text of the `Literal`. -/
def PlannedTaskStatus.value : PlannedTaskStatus → String
  | .pending => "pending"
  | .running => "running"
  | .complete => "complete"
  | .failed => "failed"
  | .escalated => "escalated"
  | .blocked => "blocked"
  | .cancelled => "cancelled"

/-- `Field(ge=0.0, le=1.0)`, which a `nan` passes. -/
def inUnit (x : PyFloat) : Bool := !x.lt (.finite 0) && !PyFloat.lt (.finite 1) x

/-- `GoalContract`. -/
structure GoalContract where
  goalId : Uuid
  origin : String
  objective : String
  workspaceRoot : Option String := none
  confidenceThreshold : PyFloat
  status : GoalStatus := .planning
  planConfidence : Option PyFloat := none
  createdAt : Datetime
deriving DecidableEq

/-- The constructor of `GoalContract`: the validators in the order of the fields. -/
def GoalContract.validate (g : GoalContract) : Except PyError GoalContract :=
  if strip g.origin = "" then .error (.valueError "origin: must not be empty")
  else if strip g.objective = "" then .error (.valueError "objective: must not be empty")
  else if inUnit g.confidenceThreshold = false then
    .error (.valueError "confidence_threshold: Input should be between 0 and 1")
  else if g.planConfidence.any fun x => !inUnit x then
    .error (.valueError "plan_confidence: Input should be between 0 and 1")
  else .ok { g with origin := strip g.origin, objective := strip g.objective }

theorem GoalContract.validate_status {g h : GoalContract} (hg : g.validate = .ok h) :
    h.status = g.status := by
  unfold GoalContract.validate at hg
  split_ifs at hg
  cases hg
  rfl

theorem GoalContract.validate_threshold {g h : GoalContract} (hg : g.validate = .ok h) :
    h.confidenceThreshold = g.confidenceThreshold := by
  unfold GoalContract.validate at hg
  split_ifs at hg
  cases hg
  rfl

/-- `ProjectNode`. -/
structure ProjectNode where
  projectId : Uuid
  goalId : Uuid
  title : String
  description : String := ""
deriving DecidableEq

/-- `PlannedTask`. -/
structure PlannedTask where
  taskId : Uuid
  projectId : Uuid
  goalId : Uuid
  skill : String
  payload : PyDict
  dependsOn : List Uuid := []
  status : PlannedTaskStatus := .pending
  confidence : Option PyFloat := none
  result : Option PyDict := none
  error : Option String := none
deriving DecidableEq

/-! ## `UUID(text)` -/

/-- `s.replace(old, "")` on the characters, from the left. -/
def removeAll (old : List Char) : ℕ → List Char → List Char
  | 0, cs => cs
  | _ + 1, [] => []
  | fuel + 1, c :: cs =>
    if old.isPrefixOf (c :: cs) then removeAll old fuel ((c :: cs).drop old.length)
    else c :: removeAll old fuel cs

/-- The code points of the digit zero of every script that `int` reads. -/
def decimalZeros : List ℕ :=
  [0x30, 0x660, 0x6f0, 0x7c0, 0x966, 0x9e6, 0xa66, 0xae6, 0xb66, 0xbe6, 0xc66, 0xce6, 0xd66, 0xde6,
    0xe50, 0xed0, 0xf20, 0x1040, 0x1090, 0x17e0, 0x1810, 0x1946, 0x19d0, 0x1a80, 0x1a90, 0x1b50,
    0x1bb0, 0x1c40, 0x1c50, 0xa620, 0xa8d0, 0xa900, 0xa9d0, 0xa9f0, 0xaa50, 0xabf0, 0xff10, 0x104a0,
    0x10d30, 0x11066, 0x110f0, 0x11136, 0x111d0, 0x112f0, 0x11450, 0x114d0, 0x11650, 0x116c0, 0x11730,
    0x118e0, 0x11950, 0x11c50, 0x11d50, 0x11da0, 0x11f50, 0x16a60, 0x16ac0, 0x16b50, 0x1d7ce, 0x1d7d8,
    0x1d7e2, 0x1d7ec, 0x1d7f6, 0x1e140, 0x1e2f0, 0x1e4f0, 0x1e950, 0x1fbf0]

/-- The value of a hexadecimal digit. -/
def hexValue (c : Char) : Option ℕ :=
  let n := c.toNat
  if 97 ≤ n ∧ n ≤ 102 then some (n - 87)
  else if 65 ≤ n ∧ n ≤ 70 then some (n - 55)
  else (decimalZeros.find? fun z => z ≤ n ∧ n < z + 10).map fun z => n - z

/-- Hexadecimal digits with single underscores between them. -/
def hexNumber : ℕ → List Char → Option ℕ
  | _, [] => none
  | acc, [c] => (hexValue c).map fun d => acc * 16 + d
  | acc, c :: '_' :: cs => (hexValue c).bind fun d => hexNumber (acc * 16 + d) cs
  | acc, c :: cs => (hexValue c).bind fun d => hexNumber (acc * 16 + d) cs

/-- The digits after an optional `0x`. -/
def dropHexMark : List Char → List Char
  | '0' :: x :: '_' :: cs => if x = 'x' ∨ x = 'X' then cs else '0' :: x :: '_' :: cs
  | '0' :: x :: cs => if x = 'x' ∨ x = 'X' then cs else '0' :: x :: cs
  | cs => cs

/-- `int(hex, 16)` of a text without `-`. -/
def hexInt (cs : List Char) : Option ℕ :=
  match stripChars cs with
  | '+' :: cs => hexNumber 0 (dropHexMark cs)
  | cs => hexNumber 0 (dropHexMark cs)

/-- The characters of a text that `UUID` reads as digits. -/
def uuidDigits (s : String) : List Char :=
  let cs := removeAll "uuid:".toList s.length (removeAll "urn:".toList s.length s.toList)
  let brace := fun c : Char => c = '{' || c = '}'
  ((cs.dropWhile brace).rdropWhile brace).filter (· ≠ '-')

/-- `UUID(s)`. -/
def Uuid.parse (s : String) : Except PyError Uuid :=
  if (uuidDigits s).length ≠ 32 then .error (.valueError "badly formed hexadecimal UUID string")
  else match hexInt (uuidDigits s) with
    | none => .error (.valueError "invalid literal for int() with base 16")
    | some n => .ok (BitVec.ofNat 128 n)

end Galaxz
