import Galaxz.Lib.PyValue

/-!
# Parameters and columns of SQLite

What a column stores for a value that the code binds as a parameter, and the values that cannot be
bound.
-/

namespace Galaxz

/-- A value of a `REAL` column. SQLite keeps a text that is not a number as it is. -/
inductive RealCell where
  | null
  | real (x : PyFloat)
  | text (s : String)
deriving DecidableEq

/-- The conversions that SQLite and `pydantic` make between texts and numbers. -/
structure Host where
  /-- The number that a `REAL` column stores for a text. -/
  realOfText : String → Option PyFloat
  /-- The text that a `TEXT` column stores for a float. -/
  textOfReal : PyFloat → String
  /-- The value of a `float` field of a model for a text. -/
  floatOfText : String → Option PyFloat

namespace Sqlite

/-- The largest value of an SQLite `INTEGER`. -/
def integerMax : ℤ := 2 ^ 63 - 1

/-- The parameter can be bound as an integer. -/
def bindInt (n : ℤ) : Except PyError ℤ :=
  if -integerMax - 1 ≤ n ∧ n ≤ integerMax then .ok n
  else .error (.overflowError "Python int too large to convert to SQLite INTEGER")

/-- The double nearest to an integer, a tie going to the even one. -/
def realOfInt (n : ℤ) : ℚ :=
  let e := Nat.log2 n.natAbs - 52
  PyFloat.roundHalfEven (n / 2 ^ e) * 2 ^ e

/-- What a `REAL` column stores for a parameter; `nan` is stored as `NULL`. -/
def bindReal (host : Host) : PyValue → Except PyError RealCell
  | .none => .ok .null
  | .bool b => .ok (.real (.finite (if b then 1 else 0)))
  | .int n => do return .real (.finite (realOfInt (← bindInt n)))
  | .float .nan => .ok .null
  | .float x => .ok (.real x)
  | .str s => match host.realOfText s with
    | some x => .ok (.real x)
    | none => .ok (.text s)
  | .list _ => .error (.interfaceError "Error binding parameter: type 'list' is not supported")
  | .dict _ => .error (.interfaceError "Error binding parameter: type 'dict' is not supported")
  | .other => .error (.interfaceError "Error binding parameter: type is not supported")

/-- What a `TEXT` column stores for a parameter. -/
def bindText (host : Host) : PyValue → Except PyError (Option String)
  | .none => .ok none
  | .bool b => .ok (some (if b then "1" else "0"))
  | .int n => do return some (toString (← bindInt n))
  | .float .nan => .ok none
  | .float x => .ok (some (host.textOfReal x))
  | .str s => .ok (some s)
  | .list _ => .error (.interfaceError "Error binding parameter: type 'list' is not supported")
  | .dict _ => .error (.interfaceError "Error binding parameter: type 'dict' is not supported")
  | .other => .error (.interfaceError "Error binding parameter: type is not supported")

/-- `json.dumps(value) if value is not None else None`. -/
def dumpJson : Option PyDict → Except PyError (Option PyDict)
  | none => .ok none
  | some items =>
    if PyValue.serializableItems items then .ok (some items)
    else .error (.typeError "Object is not JSON serializable")

end Sqlite

end Galaxz
