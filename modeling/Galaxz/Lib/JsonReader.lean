import Galaxz.Lib.NumberText
import Galaxz.Lib.PyError

/-!
# Reading JSON

`json.loads` on a text: the scanner of the standard library, with its strict strings, its numbers and the
words `NaN` and `Infinity`. What it accepts is said by a grammar, so that a text can be changed piece by piece.
A recursion limit is left out.
-/

namespace Galaxz

/-- A Python string by its code points: an escape may leave a surrogate that stands alone. -/
abbrev CodeString := List ℕ

/-- The string of some characters. -/
def CodeString.ofChars (cs : List Char) : CodeString := cs.map Char.toNat

/-- A high surrogate. -/
def IsHigh (n : ℕ) : Prop := 0xd800 ≤ n ∧ n < 0xdc00

/-- A low surrogate. -/
def IsLow (n : ℕ) : Prop := 0xdc00 ≤ n ∧ n < 0xe000

instance (n : ℕ) : Decidable (IsHigh n) := by unfold IsHigh; infer_instance
instance (n : ℕ) : Decidable (IsLow n) := by unfold IsLow; infer_instance

/-- No surrogate is in the string, so that it can be encoded. -/
def CodeString.IsUnicode (s : CodeString) : Prop := ∀ n ∈ s, ¬ IsHigh n ∧ ¬ IsLow n

instance (s : CodeString) : Decidable s.IsUnicode := by unfold CodeString.IsUnicode; infer_instance

/-- What `json.loads` returns. The keys of an object are different, in the order of their first use. -/
inductive JsonValue where
  | null
  | bool (b : Bool)
  | int (n : ℤ)
  | float (x : PyFloat)
  | str (s : CodeString)
  | arr (xs : List JsonValue)
  | obj (items : List (CodeString × JsonValue))

namespace JsonValue

mutual

/-- Equality of values is decidable. -/
def decEq : (a b : JsonValue) → Decidable (a = b)
  | .null, b => by cases b <;> first | exact isTrue rfl | exact isFalse (by intro h; cases h)
  | .bool x, b => match b with
    | .bool y => if h : x = y then isTrue (by rw [h]) else isFalse (by intro e; cases e; exact h rfl)
    | .null | .int _ | .float _ | .str _ | .arr _ | .obj _ => isFalse (by intro h; cases h)
  | .int x, b => match b with
    | .int y => if h : x = y then isTrue (by rw [h]) else isFalse (by intro e; cases e; exact h rfl)
    | .null | .bool _ | .float _ | .str _ | .arr _ | .obj _ => isFalse (by intro h; cases h)
  | .float x, b => match b with
    | .float y => if h : x = y then isTrue (by rw [h]) else isFalse (by intro e; cases e; exact h rfl)
    | .null | .bool _ | .int _ | .str _ | .arr _ | .obj _ => isFalse (by intro h; cases h)
  | .str x, b => match b with
    | .str y => if h : x = y then isTrue (by rw [h]) else isFalse (by intro e; cases e; exact h rfl)
    | .null | .bool _ | .int _ | .float _ | .arr _ | .obj _ => isFalse (by intro h; cases h)
  | .arr xs, b => match b with
    | .arr ys => match decEqList xs ys with
      | isTrue h => isTrue (by rw [h])
      | isFalse h => isFalse (by intro e; cases e; exact h rfl)
    | .null | .bool _ | .int _ | .float _ | .str _ | .obj _ => isFalse (by intro h; cases h)
  | .obj xs, b => match b with
    | .obj ys => match decEqItems xs ys with
      | isTrue h => isTrue (by rw [h])
      | isFalse h => isFalse (by intro e; cases e; exact h rfl)
    | .null | .bool _ | .int _ | .float _ | .str _ | .arr _ => isFalse (by intro h; cases h)

/-- Equality of lists of values is decidable. -/
def decEqList : (xs ys : List JsonValue) → Decidable (xs = ys)
  | [], [] => isTrue rfl
  | [], _ :: _ => isFalse (by intro h; cases h)
  | _ :: _, [] => isFalse (by intro h; cases h)
  | x :: xs, y :: ys => match decEq x y, decEqList xs ys with
    | isTrue h, isTrue t => isTrue (by rw [h, t])
    | isFalse h, _ => isFalse (by intro e; cases e; exact h rfl)
    | _, isFalse t => isFalse (by intro e; cases e; exact t rfl)

/-- Equality of lists of items is decidable. -/
def decEqItems : (xs ys : List (CodeString × JsonValue)) → Decidable (xs = ys)
  | [], [] => isTrue rfl
  | [], _ :: _ => isFalse (by intro h; cases h)
  | _ :: _, [] => isFalse (by intro h; cases h)
  | (k, x) :: xs, (l, y) :: ys =>
    if hk : k = l then
      match decEq x y, decEqItems xs ys with
      | isTrue h, isTrue t => isTrue (by rw [hk, h, t])
      | isFalse h, _ => isFalse (by intro e; cases e; exact h rfl)
      | _, isFalse t => isFalse (by intro e; cases e; exact t rfl)
    else isFalse (by intro e; cases e; exact hk rfl)

end

instance : DecidableEq JsonValue := decEq

/-- `items[key] = value`. -/
def setItem (key : CodeString) (value : JsonValue) :
    List (CodeString × JsonValue) → List (CodeString × JsonValue)
  | [] => [(key, value)]
  | (k, x) :: items => if k = key then (k, value) :: items else (k, x) :: setItem key value items

/-- `dict(pairs)`: a repeated key has its last value. -/
def ofPairs (pairs : List (CodeString × JsonValue)) : JsonValue :=
  .obj (pairs.foldl (fun items p => setItem p.1 p.2 items) [])

end JsonValue

namespace JsonReader

/-! ## Strings -/

/-- The white space of JSON. -/
def isWs (c : Char) : Bool := c = ' ' || c = '\t' || c = '\n' || c = '\r'

/-- Only white space. -/
def Blank (cs : List Char) : Prop := ∀ c ∈ cs, isWs c = true

def skipWs (cs : List Char) : List Char := cs.dropWhile isWs

/-- The number of a hexadecimal digit. -/
def hexValue (c : Char) : Option ℕ :=
  let n := c.toNat
  if 48 ≤ n ∧ n ≤ 57 then some (n - 48)
  else if 65 ≤ n ∧ n ≤ 70 then some (n - 55)
  else if 97 ≤ n ∧ n ≤ 102 then some (n - 87)
  else none

/-- What the escape of one character stands for. -/
def escapeValue (e : Char) : Option ℕ :=
  [('"', 34), ('\\', 92), ('/', 47), ('b', 8), ('f', 12), ('n', 10), ('r', 13), ('t', 9)].lookup e

/-- Where the scanner of a string is: between characters, after a backslash, or after some digits of a code
unit. -/
inductive StringMode where
  | plain
  | escape
  | hex (digits acc : ℕ)
deriving DecidableEq

/-- What a character does to the scanner of a string: it closes the string, or it may complete a code unit. -/
inductive StringStep where
  | close
  | go (unit : Option ℕ) (m : StringMode)

def stringStep : StringMode → Char → Except PyError StringStep
  | .plain, c =>
    if c = '"' then .ok .close
    else if c = '\\' then .ok (.go none .escape)
    else if c.toNat < 32 then .error (.jsonDecodeError "Invalid control character at")
    else .ok (.go (some c.toNat) .plain)
  | .escape, c =>
    if c = 'u' then .ok (.go none (.hex 0 0))
    else match escapeValue c with
      | some n => .ok (.go (some n) .plain)
      | none => .error (.jsonDecodeError "Invalid \\escape")
  | .hex digits acc, c =>
    match hexValue c with
    | some d =>
      if digits = 3 then .ok (.go (some (acc * 16 + d)) .plain)
      else .ok (.go none (.hex (digits + 1) (acc * 16 + d)))
    | none => .error (.jsonDecodeError "Invalid \\uXXXX escape")

/-- The units of a string, and what follows its closing quote. -/
def stringBody : StringMode → List Char → Except PyError (List ℕ × List Char)
  | _, [] => .error (.jsonDecodeError "Unterminated string starting at")
  | m, c :: r =>
    match stringStep m c with
    | .error e => .error e
    | .ok .close => .ok ([], r)
    | .ok (.go unit m') => (stringBody m' r).map fun p => (unit.toList ++ p.1, p.2)

/-- The two halves of a surrogate pair become one code point. No character is a surrogate, so both come
from escapes. -/
def joinSurrogates : List ℕ → CodeString
  | high :: low :: ns =>
    if IsHigh high ∧ IsLow low then (0x10000 + (high - 0xd800) * 1024 + (low - 0xdc00)) :: joinSurrogates ns
    else high :: joinSurrogates (low :: ns)
  | ns => ns

/-! ## Numbers -/

/-- The digits before the point: a zero stands alone. -/
def wholePart : List Char → Option (List Char × List Char)
  | [] => none
  | c :: r =>
    if c = '0' then some ([c], r)
    else if IsDigit c then some ((c :: r).takeWhile fun d => IsDigit d, (c :: r).dropWhile fun d => IsDigit d)
    else none

/-- The digits after a point, if there are any. -/
def fractionPart : List Char → List Char × List Char
  | [] => ([], [])
  | c :: r =>
    let ds := r.takeWhile fun d => IsDigit d
    if c = '.' ∧ ds ≠ [] then (ds, r.dropWhile fun d => IsDigit d) else ([], c :: r)

/-- The sign of an exponent, and what follows it. -/
def exponentSign : List Char → List Char × List Char
  | [] => ([], [])
  | c :: r => if c = '+' ∨ c = '-' then ([c], r) else ([], c :: r)

/-- The exponent with its sign, if there is one. -/
def exponentPart : List Char → Option (List Char) × List Char
  | [] => (none, [])
  | c :: r =>
    let signed := exponentSign r
    let ds := signed.2.takeWhile fun d => IsDigit d
    if (c = 'e' ∨ c = 'E') ∧ ds ≠ [] then
      (some (signed.1 ++ ds), signed.2.dropWhile fun d => IsDigit d)
    else (none, c :: r)

/-- The number that an exponent denotes. -/
def exponentOf : List Char → ℤ
  | '-' :: ds => -natOf ds
  | '+' :: ds => natOf ds
  | ds => natOf ds

/-- `float(..)` of a decimal: the nearest double, or infinity. -/
def decimalFloat (negative : Bool) (digits : ℕ) (exponent : ℤ) : PyFloat :=
  let d := PyFloat.toDouble (digits * 10 ^ exponent)
  if PyFloat.overflowBound ≤ d then (if negative then .negInf else .posInf)
  else .finite (if negative then -d else d)

/-- The most digits that `int(..)` takes. -/
def maxDigits : ℕ := 4300

/-- The value of a number from its parts. -/
def numberValue (negative : Bool) (whole fraction : List Char) (exponent : Option (List Char)) :
    Except PyError JsonValue :=
  if fraction = [] ∧ exponent = none then
    if maxDigits < whole.length then .error (.valueError "Exceeds the limit for integer string conversion")
    else .ok (.int (if negative then -natOf whole else natOf whole))
  else .ok (.float (decimalFloat negative (natOf (whole ++ fraction))
    (((exponent.map exponentOf).getD 0) - fraction.length)))

/-- A number at the front of a text. -/
def number (cs : List Char) : Except PyError (JsonValue × List Char) :=
  let negative : Bool := cs.head? = some '-'
  match wholePart (if negative then cs.tail else cs) with
  | none => .error (.jsonDecodeError "Expecting value")
  | some (whole, r) =>
    let fraction := fractionPart r
    let exponent := exponentPart fraction.2
    (numberValue negative whole fraction.1 exponent.1).map fun v => (v, exponent.2)

/-- The words that are values. -/
def words : List (List Char × JsonValue) :=
  [("null".toList, .null), ("true".toList, .bool true), ("false".toList, .bool false), ("NaN".toList, .float .nan),
    ("Infinity".toList, .float .posInf), ("-Infinity".toList, .float .negInf)]

/-- A word or a number at the front of a text. -/
def literal (cs : List Char) : Except PyError (JsonValue × List Char) :=
  match words.find? fun w => w.1.isPrefixOf cs with
  | some w => .ok (w.2, cs.drop w.1.length)
  | none => number cs

/-! ## Values -/

/-- A string from after its opening quote. -/
def string (cs : List Char) : Except PyError (CodeString × List Char) :=
  (stringBody .plain cs).map fun p => (joinSurrogates p.1, p.2)

mutual

/-- `scan_once`. A call within a call has less fuel, and less text. -/
def value : ℕ → List Char → Except PyError (JsonValue × List Char)
  | 0, _ => .error (.runtimeError "maximum recursion depth exceeded")
  | n + 1, cs =>
    match cs with
    | '"' :: r => (string r).map fun p => (.str p.1, p.2)
    | '[' :: r =>
      match skipWs r with
      | ']' :: r => .ok (.arr [], r)
      | r => (elements n r).map fun p => (.arr p.1, p.2)
    | '{' :: r =>
      match skipWs r with
      | '}' :: r => .ok (.obj [], r)
      | r => (members n r).map fun p => (.ofPairs p.1, p.2)
    | cs => literal cs

/-- The loop of `_parse_array`, from an element on. -/
def elements : ℕ → List Char → Except PyError (List JsonValue × List Char)
  | 0, _ => .error (.runtimeError "maximum recursion depth exceeded")
  | n + 1, cs => do
    let (v, r) ← value n cs
    match skipWs r with
    | ']' :: r => .ok ([v], r)
    | ',' :: r => (elements n (skipWs r)).map fun p => (v :: p.1, p.2)
    | _ => .error (.jsonDecodeError "Expecting ',' delimiter")

/-- The loop of `_parse_object`, from a key on. -/
def members : ℕ → List Char → Except PyError (List (CodeString × JsonValue) × List Char)
  | 0, _ => .error (.runtimeError "maximum recursion depth exceeded")
  | n + 1, cs =>
    match cs with
    | '"' :: r => do
      let (k, r) ← string r
      match skipWs r with
      | ':' :: r => do
        let (v, r) ← value n (skipWs r)
        match skipWs r with
        | '}' :: r => .ok ([(k, v)], r)
        | ',' :: r => (members n (skipWs r)).map fun p => ((k, v) :: p.1, p.2)
        | _ => .error (.jsonDecodeError "Expecting ',' delimiter")
      | _ => .error (.jsonDecodeError "Expecting ':' delimiter")
    | _ => .error (.jsonDecodeError "Expecting property name enclosed in double quotes")

end

/-- `json.loads(text)`. -/
def loads (cs : List Char) : Except PyError JsonValue := do
  let (v, r) ← value (2 * cs.length + 2) (skipWs cs)
  if skipWs r = [] then .ok v else .error (.jsonDecodeError "Extra data")

end JsonReader

end Galaxz
