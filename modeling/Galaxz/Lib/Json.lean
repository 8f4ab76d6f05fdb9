import Galaxz.Lib.PyValue
import Mathlib.Data.Int.Log

/-!
# The size of a JSON text

`len(json.dumps(value, separators=(",", ":")))`. The text is ASCII, so this is also the number of its
bytes. The sign of a zero is not kept by `PyFloat`, so `-0.0` counts as `0.0`.
-/

namespace Galaxz

namespace PyFloat

/-- The double nearest to a rational in range, a tie going to the even one. -/
def toDouble (q : ℚ) : ℚ :=
  let e := max (Int.log 2 |q| - 52) (-1074)
  roundHalfEven (q / 2 ^ e) * 2 ^ e

/-- The decimals of `n` significant digits around a positive double, the nearest first. -/
def decimals (q : ℚ) (n : ℕ) : List ℚ :=
  let e := Int.log 10 q - (n - 1)
  let m := q / 10 ^ e
  [roundHalfEven m * 10 ^ e, ⌊m⌋ * 10 ^ e, ⌈m⌉ * 10 ^ e]

/-- The shortest decimal that reads back as the positive double: its digits and its value. -/
def shortest (q : ℚ) : ℕ × ℚ :=
  (((List.range' 1 17).flatMap fun n => (decimals q n).map fun d => (n, d)).find? fun c =>
    toDouble c.2 = q).getD (17, q)

/-- The length of `n` digits that stand before the decimal point from place `point` on: plain from
`1e-4` to `1e16`, with an exponent otherwise. -/
def digitsLength (n : ℕ) (point : ℤ) : ℕ :=
  if -4 < point ∧ point ≤ 16 then
    if point ≤ 0 then 2 + point.natAbs + n
    else if point < n then n + 1
    else point.toNat + 2
  else
    let exponent := (point - 1).natAbs
    n + (if n = 1 then 0 else 1) + 2 + (if exponent < 100 then 2 else 3)

/-- `len(json.dumps(x))`. -/
def reprLength : PyFloat → ℕ
  | nan => 3
  | posInf => 8
  | negInf => 9
  | finite q =>
    if q = 0 then 3
    else
      let d := shortest |q|
      (if q < 0 then 1 else 0) + digitsLength d.1 (Int.log 10 d.2 + 1)

end PyFloat

/-- The length of a character inside a JSON string, with `ensure_ascii`. -/
def jsonCharSize (c : Char) : ℕ :=
  let n := c.toNat
  if n = 34 ∨ n = 92 then 2
  else if 32 ≤ n ∧ n ≤ 126 then 1
  else if n = 8 ∨ n = 9 ∨ n = 10 ∨ n = 12 ∨ n = 13 then 2
  else if n < 0x10000 then 6
  else 12

/-- `len(json.dumps(s))`. -/
def jsonStrSize (s : String) : ℕ := 2 + (s.toList.map jsonCharSize).sum

namespace PyValue

mutual

/-- `len(json.dumps(value, separators=(",", ":")))`, for a value that can be serialised. -/
def jsonSize : PyValue → ℕ
  | .none => 4
  | .bool b => if b then 4 else 5
  | .int n => (toString n).length
  | .float x => x.reprLength
  | .str s => jsonStrSize s
  | .list xs => 2 + jsonSizeList xs
  | .dict items => 2 + jsonSizeItems items
  | .other => 0

/-- The elements of a list, with a comma between any two. -/
def jsonSizeList : List PyValue → ℕ
  | [] => 0
  | x :: xs => jsonSize x + (if xs.isEmpty then 0 else 1) + jsonSizeList xs

/-- The items of a `dict`, with a comma between any two. -/
def jsonSizeItems : List (String × PyValue) → ℕ
  | [] => 0
  | (k, x) :: xs => jsonStrSize k + 1 + jsonSize x + (if xs.isEmpty then 0 else 1) + jsonSizeItems xs

end

end PyValue

end Galaxz
