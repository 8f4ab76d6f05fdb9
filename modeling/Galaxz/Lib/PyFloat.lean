import Galaxz.Lib.PyError

/-!
# Python floats

A finite double is a dyadic rational, so the finite values are taken from `ℚ`, which contains all of
them. The operations below are exact on doubles: comparison, `min`, and the product with a power of
two, which only changes the exponent and overflows to infinity from `2 ^ 1024` on.
-/

namespace Galaxz

/-- A Python `float`. -/
inductive PyFloat where
  | finite (q : ℚ)
  | posInf
  | negInf
  | nan
deriving DecidableEq

namespace PyFloat

/-- `x < y`; comparisons with `nan` are false. -/
def lt : PyFloat → PyFloat → Bool
  | nan, _ => false
  | _, nan => false
  | finite a, finite b => decide (a < b)
  | finite _, posInf => true
  | finite _, negInf => false
  | posInf, _ => false
  | negInf, negInf => false
  | negInf, _ => true

/-- `x <= y`; comparisons with `nan` are false. -/
def le : PyFloat → PyFloat → Bool
  | nan, _ => false
  | _, nan => false
  | finite a, finite b => decide (a ≤ b)
  | finite _, posInf => true
  | finite _, negInf => false
  | posInf, posInf => true
  | posInf, _ => false
  | negInf, _ => true

/-- `min(x, y)`: the first argument unless the second is smaller. -/
def pyMin (x y : PyFloat) : PyFloat := if y.lt x then y else x

/-- Every `int` from this bound on is too large for a double. -/
def overflowBound : ℚ := 2 ^ 1024

/-- A product that stays in range is exact, and is infinite otherwise. -/
def ofProduct (q : ℚ) : PyFloat :=
  if overflowBound ≤ q then posInf else if q ≤ -overflowBound then negInf else finite q

/-- `x * (2 ** k)` for a float `x`: the integer is converted to a double first, which raises from
`2 ** 1024` on whatever `x` is. -/
def mulTwoPow (x : PyFloat) (k : ℕ) : Except PyError PyFloat :=
  if 1024 ≤ k then .error (.overflowError "int too large to convert to float")
  else .ok (match x with
    | finite q => ofProduct (q * 2 ^ k)
    | posInf => posInf
    | negInf => negInf
    | nan => nan)

/-- The nearest integer, a tie going to the even one. -/
def roundHalfEven (q : ℚ) : ℤ :=
  let f := ⌊q⌋
  if q - f < 1 / 2 then f else if 1 / 2 < q - f then f + 1 else if f % 2 = 0 then f else f + 1

theorem roundHalfEven_eq_or (q : ℚ) : roundHalfEven q = ⌊q⌋ ∨ roundHalfEven q = ⌊q⌋ + 1 := by
  unfold roundHalfEven
  simp only
  split_ifs <;> simp

/-- Rounding keeps the order. -/
theorem roundHalfEven_mono {p q : ℚ} (h : p ≤ q) : roundHalfEven p ≤ roundHalfEven q := by
  have hf : ⌊p⌋ ≤ ⌊q⌋ := Int.floor_le_floor h
  rcases hf.lt_or_eq with hlt | heq
  · -- the floors differ, and each value is rounded to its floor or the integer after it
    have hp := roundHalfEven_eq_or p
    have hq := roundHalfEven_eq_or q
    omega
  · have hsub : p - ⌊p⌋ ≤ q - ⌊q⌋ := by rw [heq]; linarith
    unfold roundHalfEven
    simp only
    rw [← heq] at hsub ⊢
    split_ifs <;> first | omega | (exfalso; linarith)

theorem roundHalfEven_intCast (n : ℤ) : roundHalfEven (n : ℚ) = n := by
  simp [roundHalfEven]

theorem roundHalfEven_nonneg {q : ℚ} (h : 0 ≤ q) : 0 ≤ roundHalfEven q := by
  have h0 : roundHalfEven 0 = 0 := by simp [roundHalfEven]
  rw [← h0]
  exact roundHalfEven_mono h

end PyFloat

end Galaxz
