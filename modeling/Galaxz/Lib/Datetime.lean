import Galaxz.Lib.PyFloat

/-!
# UTC datetimes

An aware `datetime` in UTC is an instant, counted in microseconds from `0001-01-01T00:00:00+00:00` and
bounded by the year 9999. `isoformat()` pads every field and writes the fraction only when it is not
zero; since `+` sorts before `.`, the order of the texts that SQL compares is the order of instants.
-/

namespace Galaxz

/-- The first instant after `datetime.max`: 3652059 days from the first day of the year 1. -/
def datetimeBound : ℕ := 3652059 * 86400 * 1000000

/-- The largest `timedelta` has 999999999 whole days; the first value after it, in microseconds. -/
def timedeltaBound : ℤ := 1000000000 * 86400 * 1000000

/-- An aware UTC `datetime`. -/
structure Datetime where
  micros : ℕ
  /-- It is not after `datetime.max`. -/
  micros_lt : micros < datetimeBound
deriving DecidableEq

namespace Datetime

/-- The instant so many microseconds after the first, if it is in range. -/
def ofMicros (n : ℕ) : Datetime := ⟨n % datetimeBound, Nat.mod_lt _ (by decide)⟩

instance : LE Datetime := ⟨fun a b => a.micros ≤ b.micros⟩
instance : LT Datetime := ⟨fun a b => a.micros < b.micros⟩
instance (a b : Datetime) : Decidable (a ≤ b) := inferInstanceAs (Decidable (a.micros ≤ b.micros))
instance (a b : Datetime) : Decidable (a < b) := inferInstanceAs (Decidable (a.micros < b.micros))

theorem le_iff {a b : Datetime} : a ≤ b ↔ a.micros ≤ b.micros := Iff.rfl
theorem lt_iff {a b : Datetime} : a < b ↔ a.micros < b.micros := Iff.rfl

theorem not_le {a b : Datetime} : ¬ a ≤ b ↔ b < a := by
  rw [le_iff, lt_iff, Nat.not_le]

theorem ext_micros {a b : Datetime} (h : a.micros = b.micros) : a = b := by
  cases a; cases b; cases h; rfl

/-- `t + delta` for a `timedelta` given in microseconds. -/
def add (t : Datetime) (delta : ℤ) : Except PyError Datetime :=
  if h : 0 ≤ t.micros + delta ∧ t.micros + delta < datetimeBound then
    .ok ⟨(t.micros + delta).toNat, by omega⟩
  else .error (.overflowError "date value out of range")

/-- Addition returns exactly when the sum is a date, and then it is the sum. -/
theorem add_eq_ok_iff {t u : Datetime} {delta : ℤ} :
    t.add delta = .ok u ↔ (u.micros : ℤ) = t.micros + delta := by
  unfold add
  split_ifs with h
  · rw [Except.ok.injEq]
    constructor
    · rintro rfl
      exact Int.toNat_of_nonneg h.1
    · intro hu
      apply ext_micros
      simp only
      omega
  · have hlt := u.micros_lt
    constructor
    · intro hu
      cases hu
    · intro hu
      omega

end Datetime

/-- `timedelta(seconds=x)` in microseconds: the fraction of a microsecond is rounded half to even. -/
def timedelta : PyFloat → Except PyError ℤ
  | .nan => .error (.valueError "cannot convert float NaN to integer")
  | .posInf => .error (.overflowError "cannot convert float infinity to integer")
  | .negInf => .error (.overflowError "cannot convert float infinity to integer")
  | .finite q =>
    let us := PyFloat.roundHalfEven (q * 1000000)
    if -(timedeltaBound - 86400 * 1000000) ≤ us ∧ us < timedeltaBound then .ok us
    else .error (.overflowError "days; must have magnitude <= 999999999")

/-- `t + timedelta(seconds=x)`. -/
def Datetime.addSeconds (t : Datetime) (x : PyFloat) : Except PyError Datetime := do
  let delta ← timedelta x
  t.add delta

/-- A date plus a number of seconds is the date so many microseconds later, the number rounded. The
range of `timedelta` plays no part, since that of `datetime` is smaller. -/
theorem Datetime.addSeconds_eq_ok_iff {t u : Datetime} {x : PyFloat} :
    t.addSeconds x = .ok u ↔
      ∃ q, x = .finite q ∧ (u.micros : ℤ) = t.micros + PyFloat.roundHalfEven (q * 1000000) := by
  have ht := t.micros_lt
  have hu := u.micros_lt
  cases x with
  | finite q =>
    simp only [PyFloat.finite.injEq, exists_eq_left']
    by_cases hr : -(timedeltaBound - 86400 * 1000000) ≤ PyFloat.roundHalfEven (q * 1000000) ∧
        PyFloat.roundHalfEven (q * 1000000) < timedeltaBound
    · rw [← Datetime.add_eq_ok_iff]
      simp only [addSeconds, timedelta, if_pos hr, bind, Except.bind]
    · constructor
      · intro h
        simp only [addSeconds, timedelta, if_neg hr, bind, Except.bind] at h
        cases h
      · intro h
        exfalso
        apply hr
        simp only [timedeltaBound, datetimeBound] at *
        omega
  | posInf => simp [addSeconds, timedelta, bind, Except.bind]
  | negInf => simp [addSeconds, timedelta, bind, Except.bind]
  | nan => simp [addSeconds, timedelta, bind, Except.bind]

end Galaxz
