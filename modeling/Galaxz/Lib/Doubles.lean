import Galaxz.Lib.Json

/-!
# Doubles among the rationals

The finite doubles are the rationals `m * 2 ^ e` with `|m| ≤ 2 ^ 53` and `-1074 ≤ e`, as long as they are
in range. Rounding gives such a number and leaves it as it is.
-/

namespace Galaxz.PyFloat

/-- A finite double, but for the bound on its size. -/
def IsDouble (q : ℚ) : Prop := ∃ (m e : ℤ), -1074 ≤ e ∧ |m| ≤ 2 ^ 53 ∧ q = m * 2 ^ e

/-- The exponent of the last place that `toDouble` keeps. -/
def lastPlace (q : ℚ) : ℤ := max (Int.log 2 |q| - 52) (-1074)

theorem toDouble_eq (q : ℚ) : toDouble q = roundHalfEven (q / 2 ^ lastPlace q) * 2 ^ lastPlace q := rfl

/-- The last place is small enough for 53 binary digits. -/
theorem abs_div_lastPlace_lt (q : ℚ) : |q / 2 ^ lastPlace q| < 2 ^ 53 := by
  have hpow : (0 : ℚ) < 2 ^ lastPlace q := zpow_pos two_pos _
  rw [abs_div, abs_of_pos hpow, div_lt_iff₀ hpow]
  have hlog : |q| < ((2 : ℕ) : ℚ) ^ (Int.log 2 |q| + 1) := Int.lt_zpow_succ_log_self (by norm_num) |q|
  have hle : Int.log 2 |q| + 1 ≤ 53 + lastPlace q := by
    unfold lastPlace
    omega
  calc |q| < (2 : ℚ) ^ (Int.log 2 |q| + 1) := by exact_mod_cast hlog
    _ ≤ 2 ^ (53 + lastPlace q) := zpow_le_zpow_right₀ one_le_two hle
    _ = 2 ^ 53 * 2 ^ lastPlace q := by
      rw [zpow_add₀ two_ne_zero]
      rfl

theorem isDouble_toDouble (q : ℚ) : IsDouble (toDouble q) := by
  have hlt := abs_lt.mp (abs_div_lastPlace_lt q)
  refine ⟨_, lastPlace q, le_max_right _ _, ?_, toDouble_eq q⟩
  have hupper := roundHalfEven_mono hlt.2.le
  have hlower := roundHalfEven_mono hlt.1.le
  have htop : ((2 : ℚ) ^ 53) = ((2 ^ 53 : ℤ) : ℚ) := by norm_num
  rw [htop, roundHalfEven_intCast] at hupper
  rw [htop, ← Int.cast_neg, roundHalfEven_intCast] at hlower
  exact abs_le.mpr ⟨hlower, hupper⟩

/-- A number that has only whole multiples of its last place is not rounded. -/
theorem toDouble_of_lastPlace {q : ℚ} {n : ℤ} (h : q = n * 2 ^ lastPlace q) : toDouble q = q := by
  have hpow : (2 : ℚ) ^ lastPlace q ≠ 0 := zpow_ne_zero _ two_ne_zero
  have hdiv : q / 2 ^ lastPlace q = n := by
    rw [div_eq_iff hpow]
    exact h
  rw [toDouble_eq, hdiv, roundHalfEven_intCast]
  exact h.symm

theorem toDouble_of_isDouble {q : ℚ} (h : IsDouble q) : toDouble q = q := by
  obtain ⟨m, e, he, hm, hq⟩ := h
  have hpow : (0 : ℚ) < 2 ^ e := zpow_pos two_pos _
  have habs : |q| = |m| * 2 ^ e := by
    rw [hq, abs_mul, abs_of_pos hpow, Int.cast_abs]
  by_cases hzero : m = 0
  · apply toDouble_of_lastPlace (n := 0)
    rw [hq, hzero, Int.cast_zero, zero_mul, zero_mul]
  rcases hm.lt_or_eq with hlt | heq
  · -- the last place of `q` is at most `e`
    have hle : lastPlace q ≤ e := by
      have hpos : 0 < |q| := by
        rw [habs]
        exact mul_pos (by exact_mod_cast abs_pos.mpr hzero) hpow
      have hlog : Int.log 2 |q| < 53 + e := by
        rw [← Int.lt_zpow_iff_log_lt (by norm_num) hpos, habs]
        have hcast : ((|m| : ℤ) : ℚ) < 2 ^ 53 := by exact_mod_cast hlt
        calc ((|m| : ℤ) : ℚ) * 2 ^ e < 2 ^ 53 * 2 ^ e := mul_lt_mul_of_pos_right hcast hpow
          _ = ((2 : ℕ) : ℚ) ^ (53 + e) := by
            rw [Nat.cast_ofNat, zpow_add₀ two_ne_zero]
            rfl
      unfold lastPlace
      omega
    apply toDouble_of_lastPlace (n := m * 2 ^ (e - lastPlace q).toNat)
    have hexp : ((e - lastPlace q).toNat : ℤ) = e - lastPlace q := Int.toNat_of_nonneg (by omega)
    rw [Int.cast_mul, Int.cast_pow, Int.cast_ofNat, mul_assoc, ← zpow_natCast, hexp, ← zpow_add₀ two_ne_zero,
      sub_add_cancel]
    exact hq
  · -- the significand is a power of two, so it has one place more than are kept
    have hlog : lastPlace q = e + 1 := by
      have hpower : |q| = ((2 : ℕ) : ℚ) ^ (53 + e) := by
        rw [habs, heq, Nat.cast_ofNat, zpow_add₀ two_ne_zero]
        norm_num
      unfold lastPlace
      rw [hpower, Int.log_zpow (by norm_num)]
      omega
    have heven : ∃ n, m = 2 * n := by
      rcases abs_choice m with h | h
      · exact ⟨2 ^ 52, by rw [← h, heq]; norm_num⟩
      · exact ⟨-2 ^ 52, by omega⟩
    obtain ⟨n, hn⟩ := heven
    apply toDouble_of_lastPlace (n := n)
    rw [hlog, zpow_add_one₀ two_ne_zero, hq, hn]
    push_cast
    ring

@[simp] theorem toDouble_toDouble (q : ℚ) : toDouble (toDouble q) = toDouble q :=
  toDouble_of_isDouble (isDouble_toDouble q)

/-! ## Numbers near a double -/

theorem abs_roundHalfEven_sub_le (x : ℚ) : |(roundHalfEven x : ℚ) - x| ≤ 1 / 2 := by
  have hfloor := Int.floor_le x
  have hlt := Int.lt_floor_add_one x
  unfold roundHalfEven
  simp only
  split_ifs with hlow hhigh heven
  · rw [abs_le]
    constructor <;> linarith
  · push_cast
    rw [abs_le]
    constructor <;> linarith
  · rw [abs_le]
    constructor <;> linarith
  · push_cast
    rw [abs_le]
    constructor <;> linarith

theorem roundHalfEven_of_near {x : ℚ} {n : ℤ} (h : |x - n| < 1 / 2) : roundHalfEven x = n := by
  have hround := abs_le.mp (abs_roundHalfEven_sub_le x)
  have hnear := abs_lt.mp h
  have hlow : ((n - 1 : ℤ) : ℚ) < (roundHalfEven x : ℚ) := by
    push_cast
    linarith
  have hhigh : (roundHalfEven x : ℚ) < ((n + 1 : ℤ) : ℚ) := by
    push_cast
    linarith
  have hlow' := Int.cast_lt.mp hlow
  have hhigh' := Int.cast_lt.mp hhigh
  omega

/-- What is nearer to a multiple of its last place than half of it is rounded to that. -/
theorem toDouble_of_near {d q : ℚ} {n : ℤ} (hq : q = n * 2 ^ lastPlace d) (h : |d - q| < 2 ^ (lastPlace d - 1)) :
    toDouble d = q := by
  have hpow : (0 : ℚ) < 2 ^ lastPlace d := zpow_pos two_pos _
  have hnear : |d / 2 ^ lastPlace d - n| < 1 / 2 := by
    have hsub : d / 2 ^ lastPlace d - n = (d - q) / 2 ^ lastPlace d := by
      rw [hq, sub_div, mul_div_cancel_right₀ _ hpow.ne']
    rw [hsub, abs_div, abs_of_pos hpow, div_lt_iff₀ hpow]
    rw [zpow_sub_one₀ two_ne_zero] at h
    linarith
  rw [toDouble_eq, roundHalfEven_of_near hnear, hq]

/-- A double is a multiple of its last place. -/
theorem eq_mul_lastPlace {q : ℚ} (h : IsDouble q) : ∃ n : ℤ, q = n * 2 ^ lastPlace q := by
  refine ⟨roundHalfEven (q / 2 ^ lastPlace q), ?_⟩
  rw [← toDouble_eq, toDouble_of_isDouble h]

/-- A positive double counts the units of its last place: it is one of at least as many as the power of two below
it. -/
theorem units_of_isDouble {q : ℚ} (h : IsDouble q) (hpos : 0 < q) : ∃ (n : ℤ) (k : ℕ), q = n * 2 ^ lastPlace q ∧
    Int.log 2 q = lastPlace q + k ∧ 2 ^ k ≤ n ∧ n < 2 * 2 ^ k := by
  obtain ⟨n, hn⟩ := eq_mul_lastPlace h
  have hu : (0 : ℚ) < 2 ^ lastPlace q := zpow_pos two_pos _
  have hlower : (2 : ℚ) ^ Int.log 2 q ≤ q := by exact_mod_cast Int.zpow_log_le_self (by norm_num : 1 < 2) hpos
  have hupper : q < (2 : ℚ) ^ (Int.log 2 q + 1) := by
    exact_mod_cast Int.lt_zpow_succ_log_self (by norm_num : 1 < 2) q
  have hle : lastPlace q ≤ Int.log 2 q := by
    have hone : 1 ≤ n := by
      have hcast : (0 : ℚ) < n := (pos_iff_pos_of_mul_pos (by rw [← hn]; exact hpos)).mpr hu
      exact_mod_cast hcast
    have hunit : (2 : ℚ) ^ lastPlace q ≤ q := by
      have hmul : (2 : ℚ) ^ lastPlace q ≤ n * 2 ^ lastPlace q := le_mul_of_one_le_left hu.le (by exact_mod_cast hone)
      rwa [← hn] at hmul
    have hexp := (zpow_lt_zpow_iff_right₀ (one_lt_two (α := ℚ))).mp (hunit.trans_lt hupper)
    omega
  obtain ⟨k, hk⟩ : ∃ k : ℕ, Int.log 2 q = lastPlace q + k := ⟨(Int.log 2 q - lastPlace q).toNat, by omega⟩
  have hpow : (2 : ℚ) ^ Int.log 2 q = ((2 ^ k : ℤ) : ℚ) * 2 ^ lastPlace q := by
    rw [hk, zpow_add₀ two_ne_zero, zpow_natCast, mul_comm]
    push_cast
    rfl
  refine ⟨n, k, hn, hk, ?_, ?_⟩
  · have hmul : ((2 ^ k : ℤ) : ℚ) * 2 ^ lastPlace q ≤ n * 2 ^ lastPlace q := by
      rw [← hpow, ← hn]
      exact hlower
    exact_mod_cast le_of_mul_le_mul_right hmul hu
  · have hmul : (n : ℚ) * 2 ^ lastPlace q < ((2 * 2 ^ k : ℤ) : ℚ) * 2 ^ lastPlace q := by
      rw [← hn]
      refine hupper.trans_eq ?_
      rw [zpow_add_one₀ two_ne_zero, hpow]
      push_cast
      ring
    exact_mod_cast lt_of_mul_lt_mul_right hmul hu.le

/-- The last place of a number with the logarithm. -/
theorem lastPlace_of_log {d : ℚ} {L : ℤ} (hd : 0 < d) (hlower : (2 : ℚ) ^ L ≤ d) (hupper : d < (2 : ℚ) ^ (L + 1)) :
    lastPlace d = max (L - 52) (-1074) := by
  have hle : L ≤ Int.log 2 d := by
    rw [← Int.zpow_le_iff_le_log (by norm_num) hd]
    exact_mod_cast hlower
  have hlt : Int.log 2 d < L + 1 := by
    rw [← Int.lt_zpow_iff_log_lt (by norm_num) hd]
    exact_mod_cast hupper
  unfold lastPlace
  rw [abs_of_pos hd]
  omega

/-- A number so near to a positive double is rounded to it: the neighbours of the double are `2 ^ -53` of it or
more away, and above a power of two twice as much as below. -/
theorem toDouble_of_close {d q : ℚ} (hq : IsDouble q) (hpos : 0 < q) (h : |d - q| * 2 ^ 54 < q) : toDouble d = q := by
  have hnear := abs_lt.mp ((lt_div_iff₀ (by norm_num)).mpr h)
  obtain ⟨n, k, hn, hk, hge, hlt⟩ := units_of_isDouble hq hpos
  have hplace : lastPlace q = max (Int.log 2 q - 52) (-1074) := by
    unfold lastPlace
    rw [abs_of_pos hpos]
  obtain ⟨L, hL⟩ : ∃ L, Int.log 2 q = L := ⟨_, rfl⟩
  obtain ⟨p, hp⟩ : ∃ p, lastPlace q = p := ⟨_, rfl⟩
  rw [hp] at hn hk hplace
  rw [hL] at hk hplace
  have hu : (0 : ℚ) < 2 ^ p := zpow_pos two_pos _
  have hpow : (2 : ℚ) ^ L = ((2 ^ k : ℤ) : ℚ) * 2 ^ p := by
    rw [hk, zpow_add₀ two_ne_zero, zpow_natCast, mul_comm]
    push_cast
    rfl
  have hdouble : (2 : ℚ) ^ (L + 1) = 2 * 2 ^ L := by rw [zpow_add_one₀ two_ne_zero, mul_comm]
  have hhalf : (2 : ℚ) ^ L = 2 * 2 ^ (L - 1) := by
    rw [zpow_sub_one₀ two_ne_zero]
    ring
  have hunit : (2 : ℚ) ^ p = 2 * 2 ^ (p - 1) := by
    rw [zpow_sub_one₀ two_ne_zero]
    ring
  have hnext : q + 2 ^ p ≤ (2 : ℚ) ^ (L + 1) := by
    have hcast : (n : ℚ) + 1 ≤ 2 * ((2 ^ k : ℤ) : ℚ) := by exact_mod_cast hlt
    rw [hn, hdouble, hpow]
    nlinarith
  -- half a unit is more than the distance
  have hdistance : ∀ x : ℤ, L - 53 ≤ x → q / 2 ^ 54 < 2 ^ x := by
    intro x hx
    have hle : (2 : ℚ) ^ (L + 1) / 2 ^ 54 ≤ 2 ^ x := by
      rw [← zpow_natCast, ← zpow_sub₀ two_ne_zero]
      exact zpow_le_zpow_right₀ one_le_two (by push_cast; omega)
    exact (div_lt_div_of_pos_right (by linarith) (by norm_num)).trans_le hle
  have hclose := hdistance (p - 1) (by omega)
  have hdpos : 0 < d := by
    have hsmall : q / 2 ^ 54 < q := div_lt_self hpos (by norm_num)
    linarith
  by_cases hd : (2 : ℚ) ^ L ≤ d
  · have hsame : lastPlace d = p := by rw [hplace, lastPlace_of_log hdpos hd (by linarith)]
    refine toDouble_of_near (n := n) (by rw [hsame]; exact hn) ?_
    rw [hsame, abs_lt]
    constructor <;> linarith
  · -- only a power of two has numbers of a smaller last place so near
    have hpower : n = 2 ^ k := by
      rcases hge.lt_or_eq with hgt | heq
      · have hcast : ((2 ^ k : ℤ) : ℚ) + 1 ≤ n := by exact_mod_cast hgt
        have hfar : (2 : ℚ) ^ L + 2 ^ p ≤ q := by
          rw [hn, hpow]
          nlinarith
        exact absurd (by linarith) hd
      · exact heq.symm
    have hqL : q = 2 ^ L := by rw [hn, hpower, hpow]
    have hdlower : (2 : ℚ) ^ (L - 1) ≤ d := by
      have hsmall : q / 2 ^ 54 ≤ q / 2 := div_le_div_of_nonneg_left hpos.le (by norm_num) (by norm_num)
      linarith
    have hlast := lastPlace_of_log (L := L - 1) hdpos hdlower (by rw [sub_add_cancel]; exact not_le.mp hd)
    obtain ⟨j, hj⟩ : ∃ j : ℕ, L = lastPlace d + j := ⟨(L - lastPlace d).toNat, by omega⟩
    refine toDouble_of_near (n := 2 ^ j) ?_ ?_
    · rw [hqL]
      nth_rewrite 1 [hj]
      rw [zpow_add₀ two_ne_zero, zpow_natCast, mul_comm]
      push_cast
      rfl
    · have hbound : q / 2 ^ 54 ≤ (2 : ℚ) ^ (lastPlace d - 1) := by
        rw [hqL, ← zpow_natCast, ← zpow_sub₀ two_ne_zero]
        exact zpow_le_zpow_right₀ one_le_two (by push_cast; omega)
      rw [abs_lt]
      constructor <;> linarith

end Galaxz.PyFloat
