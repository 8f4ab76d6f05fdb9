import Mathlib.Data.List.Induction
import Mathlib.Data.Nat.Digits.Defs

/-!
# Digits of numbers in texts

Fixed-width numbers, as `f"{n:04d}"` writes them, are ordered like the numbers; plain numbers, as
`str(n)` writes them, can be read back.
-/

namespace Galaxz

/-! ## Base 16 -/

/-- A hexadecimal digit. -/
def hexDigit (n : ℕ) : Char := "0123456789abcdef".toList.getD n '0'

/-- The digits of a number to base 16 determine it. -/
theorem eq_of_hexDigits {n m : ℕ} (k : ℕ) (hn : n < 16 ^ k) (hm : m < 16 ^ k)
    (h : ∀ i < k, n / 16 ^ i % 16 = m / 16 ^ i % 16) : n = m := by
  induction k generalizing n m with
  | zero => omega
  | succ k ih =>
    have hlast := h 0 (Nat.succ_pos k)
    rw [pow_zero, Nat.div_one, Nat.div_one] at hlast
    have hrest : n / 16 = m / 16 := by
      refine ih (by omega) (by omega) fun i hi => ?_
      have hdigit := h (i + 1) (Nat.succ_lt_succ hi)
      rw [pow_succ', ← Nat.div_div_eq_div_mul, ← Nat.div_div_eq_div_mul] at hdigit
      exact hdigit
    omega

/-- Numbers are ordered by their quotients first, then by their remainders. -/
theorem lt_iff_div_mod {a b d : ℕ} (hd : 0 < d) :
    a < b ↔ a / d < b / d ∨ a / d = b / d ∧ a % d < b % d := by
  have ha := Nat.div_add_mod a d
  have hb := Nat.div_add_mod b d
  have hra := Nat.mod_lt a hd
  have hrb := Nat.mod_lt b hd
  constructor
  · intro hlt
    rcases (Nat.div_le_div_right hlt.le : a / d ≤ b / d).lt_or_eq with hq | hq
    · exact Or.inl hq
    · rw [hq] at ha
      exact Or.inr ⟨hq, by omega⟩
  · rintro (hq | ⟨hq, hr⟩)
    · by_contra hle
      exact absurd (Nat.div_le_div_right (Nat.not_lt.mp hle)) (Nat.not_le.mpr hq)
    · rw [hq] at ha
      omega

theorem eq_iff_div_mod {a b d : ℕ} : a = b ↔ a / d = b / d ∧ a % d = b % d := by
  constructor
  · intro h
    rw [h]
    exact ⟨rfl, rfl⟩
  · rintro ⟨hq, hr⟩
    rw [← Nat.div_add_mod a d, hq, hr, Nat.div_add_mod]

/-- An order that decides by quotients, then by remainders, then by `R`. -/
theorem lex_div_mod {a b d : ℕ} (hd : 0 < d) (R : Prop) :
    a / d < b / d ∨ a / d = b / d ∧ (a % d < b % d ∨ a % d = b % d ∧ R) ↔ a < b ∨ a = b ∧ R := by
  have hlt : a < b ↔ a / d < b / d ∨ a / d = b / d ∧ a % d < b % d := lt_iff_div_mod hd
  have heq : a = b ↔ a / d = b / d ∧ a % d = b % d := eq_iff_div_mod
  generalize a / d = qa at *
  generalize b / d = qb at *
  generalize a % d = ra at *
  generalize b % d = rb at *
  rw [hlt, heq]
  tauto

theorem hexDigit_injective {n m : ℕ} (hn : n < 16) (hm : m < 16) (h : hexDigit n = hexDigit m) :
    n = m := by
  have hall : ∀ a < 16, ∀ b < 16, hexDigit a = hexDigit b → a = b := by decide
  exact hall n hn m hm h

theorem hexDigit_lt_iff {n m : ℕ} (hn : n < 16) (hm : m < 16) : hexDigit n < hexDigit m ↔ n < m := by
  have hall : ∀ a < 16, ∀ b < 16, hexDigit a < hexDigit b ↔ a < b := by decide
  exact hall n hn m hm

/-- The last `w` digits of a number to base 16. -/
def hexPadded : ℕ → ℕ → List Char
  | 0, _ => []
  | w + 1, n => hexPadded w (n / 16) ++ [hexDigit (n % 16)]

theorem hexPadded_eq (w n : ℕ) :
    hexPadded w n = (List.range w).map fun i => hexDigit (n / 16 ^ (w - 1 - i) % 16) := by
  induction w generalizing n with
  | zero => rfl
  | succ w ih =>
    have hlast : n / 16 ^ (w + 1 - 1 - w) % 16 = n % 16 := by simp
    rw [hexPadded, ih, List.range_succ, List.map_append, List.map_singleton, hlast]
    congr 1
    apply List.map_congr_left
    intro i hi
    have hexp : w + 1 - 1 - i = w - 1 - i + 1 := by
      have := List.mem_range.mp hi
      omega
    rw [hexp, pow_succ', ← Nat.div_div_eq_div_mul]

/-- Texts that start with as many digits are ordered by these first. -/
theorem hexPadded_append_lt_iff (w a b : ℕ) (x y : List Char) :
    hexPadded w a ++ x < hexPadded w b ++ y ↔
      a % 16 ^ w < b % 16 ^ w ∨ a % 16 ^ w = b % 16 ^ w ∧ x < y := by
  induction w generalizing a b x y with
  | zero => simp [hexPadded, Nat.mod_one]
  | succ w ih =>
    have ha : a % 16 < 16 := Nat.mod_lt _ (by decide)
    have hb : b % 16 < 16 := Nat.mod_lt _ (by decide)
    have heq : hexDigit (a % 16) = hexDigit (b % 16) ↔ a % 16 = b % 16 :=
      ⟨hexDigit_injective ha hb, congrArg hexDigit⟩
    rw [hexPadded, hexPadded, List.append_assoc, List.append_assoc, ih, List.singleton_append,
      List.singleton_append, List.cons_lt_cons_iff, hexDigit_lt_iff ha hb, heq, pow_succ', Nat.mod_mul,
      Nat.mod_mul]
    by_cases hxy : x < y
    · simp only [hxy, and_true]
      omega
    · simp only [hxy, and_false, or_false]
      omega

/-! ## Base 10 -/

/-- The digit of a number below ten. -/
def digitChar (d : ℕ) : Char := Char.ofNat (48 + d)

/-- The number of a digit. -/
def digitVal (c : Char) : ℕ := c.toNat - 48

theorem digitVal_digitChar {d : ℕ} (h : d < 10) : digitVal (digitChar d) = d := by
  have hall : ∀ a < 10, digitVal (digitChar a) = a := by decide
  exact hall d h

theorem digitChar_lt_iff {a b : ℕ} (ha : a < 10) (hb : b < 10) : digitChar a < digitChar b ↔ a < b := by
  have hall : ∀ a < 10, ∀ b < 10, digitChar a < digitChar b ↔ a < b := by decide
  exact hall a ha b hb

theorem digitChar_eq_iff {a b : ℕ} (ha : a < 10) (hb : b < 10) : digitChar a = digitChar b ↔ a = b := by
  constructor
  · intro h
    rw [← digitVal_digitChar ha, h, digitVal_digitChar hb]
  · intro h
    rw [h]

/-- The last `w` digits of a number, as `f"{n:0{w}d}"` writes one that has no more. -/
def padded : ℕ → ℕ → List Char
  | 0, _ => []
  | w + 1, n => padded w (n / 10) ++ [digitChar (n % 10)]

/-- Texts that start with numbers of one width are ordered by these first. -/
theorem padded_append_lt_iff (w : ℕ) {a b : ℕ} (ha : a < 10 ^ w) (hb : b < 10 ^ w) (x y : List Char) :
    padded w a ++ x < padded w b ++ y ↔ a < b ∨ a = b ∧ x < y := by
  induction w generalizing a b x y with
  | zero =>
    have ha0 : a = 0 := by simpa using ha
    have hb0 : b = 0 := by simpa using hb
    simp [padded, ha0, hb0]
  | succ w ih =>
    rw [pow_succ] at ha hb
    rw [padded, padded, List.append_assoc, List.append_assoc, ih (by omega) (by omega),
      List.singleton_append, List.singleton_append, List.cons_lt_cons_iff,
      digitChar_lt_iff (by omega) (by omega), digitChar_eq_iff (by omega) (by omega)]
    by_cases hxy : x < y
    · simp only [hxy, and_true]
      omega
    · simp only [hxy, and_false, or_false]
      omega

/-- `str(n)` for a natural number. -/
def natText (n : ℕ) : List Char :=
  if n = 0 then ['0'] else ((Nat.digits 10 n).map digitChar).reverse

/-- The number that a list of digits denotes. -/
def natOf (cs : List Char) : ℕ := cs.foldl (fun n c => 10 * n + digitVal c) 0

theorem natOf_concat (cs : List Char) (c : Char) : natOf (cs ++ [c]) = 10 * natOf cs + digitVal c := by
  unfold natOf
  rw [List.foldl_append]
  rfl

theorem natOf_append (cs ds : List Char) : natOf (cs ++ ds) = natOf cs * 10 ^ ds.length + natOf ds := by
  induction ds using List.reverseRecOn with
  | nil => simp [natOf]
  | append_singleton ds d ih =>
    rw [← List.append_assoc, natOf_concat, ih, natOf_concat, List.length_append, List.length_singleton,
      pow_succ]
    ring

theorem natOf_reverse_digits (ds : List ℕ) (h : ∀ d ∈ ds, d < 10) :
    natOf (ds.map digitChar).reverse = Nat.ofDigits 10 ds := by
  induction ds with
  | nil => rfl
  | cons d ds ih =>
    rw [List.map_cons, List.reverse_cons, natOf_concat, ih fun e he => h e (List.mem_cons_of_mem _ he),
      digitVal_digitChar (h d List.mem_cons_self), Nat.ofDigits_cons]
    omega

/-- A number reads back from its text. -/
theorem natOf_natText (n : ℕ) : natOf (natText n) = n := by
  unfold natText
  split_ifs with hn
  · rw [hn]
    rfl
  · rw [natOf_reverse_digits _ fun d hd => Nat.digits_lt_base (by decide) hd, Nat.ofDigits_digits]

/-- A character of a number. -/
def IsDigit (c : Char) : Prop := 48 ≤ c.toNat ∧ c.toNat ≤ 57

instance (c : Char) : Decidable (IsDigit c) := by unfold IsDigit; infer_instance

theorem isDigit_digitChar {d : ℕ} (h : d < 10) : IsDigit (digitChar d) := by
  have hall : ∀ a < 10, IsDigit (digitChar a) := by decide
  exact hall d h

theorem natText_digits (n : ℕ) : ∀ c ∈ natText n, IsDigit c := by
  intro c hc
  unfold natText at hc
  split_ifs at hc with hn
  · rw [List.mem_singleton.mp hc]
    decide
  · obtain ⟨d, hd, rfl⟩ := List.mem_map.mp (List.mem_reverse.mp hc)
    exact isDigit_digitChar (Nat.digits_lt_base (by decide) hd)

theorem natText_ne_nil (n : ℕ) : natText n ≠ [] := by
  unfold natText
  split_ifs with hn
  · simp
  · simp [Nat.digits_ne_nil_iff_ne_zero.mpr hn]

end Galaxz
