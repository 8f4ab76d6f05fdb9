import Galaxz.Lib.Digits
import Galaxz.Lib.Json
import Mathlib.Data.List.TakeWhile

/-!
# Texts of numbers

`str(n)` for an `int` and `repr(x)` for a `float`, and that what is written reads back. The sign of a
zero is not kept by `PyFloat`.
-/

namespace Galaxz

/-! ## Integers -/

/-- `str(n)`. -/
def intText (n : ℤ) : List Char := if n < 0 then '-' :: natText n.natAbs else natText n.natAbs

/-- The number that a text with an optional sign denotes. -/
def intOf : List Char → ℤ
  | '-' :: ds => -natOf ds
  | ds => natOf ds

theorem natText_head {c : Char} {n : ℕ} {cs : List Char} (h : natText n = c :: cs) : IsDigit c :=
  natText_digits n c (by rw [h]; exact List.mem_cons_self)

theorem intOf_natText (n : ℕ) : intOf (natText n) = n := by
  unfold intOf
  split
  · next ds h => exact absurd (natText_head h) (by decide)
  · rw [natOf_natText]

theorem intOf_intText (n : ℤ) : intOf (intText n) = n := by
  unfold intText
  split_ifs with h
  · show -(natOf (natText n.natAbs) : ℤ) = n
    rw [natOf_natText]
    omega
  · rw [intOf_natText]
    omega

/-! ## Floats -/

namespace PyFloat

/-- At least two digits. -/
def twoDigits (n : ℕ) : List Char := if n < 10 then '0' :: natText n else natText n

/-- The exponent of a float. -/
def exponentText (x : ℤ) : List Char := (if x < 0 then '-' else '+') :: twoDigits x.natAbs

/-- The exponent that such a text denotes. -/
def exponentOf : List Char → ℤ
  | [] => 0
  | '-' :: ds => -natOf ds
  | _ :: ds => natOf ds

theorem natOf_twoDigits (n : ℕ) : natOf (twoDigits n) = n := by
  unfold twoDigits
  split_ifs
  · exact natOf_natText n
  · exact natOf_natText n

theorem exponentOf_exponentText (x : ℤ) : exponentOf (exponentText x) = x := by
  unfold exponentText
  by_cases h : x < 0
  · rw [if_pos h]
    show -(natOf (twoDigits x.natAbs) : ℤ) = x
    rw [natOf_twoDigits]
    omega
  · rw [if_neg h]
    show (natOf (twoDigits x.natAbs) : ℤ) = x
    rw [natOf_twoDigits]
    omega

/-- The text of `m * 10 ** e` in the format of `repr`: plain from `1e-4` to `1e16`, with an exponent
otherwise. -/
def decimalText (m : ℕ) (e : ℤ) : List Char :=
  let ds := natText m
  let point := ds.length + e
  if -4 < point ∧ point ≤ 16 then
    if point ≤ 0 then ['0'] ++ '.' :: (List.replicate point.natAbs '0' ++ ds)
    else if point < ds.length then ds.take point.toNat ++ '.' :: ds.drop point.toNat
    else ds ++ List.replicate e.toNat '0' ++ '.' :: ['0']
  else if ds.length = 1 then ds ++ 'e' :: exponentText (point - 1)
  else ds.take 1 ++ '.' :: ds.drop 1 ++ 'e' :: exponentText (point - 1)

/-- The same decimal without a zero at the end of its digits, where rounding up has left one. -/
def trimmed (c : ℕ × ℤ) : ℕ × ℤ := if c.1 % 10 = 0 then (c.1 / 10, c.2 + 1) else c

/-- The shortest decimal that reads back as the positive double, the nearest of these. -/
def shortestDecimal (q : ℚ) : Option (ℕ × ℤ) :=
  (((List.range' 1 17).flatMap fun n =>
    let e := Int.log 10 q - (n - 1)
    let m := q / 10 ^ e
    [((roundHalfEven m).toNat, e), (⌊m⌋.toNat, e), (⌈m⌉.toNat, e)]).find? fun c =>
      toDouble (c.1 * 10 ^ c.2) = q).map trimmed

/-- The text of a positive number. Every double has a decimal of at most 17 digits; the other rationals,
which no `float` has, are written as fractions. -/
def magnitudeText (q : ℚ) : List Char :=
  match shortestDecimal q with
  | some (m, e) => decimalText m e
  | none => natText q.num.natAbs ++ '/' :: natText q.den

/-- `float.__repr__`, as `json.dumps` writes it. -/
def reprText : PyFloat → List Char
  | nan => "NaN".toList
  | posInf => "Infinity".toList
  | negInf => "-Infinity".toList
  | finite q =>
    if q = 0 then "0.0".toList
    else if q < 0 then '-' :: magnitudeText |q|
    else magnitudeText |q|

/-- The decimal that a text denotes. -/
def decimalOf (cs : List Char) : ℚ :=
  let mantissa := cs.takeWhile (· ≠ 'e')
  let exponent := exponentOf ((cs.dropWhile (· ≠ 'e')).drop 1)
  let whole := mantissa.takeWhile (· ≠ '.')
  let fraction := (mantissa.dropWhile (· ≠ '.')).drop 1
  natOf (whole ++ fraction) * 10 ^ (exponent - fraction.length)

/-- The positive number that a text denotes. -/
def magnitudeOf (cs : List Char) : ℚ :=
  if '/' ∈ cs then natOf (cs.takeWhile (· ≠ '/')) / natOf ((cs.dropWhile (· ≠ '/')).drop 1)
  else toDouble (decimalOf cs)

/-- The float that a text denotes. -/
def floatOf (cs : List Char) : PyFloat :=
  if cs = "NaN".toList then nan
  else if cs = "Infinity".toList then posInf
  else if cs = "-Infinity".toList then negInf
  else match cs with
    | '-' :: ds => finite (-magnitudeOf ds)
    | ds => finite (magnitudeOf ds)

/-! ### What is written reads back -/

section Split

variable {c : Char} {xs ys : List Char}

theorem takeWhile_ne_append (h : c ∉ xs) : (xs ++ c :: ys).takeWhile (· ≠ c) = xs := by
  induction xs with
  | nil => simp
  | cons x xs ih =>
    have hx : x ≠ c := fun e => h (e ▸ List.mem_cons_self)
    rw [List.cons_append, List.takeWhile_cons_of_pos (by simpa using hx),
      ih fun hc => h (List.mem_cons_of_mem _ hc)]

theorem dropWhile_ne_append (h : c ∉ xs) : (xs ++ c :: ys).dropWhile (· ≠ c) = c :: ys := by
  induction xs with
  | nil => simp
  | cons x xs ih =>
    have hx : x ≠ c := fun e => h (e ▸ List.mem_cons_self)
    rw [List.cons_append, List.dropWhile_cons_of_pos (by simpa using hx),
      ih fun hc => h (List.mem_cons_of_mem _ hc)]

theorem takeWhile_ne_self (h : c ∉ xs) : xs.takeWhile (· ≠ c) = xs := by
  rw [List.takeWhile_eq_self_iff]
  intro x hx
  simpa using fun e : x = c => h (e ▸ hx)

theorem dropWhile_ne_self (h : c ∉ xs) : xs.dropWhile (· ≠ c) = [] := by
  rw [List.dropWhile_eq_nil_iff]
  intro x hx
  simpa using fun e : x = c => h (e ▸ hx)

end Split

/-- Only digits. -/
def Digits (cs : List Char) : Prop := ∀ c ∈ cs, IsDigit c

theorem Digits.notMem {cs : List Char} (h : Digits cs) {c : Char} (hc : ¬ IsDigit c) : c ∉ cs :=
  fun hmem => hc (h c hmem)

theorem Digits.append {cs ds : List Char} (hc : Digits cs) (hd : Digits ds) : Digits (cs ++ ds) := by
  intro c hmem
  rcases List.mem_append.mp hmem with hmem | hmem
  · exact hc c hmem
  · exact hd c hmem

theorem digits_zeros (k : ℕ) : Digits (List.replicate k '0') := by
  intro c hc
  rw [List.eq_of_mem_replicate hc]
  decide

theorem natOf_zeros (k : ℕ) : natOf (List.replicate k '0') = 0 := by
  induction k with
  | zero => rfl
  | succ k ih => rw [List.replicate_succ]; exact ih

theorem decimalOf_fraction {w f : List Char} (hw : Digits w) (hf : Digits f) :
    decimalOf (w ++ '.' :: f) = natOf (w ++ f) * 10 ^ (-(f.length : ℤ)) := by
  have hdot := hw.notMem (c := '.') (by decide)
  have he : 'e' ∉ w ++ '.' :: f := by
    have h1 := hw.notMem (c := 'e') (by decide)
    have h2 := hf.notMem (c := 'e') (by decide)
    simp [h1, h2]
  unfold decimalOf
  dsimp only
  rw [takeWhile_ne_self he, dropWhile_ne_self he, takeWhile_ne_append hdot, dropWhile_ne_append hdot]
  simp [exponentOf]

theorem decimalOf_exponent {w x : List Char} (hw : Digits w) :
    decimalOf (w ++ 'e' :: x) = natOf w * 10 ^ exponentOf x := by
  have hdot := hw.notMem (c := '.') (by decide)
  have he := hw.notMem (c := 'e') (by decide)
  unfold decimalOf
  dsimp only
  rw [takeWhile_ne_append he, dropWhile_ne_append he, takeWhile_ne_self hdot, dropWhile_ne_self hdot]
  simp

theorem decimalOf_both {w f x : List Char} (hw : Digits w) (hf : Digits f) :
    decimalOf (w ++ '.' :: f ++ 'e' :: x) = natOf (w ++ f) * 10 ^ (exponentOf x - f.length) := by
  have hdot := hw.notMem (c := '.') (by decide)
  have he : 'e' ∉ w ++ '.' :: f := by
    have h1 := hw.notMem (c := 'e') (by decide)
    have h2 := hf.notMem (c := 'e') (by decide)
    simp [h1, h2]
  unfold decimalOf
  dsimp only
  rw [takeWhile_ne_append he, dropWhile_ne_append he, takeWhile_ne_append hdot,
    dropWhile_ne_append hdot]
  simp

/-- A decimal reads back from its text. -/
theorem decimalOf_decimalText (m : ℕ) (e : ℤ) : decimalOf (decimalText m e) = m * 10 ^ e := by
  have hds : Digits (natText m) := natText_digits m
  have htake : ∀ k, Digits ((natText m).take k) := fun k c hc => hds c (List.mem_of_mem_take hc)
  have hdrop : ∀ k, Digits ((natText m).drop k) := fun k c hc => hds c (List.mem_of_mem_drop hc)
  have hzero : Digits ['0'] := digits_zeros 1
  have hnat : natOf ['0'] = 0 := rfl
  have hpos : 0 < (natText m).length := List.length_pos_iff.mpr (natText_ne_nil m)
  unfold decimalText
  simp only
  split_ifs with hplain hsmall hinside hone
  · -- zeros stand between the point and the digits
    rw [decimalOf_fraction hzero ((digits_zeros _).append hds), natOf_append, natOf_append,
      natOf_zeros, hnat, natOf_natText, List.length_append, List.length_replicate]
    have hexp : -((((natText m).length + e).natAbs + (natText m).length : ℕ) : ℤ) = e := by omega
    rw [hexp]
    simp
  · rw [decimalOf_fraction (htake _) (hdrop _), List.take_append_drop, natOf_natText, List.length_drop]
    have hexp : -(((natText m).length - ((natText m).length + e).toNat : ℕ) : ℤ) = e := by omega
    rw [hexp]
  · rw [decimalOf_fraction (hds.append (digits_zeros _)) hzero, natOf_append, natOf_append,
      natOf_zeros, natOf_natText, List.length_replicate, hnat]
    obtain ⟨k, rfl⟩ := Int.eq_ofNat_of_zero_le (show 0 ≤ e by omega)
    simp
  · rw [decimalOf_exponent hds, natOf_natText, exponentOf_exponentText, hone]
    congr 2
    push_cast
    omega
  · rw [decimalOf_both (htake 1) (hdrop 1), List.take_append_drop, natOf_natText,
      exponentOf_exponentText, List.length_drop]
    congr 2
    omega

/-- The characters of a decimal. -/
def IsDecimalChar (c : Char) : Prop := IsDigit c ∨ c = '.' ∨ c = 'e' ∨ c = '+' ∨ c = '-'

theorem twoDigits_digits (n : ℕ) : Digits (twoDigits n) := by
  unfold twoDigits
  split_ifs
  · exact (digits_zeros 1).append (natText_digits n)
  · exact natText_digits n

theorem exponentText_chars (x : ℤ) : ∀ c ∈ exponentText x, IsDecimalChar c := by
  intro c hc
  rcases List.mem_cons.mp hc with rfl | hc
  · unfold IsDecimalChar
    split_ifs
    · exact Or.inr (Or.inr (Or.inr (Or.inr rfl)))
    · exact Or.inr (Or.inr (Or.inr (Or.inl rfl)))
  · exact Or.inl (twoDigits_digits _ c hc)

theorem decimalText_chars (m : ℕ) (e : ℤ) : ∀ c ∈ decimalText m e, IsDecimalChar c := by
  have hds : ∀ c ∈ natText m, IsDecimalChar c := fun c hc => Or.inl (natText_digits m c hc)
  have htake : ∀ k, ∀ c ∈ (natText m).take k, IsDecimalChar c :=
    fun k c hc => hds c (List.mem_of_mem_take hc)
  have hdrop : ∀ k, ∀ c ∈ (natText m).drop k, IsDecimalChar c :=
    fun k c hc => hds c (List.mem_of_mem_drop hc)
  have hzeros : ∀ k, ∀ c ∈ List.replicate k '0', IsDecimalChar c :=
    fun k c hc => Or.inl (digits_zeros k c hc)
  have hdot : IsDecimalChar '.' := Or.inr (Or.inl rfl)
  have hexp : IsDecimalChar 'e' := Or.inr (Or.inr (Or.inl rfl))
  have hzero : IsDecimalChar '0' ∧ ∀ c ∈ ([] : List Char), IsDecimalChar c :=
    ⟨Or.inl (by decide), fun c hc => absurd hc List.not_mem_nil⟩
  unfold decimalText
  simp only
  split_ifs with hplain hsmall hinside hone
  · simp only [List.forall_mem_append, List.forall_mem_cons]
    exact ⟨hzero, hdot, hzeros _, hds⟩
  · simp only [List.forall_mem_append, List.forall_mem_cons]
    exact ⟨htake _, hdot, hdrop _⟩
  · simp only [List.forall_mem_append, List.forall_mem_cons]
    exact ⟨⟨hds, hzeros _⟩, hdot, hzero⟩
  · simp only [List.forall_mem_append, List.forall_mem_cons]
    exact ⟨hds, hexp, exponentText_chars _⟩
  · simp only [List.forall_mem_append, List.forall_mem_cons]
    exact ⟨⟨htake _, hdot, hdrop _⟩, hexp, exponentText_chars _⟩

theorem trimmed_value (c : ℕ × ℤ) : ((trimmed c).1 * 10 ^ (trimmed c).2 : ℚ) = c.1 * 10 ^ c.2 := by
  unfold trimmed
  by_cases hzero : c.1 % 10 = 0
  · have hdigits : ((10 * (c.1 / 10) : ℕ) : ℚ) = c.1 := by
      congr 1
      omega
    push_cast at hdigits
    rw [if_pos hzero]
    show ((c.1 / 10 : ℕ) : ℚ) * 10 ^ (c.2 + 1) = c.1 * 10 ^ c.2
    rw [zpow_add_one₀ (by norm_num), ← hdigits]
    ring
  · rw [if_neg hzero]

/-- The shortest decimal reads back. -/
theorem shortestDecimal_spec {q : ℚ} {m : ℕ} {e : ℤ} (h : shortestDecimal q = some (m, e)) :
    toDouble (m * 10 ^ e) = q := by
  obtain ⟨c, hc, htrimmed⟩ := Option.map_eq_some_iff.mp h
  have hvalue := trimmed_value c
  have hread := List.find?_some hc
  rw [htrimmed] at hvalue
  rw [hvalue]
  simpa using hread

/-- A positive number reads back from its text. -/
theorem magnitudeOf_magnitudeText {q : ℚ} (hq : 0 ≤ q) : magnitudeOf (magnitudeText q) = q := by
  unfold magnitudeText
  cases hfound : shortestDecimal q with
  | some c =>
    obtain ⟨m, e⟩ := c
    have hslash : '/' ∉ decimalText m e := by
      intro hmem
      rcases decimalText_chars m e _ hmem with h | h | h | h | h <;> exact absurd h (by decide)
    unfold magnitudeOf
    rw [if_neg hslash, decimalOf_decimalText]
    exact shortestDecimal_spec hfound
  | none =>
    have hslash : '/' ∉ natText q.num.natAbs := Digits.notMem (natText_digits _) (by decide)
    unfold magnitudeOf
    dsimp only
    rw [if_pos (by simp), takeWhile_ne_append hslash, dropWhile_ne_append hslash, natOf_natText,
      List.drop_one, List.tail_cons, natOf_natText]
    have hnum : ((q.num.natAbs : ℕ) : ℚ) = q.num := by
      have habs : ((q.num.natAbs : ℕ) : ℤ) = q.num := Int.natAbs_of_nonneg (Rat.num_nonneg.mpr hq)
      rw [← Int.cast_natCast, habs]
    rw [hnum, Rat.num_div_den]

theorem natText_cons (n : ℕ) : ∃ c cs, natText n = c :: cs ∧ IsDigit c := by
  obtain ⟨c, cs, h⟩ := List.exists_cons_of_ne_nil (natText_ne_nil n)
  exact ⟨c, cs, h, natText_head h⟩

/-- The text of a positive number starts with a digit. -/
theorem magnitudeText_cons (q : ℚ) : ∃ c cs, magnitudeText q = c :: cs ∧ IsDigit c := by
  unfold magnitudeText
  cases shortestDecimal q with
  | some p =>
    obtain ⟨m, e⟩ := p
    obtain ⟨c, cs, hcons, hc⟩ := natText_cons m
    have hzero : IsDigit '0' := by decide
    simp only [decimalText, hcons]
    split_ifs with hplain hsmall hinside hone
    · exact ⟨'0', _, rfl, hzero⟩
    · obtain ⟨k, hk⟩ : ∃ k, (((c :: cs).length : ℤ) + e).toNat = k + 1 :=
        Nat.exists_eq_succ_of_ne_zero (by omega)
      rw [hk]
      exact ⟨c, _, rfl, hc⟩
    · exact ⟨c, _, rfl, hc⟩
    · exact ⟨c, _, rfl, hc⟩
    · exact ⟨c, _, rfl, hc⟩
  | none =>
    obtain ⟨c, cs, hcons, hc⟩ := natText_cons q.num.natAbs
    simp only [hcons]
    exact ⟨c, _, rfl, hc⟩

theorem magnitudeOf_zero : magnitudeOf "0.0".toList = 0 := by
  have hslash : ¬ '/' ∈ "0.0".toList := by decide
  have hdecimal : decimalOf "0.0".toList = 0 := by
    have hnat : natOf ['0', '0'] = 0 := rfl
    have hread := decimalOf_fraction (digits_zeros 1) (digits_zeros 1)
    have htext : List.replicate 1 '0' ++ '.' :: List.replicate 1 '0' = "0.0".toList := by decide
    rw [← htext, hread]
    simp [hnat]
  unfold magnitudeOf
  rw [if_neg hslash, hdecimal]
  simp [toDouble, roundHalfEven]

/-- A float reads back from its text. -/
theorem floatOf_reprText (x : PyFloat) : floatOf (reprText x) = x := by
  cases x with
  | nan => rfl
  | posInf => rfl
  | negInf => rfl
  | finite q =>
    have hread := magnitudeOf_magnitudeText (abs_nonneg q)
    obtain ⟨c, cs, hcons, hc⟩ := magnitudeText_cons |q|
    have hN : c ≠ 'N' := by rintro rfl; exact absurd hc (by decide)
    have hI : c ≠ 'I' := by rintro rfl; exact absurd hc (by decide)
    have hminus : c ≠ '-' := by rintro rfl; exact absurd hc (by decide)
    have hnan : "NaN".toList = ['N', 'a', 'N'] := by decide
    have hinf : "Infinity".toList = ['I', 'n', 'f', 'i', 'n', 'i', 't', 'y'] := by decide
    have hninf : "-Infinity".toList = ['-', 'I', 'n', 'f', 'i', 'n', 'i', 't', 'y'] := by decide
    unfold reprText
    simp only
    split_ifs with hzero hneg
    · rw [hzero]
      show finite (magnitudeOf "0.0".toList) = finite 0
      rw [magnitudeOf_zero]
    · rw [hcons] at hread ⊢
      unfold floatOf
      rw [if_neg (by simp [hnan]), if_neg (by simp [hinf]), if_neg (by simp [hninf, hI])]
      show finite (-magnitudeOf (c :: cs)) = finite q
      rw [hread, abs_of_neg hneg, neg_neg]
    · rw [hcons] at hread ⊢
      unfold floatOf
      rw [if_neg (by simp [hnan, hN]), if_neg (by simp [hinf, hI]), if_neg (by simp [hninf, hminus])]
      split
      · next ds heq => exact absurd (List.cons.inj heq).1 hminus
      · rw [hread, abs_of_nonneg (not_lt.mp hneg)]

end PyFloat

end Galaxz
