import Galaxz.Lib.Doubles
import Galaxz.Lib.JsonGrammar
import Mathlib.Data.Nat.Digits.Lemmas

/-!
# Numbers that JSON reads back

`json.loads` reads `str(n)` of an integer that has not too many digits, and `repr(x)` of every finite double: one
of at most seventeen digits is so near to it that it is rounded to it.
-/

namespace Galaxz

open JsonReader PyFloat

/-! ## The digits of a number -/

theorem natText_head_ne_zero {n : ℕ} (hn : 0 < n) {c : Char} {cs : List Char} (h : natText n = c :: cs) : c ≠ '0' := by
  have hne : Nat.digits 10 n ≠ [] := Nat.digits_ne_nil_iff_ne_zero.mpr (by omega)
  have hlast := Nat.getLast_digit_ne_zero 10 (m := n) (by omega)
  have hlt : (Nat.digits 10 n).getLast hne < 10 := Nat.digits_lt_base (by decide) (List.getLast_mem hne)
  unfold natText at h
  rw [if_neg (by omega), ← List.dropLast_concat_getLast hne, List.map_append, List.reverse_append] at h
  have hc : digitChar ((Nat.digits 10 n).getLast hne) = c := (List.cons.inj h).1
  intro hzero
  rw [hzero] at hc
  exact hlast ((digitChar_eq_iff hlt (by omega : 0 < 10)).mp hc)

theorem natText_length {n : ℕ} (hn : 0 < n) : (natText n).length = Nat.log 10 n + 1 := by
  unfold natText
  rw [if_neg (by omega), List.length_reverse, List.length_map, Nat.length_digits 10 n (by decide) (by omega)]

theorem natText_length_pow (k : ℕ) : (natText (10 ^ k)).length = k + 1 := by
  rw [natText_length (Nat.pow_pos (by omega)), Nat.log_pow (by omega)]

/-- The digits before the point: a zero alone, or a number that starts with no zero. -/
def IsWhole (w : List Char) : Prop := Digits w ∧ (w = ['0'] ∨ ∃ c cs, w = c :: cs ∧ c ≠ '0')

theorem isWhole_natText (n : ℕ) : IsWhole (natText n) := by
  refine ⟨natText_digits n, ?_⟩
  by_cases hn : n = 0
  · rw [hn]
    exact Or.inl rfl
  · obtain ⟨c, cs, hcons⟩ := List.exists_cons_of_ne_nil (natText_ne_nil n)
    exact Or.inr ⟨c, cs, hcons, natText_head_ne_zero (by omega) hcons⟩

/-! ## The parts of a decimal -/

/-- The digits after the point. -/
def pointText (f : List Char) : List Char := if f = [] then [] else '.' :: f

/-- The exponent. -/
def exponentSuffix : Option ℤ → List Char
  | none => []
  | some x => 'e' :: exponentText x

theorem wholePart_append {w r : List Char} (hw : IsWhole w) (hr : ∀ c ∈ r.head?, ¬ IsDigit c) :
    wholePart (w ++ r) = some (w, r) := by
  obtain ⟨hdigits, rfl | ⟨c, cs, rfl, hc⟩⟩ := hw
  · rfl
  · obtain ⟨htake, hdrop⟩ := takeWhile_digits_append hdigits hr
    have hdigit : IsDigit c := hdigits c List.mem_cons_self
    rw [List.cons_append] at htake hdrop ⊢
    rw [wholePart, if_neg hc, if_pos hdigit, htake, hdrop]

theorem fractionPart_pointText {f r : List Char} (hf : Digits f) (hr : ∀ c ∈ r.head?, ¬ IsDigit c ∧ c ≠ '.') :
    fractionPart (pointText f ++ r) = (f, r) := by
  unfold pointText
  by_cases hempty : f = []
  · rw [if_pos hempty, hempty, List.nil_append]
    cases r with
    | nil => rfl
    | cons c r =>
      have hc := (hr c rfl).2
      rw [fractionPart, if_neg (by simp [hc])]
  · obtain ⟨htake, hdrop⟩ := takeWhile_digits_append hf fun c hc => (hr c hc).1
    rw [if_neg hempty, List.cons_append, fractionPart, htake, hdrop, if_pos ⟨rfl, hempty⟩]

theorem exponentOf_exponentText (x : ℤ) : JsonReader.exponentOf (exponentText x) = x := by
  unfold exponentText
  by_cases hx : x < 0
  · rw [if_pos hx]
    show -(natOf (twoDigits x.natAbs) : ℤ) = x
    rw [natOf_twoDigits]
    omega
  · rw [if_neg hx]
    show (natOf (twoDigits x.natAbs) : ℤ) = x
    rw [natOf_twoDigits]
    omega

theorem exponentPart_exponentSuffix (x : Option ℤ) : exponentPart (exponentSuffix x) = (x.map exponentText, []) := by
  cases x with
  | none => rfl
  | some x =>
    have hdigits : Digits (twoDigits x.natAbs) := twoDigits_digits x.natAbs
    have hne : twoDigits x.natAbs ≠ [] := by
      unfold twoDigits
      split_ifs
      · simp
      · exact natText_ne_nil x.natAbs
    have hends := takeWhile_digits_append (x := []) hdigits (by simp)
    rw [List.append_nil] at hends
    have hsign : exponentSign (exponentText x) = ([if x < 0 then '-' else '+'], twoDigits x.natAbs) := by
      rw [exponentText, exponentSign, if_pos]
      split_ifs <;> simp
    rw [exponentSuffix, exponentPart, hsign]
    dsimp only
    rw [hends.1, hends.2, if_pos ⟨Or.inl rfl, hne⟩]
    rfl

/-- What may stand behind the digits of a number. -/
theorem exponentSuffix_head (x : Option ℤ) : ∀ c ∈ (exponentSuffix x).head?, ¬ IsDigit c ∧ c ≠ '.' := by
  cases x with
  | none => simp [exponentSuffix]
  | some x =>
    intro c hc
    rw [exponentSuffix, List.head?_cons, Option.mem_some_iff] at hc
    rw [← hc]
    decide

theorem pointText_head (f : List Char) (x : Option ℤ) :
    ∀ c ∈ (pointText f ++ exponentSuffix x).head?, ¬ IsDigit c := by
  unfold pointText
  by_cases hempty : f = []
  · rw [if_pos hempty, List.nil_append]
    exact fun c hc => (exponentSuffix_head x c hc).1
  · rw [if_neg hempty]
    intro c hc
    rw [List.cons_append, List.head?_cons, Option.mem_some_iff] at hc
    rw [← hc]
    decide

/-- A number that has a fraction or an exponent is a float. -/
theorem number_parts (negative : Bool) {w f : List Char} {x : Option ℤ} (hw : IsWhole w) (hf : Digits f)
    (hsome : ¬ (f = [] ∧ x = none)) :
    number ((if negative then ['-'] else []) ++ (w ++ (pointText f ++ exponentSuffix x))) =
      .ok (.float (decimalFloat negative (natOf (w ++ f)) (x.getD 0 - f.length)), []) := by
  have hwhole := wholePart_append hw (pointText_head f x)
  have hfraction := fractionPart_pointText hf (exponentSuffix_head x)
  have hexponent := exponentPart_exponentSuffix x
  have hvalue : numberValue negative w f (x.map exponentText) =
      .ok (.float (decimalFloat negative (natOf (w ++ f)) (x.getD 0 - f.length))) := by
    unfold numberValue
    rw [if_neg (by simpa using hsome)]
    cases x with
    | none => rfl
    | some x => simp [exponentOf_exponentText]
  unfold number
  cases negative with
  | true => simp [hwhole, hfraction, hexponent, hvalue, Except.map]
  | false =>
    have hhead : ¬ (w ++ (pointText f ++ exponentSuffix x)).head? = some '-' := by
      obtain ⟨hdigits, hform⟩ := hw
      obtain ⟨c, cs, rfl⟩ : ∃ c cs, w = c :: cs := by
        rcases hform with rfl | ⟨c, cs, rfl, -⟩
        · exact ⟨_, _, rfl⟩
        · exact ⟨c, cs, rfl⟩
      intro hminus
      have hc := hdigits c List.mem_cons_self
      rw [Option.some.inj hminus] at hc
      exact absurd hc (by decide)
    rw [if_neg Bool.false_ne_true, List.nil_append]
    simp only [hhead, decide_false, Bool.false_eq_true, if_false, hwhole, hfraction, hexponent, hvalue, Except.map]

/-- The parts of the text of a decimal. -/
theorem decimalText_parts {m : ℕ} (hm : 0 < m) (e : ℤ) : ∃ w f x,
    decimalText m e = w ++ (pointText f ++ exponentSuffix x) ∧ IsWhole w ∧ Digits f ∧ ¬ (f = [] ∧ x = none) ∧
      (natOf (w ++ f) : ℚ) * 10 ^ (x.getD 0 - f.length : ℤ) = m * 10 ^ e := by
  obtain ⟨hdigits, hform⟩ := isWhole_natText m
  have htake : ∀ k, Digits ((natText m).take k) := fun k c hc => hdigits c (List.mem_of_mem_take hc)
  have hdrop : ∀ k, Digits ((natText m).drop k) := fun k c hc => hdigits c (List.mem_of_mem_drop hc)
  have hvalue := decimalOf_decimalText m e
  obtain ⟨d, ds, hcons⟩ := List.exists_cons_of_ne_nil (natText_ne_nil m)
  have hd : d ≠ '0' := natText_head_ne_zero hm hcons
  have hone' : Digits ['0'] := digits_zeros 1
  have hzero : IsWhole ['0'] := ⟨hone', Or.inl rfl⟩
  unfold decimalText at hvalue ⊢
  dsimp only at hvalue ⊢
  split_ifs at hvalue ⊢ with hplain hsmall hinside hone
  · -- zeros stand between the point and the digits
    have hf : Digits (List.replicate ((natText m).length + e).natAbs '0' ++ natText m) := (digits_zeros _).append hdigits
    have hne : List.replicate ((natText m).length + e).natAbs '0' ++ natText m ≠ [] := by simp [hcons]
    refine ⟨['0'], _, none, ?_, hzero, hf, by simp [hne], ?_⟩
    · rw [pointText, if_neg hne, exponentSuffix, List.append_nil]
    · rw [← hvalue, decimalOf_fraction hone' hf]
      simp
  · obtain ⟨k, hk⟩ : ∃ k, ((natText m).length + e).toNat = k + 1 := Nat.exists_eq_succ_of_ne_zero (by omega)
    have hne : (natText m).drop ((natText m).length + e).toNat ≠ [] := by
      rw [ne_eq, List.drop_eq_nil_iff]
      omega
    refine ⟨(natText m).take ((natText m).length + e).toNat, _, none, ?_, ⟨htake _, Or.inr ⟨d, ds.take k, ?_, hd⟩⟩,
      hdrop _, fun h => hne h.1, ?_⟩
    · rw [pointText, if_neg hne, exponentSuffix, List.append_nil]
    · rw [hk, hcons, List.take_succ_cons]
    · rw [← hvalue, decimalOf_fraction (htake _) (hdrop _)]
      simp
  · have hw : Digits (natText m ++ List.replicate e.toNat '0') := hdigits.append (digits_zeros _)
    refine ⟨natText m ++ List.replicate e.toNat '0', ['0'], none, ?_, ⟨hw, Or.inr ⟨d, ds ++ List.replicate e.toNat '0', ?_, hd⟩⟩, hone',
      by simp, ?_⟩
    · rw [pointText, if_neg (by simp), exponentSuffix, List.append_nil]
    · rw [hcons, List.cons_append]
    · rw [← hvalue, decimalOf_fraction hw hone']
      simp
  · refine ⟨natText m, [], some ((natText m).length + e - 1), ?_, ⟨hdigits, hform⟩, by simp [Digits], by simp, ?_⟩
    · rw [pointText, if_pos rfl, List.nil_append, exponentSuffix]
    · rw [← hvalue, decimalOf_exponent hdigits, PyFloat.exponentOf_exponentText]
      simp
  · have hne : (natText m).drop 1 ≠ [] := by
      rw [ne_eq, List.drop_eq_nil_iff]
      have hpos : 0 < (natText m).length := List.length_pos_iff.mpr (natText_ne_nil m)
      omega
    refine ⟨(natText m).take 1, (natText m).drop 1, some ((natText m).length + e - 1), ?_,
      ⟨htake 1, Or.inr ⟨d, [], ?_, hd⟩⟩, hdrop 1, fun h => hne h.1, ?_⟩
    · rw [pointText, if_neg hne, exponentSuffix, List.append_assoc]
    · rw [hcons, List.take_succ_cons, List.take_zero]
    · rw [← hvalue, decimalOf_both (htake 1) (hdrop 1), PyFloat.exponentOf_exponentText]
      simp

/-! ## The shortest decimal -/

/-- One of seventeen digits is rounded to the double. -/
theorem shortestDecimal_isSome {q : ℚ} (hq : IsDouble q) (hpos : 0 < q) : (shortestDecimal q).isSome := by
  obtain ⟨e, he⟩ : ∃ e, Int.log 10 q - (17 - 1) = e := ⟨_, rfl⟩
  have hpow : (0 : ℚ) < 10 ^ e := zpow_pos (by norm_num) _
  have hlower : (10 : ℚ) ^ 16 * 10 ^ e ≤ q := by
    have hlog : ((10 : ℕ) : ℚ) ^ Int.log 10 q ≤ q := Int.zpow_log_le_self (by norm_num) hpos
    rw [← zpow_natCast, ← zpow_add₀ (by norm_num : (10 : ℚ) ≠ 0)]
    have hexp : (((16 : ℕ) : ℤ) + e) = Int.log 10 q := by
      push_cast
      omega
    rw [hexp]
    exact_mod_cast hlog
  have hnonneg : 0 ≤ roundHalfEven (q / 10 ^ e) := roundHalfEven_nonneg (div_nonneg hpos.le hpow.le)
  have hcast : (((roundHalfEven (q / 10 ^ e)).toNat : ℕ) : ℚ) = roundHalfEven (q / 10 ^ e) := by
    exact_mod_cast Int.toNat_of_nonneg hnonneg
  have hread : toDouble ((roundHalfEven (q / 10 ^ e)).toNat * 10 ^ e) = q := by
    apply toDouble_of_close hq hpos
    have hround := abs_roundHalfEven_sub_le (q / 10 ^ e)
    have hdistance : |(((roundHalfEven (q / 10 ^ e)).toNat : ℕ) : ℚ) * 10 ^ e - q| ≤ 1 / 2 * 10 ^ e := by
      have hfactor : (((roundHalfEven (q / 10 ^ e)).toNat : ℕ) : ℚ) * 10 ^ e - q =
          (roundHalfEven (q / 10 ^ e) - q / 10 ^ e) * 10 ^ e := by
        rw [hcast, sub_mul, div_mul_cancel₀ _ hpow.ne']
      rw [hfactor, abs_mul, abs_of_pos hpow]
      exact mul_le_mul_of_nonneg_right hround hpow.le
    have hbound : (2 : ℚ) ^ 53 * 10 ^ e < 10 ^ 16 * 10 ^ e := mul_lt_mul_of_pos_right (by norm_num) hpow
    linarith
  unfold shortestDecimal
  rw [Option.isSome_map, List.find?_isSome]
  refine ⟨((roundHalfEven (q / 10 ^ e)).toNat, e), ?_, by simpa using hread⟩
  refine List.mem_flatMap.mpr ⟨17, by decide, ?_⟩
  rw [← he]
  simp

/-- `json.loads` reads the text of a double. -/
theorem literal_reprText {q : ℚ} (hq : IsDouble q) (hrange : |q| < overflowBound) :
    literal (reprText (.finite q)) = .ok (.float (.finite q), []) := by
  have hsigned : ∀ (negative : Bool) {w f : List Char} {x : Option ℤ}, IsWhole w → Digits f →
      ¬ (f = [] ∧ x = none) → literal ((if negative then ['-'] else []) ++ (w ++ (pointText f ++ exponentSuffix x))) =
        .ok (.float (decimalFloat negative (natOf (w ++ f)) (x.getD 0 - f.length)), []) := by
    intro negative w f x hw hf hsome
    have hstart : NumberStart ((if negative then ['-'] else []) ++ (w ++ (pointText f ++ exponentSuffix x))) := by
      obtain ⟨hdigits, hform⟩ := hw
      obtain ⟨c, cs, rfl⟩ : ∃ c cs, w = c :: cs := by
        rcases hform with rfl | ⟨c, cs, rfl, -⟩
        · exact ⟨_, _, rfl⟩
        · exact ⟨c, cs, rfl⟩
      have hc := hdigits c List.mem_cons_self
      cases negative with
      | true => exact Or.inr ⟨c, _, rfl, hc⟩
      | false => exact Or.inl ⟨c, _, rfl, hc⟩
    have hwords : words.find? (fun u =>
        u.1.isPrefixOf ((if negative then ['-'] else []) ++ (w ++ (pointText f ++ exponentSuffix x)))) = none := by
      rw [List.find?_eq_none]
      intro u hu
      rw [(words_spec u hu).2.2 _ hstart]
      exact Bool.false_ne_true
    unfold literal
    rw [hwords]
    exact number_parts negative hw hf hsome
  have habs : IsDouble |q| := by
    obtain ⟨m, e, he, hm, rfl⟩ := hq
    have hpow : (0 : ℚ) < 2 ^ e := zpow_pos two_pos e
    exact ⟨|m|, e, he, by rwa [abs_abs], by rw [abs_mul, Int.cast_abs, abs_of_pos hpow]⟩
  have htext : reprText (.finite q) =
      if q = 0 then "0.0".toList else if q < 0 then '-' :: magnitudeText |q| else magnitudeText |q| := rfl
  rw [htext]
  by_cases hzero : q = 0
  · rw [if_pos hzero, hzero]
    have hread := hsigned false (w := ['0']) (f := ['0']) (x := none) ⟨digits_zeros 1, Or.inl rfl⟩ (digits_zeros 1) (by simp)
    have hvalue : decimalFloat false (natOf (['0'] ++ ['0'])) ((none : Option ℤ).getD 0 - ((['0'] : List Char).length : ℕ)) =
        .finite 0 := by
      have hnat : natOf (['0'] ++ ['0']) = 0 := rfl
      have hlt : ¬ overflowBound ≤ 0 := by norm_num [overflowBound]
      unfold decimalFloat
      rw [hnat]
      simp [toDouble, roundHalfEven, hlt]
    rw [hvalue] at hread
    exact hread
  · have hpos : 0 < |q| := abs_pos.mpr hzero
    obtain ⟨⟨m, e⟩, hsome⟩ := Option.isSome_iff_exists.mp (shortestDecimal_isSome habs hpos)
    have hdouble := shortestDecimal_spec hsome
    have hm : 0 < m := by
      rcases Nat.eq_zero_or_pos m with rfl | hm
      · rw [Nat.cast_zero, zero_mul] at hdouble
        have hnull : toDouble 0 = 0 := by simp [toDouble, roundHalfEven]
        rw [hnull] at hdouble
        exact absurd hdouble hpos.ne
      · exact hm
    obtain ⟨w, f, x, htext, hw, hf, hparts, hvalue⟩ := decimalText_parts hm e
    have hmagnitude : magnitudeText |q| = w ++ (pointText f ++ exponentSuffix x) := by
      unfold magnitudeText
      rw [hsome]
      exact htext
    have hfloat : ∀ negative, decimalFloat negative (natOf (w ++ f)) (x.getD 0 - f.length) =
        .finite (if negative then -|q| else |q|) := by
      intro negative
      unfold decimalFloat
      rw [hvalue, hdouble, if_neg (not_le.mpr hrange)]
    rw [if_neg hzero, hmagnitude]
    by_cases hneg : q < 0
    · have hread := hsigned true hw hf hparts
      rw [hfloat, if_pos rfl, if_pos rfl, abs_of_neg hneg, neg_neg] at hread
      rw [if_pos hneg]
      exact hread
    · have hread := hsigned false hw hf hparts
      rw [hfloat, if_neg Bool.false_ne_true, if_neg Bool.false_ne_true, abs_of_nonneg (not_lt.mp hneg)] at hread
      rw [if_neg hneg]
      exact hread

/-! ## Integers -/

/-- `json.loads` reads the text of an integer that has not too many digits. -/
theorem literal_intText {n : ℤ} (hn : (natText n.natAbs).length ≤ maxDigits) :
    literal (intText n) = .ok (.int n, []) := by
  have hwhole := wholePart_append (r := []) (isWhole_natText n.natAbs) (by simp)
  rw [List.append_nil] at hwhole
  obtain ⟨d, ds, hcons, hd⟩ := natText_cons n.natAbs
  have hstart : NumberStart (intText n) := by
    unfold intText
    by_cases hneg : n < 0
    · rw [if_pos hneg, hcons]
      exact Or.inr ⟨d, ds, rfl, hd⟩
    · rw [if_neg hneg, hcons]
      exact Or.inl ⟨d, ds, rfl, hd⟩
  have hwords : words.find? (fun u => u.1.isPrefixOf (intText n)) = none := by
    rw [List.find?_eq_none]
    intro u hu
    rw [(words_spec u hu).2.2 _ hstart]
    exact Bool.false_ne_true
  have hvalue : ∀ negative, numberValue negative (natText n.natAbs) [] none =
      .ok (.int (if negative then -n.natAbs else n.natAbs)) := by
    intro negative
    unfold numberValue
    rw [if_pos ⟨rfl, rfl⟩, if_neg (by omega), natOf_natText]
  unfold literal number
  rw [hwords]
  unfold intText
  by_cases hneg : n < 0
  · simp [hneg, hwhole, fractionPart, exponentPart, hvalue, Except.map, abs_of_neg hneg]
  · have hhead : ¬ (natText n.natAbs).head? = some '-' := by
      rw [hcons]
      intro hminus
      rw [Option.some.inj hminus] at hd
      exact absurd hd (by decide)
    simp [hneg, hhead, hwhole, fractionPart, exponentPart, hvalue, Except.map, abs_of_nonneg (not_lt.mp hneg)]

end Galaxz
