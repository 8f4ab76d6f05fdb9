import Galaxz.Lib.Datetime
import Galaxz.Lib.Digits
import Mathlib.Data.Nat.Find

/-!
# The text of a datetime

`isoformat()` of an aware UTC `datetime`: the fields of its calendar date and of its time of day, padded,
with the fraction of a second only when it is not zero. The order of two such texts, which is what an SQL
comparison of `TEXT` columns sees, is the order of the instants.
-/

namespace Galaxz

/-! ## The calendar -/

/-- The years with a 29 February. -/
def isLeap (y : ℕ) : Prop := y % 4 = 0 ∧ (y % 100 ≠ 0 ∨ y % 400 = 0)

instance (y : ℕ) : Decidable (isLeap y) := by unfold isLeap; infer_instance

/-- The number of days before January 1st of the year. -/
def daysBeforeYear (y : ℕ) : ℕ := (y - 1) * 365 + (y - 1) / 4 - (y - 1) / 100 + (y - 1) / 400

/-- The number of days of the year before the first of the month. -/
def daysBeforeMonth (y m : ℕ) : ℕ :=
  [0, 0, 31, 59, 90, 120, 151, 181, 212, 243, 273, 304, 334].getD m 334 +
    if 2 < m ∧ isLeap y then 1 else 0

/-- The year of a day, counted from `0001-01-01`. -/
def yearOf (n : ℕ) : ℕ := Nat.findGreatest (fun y => daysBeforeYear y ≤ n) (n / 365 + 1)

/-- The day of its year. -/
def dayOfYear (n : ℕ) : ℕ := n - daysBeforeYear (yearOf n)

/-- The month of a day. -/
def monthOf (n : ℕ) : ℕ :=
  Nat.findGreatest (fun m => daysBeforeMonth (yearOf n) m ≤ dayOfYear n) 12

/-- The day of its month, from one on. -/
def dayOf (n : ℕ) : ℕ := dayOfYear n - daysBeforeMonth (yearOf n) (monthOf n) + 1

theorem daysBeforeYear_yearOf (n : ℕ) : daysBeforeYear (yearOf n) ≤ n :=
  Nat.findGreatest_spec (P := fun y => daysBeforeYear y ≤ n) (Nat.zero_le _) (by simp [daysBeforeYear])

theorem yearOf_mono {n m : ℕ} (h : n ≤ m) : yearOf n ≤ yearOf m :=
  Nat.findGreatest_mono (fun _ hy => le_trans hy h) (by omega)

/-- The year after that of a day starts after the day. -/
theorem lt_daysBeforeYear_succ (n : ℕ) : n < daysBeforeYear (yearOf n + 1) := by
  by_contra hle
  have hbound : yearOf n + 1 ≤ n / 365 + 1 := by
    by_contra hlt
    unfold daysBeforeYear at hle
    omega
  exact Nat.findGreatest_is_greatest (P := fun y => daysBeforeYear y ≤ n) (Nat.lt_succ_self _) hbound
    (Nat.not_lt.mp hle)

theorem yearOf_lt {n : ℕ} (h : n < 3652059) : yearOf n < 10000 := by
  by_contra hle
  have hstart := daysBeforeYear_yearOf n
  unfold daysBeforeYear at hstart
  omega

theorem dayOfYear_lt (n : ℕ) : dayOfYear n < 366 := by
  have hstart := daysBeforeYear_yearOf n
  have hnext := lt_daysBeforeYear_succ n
  unfold dayOfYear
  unfold daysBeforeYear at *
  omega

theorem monthOf_le (n : ℕ) : monthOf n ≤ 12 := Nat.findGreatest_le _

theorem daysBeforeMonth_monthOf (n : ℕ) : daysBeforeMonth (yearOf n) (monthOf n) ≤ dayOfYear n :=
  Nat.findGreatest_spec (P := fun m => daysBeforeMonth (yearOf n) m ≤ dayOfYear n) (Nat.zero_le _)
    (by simp [daysBeforeMonth])

theorem monthOf_mono {n m : ℕ} (hyear : yearOf n = yearOf m) (h : n ≤ m) : monthOf n ≤ monthOf m := by
  unfold monthOf dayOfYear
  rw [hyear]
  exact Nat.findGreatest_mono (fun _ hd => le_trans hd (by omega)) le_rfl

theorem daysBeforeMonth_succ (y : ℕ) {m : ℕ} (h : m < 12) :
    daysBeforeMonth y (m + 1) ≤ daysBeforeMonth y m + 31 := by
  -- only February grows in a leap year
  have htable : ∀ m < 12,
      [0, 0, 31, 59, 90, 120, 151, 181, 212, 243, 273, 304, 334].getD (m + 1) 334 +
        (if m = 2 then 1 else 0) ≤
      [0, 0, 31, 59, 90, 120, 151, 181, 212, 243, 273, 304, 334].getD m 334 + 31 := by decide
  have hrow := htable m h
  unfold daysBeforeMonth
  by_cases hleap : isLeap y
  · simp only [hleap, and_true]
    split_ifs at hrow ⊢ <;> omega
  · simp only [hleap, and_false, if_false]
    omega

theorem dayOf_lt (n : ℕ) : dayOf n < 100 := by
  have hmonth := daysBeforeMonth_monthOf n
  have hyear := dayOfYear_lt n
  unfold dayOf
  by_cases hlast : monthOf n < 12
  · have hnext : ¬ daysBeforeMonth (yearOf n) (monthOf n + 1) ≤ dayOfYear n :=
      Nat.findGreatest_is_greatest (P := fun m => daysBeforeMonth (yearOf n) m ≤ dayOfYear n)
        (Nat.lt_succ_self _) (by omega)
    have hsucc := daysBeforeMonth_succ (yearOf n) hlast
    omega
  · have hdec : 334 ≤ daysBeforeMonth (yearOf n) (monthOf n) := by
      have heq : monthOf n = 12 := by have := monthOf_le n; omega
      rw [heq]
      unfold daysBeforeMonth
      simp
    omega

/-- Days are ordered by year, then by month, then by the day of the month. -/
theorem day_lt_iff (n m : ℕ) : n < m ↔ yearOf n < yearOf m ∨ yearOf n = yearOf m ∧
    (monthOf n < monthOf m ∨ monthOf n = monthOf m ∧ dayOf n < dayOf m) := by
  have hn := daysBeforeYear_yearOf n
  have hm := daysBeforeYear_yearOf m
  have hmonth := daysBeforeMonth_monthOf n
  have hmonth' := daysBeforeMonth_monthOf m
  constructor
  · intro hlt
    rcases (yearOf_mono hlt.le).lt_or_eq with hyear | hyear
    · exact Or.inl hyear
    · refine Or.inr ⟨hyear, ?_⟩
      rcases (monthOf_mono hyear hlt.le).lt_or_eq with hmon | hmon
      · exact Or.inl hmon
      · have hY : daysBeforeYear (yearOf n) = daysBeforeYear (yearOf m) := by rw [hyear]
        have hM : daysBeforeMonth (yearOf n) (monthOf n) = daysBeforeMonth (yearOf m) (monthOf m) := by
          rw [hyear, hmon]
        refine Or.inr ⟨hmon, ?_⟩
        unfold dayOf dayOfYear at *
        omega
  · intro h
    by_contra hle
    have hle : m ≤ n := Nat.not_lt.mp hle
    have hyears := yearOf_mono hle
    rcases h with hyear | ⟨hyear, hmon | ⟨hmon, hday⟩⟩
    · omega
    · have := monthOf_mono hyear.symm hle
      omega
    · have hY : daysBeforeYear (yearOf n) = daysBeforeYear (yearOf m) := by rw [hyear]
      have hM : daysBeforeMonth (yearOf n) (monthOf n) = daysBeforeMonth (yearOf m) (monthOf m) := by
        rw [hyear, hmon]
      unfold dayOf dayOfYear at *
      omega

/-! ## `isoformat` -/

/-- The date, as `f"{year:04d}-{month:02d}-{day:02d}"`. -/
def dateText (n : ℕ) : List Char :=
  padded 4 (yearOf n) ++ '-' :: padded 2 (monthOf n) ++ '-' :: padded 2 (dayOf n)

/-- The fraction of a second, if there is one, and the offset. -/
def fractionText (us : ℕ) : List Char :=
  (if us = 0 then [] else '.' :: padded 6 us) ++ "+00:00".toList

/-- The time of day in seconds, and the rest. -/
def clockText (seconds us : ℕ) : List Char :=
  padded 2 (seconds / 3600) ++ ':' :: padded 2 (seconds / 60 % 60) ++ ':' :: padded 2 (seconds % 60) ++
    fractionText us

/-- `t.isoformat()`. -/
def Datetime.isoformat (t : Datetime) : String :=
  String.ofList (dateText (t.micros / 86400000000) ++
    'T' :: clockText (t.micros / 1000000 % 86400) (t.micros % 1000000))

theorem dateText_append_lt_iff {n m : ℕ} (hn : n < 3652059) (hm : m < 3652059) (x y : List Char) :
    dateText n ++ x < dateText m ++ y ↔ n < m ∨ n = m ∧ x < y := by
  have hmonth := monthOf_le n
  have hmonth' := monthOf_le m
  have hdash : ¬ '-' < '-' := by decide
  unfold dateText
  simp only [List.append_assoc, List.cons_append]
  rw [padded_append_lt_iff 4 (yearOf_lt hn) (yearOf_lt hm), List.cons_lt_cons_iff,
    padded_append_lt_iff 2 (by omega) (by omega), List.cons_lt_cons_iff,
    padded_append_lt_iff 2 (dayOf_lt n) (dayOf_lt m)]
  simp only [hdash, false_or, true_and]
  have hiff := day_lt_iff n m
  have hiff' := day_lt_iff m n
  constructor
  · rintro (hyear | ⟨hyear, hmon | ⟨hmon, hday | ⟨hday, hxy⟩⟩⟩)
    · exact Or.inl (hiff.mpr (Or.inl hyear))
    · exact Or.inl (hiff.mpr (Or.inr ⟨hyear, Or.inl hmon⟩))
    · exact Or.inl (hiff.mpr (Or.inr ⟨hyear, Or.inr ⟨hmon, hday⟩⟩))
    · refine Or.inr ⟨?_, hxy⟩
      have hnlt : ¬ n < m := by rw [hiff]; omega
      have hmlt : ¬ m < n := by rw [hiff']; omega
      omega
  · rintro (hlt | ⟨rfl, hxy⟩)
    · rcases hiff.mp hlt with hyear | ⟨hyear, hmon | ⟨hmon, hday⟩⟩
      · exact Or.inl hyear
      · exact Or.inr ⟨hyear, Or.inl hmon⟩
      · exact Or.inr ⟨hyear, Or.inr ⟨hmon, Or.inl hday⟩⟩
    · exact Or.inr ⟨rfl, Or.inr ⟨rfl, Or.inr ⟨rfl, hxy⟩⟩⟩

theorem fractionText_lt_iff {a b : ℕ} (ha : a < 1000000) (hb : b < 1000000) :
    fractionText a < fractionText b ↔ a < b := by
  have hoffset : ¬ "+00:00".toList < "+00:00".toList := by decide
  unfold fractionText
  by_cases ha0 : a = 0
  · by_cases hb0 : b = 0
    · rw [if_pos ha0, if_pos hb0, List.nil_append]
      exact iff_of_false hoffset (by omega)
    · -- the offset sorts before the fraction
      have hlt : "+00:00".toList < '.' :: (padded 6 b ++ "+00:00".toList) :=
        List.cons_lt_cons_iff.mpr (Or.inl (by decide))
      rw [if_pos ha0, if_neg hb0, List.nil_append, List.cons_append]
      exact iff_of_true hlt (by omega)
  · by_cases hb0 : b = 0
    · have hnlt : ¬ '.' :: (padded 6 a ++ "+00:00".toList) < "+00:00".toList := by
        intro hlt
        rcases List.cons_lt_cons_iff.mp hlt with hlt | ⟨heq, -⟩
        · exact absurd hlt (by decide)
        · exact absurd heq (by decide)
      rw [if_neg ha0, if_pos hb0, List.nil_append, List.cons_append]
      exact iff_of_false hnlt (by omega)
    · simp only [ha0, hb0, if_false, List.cons_append, List.cons_lt_cons_iff,
        padded_append_lt_iff 6 ha hb, hoffset, and_false, or_false, true_and]
      have hdot : ¬ '.' < '.' := by decide
      simp only [hdot, false_or]

theorem clockText_lt_iff {a b us us' : ℕ} (ha : a < 86400) (hb : b < 86400) (hus : us < 1000000)
    (hus' : us' < 1000000) : clockText a us < clockText b us' ↔ a < b ∨ a = b ∧ us < us' := by
  have hcolon : ¬ ':' < ':' := by decide
  unfold clockText
  simp only [List.append_assoc, List.cons_append]
  rw [padded_append_lt_iff 2 (by omega) (by omega), List.cons_lt_cons_iff,
    padded_append_lt_iff 2 (by omega) (by omega), List.cons_lt_cons_iff,
    padded_append_lt_iff 2 (by omega) (by omega), fractionText_lt_iff hus hus']
  simp only [hcolon, false_or, true_and]
  omega

/-- The order of the texts is the order of the instants. -/
theorem Datetime.isoformat_lt_iff (a b : Datetime) : a.isoformat < b.isoformat ↔ a < b := by
  have ha := a.micros_lt
  have hb := b.micros_lt
  unfold datetimeBound at ha hb
  have hT : ¬ 'T' < 'T' := by decide
  have hday : ∀ n : ℕ, n < 3652059 * 86400 * 1000000 → n / 86400000000 < 3652059 := by
    intro n hn
    omega
  rw [Datetime.lt_iff, String.lt_iff]
  unfold isoformat
  rw [String.toList_ofList, String.toList_ofList, dateText_append_lt_iff (hday _ ha) (hday _ hb),
    List.cons_lt_cons_iff, clockText_lt_iff (by omega) (by omega) (by omega) (by omega)]
  simp only [hT, false_or, true_and]
  omega

theorem Datetime.isoformat_le_iff (a b : Datetime) : a.isoformat ≤ b.isoformat ↔ a ≤ b := by
  rw [← String.not_lt, Datetime.isoformat_lt_iff, Datetime.lt_iff, Datetime.le_iff, Nat.not_lt]

/-- The text of a datetime determines it. -/
theorem Datetime.isoformat_inj (a b : Datetime) : a.isoformat = b.isoformat ↔ a = b := by
  constructor
  · intro h
    have hab : ¬ a < b := by
      rw [← Datetime.isoformat_lt_iff, h]
      exact String.lt_irrefl _
    have hba : ¬ b < a := by
      rw [← Datetime.isoformat_lt_iff, h]
      exact String.lt_irrefl _
    exact Datetime.ext_micros (Nat.le_antisymm (Nat.not_lt.mp hba) (Nat.not_lt.mp hab))
  · intro h
    rw [h]

end Galaxz
