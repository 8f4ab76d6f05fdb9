import Galaxz.Lib.PyDatetime

/-!
# Other texts of a datetime

`strftime` and SQLite put a space between date and time and leave out the fraction, `pydantic` writes `Z` for
UTC, and `isoformat()` of a naive datetime has no offset. The lemmas say what a comparison between two of
these layouts compares.
-/

namespace Galaxz

/-- `HH:MM:SS`. -/
def secondsText (seconds : ℕ) : List Char :=
  padded 2 (seconds / 3600) ++ ':' :: (padded 2 (seconds / 60 % 60) ++ ':' :: padded 2 (seconds % 60))

/-- `t.strftime("%Y-%m-%d %H:%M:%S")`, which is also what SQLite stores for `datetime('now')`. -/
def Datetime.sqlText (t : Datetime) : String :=
  String.ofList (dateText (t.micros / dayMicros) ++ ' ' :: secondsText (t.micros / 1000000 % 86400))

/-- The offset as `pydantic` writes it, in minutes. -/
def jsonOffset (o : ℤ) : List Char :=
  let seconds := o / 1000000
  if seconds = 0 then ['Z']
  else (if seconds < 0 then '-' else '+') ::
    (padded 2 (seconds.natAbs / 3600) ++ ':' :: padded 2 (seconds.natAbs / 60 % 60))

/-- The text of a datetime in `model_dump_json()`. -/
def PyDatetime.jsonText (t : PyDatetime) : String :=
  String.ofList (dateText (t.wall.micros / dayMicros) ++
    'T' :: (timeText (t.wall.micros % dayMicros) ++ (t.offset.map jsonOffset).getD []))

/-! ## The dates of SQLite -/

/-- How far the calendar of SQLite goes back before the year 1, to Julian day 0. -/
def julianMicros : ℕ := 148731163200000000

/-- The date of a day before the year 1, from its distance to the year `-5199`: the years are those of 13 cycles
of 400 years later, less 5200. -/
def earlyDateText (n : ℕ) : List Char :=
  (if yearOf n < 5200 then '-' :: padded 4 (5200 - yearOf n) else padded 4 0) ++
    '-' :: (padded 2 (monthOf n) ++ '-' :: padded 2 (dayOf n))

/-- The day of an instant, from the year 1 on or before it. -/
def sqliteDateText (day : ℤ) : List Char :=
  if 0 ≤ day then dateText day.toNat else earlyDateText (day + 1899261).toNat

/-- `datetime(..)` of SQLite for an instant before the year 10000, `NULL` before Julian day 0. -/
def sqliteDatetime (micros : ℤ) : Option String :=
  if micros < -(julianMicros : ℤ) then none
  else some (String.ofList (sqliteDateText (micros / dayMicros) ++
    ' ' :: secondsText (micros % dayMicros / 1000000).toNat))

/-! ## Comparisons -/

theorem secondsText_lt_iff {a b : ℕ} (ha : a < 86400) (hb : b < 86400) : secondsText a < secondsText b ↔ a < b := by
  have hcolon : ¬ ':' < ':' := by decide
  have hlast : ∀ n m : ℕ, n < 60 → m < 60 → (padded 2 n < padded 2 m ↔ n < m) := by
    intro n m hn hm
    have hiff := padded_append_lt_iff 2 (a := n) (b := m) (by omega) (by omega) [] []
    rw [List.append_nil, List.append_nil] at hiff
    rw [hiff]
    simp
  unfold secondsText
  rw [padded_append_lt_iff 2 (by omega) (by omega), List.cons_lt_cons_iff, padded_append_lt_iff 2 (by omega) (by omega),
    List.cons_lt_cons_iff, hlast _ _ (Nat.mod_lt _ (by decide)) (Nat.mod_lt _ (by decide))]
  simp only [hcolon, false_or, true_and]
  omega

theorem Datetime.day_lt (t : Datetime) : t.micros / dayMicros < 3652059 := by
  have h := t.micros_lt
  unfold datetimeBound at h
  unfold dayMicros
  omega

/-- Two texts with a space are in the order of the seconds. -/
theorem Datetime.sqlText_le_iff (a b : Datetime) : a.sqlText ≤ b.sqlText ↔ a.micros / 1000000 ≤ b.micros / 1000000 := by
  have hspace : ¬ ' ' < ' ' := by decide
  have hday : ∀ n : ℕ, n / dayMicros = n / 1000000 / 86400 := by
    intro n
    rw [Nat.div_div_eq_div_mul]
    rfl
  rw [← String.not_lt, String.lt_iff]
  unfold sqlText
  rw [String.toList_ofList, String.toList_ofList, dateText_append_lt_iff b.day_lt a.day_lt, List.cons_lt_cons_iff,
    secondsText_lt_iff (Nat.mod_lt _ (by decide)) (Nat.mod_lt _ (by decide)), hday, hday]
  simp only [hspace, false_or, true_and]
  omega

/-- Against a text with a `T`, one with a space is compared by its date alone. -/
theorem Datetime.sqlText_le_T_iff (c : Datetime) {n : ℕ} (hn : n < 3652059) (rest : List Char) :
    c.sqlText ≤ String.ofList (dateText n ++ 'T' :: rest) ↔ c.micros / dayMicros ≤ n := by
  have hspace : ¬ 'T' < ' ' := by decide
  have hne : ¬ 'T' = ' ' := by decide
  rw [← String.not_lt, String.lt_iff]
  unfold sqlText
  rw [String.toList_ofList, String.toList_ofList, dateText_append_lt_iff hn c.day_lt, List.cons_lt_cons_iff]
  simp only [hspace, hne, false_and, or_false, and_false, not_lt]

theorem one_le_yearOf (n : ℕ) : 1 ≤ yearOf n :=
  Nat.le_findGreatest (by omega) (by simp [daysBeforeYear])

/-- A padded number begins with a digit. -/
theorem padded_succ_head (w n : ℕ) : ∃ d < 10, ∃ cs, padded (w + 1) n = digitChar d :: cs := by
  induction w generalizing n with
  | zero => exact ⟨n % 10, Nat.mod_lt _ (by decide), [], rfl⟩
  | succ w ih =>
    obtain ⟨d, hd, cs, hcs⟩ := ih (n / 10)
    refine ⟨d, hd, cs ++ [digitChar (n % 10)], ?_⟩
    rw [padded, hcs]
    rfl

/-- A date before the year 1 comes before every date of Python. -/
theorem earlyDateText_lt (n : ℕ) {m : ℕ} (hm : m < 3652059) (x y : List Char) :
    earlyDateText n ++ x < dateText m ++ y := by
  have hyear := one_le_yearOf m
  have hbound := yearOf_lt hm
  unfold earlyDateText dateText
  by_cases hneg : yearOf n < 5200
  · obtain ⟨d, hd, cs, hcs⟩ := padded_succ_head 3 (yearOf m)
    rw [if_pos hneg, hcs]
    simp only [List.append_assoc, List.cons_append]
    have hdigits : ∀ e < 10, '-' < digitChar e := by decide
    exact List.cons_lt_cons_iff.mpr (Or.inl (hdigits d hd))
  · rw [if_neg hneg]
    simp only [List.append_assoc]
    exact (padded_append_lt_iff 4 (by norm_num) (by omega) _ _).mpr (Or.inl (by omega))

/-- The same for the cut-off of an SQL query. -/
theorem sqliteDatetime_le_T_iff {micros : ℤ} {text : String} (h : sqliteDatetime micros = some text)
    (hmicros : micros < datetimeBound) {n : ℕ} (hn : n < 3652059) (rest : List Char) :
    text ≤ String.ofList (dateText n ++ 'T' :: rest) ↔ micros / dayMicros ≤ n := by
  have hspace : ¬ 'T' < ' ' := by decide
  have hne : ¬ 'T' = ' ' := by decide
  unfold sqliteDatetime at h
  by_cases hearly : micros < -(julianMicros : ℤ)
  · rw [if_pos hearly] at h
    cases h
  rw [if_neg hearly] at h
  rw [← Option.some.inj h, ← String.not_lt, String.lt_iff, String.toList_ofList, String.toList_ofList]
  unfold sqliteDateText
  by_cases hday : 0 ≤ micros / dayMicros
  · have hlt : (micros / dayMicros).toNat < 3652059 := by
      unfold datetimeBound at hmicros
      unfold dayMicros at hday ⊢
      omega
    rw [if_pos hday, dateText_append_lt_iff hn hlt, List.cons_lt_cons_iff]
    simp only [hspace, hne, false_and, or_false, and_false, not_lt]
    omega
  · rw [if_neg hday]
    have hbefore := earlyDateText_lt (micros / dayMicros + 1899261).toNat hn
      (' ' :: secondsText (micros % dayMicros / 1000000).toNat) ('T' :: rest)
    refine iff_of_true (List.lt_asymm hbefore) ?_
    omega

theorem microsText_append_lt_iff {a b : ℕ} (ha : a < 1000000) (hb : b < 1000000) {x : List Char} (hx : PyDatetime.EndsTime x) :
    PyDatetime.microsText a ++ x < PyDatetime.microsText b ↔ a < b := by
  unfold PyDatetime.microsText
  by_cases hazero : a = 0
  · by_cases hbzero : b = 0
    · rw [if_pos hazero, if_pos hbzero, List.nil_append]
      exact iff_of_false (List.not_lt_nil x) (by omega)
    · rw [if_pos hazero, if_neg hbzero, List.nil_append]
      refine iff_of_true ?_ (by omega)
      cases x with
      | nil => exact List.nil_lt_cons _ _
      | cons c cs =>
        refine List.cons_lt_cons_iff.mpr (Or.inl ?_)
        rcases hx c rfl with rfl | rfl
        · decide
        · decide
  · by_cases hbzero : b = 0
    · rw [if_neg hazero, if_pos hbzero]
      exact iff_of_false (List.not_lt_nil _) (by omega)
    · have hiff := padded_append_lt_iff 6 (a := a) (b := b) ha hb x []
      rw [List.append_nil] at hiff
      rw [if_neg hazero, if_neg hbzero, List.cons_append, List.cons_lt_cons_iff, hiff]
      simp

theorem timeText_append_lt_iff {a b : ℕ} (ha : a < dayMicros) (hb : b < dayMicros) {x : List Char}
    (hx : PyDatetime.EndsTime x) : PyDatetime.timeText a ++ x < PyDatetime.timeText b ↔ a < b := by
  have hcolon : ¬ ':' < ':' := by decide
  unfold dayMicros at ha hb
  unfold PyDatetime.timeText
  simp only [List.append_assoc, List.cons_append]
  rw [padded_append_lt_iff 2 (by omega) (by omega), List.cons_lt_cons_iff, padded_append_lt_iff 2 (by omega) (by omega),
    List.cons_lt_cons_iff, padded_append_lt_iff 2 (by omega) (by omega),
    microsText_append_lt_iff (Nat.mod_lt _ (by decide)) (Nat.mod_lt _ (by decide)) hx]
  simp only [hcolon, false_or, true_and]
  omega

/-- Against a naive text, an aware one is compared by what the clock on its wall shows. -/
theorem PyDatetime.naive_isoformat_le_iff (c : Datetime) (t : PyDatetime) :
    PyDatetime.isoformat { wall := c } ≤ t.isoformat ↔ c ≤ t.wall := by
  have hT : ¬ 'T' < 'T' := by decide
  have hoffset := endsTime_offset t.offset
  have hnaive : (PyDatetime.isoformat { wall := c }).toList =
      dateText (c.micros / dayMicros) ++ 'T' :: timeText (c.micros % dayMicros) := by
    unfold isoformat
    rw [String.toList_ofList]
    show _ ++ 'T' :: (timeText _ ++ []) = _
    rw [List.append_nil]
  have haware : t.isoformat.toList = dateText (t.wall.micros / dayMicros) ++
      'T' :: (timeText (t.wall.micros % dayMicros) ++ (t.offset.map offsetText).getD []) := String.toList_ofList
  rw [← String.not_lt, String.lt_iff, hnaive, haware, dateText_append_lt_iff t.wall.day_lt c.day_lt, List.cons_lt_cons_iff,
    timeText_append_lt_iff (Nat.mod_lt _ (by decide)) (Nat.mod_lt _ (by decide)) hoffset, Datetime.le_iff]
  simp only [hT, false_or, true_and]
  unfold dayMicros
  omega

end Galaxz
