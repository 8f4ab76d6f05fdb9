import Galaxz.Lib.Isoformat

/-!
# Naive and aware datetimes

A Python `datetime` has the fields of a wall clock and, if it is aware, an offset from UTC. `isoformat()`
writes both, with an offset of any precision, and `fromisoformat` reads back such a text.
-/

namespace Galaxz

/-- The microseconds of a day. -/
def dayMicros : ℕ := 86400000000

structure PyDatetime where
  /-- What the clock on the wall shows. -/
  wall : Datetime
  /-- The offset of an aware datetime from UTC, in microseconds. -/
  offset : Option ℤ := none
  /-- The offset depends on `fold`, as at the end of summer time. -/
  foldDependent : Bool := false
  offset_lt : ∀ o ∈ offset, -(dayMicros : ℤ) < o ∧ o < dayMicros := by simp
deriving DecidableEq

namespace PyDatetime

/-- `a == b` for datetimes whose `tzinfo` is not the same object: aware ones are compared as instants,
unless the offset of one depends on `fold`. -/
def pyEq (a b : PyDatetime) : Bool :=
  match a.offset, b.offset with
  | none, none => a.wall = b.wall
  | some o, some p =>
    !a.foldDependent && !b.foldDependent && (a.wall.micros : ℤ) - o = (b.wall.micros : ℤ) - p
  | _, _ => false

/-! ## `isoformat` -/

/-- `.ffffff`, if it is not zero. -/
def microsText (us : ℕ) : List Char := if us = 0 then [] else '.' :: padded 6 us

/-- The time of day, from its microseconds. -/
def timeText (us : ℕ) : List Char :=
  padded 2 (us / 3600000000) ++ ':' :: (padded 2 (us / 60000000 % 60) ++ ':' ::
    (padded 2 (us / 1000000 % 60) ++ microsText (us % 1000000)))

/-- `:ss` and a fraction, if the offset has more than minutes. -/
def offsetRest (us : ℕ) : List Char :=
  if us % 60000000 = 0 then [] else ':' :: (padded 2 (us / 1000000 % 60) ++ microsText (us % 1000000))

def offsetText (o : ℤ) : List Char :=
  (if o < 0 then '-' else '+') :: (padded 2 (o.natAbs / 3600000000) ++ ':' ::
    (padded 2 (o.natAbs / 60000000 % 60) ++ offsetRest o.natAbs))

/-- `t.isoformat()`. -/
def isoformat (t : PyDatetime) : String :=
  String.ofList (dateText (t.wall.micros / dayMicros) ++
    'T' :: (timeText (t.wall.micros % dayMicros) ++ (t.offset.map offsetText).getD []))

/-! ## `fromisoformat` -/

/-- A number of `w` digits, and what follows it. -/
def readField (w : ℕ) (cs : List Char) : ℕ × List Char := (natOf (cs.take w), cs.drop w)

def readMicros : List Char → ℕ × List Char
  | '.' :: cs => readField 6 cs
  | cs => (0, cs)

/-- The day of a date. -/
def readDate (cs : List Char) : ℕ × List Char :=
  let year := readField 4 cs
  let month := readField 2 (year.2.drop 1)
  let day := readField 2 (month.2.drop 1)
  (daysBeforeYear year.1 + daysBeforeMonth year.1 month.1 + day.1 - 1, day.2)

def readTime (cs : List Char) : ℕ × List Char :=
  let hour := readField 2 cs
  let minute := readField 2 (hour.2.drop 1)
  let second := readField 2 (minute.2.drop 1)
  let micros := readMicros second.2
  (hour.1 * 3600000000 + minute.1 * 60000000 + second.1 * 1000000 + micros.1, micros.2)

/-- `:ss` and a fraction, if they are there. -/
def readRest : List Char → ℕ
  | ':' :: cs =>
    let second := readField 2 cs
    second.1 * 1000000 + (readMicros second.2).1
  | _ => 0

def readOffset : List Char → Option ℤ
  | [] => none
  | sign :: cs =>
    let hour := readField 2 cs
    let minute := readField 2 (hour.2.drop 1)
    let us : ℤ := hour.1 * 3600000000 + minute.1 * 60000000 + readRest minute.2
    some (if sign = '-' then -us else us)

/-- `datetime.fromisoformat(text)`, for a text of the shape that `isoformat()` writes. -/
def fromisoformat (text : String) : Except PyError PyDatetime :=
  let date := readDate text.toList
  let time := readTime (date.2.drop 1)
  let offset := readOffset time.2
  if h : date.1 * dayMicros + time.1 < datetimeBound ∧
      ∀ o ∈ offset, -(dayMicros : ℤ) < o ∧ o < dayMicros then
    .ok { wall := ⟨date.1 * dayMicros + time.1, h.1⟩, offset, offset_lt := h.2 }
  else .error (.valueError "Invalid isoformat string")

/-! ## The round trip -/

theorem length_padded (w n : ℕ) : (padded w n).length = w := by
  induction w generalizing n with
  | zero => rfl
  | succ w ih => rw [padded, List.length_append, ih, List.length_singleton]

theorem natOf_padded {w n : ℕ} (h : n < 10 ^ w) : natOf (padded w n) = n := by
  induction w generalizing n with
  | zero =>
    rw [pow_zero] at h
    have hzero : n = 0 := by omega
    rw [hzero]
    rfl
  | succ w ih =>
    rw [pow_succ] at h
    rw [padded, natOf_concat, ih (by omega), digitVal_digitChar (by omega)]
    omega

/-- A padded number reads back. -/
theorem readField_padded {w n : ℕ} (h : n < 10 ^ w) (cs : List Char) :
    readField w (padded w n ++ cs) = (n, cs) := by
  unfold readField
  rw [List.take_left' (length_padded w n), List.drop_left' (length_padded w n), natOf_padded h]

theorem readDate_dateText {n : ℕ} (h : n < 3652059) (cs : List Char) :
    readDate (dateText n ++ cs) = (n, cs) := by
  have hyear := yearOf_lt h
  have hmonth := monthOf_le n
  have hday := dayOf_lt n
  have hstart := daysBeforeYear_yearOf n
  have hmonths := daysBeforeMonth_monthOf n
  unfold readDate dateText
  simp only [List.append_assoc, List.cons_append]
  rw [readField_padded (by omega)]
  simp only [List.drop_succ_cons, List.drop_zero]
  rw [readField_padded (by omega)]
  simp only [List.drop_succ_cons, List.drop_zero]
  rw [readField_padded (by omega)]
  unfold dayOf dayOfYear at *
  refine Prod.ext ?_ rfl
  show daysBeforeYear (yearOf n) + daysBeforeMonth (yearOf n) (monthOf n) +
    (n - daysBeforeYear (yearOf n) - daysBeforeMonth (yearOf n) (monthOf n) + 1) - 1 = n
  omega

/-- What follows a time of day: the offset, or nothing. -/
def EndsTime (cs : List Char) : Prop := ∀ c ∈ cs.head?, c = '+' ∨ c = '-'

theorem readMicros_microsText {us : ℕ} (h : us < 1000000) {cs : List Char} (hcs : EndsTime cs) :
    readMicros (microsText us ++ cs) = (us, cs) := by
  unfold microsText
  split_ifs with hzero
  · rw [hzero, List.nil_append]
    cases cs with
    | nil => rfl
    | cons c cs =>
      have hdot : c ≠ '.' := by
        rcases hcs c rfl with hc | hc
        · rw [hc]
          decide
        · rw [hc]
          decide
      unfold readMicros
      split
      · next heq => exact absurd (List.cons.inj heq).1 hdot
      · rfl
  · exact readField_padded (by omega) cs

theorem readTime_timeText {us : ℕ} (h : us < dayMicros) {cs : List Char} (hcs : EndsTime cs) :
    readTime (timeText us ++ cs) = (us, cs) := by
  unfold dayMicros at h
  unfold readTime timeText
  simp only [List.append_assoc, List.cons_append]
  rw [readField_padded (by omega)]
  simp only [List.drop_succ_cons, List.drop_zero]
  rw [readField_padded (by omega)]
  simp only [List.drop_succ_cons, List.drop_zero]
  rw [readField_padded (by omega), readMicros_microsText (by omega) hcs]
  refine Prod.ext ?_ rfl
  show us / 3600000000 * 3600000000 + us / 60000000 % 60 * 60000000 + us / 1000000 % 60 * 1000000 +
    us % 1000000 = us
  omega

theorem readRest_offsetRest (us : ℕ) : readRest (offsetRest us) = us % 60000000 := by
  unfold offsetRest
  split_ifs with hzero
  · rw [hzero]
    rfl
  · have hmicros := @readMicros_microsText (us % 1000000) (by omega) [] (by simp [EndsTime])
    rw [List.append_nil] at hmicros
    rw [readRest, readField_padded (by omega), hmicros]
    show us / 1000000 % 60 * 1000000 + us % 1000000 = us % 60000000
    omega

theorem readOffset_offsetText {o : ℤ} (h : -(dayMicros : ℤ) < o ∧ o < dayMicros) :
    readOffset (offsetText o) = some o := by
  unfold dayMicros at h
  unfold readOffset offsetText
  simp only
  rw [readField_padded (by omega)]
  simp only [List.drop_succ_cons, List.drop_zero]
  rw [readField_padded (by omega), readRest_offsetRest]
  by_cases hneg : o < 0
  · simp only [hneg, if_true]
    congr 1
    omega
  · have hsign : ¬ '+' = '-' := by decide
    simp only [hneg, if_false, hsign]
    congr 1
    omega

theorem endsTime_offset (o : Option ℤ) : EndsTime ((o.map offsetText).getD []) := by
  cases o with
  | none => simp [EndsTime]
  | some o =>
    intro c hc
    have hhead : (if o < 0 then '-' else '+') = c := Option.some.inj hc
    rw [← hhead]
    split_ifs
    · exact Or.inr rfl
    · exact Or.inl rfl

/-- A datetime from the day, the time of day and the offset that were read. -/
theorem fromisoformat_eq {text : String} {t : PyDatetime} {cs ds : List Char}
    (hdate : readDate text.toList = (t.wall.micros / dayMicros, cs))
    (htime : readTime (cs.drop 1) = (t.wall.micros % dayMicros, ds)) (hoffset : readOffset ds = t.offset) :
    fromisoformat text = .ok { t with foldDependent := false } := by
  have hsum : t.wall.micros / dayMicros * dayMicros + t.wall.micros % dayMicros = t.wall.micros :=
    Nat.div_add_mod' _ _
  obtain ⟨⟨micros, hmicros⟩, offset, fold, hoffset_lt⟩ := t
  simp only at hdate htime hoffset hsum
  unfold fromisoformat
  simp only [hdate, htime, hoffset, hsum]
  exact dif_pos ⟨hmicros, hoffset_lt⟩

/-- A datetime reads back from its text, with the same offset. -/
theorem fromisoformat_isoformat (t : PyDatetime) :
    fromisoformat t.isoformat = .ok { t with foldDependent := false } := by
  have hwall := t.wall.micros_lt
  have hday : t.wall.micros / dayMicros < 3652059 := by
    unfold dayMicros
    unfold datetimeBound at hwall
    omega
  have htime : t.wall.micros % dayMicros < dayMicros := Nat.mod_lt _ (by decide)
  have hoffset : readOffset ((t.offset.map offsetText).getD []) = t.offset := by
    cases ho : t.offset with
    | none => rfl
    | some o => exact readOffset_offsetText (t.offset_lt o ho)
  have hdate : readDate t.isoformat.toList = (t.wall.micros / dayMicros,
      'T' :: (timeText (t.wall.micros % dayMicros) ++ (t.offset.map offsetText).getD [])) := by
    unfold isoformat
    rw [String.toList_ofList]
    exact readDate_dateText hday _
  refine fromisoformat_eq hdate ?_ hoffset
  rw [List.drop_succ_cons, List.drop_zero]
  exact readTime_timeText htime (endsTime_offset t.offset)

end PyDatetime

end Galaxz
