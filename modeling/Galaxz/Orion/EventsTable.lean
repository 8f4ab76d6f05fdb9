import Galaxz.Lib.DatetimeTexts
import Galaxz.Lib.JsonReader
import Galaxz.Orion.FeedbackLog

/-!
# `orion/storage/event_log.py`: the table `events`

`append_event` writes the events of the agents, with the time that SQLite puts in. The two JSON columns are
kept by their values.
-/

namespace Galaxz

/-- `outcome` of a `RefineryFeedbackEvent`. -/
inductive RefineryOutcome where
  | success
  | fail
  | partlySuccess
deriving DecidableEq

def RefineryOutcome.value : RefineryOutcome → String
  | .success => "success"
  | .fail => "fail"
  | .partlySuccess => "partial"

structure RefineryFeedbackEvent where
  taskId : Uuid
  agentId : String
  skill : String
  outcome : RefineryOutcome
  confidenceScore : PyFloat
  humanVerified : Bool := false
  humanCorrection : Option String := none
  latencyMs : ℕ
  confidence_ok : InUnit confidenceScore
deriving DecidableEq

/-- A row of `events`. -/
structure EventsRow where
  id : String
  taskId : String
  skillId : String
  agentId : String
  domain : String
  outcome : String
  confidence : PyFloat
  humanVerified : Bool := false
  payload : Option JsonValue := none
  result : Option JsonValue := none
  humanCorrection : Option String := none
  latencyMs : Option ℤ := none
  createdAt : String
  quarantined : Bool := false
  exportedAt : Option JsonValue := none
deriving DecidableEq

namespace EventsTable

/-- `_derive_domain`. -/
def deriveDomain (skillId agentId : String) : Option String :=
  if agentId = "rigel" ∨ "rigel.".toList.isPrefixOf skillId.toList then some "rigel"
  else if agentId = "vega" ∨ "qa.".toList.isPrefixOf skillId.toList then some "vega"
  else none

/-- `INSERT OR IGNORE`: not a second row with the id, and no `nan`, which SQLite takes for `NULL`. -/
def insertOrIgnore (row : EventsRow) (rows : List EventsRow) : List EventsRow :=
  if rows.any (·.id = row.id) ∨ row.confidence = .nan then rows else rows ++ [row]

/-- `INSERT OR IGNORE` of many rows. -/
def insertAll (rows table : List EventsRow) : List EventsRow :=
  rows.foldl (fun table row => insertOrIgnore row table) table

/-- The row of an event; `now` is the clock of SQLite. -/
def eventRow (event : RefineryFeedbackEvent) (quarantined : Bool) (now : Datetime) : Except PyError EventsRow := do
  let latencyMs ← Sqlite.bindInt event.latencyMs
  .ok {
    id := event.taskId.text
    taskId := event.taskId.text
    skillId := event.skill
    agentId := event.agentId
    domain := (deriveDomain event.skill event.agentId).getD "__unknown__"
    outcome := event.outcome.value
    confidence := event.confidenceScore
    humanVerified := event.humanVerified
    humanCorrection := event.humanCorrection
    latencyMs
    createdAt := now.sqlText
    quarantined }

/-- `append_event`. -/
def appendEvent (event : RefineryFeedbackEvent) (quarantined : Bool) (now : Datetime) (rows : List EventsRow) :
    Except PyError String × List EventsRow :=
  match eventRow event quarantined now with
  | .error e => (.error e, rows)
  | .ok row => (.ok event.taskId.text, insertOrIgnore row rows)

/-! ## The ids -/

theorem nodup_insertOrIgnore (row : EventsRow) {table : List EventsRow} (h : (table.map (·.id)).Nodup) :
    ((insertOrIgnore row table).map (·.id)).Nodup := by
  unfold insertOrIgnore
  split_ifs with hskip
  · exact h
  · rw [not_or, Bool.not_eq_true, List.any_eq_false] at hskip
    rw [List.map_append, List.nodup_append]
    refine ⟨h, List.nodup_singleton _, ?_⟩
    rintro id hid _ hrow rfl
    obtain ⟨other, hother, rfl⟩ := List.mem_map.mp hid
    exact hskip.1 other hother (decide_eq_true (List.mem_singleton.mp hrow))

theorem nodup_insertAll (rows : List EventsRow) {table : List EventsRow} (h : (table.map (·.id)).Nodup) :
    ((insertAll rows table).map (·.id)).Nodup := by
  induction rows generalizing table with
  | nil => exact h
  | cons row rows ih => exact ih (nodup_insertOrIgnore row h)

/-- The rows that can be stored: those with a number for their confidence. -/
def storable (rows : List EventsRow) : List EventsRow := rows.filter fun row => row.confidence ≠ .nan

theorem storable_append (rows rows' : List EventsRow) : storable (rows ++ rows') = storable rows ++ storable rows' :=
  List.filter_append rows rows'

theorem insertAll_append (rows rows' table : List EventsRow) :
    insertAll (rows ++ rows') table = insertAll rows' (insertAll rows table) := List.foldl_append

/-- The first row with an id is the one that is kept. -/
theorem find_insertOrIgnore (row : EventsRow) (table : List EventsRow) (id : String) :
    (insertOrIgnore row table).find? (·.id = id) = (table ++ storable [row]).find? (·.id = id) := by
  unfold insertOrIgnore storable
  by_cases hnan : row.confidence = .nan
  · rw [if_pos (Or.inr hnan), List.filter_cons_of_neg (by simpa using hnan), List.filter_nil, List.append_nil]
  · rw [List.filter_cons_of_pos (by simpa using hnan), List.filter_nil]
    split_ifs with hskip
    · obtain ⟨other, hother, hid⟩ := List.any_eq_true.mp (hskip.resolve_right hnan)
      rw [List.find?_append]
      by_cases hrow : row.id = id
      · have hfound : (table.find? (·.id = id)).isSome := by
          rw [List.find?_isSome]
          exact ⟨other, hother, by simpa [hrow] using hid⟩
        rw [Option.or_of_isSome hfound]
      · rw [List.find?_cons_of_neg (by simpa using hrow), List.find?_nil, Option.or_none]
    · rfl

theorem find_insertAll (rows table : List EventsRow) (id : String) :
    (insertAll rows table).find? (·.id = id) = (table ++ storable rows).find? (·.id = id) := by
  induction rows generalizing table with
  | nil =>
    rw [storable, List.filter_nil, List.append_nil]
    rfl
  | cons row rows ih =>
    show (insertAll rows (insertOrIgnore row table)).find? _ = _
    have hcons : storable (row :: rows) = storable [row] ++ storable rows := storable_append [row] rows
    rw [ih, List.find?_append, find_insertOrIgnore, hcons, ← List.append_assoc, ← List.find?_append]

/-- There is a row with the id if there was one, or one comes that can be stored. -/
theorem exists_insertAll {rows table : List EventsRow} {id : String} :
    (∃ row ∈ insertAll rows table, row.id = id) ↔ ∃ row ∈ table ++ storable rows, row.id = id := by
  have hfound := congrArg Option.isSome (find_insertAll rows table id)
  rw [Bool.eq_iff_iff, List.find?_isSome, List.find?_isSome] at hfound
  simpa using hfound

/-- A row is found by its id. -/
theorem find_of_mem {table : List EventsRow} (h : (table.map (·.id)).Nodup) {row : EventsRow} (hrow : row ∈ table) :
    table.find? (·.id = row.id) = some row := by
  induction table with
  | nil => cases hrow
  | cons other table ih =>
    rw [List.map_cons, List.nodup_cons] at h
    rcases List.mem_cons.mp hrow with rfl | hmem
    · exact List.find?_cons_of_pos (by simp)
    · have hne : other.id ≠ row.id := fun heq => h.1 (heq ▸ List.mem_map_of_mem hmem)
      rw [List.find?_cons_of_neg (by simpa using hne)]
      exact ih h.2 hmem

/-- Rows whose ids are there, or which cannot be stored, change nothing. -/
theorem insertAll_eq_self {rows table : List EventsRow}
    (h : ∀ row ∈ rows, row.confidence = .nan ∨ ∃ other ∈ table, other.id = row.id) : insertAll rows table = table := by
  induction rows with
  | nil => rfl
  | cons row rows ih =>
    have hskip : insertOrIgnore row table = table := by
      unfold insertOrIgnore
      rcases h row List.mem_cons_self with hnan | ⟨other, hother, hid⟩
      · rw [if_pos (Or.inr hnan)]
      · rw [if_pos (Or.inl (List.any_eq_true.mpr ⟨other, hother, by simpa using hid⟩))]
    show insertAll rows (insertOrIgnore row table) = table
    rw [hskip]
    exact ih fun other hother => h other (List.mem_cons_of_mem row hother)

end EventsTable

end Galaxz
