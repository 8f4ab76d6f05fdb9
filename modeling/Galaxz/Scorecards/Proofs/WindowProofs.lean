import Galaxz.Orion.Proofs.FeedbackProofs
import Galaxz.Orion.Proofs.MigrationProofs
import Galaxz.Scorecards.TimeWindows

/-!
# When a window has the rows of its time

Each comparison of texts is one of numbers: of seconds where SQLite wrote both texts, of days where a text with a
space meets one with a `T`, and of the clocks on the walls in `feedback_events`. The instants are in that order unless
the cut-off falls between.
-/

namespace Galaxz

open JsonReader

/-! ## The start of a window -/

/-- The start of a window is a datetime if it is not before the year 1. -/
theorem window_start {now : Datetime} {length : ℤ} (hlength : 0 ≤ length) (h : 0 ≤ now.micros - length) :
    ∃ cutoff, now.add (-length) = .ok cutoff ∧ (cutoff.micros : ℤ) = now.micros - length := by
  have hnow := now.micros_lt
  have hbounds : 0 ≤ now.micros + -length ∧ now.micros + -length < datetimeBound := by omega
  unfold Datetime.add
  rw [dif_pos hbounds]
  refine ⟨_, rfl, ?_⟩
  dsimp only
  omega

theorem window_start_ok {now cutoff : Datetime} {length : ℤ} (h : now.add (-length) = .ok cutoff) :
    (cutoff.micros : ℤ) = now.micros - length := by
  have heq := Datetime.add_eq_ok_iff.mp h
  omega

/-! ## `build_scorecards` -/

/-- The text of a time in a row of `events`. -/
def EventsText (row : EventsRow) (stamp : WrittenTime) : Prop :=
  (stamp.bySqlite = true ∧ stamp.offset = 0 ∧ row.createdAt = stamp.wall.sqlText) ∨
    (stamp.bySqlite = false ∧
      ∃ rest, row.createdAt = String.ofList (dateText (stamp.wall.micros / dayMicros) ++ 'T' :: rest))

theorem eventRow_createdAt {now : Datetime} {event : MigratedEvent} {row : EventsRow}
    (h : Migration.eventRow now event = .ok row) :
    row.createdAt = String.ofList (event.createdAt.getD (.ofChars now.isoformat.toList)).chars := by
  obtain ⟨id, -, h⟩ := except_bind_eq_ok_iff.mp h
  obtain ⟨skill, -, h⟩ := except_bind_eq_ok_iff.mp h
  obtain ⟨created, hcreated, h⟩ := except_bind_eq_ok_iff.mp h
  obtain ⟨exported, -, h⟩ := except_bind_eq_ok_iff.mp h
  rw [← Except.ok.inj h]
  exact (Migration.bindText_ok_iff.mp hcreated).2.symm

theorem EventsWritten.text {host : MigrationHost} {row : EventsRow} {stamp : WrittenTime} (h : EventsWritten host row stamp) :
    EventsText row stamp := by
  induction h with
  | appended h =>
    obtain ⟨latency, -, h⟩ := except_bind_eq_ok_iff.mp h
    rw [← Except.ok.inj h]
    exact Or.inl ⟨rfl, rfl, rfl⟩
  | migrated hline h htext hlayout ho =>
    have hcreated := eventRow_createdAt h
    rw [htext, Option.getD_some, JsonWriter.chars_ofChars, String.ofList_toList] at hcreated
    rcases hlayout with rfl | rfl
    · exact Or.inr ⟨rfl, _, hcreated⟩
    · exact Or.inr ⟨rfl, _, hcreated⟩
  | undated hline h htext =>
    have hcreated := eventRow_createdAt h
    rw [htext, Option.getD_none, JsonWriter.chars_ofChars, String.ofList_toList] at hcreated
    exact Or.inr ⟨rfl, _, hcreated⟩
  | updated h hsame ih =>
    unfold EventsText
    rw [hsame]
    exact ih

/-- The comparison of the query, in numbers. -/
def WrittenTime.Selects (t : WrittenTime) (cutoff : ℤ) : Prop :=
  if t.bySqlite then cutoff / 1000000 ≤ t.instant / 1000000 else cutoff / dayMicros ≤ t.wall.micros / dayMicros

theorem sqlText_le_iff_selects {row : EventsRow} {stamp : WrittenTime} (h : EventsText row stamp) (cutoff : Datetime) :
    cutoff.sqlText ≤ row.createdAt ↔ stamp.Selects cutoff.micros := by
  unfold WrittenTime.Selects
  rcases h with ⟨hsqlite, hoffset, htext⟩ | ⟨hsqlite, rest, htext⟩
  · rw [htext, Datetime.sqlText_le_iff, if_pos hsqlite, WrittenTime.instant, hoffset]
    omega
  · rw [htext, Datetime.sqlText_le_T_iff _ stamp.wall.day_lt, hsqlite, if_neg Bool.false_ne_true]
    omega

theorem fetchedRows_ok_iff {days : ℕ} {skillId : Option String} {now : Datetime} {table rows : List EventsRow} :
    Scorecards.fetchedRows days skillId now table = .ok rows ↔
      ∃ cutoff, now.add (-(days * 86400000000)) = .ok cutoff ∧ Scorecards.scoredRows cutoff skillId table = rows := by
  unfold Scorecards.fetchedRows
  rw [except_bind_eq_ok_iff]
  simp only [Except.ok.injEq]

theorem event_included_iff {host : MigrationHost} {days : ℕ} {skillId : Option String} {now : Datetime}
    {table : List EventsRow} {row : EventsRow} {stamp : WrittenTime} (mem : row ∈ table)
    (written : EventsWritten host row stamp) (active : row.quarantined = false)
    (asked : skillId.all (row.skillId = ·) = true) :
    (∃ rows, Scorecards.fetchedRows days skillId now table = .ok rows ∧ row ∈ rows) ↔
      0 ≤ (now.micros - days * 86400000000 : ℤ) ∧ stamp.Selects (now.micros - days * 86400000000) := by
  have hmem : ∀ cutoff : Datetime, row ∈ Scorecards.scoredRows cutoff skillId table ↔ stamp.Selects cutoff.micros := by
    intro cutoff
    unfold Scorecards.scoredRows
    rw [List.mem_filter, ← sqlText_le_iff_selects written.text]
    simp [mem, active, asked]
  constructor
  · rintro ⟨rows, hrows, hrow⟩
    obtain ⟨cutoff, hcutoff, rfl⟩ := fetchedRows_ok_iff.mp hrows
    have hstart := window_start_ok hcutoff
    have hselects := (hmem cutoff).mp hrow
    rw [hstart] at hselects
    exact ⟨by omega, hselects⟩
  · rintro ⟨hstart, hselects⟩
    obtain ⟨cutoff, hcutoff, hmicros⟩ := window_start (by omega) hstart
    refine ⟨_, fetchedRows_ok_iff.mpr ⟨cutoff, hcutoff, rfl⟩, (hmem cutoff).mpr ?_⟩
    rwa [hmicros]

/-! ## The scorecards of a window -/

theorem filter_key_of_mem {κ α : Type} [DecidableEq κ] {items : List (κ × α)} (h : (items.map (·.1)).Nodup)
    {k : κ} {x : α} (hmem : (k, x) ∈ items) : items.filter (·.1 = k) = [(k, x)] := by
  induction items with
  | nil => cases hmem
  | cons e items ih =>
    rw [List.map_cons, List.nodup_cons] at h
    rcases List.mem_cons.mp hmem with rfl | htail
    · rw [List.filter_cons_of_pos (by simp), List.filter_eq_nil_iff.mpr]
      intro d hd hk
      exact h.1 (List.mem_map.mpr ⟨d, hd, by simpa using hk⟩)
    · have hne : e.1 ≠ k := by
        rintro rfl
        exact h.1 (List.mem_map.mpr ⟨_, htail, rfl⟩)
      rw [List.filter_cons_of_neg (by simpa using hne)]
      exact ih h.2 htail

/-- The events of a skill and an agent are collected under their key. -/
theorem get_groups (rows : List EventsRow) {row : EventsRow} (hrow : row ∈ rows) :
    ((rows.map Scorecards.scoredEvent).foldl Scorecards.addToGroup {}).get (row.skillId, row.agentId) =
      some ((rows.map Scorecards.scoredEvent).filter fun e => (e.skillId, e.agentId) = (row.skillId, row.agentId)) := by
  have hget := Mapping.get_foldl_append (fun e : ScoredEvent => (e.skillId, e.agentId)) id
    (rows.map Scorecards.scoredEvent) {} (row.skillId, row.agentId)
  have hempty : ({} : Mapping (String × String) (List ScoredEvent)).get (row.skillId, row.agentId) = none := rfl
  rw [hempty, if_neg] at hget
  · rw [Option.getD_none, List.nil_append, List.map_id] at hget
    exact hget
  · rintro ⟨-, hnone⟩
    exact hnone (Scorecards.scoredEvent row) (List.mem_map_of_mem hrow) rfl

/-- An event that the query returns is counted in one scorecard. -/
theorem countedOnce_of_mem {days : ℕ} {skillId : Option String} {now : Datetime} {table rows : List EventsRow}
    (hrows : Scorecards.fetchedRows days skillId now table = .ok rows) {row : EventsRow} (hrow : row ∈ rows)
    (issuer : String) : ∃ cards card, Scorecards.buildScorecards days issuer skillId now table = .ok cards ∧
      cards.filter (fun c => c.skillId = row.skillId && c.agentId = row.agentId) = [card] ∧
      card.tasks = rows.countP fun r => r.skillId = row.skillId && r.agentId = row.agentId := by
  obtain ⟨cutoff, hcutoff, -⟩ := fetchedRows_ok_iff.mp hrows
  let groups := (rows.map Scorecards.scoredEvent).foldl Scorecards.addToGroup {}
  let sorted := groups.items.insertionSort fun a b => Scorecards.keyLe a.1 b.1
  let events := (rows.map Scorecards.scoredEvent).filter fun e => (e.skillId, e.agentId) = (row.skillId, row.agentId)
  have hmem : ((row.skillId, row.agentId), events) ∈ sorted :=
    (List.mem_insertionSort _).mpr ((Mapping.get_eq_some_iff groups _ _).mp (get_groups rows hrow))
  have hnodup : (sorted.map (·.1)).Nodup :=
    ((List.perm_insertionSort _ groups.items).map _).nodup_iff.mpr groups.keys_nodup
  have hbuild : Scorecards.buildScorecards days issuer skillId now table =
      .ok (sorted.map (Scorecards.scorecard issuer days now cutoff)) := by
    unfold Scorecards.buildScorecards
    rw [hrows, hcutoff]
    rfl
  refine ⟨_, Scorecards.scorecard issuer days now cutoff ((row.skillId, row.agentId), events), hbuild, ?_, ?_⟩
  · have hkey : ∀ group : (String × String) × List ScoredEvent,
        (decide ((Scorecards.scorecard issuer days now cutoff group).skillId = row.skillId) &&
          decide ((Scorecards.scorecard issuer days now cutoff group).agentId = row.agentId)) =
            decide (group.1 = (row.skillId, row.agentId)) := by
      intro group
      rw [Bool.eq_iff_iff, Bool.and_eq_true, decide_eq_true_eq, decide_eq_true_eq, decide_eq_true_eq, Prod.ext_iff]
      exact Iff.rfl
    rw [List.filter_map]
    simp only [Function.comp_def, hkey]
    rw [filter_key_of_mem hnodup hmem]
    rfl
  · show (List.filter _ (List.map _ rows)).length = _
    rw [List.countP_eq_length_filter, List.filter_map, List.length_map]
    congr 2
    funext r
    show decide ((r.skillId, r.agentId) = _) = _
    rw [Bool.eq_iff_iff, Bool.and_eq_true, decide_eq_true_eq, decide_eq_true_eq, decide_eq_true_eq, Prod.ext_iff]

/-! ## `get_window` -/

theorem newRow_timestamp {eventId : Uuid} {event : FeedbackEvent} {row : FeedbackEventRow}
    (h : EventLog.newRow eventId event = .ok row) : row.timestamp = event.timestamp.isoformat := by
  obtain ⟨output, -, h⟩ := except_bind_eq_ok_iff.mp h
  obtain ⟨correction, -, h⟩ := except_bind_eq_ok_iff.mp h
  obtain ⟨latency, -, h⟩ := except_bind_eq_ok_iff.mp h
  split_ifs at h
  rw [← Except.ok.inj h]

theorem rowToEvent_timestamp {row : FeedbackEventRow} {event : FeedbackEvent}
    (h : EventLog.rowToEvent row = .ok event) : PyDatetime.fromisoformat row.timestamp = .ok event.timestamp := by
  obtain ⟨outcome, -, h⟩ := except_bind_eq_ok_iff.mp h
  obtain ⟨output, -, h⟩ := except_bind_eq_ok_iff.mp h
  obtain ⟨correction, -, h⟩ := except_bind_eq_ok_iff.mp h
  obtain ⟨timestamp, htimestamp, h⟩ := except_bind_eq_ok_iff.mp h
  obtain ⟨taskId, -, h⟩ := except_bind_eq_ok_iff.mp h
  split_ifs at h
  rw [← Except.ok.inj h]
  exact htimestamp

/-- A row that was appended is read with the clock of its event. -/
theorem wall_of_rowToEvent {row : FeedbackEventRow} {t : PyDatetime} (htext : row.timestamp = t.isoformat)
    {event : FeedbackEvent} (h : EventLog.rowToEvent row = .ok event) : event.timestamp.wall = t.wall := by
  have hread := rowToEvent_timestamp h
  rw [htext, PyDatetime.fromisoformat_isoformat] at hread
  rw [← Except.ok.inj hread]

theorem FeedbackWritten.text {row : FeedbackEventRow} {stamp : WrittenTime} (h : FeedbackWritten row stamp) :
    ∃ t : PyDatetime, row.timestamp = t.isoformat ∧ t.wall = stamp.wall := by
  obtain ⟨h, ho⟩ := h
  exact ⟨_, newRow_timestamp h, rfl⟩

theorem feedback_included_iff {calls : List FeedbackAction} {row : FeedbackEventRow} {stamp : WrittenTime} {hours : ℕ}
    {now : Datetime} (mem : row ∈ (FeedbackLog.run calls).rows) (written : FeedbackWritten row stamp)
    (active : row.quarantined = false) :
    (∃ events, EventLog.getWindow row.taskCategory hours now (FeedbackLog.run calls).rows = .ok events ∧
        ∃ event ∈ events, EventLog.rowToEvent row = .ok event) ↔
      0 ≤ (now.micros - hours * 3600000000 : ℤ) ∧ (now.micros - hours * 3600000000 : ℤ) ≤ stamp.wall.micros := by
  have hlog := FeedbackLog.run_written calls
  obtain ⟨t, htext, hwall⟩ := written.text
  rw [← hwall]
  constructor
  · rintro ⟨events, hevents, event, hevent, hread⟩
    obtain ⟨cutoff, hcutoff, hselected⟩ := EventLog.readWindow_ok hevents
    have hstart := window_start_ok hcutoff
    -- the event may be that of another row, which has the same time then
    obtain ⟨row', hrow', hread'⟩ := mem_of_mapM_ok hselected hevent
    obtain ⟨hmem', hwindow⟩ := EventLog.mem_selectRows.mp hrow'
    obtain ⟨eventId', event', hwritten'⟩ := hlog row' hmem'
    have htext' : row'.timestamp = event'.timestamp.isoformat := by
      have htimestamp := newRow_timestamp hwritten'
      exact htimestamp
    have hsame : event'.timestamp.wall = t.wall :=
      (wall_of_rowToEvent htext' hread').symm.trans (wall_of_rowToEvent htext hread)
    unfold EventLog.inWindow at hwindow
    rw [Bool.and_eq_true, decide_eq_true_eq, htext', PyDatetime.naive_isoformat_le_iff, hsame, Datetime.le_iff] at hwindow
    have hle := hwindow.2
    omega
  · rintro ⟨hstart, hle⟩
    obtain ⟨cutoff, hcutoff, hmicros⟩ := window_start (by omega) hstart
    obtain ⟨events, hevents⟩ := FeedbackLog.readWindow_of_written hlog (·.taskCategory) row.taskCategory hcutoff
    obtain ⟨event, hread, -⟩ := FeedbackLog.read_of_written hlog mem
    have hwindow : EventLog.inWindow (·.taskCategory) row.taskCategory cutoff row = true := by
      have hle' : cutoff.micros ≤ t.wall.micros := by omega
      unfold EventLog.inWindow
      rw [active, htext]
      simp [PyDatetime.naive_isoformat_le_iff, Datetime.le_iff, hle']
    exact ⟨events, hevents, event, EventLog.mem_readWindow hevents hcutoff mem hwindow hread, hread⟩

/-! ## `throughput` -/

theorem TaskWritten.text {row : TaskLogRow} {stamp : WrittenTime} (h : TaskWritten row stamp) :
    ∃ rest, row.issuedAt = some (String.ofList (dateText (stamp.wall.micros / dayMicros) ++ 'T' :: rest)) := by
  obtain ⟨h, htext, ho⟩ := h
  obtain ⟨payload, -, h⟩ := except_bind_eq_ok_iff.mp h
  obtain ⟨result, -, h⟩ := except_bind_eq_ok_iff.mp h
  obtain ⟨retryCount, -, h⟩ := except_bind_eq_ok_iff.mp h
  rw [← Except.ok.inj h]
  dsimp only
  rw [htext]
  exact ⟨_, rfl⟩

theorem task_included_iff {table : List TaskLogRow} {row : TaskLogRow} {stamp : WrittenTime} {hours : ℕ} {now : Datetime}
    (mem : row ∈ table) (written : TaskWritten row stamp)
    (counted : TaskLog.countedStatuses.contains row.status = true) : row ∈ TaskLog.throughputRows now hours table ↔
      -(julianMicros : ℤ) ≤ now.micros - hours * 3600000000 ∧
        (now.micros - hours * 3600000000 : ℤ) / dayMicros ≤ stamp.wall.micros / dayMicros := by
  obtain ⟨rest, htext⟩ := written.text
  have hnow := now.micros_lt
  unfold TaskLog.throughputRows
  rw [List.mem_filter, counted, Bool.and_true]
  unfold TaskLog.issuedSince
  rw [htext]
  by_cases hearly : (now.micros - hours * 3600000000 : ℤ) < -(julianMicros : ℤ)
  · have hnone : sqliteDatetime (now.micros - hours * 3600000000) = none := if_pos hearly
    rw [hnone]
    constructor
    · rintro ⟨-, hfalse⟩
      cases hfalse
    · rintro ⟨hle, -⟩
      omega
  · have hsome : sqliteDatetime (now.micros - hours * 3600000000) = some _ := if_neg hearly
    rw [hsome]
    dsimp only
    rw [decide_eq_true_eq, sqliteDatetime_le_T_iff hsome (by omega) stamp.wall.day_lt]
    constructor
    · rintro ⟨-, hle⟩
      exact ⟨by omega, by exact_mod_cast hle⟩
    · rintro ⟨-, hle⟩
      exact ⟨mem, by exact_mod_cast hle⟩

/-! ## Instants -/

namespace WrittenTime

variable {t : WrittenTime} {cutoff : ℤ}

/-- A comparison of days is one of instants where the cut-off fits. -/
theorem fitsDate_iff : t.FitsDate cutoff ↔ (cutoff / dayMicros ≤ t.wall.micros / dayMicros ↔ cutoff ≤ t.instant) := by
  unfold FitsDate
  rw [not_and, not_and]
  constructor
  · rintro ⟨hafter, hbefore⟩
    constructor
    · intro hdate
      by_contra hlt
      exact hafter (by omega) hdate
    · intro hinstant
      have := hbefore hinstant
      push_cast at this
      omega
  · intro hiff
    refine ⟨fun hlt hdate => ?_, fun hinstant hlater => ?_⟩
    · have := hiff.mp hdate
      omega
    · have := hiff.mpr hinstant
      push_cast at hlater
      omega

theorem fitsWall_iff : t.FitsWall cutoff ↔ (cutoff ≤ t.wall.micros ↔ cutoff ≤ t.instant) := by
  unfold FitsWall
  omega

/-- Whole seconds are in the order of the instants. -/
theorem selects_sqlite (h : t.bySqlite = true) : t.Selects cutoff ↔ t.Since cutoff := by
  unfold Selects Since
  rw [if_pos h, if_pos h]

end WrittenTime

namespace TimedRow

variable {host : MigrationHost}

theorem countedOnce (r : TimedRow host) (now : Datetime) (window : ℕ) : r.CountedOnce now window := by
  cases r with
  | event table row stamp skillId mem written active asked =>
    exact fun rows hrows hrow issuer => countedOnce_of_mem hrows hrow issuer
  | feedback => trivial
  | task => trivial

theorem event_fits_iff {table : List EventsRow} {row : EventsRow} {stamp : WrittenTime} {skillId : Option String}
    (mem : row ∈ table) (written : EventsWritten host row stamp) (active : row.quarantined = false)
    (asked : skillId.all (row.skillId = ·) = true) (cutoff : ℤ) :
    (0 ≤ cutoff ∧ stamp.Selects cutoff ↔ stamp.Since cutoff) ↔
      (event table row stamp skillId mem written active asked).Fits cutoff := by
  unfold Fits
  dsimp only
  rcases written.text with ⟨hsqlite, hoffset, -⟩ | ⟨hsqlite, -⟩
  · -- an instant of SQLite is not before the year 1
    have hinstant : 0 ≤ stamp.instant := by
      unfold WrittenTime.instant
      omega
    rw [if_pos hsqlite, WrittenTime.selects_sqlite hsqlite]
    constructor
    · intro hiff
      by_contra hstart
      have hsince : stamp.Since cutoff := by
        unfold WrittenTime.Since
        rw [if_pos hsqlite]
        omega
      exact hstart (hiff.mpr hsince).1
    · exact fun hstart => and_iff_right hstart
  · have hnot : ¬ stamp.bySqlite = true := by simp [hsqlite]
    unfold WrittenTime.Selects WrittenTime.Since
    rw [if_neg hnot, if_neg hnot, if_neg hnot]
    by_cases hstart : 0 ≤ cutoff
    · rw [if_pos hstart, WrittenTime.fitsDate_iff]
      simp only [hstart, true_and]
    · rw [if_neg hstart]
      simp only [hstart, false_and, false_iff, not_le]

theorem feedback_fits_iff {calls : List FeedbackAction} {row : FeedbackEventRow} {stamp : WrittenTime}
    (mem : row ∈ (FeedbackLog.run calls).rows) (written : FeedbackWritten row stamp) (active : row.quarantined = false)
    (cutoff : ℤ) : (0 ≤ cutoff ∧ cutoff ≤ stamp.wall.micros ↔ stamp.Since cutoff) ↔
      (feedback calls row stamp mem written active : TimedRow host).Fits cutoff := by
  have hsince : stamp.Since cutoff ↔ cutoff ≤ stamp.instant := by
    obtain ⟨hrow, ho⟩ := written
    exact Iff.rfl
  unfold Fits
  dsimp only
  rw [hsince]
  by_cases hstart : 0 ≤ cutoff
  · rw [if_pos hstart, WrittenTime.fitsWall_iff]
    simp only [hstart, true_and]
  · rw [if_neg hstart]
    simp only [hstart, false_and, false_iff, not_le]

theorem task_fits_iff {table : List TaskLogRow} {row : TaskLogRow} {stamp : WrittenTime} (mem : row ∈ table)
    (written : TaskWritten row stamp) (counted : TaskLog.countedStatuses.contains row.status = true) (cutoff : ℤ) :
    (-(julianMicros : ℤ) ≤ cutoff ∧ cutoff / dayMicros ≤ stamp.wall.micros / dayMicros ↔ stamp.Since cutoff) ↔
      (task table row stamp mem written counted : TimedRow host).Fits cutoff := by
  obtain ⟨hsince, hinstant⟩ : (stamp.Since cutoff ↔ cutoff ≤ stamp.instant) ∧ -(dayMicros : ℤ) < stamp.instant := by
    obtain ⟨hrow, htext, ho⟩ := written
    rename_i t o
    have hoffset := t.offset_lt o ho
    refine ⟨Iff.rfl, ?_⟩
    unfold WrittenTime.instant
    dsimp only
    omega
  unfold Fits
  dsimp only
  rw [hsince, WrittenTime.fitsDate_iff]
  by_cases hstart : -(julianMicros : ℤ) ≤ cutoff
  · simp only [hstart, true_and]
  · have hlt : cutoff ≤ stamp.instant := by
      unfold julianMicros at hstart
      unfold dayMicros at hinstant
      omega
    simp only [hstart, false_and, hlt, iff_true]

/-- A window has a row of a writer exactly if its instant is in it, unless the start of the window comes between the
instant and the text. -/
theorem selectedByInstant_iff (r : TimedRow host) (now : Datetime) (window : ℕ) :
    r.SelectedByInstant now window ↔ r.Fits (r.cutoff now window) := by
  have hsplit : r.SelectedByInstant now window ↔
      (r.Included now window ↔ r.stamp.Since (r.cutoff now window)) :=
    ⟨fun h => h.included_iff, fun h => ⟨h, r.countedOnce now window⟩⟩
  rw [hsplit]
  cases r with
  | event table row stamp skillId mem written active asked =>
    have hincluded : (event table row stamp skillId mem written active asked).Included now window ↔ _ :=
      event_included_iff mem written active asked
    rw [hincluded]
    exact event_fits_iff mem written active asked _
  | feedback calls row stamp mem written active =>
    have hincluded : (feedback calls row stamp mem written active : TimedRow host).Included now window ↔ _ :=
      feedback_included_iff mem written active
    rw [hincluded]
    exact feedback_fits_iff mem written active _
  | task table row stamp mem written counted =>
    have hincluded : (task table row stamp mem written counted : TimedRow host).Included now window ↔ _ :=
      task_included_iff mem written counted
    rw [hincluded]
    exact task_fits_iff mem written counted _

end TimedRow

/-! ## A task of the day before -/

theorem utc_offset_lt : ∀ o ∈ some (0 : ℤ), -(dayMicros : ℤ) < o ∧ o < dayMicros := by
  intro o ho
  rw [Option.mem_some_iff] at ho
  unfold dayMicros
  omega

/-- The start of 1 May 2026. -/
def dayStart : PyDatetime where
  wall := Datetime.ofMicros (739736 * 86400000000)
  offset := some 0
  offset_lt := utc_offset_lt

/-- A task that was issued then. -/
def earlyTask : LoggedTask :=
  { taskId := "t", taskType := "qa", status := "complete", issuedAt := dayStart.isoformat }

def earlyRow : TaskLogRow :=
  { taskId := "t", taskType := "qa", status := "complete", issuedAt := some dayStart.isoformat }

theorem earlyRow_written : TaskWritten earlyRow { wall := dayStart.wall, offset := 0 } := by
  have hrow : TaskLog.taskRow earlyTask = .ok earlyRow := rfl
  exact .written hrow rfl rfl

theorem half_inUnit : InUnit (.finite (1 / 2)) := by decide +kernel

/-- An event that SQLite dates ten hours later. -/
def recentEvent : RefineryFeedbackEvent where
  taskId := 1
  agentId := "rigel"
  skill := "rigel.skill.scaffold"
  outcome := .success
  confidenceScore := .finite (1 / 2)
  latencyMs := 40
  confidence_ok := half_inUnit

def recentWall : Datetime := Datetime.ofMicros (739736 * 86400000000 + 36000000000)

def recentRow : EventsRow where
  id := Uuid.text 1
  taskId := Uuid.text 1
  skillId := "rigel.skill.scaffold"
  agentId := "rigel"
  domain := "rigel"
  outcome := "success"
  confidence := .finite (1 / 2)
  latencyMs := some 40
  createdAt := recentWall.sqlText

theorem recentRow_written : EventsWritten Migration.plainHost recentRow { wall := recentWall, bySqlite := true } := by
  have hrow : EventsTable.eventRow recentEvent false recentWall = .ok recentRow := by rfl
  exact .appended hrow

/-- The same time, two hours ahead of UTC. -/
def eastern : PyDatetime where
  wall := Datetime.ofMicros (739736 * 86400000000 + 43200000000)
  offset := some 7200000000
  offset_lt := by
    intro o ho
    rw [Option.mem_some_iff] at ho
    unfold dayMicros
    omega

theorem noKeys_wellFormed : PyData.wellFormedItems [] = true := rfl

theorem none_wellFormed :
    ∀ c ∈ (none : Option (List (PyKey × PyData))), PyData.wellFormedItems c = true := by simp

/-- Feedback that was given then. -/
def easternFeedback : FeedbackEvent where
  taskId := 2
  taskCategory := "qa"
  agentId := "vega"
  outcome := .completed
  confidenceScore := .finite (1 / 2)
  inputHash := ""
  agentOutput := []
  latencyMs := 3
  timestamp := eastern
  confidence_ok := half_inUnit
  output_keys := noKeys_wellFormed
  correction_keys := none_wellFormed

def easternRow : FeedbackEventRow where
  id := Uuid.text 3
  taskId := Uuid.text 2
  taskCategory := "qa"
  agentId := "vega"
  outcome := OutcomeType.value .completed
  confidenceScore := .finite (1 / 2)
  inputHash := ""
  agentOutput := .dict []
  humanCorrection := none
  latencyMs := 3
  timestamp := eastern.isoformat

theorem easternRow_written : FeedbackWritten easternRow { wall := eastern.wall, offset := 7200000000 } := by
  have hrow : EventLog.newRow 3 easternFeedback = .ok easternRow := by rfl
  exact .appended hrow rfl

theorem easternRow_mem : easternRow ∈ (FeedbackLog.run [.append 3 easternFeedback]).rows := by
  decide +kernel

/-- A row of each table. -/
def timedRows : List (TimedRow Migration.plainHost) :=
  [.event [recentRow] recentRow { wall := recentWall, bySqlite := true } none List.mem_cons_self recentRow_written rfl rfl,
    .feedback [.append 3 easternFeedback] easternRow { wall := eastern.wall, offset := 7200000000 } easternRow_mem
      easternRow_written rfl,
    .task [earlyRow] earlyRow { wall := dayStart.wall, offset := 0 } List.mem_cons_self earlyRow_written rfl]

/-- At noon of that day, windows of 24 days and of 24 hours have the rows; forty days later they do not. -/
theorem timedRows_selectedByInstant : ∀ r ∈ timedRows,
    (r.SelectedByInstant (Datetime.ofMicros (739736 * 86400000000 + 43200000000)) 24 ∧
      r.Included (Datetime.ofMicros (739736 * 86400000000 + 43200000000)) 24) ∧
    (r.SelectedByInstant (Datetime.ofMicros (739776 * 86400000000)) 24 ∧
      ¬ r.Included (Datetime.ofMicros (739776 * 86400000000)) 24) := by
  have hfits : ∀ r ∈ timedRows,
      (r.Fits (r.cutoff (Datetime.ofMicros (739736 * 86400000000 + 43200000000)) 24) ∧
        r.stamp.Since (r.cutoff (Datetime.ofMicros (739736 * 86400000000 + 43200000000)) 24)) ∧
      (r.Fits (r.cutoff (Datetime.ofMicros (739776 * 86400000000)) 24) ∧
        ¬ r.stamp.Since (r.cutoff (Datetime.ofMicros (739776 * 86400000000)) 24)) := by
    decide +kernel
  intro r hr
  obtain ⟨⟨hfits₁, hsince⟩, hfits₂, hbefore⟩ := hfits r hr
  have hnoon := (TimedRow.selectedByInstant_iff r _ 24).mpr hfits₁
  have hlater := (TimedRow.selectedByInstant_iff r _ 24).mpr hfits₂
  exact ⟨⟨hnoon, hnoon.included_iff.mpr hsince⟩, hlater, fun h => hbefore (hlater.included_iff.mp h)⟩

/-- At noon of the next day, the last 24 hours include the task, which is 36 hours old. -/
theorem old_task_included : ¬ (TimedRow.task [earlyRow] earlyRow { wall := dayStart.wall, offset := 0 }
    List.mem_cons_self earlyRow_written rfl : TimedRow Migration.plainHost).SelectedByInstant
      (Datetime.ofMicros (739737 * 86400000000 + 43200000000)) 24 := by
  intro h
  have hincluded : earlyRow ∈ TaskLog.throughputRows (Datetime.ofMicros (739737 * 86400000000 + 43200000000)) 24 [earlyRow] :=
    (task_included_iff List.mem_cons_self earlyRow_written rfl).mpr (by decide)
  have hsince := h.included_iff.mp hincluded
  exact absurd (show (_ : ℤ) ≤ _ from hsince) (by decide)

end Galaxz
