import Galaxz.Andromeda.TaskLog
import Galaxz.Orion.Migration
import Galaxz.Scorecards.Metrics

/-!
# Windows of time

`build_scorecards`, `get_window` and `throughput` look back from the present by a comparison of texts, and each
table has writers with a layout of their own. A window should have the rows whose instants are in it.
-/

namespace Galaxz

/-! ## The times of rows -/

/-- What a writer puts into the text of a time. -/
structure WrittenTime where
  /-- What the clock on the wall shows. -/
  wall : Datetime
  /-- Its offset from UTC. -/
  offset : ℤ := 0
  /-- Only whole seconds, and a space behind the date. -/
  bySqlite : Bool := false

namespace WrittenTime

def instant (t : WrittenTime) : ℤ := t.wall.micros - t.offset

/-- At the cut-off or after it, to the resolution of the text. -/
def Since (t : WrittenTime) (cutoff : ℤ) : Prop :=
  if t.bySqlite then cutoff / 1000000 ≤ t.instant / 1000000 else cutoff ≤ t.instant

instance (t : WrittenTime) (cutoff : ℤ) : Decidable (t.Since cutoff) := by unfold Since; infer_instance

end WrittenTime

/-- The rows of `events`, by their writers. -/
inductive EventsWritten (host : MigrationHost) : EventsRow → WrittenTime → Prop where
  | appended {event : RefineryFeedbackEvent} {quarantined : Bool} {now : Datetime} {row : EventsRow}
      (h : EventsTable.eventRow event quarantined now = .ok row) : EventsWritten host row { wall := now, bySqlite := true }
  | migrated {stem line : List Char} {event : MigratedEvent} {now : Datetime} {row : EventsRow} {text : String}
      {t : PyDatetime} {o : ℤ} (hline : Migration.lineEvent host stem line = .ok (some event))
      (h : Migration.eventRow now event = .ok row) (htext : event.createdAt = some (.ofChars text.toList))
      (hlayout : text = t.jsonText ∨ text = t.isoformat) (ho : t.offset = some o) :
      EventsWritten host row { wall := t.wall, offset := o }
  | undated {stem line : List Char} {event : MigratedEvent} {now : Datetime} {row : EventsRow}
      (hline : Migration.lineEvent host stem line = .ok (some event)) (h : Migration.eventRow now event = .ok row)
      (htext : event.createdAt = none) : EventsWritten host row { wall := now }
  | updated {row row' : EventsRow} {stamp : WrittenTime} (h : EventsWritten host row stamp)
      (hsame : row'.createdAt = row.createdAt) : EventsWritten host row' stamp

/-- The rows of `feedback_events`. -/
inductive FeedbackWritten : FeedbackEventRow → WrittenTime → Prop where
  | appended {eventId : Uuid} {event : FeedbackEvent} {row : FeedbackEventRow} {o : ℤ}
      (h : EventLog.newRow eventId event = .ok row) (ho : event.timestamp.offset = some o) :
      FeedbackWritten row { wall := event.timestamp.wall, offset := o }

/-- The rows of `tasks`. -/
inductive TaskWritten : TaskLogRow → WrittenTime → Prop where
  | written {task : LoggedTask} {row : TaskLogRow} {t : PyDatetime} {o : ℤ} (h : TaskLog.taskRow task = .ok row)
      (htext : task.issuedAt = t.isoformat) (ho : t.offset = some o) : TaskWritten row { wall := t.wall, offset := o }

/-! ## What a window includes -/

/-- A row that a writer stored, in its table, which the query takes if its time fits. -/
inductive TimedRow (host : MigrationHost) where
  | event (table : List EventsRow) (row : EventsRow) (stamp : WrittenTime) (skillId : Option String) (mem : row ∈ table)
      (written : EventsWritten host row stamp) (active : row.quarantined = false)
      (asked : skillId.all (row.skillId = ·) = true)
  | feedback (calls : List FeedbackAction) (row : FeedbackEventRow) (stamp : WrittenTime)
      (mem : row ∈ (FeedbackLog.run calls).rows) (written : FeedbackWritten row stamp) (active : row.quarantined = false)
  | task (table : List TaskLogRow) (row : TaskLogRow) (stamp : WrittenTime) (mem : row ∈ table)
      (written : TaskWritten row stamp) (counted : TaskLog.countedStatuses.contains row.status = true)

namespace TimedRow

variable {host : MigrationHost}

def stamp : TimedRow host → WrittenTime
  | event _ _ stamp _ _ _ _ _ => stamp
  | feedback _ _ stamp _ _ _ => stamp
  | task _ _ stamp _ _ _ => stamp

/-- The start of a window: `build_scorecards` takes days, the others take hours. -/
def cutoff (now : Datetime) (window : ℕ) : TimedRow host → ℤ
  | event .. => now.micros - window * 86400000000
  | feedback .. => now.micros - window * 3600000000
  | task .. => now.micros - window * 3600000000

/-- The query returns, and takes the row. -/
def Included (now : Datetime) (window : ℕ) : TimedRow host → Prop
  | event table row _ skillId _ _ _ _ => ∃ rows, Scorecards.fetchedRows window skillId now table = .ok rows ∧ row ∈ rows
  | feedback calls row _ _ _ _ =>
    ∃ events, EventLog.getWindow row.taskCategory window now (FeedbackLog.run calls).rows = .ok events ∧
      ∃ event ∈ events, EventLog.rowToEvent row = .ok event
  | task table row _ _ _ _ => row ∈ TaskLog.throughputRows now window table

/-- An event that is included is counted in one scorecard, with all others of its skill and agent. -/
def CountedOnce (now : Datetime) (window : ℕ) : TimedRow host → Prop
  | event table row _ skillId _ _ _ _ => ∀ rows, Scorecards.fetchedRows window skillId now table = .ok rows → row ∈ rows →
      ∀ issuer, ∃ cards card, Scorecards.buildScorecards window issuer skillId now table = .ok cards ∧
        cards.filter (fun c => c.skillId = row.skillId && c.agentId = row.agentId) = [card] ∧
        card.tasks = rows.countP fun r => r.skillId = row.skillId && r.agentId = row.agentId
  | feedback .. => True
  | task .. => True

/-- The window has the row exactly if the instant of the row is in it. -/
structure SelectedByInstant (r : TimedRow host) (now : Datetime) (window : ℕ) : Prop where
  included_iff : r.Included now window ↔ r.stamp.Since (r.cutoff now window)
  once : r.CountedOnce now window

end TimedRow

/-! ## When the texts are in the order of the instants -/

namespace WrittenTime

/-- No cut-off after the instant is on the date of the text or before it, and none up to the instant is on a later
date. -/
def FitsDate (t : WrittenTime) (cutoff : ℤ) : Prop :=
  ¬ (t.instant < cutoff ∧ cutoff / dayMicros ≤ t.wall.micros / dayMicros) ∧
    ¬ (cutoff ≤ t.instant ∧ (t.wall.micros / dayMicros : ℕ) < cutoff / dayMicros)

/-- The cut-off is not between the instant and what the clock on the wall shows. -/
def FitsWall (t : WrittenTime) (cutoff : ℤ) : Prop :=
  ¬ (t.instant < cutoff ∧ cutoff ≤ t.wall.micros) ∧ ¬ (cutoff ≤ t.instant ∧ t.wall.micros < cutoff)

instance (t : WrittenTime) (cutoff : ℤ) : Decidable (t.FitsDate cutoff) := by unfold FitsDate; infer_instance

instance (t : WrittenTime) (cutoff : ℤ) : Decidable (t.FitsWall cutoff) := by unfold FitsWall; infer_instance

end WrittenTime

/-- The cut-off can be written, unless the row is before it anyway, and it fits the text of the row. -/
def TimedRow.Fits {host : MigrationHost} (cutoff : ℤ) : TimedRow host → Prop
  | event _ _ stamp _ _ _ _ _ =>
    if stamp.bySqlite then 0 ≤ cutoff
    else if 0 ≤ cutoff then stamp.FitsDate cutoff else stamp.instant < cutoff
  | feedback _ _ stamp _ _ _ => if 0 ≤ cutoff then stamp.FitsWall cutoff else stamp.instant < cutoff
  | task _ _ stamp _ _ _ => -(julianMicros : ℤ) ≤ cutoff ∧ stamp.FitsDate cutoff

instance {host : MigrationHost} (cutoff : ℤ) : (r : TimedRow host) → Decidable (r.Fits cutoff)
  | .event .. => by unfold TimedRow.Fits; infer_instance
  | .feedback .. => by unfold TimedRow.Fits; infer_instance
  | .task .. => by unfold TimedRow.Fits; infer_instance

end Galaxz
