import Galaxz.Lib.DatetimeTexts
import Galaxz.Lib.Keyed
import Galaxz.Lib.Machine
import Galaxz.Lib.Sqlite
import Mathlib.Data.List.Sort

/-!
# `agents/andromeda/task_log.py`: `TaskLog`

The table of tasks has a row for each status of a task. Its rows are kept in the order of their `rowid`: a row
that is updated keeps its place. The two JSON columns are kept by the values of their texts.
-/

namespace Galaxz

/-- A row of `tasks`. -/
structure TaskLogRow where
  taskId : String
  taskType : String
  assignedAgent : Option String := none
  status : String
  confidence : Option PyFloat := none
  retryCount : ℤ := 0
  escalatedToHuman : Bool := false
  failureReason : Option String := none
  issuedAt : Option String := none
  completedAt : Option String := none
  payload : Option PyDict := some []
  result : Option PyDict := some []
deriving DecidableEq

/-- What `write` reads of a state. -/
structure LoggedTask where
  taskId : String
  taskType : String
  assignedAgent : Option String := none
  status : String
  confidence : Option PyFloat := none
  retryCount : ℕ := 0
  escalatedToHuman : Bool := false
  failureReason : Option String := none
  issuedAt : String
  completedAt : Option String := none
  payload : PyDict := []
  result : Option PyDict := none

namespace TaskLogRow

/-- The primary key. -/
def key (row : TaskLogRow) : String × String := (row.taskId, row.status)

end TaskLogRow

/-- A call that writes. -/
inductive TaskLogAction where
  | write (task : LoggedTask)
  | updateStatus (taskId taskType status : String) (now : Datetime)

namespace TaskLog

/-- `ON CONFLICT(task_id, status) DO UPDATE`. -/
def upsert (row : TaskLogRow) (rows : List TaskLogRow) : List TaskLogRow := Keyed.put TaskLogRow.key row rows

/-- The row of `write`. SQLite stores `nan` as `NULL`. -/
def taskRow (task : LoggedTask) : Except PyError TaskLogRow := do
  let payload ← Sqlite.dumpJson (some task.payload)
  let result ← Sqlite.dumpJson (some (task.result.getD []))
  let retryCount ← Sqlite.bindInt task.retryCount
  .ok {
    taskId := task.taskId
    taskType := task.taskType
    assignedAgent := task.assignedAgent
    status := task.status
    confidence := task.confidence.filter (· ≠ .nan)
    retryCount
    escalatedToHuman := task.escalatedToHuman
    failureReason := task.failureReason
    issuedAt := some task.issuedAt
    completedAt := task.completedAt
    payload
    result }

/-- The row of `update_status`, which leaves `issued_at` empty. -/
def statusRow (taskId taskType status : String) (now : Datetime) : TaskLogRow :=
  { taskId, taskType, status, completedAt := some now.isoformat }

/-- The row that a call writes. -/
def rowOf : TaskLogAction → Except PyError TaskLogRow
  | .write task => taskRow task
  | .updateStatus taskId taskType status now => .ok (statusRow taskId taskType status now)

/-- `write` and `update_status`. -/
def call (action : TaskLogAction) (rows : List TaskLogRow) : Except PyError Unit × List TaskLogRow :=
  match rowOf action with
  | .error e => (.error e, rows)
  | .ok row => (.ok (), upsert row rows)

/-- The table after the calls. -/
def run (actions : List TaskLogAction) : List TaskLogRow := Machine.run (fun a rows => (call a rows).2) actions []

/-- `get`: `ORDER BY rowid DESC LIMIT 1`. -/
def get (taskId : String) (rows : List TaskLogRow) : Option TaskLogRow := rows.reverse.find? (·.taskId = taskId)

/-! ## `throughput` -/

/-- The statuses that `throughput` counts. -/
def countedStatuses : List String := ["complete", "failed", "escalated"]

/-- `issued_at >= datetime('now', '-H hours')`, which is not true where one side is `NULL`. -/
def issuedSince (now : Datetime) (hours : ℕ) (row : TaskLogRow) : Bool :=
  match row.issuedAt, sqliteDatetime (now.micros - hours * 3600000000) with
  | some issuedAt, some cutoff => cutoff ≤ issuedAt
  | _, _ => false

/-- The rows that `throughput` selects. -/
def throughputRows (now : Datetime) (hours : ℕ) (rows : List TaskLogRow) : List TaskLogRow :=
  rows.filter fun row => issuedSince now hours row && countedStatuses.contains row.status

/-- `throughput`: the rows of each bucket are counted. `bucketOf` is `strftime('%Y-%m-%dT%H:00', issued_at)`. -/
def throughput (bucketOf : TaskLogRow → Option String) (now : Datetime) (hours : ℕ) (rows : List TaskLogRow) :
    List (Option String × ℕ) :=
  let selected := throughputRows now hours rows
  let buckets := (selected.map bucketOf).dedup.insertionSort fun a b => a.getD "" ≤ b.getD ""
  buckets.map fun bucket => (bucket, selected.countP (bucketOf · = bucket))

end TaskLog

end Galaxz
