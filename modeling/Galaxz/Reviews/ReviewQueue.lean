import Galaxz.Lib.Datetime
import Galaxz.Lib.Sqlite
import Galaxz.Lib.Table

/-!
# `agents/andromeda/review_queue.py`: `ReviewQueue`

The table of escalated work and the methods that write it or look a task up. A JSON or time text is
represented by the value it denotes.
-/

namespace Galaxz

/-- A `status` of the queue. -/
inductive ReviewStatus where
  | pending
  | approved
  | accepted
  | rejected
deriving DecidableEq

/-- A row of `review_queue`; `id` is its place in the table. -/
structure ReviewRow where
  taskId : String
  taskType : Option String
  skillId : String
  agentId : String
  agentOutput : PyDict
  slaDeadline : Option Datetime
  confidence : RealCell
  payload : PyDict
  status : ReviewStatus := .pending
  createdAt : Datetime
  reviewedAt : Option Datetime := none
  reviewerNotes : Option String := none
  goalId : Option String
  plannedTaskId : Option String
  attemptId : Option String
deriving DecidableEq

/-- The arguments of `enqueue`. -/
structure ReviewItem where
  taskId : String
  taskType : PyValue
  confidence : PyValue
  payload : PyDict
  skillId : String := ""
  agentId : PyValue := .str ""
  agentOutput : Option PyDict := none
  slaDeadline : Option Datetime := none
  goalId : Option String := none
  plannedTaskId : Option String := none
  attemptId : Option String := none
deriving DecidableEq

/-- The queue. -/
structure ReviewQueue where
  rows : List ReviewRow
  taskIds_nodup : (rows.map (·.taskId)).Nodup
deriving DecidableEq

namespace ReviewQueue

/-- A queue without rows. -/
def empty : ReviewQueue := ⟨[], List.nodup_nil⟩

/-- `json.dumps(items)`. -/
def dumps (items : PyDict) : Except PyError PyDict :=
  if PyValue.serializableItems items then .ok items
  else .error (.typeError "Object is not JSON serializable")

/-- The row that `enqueue` inserts; `agent_id` takes no `NULL`. -/
def newRow (host : Host) (item : ReviewItem) (now : Datetime) : Except PyError (Option ReviewRow) := do
  let agentOutput ← dumps (item.agentOutput.getD [])
  let payload ← dumps item.payload
  let taskType ← Sqlite.bindText host item.taskType
  let agentId ← Sqlite.bindText host item.agentId
  let confidence ← Sqlite.bindReal host item.confidence
  return agentId.map fun agentId => {
    taskId := item.taskId
    taskType := taskType
    skillId := item.skillId
    agentId := agentId
    agentOutput := agentOutput
    slaDeadline := item.slaDeadline
    confidence := confidence
    payload := payload
    createdAt := now
    goalId := item.goalId
    plannedTaskId := item.plannedTaskId
    attemptId := item.attemptId }

/-- `INSERT OR IGNORE`: a row that violates a constraint is dropped. -/
def insertOrIgnore (queue : ReviewQueue) (row : ReviewRow) : ReviewQueue :=
  if h : ∀ r ∈ queue.rows, r.taskId ≠ row.taskId then
    ⟨queue.rows ++ [row], Table.nodup_append _ queue.taskIds_nodup h⟩
  else queue

/-- `enqueue`. -/
def enqueue (host : Host) (item : ReviewItem) (now : Datetime) (queue : ReviewQueue) :
    Except PyError ReviewQueue := do
  match ← newRow host item now with
  | none => return queue
  | some row => return queue.insertOrIgnore row

/-- `get_by_task_id`. -/
def getByTaskId (queue : ReviewQueue) (taskId : String) : Option ReviewRow :=
  queue.rows.find? (·.taskId = taskId)

/-- The columns that `resolve` sets. -/
def decided (status : ReviewStatus) (notes : Option String) (now : Datetime) (r : ReviewRow) : ReviewRow :=
  { r with status, reviewedAt := some now, reviewerNotes := notes }

/-- `resolve`. -/
def resolve (taskId : String) (status : ReviewStatus) (notes : Option String) (now : Datetime)
    (queue : ReviewQueue) : ReviewQueue where
  rows := Table.updateWhere (fun r => r.taskId = taskId ∧ r.status = .pending)
    (decided status notes now) queue.rows
  taskIds_nodup := by
    rw [Table.map_updateWhere (f := decided status notes now) (fun r : ReviewRow => r.taskId)
      fun _ => rfl]
    exact queue.taskIds_nodup

variable {host : Host} {item : ReviewItem} {now : Datetime} {queue queue' : ReviewQueue}

/-- The row has the evidence of the item. -/
theorem newRow_ok {row : ReviewRow} (h : newRow host item now = .ok (some row)) :
    row.taskId = item.taskId ∧ row.attemptId = item.attemptId ∧
      row.agentOutput = item.agentOutput.getD [] ∧ row.plannedTaskId = item.plannedTaskId := by
  unfold newRow at h
  obtain ⟨agentOutput, houtput, h⟩ := (except_bind_ok_iff _ _ _).mp h
  obtain ⟨payload, -, h⟩ := (except_bind_ok_iff _ _ _).mp h
  obtain ⟨taskType, -, h⟩ := (except_bind_ok_iff _ _ _).mp h
  obtain ⟨agentId, -, h⟩ := (except_bind_ok_iff _ _ _).mp h
  obtain ⟨confidence, -, h⟩ := (except_bind_ok_iff _ _ _).mp h
  obtain ⟨id, -, hrow⟩ := Option.map_eq_some_iff.mp (Except.ok.inj h)
  unfold dumps at houtput
  split_ifs at houtput
  cases houtput
  rw [← hrow]
  exact ⟨rfl, rfl, rfl, rfl⟩

/-- The queue after a call of `enqueue`: as it was, or with one more row. -/
theorem enqueue_ok (h : enqueue host item now queue = .ok queue') :
    queue' = queue ∨ ∃ row, queue'.rows = queue.rows ++ [row] ∧ row.taskId = item.taskId ∧
      row.attemptId = item.attemptId ∧ row.agentOutput = item.agentOutput.getD [] ∧
      row.plannedTaskId = item.plannedTaskId := by
  unfold enqueue at h
  obtain ⟨row, hrow, h⟩ := (except_bind_ok_iff _ _ _).mp h
  rcases row with _ | row
  · exact Or.inl (Except.ok.inj h).symm
  · have hqueue : queue.insertOrIgnore row = queue' := Except.ok.inj h
    unfold insertOrIgnore at hqueue
    split_ifs at hqueue
    · rw [← hqueue]
      exact Or.inr ⟨row, rfl, newRow_ok hrow⟩
    · exact Or.inl hqueue.symm

end ReviewQueue

end Galaxz
