import Galaxz.Andromeda.Guarantees
import Galaxz.Jobs.Calls
import Galaxz.Jobs.Completion

/-!
# From a routed task to a policy grant

The record of a hold travels in the field of the routing state that agents fill: from the graph into the
review queue, directly or through the result of a durable job and the outbox, and from there to the
handlers that approve a review item. The world below has the stores on that way; what the policy node
held and what the handlers granted is noted beside them.
-/

namespace Galaxz

namespace Andromeda

/-- `status`, as the state stores it. -/
def statusText : RoutingStatus → String
  | .routing => "routing"
  | .assigned => "assigned"
  | .failed => "failed"
  | .complete => "complete"
  | .escalated => "escalated"
  | .noAgentFound => "no_agent_found"

/-- A value that may be absent. -/
def optional {α : Type} (f : α → PyValue) (x : Option α) : PyValue := (x.map f).getD .none

/-- What `route` returns: the dump of the final state, with some fields of the agent's output. -/
def routeResult (task : TaskContract) (s : AndromedaState) : PyDict :=
  let output := s.result.getD []
  [("task_id", .str s.taskId),
    ("origin", optional .str s.origin),
    ("task_type", .str (CompletionPublisher.lastSegment task.skill)),
    ("required_skills", .list (s.requiredSkills.map .str)),
    ("payload", .dict s.payload),
    ("context", .dict s.context),
    ("matched_agents", .list (s.matchedAgents.map .str)),
    ("assigned_agent", optional .str s.assignedAgent),
    ("result", optional .dict s.result),
    ("confidence", optional .float s.confidence),
    ("confidence_threshold", optional .float s.confidenceThreshold),
    ("confidence_breakdown", optional .dict s.confidenceBreakdown),
    ("gaps", .list (s.gaps.map .str)),
    ("status", .str (statusText s.status)),
    ("retry_count", .int s.retryCount),
    ("failure_reason", optional .str s.failureReason),
    ("escalated_to_human", .bool s.escalatedToHuman),
    ("artifacts", field output "artifacts" (.list [])),
    ("writable", field output "writable" (.bool false)),
    ("summary", field output "summary" (.str "")),
    ("execution_result", field output "execution_result" .none),
    ("externally_calibrated", field output "externally_calibrated" (.bool false))]

/-- The review item that `route` asks for when a task outside a durable attempt is escalated. -/
@[irreducible] def escalationItem (task : TaskContract) (s : AndromedaState) (now : Datetime) :
    Except PyError ReviewItem := do
  let deadline ← now.add (3600 * 1000000)
  return {
    taskId := s.taskId
    taskType := .str (CompletionPublisher.lastSegment task.skill)
    confidence := .float (s.confidence.getD (.finite 0))
    payload := s.payload
    skillId := s.requiredSkills.headD ""
    agentId := .str (s.assignedAgent.getD "")
    agentOutput := some (s.result.getD [])
    slaDeadline := some deadline
    goalId := CompletionPublisher.goalIdOf task
    plannedTaskId := if CompletionPublisher.hasGoal task then some task.taskId.text else none }

end Andromeda

/-- The hold in the output of a review item, if it names an origin, a skill and a digest. -/
def heldKey (output : PyDict) : Option GrantKey :=
  match output.get "policy_hold" with
  | .dict hold =>
    match PyDict.get hold "origin", PyDict.get hold "skill", PyDict.get hold "digest" with
    | .str origin, .str skill, .str digest => some { origin, skill, digest }
    | _, _, _ => none
  | _ => none

/-- The policy node held a task for want of a grant. -/
structure Hold where
  taskId : String
  key : GrantKey
deriving DecidableEq

/-- A grant that a handler issued for a review item. -/
structure Approval where
  item : ReviewRow
  key : GrantKey

/-- The stores between routing and approval, with notes that no code reads. -/
structure ApprovalWorld where
  jobs : Db := Db.empty
  reviews : ReviewQueue := ReviewQueue.empty
  grants : List GrantRow := []
  holds : List Hold := []
  approvals : List Approval := []

/-- Something that happens to the stores. -/
inductive ApprovalAction where
  /-- `route` is called for a task; the agents and the other stores answer as `env` says. -/
  | route (task : TaskContract) (requiredSkills : List String) (context : PyDict)
      (env : RoutingLog → (call : RoutingCall) → call.Answer) (now : Datetime)
  /-- A worker routes the task of a job and completes the job with the result. -/
  | execute (jobId attemptId leaseToken : Uuid) (context : PyDict)
      (env : RoutingLog → (call : RoutingCall) → call.Answer) (now : Datetime)
  /-- Any other call on the job store. -/
  | jobs (call : JobCall) (other : call.completes = false)
  /-- A publisher asks for the review of a completed job. -/
  | publish (event : OutboxRow) (references : List PyValue) (now : Datetime)
  /-- The review of a plan, which has no output. -/
  | planReview (taskId : String) (confidence : PyFloat) (payload : PyDict) (goalId : String)
      (now : Datetime)
  /-- A routing uses a grant. -/
  | consume (key : GrantKey) (now : Datetime)
  /-- A reviewer approves, accepts or rejects an item. -/
  | decide (taskId : String) (status : ReviewStatus) (notes : Option String) (now : Datetime)
      (grantId : Uuid) (grantNow : Datetime)

namespace ApprovalWorld

variable (cfg : Andromeda.Config)

/-- The holds that the record of a routing shows. -/
def holdsIn (taskId : String) (log : RoutingLog) : List Hold :=
  log.filterMap fun e => match e with
    | ⟨.consume key, false⟩ => some { taskId, key }
    | _ => none

/-- `ReviewQueue.enqueue`; an exception leaves the queue as it is. -/
def enqueueReview (w : ApprovalWorld) (item : Except PyError ReviewItem) (now : Datetime) :
    ApprovalWorld :=
  match item with
  | .error _ => w
  | .ok item =>
    match ReviewQueue.enqueue cfg.host item now w.reviews with
    | .error _ => w
    | .ok reviews => { w with reviews }

/-- The world after a routing, before anything is done with its result. -/
def noteHolds (w : ApprovalWorld) (taskId : String) (log : RoutingLog) : ApprovalWorld :=
  { w with holds := w.holds ++ holdsIn taskId log }

def route (task : TaskContract) (requiredSkills : List String) (context : PyDict)
    (env : RoutingLog → (call : RoutingCall) → call.Answer) (now : Datetime) (w : ApprovalWorld) :
    ApprovalWorld :=
  let r := Andromeda.routeGraph cfg env task requiredSkills context
  let w := w.noteHolds task.taskId.text r.2
  match r.1 with
  | .error _ => w
  | .ok s =>
    if task.executionAttemptId = none ∧ s.status = .escalated then
      w.enqueueReview cfg (Andromeda.escalationItem task s now) now
    else w

def execute (jobId attemptId leaseToken : Uuid) (context : PyDict)
    (env : RoutingLog → (call : RoutingCall) → call.Answer) (now : Datetime) (w : ApprovalWorld) :
    ApprovalWorld :=
  match SqliteJobRepository.getTask w.jobs jobId with
  | none => w
  | some task =>
    let task := { task with executionAttemptId := some attemptId }
    let r := Andromeda.routeGraph cfg env task [] context
    let w := w.noteHolds task.taskId.text r.2
    match r.1 with
    | .error _ => w
    | .ok s =>
      { w with jobs := SqliteJobRepository.step (.complete jobId leaseToken
          ("job-output:" ++ jobId.text) (some (Andromeda.routeResult task s)) now) w.jobs }

def publish (event : OutboxRow) (references : List PyValue) (now : Datetime) (w : ApprovalWorld) :
    ApprovalWorld :=
  match SqliteJobRepository.getTask w.jobs event.jobId,
    SqliteJobRepository.getResult w.jobs event.jobId with
  | some task, some result =>
    if result.get "status" = .str "escalated" then
      w.enqueueReview cfg (CompletionPublisher.reviewItem event task result references) now
    else w
  | _, _ => w

/-- The world after a call of `issue` for a review item. -/
def granted (item : ReviewRow) (key : GrantKey) (r : Except PyError Uuid × List GrantRow)
    (w : ApprovalWorld) : ApprovalWorld :=
  match r.1 with
  | .error _ => { w with grants := r.2 }
  | .ok _ => { w with grants := r.2, approvals := w.approvals ++ [{ item, key }] }

/-- `_issue_policy_grant`. -/
def issuePolicyGrant (item : ReviewRow) (grantId : Uuid) (now : Datetime) (w : ApprovalWorld) :
    ApprovalWorld :=
  match heldKey item.agentOutput with
  | none => w
  | some key =>
    w.granted item key (GrantStore.issue grantId key 3600 (some "review") now w.grants)

/-- `approve_task`, `accept_task` and `reject_task`. -/
def decide (taskId : String) (status : ReviewStatus) (notes : Option String) (now : Datetime)
    (grantId : Uuid) (grantNow : Datetime) (w : ApprovalWorld) : ApprovalWorld :=
  match w.reviews.getByTaskId taskId with
  | none => w
  | some item =>
    if item.status = .pending then
      let w := { w with reviews := w.reviews.resolve taskId status notes now }
      if status = .approved ∨ status = .accepted then w.issuePolicyGrant item grantId grantNow else w
    else w

/-- The world after an action. -/
def step : ApprovalAction → ApprovalWorld → ApprovalWorld
  | .route task requiredSkills context env now, w => w.route cfg task requiredSkills context env now
  | .execute jobId attemptId leaseToken context env now, w =>
    w.execute cfg jobId attemptId leaseToken context env now
  | .jobs call _, w => { w with jobs := SqliteJobRepository.step call w.jobs }
  | .publish event references now, w => w.publish cfg event references now
  | .planReview taskId confidence payload goalId now, w =>
    w.enqueueReview cfg (.ok {
      taskId
      taskType := .str "goal.plan_review"
      confidence := .float confidence
      payload
      skillId := "goal.plan_review"
      goalId := some goalId }) now
  | .consume key now, w => { w with grants := (GrantStore.consume key now w.grants).2 }
  | .decide taskId status notes now grantId grantNow, w =>
    w.decide taskId status notes now grantId grantNow

/-- The world after the actions, from empty stores. -/
def run (actions : List ApprovalAction) : ApprovalWorld := Machine.run (step cfg) actions {}

end ApprovalWorld

/-- The id of the task that a review item is about. -/
def ReviewRow.reviewedTask (item : ReviewRow) : String := item.plannedTaskId.getD item.taskId

/-- Every grant that an approval issued is for something the policy node held that very task for. -/
def ApprovalWorld.GrantsHeld (w : ApprovalWorld) : Prop :=
  ∀ a ∈ w.approvals, { taskId := a.item.reviewedTask, key := a.key } ∈ w.holds

/-! ## Forged holds -/

namespace Andromeda

/-- The output that the graph takes from what an agent returned. -/
def answerOutput (result : PyDict) : Option PyDict :=
  if sandboxUnavailable result then some result
  else match field result "result" (.dict result) with
    | .dict output => some output
    | _ => none

/-- The output in the state after the answer of an agent. -/
def nextOutput (output : Option PyDict) : Except String PyValue → Option PyDict
  | .ok (.dict result) => answerOutput result
  | _ => output

/-- The output that the agents left in the state: that of the last one that returned a `dict`. -/
def lastOutput (answers : List (Except String PyValue)) : Option PyDict := answers.foldl nextOutput none

/-- The agent did not fail and was confident enough. -/
def passes (cfg : Config) (threshold : PyFloat) : Except String PyValue → Bool
  | .ok (.dict result) =>
    !sandboxUnavailable result &&
      (match confidenceField cfg (field result "confidence" (.float defaultConfidence)) with
      | .ok c => threshold.le (c.getD (.finite 0))
      | .error _ => false)
  | _ => false

/-- The agents of a routing forge a hold: the last one did not pass, and the output they left names an
origin, a skill and a digest under `policy_hold`. -/
def ForgesHold (cfg : Config) (threshold : PyFloat) (answers : List (Except String PyValue)) : Prop :=
  (∀ answer, answers.getLast? = some answer → passes cfg threshold answer = false) ∧
    ((lastOutput answers).bind heldKey).isSome = true

end Andromeda

/-- No agent that the action runs forges a hold. -/
def ApprovalAction.Honest (cfg : Andromeda.Config) : ApprovalAction → ApprovalWorld → Prop
  | .route task requiredSkills context env _, _ =>
    ¬ Andromeda.ForgesHold cfg task.confidenceThreshold
      (Andromeda.runs (Andromeda.routeGraph cfg env task requiredSkills context).2)
  | .execute jobId attemptId _ context env _, w =>
    ∀ task, SqliteJobRepository.getTask w.jobs jobId = some task →
      ¬ Andromeda.ForgesHold cfg task.confidenceThreshold
        (Andromeda.runs (Andromeda.routeGraph cfg env
          { task with executionAttemptId := some attemptId } [] context).2)
  | _, _ => True

/-! ## The fields of an agent's reply that `route` returns

`_execute_node` reads four fields beside the output of a reply, which the schema of the routing state does
not keep; `route` reads fields of the same names from the output in the final state.
-/

namespace Andromeda

/-- The four fields, as both functions read them. -/
def passthrough (output : PyDict) : List PyValue :=
  [field output "artifacts" (.list []), field output "writable" (.bool false),
    field output "summary" (.str ""), field output "execution_result" .none]

/-- The four fields in what `route` returns. -/
def routed (result : PyDict) : List PyValue :=
  [result.get "artifacts", result.get "writable", result.get "summary", result.get "execution_result"]

/-- What `route` gives to `artifact_store.record`, if it records anything. -/
def recordedArtifacts (task : TaskContract) (artifacts : PyValue) : Option PyValue :=
  if task.executionAttemptId = none ∧ artifacts.truthy = true then some artifacts else none

/-- What is returned, recorded and stored is what the reply has at its top level. -/
structure PassesThrough (task : TaskContract) (s : AndromedaState) (reply : PyDict) : Prop where
  returned : routed (routeResult task s) = passthrough reply
  recorded : recordedArtifacts task ((routeResult task s).get "artifacts") =
    recordedArtifacts task (field reply "artifacts" (.list []))
  stored : ∀ result, (routeResult task s).dumps = .ok result →
    routed result = (passthrough reply).map PyValue.sortKeys

/-- The nested output of a reply; `None` has no fields. -/
def nestedOutput (reply : PyDict) : PyDict :=
  match reply.get "result" with
  | .dict output => output
  | _ => []

/-- The reply is its own output, or the nested one has the same four fields. -/
def OutputAgrees (reply : PyDict) : Prop :=
  sandboxUnavailable reply = true ∨ reply.lookup "result" = none ∨
    passthrough (nestedOutput reply) = passthrough reply

end Andromeda

end Galaxz
