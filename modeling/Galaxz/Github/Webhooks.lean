import Galaxz.Lib.Keyed
import Galaxz.Lib.Machine
import Galaxz.Lib.PyValue

/-!
# `core/github/workflow.py`: `WebhookStore`

A delivery is claimed in one commit and recorded in another. Any number of processes reconcile, each of
them may stop before, between and after the two, and GitHub may deliver again at any time; so a run is a
list of actions of which each is one step of one call.
-/

namespace Galaxz

/-- A delivery of GitHub, without its id. -/
structure Webhook where
  event : String
  payload : PyDict

inductive PullState where
  | opened
  | closed
  | merged
deriving DecidableEq

/-- A row of `github_pull_requests`. -/
structure PullRow where
  number : ℤ
  state : PullState
  merged : Bool
  branchDeleted : Bool
deriving DecidableEq

namespace Webhook

/-- `str(payload.get("action", event)) == "closed"`. The text of a value that is no text is never this
one. -/
def closed (w : Webhook) : Bool := (w.payload.lookup "action").getD (.str w.event) = .str "closed"

/-- `payload.get("pull_request") or {}`, of which items are read. -/
def pullRequest (w : Webhook) : Except PyError PyDict :=
  match (w.payload.get "pull_request").orElse (.dict []) with
  | .dict items => .ok items
  | _ => .error (.attributeError "object has no attribute 'get'")

/-- The repository that a delivery is about. Nothing in the store reads it. -/
def repository (w : Webhook) : PyValue :=
  match w.payload.get "repository" with
  | .dict items => PyDict.get items "full_name"
  | _ => .none

end Webhook

/-- `int(value)`, with what `int` makes of a text. -/
def pyInt (intOfStr : String → Except PyError ℤ) : PyValue → Except PyError ℤ
  | .bool b => .ok (if b then 1 else 0)
  | .int n => .ok n
  | .float (.finite q) => .ok (if 0 ≤ q then ⌊q⌋ else ⌈q⌉)
  | .float .nan => .error (.valueError "cannot convert float NaN to integer")
  | .float _ => .error (.overflowError "cannot convert float infinity to integer")
  | .str s => intOfStr s
  | _ => .error (.typeError "int() argument must be a string or a number")

namespace WebhookStore

variable (intOfStr : String → Except PyError ℤ)

/-- The row that `reconcile` writes for a delivery; there is none without a number. -/
def rowOf (w : Webhook) : Except PyError (Option PullRow) := do
  let pullRequest ← w.pullRequest
  let number := (w.payload.get "number").orElse (pullRequest.get "number")
  if number = .none then .ok none
  else
    let merged := (pullRequest.get "merged").truthy
    let state := if merged then .merged else if w.closed then .closed else .opened
    let n ← pyInt intOfStr number
    if -2 ^ 63 ≤ n ∧ n < 2 ^ 63 then
      .ok (some { number := n, state, merged, branchDeleted := (w.payload.get "deleted").truthy })
    else .error (.overflowError "Python int too large to convert to SQLite INTEGER")

end WebhookStore

/-- How far a call of `reconcile` is. -/
inductive WebhookPhase where
  | ready
  | claimed
  | duplicate
  | ignored
  | applied
  | raised
  | stopped
deriving DecidableEq

structure WebhookCall where
  deliveryId : String
  phase : WebhookPhase := .ready
deriving DecidableEq

/-- Both tables, the calls, and the deliveries that wrote a row, in order. -/
structure WebhookState where
  claims : List String := []
  pulls : List PullRow := []
  calls : List WebhookCall := []
  writes : List String := []

inductive WebhookAction where
  /-- GitHub delivers, for the first time or again. -/
  | deliver (deliveryId : String)
  /-- The call makes its next step. -/
  | advance (i : ℕ)
  /-- The process of the call stops. -/
  | stop (i : ℕ)

namespace WebhookStore

variable (intOfStr : String → Except PyError ℤ) (github : String → Webhook)

/-- The call is now in the phase. -/
def setPhase (i : ℕ) (phase : WebhookPhase) (s : WebhookState) : WebhookState :=
  { s with calls := s.calls.modify i fun c => { c with phase } }

/-- `claim`. -/
def claim (i : ℕ) (deliveryId : String) (s : WebhookState) : WebhookState :=
  if deliveryId ∈ s.claims then setPhase i .duplicate s
  else { setPhase i .claimed s with claims := s.claims ++ [deliveryId] }

/-- The rest of `reconcile`. -/
def record (i : ℕ) (deliveryId : String) (s : WebhookState) : WebhookState :=
  match rowOf intOfStr (github deliveryId) with
  | .error _ => setPhase i .raised s
  | .ok none => setPhase i .ignored s
  | .ok (some row) =>
    { setPhase i .applied s with
      pulls := Keyed.put (·.number) row s.pulls
      writes := s.writes ++ [deliveryId] }

/-- The next step of a call. -/
def advance (i : ℕ) (s : WebhookState) : WebhookState :=
  match s.calls[i]? with
  | none => s
  | some c => match c.phase with
    | .ready => claim i c.deliveryId s
    | .claimed => record intOfStr github i c.deliveryId s
    | _ => s

/-- The process stops, and with it the call, if it has not returned. -/
def stop (i : ℕ) (s : WebhookState) : WebhookState :=
  match s.calls[i]? with
  | none => s
  | some c => match c.phase with
    | .ready => setPhase i .stopped s
    | .claimed => setPhase i .stopped s
    | _ => s

def step : WebhookAction → WebhookState → WebhookState
  | .deliver deliveryId, s => { s with calls := s.calls ++ [{ deliveryId }] }
  | .advance i, s => advance intOfStr github i s
  | .stop i, s => stop i s

end WebhookStore

/-! ## What the store is for -/

/-- The state of a pull request after a delivery about it: merged once is merged for good. -/
def PullRow.after (old : Option PullRow) (row : PullRow) : PullRow :=
  if old.any (·.merged) then { row with state := .merged, merged := true } else row

namespace WebhookStore

variable (intOfStr : String → Except PyError ℤ) (github : String → Webhook)

/-- What a delivery says about a pull request, if it is about one. -/
def pullOf (deliveryId : String) : Option PullRow :=
  match rowOf intOfStr (github deliveryId) with
  | .ok row => row
  | .error _ => none

/-- What a delivery says about the pull request of the repository with the number. -/
def rowFor (repository : PyValue) (number : ℤ) (deliveryId : String) : Option PullRow :=
  (pullOf intOfStr github deliveryId).filter fun row =>
    (github deliveryId).repository = repository ∧ row.number = number

/-- The state of a pull request of a repository after the deliveries. -/
def stateAfter (repository : PyValue) (number : ℤ) (deliveries : List String) : Option PullRow :=
  (deliveries.filterMap (rowFor intOfStr github repository number)).foldl
    (fun old row => some (row.after old)) none

/-- Each delivery is applied once, and the row of each pull request has the state that the deliveries of
its own repository give it. -/
structure Converged (s : WebhookState) : Prop where
  once : s.writes.Nodup
  /-- A delivery that was answered is applied, or a call is about to. -/
  answered : ∀ c ∈ s.calls, c.phase = .duplicate ∨ c.phase = .applied →
    (pullOf intOfStr github c.deliveryId).isSome →
      c.deliveryId ∈ s.writes ∨ ∃ d ∈ s.calls, d.deliveryId = c.deliveryId ∧ d.phase = .claimed
  recorded : ∀ deliveryId ∈ s.writes, ∀ row ∈ pullOf intOfStr github deliveryId,
    Keyed.get (·.number) row.number s.pulls =
      stateAfter intOfStr github (github deliveryId).repository row.number s.writes

end WebhookStore

/-- No process stops between the two commits for a pull request. Every delivery that is recorded has a
number that no other repository's delivery was recorded with, and it says that the pull request is merged
if the row does. -/
def WebhookAction.Clear (intOfStr : String → Except PyError ℤ) (github : String → Webhook) :
    WebhookAction → WebhookState → Prop
  | .deliver _, _ => True
  | .stop i, s => ∀ c ∈ s.calls[i]?, c.phase = .claimed →
      WebhookStore.pullOf intOfStr github c.deliveryId = none
  | .advance i, s => ∀ c ∈ s.calls[i]?, c.phase = .claimed →
      ∀ row ∈ WebhookStore.pullOf intOfStr github c.deliveryId,
        (∀ deliveryId ∈ s.writes, ∀ other ∈ WebhookStore.pullOf intOfStr github deliveryId,
          other.number = row.number →
            (github deliveryId).repository = (github c.deliveryId).repository) ∧
        ∀ old ∈ Keyed.get (·.number) row.number s.pulls, old.merged = true → row.merged = true

instance (intOfStr : String → Except PyError ℤ) (github : String → Webhook) :
    (action : WebhookAction) → (s : WebhookState) → Decidable (action.Clear intOfStr github s)
  | .deliver _, _ => inferInstanceAs (Decidable True)
  | .stop i, s => inferInstanceAs (Decidable (∀ c ∈ s.calls[i]?, c.phase = .claimed →
      WebhookStore.pullOf intOfStr github c.deliveryId = none))
  | .advance i, s => inferInstanceAs (Decidable (∀ c ∈ s.calls[i]?, c.phase = .claimed →
      ∀ row ∈ WebhookStore.pullOf intOfStr github c.deliveryId,
        (∀ deliveryId ∈ s.writes, ∀ other ∈ WebhookStore.pullOf intOfStr github deliveryId,
          other.number = row.number →
            (github deliveryId).repository = (github c.deliveryId).repository) ∧
        ∀ old ∈ Keyed.get (·.number) row.number s.pulls, old.merged = true → row.merged = true))

end Galaxz
