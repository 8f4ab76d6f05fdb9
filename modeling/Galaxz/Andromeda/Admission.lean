import Galaxz.Andromeda.Approvals
import Mathlib.Data.Set.Insert

/-!
# The policy node on a grant store

A submission of a task runs the policy node on the rows of `policy_grants`; each use of a grant reads the
clock anew. A task that is held is submitted again after the skill it was held for has been approved.
-/

namespace Galaxz

/-- The action of the first rule that matches, `allow` when none does. -/
def PolicyEngine.ruleAction (engine : PolicyEngine) (skill : String) (origin : Option String) :
    PolicyAction :=
  ((engine.rules.find? fun rule => rule.matches skill (origin.getD "")).map (·.action)).getD .allow

namespace GrantStore

/-- The grants that have not been used. -/
def unconsumed (rows : List GrantRow) : Set GrantRow := {row | row ∈ rows ∧ row.consumedAt = none}

/-- There is a usable grant for each of the keys in turn, besides those that the keys before it take; the
uses read the clock at `clock n`, `clock (n + 1)` and so on. -/
def Supplies (clock : ℕ → Datetime) : ℕ → List GrantKey → List GrantRow → Prop
  | _, [], _ => True
  | n, key :: keys, rows => ∃ row, selected key (clock n) rows = some row ∧
      Supplies clock (n + 1) keys (rows.filter fun r => r.grantId ≠ row.grantId)

/-- There is no usable grant for the first of the keys. -/
def LacksFirst (now : Datetime) (keys : List GrantKey) (rows : List GrantRow) : Prop :=
  ∀ key, keys.head? = some key → selected key now rows = none

/-- As many unused grants as uses, for each of the keys; one may be missing if it is the only one of
the first key. -/
def AtMostFirstMissing (keys : List GrantKey) (rows : List GrantRow) : Prop :=
  ∀ key ∈ keys, keys.count key ≤ rows.countP (fun row => row.key = key && row.consumedAt.isNone) ∨
    keys.head? = some key ∧ keys.count key = 1

end GrantStore

namespace Andromeda

/-! ## One submission -/

/-- The grant store, and how often its clock has been read. -/
structure GrantDesk where
  rows : List GrantRow
  readings : ℕ := 0

/-- What the policy node asks for. It makes no other call. -/
def execPolicy (clock : ℕ → Datetime) :
    (call : RoutingCall) → GrantDesk → Except PyError call.Answer × GrantDesk
  | .consume key, desk =>
    let r := GrantStore.consume key (clock desk.readings) desk.rows
    (.ok r.1, { rows := r.2, readings := desk.readings + 1 })
  | .agents, desk => (.error (.runtimeError "not a call of the policy node"), desk)
  | .getWeights _, desk => (.error (.runtimeError "not a call of the policy node"), desk)
  | .hasAgent _, desk => (.error (.runtimeError "not a call of the policy node"), desk)
  | .runAgent _ _ _ _, desk => (.error (.runtimeError "not a call of the policy node"), desk)

variable (cfg : Config)

/-- The policy node on the store: the state after it, and the rows. -/
def submit (clock : ℕ → Datetime) (s : AndromedaState) (rows : List GrantRow) :
    Except PyError AndromedaState × List GrantRow :=
  let r := (policyNode cfg s).run (execPolicy clock) { rows }
  (r.1, r.2.rows)

/-- Some required skill is denied. -/
def Denied (s : AndromedaState) : Prop :=
  ∃ skill ∈ s.requiredSkills, (cfg.policy.evaluateSkill skill s.origin).action = .deny

/-- What grants are needed for: the required skills that are to be held, with repetitions. -/
def neededKeys (s : AndromedaState) : List GrantKey :=
  (s.requiredSkills.filter fun skill =>
    (cfg.policy.evaluateSkill skill s.origin).action = .requireReview).map (grantKey cfg s)

/-- The submission ends with an edge to this node. -/
def LeadsTo (r : Except PyError AndromedaState × List GrantRow) (node : Node) : Prop :=
  ∃ s', r.1 = .ok s' ∧ afterPolicy s' = node

/-- If the policy node denies or holds the task, it uses no grant. -/
def KeepsGrants (clock : ℕ → Datetime) (s : AndromedaState) (rows : List GrantRow) : Prop :=
  LeadsTo (submit cfg clock s rows) .noAgentFound ∨ LeadsTo (submit cfg clock s rows) .escalate →
    GrantStore.unconsumed (submit cfg clock s rows).2 = GrantStore.unconsumed rows

/-! ## Submissions and approvals in turn -/

/-- The clock readings of one submission, and those of the approval that follows it with the id that
`issue` generates. -/
structure Round where
  clock : ℕ → Datetime
  approvedAt : Datetime
  grantId : Uuid

/-- `_issue_policy_grant` for the task that was just held: the rows with the grant. -/
def approve (round : Round) (s : AndromedaState) (rows : List GrantRow) : Option (List GrantRow) := do
  let key ← heldKey (s.result.getD [])
  match GrantStore.issue round.grantId key 3600 (some "review") round.approvedAt rows with
  | (.ok _, rows) => some rows
  | (.error _, _) => none

/-- The rows after a submission that was held, and its approval. -/
def approveHeld (round : Round) (r : Except PyError AndromedaState × List GrantRow) :
    Option (List GrantRow) :=
  match r.1 with
  | .error _ => none
  | .ok s => if s.failureReason = some "policy_requires_review" then approve round s r.2 else none

/-- The rows after this many approvals, each of a submission that was held. -/
def afterApprovals (rounds : ℕ → Round) (s : AndromedaState) (rows : List GrantRow) :
    ℕ → Option (List GrantRow)
  | 0 => some rows
  | n + 1 => (afterApprovals rounds s rows n).bind fun rows =>
      approveHeld (rounds n) (submit cfg (rounds n).clock s rows)

/-- Until the task passes, no submission that is held uses a grant, and after at most `k` approvals it
passes. -/
structure Converges (rounds : ℕ → Round) (s : AndromedaState) (rows : List GrantRow) (k : ℕ) : Prop where
  keeps : ∀ n rows', afterApprovals cfg rounds s rows n = some rows' →
    KeepsGrants cfg (rounds n).clock s rows'
  passes : ∃ n ≤ k, ∃ rows', afterApprovals cfg rounds s rows n = some rows' ∧
    LeadsTo (submit cfg (rounds n).clock s rows') .skillMatch

/-- In the first submissions no grant expires, and every approval issues its grant. -/
structure Steady (rounds : ℕ → Round) (s : AndromedaState) (rows : List GrantRow) (k : ℕ) : Prop where
  unexpired : ∀ n ≤ k, ∀ rows', afterApprovals cfg rounds s rows n = some rows' →
    ∀ row ∈ rows', row.consumedAt = none → ∀ i, ((rounds n).clock i).isoformat < row.expiresAt
  issued : ∀ n ≤ k, ∀ rows', afterApprovals cfg rounds s rows n = some rows' →
    LeadsTo (submit cfg (rounds n).clock s rows') .escalate →
    (afterApprovals cfg rounds s rows (n + 1)).isSome

end Andromeda

end Galaxz
