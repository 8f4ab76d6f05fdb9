import Galaxz.Contracts.Jobs
import Galaxz.Lib.Isoformat
import Galaxz.Lib.Machine
import Galaxz.Lib.Table
import Galaxz.Policy.Engine

/-!
# `core/policy/grants.py`: single-use approvals

The table `policy_grants` and the two statements on it. Times are stored and compared as the texts that
`isoformat()` writes.
-/

namespace Galaxz

/-- A row of `policy_grants`. -/
structure GrantRow where
  grantId : Uuid
  origin : String
  skill : String
  digest : String
  grantedBy : Option String
  createdAt : String
  expiresAt : String
  consumedAt : Option String := none
deriving DecidableEq

/-- What a grant is for. -/
structure GrantKey where
  origin : String
  skill : String
  digest : String
deriving DecidableEq

def GrantRow.key (row : GrantRow) : GrantKey :=
  { origin := row.origin, skill := row.skill, digest := row.digest }

/-- `SET consumed_at = ?`. -/
def GrantRow.spend (row : GrantRow) (time : String) : GrantRow := { row with consumedAt := some time }

namespace GrantStore

/-- The row that `issue` inserts. -/
def newRow (grantId : Uuid) (key : GrantKey) (grantedBy : Option String) (now expires : Datetime) :
    GrantRow :=
  { grantId
    origin := key.origin
    skill := key.skill
    digest := key.digest
    grantedBy
    createdAt := now.isoformat
    expiresAt := expires.isoformat }

/-- `issue`, with the generated id and the clock reading. -/
def issue (grantId : Uuid) (key : GrantKey) (ttlS : ℤ) (grantedBy : Option String) (now : Datetime)
    (rows : List GrantRow) : Except PyError Uuid × List GrantRow :=
  match now.addSeconds (.finite ttlS) with
  | .error e => (.error e, rows)
  | .ok expires =>
    if rows.any (·.grantId = grantId) then
      (.error (.integrityError "UNIQUE constraint failed: policy_grants.grant_id"), rows)
    else (.ok grantId, rows ++ [newRow grantId key grantedBy now expires])

/-- The rows that the inner `SELECT` of `consume` ranges over. -/
def usable (key : GrantKey) (now : Datetime) (row : GrantRow) : Bool :=
  row.origin = key.origin && row.skill = key.skill && row.digest = key.digest &&
    row.consumedAt.isNone && now.isoformat < row.expiresAt

/-- The inner `SELECT` of `consume`. -/
def selected (key : GrantKey) (now : Datetime) (rows : List GrantRow) : Option GrantRow :=
  Table.firstBy (fun a b => a.createdAt ≤ b.createdAt) (rows.filter (usable key now))

/-- `consume`: it returns whether the update changed a row. -/
def consume (key : GrantKey) (now : Datetime) (rows : List GrantRow) : Bool × List GrantRow :=
  let target := (selected key now rows).map (·.grantId)
  (rows.any fun row => some row.grantId = target,
    Table.updateWhere (fun row => some row.grantId = target) (·.spend now.isoformat) rows)

end GrantStore

/-- A call on the store by some process, with its clock reading. -/
inductive GrantCall where
  | issue (grantId : Uuid) (key : GrantKey) (ttlS : ℤ) (grantedBy : Option String) (now : Datetime)
  | consume (key : GrantKey) (now : Datetime)

/-- What a call returns. -/
inductive GrantValue where
  | issued (grantId : Uuid)
  | consumed (success : Bool)
deriving DecidableEq

namespace GrantStore

/-- A call: its answer, and the table after it. -/
def exec : GrantCall → List GrantRow → Except PyError GrantValue × List GrantRow
  | .issue grantId key ttlS grantedBy now, rows =>
    let r := issue grantId key ttlS grantedBy now rows
    (r.1.map .issued, r.2)
  | .consume key now, rows =>
    let r := consume key now rows
    (.ok (.consumed r.1), r.2)

def step (call : GrantCall) (rows : List GrantRow) : List GrantRow := (exec call rows).2

/-- The table after the calls, in the order in which their statements took effect. -/
def run (calls : List GrantCall) : List GrantRow := Machine.run step calls []

/-! ## What a run grants and uses -/

/-- The call issues a grant for the key. -/
def issues (key : GrantKey) (call : GrantCall) (rows : List GrantRow) : Bool :=
  match call with
  | .issue _ k _ _ _ => k = key && !raised (exec call rows).1
  | .consume _ _ => false

/-- The call consumes a grant for the key. -/
def consumes (key : GrantKey) (call : GrantCall) (rows : List GrantRow) : Bool :=
  match call with
  | .issue _ _ _ _ _ => false
  | .consume k _ => k = key && (exec call rows).1 = .ok (.consumed true)

/-- How many calls of a run do so. -/
def count (f : GrantCall → List GrantRow → Bool) : List GrantCall → List GrantRow → ℕ
  | [], _ => 0
  | call :: calls, rows => (if f call rows then 1 else 0) + count f calls (step call rows)

/-- A grant as `issue` made it, with the instant at which it expires. -/
structure Grant where
  grantId : Uuid
  key : GrantKey
  expires : Datetime

/-- The grant that a call issues. -/
def issued? : GrantCall → List GrantRow → Option Grant
  | .issue grantId key ttlS grantedBy now, rows =>
    match now.addSeconds (.finite ttlS), (issue grantId key ttlS grantedBy now rows).1 with
    | .ok expires, .ok _ => some { grantId, key, expires }
    | _, _ => none
  | .consume _ _, _ => none

/-- The grants that a run issues. -/
def issuedBy : List GrantCall → List GrantRow → List Grant
  | [], _ => []
  | call :: calls, rows => (issued? call rows).toList ++ issuedBy calls (step call rows)

/-- After the calls, consuming for the key at this time succeeds and uses the grant. -/
def Uses (before : List GrantCall) (key : GrantKey) (now : Datetime) (g : Grant) : Prop :=
  (consume key now (run before)).1 = true ∧ g ∈ issuedBy before [] ∧
    (selected key now (run before)).map (·.grantId) = some g.grantId

end GrantStore

/-- What an approval is given for. -/
structure GrantTriple where
  origin : Option String
  skill : String
  payload : PyDict

namespace GrantTriple

/-- The payload is a JSON object. -/
def IsJson (t : GrantTriple) : Prop := PyValue.serializableItems t.payload = true

/-- The same origin and skill, and payloads with the same items in whatever order. -/
def Same (t t' : GrantTriple) : Prop :=
  t.origin.getD "" = t'.origin.getD "" ∧ t.skill = t'.skill ∧
    PyValue.sortKeys (.dict t.payload) = PyValue.sortKeys (.dict t'.payload)

/-- The arguments of `issue` and `consume` for the triple. -/
def key (sha256 : String → String) (unknown : String) (t : GrantTriple) : GrantKey :=
  { origin := t.origin.getD ""
    skill := t.skill
    digest := payloadDigest sha256 unknown t.origin t.skill t.payload }

end GrantTriple

/-- Grants are single-use and bound to what they were given for. -/
structure GrantsSound (sha256 : String → String) (unknown : String) (calls : List GrantCall) : Prop where
  counted : ∀ t : GrantTriple, t.IsJson →
    GrantStore.count (GrantStore.consumes (t.key sha256 unknown)) calls [] ≤
      GrantStore.count (GrantStore.issues (t.key sha256 unknown)) calls []
  backed : ∀ before key now after, calls = before ++ .consume key now :: after →
    (GrantStore.consume key now (GrantStore.run before)).1 = true →
    ∃ g, GrantStore.Uses before key now g
  unexpired : ∀ before key now after, calls = before ++ .consume key now :: after →
    ∀ g, GrantStore.Uses before key now g → now < g.expires
  bound : ∀ before key now after, calls = before ++ .consume key now :: after →
    ∀ g, GrantStore.Uses before key now g → ∀ t t' : GrantTriple, t.IsJson → t'.IsJson →
      g.key = t.key sha256 unknown → key = t'.key sha256 unknown → t.Same t'
  once : ∀ before key now between key' now' after,
    calls = before ++ .consume key now :: (between ++ .consume key' now' :: after) →
    ∀ g, GrantStore.Uses before key now g →
      ¬ GrantStore.Uses (before ++ .consume key now :: between) key' now' g

end Galaxz
