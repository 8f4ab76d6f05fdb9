import Galaxz.Artifacts.Store
import Galaxz.Lib.Machine

/-!
# What a record call does to the tables

`Recording` says once what `record` does with one artifact; everything about whole runs is derived from
it. `VersionHistory` and `AttemptsResolve` are what the store is for: the versions of a key form a
history, and what an attempt recorded can be looked up again.
-/

namespace Galaxz

open ArtifactStore

/-- The artifact is recorded: the attempt has it already, the newest version has its content, or it is
a new version. -/
inductive Recording (host : ArtifactHost) (args : RecordArgs) (now : String) (a : Artifact) :
    ArtifactDb → Recorded → ArtifactDb → Prop where
  | replay {db : ArtifactDb} {row : AttemptVersionRow} (hprior : priorAttempt host args a db = some row) :
      Recording host args now a db ⟨row.identityKey, row.version, false⟩ db
  | same {db db' : ArtifactDb} {row : VersionRow} (hprior : priorAttempt host args a db = none)
      (hsame : unchanged host args a db = some row)
      (hlink : db.link (host.attemptKeyOf args a) (host.keyOf args a) row.version = .ok db') :
      Recording host args now a db ⟨host.keyOf args a, row.version, false⟩ db'
  | fresh {db db₁ db' : ArtifactDb} {objectId : Option String} {row : VersionRow}
      (hprior : priorAttempt host args a db = none) (hchanged : unchanged host args a db = none)
      (hrow : host.versionRow args now a (nextVersion host args a db) objectId = .ok row)
      (hinsert : db.insertVersion row = .ok db₁)
      (hlink : db₁.link (host.attemptKeyOf args a) (host.keyOf args a) (nextVersion host args a db) =
        .ok db') :
      Recording host args now a db ⟨host.keyOf args a, nextVersion host args a db, true⟩ db'

/-- The artifacts are recorded one after the other. -/
inductive Recordings (host : ArtifactHost) (args : RecordArgs) (now : String) :
    List PyValue → ArtifactDb → List Recorded → ArtifactDb → Prop where
  | nil {db : ArtifactDb} : Recordings host args now [] db [] db
  | cons {x : PyValue} {xs : List PyValue} {a : Artifact} {db db₁ db' : ArtifactDb} {r : Recorded}
      {rs : List Recorded} (hread : readArtifact x = .ok a) (h : Recording host args now a db r db₁)
      (hs : Recordings host args now xs db₁ rs db') :
      Recordings host args now (x :: xs) db (r :: rs) db'

/-! ## Runs -/

/-- A call on the store that writes, with its reading of the clock. -/
inductive ArtifactAction where
  | record (args : RecordArgs) (now : String)
  | deleteOlderThan (cutoff : String)

namespace ArtifactStore

variable (host : ArtifactHost) (storage : Option ObjectStorage)

/-- The state after a call. -/
def step : ArtifactAction → ArtifactState ArtifactDb → ArtifactState ArtifactDb
  | .record args now, s => (Prog.run (ArtifactState.exec storage) (record host storage args now) s).2
  | .deleteOlderThan cutoff, s =>
    (Prog.run (ArtifactState.exec storage) (deleteOlderThan storage cutoff) s).2

/-- The versions that a call assigns, in order. -/
def assigned (action : ArtifactAction) (s : ArtifactState ArtifactDb) : List VersionRow :=
  match action with
  | .record _ _ => (step host storage action s).db.versions.drop s.db.versions.length
  | .deleteOlderThan _ => []

/-- The versions that the calls assign, in order. -/
def assignedBy : List ArtifactAction → ArtifactState ArtifactDb → List VersionRow
  | [], _ => []
  | action :: actions, s =>
    assigned host storage action s ++ assignedBy actions (step host storage action s)

/-- A store without rows. -/
def fresh (objects : Objects) (works : ℕ → Bool) : ArtifactState ArtifactDb :=
  ⟨ArtifactDb.empty, false, objects, works⟩

end ArtifactStore

/-! ## Histories -/

/-- The last of the versions of a key. -/
def lastOf (rows : List VersionRow) (key : String) : Option VersionRow :=
  (rows.filter (·.identityKey = key)).getLast?

/-- The version goes on the history: its number is above those of all earlier versions of its key, and
its content differs from the last one. -/
structure Succeeds (earlier : List VersionRow) (row : VersionRow) : Prop where
  above : ∀ r ∈ earlier, r.identityKey = row.identityKey → r.version < row.version
  differs : ∀ r, lastOf earlier row.identityKey = some r → r.contentHash ≠ row.contentHash

/-- Every version goes on the history of those before it. -/
def Chronicle (rows : List VersionRow) : Prop :=
  ∀ earlier row later, rows = earlier ++ row :: later → Succeeds earlier row

/-- The tables after versions were assigned in this order: of every key the newest version is the last
one that was assigned, and no number was assigned twice. -/
structure VersionHistory (rows : List VersionRow) (db : ArtifactDb) : Prop where
  chronicle : Chronicle rows
  newest : ∀ key, db.latest key = lastOf rows key
  /-- A key that was recorded has a version, and it is the highest ever assigned. -/
  kept : ∀ row ∈ rows, ∃ newest, db.latest row.identityKey = some newest ∧
    ∀ r ∈ rows, r.identityKey = row.identityKey → r.version ≤ newest.version

/-! ## Attempts -/

/-- Every version that an attempt refers to exists. -/
def AttemptsResolve (db : ArtifactDb) : Prop :=
  ∀ r ∈ db.attempts, ∃ row, db.version? r.identityKey r.version = some row

/-- Every version of a result exists. -/
def Resolved (rs : List Recorded) (db : ArtifactDb) : Prop :=
  ∀ r ∈ rs, ∃ row, db.version? r.identityKey r.version = some row

/-- Everything that an attempt refers to can be looked up, also in the result of a call that replays the
attempt. -/
structure AttemptsReadable (host : ArtifactHost) (storage : Option ObjectStorage)
    (s : ArtifactState ArtifactDb) : Prop where
  resolve : AttemptsResolve s.db
  replay : ∀ args now rs s', Prog.run (ArtifactState.exec storage) (record host storage args now) s =
    (.ok rs, s') → Resolved rs s'.db

/-- What a result refers to. -/
def Recorded.reference (r : Recorded) : String × ℕ := (r.identityKey, r.version)

/-- The call names an attempt. -/
def RecordArgs.HasAttempt (args : RecordArgs) : Prop := ∃ id, args.attemptId = some id ∧ id ≠ ""

/-- The call records the artifacts of another one again, for the same attempt. -/
structure RecordArgs.Replays (again first : RecordArgs) : Prop where
  artifacts : again.artifacts = first.artifacts
  workspaceRoot : again.workspaceRoot = first.workspaceRoot
  attemptId : again.attemptId = first.attemptId
  hasAttempt : first.HasAttempt

/-- The attempt of the call has its artifacts already, as these versions. -/
def Attempted (host : ArtifactHost) (args : RecordArgs) (db : ArtifactDb) :
    List PyValue → List (String × ℕ) → Prop :=
  List.Forall₂ fun x reference => ∃ a row, readArtifact x = .ok a ∧
    priorAttempt host args a db = some row ∧ (row.identityKey, row.version) = reference

/-- A deletion leaves the versions alone that an attempt refers to. -/
def ArtifactAction.SparesAttempts (action : ArtifactAction) (s : ArtifactState ArtifactDb) : Prop :=
  match action with
  | .record _ _ => True
  | .deleteOlderThan cutoff => ∀ r ∈ s.db.attempts, ∀ row,
      s.db.version? r.identityKey r.version = some row → outdated s.db cutoff row = false

/-! ## Contents -/

/-- The version that an element of a result names has the content. -/
def Recorded.Holds (db : ArtifactDb) (r : Recorded) (content : String) : Prop :=
  ∃ row, db.version? r.identityKey r.version = some row ∧ row.content = content

/-- `record` returns one element for each artifact, in order, and the version it names has the content
of the artifact. -/
def KeepsContents (host : ArtifactHost) (storage : Option ObjectStorage) (args : RecordArgs)
    (now : String) (s : ArtifactState ArtifactDb) (xs : List PyValue) : Prop :=
  ∃ rs s', Prog.run (ArtifactState.exec storage) (record host storage args now) s = (.ok rs, s') ∧
    List.Forall₂ (fun x r => ∃ a, readArtifact x = .ok a ∧ r.Holds s'.db a.content) xs rs

/-- The artifacts are records with a filename and a text, whose columns can be bound, and the backend
takes their contents. -/
structure Recordable (host : ArtifactHost) (storage : Option ObjectStorage) (args : RecordArgs)
    (now : String) (s : ArtifactState ArtifactDb) (xs : List PyValue) : Prop where
  artifacts : iterate args.artifacts = .ok xs
  readable : ∀ x ∈ xs, ∃ a, readArtifact x = .ok a
  bound : ∀ x ∈ xs, ∀ a, readArtifact x = .ok a → ∀ version objectId,
    ∃ row, host.versionRow args now a version objectId = .ok row
  works : storage.isSome = true → ∀ n, s.works n = true
  taken : ∀ backend, storage = some backend → ∀ x ∈ xs, ∀ a, readArtifact x = .ok a →
    a.content.utf8ByteSize ≤ backend.maxSizeBytes ∧
      ∀ version e, ∃ name, backend.locate e (objectIdOf (host.keyOf args a) version) = .ok name

/-- The attempt gives every file one content: what it has of a file already is the content of the
artifact, and two artifacts of the call for one file have the same content. -/
structure OneContent (host : ArtifactHost) (args : RecordArgs) (db : ArtifactDb) (xs : List PyValue) :
    Prop where
  table : ∀ x ∈ xs, ∀ a row, readArtifact x = .ok a → priorAttempt host args a db = some row →
    Recorded.Holds db ⟨row.identityKey, row.version, false⟩ a.content
  batch : args.HasAttempt → ∀ x ∈ xs, ∀ y ∈ xs, ∀ a b, readArtifact x = .ok a →
    readArtifact y = .ok b → host.keyOf args a = host.keyOf args b → a.content = b.content

/-- What the tables of a store say about contents: every version carries the hash of its content, the
attempt that recorded it is in the table of attempts, and no attempt refers to a version above the
newest. -/
structure ContentInv (host : ArtifactHost) (db : ArtifactDb) : Prop where
  hashes : ∀ r ∈ db.versions, r.contentHash = host.sha256 r.content
  linked : ∀ r ∈ db.versions, ∀ k, r.attemptArtifactKey = some k → ∃ row, db.attempt? k = some row
  below : ∀ r ∈ db.attempts, ∃ newest, db.latest r.identityKey = some newest ∧ r.version ≤ newest.version

end Galaxz
