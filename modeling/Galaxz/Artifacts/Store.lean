import Galaxz.Artifacts.ObjectStorage
import Galaxz.Lib.Prog
import Galaxz.Lib.Sqlite
import Galaxz.Lib.Table

/-!
# `core/artifacts/store.py`: `ArtifactStore`

The tables of the artifact database and the methods of the store as programs. A method that writes
holds the lock of the store from `BEGIN` to the commit or the rollback, so nobody else changes the
tables in between and it works on them as it found them; the objects of the backend are shared all the
time.
-/

namespace Galaxz

/-- What the code takes from its libraries. -/
structure ArtifactHost extends Host where
  /-- The hexadecimal SHA-256 of the UTF-8 bytes of a text. -/
  sha256 : String → String
  /-- What an f-string writes for a value that is no string. -/
  format : PyValue → String
  /-- `mimetypes.guess_type`. -/
  guessType : String → Option String

/-! ## Tables -/

/-- A row of `artifact_versions`. -/
structure VersionRow where
  identityKey : String
  version : ℕ
  content : String
  contentHash : String
  filename : String
  language : Option String := none
  artifactType : Option String := none
  taskId : String
  skill : String
  createdAt : String
  attemptArtifactKey : Option String := none
  objectId : Option String := none
  objectSizeBytes : Option ℕ := none
  mediaType : Option String := none
  projectId : Option String := none
  organizationId : Option String := none
deriving DecidableEq

/-- A row of `artifact_attempt_versions`. -/
structure AttemptVersionRow where
  attemptArtifactKey : String
  identityKey : String
  version : ℕ
deriving DecidableEq

/-- The artifact database. -/
structure ArtifactDb where
  versions : List VersionRow
  attempts : List AttemptVersionRow
  versions_nodup : (versions.map fun r => (r.identityKey, r.version)).Nodup
  attempts_nodup : (attempts.map (·.attemptArtifactKey)).Nodup
  identities_nodup : (versions.filterMap (·.attemptArtifactKey)).Nodup
deriving DecidableEq

namespace ArtifactDb

/-- A database without rows. -/
def empty : ArtifactDb := ⟨[], [], List.nodup_nil, List.nodup_nil, List.nodup_nil⟩

/-- The versions of a key. -/
def versionsOf (db : ArtifactDb) (key : String) : List VersionRow :=
  db.versions.filter (·.identityKey = key)

/-- `SELECT .. WHERE identity_key = ? ORDER BY version DESC LIMIT 1`. -/
def latest (db : ArtifactDb) (key : String) : Option VersionRow :=
  Table.firstBy (fun a b => b.version ≤ a.version) (db.versionsOf key)

/-- `SELECT * FROM artifact_versions WHERE identity_key = ? AND version = ?`. -/
def version? (db : ArtifactDb) (key : String) (version : ℕ) : Option VersionRow :=
  db.versions.find? fun r => (r.identityKey, r.version) = (key, version)

/-- `SELECT .. FROM artifact_attempt_versions WHERE attempt_artifact_key = ?`. -/
def attempt? (db : ArtifactDb) (attemptKey : String) : Option AttemptVersionRow :=
  db.attempts.find? (·.attemptArtifactKey = attemptKey)

/-- `INSERT INTO artifact_versions`. -/
def insertVersion (db : ArtifactDb) (row : VersionRow) : Except PyError ArtifactDb :=
  if hkey : ∀ r ∈ db.versions, (r.identityKey, r.version) ≠ (row.identityKey, row.version) then
    if hidentity : (row.attemptArtifactKey.toList ++ db.versions.filterMap (·.attemptArtifactKey)).Nodup
    then .ok { db with
      versions := db.versions ++ [row]
      versions_nodup := Table.nodup_append _ db.versions_nodup hkey
      identities_nodup := Table.nodup_filterMap_append _ hidentity }
    else .error (.integrityError "UNIQUE constraint failed: artifact_versions.attempt_artifact_key")
  else .error
    (.integrityError "UNIQUE constraint failed: artifact_versions.identity_key, artifact_versions.version")

/-- `INSERT INTO artifact_attempt_versions`, for a call that has an attempt. -/
def link (db : ArtifactDb) (attemptKey : Option String) (key : String) (version : ℕ) :
    Except PyError ArtifactDb :=
  match attemptKey with
  | none => .ok db
  | some attemptKey =>
    if h : ∀ r ∈ db.attempts, r.attemptArtifactKey ≠ attemptKey then
      .ok { db with
        attempts := db.attempts ++ [⟨attemptKey, key, version⟩]
        attempts_nodup := Table.nodup_append _ db.attempts_nodup h }
    else .error
      (.integrityError "UNIQUE constraint failed: artifact_attempt_versions.attempt_artifact_key")

end ArtifactDb

/-! ## Artifacts -/

/-- The arguments of `record`. -/
structure RecordArgs where
  artifacts : PyValue
  workspaceRoot : String
  taskId : String
  skill : String
  attemptId : Option String := none
  projectId : Option String := none
  organizationId : Option String := none
deriving DecidableEq

/-- An element of the result of `record`. -/
structure Recorded where
  identityKey : String
  version : ℕ
  recorded : Bool
deriving DecidableEq

/-- An artifact with the values that `record` reads first. -/
structure Artifact where
  items : PyDict
  filename : PyValue
  content : String
deriving DecidableEq

/-- `for artifact in artifacts`. -/
def iterate : PyValue → Except PyError (List PyValue)
  | .list xs => .ok xs
  | .str s => .ok (s.toList.map fun c => .str (String.singleton c))
  | .dict items => .ok (items.map fun item => .str item.1)
  | _ => .error (.typeError "object is not iterable")

/-- `artifact[name]`. -/
def subscript (artifact : PyValue) (name : String) : Except PyError PyValue :=
  match artifact with
  | .dict items => match items.lookup name with
    | none => .error (.keyError name)
    | some v => .ok v
  | .str _ => .error (.typeError "string indices must be integers, not 'str'")
  | .list _ => .error (.typeError "list indices must be integers or slices, not str")
  | _ => .error (.typeError "object is not subscriptable")

/-- `artifact["filename"]`, `artifact["content"]` and `content.encode`. -/
def readArtifact (artifact : PyValue) : Except PyError Artifact := do
  let filename ← subscript artifact "filename"
  let content ← subscript artifact "content"
  match artifact, content with
  | .dict items, .str content => .ok ⟨items, filename, content⟩
  | _, _ => .error (.attributeError "object has no attribute 'encode'")

/-- `identity_key`. -/
def identityKey (workspaceRoot filename : String) : String := s!"{workspaceRoot}::{filename}"

/-- `f"{key}/v{next_version}"`. -/
def objectIdOf (key : String) (version : ℕ) : String := s!"{key}/v{version}"

namespace ArtifactHost

variable (host : ArtifactHost)

/-- What an f-string writes for a value. -/
def formatted : PyValue → String
  | .str s => s
  | v => host.format v

/-- The identity key of an artifact. -/
def keyOf (args : RecordArgs) (a : Artifact) : String :=
  identityKey args.workspaceRoot (host.formatted a.filename)

/-- `attempt_key`. -/
def attemptKeyOf (args : RecordArgs) (a : Artifact) : Option String :=
  match args.attemptId with
  | none => none
  | some attemptId => if attemptId = "" then none else some s!"{attemptId}::{host.keyOf args a}"

/-- `media_type or mimetypes.guess_type(object_id)[0] or "application/octet-stream"`. -/
def mediaTypeOf (a : Artifact) (objectId : String) : PyValue :=
  ((a.items.get "media_type").orElse
    (match host.guessType objectId with
      | none => .none
      | some t => .str t)).orElse (.str "application/octet-stream")

/-- The column `media_type` of a version that has the object. -/
def mediaTypeCell (a : Artifact) : Option String → Except PyError (Option String)
  | none => .ok none
  | some objectId => Sqlite.bindText host.toHost (host.mediaTypeOf a objectId)

/-- A column that takes no `NULL`. -/
def notNull (column : String) : Option String → Except PyError String
  | none => .error (.integrityError s!"NOT NULL constraint failed: {column}")
  | some text => .ok text

/-- The row of a new version, its parameters bound in order. `objectId` is that of the object it has. -/
def versionRow (args : RecordArgs) (now : String) (a : Artifact) (version : ℕ)
    (objectId : Option String) : Except PyError VersionRow := do
  let filename ← Sqlite.bindText host.toHost a.filename
  let language ← Sqlite.bindText host.toHost (a.items.get "language")
  let artifactType ← Sqlite.bindText host.toHost (a.items.get "artifact_type")
  let mediaType ← host.mediaTypeCell a objectId
  let filename ← notNull "artifact_versions.filename" filename
  return {
    identityKey := host.keyOf args a
    version := version
    content := a.content
    contentHash := host.sha256 a.content
    filename := filename
    language := language
    artifactType := artifactType
    taskId := args.taskId
    skill := args.skill
    createdAt := now
    attemptArtifactKey := host.attemptKeyOf args a
    objectId := objectId
    objectSizeBytes := objectId.map fun _ => a.content.utf8ByteSize
    mediaType := mediaType
    projectId := args.projectId
    organizationId := args.organizationId }

end ArtifactHost

/-! ## Calls -/

/-- The calls of a store on its database, with tables `δ`, and on the backend. An exception of the
backend is an answer, since the code catches it. -/
inductive ArtifactCall (δ : Type) where
  /-- The lock is taken and `BEGIN IMMEDIATE` executed. -/
  | begin
  /-- The transaction is committed and the lock released. -/
  | commit (db : δ)
  /-- The transaction is rolled back and the lock released. -/
  | rollback
  /-- The tables are read under the lock. -/
  | select
  | put (objectId content : String)
  | delete (objectId : String)
  | listIds

/-- What a call returns. -/
@[reducible] def ArtifactCall.Answer {δ : Type} : ArtifactCall δ → Type
  | .begin => δ
  | .commit _ => Unit
  | .rollback => Unit
  | .select => δ
  | .put _ _ => Except PyError Unit
  | .delete _ => Except PyError Unit
  | .listIds => Except PyError (List String)

/-- A database, its lock and the backend; `works` says which of the operations of the backend to come
go through. -/
structure ArtifactState (δ : Type) where
  db : δ
  locked : Bool
  objects : Objects
  works : ℕ → Bool

namespace ArtifactState

variable {δ : Type}

/-- The state after an operation of the backend. -/
def used (s : ArtifactState δ) (objects : Objects) : ArtifactState δ :=
  { s with objects, works := fun n => s.works (n + 1) }

/-- A call. Without a backend no method makes a call on one. -/
def exec (storage : Option ObjectStorage) :
    (call : ArtifactCall δ) → ArtifactState δ → Except PyError call.Answer × ArtifactState δ
  | .begin, s => (.ok s.db, { s with locked := true })
  | .commit db, s => (.ok (), { s with db, locked := false })
  | .rollback, s => (.ok (), { s with locked := false })
  | .select, s => (.ok s.db, s)
  | .put objectId content, s => match storage with
    | none => (.ok (.ok ()), s)
    | some storage =>
      let r := storage.put (s.works 0) objectId content s.objects
      (.ok r.1, s.used r.2)
  | .delete objectId, s => match storage with
    | none => (.ok (.ok ()), s)
    | some storage =>
      let r := storage.delete (s.works 0) objectId s.objects
      (.ok r.1, s.used r.2)
  | .listIds, s => match storage with
    | none => (.ok (.ok []), s)
    | some storage => (.ok (storage.listIds (s.works 0) s.objects), s.used s.objects)

end ArtifactState

/-- A program of a store. -/
abbrev ArtifactProg (δ : Type) := Prog PyError (ArtifactCall.Answer (δ := δ))

namespace ArtifactStore

variable (host : ArtifactHost) (storage : Option ObjectStorage)

/-! ## `record` -/

/-- `object_storage.put`, if there is a backend: the object id, or the exception. -/
def putObject {δ : Type} (objectId content : String) :
    ArtifactProg δ (Except PyError (Option String)) :=
  match storage with
  | none => return .ok none
  | some _ => do
    let r ← Prog.call (.put objectId content) .pure
    match r with
    | .error e => return .error e
    | .ok _ => return .ok (some objectId)

/-- The `except` clause of the insert: the object is deleted and the exception raised again, unless the
deletion raises. -/
def discardObject {δ : Type} (objectId : Option String) (e : PyError) : ArtifactProg δ PyError :=
  match objectId with
  | none => return e
  | some objectId => do
    let r ← Prog.call (.delete objectId) .pure
    match r with
    | .error e' => return e'
    | .ok _ => return e

/-- The rest of the loop, with the tables that a statement left. -/
def onTables {δ α : Type} (r : Except PyError δ) (k : δ → ArtifactProg δ (Except PyError α)) :
    ArtifactProg δ (Except PyError α) :=
  match r with
  | .error e => return .error e
  | .ok db => k db

/-- The rest of the loop after the insert of a version, whose object is discarded if it fails. -/
def insertOrDiscard {δ α : Type} (objectId : Option String) (r : Except PyError δ)
    (k : δ → ArtifactProg δ (Except PyError α)) : ArtifactProg δ (Except PyError α) :=
  match r with
  | .error e => do
    let e ← discardObject objectId e
    return .error e
  | .ok db => k db

/-- The version that the attempt has of the artifact already. -/
def priorAttempt (args : RecordArgs) (a : Artifact) (db : ArtifactDb) : Option AttemptVersionRow :=
  (host.attemptKeyOf args a).bind db.attempt?

/-- The newest version of the artifact, if it has the content. -/
def unchanged (args : RecordArgs) (a : Artifact) (db : ArtifactDb) : Option VersionRow :=
  (db.latest (host.keyOf args a)).filter fun row => row.contentHash = host.sha256 a.content

/-- `next_version`. -/
def nextVersion (args : RecordArgs) (a : Artifact) (db : ArtifactDb) : ℕ :=
  (match db.latest (host.keyOf args a) with
    | none => 0
    | some row => row.version) + 1

/-- The loop of `record` over the artifacts, on the tables of its transaction. -/
def recordArtifacts (args : RecordArgs) (now : String) :
    List PyValue → ArtifactDb → List Recorded →
      ArtifactProg ArtifactDb (Except PyError (List Recorded × ArtifactDb))
  | [], db, results => return .ok (results, db)
  | artifact :: artifacts, db, results =>
    match readArtifact artifact with
    | .error e => return .error e
    | .ok a => match priorAttempt host args a db with
      | some row =>
        recordArtifacts args now artifacts db (results ++ [⟨row.identityKey, row.version, false⟩])
      | none => match unchanged host args a db with
        | some row =>
          onTables (db.link (host.attemptKeyOf args a) (host.keyOf args a) row.version) fun db =>
            recordArtifacts args now artifacts db (results ++ [⟨host.keyOf args a, row.version, false⟩])
        | none => do
          let version := nextVersion host args a db
          let put ← putObject storage (objectIdOf (host.keyOf args a) version) a.content
          match put with
          | .error e => return .error e
          | .ok objectId =>
            insertOrDiscard objectId (host.versionRow args now a version objectId >>= db.insertVersion)
              fun db => onTables (db.link (host.attemptKeyOf args a) (host.keyOf args a) version)
                fun db => recordArtifacts args now artifacts db
                  (results ++ [⟨host.keyOf args a, version, true⟩])

/-- The end of the transaction. -/
def finishRecord {δ : Type} : Except PyError (List Recorded × δ) → ArtifactProg δ (List Recorded)
  | .error e => do
    Prog.call .rollback .pure
    .raise e
  | .ok (results, db) => do
    Prog.call (.commit db) .pure
    return results

/-- `record`. -/
def record (args : RecordArgs) (now : String) : ArtifactProg ArtifactDb (List Recorded) := do
  let db ← Prog.call .begin .pure
  match iterate args.artifacts with
  | .error e => finishRecord (.error e)
  | .ok artifacts => do
    let r ← recordArtifacts host storage args now artifacts db []
    finishRecord r

/-! ## Reads -/

/-- `history`, without the times of the clock: the numbers, the tasks, the skills and the hashes of the
versions of a key, the newest first. -/
def history (versions : List VersionRow) (key : String) : List (ℕ × String × String × String) :=
  ((versions.filter (·.identityKey = key)).map fun r =>
    (r.version, r.taskId, r.skill, r.contentHash)).insertionSort fun a b => b.1 ≤ a.1

/-- `ArtifactAccessPolicy.authorize` of a request without a scope. -/
def authorize (row : VersionRow) : Except PyError Unit :=
  if row.projectId.any (· ≠ "") then
    .error (.permissionError "artifact is outside the requested project scope")
  else if row.organizationId.any (· ≠ "") then
    .error (.permissionError "artifact is outside the requested organization scope")
  else .ok ()

/-- `get_version` of a request without a scope. -/
def getVersion {δ : Type} (version? : δ → String → ℕ → Option VersionRow) (s : ArtifactState δ)
    (key : String) (version : ℕ) : Except PyError (Option VersionRow) :=
  match version? s.db key version with
  | none => .ok none
  | some row => match storage, row.objectId with
    | some storage, some objectId =>
      if objectId = "" then .ok (some row)
      else do
        authorize row
        let content ← storage.get objectId s.objects
        return some { row with content }
    | _, _ => .ok (some row)

/-! ## `delete_older_than` and `cleanup_orphans` -/

/-- The `WHERE` clause of `delete_older_than`: `version < NULL` is not true. -/
def outdated (db : ArtifactDb) (cutoff : String) (r : VersionRow) : Bool :=
  r.createdAt < cutoff && match db.latest r.identityKey with
    | none => false
    | some newest => r.version < newest.version

/-- The tables without the versions that `delete_older_than` removes. -/
def prune (db : ArtifactDb) (cutoff : String) : ArtifactDb where
  versions := db.versions.filter fun r => !outdated db cutoff r
  attempts := db.attempts
  versions_nodup := db.versions_nodup.sublist (List.filter_sublist.map _)
  attempts_nodup := db.attempts_nodup
  identities_nodup := db.identities_nodup.sublist (List.filter_sublist.filterMap _)

/-- The deletion of objects one by one; an exception ends it. -/
def deleteObjects {δ : Type} : List String → List String → ArtifactProg δ (List String)
  | [], deleted => return deleted
  | objectId :: objectIds, deleted => do
    let r ← Prog.call (.delete objectId) .pure
    match r with
    | .error e => .raise e
    | .ok _ => deleteObjects objectIds (deleted ++ [objectId])

/-- The object ids of rows, without the empty ones. -/
def objectIds (rows : List VersionRow) : List String :=
  (rows.filterMap (·.objectId)).filter (· ≠ "")

/-- `delete_older_than`. -/
def deleteOlderThan (cutoff : String) : ArtifactProg ArtifactDb (List String) := do
  let db ← Prog.call .begin .pure
  Prog.call (.commit (prune db cutoff)) .pure
  match storage with
  | none => return []
  | some _ => deleteObjects (objectIds (db.versions.filter (outdated db cutoff))) []

/-- `cleanup_orphans`. -/
def cleanupOrphans : ArtifactProg ArtifactDb (List String) :=
  match storage with
  | none => return []
  | some _ => do
    let db ← Prog.call .select .pure
    let ids ← Prog.call .listIds .pure
    match ids with
    | .error e => .raise e
    | .ok ids => deleteObjects (ids.filter (· ∉ db.versions.filterMap (·.objectId))) []

end ArtifactStore

end Galaxz
