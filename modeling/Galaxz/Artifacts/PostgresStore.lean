import Galaxz.Artifacts.Recording

/-!
# `core/storage/postgres_shared.py`: `PostgresArtifactStore`

The same store over PostgreSQL. It keeps the attempt of a version in a column of the version only, and
has no table of attempts. `Mirrors` is when it does with an artifact what the SQLite store does.
-/

namespace Galaxz

/-- What `psycopg2` and the server make of values that are no texts. -/
structure PostgresHost extends ArtifactHost where
  /-- The text that a `TEXT` column stores for a float. -/
  floatText : PyFloat → String
  /-- The text that a `TEXT` column stores for a list, if the list can be adapted. -/
  listText : List PyValue → Option String

/-- The table `artifact_versions`. -/
structure PgArtifactDb where
  versions : List VersionRow
  versions_nodup : (versions.map fun r => (r.identityKey, r.version)).Nodup
  identities_nodup : (versions.filterMap (·.attemptArtifactKey)).Nodup
  objects_nodup : (versions.filterMap (·.objectId)).Nodup

namespace PgArtifactDb

/-- A table without rows. -/
def empty : PgArtifactDb := ⟨[], ArtifactDb.empty.versions_nodup, List.nodup_nil, List.nodup_nil⟩

/-- `SELECT .. WHERE identity_key=:key ORDER BY version DESC LIMIT 1`. -/
def latest (db : PgArtifactDb) (key : String) : Option VersionRow :=
  Table.firstBy (fun a b => b.version ≤ a.version) (db.versions.filter (·.identityKey = key))

/-- `SELECT .. WHERE attempt_artifact_key=:attempt`. -/
def attempt? (db : PgArtifactDb) (attemptKey : String) : Option VersionRow :=
  db.versions.find? (·.attemptArtifactKey = some attemptKey)

/-- `INSERT INTO artifact_versions`. -/
def insertVersion (db : PgArtifactDb) (row : VersionRow) : Except PyError PgArtifactDb :=
  if hkey : ∀ r ∈ db.versions, (r.identityKey, r.version) ≠ (row.identityKey, row.version) then
    if hidentity : (row.attemptArtifactKey.toList ++ db.versions.filterMap (·.attemptArtifactKey)).Nodup
    then
      if hobject : (row.objectId.toList ++ db.versions.filterMap (·.objectId)).Nodup then
        .ok {
          versions := db.versions ++ [row]
          versions_nodup := Table.nodup_append _ db.versions_nodup hkey
          identities_nodup := Table.nodup_filterMap_append _ hidentity
          objects_nodup := Table.nodup_filterMap_append _ hobject }
      else .error (.integrityError "duplicate key value violates artifact_object_identity")
    else .error (.integrityError "duplicate key value violates artifact_attempt_identity")
  else .error (.integrityError "duplicate key value violates artifact_versions_pkey")

end PgArtifactDb

namespace PostgresHost

variable (host : PostgresHost)

/-- A text as a parameter. -/
def checkText (text : String) : Except PyError String :=
  if '\x00' ∈ text.toList then
    .error (.valueError "A string literal cannot contain NUL (0x00) characters.")
  else .ok text

/-- What a `TEXT` column stores for a parameter. -/
def bindText : PyValue → Except PyError (Option String)
  | .none => .ok none
  | .bool b => .ok (some (if b then "true" else "false"))
  | .int n => .ok (some (toString n))
  | .float x => .ok (some (host.floatText x))
  | .str s => do return some (← checkText s)
  | .list xs => match host.listText xs with
    | some text => .ok (some text)
    | none => .error (.dataError "can't adapt type 'list'")
  | .dict _ => .error (.dataError "can't adapt type 'dict'")
  | .other => .error (.dataError "can't adapt type")

/-- A text that may be missing as a parameter. -/
def checkOption : Option String → Except PyError (Option String)
  | none => .ok none
  | some text => do return some (← checkText text)

/-- The column `media_type` of a version that has the object. -/
def mediaTypeCell (a : Artifact) : Option String → Except PyError (Option String)
  | none => .ok none
  | some objectId => host.bindText (host.mediaTypeOf a objectId)

/-- The row of a new version. The content of a version that has an object is not stored. -/
def pgVersionRow (args : RecordArgs) (now : String) (a : Artifact) (version : ℕ)
    (objectId : Option String) : Except PyError VersionRow := do
  let key ← checkText (host.keyOf args a)
  let content ← checkText (if objectId.isSome then "" else a.content)
  let hash ← checkText (host.sha256 a.content)
  let filename ← host.bindText a.filename
  let language ← host.bindText (a.items.get "language")
  let artifactType ← host.bindText (a.items.get "artifact_type")
  let taskId ← checkText args.taskId
  let skill ← checkText args.skill
  let attemptKey ← checkOption (host.attemptKeyOf args a)
  let object ← checkOption objectId
  let mediaType ← host.mediaTypeCell a objectId
  let projectId ← checkOption args.projectId
  let organizationId ← checkOption args.organizationId
  let filename ← ArtifactHost.notNull "filename" filename
  return {
    identityKey := key
    version := version
    content := content
    contentHash := hash
    filename := filename
    language := language
    artifactType := artifactType
    taskId := taskId
    skill := skill
    createdAt := now
    attemptArtifactKey := attemptKey
    objectId := object
    objectSizeBytes := objectId.map fun _ => a.content.utf8ByteSize
    mediaType := mediaType
    projectId := projectId
    organizationId := organizationId }

end PostgresHost

namespace PostgresArtifactStore

variable (host : PostgresHost) (storage : Option ObjectStorage)

/-- The version whose row names the attempt. -/
def priorAttempt (args : RecordArgs) (a : Artifact) (db : PgArtifactDb) :
    Except PyError (Option VersionRow) :=
  match host.attemptKeyOf args a with
  | none => .ok none
  | some attemptKey => do return db.attempt? (← PostgresHost.checkText attemptKey)

/-- The newest version of the artifact. -/
def newest (args : RecordArgs) (a : Artifact) (db : PgArtifactDb) : Except PyError (Option VersionRow) :=
  do return db.latest (← PostgresHost.checkText (host.keyOf args a))

/-- The number of a new version after the newest one. -/
def nextVersion : Option VersionRow → ℕ
  | none => 1
  | some row => row.version + 1

/-- The loop of `record` over the artifacts; every insert reads the clock. -/
def recordArtifacts (args : RecordArgs) (now : ℕ → String) :
    List PyValue → PgArtifactDb → List Recorded →
      ArtifactProg PgArtifactDb (Except PyError (List Recorded × PgArtifactDb))
  | [], db, results => return .ok (results, db)
  | artifact :: artifacts, db, results =>
    match readArtifact artifact with
    | .error e => return .error e
    | .ok a => match priorAttempt host args a db with
      | .error e => return .error e
      | .ok (some row) =>
        recordArtifacts args now artifacts db (results ++ [⟨row.identityKey, row.version, false⟩])
      | .ok none => match newest host args a db with
        | .error e => return .error e
        | .ok row => match row.filter fun row => row.contentHash = host.sha256 a.content with
          | some row =>
            recordArtifacts args now artifacts db (results ++ [⟨host.keyOf args a, row.version, false⟩])
          | none => do
            let version := nextVersion row
            let put ← ArtifactStore.putObject storage (objectIdOf (host.keyOf args a) version) a.content
            match put with
            | .error e => return .error e
            | .ok objectId =>
              ArtifactStore.insertOrDiscard objectId
                (host.pgVersionRow args (now results.length) a version objectId >>= db.insertVersion)
                fun db => recordArtifacts args now artifacts db
                  (results ++ [⟨host.keyOf args a, version, true⟩])

/-- `record`. -/
def record (args : RecordArgs) (now : ℕ → String) : ArtifactProg PgArtifactDb (List Recorded) := do
  let db ← Prog.call .begin .pure
  match iterate args.artifacts with
  | .error e => ArtifactStore.finishRecord (.error e)
  | .ok artifacts => do
    let r ← recordArtifacts host storage args now artifacts db []
    ArtifactStore.finishRecord r

end PostgresArtifactStore

/-! ## Both stores -/

/-- A call of `record`, with its readings of the clock. -/
structure RecordCall where
  args : RecordArgs
  now : ℕ → String

section Mirrors

variable (host : PostgresHost) (storage : Option ObjectStorage)

/-- `record` on the SQLite store. -/
def ArtifactStore.answer (call : RecordCall) (s : ArtifactState ArtifactDb) :
    Except PyError (List Recorded) × ArtifactState ArtifactDb :=
  Prog.run (ArtifactState.exec storage)
    (ArtifactStore.record host.toArtifactHost storage call.args (call.now 0)) s

/-- `record` on the PostgreSQL store. -/
def PostgresArtifactStore.answer (call : RecordCall) (s : ArtifactState PgArtifactDb) :
    Except PyError (List Recorded) × ArtifactState PgArtifactDb :=
  Prog.run (ArtifactState.exec storage) (PostgresArtifactStore.record host storage call.args call.now) s

/-- A PostgreSQL store without rows. -/
def PostgresArtifactStore.fresh (objects : Objects) (works : ℕ → Bool) : ArtifactState PgArtifactDb :=
  ⟨PgArtifactDb.empty, false, objects, works⟩

/-- The SQLite store after the calls. -/
def ArtifactStore.after (calls : List RecordCall) (s : ArtifactState ArtifactDb) :
    ArtifactState ArtifactDb :=
  Machine.run (fun call s => (ArtifactStore.answer host storage call s).2) calls s

/-- The PostgreSQL store after the calls. -/
def PostgresArtifactStore.after (calls : List RecordCall) (s : ArtifactState PgArtifactDb) :
    ArtifactState PgArtifactDb :=
  Machine.run (fun call s => (PostgresArtifactStore.answer host storage call s).2) calls s

/-- Both calls raise, or both return the same. -/
def SameResult (r r' : Except PyError (List Recorded)) : Prop :=
  (∃ e e', r = .error e ∧ r' = .error e') ∨ ∃ rs, r = .ok rs ∧ r' = .ok rs

/-- Both stores return the same for all calls and end with the same version histories, and PostgreSQL
returns the versions of the first time to a call that replays an attempt. -/
structure SameRecordings (objects : Objects) (works : ℕ → Bool) (calls : List RecordCall) : Prop where
  answers : List.Forall₂ SameResult
    (Machine.answers (ArtifactStore.answer host storage) calls (ArtifactStore.fresh objects works))
    (Machine.answers (PostgresArtifactStore.answer host storage) calls
      (PostgresArtifactStore.fresh objects works))
  histories : ∀ key,
    ArtifactStore.history
        (ArtifactStore.after host storage calls (ArtifactStore.fresh objects works)).db.versions key =
      ArtifactStore.history (PostgresArtifactStore.after host storage calls
        (PostgresArtifactStore.fresh objects works)).db.versions key
  replays : ∀ before first between again later rs,
    calls = before ++ first :: between ++ again :: later → again.args.Replays first.args →
    (PostgresArtifactStore.answer host storage first (PostgresArtifactStore.after host storage before
      (PostgresArtifactStore.fresh objects works))).1 = .ok rs →
    ∃ rs', (PostgresArtifactStore.answer host storage again (PostgresArtifactStore.after host storage
        (before ++ first :: between) (PostgresArtifactStore.fresh objects works))).1 = .ok rs' ∧
      rs'.map Recorded.reference = rs.map Recorded.reference

/-- The value is a text that PostgreSQL takes. -/
def Clean (text : String) : Prop := '\x00' ∉ text.toList

instance (text : String) : Decidable (Clean text) := inferInstanceAs (Decidable (¬ _))

/-- The attempt has a version, by the row of the version itself. -/
def NamesAttempt (db : ArtifactDb) (row : AttemptVersionRow) : Prop :=
  ∃ v ∈ db.versions, v.attemptArtifactKey = some row.attemptArtifactKey

/-- The object id of a new version. -/
def newObjectId (args : RecordArgs) (a : Artifact) (db : ArtifactDb) : Option String :=
  storage.map fun _ => objectIdOf (host.keyOf args a)
    (ArtifactStore.nextVersion host.toArtifactHost args a db)

/-- PostgreSQL does with an artifact what SQLite does: its keys are texts that PostgreSQL takes; an
attempt that found its content as the newest version is replayed only while that version is still the
newest; and a new version is one that both engines store or that both refuse. -/
structure Mirrors (args : RecordArgs) (now : String) (a : Artifact) (db : ArtifactDb) : Prop where
  key : Clean (host.keyOf args a)
  attemptKey : ∀ attemptKey, host.attemptKeyOf args a = some attemptKey → Clean attemptKey
  replay : ∀ row, ArtifactStore.priorAttempt host.toArtifactHost args a db = some row →
    NamesAttempt db row ∨ ∃ v, ArtifactStore.unchanged host.toArtifactHost args a db = some v ∧
      row.identityKey = host.keyOf args a ∧ row.version = v.version
  fresh : ArtifactStore.priorAttempt host.toArtifactHost args a db = none →
    ArtifactStore.unchanged host.toArtifactHost args a db = none →
    ∀ now', raised (host.versionRow args now a (ArtifactStore.nextVersion host.toArtifactHost args a db)
        (newObjectId host storage args a db)) =
      raised (host.pgVersionRow args now' a (ArtifactStore.nextVersion host.toArtifactHost args a db)
        (newObjectId host storage args a db))

/-- Every artifact of the list is mirrored in the tables it is recorded in. -/
def MirrorsAll (args : RecordArgs) (now : String) : List PyValue → ArtifactDb → Prop
  | [], _ => True
  | x :: xs, db => ∀ a, readArtifact x = .ok a → Mirrors host storage args now a db ∧
      ∀ r db', Recording host.toArtifactHost args now a db r db' → MirrorsAll args now xs db'

/-- Every artifact of the call is mirrored. -/
def RecordCall.Mirrored (call : RecordCall) (s : ArtifactState ArtifactDb) : Prop :=
  ∀ artifacts, iterate call.args.artifacts = .ok artifacts →
    MirrorsAll host storage call.args (call.now 0) artifacts s.db

end Mirrors

end Galaxz
