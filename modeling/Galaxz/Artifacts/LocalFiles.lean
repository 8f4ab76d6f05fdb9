import Galaxz.Artifacts.Recording
import Galaxz.Lib.Keyed

/-!
# An `ArtifactStore` over the files of a `LocalObjectStorage`

The backend with the directory tree it works on, for a disk without faults. The id of an object becomes a
path: `resolve()` makes different ids one path, an object cannot be below another one, and a directory is
no object. `PutsClean` is when an artifact meets none of this.
-/

namespace Galaxz

/-- A path below the root of the backend. -/
abbrev FilePath := List (List Char)

/-- The files and the directories below the root. -/
structure FileTree where
  files : List (FilePath × String) := []
  dirs : List FilePath := []
deriving DecidableEq

namespace FileTree

def file? (t : FileTree) (p : FilePath) : Option String := (Keyed.get Prod.fst p t.files).map (·.2)

/-- The root is a directory. -/
def isDir (t : FileTree) (p : FilePath) : Bool := p.isEmpty || t.dirs.contains p

/-- A directory that a path needs is a file. -/
def blocked (t : FileTree) (p : FilePath) : Bool := p.dropLast.inits.any fun q => (t.file? q).isSome

/-- `mkdir(parents=True, exist_ok=True)` of the directory of a path. -/
def mkdirs (t : FileTree) (p : FilePath) : FileTree := { t with dirs := p.dropLast.inits ++ t.dirs }

/-- `unlink`. -/
def unlink (t : FileTree) (p : FilePath) : FileTree := { t with files := Keyed.remove Prod.fst p t.files }

/-- `os.replace`. -/
def replace (t : FileTree) (p : FilePath) (content : String) : FileTree :=
  { t with files := Keyed.put Prod.fst (p, content) t.files }

end FileTree

/-- A `LocalObjectStorage` and the paths that its file system takes. -/
structure LocalFiles where
  root : FilePath
  maxSizeBytes : ℕ
  takes : FilePath → Bool

namespace LocalFiles

variable (fs : LocalFiles)

/-- `_path`, below the root. -/
def target (objectId : String) : Except PyError FilePath :=
  if objectId = "" ∨ objectId.toList.head? = some '/' then
    .error (.valueError "object_id must be a non-empty relative key")
  else
    let path := LocalObjectStorage.resolve fs.root (LocalObjectStorage.split objectId.toList)
    if fs.root.isPrefixOf path then .ok (path.drop fs.root.length)
    else .error (.valueError "object_id escapes the object storage root")

/-- `put`. A failure of `mkdir` is no `ObjectStorageError`. -/
def put (objectId content : String) (t : FileTree) : Except PyError Unit × FileTree :=
  if fs.maxSizeBytes < content.utf8ByteSize then
    (.error (.objectStorageError "object exceeds configured size limit"), t)
  else match fs.target objectId with
    | .error e => (.error e, t)
    | .ok p =>
      if !fs.takes p then (.error (.osError "file name"), t)
      else if t.blocked p then (.error (.osError "not a directory"), t)
      else if t.isDir p then (.error (.objectStorageError "object publication failed"), t.mkdirs p)
      else (.ok (), (t.mkdirs p).replace p content)

/-- `get`. -/
def get (objectId : String) (t : FileTree) : Except PyError String :=
  match fs.target objectId with
  | .error e => .error e
  | .ok p => match t.file? p with
    | none => .error (.objectStorageError "object read failed")
    | some content => .ok content

/-- `delete`. -/
def delete (objectId : String) (t : FileTree) : Except PyError Unit × FileTree :=
  match fs.target objectId with
  | .error e => (.error e, t)
  | .ok p =>
    if (t.file? p).isSome then (.ok (), t.unlink p)
    else if t.blocked p || t.isDir p then (.error (.objectStorageError "object deletion failed"), t)
    else (.ok (), t)

/-- `list_ids`. -/
def listIds (t : FileTree) : List String :=
  t.files.map fun f => String.ofList (LocalObjectStorage.join f.1)

/-- The same backend, as the programs of the store know it. -/
def toStorage : ObjectStorage := localObjectStorage fs.root fs.maxSizeBytes

end LocalFiles

/-! ## The store -/

/-- The tables and the files. -/
structure LocalState where
  db : ArtifactDb
  tree : FileTree

namespace LocalState

/-- Nothing is recorded yet. -/
def fresh (tree : FileTree) : LocalState := ⟨.empty, tree⟩

/-- A call of the store. -/
def exec (fs : LocalFiles) :
    (call : ArtifactCall ArtifactDb) → LocalState → Except PyError call.Answer × LocalState
  | .begin, s => (.ok s.db, s)
  | .commit db, s => (.ok (), { s with db })
  | .rollback, s => (.ok (), s)
  | .select, s => (.ok s.db, s)
  | .put objectId content, s =>
    (.ok (fs.put objectId content s.tree).1, { s with tree := (fs.put objectId content s.tree).2 })
  | .delete objectId, s =>
    (.ok (fs.delete objectId s.tree).1, { s with tree := (fs.delete objectId s.tree).2 })
  | .listIds, s => (.ok (.ok (LocalFiles.listIds s.tree)), s)

end LocalState

/-- A call of `record`, with its reading of the clock. -/
structure TimedRecord where
  args : RecordArgs
  now : String

namespace ArtifactStore

variable (host : ArtifactHost) (fs : LocalFiles)

/-- `record` with the files. -/
def recordFiles (call : TimedRecord) (s : LocalState) : Except PyError (List Recorded) × LocalState :=
  Prog.run (LocalState.exec fs) (record host (some fs.toStorage) call.args call.now) s

/-- `record` with inline content. -/
def recordInline (call : TimedRecord) (s : LocalState) : Except PyError (List Recorded) × LocalState :=
  Prog.run (LocalState.exec fs) (record host none call.args call.now) s

/-- The scope of a request is that of the version: `ArtifactAccessPolicy.authorize`. -/
def authorizeScope (row : VersionRow) (projectId organizationId : Option String) : Except PyError Unit :=
  if row.projectId.any (· ≠ "") ∧ row.projectId ≠ projectId then
    .error (.permissionError "artifact is outside the requested project scope")
  else if row.organizationId.any (· ≠ "") ∧ row.organizationId ≠ organizationId then
    .error (.permissionError "artifact is outside the requested organization scope")
  else .ok ()

/-- `get_version` with the files. -/
def getVersionFiles (key : String) (version : ℕ) (projectId organizationId : Option String) (s : LocalState) :
    Except PyError (Option VersionRow) :=
  match s.db.version? key version with
  | none => .ok none
  | some row => match row.objectId with
    | none => .ok (some row)
    | some objectId =>
      if objectId = "" then .ok (some row)
      else do
        authorizeScope row projectId organizationId
        let content ← fs.get objectId s.tree
        return some { row with content }

/-! ## Transparency -/

/-- The store with the files after the calls. -/
def filesAfter (calls : List TimedRecord) (s : LocalState) : LocalState :=
  Machine.run (fun call s => (recordFiles host fs call s).2) calls s

/-- The store with inline content after the calls. -/
def inlineAfter (calls : List TimedRecord) (s : LocalState) : LocalState :=
  Machine.run (fun call s => (recordInline host fs call s).2) calls s

/-- The files cannot be told from inline content: all calls return the same, every recorded version has its
content for whoever may read it, and no two versions share an object. -/
structure Transparent (tree : FileTree) (calls : List TimedRecord) : Prop where
  answers : Machine.answers (recordFiles host fs) calls (.fresh tree) =
    Machine.answers (recordInline host fs) calls (.fresh tree)
  contents : ∀ row ∈ (inlineAfter host fs calls (.fresh tree)).db.versions, ∀ projectId organizationId,
    authorizeScope row projectId organizationId = .ok () →
    ∃ found, getVersionFiles fs row.identityKey row.version projectId organizationId
        (filesAfter host fs calls (.fresh tree)) = .ok (some found) ∧ found.content = row.content
  apart : ∀ r ∈ (filesAfter host fs calls (.fresh tree)).db.versions,
    ∀ r' ∈ (filesAfter host fs calls (.fresh tree)).db.versions, ∀ id id', r.objectId = some id →
    r'.objectId = some id' → fs.target id = fs.target id' →
    (r.identityKey, r.version) = (r'.identityKey, r'.version)

/-- The object of a new version: it is small enough, its id is a path below the root that the file system
takes, no directory of the path is a file and the path is no directory, the path is not that of the object of
another version, and its media type can be stored. -/
def cleanPut (db : ArtifactDb) (t : FileTree) (a : Artifact) (objectId : String) : Bool :=
  a.content.utf8ByteSize ≤ fs.maxSizeBytes && !raised (host.mediaTypeCell a (some objectId)) &&
    match fs.target objectId with
    | .error _ => false
    | .ok p => fs.takes p && !t.blocked p && !t.isDir p &&
        db.versions.all fun r => r.objectId.all fun id => fs.target id ≠ .ok p

/-- The puts of the loop of `record` are clean. -/
def putsClean (args : RecordArgs) (now : String) : List PyValue → ArtifactDb → FileTree → Bool
  | [], _, _ => true
  | artifact :: artifacts, db, t =>
    match readArtifact artifact with
    | .error _ => true
    | .ok a => match priorAttempt host args a db with
      | some _ => putsClean args now artifacts db t
      | none => match unchanged host args a db with
        | some row => match db.link (host.attemptKeyOf args a) (host.keyOf args a) row.version with
          | .error _ => true
          | .ok db => putsClean args now artifacts db t
        | none =>
          let version := nextVersion host args a db
          let objectId := objectIdOf (host.keyOf args a) version
          cleanPut host fs db t a objectId &&
            match host.versionRow args now a version (some objectId) >>= db.insertVersion with
            | .error _ => true
            | .ok db => match db.link (host.attemptKeyOf args a) (host.keyOf args a) version with
              | .error _ => true
              | .ok db => putsClean args now artifacts db (fs.put objectId a.content t).2

/-- The puts of a call are clean. -/
def PutsClean (call : TimedRecord) (s : LocalState) : Prop :=
  ∀ artifacts ∈ (iterate call.args.artifacts).toOption.toList,
    putsClean host fs call.args call.now artifacts s.db s.tree = true

instance (call : TimedRecord) (s : LocalState) : Decidable (PutsClean host fs call s) :=
  inferInstanceAs (Decidable (∀ artifacts ∈ _, _ = true))

end ArtifactStore

end Galaxz
