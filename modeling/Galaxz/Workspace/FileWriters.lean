import Galaxz.Artifacts.ObjectStorage
import Galaxz.Lib.Disk
import Galaxz.Lib.PyValue

/-!
# The two file writers

`services/file_writer.py` writes the artifacts of a routed task and of a rollback, and
`workspace/file_writer.py` those that Rigel makes. A path is the list of its names from `/` on; the root
that a writer is given has been joined with the working directory.
-/

namespace Galaxz

/-- The names of a path, as `pathlib` reads it: empty parts and `.` go. -/
def pathNames (text : String) : DiskPath :=
  (LocalObjectStorage.split text.toList).filter fun part => part ≠ [] ∧ part ≠ ['.']

/-- `base / text`. -/
def joinPath (base : DiskPath) (text : String) : DiskPath :=
  if text.toList.head? = some '/' then pathNames text else base ++ pathNames text

/-! ## `services/file_writer.py` -/

/-- An entry of the list that `write` returns. -/
structure FileResult where
  filename : String
  /-- `str(full_path)`, by its names. -/
  path : DiskPath
  written : Bool
  artifactType : PyValue
  language : PyValue
  error : Option PyError

namespace ServicesFileWriter

variable (sys : DiskSystem)

/-- `FileWriter(workspace_root)`: the root that it writes to. -/
def init (workspaceRoot : DiskPath) (d : Disk) : Except PyError DiskPath :=
  let root := sys.locate workspaceRoot []
  if sys.unresolvable workspaceRoot then .error (.runtimeError "Symlink loop")
  else if root.isEmpty || (d.node root).isSome then .ok root
  else .error (.osError "workspace_root does not exist")

/-- `self.workspace_root / subdir if subdir else self.workspace_root`. -/
def base (root : DiskPath) (subdir : Option String) : DiskPath :=
  if subdir.getD "" = "" then root else joinPath root (subdir.getD "")

/-- The `try` block of `write`. -/
def tryWrite (fullPath : DiskPath) (artifact : PyDict) (d : Disk) : Except PyError Unit × Disk :=
  match sys.mkdir fullPath.dropLast d with
  | (.error e, d) => (.error e, d)
  | (.ok _, d) =>
    match artifact.lookup "content" with
    | none => (.error (.keyError "content"), d)
    | some (.str content) => sys.writeText fullPath content d
    | some _ => (.error (.typeError "data must be str"), d)

/-- The body of the loop of `write`. -/
def writeArtifact (base : DiskPath) (artifact : PyDict) (d : Disk) : Except PyError FileResult × Disk :=
  match artifact.lookup "filename" with
  | none => (.error (.keyError "filename"), d)
  | some (.str filename) =>
    let fullPath := joinPath base filename
    let done := tryWrite sys fullPath artifact d
    (.ok {
      filename
      path := fullPath
      written := !raised done.1
      artifactType := (artifact.lookup "artifact_type").getD (.str "")
      language := (artifact.lookup "language").getD (.str "")
      error := match done.1 with
        | .error e => some e
        | .ok _ => none }, done.2)
  | some _ => (.error (.typeError "unsupported operand type(s) for /"), d)

/-- `write`. -/
def write (root : DiskPath) (artifacts : List PyDict) (subdir : Option String) (d : Disk) :
    Except PyError (List FileResult) × Disk :=
  forEach (writeArtifact sys (base root subdir)) artifacts d

/-- The place that the filename of an artifact leads to. -/
def place (base : DiskPath) (artifact : PyDict) : DiskPath :=
  match artifact.lookup "filename" with
  | some (.str filename) => sys.locate (joinPath base filename) []
  | _ => sys.locate base []

/-- The artifact has a filename and a content, and its file can be written. -/
def Writes (base : DiskPath) (artifact : PyDict) (d : Disk) : Prop :=
  ∃ filename content, artifact.lookup "filename" = some (.str filename) ∧
    artifact.lookup "content" = some (.str content) ∧ sys.Writable d (joinPath base filename)

end ServicesFileWriter

/-! ## `workspace/file_writer.py` -/

structure WrittenArtifact where
  filename : String
  absolutePath : DiskPath
  relativePath : String
  sizeBytes : ℕ

namespace WorkspaceFileWriter

variable (sys : DiskSystem)

/-- `(self._root / filename).resolve()`. -/
def fullPath (root : DiskPath) (filename : String) : DiskPath := sys.locate (joinPath root filename) []

/-- `write`. -/
def write (root : DiskPath) (filename content : String) (d : Disk) : Except PyError WrittenArtifact × Disk :=
  if sys.unresolvable (joinPath root filename) || sys.unresolvable root then
    (.error (.runtimeError "Symlink loop"), d)
  else if (sys.locate root []).isPrefixOf (fullPath sys root filename) then
    match sys.mkdir (fullPath sys root filename).dropLast d with
    | (.error e, d) => (.error e, d)
    | (.ok _, d) =>
      match sys.writeText (fullPath sys root filename) content d with
      | (.error e, d) => (.error e, d)
      | (.ok _, d) => (.ok {
          filename
          absolutePath := fullPath sys root filename
          relativePath := filename
          sizeBytes := content.utf8ByteSize }, d)
  else (.error (.valueError "filename escapes workspace root"), d)

/-- The calls of `write` that Rigel's loop makes, for filenames with contents. -/
def writeAll (root : DiskPath) (artifacts : List (String × String)) (d : Disk) :
    Except PyError (List WrittenArtifact) × Disk :=
  forEach (fun a d => write sys root a.1 a.2 d) artifacts d

/-- The file of the root itself can be written, so that there is no directory, and a filename that leads
there is not refused. -/
def OverwritesRoot (root : DiskPath) (artifact : String × String) (d : Disk) : Prop :=
  sys.unresolvable (joinPath root artifact.1) = false ∧ sys.unresolvable root = false ∧
  fullPath sys root artifact.1 = sys.locate root [] ∧ sys.Writable d (sys.locate root [])

end WorkspaceFileWriter

/-! ## Containment -/

/-- A place below a directory. -/
def Below (root p : DiskPath) : Prop := root <+: p ∧ p ≠ root

/-- Only files below the root were opened for writing, and every artifact that leads elsewhere was reported
by an exception or by its result. -/
structure Contained {α β : Type} (root : DiskPath) (place : α → DiskPath) (Reported : β → Prop)
    (artifacts : List α) (r : Except PyError (List β) × Disk) : Prop where
  inside : ∀ p ∈ r.2.opened, Below root p
  reported : ∀ results, r.1 = .ok results →
    List.Forall₂ (fun a result => ¬ Below root (place a) → Reported result) artifacts results

end Galaxz
