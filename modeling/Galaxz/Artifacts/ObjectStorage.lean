import Galaxz.Lib.PyError
import Mathlib.Data.List.Sort

/-!
# `core/artifacts/object_storage.py`

The backends that hold the payloads of artifacts. A backend keeps each object under a name that it makes
of the object id: a file below its root, or the key of a bucket. Its disk or its service may refuse any
operation.
-/

namespace Galaxz

/-- The objects of a backend, the content of each under its name. -/
abbrev Objects := List (String × String)

namespace Objects

def read (objects : Objects) (name : String) : Option String := objects.lookup name

def remove (name : String) (objects : Objects) : Objects := objects.filter (·.1 ≠ name)

def write (name content : String) (objects : Objects) : Objects :=
  (name, content) :: objects.remove name

theorem read_remove (objects : Objects) (x name : String) :
    (objects.remove name).read x = if x = name then none else objects.read x := by
  induction objects with
  | nil => simp [remove, read]
  | cons o objects ih =>
    obtain ⟨n, content⟩ := o
    simp only [remove, read] at ih ⊢
    by_cases hn : n = name
    · subst hn
      rw [List.filter_cons_of_neg (by simp), ih, List.lookup_cons]
      by_cases hx : x = n
      · simp [hx]
      · have hx' : (x == n) = false := beq_eq_false_iff_ne.mpr hx
        simp [hx, hx']
    · rw [List.filter_cons_of_pos (by simpa using hn), List.lookup_cons, List.lookup_cons, ih]
      by_cases hx : x = n
      · simp [hx, hn]
      · have hx' : (x == n) = false := beq_eq_false_iff_ne.mpr hx
        simp [hx']

theorem read_write (objects : Objects) (x name content : String) :
    (objects.write name content).read x = if x = name then some content else objects.read x := by
  show ((name, content) :: objects.remove name).lookup x = _
  rw [List.lookup_cons]
  by_cases hx : x = name
  · simp [hx]
  · have hx' : (x == name) = false := beq_eq_false_iff_ne.mpr hx
    simp only [hx', hx, if_false]
    have h := read_remove objects x name
    rw [if_neg hx] at h
    exact h

end Objects

/-- A backend. -/
structure ObjectStorage where
  maxSizeBytes : ℕ
  /-- The name of an object: `_path` and `_key`. The exception is the one that the operation raises for
  a failure of the backend. -/
  locate : PyError → String → Except PyError String
  /-- The names that `list_ids` reports of those there are. -/
  listing : List String → List String
  listing_subset : ∀ names, ∀ name ∈ listing names, name ∈ names

/-! ## `LocalObjectStorage` -/

namespace LocalObjectStorage

/-- The parts of a path, as the separators cut it. -/
def split : List Char → List (List Char)
  | [] => [[]]
  | c :: cs => if c = '/' then [] :: split cs else match split cs with
    | [] => [[c]]
    | part :: parts => (c :: part) :: parts

/-- `resolve()`: empty parts and `.` go, and `..` takes the part before it. -/
def resolve : List (List Char) → List (List Char) → List (List Char)
  | path, [] => path
  | path, part :: parts =>
    if part = [] ∨ part = ['.'] then resolve path parts
    else if part = ['.', '.'] then resolve path.dropLast parts
    else resolve (path ++ [part]) parts

/-- `str(path.relative_to(root))`. -/
def join : List (List Char) → List Char
  | [] => []
  | [part] => part
  | part :: parts => part ++ '/' :: join parts

/-- `_path`: the name of the object below the root. -/
def path (root : List (List Char)) (objectId : String) : Except PyError String :=
  if objectId = "" ∨ objectId.toList.head? = some '/' then
    .error (.valueError "object_id must be a non-empty relative key")
  else
    let target := resolve root (split objectId.toList)
    if root.isPrefixOf target then .ok (String.ofList (join (target.drop root.length)))
    else .error (.valueError "object_id escapes the object storage root")

end LocalObjectStorage

/-- `LocalObjectStorage`. The name of an object is never one of an upload in progress. -/
def localObjectStorage (root : List (List Char)) (maxSizeBytes : ℕ) : ObjectStorage where
  maxSizeBytes := maxSizeBytes
  locate := fun _ => LocalObjectStorage.path root
  listing := id
  listing_subset := fun _ _ h => h

/-! ## `S3ObjectStorage` -/

namespace S3ObjectStorage

/-- `_key` below the prefix. -/
def key (failure : PyError) (objectId : String) : Except PyError String :=
  if objectId = "" ∨ objectId.toList.head? = some '/' ∨
      ['.', '.'] ∈ LocalObjectStorage.split objectId.toList then .error failure
  else .ok objectId

/-- The keys that one `list_objects_v2` returns. -/
def pageSize : ℕ := 1000

end S3ObjectStorage

/-- `S3ObjectStorage`; `list_ids` asks for the first page of the keys in order. -/
def s3ObjectStorage (maxSizeBytes : ℕ) : ObjectStorage where
  maxSizeBytes := maxSizeBytes
  locate := S3ObjectStorage.key
  listing := fun names => (names.insertionSort fun a b => a ≤ b).take S3ObjectStorage.pageSize
  listing_subset := fun _ _ h => List.mem_insertionSort _ |>.mp (List.mem_of_mem_take h)

/-! ## Operations -/

namespace ObjectStorage

variable (storage : ObjectStorage)

/-- `put`; `works` says whether the backend does the write. -/
def put (works : Bool) (objectId content : String) (objects : Objects) : Except PyError Unit × Objects :=
  if storage.maxSizeBytes < content.utf8ByteSize then
    (.error (.objectStorageError "object exceeds configured size limit"), objects)
  else match storage.locate (.objectStorageError "object publication failed") objectId with
    | .error e => (.error e, objects)
    | .ok name =>
      if works then (.ok (), objects.write name content)
      else (.error (.objectStorageError "object publication failed"), objects)

/-- `get`. -/
def get (objectId : String) (objects : Objects) : Except PyError String :=
  match storage.locate (.objectStorageError "object read failed") objectId with
  | .error e => .error e
  | .ok name => match objects.read name with
    | none => .error (.objectStorageError "object read failed")
    | some content => .ok content

/-- `delete`; an object that is not there is no error. -/
def delete (works : Bool) (objectId : String) (objects : Objects) : Except PyError Unit × Objects :=
  match storage.locate (.objectStorageError "object deletion failed") objectId with
  | .error e => (.error e, objects)
  | .ok name =>
    if works then (.ok (), objects.remove name)
    else (.error (.objectStorageError "object deletion failed"), objects)

/-- `list_ids`. -/
def listIds (works : Bool) (objects : Objects) : Except PyError (List String) :=
  if works then .ok (storage.listing (objects.map (·.1)))
  else .error (.objectStorageError "object listing failed")

end ObjectStorage

end Galaxz
