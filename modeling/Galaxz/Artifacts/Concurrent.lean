import Galaxz.Artifacts.PostgresStore

/-!
# Concurrent calls of `PostgresArtifactStore.record`

Calls of `record` that run at the same time, on one table and one backend. A call is the phase it is in,
and every statement on the database and every operation of the backend is a step of its own. Transactions
read what is committed and what they wrote themselves. The unique indexes cover the rows of open
transactions too: an insert waits for the end of a transaction that has a row with its key.
-/

namespace Galaxz

/-! ## The table -/

/-- The table `artifact_versions`; a row that is not committed yet has the call that inserted it. -/
structure SharedVersions where
  rows : List (Option ℕ × VersionRow)
  versions_nodup : (rows.map fun r => (r.2.identityKey, r.2.version)).Nodup
  identities_nodup : (rows.filterMap (·.2.attemptArtifactKey)).Nodup
  objects_nodup : (rows.filterMap (·.2.objectId)).Nodup

/-- What an `INSERT` does. -/
inductive Insertion where
  | waits
  | fails (e : PyError)
  | inserts (table : SharedVersions)

namespace SharedVersions

/-- A table without rows. -/
def empty : SharedVersions := ⟨[], ArtifactDb.empty.versions_nodup, List.nodup_nil, List.nodup_nil⟩

/-- The committed rows. -/
def committed (t : SharedVersions) : List VersionRow := (t.rows.filter (·.1 = none)).map (·.2)

/-- What the transaction of a call reads. -/
def view (t : SharedVersions) (call : ℕ) : PgArtifactDb where
  versions := (t.rows.filter fun r => r.1 = none ∨ r.1 = some call).map (·.2)
  versions_nodup := by
    rw [List.map_map]
    exact t.versions_nodup.sublist (List.filter_sublist.map _)
  identities_nodup := by
    rw [List.filterMap_map]
    exact t.identities_nodup.sublist (List.filter_sublist.filterMap _)
  objects_nodup := by
    rw [List.filterMap_map]
    exact t.objects_nodup.sublist (List.filter_sublist.filterMap _)

/-- An insert whose key some rows have: it waits for another transaction that is open, or fails. -/
def refuse (t : SharedVersions) (call : ℕ) (conflict : VersionRow → Bool) (e : PyError) : Insertion :=
  if t.rows.any fun r => conflict r.2 && r.1.any (· ≠ call) then .waits else .fails e

/-- `INSERT INTO artifact_versions`. -/
def insert (t : SharedVersions) (call : ℕ) (row : VersionRow) : Insertion :=
  if hkey : ∀ r ∈ t.rows, (r.2.identityKey, r.2.version) ≠ (row.identityKey, row.version) then
    if hidentity : (row.attemptArtifactKey.toList ++ t.rows.filterMap (·.2.attemptArtifactKey)).Nodup then
      if hobject : (row.objectId.toList ++ t.rows.filterMap (·.2.objectId)).Nodup then
        .inserts {
          rows := t.rows ++ [(some call, row)]
          versions_nodup := Table.nodup_append _ t.versions_nodup hkey
          identities_nodup := Table.nodup_filterMap_append _ hidentity
          objects_nodup := Table.nodup_filterMap_append _ hobject }
      else t.refuse call (fun r => r.objectId = row.objectId)
        (.integrityError "duplicate key value violates artifact_object_identity")
    else t.refuse call (fun r => r.attemptArtifactKey = row.attemptArtifactKey)
      (.integrityError "duplicate key value violates artifact_attempt_identity")
  else t.refuse call (fun r => (r.identityKey, r.version) = (row.identityKey, row.version))
    (.integrityError "duplicate key value violates artifact_versions_pkey")

/-- The transaction of a row after a commit. -/
def settle (call : ℕ) (r : Option ℕ × VersionRow) : Option ℕ × VersionRow :=
  if r.1 = some call then (none, r.2) else r

theorem settle_row (call : ℕ) (r : Option ℕ × VersionRow) : (settle call r).2 = r.2 := by
  unfold settle
  split_ifs <;> rfl

/-- The end of the transaction of a call by `COMMIT`. -/
def commit (t : SharedVersions) (call : ℕ) : SharedVersions where
  rows := t.rows.map (settle call)
  versions_nodup := by
    rw [List.map_map]
    simpa only [Function.comp_def, settle_row] using t.versions_nodup
  identities_nodup := by
    rw [List.filterMap_map]
    simpa only [Function.comp_def, settle_row] using t.identities_nodup
  objects_nodup := by
    rw [List.filterMap_map]
    simpa only [Function.comp_def, settle_row] using t.objects_nodup

/-- The end of the transaction of a call by `ROLLBACK`. -/
def rollback (t : SharedVersions) (call : ℕ) : SharedVersions where
  rows := t.rows.filter (·.1 ≠ some call)
  versions_nodup := t.versions_nodup.sublist (List.filter_sublist.map _)
  identities_nodup := t.identities_nodup.sublist (List.filter_sublist.filterMap _)
  objects_nodup := t.objects_nodup.sublist (List.filter_sublist.filterMap _)

end SharedVersions

/-! ## The backend -/

/-- A backend whose name for an object does not depend on the operation. -/
structure NamedStorage extends ObjectStorage where
  locate_same : ∀ e e' objectId name, locate e objectId = .ok name → locate e' objectId = .ok name

namespace NamedStorage

/-- `LocalObjectStorage`. -/
def ofLocal (root : List (List Char)) (maxSizeBytes : ℕ) : NamedStorage where
  toObjectStorage := localObjectStorage root maxSizeBytes
  locate_same := fun _ _ _ _ h => h

/-- `S3ObjectStorage`. -/
def ofS3 (maxSizeBytes : ℕ) : NamedStorage where
  toObjectStorage := s3ObjectStorage maxSizeBytes
  locate_same := by
    intro e e' objectId name h
    show S3ObjectStorage.key e' objectId = .ok name
    have h : S3ObjectStorage.key e objectId = .ok name := h
    unfold S3ObjectStorage.key at h ⊢
    split_ifs at h ⊢
    exact h

/-- The name of an object, if the backend takes its id. -/
def name? (storage : NamedStorage) (objectId : String) : Option String :=
  (storage.locate (.objectStorageError "object read failed") objectId).toOption

end NamedStorage

/-! ## The calls -/

/-- Where a call of `record` is. -/
inductive RecordPhase where
  /-- Before the lookup of the attempt for the next artifact, or the commit after the last one. -/
  | reading (args : RecordArgs) (artifacts : List PyValue) (results : List Recorded)
  /-- Before the lookup of the newest version. -/
  | seeking (args : RecordArgs) (a : Artifact) (artifacts : List PyValue) (results : List Recorded)
  /-- Before the `put` of a new version. -/
  | putting (args : RecordArgs) (a : Artifact) (version : ℕ) (artifacts : List PyValue)
      (results : List Recorded)
  /-- Before the insert of a new version. -/
  | inserting (args : RecordArgs) (a : Artifact) (version : ℕ) (artifacts : List PyValue)
      (results : List Recorded)
  /-- Before the deletion of an object whose insert failed. -/
  | discarding (objectId : String) (e : PyError)
  /-- Before the rollback. -/
  | failing (e : PyError)
  | ended (result : Except PyError (List Recorded))

/-- The calls, the table and the backend. -/
structure RecordSystem where
  table : SharedVersions
  objects : Objects
  calls : List RecordPhase

/-- A call begins, or makes its next step. The connection or the backend may fail in any step. -/
inductive RecordEvent where
  | start (args : RecordArgs)
  | move (call : ℕ) (works : Bool) (now : String)

namespace RecordSystem

/-- Nothing is recorded yet. -/
def init (objects : Objects) : RecordSystem := ⟨.empty, objects, []⟩

variable (host : PostgresHost) (storage : NamedStorage)

/-- The call goes on to another phase. -/
def goTo (s : RecordSystem) (call : ℕ) (p : RecordPhase) : RecordSystem :=
  { s with calls := s.calls.set call p }

/-- The connection is lost. -/
def connectionError : PyError := .dataError "connection failure"

/-- The lookup of the attempt, or the commit. -/
def read (call : ℕ) (works : Bool) (args : RecordArgs) (results : List Recorded) (s : RecordSystem) :
    List PyValue → RecordSystem
  | [] =>
    if works then goTo { s with table := s.table.commit call } call (.ended (.ok results))
    else s.goTo call (.failing connectionError)
  | artifact :: artifacts => match readArtifact artifact with
    | .error e => s.goTo call (.failing e)
    | .ok a =>
      if works then match PostgresArtifactStore.priorAttempt host args a (s.table.view call) with
        | .error e => s.goTo call (.failing e)
        | .ok (some row) =>
          s.goTo call (.reading args artifacts (results ++ [⟨row.identityKey, row.version, false⟩]))
        | .ok none => s.goTo call (.seeking args a artifacts results)
      else s.goTo call (.failing connectionError)

/-- The lookup of the newest version. -/
def seek (call : ℕ) (works : Bool) (args : RecordArgs) (a : Artifact) (artifacts : List PyValue)
    (results : List Recorded) (s : RecordSystem) : RecordSystem :=
  if works then match PostgresArtifactStore.newest host args a (s.table.view call) with
    | .error e => s.goTo call (.failing e)
    | .ok row => match row.filter fun row => row.contentHash = host.sha256 a.content with
      | some row =>
        s.goTo call (.reading args artifacts (results ++ [⟨host.keyOf args a, row.version, false⟩]))
      | none => s.goTo call (.putting args a (PostgresArtifactStore.nextVersion row) artifacts results)
  else s.goTo call (.failing connectionError)

/-- `put`. -/
def put (call : ℕ) (works : Bool) (args : RecordArgs) (a : Artifact) (version : ℕ)
    (artifacts : List PyValue) (results : List Recorded) (s : RecordSystem) : RecordSystem :=
  match storage.put works (objectIdOf (host.keyOf args a) version) a.content s.objects with
  | (.error e, objects) => goTo { s with objects } call (.failing e)
  | (.ok _, objects) => goTo { s with objects } call (.inserting args a version artifacts results)

/-- The `INSERT`; while it waits, nothing happens. -/
def insert (call : ℕ) (works : Bool) (now : String) (args : RecordArgs) (a : Artifact) (version : ℕ)
    (artifacts : List PyValue) (results : List Recorded) (s : RecordSystem) : RecordSystem :=
  let objectId := objectIdOf (host.keyOf args a) version
  if works then match host.pgVersionRow args now a version (some objectId) with
    | .error e => s.goTo call (.discarding objectId e)
    | .ok row => match s.table.insert call row with
      | .waits => s
      | .fails e => s.goTo call (.discarding objectId e)
      | .inserts table =>
        goTo { s with table } call
          (.reading args artifacts (results ++ [⟨host.keyOf args a, version, true⟩]))
  else s.goTo call (.discarding objectId connectionError)

/-- The deletion in the `except` clause. -/
def discard (call : ℕ) (works : Bool) (objectId : String) (e : PyError) (s : RecordSystem) : RecordSystem :=
  match storage.delete works objectId s.objects with
  | (.error e', objects) => goTo { s with objects } call (.failing e')
  | (.ok _, objects) => goTo { s with objects } call (.failing e)

/-- The next step of a call in a phase. -/
def advance (call : ℕ) (works : Bool) (now : String) (s : RecordSystem) : RecordPhase → RecordSystem
  | .reading args artifacts results => read host call works args results s artifacts
  | .seeking args a artifacts results => seek host call works args a artifacts results s
  | .putting args a version artifacts results => put host storage call works args a version artifacts results s
  | .inserting args a version artifacts results =>
    insert host call works now args a version artifacts results s
  | .discarding objectId e => discard storage call works objectId e s
  | .failing e => goTo { s with table := s.table.rollback call } call (.ended (.error e))
  | .ended _ => s

/-- One event. -/
def step : RecordEvent → RecordSystem → RecordSystem
  | .start args, s => match iterate args.artifacts with
    | .error e => { s with calls := s.calls ++ [.failing e] }
    | .ok artifacts => { s with calls := s.calls ++ [.reading args artifacts []] }
  | .move call works now, s => match s.calls[call]? with
    | none => s
    | some p => advance host storage call works now s p

/-- Every committed version has its own object, and the bytes of the object hash to its `content_hash`. -/
structure PayloadsKept (s : RecordSystem) : Prop where
  readable : ∀ row ∈ s.table.committed, ∃ objectId content, row.objectId = some objectId ∧
    storage.get objectId s.objects = .ok content ∧ host.sha256 content = row.contentHash
  own : s.table.committed.Pairwise fun row row' =>
    row.objectId.bind storage.name? ≠ row'.objectId.bind storage.name?

/-! ## Names in use -/

end RecordSystem

namespace RecordPhase

variable (host : PostgresHost)

/-- The object that the call has put and neither inserted nor deleted. -/
def held : RecordPhase → Option String
  | .inserting args a version _ _ => some (objectIdOf (host.keyOf args a) version)
  | .discarding objectId _ => some objectId
  | _ => none

/-- The object that the call is about to put. -/
def target : RecordPhase → Option String
  | .putting args a version _ _ => some (objectIdOf (host.keyOf args a) version)
  | _ => none

end RecordPhase

namespace RecordSystem

variable (host : PostgresHost) (storage : NamedStorage)

/-- The names of the objects of the rows and of those that calls hold. -/
def namesInUse (s : RecordSystem) : List String :=
  s.table.rows.filterMap (fun r => r.2.objectId.bind storage.name?) ++
    s.calls.filterMap fun p => (p.held host).bind storage.name?

/-- No `put` takes a name that is in use. -/
def PutsApart (event : RecordEvent) (s : RecordSystem) : Prop :=
  match event with
  | .start _ => True
  | .move call _ _ => ∀ name ∈ ((s.calls[call]?.bind (·.target host)).bind storage.name?).toList,
      name ∉ namesInUse host storage s

instance (event : RecordEvent) (s : RecordSystem) : Decidable (PutsApart host storage event s) :=
  match event with
  | .start _ => inferInstanceAs (Decidable True)
  | .move call _ _ => inferInstanceAs (Decidable (∀ name ∈
      ((s.calls[call]?.bind (·.target host)).bind storage.name?).toList, name ∉ namesInUse host storage s))

end RecordSystem

end Galaxz
