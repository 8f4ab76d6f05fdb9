import Galaxz.Artifacts.LocalFiles
import Galaxz.Artifacts.Proofs.HistoryProofs
import Galaxz.Artifacts.Proofs.PostgresProofs
import Mathlib.Data.List.Pairwise

/-!
# When the files are transparent

The store with inline content has the rows of the store with files without the columns of the objects.
Clean puts keep the object of every version on a path of its own, so both stores go through `record` in
the same way.
-/

namespace Galaxz

/-! ## Rows without objects -/

/-- The row without its object. -/
def VersionRow.inlined (r : VersionRow) : VersionRow :=
  { r with objectId := none, objectSizeBytes := none, mediaType := none }

/-- The tables without the objects. -/
def ArtifactDb.inlined (db : ArtifactDb) : ArtifactDb where
  versions := db.versions.map VersionRow.inlined
  attempts := db.attempts
  versions_nodup := by
    rw [List.map_map]
    exact db.versions_nodup
  attempts_nodup := db.attempts_nodup
  identities_nodup := by
    rw [List.filterMap_map]
    exact db.identities_nodup

namespace ArtifactStore

variable {host : ArtifactHost} {args : RecordArgs} {now : String} {a : Artifact} {db : ArtifactDb}

theorem inlined_latest (db : ArtifactDb) (key : String) :
    db.inlined.latest key = (db.latest key).map VersionRow.inlined := by
  unfold ArtifactDb.latest ArtifactDb.versionsOf
  show Table.firstBy _ ((db.versions.map VersionRow.inlined).filter _) = _
  rw [List.filter_map, Table.firstBy_map]
  rfl

theorem inlined_unchanged (db : ArtifactDb) :
    unchanged host args a db.inlined = (unchanged host args a db).map VersionRow.inlined := by
  unfold unchanged
  rw [inlined_latest]
  cases db.latest (host.keyOf args a) with
  | none => rfl
  | some row =>
    have hhash : row.inlined.contentHash = row.contentHash := rfl
    simp only [Option.map_some, Option.filter_some, hhash]
    split_ifs <;> rfl

theorem inlined_nextVersion (db : ArtifactDb) : nextVersion host args a db.inlined = nextVersion host args a db := by
  unfold nextVersion
  rw [inlined_latest]
  cases db.latest (host.keyOf args a) <;> rfl

theorem inlined_link (db : ArtifactDb) (attemptKey : Option String) (key : String) (version : ℕ) :
    db.inlined.link attemptKey key version = (db.link attemptKey key version).map ArtifactDb.inlined := by
  cases attemptKey with
  | none => rfl
  | some attemptKey =>
    by_cases h : ∀ r ∈ db.attempts, r.attemptArtifactKey ≠ attemptKey
    · have h' : ∀ r ∈ db.inlined.attempts, r.attemptArtifactKey ≠ attemptKey := h
      simp only [ArtifactDb.link]
      rw [dif_pos h, dif_pos h']
      rfl
    · have h' : ¬ ∀ r ∈ db.inlined.attempts, r.attemptArtifactKey ≠ attemptKey := h
      simp only [ArtifactDb.link]
      rw [dif_neg h, dif_neg h']
      rfl

theorem inlined_insertVersion (db : ArtifactDb) (row : VersionRow) :
    db.inlined.insertVersion row.inlined = (db.insertVersion row).map ArtifactDb.inlined := by
  have hkey : (∀ r ∈ db.inlined.versions,
      (r.identityKey, r.version) ≠ (row.inlined.identityKey, row.inlined.version)) ↔
        ∀ r ∈ db.versions, (r.identityKey, r.version) ≠ (row.identityKey, row.version) :=
    List.forall_mem_map
  have hidentities : db.inlined.versions.filterMap (·.attemptArtifactKey) =
      db.versions.filterMap (·.attemptArtifactKey) := List.filterMap_map
  unfold ArtifactDb.insertVersion
  by_cases h : ∀ r ∈ db.versions, (r.identityKey, r.version) ≠ (row.identityKey, row.version)
  · by_cases h' : (row.attemptArtifactKey.toList ++ db.versions.filterMap (·.attemptArtifactKey)).Nodup
    · have h'' : (row.inlined.attemptArtifactKey.toList ++
          db.inlined.versions.filterMap (·.attemptArtifactKey)).Nodup := by
        rw [hidentities]
        exact h'
      rw [dif_pos h, dif_pos h', dif_pos (hkey.2 h), dif_pos h'']
      show Except.ok _ = Except.ok _
      congr 1
      simp only [ArtifactDb.inlined, List.map_append, List.map_singleton]
    · have h'' : ¬ (row.inlined.attemptArtifactKey.toList ++
          db.inlined.versions.filterMap (·.attemptArtifactKey)).Nodup := by
        rw [hidentities]
        exact h'
      rw [dif_pos h, dif_neg h', dif_pos (hkey.2 h), dif_neg h'']
      rfl
  · rw [dif_neg h, dif_neg (fun hin => h (hkey.1 hin))]
    rfl

/-- The row of a version without an object, if the media type of its object can be stored. -/
theorem inlined_versionRow {objectId : String} {version : ℕ}
    (h : raised (host.mediaTypeCell a (some objectId)) = false) :
    host.versionRow args now a version none =
      (host.versionRow args now a version (some objectId)).map VersionRow.inlined := by
  unfold ArtifactHost.versionRow
  cases Sqlite.bindText host.toHost a.filename with
  | error e => rfl
  | ok filename =>
    cases Sqlite.bindText host.toHost (a.items.get "language") with
    | error e => rfl
    | ok language =>
      cases Sqlite.bindText host.toHost (a.items.get "artifact_type") with
      | error e => rfl
      | ok artifactType =>
        cases hm : host.mediaTypeCell a (some objectId) with
        | error e =>
          rw [hm] at h
          cases h
        | ok mediaType => cases filename <;> rfl

/-- The insert of a version, without its object. -/
theorem inlined_insert {objectId : String} {version : ℕ} (db : ArtifactDb)
    (h : raised (host.mediaTypeCell a (some objectId)) = false) :
    (host.versionRow args now a version none >>= db.inlined.insertVersion) =
      (host.versionRow args now a version (some objectId) >>= db.insertVersion).map ArtifactDb.inlined := by
  rw [inlined_versionRow h]
  cases host.versionRow args now a version (some objectId) with
  | error e => rfl
  | ok row => exact inlined_insertVersion db row

/-! ## Files -/

theorem file?_replace_self (t : FileTree) (p : FilePath) (content : String) :
    (t.replace p content).file? p = some content := by
  have hget : Keyed.get Prod.fst p (Keyed.put Prod.fst (p, content) t.files) = some (p, content) :=
    Keyed.get_put_self (p, content) t.files
  unfold FileTree.file? FileTree.replace
  rw [hget]
  rfl

theorem file?_replace_of_ne {t : FileTree} {p q : FilePath} (h : q ≠ p) (content : String) :
    (t.replace p content).file? q = t.file? q := by
  unfold FileTree.file? FileTree.replace
  rw [Keyed.get_put_of_ne (Ne.symm h)]

theorem file?_unlink_of_ne {t : FileTree} {p q : FilePath} (h : q ≠ p) : (t.unlink p).file? q = t.file? q := by
  unfold FileTree.file? FileTree.unlink
  rw [Keyed.get_remove_of_ne h]

/-- The path of the object of a row. -/
def rowPath (fs : LocalFiles) (r : VersionRow) : Option FilePath :=
  r.objectId.bind fun objectId => (fs.target objectId).toOption

/-- The object of every version is a file of its own with the content of the version. -/
structure Stored (fs : LocalFiles) (db : ArtifactDb) (t : FileTree) : Prop where
  files : ∀ r ∈ db.versions, r.objectId = some (objectIdOf r.identityKey r.version) ∧
    ∃ p, rowPath fs r = some p ∧ t.file? p = some r.content
  apart : db.versions.Pairwise fun r r' => rowPath fs r ≠ rowPath fs r'

section

variable {fs : LocalFiles} {t t' : FileTree} {p : FilePath}

/-- What is stored with more versions is stored without them. -/
theorem Stored.of_versions {db' : ArtifactDb} (h : Stored fs db' t)
    (hversions : List.Sublist db.versions db'.versions) : Stored fs db t :=
  ⟨fun r hr => h.files r (hversions.subset hr), h.apart.sublist hversions⟩

/-- A change at a path that no version has. -/
theorem Stored.of_tree (h : Stored fs db t) (hfree : ∀ r ∈ db.versions, rowPath fs r ≠ some p)
    (hsame : ∀ q, q ≠ p → t'.file? q = t.file? q) : Stored fs db t' := by
  refine ⟨?_, h.apart⟩
  intro r hr
  obtain ⟨hobject, q, hq, hcontent⟩ := h.files r hr
  have hne : q ≠ p := by
    rintro rfl
    exact hfree r hr hq
  exact ⟨hobject, q, hq, (hsame q hne).trans hcontent⟩

/-- A new version on a path that no version has. -/
theorem Stored.insert {db' : ArtifactDb} {row : VersionRow} (h : Stored fs db t)
    (hfree : ∀ r ∈ db.versions, rowPath fs r ≠ some p) (hversions : db'.versions = db.versions ++ [row])
    (hobject : row.objectId = some (objectIdOf row.identityKey row.version)) (hpath : rowPath fs row = some p)
    (hcontent : t.file? p = some row.content) : Stored fs db' t := by
  constructor
  · intro r hr
    rw [hversions] at hr
    rcases List.mem_append.1 hr with hr | hr
    · exact h.files r hr
    · rw [List.mem_singleton.1 hr]
      exact ⟨hobject, p, hpath, hcontent⟩
  · rw [hversions, List.pairwise_append]
    refine ⟨h.apart, List.pairwise_singleton _ _, ?_⟩
    intro r hr r' hr'
    rw [List.mem_singleton.1 hr', hpath]
    exact hfree r hr

/-- What a clean put finds, and what it does. -/
theorem cleanPut_spec {objectId : String} (h : cleanPut host fs db t a objectId = true) :
    raised (host.mediaTypeCell a (some objectId)) = false ∧ ∃ p, fs.target objectId = .ok p ∧
      fs.put objectId a.content t = (.ok (), (t.mkdirs p).replace p a.content) ∧
      ∀ r ∈ db.versions, rowPath fs r ≠ some p := by
  unfold cleanPut at h
  rw [Bool.and_eq_true, Bool.and_eq_true] at h
  obtain ⟨⟨hsize, hmedia⟩, h⟩ := h
  cases htarget : fs.target objectId with
  | error e =>
    rw [htarget] at h
    cases h
  | ok p =>
    rw [htarget] at h
    simp only [Bool.and_eq_true, Bool.not_eq_true', List.all_eq_true] at h hmedia
    obtain ⟨⟨⟨htakes, hblocked⟩, hdir⟩, hrows⟩ := h
    refine ⟨hmedia, p, rfl, ?_, ?_⟩
    · have hsize : ¬ fs.maxSizeBytes < a.content.utf8ByteSize := by
        have := of_decide_eq_true hsize
        omega
      unfold LocalFiles.put
      rw [if_neg hsize, htarget]
      simp only [htakes, hblocked, hdir, Bool.not_true, Bool.false_eq_true, if_false]
    · intro r hr hpath
      obtain ⟨id, hid, hp⟩ := Option.bind_eq_some_iff.1 hpath
      have hne := hrows r hr
      rw [hid] at hne
      have hne : fs.target id ≠ .ok p := of_decide_eq_true hne
      cases ht : fs.target id with
      | error e =>
        rw [ht] at hp
        cases hp
      | ok q =>
        rw [ht] at hp hne
        exact hne (congrArg Except.ok (Option.some.inj hp))

/-! ## One call -/

open Prog

variable {s : LocalState}

theorem run_putObject_files (storage : ObjectStorage) {objectId content : String}
    (h : fs.put objectId content s.tree = (.ok (), t')) :
    run (LocalState.exec fs) (putObject (some storage) objectId content) s =
      (.ok (.ok (some objectId)), { s with tree := t' }) := by
  show run (LocalState.exec fs) (Prog.call _ _) s = _
  simp only [run, LocalState.exec, h]
  rfl

/-- The object of a put that went well can be deleted. -/
theorem run_discardObject_files {objectId : String} {e : PyError} (htarget : fs.target objectId = .ok p)
    (hfile : (s.tree.file? p).isSome = true) :
    run (LocalState.exec fs) (discardObject (some objectId) e) s =
      (.ok e, { s with tree := s.tree.unlink p }) := by
  have hdelete : fs.delete objectId s.tree = (.ok (), s.tree.unlink p) := by
    unfold LocalFiles.delete
    rw [htarget]
    simp only [hfile, if_true]
  show run (LocalState.exec fs) (Prog.call _ _) s = _
  simp only [run, LocalState.exec, hdelete]
  rfl

/-- The loops of both stores from here: both raise the same, and the versions from before have their objects;
or both return the same, and all versions have theirs. -/
def SameLoop (fs : LocalFiles) (db : ArtifactDb) (s u : LocalState)
    (files inline : Except PyError (Except PyError (List Recorded × ArtifactDb)) × LocalState) : Prop :=
  ∃ t, (∃ e, files = (.ok (.error e), { s with tree := t }) ∧ inline = (.ok (.error e), u) ∧ Stored fs db t) ∨
    ∃ rs db', files = (.ok (.ok (rs, db')), { s with tree := t }) ∧ inline = (.ok (.ok (rs, db'.inlined)), u) ∧
      Stored fs db' t ∧ List.Sublist db.versions db'.versions

theorem SameLoop.of_versions {db' : ArtifactDb} {u : LocalState}
    {files inline : Except PyError (Except PyError (List Recorded × ArtifactDb)) × LocalState}
    (h : SameLoop fs db' { s with tree := t } u files inline)
    (hversions : List.Sublist db.versions db'.versions) : SameLoop fs db s u files inline := by
  obtain ⟨t', ⟨e, hfiles, hinline, hstored⟩ | ⟨rs, db'', hfiles, hinline, hstored, hsub⟩⟩ := h
  · exact ⟨t', .inl ⟨e, hfiles, hinline, hstored.of_versions hversions⟩⟩
  · exact ⟨t', .inr ⟨rs, db'', hfiles, hinline, hstored, hversions.trans hsub⟩⟩

/-- A new version whose object was put on a path of its own; the object is deleted again if the insert
fails. -/
theorem insert_same {u : LocalState} {version : ℕ} {objectId : String}
    {files inline : ArtifactDb → ArtifactProg ArtifactDb (Except PyError (List Recorded × ArtifactDb))}
    (hid : objectIdOf (host.keyOf args a) version = objectId)
    (hmedia : raised (host.mediaTypeCell a (some objectId)) = false) (htarget : fs.target objectId = .ok p)
    (hfree : ∀ r ∈ db.versions, rowPath fs r ≠ some p) (hkept : Stored fs db t)
    (hfile : t.file? p = some a.content)
    (hrest : ∀ db₁ db₂,
      (host.versionRow args now a version (some objectId) >>= db.insertVersion) = .ok db₁ →
      db₁.link (host.attemptKeyOf args a) (host.keyOf args a) version = .ok db₂ → Stored fs db₂ t →
      SameLoop fs db₂ { s with tree := t } u (run (LocalState.exec fs) (files db₂) { s with tree := t })
        (run (LocalState.exec fs) (inline db₂.inlined) u)) :
    SameLoop fs db s u
      (run (LocalState.exec fs)
        (insertOrDiscard (some objectId)
          (host.versionRow args now a version (some objectId) >>= db.insertVersion)
          fun db => onTables (db.link (host.attemptKeyOf args a) (host.keyOf args a) version) files)
        { s with tree := t })
      (run (LocalState.exec fs)
        (insertOrDiscard none (host.versionRow args now a version none >>= db.inlined.insertVersion)
          fun db => onTables (db.link (host.attemptKeyOf args a) (host.keyOf args a) version) inline) u) := by
  rw [inlined_insert db hmedia]
  cases hinsert : host.versionRow args now a version (some objectId) >>= db.insertVersion with
  | error e =>
    -- the object goes again
    refine ⟨t.unlink p, .inl ⟨e, ?_, rfl, ?_⟩⟩
    · unfold insertOrDiscard
      rw [run_bind, run_discardObject_files htarget (by rw [hfile]; rfl)]
      rfl
    · exact hkept.of_tree hfree fun q hq => file?_unlink_of_ne hq
  | ok db₁ =>
    obtain ⟨row, hrow, hdb₁⟩ := (except_bind_ok_iff _ _ _).mp hinsert
    obtain ⟨hversions, -⟩ := insertVersion_ok hdb₁
    obtain ⟨hkey, hversion, -, hcontent, -, hobject, -, -⟩ := versionRow_ok hrow
    have hpath : rowPath fs row = some p := by
      unfold rowPath
      rw [hobject, Option.bind_some, htarget]
      rfl
    have hstored₁ : Stored fs db₁ t := by
      refine hkept.insert hfree hversions ?_ hpath ?_
      · rw [hobject, hkey, hversion, hid]
      · rw [hcontent]
        exact hfile
    show SameLoop fs db s u (run (LocalState.exec fs) (onTables (db₁.link _ _ _) files) _)
      (run (LocalState.exec fs) (onTables (db₁.inlined.link _ _ _) inline) u)
    rw [inlined_link]
    cases hlink : db₁.link (host.attemptKeyOf args a) (host.keyOf args a) version with
    | error e => exact ⟨_, .inl ⟨e, rfl, rfl, hkept⟩⟩
    | ok db₂ =>
      have hlinked := (link_ok hlink).1
      have hstored₂ : Stored fs db₂ t := hstored₁.of_versions (by rw [hlinked])
      have hsub : List.Sublist db.versions db₂.versions := by
        rw [hlinked, hversions]
        exact List.sublist_append_left _ _
      exact (hrest db₁ db₂ hinsert hlink hstored₂).of_versions hsub

/-- Both stores go through the artifacts alike. -/
theorem recordArtifacts_same (xs : List PyValue) (results : List Recorded) (u : LocalState)
    (hclean : putsClean host fs args now xs db s.tree = true) (hstored : Stored fs db s.tree) :
    SameLoop fs db s u
      (run (LocalState.exec fs) (recordArtifacts host (some fs.toStorage) args now xs db results) s)
      (run (LocalState.exec fs) (recordArtifacts host none args now xs db.inlined results) u) := by
  induction xs generalizing db results s with
  | nil => exact ⟨s.tree, .inr ⟨results, db, rfl, rfl, hstored, List.Sublist.refl _⟩⟩
  | cons x xs ih =>
    rw [recordArtifacts, recordArtifacts]
    rw [putsClean] at hclean
    cases hread : readArtifact x with
    | error e => exact ⟨s.tree, .inl ⟨e, rfl, rfl, hstored⟩⟩
    | ok a =>
      rw [hread] at hclean
      have hsamePrior : priorAttempt host args a db.inlined = priorAttempt host args a db := rfl
      simp only [hsamePrior] at hclean ⊢
      cases hprior : priorAttempt host args a db with
      | some row =>
        rw [hprior] at hclean
        exact ih _ hclean hstored
      | none =>
        rw [hprior] at hclean
        rw [inlined_unchanged]
        cases hun : unchanged host args a db with
        | some row =>
          rw [hun] at hclean
          simp only [Option.map_some] at hclean ⊢
          show SameLoop fs db s u _
            (run _ (onTables (db.inlined.link _ _ row.version) _) u)
          rw [inlined_link]
          cases hlink : db.link (host.attemptKeyOf args a) (host.keyOf args a) row.version with
          | error e => exact ⟨s.tree, .inl ⟨e, rfl, rfl, hstored⟩⟩
          | ok db' =>
            rw [hlink] at hclean
            have hversions := (link_ok hlink).1
            have hstored' : Stored fs db' s.tree := hstored.of_versions (by rw [hversions])
            have hrest := ih (results ++ [⟨host.keyOf args a, row.version, false⟩]) hclean hstored'
            exact SameLoop.of_versions hrest (by rw [hversions])
        | none =>
          rw [hun] at hclean
          simp only [Option.map_none, inlined_nextVersion, Bool.and_eq_true] at hclean ⊢
          obtain ⟨hmedia, p, htarget, hput, hfree⟩ := cleanPut_spec hclean.1
          have hkept : Stored fs db ((s.tree.mkdirs p).replace p a.content) :=
            hstored.of_tree hfree fun q hq => file?_replace_of_ne hq a.content
          rw [run_bind, run_putObject_files fs.toStorage hput]
          refine insert_same rfl hmedia htarget hfree hkept (file?_replace_self _ p a.content) ?_
          intro db₁ db₂ hinsert hlink hstored'
          have hcont := hclean.2
          rw [hinsert] at hcont
          simp only [hlink, hput] at hcont
          exact ih _ hcont hstored'

/-- The stores in step: the same tables but for the objects, and every object where it belongs. -/
def InStep (fs : LocalFiles) (s u : LocalState) : Prop := u.db = s.db.inlined ∧ Stored fs s.db s.tree

theorem record_same (call : TimedRecord) {s u : LocalState} (h : InStep fs s u)
    (hclean : PutsClean host fs call s) :
    (recordFiles host fs call s).1 = (recordInline host fs call u).1 ∧
      InStep fs (recordFiles host fs call s).2 (recordInline host fs call u).2 := by
  obtain ⟨hdb, hstored⟩ := h
  have hrecord : ∀ (storage : Option ObjectStorage) (v : LocalState) (artifacts : List PyValue),
      iterate call.args.artifacts = .ok artifacts →
      run (LocalState.exec fs) (record host storage call.args call.now) v =
        run (LocalState.exec fs)
          (recordArtifacts host storage call.args call.now artifacts v.db [] >>= finishRecord) v := by
    intro storage v artifacts hartifacts
    show run (LocalState.exec fs) (Prog.call _ _) v = _
    simp only [run, LocalState.exec, hartifacts]
    rfl
  cases hartifacts : iterate call.args.artifacts with
  | error e =>
    have hraise : ∀ (storage : Option ObjectStorage) (v : LocalState),
        run (LocalState.exec fs) (record host storage call.args call.now) v = (.error e, v) := by
      intro storage v
      show run (LocalState.exec fs) (Prog.call _ _) v = _
      simp only [run, LocalState.exec, hartifacts]
      rfl
    unfold recordFiles recordInline
    rw [hraise, hraise]
    exact ⟨rfl, hdb, hstored⟩
  | ok artifacts =>
    have hputs : putsClean host fs call.args call.now artifacts s.db s.tree = true := by
      refine hclean artifacts ?_
      rw [hartifacts]
      exact List.mem_singleton.2 rfl
    unfold recordFiles recordInline
    rw [hrecord _ s artifacts hartifacts, hrecord _ u artifacts hartifacts, run_bind, run_bind, hdb]
    obtain ⟨t, ⟨e, hfiles, hinline, hkept⟩ | ⟨rs, db', hfiles, hinline, hkept, -⟩⟩ :=
      recordArtifacts_same artifacts [] u hputs hstored
    · rw [hfiles, hinline]
      exact ⟨rfl, hdb, hkept⟩
    · rw [hfiles, hinline]
      exact ⟨rfl, rfl, hkept⟩

/-- A version whose object is stored is read with its content. -/
theorem Stored.getVersion {s : LocalState} {r : VersionRow} {projectId organizationId : Option String}
    (h : Stored fs s.db s.tree) (hr : r ∈ s.db.versions)
    (hscope : authorizeScope r projectId organizationId = .ok ()) :
    getVersionFiles fs r.identityKey r.version projectId organizationId s = .ok (some r) := by
  obtain ⟨hobject, p, hpath, hcontent⟩ := h.files r hr
  have hversion : s.db.version? r.identityKey r.version = some r := version?_eq_some.2 ⟨hr, rfl⟩
  have hne : objectIdOf r.identityKey r.version ≠ "" := by
    intro hempty
    have hlist := congrArg String.toList hempty
    rw [objectIdOf_toList] at hlist
    simp at hlist
  have hget : fs.get (objectIdOf r.identityKey r.version) s.tree = .ok r.content := by
    unfold rowPath at hpath
    rw [hobject, Option.bind_some] at hpath
    unfold LocalFiles.get
    cases htarget : fs.target (objectIdOf r.identityKey r.version) with
    | error e =>
      rw [htarget] at hpath
      cases hpath
    | ok q =>
      rw [htarget] at hpath
      rw [Option.some.inj hpath]
      simp only [hcontent]
  unfold getVersionFiles
  simp only [hversion, hobject]
  rw [if_neg hne, hscope, hget, ← hobject]
  rfl

end

/-- In every sequence of calls whose puts are clean the files are transparent. -/
theorem run_transparent (host : ArtifactHost) (fs : LocalFiles) (tree : FileTree) (calls : List TimedRecord)
    (h : Machine.Along (fun call s => (recordFiles host fs call s).2) (PutsClean host fs) calls (.fresh tree)) :
    Transparent host fs tree calls := by
  have hstart : InStep fs (.fresh tree) (.fresh tree) :=
    ⟨rfl, fun r hr => absurd hr List.not_mem_nil, List.Pairwise.nil⟩
  obtain ⟨hanswers, hdb, hstored⟩ := Machine.run_simulation
    (fun call s u hstep hclean => record_same call hstep hclean) calls (.fresh tree) (.fresh tree) hstart h
  constructor
  case answers => exact List.forall₂_eq_eq_eq ▸ hanswers
  case contents =>
    intro row hrow projectId organizationId hscope
    unfold inlineAfter at hrow
    rw [hdb] at hrow
    obtain ⟨r, hr, rfl⟩ := List.mem_map.1 hrow
    exact ⟨r, hstored.getVersion hr hscope, rfl⟩
  case apart =>
    intro r hr r' hr' id id' hid hid' htarget
    by_contra hne
    have hrows : r ≠ r' := by
      rintro rfl
      exact hne rfl
    have hsymm : Std.Symm fun r r' : VersionRow => rowPath fs r ≠ rowPath fs r' := ⟨fun _ _ hp => hp.symm⟩
    refine hstored.apart.forall hr hr' hrows ?_
    unfold rowPath
    rw [hid, hid', Option.bind_some, Option.bind_some, htarget]

/-! ### Two workspaces -/

/-- A directory as the backend. -/
def demoFiles : LocalFiles := ⟨["objects".toList], 1024, fun _ => true⟩

/-- The file is recorded with a content for a workspace. -/
def demoIn (workspaceRoot content : String) : TimedRecord :=
  ⟨⟨demoFile content, workspaceRoot, "task", "skill", none, none, none⟩, "2026-01-01T00:00:00+00:00"⟩

/-- Two versions of the file of a workspace with a relative path. -/
theorem relativeWorkspace_transparent :
    Machine.Along (fun call s => (recordFiles demoHost demoFiles call s).2) (PutsClean demoHost demoFiles)
        [demoIn "ws" "one", demoIn "ws" "two"] (.fresh {}) ∧
      Transparent demoHost demoFiles {} [demoIn "ws" "one", demoIn "ws" "two"] := by
  have hclean : Machine.Along (fun call s => (recordFiles demoHost demoFiles call s).2)
      (PutsClean demoHost demoFiles) [demoIn "ws" "one", demoIn "ws" "two"] (.fresh {}) := by decide +kernel
  exact ⟨hclean, run_transparent demoHost demoFiles {} _ hclean⟩

/-- The backend refuses the files of a workspace with an absolute path. -/
theorem absoluteWorkspace_raises : ¬ Transparent demoHost demoFiles {} [demoIn "/tmp/ws" "one"] := by
  intro h
  have hraised : (Machine.answers (recordFiles demoHost demoFiles) [demoIn "/tmp/ws" "one"] (.fresh {})).map raised
      = [true] := by decide +kernel
  have hinline : (Machine.answers (recordInline demoHost demoFiles) [demoIn "/tmp/ws" "one"] (.fresh {})).map
      raised = [false] := by decide +kernel
  rw [h.answers, hinline] at hraised
  cases hraised

end ArtifactStore

end Galaxz
