import Galaxz.Artifacts.PostgresStore
import Galaxz.Artifacts.Proofs.ReplayProofs
import Galaxz.Lib.PyStr

/-!
# Proofs: the two artifact stores

In step, artifact by artifact: corresponding tables stay so and both stores return the same, as long as
every artifact is mirrored.
-/

namespace Galaxz

open Prog

variable {host : PostgresHost} {storage : Option ObjectStorage} {args : RecordArgs} {now : String}

/-! ## Object ids -/

theorem objectIdOf_toList (key : String) (version : ℕ) :
    (objectIdOf key version).toList = key.toList ++ '/' :: 'v' :: Nat.toDigits 10 version := by
  show (key ++ "/v" ++ version.repr).toList = _
  rw [String.toList_append, String.toList_append, Nat.toList_repr, List.append_assoc]
  rfl

/-- The object id of a version determines it. -/
theorem objectIdOf_injective {key key' : String} {version version' : ℕ}
    (h : objectIdOf key version = objectIdOf key' version') : (key, version) = (key', version') := by
  have hslash : ∀ n : ℕ, '/' ∉ 'v' :: Nat.toDigits 10 n := by
    intro n hmem
    rcases List.mem_cons.mp hmem with hv | hdigit
    · exact absurd hv (by decide)
    · exact absurd (Nat.isDigit_of_mem_toDigits (by decide) (by decide) hdigit) (by decide)
  have hlist := congrArg String.toList h
  rw [objectIdOf_toList, objectIdOf_toList] at hlist
  obtain ⟨hkey, hdigits⟩ := append_cons_inj (hslash version) (hslash version') hlist
  rw [List.cons.injEq] at hdigits
  have hversion := congrArg (Nat.ofDigitChars 10 · 0) hdigits.2
  simp only [Nat.ofDigitChars_ten_toDigits] at hversion
  rw [String.toList_inj.mp hkey, hversion]

/-! ## The backend -/

/-- The state with another backend. -/
def ArtifactState.withBackend {δ : Type} (s : ArtifactState δ) (b : Objects × (ℕ → Bool)) :
    ArtifactState δ :=
  { s with objects := b.1, works := b.2 }

section Backend

variable {δ δ' : Type} {s : ArtifactState δ} {t : ArtifactState δ'}

/-- The object is put in both stores alike. -/
theorem run_putObject_same (storage : Option ObjectStorage) (hobjects : s.objects = t.objects) (hworks : s.works = t.works)
    (objectId content : String) :
    ∃ o b, run (ArtifactState.exec storage) (ArtifactStore.putObject storage objectId content) s =
        (.ok o, s.withBackend b) ∧
      run (ArtifactState.exec storage) (ArtifactStore.putObject storage objectId content) t =
        (.ok o, t.withBackend b) ∧
      ((∃ e, o = .error e) ∨ o = .ok (storage.map fun _ => objectId)) := by
  rcases storage with _ | storage
  · refine ⟨.ok none, (s.objects, s.works), rfl, ?_, Or.inr rfl⟩
    rw [hobjects, hworks]
    rfl
  · have hrun : ∀ {γ : Type} (u : ArtifactState γ),
        run (ArtifactState.exec (some storage)) (ArtifactStore.putObject (some storage) objectId content)
          u = (.ok ((storage.put (u.works 0) objectId content u.objects).1.map fun _ => some objectId),
            u.withBackend ((storage.put (u.works 0) objectId content u.objects).2,
              fun n => u.works (n + 1))) := by
      intro γ u
      unfold ArtifactStore.putObject
      simp only [run_bind, Prog.run, ArtifactState.exec]
      rcases hput : storage.put (u.works 0) objectId content u.objects with ⟨e | _, objects⟩
      · rfl
      · rfl
    refine ⟨_, _, hrun s, ?_, ?_⟩
    · rw [hobjects, hworks]
      exact hrun t
    · rcases storage.put (s.works 0) objectId content s.objects with ⟨e | _, objects⟩
      · exact Or.inl ⟨e, rfl⟩
      · exact Or.inr rfl

theorem run_discardObject_same (storage : Option ObjectStorage) (hobjects : s.objects = t.objects)
    (hworks : s.works = t.works) (objectId : Option String) (e e' : PyError) :
    ∃ o o' b, run (ArtifactState.exec storage) (ArtifactStore.discardObject objectId e) s =
        (.ok o, s.withBackend b) ∧
      run (ArtifactState.exec storage) (ArtifactStore.discardObject objectId e') t =
        (.ok o', t.withBackend b) := by
  rcases objectId with _ | objectId
  · refine ⟨e, e', (s.objects, s.works), rfl, ?_⟩
    rw [hobjects, hworks]
    rfl
  rcases storage with _ | storage
  · refine ⟨e, e', (s.objects, s.works), rfl, ?_⟩
    rw [hobjects, hworks]
    rfl
  · have hrun : ∀ {γ : Type} (u : ArtifactState γ) (e : PyError), ∃ o,
        run (ArtifactState.exec (some storage)) (ArtifactStore.discardObject (some objectId) e) u =
          (.ok o, u.withBackend ((storage.delete (u.works 0) objectId u.objects).2,
            fun n => u.works (n + 1))) := by
      intro γ u e
      unfold ArtifactStore.discardObject
      simp only [run_bind, Prog.run, ArtifactState.exec]
      rcases hdelete : storage.delete (u.works 0) objectId u.objects with ⟨e' | _, objects⟩
      · exact ⟨e', rfl⟩
      · exact ⟨e, rfl⟩
    obtain ⟨o, ho⟩ := hrun s e
    obtain ⟨o', ho'⟩ := hrun t e'
    refine ⟨o, o', _, ho, ?_⟩
    rw [hobjects, hworks]
    exact ho'

end Backend

/-! ## Corresponding tables -/

/-- The columns that both stores keep alike. -/
def VersionRow.core (r : VersionRow) :
    String × ℕ × String × Option String × Option String × String × String :=
  (r.identityKey, r.version, r.contentHash, r.attemptArtifactKey, r.objectId, r.taskId, r.skill)

/-- The tables of the two stores: the same versions; in SQLite the attempt that a version names is in
the table of attempts, and every object id is that of its version. -/
structure SameVersions (db : ArtifactDb) (pg : PgArtifactDb) : Prop where
  versions : db.versions.map VersionRow.core = pg.versions.map VersionRow.core
  linked : ∀ r ∈ db.versions, ∀ k, r.attemptArtifactKey = some k →
    ∃ row, db.attempt? k = some row ∧ row.identityKey = r.identityKey ∧ row.version = r.version
  objectIds : ∀ r ∈ db.versions, ∀ id, r.objectId = some id → id = objectIdOf r.identityKey r.version

section Tables

variable {db : ArtifactDb} {pg : PgArtifactDb}

theorem VersionRow.core_eq {r r' : VersionRow} (h : r.core = r'.core) :
    r.identityKey = r'.identityKey ∧ r.version = r'.version ∧ r.contentHash = r'.contentHash ∧
      r.attemptArtifactKey = r'.attemptArtifactKey ∧ r.objectId = r'.objectId ∧ r.taskId = r'.taskId ∧
      r.skill = r'.skill := by
  simpa [core] using h

/-- A version of one store is there in the other. -/
theorem SameVersions.exists_of_pg (h : SameVersions db pg) {w : VersionRow} (hw : w ∈ pg.versions) :
    ∃ v ∈ db.versions, v.core = w.core := by
  have hmem := List.mem_map_of_mem (f := VersionRow.core) hw
  rw [← h.versions] at hmem
  exact List.mem_map.mp hmem

theorem SameVersions.exists_of_sqlite (h : SameVersions db pg) {v : VersionRow} (hv : v ∈ db.versions) :
    ∃ w ∈ pg.versions, w.core = v.core := by
  have hmem := List.mem_map_of_mem (f := VersionRow.core) hv
  rw [h.versions] at hmem
  exact List.mem_map.mp hmem

theorem SameVersions.latest (h : SameVersions db pg) (key : String) :
    (db.latest key).map VersionRow.core = (pg.latest key).map VersionRow.core := by
  have hfilter : (db.versions.filter (·.identityKey = key)).map VersionRow.core =
      (pg.versions.filter (·.identityKey = key)).map VersionRow.core :=
    Table.map_filter_congr h.versions fun x _ y _ hxy => by rw [(VersionRow.core_eq hxy).1]
  refine Table.firstBy_congr hfilter fun x x' y y' hxy hxy' => ?_
  rw [(VersionRow.core_eq hxy).2.1, (VersionRow.core_eq hxy').2.1]

/-- An attempt that a PostgreSQL row names is in the table of attempts with that version. -/
theorem SameVersions.attempt (h : SameVersions db pg) {k : String} {w : VersionRow}
    (hw : pg.attempt? k = some w) :
    ∃ row, db.attempt? k = some row ∧ row.identityKey = w.identityKey ∧ row.version = w.version := by
  have hmem := List.mem_of_find?_eq_some hw
  have hk : w.attemptArtifactKey = some k := by simpa using List.find?_some hw
  obtain ⟨v, hv, hcore⟩ := h.exists_of_pg hmem
  obtain ⟨hkey, hversion, -, hattempt, -⟩ := VersionRow.core_eq hcore
  obtain ⟨row, hrow, hrkey, hrversion⟩ := h.linked v hv k (hattempt.trans hk)
  exact ⟨row, hrow, hrkey.trans hkey, hrversion.trans hversion⟩

/-- The newest version with the content, seen from PostgreSQL. -/
theorem SameVersions.unchanged (h : SameVersions db pg) {a : Artifact} {v : VersionRow}
    (hv : ArtifactStore.unchanged host.toArtifactHost args a db = some v) :
    ∃ w, (pg.latest (host.keyOf args a)).filter (fun row => row.contentHash = host.sha256 a.content) =
      some w ∧ w.version = v.version := by
  obtain ⟨hlatest, hhash⟩ := Option.filter_eq_some_iff.mp hv
  have hsame := h.latest (host.keyOf args a)
  rw [hlatest, Option.map_some] at hsame
  obtain ⟨w, hw, hcore⟩ := Option.map_eq_some_iff.mp hsame.symm
  obtain ⟨-, hversion, hwhash, -, -⟩ := VersionRow.core_eq hcore
  refine ⟨w, Option.filter_eq_some_iff.mpr ⟨hw, ?_⟩, hversion⟩
  rw [hwhash]
  exact hhash

theorem SameVersions.changed (h : SameVersions db pg) {a : Artifact}
    (hnone : ArtifactStore.unchanged host.toArtifactHost args a db = none) :
    (pg.latest (host.keyOf args a)).filter (fun row => row.contentHash = host.sha256 a.content) =
        none ∧
      PostgresArtifactStore.nextVersion (pg.latest (host.keyOf args a)) =
        ArtifactStore.nextVersion host.toArtifactHost args a db := by
  have hsame := h.latest (host.keyOf args a)
  unfold ArtifactStore.unchanged at hnone
  unfold ArtifactStore.nextVersion
  rcases hlatest : db.latest (host.keyOf args a) with _ | v
  · rw [hlatest, Option.map_none] at hsame
    rw [Option.map_eq_none_iff.mp hsame.symm]
    exact ⟨rfl, rfl⟩
  · rw [hlatest, Option.map_some] at hsame
    obtain ⟨w, hw, hcore⟩ := Option.map_eq_some_iff.mp hsame.symm
    obtain ⟨-, hversion, hwhash, -, -⟩ := VersionRow.core_eq hcore
    rw [hlatest, Option.filter_eq_none_iff] at hnone
    refine ⟨?_, ?_⟩
    · rw [hw, Option.filter_eq_none_iff]
      intro x hx
      cases hx
      rw [hwhash]
      exact hnone v rfl
    · rw [hw]
      exact congrArg (· + 1) hversion

/-- Both engines take the new row, or both refuse it. -/
theorem SameVersions.insert (h : SameVersions db pg) {row row' : VersionRow}
    (hcore : row.core = row'.core)
    (hobject : ∀ id, row.objectId = some id → id = objectIdOf row.identityKey row.version) :
    (∃ e e', db.insertVersion row = .error e ∧ pg.insertVersion row' = .error e') ∨
      ∃ db₁ pg₁, db.insertVersion row = .ok db₁ ∧ pg.insertVersion row' = .ok pg₁ ∧
        db₁.versions = db.versions ++ [row] ∧ db₁.attempts = db.attempts ∧
        pg₁.versions = pg.versions ++ [row'] := by
  obtain ⟨hkey, hversion, -, hattempt, hobj, -, -⟩ := VersionRow.core_eq hcore
  have hkeys : (∀ r ∈ db.versions, (r.identityKey, r.version) ≠ (row.identityKey, row.version)) ↔
      ∀ r ∈ pg.versions, (r.identityKey, r.version) ≠ (row'.identityKey, row'.version) := by
    rw [← hkey, ← hversion]
    constructor
    · intro hall r hr
      obtain ⟨v, hv, hvr⟩ := h.exists_of_pg hr
      obtain ⟨hk, hn, -, -, -⟩ := VersionRow.core_eq hvr
      rw [← hk, ← hn]
      exact hall v hv
    · intro hall r hr
      obtain ⟨v, hv, hvr⟩ := h.exists_of_sqlite hr
      obtain ⟨hk, hn, -, -, -⟩ := VersionRow.core_eq hvr
      rw [← hk, ← hn]
      exact hall v hv
  have hcolumn : ∀ {β : Type} (f : VersionRow → Option β) (g : _ → Option β),
      (∀ r : VersionRow, f r = g r.core) → db.versions.filterMap f = pg.versions.filterMap f := by
    intro β f g hfg
    have hmap : ∀ rows : List VersionRow, rows.filterMap f = (rows.map VersionRow.core).filterMap g := by
      intro rows
      rw [List.filterMap_map]
      exact List.filterMap_congr fun r _ => hfg r
    rw [hmap, hmap, h.versions]
  have hattempts := hcolumn (·.attemptArtifactKey) (·.2.2.2.1) fun r => rfl
  have hobjects := hcolumn (·.objectId) (·.2.2.2.2.1) fun r => rfl
  unfold ArtifactDb.insertVersion PgArtifactDb.insertVersion
  by_cases hnew : ∀ r ∈ db.versions, (r.identityKey, r.version) ≠ (row.identityKey, row.version)
  · have hidentities : (row.attemptArtifactKey.toList ++
          db.versions.filterMap (·.attemptArtifactKey)).Nodup ↔
        (row'.attemptArtifactKey.toList ++ pg.versions.filterMap (·.attemptArtifactKey)).Nodup := by
      rw [hattempts, hattempt]
    rw [dif_pos hnew, dif_pos (hkeys.mp hnew)]
    by_cases hidentity : (row.attemptArtifactKey.toList ++
        db.versions.filterMap (·.attemptArtifactKey)).Nodup
    · -- the id of the object is as new as the version
      have hfresh : (row'.objectId.toList ++ pg.versions.filterMap (·.objectId)).Nodup := by
        rw [← hobj, List.nodup_append]
        refine ⟨?_, pg.objects_nodup, ?_⟩
        · cases row.objectId <;> simp
        · intro x hx y hy hxy
          subst hxy
          rw [Option.mem_toList] at hx
          rw [← hobjects] at hy
          obtain ⟨r, hr, hrid⟩ := List.mem_filterMap.mp hy
          have hids := (h.objectIds r hr x hrid).symm.trans (hobject x hx)
          exact hnew r hr (objectIdOf_injective hids)
      rw [dif_pos hidentity, dif_pos (hidentities.mp hidentity), dif_pos hfresh]
      exact Or.inr ⟨_, _, rfl, rfl, rfl, rfl, rfl⟩
    · rw [dif_neg hidentity, dif_neg fun hall => hidentity (hidentities.mpr hall)]
      exact Or.inl ⟨_, _, rfl, rfl⟩
  · rw [dif_neg hnew, dif_neg fun hall => hnew (hkeys.mpr hall)]
    exact Or.inl ⟨_, _, rfl, rfl⟩

/-- The tables correspond when both have a new version and SQLite its attempt. -/
theorem SameVersions.fresh (h : SameVersions db pg) {db₁ db₂ : ArtifactDb} {pg₁ : PgArtifactDb}
    {row row' : VersionRow} {attemptKey : Option String} {key : String} {version : ℕ}
    (hversions : db₁.versions = db.versions ++ [row]) (hattempts : db₁.attempts = db.attempts)
    (hpgversions : pg₁.versions = pg.versions ++ [row']) (hcore : row.core = row'.core)
    (hobject : ∀ id, row.objectId = some id → id = objectIdOf row.identityKey row.version)
    (hkey : row.identityKey = key) (hversion : row.version = version)
    (hattempt : row.attemptArtifactKey = attemptKey) (hlink : db₁.link attemptKey key version = .ok db₂) :
    SameVersions db₂ pg₁ := by
  have hversions₂ : db₂.versions = db.versions ++ [row] := (link_ok hlink).1.trans hversions
  refine ⟨?_, fun r hr k hk => ?_, fun r hr => ?_⟩
  · rw [hversions₂, hpgversions, List.map_append, List.map_append, h.versions, List.map_singleton,
      List.map_singleton, hcore]
  · rw [hversions₂, List.mem_append, List.mem_singleton] at hr
    rcases hr with hr | rfl
    · obtain ⟨link, hfound, hfields⟩ := h.linked r hr k hk
      refine ⟨link, attempt?_link hlink ?_, hfields⟩
      unfold ArtifactDb.attempt?
      rw [hattempts]
      exact hfound
    · refine ⟨⟨k, key, version⟩, attempt?_eq_some.mpr ⟨?_, rfl⟩, hkey.symm, hversion.symm⟩
      rw [(link_ok hlink).2, ← hattempt, hk]
      simp
  · rw [hversions₂, List.mem_append, List.mem_singleton] at hr
    rcases hr with hr | rfl
    · exact h.objectIds r hr
    · exact hobject

end Tables

/-! ## `record` -/

theorem checkText_clean {text : String} (h : Clean text) : PostgresHost.checkText text = .ok text :=
  if_neg h

theorem checkText_ok {text text' : String} (h : PostgresHost.checkText text = .ok text') :
    text' = text := by
  unfold PostgresHost.checkText at h
  split_ifs at h
  exact (Except.ok.inj h).symm

theorem checkOption_ok {text text' : Option String} (h : PostgresHost.checkOption text = .ok text') :
    text' = text := by
  unfold PostgresHost.checkOption at h
  split at h
  · exact (Except.ok.inj h).symm
  · obtain ⟨t, ht, h⟩ := (except_bind_ok_iff _ _ _).mp h
    cases h
    rw [checkText_ok ht]

/-- A new row of the PostgreSQL store has the values that were given, whatever is checked first. -/
theorem pgVersionRow_ok {a : Artifact} {version : ℕ} {objectId : Option String} {row : VersionRow}
    (h : host.pgVersionRow args now a version objectId = .ok row) :
    row.identityKey = host.keyOf args a ∧ row.version = version ∧
      row.contentHash = host.sha256 a.content ∧ row.attemptArtifactKey = host.attemptKeyOf args a ∧
      row.objectId = objectId ∧ row.taskId = args.taskId ∧ row.skill = args.skill := by
  unfold PostgresHost.pgVersionRow at h
  obtain ⟨key, hkey, h⟩ := (except_bind_ok_iff _ _ _).mp h
  obtain ⟨content, -, h⟩ := (except_bind_ok_iff _ _ _).mp h
  obtain ⟨hash, hhash, h⟩ := (except_bind_ok_iff _ _ _).mp h
  obtain ⟨filename, -, h⟩ := (except_bind_ok_iff _ _ _).mp h
  obtain ⟨language, -, h⟩ := (except_bind_ok_iff _ _ _).mp h
  obtain ⟨artifactType, -, h⟩ := (except_bind_ok_iff _ _ _).mp h
  obtain ⟨taskId, htask, h⟩ := (except_bind_ok_iff _ _ _).mp h
  obtain ⟨skill, hskill, h⟩ := (except_bind_ok_iff _ _ _).mp h
  obtain ⟨attemptKey, hattempt, h⟩ := (except_bind_ok_iff _ _ _).mp h
  obtain ⟨object, hobject, h⟩ := (except_bind_ok_iff _ _ _).mp h
  obtain ⟨mediaType, -, h⟩ := (except_bind_ok_iff _ _ _).mp h
  obtain ⟨projectId, -, h⟩ := (except_bind_ok_iff _ _ _).mp h
  obtain ⟨organizationId, -, h⟩ := (except_bind_ok_iff _ _ _).mp h
  obtain ⟨text, -, h⟩ := (except_bind_ok_iff _ _ _).mp h
  cases h
  exact ⟨checkText_ok hkey, rfl, checkText_ok hhash, checkOption_ok hattempt, checkOption_ok hobject,
    checkText_ok htask, checkText_ok hskill⟩

/-- The new rows of the two stores. -/
theorem pgVersionRow_core {a : Artifact} {version : ℕ} {objectId : Option String} {now now' : String}
    {row row' : VersionRow} (h : host.versionRow args now a version objectId = .ok row)
    (h' : host.pgVersionRow args now' a version objectId = .ok row') : row.core = row'.core := by
  obtain ⟨hkey, hversion, hhash, -, hattempt, hobject, htask, hskill⟩ := versionRow_ok h
  obtain ⟨hkey', hversion', hhash', hattempt', hobject', htask', hskill'⟩ := pgVersionRow_ok h'
  simp only [VersionRow.core, hkey, hversion, hhash, hattempt, hobject, htask, hskill, hkey', hversion',
    hhash', hattempt', hobject', htask', hskill']

/-- The newest version of a key that can be bound. -/
theorem newest_clean {a : Artifact} (hkey : Clean (host.keyOf args a)) (pg : PgArtifactDb) :
    PostgresArtifactStore.newest host args a pg = .ok (pg.latest (host.keyOf args a)) := by
  unfold PostgresArtifactStore.newest
  rw [checkText_clean hkey]
  rfl

/-- The attempt of the artifact, seen from PostgreSQL, when SQLite has none. -/
theorem SameVersions.priorAttempt_none {db : ArtifactDb} {pg : PgArtifactDb} (h : SameVersions db pg)
    {a : Artifact} (hm : Mirrors host storage args now a db)
    (hprior : ArtifactStore.priorAttempt host.toArtifactHost args a db = none) :
    PostgresArtifactStore.priorAttempt host args a pg = .ok none ∧
      ∀ k, host.attemptKeyOf args a = some k → db.attempt? k = none := by
  unfold ArtifactStore.priorAttempt at hprior
  unfold PostgresArtifactStore.priorAttempt
  rcases hk : host.attemptKeyOf args a with _ | k
  · exact ⟨rfl, fun k e => by cases e⟩
  · rw [hk, Option.bind_some] at hprior
    refine ⟨?_, fun k' e => by cases e; exact hprior⟩
    simp only [checkText_clean (hm.attemptKey k hk)]
    rcases hw : pg.attempt? k with _ | w
    · simp [hw]
    · obtain ⟨row, hrow, -⟩ := h.attempt hw
      rw [hprior] at hrow
      cases hrow

/-- A replayed attempt gets the version it has, from the row of the version or as the newest one. -/
theorem SameVersions.priorAttempt_some {db : ArtifactDb} {pg : PgArtifactDb} (h : SameVersions db pg)
    {a : Artifact} (hm : Mirrors host storage args now a db) {row : AttemptVersionRow}
    (hprior : ArtifactStore.priorAttempt host.toArtifactHost args a db = some row) :
    (∃ w, PostgresArtifactStore.priorAttempt host args a pg = .ok (some w) ∧
        w.identityKey = row.identityKey ∧ w.version = row.version) ∨
      PostgresArtifactStore.priorAttempt host args a pg = .ok none ∧
        ∃ w, (pg.latest (host.keyOf args a)).filter
            (fun r => r.contentHash = host.sha256 a.content) = some w ∧
          row.identityKey = host.keyOf args a ∧ w.version = row.version := by
  obtain ⟨k, hk, hrow⟩ := Option.bind_eq_some_iff.mp hprior
  unfold PostgresArtifactStore.priorAttempt
  rw [hk]
  simp only [checkText_clean (hm.attemptKey k hk)]
  rcases hw : pg.attempt? k with _ | w
  · refine Or.inr ⟨by simp [hw], ?_⟩
    rcases hm.replay row hprior with ⟨v, hv, hname⟩ | ⟨v, hv, hkey, hversion⟩
    · -- the row of a version that names the attempt is there in PostgreSQL too
      obtain ⟨v', hv', hcore⟩ := h.exists_of_sqlite hv
      have hnone := List.find?_eq_none.mp hw v' hv'
      rw [(VersionRow.core_eq hcore).2.2.2.1, hname, (attempt?_eq_some.mp hrow).2] at hnone
      simp at hnone
    · obtain ⟨w, hw', hwversion⟩ := h.unchanged hv
      exact ⟨w, hw', hkey, hwversion.trans hversion.symm⟩
  · obtain ⟨row', hrow', hkey, hversion⟩ := h.attempt hw
    rw [hrow] at hrow'
    cases hrow'
    exact Or.inl ⟨w, by simp [hw], hkey.symm, hversion.symm⟩

/-- Both stores have the same backend. -/
def SameBackend {δ δ' : Type} (s : ArtifactState δ) (t : ArtifactState δ') : Prop :=
  s.objects = t.objects ∧ s.works = t.works

/-- Both loops end in an exception, or with the same results and corresponding tables; and the backends
stay the same. -/
def LoopsAgree (s : ArtifactState ArtifactDb) (t : ArtifactState PgArtifactDb)
    (x : Except PyError (Except PyError (List Recorded × ArtifactDb)) × ArtifactState ArtifactDb)
    (y : Except PyError (Except PyError (List Recorded × PgArtifactDb)) × ArtifactState PgArtifactDb) :
    Prop :=
  SameBackend x.2 y.2 ∧ x.2.db = s.db ∧ y.2.db = t.db ∧
    ((∃ e e', x.1 = .ok (.error e) ∧ y.1 = .ok (.error e')) ∨
      ∃ rs db' pg', x.1 = .ok (.ok (rs, db')) ∧ y.1 = .ok (.ok (rs, pg')) ∧ SameVersions db' pg')

theorem discard_agrees {s s' : ArtifactState ArtifactDb} {t t' : ArtifactState PgArtifactDb}
    (hst : SameBackend s' t') (hs : s'.db = s.db) (ht : t'.db = t.db) (objectId : Option String)
    (e e' : PyError) :
    LoopsAgree s t
      (run (ArtifactState.exec storage)
        (ArtifactStore.discardObject objectId e >>= fun e => Pure.pure (.error e)) s')
      (run (ArtifactState.exec storage)
        (ArtifactStore.discardObject objectId e' >>= fun e => Pure.pure (.error e)) t') := by
  obtain ⟨o, o', b, hrun, hrun'⟩ := run_discardObject_same storage hst.1 hst.2 objectId e e'
  rw [run_bind, run_bind, hrun, hrun']
  exact ⟨⟨rfl, rfl⟩, hs, ht, Or.inl ⟨o, o', rfl, rfl⟩⟩

/-- A new version is stored by both engines, or its object is discarded by both. -/
theorem fresh_agrees {now : ℕ → String} {a : Artifact} {db : ArtifactDb} {pg : PgArtifactDb} {n : ℕ}
    {xs : List PyValue} {results : List Recorded} {s s' : ArtifactState ArtifactDb}
    {t t' : ArtifactState PgArtifactDb} (hc : SameVersions db pg)
    (hma : Mirrors host storage args (now 0) a db)
    (hprior : ArtifactStore.priorAttempt host.toArtifactHost args a db = none)
    (hun : ArtifactStore.unchanged host.toArtifactHost args a db = none)
    (hnew : ∀ k, host.attemptKeyOf args a = some k → db.attempt? k = none)
    (hst : SameBackend s' t') (hs : s'.db = s.db) (ht : t'.db = t.db)
    (hrest : ∀ {db' : ArtifactDb} {pg' : PgArtifactDb},
      Recording host.toArtifactHost args (now 0) a db
        ⟨host.keyOf args a, ArtifactStore.nextVersion host.toArtifactHost args a db, true⟩ db' →
      SameVersions db' pg' →
      LoopsAgree s' t'
        (run (ArtifactState.exec storage)
          (ArtifactStore.recordArtifacts host.toArtifactHost storage args (now 0) xs db' results) s')
        (run (ArtifactState.exec storage)
          (PostgresArtifactStore.recordArtifacts host storage args now xs pg' results) t')) :
    LoopsAgree s t
      (run (ArtifactState.exec storage)
        (ArtifactStore.insertOrDiscard (newObjectId host storage args a db)
          (host.versionRow args (now 0) a (ArtifactStore.nextVersion host.toArtifactHost args a db)
            (newObjectId host storage args a db) >>= db.insertVersion)
          fun db' => ArtifactStore.onTables (db'.link (host.attemptKeyOf args a) (host.keyOf args a)
              (ArtifactStore.nextVersion host.toArtifactHost args a db))
            fun db' => ArtifactStore.recordArtifacts host.toArtifactHost storage args (now 0) xs db'
              results) s')
      (run (ArtifactState.exec storage)
        (ArtifactStore.insertOrDiscard (newObjectId host storage args a db)
          (host.pgVersionRow args (now n) a (ArtifactStore.nextVersion host.toArtifactHost args a db)
            (newObjectId host storage args a db) >>= pg.insertVersion)
          fun pg' => PostgresArtifactStore.recordArtifacts host storage args now xs pg' results) t') := by
  have hraised := hma.fresh hprior hun (now n)
  rcases hrow : host.versionRow args (now 0) a (ArtifactStore.nextVersion host.toArtifactHost args a db)
      (newObjectId host storage args a db) with e | row
  · rw [hrow, raised_error] at hraised
    obtain ⟨e', he'⟩ := eq_error_of_raised hraised.symm
    rw [he']
    exact discard_agrees hst hs ht _ e e'
  rcases hrow' : host.pgVersionRow args (now n) a
      (ArtifactStore.nextVersion host.toArtifactHost args a db) (newObjectId host storage args a db) with
    e' | row'
  · rw [hrow, hrow'] at hraised
    cases hraised
  obtain ⟨hkey, hversion, -, -, hattempt, hobject, -, -⟩ := versionRow_ok hrow
  have hid : ∀ id, row.objectId = some id → id = objectIdOf row.identityKey row.version := by
    intro id hsome
    rw [hobject] at hsome
    obtain ⟨-, -, hsome⟩ := Option.map_eq_some_iff.mp hsome
    rw [hkey, hversion]
    exact hsome.symm
  show LoopsAgree s t (run _ (ArtifactStore.insertOrDiscard _ (db.insertVersion row) _) s')
    (run _ (ArtifactStore.insertOrDiscard _ (pg.insertVersion row') _) t')
  rcases hc.insert (pgVersionRow_core hrow hrow') hid with ⟨e, e', he, he'⟩ |
    ⟨db₁, pg₁, hdb₁, hpg₁, hversions, hattempts, hpgversions⟩
  · rw [he, he']
    exact discard_agrees hst hs ht _ e e'
  · have hnew₁ : ∀ k, host.attemptKeyOf args a = some k → db₁.attempt? k = none := by
      intro k hk
      unfold ArtifactDb.attempt?
      rw [hattempts]
      exact hnew k hk
    obtain ⟨db₂, hlink⟩ := link_of_new _ (host.keyOf args a)
      (ArtifactStore.nextVersion host.toArtifactHost args a db) hnew₁
    have hc' : SameVersions db₂ pg₁ := hc.fresh hversions hattempts hpgversions
      (pgVersionRow_core hrow hrow') hid hkey hversion hattempt hlink
    rw [hdb₁, hpg₁, ArtifactStore.insertOrDiscard, ArtifactStore.insertOrDiscard, hlink,
      ArtifactStore.onTables]
    obtain ⟨hback, hxs, hys, hres⟩ := hrest (.fresh hprior hun hrow hdb₁ hlink) hc'
    exact ⟨hback, hxs.trans hs, hys.trans ht, hres⟩

theorem loops_agree (args : RecordArgs) (now : ℕ → String) (xs : List PyValue) {db : ArtifactDb}
    {pg : PgArtifactDb} (results : List Recorded) {s : ArtifactState ArtifactDb}
    {t : ArtifactState PgArtifactDb} (hc : SameVersions db pg)
    (hm : MirrorsAll host storage args (now 0) xs db) (hst : SameBackend s t) :
    LoopsAgree s t
      (run (ArtifactState.exec storage)
        (ArtifactStore.recordArtifacts host.toArtifactHost storage args (now 0) xs db results) s)
      (run (ArtifactState.exec storage)
        (PostgresArtifactStore.recordArtifacts host storage args now xs pg results) t) := by
  induction xs generalizing db pg results s t with
  | nil => exact ⟨hst, rfl, rfl, Or.inr ⟨results, db, pg, rfl, rfl, hc⟩⟩
  | cons x xs ih =>
    rw [ArtifactStore.recordArtifacts, PostgresArtifactStore.recordArtifacts]
    rcases hread : readArtifact x with e | a
    · exact ⟨hst, rfl, rfl, Or.inl ⟨e, e, rfl, rfl⟩⟩
    obtain ⟨hma, hmrest⟩ := hm a hread
    simp only
    rcases hprior : ArtifactStore.priorAttempt host.toArtifactHost args a db with _ | row
    · obtain ⟨hpgprior, hnew⟩ := hc.priorAttempt_none hma hprior
      rw [hpgprior, newest_clean hma.key]
      simp only
      rcases hun : ArtifactStore.unchanged host.toArtifactHost args a db with _ | v
      · obtain ⟨hpgnone, hnext⟩ := hc.changed hun
        rw [hpgnone]
        simp only
        rw [hnext, run_bind, run_bind]
        obtain ⟨o, b, hs, ht, ho⟩ := run_putObject_same storage hst.1 hst.2
          (objectIdOf (host.keyOf args a) (ArtifactStore.nextVersion host.toArtifactHost args a db))
          a.content
        rw [hs, ht]
        rcases ho with ⟨e, rfl⟩ | rfl
        · exact ⟨⟨rfl, rfl⟩, rfl, rfl, Or.inl ⟨e, e, rfl, rfl⟩⟩
        · exact fresh_agrees hc hma hprior hun hnew ⟨rfl, rfl⟩ rfl rfl
            fun hrec hc' => ih _ hc' (hmrest _ _ hrec) ⟨rfl, rfl⟩
      · obtain ⟨w, hw, hversion⟩ := hc.unchanged hun
        obtain ⟨db', hlink⟩ := link_of_new _ (host.keyOf args a) v.version hnew
        have hc' : SameVersions db' pg := by
          have hversions := (link_ok hlink).1
          refine ⟨by rw [hversions]; exact hc.versions, fun r hr k hk => ?_, fun r hr => ?_⟩
          · obtain ⟨row, hrow, hfields⟩ := hc.linked r (hversions ▸ hr) k hk
            exact ⟨row, attempt?_link hlink hrow, hfields⟩
          · exact hc.objectIds r (hversions ▸ hr)
        rw [hw]
        simp only
        rw [hlink, hversion, ArtifactStore.onTables]
        exact ih _ hc' (hmrest _ _ (.same hprior hun hlink)) hst
    · rcases hc.priorAttempt_some hma hprior with ⟨w, hw, hkey, hversion⟩ |
        ⟨hnone, w, hw, hkey, hversion⟩
      · rw [hw]
        simp only
        rw [hkey, hversion]
        exact ih _ hc (hmrest _ _ (.replay hprior)) hst
      · rw [hnone, newest_clean hma.key]
        simp only
        rw [hw]
        simp only
        rw [hversion, ← hkey]
        exact ih _ hc (hmrest _ _ (.replay hprior)) hst

/-! ## Runs -/

/-- The stores are in step. -/
def InStep (s : ArtifactState ArtifactDb) (t : ArtifactState PgArtifactDb) : Prop :=
  SameVersions s.db t.db ∧ SameBackend s t

theorem inStep_fresh (objects : Objects) (works : ℕ → Bool) :
    InStep (ArtifactStore.fresh objects works) (PostgresArtifactStore.fresh objects works) :=
  ⟨⟨rfl, fun r hr => (by cases hr), fun r hr => (by cases hr)⟩, rfl, rfl⟩

/-- A mirrored call has the same result in both stores and keeps them in step. -/
theorem record_agrees (host : PostgresHost) (storage : Option ObjectStorage) (call : RecordCall)
    (s : ArtifactState ArtifactDb) (t : ArtifactState PgArtifactDb) (h : InStep s t) (hm : call.Mirrored host storage s) :
    SameResult (ArtifactStore.answer host storage call s).1
        (PostgresArtifactStore.answer host storage call t).1 ∧
      InStep (ArtifactStore.answer host storage call s).2
        (PostgresArtifactStore.answer host storage call t).2 := by
  obtain ⟨hc, hst⟩ := h
  unfold ArtifactStore.answer PostgresArtifactStore.answer ArtifactStore.record
    PostgresArtifactStore.record
  rw [run_bind, run_bind]
  rcases hartifacts : iterate call.args.artifacts with e | xs
  · exact ⟨Or.inl ⟨e, e, rfl, rfl⟩, hc, hst⟩
  · show SameResult
        (run _ (ArtifactStore.recordArtifacts host.toArtifactHost storage call.args (call.now 0) xs s.db []
          >>= ArtifactStore.finishRecord) { s with locked := true }).1
        (run _ (PostgresArtifactStore.recordArtifacts host storage call.args call.now xs t.db []
          >>= ArtifactStore.finishRecord) { t with locked := true }).1 ∧
      InStep
        (run _ (ArtifactStore.recordArtifacts host.toArtifactHost storage call.args (call.now 0) xs s.db []
          >>= ArtifactStore.finishRecord) { s with locked := true }).2
        (run _ (PostgresArtifactStore.recordArtifacts host storage call.args call.now xs t.db []
          >>= ArtifactStore.finishRecord) { t with locked := true }).2
    have hloops := loops_agree (s := { s with locked := true }) (t := { t with locked := true })
      call.args call.now xs [] hc (hm xs hartifacts) hst
    rw [run_bind, run_bind]
    generalize run (ArtifactState.exec storage) (ArtifactStore.recordArtifacts _ _ _ _ _ _ _) _ = x at *
    generalize run (ArtifactState.exec storage) (PostgresArtifactStore.recordArtifacts _ _ _ _ _ _ _) _ =
      y at *
    obtain ⟨r, s'⟩ := x
    obtain ⟨r', t'⟩ := y
    obtain ⟨hback, hs, ht, ⟨e, e', hr, hr'⟩ | ⟨rs, db', pg', hr, hr', hc'⟩⟩ := hloops
    · cases hr
      cases hr'
      refine ⟨Or.inl ⟨e, e', rfl, rfl⟩, ?_, hback⟩
      show SameVersions s'.db t'.db
      rw [hs, ht]
      exact hc
    · cases hr
      cases hr'
      exact ⟨Or.inr ⟨rs, rfl, rfl⟩, hc', hback⟩

theorem SameVersions.history {db : ArtifactDb} {pg : PgArtifactDb} (h : SameVersions db pg) (key : String) :
    ArtifactStore.history db.versions key = ArtifactStore.history pg.versions key := by
  have hmap : ∀ rows : List VersionRow,
      ((rows.filter (·.identityKey = key)).map fun r => (r.version, r.taskId, r.skill, r.contentHash)) =
        ((rows.map VersionRow.core).filter (·.1 = key)).map
          fun c => (c.2.1, c.2.2.2.2.2.1, c.2.2.2.2.2.2, c.2.2.1) := by
    intro rows
    rw [List.filter_map, List.map_map]
    rfl
  unfold ArtifactStore.history
  rw [hmap, hmap, h.versions]

/-- Calls keep every attempt in the table of SQLite. -/
theorem after_attempt? (host : PostgresHost) (storage : Option ObjectStorage) (calls : List RecordCall) (s : ArtifactState ArtifactDb) (k : String)
    (row : AttemptVersionRow) (hrow : s.db.attempt? k = some row) :
    (ArtifactStore.after host storage calls s).db.attempt? k = some row := by
  refine Machine.run_invariant (I := fun s : ArtifactState ArtifactDb => s.db.attempt? k = some row)
    (fun call s hs => ?_) calls s hrow
  rcases ends_record host.toArtifactHost storage call.args (call.now 0) s with ⟨-, hdb⟩ | ⟨artifacts, rs, -, -, hrecs⟩
  · exact (congrArg (·.attempt? k) hdb).trans hs
  · exact hrecs.attempt? hs

/-- SQLite returns the versions of the first time to a call that replays an attempt, whatever was
recorded in between. -/
theorem answer_replayed {first again : RecordCall} (hreplays : again.args.Replays first.args)
    (between : List RecordCall) {s : ArtifactState ArtifactDb} {rs : List Recorded}
    (hfirst : (ArtifactStore.answer host storage first s).1 = .ok rs) :
    ∃ rs', (ArtifactStore.answer host storage again (ArtifactStore.after host storage between
        (ArtifactStore.answer host storage first s).2)).1 = .ok rs' ∧
      rs'.map Recorded.reference = rs.map Recorded.reference := by
  rcases ends_record host.toArtifactHost storage first.args (first.now 0) s with ⟨⟨e, he⟩, -⟩ | ⟨xs, rs', hxs, hok, hrecs⟩
  · rw [ArtifactStore.answer, he] at hfirst
    cases hfirst
  · rw [ArtifactStore.answer, hok] at hfirst
    cases hfirst
    have hagain : Attempted host.toArtifactHost again.args
        (ArtifactStore.after host storage between (ArtifactStore.answer host storage first s).2).db xs
        (rs.map Recorded.reference) := by
      refine List.Forall₂.imp (fun x reference => ?_)
        ((hrecs.attempted hreplays.hasAttempt).mono (after_attempt? host storage between _))
      rintro ⟨a, row, hread, hprior, href⟩
      exact ⟨a, row, hread, hreplays.priorAttempt.trans hprior, href⟩
    refine ⟨_, congrArg Prod.fst (run_record_attempted (hreplays.artifacts ▸ hxs) hagain), ?_⟩
    rw [List.map_map]
    exact List.map_id _

/-- The two stores agree along every run of mirrored calls. -/
theorem run_sameRecordings (host : PostgresHost) (storage : Option ObjectStorage) (objects : Objects)
    (works : ℕ → Bool) (calls : List RecordCall)
    (hmirrored : Machine.Along (fun call s => (ArtifactStore.answer host storage call s).2)
      (RecordCall.Mirrored host storage) calls (ArtifactStore.fresh objects works)) :
    SameRecordings host storage objects works calls := by
  have hrun := Machine.run_simulation (R := InStep) (Q := SameResult)
    (C := RecordCall.Mirrored host storage) (record_agrees host storage)
  obtain ⟨hanswers, hend⟩ := hrun calls _ _ (inStep_fresh objects works) hmirrored
  refine ⟨hanswers, hend.1.history, ?_⟩
  rintro before first between again later rs rfl hreplays hfirst
  have hbefore := hrun before _ _ (inStep_fresh objects works)
    hmirrored.left.left
  obtain ⟨hsame, -⟩ := record_agrees host storage first _ _ hbefore.2 hmirrored.left.of_append.1
  rcases hsame with ⟨e, e', -, he'⟩ | ⟨rs₁, hok, hok'⟩
  · rw [PostgresArtifactStore.after, he'] at hfirst
    cases hfirst
  · have hrs : rs₁ = rs := Except.ok.inj (hok'.symm.trans hfirst)
    subst hrs
    obtain ⟨rs', hagain, href⟩ := answer_replayed hreplays between hok
    have hmid := hrun (before ++ first :: between) _ _ (inStep_fresh objects works) hmirrored.left
    obtain ⟨hsame', -⟩ := record_agrees host storage again _ _ hmid.2 hmirrored.of_append.1
    have hstate : ArtifactStore.after host storage (before ++ first :: between)
        (ArtifactStore.fresh objects works) = ArtifactStore.after host storage between
          (ArtifactStore.answer host storage first
            (ArtifactStore.after host storage before (ArtifactStore.fresh objects works))).2 :=
      Machine.run_append _ before (first :: between) _
    rcases hsame' with ⟨e, e', he, -⟩ | ⟨rs₂, hok₂, hok₂'⟩
    · rw [← ArtifactStore.after, hstate] at he
      exact absurd (hagain.symm.trans he) (by simp)
    · rw [← ArtifactStore.after, hstate] at hok₂
      have hrs' : rs₂ = rs' := Except.ok.inj (hok₂.symm.trans hagain)
      exact ⟨rs₂, hok₂', hrs' ▸ href⟩

/-! ### Runs on one file -/

namespace PostgresArtifactStore

/-- The host for texts `one` and `two`. -/
def demoHost : PostgresHost where
  toArtifactHost := ArtifactStore.demoHost
  floatText := fun _ => ""
  listText := fun _ => none

/-- The file is recorded with a content, by an attempt or by none. -/
def demoCall (content : String) (attemptId : Option String) : RecordCall where
  args := ⟨ArtifactStore.demoFile content, "", "task", "skill", attemptId, none, none⟩
  now := fun _ => "2026-01-01T00:00:00+00:00"

/-- An attempt records the file, somebody else a newer version, and the attempt is replayed. -/
def recordedThenReplayed : List RecordCall :=
  [demoCall "one" (some "attempt"), demoCall "two" none, demoCall "one" (some "attempt")]

/-- SQLite stores a version without an object whose values are texts. -/
theorem raised_versionRow {host : ArtifactHost} {args : RecordArgs} {now : String} {a : Artifact}
    {version : ℕ} {filename : String} (hfilename : a.filename = .str filename)
    (hlanguage : a.items.get "language" = .none) (htype : a.items.get "artifact_type" = .none) :
    raised (host.versionRow args now a version none) = false := by
  unfold ArtifactHost.versionRow
  rw [hfilename, hlanguage, htype]
  rfl

/-- PostgreSQL does, if it takes the texts. -/
theorem raised_pgVersionRow {host : PostgresHost} {args : RecordArgs} {now : String} {a : Artifact}
    {version : ℕ} {filename : String} (hfilename : a.filename = .str filename)
    (hlanguage : a.items.get "language" = .none) (htype : a.items.get "artifact_type" = .none)
    (hproject : args.projectId = none) (horganization : args.organizationId = none)
    (hclean : ∀ text ∈ [host.keyOf args a, a.content, host.sha256 a.content, filename, args.taskId,
      args.skill] ++ (host.attemptKeyOf args a).toList, Clean text) :
    raised (host.pgVersionRow args now a version none) = false := by
  have htext : ∀ text ∈ [host.keyOf args a, a.content, host.sha256 a.content, filename, args.taskId,
      args.skill], PostgresHost.checkText text = .ok text := fun text h =>
    checkText_clean (hclean text (List.mem_append_left _ h))
  have hattempt : PostgresHost.checkOption (host.attemptKeyOf args a) =
      .ok (host.attemptKeyOf args a) := by
    rcases hk : host.attemptKeyOf args a with _ | k
    · rfl
    · rw [PostgresHost.checkOption, checkText_clean (hclean k (List.mem_append_right _ (by simp [hk])))]
      rfl
  unfold PostgresHost.pgVersionRow
  rw [hfilename, hlanguage, htype, hproject, horganization, hattempt, htext (host.keyOf args a) (by simp),
    htext (host.sha256 a.content) (by simp), htext args.taskId (by simp), htext args.skill (by simp)]
  simp only [Option.isSome_none, Bool.false_eq_true, if_false, PostgresHost.bindText]
  rw [htext a.content (by simp), htext filename (by simp)]
  rfl

/-- A call of the example is mirrored where every attempt has a version of its own. -/
theorem demoCall_mirrored {content : String} {attemptId : Option String} {s : ArtifactState ArtifactDb}
    (hcontent : content = "one" ∨ content = "two")
    (hattempt : attemptId = none ∨ attemptId = some "attempt")
    (hreplay : ∀ row ∈ s.db.attempts, NamesAttempt s.db row) :
    (demoCall content attemptId).Mirrored demoHost none s := by
  intro artifacts hartifacts
  cases hartifacts
  intro a hread
  cases hread
  refine ⟨⟨?_, fun k hk => ?_, fun row hrow => Or.inl ?_, fun _ _ now' => ?_⟩, fun _ _ _ => trivial⟩
  · show Clean "::a.py"
    decide
  · rcases hattempt with rfl | rfl
    · cases hk
    · have hkey : k = "attempt::::a.py" := (Option.some.inj hk).symm
      rw [hkey]
      decide
  · obtain ⟨k, -, hrow⟩ := Option.bind_eq_some_iff.mp hrow
    exact hreplay row (attempt?_eq_some.mp hrow).1
  · refine (raised_versionRow rfl ?_ ?_).trans (raised_pgVersionRow rfl ?_ ?_ rfl rfl ?_).symm
    all_goals rcases hcontent with rfl | rfl <;> rcases hattempt with rfl | rfl <;> decide

/-- Every attempt in the tables has a version of its own. -/
def attemptsNamed (db : ArtifactDb) : Bool :=
  db.attempts.all fun row => db.versions.any fun v => v.attemptArtifactKey = some row.attemptArtifactKey

theorem namesAttempt_of {db : ArtifactDb} (h : attemptsNamed db = true) :
    ∀ row ∈ db.attempts, NamesAttempt db row := by
  intro row hrow
  obtain ⟨v, hv, hname⟩ := List.any_eq_true.mp (List.all_eq_true.mp h row hrow)
  exact ⟨v, hv, by simpa using hname⟩

/-- An attempt that made its own version is replayed alike. -/
theorem recordedThenReplayed_same :
    Machine.Along (fun call s => (ArtifactStore.answer demoHost none call s).2)
        (RecordCall.Mirrored demoHost none) recordedThenReplayed
        (ArtifactStore.fresh [] fun _ => true) ∧
      SameRecordings demoHost none [] (fun _ => true) recordedThenReplayed := by
  have hmirrored : Machine.Along (fun call s => (ArtifactStore.answer demoHost none call s).2)
      (RecordCall.Mirrored demoHost none) recordedThenReplayed
      (ArtifactStore.fresh [] fun _ => true) := by
    refine ⟨demoCall_mirrored (Or.inl rfl) (Or.inr rfl) fun row hrow => (by cases hrow),
      demoCall_mirrored (Or.inr rfl) (Or.inl rfl) (namesAttempt_of ?_),
      demoCall_mirrored (Or.inl rfl) (Or.inr rfl) (namesAttempt_of ?_), trivial⟩
    · decide +kernel
    · decide +kernel
  exact ⟨hmirrored, run_sameRecordings demoHost none [] (fun _ => true) _ hmirrored⟩

/-- The file is recorded, an attempt finds it unchanged, somebody else records a newer version, and the
attempt is replayed. -/
def unchangedThenReplayed : List RecordCall :=
  [demoCall "one" none, demoCall "one" (some "attempt"), demoCall "two" none,
    demoCall "one" (some "attempt")]

/-- PostgreSQL records a third version for the replay, SQLite returns the first one. -/
theorem unchangedThenReplayed_differ :
    ¬ SameRecordings demoHost none [] (fun _ => true) unchangedThenReplayed := by
  intro h
  have hsqlite : (ArtifactStore.history (ArtifactStore.after demoHost none unchangedThenReplayed
      (ArtifactStore.fresh [] fun _ => true)).db.versions "::a.py").length = 2 := by decide +kernel
  have hpostgres : (ArtifactStore.history (PostgresArtifactStore.after demoHost none
      unchangedThenReplayed (PostgresArtifactStore.fresh [] fun _ => true)).db.versions "::a.py").length =
      3 := by decide +kernel
  rw [h.histories, hpostgres] at hsqlite
  cases hsqlite

end PostgresArtifactStore

end Galaxz
