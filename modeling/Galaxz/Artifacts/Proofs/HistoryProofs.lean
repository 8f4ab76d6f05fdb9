import Galaxz.Artifacts.Proofs.RecordingProofs
import Mathlib.Data.List.Induction

/-!
# Proofs: histories and attempts

The newest version of a key is the last one that was assigned, whatever is recorded and deleted, so
numbers only grow. What an attempt refers to stays as long as no deletion takes it away.
-/

namespace Galaxz

open ArtifactStore Prog

variable {host : ArtifactHost} {storage : Option ObjectStorage} {args : RecordArgs} {now : String}
  {db db' : ArtifactDb} {key : String} {row r : VersionRow}

/-! ## Rows -/

theorem insertVersion_ok (h : db.insertVersion row = .ok db') :
    db'.versions = db.versions ++ [row] ∧ db'.attempts = db.attempts := by
  unfold ArtifactDb.insertVersion at h
  split_ifs at h
  cases h
  exact ⟨rfl, rfl⟩

theorem link_ok {attemptKey : Option String} {version : ℕ}
    (h : db.link attemptKey key version = .ok db') :
    db'.versions = db.versions ∧
      db'.attempts = db.attempts ++ (attemptKey.map (⟨·, key, version⟩)).toList := by
  unfold ArtifactDb.link at h
  split at h
  · cases h
    exact ⟨rfl, (List.append_nil _).symm⟩
  · split_ifs at h
    cases h
    exact ⟨rfl, rfl⟩

theorem versionRow_ok {a : Artifact} {version : ℕ} {objectId : Option String}
    (h : host.versionRow args now a version objectId = .ok row) :
    row.identityKey = host.keyOf args a ∧ row.version = version ∧
      row.contentHash = host.sha256 a.content ∧ row.content = a.content ∧
      row.attemptArtifactKey = host.attemptKeyOf args a ∧ row.objectId = objectId ∧
      row.taskId = args.taskId ∧ row.skill = args.skill := by
  unfold ArtifactHost.versionRow at h
  obtain ⟨filename, -, h⟩ := (except_bind_ok_iff _ _ _).mp h
  obtain ⟨language, -, h⟩ := (except_bind_ok_iff _ _ _).mp h
  obtain ⟨artifactType, -, h⟩ := (except_bind_ok_iff _ _ _).mp h
  obtain ⟨mediaType, -, h⟩ := (except_bind_ok_iff _ _ _).mp h
  obtain ⟨text, -, h⟩ := (except_bind_ok_iff _ _ _).mp h
  cases h
  exact ⟨rfl, rfl, rfl, rfl, rfl, rfl, rfl, rfl⟩

theorem version?_eq_some {version : ℕ} :
    db.version? key version = some row ↔
      row ∈ db.versions ∧ (row.identityKey, row.version) = (key, version) :=
  Table.find?_key (fun r : VersionRow => (r.identityKey, r.version)) db.versions_nodup

theorem attempt?_eq_some {attemptKey : String} {a : AttemptVersionRow} :
    db.attempt? attemptKey = some a ↔ a ∈ db.attempts ∧ a.attemptArtifactKey = attemptKey :=
  Table.find?_key _ db.attempts_nodup

/-! ## The newest version -/

theorem mem_versionsOf : r ∈ db.versionsOf key ↔ r ∈ db.versions ∧ r.identityKey = key := by
  simp [ArtifactDb.versionsOf]

theorem latest_max (h : db.latest key = some row) :
    (row ∈ db.versions ∧ row.identityKey = key) ∧
      ∀ r ∈ db.versions, r.identityKey = key → r.version ≤ row.version := by
  have hmem := mem_versionsOf.mp (Table.mem_of_firstBy h)
  refine ⟨hmem, fun r hr hk => ?_⟩
  have hle := Table.le_firstBy (fun a b => ?_) (fun a b c => ?_) h r (mem_versionsOf.mpr ⟨hr, hk⟩)
  · simpa using hle
  · simp only [decide_eq_true_eq]
    omega
  · simp only [decide_eq_true_eq]
    omega

theorem latest_eq_none : db.latest key = none ↔ ∀ r ∈ db.versions, r.identityKey ≠ key := by
  unfold ArtifactDb.latest
  rw [Table.firstBy_eq_none_iff, List.eq_nil_iff_forall_not_mem]
  exact ⟨fun h r hr hk => h r (mem_versionsOf.mpr ⟨hr, hk⟩),
    fun h r hr => h r (mem_versionsOf.mp hr).1 (mem_versionsOf.mp hr).2⟩

/-- The newest version is the only one with the highest number. -/
theorem latest_eq_some (hmem : row ∈ db.versions) (hkey : row.identityKey = key)
    (hmax : ∀ r ∈ db.versions, r.identityKey = key → r.version ≤ row.version) :
    db.latest key = some row := by
  rcases hl : db.latest key with _ | l
  · exact absurd hkey (latest_eq_none.mp hl row hmem)
  · obtain ⟨⟨hlmem, hlkey⟩, hlmax⟩ := latest_max hl
    have hversion : l.version = row.version :=
      le_antisymm (hmax l hlmem hlkey) (hlmax row hmem hkey)
    have heq : l = row := Table.eq_of_key (fun r : VersionRow => (r.identityKey, r.version))
      db.versions_nodup hlmem hmem (by rw [hlkey, hkey, hversion])
    rw [heq]

/-- A new version above all others is the newest of its key, and the other keys keep theirs. -/
theorem latest_append (hversions : db'.versions = db.versions ++ [row])
    (habove : ∀ r ∈ db.versions, r.identityKey = row.identityKey → r.version < row.version)
    (key : String) : db'.latest key = if row.identityKey = key then some row else db.latest key := by
  by_cases hkey : row.identityKey = key
  · rw [if_pos hkey]
    refine latest_eq_some (by rw [hversions]; simp) hkey fun r hr hk => ?_
    rw [hversions, List.mem_append, List.mem_singleton] at hr
    rcases hr with hr | rfl
    · exact le_of_lt (habove r hr (hk.trans hkey.symm))
    · exact le_refl _
  · rw [if_neg hkey]
    unfold ArtifactDb.latest ArtifactDb.versionsOf
    rw [hversions, List.filter_append, List.filter_cons_of_neg (by simpa using hkey), List.filter_nil,
      List.append_nil]

theorem latest_congr (hversions : db'.versions = db.versions) (key : String) :
    db'.latest key = db.latest key := by
  unfold ArtifactDb.latest ArtifactDb.versionsOf
  rw [hversions]

theorem mem_prune {cutoff : String} :
    r ∈ (prune db cutoff).versions ↔ r ∈ db.versions ∧ outdated db cutoff r = false := by
  simp [prune]

/-- A deletion keeps the newest version of every key. -/
theorem latest_prune (cutoff key : String) : (prune db cutoff).latest key = db.latest key := by
  rcases hl : db.latest key with _ | l
  · rw [latest_eq_none] at hl ⊢
    exact fun r hr => hl r (mem_prune.mp hr).1
  · obtain ⟨⟨hmem, hkey⟩, hmax⟩ := latest_max hl
    refine latest_eq_some (mem_prune.mpr ⟨hmem, ?_⟩) hkey fun r hr => hmax r (mem_prune.mp hr).1
    unfold outdated
    rw [hkey, hl]
    simp

/-! ## Histories -/

theorem lastOf_append (rows : List VersionRow) (row : VersionRow) (key : String) :
    lastOf (rows ++ [row]) key = if row.identityKey = key then some row else lastOf rows key := by
  unfold lastOf
  rw [List.filter_append]
  by_cases hkey : row.identityKey = key
  · rw [if_pos hkey, List.filter_cons_of_pos (by simpa using hkey), List.filter_nil,
      List.getLast?_concat]
  · rw [if_neg hkey, List.filter_cons_of_neg (by simpa using hkey), List.filter_nil, List.append_nil]

theorem Chronicle.append {rows : List VersionRow} (h : Chronicle rows) (hrow : Succeeds rows row) :
    Chronicle (rows ++ [row]) := by
  intro earlier x later heq
  rcases List.eq_nil_or_concat later with rfl | ⟨later', y, hlater⟩
  · obtain ⟨rfl, hx⟩ := List.append_inj' heq rfl
    cases hx
    exact hrow
  · rw [hlater, List.concat_eq_append, ← List.cons_append, ← List.append_assoc] at heq
    exact h earlier x later' (List.append_inj' heq rfl).1

theorem Chronicle.of_append {rows : List VersionRow} (h : Chronicle (rows ++ [row])) :
    Chronicle rows ∧ Succeeds rows row := by
  refine ⟨fun earlier x later heq => h earlier x (later ++ [row]) ?_, h rows row [] rfl⟩
  rw [heq, List.append_assoc, List.cons_append]

/-- The last version of a key has the highest number. -/
theorem Chronicle.le_last {rows : List VersionRow} (h : Chronicle rows) {l : VersionRow}
    (hl : lastOf rows key = some l) : ∀ r ∈ rows, r.identityKey = key → r.version ≤ l.version := by
  induction rows using List.reverseRecOn with
  | nil => intro r hr; cases hr
  | append_singleton rows x ih =>
    obtain ⟨hrows, hx⟩ := h.of_append
    intro r hr hk
    rw [lastOf_append] at hl
    rw [List.mem_append, List.mem_singleton] at hr
    by_cases hkey : x.identityKey = key
    · rw [if_pos hkey] at hl
      cases hl
      rcases hr with hr | rfl
      · exact le_of_lt (hx.above r hr (hk.trans hkey.symm))
      · exact le_refl _
    · rw [if_neg hkey] at hl
      rcases hr with hr | rfl
      · exact ih hrows hl r hr hk
      · exact absurd hk hkey

theorem exists_lastOf {rows : List VersionRow} (hr : r ∈ rows) (hk : r.identityKey = key) :
    ∃ l, lastOf rows key = some l := by
  have hmem : r ∈ rows.filter (·.identityKey = key) := List.mem_filter.mpr ⟨hr, by simpa using hk⟩
  exact ⟨_, List.getLast?_eq_some_getLast (List.ne_nil_of_mem hmem)⟩

theorem versionHistory_of {rows : List VersionRow} (hchronicle : Chronicle rows)
    (hnewest : ∀ key, db.latest key = lastOf rows key) : VersionHistory rows db := by
  refine ⟨hchronicle, hnewest, fun row hrow => ?_⟩
  obtain ⟨l, hl⟩ := exists_lastOf hrow rfl
  exact ⟨l, (hnewest _).trans hl, hchronicle.le_last hl⟩

/-- Recording an artifact appends what it assigns, and the history goes on. -/
theorem Recording.history {a : Artifact} {rec : Recorded} (h : Recording host args now a db rec db')
    {rows : List VersionRow} (hrows : VersionHistory rows db) :
    ∃ news, db'.versions = db.versions ++ news ∧ VersionHistory (rows ++ news) db' := by
  cases h with
  | replay hprior => exact ⟨[], (List.append_nil _).symm, by rwa [List.append_nil]⟩
  | same hprior hsame hlink =>
    obtain ⟨hversions, -⟩ := link_ok hlink
    refine ⟨[], by rw [hversions, List.append_nil], ?_⟩
    rw [List.append_nil]
    exact versionHistory_of hrows.chronicle fun key =>
      (latest_congr hversions key).trans (hrows.newest key)
  | @fresh db₁ _ objectId row hprior hchanged hrow hinsert hlink =>
    obtain ⟨hkey, hversion, hhash, -, -, -⟩ := versionRow_ok hrow
    obtain ⟨hinserted, -⟩ := insertVersion_ok hinsert
    have hversions : db'.versions = db.versions ++ [row] := (link_ok hlink).1.trans hinserted
    -- the number is one above that of the newest version
    have habove : ∀ l, db.latest row.identityKey = some l → l.version < row.version := by
      intro l hl
      rw [hkey] at hl
      rw [hversion, nextVersion, hl]
      exact Nat.lt_succ_self _
    have hsucceeds : Succeeds rows row := by
      refine ⟨fun r hr hk => ?_, fun r hlast => ?_⟩
      · obtain ⟨l, hl⟩ := exists_lastOf hr hk
        have hlatest := habove l ((hrows.newest _).trans hl)
        exact lt_of_le_of_lt (hrows.chronicle.le_last hl r hr hk) hlatest
      · rw [← hrows.newest, hkey] at hlast
        intro heq
        rw [unchanged, hlast, Option.filter_eq_none_iff] at hchanged
        exact hchanged r rfl (by simpa using heq.trans hhash)
    refine ⟨[row], hversions, versionHistory_of (hrows.chronicle.append hsucceeds) fun key => ?_⟩
    rw [latest_append hversions (fun r hr hk => ?_), lastOf_append, hrows.newest]
    rcases hl : db.latest row.identityKey with _ | l
    · exact absurd hk (latest_eq_none.mp hl r hr)
    · exact lt_of_le_of_lt ((latest_max hl).2 r hr hk) (habove l hl)

theorem Recordings.history {xs : List PyValue} {rs : List Recorded}
    (h : Recordings host args now xs db rs db') {rows : List VersionRow}
    (hrows : VersionHistory rows db) :
    ∃ news, db'.versions = db.versions ++ news ∧ VersionHistory (rows ++ news) db' := by
  induction h generalizing rows with
  | nil => exact ⟨[], (List.append_nil _).symm, by rwa [List.append_nil]⟩
  | cons hread h hs ih =>
    obtain ⟨news, hversions, hnext⟩ := h.history hrows
    obtain ⟨news', hversions', hend⟩ := ih hnext
    refine ⟨news ++ news', ?_, by rwa [← List.append_assoc]⟩
    rw [hversions', hversions, List.append_assoc]

/-- A call keeps the history, with what it assigns at its end. -/
theorem step_versionHistory (action : ArtifactAction) (s : ArtifactState ArtifactDb)
    {rows : List VersionRow} (hrows : VersionHistory rows s.db) :
    VersionHistory (rows ++ assigned host storage action s) (step host storage action s).db := by
  rcases step_cases host storage action s with
    ⟨args, now, rfl, hdb | ⟨artifacts, rs, hrecs⟩⟩ | ⟨cutoff, rfl, hdb⟩
  · rw [assigned, hdb, List.drop_length, List.append_nil]
    exact hrows
  · obtain ⟨news, hversions, hnext⟩ := hrecs.history hrows
    rw [assigned, hversions, List.drop_left]
    exact hnext
  · rw [assigned, List.append_nil, hdb]
    exact versionHistory_of hrows.chronicle fun key => (latest_prune cutoff key).trans (hrows.newest key)

theorem run_versionHistory_from (host : ArtifactHost) (storage : Option ObjectStorage) (actions : List ArtifactAction)
    (s : ArtifactState ArtifactDb) {rows : List VersionRow} (hrows : VersionHistory rows s.db) :
    VersionHistory (rows ++ assignedBy host storage actions s)
      (Machine.run (step host storage) actions s).db := by
  induction actions generalizing s rows with
  | nil => rwa [assignedBy, List.append_nil]
  | cons action actions ih =>
    rw [assignedBy, ← List.append_assoc]
    exact ih _ (step_versionHistory action s hrows)

/-- After any calls on a fresh store the versions they assigned form a history whose ends are stored,
and a record call that raises leaves the tables unchanged. -/
theorem run_versionHistory (host : ArtifactHost) (storage : Option ObjectStorage) (objects : Objects)
    (works : ℕ → Bool) (actions : List ArtifactAction) :
    VersionHistory (assignedBy host storage actions (ArtifactStore.fresh objects works))
        (Machine.run (step host storage) actions (ArtifactStore.fresh objects works)).db ∧
      ∀ args now e s', Prog.run (ArtifactState.exec storage) (record host storage args now)
          (Machine.run (step host storage) actions (ArtifactStore.fresh objects works)) =
          (.error e, s') →
        s'.db = (Machine.run (step host storage) actions (ArtifactStore.fresh objects works)).db := by
  refine ⟨?_, fun args now e s' hrun => run_record_error hrun⟩
  have hempty : VersionHistory [] (ArtifactStore.fresh objects works).db := by
    refine versionHistory_of (fun earlier row later h => ?_) fun key => rfl
    exact absurd h (by simp)
  have hrun := run_versionHistory_from host storage actions _ hempty
  rwa [List.nil_append] at hrun

/-! ## Attempts -/

/-- What exists still exists when rows are added. -/
theorem version?_append {news : List VersionRow} (hversions : db'.versions = db.versions ++ news)
    {version : ℕ} (h : ∃ row, db.version? key version = some row) :
    ∃ row, db'.version? key version = some row := by
  obtain ⟨row, hrow⟩ := h
  obtain ⟨hmem, heq⟩ := version?_eq_some.mp hrow
  exact ⟨row, version?_eq_some.mpr ⟨hversions ▸ List.mem_append_left _ hmem, heq⟩⟩

theorem AttemptsResolve.link {attemptKey : Option String} {version : ℕ} (h : AttemptsResolve db)
    (hlink : db.link attemptKey key version = .ok db')
    (hexists : ∃ row, db.version? key version = some row) : AttemptsResolve db' := by
  obtain ⟨hversions, hattempts⟩ := link_ok hlink
  have hversions' : db'.versions = db.versions ++ [] := by rw [hversions, List.append_nil]
  intro r hr
  rw [hattempts, List.mem_append] at hr
  rcases hr with hr | hr
  · exact version?_append hversions' (h r hr)
  · rcases attemptKey with _ | attemptKey
    · cases hr
    · rw [Option.map_some, Option.toList_some, List.mem_singleton] at hr
      subst hr
      exact version?_append hversions' hexists

/-- Recording an artifact adds versions and keeps every reference good, that of its result too. -/
theorem Recording.attemptsResolve {a : Artifact} {rec : Recorded}
    (h : Recording host args now a db rec db') (hdb : AttemptsResolve db) :
    AttemptsResolve db' ∧ (∃ row, db'.version? rec.identityKey rec.version = some row) ∧
      ∃ news, db'.versions = db.versions ++ news := by
  cases h with
  | @replay row hprior =>
    obtain ⟨attemptKey, -, hrow⟩ := Option.bind_eq_some_iff.mp hprior
    exact ⟨hdb, hdb row (attempt?_eq_some.mp hrow).1, [], (List.append_nil _).symm⟩
  | @same _ row hprior hsame hlink =>
    have hlatest : db.latest (host.keyOf args a) = some row := (Option.filter_eq_some_iff.mp hsame).1
    have hexists : ∃ v, db.version? (host.keyOf args a) row.version = some v :=
      ⟨row, version?_eq_some.mpr ⟨(latest_max hlatest).1.1, by rw [(latest_max hlatest).1.2]⟩⟩
    have hversions : db'.versions = db.versions ++ [] := by rw [(link_ok hlink).1, List.append_nil]
    exact ⟨hdb.link hlink hexists, version?_append hversions hexists, [], hversions⟩
  | @fresh db₁ _ objectId row hprior hchanged hrow hinsert hlink =>
    obtain ⟨hkey, hversion, -, -, -, -⟩ := versionRow_ok hrow
    obtain ⟨hinserted, hattempts⟩ := insertVersion_ok hinsert
    have hexists : ∃ v, db₁.version? (host.keyOf args a) (nextVersion host args a db) = some v :=
      ⟨row, version?_eq_some.mpr ⟨by rw [hinserted]; simp, by rw [hkey, hversion]⟩⟩
    have hdb₁ : AttemptsResolve db₁ := fun r hr => version?_append hinserted (hdb r (hattempts ▸ hr))
    have hversions : db'.versions = db₁.versions ++ [] := by rw [(link_ok hlink).1, List.append_nil]
    refine ⟨hdb₁.link hlink hexists, version?_append hversions hexists, [row], ?_⟩
    rw [(link_ok hlink).1, hinserted]

theorem Recordings.attemptsResolve {xs : List PyValue} {rs : List Recorded}
    (h : Recordings host args now xs db rs db') (hdb : AttemptsResolve db) :
    AttemptsResolve db' ∧ Resolved rs db' ∧ ∃ news, db'.versions = db.versions ++ news := by
  induction h with
  | nil => exact ⟨hdb, fun r hr => (by cases hr), [], (List.append_nil _).symm⟩
  | cons hread h hs ih =>
    obtain ⟨hdb₁, hrec, news, hversions⟩ := h.attemptsResolve hdb
    obtain ⟨hdb', hrest, news', hversions'⟩ := ih hdb₁
    refine ⟨hdb', fun r hr => ?_, news ++ news', by rw [hversions', hversions, List.append_assoc]⟩
    rcases List.mem_cons.mp hr with rfl | hr
    · exact version?_append hversions' hrec
    · exact hrest r hr

theorem step_attemptsResolve {action : ArtifactAction} {s : ArtifactState ArtifactDb}
    (hs : AttemptsResolve s.db) (haction : action.SparesAttempts s) :
    AttemptsResolve (step host storage action s).db := by
  rcases step_cases host storage action s with
    ⟨args, now, rfl, hdb | ⟨artifacts, rs, hrecs⟩⟩ | ⟨cutoff, rfl, hdb⟩
  · rw [hdb]
    exact hs
  · exact (hrecs.attemptsResolve hs).1
  · rw [hdb]
    intro r hr
    obtain ⟨row, hrow⟩ := hs r hr
    obtain ⟨hmem, heq⟩ := version?_eq_some.mp hrow
    exact ⟨row, version?_eq_some.mpr ⟨mem_prune.mpr ⟨hmem, haction r hr row hrow⟩, heq⟩⟩

theorem attemptsReadable_of {s : ArtifactState ArtifactDb} (h : AttemptsResolve s.db) :
    AttemptsReadable host storage s := by
  refine ⟨h, fun args now rs s' hrun => ?_⟩
  obtain ⟨artifacts, -, hrecs⟩ := run_record_ok hrun
  exact (hrecs.attemptsResolve h).2.1

/-- As long as no deletion takes a version that an attempt refers to, every such version exists in every
state of a run, and a call that replays an attempt returns versions that exist. -/
theorem run_attemptsReadable (host : ArtifactHost) (storage : Option ObjectStorage) (objects : Objects)
    (works : ℕ → Bool) (actions : List ArtifactAction)
    (hactions : Machine.Along (step host storage) ArtifactAction.SparesAttempts actions
      (ArtifactStore.fresh objects works)) :
    Machine.Along (step host storage) (fun _ s => AttemptsReadable host storage s) actions
        (ArtifactStore.fresh objects works) ∧
      AttemptsReadable host storage
        (Machine.run (step host storage) actions (ArtifactStore.fresh objects works)) := by
  have hempty : AttemptsResolve (ArtifactStore.fresh objects works).db := fun r hr => by cases hr
  obtain ⟨halong, hend⟩ := Machine.Along.invariant
    (I := fun s : ArtifactState ArtifactDb => AttemptsResolve s.db)
    (fun action s hs haction => step_attemptsResolve hs haction) hempty hactions
  exact ⟨halong.mono fun _ _ h => attemptsReadable_of h, attemptsReadable_of hend⟩

/-! ### Runs on one file -/

namespace ArtifactStore

/-- A host for texts `one` and `two`. -/
def demoHost : ArtifactHost where
  realOfText := fun _ => none
  textOfReal := fun _ => ""
  floatOfText := fun _ => none
  sha256 := fun text =>
    if text = "one" then "7692c3ad3540bb803c020b3aee66cd8887123234ea0c6e7143c0add73ff431ed"
    else if text = "two" then "3fc4ccfe745870e2c0d99f71f30ff0656c8dedd41cc1d7d3d376b0dbe685e2f3"
    else ""
  format := fun _ => ""
  guessType := fun _ => none

/-- The file `a.py` with a content. -/
def demoFile (content : String) : PyValue :=
  .list [.dict [("filename", .str "a.py"), ("content", .str content)]]

/-- The file is recorded with a content, by an attempt or by none. -/
def demoRecord (content : String) (attemptId : Option String) (now : String) : ArtifactAction :=
  .record ⟨demoFile content, "", "task", "skill", attemptId, none, none⟩ now

/-- A store that keeps its contents inline. -/
def demoStep : ArtifactAction → ArtifactState ArtifactDb → ArtifactState ArtifactDb :=
  step demoHost none

/-- An attempt records the file, and somebody else a newer version of it. -/
def attemptSucceeded : List ArtifactAction :=
  [demoRecord "one" (some "attempt") "2026-01-01T00:00:00+00:00",
    demoRecord "two" none "2026-01-02T00:00:00+00:00"]

/-- A deletion before the first version keeps the reference of the attempt. -/
theorem attemptSucceeded_readable :
    Machine.Along demoStep ArtifactAction.SparesAttempts
        (attemptSucceeded ++ [.deleteOlderThan "2025-01-01T00:00:00+00:00"])
        (ArtifactStore.fresh [] fun _ => true) ∧
      AttemptsReadable demoHost none (Machine.run demoStep
        (attemptSucceeded ++ [.deleteOlderThan "2025-01-01T00:00:00+00:00"])
        (ArtifactStore.fresh [] fun _ => true)) := by
  have hold : ((Machine.run demoStep attemptSucceeded (ArtifactStore.fresh [] fun _ => true)).db.versions.all
      fun r => outdated (Machine.run demoStep attemptSucceeded
        (ArtifactStore.fresh [] fun _ => true)).db "2025-01-01T00:00:00+00:00" r = false) = true := by
    decide +kernel
  have hspares : Machine.Along demoStep ArtifactAction.SparesAttempts
      (attemptSucceeded ++ [.deleteOlderThan "2025-01-01T00:00:00+00:00"])
      (ArtifactStore.fresh [] fun _ => true) := by
    refine Machine.Along.append ⟨trivial, trivial, trivial⟩ ⟨fun r _ row hrow => ?_, trivial⟩
    simpa using List.all_eq_true.mp hold row (version?_eq_some.mp hrow).1
  exact ⟨hspares, (run_attemptsReadable demoHost none [] (fun _ => true) _ hspares).2⟩

/-- A deletion after it takes the version away that the attempt refers to. -/
theorem attempt_reference_deleted :
    ¬ AttemptsReadable demoHost none (Machine.run demoStep
      (attemptSucceeded ++ [.deleteOlderThan "2027-01-01T00:00:00+00:00"])
      (ArtifactStore.fresh [] fun _ => true)) := by
  intro hreadable
  have hrows : (fun db : ArtifactDb => (db.attempts.map fun r => (r.identityKey, r.version),
        (db.version? "::a.py" 1).isSome))
      (Machine.run demoStep (attemptSucceeded ++ [.deleteOlderThan "2027-01-01T00:00:00+00:00"])
        (ArtifactStore.fresh [] fun _ => true)).db = ([("::a.py", 1)], false) := by decide +kernel
  obtain ⟨hattempts, hmissing⟩ := Prod.mk.inj hrows
  obtain ⟨r, hr, hpair⟩ := List.mem_map.mp (hattempts ▸ List.mem_singleton_self _)
  obtain ⟨row, hrow⟩ := hreadable.resolve r hr
  obtain ⟨hkey, hversion⟩ := Prod.mk.inj hpair
  rw [hkey, hversion] at hrow
  rw [hrow] at hmissing
  cases hmissing

end ArtifactStore

end Galaxz
