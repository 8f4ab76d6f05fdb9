import Galaxz.Artifacts.Proofs.ReplayProofs
import Mathlib.Logic.Equiv.Basic

/-!
# Proofs: the contents of recorded artifacts

Within one call the loop of `record` sees what it wrote for earlier artifacts. An artifact whose file
the attempt has already is not looked at, also when the same call put it there, so the call keeps every
content exactly when the attempt gives every file one content.
-/

namespace Galaxz

open ArtifactStore Prog

variable {host : ArtifactHost} {storage : Option ObjectStorage} {args : RecordArgs} {now : String}
  {db db' : ArtifactDb} {a b : Artifact}

/-! ## The tables -/

/-- The attempt key is the attempt id before the identity key. -/
theorem attemptKeyOf_eq_iff (h : args.HasAttempt) :
    host.attemptKeyOf args a = host.attemptKeyOf args b ↔ host.keyOf args a = host.keyOf args b := by
  obtain ⟨id, hid, hne⟩ := h
  unfold ArtifactHost.attemptKeyOf
  simp only [hid, if_neg hne, Option.some.injEq]
  constructor
  · intro heq
    have hlist := congrArg String.toList heq
    simp only [toString, String.toList_append, List.append_cancel_left_eq] at hlist
    exact String.toList_injective hlist
  · intro heq
    rw [heq]

/-- An attempt has the same of two artifacts for one file. -/
theorem priorAttempt_of_keyOf (hkey : host.keyOf args a = host.keyOf args b) :
    priorAttempt host args a db = priorAttempt host args b db := by
  unfold priorAttempt ArtifactHost.attemptKeyOf
  rw [hkey]

theorem hasAttempt_of_attemptKeyOf {k : String} (h : host.attemptKeyOf args a = some k) :
    args.HasAttempt := by
  unfold ArtifactHost.attemptKeyOf at h
  split at h
  · cases h
  · next id hid =>
    split_ifs at h with hne
    exact ⟨id, hid, hne⟩

theorem priorAttempt_hasAttempt {row : AttemptVersionRow} (h : priorAttempt host args a db = some row) :
    args.HasAttempt := by
  obtain ⟨k, hk, -⟩ := Option.bind_eq_some_iff.mp h
  exact hasAttempt_of_attemptKeyOf hk

/-- An attempt that does not have the artifact is not in the table. -/
theorem attempt?_eq_none (hprior : priorAttempt host args a db = none) {k : String}
    (hk : host.attemptKeyOf args a = some k) : db.attempt? k = none := by
  unfold priorAttempt at hprior
  rwa [hk] at hprior

theorem priorAttempt_congr (hattempts : db'.attempts = db.attempts) :
    priorAttempt host args a db' = priorAttempt host args a db := by
  have heq : db'.attempt? = db.attempt? := by
    funext k
    unfold ArtifactDb.attempt?
    rw [hattempts]
  unfold priorAttempt
  rw [heq]

/-- The attempt keys other than the one that is linked. -/
theorem attempt?_link_other {attemptKey : Option String} {key : String} {version : ℕ}
    (hlink : db.link attemptKey key version = .ok db') {k : String} (hk : attemptKey ≠ some k) :
    db'.attempt? k = db.attempt? k := by
  unfold ArtifactDb.attempt?
  rw [(link_ok hlink).2, List.find?_append]
  cases attemptKey with
  | none => simp
  | some attemptKey =>
    have hne : attemptKey ≠ k := fun heq => hk (congrArg some heq)
    simp [hne]

/-- Recording an artifact changes what the attempt has of its own file only. -/
theorem Recording.priorAttempt_other {rec : Recorded} (h : Recording host args now a db rec db')
    (hkey : host.keyOf args a ≠ host.keyOf args b) :
    ArtifactStore.priorAttempt host args b db' = ArtifactStore.priorAttempt host args b db := by
  have hother : ∀ {db₁ : ArtifactDb} {version : ℕ},
      db₁.link (host.attemptKeyOf args a) (host.keyOf args a) version = .ok db' →
      ArtifactStore.priorAttempt host args b db' = ArtifactStore.priorAttempt host args b db₁ := by
    intro db₁ version hlink
    unfold ArtifactStore.priorAttempt
    cases hk : host.attemptKeyOf args b with
    | none => rfl
    | some k =>
      have hne : host.attemptKeyOf args a ≠ some k := by
        rw [← hk, Ne, attemptKeyOf_eq_iff (hasAttempt_of_attemptKeyOf hk)]
        exact hkey
      rw [Option.bind_some, Option.bind_some, attempt?_link_other hlink hne]
  cases h with
  | replay hprior => rfl
  | same hprior hsame hlink => exact hother hlink
  | fresh hprior hchanged hrow hinsert hlink =>
    exact (hother hlink).trans (priorAttempt_congr (insertVersion_ok hinsert).2)

/-- A version keeps its content. -/
theorem Recorded.Holds.mono {r : Recorded} {content : String} {news : List VersionRow}
    (h : r.Holds db content) (hversions : db'.versions = db.versions ++ news) : r.Holds db' content := by
  obtain ⟨row, hrow, hcontent⟩ := h
  obtain ⟨hmem, heq⟩ := version?_eq_some.mp hrow
  exact ⟨row, version?_eq_some.mpr ⟨hversions ▸ List.mem_append_left _ hmem, heq⟩, hcontent⟩

/-- The newest version of a key only goes up. -/
theorem latest_mono {news : List VersionRow} (hversions : db'.versions = db.versions ++ news)
    {key : String} {l : VersionRow} (hl : db.latest key = some l) :
    ∃ l', db'.latest key = some l' ∧ l.version ≤ l'.version := by
  obtain ⟨⟨hmem, hkey⟩, -⟩ := latest_max hl
  have hmem' : l ∈ db'.versions := hversions ▸ List.mem_append_left _ hmem
  cases hl' : db'.latest key with
  | none => exact absurd hkey (latest_eq_none.mp hl' l hmem')
  | some l' => exact ⟨l', rfl, (latest_max hl').2 l hmem' hkey⟩

/-- A number below the next one is not above the newest version. -/
theorem lt_nextVersion {l : VersionRow} (hl : db.latest (host.keyOf args a) = some l) :
    l.version < nextVersion host args a db := by
  unfold nextVersion
  rw [hl]
  exact Nat.lt_succ_self _

/-! ## The invariant -/

theorem Recording.contentInv {rec : Recorded} (h : Recording host args now a db rec db')
    (hinv : ContentInv host db) : ContentInv host db' := by
  obtain ⟨news, hnews⟩ := h.versions
  have hkeep : ∀ {k : String} {row : AttemptVersionRow}, db.attempt? k = some row →
      db'.attempt? k = some row := fun hrow => h.attempt? hrow
  have hbelow : ∀ r ∈ db.attempts, ∃ newest, db'.latest r.identityKey = some newest ∧
      r.version ≤ newest.version := by
    intro r hr
    obtain ⟨newest, hnewest, hle⟩ := hinv.below r hr
    obtain ⟨newest', hnewest', hle'⟩ := latest_mono hnews hnewest
    exact ⟨newest', hnewest', le_trans hle hle'⟩
  have hlinked : ∀ r ∈ db.versions, ∀ k, r.attemptArtifactKey = some k →
      ∃ row, db'.attempt? k = some row := by
    intro r hr k hk
    obtain ⟨row, hrow⟩ := hinv.linked r hr k hk
    exact ⟨row, hkeep hrow⟩
  cases h with
  | replay hprior => exact hinv
  | @same _ row hprior hsame hlink =>
    obtain ⟨hversions, hattempts⟩ := link_ok hlink
    have hlatest := (Option.filter_eq_some_iff.mp hsame).1
    refine ⟨fun r hr => hinv.hashes r (hversions ▸ hr), fun r hr => hlinked r (hversions ▸ hr), ?_⟩
    intro r hr
    rw [hattempts, List.mem_append] at hr
    rcases hr with hr | hr
    · exact hbelow r hr
    · obtain ⟨k, -, rfl⟩ := Option.map_eq_some_iff.mp (Option.mem_toList.mp hr)
      exact ⟨row, (latest_congr hversions _).trans hlatest, le_refl _⟩
  | @fresh db₁ _ objectId row hprior hchanged hrow hinsert hlink =>
    obtain ⟨hkey, hversion, hhash, hcontent, hattempt, -⟩ := versionRow_ok hrow
    obtain ⟨hinserted, hattempts₁⟩ := insertVersion_ok hinsert
    obtain ⟨hversions, hattempts⟩ := link_ok hlink
    have hversions' : db'.versions = db.versions ++ [row] := hversions.trans hinserted
    have hmem : row ∈ db'.versions := by
      rw [hversions']
      exact List.mem_append_right _ List.mem_cons_self
    refine ⟨fun r hr => ?_, fun r hr k hk => ?_, fun r hr => ?_⟩
    · rw [hversions', List.mem_append, List.mem_singleton] at hr
      rcases hr with hr | rfl
      · exact hinv.hashes r hr
      · rw [hhash, hcontent]
    · rw [hversions', List.mem_append, List.mem_singleton] at hr
      rcases hr with hr | rfl
      · exact hlinked r hr k hk
      · -- the insert is followed by the link of its attempt
        rw [hattempt] at hk
        rw [hk] at hlink
        exact ⟨_, attempt?_self hlink⟩
    · rw [hattempts, hattempts₁, List.mem_append] at hr
      rcases hr with hr | hr
      · exact hbelow r hr
      · obtain ⟨k, -, rfl⟩ := Option.map_eq_some_iff.mp (Option.mem_toList.mp hr)
        cases hl : db'.latest (host.keyOf args a) with
        | none => exact absurd hkey (latest_eq_none.mp hl row hmem)
        | some l => exact ⟨l, rfl, hversion ▸ (latest_max hl).2 row hmem hkey⟩

theorem Recordings.contentInv {xs : List PyValue} {rs : List Recorded}
    (h : Recordings host args now xs db rs db') (hinv : ContentInv host db) : ContentInv host db' := by
  induction h with
  | nil => exact hinv
  | cons hread h hs ih => exact ih (h.contentInv hinv)

theorem ContentInv.prune (hinv : ContentInv host db) (cutoff : String) :
    ContentInv host (ArtifactStore.prune db cutoff) where
  hashes := fun r hr => hinv.hashes r (mem_prune.mp hr).1
  linked := fun r hr k hk => hinv.linked r (mem_prune.mp hr).1 k hk
  below := fun r hr => by
    rw [latest_prune]
    exact hinv.below r hr

theorem step_contentInv (action : ArtifactAction) (s : ArtifactState ArtifactDb)
    (h : ContentInv host s.db) : ContentInv host (step host storage action s).db := by
  rcases step_cases host storage action s with
    ⟨args, now, rfl, hdb | ⟨artifacts, rs, hrecs⟩⟩ | ⟨cutoff, rfl, hdb⟩
  · rw [hdb]
    exact h
  · exact hrecs.contentInv h
  · rw [hdb]
    exact h.prune cutoff

theorem run_contentInv (host : ArtifactHost) (storage : Option ObjectStorage) (objects : Objects)
    (works : ℕ → Bool) (actions : List ArtifactAction) :
    ContentInv host (Machine.run (step host storage) actions (ArtifactStore.fresh objects works)).db := by
  refine Machine.run_invariant (I := fun s : ArtifactState ArtifactDb => ContentInv host s.db)
    step_contentInv actions _ ⟨?_, ?_, ?_⟩
  · intro r hr
    cases hr
  · intro r hr
    cases hr
  · intro r hr
    cases hr

/-! ## The call returns -/

/-- The table of versions takes the next version of an artifact that the attempt does not have. -/
theorem insertVersion_next (hinv : ContentInv host db) (hprior : priorAttempt host args a db = none)
    {objectId : Option String} {row : VersionRow}
    (hrow : host.versionRow args now a (nextVersion host args a db) objectId = .ok row) :
    ∃ db₁, db.insertVersion row = .ok db₁ := by
  obtain ⟨hkey, hversion, -, -, hattempt, -⟩ := versionRow_ok hrow
  have hnew : ∀ r ∈ db.versions, (r.identityKey, r.version) ≠ (row.identityKey, row.version) := by
    intro r hr heq
    obtain ⟨hk, hv⟩ := Prod.mk.inj heq
    cases hl : db.latest (host.keyOf args a) with
    | none => exact latest_eq_none.mp hl r hr (hk.trans hkey)
    | some l =>
      have hle := (latest_max hl).2 r hr (hk.trans hkey)
      have hlt := lt_nextVersion hl
      omega
  have hidentity : (row.attemptArtifactKey.toList ++
      db.versions.filterMap (·.attemptArtifactKey)).Nodup := by
    cases hk : row.attemptArtifactKey with
    | none => exact db.identities_nodup
    | some k =>
      -- a version that carries the key would be one that the attempt has
      refine List.nodup_cons.mpr ⟨fun hmem => ?_, db.identities_nodup⟩
      obtain ⟨r, hr, hrk⟩ := List.mem_filterMap.mp hmem
      obtain ⟨linked, hlinked⟩ := hinv.linked r hr k hrk
      rw [attempt?_eq_none hprior (hattempt.symm.trans hk)] at hlinked
      cases hlinked
  unfold ArtifactDb.insertVersion
  rw [dif_pos hnew, dif_pos hidentity]
  exact ⟨_, rfl⟩

/-- A backend that works takes an object that is not too large. -/
theorem ends_putObject_ok {δ : Type} {s : ArtifactState δ} {objectId content : String}
    (hworks : storage.isSome = true → ∀ n, s.works n = true)
    (htaken : ∀ backend, storage = some backend → content.utf8ByteSize ≤ backend.maxSizeBytes ∧
      ∀ e, ∃ name, backend.locate e objectId = .ok name) :
    Ends (ArtifactState.exec storage) (putObject storage objectId content)
      (fun r s' => (∃ o, r = .ok (.ok o)) ∧ (storage.isSome = true → ∀ n, s'.works n = true)) s := by
  cases storage with
  | none => exact ⟨⟨_, rfl⟩, hworks⟩
  | some backend =>
    obtain ⟨hsize, hlocate⟩ := htaken backend rfl
    obtain ⟨name, hname⟩ := hlocate (.objectStorageError "object publication failed")
    have hput : backend.put (s.works 0) objectId content s.objects =
        (.ok (), s.objects.write name content) := by
      unfold ObjectStorage.put
      rw [if_neg (Nat.not_lt.mpr hsize), hname, hworks rfl 0]
      rfl
    refine ends_call fun r s' hexec => ?_
    rw [ArtifactState.exec, hput] at hexec
    cases hexec
    exact ⟨⟨_, rfl⟩, fun _ n => hworks rfl (n + 1)⟩

/-- The loop comes to its end on artifacts that can be recorded. -/
theorem ends_recordArtifacts_ok {xs : List PyValue} {s : ArtifactState ArtifactDb}
    (hreadable : ∀ x ∈ xs, ∃ a, readArtifact x = .ok a)
    (hbound : ∀ x ∈ xs, ∀ a, readArtifact x = .ok a → ∀ version objectId,
      ∃ row, host.versionRow args now a version objectId = .ok row)
    (htaken : ∀ backend, storage = some backend → ∀ x ∈ xs, ∀ a, readArtifact x = .ok a →
      a.content.utf8ByteSize ≤ backend.maxSizeBytes ∧
        ∀ version e, ∃ name, backend.locate e (objectIdOf (host.keyOf args a) version) = .ok name)
    (hworks : storage.isSome = true → ∀ n, s.works n = true) (hinv : ContentInv host db)
    (results : List Recorded) :
    Ends (ArtifactState.exec storage) (recordArtifacts host storage args now xs db results)
      (fun r _ => ∃ v, r = .ok (.ok v)) s := by
  induction xs generalizing db results s with
  | nil => exact ⟨_, rfl⟩
  | cons x xs ih =>
    obtain ⟨a, hread⟩ := hreadable x List.mem_cons_self
    have hnext : ∀ {s' : ArtifactState ArtifactDb} {rec : Recorded} {db' : ArtifactDb}
        (results : List Recorded), (storage.isSome = true → ∀ n, s'.works n = true) →
        Recording host args now a db rec db' →
        Ends (ArtifactState.exec storage) (recordArtifacts host storage args now xs db' results)
          (fun r _ => ∃ v, r = .ok (.ok v)) s' := by
      intro s' rec db' results hworks' hrec
      exact ih (fun y hy => hreadable y (List.mem_cons_of_mem _ hy))
        (fun y hy => hbound y (List.mem_cons_of_mem _ hy))
        (fun backend hb y hy => htaken backend hb y (List.mem_cons_of_mem _ hy))
        hworks' (hrec.contentInv hinv) results
    rw [recordArtifacts]
    simp only [hread]
    split
    · next row hprior => exact hnext _ hworks (.replay hprior)
    · next hprior =>
      have hnew : ∀ k, host.attemptKeyOf args a = some k → db.attempt? k = none :=
        fun k hk => attempt?_eq_none hprior hk
      split
      · next row hsame =>
        obtain ⟨db', hlink⟩ := link_of_new _ (host.keyOf args a) row.version hnew
        rw [hlink]
        exact hnext _ hworks (.same hprior hsame hlink)
      · next hchanged =>
        have hobject : ∀ backend, storage = some backend →
            a.content.utf8ByteSize ≤ backend.maxSizeBytes ∧ ∀ e, ∃ name, backend.locate e
              (objectIdOf (host.keyOf args a) (nextVersion host args a db)) = .ok name := by
          intro backend hb
          obtain ⟨hsize, hlocate⟩ := htaken backend hb x List.mem_cons_self a hread
          exact ⟨hsize, hlocate _⟩
        refine Ends.bind (ends_putObject_ok hworks hobject) ?_ (fun e s' h => by obtain ⟨⟨o, ho⟩, -⟩ := h; cases ho)
        rintro put s' ⟨⟨objectId, hput'⟩, hworks'⟩
        cases hput'
        obtain ⟨row, hrow⟩ := hbound x List.mem_cons_self a hread (nextVersion host args a db) objectId
        obtain ⟨db₁, hinsert⟩ := insertVersion_next hinv hprior hrow
        have hattempts : ∀ k, host.attemptKeyOf args a = some k → db₁.attempt? k = none := by
          intro k hk
          exact attempt?_eq_none ((priorAttempt_congr (insertVersion_ok hinsert).2).trans hprior) hk
        obtain ⟨db', hlink⟩ :=
          link_of_new _ (host.keyOf args a) (nextVersion host args a db) hattempts
        have hinserted : (host.versionRow args now a (nextVersion host args a db) objectId >>=
            db.insertVersion) = .ok db₁ := (except_bind_ok_iff _ _ _).mpr ⟨row, hrow, hinsert⟩
        simp only [hinserted, insertOrDiscard, hlink, onTables]
        exact hnext _ hworks' (.fresh hprior hchanged hrow hinsert hlink)

/-- A call on artifacts that can be recorded returns. -/
theorem Recordable.returns {s : ArtifactState ArtifactDb} {xs : List PyValue}
    (h : Recordable host storage args now s xs) (hinv : ContentInv host s.db) :
    ∃ rs s', Prog.run (ArtifactState.exec storage) (record host storage args now) s = (.ok rs, s') := by
  have hends : Ends (ArtifactState.exec storage) (record host storage args now)
      (fun r _ => ∃ rs, r = .ok rs) s := by
    unfold record
    refine ends_call fun db s₀ hbegin => ?_
    cases hbegin
    rw [h.artifacts]
    refine Ends.bind (ends_recordArtifacts_ok (s := ⟨s.db, true, s.objects, s.works⟩) h.readable
      h.bound h.taken h.works hinv []) ?_ ?_
    · rintro r s' ⟨⟨rs, db'⟩, hr⟩
      cases hr
      exact ⟨rs, rfl⟩
    · rintro e s' ⟨v, hv⟩
      cases hv
  obtain ⟨rs, hrs⟩ := hends
  exact ⟨rs, _, Prod.ext hrs rfl⟩

/-! ## One content for every file -/

/-- What is recorded for an artifact has its content, unless the attempt has another one. -/
theorem Recording.holds {rec : Recorded} (h : Recording host args now a db rec db')
    (hhash : Function.Injective host.sha256) (hinv : ContentInv host db)
    (htable : ∀ row, ArtifactStore.priorAttempt host args a db = some row →
      Recorded.Holds db ⟨row.identityKey, row.version, false⟩ a.content) : rec.Holds db' a.content := by
  cases h with
  | replay hprior => exact htable _ hprior
  | @same _ row hprior hsame hlink =>
    obtain ⟨hlatest, heq⟩ := Option.filter_eq_some_iff.mp hsame
    obtain ⟨⟨hmem, hkey⟩, -⟩ := latest_max hlatest
    have hcontent : row.content = a.content := by
      apply hhash
      rw [← hinv.hashes row hmem]
      exact of_decide_eq_true heq
    refine ⟨row, version?_eq_some.mpr ⟨(link_ok hlink).1 ▸ hmem, ?_⟩, hcontent⟩
    rw [hkey]
  | @fresh db₁ _ objectId row hprior hchanged hrow hinsert hlink =>
    obtain ⟨hkey, hversion, -, hcontent, -⟩ := versionRow_ok hrow
    refine ⟨row, version?_eq_some.mpr ⟨?_, by rw [hkey, hversion]⟩, hcontent⟩
    rw [(link_ok hlink).1, (insertVersion_ok hinsert).1]
    exact List.mem_append_right _ List.mem_cons_self

/-- Recording an artifact leaves one content for every file. -/
theorem Recording.oneContent {rec : Recorded} (h : Recording host args now a db rec db')
    (hhash : Function.Injective host.sha256) (hinv : ContentInv host db) {x : PyValue} {xs : List PyValue}
    (hread : readArtifact x = .ok a) (hone : OneContent host args db (x :: xs)) :
    OneContent host args db' xs where
  table := by
    intro y hy b row hb hprior
    have hmem : y ∈ x :: xs := List.mem_cons_of_mem _ hy
    obtain ⟨news, hnews⟩ := h.versions
    by_cases hkey : host.keyOf args a = host.keyOf args b
    · have hargs := priorAttempt_hasAttempt hprior
      obtain ⟨row', hrow', href⟩ := h.priorAttempt hargs
      have hcontent := hone.batch hargs x List.mem_cons_self y hmem a b hread hb hkey
      have hholds := h.holds hhash hinv fun row => hone.table x List.mem_cons_self a row hread
      obtain rfl : row' = row := by
        rw [priorAttempt_of_keyOf hkey, hprior] at hrow'
        exact (Option.some.inj hrow').symm
      obtain ⟨hidentity, hversion⟩ := Prod.mk.inj href
      rw [← hcontent]
      unfold Recorded.Holds at hholds ⊢
      rw [hidentity, hversion]
      exact hholds
    · rw [h.priorAttempt_other hkey] at hprior
      exact (hone.table y hmem b row hb hprior).mono hnews
  batch := fun hargs y hy z hz b c hb hc hkey =>
    hone.batch hargs y (List.mem_cons_of_mem _ hy) z (List.mem_cons_of_mem _ hz) b c hb hc hkey

/-- With one content for every file, every version of the result has the content of its artifact. -/
theorem Recordings.holds {xs : List PyValue} {rs : List Recorded}
    (h : Recordings host args now xs db rs db') (hhash : Function.Injective host.sha256)
    (hinv : ContentInv host db) (hone : OneContent host args db xs) :
    List.Forall₂ (fun x r => ∃ a, readArtifact x = .ok a ∧ r.Holds db' a.content) xs rs := by
  induction h with
  | nil => exact List.Forall₂.nil
  | @cons x xs a db db₁ db' r rs hread h hs ih =>
    obtain ⟨news, hnews⟩ := hs.versions
    have hholds := h.holds hhash hinv fun row => hone.table x List.mem_cons_self a row hread
    exact List.Forall₂.cons ⟨a, hread, hholds.mono hnews⟩
      (ih (h.contentInv hinv) (h.oneContent hhash hinv hread hone))

/-! ## No other way -/

/-- What an attempt has of its artifacts, when every version of the result has its content. -/
theorem Attempted.holds {xs : List PyValue} {rs : List Recorded}
    (h : Attempted host args db xs (rs.map Recorded.reference))
    (hholds : List.Forall₂ (fun x r => ∃ a, readArtifact x = .ok a ∧ r.Holds db a.content) xs rs)
    {x : PyValue} (hx : x ∈ xs) (hread : readArtifact x = .ok a) :
    ∃ row, priorAttempt host args a db = some row ∧
      Recorded.Holds db ⟨row.identityKey, row.version, false⟩ a.content := by
  induction hholds with
  | nil => cases hx
  | @cons y r ys rs hy hys ih =>
    obtain ⟨⟨b, row, hb, hprior, href⟩, hrest⟩ := List.forall₂_cons.mp h
    rcases List.mem_cons.mp hx with rfl | hx
    · obtain ⟨c, hc, hholds⟩ := hy
      rw [hread] at hb hc
      cases hb
      cases hc
      obtain ⟨hidentity, hversion⟩ := Prod.mk.inj href
      refine ⟨row, hprior, ?_⟩
      unfold Recorded.Holds
      rw [hidentity, hversion]
      exact hholds
    · exact ih hrest hx

/-- A version that is recorded has a number above those its key had. -/
theorem Recording.above {rec : Recorded} (h : Recording host args now a db rec db') {r l : VersionRow}
    (hr : r ∈ db'.versions) (hl : db.latest r.identityKey = some l) :
    r ∈ db.versions ∨ l.version < r.version := by
  cases h with
  | replay hprior => exact Or.inl hr
  | same hprior hsame hlink => exact Or.inl ((link_ok hlink).1 ▸ hr)
  | fresh hprior hchanged hrow hinsert hlink =>
    obtain ⟨hkey, hversion, -⟩ := versionRow_ok hrow
    rw [(link_ok hlink).1, (insertVersion_ok hinsert).1, List.mem_append, List.mem_singleton] at hr
    rcases hr with hr | rfl
    · exact Or.inl hr
    · rw [hkey] at hl
      exact Or.inr (hversion ▸ lt_nextVersion hl)

theorem Recordings.above {xs : List PyValue} {rs : List Recorded}
    (h : Recordings host args now xs db rs db') {r l : VersionRow} (hr : r ∈ db'.versions)
    (hl : db.latest r.identityKey = some l) : r ∈ db.versions ∨ l.version < r.version := by
  induction h generalizing l with
  | nil => exact Or.inl hr
  | cons hread h hs ih =>
    obtain ⟨news, hnews⟩ := h.versions
    obtain ⟨l', hl', hle⟩ := latest_mono hnews hl
    rcases ih hr hl' with hmem | hlt
    · exact h.above hmem hl
    · exact Or.inr (lt_of_le_of_lt hle hlt)

/-- When every version of the result has its content, the attempt gives every file one content. -/
theorem Recordings.oneContent {xs : List PyValue} {rs : List Recorded}
    (h : Recordings host args now xs db rs db') (hinv : ContentInv host db)
    (hholds : List.Forall₂ (fun x r => ∃ a, readArtifact x = .ok a ∧ r.Holds db' a.content) xs rs) :
    OneContent host args db xs where
  table := by
    intro x hx a row hread hprior
    have hargs := priorAttempt_hasAttempt hprior
    obtain ⟨row', hprior', v, hv, hcontent⟩ := (h.attempted hargs).holds hholds hx hread
    obtain rfl : row = row' := by
      have hkept := priorAttempt_mono (fun k row => h.attempt?) hprior
      rw [hkept] at hprior'
      exact Option.some.inj hprior'
    obtain ⟨k, -, hfound⟩ := Option.bind_eq_some_iff.mp hprior
    obtain ⟨newest, hnewest, hle⟩ := hinv.below row (attempt?_eq_some.mp hfound).1
    obtain ⟨hmem, heq⟩ := version?_eq_some.mp hv
    obtain ⟨hidentity, hversion⟩ := Prod.mk.inj heq
    -- a version that the call recorded has a number above the newest
    have hold : v ∈ db.versions := by
      rcases h.above hmem (l := newest) (by rw [hidentity]; exact hnewest) with hold | hlt
      · exact hold
      · have hnumber : v.version = row.version := hversion
        omega
    exact ⟨v, version?_eq_some.mpr ⟨hold, heq⟩, hcontent⟩
  batch := by
    intro hargs x hx y hy a b ha hb hkey
    obtain ⟨row, hrow, v, hv, hcontent⟩ := (h.attempted hargs).holds hholds hx ha
    obtain ⟨row', hrow', v', hv', hcontent'⟩ := (h.attempted hargs).holds hholds hy hb
    obtain rfl : row = row' := by
      rw [priorAttempt_of_keyOf hkey, hrow'] at hrow
      exact (Option.some.inj hrow).symm
    rw [hv] at hv'
    cases hv'
    exact hcontent.symm.trans hcontent'

/-! ## Runs -/

/-- A call that returns keeps the contents exactly if the attempt gives every file one content. -/
theorem keepsContents_iff {s s' : ArtifactState ArtifactDb} {xs : List PyValue} {rs : List Recorded}
    (hhash : Function.Injective host.sha256) (hinv : ContentInv host s.db)
    (hartifacts : iterate args.artifacts = .ok xs)
    (hrun : Prog.run (ArtifactState.exec storage) (record host storage args now) s = (.ok rs, s')) :
    KeepsContents host storage args now s xs ↔ OneContent host args s.db xs := by
  obtain ⟨xs', hxs', hrecs⟩ := run_record_ok hrun
  rw [hartifacts] at hxs'
  cases hxs'
  constructor
  · rintro ⟨rs', s'', hrun', hholds⟩
    rw [hrun] at hrun'
    cases hrun'
    exact hrecs.oneContent hinv hholds
  · intro hone
    exact ⟨rs, s', hrun, hrecs.holds hhash hinv hone⟩

/-- In every state of a store, with a hash without collisions: a call on artifacts that can be recorded,
and any other call that returns, returns an element for each of its artifacts, in order, whose version
has the content of the artifact, exactly if the attempt gives every file one content. -/
theorem run_keepsContents_iff (host : ArtifactHost) (storage : Option ObjectStorage) (objects : Objects)
    (works : ℕ → Bool) (actions : List ArtifactAction) (args : RecordArgs) (now : String)
    (xs : List PyValue) (hhash : Function.Injective host.sha256)
    (hcall : Recordable host storage args now
        (Machine.run (step host storage) actions (ArtifactStore.fresh objects works)) xs ∨
      iterate args.artifacts = .ok xs ∧ ∃ rs s',
        Prog.run (ArtifactState.exec storage) (record host storage args now)
          (Machine.run (step host storage) actions (ArtifactStore.fresh objects works)) = (.ok rs, s')) :
    KeepsContents host storage args now
        (Machine.run (step host storage) actions (ArtifactStore.fresh objects works)) xs ↔
      OneContent host args
        (Machine.run (step host storage) actions (ArtifactStore.fresh objects works)).db xs := by
  have hinv := run_contentInv host storage objects works actions
  rcases hcall with hrecordable | ⟨hartifacts, rs, s', hrun⟩
  · obtain ⟨rs, s', hrun⟩ := hrecordable.returns hinv
    exact keepsContents_iff hhash hinv hrecordable.artifacts hrun
  · exact keepsContents_iff hhash hinv hartifacts hrun

namespace ArtifactStore

/-- The host of the texts `one` and `two` with a hash without collisions. -/
def exactHost : ArtifactHost :=
  { demoHost with
    sha256 := Equiv.swap "one" (demoHost.sha256 "one") ∘ Equiv.swap "two" (demoHost.sha256 "two") }

theorem exactHost_injective : Function.Injective exactHost.sha256 :=
  (Equiv.swap "one" (demoHost.sha256 "one")).injective.comp
    (Equiv.swap "two" (demoHost.sha256 "two")).injective

/-- The file `name` with a content. -/
def namedFile (name content : String) : PyValue :=
  .dict [("filename", .str name), ("content", .str content)]

/-- An attempt publishes files. -/
def publication (files : List PyValue) : RecordArgs :=
  ⟨.list files, "", "task", "skill", some "attempt", none, none⟩

/-- Two files of one attempt keep their contents. -/
theorem twoFiles_keepContents :
    KeepsContents exactHost none (publication [namedFile "a.py" "one", namedFile "b.py" "two"])
        "2026-01-01T00:00:00+00:00" (ArtifactStore.fresh [] fun _ => true)
        [namedFile "a.py" "one", namedFile "b.py" "two"] ↔
      OneContent exactHost (publication [namedFile "a.py" "one", namedFile "b.py" "two"])
        (ArtifactStore.fresh [] fun _ => true).db [namedFile "a.py" "one", namedFile "b.py" "two"] := by
  have hrecordable : Recordable exactHost none
      (publication [namedFile "a.py" "one", namedFile "b.py" "two"]) "2026-01-01T00:00:00+00:00"
      (ArtifactStore.fresh [] fun _ => true) [namedFile "a.py" "one", namedFile "b.py" "two"] := by
    refine ⟨rfl, ?_, ?_, ?_, ?_⟩
    · intro x hx
      rcases List.mem_pair.mp hx with rfl | rfl
      · exact ⟨_, rfl⟩
      · exact ⟨_, rfl⟩
    · intro x hx a hread version objectId
      rcases List.mem_pair.mp hx with rfl | rfl
      · cases hread
        cases objectId <;> exact ⟨_, rfl⟩
      · cases hread
        cases objectId <;> exact ⟨_, rfl⟩
    · intro h
      cases h
    · intro backend h
      cases h
  exact run_keepsContents_iff exactHost none [] (fun _ => true) []
    (publication [namedFile "a.py" "one", namedFile "b.py" "two"]) "2026-01-01T00:00:00+00:00"
    [namedFile "a.py" "one", namedFile "b.py" "two"] exactHost_injective (Or.inl hrecordable)

/-- An attempt that publishes two contents under one name loses the second one. -/
theorem oneFile_loses_content :
    ¬ KeepsContents exactHost none (publication [namedFile "a.py" "one", namedFile "a.py" "two"])
        "2026-01-01T00:00:00+00:00" (ArtifactStore.fresh [] fun _ => true)
        [namedFile "a.py" "one", namedFile "a.py" "two"] := by
  rintro ⟨rs, s', hrun, hholds⟩
  have hresult : (Prog.run (ArtifactState.exec none) (record exactHost none (publication
      [namedFile "a.py" "one", namedFile "a.py" "two"]) "2026-01-01T00:00:00+00:00")
      (ArtifactStore.fresh [] fun _ => true)).1 =
      .ok [⟨"::a.py", 1, true⟩, ⟨"::a.py", 1, false⟩] := by decide +kernel
  have hcontent : ((Prog.run (ArtifactState.exec none) (record exactHost none (publication
      [namedFile "a.py" "one", namedFile "a.py" "two"]) "2026-01-01T00:00:00+00:00")
      (ArtifactStore.fresh [] fun _ => true)).2.db.version? "::a.py" 1).map (·.content) =
      some "one" := by decide +kernel
  rw [hrun] at hresult hcontent
  cases hresult
  -- the second element of the result names the version with the first content
  obtain ⟨a, hread, row, hrow, htwo⟩ := (List.forall₂_cons.mp (List.forall₂_cons.mp hholds).2).1
  cases hread
  rw [hrow] at hcontent
  have hone : row.content = "one" := Option.some.inj hcontent
  rw [hone] at htwo
  exact absurd htwo (by decide)

end ArtifactStore

end Galaxz
