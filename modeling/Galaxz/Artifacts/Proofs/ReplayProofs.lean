import Galaxz.Artifacts.Proofs.HistoryProofs

/-!
# Proofs: replayed attempts

What an attempt has recorded stays in the table of attempts, so a call that replays it finds every
artifact there and returns the versions of the first time.
-/

namespace Galaxz

open ArtifactStore Prog

variable {host : ArtifactHost} {storage : Option ObjectStorage} {args : RecordArgs} {now : String}
  {db db' : ArtifactDb} {a : Artifact}

/-- The table of attempts takes an attempt that it does not hold. -/
theorem link_of_new (attemptKey : Option String) (key : String) (version : ℕ)
    (hnew : ∀ k, attemptKey = some k → db.attempt? k = none) :
    ∃ db', db.link attemptKey key version = .ok db' := by
  unfold ArtifactDb.link
  rcases attemptKey with _ | k
  · exact ⟨db, rfl⟩
  · have hall : ∀ r ∈ db.attempts, r.attemptArtifactKey ≠ k := by
      intro r hr hk
      have hfound := attempt?_eq_some.mpr ⟨hr, hk⟩
      rw [hnew k rfl] at hfound
      cases hfound
    simp only [dif_pos hall]
    exact ⟨_, rfl⟩

/-- An attempt stays in the table. -/
theorem attempt?_link {db' : ArtifactDb} {attemptKey : Option String} {key : String} {version : ℕ}
    (hlink : db.link attemptKey key version = .ok db') {k : String} {row : AttemptVersionRow}
    (hrow : db.attempt? k = some row) : db'.attempt? k = some row := by
  obtain ⟨hmem, hk⟩ := attempt?_eq_some.mp hrow
  refine attempt?_eq_some.mpr ⟨?_, hk⟩
  rw [(link_ok hlink).2]
  exact List.mem_append_left _ hmem

theorem attemptKeyOf_hasAttempt (host : ArtifactHost) (h : args.HasAttempt) (a : Artifact) :
    ∃ k, host.attemptKeyOf args a = some k := by
  obtain ⟨id, hid, hne⟩ := h
  unfold ArtifactHost.attemptKeyOf
  rw [hid]
  exact ⟨_, if_neg hne⟩

theorem attempt?_self {attemptKey key : String} {version : ℕ}
    (hlink : db.link (some attemptKey) key version = .ok db') :
    db'.attempt? attemptKey = some ⟨attemptKey, key, version⟩ := by
  refine attempt?_eq_some.mpr ⟨?_, rfl⟩
  rw [(link_ok hlink).2]
  exact List.mem_append_right _ List.mem_cons_self

/-- Recording an artifact keeps every attempt in the table. -/
theorem Recording.attempt? {rec : Recorded} (h : Recording host args now a db rec db') {k : String}
    {row : AttemptVersionRow} (hrow : db.attempt? k = some row) : db'.attempt? k = some row := by
  cases h with
  | replay hprior => exact hrow
  | same hprior hsame hlink => exact attempt?_link hlink hrow
  | fresh hprior hchanged hversion hinsert hlink =>
    refine attempt?_link hlink ?_
    unfold ArtifactDb.attempt?
    rw [(insertVersion_ok hinsert).2]
    exact hrow

theorem Recordings.attempt? {xs : List PyValue} {rs : List Recorded}
    (h : Recordings host args now xs db rs db') {k : String} {row : AttemptVersionRow}
    (hrow : db.attempt? k = some row) : db'.attempt? k = some row := by
  induction h with
  | nil => exact hrow
  | cons hread h hs ih => exact ih (h.attempt? hrow)

/-- Recording adds versions and removes none. -/
theorem Recording.versions {rec : Recorded} (h : Recording host args now a db rec db') :
    ∃ news, db'.versions = db.versions ++ news := by
  cases h with
  | replay hprior => exact ⟨[], (List.append_nil _).symm⟩
  | same hprior hsame hlink => exact ⟨[], by rw [(link_ok hlink).1, List.append_nil]⟩
  | fresh hprior hchanged hversion hinsert hlink =>
    exact ⟨_, (link_ok hlink).1.trans (insertVersion_ok hinsert).1⟩

theorem Recordings.versions {xs : List PyValue} {rs : List Recorded}
    (h : Recordings host args now xs db rs db') : ∃ news, db'.versions = db.versions ++ news := by
  induction h with
  | nil => exact ⟨[], (List.append_nil _).symm⟩
  | cons hread h hs ih =>
    obtain ⟨news, hnews⟩ := h.versions
    obtain ⟨more, hmore⟩ := ih
    exact ⟨news ++ more, by rw [hmore, hnews, List.append_assoc]⟩

/-- The attempt that recorded an artifact has it. -/
theorem Recording.priorAttempt {rec : Recorded} (h : Recording host args now a db rec db')
    (hargs : args.HasAttempt) :
    ∃ row, priorAttempt host args a db' = some row ∧ (row.identityKey, row.version) = rec.reference := by
  obtain ⟨k, hk⟩ := attemptKeyOf_hasAttempt host hargs a
  have hlinked : ∀ {db₁ db' : ArtifactDb} {version : ℕ},
      db₁.link (host.attemptKeyOf args a) (host.keyOf args a) version = .ok db' →
      ArtifactStore.priorAttempt host args a db' = some ⟨k, host.keyOf args a, version⟩ := by
    intro db₁ db' version hlink
    rw [hk] at hlink
    unfold ArtifactStore.priorAttempt
    rw [hk]
    exact attempt?_self hlink
  cases h with
  | replay hprior => exact ⟨_, hprior, rfl⟩
  | same hprior hsame hlink => exact ⟨_, hlinked hlink, rfl⟩
  | fresh hprior hchanged hversion hinsert hlink => exact ⟨_, hlinked hlink, rfl⟩

theorem priorAttempt_mono (hkeep : ∀ k row, db.attempt? k = some row → db'.attempt? k = some row)
    {row : AttemptVersionRow} (h : priorAttempt host args a db = some row) :
    priorAttempt host args a db' = some row := by
  obtain ⟨k, hk, hrow⟩ := Option.bind_eq_some_iff.mp h
  exact Option.bind_eq_some_iff.mpr ⟨k, hk, hkeep k row hrow⟩

theorem Attempted.mono (hkeep : ∀ k row, db.attempt? k = some row → db'.attempt? k = some row)
    {xs : List PyValue} {references : List (String × ℕ)} (h : Attempted host args db xs references) :
    Attempted host args db' xs references := by
  refine List.Forall₂.imp (fun x reference => ?_) h
  rintro ⟨a, row, hread, hprior, href⟩
  exact ⟨a, row, hread, priorAttempt_mono hkeep hprior, href⟩

/-- A call that recorded its artifacts for an attempt leaves them with it. -/
theorem Recordings.attempted {xs : List PyValue} {rs : List Recorded}
    (h : Recordings host args now xs db rs db') (hargs : args.HasAttempt) :
    Attempted host args db' xs (rs.map Recorded.reference) := by
  induction h with
  | nil => exact List.Forall₂.nil
  | cons hread h hs ih =>
    obtain ⟨row, hrow, href⟩ := h.priorAttempt hargs
    exact List.Forall₂.cons
      ⟨_, row, hread, priorAttempt_mono (fun k row => hs.attempt?) hrow, href⟩ ih

theorem RecordArgs.Replays.priorAttempt {again first : RecordArgs} (h : again.Replays first) :
    priorAttempt host again a db = priorAttempt host first a db := by
  unfold ArtifactStore.priorAttempt ArtifactHost.attemptKeyOf ArtifactHost.keyOf
  rw [h.attemptId, h.workspaceRoot]

/-- The loop over artifacts that the attempt has: it returns their versions and changes nothing. -/
theorem recordArtifacts_attempted {xs : List PyValue} {references : List (String × ℕ)}
    (h : Attempted host args db xs references) (results : List Recorded) :
    recordArtifacts host storage args now xs db results =
      .pure (.ok (results ++ references.map fun r => ⟨r.1, r.2, false⟩, db)) := by
  induction h generalizing results with
  | nil =>
    rw [recordArtifacts, List.map_nil, List.append_nil]
    rfl
  | cons hx _ ih =>
    obtain ⟨a, row, hread, hprior, rfl⟩ := hx
    rw [recordArtifacts]
    simp only [hread, hprior]
    rw [ih, List.append_assoc]
    rfl

/-- A call that replays an attempt returns the versions of the first time and changes nothing. -/
theorem run_record_attempted {s : ArtifactState ArtifactDb} {xs : List PyValue}
    {references : List (String × ℕ)} (hartifacts : iterate args.artifacts = .ok xs)
    (h : Attempted host args s.db xs references) :
    run (ArtifactState.exec storage) (record host storage args now) s =
      (.ok (references.map fun r => ⟨r.1, r.2, false⟩), { s with locked := false }) := by
  unfold record
  rw [hartifacts, run_bind]
  show run _ (recordArtifacts host storage args now xs s.db [] >>= finishRecord) _ = _
  rw [recordArtifacts_attempted h]
  rfl

end Galaxz
