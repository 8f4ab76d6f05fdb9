import Galaxz.Artifacts.Recording

/-!
# Proofs: what the methods of the store do to the tables

`record` commits what `Recordings` describes, or it raises and leaves the tables as they were.
-/

namespace Galaxz

open ArtifactStore Prog

variable {host : ArtifactHost} {storage : Option ObjectStorage} {args : RecordArgs} {now : String}
  {s : ArtifactState ArtifactDb}

namespace ArtifactState

variable {δ : Type}

theorem exec_put_db (storage : Option ObjectStorage) (s : ArtifactState δ) (objectId content : String) :
    (exec storage (.put objectId content) s).2.db = s.db := by
  cases storage <;> rfl

theorem exec_delete_db (storage : Option ObjectStorage) (s : ArtifactState δ) (objectId : String) :
    (exec storage (.delete objectId) s).2.db = s.db := by
  cases storage <;> rfl

/-- No call raises. -/
theorem exec_ok (storage : Option ObjectStorage) (s : ArtifactState δ) (call : ArtifactCall δ) :
    ∃ a, (exec storage call s).1 = .ok a := by
  cases call with
  | put objectId content =>
    cases storage with
    | none => exact ⟨_, rfl⟩
    | some storage => exact ⟨_, rfl⟩
  | delete objectId =>
    cases storage with
    | none => exact ⟨_, rfl⟩
    | some storage => exact ⟨_, rfl⟩
  | listIds =>
    cases storage with
    | none => exact ⟨_, rfl⟩
    | some storage => exact ⟨_, rfl⟩
  | _ => exact ⟨_, rfl⟩

end ArtifactState

/-- The rule of a call and what follows it: no call raises. -/
theorem ends_call {δ α : Type} {s : ArtifactState δ} {call : ArtifactCall δ}
    {f : call.Answer → ArtifactProg δ α} {Q : Except PyError α → ArtifactState δ → Prop}
    (hf : ∀ a s', ArtifactState.exec storage call s = (.ok a, s') →
      Ends (ArtifactState.exec storage) (f a) Q s') :
    Ends (ArtifactState.exec storage) (Prog.call call .pure >>= f) Q s := by
  refine Ends.call hf fun e s' he => ?_
  obtain ⟨a, ha⟩ := ArtifactState.exec_ok storage s call
  rw [he] at ha
  cases ha

/-! ## `record` -/

theorem ends_putObject {δ : Type} {s : ArtifactState δ} (objectId content : String) :
    Ends (ArtifactState.exec storage) (putObject storage objectId content)
      (fun r s' => s'.db = s.db ∧ ∃ o, r = .ok o) s := by
  rcases storage with _ | storage
  · exact ⟨rfl, _, rfl⟩
  · refine ends_call fun a s' hexec => ?_
    have hdb : s'.db = s.db := by
      have h := ArtifactState.exec_put_db (some storage) s objectId content
      rw [hexec] at h
      exact h
    rcases a with e | u
    · exact ⟨hdb, _, rfl⟩
    · exact ⟨hdb, _, rfl⟩

theorem ends_discardObject {δ : Type} {s : ArtifactState δ} (objectId : Option String) (e : PyError) :
    Ends (ArtifactState.exec storage) (discardObject objectId e)
      (fun r s' => s'.db = s.db ∧ ∃ e', r = .ok e') s := by
  rcases objectId with _ | objectId
  · exact ⟨rfl, _, rfl⟩
  · refine ends_call fun a s' hexec => ?_
    have hdb : s'.db = s.db := by
      have h := ArtifactState.exec_delete_db storage s objectId
      rw [hexec] at h
      exact h
    rcases a with e' | u
    · exact ⟨hdb, _, rfl⟩
    · exact ⟨hdb, _, rfl⟩

theorem ends_onTables {δ α : Type} {s : ArtifactState δ} {r : Except PyError δ}
    {k : δ → ArtifactProg δ (Except PyError α)} {Q : Except PyError (Except PyError α) → ArtifactState δ → Prop}
    (herror : ∀ e, Q (.ok (.error e)) s)
    (hok : ∀ db, r = .ok db → Ends (ArtifactState.exec storage) (k db) Q s) :
    Ends (ArtifactState.exec storage) (onTables r k) Q s := by
  rcases r with e | db
  · exact herror e
  · exact hok db rfl

theorem ends_insertOrDiscard {δ α : Type} {s : ArtifactState δ} {objectId : Option String}
    {r : Except PyError δ} {k : δ → ArtifactProg δ (Except PyError α)}
    {Q : Except PyError (Except PyError α) → ArtifactState δ → Prop}
    (herror : ∀ e s', s'.db = s.db → Q (.ok (.error e)) s')
    (hok : ∀ db, r = .ok db → Ends (ArtifactState.exec storage) (k db) Q s) :
    Ends (ArtifactState.exec storage) (insertOrDiscard objectId r k) Q s := by
  rcases r with e | db
  · refine Ends.bind (ends_discardObject objectId e) ?_ ?_
    · rintro e' s' ⟨hs', -⟩
      exact herror e' s' hs'
    · rintro e' s' ⟨-, o, ho⟩
      cases ho
  · exact hok db rfl

/-- What the loop of `record` leaves: the database as it was, and the tables of the transaction with
everything recorded, unless an exception ended it. -/
def LoopDone (host : ArtifactHost) (args : RecordArgs) (now : String) (artifacts : List PyValue)
    (db : ArtifactDb) (results : List Recorded) (s : ArtifactState ArtifactDb)
    (r : Except PyError (Except PyError (List Recorded × ArtifactDb))) (s' : ArtifactState ArtifactDb) :
    Prop :=
  s'.db = s.db ∧ ((∃ e, r = .ok (.error e)) ∨
    ∃ rs db', r = .ok (.ok (results ++ rs, db')) ∧ Recordings host args now artifacts db rs db')

theorem LoopDone.cons {x : PyValue} {xs : List PyValue} {a : Artifact} {db db₁ : ArtifactDb}
    {rec : Recorded} {results : List Recorded} {s s₁ s' : ArtifactState ArtifactDb}
    {r : Except PyError (Except PyError (List Recorded × ArtifactDb))}
    (hread : readArtifact x = .ok a) (h : Recording host args now a db rec db₁) (hs : s₁.db = s.db)
    (hrest : LoopDone host args now xs db₁ (results ++ [rec]) s₁ r s') :
    LoopDone host args now (x :: xs) db results s r s' := by
  obtain ⟨hdb, herr | ⟨rs, db', hr, hrecs⟩⟩ := hrest
  · exact ⟨hdb.trans hs, Or.inl herr⟩
  · refine ⟨hdb.trans hs, Or.inr ⟨rec :: rs, db', ?_, .cons hread h hrecs⟩⟩
    rw [hr, List.append_assoc, List.singleton_append]

theorem ends_recordArtifacts (artifacts : List PyValue) (db : ArtifactDb) (results : List Recorded) :
    Ends (ArtifactState.exec storage) (recordArtifacts host storage args now artifacts db results)
      (LoopDone host args now artifacts db results s) s := by
  induction artifacts generalizing db results s with
  | nil => exact ⟨rfl, Or.inr ⟨[], db, by rw [List.append_nil]; rfl, .nil⟩⟩
  | cons x xs ih =>
    rw [recordArtifacts]
    split
    · exact ⟨rfl, Or.inl ⟨_, rfl⟩⟩
    · next a hread =>
      split
      · next row hprior => exact (ih _ _).mono fun _ _ h => h.cons hread (.replay hprior) rfl
      · next hprior =>
        split
        · next row hsame =>
          refine ends_onTables (fun e => ⟨rfl, Or.inl ⟨e, rfl⟩⟩) fun db₁ hlink => ?_
          exact (ih _ _).mono fun _ _ h => h.cons hread (.same hprior hsame hlink) rfl
        · next hchanged =>
          refine Ends.bind (ends_putObject _ _) ?_ (fun e s' h => by obtain ⟨-, o, ho⟩ := h; cases ho)
          rintro put s₁ ⟨hs₁, -⟩
          split
          · exact ⟨hs₁, Or.inl ⟨_, rfl⟩⟩
          · next objectId =>
            refine ends_insertOrDiscard (fun e s₂ hs₂ => ⟨hs₂.trans hs₁, Or.inl ⟨e, rfl⟩⟩)
              fun db₁ hinsert => ?_
            obtain ⟨row, hrow, hinsert⟩ := (except_bind_ok_iff _ _ _).mp hinsert
            refine ends_onTables (fun e => ⟨hs₁, Or.inl ⟨e, rfl⟩⟩) fun db₂ hlink => ?_
            exact (ih _ _).mono fun _ _ h =>
              h.cons hread (.fresh hprior hchanged hrow hinsert hlink) hs₁

/-- `record` raises and leaves the tables alone, or it has recorded every artifact. -/
theorem ends_record (host : ArtifactHost) (storage : Option ObjectStorage) (args : RecordArgs)
    (now : String) (s : ArtifactState ArtifactDb) :
    Ends (ArtifactState.exec storage) (record host storage args now)
      (fun r s' => ((∃ e, r = .error e) ∧ s'.db = s.db) ∨
        ∃ artifacts rs, iterate args.artifacts = .ok artifacts ∧ r = .ok rs ∧
          Recordings host args now artifacts s.db rs s'.db) s := by
  refine ends_call fun db s₀ hbegin => ?_
  cases hbegin
  split
  · exact Or.inl ⟨⟨_, rfl⟩, rfl⟩
  · next artifacts hartifacts =>
    refine Ends.bind (ends_recordArtifacts artifacts s.db []) ?_ ?_
    · rintro o s₁ ⟨hdb, ⟨e, ho⟩ | ⟨rs, db', ho, hrecs⟩⟩
      · cases ho
        exact Or.inl ⟨⟨e, rfl⟩, hdb⟩
      · cases ho
        exact Or.inr ⟨artifacts, rs, hartifacts, rfl, hrecs⟩
    · rintro e s₁ ⟨-, ⟨e', h⟩ | ⟨rs, db', h, -⟩⟩
      · cases h
      · cases h

/-- The tables after `delete_older_than`. -/
theorem ends_deleteOlderThan (storage : Option ObjectStorage) (s : ArtifactState ArtifactDb)
    (cutoff : String) :
    Ends (ArtifactState.exec storage) (deleteOlderThan storage cutoff)
      (fun _ s' => s'.db = prune s.db cutoff) s := by
  have hdelete : ∀ (ids deleted : List String) (s : ArtifactState ArtifactDb),
      Ends (ArtifactState.exec storage) (deleteObjects ids deleted) (fun _ s' => s'.db = s.db) s := by
    intro ids
    induction ids with
    | nil => exact fun deleted s => rfl
    | cons objectId ids ih =>
      intro deleted s
      refine ends_call fun a s' hexec => ?_
      have hdb : s'.db = s.db := by
        have h := ArtifactState.exec_delete_db storage s objectId
        rw [hexec] at h
        exact h
      split
      · exact hdb
      · exact (ih _ s').mono fun _ _ h => h.trans hdb
  refine ends_call fun db s₀ hbegin => ?_
  cases hbegin
  refine ends_call fun _ s₁ hcommit => ?_
  cases hcommit
  split
  · rfl
  · exact (hdelete _ _ _).mono fun _ _ h => h

/-- A call that returns has recorded every artifact. -/
theorem run_record_ok {rs : List Recorded} {s' : ArtifactState ArtifactDb}
    (hrun : run (ArtifactState.exec storage) (record host storage args now) s = (.ok rs, s')) :
    ∃ artifacts, iterate args.artifacts = .ok artifacts ∧
      Recordings host args now artifacts s.db rs s'.db := by
  have hends := ends_record host storage args now s
  unfold Ends at hends
  rw [hrun] at hends
  rcases hends with ⟨⟨e, he⟩, -⟩ | ⟨artifacts, rs', hartifacts, hok, hrecs⟩
  · cases he
  · cases hok
    exact ⟨artifacts, hartifacts, hrecs⟩

/-- A call that raises leaves the tables alone. -/
theorem run_record_error {e : PyError} {s' : ArtifactState ArtifactDb}
    (hrun : run (ArtifactState.exec storage) (record host storage args now) s = (.error e, s')) :
    s'.db = s.db := by
  have hends := ends_record host storage args now s
  unfold Ends at hends
  rw [hrun] at hends
  rcases hends with ⟨-, hdb⟩ | ⟨artifacts, rs, -, hok, -⟩
  · exact hdb
  · cases hok

/-- What a call on the store may do to the tables. -/
theorem step_cases (host : ArtifactHost) (storage : Option ObjectStorage) (action : ArtifactAction)
    (s : ArtifactState ArtifactDb) :
    (∃ args now, action = .record args now ∧ ((step host storage action s).db = s.db ∨
      ∃ artifacts rs, Recordings host args now artifacts s.db rs (step host storage action s).db)) ∨
    ∃ cutoff, action = .deleteOlderThan cutoff ∧
      (step host storage action s).db = prune s.db cutoff := by
  cases action with
  | record args now =>
    refine Or.inl ⟨args, now, rfl, ?_⟩
    rcases ends_record host storage args now s with ⟨-, hdb⟩ | ⟨artifacts, rs, -, -, hrecs⟩
    · exact Or.inl hdb
    · exact Or.inr ⟨artifacts, rs, hrecs⟩
  | deleteOlderThan cutoff => exact Or.inr ⟨cutoff, rfl, ends_deleteOlderThan storage s cutoff⟩

end Galaxz
