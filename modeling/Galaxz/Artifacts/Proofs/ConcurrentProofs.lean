import Galaxz.Artifacts.Concurrent
import Galaxz.Artifacts.Proofs.PostgresProofs

/-!
# When concurrent calls keep the payloads

As long as no call puts an object under a name that is in use, every name in use belongs to one row or one
call, and the object under it is the one that its row or its call put.
-/

namespace Galaxz.RecordSystem

/-- The object of a version that `INSERT` is about to store, and its content. -/
def payload (host : PostgresHost) : RecordPhase → Option (String × String)
  | .inserting args a version _ _ => some (objectIdOf (host.keyOf args a) version, a.content)
  | _ => none

/-- The name of the object that a call holds. -/
def heldName (host : PostgresHost) (storage : NamedStorage) (p : RecordPhase) : Option String :=
  (p.held host).bind storage.name?

/-- The name of the object of a row. -/
def rowName (storage : NamedStorage) (r : Option ℕ × VersionRow) : Option String :=
  r.2.objectId.bind storage.name?

/-- Every name in use belongs to one row or one call, with the content that was put for it. -/
structure NamesOwned (host : PostgresHost) (storage : NamedStorage) (s : RecordSystem) : Prop where
  stored : ∀ r ∈ s.table.rows, ∃ name content, rowName storage r = some name ∧
    s.objects.read name = some content ∧ host.sha256 content = r.2.contentHash
  apart : s.table.rows.Pairwise fun r r' => rowName storage r ≠ rowName storage r'
  put : ∀ (i : ℕ) (p : RecordPhase), s.calls[i]? = some p → ∀ objectId content, payload host p = some (objectId, content) →
    ∃ name, storage.name? objectId = some name ∧ s.objects.read name = some content
  rows : ∀ (i : ℕ) (p : RecordPhase), s.calls[i]? = some p → ∀ name, heldName host storage p = some name →
    ∀ r ∈ s.table.rows, rowName storage r ≠ some name
  calls : ∀ (i j : ℕ) (p q : RecordPhase), i ≠ j → s.calls[i]? = some p → s.calls[j]? = some q →
    ∀ name, heldName host storage p = some name → heldName host storage q ≠ some name

section

variable {host : PostgresHost} {storage : NamedStorage} {s : RecordSystem} {i : ℕ} {p old : RecordPhase}

theorem payload_heldName {objectId content name : String} (h : payload host p = some (objectId, content))
    (hname : storage.name? objectId = some name) : heldName host storage p = some name := by
  cases p with
  | inserting args a version artifacts results =>
    obtain ⟨rfl, rfl⟩ := Prod.mk.inj (Option.some.inj h)
    exact hname
  | _ => cases h

/-- The phases after one call has gone on. -/
theorem getElem?_goTo {j : ℕ} {q : RecordPhase} (h : (s.calls.set i p)[j]? = some q) :
    (j = i ∧ q = p) ∨ (j ≠ i ∧ s.calls[j]? = some q) := by
  rw [List.getElem?_set] at h
  by_cases hj : i = j
  · rw [if_pos hj] at h
    split_ifs at h
    exact .inl ⟨hj.symm, (Option.some.inj h).symm⟩
  · rw [if_neg hj] at h
    exact .inr ⟨Ne.symm hj, h⟩

/-! ## One step -/

/-- Operations on one name that no row has, and that no call has but the one that goes on. -/
theorem NamesOwned.objects (objects : Objects) (name : String) (h : NamesOwned host storage s)
    (hread : ∀ x, x ≠ name → Objects.read objects x = s.objects.read x)
    (hrows : ∀ r ∈ s.table.rows, rowName storage r ≠ some name)
    (hcalls : ∀ (j : ℕ) (q : RecordPhase), j ≠ i → s.calls[j]? = some q → heldName host storage q ≠ some name)
    (hput : ∀ objectId content, payload host p = some (objectId, content) →
      storage.name? objectId = some name ∧ Objects.read objects name = some content)
    (hheld : ∀ x, heldName host storage p = some x → x = name) :
    NamesOwned host storage (RecordSystem.goTo { s with objects } i p) := by
  constructor
  case stored =>
    intro r hr
    obtain ⟨x, content, hx, hcontent, hhash⟩ := h.stored r hr
    have hne : x ≠ name := by
      rintro rfl
      exact hrows r hr hx
    exact ⟨x, content, hx, (hread x hne).trans hcontent, hhash⟩
  case apart => exact h.apart
  case put =>
    intro j q hq objectId content hpayload
    rcases getElem?_goTo hq with ⟨-, rfl⟩ | ⟨hj, hq⟩
    · exact ⟨name, hput objectId content hpayload⟩
    · obtain ⟨x, hx, hcontent⟩ := h.put j q hq objectId content hpayload
      have hne : x ≠ name := by
        rintro rfl
        exact hcalls j q hj hq (payload_heldName hpayload hx)
      exact ⟨x, hx, (hread x hne).trans hcontent⟩
  case rows =>
    intro j q hq x hx r hr
    rcases getElem?_goTo hq with ⟨-, rfl⟩ | ⟨-, hq⟩
    · rw [hheld x hx]
      exact hrows r hr
    · exact h.rows j q hq x hx r hr
  case calls =>
    intro j k q q' hjk hq hq' x hx
    rcases getElem?_goTo hq with ⟨rfl, rfl⟩ | ⟨hj, hother⟩
    · rcases getElem?_goTo hq' with ⟨hk, -⟩ | ⟨hk, hq'⟩
      · exact absurd hk.symm hjk
      · rw [hheld x hx]
        exact hcalls k q' hk hq'
    · rcases getElem?_goTo hq' with ⟨-, rfl⟩ | ⟨-, hq'⟩
      · intro hx'
        rw [hheld x hx'] at hx
        exact hcalls j q hj hother hx
      · exact h.calls j k q q' hjk hother hq' x hx

/-- A call that goes on without a statement or an operation takes no new name. -/
theorem NamesOwned.goTo (h : NamesOwned host storage s) (hold : s.calls[i]? = some old)
    (hput : payload host p = none) (hheld : p.held host = none ∨ p.held host = old.held host) :
    NamesOwned host storage (s.goTo i p) := by
  have hname : ∀ x, heldName host storage p = some x → heldName host storage old = some x := by
    intro x hx
    rcases hheld with hnone | hsame
    · unfold heldName at hx
      rw [hnone] at hx
      cases hx
    · unfold heldName at hx ⊢
      rwa [← hsame]
  constructor
  case stored => exact h.stored
  case apart => exact h.apart
  case put =>
    intro j q hq objectId content hpayload
    rcases getElem?_goTo hq with ⟨-, rfl⟩ | ⟨-, hq⟩
    · rw [hput] at hpayload
      cases hpayload
    · exact h.put j q hq objectId content hpayload
  case rows =>
    intro j q hq x hx
    rcases getElem?_goTo hq with ⟨-, rfl⟩ | ⟨-, hq⟩
    · exact h.rows i old hold x (hname x hx)
    · exact h.rows j q hq x hx
  case calls =>
    intro j k q q' hjk hq hq' x hx
    rcases getElem?_goTo hq with ⟨rfl, rfl⟩ | ⟨-, hother⟩
    · rcases getElem?_goTo hq' with ⟨hk, -⟩ | ⟨-, hq'⟩
      · exact absurd hk.symm hjk
      · exact h.calls j k old q' hjk hold hq' x (hname x hx)
    · rcases getElem?_goTo hq' with ⟨rfl, rfl⟩ | ⟨-, hq'⟩
      · intro hx'
        exact h.calls j k q old hjk hother hold x hx (hname x hx')
      · exact h.calls j k q q' hjk hother hq' x hx

/-- A new call holds no object. -/
theorem NamesOwned.start (h : NamesOwned host storage s) (hput : payload host p = none) (hheld : p.held host = none) :
    NamesOwned host storage { s with calls := s.calls ++ [p] } := by
  have hcall : ∀ {j : ℕ} {q : RecordPhase}, (s.calls ++ [p])[j]? = some q → q = p ∨ s.calls[j]? = some q := by
    intro j q hq
    rw [List.getElem?_append] at hq
    split_ifs at hq
    · exact .inr hq
    · exact .inl (List.mem_singleton.1 (List.mem_of_getElem? hq))
  have hnone : heldName host storage p = none := by
    unfold heldName
    rw [hheld]
    rfl
  constructor
  case stored => exact h.stored
  case apart => exact h.apart
  case put =>
    intro j q hq objectId content hpayload
    rcases hcall hq with rfl | hq
    · rw [hput] at hpayload
      cases hpayload
    · exact h.put j q hq objectId content hpayload
  case rows =>
    intro j q hq x hx
    rcases hcall hq with rfl | hq
    · rw [hnone] at hx
      cases hx
    · exact h.rows j q hq x hx
  case calls =>
    intro j k q q' hjk hq hq' x hx
    rcases hcall hq with rfl | hq
    · rw [hnone] at hx
      cases hx
    · rcases hcall hq' with rfl | hq'
      · rw [hnone]
        simp
      · exact h.calls j k q q' hjk hq hq' x hx

/-- The end of a transaction: the rows that are left are rows that were there. -/
theorem NamesOwned.table {table : SharedVersions} (h : NamesOwned host storage s)
    (hrows : ∀ r ∈ table.rows, ∃ r' ∈ s.table.rows, r'.2 = r.2)
    (hapart : table.rows.Pairwise fun r r' => rowName storage r ≠ rowName storage r') :
    NamesOwned host storage { s with table } := by
  have hname : ∀ {r r' : Option ℕ × VersionRow}, r'.2 = r.2 → rowName storage r' = rowName storage r := by
    intro r r' heq
    unfold rowName
    rw [heq]
  constructor
  case stored =>
    intro r hr
    obtain ⟨r', hr', heq⟩ := hrows r hr
    obtain ⟨name, content, hx, hcontent, hhash⟩ := h.stored r' hr'
    exact ⟨name, content, (hname heq).symm.trans hx, hcontent, heq ▸ hhash⟩
  case apart => exact hapart
  case put => exact h.put
  case rows =>
    intro j q hq x hx r hr
    obtain ⟨r', hr', heq⟩ := hrows r hr
    rw [← hname heq]
    exact h.rows j q hq x hx r' hr'
  case calls => exact h.calls

theorem NamesOwned.commit (h : NamesOwned host storage s) : NamesOwned host storage { s with table := s.table.commit i } := by
  refine h.table ?_ ?_
  · intro r hr
    obtain ⟨r', hr', rfl⟩ := List.mem_map.1 hr
    exact ⟨r', hr', (SharedVersions.settle_row i r').symm⟩
  · refine List.pairwise_map.2 (h.apart.imp ?_)
    intro r r' hne
    unfold rowName
    rw [SharedVersions.settle_row, SharedVersions.settle_row]
    exact hne

theorem NamesOwned.rollback (h : NamesOwned host storage s) : NamesOwned host storage { s with table := s.table.rollback i } := by
  refine h.table ?_ ?_
  · intro r hr
    exact ⟨r, (List.mem_filter.1 hr).1, rfl⟩
  · exact h.apart.filter _

/-- An insert gives the object of the call to the new row. -/
theorem NamesOwned.insert {table : SharedVersions} {row : VersionRow} {objectId content : String}
    (h : NamesOwned host storage s) (hold : s.calls[i]? = some old) (hpayload : payload host old = some (objectId, content))
    (htable : table.rows = s.table.rows ++ [(some i, row)]) (hobject : row.objectId = some objectId)
    (hhash : row.contentHash = host.sha256 content) (hput : payload host p = none)
    (hheld : p.held host = none) : NamesOwned host storage (RecordSystem.goTo { s with table } i p) := by
  obtain ⟨name, hname, hcontent⟩ := h.put i old hold objectId content hpayload
  have hheldOld := payload_heldName hpayload hname
  have hrow : rowName storage (some i, row) = some name := by
    unfold rowName
    rw [hobject]
    exact hname
  have hnone : heldName host storage p = none := by
    unfold heldName
    rw [hheld]
    rfl
  constructor
  case stored =>
    intro r hr
    rw [show (RecordSystem.goTo { s with table } i p).table = table from rfl, htable] at hr
    rcases List.mem_append.1 hr with hr | hr
    · exact h.stored r hr
    · rw [List.mem_singleton.1 hr]
      exact ⟨name, content, hrow, hcontent, hhash.symm⟩
  case apart =>
    show table.rows.Pairwise _
    rw [htable, List.pairwise_append]
    refine ⟨h.apart, List.pairwise_singleton _ _, ?_⟩
    intro r hr r' hr'
    rw [List.mem_singleton.1 hr', hrow]
    exact h.rows i old hold name hheldOld r hr
  case put =>
    intro j q hq objectId content hq'
    rcases getElem?_goTo hq with ⟨-, rfl⟩ | ⟨-, hq⟩
    · rw [hput] at hq'
      cases hq'
    · exact h.put j q hq objectId content hq'
  case rows =>
    intro j q hq x hx r hr
    rcases getElem?_goTo hq with ⟨-, rfl⟩ | ⟨hj, hq⟩
    · rw [hnone] at hx
      cases hx
    · rw [show (RecordSystem.goTo { s with table } i p).table = table from rfl, htable] at hr
      rcases List.mem_append.1 hr with hr | hr
      · exact h.rows j q hq x hx r hr
      · rw [List.mem_singleton.1 hr, hrow]
        intro heq
        exact h.calls j i q old hj hq hold x hx (hheldOld.trans heq)
  case calls =>
    intro j k q q' hjk hq hq' x hx
    rcases getElem?_goTo hq with ⟨-, rfl⟩ | ⟨-, hq⟩
    · rw [hnone] at hx
      cases hx
    · rcases getElem?_goTo hq' with ⟨-, rfl⟩ | ⟨-, hq'⟩
      · rw [hnone]
        simp
      · exact h.calls j k q q' hjk hq hq' x hx

/-! ## The steps of a call -/

theorem name?_of_locate {e : PyError} {objectId name : String} (h : storage.locate e objectId = .ok name) :
    storage.name? objectId = some name := by
  unfold NamedStorage.name?
  rw [storage.locate_same e _ objectId name h]
  rfl

theorem insert_rows {table t : SharedVersions} {row : VersionRow} (h : t.insert i row = .inserts table) :
    table.rows = t.rows ++ [(some i, row)] := by
  have hrefuse : ∀ conflict e, t.refuse i conflict e ≠ .inserts table := by
    intro conflict e
    unfold SharedVersions.refuse
    split_ifs <;> exact Insertion.noConfusion
  unfold SharedVersions.insert at h
  split_ifs at h
  · rw [← Insertion.inserts.inj h]
  all_goals exact absurd h (hrefuse _ _)

theorem read_namesOwned {works : Bool} {args : RecordArgs} {artifacts : List PyValue} {results : List Recorded}
    (h : NamesOwned host storage s) (hold : s.calls[i]? = some (.reading args artifacts results)) :
    NamesOwned host storage (read host i works args results s artifacts) := by
  cases artifacts with
  | nil =>
    unfold read
    split_ifs
    · exact h.commit.goTo hold rfl (.inl rfl)
    · exact h.goTo hold rfl (.inl rfl)
  | cons artifact artifacts =>
    simp only [read]
    split
    · exact h.goTo hold rfl (.inl rfl)
    · split_ifs
      · split <;> exact h.goTo hold rfl (.inl rfl)
      · exact h.goTo hold rfl (.inl rfl)

theorem seek_namesOwned {works : Bool} {args : RecordArgs} {a : Artifact} {artifacts : List PyValue}
    {results : List Recorded} (h : NamesOwned host storage s)
    (hold : s.calls[i]? = some (.seeking args a artifacts results)) :
    NamesOwned host storage (seek host i works args a artifacts results s) := by
  unfold seek
  split_ifs
  · split
    · exact h.goTo hold rfl (.inl rfl)
    · split <;> exact h.goTo hold rfl (.inl rfl)
  · exact h.goTo hold rfl (.inl rfl)

/-- A `put` under a name that nobody uses. -/
theorem put_namesOwned {works : Bool} {args : RecordArgs} {a : Artifact} {version : ℕ}
    {artifacts : List PyValue} {results : List Recorded} (h : NamesOwned host storage s)
    (hold : s.calls[i]? = some (.putting args a version artifacts results))
    (hapart : ∀ name, storage.name? (objectIdOf (host.keyOf args a) version) = some name →
      name ∉ namesInUse host storage s) :
    NamesOwned host storage (put host storage i works args a version artifacts results s) := by
  unfold put ObjectStorage.put
  by_cases hsize : storage.maxSizeBytes < a.content.utf8ByteSize
  · rw [if_pos hsize]
    exact h.goTo hold rfl (.inl rfl)
  rw [if_neg hsize]
  cases hlocate : storage.locate (.objectStorageError "object publication failed")
      (objectIdOf (host.keyOf args a) version) with
  | error e => exact h.goTo hold rfl (.inl rfl)
  | ok name =>
    cases works with
    | false => exact h.goTo hold rfl (.inl rfl)
    | true =>
      have hname := name?_of_locate hlocate
      have hfree := hapart name hname
      rw [namesInUse, List.mem_append, not_or, List.mem_filterMap, List.mem_filterMap] at hfree
      refine NamesOwned.objects (s.objects.write name a.content) name h ?_ ?_ ?_ ?_ ?_
      · intro x hx
        rw [Objects.read_write, if_neg hx]
      · intro r hr hrow
        exact hfree.1 ⟨r, hr, hrow⟩
      · intro j q _ hq hheld
        exact hfree.2 ⟨q, List.mem_of_getElem? hq, hheld⟩
      · intro objectId content hpayload
        obtain ⟨rfl, rfl⟩ := Prod.mk.inj (Option.some.inj hpayload)
        refine ⟨hname, ?_⟩
        rw [Objects.read_write, if_pos rfl]
      · intro x hx
        exact Option.some.inj (hx.symm.trans hname)

theorem insert_namesOwned {works : Bool} {now : String} {args : RecordArgs} {a : Artifact} {version : ℕ}
    {artifacts : List PyValue} {results : List Recorded} (h : NamesOwned host storage s)
    (hold : s.calls[i]? = some (.inserting args a version artifacts results)) :
    NamesOwned host storage (insert host i works now args a version artifacts results s) := by
  simp only [insert]
  split_ifs
  · split
    · exact h.goTo hold rfl (.inr rfl)
    · next row hrow =>
      split
      · exact h
      · exact h.goTo hold rfl (.inr rfl)
      · next table htable =>
        obtain ⟨-, -, hhash, -, hobject, -⟩ := pgVersionRow_ok hrow
        exact h.insert hold rfl (insert_rows htable) hobject hhash rfl rfl
  · exact h.goTo hold rfl (.inr rfl)

/-- The deletion of an object that only this call holds. -/
theorem discard_namesOwned {works : Bool} {objectId : String} {e : PyError} (h : NamesOwned host storage s)
    (hold : s.calls[i]? = some (.discarding objectId e)) :
    NamesOwned host storage (discard storage i works objectId e s) := by
  unfold discard ObjectStorage.delete
  cases hlocate : storage.locate (.objectStorageError "object deletion failed") objectId with
  | error e' => exact h.goTo hold rfl (.inl rfl)
  | ok name =>
    cases works with
    | false => exact h.goTo hold rfl (.inl rfl)
    | true =>
      have hheld : heldName host storage (.discarding objectId e) = some name := name?_of_locate hlocate
      refine NamesOwned.objects (s.objects.remove name) name h ?_ ?_ ?_ ?_ ?_
      · intro x hx
        rw [Objects.read_remove, if_neg hx]
      · exact h.rows i _ hold name hheld
      · intro j q hj hq
        exact h.calls i j _ q (Ne.symm hj) hold hq name hheld
      · intro objectId content hpayload
        cases hpayload
      · intro x hx
        cases hx

theorem step_namesOwned (event : RecordEvent) (s : RecordSystem) (h : NamesOwned host storage s)
    (hapart : PutsApart host storage event s) : NamesOwned host storage (step host storage event s) := by
  cases event with
  | start args =>
    simp only [step]
    split <;> exact h.start rfl rfl
  | move call works now =>
    simp only [step]
    cases hold : s.calls[call]? with
    | none => exact h
    | some p =>
      cases p with
      | reading args artifacts results => exact read_namesOwned h hold
      | seeking args a artifacts results => exact seek_namesOwned h hold
      | putting args a version artifacts results =>
        refine put_namesOwned h hold ?_
        intro name hname
        refine hapart name ?_
        rw [hold]
        exact Option.mem_toList.2 hname
      | inserting args a version artifacts results => exact insert_namesOwned h hold
      | discarding objectId e => exact discard_namesOwned h hold
      | failing e => exact h.rollback.goTo hold rfl (.inl rfl)
      | ended result => exact h

theorem NamesOwned.payloadsKept (h : NamesOwned host storage s) : PayloadsKept host storage s := by
  constructor
  case readable =>
    intro row hrow
    obtain ⟨r, hr, rfl⟩ := List.mem_map.1 hrow
    obtain ⟨name, content, hname, hcontent, hhash⟩ := h.stored r (List.mem_filter.1 hr).1
    obtain ⟨objectId, hobject, hname⟩ := Option.bind_eq_some_iff.1 hname
    refine ⟨objectId, content, hobject, ?_, hhash⟩
    have hlocate : storage.locate (.objectStorageError "object read failed") objectId = .ok name := by
      unfold NamedStorage.name? at hname
      cases hl : storage.locate (.objectStorageError "object read failed") objectId with
      | error e =>
        rw [hl] at hname
        cases hname
      | ok x =>
        rw [hl] at hname
        rw [Option.some.inj hname]
    simp only [ObjectStorage.get, hlocate, hcontent]
  case own => exact List.pairwise_map.2 (h.apart.filter _)

end

/-- In every run in which no call puts an object under a name that is in use, all committed versions keep
their own payloads. -/
theorem run_payloadsKept (host : PostgresHost) (storage : NamedStorage) (objects : Objects)
    (events : List RecordEvent)
    (h : Machine.Along (step host storage) (PutsApart host storage) events (init objects)) :
    Machine.Along (step host storage) (fun _ s => PayloadsKept host storage s) events (init objects) ∧
      PayloadsKept host storage (Machine.run (step host storage) events (init objects)) := by
  have hinit : NamesOwned host storage (init objects) := by
    constructor
    case stored => exact fun r hr => absurd hr List.not_mem_nil
    case apart => exact List.Pairwise.nil
    case put => exact fun i p hp => by cases hp
    case rows => exact fun i p hp => by cases hp
    case calls => exact fun i j p q _ hp => by cases hp
  obtain ⟨halong, hend⟩ := Machine.Along.invariant step_namesOwned hinit h
  exact ⟨halong.mono fun _ _ h => h.payloadsKept, hend.payloadsKept⟩

/-! ### Two calls for one file -/

/-- A directory as the backend. -/
def demoStorage : NamedStorage := .ofLocal ["objects".toList] 1024

/-- A call records the file with a content. -/
def demoStart (content : String) : RecordEvent := .start (PostgresArtifactStore.demoCall content none).args

/-- So many steps of a call, with nothing in between. -/
def moves (call n : ℕ) : List RecordEvent :=
  List.replicate n (.move call true "2026-01-01T00:00:00+00:00")

/-- One call after the other: two versions. -/
def oneAfterTheOther : List RecordEvent := demoStart "one" :: moves 0 5 ++ demoStart "two" :: moves 1 5

theorem oneAfterTheOther_payloadsKept :
    Machine.Along (step PostgresArtifactStore.demoHost demoStorage)
        (PutsApart PostgresArtifactStore.demoHost demoStorage) oneAfterTheOther (init []) ∧
      PayloadsKept PostgresArtifactStore.demoHost demoStorage
        (Machine.run (step PostgresArtifactStore.demoHost demoStorage) oneAfterTheOther (init [])) := by
  have hapart : Machine.Along (step PostgresArtifactStore.demoHost demoStorage)
      (PutsApart PostgresArtifactStore.demoHost demoStorage) oneAfterTheOther (init []) := by decide +kernel
  exact ⟨hapart, (run_payloadsKept PostgresArtifactStore.demoHost demoStorage [] oneAfterTheOther hapart).2⟩

/-- Both calls put the object of the first version, one of them inserts and commits, and the other one
deletes the object when its insert fails. -/
def bothFirst : List RecordEvent :=
  demoStart "one" :: moves 0 3 ++ demoStart "two" :: moves 1 3 ++ moves 0 2 ++ moves 1 3

theorem bothFirst_payloadLost :
    ¬ PayloadsKept PostgresArtifactStore.demoHost demoStorage
      (Machine.run (step PostgresArtifactStore.demoHost demoStorage) bothFirst (init [])) := by
  intro h
  have hlost : (fun s : RecordSystem => (s.table.committed.map (·.objectId), s.objects))
      (Machine.run (step PostgresArtifactStore.demoHost demoStorage) bothFirst (init [])) =
        ([some "::a.py/v1"], []) := by decide +kernel
  obtain ⟨hrows, hobjects⟩ := Prod.mk.inj hlost
  obtain ⟨row, hrow, -⟩ := List.mem_map.1 (hrows ▸ List.mem_singleton.2 rfl)
  obtain ⟨objectId, content, -, hget, -⟩ := h.readable row hrow
  rw [hobjects] at hget
  unfold ObjectStorage.get at hget
  split at hget
  · cases hget
  · cases hget

end Galaxz.RecordSystem
