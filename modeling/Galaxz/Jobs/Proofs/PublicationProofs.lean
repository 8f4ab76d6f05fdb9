import Galaxz.Artifacts.Proofs.ReplayProofs
import Galaxz.Jobs.Proofs.StoreInvariantProofs
import Galaxz.Jobs.Publication

/-!
# Proofs: publication takes effect exactly once

`Later` is what the stores never lose, whoever writes them. A publisher that has recorded the artifacts
of an event therefore still has them when it asks for the review, and so does every other publisher of
the event: `among_publish`.
-/

namespace Galaxz

open Prog CompletionPublisher SqliteJobRepository

variable {host : ArtifactHost} {storage : Option ObjectStorage} {w w' w'' : PublisherWorld}
  {event : OutboxRow} {task : TaskContract} {result : PyDict} {rs : List Recorded}

/-! ## The outbox -/

/-- The columns of the outbox that no call changes. -/
def OutboxRow.key (e : OutboxRow) : Uuid × Uuid := (e.jobId, e.attemptId)

/-- Every job and every attempt has one event. -/
theorem run_outbox_nodup (calls : List JobCall) :
    ((run calls).outbox.map (·.jobId)).Nodup ∧ ((run calls).outbox.map (·.attemptId)).Nodup := by
  have h := run_inv calls
  have hinvariant : ∀ e ∈ (run calls).outbox, ∃ job, job.jobId = e.jobId ∧
      OutboxInvariant (run calls) job := by
    intro e he
    have hmem : e ∈ ((run calls).view e.jobId).outbox := List.mem_filter.mpr ⟨he, decide_eq_true rfl⟩
    rcases h.views e.jobId with habs | ⟨row, key, hs⟩
    · rw [habs] at hmem
      cases hmem
    · have hrow : row ∈ ((run calls).view e.jobId).rows := by rw [hs.rows]; simp
      have hid : row.jobId = e.jobId := (Db.mem_view_rows.mp hrow).2
      rw [← hid] at hs
      exact ⟨row, hid, hs.outboxInvariant⟩
  have hjobs : ((run calls).outbox.map (·.jobId)).Nodup := by
    rw [List.nodup_iff_count_le_one]
    intro jobId
    by_cases hmem : ∃ e ∈ (run calls).outbox, e.jobId = jobId
    · obtain ⟨e, he, rfl⟩ := hmem
      obtain ⟨job, hid, hjob⟩ := hinvariant e he
      have hone := hjob.at_most_one
      rw [hid, Db.outboxOf, ← List.countP_eq_length_filter] at hone
      rw [List.count, List.countP_map]
      exact hone
    · rw [List.count_eq_zero_of_not_mem]
      · exact Nat.zero_le 1
      · intro hin
        obtain ⟨e, he, hid⟩ := List.mem_map.mp hin
        exact hmem ⟨e, he, hid⟩
  refine ⟨hjobs, List.Nodup.map_on (fun e he e' he' hattempt => ?_) hjobs.of_map⟩
  obtain ⟨job, hid, hjob⟩ := hinvariant e he
  obtain ⟨job', hid', hjob'⟩ := hinvariant e' he'
  obtain ⟨⟨a, ha, haid, -⟩, -⟩ := hjob.names e (List.mem_filter.mpr ⟨he, decide_eq_true hid.symm⟩)
  obtain ⟨⟨a', ha', haid', -⟩, -⟩ := hjob'.names e' (List.mem_filter.mpr ⟨he', decide_eq_true hid'.symm⟩)
  obtain ⟨hamem, hajob⟩ := List.mem_filter.mp ha
  obtain ⟨hamem', hajob'⟩ := List.mem_filter.mp ha'
  -- both name one attempt, which belongs to one job
  have hsame : a = a' := Table.eq_of_key (·.attemptId) h.attempts_nodup hamem hamem'
    (haid.trans (hattempt.trans haid'.symm))
  refine Table.eq_of_key (·.jobId) hjobs he he' ?_
  rw [← hid, ← hid', ← of_decide_eq_true hajob, ← of_decide_eq_true hajob', hsame]

/-! ## What the stores never lose -/

/-- The world after anything that publishers and others do. -/
structure PublisherWorld.Later (w w' : PublisherWorld) : Prop where
  events : w'.jobs.outbox.map OutboxRow.key = w.jobs.outbox.map OutboxRow.key
  tasks : w'.jobs.tasks = w.jobs.tasks
  outputs : w'.jobs.outputs = w.jobs.outputs
  attempts : ∀ k row, w.artifacts.db.attempt? k = some row → w'.artifacts.db.attempt? k = some row
  versions : ∀ key version, (∃ row, w.artifacts.db.version? key version = some row) →
    ∃ row, w'.artifacts.db.version? key version = some row
  published : w.published ⊆ w'.published
  reviews : ∀ r ∈ w.reviews.rows, ∃ r' ∈ w'.reviews.rows, r'.attemptId = r.attemptId

namespace PublisherWorld.Later

theorem refl (w : PublisherWorld) : w.Later w :=
  ⟨rfl, rfl, rfl, fun _ _ h => h, fun _ _ h => h, fun _ h => h, fun r hr => ⟨r, hr, rfl⟩⟩

theorem trans (h : w.Later w') (h' : w'.Later w'') : w.Later w'' where
  events := h'.events.trans h.events
  tasks := h'.tasks.trans h.tasks
  outputs := h'.outputs.trans h.outputs
  attempts := fun k row hrow => h'.attempts k row (h.attempts k row hrow)
  versions := fun key version hex => h'.versions key version (h.versions key version hex)
  published := fun x hx => h'.published (h.published hx)
  reviews := fun r hr => by
    obtain ⟨r', hr', hid⟩ := h.reviews r hr
    obtain ⟨r'', hr'', hid'⟩ := h'.reviews r' hr'
    exact ⟨r'', hr'', hid'.trans hid⟩

end PublisherWorld.Later

/-- The event is in the outbox, with its task and its result. -/
structure PublisherWorld.Has (w : PublisherWorld) (event : OutboxRow) (task : TaskContract)
    (result : PyDict) : Prop where
  inOutbox : event.key ∈ w.jobs.outbox.map OutboxRow.key
  hasTask : getTask w.jobs event.jobId = some task
  hasResult : getResult w.jobs event.jobId = some result

theorem PublisherWorld.Later.getTask (h : w.Later w') (jobId : Uuid) :
    SqliteJobRepository.getTask w'.jobs jobId = SqliteJobRepository.getTask w.jobs jobId := by
  unfold SqliteJobRepository.getTask
  rw [h.tasks]

theorem PublisherWorld.Later.getResult (h : w.Later w') (jobId : Uuid) :
    SqliteJobRepository.getResult w'.jobs jobId = SqliteJobRepository.getResult w.jobs jobId := by
  unfold SqliteJobRepository.getResult
  rw [h.outputs]

theorem PublisherWorld.Later.has (h : w.Later w') (hw : w.Has event task result) :
    w'.Has event task result where
  inOutbox := h.events ▸ hw.inOutbox
  hasTask := (h.getTask event.jobId).trans hw.hasTask
  hasResult := (h.getResult event.jobId).trans hw.hasResult

theorem PublisherWorld.Later.resolved (h : w.Later w') (hw : Resolved rs w.artifacts.db) :
    Resolved rs w'.artifacts.db :=
  fun r hr => h.versions _ _ (hw r hr)

theorem PublisherWorld.Later.reviewOf (h : w.Later w') (hw : ∃ r ∈ w.reviews.rows, r.Of event) :
    ∃ r ∈ w'.reviews.rows, r.Of event := by
  obtain ⟨r, hr, hof⟩ := hw
  obtain ⟨r', hr', hid⟩ := h.reviews r hr
  exact ⟨r', hr', hid.trans hof⟩

/-- The world after a call of `record`: the artifacts are recorded, or the tables are as they were. -/
theorem recordArtifacts_cases (host : ArtifactHost) (storage : Option ObjectStorage) (args : RecordArgs)
    (w : PublisherWorld) :
    ((∃ e, (w.recordArtifacts host storage args).1 = .error e) ∧
        (w.recordArtifacts host storage args).2.artifacts.db = w.artifacts.db) ∨
      ∃ xs rs now, iterate args.artifacts = .ok xs ∧ (w.recordArtifacts host storage args).1 = .ok rs ∧
        Recordings host args now xs w.artifacts.db rs
          (w.recordArtifacts host storage args).2.artifacts.db := by
  rcases ends_record host storage args (w.clock 0).text w.artifacts with ⟨herror, hdb⟩ |
    ⟨xs, rs, hxs, hok, hrecs⟩
  · exact Or.inl ⟨herror, hdb⟩
  · exact Or.inr ⟨xs, rs, _, hxs, hok, hrecs⟩

theorem later_recordArtifacts (host : ArtifactHost) (storage : Option ObjectStorage) (args : RecordArgs)
    (w : PublisherWorld) : w.Later (w.recordArtifacts host storage args).2 := by
  rcases recordArtifacts_cases host storage args w with ⟨-, hdb⟩ | ⟨xs, rs, now, -, -, hrecs⟩
  · refine ⟨rfl, rfl, rfl, ?_, ?_, fun _ h => h, fun r hr => ⟨r, hr, rfl⟩⟩
    · rw [hdb]
      exact fun _ _ h => h
    · rw [hdb]
      exact fun _ _ h => h
  · obtain ⟨news, hversions⟩ := hrecs.versions
    exact ⟨rfl, rfl, rfl, fun k row => hrecs.attempt?, fun _ _ => version?_append hversions,
      fun _ h => h, fun r hr => ⟨r, hr, rfl⟩⟩

/-- The world after a call of `enqueue`: the queue is as it was, or has the row of the item. -/
theorem enqueueReview_cases (host : ArtifactHost) (item : ReviewItem) (w : PublisherWorld) :
    (w.enqueueReview host item).2 = w.tick ∨
      ∃ reviews row, (w.enqueueReview host item).2 = { w.tick with reviews } ∧
        reviews.rows = w.reviews.rows ++ [row] ∧ row.taskId = item.taskId ∧
        row.attemptId = item.attemptId ∧ row.agentOutput = item.agentOutput.getD [] := by
  unfold PublisherWorld.enqueueReview
  split
  · exact Or.inl rfl
  · next reviews hok =>
    rcases ReviewQueue.enqueue_ok hok with rfl | ⟨row, hrows, hid, hattempt, houtput, -⟩
    · exact Or.inl rfl
    · exact Or.inr ⟨reviews, row, rfl, hrows, hid, hattempt, houtput⟩

theorem later_tick (w : PublisherWorld) : w.Later w.tick :=
  ⟨rfl, rfl, rfl, fun _ _ h => h, fun _ _ h => h, fun _ h => h, fun r hr => ⟨r, hr, rfl⟩⟩

theorem later_enqueueReview (host : ArtifactHost) (item : ReviewItem) (w : PublisherWorld) :
    w.Later (w.enqueueReview host item).2 := by
  rcases enqueueReview_cases host item w with hw | ⟨reviews, row, hw, hrows, -⟩
  · rw [hw]
    exact later_tick w
  · rw [hw]
    refine ⟨rfl, rfl, rfl, fun _ _ h => h, fun _ _ h => h, fun _ h => h, fun r hr => ⟨r, ?_, rfl⟩⟩
    show r ∈ reviews.rows
    rw [hrows]
    exact List.mem_append_left _ hr

theorem later_resolve (taskId : String) (status : ReviewStatus) (notes : Option String)
    (w : PublisherWorld) (now : Datetime) :
    w.Later { w.tick with reviews := w.reviews.resolve taskId status notes now } := by
  refine ⟨rfl, rfl, rfl, fun _ _ h => h, fun _ _ h => h, fun _ h => h, fun r hr => ?_⟩
  have hid : r.attemptId ∈ (w.reviews.resolve taskId status notes now).rows.map (·.attemptId) := by
    unfold ReviewQueue.resolve
    rw [Table.map_updateWhere (f := ReviewQueue.decided status notes now)
      (fun r : ReviewRow => r.attemptId) fun _ => rfl]
    exact List.mem_map_of_mem hr
  obtain ⟨r', hr', hid'⟩ := List.mem_map.mp hid
  exact ⟨r', hr', hid'⟩

theorem acknowledge_key (jobId : Uuid) (now : Datetime) (db : Db) :
    (acknowledgeCompletion jobId now db).outbox.map OutboxRow.key = db.outbox.map OutboxRow.key :=
  Table.map_updateWhere (f := markPublished now) _ (fun _ => rfl) _

/-- What `record` returned to a publisher is noted. -/
theorem exec_record_ok {args : RecordArgs}
    (h : PublisherWorld.exec host storage (.record args) w = (.ok rs, w')) :
    (w.recordArtifacts host storage args).1 = .ok rs ∧
      w' = { (w.recordArtifacts host storage args).2 with
        published := w.published ++ [(args, rs)] } := by
  unfold PublisherWorld.exec PublisherWorld.note at h
  rcases hr : (w.recordArtifacts host storage args).1 with e | rs'
  · simp only [hr] at h
    have herror := congrArg Prod.fst h
    rw [hr] at herror
    cases herror
  · simp only [hr] at h
    cases h
    exact ⟨rfl, rfl⟩

theorem later_exec (host : ArtifactHost) (storage : Option ObjectStorage) (call : PublisherCall)
    (w : PublisherWorld) : w.Later (PublisherWorld.exec host storage call w).2 := by
  cases call with
  | record args =>
    have hrecord := later_recordArtifacts host storage args w
    rcases hr : PublisherWorld.exec host storage (.record args) w with ⟨e | rs, w'⟩
    · unfold PublisherWorld.exec PublisherWorld.note at hr
      rcases hres : (w.recordArtifacts host storage args).1 with e' | rs'
      · simp only [hres] at hr
        rw [hr] at hrecord
        exact hrecord
      · simp only [hres] at hr
        cases hr
    · obtain ⟨-, rfl⟩ := exec_record_ok hr
      exact ⟨hrecord.events, hrecord.tasks, hrecord.outputs, hrecord.attempts, hrecord.versions,
        fun x hx => List.mem_append_left _ hx, hrecord.reviews⟩
  | enqueueReview item => exact later_enqueueReview host item w
  | acknowledgeCompletion jobId =>
    exact ⟨acknowledge_key _ _ _, rfl, rfl, fun _ _ h => h, fun _ _ h => h, fun _ h => h,
      fun r hr => ⟨r, hr, rfl⟩⟩
  | pendingCompletions limit => exact .refl w
  | getTask jobId => exact .refl w
  | getResult jobId => exact .refl w
  | getVersion key version => exact .refl w
  | getByTaskId taskId => exact .refl w

/-! ## A publisher among others -/

/-- Everything of an event that comes before its acknowledgement is there. -/
structure PublisherWorld.Ready (w : PublisherWorld) (event : OutboxRow) (task : TaskContract)
    (result : PyDict) (rs : List Recorded) : Prop where
  has : w.Has event task result
  obtained : (recordArgs event task result, rs) ∈ w.published
  resolved : Resolved rs w.artifacts.db
  reviewed : result.get "status" = .str "escalated" → ∃ r ∈ w.reviews.rows, r.Of event

/-- What a publisher knows when it makes a call that writes. -/
def PublisherCall.Allowed : PublisherCall → PublisherWorld → Prop
  | .record args, w => ∃ event task result, w.Has event task result ∧ args = recordArgs event task result
  | .enqueueReview item, w => ∃ event task result rs, w.Has event task result ∧
      (recordArgs event task result, rs) ∈ w.published ∧ item.attemptId = some event.attemptId.text ∧
      item.taskId = reviewTaskId event task ∧
      referencesIn (item.agentOutput.getD []) = rs.map Recorded.asReference
  | .acknowledgeCompletion jobId, w => ∃ event task result rs, w.Ready event task result rs ∧
      event.jobId = jobId
  | _, _ => True

/-- What a call of a publisher may be answered and do: it is executed, or it raises without an effect on
the tables. -/
def PublisherCall.Can (host : ArtifactHost) (storage : Option ObjectStorage) (call : PublisherCall)
    (w : PublisherWorld) (r : Except PyError call.Answer) (w' : PublisherWorld) : Prop :=
  PublisherWorld.exec host storage call w = (r, w') ∨
    ∃ e objects works, r = .error e ∧ w' = { w with artifacts := { w.artifacts with objects, works } }

/-- The program of a publisher behaves among others. -/
def PublisherProg.Behaves (host : ArtifactHost) (storage : Option ObjectStorage) {α : Type}
    (p : PublisherProg α) (Q : α → PublisherWorld → Prop) (w : PublisherWorld) : Prop :=
  Among (fun call w a w' => PublisherWorld.exec host storage call w = (.ok a, w')) PublisherWorld.Later
    PublisherCall.Allowed p Q w

/-- The rule of sequence: the second program starts in a later world than the first. -/
theorem PublisherProg.Behaves.bind {α β : Type} {p : PublisherProg α} {f : α → PublisherProg β}
    {Q : α → PublisherWorld → Prop} {T : β → PublisherWorld → Prop}
    (hp : PublisherProg.Behaves host storage p Q w)
    (hf : ∀ a w', w.Later w' → Q a w' → PublisherProg.Behaves host storage (f a) T w') :
    PublisherProg.Behaves host storage (p >>= f) T w := by
  have hsince := Among.since .trans (fun call w a w' h => ?_) hp
  · exact Among.bind .refl hsince fun a w' h => hf a w' h.2 h.1
  · have hlater := later_exec host storage call w
    rw [h] at hlater
    exact hlater

theorem behaves_referencesOf (host : ArtifactHost) (storage : Option ObjectStorage) (rs : List Recorded)
    (w : PublisherWorld) :
    PublisherProg.Behaves host storage (referencesOf rs)
      (fun references w => Resolved rs w.artifacts.db ∧
        references.map referenceIn = rs.map Recorded.asReference) w := by
  induction rs generalizing w with
  | nil => exact fun w' _ => ⟨fun r hr => (by cases hr), rfl⟩
  | cons r rs ih =>
    refine Among.call (fun _ _ => trivial) fun w₁ row w₂ _ hexec => ?_
    have hw₂ : w₂ = w₁ := (congrArg Prod.snd hexec).symm
    subst hw₂
    split
    · trivial
    · next row =>
      have hrow : ∃ v, w₂.artifacts.db.version? r.identityKey r.version = some v := by
        have hread : ArtifactStore.getVersion storage ArtifactDb.version? w₂.artifacts r.identityKey
            r.version = .ok (some row) := congrArg Prod.fst hexec
        unfold ArtifactStore.getVersion at hread
        rcases hv : w₂.artifacts.db.version? r.identityKey r.version with _ | v
        · rw [hv] at hread
          cases hread
        · exact ⟨v, rfl⟩
      refine PublisherProg.Behaves.bind (ih w₂) fun references w₃ hlater hrest => ?_
      obtain ⟨hresolved, hreferences⟩ := hrest
      intro w₄ hlater'
      refine ⟨fun r' hr' => ?_, ?_⟩
      · rcases List.mem_cons.mp hr' with rfl | hr'
        · exact hlater'.versions _ _ (hlater.versions _ _ hrow)
        · exact hlater'.versions _ _ (hresolved r' hr')
      · rw [List.map_cons, List.map_cons, hreferences]
        rfl

theorem referencesIn_evidenceOf (references : List PyValue) :
    referencesIn (evidenceOf result references) = references.map referenceIn := by
  unfold referencesIn evidenceOf
  rw [PyDict.get_set]

theorem reviewItem_ok {references : List PyValue} {item : ReviewItem}
    (h : reviewItem event task result references = .ok item) :
    item.attemptId = some event.attemptId.text ∧ item.taskId = reviewTaskId event task ∧
      item.agentOutput = some (evidenceOf result references) ∧
      item.plannedTaskId = if hasGoal task then some task.taskId.text else none := by
  unfold reviewItem at h
  obtain ⟨deadline, -, h⟩ := (except_bind_ok_iff _ _ _).mp h
  rw [← Except.ok.inj h]
  exact ⟨rfl, rfl, rfl, rfl⟩

theorem of_confirms {references : List PyValue} {review : Option ReviewRow}
    (h : confirms event result references review = true) : ∃ r, review = some r ∧ r.Of event := by
  rcases review with _ | r
  · cases h
  · unfold confirms at h
    rw [Option.any_some, Bool.and_eq_true] at h
    have hattempt : r.attemptId = some event.attemptId.text := by simpa using h.1
    exact ⟨r, rfl, hattempt⟩

/-- A publisher asks for the review of what it has recorded, and goes on when the review is there. -/
theorem behaves_publishReview {references : List PyValue} (hhas : w.Has event task result)
    (hobtained : (recordArgs event task result, rs) ∈ w.published)
    (hreferences : references.map referenceIn = rs.map Recorded.asReference) :
    PublisherProg.Behaves host storage (publishReview event task result references)
      (fun _ w => ∃ r ∈ w.reviews.rows, r.Of event) w := by
  refine Among.ofExcept fun item hitem => ?_
  refine Among.call (fun w₁ h₁ => ?_) fun w₁ _ w₂ _ _ => ?_
  · obtain ⟨hattempt, htask, houtput, -⟩ := reviewItem_ok hitem
    refine ⟨event, task, result, rs, h₁.has hhas, h₁.published hobtained, hattempt, htask, ?_⟩
    rw [houtput]
    exact (referencesIn_evidenceOf references).trans hreferences
  · refine Among.call (fun _ _ => trivial) fun w₃ review w₄ _ hexec => ?_
    obtain ⟨hreview, rfl⟩ := Prod.mk.inj hexec
    split
    · next hconfirms =>
      intro w₅ h₅
      obtain ⟨r, rfl, hof⟩ := of_confirms hconfirms
      exact h₅.reviewOf ⟨r, List.mem_of_find?_eq_some (Except.ok.inj hreview), hof⟩
    · trivial

/-- A publisher acknowledges an event when everything before is there. -/
theorem behaves_publishCompletion (host : ArtifactHost) (storage : Option ObjectStorage)
    (hhas : w.Has event task result) :
    PublisherProg.Behaves host storage (publishCompletion event task result) (fun _ _ => True) w := by
  refine Among.call (fun w₁ h₁ => ⟨event, task, result, h₁.has hhas, rfl⟩) fun w₁ rs w₂ h₁ hexec => ?_
  have h₂ : w₁.Later w₂ := by
    have hlater := later_exec host storage (.record (recordArgs event task result)) w₁
    rw [hexec] at hlater
    exact hlater
  have hhas₂ : w₂.Has event task result := (h₁.trans h₂).has hhas
  have hobtained₂ : (recordArgs event task result, rs) ∈ w₂.published := by
    obtain ⟨-, rfl⟩ := exec_record_ok hexec
    exact List.mem_append_right _ List.mem_cons_self
  refine PublisherProg.Behaves.bind (behaves_referencesOf host storage rs w₂) fun references w₃ h₃ hrefs => ?_
  obtain ⟨hresolved, hreferences⟩ := hrefs
  have hack : ∀ {w₄ : PublisherWorld}, w₃.Later w₄ →
      (result.get "status" = .str "escalated" → ∃ r ∈ w₄.reviews.rows, r.Of event) →
      PublisherProg.Behaves host storage
        (Prog.call (.acknowledgeCompletion event.jobId) .pure) (fun _ _ => True) w₄ := by
    intro w₄ h₄ hreviewed w₅ h₅
    refine ⟨⟨event, task, result, rs, ⟨?_, ?_, ?_, ?_⟩, rfl⟩, fun a w₆ _ w₇ _ => trivial⟩
    · exact ((h₃.trans h₄).trans h₅).has hhas₂
    · exact ((h₃.trans h₄).trans h₅).published hobtained₂
    · exact (h₄.trans h₅).resolved hresolved
    · exact fun hescalated => h₅.reviewOf (hreviewed hescalated)
  by_cases hescalated : result.get "status" = .str "escalated"
  · rw [if_pos hescalated]
    exact PublisherProg.Behaves.bind
      (behaves_publishReview (h₃.has hhas₂) (h₃.published hobtained₂) hreferences)
      fun _ w₄ h₄ hreview => hack h₄ fun _ => hreview
  · rw [if_neg hescalated]
    exact hack (.refl w₃) fun h => absurd h hescalated

theorem behaves_publish (host : ArtifactHost) (storage : Option ObjectStorage)
    (hevent : event.key ∈ w.jobs.outbox.map OutboxRow.key) :
    PublisherProg.Behaves host storage (publish event) (fun _ _ => True) w := by
  refine Among.call (fun _ _ => trivial) fun w₁ task w₂ h₁ hexec => ?_
  obtain ⟨htask, rfl⟩ := Prod.mk.inj hexec
  refine Among.call (fun _ _ => trivial) fun w₃ result w₄ h₃ hexec' => ?_
  obtain ⟨hresult, rfl⟩ := Prod.mk.inj hexec'
  split
  · next task result =>
    refine behaves_publishCompletion host storage ⟨?_, ?_, ?_⟩
    · exact (h₁.trans h₃).events ▸ hevent
    · exact (h₃.getTask _).trans (Except.ok.inj htask)
    · exact Except.ok.inj hresult
  · trivial

/-! ## What holds of the stores -/

/-- What a publisher obtained is what the attempt of an event has. -/
def PublisherWorld.ObtainedSound (host : ArtifactHost) (w : PublisherWorld)
    (x : RecordArgs × List Recorded) : Prop :=
  ∃ event task result xs, w.Has event task result ∧ x.1 = recordArgs event task result ∧
    iterate x.1.artifacts = .ok xs ∧ Attempted host x.1 w.artifacts.db xs (x.2.map Recorded.reference)

/-- A review of an attempt is that of an event, with what a publisher obtained for it. -/
def PublisherWorld.ReviewSound (w : PublisherWorld) (r : ReviewRow) : Prop :=
  ∀ attemptId, r.attemptId = some attemptId → ∃ event task result rs, w.Has event task result ∧
    attemptId = event.attemptId.text ∧ r.taskId = reviewTaskId event task ∧
    (recordArgs event task result, rs) ∈ w.published ∧
    referencesIn r.agentOutput = rs.map Recorded.asReference

/-- What holds of the stores whatever publishers and others do. `start` is the world before the first
run. -/
structure PublisherWorld.Inv (host : ArtifactHost) (start w : PublisherWorld) : Prop where
  later : start.Later w
  obtained : ∀ x ∈ w.published, w.ObtainedSound host x
  reviews : ∀ r ∈ w.reviews.rows, w.ReviewSound r
  acknowledged : ∀ e ∈ w.jobs.outbox, e.publishedAt ≠ none →
    (∀ e' ∈ start.jobs.outbox, e'.jobId = e.jobId → e'.publishedAt = none) →
    ∃ task result rs, w.Ready e task result rs

theorem PublisherWorld.Later.obtainedSound (h : w.Later w') {x : RecordArgs × List Recorded}
    (hx : w.ObtainedSound host x) : w'.ObtainedSound host x := by
  obtain ⟨event, task, result, xs, hhas, hargs, hxs, hattempted⟩ := hx
  exact ⟨event, task, result, xs, h.has hhas, hargs, hxs, hattempted.mono h.attempts⟩

theorem PublisherWorld.Later.reviewSound (h : w.Later w') {r : ReviewRow} (hr : w.ReviewSound r) :
    w'.ReviewSound r := by
  intro attemptId hid
  obtain ⟨event, task, result, rs, hhas, hattempt, htask, hobtained, hrefs⟩ := hr attemptId hid
  exact ⟨event, task, result, rs, h.has hhas, hattempt, htask, h.published hobtained, hrefs⟩

theorem PublisherWorld.Later.ready (h : w.Later w') (hw : w.Ready event task result rs) :
    w'.Ready event task result rs where
  has := h.has hw.has
  obtained := h.published hw.obtained
  resolved := h.resolved hw.resolved
  reviewed := fun hescalated => h.reviewOf (hw.reviewed hescalated)

/-- A step keeps what holds, if what it adds is sound. -/
theorem PublisherWorld.Inv.step {start : PublisherWorld} (h : PublisherWorld.Inv host start w)
    (hlater : w.Later w')
    (hpublished : ∀ x ∈ w'.published, x ∈ w.published ∨ w'.ObtainedSound host x)
    (hreviews : ∀ r ∈ w'.reviews.rows, (∃ r₀ ∈ w.reviews.rows, r₀.taskId = r.taskId ∧
      r₀.attemptId = r.attemptId ∧ r₀.agentOutput = r.agentOutput) ∨ w'.ReviewSound r)
    (hacknowledged : ∀ e ∈ w'.jobs.outbox, e.publishedAt ≠ none →
      e ∈ w.jobs.outbox ∨ ∃ task result rs, w'.Ready e task result rs) :
    PublisherWorld.Inv host start w' where
  later := h.later.trans hlater
  obtained := fun x hx => by
    rcases hpublished x hx with hold | hnew
    · exact hlater.obtainedSound (h.obtained x hold)
    · exact hnew
  reviews := fun r hr => by
    rcases hreviews r hr with ⟨r₀, hr₀, htask, hattempt, houtput⟩ | hnew
    · have hsound := hlater.reviewSound (h.reviews r₀ hr₀)
      unfold PublisherWorld.ReviewSound at hsound ⊢
      rw [← htask, ← hattempt, ← houtput]
      exact hsound
    · exact hnew
  acknowledged := fun e he hset hbefore => by
    rcases hacknowledged e he hset with hold | hnew
    · obtain ⟨task, result, rs, hready⟩ := h.acknowledged e hold hset hbefore
      exact ⟨task, result, rs, hlater.ready hready⟩
    · exact hnew

theorem exec_record_frame (host : ArtifactHost) (storage : Option ObjectStorage) (args : RecordArgs)
    (w : PublisherWorld) :
    (PublisherWorld.exec host storage (.record args) w).2.reviews = w.reviews ∧
      (PublisherWorld.exec host storage (.record args) w).2.jobs = w.jobs := by
  show (PublisherWorld.note args _).2.reviews = w.reviews ∧ (PublisherWorld.note args _).2.jobs = w.jobs
  unfold PublisherWorld.note
  split
  · exact ⟨rfl, rfl⟩
  · exact ⟨rfl, rfl⟩

theorem recordArgs_hasAttempt (event : OutboxRow) (task : TaskContract) (result : PyDict) :
    (recordArgs event task result).HasAttempt :=
  ⟨_, rfl, Uuid.text_ne_empty event.attemptId⟩

/-- A call of `record` by a publisher returns what the attempt has from then on. -/
theorem exec_record_sound (hhas : w.Has event task result) :
    ∀ x ∈ (PublisherWorld.exec host storage (.record (recordArgs event task result)) w).2.published,
      x ∈ w.published ∨
        (PublisherWorld.exec host storage (.record (recordArgs event task result)) w).2.ObtainedSound
          host x := by
  intro x hx
  have hlater := later_exec host storage (.record (recordArgs event task result)) w
  rcases hr : PublisherWorld.exec host storage (.record (recordArgs event task result)) w with
    ⟨e | rs, w'⟩
  · refine Or.inl ?_
    rw [hr] at hx
    have hw' : w'.published = w.published := by
      unfold PublisherWorld.exec PublisherWorld.note at hr
      rcases hres : (w.recordArtifacts host storage (recordArgs event task result)).1 with e' | rs'
      · simp only [hres] at hr
        exact congrArg (fun r => r.2.published) hr.symm
      · simp only [hres] at hr
        cases hr
    exact hw' ▸ hx
  · rw [hr] at hx hlater
    obtain ⟨hok, rfl⟩ := exec_record_ok hr
    rcases List.mem_append.mp hx with hold | hnew
    · exact Or.inl hold
    · refine Or.inr ?_
      rw [List.mem_singleton] at hnew
      subst hnew
      rcases recordArtifacts_cases host storage (recordArgs event task result) w with ⟨⟨e, he⟩, -⟩ |
        ⟨xs, rs', now, hxs, hrs', hrecs⟩
      · rw [he] at hok
        cases hok
      · rw [hrs'] at hok
        cases hok
        exact ⟨event, task, result, xs, hlater.has hhas, rfl, hxs,
          hrecs.attempted (recordArgs_hasAttempt event task result)⟩

/-- Events with one key have one meaning. -/
theorem PublisherWorld.Ready.of_key {event' : OutboxRow} (h : w.Ready event task result rs)
    (hkey : event'.key = event.key) : w.Ready event' task result rs := by
  obtain ⟨hjob, hattempt⟩ := Prod.mk.inj hkey
  have hargs : recordArgs event' task result = recordArgs event task result := by
    unfold recordArgs
    rw [hattempt]
  refine ⟨⟨hkey ▸ h.has.inOutbox, hjob ▸ h.has.hasTask, hjob ▸ h.has.hasResult⟩, hargs ▸ h.obtained,
    h.resolved, fun hescalated => ?_⟩
  obtain ⟨r, hr, hof⟩ := h.reviewed hescalated
  refine ⟨r, hr, ?_⟩
  unfold ReviewRow.Of at hof ⊢
  rw [hattempt]
  exact hof

/-- Every job has one event at any time. -/
theorem PublisherWorld.Later.eq_key (h : w.Later w') (hjobs : (w.jobs.outbox.map (·.jobId)).Nodup)
    {e : OutboxRow} (he : e ∈ w'.jobs.outbox) (hevent : event.key ∈ w'.jobs.outbox.map OutboxRow.key)
    (hid : e.jobId = event.jobId) : e.key = event.key := by
  have hnodup : ((w'.jobs.outbox.map OutboxRow.key).map Prod.fst).Nodup := by
    rw [h.events, List.map_map]
    exact hjobs
  exact List.inj_on_of_nodup_map hnodup (List.mem_map_of_mem he) hevent hid

/-- A call that a publisher may make keeps what holds. -/
theorem PublisherWorld.Inv.exec {start : PublisherWorld} (h : PublisherWorld.Inv host start w)
    (hjobs : (start.jobs.outbox.map (·.jobId)).Nodup) (call : PublisherCall) (hallowed : call.Allowed w) :
    PublisherWorld.Inv host start (PublisherWorld.exec host storage call w).2 := by
  have hlater := later_exec host storage call w
  have hsame : ∀ r ∈ w.reviews.rows, (∃ r₀ ∈ w.reviews.rows, r₀.taskId = r.taskId ∧
      r₀.attemptId = r.attemptId ∧ r₀.agentOutput = r.agentOutput) :=
    fun r hr => ⟨r, hr, rfl, rfl, rfl⟩
  cases call with
  | record args =>
    obtain ⟨event, task, result, hhas, rfl⟩ := hallowed
    have hframe := exec_record_frame host storage (recordArgs event task result) w
    refine h.step hlater (exec_record_sound hhas) (fun r hr => Or.inl (hsame r ?_))
      fun e he _ => Or.inl ?_
    · exact hframe.1 ▸ hr
    · exact hframe.2 ▸ he
  | enqueueReview item =>
    obtain ⟨event, task, result, rs, hhas, hobtained, hattempt, htask, hrefs⟩ := hallowed
    have hhas' := hlater.has hhas
    have hobtained' := hlater.published hobtained
    rcases enqueueReview_cases host item w with hw | ⟨reviews, row, hw, hrows, hrow, hid, houtput⟩
    · have hexec : (PublisherWorld.exec host storage (.enqueueReview item) w).2 = w.tick := hw
      rw [hexec] at hlater ⊢
      exact h.step hlater (fun x hx => Or.inl hx) (fun r hr => Or.inl (hsame r hr)) fun e he _ => Or.inl he
    · have hexec : (PublisherWorld.exec host storage (.enqueueReview item) w).2 =
          { w.tick with reviews } := hw
      rw [hexec] at hlater hhas' hobtained' ⊢
      refine h.step hlater (fun x hx => Or.inl hx) (fun r hr => ?_) fun e he _ => Or.inl he
      have hmem : r ∈ reviews.rows := hr
      rw [hrows, List.mem_append, List.mem_singleton] at hmem
      rcases hmem with hold | rfl
      · exact Or.inl (hsame r hold)
      · refine Or.inr fun attemptId ha => ⟨event, task, result, rs, hhas', ?_, hrow.trans htask,
          hobtained', houtput ▸ hrefs⟩
        rw [hid, hattempt] at ha
        exact (Option.some.inj ha).symm
  | acknowledgeCompletion jobId =>
    obtain ⟨event, task, result, rs, hready, rfl⟩ := hallowed
    refine h.step hlater (fun x hx => Or.inl hx) (fun r hr => Or.inl (hsame r hr)) fun e he hset => ?_
    obtain ⟨e₀, he₀, heq⟩ := Table.mem_updateWhere.mp he
    by_cases hcond : e₀.jobId = event.jobId ∧ e₀.publishedAt = none
    · -- this is the event that the call acknowledges
      refine Or.inr ⟨task, result, rs, ?_⟩
      have hkey : e.key = e₀.key := by
        rw [if_pos (decide_eq_true hcond)] at heq
        rw [← heq]
        rfl
      have hkey₀ : e₀.key = event.key := h.later.eq_key hjobs he₀ hready.has.inOutbox hcond.1
      exact (hlater.ready hready).of_key (hkey.trans hkey₀)
    · rw [if_neg (by simpa using hcond)] at heq
      exact Or.inl (heq ▸ he₀)
  | pendingCompletions limit => exact h
  | getTask jobId => exact h
  | getResult jobId => exact h
  | getVersion key version => exact h
  | getByTaskId taskId => exact h

/-! ## Runs -/

theorem later_backend (w : PublisherWorld) (objects : Objects) (works : ℕ → Bool) :
    w.Later { w with artifacts := { w.artifacts with objects, works } } :=
  ⟨rfl, rfl, rfl, fun _ _ h => h, fun _ _ h => h, fun _ h => h, fun r hr => ⟨r, hr, rfl⟩⟩

theorem later_of_can {call : PublisherCall} {r : Except PyError call.Answer}
    (h : call.Can host storage w r w') : w.Later w' := by
  rcases h with hexec | ⟨e, objects, works, -, rfl⟩
  · have hlater := later_exec host storage call w
    rw [hexec] at hlater
    exact hlater
  · exact later_backend w objects works

theorem mem_pendingCompletions {db : Db} {limit : ℤ} {events : List OutboxRow}
    (h : pendingCompletions db limit = .ok events) : ∀ e ∈ events, e ∈ db.outbox := by
  unfold pendingCompletions at h
  split_ifs at h
  cases h
  intro e he
  have hunpublished : e ∈ unpublished db := by
    unfold Table.limitRows at he
    split_ifs at he
    · exact he
    · exact List.mem_of_mem_take he
  exact (List.mem_filter.mp ((List.mem_insertionSort _).mp hunpublished)).1

/-- The run of a publisher behaves among others. -/
def PublisherRun.Behaves (host : ArtifactHost) (storage : Option ObjectStorage) (p : PublisherRun Unit)
    (w : PublisherWorld) : Prop :=
  Among (PublisherCall.Can host storage) PublisherWorld.Later PublisherCall.Allowed p (fun _ _ => True) w

theorem behaves_publishEach (host : ArtifactHost) (storage : Option ObjectStorage)
    (events : List OutboxRow) (w : PublisherWorld)
    (hevents : ∀ e ∈ events, e.key ∈ w.jobs.outbox.map OutboxRow.key) :
    PublisherRun.Behaves host storage (publishEach events) w := by
  induction events generalizing w with
  | nil => exact fun _ _ => trivial
  | cons event events ih =>
    have hpublish : Among (fun call w a w' => call.Can host storage w (.ok a) w') PublisherWorld.Later
        PublisherCall.Allowed (publish event) (fun _ _ => True) w := by
      refine (behaves_publish host storage (hevents event List.mem_cons_self)).of_can ?_
      rintro call w a w' (hexec | ⟨e, objects, works, hr, -⟩)
      · exact hexec
      · cases hr
    have hattempt : Among (PublisherCall.Can host storage) PublisherWorld.Later PublisherCall.Allowed
        (publish event).attempt _ w := Among.attempt hpublish
    refine Among.bind .refl (hattempt.since .trans fun _ _ _ _ h => later_of_can h) ?_
    rintro r w' ⟨-, hlater⟩
    exact ih w' fun e he => hlater.events ▸ hevents e (List.mem_cons_of_mem _ he)

theorem behaves_publishPending (host : ArtifactHost) (storage : Option ObjectStorage)
    (w : PublisherWorld) : PublisherRun.Behaves host storage publishPending w := by
  refine Among.call (fun _ _ => trivial) fun w₁ r w₂ _ hcan => ?_
  split
  · trivial
  · next events =>
    rcases hcan with hexec | ⟨e, objects, works, hr, -⟩
    · obtain ⟨hpending, rfl⟩ := Prod.mk.inj hexec
      exact behaves_publishEach host storage events w₁ fun e he =>
        List.mem_map_of_mem (mem_pendingCompletions hpending e he)
    · cases hr

namespace Publishers

/-- What holds of the stores, and every run behaves. -/
structure Inv (host : ArtifactHost) (storage : Option ObjectStorage) (start : PublisherWorld)
    (s : Publishers) : Prop where
  world : PublisherWorld.Inv host start s.world
  runs : ∀ run ∈ s.runs, run.Behaves host storage s.world

variable {start : PublisherWorld} {s : Publishers}

/-- A step in a later world keeps the runs. -/
theorem Inv.of_world (h : s.Inv host storage start) (hlater : s.world.Later w)
    (hw : PublisherWorld.Inv host start w) : Inv host storage start { s with world := w } :=
  ⟨hw, fun run hrun => (h.runs run hrun).later .trans hlater⟩

/-- A run that makes its next call keeps what holds. -/
theorem Inv.advance (h : s.Inv host storage start) (i : ℕ)
    {exec : (call : PublisherCall) → PublisherWorld →
      Except PyError (Except PyError call.Answer) × PublisherWorld}
    (hexec : ∀ call, call.Allowed s.world → ∃ r w', exec call s.world = (.ok r, w') ∧
      call.Can host storage s.world r w' ∧ PublisherWorld.Inv host start w') :
    (s.advance i exec).Inv host storage start := by
  unfold Publishers.advance
  rcases hi : s.runs[i]? with _ | run
  · exact h
  have hbehaves := h.runs run (List.mem_of_getElem? hi)
  have hset : ∀ {run' : PublisherRun Unit} {w' : PublisherWorld}, s.world.Later w' →
      PublisherWorld.Inv host start w' → run'.Behaves host storage w' →
      Inv host storage start ⟨w', s.runs.set i run'⟩ := by
    intro run' w' hlater hw' hrun'
    refine ⟨hw', fun r hr => ?_⟩
    rcases List.mem_or_eq_of_mem_set hr with hold | rfl
    · exact (h.runs r hold).later .trans hlater
    · exact hrun'
  cases run with
  | pure a => exact hset (.refl _) h.world hbehaves
  | raise e => exact hset (.refl _) h.world hbehaves
  | call call k =>
    obtain ⟨hallowed, hrest⟩ := hbehaves s.world (.refl _)
    obtain ⟨r, w', hr, hcan, hw'⟩ := hexec call hallowed
    simp only [Prog.advance, hr]
    exact hset (later_of_can hcan) hw' (hrest r w' hcan)

theorem Inv.step (h : s.Inv host storage start) (hjobs : (start.jobs.outbox.map (·.jobId)).Nodup)
    (action : PublisherAction) : (Publishers.step host storage action s).Inv host storage start := by
  have hsame : ∀ r ∈ s.world.reviews.rows, (∃ r₀ ∈ s.world.reviews.rows, r₀.taskId = r.taskId ∧
      r₀.attemptId = r.attemptId ∧ r₀.agentOutput = r.agentOutput) :=
    fun r hr => ⟨r, hr, rfl, rfl, rfl⟩
  cases action with
  | start =>
    refine ⟨h.world, fun run hrun => ?_⟩
    rcases List.mem_append.mp hrun with hold | hnew
    · exact h.runs run hold
    · rw [List.mem_singleton.mp hnew]
      exact behaves_publishPending host storage s.world
  | turn i =>
    refine h.advance i fun call hallowed => ?_
    exact ⟨_, _, rfl, Or.inl rfl, h.world.exec hjobs call hallowed⟩
  | fault i e objects works =>
    refine h.advance i fun call _ => ⟨_, _, rfl, Or.inr ⟨e, objects, works, rfl, rfl⟩, ?_⟩
    exact h.world.step (later_backend _ objects works) (fun x hx => Or.inl hx)
      (fun r hr => Or.inl (hsame r hr)) fun e he _ => Or.inl he
  | record args =>
    have hlater := later_recordArtifacts host storage args s.world
    refine h.of_world hlater (h.world.step hlater (fun x hx => Or.inl hx)
      (fun r hr => Or.inl (hsame r hr)) fun e he _ => Or.inl he)
  | review item =>
    have hlater := later_enqueueReview host { item with attemptId := none } s.world
    refine h.of_world hlater ?_
    rcases enqueueReview_cases host { item with attemptId := none } s.world with hw |
      ⟨reviews, row, hw, hrows, -, hid, -⟩
    · rw [hw] at hlater ⊢
      exact h.world.step hlater (fun x hx => Or.inl hx) (fun r hr => Or.inl (hsame r hr))
        fun e he _ => Or.inl he
    · rw [hw] at hlater ⊢
      refine h.world.step hlater (fun x hx => Or.inl hx) (fun r hr => ?_) fun e he _ => Or.inl he
      have hmem : r ∈ reviews.rows := hr
      rw [hrows, List.mem_append, List.mem_singleton] at hmem
      rcases hmem with hold | rfl
      · exact Or.inl (hsame r hold)
      · refine Or.inr fun attemptId ha => ?_
        rw [hid] at ha
        cases ha
  | resolve taskId status notes =>
    have hlater := later_resolve taskId status notes s.world (s.world.clock 0).time
    refine h.of_world hlater (h.world.step hlater (fun x hx => Or.inl hx) (fun r hr => Or.inl ?_)
      fun e he _ => Or.inl he)
    obtain ⟨r₀, hr₀, heq⟩ := Table.mem_updateWhere.mp hr
    refine ⟨r₀, hr₀, ?_⟩
    rw [← heq]
    split_ifs
    · exact ⟨rfl, rfl, rfl⟩
    · exact ⟨rfl, rfl, rfl⟩

end Publishers

/-! ## Exactly once -/

/-- An attempt has one version of each artifact. -/
theorem Attempted.unique {args : RecordArgs} {db : ArtifactDb} {xs : List PyValue}
    {references references' : List (String × ℕ)} (h : Attempted host args db xs references)
    (h' : Attempted host args db xs references') : references = references' := by
  induction h generalizing references' with
  | nil =>
    cases h'
    rfl
  | cons hx _ ih =>
    cases h' with
    | cons hx' hxs' =>
      obtain ⟨a, row, hread, hrow, rfl⟩ := hx
      obtain ⟨a', row', hread', hrow', rfl⟩ := hx'
      rw [hread] at hread'
      cases hread'
      rw [hrow] at hrow'
      cases hrow'
      rw [ih hxs']

section ExactlyOnce

variable {start : PublisherWorld}

/-- Every attempt has one event at any time. -/
theorem PublisherWorld.Later.eq_key_of_attempt (h : start.Later w)
    (hattempts : (start.jobs.outbox.map (·.attemptId)).Nodup) {event' : OutboxRow}
    (hevent : event.key ∈ w.jobs.outbox.map OutboxRow.key)
    (hevent' : event'.key ∈ w.jobs.outbox.map OutboxRow.key)
    (hid : event.attemptId.text = event'.attemptId.text) : event.key = event'.key := by
  have hnodup : ((w.jobs.outbox.map OutboxRow.key).map Prod.snd).Nodup := by
    rw [h.events, List.map_map]
    exact hattempts
  exact List.inj_on_of_nodup_map hnodup hevent hevent' (Uuid.text_injective hid)

theorem PublisherWorld.Has.of_key {event' : OutboxRow} (h : w.Has event' task result)
    (hkey : event.key = event'.key) : w.Has event task result := by
  obtain ⟨hjob, -⟩ := Prod.mk.inj hkey
  exact ⟨hkey ▸ h.inOutbox, hjob ▸ h.hasTask, hjob ▸ h.hasResult⟩

theorem PublisherWorld.Has.unique {task' : TaskContract} {result' : PyDict}
    (h : w.Has event task result) (h' : w.Has event task' result') : task = task' ∧ result = result' :=
  ⟨Option.some.inj (h.hasTask.symm.trans h'.hasTask), Option.some.inj (h.hasResult.symm.trans h'.hasResult)⟩

/-- What a publisher obtained for an event. -/
theorem PublisherWorld.Inv.of_obtained (h : PublisherWorld.Inv host start w)
    (hattempts : (start.jobs.outbox.map (·.attemptId)).Nodup)
    (hevent : event ∈ w.jobs.outbox) (hobtained : w.Obtained event rs) :
    ∃ task result xs, w.Has event task result ∧ (recordArgs event task result, rs) ∈ w.published ∧
      iterate (recordArgs event task result).artifacts = .ok xs ∧
      Attempted host (recordArgs event task result) w.artifacts.db xs (rs.map Recorded.reference) := by
  obtain ⟨args, hmem, hid⟩ := hobtained
  obtain ⟨event', task, result, xs, hhas, hargs, hxs, hattempted⟩ := h.obtained _ hmem
  have htext : event.attemptId.text = event'.attemptId.text := by
    have hid' : args.attemptId = some event'.attemptId.text := congrArg RecordArgs.attemptId hargs
    exact Option.some.inj (hid.symm.trans hid')
  have hkey := h.later.eq_key_of_attempt hattempts (List.mem_map_of_mem hevent) hhas.inOutbox htext
  have hsame : args = recordArgs event task result := by
    refine Eq.trans hargs ?_
    unfold recordArgs
    rw [htext]
  subst hsame
  exact ⟨task, result, xs, hhas.of_key hkey, hmem, hxs, hattempted⟩

/-- All publishers of an event obtain the same versions. -/
theorem PublisherWorld.Inv.same_references (h : PublisherWorld.Inv host start w)
    (hattempts : (start.jobs.outbox.map (·.attemptId)).Nodup) {rs' : List Recorded}
    (hevent : event ∈ w.jobs.outbox) (hrs : w.Obtained event rs) (hrs' : w.Obtained event rs') :
    rs.map Recorded.reference = rs'.map Recorded.reference := by
  obtain ⟨task, result, xs, hhas, -, hxs, hattempted⟩ := h.of_obtained hattempts hevent hrs
  obtain ⟨task', result', xs', hhas', -, hxs', hattempted'⟩ := h.of_obtained hattempts hevent hrs'
  obtain ⟨rfl, rfl⟩ := hhas.unique hhas'
  rw [hxs] at hxs'
  cases hxs'
  exact hattempted.unique hattempted'

/-- The review of an event. -/
theorem PublisherWorld.Inv.of_review (h : PublisherWorld.Inv host start w)
    (hattempts : (start.jobs.outbox.map (·.attemptId)).Nodup) {r : ReviewRow}
    (hevent : event ∈ w.jobs.outbox) (hr : r ∈ w.reviews.rows) (hof : r.Of event) :
    ∃ task result rs, w.Has event task result ∧ r.taskId = reviewTaskId event task ∧
      w.Obtained event rs ∧ referencesIn r.agentOutput = rs.map Recorded.asReference := by
  obtain ⟨event', task, result, rs, hhas, htext, htask, hobtained, hrefs⟩ := h.reviews r hr _ hof
  have hkey := h.later.eq_key_of_attempt hattempts (List.mem_map_of_mem hevent) hhas.inOutbox htext
  refine ⟨task, result, rs, hhas.of_key hkey, ?_, ⟨_, hobtained, ?_⟩, hrefs⟩
  · rw [htask]
    unfold reviewTaskId
    rw [htext]
  · exact congrArg some htext.symm

theorem PublisherWorld.Inv.exactlyOnce (h : PublisherWorld.Inv host start w)
    (hattempts : (start.jobs.outbox.map (·.attemptId)).Nodup) : ExactlyOnce start w where
  references := fun event hevent rs rs' => h.same_references hattempts hevent
  review := fun event hevent r hr r' hr' hof hof' => by
    obtain ⟨task, result, rs, hhas, htask, -, -⟩ := h.of_review hattempts hevent hr hof
    obtain ⟨task', result', rs', hhas', htask', -, -⟩ := h.of_review hattempts hevent hr' hof'
    obtain ⟨rfl, rfl⟩ := hhas.unique hhas'
    exact Table.eq_of_key (·.taskId) w.reviews.taskIds_nodup hr hr' (htask.trans htask'.symm)
  evidence := fun event hevent r hr hof => by
    obtain ⟨task, result, rs, hhas, -, hobtained, hrefs⟩ := h.of_review hattempts hevent hr hof
    refine ⟨⟨rs, hobtained⟩, fun rs' hrs' => ?_⟩
    have hsame := h.same_references hattempts hevent hobtained hrs'
    have hmap : ∀ l : List Recorded, l.map Recorded.asReference =
        (l.map Recorded.reference).map fun p => (PyValue.str p.1, PyValue.int p.2) := by
      intro l
      rw [List.map_map]
      rfl
    rw [hrefs, hmap, hmap, hsame]
  acknowledged := fun event hevent hset hbefore => by
    obtain ⟨task, result, rs, hready⟩ := h.acknowledged event hevent hset hbefore
    refine ⟨rs, ⟨_, hready.obtained, rfl⟩, hready.resolved, fun result' hresult' hescalated => ?_⟩
    rw [hready.has.hasResult] at hresult'
    cases hresult'
    exact hready.reviewed hescalated

end ExactlyOnce

end Galaxz
