import Galaxz.Jobs.Publication
import Galaxz.Jobs.Proofs.PublicationProofs

/-!
# Proofs: passes over the completion outbox

A pass tries the first hundred unpublished events, and acknowledges those whose publication returns: it
is a round of the queue `unpublished`.
-/

namespace Galaxz

open Prog CompletionPublisher SqliteJobRepository

variable {host : ArtifactHost} {storage : Option ObjectStorage} {w : PublisherWorld} {event : OutboxRow}

/-! ## One publication -/

/-- A publication that returns has acknowledged its event; one that raises leaves the jobs alone. -/
def Settles (event : OutboxRow) (w : PublisherWorld) {α : Type} (r : Except PyError α)
    (w' : PublisherWorld) : Prop :=
  (raised r = false ∧ ∃ now, w'.jobs = acknowledgeCompletion event.jobId now w.jobs) ∨
    raised r = true ∧ w'.jobs = w.jobs

/-- A call other than an acknowledgement leaves the jobs alone. -/
theorem exec_jobs (host : ArtifactHost) (storage : Option ObjectStorage) (call : PublisherCall)
    (w : PublisherWorld) (hcall : ∀ jobId, call ≠ .acknowledgeCompletion jobId) :
    (PublisherWorld.exec host storage call w).2.jobs = w.jobs := by
  cases call with
  | acknowledgeCompletion jobId => exact absurd rfl (hcall jobId)
  | record args =>
    show (PublisherWorld.note args _).2.jobs = w.jobs
    unfold PublisherWorld.note
    split
    · rfl
    · rfl
  | enqueueReview item =>
    show (PublisherWorld.enqueueReview host item w).2.jobs = w.jobs
    unfold PublisherWorld.enqueueReview
    split
    · rfl
    · rfl
  | _ => rfl

/-- The rule of a call that is no acknowledgement. -/
theorem ends_quiet {α : Type} {call : PublisherCall} {f : call.Answer → PublisherProg α}
    {Q : Except PyError α → PublisherWorld → Prop} (hcall : ∀ jobId, call ≠ .acknowledgeCompletion jobId)
    (hf : ∀ a w', w'.jobs = w.jobs → Ends (PublisherWorld.exec host storage) (f a) Q w')
    (he : ∀ e w', w'.jobs = w.jobs → Q (.error e) w') :
    Ends (PublisherWorld.exec host storage) (Prog.call call .pure >>= f) Q w := by
  have hjobs := exec_jobs host storage call w hcall
  refine Ends.call (fun a w' hexec => hf a w' ?_) fun e w' hexec => he e w' ?_
  · rw [hexec] at hjobs
    exact hjobs
  · rw [hexec] at hjobs
    exact hjobs

theorem ends_referencesOf (host : ArtifactHost) (storage : Option ObjectStorage) (rs : List Recorded)
    (w : PublisherWorld) :
    Ends (PublisherWorld.exec host storage) (referencesOf rs) (fun _ w' => w'.jobs = w.jobs) w := by
  induction rs generalizing w with
  | nil => exact rfl
  | cons r rs ih =>
    refine ends_quiet (fun _ h => (by cases h)) (fun row w₁ h₁ => ?_) fun e w₁ h₁ => h₁
    split
    · exact h₁
    · refine Ends.bind (ih w₁) (fun references w₂ h₂ => ?_) fun e w₂ h₂ => h₂.trans h₁
      exact h₂.trans h₁

theorem ends_publishReview (host : ArtifactHost) (storage : Option ObjectStorage) (event : OutboxRow)
    (task : TaskContract) (result : PyDict) (references : List PyValue) (w : PublisherWorld) :
    Ends (PublisherWorld.exec host storage) (publishReview event task result references)
      (fun _ w' => w'.jobs = w.jobs) w := by
  unfold publishReview
  rcases reviewItem event task result references with e | item
  · exact rfl
  · refine ends_quiet (fun _ h => (by cases h)) (fun _ w₁ h₁ => ?_) fun e w₁ h₁ => h₁
    refine ends_quiet (fun _ h => (by cases h)) (fun review w₂ h₂ => ?_) fun e w₂ h₂ => h₂.trans h₁
    split
    · exact h₂.trans h₁
    · exact h₂.trans h₁

theorem ends_publish (host : ArtifactHost) (storage : Option ObjectStorage) (event : OutboxRow)
    (w : PublisherWorld) :
    Ends (PublisherWorld.exec host storage) (publish event) (Settles event w) w := by
  refine ends_quiet (fun _ h => (by cases h)) (fun task w₁ h₁ => ?_) fun e w₁ h₁ => Or.inr ⟨rfl, h₁⟩
  refine ends_quiet (fun _ h => (by cases h)) (fun result w₂ h₂ => ?_)
    fun e w₂ h₂ => Or.inr ⟨rfl, h₂.trans h₁⟩
  split
  · next task result =>
    refine ends_quiet (fun _ h => (by cases h)) (fun rs w₃ h₃ => ?_)
      fun e w₃ h₃ => Or.inr ⟨rfl, h₃.trans (h₂.trans h₁)⟩
    have h₀ := h₃.trans (h₂.trans h₁)
    refine Ends.bind (ends_referencesOf host storage rs w₃) (fun references w₄ h₄ => ?_)
      fun e w₄ h₄ => Or.inr ⟨rfl, h₄.trans h₀⟩
    have hack : ∀ w₅ : PublisherWorld, w₅.jobs = w.jobs →
        Ends (PublisherWorld.exec host storage) (Prog.call (.acknowledgeCompletion event.jobId) .pure)
          (Settles event w) w₅ := by
      intro w₅ h₅
      refine Or.inl ⟨rfl, (w₅.clock 0).time, ?_⟩
      rw [← h₅]
      rfl
    split_ifs
    · refine Ends.bind (ends_publishReview host storage event task result references w₄)
        (fun _ w₅ h₅ => hack w₅ (h₅.trans (h₄.trans h₀))) fun e w₅ h₅ => Or.inr ⟨rfl, ?_⟩
      exact h₅.trans (h₄.trans h₀)
    · exact hack w₄ (h₄.trans h₀)
  · exact Or.inr ⟨rfl, h₂.trans h₁⟩

/-! ## The queue -/

instance : Std.Total fun a b : OutboxRow => a.createdAt ≤ b.createdAt :=
  ⟨fun a b => Nat.le_total a.createdAt.micros b.createdAt.micros⟩

instance : IsTrans OutboxRow fun a b => a.createdAt ≤ b.createdAt :=
  ⟨fun _ _ _ hab hbc => Nat.le_trans hab hbc⟩

/-- An acknowledgement takes the events of the job out of the queue. -/
theorem unpublished_acknowledge (jobId : Uuid) (now : Datetime) (db : Db) :
    unpublished (acknowledgeCompletion jobId now db) = (unpublished db).filter (·.jobId ≠ jobId) := by
  have hrows : ∀ rows : List OutboxRow,
      (Table.updateWhere (fun e => e.jobId = jobId ∧ e.publishedAt = none) (markPublished now) rows).filter
          (·.publishedAt = none) =
        (rows.filter (·.publishedAt = none)).filter (·.jobId ≠ jobId) := by
    intro rows
    induction rows with
    | nil => rfl
    | cons e rows ih =>
      rw [Table.updateWhere_cons]
      by_cases hnone : e.publishedAt = none
      · rw [List.filter_cons_of_pos (p := fun x : OutboxRow => decide (x.publishedAt = none))
          (decide_eq_true hnone)]
        by_cases hjob : e.jobId = jobId
        · rw [if_pos (decide_eq_true ⟨hjob, hnone⟩), List.filter_cons_of_neg (by simp [markPublished]), ih,
            List.filter_cons_of_neg (by simpa using hjob)]
        · rw [if_neg (by simp [hjob]), List.filter_cons_of_pos (by simpa using hnone), ih,
            List.filter_cons_of_pos (by simpa using hjob)]
      · rw [if_neg (by simp [hnone]), List.filter_cons_of_neg (by simpa using hnone), ih,
          List.filter_cons_of_neg (by simpa using hnone)]
  unfold unpublished
  rw [Table.filter_insertionSort, ← hrows]
  rfl

theorem unpublished_nodup (db : Db) (h : (db.outbox.map (·.jobId)).Nodup) :
    ((unpublished db).map (·.jobId)).Nodup := by
  have hperm := (List.perm_insertionSort (fun a b : OutboxRow => a.createdAt ≤ b.createdAt)
    (db.outbox.filter (·.publishedAt = none))).map (·.jobId)
  exact hperm.nodup_iff.mpr (h.sublist (List.filter_sublist.map _))

/-- The publications one after the other, each as assigned: those that return take their events out of
the queue. -/
theorem publishEach_unpublished (host : ArtifactHost) (storage : Option ObjectStorage)
    (succeeds : Uuid → Bool) (events : List OutboxRow) (w : PublisherWorld)
    (h : ∀ x ∈ outcomes host storage events w, x.2 = succeeds x.1.jobId) :
    unpublished (run (caught (PublisherWorld.exec host storage)) (publishEach events) w).2.jobs =
      (unpublished w.jobs).filter fun e =>
        !((events.filter (succeeds ·.jobId)).any fun a => a.jobId = e.jobId) := by
  induction events generalizing w with
  | nil =>
    rw [List.filter_eq_self.mpr fun e _ => by simp]
    rfl
  | cons event events ih =>
    rw [publishEach, run_bind, run_attempt]
    simp only
    obtain ⟨hfirst, hrest⟩ := List.forall_mem_cons.mp h
    have hsettles := ends_publish host storage event w
    unfold Ends at hsettles
    rw [ih _ hrest]
    rcases hsettles with ⟨hok, now, hjobs⟩ | ⟨hraised, hjobs⟩
    · rw [hok] at hfirst
      have hsucceeds : succeeds event.jobId = true := hfirst.symm
      rw [hjobs, unpublished_acknowledge, List.filter_filter]
      refine List.filter_congr fun e _ => ?_
      rw [List.filter_cons_of_pos (by simpa using hsucceeds), List.any_cons]
      by_cases hjob : e.jobId = event.jobId
      · simp [hjob]
      · have hjob' : ¬ event.jobId = e.jobId := fun e' => hjob e'.symm
        simp [hjob, hjob']
    · rw [hraised] at hfirst
      have hfails : ¬ succeeds event.jobId = true := by
        have hfalse : succeeds event.jobId = false := hfirst.symm
        rw [hfalse]
        exact Bool.false_ne_true
      rw [hjobs, List.filter_cons_of_neg (by simpa using hfails)]

/-- A pass is a round of the queue. -/
theorem unpublished_pass (host : ArtifactHost) (storage : Option ObjectStorage) (succeeds : Uuid → Bool)
    (w : PublisherWorld) (hunique : (w.jobs.outbox.map (·.jobId)).Nodup)
    (h : ∀ x ∈ passOutcomes host storage w, x.2 = succeeds x.1.jobId) :
    unpublished (pass host storage w).jobs =
      Rounds.serve (fun e : OutboxRow => succeeds e.jobId) 100 (unpublished w.jobs) := by
  have hpending : pendingCompletions w.jobs 100 = .ok ((unpublished w.jobs).take 100) := rfl
  have hoc : ∀ x ∈ outcomes host storage ((unpublished w.jobs).take 100) w, x.2 = succeeds x.1.jobId := by
    intro x hx
    refine h x ?_
    unfold passOutcomes
    rw [hpending]
    exact hx
  have hpass : pass host storage w =
      (run (caught (PublisherWorld.exec host storage)) (publishEach ((unpublished w.jobs).take 100)) w).2 :=
    rfl
  rw [hpass, publishEach_unpublished host storage succeeds _ w hoc]
  have hnodup := unpublished_nodup w.jobs hunique
  generalize unpublished w.jobs = queue at hnodup
  have hsplit : queue = queue.take 100 ++ queue.drop 100 := (List.take_append_drop 100 queue).symm
  have hfilter : ∀ p : OutboxRow → Bool, queue.filter p =
      (queue.take 100).filter p ++ (queue.drop 100).filter p := by
    intro p
    rw [← List.filter_append, List.take_append_drop]
  rw [hfilter]
  unfold Rounds.serve
  congr 1
  · refine List.filter_congr fun e he => ?_
    by_cases hok : succeeds e.jobId = true
    · have hany : (((queue.take 100).filter (succeeds ·.jobId)).any fun a => a.jobId = e.jobId) = true :=
        List.any_eq_true.mpr ⟨e, List.mem_filter.mpr ⟨he, hok⟩, decide_eq_true rfl⟩
      simp only [hany, hok]
    · -- no other event of the queue has the job
      have hnone : (((queue.take 100).filter (succeeds ·.jobId)).any fun a => a.jobId = e.jobId) =
          false := by
        rw [List.any_eq_false]
        intro a ha hjob
        have hjob' : a.jobId = e.jobId := of_decide_eq_true hjob
        exact hok (hjob' ▸ (List.mem_filter.mp ha).2)
      simp only [hnone, Bool.not_eq_true _ |>.mp hok]
  · refine List.filter_eq_self.mpr fun e he => ?_
    have hnone : (((queue.take 100).filter (succeeds ·.jobId)).any fun a => a.jobId = e.jobId) = false := by
      rw [List.any_eq_false]
      intro a ha hjob
      rw [hsplit, List.map_append, List.nodup_append] at hnodup
      exact hnodup.2.2 _ (List.mem_map_of_mem (List.mem_filter.mp ha).1) _ (List.mem_map_of_mem he)
        (of_decide_eq_true hjob)
    rw [hnone]
    rfl

/-- No publication changes which jobs have events. -/
theorem publishEach_jobIds (host : ArtifactHost) (storage : Option ObjectStorage)
    (events : List OutboxRow) (w : PublisherWorld) :
    (run (caught (PublisherWorld.exec host storage)) (publishEach events) w).2.jobs.outbox.map (·.jobId) =
      w.jobs.outbox.map (·.jobId) := by
  induction events generalizing w with
  | nil => rfl
  | cons event events ih =>
    rw [publishEach, run_bind, run_attempt]
    simp only
    have hsettles := ends_publish host storage event w
    unfold Ends at hsettles
    rw [ih]
    rcases hsettles with ⟨-, now, hjobs⟩ | ⟨-, hjobs⟩
    · rw [hjobs]
      exact Table.map_updateWhere (f := markPublished now) (fun e : OutboxRow => e.jobId) (fun _ => rfl) _
    · rw [hjobs]

/-- Passes are rounds of the queue. -/
theorem unpublished_passes (host : ArtifactHost) (storage : Option ObjectStorage)
    (succeeds : Uuid → Bool) (n : ℕ) (w : PublisherWorld)
    (hunique : (w.jobs.outbox.map (·.jobId)).Nodup) (h : Assigned host storage succeeds n w) :
    unpublished (passes host storage n w).jobs =
      Rounds.serveTimes (fun e : OutboxRow => succeeds e.jobId) 100 n (unpublished w.jobs) := by
  induction n generalizing w with
  | zero => rfl
  | succ n ih =>
    have hunique' : ((pass host storage w).jobs.outbox.map (·.jobId)).Nodup := by
      have hjobIds := publishEach_jobIds host storage ((unpublished w.jobs).take 100) w
      show ((run (caught (PublisherWorld.exec host storage))
        (publishEach ((unpublished w.jobs).take 100)) w).2.jobs.outbox.map (·.jobId)).Nodup
      rw [hjobIds]
      exact hunique
    rw [passes, ih _ hunique' h.2, unpublished_pass host storage succeeds w hunique h.1]
    rfl

theorem allAcknowledged_iff (succeeds : Uuid → Bool) (w : PublisherWorld) :
    AllAcknowledged succeeds w ↔ (unpublished w.jobs).countP (fun e => succeeds e.jobId) = 0 := by
  rw [List.countP_eq_zero]
  constructor
  · intro h e he hok
    obtain ⟨hmem, hnone⟩ := List.mem_filter.mp ((List.mem_insertionSort _).mp he)
    exact h e hmem hok (of_decide_eq_true hnone)
  · intro h e he hok hnone
    exact h e ((List.mem_insertionSort _).mpr (List.mem_filter.mpr ⟨he, decide_eq_true hnone⟩)) hok

theorem fewFailuresBefore_iff (succeeds : Uuid → Bool) (w : PublisherWorld) :
    FewFailuresBefore succeeds w ↔
      Rounds.Fair (fun e : OutboxRow => succeeds e.jobId) 100 (unpublished w.jobs) := by
  have hcount : ∀ before : List OutboxRow,
      (before.filter fun b => succeeds b.jobId = false).length =
        Rounds.failing (fun e : OutboxRow => succeeds e.jobId) before := by
    intro before
    unfold Rounds.failing
    rw [List.countP_eq_length_filter]
    refine congrArg List.length (List.filter_congr fun b _ => ?_)
    show decide (succeeds b.jobId = false) = !succeeds b.jobId
    cases succeeds b.jobId <;> rfl
  unfold FewFailuresBefore Rounds.Fair
  simp only [hcount]

/-- After as many passes as there are unpublished events, every event whose publication succeeds has been
acknowledged exactly when each has fewer than a hundred before it whose publication raises. -/
theorem passes_allAcknowledged_iff (host : ArtifactHost) (storage : Option ObjectStorage)
    (w : PublisherWorld) (hunique : (w.jobs.outbox.map (·.jobId)).Nodup) (succeeds : Uuid → Bool)
    (hassigned : Assigned host storage succeeds (unpublished w.jobs).length w) :
    AllAcknowledged succeeds (passes host storage (unpublished w.jobs).length w) ↔
      FewFailuresBefore succeeds w := by
  rw [allAcknowledged_iff, fewFailuresBefore_iff,
    unpublished_passes host storage succeeds _ w hunique hassigned]
  constructor
  · exact Rounds.Fair.of_serveTimes _
  · exact fun h => h.serveTimes _ List.countP_le_length

/-! ### Malformed results -/

/-- The publication of a result raises whose first artifact cannot be read. -/
theorem publish_malformed {task : TaskContract} {result : PyDict} {x : PyValue} {xs : List PyValue}
    {e : PyError} (htask : getTask w.jobs event.jobId = some task)
    (hresult : getResult w.jobs event.jobId = some result)
    (hartifacts : iterate (recordArgs event task result).artifacts = .ok (x :: xs))
    (hread : readArtifact x = .error e) :
    Ends (PublisherWorld.exec host storage) (publish event) (fun r _ => raised r = true) w := by
  refine Ends.call (fun task' w₁ h₁ => ?_) fun _ _ _ => rfl
  obtain ⟨htask', rfl⟩ := Prod.mk.inj h₁
  refine Ends.call (fun result' w₂ h₂ => ?_) fun _ _ _ => rfl
  obtain ⟨hresult', rfl⟩ := Prod.mk.inj h₂
  rw [← Except.ok.inj htask', ← Except.ok.inj hresult', htask, hresult]
  refine Ends.call (fun rs w₃ h₃ => ?_) fun _ _ _ => rfl
  obtain ⟨hok, -⟩ := exec_record_ok h₃
  rcases recordArtifacts_cases host storage (recordArgs event task result) w with ⟨⟨e', he'⟩, -⟩ |
    ⟨artifacts, rs', now, hxs, -, hrecs⟩
  · rw [he'] at hok
    cases hok
  · rw [hartifacts] at hxs
    cases hxs
    cases hrecs with
    | cons hread' h hs =>
      rw [hread] at hread'
      cases hread'

/-- Passes whose publications all raise leave the jobs alone. -/
theorem passes_stuck (succeeds : Uuid → Bool) {db : Db}
    (hstuck : ∀ e ∈ (unpublished db).take 100, succeeds e.jobId = false ∧
      ∀ w : PublisherWorld, w.jobs = db →
        Ends (PublisherWorld.exec host storage) (publish e) (fun r _ => raised r = true) w)
    (n : ℕ) (w : PublisherWorld) (hw : w.jobs = db) :
    Assigned host storage succeeds n w ∧ (passes host storage n w).jobs = db := by
  have heach : ∀ (events : List OutboxRow) (w : PublisherWorld), w.jobs = db →
      (∀ e ∈ events, succeeds e.jobId = false ∧ ∀ w : PublisherWorld, w.jobs = db →
        Ends (PublisherWorld.exec host storage) (publish e) (fun r _ => raised r = true) w) →
      (∀ x ∈ outcomes host storage events w, x.2 = succeeds x.1.jobId) ∧
        (run (caught (PublisherWorld.exec host storage)) (publishEach events) w).2.jobs = db := by
    intro events
    induction events with
    | nil => exact fun w hw _ => ⟨fun x hx => (by cases hx), hw⟩
    | cons event events ih =>
      intro w hw hevents
      obtain ⟨hfails, hraises⟩ := hevents event List.mem_cons_self
      have hraised := hraises w hw
      have hsettles := ends_publish host storage event w
      unfold Ends at hraised hsettles
      have hjobs : (run (PublisherWorld.exec host storage) (publish event) w).2.jobs = db := by
        rcases hsettles with ⟨hok, -⟩ | ⟨-, hjobs⟩
        · rw [hraised] at hok
          cases hok
        · exact hjobs.trans hw
      obtain ⟨hrest, hend⟩ := ih _ hjobs fun e he => hevents e (List.mem_cons_of_mem _ he)
      refine ⟨List.forall_mem_cons.mpr ⟨?_, hrest⟩, ?_⟩
      · show (!raised (run (PublisherWorld.exec host storage) (publish event) w).1) = _
        rw [hraised, hfails]
        rfl
      · rw [publishEach, run_bind, run_attempt]
        exact hend
  induction n generalizing w with
  | zero => exact ⟨trivial, hw⟩
  | succ n ih =>
    subst hw
    obtain ⟨houtcomes, hpass⟩ := heach ((unpublished w.jobs).take 100) w rfl hstuck
    obtain ⟨hassigned, hend⟩ := ih (pass host storage w) hpass
    exact ⟨⟨houtcomes, hassigned⟩, hend⟩

namespace CompletionPublisher

/-- Completed jobs with these results, by the tables that a publisher reads. -/
def completedJobs (results : List PyDict) : Db where
  tasks := results.zipIdx.map fun r =>
    ⟨BitVec.ofNat 128 r.2, ⟨BitVec.ofNat 128 r.2, "api", "code", [], .finite 0, none, none, none, none⟩⟩
  outputs := results.zipIdx.map fun r => ⟨BitVec.ofNat 128 r.2, r.1, Datetime.ofMicros r.2⟩
  outbox := results.zipIdx.map fun r =>
    ⟨BitVec.ofNat 128 r.2, BitVec.ofNat 128 (1000 + r.2), Datetime.ofMicros r.2, none⟩

/-- The jobs, with stores that are empty. -/
def completedWorld (results : List PyDict) : PublisherWorld where
  jobs := completedJobs results
  artifacts := ArtifactStore.fresh [] fun _ => true
  reviews := ReviewQueue.empty
  clock := fun _ => ⟨Datetime.ofMicros 0, "2026-01-01T00:00:00+00:00"⟩
  published := []

/-- A result with a file. -/
def goodResult : PyDict := [("artifacts", ArtifactStore.demoFile "one")]

/-- A result whose artifact is no `dict`. -/
def malformedResult : PyDict := [("artifacts", .list [.str "x"])]

/-- One malformed result does not keep the next event from being published. -/
theorem oneFailure_acknowledged :
    AllAcknowledged (fun jobId => jobId = 1)
      (passes ArtifactStore.demoHost none 2 (completedWorld [malformedResult, goodResult])) := by
  have hlength : (unpublished (completedWorld [malformedResult, goodResult]).jobs).length = 2 := by
    decide +kernel
  have hassigned : Assigned ArtifactStore.demoHost none (fun jobId => jobId = 1)
      (unpublished (completedWorld [malformedResult, goodResult]).jobs).length
      (completedWorld [malformedResult, goodResult]) := by
    rw [hlength]
    refine ⟨?_, ?_, trivial⟩
    · decide +kernel
    · decide +kernel
  have hfew : FewFailuresBefore (fun jobId => jobId = 1)
      (completedWorld [malformedResult, goodResult]) := by
    intro before e after heq _
    have hle := congrArg List.length heq
    rw [hlength, List.length_append, List.length_cons] at hle
    exact lt_of_le_of_lt (List.length_filter_le _ _) (by omega)
  have hiff := passes_allAcknowledged_iff ArtifactStore.demoHost none
    (completedWorld [malformedResult, goodResult]) (by decide +kernel) _ hassigned
  rw [hlength] at hiff
  exact hiff.mpr hfew

/-- A hundred malformed results, and a good one after them. -/
def blockedWorld : PublisherWorld :=
  completedWorld (List.replicate 100 malformedResult ++ [goodResult])

/-- The last event is never published, though nothing is wrong with it. -/
theorem blockedWorld_starves :
    Assigned ArtifactStore.demoHost none (fun jobId => jobId = 100) 101 blockedWorld ∧
      raised (run (PublisherWorld.exec ArtifactStore.demoHost none)
        (publish ⟨100, 1100, Datetime.ofMicros 100, none⟩) blockedWorld).1 = false ∧
      ¬ AllAcknowledged (fun jobId => jobId = 100)
        (passes ArtifactStore.demoHost none 101 blockedWorld) := by
  have hrows : ((unpublished blockedWorld.jobs).take 100).all (fun e =>
      e.jobId ≠ 100 && (getTask blockedWorld.jobs e.jobId).isSome &&
        (getResult blockedWorld.jobs e.jobId) = some malformedResult) = true := by decide +kernel
  have hstuck : ∀ e ∈ (unpublished blockedWorld.jobs).take 100,
      (decide (e.jobId = 100)) = false ∧ ∀ w : PublisherWorld, w.jobs = blockedWorld.jobs →
        Ends (PublisherWorld.exec ArtifactStore.demoHost none) (publish e) (fun r _ => raised r = true) w := by
    intro e he
    have hrow := List.all_eq_true.mp hrows e he
    rw [Bool.and_eq_true, Bool.and_eq_true] at hrow
    obtain ⟨⟨hid, htask⟩, hresult⟩ := hrow
    obtain ⟨task, htask⟩ := Option.isSome_iff_exists.mp htask
    refine ⟨decide_eq_false (of_decide_eq_true hid), fun w hw => ?_⟩
    rw [← hw] at htask hresult
    exact publish_malformed htask (of_decide_eq_true hresult) rfl rfl
  obtain ⟨hassigned, hjobs⟩ := passes_stuck (fun jobId => jobId = 100) hstuck 101 blockedWorld rfl
  refine ⟨hassigned, by decide +kernel, fun hall => ?_⟩
  have hlast : (blockedWorld.jobs.outbox.any fun e => e.jobId = 100 && e.publishedAt = none) = true := by
    decide +kernel
  obtain ⟨e, he, hlast⟩ := List.any_eq_true.mp hlast
  rw [Bool.and_eq_true] at hlast
  rw [← hjobs] at he
  exact hall e he hlast.1 (of_decide_eq_true hlast.2)

end CompletionPublisher

end Galaxz
