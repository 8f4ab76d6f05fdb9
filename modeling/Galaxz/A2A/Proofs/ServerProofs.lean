import Galaxz.A2A.Server
import Galaxz.Jobs.Proofs.SubmissionProofs

/-!
# Proofs: A2A callers and their jobs

Every key in the job database is the key of a message that was sent, and the task of its job has the origin
of that message. A message that is sent again is answered with the job of its key, so confinement comes down
to telling the messages of different callers apart.
-/

namespace Galaxz

open SqliteJobRepository

/-! ## Keys -/

theorem getLast?_strip {s : String} {c : Char} (h : (strip s).toList.getLast? = some c) : isPySpace c = false := by
  unfold strip at h
  rw [String.toList_ofList] at h
  have hne : stripChars s.toList ≠ [] := by
    intro hnil
    rw [hnil] at h
    cases h
  have hspace := List.rdropWhile_last_not isPySpace _ hne
  rw [List.getLast?_eq_some_getLast hne, Option.some.injEq] at h
  rw [Bool.not_eq_true] at hspace
  exact h ▸ hspace

theorem messageKey_toList (origin messageId : String) :
    (messageKey origin messageId).toList = "a2a:".toList ++ (origin.toList ++ ':' :: messageId.toList) := by
  unfold messageKey
  rw [String.toList_append, String.toList_append, String.toList_append, List.append_assoc, List.append_assoc]
  rfl

/-- The repository does not change the key of a message. -/
theorem strip_messageKey (origin : String) {messageId : String} (hstrip : strip messageId ≠ "") :
    strip (messageKey origin (strip messageId)) = messageKey origin (strip messageId) := by
  have hne : (strip messageId).toList ≠ [] := fun hnil => hstrip (String.toList_eq_nil_iff.mp hnil)
  have hkept : stripChars (messageKey origin (strip messageId)).toList =
      (messageKey origin (strip messageId)).toList := by
    apply stripChars_eq_self
    · intro c hc
      rw [messageKey_toList] at hc
      have ha : c = 'a' := (Option.some.inj hc).symm
      rw [ha]
      decide
    · intro c hc
      apply getLast?_strip (s := messageId)
      rw [messageKey_toList, List.getLast?_append, List.getLast?_append, List.getLast?_cons] at hc
      obtain ⟨d, hd⟩ : ∃ d, (strip messageId).toList.getLast? = some d :=
        ⟨_, List.getLast?_eq_some_getLast hne⟩
      rw [hd] at hc ⊢
      simpa using hc
  have hfold : strip (messageKey origin (strip messageId)) =
      String.ofList (stripChars (messageKey origin (strip messageId)).toList) := rfl
  rw [hfold, hkept, String.ofList_toList]

/-- A message that is read has a stripped id that is not empty. -/
theorem readMessage_messageId {params : PyDict} {m : A2AMessage} (h : readMessage params = .ok m) :
    ∃ messageId, m.messageId = strip messageId ∧ strip messageId ≠ "" := by
  unfold readMessage at h
  split at h
  · split at h
    · next messageId _ =>
      split_ifs at h with hempty
      · cases h
      · obtain ⟨⟨skill, payload⟩, -, h⟩ := (except_bind_ok_iff _ _ _).mp h
        obtain ⟨level, -, h⟩ := (except_bind_ok_iff _ _ _).mp h
        cases h
        exact ⟨messageId, rfl, hempty⟩
      · cases h
    · cases h
  · cases h

/-! ## The repository -/

section Repository

variable {s : Db} {c : Submission}

/-- A submission leaves the database as it was, or adds the row of its job. -/
theorem submit_jobs (c : Submission) (s : Db) :
    (c.submit s).2 = s ∨
      ∃ row, row.jobId = c.jobId ∧ (c.submit s).2.jobs = s.jobs ++ [row] ∧ ∀ r ∈ s.jobs, r.jobId ≠ c.jobId := by
  unfold Submission.submit enqueue
  dsimp only
  split_ifs
  · exact Or.inl rfl
  cases hvalid : Job.validate c.jobId c.taskId .queued c.priority c.idempotencyKey
      (c.retryPolicy.getD .default) c.now c.now c.now none none with
  | error e => exact Or.inl rfl
  | ok candidate =>
    obtain ⟨hid, -⟩ := Job.validate_fields hvalid
    dsimp only
    unfold transaction
    cases hbody : enqueueTx candidate c.task c.now s with
    | error e => exact Or.inl rfl
    | ok r =>
      obtain ⟨res, s'⟩ := r
      dsimp only
      rcases enqueueTx_cases hbody with ⟨row, text, -, -, rfl⟩ | ⟨-, -, -, hnew, rfl⟩
      · exact Or.inl rfl
      · exact Or.inr ⟨newJobRow candidate, hid, rfl, fun r hr => hid ▸ hnew r hr⟩

/-- A job that is read is a job of the table, with its id. -/
theorem getJob_jobId {jobId : Uuid} {job : Job} (h : getJob s jobId = .ok (some job)) :
    job.jobId = jobId ∧ s.job? jobId ≠ none := by
  unfold getJob at h
  split at h
  · cases h
  · next row key hhead =>
    obtain ⟨job', hjob, h⟩ := (except_bind_ok_iff _ _ _).mp h
    cases h
    obtain ⟨hrow, -⟩ := mem_joinKeys (List.mem_of_mem_head? hhead)
    obtain ⟨hmem, hid⟩ := List.mem_filter.mp hrow
    have hid : row.jobId = jobId := of_decide_eq_true hid
    refine ⟨(jobFromRow_fields hjob).1.trans hid, ?_⟩
    unfold Db.job?
    rw [Ne, List.find?_eq_none]
    intro hno
    exact hno row hmem (by simpa using hid)

theorem getJobAsserted_jobId {jobId : Uuid} {job : Job} (h : getJobAsserted s jobId = .ok job) :
    job.jobId = jobId := by
  unfold getJobAsserted at h
  obtain ⟨found, hfound, h⟩ := (except_bind_ok_iff _ _ _).mp h
  cases found with
  | none => cases h
  | some job' =>
    cases h
    exact (getJob_jobId hfound).1

/-- Cancelling a job leaves the rows of the others. -/
theorem cancel_job? {jobId : Uuid} {now : Datetime} {other : Uuid} (hne : other ≠ jobId) :
    (cancel jobId now s).2.job? other = s.job? other := by
  have hkeeps : ∀ r : JobRow, (cancelled now r).jobId = r.jobId := fun _ => rfl
  unfold cancel
  rcases transaction_state (cancelTx jobId now) (fun _ s => getJobAsserted s jobId) s with heq | ⟨u, hbody⟩
  · rw [heq]
  · generalize (transaction (cancelTx jobId now) (fun _ s => getJobAsserted s jobId) s).2 = s' at hbody
    unfold cancelTx at hbody
    split at hbody
    · cases hbody
    · split_ifs at hbody
      · cases hbody
        rfl
      all_goals
        obtain ⟨-, -, hbody⟩ := (except_bind_ok_iff _ _ _).mp hbody
        cases hbody
        show (Table.updateWhere (fun r : JobRow => decide (r.jobId = jobId)) (cancelled now) s.jobs).find? _ = _
        rw [Table.find?_updateWhere (k := JobRow.jobId) hkeeps, if_neg hne]
        rfl

end Repository

/-! ## Handlers -/

namespace A2AServer

variable {text : PyText} {caller : CallerConfig} {params : PyDict} {ids : RequestIds} {s s' : Db}

/-- What is added to the tasks leaves those that are there. -/
theorem TaskOf.append {jobId : Uuid} {origin : String} (h : TaskOf s jobId origin) (rows : List TaskRow)
    (htasks : s'.tasks = s.tasks ++ rows) : TaskOf s' jobId origin := by
  obtain ⟨task, htask, horigin⟩ := h
  refine ⟨task, ?_, horigin⟩
  unfold SqliteJobRepository.getTask at htask ⊢
  obtain ⟨row, hrow, rfl⟩ := Option.map_eq_some_iff.mp htask
  rw [htasks, List.find?_append, hrow]
  rfl

theorem TaskOf.of_tasks {jobId : Uuid} {origin : String} (h : TaskOf s jobId origin) (htasks : s'.tasks = s.tasks) :
    TaskOf s' jobId origin :=
  h.append [] (by rw [htasks, List.append_nil])

theorem shownJob_showJob {job : Job} :
    shownJob (showJob text s job) = none ∨ shownJob (showJob text s job) = some job.jobId := by
  unfold showJob
  cases passing (taskView text s job) with
  | error e => exact Or.inl rfl
  | ok view => exact Or.inr rfl

/-- The contract keeps the origin of the caller, and strips the skill. -/
theorem contractOf_validate {m : A2AMessage} {task : TaskContract}
    (h : (contractOf caller m ids).validate = .ok task) :
    task.origin = caller.origin ∧ task.skill = strip m.skill ∧ strip m.skill ≠ "" := by
  unfold TaskContract.validate at h
  split_ifs at h with horigin hskill
  obtain rfl := Except.ok.inj h
  exact ⟨caller.origin_stripped, rfl, hskill⟩

/-- What a send request does: nothing, or it submits the task of its message. -/
theorem enqueue_cases (h : s.Inv) (method : Method) (hmethod : method = .sendMessage ∨ method = .sendStreamingMessage) :
    ((enqueue text caller params ids s).2 = s ∧ shownJob (enqueue text caller params ids s).1 = none ∧
      resolution caller method params ids s = none) ∨
    ∃ m task job, readMessage params = .ok m ∧ caller.allowsSkill m.skill = true ∧
      (contractOf caller m ids).validate = .ok task ∧ ((submissionOf caller m task ids).submit s).1 = .ok job ∧
      (enqueue text caller params ids s).2 = ((submissionOf caller m task ids).submit s).2 ∧
      (shownJob (enqueue text caller params ids s).1 = none ∨
        shownJob (enqueue text caller params ids s).1 = some job.jobId) ∧
      resolution caller method params ids s = some (caller.origin, m.messageId, job.jobId) := by
  have hresolution : resolution caller method params ids s = resolution caller .sendMessage params ids s := by
    rcases hmethod with rfl | rfl
    · rfl
    · rfl
  rw [hresolution]
  unfold resolution enqueue
  cases hread : readMessage params with
  | error e => exact Or.inl ⟨rfl, rfl, rfl⟩
  | ok m =>
    dsimp only
    by_cases hallowed : caller.allowsSkill m.skill = true
    · simp only [if_pos hallowed]
      cases hvalid : (contractOf caller m ids).validate with
      | error e => exact Or.inl ⟨rfl, rfl, rfl⟩
      | ok task =>
        dsimp only
        rcases hsubmit : (submissionOf caller m task ids).submit s with ⟨e | job, s'⟩
        · refine Or.inl ⟨?_, rfl, rfl⟩
          rcases submit_cases h (submissionOf caller m task ids) with ⟨e', he, -⟩ | ⟨k, -, row, job, -, -, -, hok⟩ |
            ⟨job, hok, -⟩
          · rw [hsubmit] at he
            exact congrArg Prod.snd he
          · rw [hsubmit] at hok
            cases congrArg Prod.fst hok
          · rw [hsubmit] at hok
            cases hok
        · refine Or.inr ⟨m, task, job, rfl, hallowed, hvalid, ?_, ?_, shownJob_showJob, rfl⟩
          · rw [hsubmit]
          · rw [hsubmit]
    · simp only [if_neg hallowed]
      exact Or.inl ⟨trivial, rfl, trivial⟩

/-- A caller owns the jobs whose task has its origin. -/
theorem ownedJob_spec {job : Job} (h : ownedJob text caller params s = .ok job) :
    TaskOf s job.jobId caller.origin ∧ s.job? job.jobId ≠ none := by
  unfold ownedJob at h
  split at h
  · cases h
  · next jobId _ =>
    obtain ⟨found, hfound, h⟩ := (except_bind_ok_iff _ _ _).mp h
    have hget : getJob s jobId = .ok found := by
      unfold passing at hfound
      cases hjob : getJob s jobId with
      | error e =>
        rw [hjob] at hfound
        cases hfound
      | ok found' =>
        rw [hjob] at hfound
        rw [Except.ok.inj hfound]
    cases found with
    | none => cases h
    | some job' =>
      obtain ⟨hid, hsome⟩ := getJob_jobId hget
      dsimp only at h
      split at h
      · cases h
      · next task htask =>
        split_ifs at h with horigin
        cases h
        rw [hid]
        exact ⟨⟨task, htask, horigin⟩, hsome⟩

/-- What a cancel request does: nothing, or it cancels a job of the caller. -/
theorem cancelTask_cases :
    ((cancelTask text caller params ids s).2 = s ∧ shownJob (cancelTask text caller params ids s).1 = none) ∨
    ∃ jobId, TaskOf s jobId caller.origin ∧ s.job? jobId ≠ none ∧
      (cancelTask text caller params ids s).2 = (cancel jobId ids.now s).2 ∧
      (shownJob (cancelTask text caller params ids s).1 = none ∨
        shownJob (cancelTask text caller params ids s).1 = some jobId) := by
  unfold cancelTask
  cases howned : ownedJob text caller params s with
  | error e => exact Or.inl ⟨rfl, rfl⟩
  | ok job =>
    obtain ⟨htask, hsome⟩ := ownedJob_spec howned
    refine Or.inr ⟨job.jobId, htask, hsome, ?_⟩
    dsimp only
    rcases hcancel : cancel job.jobId ids.now s with ⟨e | job', s'⟩
    · exact ⟨rfl, Or.inl rfl⟩
    · have hid : job'.jobId = job.jobId := by
        unfold cancel transaction at hcancel
        split at hcancel
        · cases congrArg Prod.fst hcancel
        · exact getJobAsserted_jobId (congrArg Prod.fst hcancel)
      rw [← hid]
      exact ⟨rfl, shownJob_showJob⟩

/-- A stream shows the job that it follows. -/
theorem pollStream_shown {stream : Stream} {jobId : Uuid} (h : streamedJob (pollStream text stream s) = some jobId) :
    jobId = stream.jobId := by
  unfold pollStream at h
  split_ifs at h
  · cases h
  · cases hget : getJob s stream.jobId with
    | error e =>
      rw [hget] at h
      cases h
    | ok found =>
      rw [hget] at h
      cases found with
      | none => cases h
      | some job =>
        cases hview : taskView text s job with
        | error e =>
          simp [passing, showJob, hview, Except.mapError, bind, Except.bind, streamedJob] at h
        | ok view =>
          simp only [passing, showJob, hview, Except.mapError, bind, Except.bind] at h
          split_ifs at h
          · cases h
          · exact (Option.some.inj h).symm.trans (getJob_jobId hget).1

/-! ## Runs -/

/-- Every key is the key of a message that was sent, whose origin its job has; every message that was sent has
its key; and what was answered or is streamed to a caller has the caller's origin. -/
structure SystemInv (s : System) : Prop where
  store : s.db.Inv
  owned : ∀ k ∈ s.db.idempotency, ∃ p ∈ s.sent,
    k.idempotencyKey = messageKey p.1 p.2 ∧ TaskOf s.db k.jobId p.1
  sent : ∀ p ∈ s.sent, ∃ k ∈ s.db.idempotency, k.idempotencyKey = messageKey p.1 p.2
  resolved : ∀ p ∈ s.resolved, TaskOf s.db p.2 p.1
  streams : ∀ stream ∈ s.streams, TaskOf s.db stream.jobId stream.caller.origin

/-- The invariant is kept where the keys and the tasks are. -/
theorem SystemInv.of_tables {s s' : System} (h : SystemInv s) (hstore : s'.db.Inv)
    (hkeys : s'.db.idempotency = s.db.idempotency) (htasks : s'.db.tasks = s.db.tasks) (hsent : s'.sent = s.sent)
    (hresolved : s'.resolved = s.resolved)
    (hstreams : ∀ stream ∈ s'.streams, TaskOf s.db stream.jobId stream.caller.origin) : SystemInv s' := by
  refine ⟨hstore, ?_, ?_, ?_, fun stream hstream => (hstreams stream hstream).of_tasks htasks⟩
  · rw [hkeys, hsent]
    intro k hk
    obtain ⟨p, hp, hkey, htask⟩ := h.owned k hk
    exact ⟨p, hp, hkey, htask.of_tasks htasks⟩
  · rw [hkeys, hsent]
    exact h.sent
  · rw [hresolved]
    exact fun p hp => (h.resolved p hp).of_tasks htasks

/-- What came of a message that was submitted. -/
inductive Submitted (caller : CallerConfig) (m : A2AMessage) (task : TaskContract) (ids : RequestIds)
    (s : System) (s' : Db) (jobId : Uuid) : Prop where
  /-- It was sent before, and its job is found. -/
  | found (k : IdempotencyRow) (hk : k ∈ s.db.idempotency)
      (hkey : k.idempotencyKey = messageKey caller.origin m.messageId) (hid : jobId = k.jobId) (hdb : s' = s.db)
      (htask : TaskOf s.db jobId caller.origin)
  /-- It is new, and so is its job. -/
  | inserted (row : JobRow) (hid : jobId = ids.jobId) (hrow : row.jobId = ids.jobId)
      (hjobs : s'.jobs = s.db.jobs ++ [row]) (hnew : ∀ r ∈ s.db.jobs, r.jobId ≠ ids.jobId)
      (hfresh : ∀ k ∈ s.db.idempotency, k.idempotencyKey ≠ messageKey caller.origin m.messageId)
      (hkeys : s'.idempotency = s.db.idempotency ++ [⟨messageKey caller.origin m.messageId, ids.jobId, ids.now⟩])
      (htasks : s'.tasks = s.db.tasks ++ [⟨ids.jobId, task⟩])
      (htask : SqliteJobRepository.getTask s' ids.jobId = some task)

theorem submitted_of_submit {s : System} (h : SystemInv s) {m : A2AMessage} {task : TaskContract} {job : Job}
    (hread : readMessage params = .ok m) (hsubmit : ((submissionOf caller m task ids).submit s.db).1 = .ok job)
    (hdist : Distinguishable caller m s) :
    Submitted caller m task ids s ((submissionOf caller m task ids).submit s.db).2 job.jobId := by
  obtain ⟨messageId, hmessage, hne⟩ := readMessage_messageId hread
  have hkey : (submissionOf caller m task ids).key = messageKey caller.origin m.messageId := by
    rw [hmessage]
    show strip (messageKey caller.origin m.messageId) = _
    rw [hmessage]
    exact strip_messageKey caller.origin hne
  rcases submit_cases h.store (submissionOf caller m task ids) with ⟨e, he, -⟩ |
    ⟨k, hk, row, job', hkk, hs, hjob, hok⟩ | ⟨job', hok, hid, hfresh, hkeys, htasks⟩
  · rw [he] at hsubmit
    cases hsubmit
  · rw [hok] at hsubmit ⊢
    cases hsubmit
    have hrow := (Db.mem_view_rows.mp (by rw [hs.rows]; exact List.mem_singleton_self row)).2
    have hid : job.jobId = k.jobId := (jobFromRow_fields hjob).1.trans hrow
    obtain ⟨p, hp, hpkey, htask⟩ := h.owned k hk
    have horigin : p.1 = caller.origin := hdist.1 p hp (hpkey.symm.trans (hkk.trans hkey))
    refine Submitted.found k hk (hkk.trans hkey) hid rfl ?_
    rw [hid, ← horigin]
    exact htask
  · rw [hok] at hsubmit
    cases hsubmit
    rw [hkey] at hfresh hkeys
    have htasks : ((submissionOf caller m task ids).submit s.db).2.tasks = s.db.tasks ++ [⟨ids.jobId, task⟩] := htasks
    rcases submit_jobs (submissionOf caller m task ids) s.db with heq | ⟨row, hrow, hjobs, hnew⟩
    · rw [heq] at hkeys
      have hlength := congrArg List.length hkeys
      rw [List.length_append, List.length_singleton] at hlength
      omega
    · have hnone : s.db.tasks.find? (fun t => decide (t.jobId = ids.jobId)) = none := h.store.getTask_none hnew
      refine Submitted.inserted row hid hrow hjobs hnew hfresh hkeys htasks ?_
      unfold SqliteJobRepository.getTask
      rw [htasks, List.find?_append, hnone, Option.none_or, List.find?_singleton,
        if_pos (by simp)]
      rfl

/-- The row of a job that was added is the only one that is new. -/
theorem job?_of_append {s s' : Db} {row : JobRow} {jobId other : Uuid} (hrow : row.jobId = jobId)
    (hjobs : s'.jobs = s.jobs ++ [row]) (hchanged : s'.job? other ≠ s.job? other) : other = jobId := by
  by_contra hne
  apply hchanged
  unfold Db.job?
  rw [hjobs, List.find?_append, List.find?_singleton, if_neg, Option.or_none]
  intro heq
  exact hne ((of_decide_eq_true heq).symm.trans hrow)

theorem confines_refl (caller : CallerConfig) (s : Db) {shown : Option Uuid}
    (hshown : ∀ jobId, shown = some jobId → TaskOf s jobId caller.origin) : Confines caller s s shown :=
  ⟨fun _ hnone hsome => absurd hnone hsome, fun _ hne => absurd rfl hne, hshown⟩

theorem Submitted.confines {s : System} {m : A2AMessage} {task : TaskContract} {s' : Db} {jobId : Uuid}
    {shown : Option Uuid} (h : Submitted caller m task ids s s' jobId) (hinv : SystemInv s)
    (hvalid : (contractOf caller m ids).validate = .ok task) (hdist : Distinguishable caller m s)
    (hshown : shown = none ∨ shown = some jobId) : Confines caller s.db s' shown := by
  obtain ⟨horigin, hskill, hne⟩ := contractOf_validate hvalid
  have hjob : ∀ other, TaskOf s' jobId caller.origin → shown = some other → TaskOf s' other caller.origin := by
    intro other htask heq
    rcases hshown with hnone | hsome
    · rw [hnone] at heq
      cases heq
    · rw [hsome] at heq
      cases heq
      exact htask
  cases h with
  | found k hk hkey hid hdb htask =>
    subst hdb
    exact confines_refl caller s.db fun other heq => hjob other htask heq
  | inserted row hid hrow hjobs hnew hfresh hkeys htasks htask =>
    have hallowed : caller.allowsSkill task.skill = true := by
      rw [hskill]
      rcases hdist.2 with hsent | hempty | hallowed
      · -- a message that was sent before has its key
        obtain ⟨k, hk, hkey⟩ := hinv.sent _ hsent
        exact absurd hkey (hfresh k hk)
      · exact absurd hempty hne
      · exact hallowed
    refine ⟨?_, ?_, ?_⟩
    · intro other hnone hsome
      have heq : other = ids.jobId := job?_of_append hrow hjobs fun hsame => hsome (hsame.trans hnone)
      rw [heq]
      exact ⟨task, htask, horigin, hallowed⟩
    · intro other hchanged
      rw [job?_of_append hrow hjobs hchanged]
      exact ⟨task, htask, horigin⟩
    · intro other heq
      refine hjob other ?_ heq
      rw [hid]
      exact ⟨task, htask, horigin⟩

/-- A message that was submitted keeps the invariant, whatever stream it opens on its job. -/
theorem Submitted.inv {s : System} {m : A2AMessage} {task : TaskContract} {s' : Db} {jobId : Uuid}
    {streams : List Stream} (h : Submitted caller m task ids s s' jobId) (hinv : SystemInv s) (hstore : s'.Inv)
    (hvalid : (contractOf caller m ids).validate = .ok task)
    (hstreams : ∀ stream ∈ streams, stream.jobId = jobId ∧ stream.caller = caller) :
    SystemInv
      { db := s', streams := s.streams ++ streams, sent := s.sent ++ [(caller.origin, m.messageId)],
        resolved := s.resolved ++ [(caller.origin, jobId)] } := by
  obtain ⟨horigin, -, -⟩ := contractOf_validate hvalid
  -- what was there before, and the job of the message
  have hframe : (∀ other origin, TaskOf s.db other origin → TaskOf s' other origin) ∧
      TaskOf s' jobId caller.origin := by
    cases h with
    | found k hk hkey hid hdb htask =>
      subst hdb
      exact ⟨fun _ _ h => h, htask⟩
    | inserted row hid hrow hjobs hnew hfresh hkeys htasks htask =>
      refine ⟨fun _ _ h => h.append _ htasks, ?_⟩
      rw [hid]
      exact ⟨task, htask, horigin⟩
  obtain ⟨hkept, hjob⟩ := hframe
  have hold : ∀ k ∈ s.db.idempotency, ∃ p ∈ s.sent ++ [(caller.origin, m.messageId)],
      k.idempotencyKey = messageKey p.1 p.2 ∧ TaskOf s' k.jobId p.1 := by
    intro k hk
    obtain ⟨p, hp, hkey, htask⟩ := hinv.owned k hk
    exact ⟨p, List.mem_append_left _ hp, hkey, hkept _ _ htask⟩
  have hkeys : (∀ k ∈ s'.idempotency, ∃ p ∈ s.sent ++ [(caller.origin, m.messageId)],
        k.idempotencyKey = messageKey p.1 p.2 ∧ TaskOf s' k.jobId p.1) ∧
      (∀ k ∈ s.db.idempotency, k ∈ s'.idempotency) ∧
      ∃ k ∈ s'.idempotency, k.idempotencyKey = messageKey caller.origin m.messageId := by
    cases h with
    | found k hk hkey hid hdb htask =>
      subst hdb
      exact ⟨hold, fun _ h => h, k, hk, hkey⟩
    | inserted row hid hrow hjobs hnew hfresh hkeys htasks htask =>
      rw [hkeys]
      refine ⟨?_, fun k hk => List.mem_append_left _ hk, _, List.mem_append_right _ (List.mem_singleton_self _), rfl⟩
      intro k hk
      rcases List.mem_append.mp hk with hk | hk
      · exact hold k hk
      · rw [List.mem_singleton.mp hk]
        refine ⟨_, List.mem_append_right _ (List.mem_singleton_self _), rfl, ?_⟩
        rw [← hid]
        exact hjob
  obtain ⟨howned, hsub, hkey⟩ := hkeys
  refine ⟨hstore, howned, ?_, ?_, ?_⟩
  · intro p hp
    rcases List.mem_append.mp hp with hp | hp
    · obtain ⟨k, hk, hpk⟩ := hinv.sent p hp
      exact ⟨k, hsub k hk, hpk⟩
    · rw [List.mem_singleton.mp hp]
      exact hkey
  · intro p hp
    rcases List.mem_append.mp hp with hp | hp
    · exact hkept _ _ (hinv.resolved p hp)
    · rw [List.mem_singleton.mp hp]
      exact hjob
  · intro stream hstream
    rcases List.mem_append.mp hstream with hstream | hstream
    · exact hkept _ _ (hinv.streams stream hstream)
    · obtain ⟨hid, hcaller⟩ := hstreams stream hstream
      rw [hid, hcaller]
      exact hjob

/-- A send request whose message is distinguishable confines the caller and keeps the invariant. -/
theorem send_spec {s : System} (h : SystemInv s) {method : Method}
    (hmethod : method = .sendMessage ∨ method = .sendStreamingMessage)
    (hsep : ∀ m ∈ (readMessage params).toOption, caller.allowsSkill m.skill = true → Distinguishable caller m s) :
    Confined text (.request caller method params ids) s ∧
      SystemInv (step text (.request caller method params ids) s) := by
  have hserve : serve text caller method params ids s.db = enqueue text caller params ids s.db := by
    rcases hmethod with rfl | rfl
    · rfl
    · rfl
  have hopened : ∀ stream ∈ (openedStream caller method (enqueue text caller params ids s.db).1).toList,
      shownJob (enqueue text caller params ids s.db).1 = some stream.jobId ∧ stream.caller = caller := by
    intro stream hstream
    rw [Option.mem_toList] at hstream
    unfold openedStream at hstream
    split at hstream
    · next jobId view heq =>
      rw [← Option.some.inj hstream, heq]
      exact ⟨rfl, rfl⟩
    · cases hstream
  show Confines caller s.db (serve text caller method params ids s.db).2
      (shownJob (serve text caller method params ids s.db).1) ∧ _
  unfold step
  simp only [hserve]
  rcases enqueue_cases h.store method hmethod with ⟨hdb, hshown, hresolution⟩ |
    ⟨m, task, job, hread, hallowed, hvalid, hsubmit, hdb, hshown, hresolution⟩
  · rw [hdb, hshown, hresolution]
    refine ⟨confines_refl caller s.db (by intro jobId heq; cases heq), ?_⟩
    refine h.of_tables h.store rfl rfl (List.append_nil _) (List.append_nil _) ?_
    intro stream hstream
    rcases List.mem_append.mp hstream with hstream | hstream
    · exact h.streams stream hstream
    · rw [hshown] at hopened
      cases (hopened stream hstream).1
  · have hdist : Distinguishable caller m s := hsep m (by rw [hread]; rfl) hallowed
    have hsubmitted := submitted_of_submit h hread hsubmit hdist
    have hstore : ((submissionOf caller m task ids).submit s.db).2.Inv :=
      step_inv (submissionOf caller m task ids).call s.db h.store
    rw [hdb, hresolution]
    refine ⟨hsubmitted.confines h hvalid hdist hshown, hsubmitted.inv h hstore hvalid ?_⟩
    intro stream hstream
    obtain ⟨hid, hcaller⟩ := hopened stream hstream
    rcases hshown with hnone | hsome
    · rw [hnone] at hid
      cases hid
    · rw [hsome] at hid
      exact ⟨(Option.some.inj hid).symm, hcaller⟩

theorem step_cancelTask_db (s : System) :
    (step text (.request caller .cancelTask params ids) s).db = (cancelTask text caller params ids s.db).2 := rfl

/-- A cancel request confines the caller and keeps the invariant. -/
theorem cancel_spec {s : System} (h : SystemInv s) :
    Confined text (.request caller .cancelTask params ids) s ∧
      SystemInv (step text (.request caller .cancelTask params ids) s) := by
  show Confines caller s.db (cancelTask text caller params ids s.db).2
      (shownJob (cancelTask text caller params ids s.db).1) ∧ _
  have hstreams : ∀ stream ∈ s.streams ++ (openedStream caller .cancelTask
      (cancelTask text caller params ids s.db).1).toList, TaskOf s.db stream.jobId stream.caller.origin := by
    intro stream hstream
    rcases List.mem_append.mp hstream with hstream | hstream
    · exact h.streams stream hstream
    · cases hstream
  rcases cancelTask_cases with ⟨hdb, hshown⟩ | ⟨jobId, htask, hsome, hdb, hshown⟩
  · rw [hdb, hshown]
    refine ⟨confines_refl caller s.db (by intro jobId heq; cases heq), ?_⟩
    refine h.of_tables ?_ ?_ ?_ (List.append_nil _) (List.append_nil _) hstreams
    · rw [step_cancelTask_db, hdb]
      exact h.store
    · rw [step_cancelTask_db, hdb]
    · rw [step_cancelTask_db, hdb]
  · have hstep : (cancelTask text caller params ids s.db).2 = SqliteJobRepository.step (.cancel jobId ids.now) s.db :=
      hdb
    obtain ⟨hkeys, htasks⟩ : (SqliteJobRepository.step (.cancel jobId ids.now) s.db).idempotency = s.db.idempotency ∧
        (SqliteJobRepository.step (.cancel jobId ids.now) s.db).tasks = s.db.tasks := by
      rcases step_submitted h.store (.cancel jobId ids.now) with hsame | ⟨c, hc, -⟩
      · exact hsame
      · cases hc
    have htask' : TaskOf (cancelTask text caller params ids s.db).2 jobId caller.origin := by
      rw [hstep]
      exact htask.of_tasks htasks
    have hchanged : ∀ other, (cancelTask text caller params ids s.db).2.job? other ≠ s.db.job? other →
        other = jobId := by
      intro other hne
      by_contra hother
      apply hne
      rw [hdb]
      exact cancel_job? hother
    refine ⟨⟨?_, ?_, ?_⟩, ?_⟩
    · intro other hnone hnew
      have heq := hchanged other (fun hsame => hnew (hsame.trans hnone))
      rw [heq] at hnone
      exact absurd hnone hsome
    · intro other hne
      rw [hchanged other hne]
      exact htask'
    · intro other heq
      rcases hshown with hnone | hjob
      · rw [hnone] at heq
        cases heq
      · rw [hjob] at heq
        cases heq
        exact htask'
    · refine h.of_tables ?_ ?_ ?_ (List.append_nil _) (List.append_nil _) hstreams
      · rw [step_cancelTask_db, hstep]
        exact step_inv _ s.db h.store
      · rw [step_cancelTask_db, hstep]
        exact hkeys
      · rw [step_cancelTask_db, hstep]
        exact htasks

theorem getTask_spec {s : System} (h : SystemInv s) :
    Confined text (.request caller .getTask params ids) s ∧
      SystemInv (step text (.request caller .getTask params ids) s) := by
  refine ⟨confines_refl caller s.db ?_, h.of_tables h.store rfl rfl (List.append_nil _) (List.append_nil _) ?_⟩
  · intro jobId heq
    have heq : shownJob (getTaskView text caller params s.db) = some jobId := heq
    unfold getTaskView at heq
    cases howned : ownedJob text caller params s.db with
    | error e =>
      rw [howned] at heq
      cases heq
    | ok job =>
      rw [howned] at heq
      have heq : shownJob (showJob text s.db job) = some jobId := heq
      rcases shownJob_showJob with hnone | hsome
      · rw [hnone] at heq
        cases heq
      · rw [hsome] at heq
        rw [← Option.some.inj heq]
        exact (ownedJob_spec howned).1
  · intro stream hstream
    rcases List.mem_append.mp hstream with hstream | hstream
    · exact h.streams stream hstream
    · cases hstream

theorem poll_spec {s : System} (h : SystemInv s) (i : ℕ) :
    Confined text (.poll i) s ∧ SystemInv (step text (.poll i) s) := by
  constructor
  · intro stream hstream
    refine confines_refl stream.caller s.db ?_
    intro jobId heq
    rw [pollStream_shown heq]
    exact h.streams stream (List.mem_of_getElem? hstream)
  · cases hstream : s.streams[i]? with
    | none =>
      simp only [step, hstream]
      exact h
    | some stream =>
      simp only [step, hstream]
      split
      · next shown _ =>
        refine h.of_tables h.store rfl rfl rfl rfl ?_
        intro other hother
        rcases List.mem_or_eq_of_mem_set hother with hmem | rfl
        · exact h.streams other hmem
        · exact h.streams stream (List.mem_of_getElem? hstream)
      · exact h

theorem worker_spec {s : System} (h : SystemInv s) (call : JobCall) (hcall : call.submission? = none) :
    SystemInv (step text (.worker call hcall) s) := by
  rcases step_submitted h.store call with ⟨hkeys, htasks⟩ | ⟨c, hc, -⟩
  · exact h.of_tables (step_inv call s.db h.store) hkeys htasks rfl rfl h.streams
  · rw [hcall] at hc
    cases hc

/-- One event in a run that meets the condition. -/
theorem step_spec (e : Event) (s : System) (h : SystemInv s) (hsep : Separated e s) :
    Confined text e s ∧ SystemInv (step text e s) := by
  cases e with
  | request caller method params ids =>
    cases method with
    | sendMessage => exact send_spec h (Or.inl rfl) hsep
    | sendStreamingMessage => exact send_spec h (Or.inr rfl) hsep
    | getTask => exact getTask_spec h
    | cancelTask => exact cancel_spec h
  | poll i => exact poll_spec h i
  | worker call hcall => exact ⟨trivial, worker_spec h call hcall⟩

theorem systemInv_empty : SystemInv {} := by
  refine ⟨Db.empty_inv, ?_, ?_, ?_, ?_⟩
  all_goals
    intro x hx
    cases hx

/-- In every run in which the messages of different callers can be told apart and the skills that are allowed
are also allowed without white space, every caller is confined to its jobs, and the messages of two origins
are never answered with one job. -/
theorem run_confined (text : PyText) (events : List Event)
    (h : Machine.Along (step text) Separated events {}) :
    Machine.Along (step text) (Confined text) events {} ∧
      ∀ p ∈ (Machine.run (step text) events {}).resolved, ∀ q ∈ (Machine.run (step text) events {}).resolved,
        p.2 = q.2 → p.1 = q.1 := by
  have hinv : ∀ e s, SystemInv s → Separated e s → SystemInv (step text e s) :=
    fun e s hs hsep => (step_spec e s hs hsep).2
  obtain ⟨halong, hend⟩ := Machine.Along.invariant hinv systemInv_empty h
  constructor
  · have hboth := halong.and h
    exact hboth.mono fun e s hs => (step_spec e s hs.1 hs.2).1
  · intro p hp q hq heq
    obtain ⟨task, htask, horigin⟩ := hend.resolved p hp
    obtain ⟨task', htask', horigin'⟩ := hend.resolved q hq
    rw [heq, htask'] at htask
    rw [← horigin, ← horigin', Option.some.inj htask]

/-- The configured caller of an origin. -/
def partner (origin : String) (origin_stripped : strip origin = origin)
    (origin_prefixed : originPrefix.toList <+: origin.toList) (skills : Option (List String) := none) : CallerConfig :=
  { origin, skills, origin_stripped, origin_prefixed }

def partnerX : CallerConfig := partner "a2a:x" (by decide +kernel) (by decide +kernel)

def partnerXY : CallerConfig := partner "a2a:x:y" (by decide +kernel) (by decide +kernel)

/-- The parameters of a message that calls a skill. -/
def callMessage (messageId skill : String) : PyDict :=
  [("message", .dict [("messageId", .str messageId), ("role", .str "ROLE_USER"),
    ("parts", .list [.dict [("data", .dict [("skill", .str skill)])]])])]

/-- The ids of the request with this number. -/
def requestIds (n : ℕ) : RequestIds :=
  { taskId := BitVec.ofNat 128 (100 + n), jobId := BitVec.ofNat 128 n, rejectedId := 0,
    now := .ofMicros (1000000 * n) }

/-- Each partner sends a message and follows it; one of them cancels. -/
def separateMessages : List Event :=
  [.request partnerX .sendMessage (callMessage "m" "qa.review") (requestIds 1),
    .request partnerXY .sendStreamingMessage (callMessage "m" "qa.review") (requestIds 2),
    .request partnerX .getTask [("id", .str (requestIds 1).jobId.text)] (requestIds 3),
    .request partnerX .cancelTask [("id", .str (requestIds 2).jobId.text)] (requestIds 4),
    .request partnerXY .cancelTask [("id", .str (requestIds 2).jobId.text)] (requestIds 5), .poll 0]

theorem separateMessages_confined :
    Machine.Along (step asciiText) Separated separateMessages {} ∧
      Machine.Along (step asciiText) (Confined asciiText) separateMessages {} := by
  have hsep : Machine.Along (step asciiText) Separated separateMessages {} := by decide +kernel
  exact ⟨hsep, (run_confined asciiText separateMessages hsep).1⟩

/-- `a2a:x` with `y:1`, and `a2a:x:y` with `1`. -/
def collidingMessages : List Event :=
  [.request partnerX .sendMessage (callMessage "y:1" "qa.review") (requestIds 1),
    .request partnerXY .sendMessage (callMessage "1" "qa.review") (requestIds 2)]

/-- The second partner is answered with the job of the first. -/
theorem collidingMessages_not_confined :
    ¬ Machine.Along (step asciiText) (Confined asciiText) collidingMessages {} := by
  intro h
  obtain ⟨-, hsecond, -⟩ := h
  have hshown := hsecond.shown (requestIds 1).jobId (by decide +kernel)
  obtain ⟨task, htask, horigin⟩ := hshown
  have horigins : (SqliteJobRepository.getTask (enqueue asciiText partnerXY (callMessage "1" "qa.review")
      (requestIds 2) (step asciiText (.request partnerX .sendMessage (callMessage "y:1" "qa.review")
        (requestIds 1)) {}).db).2 (requestIds 1).jobId).map (·.origin) = some "a2a:x" := by decide +kernel
  have htask := congrArg (Option.map TaskContract.origin) htask
  rw [Option.map_some, horigin] at htask
  have hsame : some "a2a:x" = some partnerXY.origin := horigins.symm.trans htask
  exact absurd hsame (by decide +kernel)

end A2AServer

end Galaxz
