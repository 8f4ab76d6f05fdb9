import Galaxz.A2A.Proofs.ServerProofs
import Galaxz.A2A.Streaming
import Galaxz.Jobs.Proofs.FencingProofs

/-!
# What a stream reports

The frames depend on the views alone, and a view on the state in which the job was read: the result of a
completed job does not change any more.
-/

namespace Galaxz

open SqliteJobRepository

namespace A2AServer

variable {text : PyText}

/-! ## Frames -/

/-- The frames that the views give, after a state. -/
def framesOf (state : String) : List TaskView → List StreamFrame
  | [] => []
  | view :: views =>
    if state ∈ stopStates then []
    else if view.state = state then framesOf state views
    else updates view ++ framesOf view.state views

theorem pollLoop_eq (jobId : Uuid) (polls : List (Db × Db)) : ∀ state : String,
    (pollLoop text jobId state polls).1 = framesOf state (polledViews text jobId polls) := by
  induction polls with
  | nil => exact fun state => rfl
  | cons poll polls ih =>
    intro state
    unfold pollLoop polledViews
    by_cases hstop : state ∈ stopStates
    · rw [if_pos hstop]
      cases pollView text jobId poll with
      | error e => rfl
      | ok found =>
        cases found with
        | none => rfl
        | some view =>
          unfold framesOf
          rw [if_pos hstop]
    · rw [if_neg hstop]
      cases pollView text jobId poll with
      | error e => rfl
      | ok found =>
        cases found with
        | none => rfl
        | some view =>
          unfold framesOf
          rw [if_neg hstop]
          dsimp only
          by_cases hsame : view.state = state
          · rw [if_pos hsame, if_pos hsame]
            exact ih state
          · rw [if_neg hsame, if_neg hsame, ← ih view.state]

theorem framesOf_stop {state : String} (h : state ∈ stopStates) (views : List TaskView) :
    framesOf state views = [] := by
  cases views with
  | nil => rfl
  | cons view views => exact if_pos h

theorem reported_append (xs ys : List StreamFrame) : reported (xs ++ ys) = reported xs ++ reported ys :=
  List.filterMap_append

theorem reported_updates (view : TaskView) : reported (updates view) = [view.state] := by
  have hnone : ∀ artifacts : List PyValue,
      reported (artifacts.map (StreamFrame.artifactUpdate view.id)) = [] := by
    intro artifacts
    unfold reported
    rw [List.filterMap_map]
    exact List.filterMap_eq_nil_iff.mpr fun _ _ => rfl
  unfold updates
  rw [reported_append]
  split_ifs
  · rw [hnone]
    rfl
  · rfl

/-- The states that are reported are those of the views, each change once, up to a stop state. -/
theorem reported_framesOf (views : List TaskView) : ∀ state : String,
    state :: reported (framesOf state views) =
      upToStop ((views.map (·.state)).destutter' (· ≠ ·) state) := by
  have hcons : ∀ (state : String) (states : List String), state ∉ stopStates →
      upToStop (state :: states) = state :: upToStop states := fun state states h => if_neg h
  induction views with
  | nil =>
    intro state
    by_cases hstop : state ∈ stopStates
    · exact (if_pos hstop).symm
    · exact (hcons state [] hstop).symm
  | cons view views ih =>
    intro state
    by_cases hstop : state ∈ stopStates
    · obtain ⟨states, hstates⟩ : ∃ states, ((view :: views).map (·.state)).destutter' (· ≠ ·) state =
          state :: states := by
        generalize (view :: views).map (·.state) = l
        induction l with
        | nil => exact ⟨[], rfl⟩
        | cons b l ihl =>
          rw [List.destutter'_cons]
          split_ifs
          · exact ⟨_, rfl⟩
          · exact ihl
      rw [framesOf_stop hstop, hstates]
      exact (if_pos hstop).symm
    · unfold framesOf
      rw [if_neg hstop, List.map_cons]
      by_cases hsame : view.state = state
      · rw [if_pos hsame, List.destutter'_cons_neg _ (not_not.mpr hsame.symm)]
        exact ih state
      · rw [if_neg hsame, List.destutter'_cons_pos _ (Ne.symm hsame), hcons _ _ hstop, reported_append,
          reported_updates, List.singleton_append, ih view.state]

theorem upToStop_isPrefix (states : List String) : upToStop states <+: states := by
  induction states with
  | nil => exact List.prefix_refl _
  | cons state states ih =>
    unfold upToStop
    split_ifs
    · exact ⟨states, rfl⟩
    · exact (List.prefix_cons_inj state).mpr ih

theorem updates_no_task (view : TaskView) : ∀ f ∈ updates view, f.isTask = false := by
  intro f hf
  unfold updates at hf
  rcases List.mem_append.mp hf with hf | hf
  · split_ifs at hf
    · obtain ⟨artifact, -, rfl⟩ := List.mem_map.mp hf
      rfl
    · cases hf
  · rw [List.mem_singleton.mp hf]
    rfl

theorem framesOf_no_task (views : List TaskView) : ∀ state : String, ∀ f ∈ framesOf state views,
    f.isTask = false := by
  induction views with
  | nil => exact fun state f hf => by cases hf
  | cons view views ih =>
    intro state f hf
    unfold framesOf at hf
    split_ifs at hf
    · cases hf
    · exact ih state f hf
    · rcases List.mem_append.mp hf with hf | hf
      · exact updates_no_task view f hf
      · exact ih view.state f hf

/-- A frame with a state is the last one for its view. -/
theorem updates_split {view : TaskView} {before after rest : List StreamFrame} {f : StreamFrame}
    (h : updates view ++ rest = before ++ f :: after) (hstate : f.state?.isSome = true) :
    (f.state? = some view.state ∧ after = rest) ∨ ∃ middle, rest = middle ++ f :: after := by
  unfold updates at h
  generalize hshown : (if view.state = "TASK_STATE_COMPLETED" then
    view.artifacts.map (StreamFrame.artifactUpdate view.id) else []) = shown at h
  have hnone : ∀ g ∈ shown, g.state? = none := by
    intro g hg
    rw [← hshown] at hg
    split_ifs at hg
    · obtain ⟨artifact, -, rfl⟩ := List.mem_map.mp hg
      rfl
    · cases hg
  rw [List.append_assoc] at h
  rcases List.append_eq_append_iff.mp h with ⟨middle, hbefore, hrest⟩ | ⟨middle, hshown', hafter⟩
  · cases middle with
    | nil =>
      rw [List.nil_append, List.singleton_append] at hrest
      obtain ⟨hhead, htail⟩ := List.cons.inj hrest
      exact Or.inl ⟨by rw [← hhead]; rfl, htail.symm⟩
    | cons g middle =>
      simp only [List.cons_append, List.nil_append] at hrest
      exact Or.inr ⟨middle, (List.cons.inj hrest).2⟩
  · cases middle with
    | nil =>
      rw [List.nil_append, List.singleton_append] at hafter
      obtain ⟨hhead, htail⟩ := List.cons.inj hafter
      exact Or.inl ⟨by rw [hhead]; rfl, htail⟩
    | cons g middle =>
      rw [List.cons_append] at hafter
      obtain ⟨hhead, -⟩ := List.cons.inj hafter
      have hmem : f ∈ shown := by
        rw [hshown', hhead]
        exact List.mem_append_right _ List.mem_cons_self
      rw [hnone f hmem] at hstate
      cases hstate

/-- Nothing is sent after a stop state. -/
theorem framesOf_stops (views : List TaskView) : ∀ (state : String) (before : List StreamFrame)
    (f : StreamFrame) (after : List StreamFrame), framesOf state views = before ++ f :: after →
    ∀ stop ∈ stopStates, f.state? = some stop → after = [] := by
  induction views with
  | nil =>
    intro state before f after h
    exact absurd h.symm (by simp [framesOf])
  | cons view views ih =>
    intro state before f after h stop hstop hstate
    unfold framesOf at h
    split_ifs at h
    · exact absurd h.symm (by simp)
    · exact ih state before f after h stop hstop hstate
    · rcases updates_split h (by rw [hstate]; rfl) with ⟨hview, hafter⟩ | ⟨middle, hrest⟩
      · rw [hview] at hstate
        cases hstate
        rw [hafter, framesOf_stop hstop]
      · exact ih view.state middle f after hrest stop hstop hstate

/-- What the views of a job show: the result artifact when it is completed, no artifact otherwise. -/
def ShowsResult (r : Option PyDict) (view : TaskView) : Prop :=
  (view.state = "TASK_STATE_COMPLETED" → ∃ result, r = some result ∧ view.artifacts = [resultArtifact result]) ∧
    (view.state ≠ "TASK_STATE_COMPLETED" → view.artifacts = [])

theorem completed_mem_stopStates : "TASK_STATE_COMPLETED" ∈ stopStates := List.mem_cons_self

/-- If the frames end with the completed state, the artifact comes before it, and no other one is sent. -/
theorem framesOf_completed {r : Option PyDict} (views : List TaskView) : ∀ state : String,
    state ≠ "TASK_STATE_COMPLETED" → (∀ view ∈ views, ShowsResult r view) →
    (state :: reported (framesOf state views)).getLast? = some "TASK_STATE_COMPLETED" →
    ∃ result, r = some result ∧ ∃ before taskId shown, framesOf state views = before ++
        [.artifactUpdate taskId (resultArtifact result), .statusUpdate taskId "TASK_STATE_COMPLETED" shown] ∧
      sentArtifacts before = [] := by
  induction views with
  | nil =>
    intro state hne _ hlast
    exact absurd (Option.some.inj hlast) hne
  | cons view views ih =>
    intro state hne hshows hlast
    obtain ⟨hview, hviews⟩ := List.forall_mem_cons.mp hshows
    unfold framesOf at hlast ⊢
    split_ifs at hlast ⊢
    · exact absurd (Option.some.inj hlast) hne
    · exact ih state hne hviews hlast
    · by_cases hcompleted : view.state = "TASK_STATE_COMPLETED"
      · obtain ⟨result, hr, hartifacts⟩ := hview.1 hcompleted
        refine ⟨result, hr, [], view.id, view.text, ?_, rfl⟩
        have hstop : view.state ∈ stopStates := hcompleted ▸ completed_mem_stopStates
        rw [framesOf_stop hstop, List.append_nil]
        unfold updates
        rw [if_pos hcompleted, hartifacts, hcompleted]
        rfl
      · rw [reported_append, reported_updates, List.singleton_append, List.getLast?_cons_cons] at hlast
        obtain ⟨result, hr, before, taskId, shown, hframes, hnone⟩ := ih view.state hcompleted hviews hlast
        have hupdates : updates view = [.statusUpdate view.id view.state view.text] := by
          unfold updates
          rw [if_neg hcompleted]
          rfl
        refine ⟨result, hr, updates view ++ before, taskId, shown, ?_, ?_⟩
        · rw [hframes, List.append_assoc]
        · rw [hupdates]
          exact hnone

/-! ## Views and states -/

/-- A view depends on the status of the job alone, and on its result. -/
theorem mapJob_congr {job job' : Job} (h : job.status = job'.status) (result : Option PyDict) :
    mapJob text job result = mapJob text job' result := by
  unfold mapJob
  rw [h]

/-- The result of a job that is not completed is not looked at. -/
theorem mapJob_result {job : Job} {r r' : Option PyDict} (h : job.status = .completed → r = r') :
    mapJob text job r = mapJob text job r' := by
  unfold mapJob
  cases hstatus : job.status with
  | completed => rw [h hstatus]
  | _ => rfl

theorem mapJob_shows {job : Job} {r : Option PyDict} {v : String × Option String × List PyValue}
    (h : mapJob text job r = .ok v) :
    (v.1 = "TASK_STATE_COMPLETED" → job.status = .completed ∧
      ∃ result, r = some result ∧ v.2.2 = [resultArtifact result]) ∧
    (v.1 ≠ "TASK_STATE_COMPLETED" → v.2.2 = []) := by
  unfold mapJob at h
  cases hstatus : job.status with
  | completed =>
    rw [hstatus] at h
    dsimp only at h
    unfold mapResult at h
    dsimp only at h
    split_ifs at h with hcomplete hescalated hnone
    · cases h
      refine ⟨fun _ => ⟨rfl, ?_⟩, fun hne => absurd rfl hne⟩
      cases r with
      | none => exact absurd hcomplete (by decide)
      | some result => exact ⟨result, rfl, rfl⟩
    · cases h
      exact ⟨fun hc => absurd hc (by simp), fun _ => rfl⟩
    · obtain ⟨rejected, -, h⟩ := (except_bind_ok_iff _ _ _).mp h
      split_ifs at h
      · cases h
        exact ⟨fun hc => absurd hc (by simp), fun _ => rfl⟩
      · cases h
        exact ⟨fun hc => absurd hc (by simp), fun _ => rfl⟩
    · obtain ⟨rejected, -, h⟩ := (except_bind_ok_iff _ _ _).mp h
      split_ifs at h
      · cases h
        exact ⟨fun hc => absurd hc (by simp), fun _ => rfl⟩
      · cases h
        exact ⟨fun hc => absurd hc (by simp), fun _ => rfl⟩
  | _ =>
    rw [hstatus] at h
    cases h
    exact ⟨fun hc => absurd hc (by simp), fun _ => rfl⟩

/-- The id, the state and the artifacts of a view. -/
theorem taskView_ok {s : Db} {job : Job} {view : TaskView} (h : taskView text s job = .ok view) :
    view.id = job.jobId.text ∧ ∃ shown,
      mapJob text job (getResult s job.jobId) = .ok (view.state, shown, view.artifacts) := by
  obtain ⟨v, hv, h⟩ := (except_bind_ok_iff _ _ _).mp h
  rw [← Except.ok.inj h]
  exact ⟨rfl, v.2.1, hv⟩

theorem image_eq {s : Db} {jobId : Uuid} {job : Job} (hget : getJob s jobId = .ok (some job)) :
    image text jobId s = (mapJob text job (getResult s jobId)).toOption.map (·.1) := by
  have hid := (getJob_jobId hget).1
  unfold image
  rw [hget]
  dsimp only
  unfold taskView
  rw [hid]
  cases mapJob text job (getResult s jobId) with
  | error e => rfl
  | ok v => rfl

/-- The status that is read is the status in the table. -/
theorem status?_of_getJob {s : Db} (h : s.Inv) {jobId : Uuid} {job : Job}
    (hget : getJob s jobId = .ok (some job)) : s.status? jobId = some job.status := by
  obtain ⟨row, hrow⟩ := Option.ne_none_iff_exists'.mp (getJob_jobId hget).2
  obtain ⟨job', -, hget', -, hstatus⟩ := getJobAsserted_spec h hrow
  rw [hget] at hget'
  cases hget'
  unfold Db.status?
  rw [hrow, hstatus]
  rfl

/-- A view whose result is read later has the state of the job, and shows the result that stays. -/
theorem view_image {calls more rest : List JobCall} {jobId : Uuid} {job read : Job} {view : TaskView}
    (hget : getJob (run calls) jobId = .ok (some job)) (hid : read.jobId = jobId)
    (hstatus : read.status = job.status) (hview : taskView text (run (calls ++ more)) read = .ok view) :
    image text jobId (run calls) = some view.state ∧
      ShowsResult (getResult (run (calls ++ more ++ rest)) jobId) view := by
  obtain ⟨-, shown, hmap⟩ := taskView_ok hview
  rw [hid, mapJob_congr hstatus] at hmap
  have hkeep : ∀ later, job.status = .completed →
      getResult (run (calls ++ later)) jobId = getResult (run calls) jobId := by
    intro later hcompleted
    have hrow := status?_of_getJob (run_inv calls) hget
    exact ((run_fencing calls).2.2.2.2 later jobId job.status hrow (by rw [hcompleted]; rfl)).2
  have hsame : mapJob text job (getResult (run calls) jobId) = .ok (view.state, shown, view.artifacts) := by
    rw [← hmap]
    exact mapJob_result fun hcompleted => (hkeep more hcompleted).symm
  obtain ⟨hcomplete, hother⟩ := mapJob_shows hsame
  refine ⟨by rw [image_eq hget, hsame]; rfl, fun hstate => ?_, hother⟩
  obtain ⟨hcompleted, result, hresult, hartifacts⟩ := hcomplete hstate
  refine ⟨result, ?_, hartifacts⟩
  rw [List.append_assoc, hkeep _ hcompleted]
  exact hresult

/-! ## The first view -/

/-- A new job is in the table as it is returned. -/
theorem submit_new_status {s : Db} {c : Submission} {job : Job} (hok : (c.submit s).1 = .ok job)
    (hnew : (c.submit s).2 ≠ s) : (c.submit s).2.status? job.jobId = some job.status := by
  unfold Submission.submit SqliteJobRepository.enqueue at hok hnew ⊢
  dsimp only at hok hnew ⊢
  split_ifs at hok hnew ⊢
  cases hvalid : Job.validate c.jobId c.taskId .queued c.priority c.idempotencyKey
      (c.retryPolicy.getD .default) c.now c.now c.now none none with
  | error e =>
    rw [hvalid] at hnew
    exact absurd rfl hnew
  | ok candidate =>
    simp only [hvalid] at hok hnew ⊢
    unfold transaction at hok hnew ⊢
    cases hbody : enqueueTx candidate c.task c.now s with
    | error e =>
      rw [hbody] at hnew
      exact absurd rfl hnew
    | ok r =>
      obtain ⟨res, s'⟩ := r
      simp only [hbody] at hok hnew ⊢
      rcases enqueueTx_cases hbody with ⟨row, text, -, rfl, rfl⟩ | ⟨-, rfl, -, hfresh, rfl⟩
      · exact absurd rfl hnew
      · obtain rfl := Except.ok.inj hok
        have hnone : s.jobs.find? (fun r => decide (r.jobId = candidate.jobId)) = none := by
          rw [List.find?_eq_none]
          intro r hr
          simpa using hfresh r hr
        show ((s.jobs ++ [newJobRow candidate]).find? fun r => decide (r.jobId = candidate.jobId)).map _ = _
        have hfound : [newJobRow candidate].find? (fun r => decide (r.jobId = candidate.jobId)) =
            some (newJobRow candidate) := List.find?_cons_of_pos (decide_eq_true rfl)
        rw [List.find?_append, hnone, Option.none_or, hfound]
        rfl

/-- The job that `enqueue` returns is the one that is then stored, as far as its view goes. -/
theorem submit_read {s : Db} (h : s.Inv) {c : Submission} {job : Job} (hok : (c.submit s).1 = .ok job) :
    ∃ stored, getJob (c.submit s).2 job.jobId = .ok (some stored) ∧ job.status = stored.status := by
  have hinv : (c.submit s).2.Inv := by
    have hstep := step_inv c.call s h
    unfold SqliteJobRepository.step Submission.call SqliteJobRepository.exec at hstep
    rw [answer_snd] at hstep
    exact hstep
  have hstatus : (c.submit s).2.status? job.jobId = some job.status := by
    by_cases hsame : (c.submit s).2 = s
    · rcases submit_cases h c with ⟨e, he, -⟩ | ⟨k, -, row, job', -, hs, hjob, hfound⟩ |
        ⟨job', -, -, -, hkeys, -⟩
      · rw [he] at hok
        cases hok
      · rw [hfound] at hok
        cases hok
        obtain ⟨hid, hst⟩ := jobFromRow_fields hjob
        have hrowid : row.jobId = k.jobId :=
          (Db.mem_view_rows.mp (by rw [hs.rows]; exact List.mem_singleton_self row)).2
        have hrow : s.job? k.jobId = some row := h.job?_eq_some.mpr hs.rows
        rw [hsame, hid.trans hrowid]
        unfold Db.status?
        rw [hrow, hst]
        rfl
      · rw [hsame] at hkeys
        have hlength := congrArg List.length hkeys
        rw [List.length_append, List.length_singleton] at hlength
        omega
    · exact submit_new_status hok hsame
  obtain ⟨row, hrow, hst⟩ := Option.map_eq_some_iff.mp hstatus
  obtain ⟨stored, -, hget, -, hstored⟩ := getJobAsserted_spec hinv hrow
  exact ⟨stored, hget, by rw [hstored, hst]⟩

/-- A request leaves the database as a run of calls would. -/
theorem submitMessage_run (caller : CallerConfig) (params : PyDict) (ids : RequestIds)
    (before : List JobCall) : ∃ calls, (submitMessage caller params ids (run before)).2 = run calls ∧
      ∀ job, (submitMessage caller params ids (run before)).1 = .ok (some job) →
        ∃ stored, getJob (run calls) job.jobId = .ok (some stored) ∧ job.status = stored.status := by
  have hnothing : ∀ r : Except A2AFailure (Option Job), (∀ job, r ≠ .ok (some job)) →
      ∃ calls, run before = run calls ∧ ∀ job, r = .ok (some job) →
        ∃ stored, getJob (run calls) job.jobId = .ok (some stored) ∧ job.status = stored.status :=
    fun r hr => ⟨before, rfl, fun job hjob => absurd hjob (hr job)⟩
  unfold submitMessage
  cases readMessage params with
  | error e => exact hnothing _ fun job hjob => by cases hjob
  | ok m =>
    dsimp only
    split_ifs
    · cases (contractOf caller m ids).validate with
      | error e => exact hnothing _ fun job hjob => by cases hjob
      | ok task =>
        dsimp only
        have hrun : ((submissionOf caller m task ids).submit (run before)).2 =
            run (before ++ [(submissionOf caller m task ids).call]) := by
          have hconcat : run (before ++ [(submissionOf caller m task ids).call]) =
              SqliteJobRepository.step (submissionOf caller m task ids).call (run before) :=
            Machine.run_concat _ _ _ _
          rw [hconcat]
          unfold SqliteJobRepository.step Submission.call SqliteJobRepository.exec
          rw [answer_snd]
          rfl
        have hread := fun job => @submit_read (run before) (run_inv before) (submissionOf caller m task ids) job
        rw [hrun] at hread
        cases hsubmit : (submissionOf caller m task ids).submit (run before) with
        | mk r s' =>
          rw [hsubmit] at hrun hread
          cases r with
          | error e => exact ⟨_, hrun, fun job hjob => by cases hjob⟩
          | ok job =>
            refine ⟨_, hrun, fun job' hjob' => ?_⟩
            cases hjob'
            exact hread job rfl
    · exact hnothing _ fun job hjob => by cases hjob

/-- `enqueue` is its first part, followed by the view. -/
theorem enqueue_eq (caller : CallerConfig) (params : PyDict) (ids : RequestIds) (s : Db) :
    enqueue text caller params ids s =
      ((submitMessage caller params ids s).1 >>= fun job =>
        firstView text ids job (submitMessage caller params ids s).2, (submitMessage caller params ids s).2) := by
  unfold enqueue submitMessage
  cases readMessage params with
  | error e => rfl
  | ok m =>
    dsimp only
    split_ifs
    · cases (contractOf caller m ids).validate with
      | error e => rfl
      | ok task =>
        dsimp only
        cases (submissionOf caller m task ids).submit s with
        | mk r s' => cases r <;> rfl
    · rfl

/-! ## The order of the states -/

/-- The states that are reported after the reading number `k`, whose state is the last one reported, are
images of later databases, in order. -/
theorem reported_sublist {f : ℕ → Option String} {n : ℕ} (views : List (ℕ × TaskView)) :
    ∀ (k : ℕ) (state : String), f k = some state → (k :: views.map (·.1)).Pairwise (· ≤ ·) →
      (∀ p ∈ views, p.1 ≤ n ∧ f p.1 = some p.2.state) →
      ((reported (framesOf state (views.map (·.2)))).map some).Sublist
        ((List.range' (k + 1) (n - k)).map f) := by
  induction views with
  | nil => exact fun k state _ _ _ => List.nil_sublist _
  | cons p views ih =>
    obtain ⟨i, view⟩ := p
    intro k state hk horder hviews
    obtain ⟨⟨hi, hf⟩, hrest⟩ := List.forall_mem_cons.mp hviews
    obtain ⟨hfirst, horder'⟩ := List.pairwise_cons.mp horder
    have hki : k ≤ i := hfirst i List.mem_cons_self
    have hlater := ih i view.state hf horder' hrest
    have hskip : (List.range' (i + 1) (n - i)).Sublist (List.range' (k + 1) (n - k)) := by
      have hsplit : List.range' (k + 1) (n - k) =
          List.range' (k + 1) (i - k) ++ List.range' (i + 1) (n - i) := by
        have hlength : n - k = (i - k) + (n - i) := by omega
        have hstart : i + 1 = k + 1 + 1 * (i - k) := by omega
        rw [hlength, hstart, List.range'_append]
      rw [hsplit]
      exact List.sublist_append_right _ _
    rw [List.map_cons]
    unfold framesOf
    split_ifs with hstop hsame
    · exact List.nil_sublist _
    · have hagain := ih i state (hsame ▸ hf) horder' hrest
      exact hagain.trans (hskip.map f)
    · -- the state is new, so the database is a later one
      have hne : k ≠ i := by
        rintro rfl
        rw [hk] at hf
        exact hsame (Option.some.inj hf).symm
      have hsplit : List.range' (k + 1) (n - k) =
          List.range' (k + 1) (i - 1 - k) ++ i :: List.range' (i + 1) (n - i) := by
        have hlength : n - k = (i - 1 - k) + ((n - i) + 1) := by omega
        have hstart : i = k + 1 + 1 * (i - 1 - k) := by omega
        rw [hlength, ← List.range'_append, ← hstart, List.range'_succ]
      rw [reported_append, reported_updates, List.singleton_append, List.map_cons, hsplit, List.map_append,
        List.map_cons, hf]
      exact (hlater.cons_cons (some view.state)).trans (List.sublist_append_right _ _)

/-! ## Streams of a job -/

section Job

variable {calls after : List JobCall} {jobId : Uuid}

theorem dbAt_run (n : ℕ) : dbAt after (run calls) n = run (calls ++ after.take n) := by
  unfold dbAt run
  rw [Machine.run_append]

/-- What a look at two numbers of calls sees. -/
theorem pollView_spec {p : ℕ × ℕ} (horder : p.1 ≤ p.2) {view : TaskView}
    (h : pollView text jobId (dbAt after (run calls) p.1, dbAt after (run calls) p.2) = .ok (some view)) :
    image text jobId (dbAt after (run calls) p.1) = some view.state ∧
      ShowsResult (getResult (dbAt after (run calls) after.length) jobId) view := by
  obtain ⟨found, hget, h⟩ := (except_bind_ok_iff _ _ _).mp h
  cases found with
  | none => cases h
  | some job =>
    obtain ⟨view', hview, h⟩ := (except_bind_ok_iff _ _ _).mp h
    cases h
    have htake : after.take p.2 = after.take p.1 ++ (after.take p.2).drop p.1 := by
      have hboth := List.take_append_drop p.1 (after.take p.2)
      rw [List.take_take, Nat.min_eq_left horder] at hboth
      exact hboth.symm
    have hget : getJob (dbAt after (run calls) p.1) jobId = .ok (some job) := hget
    have hview : taskView text (dbAt after (run calls) p.2) job = .ok view := hview
    rw [dbAt_run] at hget hview
    rw [dbAt_run, dbAt_run, List.take_length]
    rw [htake, ← List.append_assoc] at hview
    have hend : calls ++ after = calls ++ after.take p.1 ++ (after.take p.2).drop p.1 ++ after.drop p.2 := by
      rw [List.append_assoc, List.append_assoc, ← List.append_assoc (after.take p.1), ← htake,
        List.take_append_drop]
    rw [hend]
    exact view_image hget (getJob_jobId hget).1 rfl hview

/-- The looks that got a view, by the number of calls before each. -/
theorem polledViews_spec (polls : List (ℕ × ℕ)) (horder : ∀ p ∈ polls, p.1 ≤ p.2) :
    ∃ views : List (ℕ × TaskView), polledViews text jobId (polls.map fun p =>
        (dbAt after (run calls) p.1, dbAt after (run calls) p.2)) = views.map (·.2) ∧
      (views.map (·.1)).Sublist (polls.map (·.1)) ∧
      ∀ v ∈ views, image text jobId (dbAt after (run calls) v.1) = some v.2.state ∧
        ShowsResult (getResult (dbAt after (run calls) after.length) jobId) v.2 := by
  induction polls with
  | nil => exact ⟨[], rfl, List.nil_sublist _, fun v hv => by cases hv⟩
  | cons p polls ih =>
    obtain ⟨hp, hpolls⟩ := List.forall_mem_cons.mp horder
    rw [List.map_cons]
    unfold polledViews
    cases hview : pollView text jobId (dbAt after (run calls) p.1, dbAt after (run calls) p.2) with
    | error e => exact ⟨[], rfl, List.nil_sublist _, fun v hv => by cases hv⟩
    | ok found =>
      cases found with
      | none => exact ⟨[], rfl, List.nil_sublist _, fun v hv => by cases hv⟩
      | some view =>
        obtain ⟨views, hviews, hsub, hspec⟩ := ih hpolls
        refine ⟨(p.1, view) :: views, ?_, hsub.cons_cons _, ?_⟩
        · dsimp only
          rw [hviews]
          rfl
        · intro v hv
          rcases List.mem_cons.mp hv with rfl | hv
          · exact pollView_spec hp hview
          · exact hspec v hv

end Job

/-- The order of the looks alone. -/
theorem InOrder.polls {n first : ℕ} {polls : List (ℕ × ℕ)} (h : InOrder n first polls) :
    (∀ p ∈ polls, p.1 ≤ p.2 ∧ p.1 ≤ n) ∧ (0 :: polls.map (·.1)).Pairwise (· ≤ ·) := by
  have hsub : (polls.map (·.1)).Sublist (polls.flatMap fun p => [p.1, p.2]) := by
    induction polls with
    | nil => exact List.nil_sublist _
    | cons p polls ih =>
      have hrest : InOrder n first polls := by
        refine ⟨?_, fun m hm => h.2 m ?_⟩
        · have hpairwise := h.1
          rw [List.flatMap_cons] at hpairwise
          exact hpairwise.sublist ((List.sublist_append_right _ _).cons_cons _)
        · rw [List.flatMap_cons]
          rcases List.mem_cons.mp hm with rfl | hm
          · exact List.mem_cons_self
          · exact List.mem_cons_of_mem _ (List.mem_append_right _ hm)
      rw [List.map_cons, List.flatMap_cons]
      exact ((ih hrest).cons _).cons_cons p.1
  have hpairwise := (List.pairwise_cons.mp h.1).2
  refine ⟨fun p hp => ⟨?_, ?_⟩, List.pairwise_cons.mpr ⟨fun m _ => Nat.zero_le m, hpairwise.sublist hsub⟩⟩
  · have hpair : [p.1, p.2].Sublist (polls.flatMap fun p => [p.1, p.2]) := by
      obtain ⟨earlier, later, rfl⟩ := List.append_of_mem hp
      rw [List.flatMap_append, List.flatMap_cons]
      exact (List.sublist_append_left [p.1, p.2] _).trans (List.sublist_append_right _ _)
    exact (List.pairwise_cons.mp (hpairwise.sublist hpair)).1 p.2 (List.mem_singleton_self _)
  · refine h.2 p.1 (List.mem_cons_of_mem _ (List.mem_flatMap.mpr ⟨p, hp, ?_⟩))
    exact List.mem_cons_self

/-- What the frames of any first view and any later views report. -/
theorem frames_report {first : TaskView} {views : List TaskView} {r : Option PyDict}
    {actual : Option (List (Option String))} (hfirst : ShowsResult r first)
    (hviews : ∀ view ∈ views, ShowsResult r view)
    (hactual : ∀ states ∈ actual,
      ((reported (.task first :: framesOf first.state views)).map some).Sublist states) :
    StreamReports first (views.map (·.state)) actual r (.task first :: framesOf first.state views) := by
  have hreported : reported (.task first :: framesOf first.state views) =
      upToStop ((first.state :: views.map (·.state)).destutter (· ≠ ·)) := reported_framesOf views first.state
  refine ⟨⟨_, rfl, framesOf_no_task views first.state⟩, hreported, ?_, ?_, ?_, hactual⟩
  · rw [hreported]
    obtain ⟨rest, hrest⟩ := upToStop_isPrefix ((first.state :: views.map (·.state)).destutter (· ≠ ·))
    have hchain := List.isChain_destutter (· ≠ ·) (first.state :: views.map (·.state))
    rw [← hrest] at hchain
    exact hchain.left_of_append
  · intro before f after h
    rintro ⟨state, hstop, hstate⟩
    cases before with
    | nil =>
      obtain ⟨rfl, rfl⟩ := List.cons.inj h
      cases hstate
      exact framesOf_stop hstop views
    | cons g before =>
      exact framesOf_stops views first.state before f after (List.cons.inj h).2 state hstop hstate
  · intro hlast
    by_cases hcompleted : first.state = "TASK_STATE_COMPLETED"
    · obtain ⟨result, hr, hartifacts⟩ := hfirst.1 hcompleted
      have hnil : framesOf first.state views = [] :=
        framesOf_stop (hcompleted ▸ completed_mem_stopStates) views
      refine ⟨result, hr, ?_, Or.inl ?_⟩
      · rw [hnil]
        unfold sentArtifacts
        rw [List.flatMap_singleton]
        exact hartifacts
      · rw [hnil]
    · obtain ⟨result, hr, before, taskId, shown, hframes, hnone⟩ :=
        framesOf_completed views first.state hcompleted hviews hlast
      refine ⟨result, hr, ?_, Or.inr ⟨.task first :: before, taskId, shown, by rw [hframes]; rfl⟩⟩
      rw [hframes]
      unfold sentArtifacts at hnone ⊢
      rw [List.flatMap_cons, List.flatMap_append, hnone]
      show first.artifacts ++ _ = _
      rw [hfirst.2 hcompleted]
      rfl

/-- The stream of a request, for every history of the job database before the request and after it, and for
all looks in order. -/
theorem events_report (text : PyText) (caller : CallerConfig) (params : PyDict) (ids : RequestIds)
    (before after : List JobCall) (job : Option Job) (read : ℕ) (shown : Shown) (polls : List (ℕ × ℕ))
    (hjob : (submitMessage caller params ids (run before)).1 = .ok job)
    (horder : InOrder after.length read polls)
    (hshown : firstView text ids job (dbAt after (submitMessage caller params ids (run before)).2 read) =
      .ok shown) :
    StreamReports shown.2
      (polledStates text shown.1 (polls.map fun p =>
        (dbAt after (submitMessage caller params ids (run before)).2 p.1,
          dbAt after (submitMessage caller params ids (run before)).2 p.2)))
      (shown.1.map fun jobId => (List.range (after.length + 1)).map fun n =>
        image text jobId (dbAt after (submitMessage caller params ids (run before)).2 n))
      (shown.1.bind fun jobId =>
        getResult (dbAt after (submitMessage caller params ids (run before)).2 after.length) jobId)
      (events text shown.1 shown.2 (polls.map fun p =>
        (dbAt after (submitMessage caller params ids (run before)).2 p.1,
          dbAt after (submitMessage caller params ids (run before)).2 p.2))).1 := by
  obtain ⟨calls, hcalls, hstored⟩ := submitMessage_run caller params ids before
  rw [hcalls] at hshown ⊢
  cases job with
  | none =>
    cases hshown
    have hrejected : ShowsResult none (rejectedView ids) :=
      ⟨fun h => absurd h (by simp [rejectedView]), fun _ => rfl⟩
    exact @frames_report (rejectedView ids) [] none none hrejected (fun view hview => by cases hview)
      fun states hstates => by cases hstates
  | some job =>
    obtain ⟨stored, hget, hstatus⟩ := hstored job hjob
    obtain ⟨view, hview, hshown⟩ := (except_bind_ok_iff _ _ _).mp hshown
    cases hshown
    have htaken : taskView text (dbAt after (run calls) read) job = .ok view := by
      unfold passing at hview
      cases htask : taskView text (dbAt after (run calls) read) job with
      | error e =>
        rw [htask] at hview
        cases hview
      | ok v =>
        rw [htask] at hview
        cases hview
        rfl
    rw [dbAt_run] at htaken
    obtain ⟨himage, hshows⟩ := @view_image text calls (after.take read) (after.drop read) job.jobId stored job
      view hget rfl hstatus htaken
    have hfinal : run (calls ++ after.take read ++ after.drop read) = dbAt after (run calls) after.length := by
      rw [dbAt_run, List.take_length, List.append_assoc, List.take_append_drop]
    rw [hfinal] at hshows
    obtain ⟨hpolls, hpairwise⟩ := horder.polls
    obtain ⟨views, hviews, hsub, hspec⟩ :=
      @polledViews_spec text calls after job.jobId polls fun p hp => (hpolls p hp).1
    unfold events polledStates
    dsimp only
    rw [pollLoop_eq, hviews]
    refine frames_report hshows ?_ ?_
    · intro v hv
      obtain ⟨p, hp, rfl⟩ := List.mem_map.mp hv
      exact (hspec p hp).2
    · intro states hstates
      cases hstates
      have hzero : image text job.jobId (dbAt after (run calls) 0) = some view.state := himage
      have hordered : (0 :: views.map (·.1)).Pairwise (· ≤ ·) := hpairwise.sublist (hsub.cons_cons 0)
      have hbounded : ∀ p ∈ views, p.1 ≤ after.length ∧
          image text job.jobId (dbAt after (run calls) p.1) = some p.2.state := by
        intro p hp
        obtain ⟨q, hq, hqp⟩ := List.mem_map.mp (hsub.subset (List.mem_map_of_mem hp))
        exact ⟨hqp ▸ (hpolls q hq).2, (hspec p hp).1⟩
      have hsublist := @reported_sublist (fun n => image text job.jobId (dbAt after (run calls) n)) after.length
        views 0 view.state hzero hordered hbounded
      have hrange : List.range (after.length + 1) = 0 :: List.range' 1 after.length := by
        rw [List.range_eq_range', List.range'_succ]
      dsimp only
      rw [hrange, List.map_cons, hzero]
      exact hsublist.cons_cons _

/-- A worker claims the job of the first request and completes it. -/
def workedOff : List JobCall :=
  [.claim 7 8 "worker" (.finite 30) (.ofMicros 2000000),
    .complete (requestIds 1).jobId 8 "out" (some [("status", .str "complete")]) (.ofMicros 3000000)]

def streamedMessage : Except A2AFailure (Option Job) × Db :=
  submitMessage partnerX (callMessage "m" "qa.review") (requestIds 1) (run [])

/-- The stream of the request, with looks after each call of the worker. -/
theorem workedOff_report : ∃ job shown, streamedMessage.1 = .ok job ∧
    firstView asciiText (requestIds 1) job (dbAt workedOff streamedMessage.2 0) = .ok shown ∧
    StreamReports shown.2
      (polledStates asciiText shown.1 ([(1, 1), (2, 2)].map fun p =>
        (dbAt workedOff streamedMessage.2 p.1, dbAt workedOff streamedMessage.2 p.2)))
      (shown.1.map fun jobId => (List.range (workedOff.length + 1)).map fun n =>
        image asciiText jobId (dbAt workedOff streamedMessage.2 n))
      (shown.1.bind fun jobId => getResult (dbAt workedOff streamedMessage.2 workedOff.length) jobId)
      (events asciiText shown.1 shown.2 ([(1, 1), (2, 2)].map fun p =>
        (dbAt workedOff streamedMessage.2 p.1, dbAt workedOff streamedMessage.2 p.2))).1 := by
  have hsome : (streamedMessage.1.toOption.bind fun job =>
      (firstView asciiText (requestIds 1) job (dbAt workedOff streamedMessage.2 0)).toOption).isSome = true := by
    decide +kernel
  obtain ⟨shown, hshown⟩ := Option.isSome_iff_exists.mp hsome
  obtain ⟨job, hjob, hshown⟩ := Option.bind_eq_some_iff.mp hshown
  have hjob : streamedMessage.1 = .ok job := by
    cases h : streamedMessage.1 with
    | error e =>
      rw [h] at hjob
      cases hjob
    | ok found =>
      rw [h] at hjob
      cases hjob
      rfl
  have hshown : firstView asciiText (requestIds 1) job (dbAt workedOff streamedMessage.2 0) = .ok shown := by
    cases h : firstView asciiText (requestIds 1) job (dbAt workedOff streamedMessage.2 0) with
    | error e =>
      rw [h] at hshown
      cases hshown
    | ok found =>
      rw [h] at hshown
      cases hshown
      rfl
  refine ⟨job, shown, hjob, hshown, ?_⟩
  exact events_report asciiText partnerX (callMessage "m" "qa.review") (requestIds 1) [] workedOff job 0 shown
    [(1, 1), (2, 2)] hjob ⟨by decide, by decide⟩ hshown

/-- Such a stream in full: submitted, working, the artifact, completed. -/
example : (streamedMessage.1.toOption.bind fun job =>
    (firstView asciiText (requestIds 1) job (dbAt workedOff streamedMessage.2 0)).toOption.map fun shown =>
      reported (events asciiText shown.1 shown.2 ([(1, 1), (2, 2)].map fun p =>
        (dbAt workedOff streamedMessage.2 p.1, dbAt workedOff streamedMessage.2 p.2))).1) =
    some ["TASK_STATE_SUBMITTED", "TASK_STATE_WORKING", "TASK_STATE_COMPLETED"] := by decide +kernel

end A2AServer

end Galaxz
