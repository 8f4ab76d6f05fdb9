import Galaxz.Storage.Retention

/-!
# When retention keeps live work

`purge_expired` keeps of each purged table the rows that are not expired, whatever refers to them. So it
keeps live work exactly when the ages of the rows fit together.
-/

namespace Galaxz.SQLiteLifecycle

/-! ## What the loop does to one store -/

/-- The loop goes on to a category: no cutoff before it is out of range. -/
def reaches (args : PurgeArgs) (pre : List RetentionCategory) : Bool :=
  pre.all fun earlier => !args.hasStore earlier || !raised (cutoffOf args earlier)

section

variable {α : Type} (args : PurgeArgs) (category : RetentionCategory) (f : RetainedStores → α)
  (g : Datetime → α → α)

/-- Categories of other stores leave a store alone. -/
theorem purgeLoop_others (hother : ∀ other, other ≠ category → ∀ c s, f (purgeCategory other c s) = f s)
    (categories : List RetentionCategory) (hmem : category ∉ categories) (s : RetainedStores) :
    f (purgeLoop args categories s).2 = f s := by
  induction categories generalizing s with
  | nil => rfl
  | cons other rest ih =>
    rw [List.mem_cons, not_or] at hmem
    unfold purgeLoop
    split_ifs with hstore hdry
    · split
      · rfl
      · exact ih hmem.2 s
    · split
      · rfl
      · rw [ih hmem.2, hother other (Ne.symm hmem.1)]
    · exact ih hmem.2 s

/-- The category of a store is purged at most once, with its cutoff. -/
theorem purgeLoop_store (hstep : ∀ c s, f (purgeCategory category c s) = g c (f s))
    (hother : ∀ other, other ≠ category → ∀ c s, f (purgeCategory other c s) = f s)
    (pre rest : List RetentionCategory) (hpre : category ∉ pre) (hrest : category ∉ rest)
    (s : RetainedStores) :
    f (purgeLoop args (pre ++ category :: rest) s).2 =
      if !args.dryRun && args.hasStore category && reaches args pre then
        (cutoffOf args category).toOption.elim (f s) (g · (f s))
      else f s := by
  induction pre generalizing s with
  | nil =>
    have hreach : reaches args [] = true := rfl
    rw [List.nil_append, hreach, Bool.and_true]
    unfold purgeLoop
    cases hstore : args.hasStore category with
    | false =>
      rw [Bool.and_false]
      exact purgeLoop_others args category f hother rest hrest s
    | true =>
      rw [Bool.and_true, if_pos rfl]
      cases hc : cutoffOf args category with
      | error e => exact (ite_self (f s)).symm
      | ok c =>
        show f (purgeLoop args rest _).2 = _
        rw [purgeLoop_others args category f hother rest hrest]
        cases args.dryRun with
        | true => rfl
        | false => exact hstep c s
  | cons other pre ih =>
    rw [List.mem_cons, not_or] at hpre
    have hcons : reaches args (other :: pre) =
        ((!args.hasStore other || !raised (cutoffOf args other)) && reaches args pre) := rfl
    rw [List.cons_append, hcons]
    unfold purgeLoop
    cases hstore : args.hasStore other with
    | false => exact ih hpre.2 s
    | true =>
      rw [if_pos rfl]
      cases hc : cutoffOf args other with
      | error e =>
        -- the call raises before it reaches the category
        have hraised : raised (Except.error e : Except PyError Datetime) = true := rfl
        rw [hraised, Bool.not_true, Bool.or_false, Bool.false_and, Bool.and_false]
        rfl
      | ok c =>
        have hraised : raised (Except.ok c : Except PyError Datetime) = false := rfl
        rw [hraised, Bool.not_false, Bool.or_true, Bool.true_and]
        show f (purgeLoop args (pre ++ category :: rest) _).2 = _
        rw [ih hpre.2]
        have hsame : f (if args.dryRun then s else purgeCategory other c s) = f s := by
          split_ifs
          · rfl
          · exact hother other (Ne.symm hpre.1) c s
        rw [hsame]

end

/-! ## What is left -/

/-- The tables of the jobs without their expired rows. -/
def keptJobs (args : PurgeArgs) (s : Db) : Db :=
  { s with
    jobs := s.jobs.filter fun r => !expired args .jobs r.updatedAt
    attempts := s.attempts.filter fun r => !r.endedAt.any (expired args .jobs)
    transitions := s.transitions.filter fun r => !expired args .jobs r.createdAt
    idempotency := s.idempotency.filter fun r => !expired args .jobs r.createdAt
    outputs := s.outputs.filter fun r => !expired args .jobs r.createdAt }

/-- The tables of the goals without their expired rows. -/
def keptGoals (args : PurgeArgs) (s : GoalDb) : GoalDb :=
  { s with
    goals := s.goals.filter fun r => !expired args .goals r.createdAt
    events := s.events.filter fun r => !expired args .goals r.createdAt
    goalIds_nodup := s.goalIds_nodup.sublist (List.Sublist.map _ List.filter_sublist) }

theorem expired_of_not_reached {args : PurgeArgs} {category : RetentionCategory}
    (h : ¬ (!args.dryRun && args.hasStore category &&
      reaches args (RetentionCategory.all.takeWhile (· ≠ category))) = true) :
    expired args category = fun _ => false := by
  funext t
  rw [Bool.not_eq_true] at h
  show (_ && _) = false
  exact (congrArg (· && _) h).trans (Bool.false_and _)

theorem expired_of_reached {args : PurgeArgs} {category : RetentionCategory}
    (h : (!args.dryRun && args.hasStore category &&
      reaches args (RetentionCategory.all.takeWhile (· ≠ category))) = true) :
    expired args category = fun t => (cutoffOf args category).toOption.any (t < ·) := by
  funext t
  show (_ && _) = _
  exact (congrArg (· && _) h).trans (Bool.true_and _)

theorem keptJobs_of_none {args : PurgeArgs} (h : expired args .jobs = fun _ => false) (s : Db) :
    keptJobs args s = s := by
  have hany : ∀ t : Option Datetime, t.any (fun _ => false) = false := by
    intro t
    cases t <;> rfl
  unfold keptJobs
  simp only [h, hany, Bool.not_false, List.filter_true]

theorem keptGoals_of_none {args : PurgeArgs} (h : expired args .goals = fun _ => false) (s : GoalDb) :
    keptGoals args s = s := by
  unfold keptGoals
  simp only [h, Bool.not_false, List.filter_true]

theorem purgeExpired_jobs (args : PurgeArgs) (s : RetainedStores) :
    (purgeExpired args s).2.jobs = keptJobs args s.jobs := by
  have hloop := purgeLoop_store args .jobs (·.jobs) purgeJobs (fun _ _ => rfl)
    (by intro other hne; cases other <;> first | exact absurd rfl hne | exact fun _ _ => rfl)
    [] [.tasks, .goals, .reviews] (by simp) (by simp) s
  refine hloop.trans ?_
  split_ifs with hreach
  · have hexp : expired args .jobs = _ := expired_of_reached hreach
    cases hc : cutoffOf args .jobs with
    | error e =>
      rw [hc] at hexp
      exact (keptJobs_of_none hexp s.jobs).symm
    | ok c =>
      rw [hc] at hexp
      show purgeJobs c s.jobs = keptJobs args s.jobs
      unfold keptJobs purgeJobs
      rw [hexp]
      rfl
  · exact (keptJobs_of_none (expired_of_not_reached hreach) s.jobs).symm

theorem purgeExpired_goals (args : PurgeArgs) (s : RetainedStores) :
    (purgeExpired args s).2.goals = keptGoals args s.goals := by
  have hloop := purgeLoop_store args .goals (·.goals) purgeGoals (fun _ _ => rfl)
    (by intro other hne; cases other <;> first | exact absurd rfl hne | exact fun _ _ => rfl)
    [.jobs, .tasks] [.reviews] (by simp) (by simp) s
  refine hloop.trans ?_
  split_ifs with hreach
  · have hexp : expired args .goals = _ := expired_of_reached hreach
    cases hc : cutoffOf args .goals with
    | error e =>
      rw [hc] at hexp
      exact (keptGoals_of_none hexp s.goals).symm
    | ok c =>
      rw [hc] at hexp
      show purgeGoals c s.goals = keptGoals args s.goals
      unfold keptGoals purgeGoals
      simp only [hexp, Except.toOption, Option.any_some]
  · exact (keptGoals_of_none (expired_of_not_reached hreach) s.goals).symm

/-! ## The rows of one job -/

section

variable {α β : Type} (parents : List β) (rows : List α) (dropped : β → Bool) (gone : α → Bool)

/-- The rows that belong to a parent that is left are all left if and only if none of them is gone. -/
theorem whole_iff (belongs : β → α → Bool) :
    (∀ p ∈ parents.filter (!dropped ·), (rows.filter (!gone ·)).filter (belongs p) = rows.filter (belongs p)) ↔
      ∀ p ∈ parents, dropped p = false → ∀ r ∈ rows, belongs p r = true → gone r = false := by
  constructor
  · intro h p hp hdropped r hr hbelongs
    have hleft := h p (List.mem_filter.2 ⟨hp, by rw [hdropped]; rfl⟩)
    have hmem : r ∈ (rows.filter (!gone ·)).filter (belongs p) := by
      rw [hleft]
      exact List.mem_filter.2 ⟨hr, hbelongs⟩
    have hkept := (List.mem_filter.1 (List.mem_filter.1 hmem).1).2
    rwa [Bool.not_eq_true'] at hkept
  · intro h p hp
    obtain ⟨hp, hdropped⟩ := List.mem_filter.1 hp
    rw [Bool.not_eq_true'] at hdropped
    rw [List.filter_comm, List.filter_eq_self]
    intro r hr
    obtain ⟨hr, hbelongs⟩ := List.mem_filter.1 hr
    rw [h p hp hdropped r hr hbelongs]
    rfl

/-- The rows that are left have a parent that is left. -/
theorem owned_iff (belongs : β → α → Prop) :
    (∀ r ∈ rows.filter (!gone ·), ∃ p ∈ parents.filter (!dropped ·), belongs p r) ↔
      ∀ r ∈ rows, gone r = false → ∃ p ∈ parents, belongs p r ∧ dropped p = false := by
  constructor
  · intro h r hr hgone
    obtain ⟨p, hp, hbelongs⟩ := h r (List.mem_filter.2 ⟨hr, by rw [hgone]; rfl⟩)
    obtain ⟨hp, hdropped⟩ := List.mem_filter.1 hp
    rw [Bool.not_eq_true'] at hdropped
    exact ⟨p, hp, hbelongs, hdropped⟩
  · intro h r hr
    obtain ⟨hr, hgone⟩ := List.mem_filter.1 hr
    rw [Bool.not_eq_true'] at hgone
    obtain ⟨p, hp, hbelongs, hdropped⟩ := h r hr hgone
    exact ⟨p, List.mem_filter.2 ⟨hp, by rw [hdropped]; rfl⟩, hbelongs⟩

/-- The same for rows that are never purged. -/
theorem owned_iff_of_kept (belongs : β → α → Prop) :
    (∀ r ∈ rows, ∃ p ∈ parents.filter (!dropped ·), belongs p r) ↔
      ∀ r ∈ rows, ∃ p ∈ parents, belongs p r ∧ dropped p = false := by
  have hiff := owned_iff parents rows dropped (fun _ => false) belongs
  simpa only [Bool.not_false, List.filter_true, true_implies] using hiff

/-- Rows of a kind are all left if and only if none of them is gone. -/
theorem kept_iff (live : β → Prop) :
    (∀ p ∈ parents, live p → p ∈ parents.filter (!dropped ·)) ↔ ∀ p ∈ parents, live p → dropped p = false := by
  constructor
  · intro h p hp hlive
    have hkept := (List.mem_filter.1 (h p hp hlive)).2
    rwa [Bool.not_eq_true'] at hkept
  · intro h p hp hlive
    exact List.mem_filter.2 ⟨hp, by rw [h p hp hlive]; rfl⟩

end

/-! ## The reads -/

theorem joinKeys_congr {s s' : Db} {rows : List JobRow} (h : ∀ r ∈ rows, s'.keysOf r.jobId = s.keysOf r.jobId) :
    SqliteJobRepository.joinKeys s' rows = SqliteJobRepository.joinKeys s rows := by
  unfold SqliteJobRepository.joinKeys
  refine List.flatMap_congr ?_
  intro r hr
  rw [h r hr]

/-- A job that is left with its key is found as before. -/
theorem getJob_congr {s s' : Db} {jobId : Uuid}
    (hrows : s'.jobs.filter (·.jobId = jobId) = s.jobs.filter (·.jobId = jobId))
    (hkeys : s'.keysOf jobId = s.keysOf jobId) :
    SqliteJobRepository.getJob s' jobId = SqliteJobRepository.getJob s jobId := by
  have hjoin : SqliteJobRepository.joinKeys s' (s'.jobs.filter (·.jobId = jobId)) =
      SqliteJobRepository.joinKeys s (s.jobs.filter (·.jobId = jobId)) := by
    rw [hrows]
    refine joinKeys_congr ?_
    intro r hr
    have hid : r.jobId = jobId := of_decide_eq_true (List.mem_filter.1 hr).2
    rw [hid, hkeys]
  unfold SqliteJobRepository.getJob
  rw [hjoin]

theorem getResult_congr {s s' : Db} {jobId : Uuid} (h : s'.outputsOf jobId = s.outputsOf jobId) :
    SqliteJobRepository.getResult s' jobId = SqliteJobRepository.getResult s jobId := by
  unfold SqliteJobRepository.getResult
  rw [← List.head?_filter, ← List.head?_filter]
  exact congrArg (fun rows : List OutputRow => rows.head?.map (·.result)) h

section

variable {args : PurgeArgs} {s : RetainedStores}

/-- The row of a job that is left is all there is of it in `jobs`. -/
theorem jobRow_kept {j : JobRow} (hj : j ∈ (keptJobs args s.jobs).jobs) :
    (keptJobs args s.jobs).jobs.filter (·.jobId = j.jobId) = s.jobs.jobs.filter (·.jobId = j.jobId) := by
  have hleft := List.mem_filter.1 hj
  show (s.jobs.jobs.filter _).filter _ = _
  rw [List.filter_comm, List.filter_eq_self]
  intro r hr
  obtain ⟨hr, hid⟩ := List.mem_filter.1 hr
  have hrow : r = j := List.inj_on_of_nodup_map s.jobIds_nodup hr hleft.1 (of_decide_eq_true hid)
  rw [hrow]
  exact hleft.2

/-- The keys of the jobs that are left. -/
theorem keysOf_kept (h : AgesFit args s) : ∀ j ∈ (keptJobs args s.jobs).jobs,
    (keptJobs args s.jobs).keysOf j.jobId = s.jobs.keysOf j.jobId :=
  (whole_iff s.jobs.jobs s.jobs.idempotency (fun r => expired args .jobs r.updatedAt)
    (fun r => expired args .jobs r.createdAt) (fun j k => decide (k.jobId = j.jobId))).2
    fun j hj hage k hk hid => h.keys j hj hage k hk (of_decide_eq_true hid)

/-- `claim` has the same candidates: a queued job that is due is not expired. -/
theorem claimCandidates_kept (h : AgesFit args s) (now : Datetime) :
    SqliteJobRepository.claimCandidates (keptJobs args s.jobs) now =
      SqliteJobRepository.claimCandidates s.jobs now := by
  have hrows : ∀ due : JobRow → Bool, (∀ j, due j = true → j.status = .queued) →
      (keptJobs args s.jobs).jobs.filter due = s.jobs.jobs.filter due := by
    intro due hdue
    show (s.jobs.jobs.filter _).filter _ = _
    rw [List.filter_comm, List.filter_eq_self]
    intro j hj
    obtain ⟨hj, hqueued⟩ := List.mem_filter.1 hj
    rw [h.jobs j hj (.inl (hdue j hqueued))]
    rfl
  unfold SqliteJobRepository.claimCandidates
  rw [← hrows _ fun j hj => (of_decide_eq_true hj).1]
  refine congrArg (List.map (·.1)) (joinKeys_congr ?_)
  intro j hj
  exact keysOf_kept h j (List.mem_filter.1 hj).1

/-- Retention keeps live work, with no dangling records, exactly when the ages of the rows fit together. -/
theorem purgeExpired_keepsLiveWork_iff (args : PurgeArgs) (s : RetainedStores) :
    KeepsLiveWork s (purgeExpired args s).2 ↔ AgesFit args s := by
  have hjobs := purgeExpired_jobs args s
  have hgoals := purgeExpired_goals args s
  generalize (purgeExpired args s).2 = after at hjobs hgoals
  constructor
  · rintro ⟨hlive, hopen, hkeys, -, hruns, hresults, -, -, -, hattempts, htransitions, htasks, houtputs, houtbox,
      hprojects, hplanned, hevents⟩
    rw [hjobs] at hlive hkeys hruns hresults hattempts htransitions htasks houtputs houtbox
    rw [hgoals] at hopen hprojects hplanned hevents
    exact {
      jobs := (kept_iff _ _ _).1 hlive
      goals := (kept_iff _ _ _).1 hopen
      keys := fun j hj hage k hk hid =>
        (whole_iff _ _ _ _ fun (j : JobRow) (k : IdempotencyRow) => decide (k.jobId = j.jobId)).1 hkeys j hj hage k hk
          (decide_eq_true hid)
      runs := fun j hj hage a ha hid =>
        (whole_iff _ _ _ _ fun (j : JobRow) (a : AttemptRow) => decide (a.jobId = j.jobId)).1 hruns j hj hage a ha
          (decide_eq_true hid)
      results := fun j hj hage o ho hid =>
        (whole_iff _ _ _ _ fun (j : JobRow) (o : OutputRow) => decide (o.jobId = j.jobId)).1 hresults j hj hage o ho
          (decide_eq_true hid)
      attempts := (owned_iff _ _ _ _ _).1 hattempts
      transitions := (owned_iff _ _ _ _ _).1 htransitions
      tasks := (owned_iff_of_kept _ _ _ _).1 htasks
      outputs := (owned_iff _ _ _ _ _).1 houtputs
      outbox := (owned_iff_of_kept _ _ _ _).1 houtbox
      projects := (owned_iff_of_kept _ _ _ _).1 hprojects
      planned := (owned_iff_of_kept _ _ _ _).1 hplanned
      events := (owned_iff _ _ _ _ _).1 hevents }
  · intro h
    have hresults : ∀ j ∈ (keptJobs args s.jobs).jobs,
        (keptJobs args s.jobs).outputsOf j.jobId = s.jobs.outputsOf j.jobId :=
      (whole_iff _ _ _ _ fun (j : JobRow) (o : OutputRow) => decide (o.jobId = j.jobId)).2
        fun j hj hage o ho hid => h.results j hj hage o ho (of_decide_eq_true hid)
    have hruns : ∀ j ∈ (keptJobs args s.jobs).jobs,
        (keptJobs args s.jobs).attemptsOf j.jobId = s.jobs.attemptsOf j.jobId :=
      (whole_iff _ _ _ _ fun (j : JobRow) (a : AttemptRow) => decide (a.jobId = j.jobId)).2
        fun j hj hage a ha hid => h.runs j hj hage a ha (of_decide_eq_true hid)
    constructor
    case jobs => rw [hjobs]; exact (kept_iff _ _ _).2 h.jobs
    case goals => rw [hgoals]; exact (kept_iff _ _ _).2 h.goals
    case keys => rw [hjobs]; exact keysOf_kept h
    case inputs => rw [hjobs]; exact fun j _ => rfl
    case runs => rw [hjobs]; exact hruns
    case results => rw [hjobs]; exact hresults
    case found =>
      rw [hjobs]
      intro j hj
      exact getJob_congr (jobRow_kept hj) (keysOf_kept h j hj)
    case claimed => rw [hjobs]; exact claimCandidates_kept h
    case answers =>
      rw [hjobs]
      intro j hj
      exact getResult_congr (hresults j hj)
    case attempts => rw [hjobs]; exact (owned_iff _ _ _ _ _).2 h.attempts
    case transitions => rw [hjobs]; exact (owned_iff _ _ _ _ _).2 h.transitions
    case tasks => rw [hjobs]; exact (owned_iff_of_kept _ _ _ _).2 h.tasks
    case outputs => rw [hjobs]; exact (owned_iff _ _ _ _ _).2 h.outputs
    case outbox => rw [hjobs]; exact (owned_iff_of_kept _ _ _ _).2 h.outbox
    case projects => rw [hgoals]; exact (owned_iff_of_kept _ _ _ _).2 h.projects
    case planned => rw [hgoals]; exact (owned_iff_of_kept _ _ _ _).2 h.planned
    case events => rw [hgoals]; exact (owned_iff _ _ _ _ _).2 h.events

end

/-- A job that no worker has taken yet, enqueued at the first instant. -/
def waitingJob : RetainedStores where
  jobs := (SqliteJobRepository.enqueue 1 1 none "key" 0 none (.ofMicros 0) .empty).2
  goals := .empty
  jobIds_nodup := by decide +kernel

/-- The default periods, 91 days later. -/
def afterNinetyOneDays : PurgeArgs where
  days := fun _ => none
  hasStore := fun _ => true
  now := .ofMicros (91 * 86400 * 1000000)

/-- The queued job is deleted as any other row of its age. -/
theorem purgeExpired_waitingJob :
    ¬ KeepsLiveWork waitingJob (purgeExpired afterNinetyOneDays waitingJob).2 := by
  have hlost : ∃ j ∈ waitingJob.jobs.jobs, j.status = .queued ∧
      j ∉ (purgeExpired afterNinetyOneDays waitingJob).2.jobs.jobs := by decide +kernel
  obtain ⟨j, hj, hqueued, hlost⟩ := hlost
  intro h
  exact hlost (h.jobs j hj (.inl hqueued))

end Galaxz.SQLiteLifecycle
