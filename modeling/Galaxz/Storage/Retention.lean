import Galaxz.Goals.Store
import Galaxz.Jobs.Repository

/-!
# `core/storage/lifecycle.py`: `purge_expired`

Retention on the SQLite stores of jobs and goals. Every table is purged by its own timestamp; the texts of
the timestamps compare as the instants do. The connection does not enforce the foreign keys that the
schema of the jobs declares.
-/

namespace Galaxz

/-- The categories that have tables, in the order of `_TABLES`. -/
inductive RetentionCategory where
  | jobs
  | tasks
  | goals
  | reviews
deriving DecidableEq

/-- `_TABLES`. -/
def RetentionCategory.all : List RetentionCategory := [.jobs, .tasks, .goals, .reviews]

/-- `DEFAULT_RETENTION_DAYS`. -/
def RetentionCategory.defaultDays : RetentionCategory → ℕ
  | .jobs => 90
  | .tasks => 90
  | .goals => 365
  | .reviews => 365

/-- The arguments of `purge_expired` and the stores that the lifecycle has: the periods are day counts, and
a category without one has its default. -/
structure PurgeArgs where
  days : RetentionCategory → Option ℕ
  hasStore : RetentionCategory → Bool
  now : Datetime
  dryRun : Bool := false

/-- The stores of jobs and goals; `job_id` is the primary key of `jobs`. -/
structure RetainedStores where
  jobs : Db
  goals : GoalDb
  jobIds_nodup : (jobs.jobs.map (·.jobId)).Nodup

namespace SQLiteLifecycle

/-- `_cutoff`. -/
def cutoff (days : ℕ) (now : Datetime) : Except PyError Datetime :=
  if 999999999 < days then .error (.overflowError "days; must have magnitude <= 999999999")
  else now.add (-(days * 86400 * 1000000 : ℤ))

/-- The cutoff of a category. -/
def cutoffOf (args : PurgeArgs) (category : RetentionCategory) : Except PyError Datetime :=
  cutoff ((args.days category).getD category.defaultDays) args.now

/-- `DELETE .. WHERE timestamp IS NOT NULL AND timestamp < ?`, on the tables of the jobs. -/
def purgeJobs (c : Datetime) (s : Db) : Db :=
  { s with
    jobs := s.jobs.filter fun r => !(r.updatedAt < c : Bool)
    attempts := s.attempts.filter fun r => !r.endedAt.any (· < c)
    transitions := s.transitions.filter fun r => !(r.createdAt < c : Bool)
    idempotency := s.idempotency.filter fun r => !(r.createdAt < c : Bool)
    outputs := s.outputs.filter fun r => !(r.createdAt < c : Bool) }

/-- The same, on the tables of the goals. -/
def purgeGoals (c : Datetime) (s : GoalDb) : GoalDb :=
  { s with
    goals := s.goals.filter fun r => !(r.createdAt < c : Bool)
    events := s.events.filter fun r => !(r.createdAt < c : Bool)
    goalIds_nodup := s.goalIds_nodup.sublist (List.Sublist.map _ List.filter_sublist) }

/-- The tables of one category. -/
def purgeCategory (category : RetentionCategory) (c : Datetime) (s : RetainedStores) : RetainedStores :=
  match category with
  | .jobs =>
    { s with
      jobs := purgeJobs c s.jobs
      jobIds_nodup := s.jobIds_nodup.sublist (List.Sublist.map _ List.filter_sublist) }
  | .goals => { s with goals := purgeGoals c s.goals }
  | _ => s

/-- The loop of `purge_expired`, with what is committed when it raises. -/
def purgeLoop (args : PurgeArgs) : List RetentionCategory → RetainedStores →
    Except PyError Unit × RetainedStores
  | [], s => (.ok (), s)
  | category :: categories, s =>
    if args.hasStore category then
      match cutoffOf args category with
      | .error e => (.error e, s)
      | .ok c => purgeLoop args categories (if args.dryRun then s else purgeCategory category c s)
    else purgeLoop args categories s

/-- `purge_expired`, as far as the stores of jobs and goals are concerned. -/
def purgeExpired (args : PurgeArgs) (s : RetainedStores) : Except PyError Unit × RetainedStores :=
  purgeLoop args RetentionCategory.all s

/-! ## Live work -/

/-- Live work is there, what is left of a job is whole and read as before, and nothing is left without its
job or goal. -/
structure KeepsLiveWork (before after : RetainedStores) : Prop where
  jobs : ∀ j ∈ before.jobs.jobs, j.status = .queued ∨ j.status = .running → j ∈ after.jobs.jobs
  goals : ∀ g ∈ before.goals.goals, g.status ∉ [.complete, .failed, .cancelled] → g ∈ after.goals.goals
  keys : ∀ j ∈ after.jobs.jobs, after.jobs.keysOf j.jobId = before.jobs.keysOf j.jobId
  inputs : ∀ j ∈ after.jobs.jobs, after.jobs.tasksOf j.jobId = before.jobs.tasksOf j.jobId
  runs : ∀ j ∈ after.jobs.jobs, after.jobs.attemptsOf j.jobId = before.jobs.attemptsOf j.jobId
  results : ∀ j ∈ after.jobs.jobs, after.jobs.outputsOf j.jobId = before.jobs.outputsOf j.jobId
  found : ∀ j ∈ after.jobs.jobs,
    SqliteJobRepository.getJob after.jobs j.jobId = SqliteJobRepository.getJob before.jobs j.jobId
  claimed : ∀ now,
    SqliteJobRepository.claimCandidates after.jobs now = SqliteJobRepository.claimCandidates before.jobs now
  answers : ∀ j ∈ after.jobs.jobs,
    SqliteJobRepository.getResult after.jobs j.jobId = SqliteJobRepository.getResult before.jobs j.jobId
  attempts : ∀ a ∈ after.jobs.attempts, ∃ j ∈ after.jobs.jobs, j.jobId = a.jobId
  transitions : ∀ t ∈ after.jobs.transitions, ∃ j ∈ after.jobs.jobs, j.jobId = t.jobId
  tasks : ∀ t ∈ after.jobs.tasks, ∃ j ∈ after.jobs.jobs, j.jobId = t.jobId
  outputs : ∀ o ∈ after.jobs.outputs, ∃ j ∈ after.jobs.jobs, j.jobId = o.jobId
  outbox : ∀ o ∈ after.jobs.outbox, ∃ j ∈ after.jobs.jobs, j.jobId = o.jobId
  projects : ∀ p ∈ after.goals.projects, ∃ g ∈ after.goals.goals, g.goalId = p.goalId
  planned : ∀ t ∈ after.goals.tasks, ∃ g ∈ after.goals.goals, g.goalId = t.goalId
  events : ∀ e ∈ after.goals.events, ∃ g ∈ after.goals.goals, g.goalId = e.goalId

/-- The category is purged, and rows of this time are older than its cutoff. Nothing is purged in a dry
run, without the store, or when a cutoff up to this category is out of range. -/
def expired (args : PurgeArgs) (category : RetentionCategory) (t : Datetime) : Bool :=
  !args.dryRun && args.hasStore category &&
    (RetentionCategory.all.takeWhile (· ≠ category)).all
      (fun earlier => !args.hasStore earlier || !raised (cutoffOf args earlier)) &&
    (cutoffOf args category).toOption.any (t < ·)

/-- The ages of the rows fit together: no live job or goal is expired, nothing that belongs to a job which
is not expired is, and whatever is not expired or never purged belongs to a job or goal that is not. -/
structure AgesFit (args : PurgeArgs) (s : RetainedStores) : Prop where
  jobs : ∀ j ∈ s.jobs.jobs, j.status = .queued ∨ j.status = .running → expired args .jobs j.updatedAt = false
  goals : ∀ g ∈ s.goals.goals, g.status ∉ [.complete, .failed, .cancelled] → expired args .goals g.createdAt = false
  keys : ∀ j ∈ s.jobs.jobs, expired args .jobs j.updatedAt = false →
    ∀ k ∈ s.jobs.idempotency, k.jobId = j.jobId → expired args .jobs k.createdAt = false
  runs : ∀ j ∈ s.jobs.jobs, expired args .jobs j.updatedAt = false →
    ∀ a ∈ s.jobs.attempts, a.jobId = j.jobId → a.endedAt.any (expired args .jobs) = false
  results : ∀ j ∈ s.jobs.jobs, expired args .jobs j.updatedAt = false →
    ∀ o ∈ s.jobs.outputs, o.jobId = j.jobId → expired args .jobs o.createdAt = false
  attempts : ∀ a ∈ s.jobs.attempts, a.endedAt.any (expired args .jobs) = false →
    ∃ j ∈ s.jobs.jobs, j.jobId = a.jobId ∧ expired args .jobs j.updatedAt = false
  transitions : ∀ t ∈ s.jobs.transitions, expired args .jobs t.createdAt = false →
    ∃ j ∈ s.jobs.jobs, j.jobId = t.jobId ∧ expired args .jobs j.updatedAt = false
  tasks : ∀ t ∈ s.jobs.tasks, ∃ j ∈ s.jobs.jobs, j.jobId = t.jobId ∧ expired args .jobs j.updatedAt = false
  outputs : ∀ o ∈ s.jobs.outputs, expired args .jobs o.createdAt = false →
    ∃ j ∈ s.jobs.jobs, j.jobId = o.jobId ∧ expired args .jobs j.updatedAt = false
  outbox : ∀ o ∈ s.jobs.outbox, ∃ j ∈ s.jobs.jobs, j.jobId = o.jobId ∧ expired args .jobs j.updatedAt = false
  projects : ∀ p ∈ s.goals.projects, ∃ g ∈ s.goals.goals, g.goalId = p.goalId ∧
    expired args .goals g.createdAt = false
  planned : ∀ t ∈ s.goals.tasks, ∃ g ∈ s.goals.goals, g.goalId = t.goalId ∧
    expired args .goals g.createdAt = false
  events : ∀ e ∈ s.goals.events, expired args .goals e.createdAt = false →
    ∃ g ∈ s.goals.goals, g.goalId = e.goalId ∧ expired args .goals g.createdAt = false

end SQLiteLifecycle

end Galaxz
