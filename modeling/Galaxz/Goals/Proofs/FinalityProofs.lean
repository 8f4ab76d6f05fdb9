import Galaxz.Goals.Proofs.ConfinementProofs

/-!
# Proofs: finality of a cancelled goal

Once a cancellation is stored while no thread is past its check of the status, the threads stay guarded
and the goal stays cancelled: a request that comes later reads the status first and goes no further.
-/

namespace Galaxz

open DurableGoalCoordinator Prog

/-! ## Ownership and status across calls -/

theorem GoalDb.owns_iff {s : GoalDb} {goalId taskId : Uuid} :
    s.Owns goalId taskId ↔ ∃ r, s.task? taskId = some r ∧ r.goalId = goalId := by
  constructor
  · rintro ⟨r, hr, hg, ht⟩
    exact ⟨r, GoalDb.task?_eq_some.mpr ⟨hr, ht⟩, hg⟩
  · rintro ⟨r, hr, hg⟩
    obtain ⟨hmem, ht⟩ := GoalDb.task?_eq_some.mp hr
    exact ⟨r, hmem, hg, ht⟩

/-- A task belongs to one goal. -/
theorem GoalDb.owns_unique (s : GoalDb) (g g' taskId : Uuid) (h : s.Owns g taskId)
    (h' : s.Owns g' taskId) : g = g' := by
  obtain ⟨r, hr, hg⟩ := GoalDb.owns_iff.mp h
  obtain ⟨r', hr', hg'⟩ := GoalDb.owns_iff.mp h'
  rw [hr] at hr'
  cases hr'
  exact hg.symm.trans hg'

theorem GoalDb.cancelled_iff {s : GoalDb} {goalId : Uuid} :
    s.Cancelled goalId ↔ ∀ r, s.goal? goalId = some r → r.status = .cancelled := by
  constructor
  · intro h r hr
    obtain ⟨hmem, hg⟩ := GoalDb.goal?_eq_some.mp hr
    exact h r hmem hg
  · intro h r hmem hg
    exact h r (GoalDb.goal?_eq_some.mpr ⟨hmem, hg⟩)

namespace World

variable (host : Host)

/-- No call moves a task to another goal. -/
theorem exec_owns (call : StoreCall) (w : World) :
    (exec host call w).2.goals.Owns = w.goals.Owns := by
  funext g t
  rw [eq_iff_iff, GoalDb.owns_iff, GoalDb.owns_iff]
  rcases exec_task? host call w t with h | ⟨u, cells, -, -, h⟩
  · rw [h]
  · rw [h]
    constructor
    · rintro ⟨r, hr, hg⟩
      obtain ⟨r', hr', rfl⟩ := Option.map_eq_some_iff.mp hr
      exact ⟨r', hr', hg⟩
    · rintro ⟨r, hr, hg⟩
      exact ⟨cells.set r, by rw [hr]; rfl, hg⟩

/-- The tasks that a call returns for a goal are its own. -/
theorem exec_ownAnswers (call : StoreCall) (w : World) (a : call.Answer)
    (h : (exec host call w).1 = .ok a) : OwnAnswers w.goals.Owns call a := by
  cases call with
  | getTasks g =>
    intro t ht
    obtain ⟨r, hr, hg, -⟩ := getTasks_row h ht
    exact GoalDb.owns_iff.mpr ⟨r, hr, hg⟩
  | _ => trivial

/-- A goal that is stored as cancelled reads as cancelled. -/
theorem exec_cancelledAnswers {w : World} {goalId : Uuid} (hc : w.goals.Cancelled goalId)
    (call : StoreCall) (a : call.Answer) (h : (exec host call w).1 = .ok a) :
    CancelledAnswers w.goals.Owns goalId call a := by
  cases call with
  | getTasks g => exact exec_ownAnswers host (.getTasks g) w a h
  | getGoal g =>
    rintro rfl contract rfl
    simp only [exec, GoalStore.getGoal] at h
    split at h
    · cases h
    · next row hrow =>
      obtain ⟨goal, hgoal, h⟩ := (except_bind_ok_iff _ _ _).mp h
      cases h
      rw [GoalContract.validate_status hgoal]
      exact GoalDb.cancelled_iff.mp hc row hrow
  | _ => trivial

/-- A call that does not revive a cancelled goal leaves it cancelled. -/
theorem exec_cancelled {w : World} {goalId : Uuid} (hc : w.goals.Cancelled goalId) (call : StoreCall)
    (hcall : ¬ call.Revives w.goals.Owns goalId) :
    (exec host call w).2.goals.Cancelled goalId := by
  rw [GoalDb.cancelled_iff] at hc ⊢
  rcases exec_goal? host call w goalId with h | ⟨status, rfl, h⟩
  · rw [h]
    exact hc
  · have hstatus : status = .cancelled := by
      by_contra hne
      exact hcall ⟨rfl, hne⟩
    rw [h]
    intro r hr
    obtain ⟨r', -, rfl⟩ := Option.map_eq_some_iff.mp hr
    exact hstatus

/-- The call that stores the cancellation does. -/
theorem exec_setGoalStatus_cancelled (w : World) (goalId : Uuid) :
    (exec host (.setGoalStatus goalId .cancelled) w).2.goals.Cancelled goalId := by
  rw [GoalDb.cancelled_iff]
  intro r hr
  have h : (GoalStore.setGoalStatus goalId .cancelled w.goals).goal? goalId = some r := hr
  rw [GoalStore.setGoalStatus, GoalDb.goal?_updateGoal, if_pos rfl] at h
  obtain ⟨r', -, rfl⟩ := Option.map_eq_some_iff.mp h
  rfl

end World

/-! ## Requests -/

section Requests

variable {own : Uuid → Uuid → Prop} {goalId : Uuid} (c : DurableGoalCoordinator)

/-- Every call of the program leaves the goal alone, whatever its status reads as. -/
def Harmless (own : Uuid → Uuid → Prop) (goalId : Uuid) {α : Type} (p : Coord α) : Prop :=
  p.Always (OwnAnswers own) (fun call => ¬ call.Revives own goalId) fun _ => True

/-- Every call of the program leaves the goal alone as long as it reads as cancelled. -/
def HarmlessIfCancelled (own : Uuid → Uuid → Prop) (goalId : Uuid) {α : Type} (p : Coord α) : Prop :=
  p.Always (CancelledAnswers own goalId) (fun call => ¬ call.Revives own goalId) fun _ => True

theorem Harmless.ifCancelled {α : Type} {p : Coord α} (h : Harmless own goalId p) :
    HarmlessIfCancelled own goalId p := by
  refine Always.weaken h (fun call a ha => ?_) fun _ hC => hC
  cases call with
  | getTasks g => exact ha
  | _ => trivial

/-- A program within another goal is harmless. -/
theorem Confined.harmless (hown : ∀ g g' t, own g t → own g' t → g = g') {g : Uuid} (hne : g ≠ goalId)
    {α : Type} {p : Coord α} (h : Confined own g p) : Harmless own goalId p := by
  refine Always.weaken h (fun _ _ hV => hV) fun call hcall hrev => ?_
  cases call with
  | setGoalStatus g' status => exact hne (hcall.symm.trans hrev.1)
  | enqueue taskId task key => exact hne (hown _ _ _ hcall hrev)
  | updateTask taskId update => exact hne (hown _ _ _ (hcall hrev.1) hrev.2)
  | _ => exact hrev

theorem OnlyCancels.harmless {α : Type} {p : Coord α} (h : OnlyCancels p) :
    Harmless own goalId p := by
  refine Always.weaken h (fun _ _ _ => trivial) fun call hcall hrev => ?_
  cases call with
  | setGoalStatus g status => exact hrev.2 hcall
  | enqueue taskId task key => exact hcall
  | updateTask taskId update =>
    have hcancelled : update.status = .cancelled := hcall
    have hrunning : update.status = .running := hrev.1
    rw [hcancelled] at hrunning
    cases hrunning
  | _ => exact hrev

/-- A request that cancels the goal, or works on others, is harmless. -/
theorem Request.harmless (hown : ∀ g g' t, own g t → own g' t → g = g') {r : Request}
    (h : r.Cancels goalId ∨ ¬ r.Concerns goalId) : Harmless own goalId (r.program c) := by
  cases r with
  | reconcile g => exact (confined_reconcile c).harmless hown (h.resolve_left id)
  | reconcileAll => exact absurd trivial (h.resolve_left id)
  | start g actor => exact (confined_start c actor).harmless hown (h.resolve_left id)
  | pause g actor reason => exact (confined_pause actor reason).harmless hown (h.resolve_left id)
  | cancel g actor reason => exact (onlyCancels_cancel g actor reason).harmless
  | rerun g taskId actor reason =>
    exact (confined_rerun taskId actor reason).harmless hown (h.resolve_left id)
  | review queueTaskId g approved item =>
    have hg : ¬ Uuid.parse g = .ok goalId := h.resolve_left id
    show Harmless own goalId (c.resumeGoalFromReview queueTaskId g approved item)
    unfold resumeGoalFromReview
    split
    · trivial
    · next g' hparse =>
      have hne : g' ≠ goalId := fun e => hg (by rw [hparse, e])
      exact (confined_resumeGoal c queueTaskId approved item).harmless hown hne

theorem harmless_reconcile_of_cancelled : HarmlessIfCancelled own goalId (c.reconcile goalId) := by
  refine Always.call (fun hrev => hrev) fun goal hgoal => ?_
  split
  · trivial
  · next contract =>
    have hstatus : contract.status = .cancelled := hgoal rfl contract rfl
    rw [if_pos (by rw [hstatus]; simp)]
    trivial

theorem harmless_start_of_cancelled (actor : String) :
    HarmlessIfCancelled own goalId (c.start goalId actor) := by
  refine Always.call (fun hrev => hrev) fun goal hgoal => ?_
  split
  · trivial
  · next contract =>
    have hstatus : contract.status = .cancelled := hgoal rfl contract rfl
    rw [if_neg (by rw [hstatus]; simp)]
    trivial

theorem harmless_pause_of_cancelled (actor : String) (reason : Option String) :
    HarmlessIfCancelled own goalId (DurableGoalCoordinator.pause goalId actor reason) := by
  refine Always.call (fun hrev => hrev) fun goal hgoal => ?_
  split
  · trivial
  · next contract =>
    have hstatus : contract.status = .cancelled := hgoal rfl contract rfl
    rw [if_neg (by rw [hstatus]; simp), if_pos (by rw [hstatus]; simp)]
    trivial

theorem harmless_approval_of_cancelled (queueTaskId : String) (item : Option ReviewItem) :
    HarmlessIfCancelled own goalId (c.resumeGoal queueTaskId goalId true item) := by
  refine Always.call (fun hrev => hrev) fun goal _ => ?_
  split_ifs with _ _ happroved
  · trivial
  · exact harmless_start_of_cancelled c "review"
  · exact absurd rfl happroved
  · split
    · trivial
    · unfold resumeTask
      rw [if_pos rfl]
      refine Always.call (fun hrev => ?_) fun _ _ => harmless_start_of_cancelled c "review"
      exact absurd hrev.1 (by simp)

theorem harmless_reconcileEach (hown : ∀ g g' t, own g t → own g' t → g = g')
    (goals : List GoalContract) : HarmlessIfCancelled own goalId (c.reconcileEach goals) := by
  induction goals with
  | nil => trivial
  | cons goal goals ih =>
    rw [reconcileEach]
    split_ifs
    · refine Always.bind (Q := fun _ => True) ?_ fun _ _ => ih
      by_cases hg : goal.goalId = goalId
      · rw [hg]
        exact harmless_reconcile_of_cancelled c
      · exact ((confined_reconcile c).harmless hown hg).ifCancelled
    · exact ih

/-- A request that asks for the status is harmless once the goal is cancelled. -/
theorem Request.harmlessIfCancelled (hown : ∀ g g' t, own g t → own g' t → g = g') {r : Request}
    (h : ¬ r.Unchecked goalId) : HarmlessIfCancelled own goalId (r.program c) := by
  by_cases hr : r.Cancels goalId ∨ ¬ r.Concerns goalId
  · exact (r.harmless c hown hr).ifCancelled
  · obtain ⟨hcancels, hconcerns⟩ := not_or.mp hr
    rw [not_not] at hconcerns
    cases r with
    | reconcile g =>
      cases hconcerns
      exact harmless_reconcile_of_cancelled c
    | reconcileAll =>
      exact Always.call (fun hrev => hrev) fun goals _ => harmless_reconcileEach c hown goals
    | start g actor =>
      cases hconcerns
      exact harmless_start_of_cancelled c actor
    | pause g actor reason =>
      cases hconcerns
      exact harmless_pause_of_cancelled actor reason
    | cancel g actor reason => exact absurd hconcerns hcancels
    | rerun g taskId actor reason => exact absurd hconcerns h
    | review queueTaskId g approved item =>
      have hparse : Uuid.parse g = .ok goalId := hconcerns
      have happroved : approved = true := by
        by_contra hne
        exact h ⟨hparse, Bool.eq_false_iff.mpr hne⟩
      show HarmlessIfCancelled own goalId (c.resumeGoalFromReview queueTaskId g approved item)
      rw [resumeGoalFromReview, hparse, happroved]
      exact harmless_approval_of_cancelled c queueTaskId item

end Requests

/-! ## Runs -/

namespace Service

variable (c : DurableGoalCoordinator) (host : Host) (goalId : Uuid)

/-- Every thread that cancels the goal or works on others is harmless. -/
def Orderly (s : Service) : Prop :=
  ∀ t ∈ s.threads, t.request.Cancels goalId ∨ ¬ t.request.Concerns goalId →
    Harmless s.world.goals.Owns goalId t.rest

/-- The goal is cancelled and every thread is guarded. -/
structure AllGuarded (s : Service) : Prop where
  cancelled : s.world.goals.Cancelled goalId
  threads : ∀ t ∈ s.threads, t.Guarded s.world.goals.Owns goalId

variable {goalId}

/-- The threads after one of them advanced: it has made its call, the others are as they were. -/
theorem advance_threads {i : ℕ} {s : Service} {t : Thread} (hi : s.threads[i]? = some t) :
    s.advance host i = ⟨(t.rest.advance (World.exec host) s.world).2,
      s.threads.set i { t with rest := (t.rest.advance (World.exec host) s.world).1 }⟩ := by
  unfold Service.advance
  rw [hi]

/-- A thread after a turn is one from before, or the one that made its call. -/
theorem mem_advance_threads {i : ℕ} {s : Service} {t : Thread} (ht : t ∈ (s.advance host i).threads) :
    t ∈ s.threads ∨ ∃ u ∈ s.threads, t.request = u.request ∧
      t.rest = (u.rest.advance (World.exec host) s.world).1 := by
  rcases hi : s.threads[i]? with _ | u
  · rw [Service.advance, hi] at ht
    exact Or.inl ht
  · rw [advance_threads host hi] at ht
    rcases List.mem_or_eq_of_mem_set ht with ht | rfl
    · exact Or.inl ht
    · exact Or.inr ⟨u, List.mem_of_getElem? hi, rfl, rfl⟩

theorem advance_owns (i : ℕ) (s : Service) :
    (s.advance host i).world.goals.Owns = s.world.goals.Owns := by
  unfold Service.advance
  split
  · rfl
  · next t _ =>
    rcases advance_state (World.exec host) t.rest s.world with h | ⟨call, -, h⟩
    · simp only [h]
    · simp only [h]
      exact World.exec_owns host call s.world

theorem step_owns (a : Action) (s : Service) : (step c host a s).world.goals.Owns = s.world.goals.Owns := by
  cases a with
  | arrive r => rfl
  | advance i => exact advance_owns host i s
  | work call => rfl

theorem step_orderly (a : Action) (s : Service) (h : s.Orderly goalId) :
    (step c host a s).Orderly goalId := by
  unfold Orderly
  rw [step_owns]
  cases a with
  | arrive r =>
    intro t ht hreq
    rcases List.mem_append.mp ht with ht | ht
    · exact h t ht hreq
    · cases List.mem_singleton.mp ht
      exact r.harmless c s.world.goals.owns_unique hreq
  | work call => exact h
  | advance i =>
    intro t ht hreq
    rcases mem_advance_threads host ht with ht | ⟨u, hu, hsame, hrest⟩
    · exact h t ht hreq
    · rw [hsame] at hreq
      rw [hrest]
      exact (h u hu hreq).advance fun call a ha => World.exec_ownAnswers host call s.world a ha

theorem run_orderly (w : World) (actions : List Action) :
    (Machine.run (step c host) actions (idle w)).Orderly goalId := by
  refine Machine.run_invariant (fun a s hs => step_orderly c host a s hs) actions (idle w) ?_
  intro t ht
  cases ht

/-- The call that stores the cancellation, made while no thread is past its check, leaves every thread
guarded. -/
theorem allGuarded_of_storesCancelled {a : Action} {s : Service} (ho : s.Orderly goalId)
    (ha : StoresCancelled goalId a s) (hcheck : s.NonePastCheck goalId) :
    (step c host a s).AllGuarded goalId := by
  have hguarded : ∀ t ∈ s.threads, t.Guarded s.world.goals.Owns goalId := by
    intro t ht
    by_cases hreq : t.request.Cancels goalId ∨ ¬ t.request.Concerns goalId
    · exact (ho t ht hreq).ifCancelled
    · obtain ⟨hcancels, hconcerns⟩ := not_or.mp hreq
      exact hcheck t ht (not_not.mp hconcerns) hcancels
  obtain ⟨i, t, rfl, hi, hcancels, hnext⟩ := ha
  have hworld : (t.rest.advance (World.exec host) s.world).2 =
      (World.exec host (.setGoalStatus goalId .cancelled) s.world).2 := by
    cases hrest : t.rest with
    | pure a => rw [hrest] at hnext; cases hnext
    | raise e => rw [hrest] at hnext; cases hnext
    | call op k =>
      rw [hrest] at hnext
      cases hnext
      rfl
  constructor
  · rw [step, advance_threads host hi]
    show (t.rest.advance (World.exec host) s.world).2.goals.Cancelled goalId
    rw [hworld]
    exact World.exec_setGoalStatus_cancelled host s.world goalId
  · rw [step_owns]
    intro u hu
    rw [step, advance_threads host hi] at hu
    rcases List.mem_or_eq_of_mem_set hu with hu | rfl
    · exact hguarded u hu
    · -- the cancellation itself is harmless whatever it is answered
      have hself := ho t (List.mem_of_getElem? hi) (Or.inl hcancels)
      have hself' : Harmless s.world.goals.Owns goalId (t.rest.advance (World.exec host) s.world).1 :=
        hself.advance fun call a ha => World.exec_ownAnswers host call s.world a ha
      exact hself'.ifCancelled

/-- While every thread is guarded, an action keeps the goal cancelled and the threads guarded. -/
theorem AllGuarded.step {a : Action} {s : Service} (h : s.AllGuarded goalId)
    (ha : ∀ r, a = .arrive r → ¬ r.Unchecked goalId) : (Service.step c host a s).AllGuarded goalId := by
  cases a with
  | arrive r =>
    refine ⟨h.cancelled, fun t ht => ?_⟩
    rcases List.mem_append.mp ht with ht | ht
    · exact h.threads t ht
    · cases List.mem_singleton.mp ht
      exact r.harmlessIfCancelled c s.world.goals.owns_unique (ha r rfl)
  | work call => exact ⟨h.cancelled, h.threads⟩
  | advance i =>
    rcases hi : s.threads[i]? with _ | t
    · have hsame : Service.step c host (.advance i) s = s := by
        rw [Service.step, Service.advance, hi]
      rw [hsame]
      exact h
    · have ht := h.threads t (List.mem_of_getElem? hi)
      constructor
      · rw [Service.step, advance_threads host hi]
        show (t.rest.advance (World.exec host) s.world).2.goals.Cancelled goalId
        rcases advance_state (World.exec host) t.rest s.world with hw | ⟨call, hcall, hw⟩
        · rw [hw]
          exact h.cancelled
        · rw [hw]
          exact World.exec_cancelled host h.cancelled call (Always.next ht hcall)
      · rw [step_owns]
        intro u hu
        rcases mem_advance_threads host hu with hu | ⟨v, hv, -, hrest⟩
        · exact h.threads u hu
        · unfold Thread.Guarded
          rw [hrest]
          exact Always.advance (h.threads v hv) fun call a ha =>
            World.exec_cancelledAnswers host h.cancelled call a ha

theorem AllGuarded.final {s : Service} (h : s.AllGuarded goalId) (a : Action) : s.Final goalId a := by
  refine ⟨h.cancelled, fun call hcall => ?_⟩
  cases a with
  | arrive r => cases hcall
  | work call => cases hcall
  | advance i =>
    obtain ⟨t, ht, hnext⟩ := Option.bind_eq_some_iff.mp hcall
    exact Always.next (h.threads t (List.mem_of_getElem? ht)) hnext

/-- From the moment every thread is guarded, every run without unchecked requests keeps the
cancellation. -/
theorem AllGuarded.run {s : Service} (h : s.AllGuarded goalId) (actions : List Action)
    (hactions : ∀ r, .arrive r ∈ actions → ¬ r.Unchecked goalId) :
    Machine.Along (Service.step c host) (fun a s => s.Final goalId a) actions s ∧
      (Machine.run (Service.step c host) actions s).world.goals.Cancelled goalId := by
  induction actions generalizing s with
  | nil => exact ⟨trivial, h.cancelled⟩
  | cons a actions ih =>
    have hnext : (Service.step c host a s).AllGuarded goalId :=
      h.step c host fun r hr => hactions r (by rw [hr]; exact List.mem_cons_self)
    obtain ⟨halong, hend⟩ := ih hnext fun r hr => hactions r (List.mem_cons_of_mem _ hr)
    exact ⟨⟨h.final a, halong⟩, hend⟩

/-- A cancellation is final in every run in which it is stored while no thread on the goal is past its
check of the status, and in which no unchecked request on the goal comes after it. -/
theorem run_cancel_final (w : World) (before after : List Action) (a : Action) (goalId : Uuid)
    (hstores : StoresCancelled goalId a (Machine.run (Service.step c host) before (idle w)))
    (hcheck : (Machine.run (Service.step c host) before (idle w)).NonePastCheck goalId)
    (hafter : ∀ r, .arrive r ∈ after → ¬ r.Unchecked goalId) :
    Machine.Along (Service.step c host) (fun b s => s.Final goalId b) after
        (Service.step c host a (Machine.run (Service.step c host) before (idle w))) ∧
      (Machine.run (Service.step c host) (before ++ a :: after) (idle w)).world.goals.Cancelled
        goalId := by
  have hguarded := allGuarded_of_storesCancelled c host (run_orderly c host w before) hstores hcheck
  rw [Machine.run_append, Machine.run_cons]
  exact hguarded.run c host after hafter

/-! ### A cancellation that is final, and one that is overtaken -/

/-- A thread by its request and its next call. -/
theorem storesCancelled_of {goalId : Uuid} {i : ℕ} {s : Service} (actor : String)
    (reason : Option String) (h : (s.threads[i]?.map fun t => (t.request, t.rest.next)) =
      some (.cancel goalId actor reason, some (.setGoalStatus goalId .cancelled))) :
    StoresCancelled goalId (.advance i) s := by
  obtain ⟨t, ht, hpair⟩ := Option.map_eq_some_iff.mp h
  obtain ⟨hrequest, hnext⟩ := Prod.mk.inj hpair
  refine ⟨i, t, rfl, ht, ?_, hnext⟩
  rw [hrequest]
  rfl

/-- The conversions of a host on which no text is a number. -/
def plainHost : Host := ⟨fun _ => none, fun _ => "", fun _ => none⟩

/-- The limits of the default configuration. -/
def defaultLimits : DurableGoalCoordinator := ⟨4, 32⟩

/-- The steps of the service with the default configuration. -/
def demoStep : Action → Service → Service := Service.step defaultLimits plainHost

/-- `cancel` in thread `i`, up to the call that stores the status. -/
def cancelSteps (i : ℕ) : List Action :=
  .arrive (.cancel 1 "api" none) :: List.replicate 4 (.advance i)

/-- `start` in thread 0, up to the call that enqueues the first task. -/
def startSteps : List Action := .arrive (.start 1 "api") :: List.replicate 8 (.advance 0)

/-- The planned goal is cancelled while a `reconcile` that has not begun waits; the `reconcile` and a
`start` then run. -/
theorem cancel_final_before_reconcile :
    StoresCancelled 1 (.advance 0)
        (Machine.run demoStep (cancelSteps 0 ++ [.arrive (.reconcile 1)]) (idle chainWorld)) ∧
      Machine.Along demoStep (fun b s => s.Final 1 b)
        [.advance 1, .arrive (.start 1 "api"), .advance 2]
        (demoStep (.advance 0)
          (Machine.run demoStep (cancelSteps 0 ++ [.arrive (.reconcile 1)]) (idle chainWorld))) := by
  have hstores : StoresCancelled 1 (.advance 0)
      (Machine.run demoStep (cancelSteps 0 ++ [.arrive (.reconcile 1)]) (idle chainWorld)) :=
    storesCancelled_of "api" none (by decide +kernel)
  refine ⟨hstores, (run_cancel_final defaultLimits plainHost chainWorld _ _ _ 1 hstores ?_ ?_).1⟩
  · rw [Machine.run_concat]
    have hrequests : (Machine.run (Service.step defaultLimits plainHost) (cancelSteps 0)
        (idle chainWorld)).threads.map (·.request) = [.cancel 1 "api" none] := by decide +kernel
    intro t ht hconcerns hcancels
    rcases List.mem_append.mp ht with ht | ht
    · have hmem := List.mem_map_of_mem (f := (·.request)) ht
      rw [hrequests, List.mem_singleton] at hmem
      rw [hmem] at hcancels
      exact absurd rfl hcancels
    · cases List.mem_singleton.mp ht
      exact harmless_reconcile_of_cancelled defaultLimits
  · intro r hr
    simp only [List.mem_cons, Action.arrive.injEq, reduceCtorEq, List.not_mem_nil, or_false,
      false_or] at hr
    rw [hr]
    exact id

/-- The task that a call enqueues a job for. -/
def enqueuedTask : StoreCall → Option Uuid
  | .enqueue taskId _ _ => some taskId
  | _ => none

theorem revives_of_enqueuedTask {own : Uuid → Uuid → Prop} {goalId taskId : Uuid} {call : StoreCall}
    (h : enqueuedTask call = some taskId) (hown : own goalId taskId) : call.Revives own goalId := by
  cases call with
  | enqueue t task key =>
    cases h
    exact hown
  | _ => cases h

/-- A `start` that read the status before the cancellation goes on to enqueue a job after it. -/
theorem cancel_overtaken_by_start :
    StoresCancelled 1 (.advance 1)
        (Machine.run demoStep (startSteps ++ cancelSteps 1) (idle chainWorld)) ∧
      ¬ Machine.Along demoStep (fun b s => s.Final 1 b) [.advance 0]
        (demoStep (.advance 1)
          (Machine.run demoStep (startSteps ++ cancelSteps 1) (idle chainWorld))) := by
  refine ⟨storesCancelled_of "api" none (by decide +kernel), fun halong => ?_⟩
  have hcall : ((demoStep (.advance 1) (Machine.run demoStep (startSteps ++ cancelSteps 1)
      (idle chainWorld))).callOf (.advance 0)).bind enqueuedTask = some 2 := by decide +kernel
  obtain ⟨call, hcall, htask⟩ := Option.bind_eq_some_iff.mp hcall
  exact halong.1.2 call hcall (revives_of_enqueuedTask htask (by decide +kernel))

end Service

end Galaxz
