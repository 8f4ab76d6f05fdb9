import Galaxz.Goals.Proofs.GuaranteeProofs
import Mathlib.Data.Fintype.EquivFin

/-!
# Proofs: order and blocking

A job is enqueued when the dependencies of its task are complete, and a task is blocked by a failure
that is still there, as long as reruns respect the plan.
-/

namespace Galaxz

open DurableGoalCoordinator GoalStore Relation

variable {c : DurableGoalCoordinator} {host : Host} {w start : World} {call : StoreCall}
  {goalId g : Uuid}

/-! ## Order -/

theorem taskIs_of_map {s : GoalDb} {taskId : Uuid} {status : PlannedTaskStatus}
    (h : (s.task? taskId).map (fun r => (r.goalId, r.status)) = some (g, status)) :
    s.TaskIs g taskId status := by
  obtain ⟨r, hr, hfields⟩ := Option.map_eq_some_iff.mp h
  exact ⟨r, hr, (Prod.mk.inj hfields).1, (Prod.mk.inj hfields).2⟩

theorem enqueuesReady_of_none (h : call.enqueued = none) : EnqueuesReady call w := by
  intro taskId he
  rw [h] at he
  cases he

theorem StoreCall.IsRead.enqueued (h : call.IsRead) : call.enqueued = none := by
  cases call with
  | enqueue t task k => cases h
  | _ => rfl

theorem ReconcileMove.enqueuesReady (h : ReconcileMove c goalId call w) : EnqueuesReady call w := by
  cases h with
  | read hread => exact enqueuesReady_of_none hread.enqueued
  | enqueue hrow hgoal hstatus hready hslot =>
    intro t e r hr
    cases e
    rw [hrow] at hr
    cases hr
    exact hgoal.symm ▸ hready
  | _ => exact enqueuesReady_of_none rfl

theorem RerunMove.enqueuesReady {taskId : Uuid} (h : RerunMove host start goalId taskId call w)
    (hready : ∀ r, Rerunnable goalId taskId start r → Resolves host goalId taskId start →
      start.goals.DependenciesComplete goalId r) : EnqueuesReady call w := by
  cases h with
  | read hread => exact enqueuesReady_of_none hread.enqueued
  | @enqueue r contract k hrow hpayload =>
    intro t e r' hr'
    cases e
    have hcomplete := hready r hrow hpayload
    obtain ⟨hrow, hgoal, -⟩ := hrow
    rw [hrow] at hr'
    cases hr'
    exact hgoal.symm ▸ hcomplete
  | _ => exact enqueuesReady_of_none rfl

theorem CancelMove.enqueuesReady (h : CancelMove goalId call w) : EnqueuesReady call w := by
  cases h with
  | read hread => exact enqueuesReady_of_none hread.enqueued
  | _ => exact enqueuesReady_of_none rfl

theorem Turn.RerunsReady.not_isReview {r : Request} (h : Turn.RerunsReady host (.request r) w) :
    r.isReview = false := by
  cases r with
  | rerun g t actor reason => rfl
  | _ => exact h

theorem Move.enqueuesReady {r : Request} (h : Move c host start r call w)
    (hturn : Turn.RerunsReady host (.request r) start) : EnqueuesReady call w := by
  cases h with
  | reconcile h => exact h.enqueuesReady
  | reconcileAll h => exact h.enqueuesReady
  | startReconcile h => exact h.enqueuesReady
  | cancel h => exact h.enqueuesReady
  | rerun h => exact h.enqueuesReady hturn
  | paused h =>
    rcases h with h | rfl
    · exact enqueuesReady_of_none h.enqueued
    · exact enqueuesReady_of_none rfl
  | _ => exact enqueuesReady_of_none rfl

/-- In every run in which tasks are rerun only while their dependencies are complete, every job is
enqueued for a task whose dependencies are complete. -/
theorem run_enqueuesReady (c : DurableGoalCoordinator) (host : Host) (w : World) (turns : List Turn)
    (hturns : Machine.Along (World.step c host) (Turn.RerunsReady host) turns w) :
    Machine.Along (World.step c host) (fun turn w => ∀ x ∈ World.calls c host turn w,
      EnqueuesReady x.1 x.2) turns w := by
  refine hturns.mono fun turn w hturn => ?_
  cases turn with
  | work call => intro x hx; cases hx
  | request r =>
    intro x hx
    exact (request_moves c r hturn.not_isReview w x hx).enqueuesReady hturn

/-- Both tasks of the chain are completed, one after the other. -/
def chainCompleted : List Turn :=
  firstCompleted ++ workerCompletes 102 300 goodResult ++ [.request (.reconcile 1)]

/-- The second task is run again. -/
def rerunSecond : Turn := .request (.rerun 1 3 "api" none)

theorem chainCompleted_rerunsReady :
    ∀ turn ∈ chainCompleted, ∀ w, Turn.RerunsReady Service.plainHost turn w := by
  simp [chainCompleted, firstCompleted, workerCompletes, Turn.RerunsReady, Request.isReview]

/-- In the completed chain the second task may be run again, and every call respects the order. -/
theorem chainCompleted_enqueuesReady :
    Machine.Along demoTurn (Turn.RerunsReady Service.plainHost) (chainCompleted ++ [rerunSecond])
        chainWorld ∧
      Machine.Along demoTurn (fun turn w => ∀ x ∈ demoCalls turn w, EnqueuesReady x.1 x.2)
        (chainCompleted ++ [rerunSecond]) chainWorld := by
  have hrows : (fun s : GoalDb => ((s.task? 3).map (·.dependsOn),
        (s.task? 2).map (fun r => (r.goalId, r.status))))
      (Machine.run demoTurn chainCompleted chainWorld).goals = (some [2], some (1, .complete)) := by
    decide +kernel
  obtain ⟨hsecond, hfirst⟩ := Prod.mk.inj hrows
  have hready : Turn.RerunsReady Service.plainHost rerunSecond
      (Machine.run demoTurn chainCompleted chainWorld) := by
    rintro r ⟨hr, -⟩ - dep hdep
    rw [hr] at hsecond
    have hdeps : r.dependsOn = [2] := Option.some.inj hsecond
    rw [hdeps, List.mem_singleton] at hdep
    subst hdep
    exact taskIs_of_map hfirst
  have hturns : Machine.Along demoTurn (Turn.RerunsReady Service.plainHost)
      (chainCompleted ++ [rerunSecond]) chainWorld :=
    Machine.Along.append (Machine.Along.of_forall chainCompleted_rerunsReady _) ⟨hready, trivial⟩
  exact ⟨hturns, run_enqueuesReady _ _ _ _ hturns⟩

/-- The chain is completed and its first task run again. -/
def firstRerun : List Turn := chainCompleted ++ [.request (.rerun 1 2 "api" none)]

/-- While the first task runs again the rerun of the second one is enqueued. -/
theorem rerun_before_dependency :
    ¬ Machine.Along demoTurn (fun turn w => ∀ x ∈ demoCalls turn w, EnqueuesReady x.1 x.2)
      (firstRerun ++ [rerunSecond]) chainWorld := by
  intro halong
  have hfound : ((demoCalls rerunSecond (Machine.run demoTurn firstRerun chainWorld)).find?
      fun x => x.1.enqueued = some 3).map (fun x => ((x.2.goals.task? 3).map (·.dependsOn),
        (x.2.goals.task? 2).map (·.status))) = some (some [2], some .running) := by decide +kernel
  obtain ⟨x, hx, hrows⟩ := Option.map_eq_some_iff.mp hfound
  obtain ⟨hsecond, hfirst⟩ := Prod.mk.inj hrows
  obtain ⟨r, hr, hdeps⟩ := Option.map_eq_some_iff.mp hsecond
  have hready := halong.of_append.1 x (List.mem_of_find?_eq_some hx) 3
    (by simpa using List.find?_some hx) r hr
  obtain ⟨d, hd, -, hcomplete⟩ := hready 2 (hdeps ▸ List.mem_singleton_self 2)
  rw [hd] at hfirst
  have hrunning : d.status = .running := Option.some.inj hfirst
  rw [hcomplete] at hrunning
  cases hrunning

/-! ## Blocking -/

/-- The task belongs to the same goal and depends on the same tasks in both databases. -/
def SamePlan (s s' : GoalDb) : Prop :=
  ∀ x, (s'.task? x).map (fun r => (r.goalId, r.dependsOn)) =
    (s.task? x).map fun r => (r.goalId, r.dependsOn)

theorem World.exec_samePlan (host : Host) (call : StoreCall) (w : World) :
    SamePlan w.goals (World.exec host call w).2.goals := by
  intro x
  rcases World.exec_task? host call w x with hsame | ⟨update, cells, -, -, hset⟩
  · rw [hsame]
  · rw [hset, Option.map_map]
    rfl

theorem SamePlan.row {s s' : GoalDb} (h : SamePlan s s') {x : Uuid} {r : PlannedTaskRow}
    (hr : s.task? x = some r) :
    ∃ r', s'.task? x = some r' ∧ r'.goalId = r.goalId ∧ r'.dependsOn = r.dependsOn := by
  have hx := h x
  rw [hr] at hx
  obtain ⟨r', hr', hfields⟩ := Option.map_eq_some_iff.mp hx
  exact ⟨r', hr', (Prod.mk.inj hfields).1, (Prod.mk.inj hfields).2⟩

theorem SamePlan.symm {s s' : GoalDb} (h : SamePlan s s') : SamePlan s' s := fun x => (h x).symm

theorem SamePlan.dependsOn_le {s s' : GoalDb} (h : SamePlan s s') {a b : Uuid}
    (hab : s.DependsOn g a b) : s'.DependsOn g a b := by
  obtain ⟨r, hr, hg, hb⟩ := hab
  obtain ⟨r', hr', hgoal, hdeps⟩ := h.row hr
  exact ⟨r', hr', hgoal.trans hg, hdeps ▸ hb⟩

theorem SamePlan.dependsOn {s s' : GoalDb} (h : SamePlan s s') :
    s'.DependsOn g = s.DependsOn g := by
  funext a b
  exact propext ⟨h.symm.dependsOn_le, h.dependsOn_le⟩

theorem SamePlan.planOrdered {s s' : GoalDb} (h : SamePlan s s') (hs : s.PlanOrdered g) :
    s'.PlanOrdered g := by
  refine ⟨fun a b hab => ?_, ?_⟩
  · obtain ⟨r, hr, hg⟩ := hs.closed a b (h.symm.dependsOn_le hab)
    obtain ⟨r', hr', hgoal, -⟩ := h.row hr
    exact ⟨r', hr', hgoal.trans hg⟩
  · rw [h.dependsOn]
    exact hs.acyclic

/-- The status of a task after a call is the one it had, or the one that the call stored. -/
theorem taskIs_exec {t : Uuid} {status : PlannedTaskStatus}
    (h : (World.exec host call w).2.goals.TaskIs g t status) :
    w.goals.TaskIs g t status ∨ ∃ u, call = .updateTask t u ∧ u.status = status := by
  obtain ⟨r, hr, hg, hstatus⟩ := h
  rcases World.exec_task? host call w t with hsame | ⟨u, cells, hcall, hcells, hset⟩
  · exact Or.inl ⟨r, hsame ▸ hr, hg, hstatus⟩
  · refine Or.inr ⟨u, hcall, ?_⟩
    rw [hset] at hr
    obtain ⟨r₀, -, rfl⟩ := Option.map_eq_some_iff.mp hr
    exact (World.cells_status host hcells).symm.trans hstatus

/-- A task keeps its status, or the call updates it. -/
theorem exec_taskIs (host : Host) (call : StoreCall) {t : Uuid} {status : PlannedTaskStatus} (h : w.goals.TaskIs g t status) :
    (World.exec host call w).2.goals.TaskIs g t status ∨
      ∃ u, call = .updateTask t u ∧ (World.exec host call w).2.goals.TaskIs g t u.status := by
  rcases World.exec_task? host call w t with hsame | ⟨u, cells, hcall, hcells, hset⟩
  · exact Or.inl (h.of_task? hsame)
  · obtain ⟨r, hr, hg, -⟩ := h
    rw [hr] at hset
    exact Or.inr ⟨u, hcall, cells.set r, hset, hg, World.cells_status host hcells⟩

/-- A task that is down stays down, unless the call updates it to something else. -/
theorem down_exec (host : Host) (call : StoreCall) {d : Uuid} (h : w.goals.Down g d) :
    (World.exec host call w).2.goals.Down g d ∨
      ∃ u, call = .updateTask d u ∧ u.status ≠ .failed ∧ u.status ≠ .cancelled := by
  have hsome : ∀ status, w.goals.TaskIs g d status → (status = .failed ∨ status = .cancelled) →
      (World.exec host call w).2.goals.Down g d ∨
        ∃ u, call = .updateTask d u ∧ u.status ≠ .failed ∧ u.status ≠ .cancelled := by
    intro status his hdown
    rcases exec_taskIs host call his with hkept | ⟨u, hcall, hset⟩
    · rcases hdown with rfl | rfl
      · exact Or.inl (Or.inl hkept)
      · exact Or.inl (Or.inr hkept)
    · by_cases hf : u.status = .failed
      · exact Or.inl (Or.inl (hf ▸ hset))
      · by_cases hc : u.status = .cancelled
        · exact Or.inl (Or.inr (hc ▸ hset))
        · exact Or.inr ⟨u, hcall, hf, hc⟩
  rcases h with h | h
  · exact hsome _ h (Or.inl rfl)
  · exact hsome _ h (Or.inr rfl)

/-- What a call must respect to keep every blocked task justified. -/
structure BlockingKept (g : Uuid) (call : StoreCall) (w : World) : Prop where
  block : ∀ t u, call = .updateTask t u → u.status = .blocked →
    (∃ r, w.goals.task? t = some r ∧ r.goalId = g) →
    ¬ w.goals.Down g t ∧ ∃ dep, w.goals.DependsOn g t dep ∧ w.goals.Broken g dep
  repair : ∀ t u, call = .updateTask t u → w.goals.Down g t →
    u.status = .failed ∨ u.status = .cancelled ∨
      ∀ b, w.goals.TaskIs g b .blocked → TransGen (w.goals.DependsOn g) b t →
        ∃ d, d ≠ t ∧ TransGen (w.goals.DependsOn g) b d ∧ w.goals.Down g d

theorem BlockedJustified.exec (h : w.goals.BlockedJustified g) (hcall : BlockingKept g call w) :
    (World.exec host call w).2.goals.BlockedJustified g := by
  rw [GoalDb.BlockedJustified, (World.exec_samePlan host call w).dependsOn]
  -- a blocked task has a justification that outlives the call
  have hkeep : ∀ b d, w.goals.TaskIs g b .blocked → TransGen (w.goals.DependsOn g) b d →
      w.goals.Down g d → ∃ d', TransGen (w.goals.DependsOn g) b d' ∧
        (World.exec host call w).2.goals.Down g d' := by
    intro b d hb hbd hd
    rcases down_exec host call hd with hafter | ⟨u, hu, hf, hc⟩
    · exact ⟨d, hbd, hafter⟩
    · rcases hcall.repair d u hu hd with h' | h' | h'
      · exact absurd h' hf
      · exact absurd h' hc
      · obtain ⟨d', hne, hbd', hd'⟩ := h' b hb hbd
        rcases down_exec host call hd' with hafter | ⟨u', hu', -, -⟩
        · exact ⟨d', hbd', hafter⟩
        · rw [hu] at hu'
          cases hu'
          exact absurd rfl hne
  intro t ht
  rcases taskIs_exec ht with hblocked | ⟨u, hu, hblocked⟩
  · obtain ⟨d, htd, hd⟩ := h t hblocked
    exact hkeep t d hblocked htd hd
  · obtain ⟨r, hr, hg, -⟩ := ht
    obtain ⟨r₀, hr₀, hgoal, -⟩ := (World.exec_samePlan host call w).symm.row hr
    obtain ⟨hup, dep, hdep, hbroken⟩ := hcall.block t u hu hblocked ⟨r₀, hr₀, hgoal.trans hg⟩
    have hafter : ∀ d, w.goals.Down g d → (World.exec host call w).2.goals.Down g d := by
      intro d hd
      rcases down_exec host call hd with hafter | ⟨u', hu', -, -⟩
      · exact hafter
      · rw [hu] at hu'
        cases hu'
        exact absurd hd hup
    rcases hbroken with hfailed | hbl | hcancelled
    · exact ⟨dep, TransGen.single hdep, hafter dep (Or.inl hfailed)⟩
    · obtain ⟨d, hd, hdown⟩ := h dep hbl
      exact ⟨d, TransGen.head hdep hd, hafter d hdown⟩
    · exact ⟨dep, TransGen.single hdep, hafter dep (Or.inr hcancelled)⟩

theorem blockingKept_of_ne (h : ∀ t u, call ≠ .updateTask t u) : BlockingKept g call w :=
  ⟨fun t u e => absurd e (h t u), fun t u e => absurd e (h t u)⟩

/-- An update of a task that is not down to anything but blocked. -/
theorem blockingKept_of_up {t : Uuid} {u : TaskUpdate} (hu : u.status ≠ .blocked)
    (hup : ¬ w.goals.Down g t) : BlockingKept g (.updateTask t u) w := by
  refine ⟨fun t' u' e hb _ => ?_, fun t' u' e hd => ?_⟩
  · cases e
    exact absurd hb hu
  · cases e
    exact absurd hd hup

theorem not_down_of_row {r : PlannedTaskRow} {t : Uuid} (hrow : w.goals.task? t = some r)
    (hf : r.status ≠ .failed) (hc : r.status ≠ .cancelled) : ¬ w.goals.Down g t := by
  rintro (⟨r', hr', -, hs⟩ | ⟨r', hr', -, hs⟩)
  · rw [hrow] at hr'
    cases hr'
    exact hf hs
  · rw [hrow] at hr'
    cases hr'
    exact hc hs

theorem StoreCall.IsRead.ne_updateTask (h : call.IsRead) (t : Uuid) (u : TaskUpdate) :
    call ≠ .updateTask t u := by
  rintro rfl
  cases h

theorem ReconcileMove.blockingKept (h : ReconcileMove c goalId call w) : BlockingKept g call w := by
  cases h with
  | read hread => exact blockingKept_of_ne hread.ne_updateTask
  | lost hrow hgoal hstatus hjob =>
    exact blockingKept_of_up (by simp) (not_down_of_row hrow (by simp [hstatus]) (by simp [hstatus]))
  | complete hrow hgoal hstatus hjob hdone hthreshold hresult =>
    exact blockingKept_of_up (by simp [completeUpdate])
      (not_down_of_row hrow (by simp [hstatus]) (by simp [hstatus]))
  | fail hrow hgoal hstatus hjob hdone hthreshold hresult =>
    exact blockingKept_of_up (by simp [failUpdate])
      (not_down_of_row hrow (by simp [hstatus]) (by simp [hstatus]))
  | escalate hrow hgoal hstatus hjob hdone hthreshold hresult =>
    exact blockingKept_of_up (by simp [escalateUpdate])
      (not_down_of_row hrow (by simp [hstatus]) (by simp [hstatus]))
  | jobFailed hrow hgoal hstatus hjob hdone =>
    exact blockingKept_of_up (by simp) (not_down_of_row hrow (by simp [hstatus]) (by simp [hstatus]))
  | @block w r dep hrow hgoal hstatus hdep hbroken =>
    have hup : ¬ w.goals.Down g r.taskId :=
      not_down_of_row hrow (by simp [hstatus]) (by simp [hstatus])
    refine ⟨fun t u e _ hown => ?_, fun t u e hd => ?_⟩
    · cases e
      obtain ⟨r', hr', hg⟩ := hown
      rw [hrow] at hr'
      cases hr'
      have hgoals : goalId = g := hgoal.symm.trans hg
      exact ⟨hup, dep, ⟨r, hrow, hg, hdep⟩, hgoals ▸ hbroken⟩
    · cases e
      exact absurd hd hup
  | unresolved hrow hgoal hstatus hready =>
    exact blockingKept_of_up (by simp [unresolvedUpdate])
      (not_down_of_row hrow (by simp [hstatus]) (by simp [hstatus]))
  | run hrow hgoal hstatus hready hslot =>
    exact blockingKept_of_up (by simp [runUpdate])
      (not_down_of_row hrow (by simp [hstatus]) (by simp [hstatus]))
  | _ => exact blockingKept_of_ne fun t u e => by cases e

theorem CancelMove.blockingKept (h : CancelMove goalId call w) : BlockingKept g call w := by
  cases h with
  | read hread => exact blockingKept_of_ne hread.ne_updateTask
  | cancelTask hrow hgoal hstatus =>
    refine ⟨fun t u e hb => ?_, fun t u e _ => ?_⟩
    · cases e
      cases hb
    · cases e
      exact Or.inr (Or.inl rfl)
  | _ => exact blockingKept_of_ne fun t u e => by cases e

theorem RerunMove.blockingKept {taskId : Uuid} (h : RerunMove host start goalId taskId call w)
    (hturn : start.goals.TaskIs goalId taskId .failed → Resolves host goalId taskId start →
      ∀ t, start.goals.TaskIs goalId t .blocked →
        TransGen (start.goals.DependsOn goalId) t taskId →
        ∃ d, d ≠ taskId ∧ TransGen (start.goals.DependsOn goalId) t d ∧ start.goals.Down goalId d) :
    BlockingKept g call w := by
  cases h with
  | read hread => exact blockingKept_of_ne hread.ne_updateTask
  | @run w r job payload hgoals hrow hpayload =>
    obtain ⟨hrow, hgoal, hstatus⟩ := hrow
    refine ⟨fun t u e hb => ?_, fun t u e hd => Or.inr (Or.inr ?_)⟩
    · cases e
      cases hb
    · cases e
      rw [hgoals] at hd ⊢
      -- a task that is run again and is down is failed
      have hfailed : start.goals.TaskIs g taskId .failed := by
        rcases hd with hd | ⟨r', hr', -, hcancelled⟩
        · exact hd
        · rw [hrow] at hr'
          cases hr'
          rcases hstatus with hs | hs | hs <;> rw [hs] at hcancelled <;> cases hcancelled
      obtain ⟨r', hr', hg, -⟩ := id hfailed
      rw [hrow] at hr'
      cases hr'
      have heq : goalId = g := hgoal.symm.trans hg
      subst heq
      exact hturn hfailed hpayload
  | _ => exact blockingKept_of_ne fun t u e => by cases e

theorem Move.blockingKept {r : Request} (h : Move c host start r call w)
    (hturn : Turn.RerunsUnblocking host (.request r) start) : BlockingKept g call w := by
  cases h with
  | reconcile h => exact h.blockingKept
  | reconcileAll h => exact h.blockingKept
  | startReconcile h => exact h.blockingKept
  | cancel h => exact h.blockingKept
  | rerun h => exact h.blockingKept hturn
  | paused h =>
    rcases h with h | rfl
    · exact blockingKept_of_ne h.ne_updateTask
    · exact blockingKept_of_ne fun t u e => by cases e
  | _ => exact blockingKept_of_ne fun t u e => by cases e

theorem Turn.RerunsUnblocking.not_isReview {r : Request}
    (h : Turn.RerunsUnblocking host (.request r) w) : r.isReview = false := by
  cases r with
  | rerun g t actor reason => rfl
  | _ => exact h

/-- The dependencies of an ordered plan are well founded, since there are finitely many ids. -/
theorem GoalDb.PlanOrdered.wellFounded {s : GoalDb} (h : s.PlanOrdered g) :
    WellFounded fun a b => TransGen (s.DependsOn g) b a := by
  have htrans : IsTrans Uuid fun a b => TransGen (s.DependsOn g) b a :=
    ⟨fun _ _ _ hab hbc => hbc.trans hab⟩
  have hirrefl : Std.Irrefl fun a b => TransGen (s.DependsOn g) b a := ⟨h.acyclic⟩
  have hfinite : Finite Uuid := Finite.of_injective (·.toFin) fun _ _ h => BitVec.eq_of_toFin_eq h
  exact Finite.wellFounded_of_trans_of_irrefl _

/-- With an ordered plan and no task failed, blocked or cancelled, some task can go on unless all are
complete: one that no unfinished task comes before. -/
theorem onItsWay_of_up {s : GoalDb} (hplan : s.PlanOrdered g) (hup : ∀ t, ¬ s.Down g t)
    (hjustified : s.BlockedJustified g) : s.OnItsWay g := by
  have hblocked : ∀ t, ¬ s.TaskIs g t .blocked := by
    intro t ht
    obtain ⟨d, -, hd⟩ := hjustified t ht
    exact hup d hd
  refine ⟨hblocked, ?_⟩
  by_cases hall : ∀ r ∈ s.tasks, r.goalId = g → r.status = .complete
  · exact Or.inl hall
  push Not at hall
  obtain ⟨r, hr, hg, hopen⟩ := hall
  obtain ⟨t, ⟨row, hrow, hgoal, hunfinished⟩, hfirst⟩ := hplan.wellFounded.has_min
    {t | ∃ r, s.task? t = some r ∧ r.goalId = g ∧ r.status ≠ .complete}
    ⟨r.taskId, r, GoalDb.task?_eq_some.mpr ⟨hr, rfl⟩, hg, hopen⟩
  refine Or.inr ⟨t, ?_⟩
  have hdeps : ∀ dep, s.DependsOn g t dep → s.TaskIs g dep .complete := by
    intro dep hdep
    obtain ⟨d, hd, hdg⟩ := hplan.closed t dep hdep
    by_contra hincomplete
    exact hfirst dep ⟨d, hd, hdg, fun hs => hincomplete ⟨d, hd, hdg, hs⟩⟩ (TransGen.single hdep)
  have his : s.TaskIs g t row.status := ⟨row, hrow, hgoal, rfl⟩
  cases hstatus : row.status with
  | pending => exact Or.inr (Or.inr ⟨hstatus ▸ his, hdeps⟩)
  | running => exact Or.inl (hstatus ▸ his)
  | escalated => exact Or.inr (Or.inl (hstatus ▸ his))
  | complete => exact absurd hstatus hunfinished
  | failed => exact absurd (Or.inl (hstatus ▸ his)) (hup t)
  | cancelled => exact absurd (Or.inr (hstatus ▸ his)) (hup t)
  | blocked => exact absurd (hstatus ▸ his) (hblocked t)

/-- In every run in which failed tasks are rerun only while they block nothing alone, every blocked task
of a goal is justified, and the goal is on its way when no task of it is failed or cancelled. -/
theorem run_blockingSound (c : DurableGoalCoordinator) (host : Host) (w : World) (turns : List Turn)
    (goalId : Uuid) (hplan : w.goals.PlanOrdered goalId)
    (hfresh : ∀ r ∈ w.goals.tasks, r.goalId = goalId → r.status ≠ .blocked)
    (hturns : Machine.Along (World.step c host) (Turn.RerunsUnblocking host) turns w) :
    Machine.Along (World.step c host) (fun _ w => w.goals.BlockingSound goalId) turns w ∧
      (Machine.run (World.step c host) turns w).goals.BlockingSound goalId := by
  have hjustified : w.goals.BlockedJustified goalId := by
    rintro t ⟨r, hr, hg, hblocked⟩
    exact absurd hblocked (hfresh r (GoalDb.task?_eq_some.mp hr).1 hg)
  have hstep : ∀ turn (w : World), w.goals.PlanOrdered goalId ∧ w.goals.BlockedJustified goalId →
      Turn.RerunsUnblocking host turn w → (World.step c host turn w).goals.PlanOrdered goalId ∧
        (World.step c host turn w).goals.BlockedJustified goalId := by
    intro turn w hw hturn
    cases turn with
    | work call => exact hw
    | request r =>
      refine Prog.run_invariant (I := fun w : World => w.goals.PlanOrdered goalId ∧
        w.goals.BlockedJustified goalId) _ _ hw fun x hx hx₀ => ⟨?_, ?_⟩
      · exact (World.exec_samePlan host x.1 x.2).planOrdered hx₀.1
      · exact BlockedJustified.exec hx₀.2
          ((request_moves c r hturn.not_isReview w x hx).blockingKept hturn)
  have hsound : ∀ w : World, w.goals.PlanOrdered goalId ∧ w.goals.BlockedJustified goalId →
      w.goals.BlockingSound goalId :=
    fun w h => ⟨h.2, fun hup => onItsWay_of_up h.1 hup h.2⟩
  obtain ⟨halong, hend⟩ := Machine.Along.invariant hstep ⟨hplan, hjustified⟩ hturns
  exact ⟨halong.mono fun _ w h => hsound w h, hsound _ hend⟩

/-- A result that reports a failure. -/
def badResult : PyDict := [("status", .str "failed")]

/-- The job of the first task fails, so the second task is blocked. -/
def firstFailed : List Turn :=
  .request (.start 1 "api") :: workerCompletes 101 200 badResult ++ [.request (.reconcile 1)]

theorem firstFailed_rerunsUnblocking :
    ∀ turn ∈ firstFailed, ∀ w, Turn.RerunsUnblocking Service.plainHost turn w := by
  simp [firstFailed, workerCompletes, Turn.RerunsUnblocking, Request.isReview]

/-- The plan of the chain is ordered: a dependency has a smaller id. -/
theorem chainWorld_planOrdered : chainWorld.goals.PlanOrdered 1 := by
  have hall : (chainWorld.goals.tasks.all fun r => r.dependsOn.all fun b => b.toNat < r.taskId.toNat ∧
      (chainWorld.goals.task? b).map (·.goalId) = some 1) = true := by decide +kernel
  have hrow : ∀ a b, chainWorld.goals.DependsOn 1 a b → b.toNat < a.toNat ∧
      (chainWorld.goals.task? b).map (·.goalId) = some 1 := by
    rintro a b ⟨r, hr, -, hb⟩
    obtain ⟨hmem, rfl⟩ := GoalDb.task?_eq_some.mp hr
    simpa using List.all_eq_true.mp (List.all_eq_true.mp hall r hmem) b hb
  refine ⟨fun a b hab => Option.map_eq_some_iff.mp (hrow a b hab).2, fun t ht => ?_⟩
  have hless : ∀ a, TransGen (chainWorld.goals.DependsOn 1) t a → a.toNat < t.toNat := by
    intro a ha
    induction ha with
    | single hab => exact (hrow _ _ hab).1
    | tail _ hab ih => exact lt_trans (hrow _ _ hab).1 ih
  exact lt_irrefl _ (hless t ht)

/-- The blocked task is justified. -/
theorem firstFailed_blockingSound :
    chainWorld.goals.PlanOrdered 1 ∧ (∀ r ∈ chainWorld.goals.tasks, r.goalId = 1 → r.status ≠ .blocked) ∧
      Machine.Along demoTurn (Turn.RerunsUnblocking Service.plainHost) firstFailed chainWorld ∧
      (Machine.run demoTurn firstFailed chainWorld).goals.TaskIs 1 3 .blocked ∧
      (Machine.run demoTurn firstFailed chainWorld).goals.BlockingSound 1 := by
  have hfresh : ∀ r ∈ chainWorld.goals.tasks, r.goalId = 1 → r.status ≠ .blocked := by
    have hall : (chainWorld.goals.tasks.all fun r => r.status ≠ .blocked) = true := by decide +kernel
    exact fun r hr _ => by simpa using List.all_eq_true.mp hall r hr
  have hturns : Machine.Along demoTurn (Turn.RerunsUnblocking Service.plainHost) firstFailed chainWorld :=
    Machine.Along.of_forall firstFailed_rerunsUnblocking _
  have hblocked : ((Machine.run demoTurn firstFailed chainWorld).goals.task? 3).map
      (fun r => (r.goalId, r.status)) = some (1, .blocked) := by decide +kernel
  exact ⟨chainWorld_planOrdered, hfresh, hturns, taskIs_of_map hblocked,
    (run_blockingSound _ _ _ _ 1 chainWorld_planOrdered hfresh hturns).2⟩

/-- The failed task is rerun and completes. -/
def firstRepaired : List Turn :=
  firstFailed ++ .request (.rerun 1 2 "api" none) :: workerCompletes 102 400 goodResult ++
    [.request (.reconcile 1)]

/-- The failed task is complete now, the second one is blocked for good, and the goal has failed. -/
theorem blocked_after_repair :
    (Machine.run demoTurn firstRepaired chainWorld).goals.goals.map (·.status) = [.failed] ∧
      ¬ (Machine.run demoTurn firstRepaired chainWorld).goals.BlockingSound 1 := by
  have hrows : (fun s : GoalDb => (s.goals.map (·.status), s.tasks.map (·.status),
        (s.task? 3).map (fun r => (r.goalId, r.status))))
      (Machine.run demoTurn firstRepaired chainWorld).goals =
        ([.failed], [.complete, .blocked], some (1, .blocked)) := by decide +kernel
  obtain ⟨hgoal, hrest⟩ := Prod.mk.inj hrows
  obtain ⟨htasks, hblocked⟩ := Prod.mk.inj hrest
  refine ⟨hgoal, fun hsound => ?_⟩
  have hmem : ∀ r ∈ (Machine.run demoTurn firstRepaired chainWorld).goals.tasks,
      r.status = .complete ∨ r.status = .blocked := by
    intro r hr
    have hstatus := List.mem_map_of_mem (f := (·.status)) hr
    rw [htasks] at hstatus
    simpa using hstatus
  have hup : ∀ t, ¬ (Machine.run demoTurn firstRepaired chainWorld).goals.Down 1 t := by
    rintro t (⟨r, hr, -, hs⟩ | ⟨r, hr, -, hs⟩)
    · rcases hmem r (GoalDb.task?_eq_some.mp hr).1 with h | h <;> rw [hs] at h <;> cases h
    · rcases hmem r (GoalDb.task?_eq_some.mp hr).1 with h | h <;> rw [hs] at h <;> cases h
  exact (hsound.undone hup).1 3 (taskIs_of_map hblocked)

end Galaxz
