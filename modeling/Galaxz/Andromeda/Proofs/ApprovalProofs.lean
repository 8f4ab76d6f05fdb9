import Galaxz.Andromeda.Approvals
import Galaxz.Andromeda.Proofs.VerdictProofs
import Galaxz.Jobs.Proofs.PublicationProofs
import Galaxz.Jobs.Proofs.SubmissionProofs

/-!
# Grants are issued for holds

The output of an escalated routing is the record of a hold that the policy node made, or the one that the
agents left. Without forged holds, what the review queue and the stored results name under `policy_hold`
was held, and so is what an approval grants.
-/

namespace Galaxz

namespace Andromeda

variable {cfg : Config} {s s₀ : AndromedaState} {log : RoutingLog} {t : PyFloat}

/-! ## Where the output of a routing comes from -/

theorem lastOutput_concat (answers : List (Except String PyValue)) (answer : Except String PyValue) :
    lastOutput (answers ++ [answer]) = nextOutput (lastOutput answers) answer := by
  unfold lastOutput
  rw [List.foldl_append]
  rfl

/-- The output is what the agents left, and the last of them did not pass. -/
structure FromAgents (cfg : Config) (t : PyFloat) (s : AndromedaState) (log : RoutingLog) : Prop where
  threshold : s.confidenceThreshold = some t
  result : s.result = lastOutput (runs log)
  fell : ∀ answer, (runs log).getLast? = some answer → passes cfg t answer = false

/-- What holds when a node is entered. -/
def NodeProvenance (cfg : Config) (t : PyFloat) : Node → AndromedaState → RoutingLog → Prop
  | .escalate, s, log => HeldBy s log ∨ FromAgents cfg t s log
  | .complete, _, _ => True
  | .noAgentFound, _, _ => True
  | _, s, log => FromAgents cfg t s log

/-- How the graph ends, if it returns. -/
def FinalProvenance (cfg : Config) (t : PyFloat) (s : AndromedaState) (log : RoutingLog) : Prop :=
  s.status = .escalated → HeldBy s log ∨ FromAgents cfg t s log

/-- A program that ends in `Q` if it returns. -/
abbrev Returns {α : Type} (p : Routing α) (Q : α → RoutingLog → Prop) (log : RoutingLog) : Prop :=
  Prog.Logged (fun _ _ => True) (fun _ _ => True) (fun _ _ => True) p Q log

theorem Unmoved.fromAgents {s' : AndromedaState} {log' : RoutingLog} (h : Unmoved s log s' log')
    (hresult : s'.result = s.result) (hfrom : FromAgents cfg t s log) : FromAgents cfg t s' log' := by
  refine ⟨h.threshold.trans hfrom.threshold, ?_, ?_⟩
  · rw [hresult, h.runs_eq]
    exact hfrom.result
  · rw [h.runs_eq]
    exact hfrom.fell

/-- What the graph makes of any answer that it accepts. -/
theorem received_output {s' : AndromedaState} {answer : Except String PyValue}
    (hthreshold : s.confidenceThreshold = some t) (h : received cfg s answer = .ok s') :
    s'.confidenceThreshold = some t ∧ s'.taskId = s.taskId ∧ s'.result = nextOutput s.result answer ∧
      (s'.status = .failed ∧ passes cfg t answer = false ∨
        s'.status = .complete ∧ passes cfg t answer = t.le (s'.confidence.getD (.finite 0))) := by
  rcases answer with text | v
  · cases h
    exact ⟨hthreshold, rfl, rfl, Or.inl ⟨rfl, rfl⟩⟩
  · cases v with
    | dict result =>
      have hmerge : merge cfg s result = .ok s' := h
      unfold merge at hmerge
      by_cases hsandbox : sandboxUnavailable result = true
      · rw [if_pos hsandbox] at hmerge
        obtain ⟨breakdown, -, hmerge⟩ := (except_bind_ok_iff _ _ _).mp hmerge
        cases hmerge
        refine ⟨hthreshold, rfl, ?_, Or.inl ⟨rfl, ?_⟩⟩
        · simp [nextOutput, answerOutput, hsandbox]
        · simp [passes, hsandbox]
      · rw [if_neg hsandbox] at hmerge
        obtain ⟨output, houtput, hmerge⟩ := (except_bind_ok_iff _ _ _).mp hmerge
        obtain ⟨c, hc, hmerge⟩ := (except_bind_ok_iff _ _ _).mp hmerge
        obtain ⟨breakdown, -, hmerge⟩ := (except_bind_ok_iff _ _ _).mp hmerge
        obtain ⟨gaps, -, hmerge⟩ := (except_bind_ok_iff _ _ _).mp hmerge
        cases hmerge
        refine ⟨hthreshold, rfl, ?_, Or.inr ⟨rfl, ?_⟩⟩
        · simp only [nextOutput, answerOutput, if_neg hsandbox]
          cases hfield : field result "result" (.dict result) with
          | dict items =>
            rw [hfield] at houtput
            exact (Except.ok.inj houtput).symm
          | none =>
            rw [hfield] at houtput
            exact (Except.ok.inj houtput).symm
          | _ =>
            rw [hfield] at houtput
            cases houtput
        · simp [passes, hsandbox, hc]
    | _ =>
      cases h
      exact ⟨hthreshold, rfl, rfl, Or.inl ⟨rfl, rfl⟩⟩

theorem returns_executeNode (h : FromAgents cfg t s log) :
    Returns (executeNode cfg s) (fun s' log' => s'.taskId = s.taskId ∧
      NodeProvenance cfg t (afterExecute cfg s') s' log') log := by
  unfold executeNode
  dsimp only
  cases s.requiredSkills with
  | nil => trivial
  | cons skillId skills =>
    refine Prog.Logged.call trivial fun known _ => ?_
    have hknown : runs (log ++ [⟨.hasAgent (s.assignedAgent.getD ""), known⟩]) = runs log :=
      runs_concat rfl
    cases known with
    | false =>
      refine ⟨rfl, Or.inr ⟨h.threshold, ?_, ?_⟩⟩
      · rw [hknown]
        exact h.result
      · rw [hknown]
        exact h.fell
    | true =>
      refine Prog.Logged.call trivial fun answer _ => ?_
      cases hreceived : received cfg s answer with
      | error e => trivial
      | ok s' =>
        obtain ⟨hthreshold, htask, hresult, hstatus⟩ := received_output h.threshold hreceived
        have hruns : runs (log ++ [⟨.hasAgent (s.assignedAgent.getD ""), true⟩] ++
            [⟨.runAgent (s.assignedAgent.getD "") skillId s.payload
              (PyDict.set s.context "task_id" (.str s.taskId)), answer⟩]) = runs log ++ [answer] := by
          rw [runs_append, hknown]
          rfl
        have hfrom : passes cfg t answer = false → FromAgents cfg t s'
            (log ++ [⟨.hasAgent (s.assignedAgent.getD ""), true⟩] ++
              [⟨.runAgent (s.assignedAgent.getD "") skillId s.payload
                (PyDict.set s.context "task_id" (.str s.taskId)), answer⟩]) := by
          intro hfell
          refine ⟨hthreshold, ?_, fun last hlast => ?_⟩
          · rw [hruns, lastOutput_concat, hresult, h.result]
          · rw [hruns, List.getLast?_concat] at hlast
            cases hlast
            exact hfell
        refine ⟨htask, ?_⟩
        unfold afterExecute
        dsimp only
        rw [hthreshold, Option.getD_some]
        rcases hstatus with ⟨hfailed, hfell⟩ | ⟨hcomplete, hpasses⟩
        · rw [if_pos hfailed]
          exact Or.inr (hfrom hfell)
        · have hne : s'.status ≠ .failed := by rw [hcomplete]; decide
          rw [if_neg hne]
          by_cases hsure : t.le (s'.confidence.getD (.finite 0)) = true
          · rw [if_pos hsure]
            trivial
          · have hfell : passes cfg t answer = false := hpasses.trans (Bool.eq_false_iff.mpr hsure)
            rw [if_neg hsure]
            split_ifs
            · exact hfrom hfell
            · exact Or.inr (hfrom hfell)

/-- A node that is entered as it should be leaves the output where it came from. -/
theorem returns_node (node : Node) (h : NodeProvenance cfg t node s log) :
    Returns (node.run cfg s) (fun s' log' => s'.taskId = s.taskId ∧
      (∀ next, node.next cfg s' = some next → NodeProvenance cfg t next s' log') ∧
        (node.next cfg s' = none → FinalProvenance cfg t s' log')) log := by
  cases node with
  | policyCheck =>
    refine (quiet_policyNode log).mono fun s' log' hpost =>
      ⟨hpost.1.task, fun next hnext => ?_, fun hend => ?_⟩
    · cases hnext
      unfold afterPolicy
      rcases hpost.2 with hresult | hheld
      · have hfrom := hpost.1.fromAgents hresult h
        split_ifs
        · trivial
        · exact Or.inr hfrom
        · exact hfrom
      · have hne : s'.failureReason ≠ some "policy_denied" := by rw [hheld.1]; decide
        rw [if_neg hne, if_pos hheld.1]
        exact Or.inl hheld
    · cases hend
  | skillMatch =>
    refine (quiet_skillMatchNode log).mono fun s' log' hpost =>
      ⟨hpost.1.task, fun next hnext => ?_, fun hend => ?_⟩
    · cases hnext
      have hfrom := hpost.1.fromAgents hpost.2 h
      unfold afterSkillMatch
      split_ifs
      · exact hfrom
      · trivial
      · exact Or.inr hfrom
    · cases hend
  | loadCheck =>
    refine (quiet_loadCheckNode log).mono fun s' log' hpost =>
      ⟨hpost.1.task, fun next hnext => ?_, fun hend => ?_⟩
    · cases hnext
      have hfrom := hpost.1.fromAgents hpost.2 h
      unfold afterLoadCheck
      split_ifs
      · exact hfrom
      · trivial
      · exact Or.inr hfrom
    · cases hend
  | assign =>
    refine ⟨rfl, fun next hnext => ?_, fun hend => ?_⟩
    · cases hnext
      have hunmoved : Unmoved s log (assignNode s) log := ⟨rfl, rfl, rfl, rfl, rfl⟩
      exact hunmoved.fromAgents rfl h
    · cases hend
  | execute =>
    refine (returns_executeNode h).mono fun s' log' hpost =>
      ⟨hpost.1, fun next hnext => ?_, fun hend => ?_⟩
    · cases hnext
      exact hpost.2
    · cases hend
  | handleFailure =>
    have htask : (handleFailureNode s).taskId = s.taskId := by
      unfold handleFailureNode
      dsimp only
      split_ifs <;> rfl
    refine ⟨htask, fun next hnext => ?_, fun hend => ?_⟩
    · cases hnext
      have hentry : FromAgents cfg t s log := h
      have hfrom : FromAgents cfg t (handleFailureNode s) log := by
        unfold handleFailureNode
        dsimp only
        split_ifs
        · exact ⟨hentry.threshold, hentry.result, hentry.fell⟩
        · exact ⟨hentry.threshold, hentry.result, hentry.fell⟩
      unfold afterHandleFailure
      split_ifs
      · exact hfrom
      · exact Or.inr hfrom
    · cases hend
  | escalate =>
    refine ⟨rfl, fun next hnext => (by cases hnext), fun _ _ => ?_⟩
    rcases h with h | h
    · exact Or.inl h
    · exact Or.inr ⟨h.threshold, h.result, h.fell⟩
  | complete =>
    refine ⟨rfl, fun next hnext => (by cases hnext), fun _ hstatus => ?_⟩
    exact absurd hstatus (by simp [completeNode])
  | noAgentFound =>
    refine ⟨rfl, fun next hnext => (by cases hnext), fun _ hstatus => ?_⟩
    exact absurd hstatus (by simp [noAgentFoundNode])

theorem returns_invoke (n : ℕ) : ∀ (node : Node) (s : AndromedaState) (log : RoutingLog),
    NodeProvenance cfg t node s log → Returns (invoke cfg n node s) (fun s' log' =>
      s'.taskId = s.taskId ∧ FinalProvenance cfg t s' log') log := by
  induction n with
  | zero => exact fun _ _ _ _ => trivial
  | succ n ih =>
    intro node s log h
    unfold invoke
    refine Prog.Logged.bind (returns_node node h) fun s' log' hpost => ?_
    cases hedge : node.next cfg s' with
    | none => exact ⟨hpost.1, hpost.2.2 hedge⟩
    | some next =>
      refine (ih next s' log' (hpost.2.1 next hedge)).mono fun s'' log'' hend => ?_
      exact ⟨hend.1.trans hpost.1, hend.2⟩

/-- The output of an escalated routing is that of a hold, or what the agents left. -/
theorem routeGraph_provenance (env : RoutingLog → (call : RoutingCall) → call.Answer)
    (task : TaskContract) (requiredSkills : List String) (context : PyDict)
    (h : (routeGraph cfg env task requiredSkills context).1 = .ok s) :
    s.taskId = task.taskId.text ∧ (s.status = .escalated → HeldBy s (routeGraph cfg env task requiredSkills context).2 ∨
      FromAgents cfg task.confidenceThreshold s (routeGraph cfg env task requiredSkills context).2) := by
  have hstart : FromAgents cfg task.confidenceThreshold (initialState task requiredSkills context) [] :=
    ⟨rfl, rfl, fun answer hanswer => by cases hanswer⟩
  have hprog : Returns (invoke cfg recursionLimit .policyCheck (initialState task requiredSkills context))
      (fun s' log' => s'.taskId = task.taskId.text ∧
        FinalProvenance cfg task.confidenceThreshold s' log') [] :=
    returns_invoke recursionLimit .policyCheck _ [] hstart
  exact (hprog.play env fun _ _ => trivial).1 s h

end Andromeda

/-! ## Holds on their way through the stores -/

/-- What it means for an output to name a hold. -/
theorem heldKey_eq_some_iff (output : PyDict) (key : GrantKey) :
    heldKey output = some key ↔ ∃ hold, output.get "policy_hold" = .dict hold ∧
      PyDict.get hold "origin" = .str key.origin ∧ PyDict.get hold "skill" = .str key.skill ∧
      PyDict.get hold "digest" = .str key.digest := by
  unfold heldKey
  constructor
  · intro h
    split at h
    · rename_i hold hdict
      split at h
      · rename_i origin skill digest horigin hskill hdigest
        cases h
        exact ⟨hold, hdict, horigin, hskill, hdigest⟩
      · cases h
    · cases h
  · rintro ⟨hold, hdict, horigin, hskill, hdigest⟩
    rw [hdict]
    simp only [horigin, hskill, hdigest]

theorem heldKey_policyHold (key : GrantKey) (decision : PolicyDecision) :
    heldKey (Andromeda.policyHold key decision) = some key :=
  (heldKey_eq_some_iff _ key).mpr ⟨_, rfl, rfl, rfl, rfl⟩

theorem heldKey_set (output : PyDict) (value : PyValue) :
    heldKey (output.set "artifact_versions" value) = heldKey output := by
  unfold heldKey
  rw [PyDict.get_set_ne (by decide)]

/-- Storing an output does not change the hold in it. -/
theorem heldKey_sortKeysItems (output : PyDict) :
    heldKey (PyValue.sortKeysItems output) = heldKey output := by
  refine Option.ext fun key => ?_
  rw [heldKey_eq_some_iff, heldKey_eq_some_iff, PyDict.get_sortKeysItems]
  constructor
  · rintro ⟨hold, hdict, horigin, hskill, hdigest⟩
    obtain ⟨inner, hinner, rfl⟩ := PyValue.sortKeys_eq_dict hdict
    rw [PyDict.get_sortKeysItems, PyValue.sortKeys_eq_str_iff] at horigin hskill hdigest
    exact ⟨inner, hinner, horigin, hskill, hdigest⟩
  · rintro ⟨hold, hdict, horigin, hskill, hdigest⟩
    refine ⟨PyValue.sortKeysItems hold, ?_, ?_, ?_, ?_⟩
    · rw [hdict]
      rfl
    · rw [PyDict.get_sortKeysItems, PyValue.sortKeys_eq_str_iff]
      exact horigin
    · rw [PyDict.get_sortKeysItems, PyValue.sortKeys_eq_str_iff]
      exact hskill
    · rw [PyDict.get_sortKeysItems, PyValue.sortKeys_eq_str_iff]
      exact hdigest

theorem outputOf_sortKeysItems (result : PyDict) :
    heldKey (CompletionPublisher.outputOf (PyValue.sortKeysItems result)) =
      heldKey (CompletionPublisher.outputOf result) := by
  unfold CompletionPublisher.outputOf
  rw [PyDict.get_sortKeysItems]
  cases result.get "result" with
  | dict items => exact heldKey_sortKeysItems items
  | _ => rfl

namespace Andromeda

variable {cfg : Config} {s : AndromedaState}

/-- Unless the agents forged it, the hold in an escalated state is one that the policy node made. -/
theorem routeGraph_held {env : RoutingLog → (call : RoutingCall) → call.Answer}
    {task : TaskContract} {requiredSkills : List String} {context : PyDict} {key : GrantKey}
    (h : (routeGraph cfg env task requiredSkills context).1 = .ok s) (hstatus : s.status = .escalated)
    (hhonest : ¬ ForgesHold cfg task.confidenceThreshold
      (runs (routeGraph cfg env task requiredSkills context).2))
    (hkey : heldKey (s.result.getD []) = some key) :
    { taskId := task.taskId.text, key } ∈
      ApprovalWorld.holdsIn task.taskId.text (routeGraph cfg env task requiredSkills context).2 := by
  rcases (routeGraph_provenance env task requiredSkills context h).2 hstatus with hheld | hfrom
  · obtain ⟨-, key', decision, hresult, hmem⟩ := hheld
    rw [hresult, Option.getD_some, heldKey_policyHold] at hkey
    cases hkey
    exact List.mem_filterMap.mpr ⟨_, hmem, rfl⟩
  · refine absurd ⟨hfrom.fell, ?_⟩ hhonest
    rw [← hfrom.result]
    cases hresult : s.result with
    | none =>
      rw [hresult] at hkey
      cases hkey
    | some output =>
      rw [hresult, Option.getD_some] at hkey
      rw [Option.bind_some, hkey]
      rfl

theorem escalationItem_ok {task : TaskContract} {now : Datetime} {item : ReviewItem}
    (h : escalationItem task s now = .ok item) :
    item.taskId = s.taskId ∧ item.agentOutput = some (s.result.getD []) ∧
      item.plannedTaskId = if CompletionPublisher.hasGoal task then some task.taskId.text else none := by
  unfold escalationItem at h
  obtain ⟨deadline, -, h⟩ := (except_bind_ok_iff _ _ _).mp h
  rw [← Except.ok.inj h]
  exact ⟨rfl, rfl, rfl⟩

/-- The stored result of a routing says that it was escalated, and names a hold, when its state does. -/
theorem routeResult_dumps {task : TaskContract} {serialized : PyDict}
    (h : (routeResult task s).dumps = .ok serialized) :
    (serialized.get "status" = .str "escalated" → s.status = .escalated) ∧
      heldKey (CompletionPublisher.outputOf serialized) = heldKey (s.result.getD []) := by
  unfold PyDict.dumps at h
  split_ifs at h
  rw [← Except.ok.inj h, outputOf_sortKeysItems, PyDict.get_sortKeysItems, PyValue.sortKeys_eq_str_iff]
  refine ⟨fun hstatus => ?_, ?_⟩
  · have htext : statusText s.status = "escalated" := PyValue.str.inj hstatus
    cases hs : s.status with
    | escalated => rfl
    | _ =>
      rw [hs] at htext
      exact absurd htext (by decide)
  · unfold CompletionPublisher.outputOf
    have hget : (routeResult task s).get "result" = optional .dict s.result := rfl
    rw [hget]
    cases s.result with
    | none => rfl
    | some output => rfl

end Andromeda

namespace ApprovalWorld

variable {cfg : Andromeda.Config} {w : ApprovalWorld}

/-- What the stores name under `policy_hold` was held, for the task they name it for. -/
structure Inv (w : ApprovalWorld) : Prop where
  jobs : w.jobs.Inv
  reviews : ∀ item ∈ w.reviews.rows, ∀ key, heldKey item.agentOutput = some key →
    { taskId := item.reviewedTask, key } ∈ w.holds
  outputs : ∀ o ∈ w.jobs.outputs, o.result.get "status" = .str "escalated" →
    ∀ key, heldKey (CompletionPublisher.outputOf o.result) = some key →
      ∃ task, SqliteJobRepository.getTask w.jobs o.jobId = some task ∧
        { taskId := task.taskId.text, key } ∈ w.holds
  approvals : w.GrantsHeld

theorem Inv.empty : Inv {} where
  jobs := Db.empty_inv
  reviews := fun item hitem => by cases hitem
  outputs := fun o ho => by cases ho
  approvals := fun a ha => by cases ha

theorem Inv.noteHolds (h : w.Inv) (taskId : String) (log : RoutingLog) :
    (w.noteHolds taskId log).Inv where
  jobs := h.jobs
  reviews := fun item hitem key hkey => List.mem_append_left _ (h.reviews item hitem key hkey)
  outputs := by
    intro o ho hstatus key hkey
    obtain ⟨task, htask, hheld⟩ := h.outputs o ho hstatus key hkey
    exact ⟨task, htask, List.mem_append_left _ hheld⟩
  approvals := fun a ha => List.mem_append_left _ (h.approvals a ha)

/-- A review item whose hold was made for its task may enter the queue. -/
theorem Inv.enqueueReview (h : w.Inv) {item : Except PyError ReviewItem} (now : Datetime)
    (hitem : ∀ i, item = .ok i → ∀ key, heldKey (i.agentOutput.getD []) = some key →
      { taskId := i.plannedTaskId.getD i.taskId, key } ∈ w.holds) :
    (w.enqueueReview cfg item now).Inv := by
  unfold ApprovalWorld.enqueueReview
  cases item with
  | error e => exact h
  | ok i =>
    dsimp only
    split
    · exact h
    · next reviews hok =>
      refine ⟨h.jobs, fun row hrow key hkey => ?_, h.outputs, h.approvals⟩
      rcases ReviewQueue.enqueue_ok hok with rfl | ⟨added, hrows, hid, -, houtput, hplanned⟩
      · exact h.reviews row hrow key hkey
      · have hrow' : row ∈ w.reviews.rows ++ [added] := hrows ▸ hrow
        rcases List.mem_append.mp hrow' with hold | hnew
        · exact h.reviews row hold key hkey
        · rw [List.mem_singleton.mp hnew] at hkey ⊢
          rw [houtput] at hkey
          unfold ReviewRow.reviewedTask
          rw [hplanned, hid]
          exact hitem i rfl key hkey

/-- A call on the job store keeps the invariant if what it stores does. -/
theorem Inv.jobsStep (h : w.Inv) (call : JobCall)
    (hcall : ∀ j token ref result now serialized,
      call = .complete j token ref (some result) now → result.dumps = .ok serialized →
      serialized.get "status" = .str "escalated" →
      ∀ key, heldKey (CompletionPublisher.outputOf serialized) = some key →
        ∃ task, SqliteJobRepository.getTask w.jobs j = some task ∧
          { taskId := task.taskId.text, key } ∈ w.holds) :
    Inv { w with jobs := SqliteJobRepository.step call w.jobs } where
  jobs := step_inv call w.jobs h.jobs
  reviews := h.reviews
  outputs := by
    intro o ho hstatus key hkey
    have hheld : ∃ task, SqliteJobRepository.getTask w.jobs o.jobId = some task ∧
        { taskId := task.taskId.text, key } ∈ w.holds := by
      rcases step_outputs h.jobs call with heq |
        ⟨j, a, ref, result, now, serialized, hcomplete, hdumps, -, -, heq⟩
      · have ho' : o ∈ w.jobs.outputs := heq ▸ ho
        exact h.outputs o ho' hstatus key hkey
      · have ho' : o ∈ w.jobs.outputs ++ [⟨j, serialized, now⟩] := heq ▸ ho
        rcases List.mem_append.mp ho' with hold | hnew
        · exact h.outputs o hold hstatus key hkey
        · rw [List.mem_singleton.mp hnew] at hstatus hkey ⊢
          exact hcall j a.leaseToken ref result now serialized hcomplete hdumps hstatus key hkey
    obtain ⟨task, htask, hmem⟩ := hheld
    exact ⟨task, step_getTask h.jobs call htask, hmem⟩
  approvals := h.approvals

theorem Inv.route (h : w.Inv) {task : TaskContract} {requiredSkills : List String} {context : PyDict}
    {env : RoutingLog → (call : RoutingCall) → call.Answer} (now : Datetime)
    (hhonest : ¬ Andromeda.ForgesHold cfg task.confidenceThreshold
      (Andromeda.runs (Andromeda.routeGraph cfg env task requiredSkills context).2)) :
    (w.route cfg task requiredSkills context env now).Inv := by
  have hnoted := h.noteHolds task.taskId.text
    (Andromeda.routeGraph cfg env task requiredSkills context).2
  unfold ApprovalWorld.route
  dsimp only
  cases hgraph : (Andromeda.routeGraph cfg env task requiredSkills context).1 with
  | error e => exact hnoted
  | ok s =>
    dsimp only
    split_ifs with hescalated
    · refine hnoted.enqueueReview now fun item hitem key hkey => ?_
      obtain ⟨hid, houtput, hplanned⟩ := Andromeda.escalationItem_ok hitem
      have htask := (Andromeda.routeGraph_provenance env task requiredSkills context hgraph).1
      have hreviewed : item.plannedTaskId.getD item.taskId = task.taskId.text := by
        rw [hplanned, hid]
        split_ifs
        · rfl
        · exact htask
      rw [houtput, Option.getD_some] at hkey
      rw [hreviewed]
      refine List.mem_append_right _ ?_
      exact Andromeda.routeGraph_held hgraph hescalated.2 hhonest hkey
    · exact hnoted

theorem Inv.execute (h : w.Inv) {jobId attemptId : Uuid} (leaseToken : Uuid) {context : PyDict}
    {env : RoutingLog → (call : RoutingCall) → call.Answer} (now : Datetime)
    (hhonest : ∀ task, SqliteJobRepository.getTask w.jobs jobId = some task →
      ¬ Andromeda.ForgesHold cfg task.confidenceThreshold
        (Andromeda.runs (Andromeda.routeGraph cfg env
          { task with executionAttemptId := some attemptId } [] context).2)) :
    (w.execute cfg jobId attemptId leaseToken context env now).Inv := by
  unfold ApprovalWorld.execute
  cases htask : SqliteJobRepository.getTask w.jobs jobId with
  | none => exact h
  | some stored =>
    dsimp only
    set task := { stored with executionAttemptId := some attemptId }
    have hnoted := h.noteHolds task.taskId.text (Andromeda.routeGraph cfg env task [] context).2
    cases hgraph : (Andromeda.routeGraph cfg env task [] context).1 with
    | error e => exact hnoted
    | ok s =>
      refine hnoted.jobsStep _ fun j token ref result now' serialized hcall hdumps hstatus key hkey => ?_
      cases hcall
      obtain ⟨hescalated, hsame⟩ := Andromeda.routeResult_dumps hdumps
      rw [hsame] at hkey
      refine ⟨stored, htask, List.mem_append_right _ ?_⟩
      exact Andromeda.routeGraph_held hgraph (hescalated hstatus) (hhonest stored htask) hkey

theorem Inv.publish (h : w.Inv) (event : OutboxRow) (references : List PyValue) (now : Datetime) :
    (w.publish cfg event references now).Inv := by
  unfold ApprovalWorld.publish
  cases htask : SqliteJobRepository.getTask w.jobs event.jobId with
  | none => exact h
  | some task =>
    cases hresult : SqliteJobRepository.getResult w.jobs event.jobId with
    | none => exact h
    | some result =>
      dsimp only
      split_ifs with hescalated
      · refine h.enqueueReview now fun item hitem key hkey => ?_
        obtain ⟨-, hid, houtput, hplanned⟩ := reviewItem_ok hitem
        obtain ⟨o, ho, rfl⟩ := Option.map_eq_some_iff.mp hresult
        have hjob : o.jobId = event.jobId := by simpa using List.find?_some ho
        have hkey' : heldKey (CompletionPublisher.outputOf o.result) = some key := by
          rw [houtput, Option.getD_some] at hkey
          exact (heldKey_set _ _).symm.trans hkey
        obtain ⟨task', htask', hheld⟩ :=
          h.outputs o (List.mem_of_find?_eq_some ho) hescalated key hkey'
        rw [hjob, htask] at htask'
        cases htask'
        have hreviewed : item.plannedTaskId.getD item.taskId = task.taskId.text := by
          rw [hplanned, hid]
          unfold CompletionPublisher.reviewTaskId
          split_ifs <;> rfl
        rw [hreviewed]
        exact hheld
      · exact h

/-- An approval grants what the item names, or nothing. -/
theorem issuePolicyGrant_cases (item : ReviewRow) (grantId : Uuid) (now : Datetime) (w : ApprovalWorld) :
    (∃ grants, w.issuePolicyGrant item grantId now = { w with grants }) ∨
      ∃ key grants, heldKey item.agentOutput = some key ∧
        w.issuePolicyGrant item grantId now =
          { w with grants, approvals := w.approvals ++ [{ item, key }] } := by
  have hgranted : ∀ key r, (∃ grants, w.granted item key r = { w with grants }) ∨
      ∃ grants, w.granted item key r =
        { w with grants, approvals := w.approvals ++ [{ item, key }] } := by
    rintro key ⟨answer, grants⟩
    cases answer with
    | error e => exact Or.inl ⟨grants, rfl⟩
    | ok grant => exact Or.inr ⟨grants, rfl⟩
  unfold ApprovalWorld.issuePolicyGrant
  cases heldKey item.agentOutput with
  | none => exact Or.inl ⟨w.grants, rfl⟩
  | some key =>
    rcases hgranted key (GrantStore.issue grantId key 3600 (some "review") now w.grants) with
      h | ⟨grants, h⟩
    · exact Or.inl h
    · exact Or.inr ⟨key, grants, rfl, h⟩

/-- Deciding an item does not change its evidence, and grants only what the item names. -/
theorem Inv.decide (h : w.Inv) (taskId : String) (status : ReviewStatus) (notes : Option String)
    (now : Datetime) (grantId : Uuid) (grantNow : Datetime) :
    (w.decide taskId status notes now grantId grantNow).Inv := by
  unfold ApprovalWorld.decide
  cases hitem : w.reviews.getByTaskId taskId with
  | none => exact h
  | some item =>
    have hmem : item ∈ w.reviews.rows := List.mem_of_find?_eq_some hitem
    have hresolved : Inv { w with reviews := w.reviews.resolve taskId status notes now } := by
      refine ⟨h.jobs, fun row hrow key hkey => ?_, h.outputs, h.approvals⟩
      rcases Table.mem_updateWhere.mp hrow with ⟨old, hold, heq⟩
      have hold' := h.reviews old hold key
      split_ifs at heq
      · rw [← heq] at hkey ⊢
        exact hold' hkey
      · rw [← heq] at hkey ⊢
        exact hold' hkey
    dsimp only
    split_ifs
    · rcases issuePolicyGrant_cases item grantId grantNow
        { w with reviews := w.reviews.resolve taskId status notes now } with
        ⟨grants, heq⟩ | ⟨key, grants, hkey, heq⟩
      · rw [heq]
        exact ⟨hresolved.jobs, hresolved.reviews, hresolved.outputs, hresolved.approvals⟩
      · rw [heq]
        refine ⟨hresolved.jobs, hresolved.reviews, hresolved.outputs, fun a ha => ?_⟩
        rcases List.mem_append.mp ha with hold | hnew
        · exact hresolved.approvals a hold
        · rw [List.mem_singleton.mp hnew]
          exact h.reviews item hmem key hkey
    · exact hresolved
    · exact h

/-- An action without forged holds keeps the invariant. -/
theorem Inv.step (h : w.Inv) (action : ApprovalAction) (hhonest : action.Honest cfg w) :
    (step cfg action w).Inv := by
  cases action with
  | route task requiredSkills context env now => exact h.route now hhonest
  | execute jobId attemptId leaseToken context env now => exact h.execute leaseToken now hhonest
  | jobs call other =>
    refine h.jobsStep call fun j token ref result now serialized hcall => ?_
    rw [hcall] at other
    cases other
  | publish event references now => exact h.publish event references now
  | planReview taskId confidence payload goalId now =>
    show (w.enqueueReview cfg (.ok _) now).Inv
    refine h.enqueueReview now fun item hitem key hkey => ?_
    cases hitem
    cases hkey
  | consume key now => exact ⟨h.jobs, h.reviews, h.outputs, h.approvals⟩
  | decide taskId status notes now grantId grantNow =>
    exact h.decide taskId status notes now grantId grantNow

/-- In every run without forged holds, every grant that an approval issued is for a hold of the task
that was reviewed. -/
theorem run_grantsHeld (cfg : Andromeda.Config) (actions : List ApprovalAction)
    (h : Machine.Along (step cfg) (fun action w => action.Honest cfg w) actions {}) :
    (run cfg actions).GrantsHeld := by
  have hstep : ∀ action w, Inv w → action.Honest cfg w → (step cfg action w).Inv :=
    fun action w hw hhonest => hw.step action hhonest
  have hinv : (run cfg actions).Inv := (Machine.Along.invariant hstep Inv.empty h).2
  exact hinv.approvals

/-- A graph whose policy wants a review of every report. -/
def reviewedConfig : Andromeda.Config :=
  { Andromeda.demoConfig with policy := { rules := [{ skill := "report", action := .requireReview }] } }

def demoNow : Datetime := Datetime.ofMicros 0

/-- A task is held, and its review is approved. -/
def heldRun : List ApprovalAction :=
  [.route Andromeda.demoTask [] [] Andromeda.demoEnv demoNow,
    .decide Andromeda.demoTask.taskId.text .approved none demoNow 7 demoNow]

theorem heldRun_granted :
    (run reviewedConfig heldRun).approvals.length = 1 ∧ (run reviewedConfig heldRun).GrantsHeld := by
  refine ⟨by decide +kernel, run_grantsHeld reviewedConfig heldRun ⟨?_, trivial, trivial⟩⟩
  rintro ⟨-, hforged⟩
  exact absurd hforged (by decide +kernel)

/-- The hold that an agent makes up. -/
def forgedKey : GrantKey := { origin := "root", skill := "deploy", digest := "d" }

/-- An agent with little confidence, whose output names a hold. -/
def forgingEnv (_ : RoutingLog) : (call : RoutingCall) → call.Answer
  | .consume _ => false
  | .agents => [{ agentId := "vega", skills := [{ skillId := "report" }] }]
  | .getWeights _ => []
  | .hasAgent _ => true
  | .runAgent _ _ _ _ =>
    .ok (.dict [("confidence", .float (.finite (1 / 4))),
      ("policy_hold", .dict [("origin", .str forgedKey.origin), ("skill", .str forgedKey.skill),
        ("digest", .str forgedKey.digest)])])

/-- The task of such an agent is escalated, and its review is approved. -/
def forgedRun : List ApprovalAction :=
  [.route Andromeda.demoTask [] [] forgingEnv demoNow,
    .decide Andromeda.demoTask.taskId.text .approved none demoNow 7 demoNow]

theorem forgedRun_granted :
    (run Andromeda.demoConfig forgedRun).approvals.map (·.key) = [forgedKey] ∧
      ¬ (run Andromeda.demoConfig forgedRun).GrantsHeld := by
  have hgranted : (run Andromeda.demoConfig forgedRun).approvals.map (·.key) = [forgedKey] := by
    decide +kernel
  have hholds : (run Andromeda.demoConfig forgedRun).holds = [] := by decide +kernel
  refine ⟨hgranted, fun h => ?_⟩
  have hmem : forgedKey ∈ (run Andromeda.demoConfig forgedRun).approvals.map (·.key) := by
    rw [hgranted]
    exact List.mem_cons_self
  obtain ⟨a, ha, -⟩ := List.mem_map.mp hmem
  have hheld := h a ha
  rw [hholds] at hheld
  cases hheld

end ApprovalWorld

end Galaxz
