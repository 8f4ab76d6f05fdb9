import Galaxz.Andromeda.Approvals
import Galaxz.Andromeda.Proofs.ApprovalProofs

/-!
# What routing does with the fields of a reply

Only the policy node and a run of an agent set the output in the state, and the policy node comes first. So
the output of a finished routing is the one that the last reply left.
-/

namespace Galaxz.Andromeda

variable {cfg : Config} {s : AndromedaState} {log : RoutingLog} {t : PyFloat}

/-! ## The output after a run -/

/-- The output is the one that the last answer left, if that was a reply. -/
structure ReplyKept (t : PyFloat) (s : AndromedaState) (log : RoutingLog) : Prop where
  threshold : s.confidenceThreshold = some t
  result : ∀ reply, (runs log).getLast? = some (.ok (.dict reply)) → s.result = answerOutput reply

/-- What holds when a node is entered. -/
def NodeKept (t : PyFloat) (node : Node) (s : AndromedaState) (log : RoutingLog) : Prop :=
  ReplyKept t s log ∧ (node = .policyCheck → runs log = [])

theorem Unmoved.replyKept {s' : AndromedaState} {log' : RoutingLog} (h : Unmoved s log s' log')
    (hresult : s'.result = s.result) (hkept : ReplyKept t s log) : ReplyKept t s' log' := by
  refine ⟨h.threshold.trans hkept.threshold, fun reply hreply => ?_⟩
  rw [h.runs_eq] at hreply
  rw [hresult]
  exact hkept.result reply hreply

theorem keeps_executeNode (h : ReplyKept t s log) :
    Returns (executeNode cfg s) (fun s' log' => ReplyKept t s' log') log := by
  unfold executeNode
  dsimp only
  cases s.requiredSkills with
  | nil => trivial
  | cons skillId skills =>
    refine Prog.Logged.call trivial fun known _ => ?_
    have hknown : runs (log ++ [⟨.hasAgent (s.assignedAgent.getD ""), known⟩]) = runs log :=
      runs_concat rfl
    cases known with
    | false =>
      refine ⟨h.threshold, fun reply hreply => ?_⟩
      rw [hknown] at hreply
      exact h.result reply hreply
    | true =>
      refine Prog.Logged.call trivial fun answer _ => ?_
      cases hreceived : received cfg s answer with
      | error e => trivial
      | ok s' =>
        obtain ⟨hthreshold, -, hresult, -⟩ := received_output h.threshold hreceived
        refine ⟨hthreshold, fun reply hreply => ?_⟩
        have hruns : ∀ earlier : RoutingLog, runs (earlier ++ [⟨.runAgent (s.assignedAgent.getD "") skillId
            s.payload (PyDict.set s.context "task_id" (.str s.taskId)), answer⟩]) =
              runs earlier ++ [answer] := fun earlier => runs_append _ _
        rw [hruns, List.getLast?_concat] at hreply
        cases hreply
        exact hresult

theorem keeps_node (node : Node) (h : NodeKept t node s log) :
    Returns (node.run cfg s) (fun s' log' => ReplyKept t s' log') log := by
  obtain ⟨hkept, hstart⟩ := h
  cases node with
  | policyCheck =>
    refine (quiet_policyNode log).mono fun s' log' hpost => ?_
    refine ⟨hpost.1.threshold.trans hkept.threshold, fun reply hreply => ?_⟩
    -- no agent has run yet
    rw [hpost.1.runs_eq, hstart rfl] at hreply
    cases hreply
  | skillMatch =>
    exact (quiet_skillMatchNode log).mono fun s' log' hpost => hpost.1.replyKept hpost.2 hkept
  | loadCheck =>
    exact (quiet_loadCheckNode log).mono fun s' log' hpost => hpost.1.replyKept hpost.2 hkept
  | execute => exact keeps_executeNode hkept
  | handleFailure =>
    show ReplyKept t (handleFailureNode s) log
    unfold handleFailureNode
    dsimp only
    split_ifs
    · exact ⟨hkept.threshold, hkept.result⟩
    · exact ⟨hkept.threshold, hkept.result⟩
  | assign => exact ⟨hkept.threshold, hkept.result⟩
  | escalate => exact ⟨hkept.threshold, hkept.result⟩
  | complete => exact ⟨hkept.threshold, hkept.result⟩
  | noAgentFound => exact ⟨hkept.threshold, hkept.result⟩

/-- The graph never goes back to the policy node. -/
theorem next_ne_policyCheck {node next : Node} {s : AndromedaState} (h : node.next cfg s = some next) :
    next ≠ .policyCheck := by
  rintro rfl
  cases node with
  | policyCheck =>
    have hedge := Option.some.inj h
    unfold afterPolicy at hedge
    split_ifs at hedge
  | skillMatch =>
    have hedge := Option.some.inj h
    unfold afterSkillMatch at hedge
    split_ifs at hedge
  | loadCheck =>
    have hedge := Option.some.inj h
    unfold afterLoadCheck at hedge
    split_ifs at hedge
  | execute =>
    have hedge := Option.some.inj h
    unfold afterExecute at hedge
    dsimp only at hedge
    split_ifs at hedge
  | handleFailure =>
    have hedge := Option.some.inj h
    unfold afterHandleFailure at hedge
    split_ifs at hedge
  | assign => cases h
  | escalate => cases h
  | complete => cases h
  | noAgentFound => cases h

theorem keeps_invoke (n : ℕ) : ∀ (node : Node) (s : AndromedaState) (log : RoutingLog),
    NodeKept t node s log → Returns (invoke cfg n node s) (fun s' log' => ReplyKept t s' log') log := by
  induction n with
  | zero => exact fun _ _ _ _ => trivial
  | succ n ih =>
    intro node s log h
    unfold invoke
    refine Prog.Logged.bind (keeps_node node h) fun s' log' hkept => ?_
    cases hedge : node.next cfg s' with
    | none => exact hkept
    | some next => exact ih next s' log' ⟨hkept, fun hpolicy => absurd hpolicy (next_ne_policyCheck hedge)⟩

/-- The output of a routing that a reply ends. -/
theorem routeGraph_result (env : RoutingLog → (call : RoutingCall) → call.Answer) (task : TaskContract)
    (requiredSkills : List String) (context : PyDict)
    (h : (routeGraph cfg env task requiredSkills context).1 = .ok s) {reply : PyDict}
    (hreply : (runs (routeGraph cfg env task requiredSkills context).2).getLast? = some (.ok (.dict reply))) :
    s.result = answerOutput reply := by
  have hstart : ReplyKept task.confidenceThreshold (initialState task requiredSkills context) [] :=
    ⟨rfl, fun reply hreply => by cases hreply⟩
  have hprog : Returns (invoke cfg recursionLimit .policyCheck (initialState task requiredSkills context))
      (fun s' log' => ReplyKept task.confidenceThreshold s' log') [] :=
    keeps_invoke recursionLimit .policyCheck _ [] ⟨hstart, fun _ => rfl⟩
  exact ((hprog.play env fun _ _ => trivial).1 s h).result reply hreply

/-! ## The fields of the reply -/

theorem routed_sortKeys (result : PyDict) :
    routed (PyValue.sortKeysItems result) = (routed result).map PyValue.sortKeys := by
  unfold routed
  simp only [PyDict.get_sortKeysItems, List.map_cons, List.map_nil]

/-- What is recorded and stored depends on what is returned. -/
theorem passesThrough_iff (task : TaskContract) (s : AndromedaState) (reply : PyDict) :
    PassesThrough task s reply ↔ passthrough (s.result.getD []) = passthrough reply := by
  constructor
  · exact fun h => h.returned
  · intro h
    have hreturned : routed (routeResult task s) = passthrough reply := h
    refine ⟨hreturned, ?_, fun result hdumps => ?_⟩
    · have hfirst : (routeResult task s).get "artifacts" = field reply "artifacts" (.list []) :=
        (List.cons.inj hreturned).1
      rw [hfirst]
    · unfold PyDict.dumps at hdumps
      split_ifs at hdumps
      rw [← Except.ok.inj hdumps, routed_sortKeys, hreturned]

theorem answerOutput_self {reply : PyDict}
    (h : sandboxUnavailable reply = true ∨ reply.lookup "result" = none) :
    answerOutput reply = some reply := by
  unfold answerOutput
  by_cases hsandbox : sandboxUnavailable reply = true
  · rw [if_pos hsandbox]
  · have hnone : reply.lookup "result" = none := h.resolve_left hsandbox
    have hfield : field reply "result" (.dict reply) = .dict reply := by
      unfold field
      rw [hnone]
      rfl
    rw [if_neg hsandbox]
    simp only [hfield]

theorem answerOutput_nested {reply : PyDict} (hsandbox : ¬ sandboxUnavailable reply = true)
    (hresult : reply.lookup "result" ≠ none) : (answerOutput reply).getD [] = nestedOutput reply := by
  obtain ⟨v, hv⟩ := Option.ne_none_iff_exists'.mp hresult
  have hfield : field reply "result" (.dict reply) = v := by
    unfold field
    rw [hv]
    rfl
  have hget : reply.get "result" = v := by
    unfold PyDict.get
    rw [hv]
    rfl
  unfold answerOutput nestedOutput
  rw [if_neg hsandbox, hfield, hget]
  cases v with
  | dict output => rfl
  | _ => rfl

theorem passthrough_answerOutput_iff (reply : PyDict) :
    passthrough ((answerOutput reply).getD []) = passthrough reply ↔ OutputAgrees reply := by
  unfold OutputAgrees
  by_cases hself : sandboxUnavailable reply = true ∨ reply.lookup "result" = none
  · rw [answerOutput_self hself, ← or_assoc]
    exact ⟨fun _ => Or.inl hself, fun _ => rfl⟩
  · obtain ⟨hsandbox, hresult⟩ := not_or.mp hself
    rw [answerOutput_nested hsandbox hresult, ← or_assoc]
    exact ⟨Or.inr, fun h => h.resolve_left hself⟩

/-- Routing passes the fields of the reply that ends it through exactly when its output agrees with it. -/
theorem routeGraph_passesThrough_iff (cfg : Config) (env : RoutingLog → (call : RoutingCall) → call.Answer)
    (task : TaskContract) (requiredSkills : List String) (context : PyDict) (s : AndromedaState)
    (reply : PyDict) (h : (routeGraph cfg env task requiredSkills context).1 = .ok s)
    (hreply : (runs (routeGraph cfg env task requiredSkills context).2).getLast? =
      some (.ok (.dict reply))) : PassesThrough task s reply ↔ OutputAgrees reply := by
  rw [passesThrough_iff, routeGraph_result env task requiredSkills context h hreply]
  exact passthrough_answerOutput_iff reply

/-- One agent with one reply, which has artifacts and is confident enough. -/
def replyEnv (reply : PyDict) (_ : RoutingLog) : (call : RoutingCall) → call.Answer
  | .consume _ => false
  | .agents => [{ agentId := "vega", skills := [{ skillId := "report" }] }]
  | .getWeights _ => []
  | .hasAgent _ => true
  | .runAgent _ _ _ _ => .ok (.dict reply)

def flatReply : PyDict :=
  [("artifacts", .list [.str "report.md"]), ("summary", .str "done"), ("confidence", .float (.finite 1))]

/-- The reply with its output under `result`, as Vega returns it. -/
def nestedReply : PyDict := ("result", .dict [("total_count", .int 3)]) :: flatReply

/-- The state that the graph ends in. -/
def finalState (reply : PyDict) : AndromedaState :=
  (routeGraph demoConfig (replyEnv reply) demoTask [] []).1.toOption.getD (initialState demoTask [] [])

theorem finalState_ok {reply : PyDict}
    (h : (routeGraph demoConfig (replyEnv reply) demoTask [] []).1.toOption.isSome = true) :
    (routeGraph demoConfig (replyEnv reply) demoTask [] []).1 = .ok (finalState reply) := by
  unfold finalState
  cases hrun : (routeGraph demoConfig (replyEnv reply) demoTask [] []).1 with
  | error e =>
    rw [hrun] at h
    cases h
  | ok s => rfl

theorem flatReply_passesThrough : PassesThrough demoTask (finalState flatReply) flatReply :=
  (routeGraph_passesThrough_iff demoConfig (replyEnv flatReply) demoTask [] [] (finalState flatReply)
    flatReply (finalState_ok (by decide +kernel)) (by decide +kernel)).mpr
      (Or.inr (Or.inl (by decide +kernel)))

/-- The artifacts and the summary of the nested reply are dropped. -/
theorem nestedReply_dropped :
    (routeGraph demoConfig (replyEnv nestedReply) demoTask [] []).1 = .ok (finalState nestedReply) ∧
    (runs (routeGraph demoConfig (replyEnv nestedReply) demoTask [] []).2).getLast? =
      some (.ok (.dict nestedReply)) ∧
    routed (routeResult demoTask (finalState nestedReply)) = passthrough [] ∧
    ¬ PassesThrough demoTask (finalState nestedReply) nestedReply := by
  have hdropped : routed (routeResult demoTask (finalState nestedReply)) = passthrough [] := by
    decide +kernel
  refine ⟨finalState_ok (by decide +kernel), by decide +kernel, hdropped, fun h => ?_⟩
  have hreturned := h.returned
  rw [hdropped] at hreturned
  exact absurd hreturned (by decide +kernel)

end Galaxz.Andromeda
