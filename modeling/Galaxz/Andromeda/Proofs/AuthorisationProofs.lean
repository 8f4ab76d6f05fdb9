import Galaxz.Andromeda.Guarantees
import Mathlib.Data.List.Dedup

/-!
# No agent runs without authorisation

What holds when a node is entered is an invariant of the state and of the record: every required skill
is permitted from the policy node on, and an agent that was matched in this pass was offered for every
required skill.
-/

namespace Galaxz.Andromeda

variable {cfg : Config} {s₀ s : AndromedaState} {log : RoutingLog}

/-! ## The record -/

theorem runs_append (log log' : RoutingLog) : runs (log ++ log') = runs log ++ runs log' :=
  List.filterMap_append

theorem currentPass_append {e : Σ call, RoutingCall.Answer call} (h : isRun e = false) :
    currentPass (log ++ [e]) = currentPass log ++ [e] := by
  unfold currentPass
  rw [List.rtakeWhile_concat_pos]
  simp [h]

theorem Offered.append {e : Σ call, RoutingCall.Answer call} {agentId skill : String}
    (h : Offered s log agentId skill) (he : isRun e = false) : Offered s (log ++ [e]) agentId skill := by
  obtain ⟨agents, hmem, hagent⟩ := h
  refine ⟨agents, ?_, hagent⟩
  rw [currentPass_append he]
  exact List.mem_append_left _ hmem

theorem Permitted.append {e : Σ call, RoutingCall.Answer call} {skill : String}
    (h : Permitted cfg s log skill) : Permitted cfg s (log ++ [e]) skill := by
  rcases h with h | ⟨h, hmem⟩
  · exact Or.inl h
  · exact Or.inr ⟨h, List.mem_append_left _ hmem⟩

/-- The policy has let the task through. -/
structure Cleared (cfg : Config) (s₀ : AndromedaState) (log : RoutingLog) : Prop where
  permitted : ∀ skill ∈ s₀.requiredSkills, Permitted cfg s₀ log skill
  not_held : ∀ key, ⟨.consume key, false⟩ ∉ log

/-- The call consumes no grant. -/
def RoutingCall.isConsume : RoutingCall → Bool
  | .consume _ => true
  | _ => false

theorem Cleared.append (h : Cleared cfg s₀ log) (call : RoutingCall) (a : call.Answer)
    (hcall : RoutingCall.isConsume call = false) : Cleared cfg s₀ (log ++ [⟨call, a⟩]) := by
  refine ⟨fun skill hskill => (h.permitted skill hskill).append, fun key hkey => ?_⟩
  rcases List.mem_append.mp hkey with hkey | hkey
  · exact h.not_held key hkey
  · have hsame := congrArg (fun e : Σ call, RoutingCall.Answer call => RoutingCall.isConsume e.1)
      (List.mem_singleton.mp hkey)
    rw [show RoutingCall.isConsume (.consume key) = true from rfl] at hsame
    rw [hcall] at hsame
    cases hsame

/-- The fields that decide about authorisation are those of the task. -/
structure SameTask (s₀ s : AndromedaState) : Prop where
  origin : s.origin = s₀.origin
  requiredSkills : s.requiredSkills = s₀.requiredSkills

/-- Every required skill was offered for the agent. -/
def OfferedAll (s₀ : AndromedaState) (log : RoutingLog) (agentId : String) : Prop :=
  ∀ skill ∈ s₀.requiredSkills, Offered s₀ log agentId skill

/-- What must hold when a call is made. -/
def CallAuthorised (cfg : Config) (s₀ : AndromedaState) (log : RoutingLog) : RoutingCall → Prop
  | .consume _ => runs log = []
  | .runAgent agentId _ _ _ => Cleared cfg s₀ log ∧ OfferedAll s₀ log agentId
  | _ => True

/-- What holds when a node is entered. -/
def NodeAuthorised (cfg : Config) (s₀ : AndromedaState) : Node → AndromedaState → RoutingLog → Prop
  | .policyCheck, s, log => s = s₀ ∧ log = []
  | .skillMatch, s, log => SameTask s₀ s ∧ Cleared cfg s₀ log
  | .loadCheck, s, log =>
    SameTask s₀ s ∧ Cleared cfg s₀ log ∧ s.matchedAgents ≠ [] ∧
      ∀ id ∈ s.matchedAgents, OfferedAll s₀ log id
  | .assign, s, log =>
    SameTask s₀ s ∧ Cleared cfg s₀ log ∧ OfferedAll s₀ log (s.assignedAgent.getD "")
  | .execute, s, log =>
    SameTask s₀ s ∧ Cleared cfg s₀ log ∧ OfferedAll s₀ log (s.assignedAgent.getD "")
  | .handleFailure, s, log => SameTask s₀ s ∧ Cleared cfg s₀ log
  | .escalate, _, _ => True
  | .complete, _, _ => True
  | .noAgentFound, _, _ => True

/-- The calls of a program are authorised, and it ends in `Q`. -/
abbrev AuthorisedProg {α : Type} (cfg : Config) (s₀ : AndromedaState) (p : Routing α)
    (Q : α → RoutingLog → Prop) (log : RoutingLog) : Prop :=
  Prog.Logged (fun _ _ => True) (CallAuthorised cfg s₀) (fun _ _ => True) p Q log

/-! ## The policy node -/

theorem heldSkills_spec (cfg : Config) (origin : Option String) (skills : List String)
    {held : List (String × PolicyDecision)} (h : heldSkills cfg origin skills = .ok held) :
    ∀ skill ∈ skills, (cfg.policy.evaluateSkill skill origin).action = .allow ∨
      (cfg.policy.evaluateSkill skill origin).action = .requireReview ∧
        skill ∈ held.map (·.1) := by
  induction skills generalizing held with
  | nil => intro skill hskill; cases hskill
  | cons first skills ih =>
    unfold heldSkills at h
    simp only at h
    by_cases hdeny : (cfg.policy.evaluateSkill first origin).action = .deny
    · rw [if_pos hdeny] at h
      cases h
    rw [if_neg hdeny] at h
    cases hrest : heldSkills cfg origin skills with
    | error d =>
      rw [hrest] at h
      cases h
    | ok rest =>
      rw [hrest] at h
      cases h
      intro skill hskill
      rcases List.mem_cons.mp hskill with rfl | hskill
      · cases haction : (cfg.policy.evaluateSkill skill origin).action with
        | allow => exact Or.inl rfl
        | deny => exact absurd haction hdeny
        | requireReview => exact Or.inr ⟨rfl, by simp⟩
      · rcases ih hrest skill hskill with hallow | ⟨hreview, hmem⟩
        · exact Or.inl hallow
        · refine Or.inr ⟨hreview, ?_⟩
          split_ifs
          · exact List.mem_cons_of_mem _ hmem
          · exact hmem

/-- The loop over the held skills: the task is held, or each of them has its grant. -/
theorem authorised_consumeGrants (held : List (String × PolicyDecision)) (log : RoutingLog)
    (hruns : runs log = []) (hheld : ∀ key, ⟨.consume key, false⟩ ∉ log) :
    AuthorisedProg cfg s₀ (consumeGrants cfg s held) (fun s' log' =>
      s'.failureReason = some "policy_requires_review" ∨
        s' = s ∧ (∀ e ∈ log, e ∈ log') ∧ (∀ key, ⟨.consume key, false⟩ ∉ log') ∧
          ∀ skill ∈ held.map (·.1), ⟨.consume (grantKey cfg s skill), true⟩ ∈ log') log := by
  induction held generalizing log with
  | nil =>
    refine Or.inr ⟨rfl, fun e he => he, hheld, ?_⟩
    intro skill hskill
    cases hskill
  | cons first held ih =>
    obtain ⟨skill, decision⟩ := first
    unfold consumeGrants
    refine Prog.Logged.call hruns fun granted _ => ?_
    cases granted with
    | false => exact Or.inl rfl
    | true =>
      have hruns' : runs (log ++ [⟨.consume (grantKey cfg s skill), true⟩]) = [] := by
        rw [runs_append, hruns]
        rfl
      have hheld' : ∀ key, ⟨.consume key, false⟩ ∉ log ++ [⟨.consume (grantKey cfg s skill), true⟩] := by
        intro key hkey
        rcases List.mem_append.mp hkey with hkey | hkey
        · exact hheld key hkey
        · simp at hkey
      refine (ih _ hruns' hheld').mono fun s' log' hpost => ?_
      rcases hpost with hpost | ⟨hs, hmono, hnot, hgrants⟩
      · exact Or.inl hpost
      · refine Or.inr ⟨hs, fun e he => hmono e (List.mem_append_left _ he), hnot, ?_⟩
        intro other hother
        rcases List.mem_cons.mp hother with rfl | hother
        · exact hmono _ (List.mem_append_right _ List.mem_cons_self)
        · exact hgrants other hother

theorem evaluateSkill_disabled (h : ¬ cfg.policy.enabled = true) (skill : String)
    (origin : Option String) : (cfg.policy.evaluateSkill skill origin).action = .allow := by
  have hrules : cfg.policy.rules = [] := by
    simpa [PolicyEngine.enabled] using h
  unfold PolicyEngine.evaluateSkill
  rw [hrules]
  rfl

theorem authorised_policyNode :
    AuthorisedProg cfg s₀ (policyNode cfg s₀) (fun s' log' =>
      s'.failureReason = some "policy_denied" ∨ s'.failureReason = some "policy_requires_review" ∨
        s' = s₀ ∧ Cleared cfg s₀ log') [] := by
  have hempty : ∀ key, ⟨.consume key, false⟩ ∉ ([] : RoutingLog) := fun key => List.not_mem_nil
  unfold policyNode
  by_cases henabled : cfg.policy.enabled = true
  · rw [if_pos henabled]
    cases hheld : heldSkills cfg s₀.origin s₀.requiredSkills with
    | error decision => exact Or.inl rfl
    | ok held =>
      refine (authorised_consumeGrants held [] rfl hempty).mono fun s' log' hpost => ?_
      rcases hpost with hpost | ⟨hs, -, hnot, hgrants⟩
      · exact Or.inr (Or.inl hpost)
      · refine Or.inr (Or.inr ⟨hs, fun skill hskill => ?_, hnot⟩)
        rcases heldSkills_spec cfg s₀.origin s₀.requiredSkills hheld skill hskill with h | ⟨h, hmem⟩
        · exact Or.inl h
        · exact Or.inr ⟨h, hgrants skill hmem⟩
  · rw [if_neg henabled]
    exact Or.inr (Or.inr ⟨rfl, fun skill _ => Or.inl (evaluateSkill_disabled henabled skill _), hempty⟩)

/-! ## The matching node -/

theorem maxBy_mem {α : Type} (key : α → PyFloat) (best : α) (xs : List α) :
    PyFloat.maxBy key best xs ∈ best :: xs := by
  induction xs generalizing best with
  | nil => exact List.mem_singleton.mpr rfl
  | cons x xs ih =>
    unfold PyFloat.maxBy
    have hmem := ih (if PyFloat.lt (key best) (key x) then x else best)
    split_ifs at hmem ⊢
    · exact List.mem_cons_of_mem _ hmem
    · rcases List.mem_cons.mp hmem with h | h
      · rw [h]
        exact List.mem_cons_self
      · exact List.mem_cons_of_mem _ (List.mem_cons_of_mem _ h)

/-- What the loop of the matching node has established: each set belongs to a skill already read. -/
def Sets (s₀ : AndromedaState) (log : RoutingLog) (skills : List String) (sets : List (List String)) :
    Prop :=
  List.Forall₂ (fun skill ids => ∀ id ∈ ids, Offered s₀ log id skill) skills sets

theorem Sets.append {e : Σ call, RoutingCall.Answer call} {skills : List String}
    {sets : List (List String)} (h : Sets s₀ log skills sets) (he : isRun e = false) :
    Sets s₀ (log ++ [e]) skills sets := by
  unfold Sets at *
  exact h.imp fun skill ids hids id hid => (hids id hid).append he

theorem getAgentsForSkill_offered {agents : List SkillManifest} {skill id : String}
    (h : id ∈ ((PulsarRegistry.getAgentsForSkill agents skill s₀.origin).map (·.agentId)).dedup) :
    Offered s₀ (log ++ [⟨.agents, agents⟩]) id skill := by
  obtain ⟨agent, hagent, hid⟩ := List.mem_map.mp (List.mem_dedup.mp h)
  obtain ⟨hmem, hoffers⟩ := List.mem_filter.mp hagent
  refine ⟨agents, ?_, agent, hmem, hid, hoffers⟩
  rw [currentPass_append rfl]
  exact List.mem_append_right _ List.mem_cons_self

theorem authorised_matchSkill (m : Matching) (skill : String) (skills : List String)
    (hsets : Sets s₀ log skills m.agentSets) (hclear : Cleared cfg s₀ log) :
    AuthorisedProg cfg s₀ (matchSkill s₀.origin m skill) (fun m' log' =>
      Sets s₀ log' (skills ++ [skill]) m'.agentSets ∧ Cleared cfg s₀ log') log := by
  unfold matchSkill
  refine Prog.Logged.call trivial fun agents _ => ?_
  have hsets1 : Sets s₀ (log ++ [⟨.agents, agents⟩]) (skills ++ [skill])
      (m.agentSets ++ [((PulsarRegistry.getAgentsForSkill agents skill s₀.origin).map
        (·.agentId)).dedup]) := by
    refine List.rel_append (hsets.append rfl) (List.Forall₂.cons ?_ List.Forall₂.nil)
    exact fun id hid => getAgentsForSkill_offered hid
  have hclear1 := hclear.append .agents agents rfl
  -- the second read decides only about the reason given
  refine Prog.Logged.bind (Q := fun _ log' => Sets s₀ log' (skills ++ [skill])
    (m.agentSets ++ [((PulsarRegistry.getAgentsForSkill agents skill s₀.origin).map
      (·.agentId)).dedup]) ∧ Cleared cfg s₀ log') ?_ fun blocked log' hlog' => ?_
  · unfold blocksOrigin
    split_ifs
    · refine Prog.Logged.call trivial fun again _ => ⟨hsets1.append rfl, hclear1.append _ _ rfl⟩
    · exact ⟨hsets1, hclear1⟩
  · refine Prog.Logged.call trivial fun weights _ => ?_
    exact ⟨hlog'.1.append rfl, hlog'.2.append _ _ rfl⟩

theorem authorised_matchSkills (rest : List String) : ∀ (m : Matching) (skills : List String)
    (log : RoutingLog), Sets s₀ log skills m.agentSets → Cleared cfg s₀ log →
    AuthorisedProg cfg s₀ (matchSkills s₀.origin m rest) (fun m' log' =>
      Sets s₀ log' (skills ++ rest) m'.agentSets ∧ Cleared cfg s₀ log') log := by
  induction rest with
  | nil =>
    intro m skills log hsets hclear
    rw [List.append_nil]
    exact ⟨hsets, hclear⟩
  | cons skill rest ih =>
    intro m skills log hsets hclear
    unfold matchSkills
    refine Prog.Logged.bind (authorised_matchSkill m skill skills hsets hclear) fun m' log' hlog' => ?_
    have hrest := ih m' (skills ++ [skill]) log' hlog'.1 hlog'.2
    rw [List.append_assoc, List.singleton_append] at hrest
    exact hrest

theorem Sets.of_mem {skills : List String} {sets : List (List String)} {skill : String}
    (h : Sets s₀ log skills sets) (hskill : skill ∈ skills) :
    ∃ ids ∈ sets, ∀ id ∈ ids, Offered s₀ log id skill := by
  unfold Sets at h
  induction h with
  | nil => cases hskill
  | @cons first ids rest sets hids _ ih =>
    rcases List.mem_cons.mp hskill with rfl | hskill
    · exact ⟨ids, List.mem_cons_self, hids⟩
    · obtain ⟨other, hother, hoffered⟩ := ih hskill
      exact ⟨other, List.mem_cons_of_mem _ hother, hoffered⟩

theorem mem_of_capable {sets : List (List String)} {id : String} (h : id ∈ capable sets) :
    ∀ ids ∈ sets, id ∈ ids := by
  cases sets with
  | nil => cases h
  | cons first rest =>
    obtain ⟨hmem, hall⟩ := List.mem_filter.mp h
    rw [List.all_eq_true] at hall
    intro ids hids
    rcases List.mem_cons.mp hids with rfl | hids
    · exact hmem
    · simpa using hall ids hids

/-- An agent in all the sets was offered for all the skills. -/
theorem Sets.capable {skills : List String} {sets : List (List String)} {id : String}
    (h : Sets s₀ log skills sets) (hid : id ∈ capable sets) :
    ∀ skill ∈ skills, Offered s₀ log id skill := by
  intro skill hskill
  obtain ⟨ids, hids, hoffered⟩ := h.of_mem hskill
  exact hoffered id (mem_of_capable hid ids hids)

theorem authorised_skillMatchNode (htask : SameTask s₀ s) (hclear : Cleared cfg s₀ log) :
    AuthorisedProg cfg s₀ (skillMatchNode s) (fun s' log' =>
      SameTask s₀ s' ∧ Cleared cfg s₀ log' ∧ ∀ id ∈ s'.matchedAgents, OfferedAll s₀ log' id) log := by
  unfold skillMatchNode
  rw [htask.origin, htask.requiredSkills]
  refine Prog.Logged.bind (authorised_matchSkills _ {} [] log List.Forall₂.nil hclear) ?_
  rintro m log' ⟨hsets, hclear'⟩
  rw [List.nil_append] at hsets
  have hsorted : ∀ id ∈ sorted (capable m.agentSets), OfferedAll s₀ log' id :=
    fun id hid => hsets.capable ((List.mem_insertionSort _).mp hid)
  cases hids : sorted (capable m.agentSets) with
  | nil =>
    refine ⟨⟨rfl, rfl⟩, hclear', ?_⟩
    intro id hid
    cases hid
  | cons id ids =>
    rw [hids] at hsorted
    dsimp only
    split_ifs
    · refine ⟨⟨rfl, rfl⟩, hclear', ?_⟩
      intro other hother
      rw [List.mem_singleton.mp hother]
      exact hsorted _ (maxBy_mem _ id ids)
    · exact ⟨⟨rfl, rfl⟩, hclear', hsorted⟩

/-! ## The other nodes -/

theorem OfferedAll.append {e : Σ call, RoutingCall.Answer call} {id : String}
    (h : OfferedAll s₀ log id) (he : isRun e = false) : OfferedAll s₀ (log ++ [e]) id :=
  fun skill hskill => (h skill hskill).append he

theorem authorised_rankAgents (required ids : List String) : ∀ (log : RoutingLog),
    Cleared cfg s₀ log → (∀ id ∈ ids, OfferedAll s₀ log id) →
    AuthorisedProg cfg s₀ (rankAgents required ids) (fun ranked log' =>
      Cleared cfg s₀ log' ∧ ranked.length = ids.length ∧
        ∀ entry ∈ ranked, OfferedAll s₀ log' entry.1) log := by
  -- the agents before the first one have been read: what they were offered is kept by later reads
  suffices h : ∀ (seen : List String) (log : RoutingLog), Cleared cfg s₀ log →
      (∀ id ∈ seen ++ ids, OfferedAll s₀ log id) →
      AuthorisedProg cfg s₀ (rankAgents required ids) (fun ranked log' =>
        Cleared cfg s₀ log' ∧ (∀ id ∈ seen, OfferedAll s₀ log' id) ∧ ranked.length = ids.length ∧
          ∀ entry ∈ ranked, OfferedAll s₀ log' entry.1) log by
    intro log hclear hids
    exact (h [] log hclear hids).mono fun ranked log' hlog' => ⟨hlog'.1, hlog'.2.2⟩
  induction ids with
  | nil =>
    intro seen log hclear hids
    refine ⟨hclear, fun id hid => hids id (List.mem_append_left _ hid), rfl, ?_⟩
    intro entry hentry
    cases hentry
  | cons id ids ih =>
    intro seen log hclear hids
    unfold rankAgents
    refine Prog.Logged.call trivial fun agents _ => ?_
    have hids' : ∀ other ∈ (seen ++ [id]) ++ ids, OfferedAll s₀ (log ++ [⟨.agents, agents⟩]) other := by
      intro other hother
      rw [List.append_assoc, List.singleton_append] at hother
      exact (hids other hother).append rfl
    refine Prog.Logged.bind (ih (seen ++ [id]) _ (hclear.append _ _ rfl) hids') ?_
    rintro ranked log' ⟨hclear', hseen, hlength, hranked⟩
    refine ⟨hclear', fun other hother => hseen other (List.mem_append_left _ hother),
      congrArg Nat.succ hlength, ?_⟩
    intro entry hentry
    rcases List.mem_cons.mp hentry with rfl | hentry
    · exact hseen id (List.mem_append_right _ List.mem_cons_self)
    · exact hranked entry hentry

theorem authorised_loadCheckNode (htask : SameTask s₀ s) (hclear : Cleared cfg s₀ log)
    (hids : ∀ id ∈ s.matchedAgents, OfferedAll s₀ log id) (hmatched : s.matchedAgents ≠ []) :
    AuthorisedProg cfg s₀ (loadCheckNode s) (fun s' log' =>
      SameTask s₀ s' ∧ Cleared cfg s₀ log' ∧ OfferedAll s₀ log' (s'.assignedAgent.getD "")) log := by
  unfold loadCheckNode
  refine Prog.Logged.bind (authorised_rankAgents s.requiredSkills s.matchedAgents log hclear hids) ?_
  rintro ranked log' ⟨hclear', hlength, hranked⟩
  cases ranked with
  | nil => exact absurd (List.length_eq_zero_iff.mp hlength.symm) hmatched
  | cons best rest =>
    refine ⟨⟨htask.origin, htask.requiredSkills⟩, hclear', ?_⟩
    exact hranked _ (maxBy_mem _ best rest)

theorem merge_sameTask {s' : AndromedaState} {result : PyDict} (h : merge cfg s result = .ok s') :
    s'.origin = s.origin ∧ s'.requiredSkills = s.requiredSkills := by
  unfold merge at h
  split_ifs at h
  · obtain ⟨breakdown, -, h⟩ := (except_bind_ok_iff _ _ _).mp h
    cases h
    exact ⟨rfl, rfl⟩
  · obtain ⟨output, -, h⟩ := (except_bind_ok_iff _ _ _).mp h
    obtain ⟨confidence, -, h⟩ := (except_bind_ok_iff _ _ _).mp h
    obtain ⟨breakdown, -, h⟩ := (except_bind_ok_iff _ _ _).mp h
    obtain ⟨gaps, -, h⟩ := (except_bind_ok_iff _ _ _).mp h
    cases h
    exact ⟨rfl, rfl⟩

theorem received_sameTask {s' : AndromedaState} {answer : Except String PyValue}
    (h : received cfg s answer = .ok s') :
    s'.origin = s.origin ∧ s'.requiredSkills = s.requiredSkills := by
  rcases answer with text | v
  · cases h
    exact ⟨rfl, rfl⟩
  · cases v with
    | dict result => exact merge_sameTask h
    | _ =>
      cases h
      exact ⟨rfl, rfl⟩

theorem authorised_executeNode (htask : SameTask s₀ s) (hclear : Cleared cfg s₀ log)
    (hoffered : OfferedAll s₀ log (s.assignedAgent.getD "")) :
    AuthorisedProg cfg s₀ (executeNode cfg s) (fun s' log' =>
      SameTask s₀ s' ∧ Cleared cfg s₀ log') log := by
  unfold executeNode
  dsimp only
  cases hskills : s.requiredSkills with
  | nil => trivial
  | cons skillId skills =>
    refine Prog.Logged.call trivial fun known _ => ?_
    have hclear' := hclear.append (.hasAgent (s.assignedAgent.getD "")) known rfl
    cases known with
    | false => exact ⟨⟨htask.origin, htask.requiredSkills⟩, hclear'⟩
    | true =>
      refine Prog.Logged.call ⟨hclear', hoffered.append rfl⟩ fun answer _ => ?_
      have hclear'' := hclear'.append (.runAgent (s.assignedAgent.getD "") skillId s.payload
        (PyDict.set s.context "task_id" (.str s.taskId))) answer rfl
      cases hreceived : received cfg s answer with
      | error e => trivial
      | ok s' =>
        obtain ⟨horigin, hrequired⟩ := received_sameTask hreceived
        exact ⟨⟨horigin.trans htask.origin, hrequired.trans htask.requiredSkills⟩, hclear''⟩

/-! ## The graph -/

/-- A node that is entered as it should be calls nothing it must not, and the next one is entered as it
should be. -/
theorem authorised_node (node : Node) (h : NodeAuthorised cfg s₀ node s log)
    (hstart : s₀.failureReason = none) :
    AuthorisedProg cfg s₀ (node.run cfg s) (fun s' log' =>
      ∀ next, node.next cfg s' = some next → NodeAuthorised cfg s₀ next s' log') log := by
  cases node with
  | policyCheck =>
    obtain ⟨rfl, rfl⟩ := h
    refine authorised_policyNode.mono fun s' log' hpost next hnext => ?_
    cases hnext
    unfold afterPolicy
    rcases hpost with hdenied | hheld | ⟨rfl, hclear⟩
    · rw [if_pos hdenied]
      trivial
    · have hne : s'.failureReason ≠ some "policy_denied" := by rw [hheld]; decide
      rw [if_neg hne, if_pos hheld]
      trivial
    · rw [hstart, if_neg (by simp), if_neg (by simp)]
      exact ⟨⟨rfl, rfl⟩, hclear⟩
  | skillMatch =>
    refine (authorised_skillMatchNode h.1 h.2).mono fun s' log' hpost next hnext => ?_
    cases hnext
    unfold afterSkillMatch
    split_ifs with hmatched hstatus
    · exact ⟨hpost.1, hpost.2.1, hmatched, hpost.2.2⟩
    · trivial
    · trivial
  | loadCheck =>
    obtain ⟨htask, hclear, hmatched, hids⟩ := h
    refine (authorised_loadCheckNode htask hclear hids hmatched).mono fun s' log' hpost next hnext => ?_
    cases hnext
    unfold afterLoadCheck
    split_ifs
    · exact hpost
    · trivial
    · trivial
  | assign =>
    intro next hnext
    cases hnext
    exact ⟨⟨h.1.origin, h.1.requiredSkills⟩, h.2⟩
  | execute =>
    refine (authorised_executeNode h.1 h.2.1 h.2.2).mono fun s' log' hpost next hnext => ?_
    cases hnext
    unfold afterExecute
    dsimp only
    split_ifs
    · trivial
    · trivial
    · exact hpost
    · trivial
  | handleFailure =>
    intro next hnext
    cases hnext
    have htask : SameTask s₀ (handleFailureNode s) := by
      unfold handleFailureNode
      dsimp only
      split_ifs
      · exact ⟨h.1.origin, h.1.requiredSkills⟩
      · exact ⟨h.1.origin, h.1.requiredSkills⟩
    unfold afterHandleFailure
    split_ifs
    · exact ⟨htask, h.2⟩
    · trivial
  | escalate =>
    intro next hnext
    cases hnext
  | complete =>
    intro next hnext
    cases hnext
  | noAgentFound =>
    intro next hnext
    cases hnext

theorem authorised_invoke (hstart : s₀.failureReason = none) (n : ℕ) :
    ∀ (node : Node) (s : AndromedaState) (log : RoutingLog), NodeAuthorised cfg s₀ node s log →
      AuthorisedProg cfg s₀ (invoke cfg n node s) (fun _ _ => True) log := by
  induction n with
  | zero => exact fun _ _ _ _ => trivial
  | succ n ih =>
    intro node s log h
    unfold invoke
    refine Prog.Logged.bind (authorised_node node h hstart) fun s' log' hnext => ?_
    cases hedge : node.next cfg s' with
    | none => trivial
    | some next => exact ih next s' log' (hnext next hedge)

/-- What holds of the calls of a record, each after what came before it. -/
def CallsAuthorised (cfg : Config) (s₀ : AndromedaState) (log : RoutingLog) : Prop :=
  ∀ before e after, log = before ++ e :: after → CallAuthorised cfg s₀ before e.1

/-- An agent that answered was run at some point of the record. -/
theorem exists_run_of_runs {log : RoutingLog} (h : runs log ≠ []) :
    ∃ before agentId skillId payload context answer after,
      log = before ++ ⟨.runAgent agentId skillId payload context, answer⟩ :: after := by
  unfold runs at h
  rw [Ne, List.filterMap_eq_nil_iff] at h
  push Not at h
  obtain ⟨e, he, hrun⟩ := h
  obtain ⟨before, after, hsplit⟩ := List.append_of_mem he
  obtain ⟨call, answer⟩ := e
  cases call with
  | runAgent agentId skillId payload context =>
    exact ⟨before, agentId, skillId, payload, context, answer, after, hsplit⟩
  | _ => exact absurd rfl hrun

/-- A record whose calls are authorised shows no run of a denied or held task. -/
theorem CallsAuthorised.authorised {log : RoutingLog} (h : CallsAuthorised cfg s₀ log) :
    Authorised cfg s₀ log := by
  refine ⟨?_, ?_, ?_, ?_⟩
  · intro before agentId skillId payload context answer after hlog
    exact (h before _ after hlog).1.permitted
  · intro before agentId skillId payload context answer after hlog
    exact (h before _ after hlog).2
  · rintro ⟨skill, hskill, hdeny⟩
    by_contra hruns
    obtain ⟨before, agentId, skillId, payload, context, answer, after, hlog⟩ := exists_run_of_runs hruns
    rcases (h before _ after hlog).1.permitted skill hskill with hallow | ⟨hreview, -⟩
    · rw [hdeny] at hallow
      cases hallow
    · rw [hdeny] at hreview
      cases hreview
  · rintro ⟨key, hkey⟩
    by_contra hruns
    obtain ⟨before, agentId, skillId, payload, context, answer, after, hlog⟩ := exists_run_of_runs hruns
    have hclear := (h before _ after hlog).1
    -- the grant was refused after the run: but no grant is asked for then
    rw [hlog] at hkey
    rcases List.mem_append.mp hkey with hkey | hkey
    · exact hclear.not_held key hkey
    · rcases List.mem_cons.mp hkey with hkey | hkey
      · exact absurd (congrArg isRun hkey) Bool.false_ne_true
      · obtain ⟨between, last, hafter⟩ := List.append_of_mem hkey
        have hnone : runs (before ++ ⟨.runAgent agentId skillId payload context, answer⟩ :: between) = [] := by
          refine h _ ⟨.consume key, false⟩ last ?_
          rw [hlog, hafter, List.append_assoc, List.cons_append]
        rw [runs_append] at hnone
        exact absurd (List.append_eq_nil_iff.mp hnone).2 (List.cons_ne_nil answer _)

/-- No agent runs without authorisation, along every path of the routing graph. -/
theorem route_authorised (cfg : Config) (env : RoutingLog → (call : RoutingCall) → call.Answer)
    (task : TaskContract) (requiredSkills : List String) (context : PyDict) :
    Authorised cfg (initialState task requiredSkills context)
      (routeGraph cfg env task requiredSkills context).2 := by
  have hprog : AuthorisedProg cfg (initialState task requiredSkills context)
      (invoke cfg recursionLimit .policyCheck (initialState task requiredSkills context))
      (fun _ _ => True) [] := authorised_invoke rfl recursionLimit .policyCheck _ [] ⟨rfl, rfl⟩
  obtain ⟨-, -, events, hlog, hcalls⟩ := hprog.play env fun _ _ => trivial
  have hlog' : (routeGraph cfg env task requiredSkills context).2 = events := hlog
  rw [hlog']
  exact CallsAuthorised.authorised hcalls

end Galaxz.Andromeda
