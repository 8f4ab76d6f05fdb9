import Galaxz.Andromeda.Proofs.AuthorisationProofs

/-!
# Routing terminates with the right verdict

A node is entered with as many runs of agents behind it as the retry counter says, all of them too
uncertain to complete and too certain to be retried again; what LangGraph's recursion limit leaves is
always enough.
-/

namespace Galaxz.Andromeda

variable {cfg : Config} {s : AndromedaState} {log : RoutingLog} {t : PyFloat}

/-! ## What an agent returned -/

theorem dictField_ok (name : String) {v : PyValue} (h : isDictOrNone v = true) :
    ∃ d, dictField name v = .ok d := by
  cases v with
  | none => exact ⟨none, rfl⟩
  | dict items => exact ⟨some items, rfl⟩
  | _ => cases h

theorem gapsField_cons {text : String} {xs : List PyValue} {gaps : List String}
    (h : gapsField (.list xs) = .ok gaps) : gapsField (.list (.str text :: xs)) = .ok (text :: gaps) := by
  simp only [gapsField] at h ⊢
  rw [List.mapM_cons, h]
  rfl

theorem gapsField_ok {v : PyValue} (h : isStrList v = true) : ∃ gaps, gapsField v = .ok gaps := by
  cases v with
  | list xs =>
    induction xs with
    | nil => exact ⟨[], rfl⟩
    | cons x xs ih =>
      have hall := List.all_eq_true.mp h
      obtain ⟨gaps, hgaps⟩ := ih (List.all_eq_true.mpr fun y hy => hall y (List.mem_cons_of_mem _ hy))
      have hx := hall x List.mem_cons_self
      cases x with
      | str text => exact ⟨text :: gaps, gapsField_cons hgaps⟩
      | _ => cases hx
  | _ => cases h

/-- A confidence that fits is read as the number it is, and `None` as zero. -/
theorem confidenceField_ok (cfg : Config) {v : PyValue} (h : isConfidence v = true) :
    ∃ c, confidenceField cfg v = .ok c ∧ c.getD (.finite 0) = v.number.getD (.finite 0) := by
  have hrange : ∀ x : PyFloat, (PyFloat.le (.finite 0) x && x.le (.finite 1)) = true →
      ∃ q : ℚ, x = .finite q ∧ x.lt (.finite 0) = false ∧ PyFloat.lt (.finite 1) x = false := by
    intro x hx
    rw [Bool.and_eq_true] at hx
    cases x with
    | finite q =>
      have hx0 : (0 : ℚ) ≤ q := of_decide_eq_true hx.1
      have hx1 : q ≤ 1 := of_decide_eq_true hx.2
      exact ⟨q, rfl, decide_eq_false (not_lt.mpr hx0), decide_eq_false (not_lt.mpr hx1)⟩
    | posInf => cases hx.2
    | negInf => cases hx.1
    | nan => cases hx.1
  have hnumber : ∀ x : PyFloat, v.number = some x → v ≠ .none → (∀ text, v ≠ .str text) →
      (PyFloat.le (.finite 0) x && x.le (.finite 1)) = true →
      ∃ c, confidenceField cfg v = .ok c ∧ c.getD (.finite 0) = v.number.getD (.finite 0) := by
    intro x hx _ _ hin
    obtain ⟨q, hq, hlow, hhigh⟩ := hrange x hin
    refine ⟨some x, ?_, by rw [hx]⟩
    cases v with
    | bool b => cases hx; simp [confidenceField, PyValue.number, hlow, hhigh]
    | int n => cases hx; simp [confidenceField, PyValue.number, hlow, hhigh]
    | float y => cases hx; simp [confidenceField, PyValue.number, hlow, hhigh]
    | _ => cases hx
  unfold isConfidence at h
  rw [Bool.or_eq_true, decide_eq_true_eq] at h
  rcases h with rfl | h
  · exact ⟨none, rfl, rfl⟩
  · cases hv : v.number with
    | none =>
      rw [hv] at h
      cases h
    | some x =>
      rw [hv] at h
      rw [← hv]
      refine hnumber x hv ?_ ?_ h
      · rintro rfl
        cases hv
      · rintro text rfl
        cases hv

/-- What the graph makes of an answer that fits: the run failed, or its confidence is in the state. -/
theorem received_ok (cfg : Config) (s : AndromedaState) {answer : Except String PyValue}
    (h : ∀ result, answer = .ok (.dict result) → FitsSchema result) :
    ∃ s', received cfg s answer = .ok s' ∧ s'.retryCount = s.retryCount ∧
      s'.requiredSkills = s.requiredSkills ∧ s'.confidenceThreshold = s.confidenceThreshold ∧
      (outcome answer = none ∧ s'.status = .failed ∨
        outcome answer = some (s'.confidence.getD (.finite 0)) ∧ s'.status = .complete) := by
  rcases answer with text | v
  · exact ⟨_, rfl, rfl, rfl, rfl, Or.inl ⟨rfl, rfl⟩⟩
  · cases v with
    | dict result =>
      obtain ⟨hresult, hconfidence, hbreakdown, hgaps⟩ := h result rfl
      obtain ⟨output, houtput⟩ := dictField_ok "result" hresult
      obtain ⟨breakdown, hbreakdown⟩ := dictField_ok "confidence_breakdown" hbreakdown
      obtain ⟨gaps, hgaps⟩ := gapsField_ok hgaps
      obtain ⟨c, hc, hvalue⟩ := confidenceField_ok cfg hconfidence
      simp only [received, merge, outcome, houtput, hbreakdown, hgaps, hc]
      by_cases hsandbox : sandboxUnavailable result = true
      · rw [if_pos hsandbox, if_pos hsandbox]
        exact ⟨_, rfl, rfl, rfl, rfl, Or.inl ⟨rfl, rfl⟩⟩
      · rw [if_neg hsandbox, if_neg hsandbox]
        exact ⟨_, rfl, rfl, rfl, rfl, Or.inr ⟨congrArg some hvalue.symm, rfl⟩⟩
    | _ => exact ⟨_, rfl, rfl, rfl, rfl, Or.inl ⟨rfl, rfl⟩⟩

/-! ## What holds when a node is entered -/

/-- A run that neither failed nor was confident enough, but deserves another attempt. -/
def Retried (t : PyFloat) (answer : Except String PyValue) : Prop :=
  ∃ c, outcome answer = some c ∧ t.le c = false ∧ retryThreshold.le c = true

/-- No agent was run in this pass. -/
structure Before (t : PyFloat) (s : AndromedaState) (log : RoutingLog) : Prop where
  threshold : s.confidenceThreshold = some t
  required : s.requiredSkills ≠ []
  retries : s.retryCount ≤ 1
  count : (runs log).length = s.retryCount
  retried : ∀ answer ∈ runs log, Retried t answer

/-- An agent was run in this pass and was not confident enough. -/
structure After (t : PyFloat) (s : AndromedaState) (log : RoutingLog) : Prop where
  threshold : s.confidenceThreshold = some t
  required : s.requiredSkills ≠ []
  retries : s.retryCount ≤ 1
  runs_eq : ∃ earlier last, runs log = earlier ++ [last] ∧ earlier.length = s.retryCount ∧
    (∀ answer ∈ earlier, Retried t answer) ∧ outcome last = some (s.confidence.getD (.finite 0))
  uncertain : t.le (s.confidence.getD (.finite 0)) = false

/-- The number of runs at the end. -/
structure Bounded (t : PyFloat) (log : RoutingLog) : Prop where
  at_most_twice : (runs log).length ≤ 2
  retried : (runs log).length = 2 → ∃ answer ∈ runs log, Retried t answer

theorem Before.bounded (h : Before t s log) : Bounded t log := by
  have hcount := h.count
  have hretries := h.retries
  exact ⟨by omega, fun htwo => by omega⟩

theorem Before.not_succeeded (h : Before t s log) : ¬ Succeeded t log := by
  rintro ⟨answer, c, hlast, houtcome, hc⟩
  obtain ⟨c', houtcome', hc', -⟩ := h.retried answer (List.mem_of_getLast? hlast)
  rw [houtcome] at houtcome'
  cases houtcome'
  rw [hc] at hc'
  cases hc'

theorem bounded_of_runs {earlier : List (Except String PyValue)} {last : Except String PyValue}
    (hruns : runs log = earlier ++ [last]) (hlength : earlier.length ≤ 1)
    (hretried : ∀ answer ∈ earlier, Retried t answer) : Bounded t log := by
  have hcount : (runs log).length = earlier.length + 1 := by
    rw [hruns, List.length_append, List.length_singleton]
  refine ⟨by omega, fun htwo => ?_⟩
  have hpos : 0 < earlier.length := by omega
  obtain ⟨first, hfirst⟩ := List.exists_mem_of_length_pos hpos
  refine ⟨first, ?_, hretried first hfirst⟩
  rw [hruns]
  exact List.mem_append_left _ hfirst

theorem succeeded_iff_of_runs {earlier : List (Except String PyValue)} {last : Except String PyValue}
    (hruns : runs log = earlier ++ [last]) :
    Succeeded t log ↔ ∃ c, outcome last = some c ∧ t.le c = true := by
  unfold Succeeded
  rw [hruns, List.getLast?_concat]
  constructor
  · rintro ⟨answer, c, hanswer, h⟩
    cases hanswer
    exact ⟨c, h⟩
  · rintro ⟨c, h⟩
    exact ⟨last, c, rfl, h⟩

theorem After.bounded (h : After t s log) : Bounded t log := by
  obtain ⟨earlier, last, hruns, hlength, hretried, -⟩ := h.runs_eq
  exact bounded_of_runs hruns (hlength ▸ h.retries) hretried

theorem After.not_succeeded (h : After t s log) : ¬ Succeeded t log := by
  obtain ⟨earlier, last, hruns, -, -, houtcome⟩ := h.runs_eq
  rw [succeeded_iff_of_runs hruns]
  rintro ⟨c, hc, hle⟩
  rw [houtcome] at hc
  cases hc
  rw [h.uncertain] at hle
  cases hle

/-- What holds when a node is entered. -/
def NodeVerdict (t : PyFloat) : Node → AndromedaState → RoutingLog → Prop
  | .policyCheck, s, log => Before t s log ∧ s.retryCount = 0
  | .skillMatch, s, log => Before t s log
  | .loadCheck, s, log => Before t s log
  | .assign, s, log => Before t s log
  | .execute, s, log => Before t s log
  | .handleFailure, s, log => After t s log
  | .escalate, _, log => Bounded t log ∧ ¬ Succeeded t log
  | .complete, _, log => Bounded t log ∧ Succeeded t log
  | .noAgentFound, _, log => Bounded t log ∧ ¬ Succeeded t log

/-- The steps that the graph may still take, with so many retries behind it. -/
def stepsLeft : Node → ℕ → ℕ
  | .policyCheck, _ => 12
  | .skillMatch, r => 11 - 5 * r
  | .loadCheck, r => 10 - 5 * r
  | .assign, r => 9 - 5 * r
  | .execute, r => 8 - 5 * r
  | .handleFailure, r => 7 - 5 * r
  | .escalate, _ => 1
  | .complete, _ => 1
  | .noAgentFound, _ => 1

/-- How the graph ends. -/
def FinalVerdict (t : PyFloat) (s : AndromedaState) (log : RoutingLog) : Prop :=
  Bounded t log ∧ (s.status = .complete ∨ s.status = .escalated ∨ s.status = .noAgentFound) ∧
    (s.status = .complete ↔ Succeeded t log)

/-- A program that does not raise when the agents' answers fit, and ends in `Q`. -/
abbrev Proper {α : Type} (p : Routing α) (Q : α → RoutingLog → Prop) (log : RoutingLog) : Prop :=
  Prog.Logged AnswerFits (fun _ _ => True) (fun _ _ => False) p Q log

/-! ## Nodes that run no agent -/

section Quiet

variable {V : (call : RoutingCall) → call.Answer → Prop} {E : PyError → RoutingLog → Prop}

/-- Nothing that the verdict depends on has changed. -/
structure Unmoved (s : AndromedaState) (log : RoutingLog) (s' : AndromedaState) (log' : RoutingLog) :
    Prop where
  runs_eq : runs log' = runs log
  threshold : s'.confidenceThreshold = s.confidenceThreshold
  required : s'.requiredSkills = s.requiredSkills
  retries : s'.retryCount = s.retryCount
  task : s'.taskId = s.taskId

theorem Unmoved.before {s' : AndromedaState} {log' : RoutingLog} (h : Unmoved s log s' log')
    (hbefore : Before t s log) : Before t s' log' := by
  refine ⟨h.threshold.trans hbefore.threshold, ?_, ?_, ?_, ?_⟩
  · rw [h.required]
    exact hbefore.required
  · rw [h.retries]
    exact hbefore.retries
  · rw [h.runs_eq, h.retries]
    exact hbefore.count
  · rw [h.runs_eq]
    exact hbefore.retried

theorem runs_concat {e : Σ call, RoutingCall.Answer call} (h : isRun e = false) :
    runs (log ++ [e]) = runs log := by
  obtain ⟨call, answer⟩ := e
  rw [runs_append]
  cases call with
  | runAgent _ _ _ _ => cases h
  | _ => exact List.append_nil _

/-- The output is the record of a hold, and the task is held. -/
def HeldBy (s : AndromedaState) (log : RoutingLog) : Prop :=
  s.failureReason = some "policy_requires_review" ∧
    ∃ key decision, s.result = some (policyHold key decision) ∧ ⟨.consume key, false⟩ ∈ log

theorem quiet_consumeGrants (held : List (String × PolicyDecision)) : ∀ log : RoutingLog,
    Prog.Logged V (fun _ _ => True) E (consumeGrants cfg s held) (fun s' log' =>
      Unmoved s log s' log' ∧ (s'.result = s.result ∨ HeldBy s' log')) log := by
  induction held with
  | nil => exact fun log => ⟨⟨rfl, rfl, rfl, rfl, rfl⟩, Or.inl rfl⟩
  | cons first held ih =>
    intro log
    obtain ⟨skill, decision⟩ := first
    unfold consumeGrants
    refine Prog.Logged.call trivial fun granted _ => ?_
    have hruns : runs (log ++ [⟨.consume (grantKey cfg s skill), granted⟩]) = runs log := runs_concat rfl
    cases granted with
    | false =>
      refine ⟨⟨hruns, rfl, rfl, rfl, rfl⟩, Or.inr ⟨rfl, grantKey cfg s skill, decision, rfl, ?_⟩⟩
      exact List.mem_append_right _ List.mem_cons_self
    | true =>
      refine (ih _).mono fun s' log' hpost => ⟨?_, hpost.2⟩
      exact ⟨hpost.1.runs_eq.trans hruns, hpost.1.threshold, hpost.1.required, hpost.1.retries,
        hpost.1.task⟩

theorem quiet_policyNode (log : RoutingLog) :
    Prog.Logged V (fun _ _ => True) E (policyNode cfg s) (fun s' log' =>
      Unmoved s log s' log' ∧ (s'.result = s.result ∨ HeldBy s' log')) log := by
  unfold policyNode
  split_ifs
  · cases heldSkills cfg s.origin s.requiredSkills with
    | error decision => exact ⟨⟨rfl, rfl, rfl, rfl, rfl⟩, Or.inl rfl⟩
    | ok held => exact quiet_consumeGrants held log
  · exact ⟨⟨rfl, rfl, rfl, rfl, rfl⟩, Or.inl rfl⟩

theorem quiet_matchSkill (origin : Option String) (m : Matching) (skill : String) (log : RoutingLog) :
    Prog.Logged V (fun _ _ => True) E (matchSkill origin m skill)
      (fun _ log' => runs log' = runs log) log := by
  unfold matchSkill
  refine Prog.Logged.call trivial fun agents _ => ?_
  refine Prog.Logged.bind (Q := fun _ log' => runs log' = runs log) ?_ fun blocked log' hlog' => ?_
  · unfold blocksOrigin
    split_ifs
    · refine Prog.Logged.call trivial fun again _ => ?_
      exact (runs_concat rfl).trans (runs_concat rfl)
    · exact runs_concat rfl
  · refine Prog.Logged.call trivial fun weights _ => ?_
    exact (runs_concat rfl).trans hlog'

theorem quiet_matchSkills (origin : Option String) (skills : List String) : ∀ (m : Matching)
    (log : RoutingLog), Prog.Logged V (fun _ _ => True) E (matchSkills origin m skills)
      (fun _ log' => runs log' = runs log) log := by
  induction skills with
  | nil => exact fun m log => rfl
  | cons skill skills ih =>
    intro m log
    unfold matchSkills
    refine Prog.Logged.bind (quiet_matchSkill origin m skill log) fun m' log' hlog' => ?_
    exact (ih m' log').mono fun _ log'' hlog'' => hlog''.trans hlog'

theorem quiet_skillMatchNode (log : RoutingLog) :
    Prog.Logged V (fun _ _ => True) E (skillMatchNode s) (fun s' log' =>
      Unmoved s log s' log' ∧ s'.result = s.result) log := by
  unfold skillMatchNode
  refine Prog.Logged.bind (quiet_matchSkills s.origin s.requiredSkills {} log) fun m log' hlog' => ?_
  cases sorted (capable m.agentSets) with
  | nil => exact ⟨⟨hlog', rfl, rfl, rfl, rfl⟩, rfl⟩
  | cons id ids =>
    dsimp only
    split_ifs
    · exact ⟨⟨hlog', rfl, rfl, rfl, rfl⟩, rfl⟩
    · exact ⟨⟨hlog', rfl, rfl, rfl, rfl⟩, rfl⟩

theorem quiet_rankAgents (required ids : List String) : ∀ log : RoutingLog,
    Prog.Logged V (fun _ _ => True) E (rankAgents required ids)
      (fun _ log' => runs log' = runs log) log := by
  induction ids with
  | nil => exact fun log => rfl
  | cons id ids ih =>
    intro log
    unfold rankAgents
    refine Prog.Logged.call trivial fun agents _ => ?_
    refine Prog.Logged.bind (ih _) fun ranked log' hlog' => ?_
    exact hlog'.trans (runs_concat rfl)

theorem quiet_loadCheckNode (log : RoutingLog) :
    Prog.Logged V (fun _ _ => True) E (loadCheckNode s) (fun s' log' =>
      Unmoved s log s' log' ∧ s'.result = s.result) log := by
  unfold loadCheckNode
  refine Prog.Logged.bind (quiet_rankAgents s.requiredSkills s.matchedAgents log) ?_
  intro ranked log' hlog'
  cases ranked with
  | nil => exact ⟨⟨hlog', rfl, rfl, rfl, rfl⟩, rfl⟩
  | cons best rest => exact ⟨⟨hlog', rfl, rfl, rfl, rfl⟩, rfl⟩

end Quiet

/-! ## The run of an agent -/

/-- What the run of an agent leaves: it failed, or its confidence is in the state. -/
structure Ran (t : PyFloat) (s s' : AndromedaState) (log' : RoutingLog) : Prop where
  threshold : s'.confidenceThreshold = some t
  required : s'.requiredSkills ≠ []
  retries : s'.retryCount = s.retryCount
  answered : s'.status = .failed ∧ Bounded t log' ∧ ¬ Succeeded t log' ∨
    s'.status = .complete ∧ ∃ earlier last, runs log' = earlier ++ [last] ∧
      earlier.length = s'.retryCount ∧ (∀ answer ∈ earlier, Retried t answer) ∧
      outcome last = some (s'.confidence.getD (.finite 0))

theorem proper_executeNode (h : Before t s log) :
    Proper (executeNode cfg s) (fun s' log' => Ran t s s' log') log := by
  unfold executeNode
  dsimp only
  cases hskills : s.requiredSkills with
  | nil => exact absurd hskills h.required
  | cons skillId skills =>
    refine Prog.Logged.call trivial fun known _ => ?_
    have hknown : runs (log ++ [⟨.hasAgent (s.assignedAgent.getD ""), known⟩]) = runs log :=
      runs_concat rfl
    have hbefore : Before t s (log ++ [⟨.hasAgent (s.assignedAgent.getD ""), known⟩]) :=
      Unmoved.before ⟨hknown, rfl, rfl, rfl, rfl⟩ h
    cases known with
    | false =>
      exact ⟨h.threshold, h.required, rfl, Or.inl ⟨rfl, hbefore.bounded, hbefore.not_succeeded⟩⟩
    | true =>
      refine Prog.Logged.call trivial fun answer hfits => ?_
      obtain ⟨s', hreceived, hretries, hrequired, hthreshold, houtcome⟩ :=
        received_ok cfg s hfits
      rw [hreceived]
      have hruns : runs (log ++ [⟨.hasAgent (s.assignedAgent.getD ""), true⟩] ++
          [⟨.runAgent (s.assignedAgent.getD "") skillId s.payload
            (PyDict.set s.context "task_id" (.str s.taskId)), answer⟩]) = runs log ++ [answer] := by
        rw [runs_append, hknown]
        rfl
      have hlength : (runs log).length ≤ 1 := h.count ▸ h.retries
      refine ⟨hthreshold.trans h.threshold, hrequired ▸ h.required, hretries, ?_⟩
      rcases houtcome with ⟨hnone, hstatus⟩ | ⟨hsome, hstatus⟩
      · refine Or.inl ⟨hstatus, bounded_of_runs hruns hlength h.retried, ?_⟩
        rw [succeeded_iff_of_runs hruns, hnone]
        rintro ⟨c, hc, -⟩
        cases hc
      · exact Or.inr ⟨hstatus, runs log, answer, hruns, h.count.trans hretries.symm, h.retried, hsome⟩

/-! ## The graph -/

theorem verdict_afterExecute {s' : AndromedaState} {log' : RoutingLog} (h : Ran t s s' log')
    (hretries : s.retryCount ≤ 1) : NodeVerdict t (afterExecute cfg s') s' log' := by
  have hthreshold : s'.confidenceThreshold.getD cfg.completionThreshold = t := by
    rw [h.threshold]
    rfl
  unfold afterExecute
  dsimp only
  rw [hthreshold]
  rcases h.answered with ⟨hstatus, hbounded, hnot⟩ | ⟨hstatus, earlier, last, hruns, hlength, hretried, hlast⟩
  · rw [if_pos hstatus]
    exact ⟨hbounded, hnot⟩
  · have hbounded : Bounded t log' := by
      refine bounded_of_runs hruns ?_ hretried
      rw [hlength, h.retries]
      exact hretries
    have hne : s'.status ≠ .failed := by rw [hstatus]; decide
    rw [if_neg hne]
    by_cases hsure : t.le (s'.confidence.getD (.finite 0)) = true
    · rw [if_pos hsure]
      exact ⟨hbounded, (succeeded_iff_of_runs hruns).mpr ⟨_, hlast, hsure⟩⟩
    · have hunsure := Bool.eq_false_iff.mpr hsure
      have hafter : After t s' log' :=
        ⟨h.threshold, h.required, h.retries ▸ hretries, ⟨earlier, last, hruns, hlength, hretried, hlast⟩,
          hunsure⟩
      rw [if_neg hsure]
      split_ifs
      · exact hafter
      · exact ⟨hafter.bounded, hafter.not_succeeded⟩

/-- A retry starts a new pass with one more run behind it. -/
theorem After.retry (h : After t s log) (hretry : s.retryCount < 1)
    (hsure : retryThreshold.le (s.confidence.getD (.finite 0)) = true) :
    Before t { s with retryCount := s.retryCount + 1, status := .routing } log := by
  obtain ⟨earlier, last, hruns, hlength, hretried, hlast⟩ := h.runs_eq
  refine ⟨h.threshold, h.required, hretry, ?_, ?_⟩
  · show (runs log).length = s.retryCount + 1
    rw [hruns, List.length_append, List.length_singleton, hlength]
  · intro answer hanswer
    rw [hruns] at hanswer
    rcases List.mem_append.mp hanswer with hanswer | hanswer
    · exact hretried answer hanswer
    · rw [List.mem_singleton.mp hanswer]
      exact ⟨_, hlast, h.uncertain, hsure⟩

/-- What a node leaves: the next one is entered as it should be with one step less to go, or the graph
ends as it should. -/
def Onward (cfg : Config) (t : PyFloat) (node : Node) (r : ℕ) (s' : AndromedaState) (log' : RoutingLog) :
    Prop :=
  (∀ next, node.next cfg s' = some next →
    NodeVerdict t next s' log' ∧ stepsLeft next s'.retryCount < stepsLeft node r) ∧
  (node.next cfg s' = none → FinalVerdict t s' log')

theorem verdict_node (node : Node) (h : NodeVerdict t node s log) :
    Proper (node.run cfg s) (fun s' log' => Onward cfg t node s.retryCount s' log') log := by
  cases node with
  | policyCheck =>
    obtain ⟨hbefore, hzero⟩ := h
    refine (quiet_policyNode log).mono fun s' log' hpost => ⟨fun next hnext => ?_, fun hend => ?_⟩
    · have hbefore' := hpost.1.before hbefore
      have hretries := hpost.1.retries
      cases hnext
      unfold afterPolicy
      split_ifs
      · exact ⟨⟨hbefore'.bounded, hbefore'.not_succeeded⟩, show 1 < 12 by omega⟩
      · exact ⟨⟨hbefore'.bounded, hbefore'.not_succeeded⟩, show 1 < 12 by omega⟩
      · refine ⟨hbefore', ?_⟩
        show 11 - 5 * s'.retryCount < 12
        omega
    · cases hend
  | skillMatch =>
    refine (quiet_skillMatchNode log).mono fun s' log' hpost => ⟨fun next hnext => ?_, fun hend => ?_⟩
    · have hbefore' := hpost.1.before h
      have hretries := hbefore'.retries
      rw [← hpost.1.retries]
      cases hnext
      unfold afterSkillMatch
      split_ifs
      · refine ⟨hbefore', ?_⟩
        show 10 - 5 * s'.retryCount < 11 - 5 * s'.retryCount
        omega
      · refine ⟨⟨hbefore'.bounded, hbefore'.not_succeeded⟩, ?_⟩
        show 1 < 11 - 5 * s'.retryCount
        omega
      · refine ⟨⟨hbefore'.bounded, hbefore'.not_succeeded⟩, ?_⟩
        show 1 < 11 - 5 * s'.retryCount
        omega
    · cases hend
  | loadCheck =>
    refine (quiet_loadCheckNode log).mono fun s' log' hpost => ⟨fun next hnext => ?_, fun hend => ?_⟩
    · have hbefore' := hpost.1.before h
      have hretries := hbefore'.retries
      rw [← hpost.1.retries]
      cases hnext
      unfold afterLoadCheck
      split_ifs
      · refine ⟨hbefore', ?_⟩
        show 9 - 5 * s'.retryCount < 10 - 5 * s'.retryCount
        omega
      · refine ⟨⟨hbefore'.bounded, hbefore'.not_succeeded⟩, ?_⟩
        show 1 < 10 - 5 * s'.retryCount
        omega
      · refine ⟨⟨hbefore'.bounded, hbefore'.not_succeeded⟩, ?_⟩
        show 1 < 10 - 5 * s'.retryCount
        omega
    · cases hend
  | assign =>
    refine ⟨fun next hnext => ?_, fun hend => ?_⟩
    · cases hnext
      have hretries := Before.retries h
      have hunmoved : Unmoved s log (assignNode s) log := ⟨rfl, rfl, rfl, rfl, rfl⟩
      refine ⟨hunmoved.before h, ?_⟩
      show 8 - 5 * s.retryCount < 9 - 5 * s.retryCount
      omega
    · cases hend
  | execute =>
    refine (proper_executeNode h).mono fun s' log' hlog' => ⟨fun next hnext => ?_, fun hend => ?_⟩
    · have hretries := Before.retries h
      cases hnext
      refine ⟨verdict_afterExecute hlog' hretries, ?_⟩
      rw [hlog'.retries]
      unfold afterExecute
      dsimp only
      split_ifs
      all_goals
        simp only [stepsLeft]
        omega
    · cases hend
  | handleFailure =>
    have hretries := After.retries h
    refine ⟨fun next hnext => ?_, fun hend => ?_⟩
    · cases hnext
      by_cases hretry : s.retryCount < 1 ∧ retryThreshold.le (s.confidence.getD (.finite 0)) = true
      · have hnode : handleFailureNode s = { s with retryCount := s.retryCount + 1, status := .routing } :=
          if_pos hretry
        rw [hnode]
        refine ⟨After.retry h hretry.1 hretry.2, ?_⟩
        show 11 - 5 * (s.retryCount + 1) < 7 - 5 * s.retryCount
        omega
      · have hnode : handleFailureNode s = { s with escalatedToHuman := true, status := .escalated } :=
          if_neg hretry
        rw [hnode]
        refine ⟨⟨After.bounded h, After.not_succeeded h⟩, ?_⟩
        show 1 < 7 - 5 * s.retryCount
        omega
    · cases hend
  | escalate =>
    refine ⟨fun next hnext => (by cases hnext), fun _ => ⟨h.1, Or.inr (Or.inl rfl), ?_⟩⟩
    exact ⟨fun hstatus => absurd hstatus (by simp [escalateNode]), fun hsucceeded => absurd hsucceeded h.2⟩
  | complete =>
    refine ⟨fun next hnext => (by cases hnext), fun _ => ⟨h.1, Or.inl rfl, ?_⟩⟩
    exact ⟨fun _ => h.2, fun _ => rfl⟩
  | noAgentFound =>
    refine ⟨fun next hnext => (by cases hnext), fun _ => ⟨h.1, Or.inr (Or.inr rfl), ?_⟩⟩
    exact ⟨fun hstatus => absurd hstatus (by simp [noAgentFoundNode]), fun hsucceeded => absurd hsucceeded h.2⟩

/-- With enough steps left, the graph ends as it should. -/
theorem verdict_invoke (n : ℕ) : ∀ (node : Node) (s : AndromedaState) (log : RoutingLog),
    NodeVerdict t node s log → stepsLeft node s.retryCount ≤ n →
      Proper (invoke cfg n node s) (FinalVerdict t) log := by
  induction n with
  | zero =>
    intro node s log h hsteps
    exfalso
    have hpos : 0 < stepsLeft node s.retryCount := by
      cases node with
      | policyCheck => exact Nat.succ_pos 11
      | skillMatch => have := Before.retries h; simp only [stepsLeft]; omega
      | loadCheck => have := Before.retries h; simp only [stepsLeft]; omega
      | assign => have := Before.retries h; simp only [stepsLeft]; omega
      | execute => have := Before.retries h; simp only [stepsLeft]; omega
      | handleFailure => have := After.retries h; simp only [stepsLeft]; omega
      | escalate => exact Nat.one_pos
      | complete => exact Nat.one_pos
      | noAgentFound => exact Nat.one_pos
    omega
  | succ n ih =>
    intro node s log h hsteps
    unfold invoke
    refine Prog.Logged.bind (verdict_node node h) fun s' log' hlog' => ?_
    obtain ⟨hnext, hend⟩ := hlog'
    cases hedge : node.next cfg s' with
    | none => exact hend hedge
    | some next =>
      obtain ⟨hverdict, hless⟩ := hnext next hedge
      exact ih next s' log' hverdict (by omega)

/-- An agent that is retried returned neither zero nor one. -/
theorem Retried.not_binary {answer : Except String PyValue} (ht : t.le (.finite 1) = true)
    (h : Retried t answer) : ¬ Binary answer := by
  obtain ⟨c, hc, hunsure, hretry⟩ := h
  intro hbinary
  rcases hbinary c hc with rfl | rfl
  · exact absurd hretry (by decide +kernel)
  · rw [ht] at hunsure
    cases hunsure

/-- A graph without policy rules. -/
def demoConfig : Config :=
  { policy := {}
    sha256 := id
    unknown := ""
    completionThreshold := .finite (5 / 8)
    failureThreshold := .finite (3 / 8)
    host := ⟨fun _ => none, fun _ => "", fun _ => none⟩ }

/-- One agent, which is more confident the second time. -/
def demoEnv (log : RoutingLog) : (call : RoutingCall) → call.Answer
  | .consume _ => false
  | .agents => [{ agentId := "vega", skills := [{ skillId := "report" }] }]
  | .getWeights _ => []
  | .hasAgent _ => true
  | .runAgent _ _ _ _ =>
    .ok (.dict [("confidence", .float (.finite (if (runs log).isEmpty then 3 / 4 else 1)))])

def demoTask : TaskContract :=
  { taskId := 1, origin := "api", skill := "report", payload := [], confidenceThreshold := .finite (7 / 8) }

theorem demoEnv_fits (log : RoutingLog) (call : RoutingCall) : AnswerFits call (demoEnv log call) := by
  cases call with
  | runAgent agentId skillId payload context =>
    intro result hresult
    have hanswer : result =
        [("confidence", .float (.finite (if (runs log).isEmpty then 3 / 4 else 1)))] := by
      have hdict := Except.ok.inj hresult
      exact (PyValue.dict.inj hdict).symm
    rw [hanswer]
    split_ifs
    · decide +kernel
    · decide +kernel
  | _ => trivial

end Galaxz.Andromeda
