import Galaxz.Andromeda.Admission
import Galaxz.Andromeda.Proofs.ApprovalProofs
import Galaxz.Andromeda.Proofs.AuthorisationProofs
import Galaxz.Policy.Proofs.GrantProofs
import Mathlib.Order.Bounds.Basic

/-!
# What the policy node decides, and what it spends

The two loops of the policy node against the fold of the engine, and the grants that a submission uses.
A submission that is held after a first grant was used has spent that grant; it is spent on nothing.
-/

namespace Galaxz

/-! ## The strictest decision -/

theorem PolicyAction.severity_injective : Function.Injective PolicyAction.severity := by
  intro a b h
  cases a <;> cases b <;> first | rfl | cases h

namespace PolicyEngine

variable (engine : PolicyEngine) (origin : Option String)

/-- Looking for the first rule with its position is looking for the first rule. -/
theorem find?_zipIdx {p : PolicyRule → Bool} (rules : List PolicyRule) (n : ℕ) :
    ((rules.zipIdx n).find? fun entry => p entry.1).map (·.1) = rules.find? p := by
  induction rules generalizing n with
  | nil => rfl
  | cons rule rules ih =>
    rw [List.zipIdx_cons, List.find?_cons, List.find?_cons]
    cases p rule with
    | true => rfl
    | false => exact ih (n + 1)

theorem evaluateSkill_action (skill : String) :
    (engine.evaluateSkill skill origin).action = engine.ruleAction skill origin := by
  unfold evaluateSkill ruleAction
  rw [← find?_zipIdx engine.rules 0]
  cases engine.rules.zipIdx.find? fun entry => entry.1.matches skill (origin.getD "") with
  | none => rfl
  | some entry => rfl

/-- One round of the fold of `evaluate`. -/
def strictest (first : PolicyDecision) (skill : String) : PolicyDecision :=
  if (engine.evaluateSkill skill origin).action.severity > first.action.severity then
    engine.evaluateSkill skill origin
  else first

theorem evaluate_eq (skills : List String) :
    engine.evaluate skills origin = skills.foldl (strictest engine origin) {} := rfl

/-- The fold keeps the first of the strictest decisions. -/
theorem foldl_strictest (skills : List String) (first : PolicyDecision) :
    first.action.severity ≤ (skills.foldl (strictest engine origin) first).action.severity ∧
    (∀ skill ∈ skills, (engine.evaluateSkill skill origin).action.severity ≤
      (skills.foldl (strictest engine origin) first).action.severity) ∧
    (skills.foldl (strictest engine origin) first = first ∨
      ∃ skill ∈ skills, skills.foldl (strictest engine origin) first =
        engine.evaluateSkill skill origin) := by
  induction skills generalizing first with
  | nil => exact ⟨le_refl _, by simp, Or.inl rfl⟩
  | cons skill skills ih =>
    obtain ⟨hfirst, hrest, hfrom⟩ := ih (strictest engine origin first skill)
    rw [List.foldl_cons]
    have hstep : first.action.severity ≤ (strictest engine origin first skill).action.severity ∧
        (engine.evaluateSkill skill origin).action.severity ≤
          (strictest engine origin first skill).action.severity := by
      unfold strictest
      split_ifs <;> omega
    refine ⟨by omega, ?_, ?_⟩
    · intro other hother
      rcases List.mem_cons.mp hother with rfl | hother
      · omega
      · exact hrest other hother
    · rcases hfrom with hfrom | ⟨other, hother, hfrom⟩
      · rw [hfrom]
        by_cases hlt : (engine.evaluateSkill skill origin).action.severity > first.action.severity
        · exact Or.inr ⟨skill, List.mem_cons_self, if_pos hlt⟩
        · exact Or.inl (if_neg hlt)
      · exact Or.inr ⟨other, List.mem_cons_of_mem _ hother, hfrom⟩

/-- The action of `evaluate` is the strictest action of the skills. -/
theorem evaluate_isGreatest {skills : List String} (h : skills ≠ []) :
    IsGreatest {n | ∃ skill ∈ skills, n = (engine.ruleAction skill origin).severity}
      (engine.evaluate skills origin).action.severity := by
  rw [evaluate_eq]
  obtain ⟨-, hle, hfrom⟩ := foldl_strictest engine origin skills {}
  simp only [evaluateSkill_action] at hle
  refine ⟨?_, ?_⟩
  · rcases hfrom with hfrom | ⟨skill, hskill, hfrom⟩
    · obtain ⟨skill, hskill⟩ := List.exists_mem_of_ne_nil skills h
      refine ⟨skill, hskill, ?_⟩
      have hzero := hle skill hskill
      rw [hfrom] at hzero ⊢
      exact (Nat.le_zero.mp hzero).symm
    · exact ⟨skill, hskill, by rw [hfrom, evaluateSkill_action]⟩
  · rintro n ⟨skill, hskill, rfl⟩
    exact hle skill hskill

/-- The order of the skills does not matter for the action. -/
theorem evaluate_perm {skills skills' : List String} (h : skills'.Perm skills) :
    (engine.evaluate skills' origin).action = (engine.evaluate skills origin).action := by
  by_cases hnil : skills = []
  · subst hnil
    rw [List.perm_nil.mp h]
  · have hnil' : skills' ≠ [] := fun h' => hnil (List.perm_nil.mp (h'.symm ▸ h.symm) )
    apply PolicyAction.severity_injective
    have hset : {n | ∃ skill ∈ skills', n = (engine.ruleAction skill origin).severity} =
        {n | ∃ skill ∈ skills, n = (engine.ruleAction skill origin).severity} := by
      ext n
      simp only [Set.mem_ofPred_eq, h.mem_iff]
    have hgreatest := evaluate_isGreatest engine origin hnil'
    rw [hset] at hgreatest
    exact hgreatest.unique (evaluate_isGreatest engine origin hnil)

end PolicyEngine

namespace Andromeda

variable {cfg : Config}

/-- A strictest decision stays. -/
theorem foldl_deny (origin : Option String) (skills : List String) {first : PolicyDecision}
    (h : first.action = .deny) :
    skills.foldl (PolicyEngine.strictest cfg.policy origin) first = first := by
  induction skills with
  | nil => rfl
  | cons skill skills ih =>
    rw [List.foldl_cons]
    have hstep : PolicyEngine.strictest cfg.policy origin first skill = first := by
      refine if_neg ?_
      rw [h]
      cases (cfg.policy.evaluateSkill skill origin).action <;> decide
    rw [hstep, ih]

/-- The first loop of the policy node finds the decision that `evaluate` returns. -/
theorem heldSkills_evaluate (origin : Option String) (skills : List String) (first : PolicyDecision)
    (hfirst : first.action ≠ .deny) :
    (∀ d, heldSkills cfg origin skills = .error d →
      d.action = .deny ∧ skills.foldl (PolicyEngine.strictest cfg.policy origin) first = d) ∧
    (∀ held, heldSkills cfg origin skills = .ok held →
      skills.foldl (PolicyEngine.strictest cfg.policy origin) first =
        if first.action = .requireReview then first else (held.head?.map (·.2)).getD first) := by
  induction skills generalizing first with
  | nil =>
    refine ⟨fun d h => (by cases h), fun held h => ?_⟩
    cases h
    simp
  | cons skill skills ih =>
    rw [List.foldl_cons]
    unfold heldSkills
    simp only
    by_cases hdeny : (cfg.policy.evaluateSkill skill origin).action = .deny
    · rw [if_pos hdeny]
      refine ⟨fun d h => ?_, fun held h => by cases h⟩
      cases h
      have hstep : PolicyEngine.strictest cfg.policy origin first skill =
          cfg.policy.evaluateSkill skill origin := by
        refine if_pos ?_
        rw [hdeny]
        cases hact : first.action with
        | allow => decide
        | requireReview => decide
        | deny => exact absurd hact hfirst
      rw [hstep]
      exact ⟨hdeny, foldl_deny origin skills hdeny⟩
    · rw [if_neg hdeny]
      -- the decision for this skill replaces an `allow` if it is a hold
      have hstep : PolicyEngine.strictest cfg.policy origin first skill =
          if first.action ≠ .requireReview ∧
              (cfg.policy.evaluateSkill skill origin).action = .requireReview then
            cfg.policy.evaluateSkill skill origin
          else first := by
        unfold PolicyEngine.strictest
        cases hact : first.action with
        | allow =>
          cases hskill : (cfg.policy.evaluateSkill skill origin).action with
          | allow => simp [PolicyAction.severity]
          | requireReview => simp [PolicyAction.severity]
          | deny => exact absurd hskill hdeny
        | requireReview =>
          cases hskill : (cfg.policy.evaluateSkill skill origin).action with
          | allow => simp [PolicyAction.severity]
          | requireReview => simp [PolicyAction.severity]
          | deny => exact absurd hskill hdeny
        | deny => exact absurd hact hfirst
      have hnext : (PolicyEngine.strictest cfg.policy origin first skill).action ≠ .deny := by
        rw [hstep]
        split_ifs <;> assumption
      obtain ⟨herror, hok⟩ := ih _ hnext
      cases hrest : heldSkills cfg origin skills with
      | error d' =>
        refine ⟨fun d h => ?_, fun held h => by cases h⟩
        cases h
        exact herror d' hrest
      | ok rest =>
        refine ⟨fun d h => (by cases h), fun held h => ?_⟩
        cases h
        rw [hok rest hrest, hstep]
        by_cases hact : first.action = .requireReview
        · simp [hact]
        · by_cases hskill : (cfg.policy.evaluateSkill skill origin).action = .requireReview
          · simp [hact, hskill]
          · simp [hact, hskill]

/-- What the first loop collects: the skills to be held, unless some skill is denied. -/
theorem heldSkills_error_iff (origin : Option String) (skills : List String) :
    (∃ d, heldSkills cfg origin skills = .error d) ↔
      ∃ skill ∈ skills, (cfg.policy.evaluateSkill skill origin).action = .deny := by
  induction skills with
  | nil => simp [heldSkills]
  | cons skill skills ih =>
    unfold heldSkills
    simp only
    by_cases hdeny : (cfg.policy.evaluateSkill skill origin).action = .deny
    · simp [hdeny]
    · rw [if_neg hdeny, List.exists_mem_cons_iff, ← ih]
      cases heldSkills cfg origin skills with
      | error d => simp [Bind.bind, Except.bind]
      | ok held => simp [Bind.bind, Except.bind, hdeny]

theorem heldSkills_ok (origin : Option String) (skills : List String)
    {held : List (String × PolicyDecision)} (h : heldSkills cfg origin skills = .ok held) :
    held = (skills.filter fun skill =>
      (cfg.policy.evaluateSkill skill origin).action = .requireReview).map fun skill =>
        (skill, cfg.policy.evaluateSkill skill origin) := by
  induction skills generalizing held with
  | nil =>
    cases h
    rfl
  | cons skill skills ih =>
    unfold heldSkills at h
    simp only at h
    by_cases hdeny : (cfg.policy.evaluateSkill skill origin).action = .deny
    · rw [if_pos hdeny] at h
      cases h
    · rw [if_neg hdeny] at h
      cases hrest : heldSkills cfg origin skills with
      | error d =>
        rw [hrest] at h
        cases h
      | ok rest =>
        rw [hrest] at h
        cases h
        rw [List.filter_cons, ih hrest]
        split_ifs with hreview hreview' hreview'
        · rfl
        · exact absurd (decide_eq_true hreview) hreview'
        · exact absurd (of_decide_eq_true hreview') hreview
        · rfl

/-! ## One submission -/

section Submit

open GrantStore

/-- The state of a task that the second loop holds. -/
def onHold (cfg : Config) (s : AndromedaState) (p : String × PolicyDecision) : AndromedaState :=
  { s with
    failureReason := some "policy_requires_review"
    gaps := [p.2.reason]
    result := some (policyHold (grantKey cfg s p.1) p.2) }

variable {clock : ℕ → Datetime} {s : AndromedaState}

/-- Using a grant takes it out of the unused ones. -/
theorem filter_unconsumed_consume {key : GrantKey} {now : Datetime} {rows : List GrantRow}
    {row : GrantRow} (h : selected key now rows = some row) :
    (consume key now rows).2.filter (·.consumedAt.isNone) =
      (rows.filter fun r => r.grantId ≠ row.grantId).filter (·.consumedAt.isNone) := by
  rcases consume_cases key now rows with ⟨hnone, -⟩ | ⟨row', hsel, -, hrows⟩
  · rw [h] at hnone
    cases hnone
  · rw [h] at hsel
    cases hsel
    rw [hrows]
    clear h hrows
    induction rows with
    | nil => rfl
    | cons r rows ih =>
      rw [Table.updateWhere_cons]
      by_cases hid : r.grantId = row.grantId
      · rw [if_pos (decide_eq_true hid),
          List.filter_cons_of_neg (p := fun r : GrantRow => r.consumedAt.isNone) (by simp [GrantRow.spend]),
          ih,
          List.filter_cons_of_neg (p := fun r : GrantRow => r.grantId ≠ row.grantId) (by simpa using hid)]
      · simp [hid, List.filter_cons, ih]

/-- What a key selects depends on the unused grants. -/
theorem selected_congr {key : GrantKey} {now : Datetime} {rows rows' : List GrantRow}
    (h : rows.filter (·.consumedAt.isNone) = rows'.filter (·.consumedAt.isNone)) :
    selected key now rows = selected key now rows' := by
  have hfilter : ∀ xs : List GrantRow,
      xs.filter (usable key now) = (xs.filter (·.consumedAt.isNone)).filter (usable key now) := by
    intro xs
    rw [List.filter_filter]
    refine List.filter_congr fun r _ => ?_
    cases hr : usable key now r with
    | false => simp
    | true => simp [(usable_iff.mp hr).2.1]
  unfold selected
  rw [hfilter rows, hfilter rows', h]

theorem Supplies.congr {n : ℕ} {keys : List GrantKey} {rows rows' : List GrantRow}
    (h : rows.filter (·.consumedAt.isNone) = rows'.filter (·.consumedAt.isNone)) :
    Supplies clock n keys rows ↔ Supplies clock n keys rows' := by
  induction keys generalizing n rows rows' with
  | nil => exact Iff.rfl
  | cons key keys ih =>
    unfold Supplies
    rw [selected_congr h]
    refine exists_congr fun row => and_congr_right fun _ => ih ?_
    rw [List.filter_filter, List.filter_filter]
    have hcomm : ∀ xs : List GrantRow,
        (xs.filter fun r => r.consumedAt.isNone && decide (r.grantId ≠ row.grantId)) =
          (xs.filter (·.consumedAt.isNone)).filter fun r => r.grantId ≠ row.grantId := by
      intro xs
      rw [List.filter_filter]
      exact List.filter_congr fun r _ => Bool.and_comm _ _
    rw [hcomm, hcomm, h]

theorem mem_unconsumed {rows : List GrantRow} {row : GrantRow} :
    row ∈ unconsumed rows ↔ row ∈ rows.filter (·.consumedAt.isNone) := by
  simp [unconsumed]

/-- What the second loop does: it takes a grant for each held skill and lets the task pass, or it stops at
the first that has none. It uses a grant if there is one for the first. -/
theorem run_consumeGrants (held : List (String × PolicyDecision)) (n : ℕ) (rows : List GrantRow) :
    ∃ desk, (unconsumed desk.rows ⊆ unconsumed rows) ∧
      ((Supplies clock n (held.map fun p => grantKey cfg s p.1) rows ∧
        (consumeGrants cfg s held).run (execPolicy clock) { rows, readings := n } = (.ok s, desk)) ∨
      (¬ Supplies clock n (held.map fun p => grantKey cfg s p.1) rows ∧ (∃ p ∈ held,
        (LacksFirst (clock n) (held.map fun p => grantKey cfg s p.1) rows →
          held.head? = some p ∧ desk.rows = rows) ∧
        (consumeGrants cfg s held).run (execPolicy clock) { rows, readings := n } =
          (.ok (onHold cfg s p), desk)) ∧
        (unconsumed desk.rows = unconsumed rows ↔
          LacksFirst (clock n) (held.map fun p => grantKey cfg s p.1) rows))) := by
  induction held generalizing n rows with
  | nil => exact ⟨_, Set.Subset.rfl, Or.inl ⟨trivial, rfl⟩⟩
  | cons p held ih =>
    obtain ⟨skill, decision⟩ := p
    rcases consume_cases (grantKey cfg s skill) (clock n) rows with ⟨hnone, h⟩ | ⟨row, hsel, htrue, hrows⟩
    · -- no grant: the task is held at once
      refine ⟨{ rows, readings := n + 1 }, Set.Subset.rfl,
        Or.inr ⟨?_, ⟨(skill, decision), ?_, fun _ => ⟨rfl, rfl⟩, ?_⟩, ?_⟩⟩
      · rintro ⟨row, hrow, -⟩
        rw [hnone] at hrow
        cases hrow
      · exact List.mem_cons_self
      · simp [consumeGrants, Prog.run, execPolicy, h, onHold]
      · refine iff_of_true rfl fun key hkey => ?_
        cases hkey
        exact hnone
    · obtain ⟨hmem, -, hunused, -⟩ := selected_some hsel
      have hlive := filter_unconsumed_consume hsel
      have hrun : (consumeGrants cfg s ((skill, decision) :: held)).run (execPolicy clock)
          { rows, readings := n } = (consumeGrants cfg s held).run (execPolicy clock)
            { rows := (consume (grantKey cfg s skill) (clock n) rows).2, readings := n + 1 } := by
        simp [consumeGrants, Prog.run, execPolicy, htrue]
      have hsub : unconsumed (consume (grantKey cfg s skill) (clock n) rows).2 ⊆ unconsumed rows := by
        intro r hr
        rw [mem_unconsumed, hlive] at hr
        have hr' := List.mem_filter.mp hr
        exact mem_unconsumed.mpr (List.mem_filter.mpr ⟨List.mem_of_mem_filter hr'.1, hr'.2⟩)
      have hspent : row ∉ unconsumed (consume (grantKey cfg s skill) (clock n) rows).2 := by
        intro hr
        rw [mem_unconsumed, hlive] at hr
        simp at hr
      have hsupplies : Supplies clock n (((skill, decision) :: held).map fun p => grantKey cfg s p.1) rows ↔
          Supplies clock (n + 1) (held.map fun p => grantKey cfg s p.1)
            (consume (grantKey cfg s skill) (clock n) rows).2 := by
        rw [List.map_cons, Supplies]
        refine Iff.trans ?_ (Supplies.congr hlive).symm
        constructor
        · rintro ⟨row', hrow', hrest⟩
          rw [hsel] at hrow'
          cases hrow'
          exact hrest
        · exact fun hrest => ⟨row, hsel, hrest⟩
      obtain ⟨desk, hdesk, hcases⟩ := ih (n + 1) (consume (grantKey cfg s skill) (clock n) rows).2
      refine ⟨desk, hdesk.trans hsub, ?_⟩
      rw [hsupplies, hrun]
      have hnot : ¬ LacksFirst (clock n) (((skill, decision) :: held).map fun p => grantKey cfg s p.1)
          rows := by
        intro hlacks
        have hnone := hlacks _ rfl
        rw [hsel] at hnone
        cases hnone
      rcases hcases with ⟨hyes, hrest⟩ | ⟨hno, ⟨p, hp, -, hrest⟩, -⟩
      · exact Or.inl ⟨hyes, hrest⟩
      · refine Or.inr ⟨hno, ⟨p, List.mem_cons_of_mem _ hp, fun h => absurd h hnot, hrest⟩, ?_⟩
        refine iff_of_false (fun heq => ?_) hnot
        exact hspent (hdesk (heq ▸ mem_unconsumed.mpr (by simp [hmem, hunused])))

theorem neededKeys_eq {held : List (String × PolicyDecision)}
    (h : heldSkills cfg s.origin s.requiredSkills = .ok held) :
    held.map (fun p => grantKey cfg s p.1) = neededKeys cfg s := by
  rw [heldSkills_ok s.origin s.requiredSkills h, List.map_map]
  rfl

theorem not_held_of_disabled (h : ¬ cfg.policy.enabled = true) :
    ¬ Denied cfg s ∧ neededKeys cfg s = [] := by
  constructor
  · rintro ⟨skill, -, hdeny⟩
    rw [evaluateSkill_disabled h] at hdeny
    cases hdeny
  · unfold neededKeys
    rw [List.filter_eq_nil_iff.mpr, List.map_nil]
    intro skill _
    simp [evaluateSkill_disabled h]

/-- What a submission comes to: the task is denied, passes with a grant for each use, or is held. -/
theorem submit_cases (cfg : Config) (clock : ℕ → Datetime) (s : AndromedaState) (rows : List GrantRow) :
    (Denied cfg s ∧ ∃ d, heldSkills cfg s.origin s.requiredSkills = .error d ∧
      submit cfg clock s rows =
        (.ok { s with failureReason := some "policy_denied", gaps := [d.reason] }, rows)) ∨
    (¬ Denied cfg s ∧ Supplies clock 0 (neededKeys cfg s) rows ∧ (submit cfg clock s rows).1 = .ok s) ∨
    (¬ Denied cfg s ∧ ¬ Supplies clock 0 (neededKeys cfg s) rows ∧
      (∃ held, heldSkills cfg s.origin s.requiredSkills = .ok held ∧
        ∃ p ∈ held, (LacksFirst (clock 0) (neededKeys cfg s) rows →
            held.head? = some p ∧ (submit cfg clock s rows).2 = rows) ∧
          (submit cfg clock s rows).1 = .ok (onHold cfg s p)) ∧
      (unconsumed (submit cfg clock s rows).2 = unconsumed rows ↔
        LacksFirst (clock 0) (neededKeys cfg s) rows)) := by
  by_cases henabled : cfg.policy.enabled = true
  · cases hheld : heldSkills cfg s.origin s.requiredSkills with
    | error d =>
      refine Or.inl ⟨(heldSkills_error_iff s.origin s.requiredSkills).mp ⟨d, hheld⟩, d, rfl, ?_⟩
      simp [submit, policyNode, henabled, hheld, Prog.run]
    | ok held =>
      have hnot : ¬ Denied cfg s := by
        intro hdenied
        obtain ⟨d, hd⟩ := (heldSkills_error_iff s.origin s.requiredSkills).mpr hdenied
        rw [hheld] at hd
        cases hd
      obtain ⟨desk, -, hcases⟩ := @run_consumeGrants cfg clock s held 0 rows
      have hsubmit : submit cfg clock s rows =
          (((consumeGrants cfg s held).run (execPolicy clock) { rows }).1,
            ((consumeGrants cfg s held).run (execPolicy clock) { rows }).2.rows) := by
        simp [submit, policyNode, henabled, hheld]
      rw [neededKeys_eq hheld] at hcases
      rw [hsubmit]
      rcases hcases with ⟨hyes, hrun⟩ | ⟨hno, ⟨p, hp, hhead, hrun⟩, hkept⟩
      · rw [hrun]
        exact Or.inr (Or.inl ⟨hnot, hyes, rfl⟩)
      · rw [hrun]
        exact Or.inr (Or.inr ⟨hnot, hno, ⟨held, rfl, p, hp, hhead, rfl⟩, hkept⟩)
  · obtain ⟨hnot, hnil⟩ := not_held_of_disabled (s := s) henabled
    refine Or.inr (Or.inl ⟨hnot, by rw [hnil]; trivial, ?_⟩)
    simp [submit, policyNode, henabled, Prog.run]

/-! ## The policy node and the engine -/

/-- The edge taken after a submission, for a task that has not failed before. -/
theorem leadsTo_iff {r : Except PyError AndromedaState × List GrantRow} {s' : AndromedaState}
    (h : r.1 = .ok s') (node : Node) : LeadsTo r node ↔ afterPolicy s' = node := by
  constructor
  · rintro ⟨s'', hs'', hnode⟩
    rw [h] at hs''
    cases hs''
    exact hnode
  · exact fun hnode => ⟨s', h, hnode⟩

theorem afterPolicy_passed (hs : s.failureReason = none) : afterPolicy s = .skillMatch := by
  simp [afterPolicy, hs]

theorem afterPolicy_onHold (p : String × PolicyDecision) : afterPolicy (onHold cfg s p) = .escalate := by
  simp [afterPolicy, onHold]

/-- With an empty store the policy node does what `evaluate` says, for the reason and, when it holds the
task, the rule that `evaluate` names; and `evaluate` takes the strictest action of the skills, so that
their order does not matter. -/
theorem policyNode_evaluate (cfg : Config) (clock : ℕ → Datetime) (s : AndromedaState)
    (hs : s.failureReason = none) (hskills : s.requiredSkills ≠ []) :
    (∃ s', (submit cfg clock s []).1 = .ok s' ∧
      (afterPolicy s' = .noAgentFound ↔
        (cfg.policy.evaluate s.requiredSkills s.origin).action = .deny) ∧
      (afterPolicy s' = .escalate ↔
        (cfg.policy.evaluate s.requiredSkills s.origin).action = .requireReview) ∧
      (afterPolicy s' = .skillMatch ↔
        (cfg.policy.evaluate s.requiredSkills s.origin).action = .allow) ∧
      ((cfg.policy.evaluate s.requiredSkills s.origin).action ≠ .allow →
        s'.gaps = [(cfg.policy.evaluate s.requiredSkills s.origin).reason]) ∧
      ((cfg.policy.evaluate s.requiredSkills s.origin).action = .requireReview →
        ∃ skill ∈ s.requiredSkills, s'.result =
          some (policyHold (grantKey cfg s skill) (cfg.policy.evaluate s.requiredSkills s.origin)))) ∧
    IsGreatest {n | ∃ skill ∈ s.requiredSkills, n = (cfg.policy.ruleAction skill s.origin).severity}
      (cfg.policy.evaluate s.requiredSkills s.origin).action.severity ∧
    ∀ skills, skills.Perm s.requiredSkills →
      (cfg.policy.evaluate skills s.origin).action =
        (cfg.policy.evaluate s.requiredSkills s.origin).action := by
  refine ⟨?_, PolicyEngine.evaluate_isGreatest cfg.policy s.origin hskills,
    fun skills hperm => PolicyEngine.evaluate_perm cfg.policy s.origin hperm⟩
  obtain ⟨herror, hok⟩ := @heldSkills_evaluate cfg s.origin s.requiredSkills {} (by decide)
  rw [← PolicyEngine.evaluate_eq] at herror hok
  rcases submit_cases cfg clock s [] with ⟨-, d, hd, hsubmit⟩ | ⟨hnot, hyes, hsubmit⟩ |
    ⟨hnot, -, ⟨held, hheld, p, hp, hhead, hsubmit⟩, -⟩
  · obtain ⟨hdeny, heval⟩ := herror d hd
    refine ⟨_, congrArg Prod.fst hsubmit, ?_⟩
    rw [heval, hdeny]
    simp [afterPolicy]
  · -- nothing in the store, so nothing was needed
    have hnil : neededKeys cfg s = [] := by
      cases hkeys : neededKeys cfg s with
      | nil => rfl
      | cons key keys =>
        rw [hkeys] at hyes
        obtain ⟨row, hrow, -⟩ := hyes
        cases hrow
    have hheld : ∃ held, heldSkills cfg s.origin s.requiredSkills = .ok held := by
      cases hheld : heldSkills cfg s.origin s.requiredSkills with
      | error d => exact absurd ((heldSkills_error_iff s.origin s.requiredSkills).mp ⟨d, hheld⟩) hnot
      | ok held => exact ⟨held, rfl⟩
    obtain ⟨held, hheld⟩ := hheld
    have heval := hok held hheld
    have hempty : held = [] := List.map_eq_nil_iff.mp ((neededKeys_eq hheld).trans hnil)
    rw [hempty] at heval
    refine ⟨s, hsubmit, ?_⟩
    rw [heval, afterPolicy_passed hs]
    simp
  · have heval := hok held hheld
    rw [(hhead fun key _ => rfl).1] at heval
    have hmem : p ∈ (s.requiredSkills.filter fun skill =>
        (cfg.policy.evaluateSkill skill s.origin).action = .requireReview).map fun skill =>
          (skill, cfg.policy.evaluateSkill skill s.origin) :=
      heldSkills_ok s.origin s.requiredSkills hheld ▸ hp
    obtain ⟨skill, hskill, rfl⟩ := List.mem_map.mp hmem
    obtain ⟨hrequired, hreview⟩ := List.mem_filter.mp hskill
    have hreview := of_decide_eq_true hreview
    have heval : cfg.policy.evaluate s.requiredSkills s.origin = cfg.policy.evaluateSkill skill s.origin := by
      rw [heval]
      rfl
    refine ⟨_, hsubmit, ?_⟩
    rw [heval, hreview, afterPolicy_onHold]
    refine ⟨by simp, by simp, by simp, fun _ => rfl, fun _ => ⟨skill, hrequired, rfl⟩⟩

/-- The policy of `reviewedConfig` holds a report, and says so. -/
theorem demoTask_held : ∃ s',
    (submit ApprovalWorld.reviewedConfig (fun _ => ApprovalWorld.demoNow) (initialState demoTask [] [])
      []).1 = .ok s' ∧ afterPolicy s' = .escalate ∧ s'.gaps = ["policy rule 0"] := by
  obtain ⟨⟨s', hs', -, hheld, -, hgaps, -⟩, -⟩ := policyNode_evaluate ApprovalWorld.reviewedConfig
    (fun _ => ApprovalWorld.demoNow) (initialState demoTask [] []) rfl (by decide)
  have hdecision : ApprovalWorld.reviewedConfig.policy.evaluate
      (initialState demoTask [] []).requiredSkills (initialState demoTask [] []).origin =
        { action := .requireReview, reason := "policy rule 0", ruleIndex := some 0 } := by decide +kernel
  rw [hdecision] at hheld hgaps
  exact ⟨s', hs', hheld.mpr rfl, hgaps (by decide)⟩

/-! ## What a submission spends -/

/-- A submission keeps the grants exactly if it is denied, has no grant for the first held skill, or has
one for each. -/
theorem keepsGrants_iff (hs : s.failureReason = none) (rows : List GrantRow) :
    KeepsGrants cfg clock s rows ↔ Denied cfg s ∨ LacksFirst (clock 0) (neededKeys cfg s) rows ∨
      Supplies clock 0 (neededKeys cfg s) rows := by
  unfold KeepsGrants
  rcases submit_cases cfg clock s rows with ⟨hdenied, d, -, hsubmit⟩ | ⟨-, hyes, hsubmit⟩ |
    ⟨hnot, hno, ⟨held, -, p, -, -, hsubmit⟩, hkept⟩
  · rw [hsubmit]
    exact iff_of_true (fun _ => rfl) (Or.inl hdenied)
  · rw [leadsTo_iff hsubmit, leadsTo_iff hsubmit, afterPolicy_passed hs]
    exact iff_of_true (by simp) (Or.inr (Or.inr hyes))
  · rw [leadsTo_iff hsubmit, leadsTo_iff hsubmit, afterPolicy_onHold, hkept]
    simp [hnot, hno]

/-- No unused grant expires while the clock is read. -/
def Unexpired (clock : ℕ → Datetime) (rows : List GrantRow) : Prop :=
  ∀ row ∈ rows, row.consumedAt = none → ∀ i, (clock i).isoformat < row.expiresAt

theorem selected_eq_none_iff {rows : List GrantRow} (hlive : Unexpired clock rows) (key : GrantKey)
    (n : ℕ) : selected key (clock n) rows = none ↔ unused key rows = 0 := by
  unfold selected unused
  rw [Table.firstBy_eq_none_iff, List.filter_eq_nil_iff, List.countP_eq_zero]
  refine forall₂_congr fun row hrow => not_congr ?_
  rw [usable_iff, Bool.and_eq_true, decide_eq_true_eq, Option.isNone_iff_eq_none]
  exact ⟨fun h => ⟨h.1, h.2.1⟩, fun h => ⟨h.1, h.2, hlive row hrow h.2 n⟩⟩

/-- Taking an unused grant away leaves one less for its key. -/
theorem unused_filter {rows : List GrantRow} (hnodup : (rows.map (·.grantId)).Nodup) {row : GrantRow}
    (hmem : row ∈ rows) (hunused : row.consumedAt = none) (key : GrantKey) :
    unused key (rows.filter fun r => r.grantId ≠ row.grantId) + (if row.key = key then 1 else 0) =
      unused key rows := by
  induction rows with
  | nil => cases hmem
  | cons r rows ih =>
    rw [List.map_cons, List.nodup_cons] at hnodup
    unfold unused at ih ⊢
    by_cases hid : r.grantId = row.grantId
    · have hrow : row = r := by
        rcases List.mem_cons.mp hmem with h | h
        · exact h
        · exact absurd (List.mem_map.mpr ⟨row, h, hid.symm⟩) hnodup.1
      subst hrow
      have hrest : rows.filter (fun r => r.grantId ≠ row.grantId) = rows := by
        refine List.filter_eq_self.mpr fun x hx => decide_eq_true fun hxid => ?_
        exact hnodup.1 (List.mem_map.mpr ⟨x, hx, hxid⟩)
      rw [List.filter_cons_of_neg (by simp), hrest, List.countP_cons]
      simp [hunused]
    · have hmem' : row ∈ rows := by
        rcases List.mem_cons.mp hmem with h | h
        · exact absurd (congrArg GrantRow.grantId h.symm) hid
        · exact h
      rw [List.filter_cons_of_pos (by simpa using hid), List.countP_cons, List.countP_cons,
        ← ih hnodup.2 hmem']
      omega

/-- As long as no grant expires, it is a matter of numbers. -/
theorem supplies_iff (keys : List GrantKey) (n : ℕ) {rows : List GrantRow}
    (hnodup : (rows.map (·.grantId)).Nodup) (hlive : Unexpired clock rows) :
    Supplies clock n keys rows ↔ ∀ key, keys.count key ≤ unused key rows := by
  induction keys generalizing n rows with
  | nil => simp [Supplies]
  | cons first keys ih =>
    have hrest : ∀ row : GrantRow,
        ((rows.filter fun r => r.grantId ≠ row.grantId).map (·.grantId)).Nodup ∧
          Unexpired clock (rows.filter fun r => r.grantId ≠ row.grantId) := fun row =>
      ⟨hnodup.sublist (List.filter_sublist.map _), fun r hr => hlive r (List.mem_of_mem_filter hr)⟩
    unfold Supplies
    constructor
    · rintro ⟨row, hsel, hsupplies⟩ key
      obtain ⟨hmem, hkey, hunused, -⟩ := selected_some hsel
      have hcount := (ih (n + 1) (hrest row).1 (hrest row).2).mp hsupplies key
      have htaken := unused_filter hnodup hmem hunused key
      rw [List.count_cons]
      rw [hkey] at htaken
      by_cases hfirst : first = key
      · simp only [hfirst, if_true, beq_self_eq_true] at htaken ⊢
        omega
      · simp only [hfirst, if_false, beq_iff_eq] at htaken ⊢
        omega
    · intro hcounts
      cases hsel : selected first (clock n) rows with
      | none =>
        have hzero := (selected_eq_none_iff hlive first n).mp hsel
        have hfirst := hcounts first
        rw [List.count_cons_self] at hfirst
        omega
      | some row =>
        obtain ⟨hmem, hkey, hunused, -⟩ := selected_some hsel
        refine ⟨row, rfl, (ih (n + 1) (hrest row).1 (hrest row).2).mpr fun key => ?_⟩
        have hcount := hcounts key
        have htaken := unused_filter hnodup hmem hunused key
        rw [List.count_cons] at hcount
        rw [hkey] at htaken
        by_cases hfirst : first = key
        · simp only [hfirst, if_true, beq_self_eq_true] at htaken hcount
          omega
        · simp only [hfirst, if_false, beq_iff_eq] at htaken hcount
          omega

/-! ## Approvals in turn -/

variable {rounds : ℕ → Round} {rows : List GrantRow}

theorem afterApprovals_none {n : ℕ} (h : afterApprovals cfg rounds s rows n = none) (m : ℕ) :
    afterApprovals cfg rounds s rows (n + m) = none := by
  induction m with
  | zero => exact h
  | succ m ih =>
    show (afterApprovals cfg rounds s rows (n + m)).bind _ = none
    rw [ih]
    rfl

/-- After a submission that passed there is no approval. -/
theorem approveHeld_passed (hs : s.failureReason = none) {round : Round}
    {r : Except PyError AndromedaState × List GrantRow} (h : r.1 = .ok s) : approveHeld round r = none := by
  unfold approveHeld
  rw [h]
  simp [hs]

/-- The approval of a task that was held for its first skill adds a grant for that skill. -/
theorem approve_onHold {round : Round} {p : String × PolicyDecision} {rows' : List GrantRow}
    (h : approve round (onHold cfg s p) rows = some rows') :
    ∃ row, rows' = rows ++ [row] ∧ row.key = grantKey cfg s p.1 ∧ row.consumedAt = none ∧
      ∀ r ∈ rows, r.grantId ≠ row.grantId := by
  have hkey : heldKey ((onHold cfg s p).result.getD []) = some (grantKey cfg s p.1) :=
    heldKey_policyHold (grantKey cfg s p.1) p.2
  unfold approve at h
  rw [hkey] at h
  rcases issue_cases round.grantId (grantKey cfg s p.1) 3600 (some "review") round.approvedAt rows with
    ⟨⟨e, herror⟩, -⟩ | ⟨expires, hfresh, hok, -⟩
  · rw [Option.bind_eq_bind, Option.bind_some, herror] at h
    cases h
  · rw [Option.bind_eq_bind, Option.bind_some, hok] at h
    cases h
    exact ⟨_, rfl, rfl, rfl, hfresh⟩

/-- The rows after the first approval, if the first submission had no grant for its first skill. -/
theorem afterApprovals_one (hnot : ¬ Denied cfg s)
    (hno : ¬ Supplies (rounds 0).clock 0 (neededKeys cfg s) rows)
    (hlacks : LacksFirst ((rounds 0).clock 0) (neededKeys cfg s) rows) {rows' : List GrantRow}
    (h : afterApprovals cfg rounds s rows 1 = some rows') :
    ∃ row, rows' = rows ++ [row] ∧ (neededKeys cfg s).head? = some row.key ∧ row.consumedAt = none ∧
      ∀ r ∈ rows, r.grantId ≠ row.grantId := by
  change approveHeld (rounds 0) (submit cfg (rounds 0).clock s rows) = some rows' at h
  rcases submit_cases cfg (rounds 0).clock s rows with ⟨hdenied, -⟩ | ⟨-, hyes, -⟩ |
    ⟨-, -, ⟨held, hheld, p, -, hhead, hsubmit⟩, -⟩
  · exact absurd hdenied hnot
  · exact absurd hyes hno
  · obtain ⟨hp, hrows⟩ := hhead hlacks
    unfold approveHeld at h
    rw [hsubmit, hrows] at h
    obtain ⟨row, hrow, hkey, hunused, hfresh⟩ := approve_onHold (by simpa [onHold] using h)
    refine ⟨row, hrow, ?_, hunused, hfresh⟩
    rw [← neededKeys_eq hheld, List.head?_map, hp, hkey]
    rfl

theorem unused_append {row : GrantRow} (hunused : row.consumedAt = none) (key : GrantKey) :
    unused key (rows ++ [row]) = unused key rows + if row.key = key then 1 else 0 := by
  unfold unused
  rw [List.countP_append, List.countP_singleton]
  simp [hunused]

/-- If at most the only grant of the first skill is missing, one approval is enough. -/
theorem converges (hs : s.failureReason = none) (hrows : (rows.map (·.grantId)).Nodup)
    (hnot : ¬ Denied cfg s)
    (hsteady : Steady cfg rounds s rows (neededKeys cfg s).dedup.length)
    (hmissing : AtMostFirstMissing (neededKeys cfg s) rows) :
    Converges cfg rounds s rows (neededKeys cfg s).dedup.length := by
  have hlive : Unexpired (rounds 0).clock rows := hsteady.unexpired 0 (Nat.zero_le _) rows rfl
  by_cases hyes : Supplies (rounds 0).clock 0 (neededKeys cfg s) rows
  · -- every grant is there: the first submission passes
    have hpass : (submit cfg (rounds 0).clock s rows).1 = .ok s := by
      rcases submit_cases cfg (rounds 0).clock s rows with ⟨hdenied, -⟩ | ⟨-, -, h⟩ | ⟨-, hno, -⟩
      · exact absurd hdenied hnot
      · exact h
      · exact absurd hyes hno
    refine ⟨fun n rows' hn => ?_, 0, Nat.zero_le _, rows, rfl, s, hpass, afterPolicy_passed hs⟩
    cases n with
    | zero =>
      cases hn
      exact (keepsGrants_iff hs rows).mpr (Or.inr (Or.inr hyes))
    | succ n =>
      have hone : afterApprovals cfg rounds s rows 1 = none := approveHeld_passed hs hpass
      rw [Nat.add_comm, afterApprovals_none hone] at hn
      cases hn
  · -- the grant of the first skill is missing: it is the only one
    have hfirst : ∃ key, (neededKeys cfg s).head? = some key ∧ (neededKeys cfg s).count key = 1 ∧
        unused key rows = 0 := by
      by_contra hnone
      refine hyes ((supplies_iff _ 0 hrows hlive).mpr fun key => ?_)
      by_cases hkey : key ∈ neededKeys cfg s
      · rcases hmissing key hkey with h | ⟨hhead, hcount⟩
        · exact h
        · by_contra hlt
          refine hnone ⟨key, hhead, hcount, ?_⟩
          omega
      · rw [List.count_eq_zero_of_not_mem hkey]
        exact Nat.zero_le _
    obtain ⟨first, hhead, hcount, hzero⟩ := hfirst
    have hmem : first ∈ neededKeys cfg s := List.mem_of_mem_head? hhead
    have hlacks : LacksFirst ((rounds 0).clock 0) (neededKeys cfg s) rows := by
      intro key hkey
      rw [hhead] at hkey
      cases hkey
      exact (selected_eq_none_iff hlive first 0).mpr hzero
    have hheld : LeadsTo (submit cfg (rounds 0).clock s rows) .escalate := by
      rcases submit_cases cfg (rounds 0).clock s rows with ⟨hdenied, -⟩ | ⟨-, h, -⟩ |
        ⟨-, -, ⟨held, -, p, -, -, hsubmit⟩, -⟩
      · exact absurd hdenied hnot
      · exact absurd h hyes
      · exact ⟨_, hsubmit, afterPolicy_onHold p⟩
    have hpos : 1 ≤ (neededKeys cfg s).dedup.length :=
      List.length_pos_of_mem (List.mem_dedup.mpr hmem)
    obtain ⟨rows', hone⟩ := Option.isSome_iff_exists.mp (hsteady.issued 0 (Nat.zero_le _) rows rfl hheld)
    obtain ⟨row, hrow, hkey, hunused, hfresh⟩ := afterApprovals_one hnot hyes hlacks hone
    have hrows' : (rows'.map (·.grantId)).Nodup :=
      hrow ▸ Table.nodup_append GrantRow.grantId hrows hfresh
    have hlive' : Unexpired (rounds 1).clock rows' := hsteady.unexpired 1 hpos rows' hone
    have hsupplied : Supplies (rounds 1).clock 0 (neededKeys cfg s) rows' := by
      refine (supplies_iff _ 0 hrows' hlive').mpr fun key => ?_
      have hsame : row.key = first := Option.some.inj (hkey.symm.trans hhead)
      rw [hrow, unused_append hunused, hsame]
      by_cases hfirst : first = key
      · subst hfirst
        rw [if_pos rfl]
        omega
      · rw [if_neg hfirst]
        by_cases hmem' : key ∈ neededKeys cfg s
        · rcases hmissing key hmem' with h | ⟨h, -⟩
          · exact h
          · exact absurd (Option.some.inj (hhead.symm.trans h)) hfirst
        · rw [List.count_eq_zero_of_not_mem hmem']
          exact Nat.zero_le _
    have hpass : (submit cfg (rounds 1).clock s rows').1 = .ok s := by
      rcases submit_cases cfg (rounds 1).clock s rows' with ⟨hdenied, -⟩ | ⟨-, -, h⟩ | ⟨-, hno, -⟩
      · exact absurd hdenied hnot
      · exact h
      · exact absurd hsupplied hno
    refine ⟨fun n rows'' hn => ?_, 1, hpos, rows', hone, s, hpass, afterPolicy_passed hs⟩
    cases n with
    | zero =>
      cases hn
      exact (keepsGrants_iff hs rows).mpr (Or.inr (Or.inl hlacks))
    | succ n =>
      cases n with
      | zero =>
        rw [Nat.zero_add, hone] at hn
        cases hn
        exact (keepsGrants_iff hs rows').mpr (Or.inr (Or.inr hsupplied))
      | succ n =>
        have htwo : afterApprovals cfg rounds s rows 2 = none := by
          show (afterApprovals cfg rounds s rows 1).bind _ = none
          rw [hone]
          exact approveHeld_passed hs hpass
        rw [show n + 1 + 1 = 2 + n by omega, afterApprovals_none htwo] at hn
        cases hn

/-- A run that keeps the grants and ends lacks at most the only grant of the first skill. -/
theorem missing_of_converges (hs : s.failureReason = none) (hrows : (rows.map (·.grantId)).Nodup)
    (hnot : ¬ Denied cfg s)
    (hsteady : Steady cfg rounds s rows (neededKeys cfg s).dedup.length)
    (h : Converges cfg rounds s rows (neededKeys cfg s).dedup.length) :
    AtMostFirstMissing (neededKeys cfg s) rows := by
  have hlive : Unexpired (rounds 0).clock rows := hsteady.unexpired 0 (Nat.zero_le _) rows rfl
  by_cases hyes : Supplies (rounds 0).clock 0 (neededKeys cfg s) rows
  · exact fun key _ => Or.inl ((supplies_iff _ 0 hrows hlive).mp hyes key)
  · have hlacks : LacksFirst ((rounds 0).clock 0) (neededKeys cfg s) rows := by
      rcases (keepsGrants_iff hs rows).mp (h.keeps 0 rows rfl) with hdenied | hlacks | hsupplies
      · exact absurd hdenied hnot
      · exact hlacks
      · exact absurd hsupplies hyes
    obtain ⟨n, hn, rows'', hrows'', hpasses⟩ := h.passes
    cases n with
    | zero =>
      cases hrows''
      rcases submit_cases cfg (rounds 0).clock s rows with ⟨hdenied, -⟩ | ⟨-, hsupplies, -⟩ |
        ⟨-, -, ⟨held, -, p, -, -, hsubmit⟩, -⟩
      · exact absurd hdenied hnot
      · exact absurd hsupplies hyes
      · rw [leadsTo_iff hsubmit, afterPolicy_onHold] at hpasses
        cases hpasses
    | succ n =>
      -- the first approval adds one grant, and with it there must be enough
      cases hone : afterApprovals cfg rounds s rows 1 with
      | none =>
        rw [Nat.add_comm, afterApprovals_none hone] at hrows''
        cases hrows''
      | some rows' =>
        obtain ⟨row, hrow, hkey, hunused, hfresh⟩ := afterApprovals_one hnot hyes hlacks hone
        have hrows' : (rows'.map (·.grantId)).Nodup :=
          hrow ▸ Table.nodup_append GrantRow.grantId hrows hfresh
        have hlive' : Unexpired (rounds 1).clock rows' := hsteady.unexpired 1 (by omega) rows' hone
        have hzero := (selected_eq_none_iff hlive row.key 0).mp (hlacks row.key hkey)
        have hsupplied : Supplies (rounds 1).clock 0 (neededKeys cfg s) rows' := by
          rcases (keepsGrants_iff hs rows').mp (h.keeps 1 rows' hone) with hdenied | hlacks' | hsupplies
          · exact absurd hdenied hnot
          · have hnone := (selected_eq_none_iff hlive' row.key 0).mp (hlacks' row.key hkey)
            rw [hrow, unused_append hunused, if_pos rfl] at hnone
            omega
          · exact hsupplies
        intro key hmem
        have hcount := (supplies_iff _ 0 hrows' hlive').mp hsupplied key
        rw [hrow, unused_append hunused] at hcount
        by_cases hsame : row.key = key
        · subst hsame
          refine Or.inr ⟨hkey, ?_⟩
          have hpos := List.count_pos_iff.mpr hmem
          rw [if_pos rfl] at hcount
          omega
        · rw [if_neg hsame] at hcount
          exact Or.inl hcount

/-- Which submissions keep the grants of a store, and which tasks pass in time. -/
theorem submissions_keepGrants_iff (cfg : Config) (s : AndromedaState) (hs : s.failureReason = none)
    (rows : List GrantRow) (hrows : (rows.map (·.grantId)).Nodup) :
    (∀ clock, KeepsGrants cfg clock s rows ↔ Denied cfg s ∨
      LacksFirst (clock 0) (neededKeys cfg s) rows ∨ Supplies clock 0 (neededKeys cfg s) rows) ∧
    (¬ Denied cfg s → ∀ rounds, Steady cfg rounds s rows (neededKeys cfg s).dedup.length →
      (Converges cfg rounds s rows (neededKeys cfg s).dedup.length ↔
        AtMostFirstMissing (neededKeys cfg s) rows)) :=
  ⟨fun _ => keepsGrants_iff hs rows, fun hnot _ hsteady =>
    ⟨missing_of_converges hs hrows hnot hsteady, converges hs hrows hnot hsteady⟩⟩

end Submit

/-! ## Two held skills -/

/-- A function that agrees with SHA-256 on the texts
`{"origin": "api", "payload": {}, "skill": "export"}` and
`{"origin": "api", "payload": {}, "skill": "report"}`. -/
def pairSha256 (text : String) : String :=
  if text = "\x7b\"origin\": \"api\", \"payload\": \x7b\x7d, \"skill\": \"export\"\x7d" then
    "5c0422248c53d3036be512b0080e9c07cdb89f65ffe8fb83914a1a33e4bcbb68"
  else if text = "\x7b\"origin\": \"api\", \"payload\": \x7b\x7d, \"skill\": \"report\"\x7d" then
    "48a6d123352b8356be6ac8bb08f90a3c6f42bc971b2483ad337aea12ae1e6d41"
  else ""

/-- A graph whose policy wants a review of everything. -/
def pairConfig : Config :=
  { demoConfig with
    policy := { rules := [{ skill := "*", action := .requireReview }] }
    sha256 := pairSha256 }

def pairState : AndromedaState :=
  { taskId := "1", origin := some "api", requiredSkills := ["export", "report"] }

def exportKey : GrantKey :=
  { origin := "api"
    skill := "export"
    digest := "5c0422248c53d3036be512b0080e9c07cdb89f65ffe8fb83914a1a33e4bcbb68" }

def reportKey : GrantKey :=
  { origin := "api"
    skill := "report"
    digest := "48a6d123352b8356be6ac8bb08f90a3c6f42bc971b2483ad337aea12ae1e6d41" }

/-- The approval of the first skill. -/
def exportGrant : GrantRow :=
  GrantStore.newRow 1 exportKey (some "review") ApprovalWorld.demoNow (Datetime.ofMicros 3600000000)

/-- The clock stands still. -/
def stillRounds (n : ℕ) : Round :=
  { clock := fun _ => ApprovalWorld.demoNow
    approvedAt := ApprovalWorld.demoNow
    grantId := (n : Uuid) }

theorem pairState_neededKeys : neededKeys pairConfig pairState = [exportKey, reportKey] := by
  decide +kernel

/-- The grant of the first skill is spent though the task is held for the second; and from an empty store
two approvals are not enough, a third one follows. -/
theorem pairState_spends :
    ¬ KeepsGrants pairConfig (fun _ => ApprovalWorld.demoNow) pairState [exportGrant] ∧
      (afterApprovals pairConfig stillRounds pairState [] 3).isSome = true := by
  refine ⟨fun h => ?_, by decide +kernel⟩
  rcases (keepsGrants_iff rfl [exportGrant]).mp h with hdenied | hlacks | hsupplies
  · unfold Denied at hdenied
    exact absurd hdenied (by decide +kernel)
  · rw [pairState_neededKeys] at hlacks
    exact absurd (hlacks exportKey rfl) (by decide +kernel)
  · rw [pairState_neededKeys] at hsupplies
    obtain ⟨row, -, other, hother, -⟩ := hsupplies
    obtain ⟨hmem, hkey, -⟩ := GrantStore.selected_some hother
    rw [List.mem_singleton.mp (List.mem_of_mem_filter hmem)] at hkey
    exact absurd hkey (by decide +kernel)

/-- An approval of the second skill. -/
def reportGrant : GrantRow :=
  GrantStore.newRow 9 reportKey (some "review") ApprovalWorld.demoNow (Datetime.ofMicros 3600000000)

/-- The approval of the first skill after the first submission. -/
def firstApproval : GrantRow :=
  GrantStore.newRow 0 exportKey (some "review") ApprovalWorld.demoNow (Datetime.ofMicros 3600000000)

theorem pairState_firstApproval :
    afterApprovals pairConfig stillRounds pairState [reportGrant] 1 = some [reportGrant, firstApproval] := by
  decide +kernel

/-- The second submission passes. -/
theorem pairState_passes :
    (submit pairConfig (stillRounds 1).clock pairState [reportGrant, firstApproval]).1.toOption.map
      (·.failureReason) = some none := by
  decide +kernel

theorem pairState_steady : Steady pairConfig stillRounds pairState [reportGrant] 2 := by
  have hone := pairState_firstApproval
  have hpass : ¬ LeadsTo (submit pairConfig (stillRounds 1).clock pairState [reportGrant, firstApproval])
      .escalate := by
    rintro ⟨s', hs', hnode⟩
    have hreason := pairState_passes
    rw [hs'] at hreason
    rw [afterPolicy_passed (Option.some.inj hreason)] at hnode
    cases hnode
  have htwo : afterApprovals pairConfig stillRounds pairState [reportGrant] 2 = none := by
    decide +kernel
  constructor
  · intro n hn rows' hrows' row hrow _ _
    have hmem : row ∈ [reportGrant, firstApproval] := by
      rcases (show n = 0 ∨ n = 1 ∨ n = 2 by omega) with rfl | rfl | rfl
      · cases hrows'
        exact List.mem_cons.mpr (Or.inl (List.mem_singleton.mp hrow))
      · rw [hone] at hrows'
        cases hrows'
        exact hrow
      · rw [htwo] at hrows'
        cases hrows'
    have hlater : ApprovalWorld.demoNow < Datetime.ofMicros 3600000000 := by decide +kernel
    rcases List.mem_pair.mp hmem with rfl | rfl
    · exact (Datetime.isoformat_lt_iff _ _).mpr hlater
    · exact (Datetime.isoformat_lt_iff _ _).mpr hlater
  · intro n hn rows' hrows' hheld
    rcases (show n = 0 ∨ n = 1 ∨ n = 2 by omega) with rfl | rfl | rfl
    · rw [hone]
      rfl
    · rw [hone] at hrows'
      cases hrows'
      exact absurd hheld hpass
    · rw [htwo] at hrows'
      cases hrows'

/-- Two held skills and a grant of the second: the grant is kept while the task is held for the first, and the
task passes after the approval of that one. -/
theorem heldPair_converges :
    KeepsGrants pairConfig (fun _ => ApprovalWorld.demoNow) pairState [reportGrant] ∧
      Converges pairConfig stillRounds pairState [reportGrant] 2 := by
  have hnot : ¬ Denied pairConfig pairState := by
    unfold Denied
    decide +kernel
  have hlacks : GrantStore.LacksFirst ApprovalWorld.demoNow [exportKey, reportKey] [reportGrant] := by
    intro key hkey
    cases hkey
    decide +kernel
  have hmissing : GrantStore.AtMostFirstMissing [exportKey, reportKey] [reportGrant] := by
    intro key hkey
    rcases List.mem_pair.mp hkey with rfl | rfl
    · exact Or.inr ⟨rfl, by decide +kernel⟩
    · exact Or.inl (by decide +kernel)
  obtain ⟨hkeeps, hconverges⟩ :=
    submissions_keepGrants_iff pairConfig pairState rfl [reportGrant] (List.nodup_singleton _)
  rw [pairState_neededKeys] at hkeeps hconverges
  have htwo : [exportKey, reportKey].dedup.length = 2 := by decide +kernel
  rw [htwo] at hconverges
  exact ⟨(hkeeps _).mpr (Or.inr (Or.inl hlacks)), (hconverges hnot stillRounds pairState_steady).mpr hmissing⟩

end Andromeda

end Galaxz
