import Galaxz.Lib.Machine
import Galaxz.Lib.Table
import Galaxz.Orion.RoutingWeights

/-!
# Updates of the routing weights, skill by skill

What a run decides for a skill is compared between two runs that agree on the skill. The version of the
file, which counts the updates of all skills, takes part in the decision: as the sign that the skill itself
was never updated.
-/

namespace Galaxz

namespace PyFloat

/-- A float that a computation returns: a double, if it is finite. -/
def IsFloat (x : PyFloat) : Prop := ∀ q, x = .finite q → IsDouble q

theorem isFloat_round {x : PyFloat} (digits : ℕ) : IsFloat (x.round digits) := by
  intro q h
  cases x with
  | finite p =>
    rw [← PyFloat.finite.inj h]
    exact isDouble_toDouble _
  | posInf => cases h
  | negInf => cases h
  | nan => cases h

end PyFloat

namespace HeuristicGenerator

open PyFloat

/-! ## One run -/

/-- The skill passes the threshold and has a suggestion. -/
def Eligible (r : HeuristicRun) (skillId : String) : Prop :=
  r.data.coldStartThreshold ≤ (analyze r skillId 1).eventCount ∧ (suggestedWeights r skillId 2).items ≠ []

/-- The average confidence at the last update of the skill. -/
def recordedAvg (r : HeuristicRun) (skillId : String) : Option PyFloat :=
  (r.data.lastUpdateMetrics.get skillId).bind (·.avgConfidence)

/-- The average confidence is above the previous one by more than the threshold. -/
def Improves (r : HeuristicRun) (skillId : String) (previous : PyFloat) : Prop :=
  improvementThreshold.lt ((analyze r skillId 1).avgConfidence.sub previous) = true

/-- The suggested weights are the current ones, up to the tolerance. -/
def Matches (r : HeuristicRun) (skillId : String) : Prop :=
  weightsMatch (RoutingWeightsLoader.getWeights r.data skillId) (suggestedWeights r skillId 2) = true

/-- The average confidence, as the last query returns it. -/
def currentAvg (r : HeuristicRun) (skillId : String) : PyFloat := (analyze r skillId 3).avgConfidence

theorem shouldUpdateWeights_iff (r : HeuristicRun) (skillId : String) :
    shouldUpdateWeights r skillId = true ↔ Eligible r skillId ∧
      Improves r skillId (lastAvgConfidence r skillId 3) ∧ (Matches r skillId → r.data.version = 0) := by
  unfold shouldUpdateWeights Eligible Improves Matches RoutingWeightsLoader.lastVersion
  simp only
  by_cases hcold : ((analyze r skillId 1).eventCount : ℤ) < r.data.coldStartThreshold
  · rw [if_pos hcold]
    constructor
    · intro h
      cases h
    · rintro ⟨⟨hcount, -⟩, -, -⟩
      omega
  rw [if_neg hcold]
  by_cases hempty : (suggestedWeights r skillId 2).items = []
  · simp [hempty]
  rw [if_neg (by simpa using hempty)]
  have hcount : r.data.coldStartThreshold ≤ (analyze r skillId 1).eventCount := by omega
  by_cases hmatch : weightsMatch (RoutingWeightsLoader.getWeights r.data skillId) (suggestedWeights r skillId 2) = true
  · rw [if_pos hmatch, Bool.and_eq_true, decide_eq_true_eq]
    exact ⟨fun h => ⟨⟨hcount, hempty⟩, h.2, fun _ => h.1⟩, fun h => ⟨h.2.2 hmatch, h.2.1⟩⟩
  · rw [if_neg hmatch]
    exact ⟨fun h => ⟨⟨hcount, hempty⟩, h, fun hm => absurd hm hmatch⟩, fun h => h.2.1⟩

/-- The previous average, by what is known of the skill. -/
theorem lastAvgConfidence_cases (r : HeuristicRun) (skillId : String) :
    (∃ avg, recordedAvg r skillId = some avg ∧ lastAvgConfidence r skillId 3 = avg) ∨
    (recordedAvg r skillId = none ∧ r.data.version = 0 ∧ lastAvgConfidence r skillId 3 = .finite 0) ∨
    (recordedAvg r skillId = none ∧ r.data.version ≠ 0 ∧ lastAvgConfidence r skillId 3 = currentAvg r skillId) := by
  unfold lastAvgConfidence recordedAvg currentAvg RoutingWeightsLoader.lastVersion
  cases (r.data.lastUpdateMetrics.get skillId).bind (·.avgConfidence) with
  | some avg => exact Or.inl ⟨avg, rfl, rfl⟩
  | none =>
    by_cases hversion : r.data.version = 0
    · exact Or.inr (Or.inl ⟨rfl, hversion, if_pos hversion⟩)
    · exact Or.inr (Or.inr ⟨rfl, hversion, if_neg hversion⟩)

/-! ## The loop -/

/-- What a round adds for its skill. -/
theorem runSkill_cases (r : HeuristicRun) (p : Progress) (skillId : String) :
    (shouldUpdateWeights r skillId = true ∧
      (runSkill r p skillId).summary.updatedSkills = p.summary.updatedSkills ++ [skillId] ∧
      (runSkill r p skillId).weights = p.weights.set skillId (suggestedWeights r skillId 4)) ∨
    (shouldUpdateWeights r skillId = false ∧
      (runSkill r p skillId).summary.updatedSkills = p.summary.updatedSkills ∧
      (runSkill r p skillId).weights = p.weights) := by
  unfold runSkill generateWeightUpdate
  cases shouldUpdateWeights r skillId with
  | true => exact Or.inl ⟨rfl, rfl, rfl⟩
  | false => exact Or.inr ⟨rfl, rfl, rfl⟩

theorem foldl_updatedSkills (r : HeuristicRun) (skills : List String) (p : Progress) :
    (skills.foldl (runSkill r) p).summary.updatedSkills =
      p.summary.updatedSkills ++ skills.filter (shouldUpdateWeights r) := by
  induction skills generalizing p with
  | nil => exact (List.append_nil _).symm
  | cons skillId skills ih =>
    rw [List.foldl_cons, ih]
    rcases runSkill_cases r p skillId with ⟨hupdate, hskills, -⟩ | ⟨hupdate, hskills, -⟩
    · rw [hskills, List.filter_cons_of_pos hupdate, List.append_assoc]
      rfl
    · rw [hskills, List.filter_cons_of_neg (by simp [hupdate])]

/-- The loop sets the weights of the skills it updates. -/
theorem foldl_weights (r : HeuristicRun) (skillId : String) (skills : List String) (p : Progress) :
    (skills.foldl (runSkill r) p).weights.get skillId =
      if skillId ∈ skills ∧ shouldUpdateWeights r skillId = true then some (suggestedWeights r skillId 4)
      else p.weights.get skillId := by
  induction skills generalizing p with
  | nil => simp
  | cons head skills ih =>
    rw [List.foldl_cons, ih]
    rcases runSkill_cases r p head with ⟨hupdate, -, hweights⟩ | ⟨hupdate, -, hweights⟩
    · by_cases heq : skillId = head
      · subst heq
        simp [hupdate, hweights]
      · rw [hweights, Mapping.get_set_of_ne _ heq]
        simp [heq]
    · rw [hweights]
      by_cases heq : skillId = head
      · subst heq
        simp [hupdate]
      · simp [heq]

theorem updatedSkills_eq (r : HeuristicRun) :
    (run r).1.updatedSkills = r.data.weights.keys.filter (shouldUpdateWeights r) := by
  have hloop := foldl_updatedSkills r r.data.weights.keys { weights := r.data.weights, metrics := r.data.lastUpdateMetrics }
  unfold run runSkills
  simp only
  split_ifs
  · rw [hloop]
    rfl
  · rw [hloop]
    rfl

theorem mem_updatedSkills_iff (r : HeuristicRun) (skillId : String) :
    skillId ∈ (run r).1.updatedSkills ↔ skillId ∈ r.data.weights.keys ∧ shouldUpdateWeights r skillId = true := by
  rw [updatedSkills_eq, List.mem_filter]

/-- The file after a run has the suggested weights of the skills that were updated, and the old ones of the
others. -/
theorem run_weights (r : HeuristicRun) (skillId : String) :
    (run r).2.weights.get skillId =
      if skillId ∈ (run r).1.updatedSkills then some (suggestedWeights r skillId 4)
      else r.data.weights.get skillId := by
  have hloop := foldl_updatedSkills r r.data.weights.keys { weights := r.data.weights, metrics := r.data.lastUpdateMetrics }
  have hweights := foldl_weights r skillId r.data.weights.keys
    { weights := r.data.weights, metrics := r.data.lastUpdateMetrics }
  simp only [mem_updatedSkills_iff]
  by_cases hempty : (runSkills r).summary.updatedSkills = []
  · have hnone : ¬ (skillId ∈ r.data.weights.keys ∧ shouldUpdateWeights r skillId = true) := by
      rw [← List.mem_filter]
      have hfilter : r.data.weights.keys.filter (shouldUpdateWeights r) = [] := by
        have := hloop.symm.trans hempty
        exact (List.append_eq_nil_iff.mp this).2
      rw [hfilter]
      exact List.not_mem_nil
    rw [if_neg hnone]
    unfold run
    simp [hempty]
  · have hrun : (run r).2.weights = (runSkills r).weights := by
      unfold run
      simp [hempty]
    rw [hrun]
    exact hweights

/-- A run that updates a skill counts the version up. -/
theorem run_version (r : HeuristicRun) :
    (run r).2.version = if (run r).1.updatedSkills = [] then r.data.version else r.data.version + 1 := by
  unfold run
  simp only
  split_ifs with hempty hskills hskills
  · rfl
  · exact absurd (List.isEmpty_iff.mp hempty) hskills
  · exact absurd (List.isEmpty_iff.mpr hskills) hempty
  · rfl

/-! ## Two runs -/

/-- Two runs see the same of a skill: its events, weights and metrics, at the same times and with the same
threshold. -/
structure AgreeOn (skillId : String) (a b : HeuristicRun) : Prop where
  events : a.events.filter (·.taskCategory = skillId) = b.events.filter (·.taskCategory = skillId)
  weights : a.data.weights.get skillId = b.data.weights.get skillId
  metrics : a.data.lastUpdateMetrics.get skillId = b.data.lastUpdateMetrics.get skillId
  threshold : a.data.coldStartThreshold = b.data.coldStartThreshold
  clock : a.clock skillId = b.clock skillId

/-- A query for a skill reads only its events. -/
theorem queryEvents_congr {events events' : List FeedbackEventRow} {skillId : String}
    (h : events.filter (·.taskCategory = skillId) = events'.filter (·.taskCategory = skillId)) (clock : RunClock)
    (windowHours beforeHours : ℕ) :
    queryEvents events clock skillId windowHours beforeHours = queryEvents events' clock skillId windowHours beforeHours := by
  unfold queryEvents
  simp only
  congr 1
  have hsplit : ∀ (rows : List FeedbackEventRow) (p : FeedbackEventRow → Bool),
      (rows.filter fun row => row.taskCategory = skillId && p row) =
        (rows.filter (·.taskCategory = skillId)).filter p := by
    intro rows p
    rw [List.filter_filter]
    congr 1
    funext row
    rw [Bool.and_comm]
  rw [hsplit, hsplit, h]

section Agreement

variable {skillId : String} {a b : HeuristicRun}

theorem AgreeOn.symm (h : AgreeOn skillId a b) : AgreeOn skillId b a :=
  ⟨h.events.symm, h.weights.symm, h.metrics.symm, h.threshold.symm, h.clock.symm⟩

theorem AgreeOn.mem_keys (h : AgreeOn skillId a b) : skillId ∈ a.data.weights.keys ↔ skillId ∈ b.data.weights.keys := by
  rw [Mapping.mem_keys_iff, Mapping.mem_keys_iff, h.weights]

theorem AgreeOn.analyze (h : AgreeOn skillId a b) (i : ℕ) : analyze a skillId i = analyze b skillId i := by
  unfold HeuristicGenerator.analyze analyzeRows weekRows
  rw [queryEvents_congr h.events, h.clock, h.threshold]

theorem AgreeOn.getWeights (h : AgreeOn skillId a b) :
    RoutingWeightsLoader.getWeights a.data skillId = RoutingWeightsLoader.getWeights b.data skillId := by
  unfold RoutingWeightsLoader.getWeights
  rw [h.weights]

theorem AgreeOn.suggestedWeights (h : AgreeOn skillId a b) (i : ℕ) :
    suggestedWeights a skillId i = suggestedWeights b skillId i := by
  unfold HeuristicGenerator.suggestedWeights weekRows
  rw [queryEvents_congr h.events, h.clock, h.getWeights]

theorem AgreeOn.eligible (h : AgreeOn skillId a b) : Eligible a skillId ↔ Eligible b skillId := by
  unfold Eligible
  rw [h.threshold, h.analyze, h.suggestedWeights]

theorem AgreeOn.recordedAvg (h : AgreeOn skillId a b) : recordedAvg a skillId = recordedAvg b skillId := by
  unfold HeuristicGenerator.recordedAvg
  rw [h.metrics]

theorem AgreeOn.improves (h : AgreeOn skillId a b) (previous : PyFloat) :
    Improves a skillId previous ↔ Improves b skillId previous := by
  unfold Improves
  rw [h.analyze]

theorem AgreeOn.matches (h : AgreeOn skillId a b) : Matches a skillId ↔ Matches b skillId := by
  unfold Matches
  rw [h.getWeights, h.suggestedWeights]

theorem AgreeOn.currentAvg (h : AgreeOn skillId a b) : currentAvg a skillId = currentAvg b skillId := by
  unfold HeuristicGenerator.currentAvg
  rw [h.analyze]

end Agreement

/-- The decision for the skill turns on whether the version is zero. -/
def ReadsVersion (r : HeuristicRun) (skillId : String) : Prop :=
  skillId ∈ r.data.weights.keys ∧ Eligible r skillId ∧
    match recordedAvg r skillId with
    | some avg => Improves r skillId avg ∧ Matches r skillId
    | none => ¬ (Improves r skillId (.finite 0) ↔ ¬ Matches r skillId ∧ Improves r skillId (currentAvg r skillId))

/-- The skill passes the threshold, its average is high enough, it was never updated, and its suggested weights
are not its current ones. -/
structure Due (r : HeuristicRun) (skillId : String) : Prop where
  mem_keys : skillId ∈ r.data.weights.keys
  eligible : Eligible r skillId
  average : improvementThreshold.lt (analyze r skillId 1).avgConfidence = true
  never : recordedAvg r skillId = none
  differs : ¬ Matches r skillId

/-- The update of a skill depends on what is known of the skill, and comes when it is due. -/
structure PerSkill (skillId : String) (a b : HeuristicRun) : Prop where
  decision : skillId ∈ (run a).1.updatedSkills ↔ skillId ∈ (run b).1.updatedSkills
  newWeights : (run a).2.weights.get skillId = (run b).2.weights.get skillId
  due : ∀ r, r = a ∨ r = b → Due r skillId → skillId ∈ (run r).1.updatedSkills

/-- The decision, by what is known of the skill and whether the version is zero. -/
theorem updated_iff (r : HeuristicRun) (skillId : String) :
    skillId ∈ (run r).1.updatedSkills ↔ skillId ∈ r.data.weights.keys ∧ Eligible r skillId ∧
      match recordedAvg r skillId with
      | some avg => Improves r skillId avg ∧ (Matches r skillId → r.data.version = 0)
      | none =>
        if r.data.version = 0 then Improves r skillId (.finite 0)
        else ¬ Matches r skillId ∧ Improves r skillId (currentAvg r skillId) := by
  rw [mem_updatedSkills_iff, shouldUpdateWeights_iff]
  rcases lastAvgConfidence_cases r skillId with ⟨avg, hknown, hlast⟩ | ⟨hknown, hversion, hlast⟩ |
      ⟨hknown, hversion, hlast⟩
  · rw [hknown, hlast]
  · rw [hknown, hlast]
    simp [hversion]
  · rw [hknown, hlast]
    simp only [if_neg hversion]
    tauto

/-- Two runs that agree on a skill decide the same for it, unless the decision turns on the version and the
versions are apart. -/
theorem decision_iff {skillId : String} {a b : HeuristicRun} (h : AgreeOn skillId a b) :
    (skillId ∈ (run a).1.updatedSkills ↔ skillId ∈ (run b).1.updatedSkills) ↔
      ¬ ReadsVersion a skillId ∨ (a.data.version = 0 ↔ b.data.version = 0) := by
  rw [updated_iff, updated_iff, ← h.mem_keys, ← h.eligible, ← h.recordedAvg, ← h.matches, ← h.currentAvg]
  unfold ReadsVersion
  by_cases hknown : skillId ∈ a.data.weights.keys ∧ Eligible a skillId
  · simp only [hknown.1, hknown.2, true_and]
    cases recordedAvg a skillId with
    | some avg =>
      simp only [← h.improves avg]
      by_cases himproves : Improves a skillId avg
      · by_cases hmatches : Matches a skillId
        · simp [himproves, hmatches]
        · simp [hmatches]
      · simp [himproves]
    | none =>
      have hzero := h.improves (.finite 0)
      have hcurrent := h.improves (currentAvg a skillId)
      simp only [← hzero, ← hcurrent]
      -- the two values that the version chooses between are the two sides of the equivalence
      by_cases hsame : Improves a skillId (.finite 0) ↔ ¬ Matches a skillId ∧ Improves a skillId (currentAvg a skillId)
      · simp [hsame]
      · by_cases ha : a.data.version = 0
        · by_cases hb : b.data.version = 0
          · simp [ha, hb]
          · simp [ha, hb, hsame]
        · by_cases hb : b.data.version = 0
          · have hsymm : ¬ (¬ Matches a skillId ∧ Improves a skillId (currentAvg a skillId) ↔
                Improves a skillId (.finite 0)) := fun heq => hsame heq.symm
            simp [ha, hb, hsame, hsymm]
          · simp [ha, hb]
  · have hleft : ∀ P : Prop, ¬ (skillId ∈ a.data.weights.keys ∧ Eligible a skillId ∧ P) :=
      fun P hP => hknown ⟨hP.1, hP.2.1⟩
    simp [hleft]

/-- Runs that decide the same for a skill they agree on give it the same weights. -/
theorem newWeights_of_decision {skillId : String} {a b : HeuristicRun} (h : AgreeOn skillId a b)
    (hdecision : skillId ∈ (run a).1.updatedSkills ↔ skillId ∈ (run b).1.updatedSkills) :
    (run a).2.weights.get skillId = (run b).2.weights.get skillId := by
  rw [run_weights, run_weights, h.suggestedWeights, h.weights]
  simp only [hdecision]

/-- Taking away zero leaves a float on its side of the threshold. -/
theorem lt_sub_zero {x : PyFloat} (hx : IsFloat x) :
    improvementThreshold.lt (x.sub (.finite 0)) = improvementThreshold.lt x := by
  cases x with
  | finite q =>
    have hsum : (PyFloat.finite q).sub (.finite 0) = ofProduct q := by
      show ofProduct (toDouble (q + -0)) = ofProduct q
      rw [neg_zero, add_zero, toDouble_of_isDouble (hx q rfl)]
    rw [hsum]
    unfold ofProduct improvementThreshold
    have hbound : (3602879701896397 / 72057594037927936 : ℚ) < overflowBound := by
      have hone : (1 : ℚ) ≤ overflowBound := one_le_pow₀ one_le_two
      exact lt_of_lt_of_le (by norm_num) hone
    split_ifs with hlarge hsmall
    · show true = decide _
      exact (decide_eq_true (lt_of_lt_of_le hbound hlarge)).symm
    · show false = decide _
      refine (decide_eq_false (not_lt.mpr (le_trans hsmall ?_))).symm
      have hpos : (0 : ℚ) ≤ overflowBound := by
        unfold overflowBound
        positivity
      have hthreshold : (0 : ℚ) ≤ 3602879701896397 / 72057594037927936 := by norm_num
      linarith
    · rfl
  | posInf => rfl
  | negInf => rfl
  | nan => rfl

/-- A skill that is due is updated if no skill ever was, and otherwise only if its average fell between two
queries of the decision. -/
theorem due_iff {skillId : String} {r : HeuristicRun} (h : Due r skillId) :
    skillId ∈ (run r).1.updatedSkills ↔ r.data.version = 0 ∨ Improves r skillId (currentAvg r skillId) := by
  have hzero : Improves r skillId (.finite 0) := by
    have hfloat : IsFloat (analyze r skillId 1).avgConfidence := isFloat_round 4
    unfold Improves
    rw [lt_sub_zero hfloat]
    exact h.average
  have hmem := h.mem_keys
  have heligible := h.eligible
  have hdiffers := h.differs
  rw [updated_iff, h.never]
  by_cases hversion : r.data.version = 0
  · simp [hversion, hmem, heligible, hzero]
  · simp [hversion, hmem, heligible, hdiffers]

theorem Due.congr {skillId : String} {a b : HeuristicRun} (h : AgreeOn skillId a b) (ha : Due a skillId) :
    Due b skillId where
  mem_keys := h.mem_keys.mp ha.mem_keys
  eligible := h.eligible.mp ha.eligible
  average := h.analyze 1 ▸ ha.average
  never := h.recordedAvg ▸ ha.never
  differs := fun hb => ha.differs (h.matches.mpr hb)

/-! ## Runs one after the other -/

/-- What a run reads besides the file. -/
structure RunInput where
  events : List FeedbackEventRow
  clock : String → ℕ → RunClock
  finished : Datetime

/-- The run on a file. -/
def RunInput.on (input : RunInput) (data : WeightsFile) : HeuristicRun :=
  { events := input.events, data, clock := input.clock, finished := input.finished }

/-- The file after a run. -/
def fileStep (input : RunInput) (data : WeightsFile) : WeightsFile := (run (input.on data)).2

/-- The run updates no skill. -/
def UpdatesNothing (input : RunInput) (data : WeightsFile) : Prop := (run (input.on data)).1.updatedSkills = []

/-- The version is zero as long as no skill is updated. -/
theorem version_eq_zero_iff (inputs : List RunInput) {data : WeightsFile} (h : 0 ≤ data.version) :
    (Machine.run fileStep inputs data).version = 0 ↔
      data.version = 0 ∧ Machine.Along fileStep UpdatesNothing inputs data := by
  induction inputs generalizing data with
  | nil => simp [Machine.Along]
  | cons input inputs ih =>
    have hversion := run_version (input.on data)
    have hdata : (input.on data).data = data := rfl
    rw [hdata] at hversion
    have hstep : 0 ≤ (fileStep input data).version := by
      unfold fileStep
      rw [hversion]
      split_ifs
      · exact h
      · omega
    rw [Machine.run_cons, ih hstep]
    show _ ↔ data.version = 0 ∧ (run (input.on data)).1.updatedSkills = [] ∧
      Machine.Along fileStep UpdatesNothing inputs (fileStep input data)
    by_cases hnothing : (run (input.on data)).1.updatedSkills = []
    · have hsame : (fileStep input data).version = data.version := hversion.trans (if_pos hnothing)
      rw [hsame]
      exact ⟨fun hzero => ⟨hzero.1, hnothing, hzero.2⟩, fun hzero => ⟨hzero.1, hzero.2.2⟩⟩
    · have hnext : (fileStep input data).version = data.version + 1 := hversion.trans (if_neg hnothing)
      rw [hnext]
      constructor
      · rintro ⟨hzero, -⟩
        omega
      · rintro ⟨-, hnone, -⟩
        exact absurd hnone hnothing

/-- The update of a skill is its own affair if and only if its decision does not turn on the version, or the
two files are both at version zero or both not, and a skill that is due finds the version at zero. From the
seed file on, that is before any skill was updated. -/
theorem run_perSkill_iff (skillId : String) :
    (∀ a b : HeuristicRun, AgreeOn skillId a b →
      (PerSkill skillId a b ↔ (¬ ReadsVersion a skillId ∨ (a.data.version = 0 ↔ b.data.version = 0)) ∧
        (Due a skillId → a.data.version = 0 ∨ Improves a skillId (currentAvg a skillId)))) ∧
    ∀ (data : WeightsFile) (inputs : List RunInput) (input : RunInput), data.version = 0 →
      Due (input.on (Machine.run fileStep inputs data)) skillId →
      (skillId ∈ (run (input.on (Machine.run fileStep inputs data))).1.updatedSkills ↔
        Machine.Along fileStep UpdatesNothing inputs data ∨
          Improves (input.on (Machine.run fileStep inputs data)) skillId
            (currentAvg (input.on (Machine.run fileStep inputs data)) skillId)) := by
  constructor
  · intro a b hagree
    constructor
    · intro h
      exact ⟨(decision_iff hagree).mp h.decision, fun hdue => (due_iff hdue).mp (h.due a (Or.inl rfl) hdue)⟩
    · rintro ⟨hversions, hdue⟩
      have hdecision := (decision_iff hagree).mpr hversions
      refine ⟨hdecision, newWeights_of_decision hagree hdecision, ?_⟩
      rintro r (rfl | rfl) hr
      · exact (due_iff hr).mpr (hdue hr)
      · -- what is due in one run is due in the other, where it is updated
        have ha : Due a skillId := hr.congr hagree.symm
        exact hdecision.mp ((due_iff ha).mpr (hdue ha))
  · intro data inputs input hversion hdue
    rw [due_iff hdue]
    have hfile : (input.on (Machine.run fileStep inputs data)).data = Machine.run fileStep inputs data := rfl
    rw [hfile, version_eq_zero_iff inputs hversion.ge]
    simp only [hversion, true_and]

/-- Noon of a day, for the clock of an example. -/
def noonOf (day : ℕ) : RunClock where
  now := Datetime.ofMicros ((day % 1000 + 738000) * 86400000000 + 43200000000)
  week_le := by
    unfold weekHours Datetime.ofMicros datetimeBound
    simp only
    omega

/-- A task of rigel that went well, at noon of a day. -/
def goodTask (id skillId : String) (day : ℕ) : FeedbackEventRow where
  id
  taskId := id
  taskCategory := skillId
  agentId := "rigel"
  outcome := "completed"
  confidenceScore := .finite (9 / 10)
  inputHash := "h"
  agentOutput := .dict []
  humanCorrection := none
  latencyMs := 100
  timestamp := (noonOf day).now.isoformat

/-- Two skills at their seed weights, with a threshold of one event. -/
def seedFile : WeightsFile where
  coldStartThreshold := 1
  weights := ⟨[("lint", ⟨[("vega", .finite 1), ("rigel", .finite 0)], by decide⟩),
    ("scan", ⟨[("vega", .finite 1), ("rigel", .finite 0)], by decide⟩)], by decide⟩

/-- On the first day only the second skill passes the threshold. -/
def firstDay : RunInput := ⟨[goodTask "e1" "scan" 0], fun _ _ => noonOf 1, (noonOf 1).now⟩

/-- On the second day the first one does, too. -/
def secondDay : RunInput :=
  ⟨[goodTask "e1" "scan" 0, goodTask "e2" "lint" 1], fun _ _ => noonOf 2, (noonOf 2).now⟩

theorem lint_agrees : AgreeOn "lint" (secondDay.on seedFile) (secondDay.on (fileStep firstDay seedFile)) where
  events := rfl
  weights := by decide +kernel
  metrics := by decide +kernel
  threshold := by decide +kernel
  clock := rfl

theorem lint_due : Due (secondDay.on (fileStep firstDay seedFile)) "lint" where
  mem_keys := by decide +kernel
  eligible := by
    unfold Eligible
    decide +kernel
  average := by decide +kernel
  never := by decide +kernel
  differs := by
    unfold Matches
    decide +kernel

/-- The first skill at the same weights, next to a skill that the other file does not have. -/
def lintFile : WeightsFile where
  source := some "seed"
  coldStartThreshold := 1
  weights := ⟨[("deploy", ⟨[("rigel", .finite 1)], by decide⟩),
    ("lint", ⟨[("vega", .finite 1), ("rigel", .finite 0)], by decide⟩)], by decide⟩

/-- The second day without the event of the second skill. -/
def lintDay : RunInput := ⟨[goodTask "e2" "lint" 1], fun _ _ => noonOf 2, (noonOf 2).now⟩

theorem lint_agrees_alone : AgreeOn "lint" (secondDay.on seedFile) (lintDay.on lintFile) where
  events := by decide +kernel
  weights := by decide +kernel
  metrics := by decide +kernel
  threshold := by decide +kernel
  clock := rfl

theorem lint_due_alone : Due (lintDay.on lintFile) "lint" where
  mem_keys := by decide +kernel
  eligible := by
    unfold Eligible
    decide +kernel
  average := by decide +kernel
  never := by decide +kernel
  differs := by
    unfold Matches
    decide +kernel

/-- Two runs that see the same of a skill, with other skills beside it: both update it, to the same weights. And
the second day after the first, where it is due. -/
theorem run_perSkill_lint :
    PerSkill "lint" (secondDay.on seedFile) (lintDay.on lintFile) ∧
      "lint" ∈ (run (secondDay.on seedFile)).1.updatedSkills ∧
      "lint" ∈ (run (lintDay.on lintFile)).1.updatedSkills ∧
      ("lint" ∈ (run (secondDay.on (Machine.run fileStep [firstDay] seedFile))).1.updatedSkills ↔
        Machine.Along fileStep UpdatesNothing [firstDay] seedFile ∨
          Improves (secondDay.on (Machine.run fileStep [firstDay] seedFile)) "lint"
            (currentAvg (secondDay.on (Machine.run fileStep [firstDay] seedFile)) "lint")) := by
  obtain ⟨hpair, hruns⟩ := run_perSkill_iff "lint"
  have hper : PerSkill "lint" (secondDay.on seedFile) (lintDay.on lintFile) :=
    (hpair _ _ lint_agrees_alone).mpr ⟨Or.inr Iff.rfl, fun _ => Or.inl rfl⟩
  have hupdated := hper.due _ (Or.inr rfl) lint_due_alone
  exact ⟨hper, hper.decision.mpr hupdated, hupdated, hruns seedFile [firstDay] secondDay rfl lint_due⟩

/-- The update of another skill on the first day keeps a skill that is due from its update on the second. -/
theorem late_skill_not_updated :
    (run (firstDay.on seedFile)).1.updatedSkills = ["scan"] ∧
      AgreeOn "lint" (secondDay.on seedFile) (secondDay.on (fileStep firstDay seedFile)) ∧
      Due (secondDay.on (fileStep firstDay seedFile)) "lint" ∧
      "lint" ∈ (run (secondDay.on seedFile)).1.updatedSkills ∧
      ¬ PerSkill "lint" (secondDay.on seedFile) (secondDay.on (fileStep firstDay seedFile)) := by
  have hskipped : "lint" ∉ (run (secondDay.on (fileStep firstDay seedFile))).1.updatedSkills := by decide +kernel
  exact ⟨by decide +kernel, lint_agrees, lint_due, by decide +kernel,
    fun h => hskipped (h.due _ (Or.inr rfl) lint_due)⟩

end HeuristicGenerator

end Galaxz
