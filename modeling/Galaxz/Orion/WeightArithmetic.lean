import Galaxz.Orion.RoutingWeights

/-!
# `_suggested_weights` over any numbers

The steps of the code with the numbers as a parameter. Over doubles they are `suggestedFrom`; over the rational
numbers only the last step rounds. A division by zero raises.
-/

namespace Galaxz

/-- The operations of `_suggested_weights` on numbers. -/
structure Arithmetic (α : Type) where
  zero : α
  add : α → α → α
  lt : α → α → Bool
  le : α → α → Bool
  div : α → α → α
  /-- `x / n` for an `int`. -/
  divNat : α → ℕ → α
  /-- `1.0 / n`. -/
  inverse : ℕ → α
  /-- `round(x, 4)`. -/
  round4 : α → α

namespace Arithmetic

/-- The numbers of the code. -/
def doubles : Arithmetic PyFloat where
  zero := .finite 0
  add := PyFloat.add
  lt := PyFloat.lt
  le := PyFloat.le
  div := PyFloat.div
  divNat := PyFloat.divNat
  inverse n := PyFloat.ratio 1 n
  round4 x := x.round 4

/-- The rational numbers. -/
def exact : Arithmetic ℚ where
  zero := 0
  add x y := x + y
  lt x y := x < y
  le x y := x ≤ y
  div x y := x / y
  divNat x n := x / n
  inverse n := 1 / n
  round4 x := PyFloat.roundHalfEven (x * 10 ^ 4) / 10 ^ 4

variable {α : Type} (A : Arithmetic α)

/-- A quotient of two numbers. -/
def quotient [DecidableEq α] (x y : α) : Option α := if y = A.zero then none else some (A.div x y)

/-- `sum(values)`. -/
def total (values : List α) : α := values.foldl A.add A.zero

/-- `_mean`. -/
def mean (values : List α) : Option α :=
  if values.isEmpty then some A.zero
  else if values.length = 0 then none
  else some (A.divNat (A.total values) values.length)

/-- `max(score, 0.0)`. -/
def atLeastZero (score : α) : α := if A.lt score A.zero then A.zero else score

/-- `_group_confidence_by_agent`, for rows with an agent and a confidence. -/
def groupByAgent (rows : List (String × α)) : Mapping String (List α) :=
  rows.foldl (fun grouped row => grouped.set row.1 (((grouped.get row.1).getD []) ++ [row.2])) {}

/-- The agents listed for the skill, or the default ones when none is. -/
def listedOrDefault (listed : List String) : List String :=
  if listed.isEmpty then HeuristicGenerator.defaultAgentIds else listed

/-- `agent_scores`, for the keys of the current weights. -/
def agentScores (listed : List String) (rows : List (String × α)) : Option (Mapping String α) := do
  let scored ← (groupByAgent rows).mapValues? fun scores => (A.mean scores).map A.atLeastZero
  return (listedOrDefault listed).foldl (fun scores agentId => scores.setdefault agentId A.zero) scored

/-- `_suggested_weights`, from the rows that its query returns. -/
def suggestedWeights [DecidableEq α] (listed : List String) (rows : List (String × α)) : Option (Mapping String α) :=
  if rows.isEmpty then some {}
  else do
    let agentScores ← A.agentScores listed rows
    let total := A.total agentScores.values
    if A.le total A.zero then
      if agentScores.items.length = 0 then none
      else return agentScores.sorted.mapValues fun _ => A.round4 (A.inverse agentScores.items.length)
    else agentScores.sorted.mapValues? fun score => (A.quotient score total).map A.round4

/-! ## No step raises -/

/-- The confidences of an agent. -/
def confidences (rows : List (String × α)) (agentId : String) : List α := (rows.filter (·.1 = agentId)).map (·.2)

/-- The mean of some numbers, and zero if there are none. -/
def meanValue (values : List α) : α :=
  if values.isEmpty then A.zero else A.divNat (A.total values) values.length

theorem confidences_eq_nil_iff {rows : List (String × α)} {agentId : String} :
    confidences rows agentId = [] ↔ ∀ row ∈ rows, row.1 ≠ agentId := by
  unfold confidences
  rw [List.map_eq_nil_iff, List.filter_eq_nil_iff]
  simp

theorem get_groupByAgent (rows : List (String × α)) (agentId : String) : (groupByAgent rows).get agentId =
    if confidences rows agentId = [] then none else some (confidences rows agentId) := by
  have hget := Mapping.get_foldl_append (fun row : String × α => row.1) (fun row => row.2) rows {} agentId
  have hempty : ({} : Mapping String (List α)).get agentId = none := rfl
  unfold groupByAgent
  rw [hget, hempty]
  simp only [confidences_eq_nil_iff, true_and, Option.getD_none, List.nil_append]
  rfl

/-- A mean is a quotient of numbers that there are. -/
theorem mean_eq (values : List α) : A.mean values = some (A.meanValue values) := by
  unfold mean meanValue
  cases values with
  | nil => rfl
  | cons x values =>
    have hlength : (x :: values).length ≠ 0 := by simp
    rw [List.isEmpty_cons, if_neg Bool.false_ne_true, if_neg hlength, if_neg Bool.false_ne_true]

/-- The scores of the agents that events or the list name. -/
def scores (listed : List String) (rows : List (String × α)) : Mapping String α :=
  (listedOrDefault listed).foldl (fun scores agentId => scores.setdefault agentId A.zero)
    ((groupByAgent rows).mapValues fun scores => A.atLeastZero (A.meanValue scores))

theorem agentScores_eq (listed : List String) (rows : List (String × α)) :
    A.agentScores listed rows = some (A.scores listed rows) := by
  have hscored := Mapping.mapValues?_eq (m := groupByAgent rows) (f := fun scores => (A.mean scores).map A.atLeastZero)
    (g := fun scores => A.atLeastZero (A.meanValue scores)) (fun e _ => by rw [A.mean_eq, Option.map_some])
  unfold agentScores
  rw [hscored]
  rfl

/-- An agent of the events has its mean, and another one that the list names has zero. -/
theorem get_scores (listed : List String) (rows : List (String × α)) (agentId : String) :
    (A.scores listed rows).get agentId =
      if confidences rows agentId = [] then (if agentId ∈ listedOrDefault listed then some A.zero else none)
      else some (A.atLeastZero (A.meanValue (confidences rows agentId))) := by
  unfold scores
  rw [Mapping.get_foldl_setdefault, Mapping.get_mapValues, get_groupByAgent]
  by_cases hnil : confidences rows agentId = []
  · rw [if_pos hnil, if_pos hnil]
    rfl
  · rw [if_neg hnil, if_neg hnil]
    rfl

theorem mem_keys_scores (listed : List String) (rows : List (String × α)) (agentId : String) :
    agentId ∈ (A.scores listed rows).keys ↔ (∃ row ∈ rows, row.1 = agentId) ∨ agentId ∈ listedOrDefault listed := by
  have hseen : (∃ row ∈ rows, row.1 = agentId) ↔ confidences rows agentId ≠ [] := by
    rw [Ne, confidences_eq_nil_iff]
    push Not
    rfl
  rw [Mapping.mem_keys_iff, A.get_scores, hseen]
  by_cases hnil : confidences rows agentId = []
  · rw [if_pos hnil]
    by_cases hlisted : agentId ∈ listedOrDefault listed
    · simp [hlisted]
    · simp [hnil, hlisted]
  · rw [if_neg hnil]
    simp [hnil]

/-- There is an agent that has a score, so its share can be computed. -/
theorem length_scores_ne_zero (listed : List String) (rows : List (String × α)) :
    (A.scores listed rows).items.length ≠ 0 := by
  have hlisted : listedOrDefault listed ≠ [] := by
    unfold listedOrDefault
    split_ifs with hempty
    · decide
    · simpa using hempty
  obtain ⟨agentId, rest, hcons⟩ := List.exists_cons_of_ne_nil hlisted
  have hkey := (A.mem_keys_scores listed rows agentId).mpr (Or.inr (by rw [hcons]; exact List.mem_cons_self))
  intro hzero
  unfold Mapping.keys at hkey
  rw [List.length_eq_zero_iff.mp hzero] at hkey
  exact absurd hkey List.not_mem_nil

/-- Over doubles, these are the steps of the code. -/
theorem suggestedWeights_doubles (current : Weights) (rows : List FeedbackEventRow) :
    doubles.suggestedWeights current.keys (rows.map fun row => (row.agentId, row.confidenceScore)) =
      some (HeuristicGenerator.suggestedFrom current rows) := by
  obtain ⟨confident, hconfident⟩ : ∃ confident, (rows.map fun row => (row.agentId, row.confidenceScore)) = confident :=
    ⟨_, rfl⟩
  have hempty : confident.isEmpty = rows.isEmpty := by
    rw [← hconfident]
    cases rows with
    | nil => rfl
    | cons row rows => rfl
  have hgroup : groupByAgent confident = HeuristicGenerator.groupConfidenceByAgent rows := by
    rw [← hconfident]
    unfold groupByAgent HeuristicGenerator.groupConfidenceByAgent
    rw [List.foldl_map]
  have hlisted : listedOrDefault current.keys =
      if current.items.isEmpty then HeuristicGenerator.defaultAgentIds else current.keys := by
    have hkeys : current.keys.isEmpty = current.items.isEmpty := by
      unfold Mapping.keys
      cases current.items with
      | nil => rfl
      | cons e es => rfl
    unfold listedOrDefault
    rw [hkeys]
  have hlength := doubles.length_scores_ne_zero current.keys confident
  have hscores : doubles.scores current.keys confident =
      (if current.items.isEmpty then HeuristicGenerator.defaultAgentIds else current.keys).foldl
        (fun scores agentId => scores.setdefault agentId (.finite 0))
        ((HeuristicGenerator.groupConfidenceByAgent rows).mapValues fun scores =>
          HeuristicGenerator.atLeastZero (Andromeda.mean scores)) := by
    unfold scores
    rw [hgroup, hlisted]
    rfl
  rw [hconfident]
  unfold suggestedWeights HeuristicGenerator.suggestedFrom
  rw [hempty, agentScores_eq]
  by_cases hrows : rows.isEmpty = true
  · rw [if_pos hrows, if_pos hrows]
  rw [if_neg hrows, if_neg hrows]
  dsimp only
  rw [← hscores]
  show (if doubles.le (doubles.total (doubles.scores current.keys confident).values) doubles.zero = true then _ else _) = _
  by_cases hle : doubles.le (doubles.total (doubles.scores current.keys confident).values) doubles.zero = true
  · rw [if_pos hle, if_neg hlength]
    exact congrArg some (if_pos hle).symm
  · have htotal : doubles.total (doubles.scores current.keys confident).values ≠ doubles.zero := by
      intro h
      rw [h] at hle
      exact hle (by decide)
    rw [if_neg hle, Mapping.mapValues?_eq (g := fun score => doubles.round4 (doubles.div score
      (doubles.total (doubles.scores current.keys confident).values)))]
    · exact congrArg some (if_neg hle).symm
    · intro e _
      rw [quotient, if_neg htotal, Option.map_some]

end Arithmetic

end Galaxz
