import Galaxz.Lib.Doubles
import Galaxz.Orion.WeightArithmetic
import Mathlib.Algebra.BigOperators.Ring.List
import Mathlib.Algebra.Order.BigOperators.Group.List

/-!
# Suggested weights are a distribution

Without rounding, the scores of a skill's agents divided by their sum are non-negative numbers with sum one. The
rounding to four digits moves each of them by at most half of `0.0001` and keeps their order.
-/

namespace Galaxz

/-- One weight for each agent that the events or the list name, each in the unit interval, with a sum that is as near
to one as rounding allows, and in the order of the mean confidences. -/
structure IsDistribution (listed : List String) (rows : List (String × ℚ)) (weights : Mapping String ℚ) : Prop where
  agents : ∀ agentId, agentId ∈ weights.keys ↔
    (∃ row ∈ rows, row.1 = agentId) ∨ agentId ∈ Arithmetic.listedOrDefault listed
  unit : ∀ x ∈ weights.values, 0 ≤ x ∧ x ≤ 1
  sum : |weights.values.sum - 1| ≤ weights.keys.length * (1 / 10000 / 2)
  ordered : ∀ a b x y, weights.get a = some x → weights.get b = some y →
    Arithmetic.exact.meanValue (Arithmetic.confidences rows a) ≤
      Arithmetic.exact.meanValue (Arithmetic.confidences rows b) → x ≤ y

namespace Arithmetic

/-! ## Rounding -/

theorem exact_round4_le {x y : ℚ} (h : x ≤ y) : exact.round4 x ≤ exact.round4 y := by
  show ((PyFloat.roundHalfEven (x * 10 ^ 4) : ℤ) : ℚ) / 10 ^ 4 ≤ ((PyFloat.roundHalfEven (y * 10 ^ 4) : ℤ) : ℚ) / 10 ^ 4
  have hround := PyFloat.roundHalfEven_mono (mul_le_mul_of_nonneg_right h (by norm_num : (0 : ℚ) ≤ 10 ^ 4))
  have hcast : ((PyFloat.roundHalfEven (x * 10 ^ 4) : ℤ) : ℚ) ≤ (PyFloat.roundHalfEven (y * 10 ^ 4) : ℤ) := by
    exact_mod_cast hround
  exact div_le_div_of_nonneg_right hcast (by norm_num)

/-- A whole number stays as it is. -/
theorem exact_round4_intCast (n : ℤ) : exact.round4 n = n := by
  show ((PyFloat.roundHalfEven (n * 10 ^ 4) : ℤ) : ℚ) / 10 ^ 4 = n
  have hint : (n : ℚ) * 10 ^ 4 = ((n * 10 ^ 4 : ℤ) : ℚ) := by push_cast; ring
  rw [hint, PyFloat.roundHalfEven_intCast]
  push_cast
  ring

theorem exact_round4_unit {x : ℚ} (h0 : 0 ≤ x) (h1 : x ≤ 1) : 0 ≤ exact.round4 x ∧ exact.round4 x ≤ 1 := by
  have hzero := exact_round4_intCast 0
  have hone := exact_round4_intCast 1
  rw [Int.cast_zero] at hzero
  rw [Int.cast_one] at hone
  constructor
  · rw [← hzero]
    exact exact_round4_le h0
  · rw [← hone]
    exact exact_round4_le h1

theorem abs_exact_round4_sub_le (x : ℚ) : |exact.round4 x - x| ≤ 1 / 10000 / 2 := by
  have hround := PyFloat.abs_roundHalfEven_sub_le (x * 10 ^ 4)
  have hsub : exact.round4 x - x = ((PyFloat.roundHalfEven (x * 10 ^ 4) : ℚ) - x * 10 ^ 4) / 10 ^ 4 := by
    show ((PyFloat.roundHalfEven (x * 10 ^ 4) : ℤ) : ℚ) / 10 ^ 4 - x = _
    field_simp
  rw [hsub, abs_div, abs_of_pos (by norm_num : (0 : ℚ) < 10 ^ 4), div_le_iff₀ (by norm_num)]
  linarith

/-- Rounding all of some numbers moves their sum by as many halves. -/
theorem abs_sum_round4_sub_le (xs : List ℚ) :
    |(xs.map exact.round4).sum - xs.sum| ≤ xs.length * (1 / 10000 / 2) := by
  induction xs with
  | nil => simp
  | cons x xs ih =>
    have hx := abs_exact_round4_sub_le x
    rw [List.map_cons, List.sum_cons, List.sum_cons, List.length_cons]
    push_cast
    rw [abs_le] at hx ih ⊢
    constructor <;> linarith

/-! ## Shares -/

theorem exact_total_eq (values : List ℚ) : exact.total values = values.sum := List.sum_eq_foldl.symm

theorem exact_meanValue_unit {values : List ℚ} (h : ∀ x ∈ values, 0 ≤ x ∧ x ≤ 1) :
    0 ≤ exact.meanValue values ∧ exact.meanValue values ≤ 1 := by
  unfold meanValue
  split_ifs with hempty
  · exact ⟨le_refl _, zero_le_one⟩
  · have hpos : (0 : ℚ) < values.length := by
      have hne : values ≠ [] := by simpa using hempty
      exact_mod_cast List.length_pos_iff.mpr hne
    have hnonneg : 0 ≤ values.sum := List.sum_nonneg fun x hx => (h x hx).1
    have hle : values.sum ≤ values.length := by
      have hcard := List.sum_le_card_nsmul values 1 fun x hx => (h x hx).2
      simpa using hcard
    rw [exact_total_eq]
    exact ⟨div_nonneg hnonneg hpos.le, (div_le_one hpos).mpr hle⟩

theorem exact_atLeastZero {x : ℚ} (h : 0 ≤ x) : exact.atLeastZero x = x := by
  have hlt : exact.lt x exact.zero = false := decide_eq_false (not_lt.mpr h)
  unfold atLeastZero
  rw [hlt, if_neg Bool.false_ne_true]

section Rows

variable {listed : List String} {rows : List (String × ℚ)} (hconf : ∀ row ∈ rows, 0 ≤ row.2 ∧ row.2 ≤ 1)

include hconf

theorem confidences_unit (agentId : String) : ∀ x ∈ confidences rows agentId, 0 ≤ x ∧ x ≤ 1 := by
  intro x hx
  obtain ⟨row, hrow, rfl⟩ := List.mem_map.mp hx
  exact hconf row (List.mem_filter.mp hrow).1

/-- The score of an agent is its mean confidence, also if it has none. -/
theorem exact_get_scores {agentId : String} {x : ℚ} (h : (exact.scores listed rows).get agentId = some x) :
    x = exact.meanValue (confidences rows agentId) := by
  rw [get_scores] at h
  by_cases hnil : confidences rows agentId = []
  · rw [if_pos hnil] at h
    split_ifs at h
    rw [← Option.some.inj h, hnil]
    rfl
  · rw [if_neg hnil, exact_atLeastZero (exact_meanValue_unit (confidences_unit hconf agentId)).1] at h
    exact (Option.some.inj h).symm

theorem scores_nonneg : ∀ x ∈ (exact.scores listed rows).values, 0 ≤ x := by
  intro x hx
  obtain ⟨e, he, rfl⟩ := List.mem_map.mp hx
  rw [exact_get_scores hconf ((Mapping.get_eq_some_iff _ e.1 e.2).mpr he)]
  exact (exact_meanValue_unit (confidences_unit hconf e.1)).1

end Rows

/-- The share of a score, before it is rounded: equal ones where there are no scores. -/
def share (scores : Mapping String ℚ) (x : ℚ) : ℚ :=
  if scores.values.sum ≤ 0 then 1 / scores.items.length else x / scores.values.sum

/-- The code rounds the shares. -/
theorem exact_suggestedWeights_eq {rows : List (String × ℚ)} (hrows : rows ≠ []) (listed : List String) :
    exact.suggestedWeights listed rows =
      some ((exact.scores listed rows).sorted.mapValues fun x => exact.round4 (share (exact.scores listed rows) x)) := by
  have hempty : ¬ rows.isEmpty = true := by simpa using hrows
  have hlength := exact.length_scores_ne_zero listed rows
  obtain ⟨scores, hscores⟩ : ∃ scores, exact.scores listed rows = scores := ⟨_, rfl⟩
  unfold suggestedWeights
  rw [if_neg hempty, agentScores_eq, hscores]
  rw [hscores] at hlength
  show (if exact.le (exact.total scores.values) exact.zero = true then _ else _) = _
  rw [exact_total_eq]
  by_cases hle : scores.values.sum ≤ 0
  · have hle' : exact.le scores.values.sum exact.zero = true := decide_eq_true hle
    rw [if_pos hle', if_neg hlength]
    unfold share
    simp only [if_pos hle]
    rfl
  · have hle' : ¬ exact.le scores.values.sum exact.zero = true := by
      intro h
      exact hle (of_decide_eq_true h)
    have hne : scores.values.sum ≠ exact.zero := fun h => hle h.le
    rw [if_neg hle']
    refine Mapping.mapValues?_eq fun e _ => ?_
    unfold share
    rw [quotient, if_neg hne, if_neg hle, Option.map_some]
    rfl

section Shares

variable {scores : Mapping String ℚ} (hnonneg : ∀ x ∈ scores.values, 0 ≤ x) (hne : scores.items.length ≠ 0)

include hnonneg hne

theorem share_unit : ∀ x ∈ scores.values, 0 ≤ share scores x ∧ share scores x ≤ 1 := by
  intro x hx
  have hlength : (1 : ℚ) ≤ scores.items.length := by exact_mod_cast Nat.one_le_iff_ne_zero.mpr hne
  unfold share
  split_ifs with hle
  · exact ⟨by positivity, (div_le_one (by linarith)).mpr hlength⟩
  · rw [not_le] at hle
    have hsum : x ≤ scores.values.sum := List.single_le_sum hnonneg x hx
    exact ⟨div_nonneg (hnonneg x hx) hle.le, (div_le_one hle).mpr hsum⟩

omit hnonneg in
theorem sum_share : (scores.values.map (share scores)).sum = 1 := by
  have hlength : (scores.items.length : ℚ) ≠ 0 := by exact_mod_cast hne
  unfold share
  split_ifs with hle
  · rw [List.map_const', List.sum_replicate, nsmul_eq_mul]
    have hvalues : scores.values.length = scores.items.length := List.length_map _
    rw [hvalues]
    exact mul_one_div_cancel hlength
  · have hpos := not_le.mp hle
    simp only [div_eq_mul_inv]
    rw [List.sum_map_mul_right, List.map_id']
    exact mul_inv_cancel₀ hpos.ne'

omit hnonneg hne in
theorem share_le {x y : ℚ} (h : x ≤ y) : share scores x ≤ share scores y := by
  unfold share
  split_ifs with hle
  · exact le_refl _
  · exact div_le_div_of_nonneg_right h (not_le.mp hle).le

end Shares

/-- The suggested weights of a skill with events are a distribution over its agents, and no step divides by zero. -/
theorem suggestedWeights_distribution (listed : List String) {rows : List (String × ℚ)} (hrows : rows ≠ [])
    (hconf : ∀ row ∈ rows, 0 ≤ row.2 ∧ row.2 ≤ 1) :
    ∃ weights, exact.suggestedWeights listed rows = some weights ∧ IsDistribution listed rows weights := by
  refine ⟨_, exact_suggestedWeights_eq hrows listed, ?_⟩
  have hkeys := exact.mem_keys_scores listed rows
  have hlength := exact.length_scores_ne_zero listed rows
  have hnonneg : ∀ x ∈ (exact.scores listed rows).values, 0 ≤ x := scores_nonneg hconf
  have hget : ∀ {agentId x}, (exact.scores listed rows).get agentId = some x →
      x = exact.meanValue (confidences rows agentId) := exact_get_scores hconf
  obtain ⟨scores, hscores⟩ : ∃ scores, exact.scores listed rows = scores := ⟨_, rfl⟩
  rw [hscores] at hkeys hlength hnonneg
  rw [hscores]
  simp only [hscores] at hget
  constructor
  · intro agentId
    rw [Mapping.keys_mapValues, Mapping.mem_keys_sorted, hkeys]
  · intro y hy
    rw [Mapping.values_mapValues] at hy
    obtain ⟨x, hx, rfl⟩ := List.mem_map.mp hy
    have hunit := share_unit hnonneg hlength x (scores.perm_values_sorted.mem_iff.mp hx)
    exact exact_round4_unit hunit.1 hunit.2
  · have hsum : (scores.sorted.values.map (share scores)).sum = 1 := by
      rw [(scores.perm_values_sorted.map _).sum_eq]
      exact sum_share hlength
    have hround := abs_sum_round4_sub_le (scores.sorted.values.map (share scores))
    rw [hsum, List.length_map, List.map_map] at hround
    rw [Mapping.values_mapValues, Mapping.keys_mapValues]
    have hcount : scores.sorted.values.length = scores.sorted.keys.length := by
      unfold Mapping.values Mapping.keys
      rw [List.length_map, List.length_map]
    rw [← hcount]
    exact hround
  · intro a b x y hx hy hmean
    rw [Mapping.get_mapValues, Mapping.get_sorted] at hx hy
    obtain ⟨u, hu, rfl⟩ := Option.map_eq_some_iff.mp hx
    obtain ⟨v, hv, rfl⟩ := Option.map_eq_some_iff.mp hy
    rw [← hget hu, ← hget hv] at hmean
    exact exact_round4_le (share_le hmean)

/-- Two events of one agent and one of another, with the default agents. -/
theorem suggestedWeights_three_events :
    ∃ weights, exact.suggestedWeights [] [("vega", 1 / 2), ("lyra", 1 / 3), ("vega", 1)] = some weights ∧
      IsDistribution [] [("vega", 1 / 2), ("lyra", 1 / 3), ("vega", 1)] weights := by
  refine suggestedWeights_distribution [] (by simp) ?_
  simp only [List.forall_mem_cons]
  norm_num

end Arithmetic

end Galaxz
