import Galaxz.Rigel.Confidence
import Galaxz.Lib.Doubles
import Mathlib.Tactic.Linarith
import Mathlib.Tactic.FieldSimp
import Mathlib.Tactic.NormNum
import Mathlib.Tactic.Positivity

/-!
# The confidence of a result

The weighted sum is a mean of numbers between 0 and 1, except for the model's score, which is any number that
`float` accepts, and the gaps are any JSON. So the confidence is well-formed exactly when the reply cannot be
read or its own score and gaps are in order.
-/

namespace Galaxz

/-! ## Rounding -/

namespace PyFloat

/-- Both ties beside an even number are rounded to it. -/
theorem roundHalfEven_tie {n : ℤ} (hn : n % 2 = 0) :
    roundHalfEven (n + 1 / 2) = n ∧ roundHalfEven (n - 1 / 2) = n := by
  have habove : ⌊(n : ℚ) + 1 / 2⌋ = n := by
    rw [Int.floor_eq_iff]
    constructor <;> linarith
  have hbelow : ⌊(n : ℚ) - 1 / 2⌋ = n - 1 := by
    rw [Int.floor_eq_iff]
    push_cast
    constructor <;> linarith
  unfold roundHalfEven
  simp only [habove, hbelow]
  push_cast
  constructor
  · rw [if_neg (by linarith), if_neg (by linarith), if_pos hn]
  · rw [if_neg (by linarith), if_neg (by linarith), if_neg (by omega)]
    omega

theorem roundHalfEven_le_iff {x : ℚ} {n : ℤ} (hn : n % 2 = 0) : roundHalfEven x ≤ n ↔ x ≤ n + 1 / 2 := by
  constructor
  · intro h
    have hnear := abs_le.mp (abs_roundHalfEven_sub_le x)
    have hle : (roundHalfEven x : ℚ) ≤ n := Int.cast_le.mpr h
    linarith
  · intro h
    rw [← (roundHalfEven_tie hn).1]
    exact roundHalfEven_mono h

theorem le_roundHalfEven_iff {x : ℚ} {n : ℤ} (hn : n % 2 = 0) : n ≤ roundHalfEven x ↔ n - 1 / 2 ≤ x := by
  constructor
  · intro h
    have hnear := abs_le.mp (abs_roundHalfEven_sub_le x)
    have hle : (n : ℚ) ≤ roundHalfEven x := Int.cast_le.mpr h
    linarith
  · intro h
    rw [← (roundHalfEven_tie hn).2]
    exact roundHalfEven_mono h

/-- A number that rounds to something between zero and an even number of thousandths. -/
theorem round3_between_iff {x : PyFloat} {n : ℤ} (hn : n % 2 = 0) :
    (∃ q, x.round3 = .finite q ∧ 0 ≤ q ∧ q ≤ n / 1000) ↔
      ∃ q, x = .finite q ∧ -1 / 2000 ≤ q ∧ q ≤ (n + 1 / 2) / 1000 := by
  cases x with
  | finite q =>
    have hlow : (0 : ℚ) ≤ roundHalfEven (q * 1000) / 1000 ↔ -1 / 2000 ≤ q := by
      have h := le_roundHalfEven_iff (x := q * 1000) (n := 0) (by decide)
      constructor
      · intro hq
        have hr : (0 : ℤ) ≤ roundHalfEven (q * 1000) := by
          have : (0 : ℚ) ≤ roundHalfEven (q * 1000) := by linarith
          exact_mod_cast this
        have := h.mp hr
        push_cast at this
        linarith
      · intro hq
        have hr := h.mpr (by push_cast; linarith)
        have : (0 : ℚ) ≤ roundHalfEven (q * 1000) := by exact_mod_cast hr
        linarith
    have hhigh : (roundHalfEven (q * 1000) : ℚ) / 1000 ≤ n / 1000 ↔ q ≤ (n + 1 / 2) / 1000 := by
      have h := roundHalfEven_le_iff (x := q * 1000) hn
      constructor
      · intro hq
        have hr : roundHalfEven (q * 1000) ≤ n := by
          have : (roundHalfEven (q * 1000) : ℚ) ≤ n := by linarith
          exact_mod_cast this
        have := h.mp hr
        linarith
      · intro hq
        have hr := h.mpr (by linarith)
        have : (roundHalfEven (q * 1000) : ℚ) ≤ n := by exact_mod_cast hr
        linarith
    constructor
    · rintro ⟨r, hr, hlo, hhi⟩
      obtain rfl := PyFloat.finite.inj hr
      exact ⟨q, rfl, hlow.mp hlo, hhigh.mp hhi⟩
    · rintro ⟨r, hr, hlo, hhi⟩
      obtain rfl := PyFloat.finite.inj hr
      exact ⟨_, rfl, hlow.mpr hlo, hhigh.mpr hhi⟩
  | posInf | negInf | nan =>
    constructor
    · rintro ⟨q, hq, -⟩
      cases hq
    · rintro ⟨q, hq, -⟩
      cases hq

end PyFloat

namespace Rigel

/-! ## The parts of the sum -/

theorem structuralCheck_bounds (skillId : String) (result : List (CodeString × JsonValue)) :
    0 ≤ structuralCheck skillId result ∧ structuralCheck skillId result ≤ 1 := by
  unfold structuralCheck
  cases structuralChecks skillId result with
  | none => norm_num
  | some results =>
    dsimp only
    have hcount : ((results.countP fun v => v : ℕ) : ℚ) ≤ results.length := by
      exact_mod_cast List.countP_le_length
    refine ⟨by positivity, ?_⟩
    by_cases hempty : results = []
    · rw [hempty]
      norm_num
    · have hpos : (0 : ℚ) < results.length := by
        exact_mod_cast List.length_pos_of_ne_nil hempty
      rwa [div_le_one hpos]

/-- The outcomes of an execution that did not succeed. -/
def Failed (outcome : Option ExecutionOutcome) : Prop :=
  outcome = some .fail ∨ outcome = some .timeout ∨ outcome = some .error

/-- The sums for which the confidence comes out in its range; after a timeout or an error the sum does not
matter. -/
def softRange : Option ExecutionOutcome → Option (ℚ × ℚ)
  | none => some (-1 / 2000, 2001 / 2000)
  | some .pass => some (-1801 / 200, 201 / 200)
  | some .fail => some (-201 / 200, 201 / 200)
  | some .timeout => none
  | some .error => none

/-- The largest confidence of an outcome, in thousandths. -/
def maxThousandths : Option ExecutionOutcome → ℤ
  | none => 1000
  | some .pass => 1000
  | _ => 200

/-- The confidence is in range exactly when the sum is. -/
theorem calibratedConfidence_iff (soft : PyFloat) (outcome : Option ExecutionOutcome) :
    (∃ q, (calibratedConfidence soft outcome).round3 = .finite q ∧ 0 ≤ q ∧ q ≤ (maxThousandths outcome : ℚ) / 1000) ↔
      ∀ range ∈ softRange outcome, ∃ s, soft = .finite s ∧ range.1 ≤ s ∧ s ≤ range.2 := by
  have heven : maxThousandths outcome % 2 = 0 := by
    rcases outcome with _ | _ | _ | _ | _ <;> rfl
  rw [PyFloat.round3_between_iff heven]
  -- a band of the calibration, as an interval of sums
  have hband : ∀ (b : ℚ) {lo hi lo' hi' : ℚ}, lo' = (lo - b) * 10 → hi' = (hi - b) * 10 →
      ((∃ q, (soft.scale (1 / 10)).shift b = .finite q ∧ lo ≤ q ∧ q ≤ hi) ↔
        ∃ s, soft = .finite s ∧ lo' ≤ s ∧ s ≤ hi') := by
    intro b lo hi lo' hi' hlo hhi
    cases soft with
    | finite s =>
      constructor
      · rintro ⟨q, hq, h₁, h₂⟩
        obtain rfl := PyFloat.finite.inj hq
        exact ⟨s, rfl, by linarith, by linarith⟩
      · rintro ⟨q, hq, h₁, h₂⟩
        obtain rfl := PyFloat.finite.inj hq
        exact ⟨_, rfl, by linarith, by linarith⟩
    | posInf | negInf =>
      constructor
      · rintro ⟨q, hq, -⟩
        have hscale : ¬ (1 / 10 : ℚ) = 0 := by norm_num
        have hpos : (0 : ℚ) < 1 / 10 := by norm_num
        rw [PyFloat.scale, if_neg hscale, if_pos hpos] at hq
        cases hq
      · rintro ⟨q, hq, -⟩
        cases hq
    | nan =>
      constructor
      · rintro ⟨q, hq, -⟩
        cases hq
      · rintro ⟨q, hq, -⟩
        cases hq
  have hsome : ∀ {lo hi : ℚ}, (∀ range ∈ some (lo, hi), ∃ s, soft = PyFloat.finite s ∧ range.1 ≤ s ∧ s ≤ range.2) ↔
      ∃ s, soft = PyFloat.finite s ∧ lo ≤ s ∧ s ≤ hi := by
    intro lo hi
    exact ⟨fun h => h (lo, hi) rfl, fun h range hr => by obtain rfl := Option.some.inj hr; exact h⟩
  have hnone : ∀ {b : ℚ} {n : ℤ}, -1 / 2000 ≤ b → b ≤ (n + 1 / 2) / 1000 →
      ((∃ q, PyFloat.finite b = .finite q ∧ -1 / 2000 ≤ q ∧ q ≤ ((n : ℚ) + 1 / 2) / 1000) ↔
        ∀ range ∈ (none : Option (ℚ × ℚ)), ∃ s, soft = PyFloat.finite s ∧ range.1 ≤ s ∧ s ≤ range.2) :=
    fun hlo hhi => ⟨fun _ range hrange => absurd hrange (Option.not_mem_none range), fun _ => ⟨_, rfl, hlo, hhi⟩⟩
  rcases outcome with _ | _ | _ | _ | _
  · rw [softRange, hsome, calibratedConfidence, maxThousandths]
    norm_num
  · rw [softRange, hsome, calibratedConfidence, maxThousandths]
    exact hband _ (by norm_num) (by norm_num)
  · rw [softRange, hsome, calibratedConfidence, maxThousandths]
    · exact hband _ (by norm_num) (by norm_num)
    · intro h
      cases h
    · intro h
      cases h
  · rw [softRange, calibratedConfidence, maxThousandths]
    · exact hnone (by norm_num) (by norm_num)
    · intro h
      cases h
    · intro h
      cases h
  · rw [softRange, calibratedConfidence, maxThousandths]
    · exact hnone (by norm_num) (by norm_num)
    · intro h
      cases h
    · intro h
      cases h

/-! ## The result -/

/-- What the routing state and the bands of the calibration ask of a confidence. -/
structure WellFormed (outcome : Option ExecutionOutcome) (data : ConfidenceData) : Prop where
  confidence : ∃ q, data.confidence = .finite q ∧ 0 ≤ q ∧ q ≤ 1
  gaps : gapsFit data.gaps = true
  failed : Failed outcome → ∃ q, data.confidence = .finite q ∧ q ≤ 1 / 5

/-- The reply of the model cannot be read, or its gaps are a list of texts and its score keeps the sum in range. -/
def CritiqueFits (text : CodeString → Option PyFloat) (w : Weights) (skillId : String)
    (result : List (CodeString × JsonValue)) (reply : Except PyError (List Char)) (historicalScore : ℚ)
    (outcome : Option ExecutionOutcome) : Prop :=
  ∀ score gaps, readCritique text reply = .ok (score, gaps) → gapsFit gaps = true ∧
    ∀ range ∈ softRange outcome, ∃ q, score = .finite q ∧
      range.1 ≤ structuralCheck skillId result * w.structuralCheck + q * w.selfCritique +
        historicalScore * w.historicalBaseline ∧
      structuralCheck skillId result * w.structuralCheck + q * w.selfCritique +
        historicalScore * w.historicalBaseline ≤ range.2

theorem softRange_unit {outcome : Option ExecutionOutcome} {range : ℚ × ℚ} (h : range ∈ softRange outcome) :
    range.1 ≤ 0 ∧ 1 ≤ range.2 := by
  rcases outcome with _ | _ | _ | _ | _
  all_goals
    first
    | (obtain rfl := Option.some.inj h; norm_num)
    | cases h

/-- The range of each outcome, as one bound. -/
theorem wellFormed_iff {outcome : Option ExecutionOutcome} {data : ConfidenceData} : WellFormed outcome data ↔
    (∃ q, data.confidence = .finite q ∧ 0 ≤ q ∧ q ≤ (maxThousandths outcome : ℚ) / 1000) ∧
      gapsFit data.gaps = true := by
  have hmax : (maxThousandths outcome : ℚ) / 1000 ≤ 1 ∧ (Failed outcome → (maxThousandths outcome : ℚ) / 1000 ≤ 1 / 5) ∧
      (¬ Failed outcome → 1 ≤ (maxThousandths outcome : ℚ) / 1000) ∧
      (Failed outcome → 1 / 5 ≤ (maxThousandths outcome : ℚ) / 1000) := by
    rcases outcome with _ | _ | _ | _ | _ <;> simp [maxThousandths, Failed] <;> norm_num
  obtain ⟨hone, hfailed, hother, hfifth⟩ := hmax
  constructor
  · rintro ⟨⟨q, hq, hlo, hhi⟩, hgaps, hfail⟩
    refine ⟨⟨q, hq, hlo, ?_⟩, hgaps⟩
    by_cases hcase : Failed outcome
    · obtain ⟨q', hq', hle⟩ := hfail hcase
      obtain rfl := PyFloat.finite.inj (hq.symm.trans hq')
      exact le_trans hle (hfifth hcase)
    · exact le_trans hhi (hother hcase)
  · rintro ⟨⟨q, hq, hlo, hhi⟩, hgaps⟩
    exact ⟨⟨q, hq, hlo, le_trans hhi hone⟩, hgaps, fun hcase => ⟨q, hq, le_trans hhi (hfailed hcase)⟩⟩

/-- The sum is finite exactly when the score is. -/
theorem soft_finite_iff {score : PyFloat} {c a b s : ℚ} :
    ((score.scale c).shift a).shift b = .finite s ↔ ∃ q, score = .finite q ∧ s = a + q * c + b := by
  cases score with
  | finite q =>
    constructor
    · intro h
      refine ⟨q, rfl, ?_⟩
      have := PyFloat.finite.inj h
      linarith
    · rintro ⟨q', hq', rfl⟩
      obtain rfl := PyFloat.finite.inj hq'
      show PyFloat.finite (b + (a + q * c)) = _
      rw [add_comm]
  | posInf | negInf =>
    constructor
    · intro h
      rw [PyFloat.scale] at h
      split_ifs at h <;> cases h
    · rintro ⟨q, hq, -⟩
      cases hq
  | nan =>
    constructor
    · intro h
      cases h
    · rintro ⟨q, hq, -⟩
      cases hq

/-- For weights that are a mean, the confidence of a result is well-formed exactly when the model's critique
fits. -/
theorem scoreConfidence_wellFormed_iff (text : CodeString → Option PyFloat) {w : Weights} (skillId : String)
    (result : List (CodeString × JsonValue)) (reply : Except PyError (List Char)) {historicalScore : ℚ}
    (outcome : Option ExecutionOutcome) {parseErrorFallback : ℚ}
    (hweights : 0 ≤ w.structuralCheck ∧ 0 ≤ w.selfCritique ∧ 0 ≤ w.historicalBaseline)
    (hsum : w.structuralCheck + w.selfCritique + w.historicalBaseline = 1)
    (hhistorical : 0 ≤ historicalScore ∧ historicalScore ≤ 1)
    (hfallback : 0 ≤ parseErrorFallback ∧ parseErrorFallback ≤ 1) :
    WellFormed outcome
        (scoreConfidence text w skillId result reply historicalScore outcome parseErrorFallback) ↔
      CritiqueFits text w skillId result reply historicalScore outcome := by
  rw [wellFormed_iff]
  unfold scoreConfidence CritiqueFits
  dsimp only
  rw [calibratedConfidence_iff]
  cases hcritique : readCritique text reply with
  | ok critique =>
    obtain ⟨score, gaps⟩ := critique
    have hself : selfCritique text reply parseErrorFallback = (score, gaps) := by
      unfold selfCritique
      rw [hcritique]
    rw [hself]
    simp only [soft_finite_iff]
    constructor
    · rintro ⟨hrange, hgaps⟩ score' gaps' heq
      obtain ⟨rfl, rfl⟩ := Prod.mk.inj (Except.ok.inj heq)
      refine ⟨hgaps, fun range hr => ?_⟩
      obtain ⟨s, ⟨q, hq, rfl⟩, hlo, hhi⟩ := hrange range hr
      exact ⟨q, hq, hlo, hhi⟩
    · intro h
      obtain ⟨hgaps, hrange⟩ := h score gaps rfl
      refine ⟨fun range hr => ?_, hgaps⟩
      obtain ⟨q, hq, hlo, hhi⟩ := hrange range hr
      exact ⟨_, ⟨q, hq, rfl⟩, hlo, hhi⟩
  | error e =>
    have hself : selfCritique text reply parseErrorFallback =
        (.finite parseErrorFallback, .arr [.str (CodeString.ofChars "self_critique_parse_error".toList)]) := by
      unfold selfCritique
      rw [hcritique]
    obtain ⟨hs, hc, hh⟩ := hweights
    obtain ⟨hlo, hhi⟩ := structuralCheck_bounds skillId result
    have hgaps : gapsFit (.arr [.str (CodeString.ofChars "self_critique_parse_error".toList)]) = true := by decide
    rw [hself]
    refine ⟨fun _ => nofun, fun _ => ⟨fun range hr => ?_, hgaps⟩⟩
    obtain ⟨hzero, hone⟩ := softRange_unit hr
    refine ⟨_, soft_finite_iff.mpr ⟨parseErrorFallback, rfl, rfl⟩, ?_, ?_⟩
    · have h₁ := mul_nonneg hlo hs
      have h₂ := mul_nonneg hfallback.1 hc
      have h₃ := mul_nonneg hhistorical.1 hh
      linarith
    · have h₁ := mul_le_of_le_one_left hs hhi
      have h₂ := mul_le_of_le_one_left hc hfallback.2
      have h₃ := mul_le_of_le_one_left hh hhistorical.2
      linarith

/-- A reply in the form that is asked for. -/
theorem scoreConfidence_plain_reply :
    WellFormed (some .fail) (scoreConfidence (fun _ => none) defaultWeights "rigel.skill.debug_triage" []
      (.ok "\x7b\"score\": 0.5, \"gaps\": [\"no tests\"]\x7d".toList) (1 / 2) (some .fail) (3 / 4)) := by
  have hread : readCritique (fun _ => none) (.ok "\x7b\"score\": 0.5, \"gaps\": [\"no tests\"]\x7d".toList) =
      .ok (.finite (1 / 2), .arr [.str (CodeString.ofChars "no tests".toList)]) := by decide +kernel
  refine (scoreConfidence_wellFormed_iff _ _ _ _ _ (by decide +kernel) (by decide +kernel) (by decide +kernel)
    (by decide +kernel)).mpr fun score gaps hcritique => ?_
  rw [hread] at hcritique
  cases hcritique
  refine ⟨by decide, fun range hrange => ⟨1 / 2, rfl, ?_⟩⟩
  cases hrange
  decide +kernel

/-- A score of nine lifts a failed execution over its band, and a text is taken for the gaps. -/
theorem scoreConfidence_high_score :
    (scoreConfidence (fun _ => none) defaultWeights "rigel.skill.debug_triage" []
        (.ok "\x7b\"score\": 9, \"gaps\": \"none\"\x7d".toList) (1 / 2) (some .fail) (3 / 4)).confidence =
        .finite (47 / 100) ∧
      gapsFit (scoreConfidence (fun _ => none) defaultWeights "rigel.skill.debug_triage" []
        (.ok "\x7b\"score\": 9, \"gaps\": \"none\"\x7d".toList) (1 / 2) (some .fail) (3 / 4)).gaps = false ∧
      (scoreConfidence (fun _ => none) defaultWeights "rigel.skill.debug_triage" []
        (.ok "\x7b\"score\": 9, \"gaps\": \"none\"\x7d".toList) (1 / 2) none (3 / 4)).confidence =
        .finite (37 / 10) ∧
      ¬ WellFormed (some .fail) (scoreConfidence (fun _ => none) defaultWeights "rigel.skill.debug_triage" []
        (.ok "\x7b\"score\": 9, \"gaps\": \"none\"\x7d".toList) (1 / 2) (some .fail) (3 / 4)) := by
  have hconfidence : (scoreConfidence (fun _ => none) defaultWeights "rigel.skill.debug_triage" []
      (.ok "\x7b\"score\": 9, \"gaps\": \"none\"\x7d".toList) (1 / 2) (some .fail) (3 / 4)).confidence =
      .finite (47 / 100) := by decide +kernel
  refine ⟨hconfidence, by decide +kernel, by decide +kernel, fun h => ?_⟩
  obtain ⟨q, hq, hle⟩ := h.failed (Or.inl rfl)
  rw [hconfidence] at hq
  obtain rfl := PyFloat.finite.inj hq
  norm_num at hle

end Rigel

end Galaxz
