import Galaxz.Security.Redaction
import Mathlib.Data.List.Perm.Subperm

/-!
# What redaction leaves of a text

A run of the loop is followed on the pieces of the text. The order does not matter, and whole secrets are
hidden, exactly where the leftmost occurrences of the secrets keep out of each other's way.
-/

namespace Galaxz

namespace Redaction

open Replace

/-- A secret: not empty, and without a character of the mark. -/
structure Secret where
  text : List Char
  text_ne : text ≠ []
  apart : ∀ c ∈ text, c ∉ redactedMark
deriving DecidableEq

/-- What a secret is replaced by. -/
def mark (_ : Secret) : List Char := redactedMark

theorem mark_ne (v : Secret) : mark v ≠ [] := by
  unfold mark redactedMark
  decide

theorem text_injective : Function.Injective Secret.text := by
  intro v w h
  cases v
  cases w
  cases h
  rfl

/-- The string of a secret. -/
def Secret.value (v : Secret) : String := String.ofList v.text

@[simp] theorem toList_value (v : Secret) : v.value.toList = v.text := String.toList_ofList

@[simp] theorem length_value (v : Secret) : v.value.length = v.text.length := by
  rw [← String.length_toList, toList_value]

theorem value_ne (v : Secret) : v.value ≠ "" := by
  intro h
  have htext := congrArg String.toList h
  rw [toList_value] at htext
  exact v.text_ne htext

theorem value_injective : Function.Injective Secret.value := by
  intro v w h
  have htext := congrArg String.toList h
  rw [toList_value, toList_value] at htext
  exact text_injective htext

/-- Plain secrets, as strings, are secrets. -/
theorem exists_secrets {values : List String} (h : PlainSecrets values) : ∃ vs : List Secret, values = vs.map Secret.value := by
  induction values with
  | nil => exact ⟨[], rfl⟩
  | cons value values ih =>
    obtain ⟨vs, hvs⟩ := ih fun v hv => h v (List.mem_cons_of_mem value hv)
    obtain ⟨hne, hapart⟩ := h value List.mem_cons_self
    have htext : value.toList ≠ [] := by
      intro hnil
      apply hne
      rw [← String.ofList_toList (s := value), hnil]
    refine ⟨⟨value.toList, htext, hapart⟩ :: vs, ?_⟩
    rw [List.map_cons, ← hvs]
    show value :: values = String.ofList value.toList :: values
    rw [String.ofList_toList]

/-! ## The loop on pieces -/

/-- The pieces of the text after the loop. -/
def hideAll (vs : List Secret) (ps : List (Piece Secret)) : List (Piece Secret) :=
  vs.foldl (fun ps v => hide Secret.text v ps) ps

/-- The text, of which nothing is hidden. -/
def pieces (text : List Char) : List (Piece Secret) := text.map .kept

/-- What the loop makes of the text. -/
def redacted (text : List Char) (vs : List Secret) : List (Piece Secret) := hideAll vs (pieces text)

/-- What is shown of pieces. -/
def shown (ps : List (Piece Secret)) : List Traced := shownFrom Secret.text mark 0 ps

theorem hideAll_append (vs ws : List Secret) (ps : List (Piece Secret)) :
    hideAll (vs ++ ws) ps = hideAll ws (hideAll vs ps) := List.foldl_append

theorem clean_shown (v : Secret) (ps : List (Piece Secret)) : Replace.Clean v.text (shown ps) :=
  clean_of_apart (fun v : Secret => v.text_ne) mark_ne (fun _ => v.apart) 0 ps

/-- The loop works on what is shown of the pieces. -/
theorem redactLoop_shown (vs : List Secret) (ps : List (Piece Secret)) :
    redactLoop (·.1) (inserted redactedMark) (shown ps) (vs.map Secret.value) = shown (hideAll vs ps) := by
  induction vs generalizing ps with
  | nil => rfl
  | cons v vs ih =>
    have hstep : replace (·.1) v.value.toList (inserted redactedMark) (shown ps) = shown (hide Secret.text v ps) := by
      rw [toList_value]
      exact replace_shownFrom (fun v : Secret => v.text_ne) v ps 0 (clean_shown v ps)
    show redactLoop (·.1) (inserted redactedMark)
      (if v.value ≠ "" then replace (·.1) v.value.toList (inserted redactedMark) (shown ps) else shown ps)
      (vs.map Secret.value) = _
    rw [if_pos (value_ne v), hstep, ih]
    rfl

theorem traced_eq_shown (text : List Char) : traced text = shown (pieces text) := by
  have hshown := @shownFrom_kept_append Secret Secret.text mark 0 text []
  rw [List.append_nil] at hshown
  unfold shown pieces
  rw [hshown]
  exact (List.append_nil _).symm

/-- The characters of the loop on characters with places are those of the loop on characters. -/
theorem map_redactLoop {α : Type} (key : α → Char) (put text : List α) (values : List String) :
    (redactLoop key put text values).map key = redactLoop id (put.map key) (text.map key) values := by
  induction values generalizing text with
  | nil => rfl
  | cons value values ih =>
    show (redactLoop key put (if value ≠ "" then _ else _) values).map key =
      redactLoop id (put.map key) (if value ≠ "" then _ else _) values
    rw [ih]
    by_cases hempty : value ≠ ""
    · rw [if_pos hempty, if_pos hempty, map_replace]
    · rw [if_neg hempty, if_neg hempty]

theorem redactSecrets_toList (text : String) (vs : List Secret) :
    (redactSecrets text (vs.map Secret.value)).toList = (shown (redacted text.toList vs)).map (·.1) := by
  have hput : (inserted redactedMark).map (·.1) = redactedMark := by
    unfold inserted
    rw [List.map_map]
    exact List.map_id _
  unfold redacted
  rw [← redactLoop_shown, map_redactLoop, hput, ← traced_eq_shown, traced, map_traceFrom]
  exact String.toList_ofList

theorem keptPlaces_eq (text : String) (vs : List Secret) :
    keptPlaces text (vs.map Secret.value) = places (shown (redacted text.toList vs)) := by
  unfold keptPlaces redacted
  rw [traced_eq_shown, redactLoop_shown]

/-! ## What every run keeps -/

@[simp] theorem source_hideAll (vs : List Secret) (ps : List (Piece Secret)) :
    source Secret.text (hideAll vs ps) = source Secret.text ps := by
  induction vs generalizing ps with
  | nil => rfl
  | cons v vs ih => exact (ih _).trans (source_hide v.text_ne ps)

theorem source_pieces (text : List Char) : source Secret.text (pieces text) = text := by
  have hsource := @source_kept_append Secret Secret.text text []
  rw [List.append_nil] at hsource
  exact hsource.trans (List.append_nil _)

@[simp] theorem source_redacted (text : List Char) (vs : List Secret) :
    source Secret.text (redacted text vs) = text := (source_hideAll vs _).trans (source_pieces text)

theorem blocksFrom_pieces (text : List Char) : blocksFrom Secret.text 0 (pieces text) = [] := by
  have hblocks := @blocksFrom_kept_append Secret Secret.text 0 text []
  rw [List.append_nil] at hblocks
  exact hblocks

/-- A secret that was replaced stays gone. -/
theorem free_hideAll {w : List Char} (hw : w ≠ []) (vs : List Secret) {ps : List (Piece Secret)} (h : Free w ps) :
    Free w (hideAll vs ps) := by
  induction vs generalizing ps with
  | nil => exact h
  | cons v vs ih => exact ih (h.hide Secret.text_ne hw v)

theorem free_of_mem {v : Secret} {vs : List Secret} (hv : v ∈ vs) (ps : List (Piece Secret)) :
    Free v.text (hideAll vs ps) := by
  induction vs generalizing ps with
  | nil => cases hv
  | cons w vs ih =>
    rcases List.mem_cons.mp hv with rfl | hv
    · exact free_hideAll v.text_ne vs (free_hide_self Secret.text_ne v ps)
    · exact ih hv _

/-- There is nothing left to hide of texts that are gone. -/
theorem hideAll_of_free {vs : List Secret} {ps : List (Piece Secret)} (h : ∀ v ∈ vs, Free v.text ps) : hideAll vs ps = ps := by
  induction vs with
  | nil => rfl
  | cons v vs ih =>
    show hideAll vs (hide Secret.text v ps) = ps
    rw [hide_of_free (h v List.mem_cons_self)]
    exact ih fun w hw => h w (List.mem_cons_of_mem v hw)

/-- The blocks are secrets of the list. -/
theorem mem_of_mem_blocks {vs : List Secret} {ps : List (Piece Secret)} {j : ℕ} {c : Secret}
    (h : (j, c) ∈ blocksFrom Secret.text 0 (hideAll vs ps)) : c ∈ vs ∨ (j, c) ∈ blocksFrom Secret.text 0 ps := by
  induction vs generalizing ps with
  | nil => exact Or.inr h
  | cons v vs ih =>
    by_cases hcv : c = v
    · exact Or.inl (hcv ▸ List.mem_cons_self)
    · rcases ih h with hmem | hmem
      · exact Or.inl (List.mem_cons_of_mem v hmem)
      · exact Or.inr ((mem_blocksFrom_hide v.text_ne hcv ps 0 j).mp hmem)

theorem mem_of_mem_blocks_redacted {text : List Char} {vs : List Secret} {j : ℕ} {c : Secret}
    (h : (j, c) ∈ blocksFrom Secret.text 0 (redacted text vs)) : c ∈ vs := by
  rcases mem_of_mem_blocks h with hmem | hmem
  · exact hmem
  · rw [blocksFrom_pieces] at hmem
    cases hmem

theorem mem_of_block_mem {text : List Char} {vs : List Secret} {v : Secret} (h : .block v ∈ redacted text vs) : v ∈ vs := by
  obtain ⟨j, hj⟩ := exists_mem_blocksFrom 0 h
  exact mem_of_mem_blocks_redacted hj

/-- No secret of the list is in the output, whatever the order. -/
theorem not_infix_shown {v : Secret} {vs : List Secret} (hv : v ∈ vs) (text : List Char) :
    ¬ v.text <:+: (shown (redacted text vs)).map (·.1) :=
  not_infix_of_free v.text_ne mark_ne (fun _ => v.apart) (free_of_mem hv _)

/-- What is hidden is in an occurrence of a secret. -/
theorem exists_block_of_not_mem {text : List Char} {vs : List Secret} {i : ℕ} (hi : i < text.length)
    (h : i ∉ places (shown (redacted text vs))) :
    ∃ j, ∃ v ∈ vs, (j, v) ∈ blocksFrom Secret.text 0 (redacted text vs) ∧ v.text <+: text.drop j ∧ j ≤ i ∧
      i < j + v.text.length := by
  by_contra hnone
  apply h
  refine (mem_places_shownFrom mark 0 i _).mpr ⟨Nat.zero_le i, by rw [source_redacted]; omega, ?_⟩
  intro k c hk hin
  have hstarts := prefix_of_mem_blocksFrom hk
  rw [source_redacted] at hstarts
  exact hnone ⟨k, c, mem_of_mem_blocks_redacted hk, hk, hstarts, hin.1, hin.2⟩

/-! ## Separate secrets -/

/-- The leftmost occurrences of different secrets do not overlap. -/
def Apart (text : List Char) (vs : List Secret) : Prop := ∀ v ∈ vs, ∀ w ∈ vs, v ≠ w → ∀ i ∈ leftmost v.text text,
  ∀ j ∈ leftmost w.text text, i + v.text.length ≤ j ∨ j + w.text.length ≤ i

/-- The pieces while the loop runs over separate secrets: its blocks are the leftmost occurrences of the secrets
`ws` that are done. -/
structure Done (text : List Char) (ws : List Secret) (ps : List (Piece Secret)) : Prop where
  source : source Secret.text ps = text
  blocks : ∀ j c, (j, c) ∈ blocksFrom Secret.text 0 ps ↔ c ∈ ws ∧ j ∈ leftmost c.text text
  free : ∀ w ∈ ws, Free w.text ps

/-- One secret more. -/
theorem Done.hide {text : List Char} {vs ws : List Secret} {ps : List (Piece Secret)} {v : Secret}
    (h : Done text ws ps) (hapart : Apart text vs) (hws : ∀ w ∈ ws, w ∈ vs) (hv : v ∈ vs) :
    Done text (v :: ws) (Replace.hide Secret.text v ps) := by
  by_cases hmem : v ∈ ws
  · -- a secret that comes again finds nothing
    rw [hide_of_free (h.free v hmem)]
    refine ⟨h.source, fun j c => ?_, fun w hw => ?_⟩
    · rw [h.blocks, List.mem_cons]
      constructor
      · exact fun hc => ⟨Or.inr hc.1, hc.2⟩
      · rintro ⟨rfl | hc, hj⟩
        · exact ⟨hmem, hj⟩
        · exact ⟨hc, hj⟩
    · rcases List.mem_cons.mp hw with rfl | hw
      · exact h.free w hmem
      · exact h.free w hw
  · refine ⟨(source_hide v.text_ne ps).trans h.source, fun j c => ?_, fun w hw => ?_⟩
    · have hblocks := mem_blocksFrom_hide_iff Secret.text_ne v ps 0 (by
        intro i hi k c hk
        rw [h.source] at hi
        obtain ⟨hc, hk⟩ := (h.blocks k c).mp hk
        exact hapart v hv c (hws c hc) (fun heq => hmem (heq ▸ hc)) i hi k hk) j c
      rw [hblocks, h.blocks, h.source, List.mem_cons]
      constructor
      · rintro (⟨hc, hj⟩ | ⟨rfl, hj⟩)
        · exact ⟨Or.inr hc, hj⟩
        · exact ⟨Or.inl rfl, hj⟩
      · rintro ⟨rfl | hc, hj⟩
        · exact Or.inr ⟨rfl, hj⟩
        · exact Or.inl ⟨hc, hj⟩
    · rcases List.mem_cons.mp hw with rfl | hw
      · exact free_hide_self Secret.text_ne w ps
      · exact (h.free w hw).hide Secret.text_ne w.text_ne v

theorem Done.hideAll {text : List Char} {vs : List Secret} (hapart : Apart text vs) (us : List Secret) :
    ∀ {ws : List Secret} {ps : List (Piece Secret)}, Done text ws ps → (∀ w ∈ ws, w ∈ vs) → (∀ u ∈ us, u ∈ vs) →
      Done text (us.reverse ++ ws) (hideAll us ps) := by
  induction us with
  | nil => exact fun h _ _ => h
  | cons u us ih =>
    intro ws ps h hws hus
    have hu := hus u List.mem_cons_self
    have hstep := ih (h.hide hapart hws hu) (by
      intro w hw
      rcases List.mem_cons.mp hw with rfl | hw
      · exact hu
      · exact hws w hw) fun w hw => hus w (List.mem_cons_of_mem u hw)
    rw [List.reverse_cons, List.append_assoc]
    exact hstep

/-- The blocks of a run over separate secrets are their leftmost occurrences. -/
theorem mem_blocks_redacted {text : List Char} {vs : List Secret} (hapart : Apart text vs) (j : ℕ) (c : Secret) :
    (j, c) ∈ blocksFrom Secret.text 0 (redacted text vs) ↔ c ∈ vs ∧ j ∈ leftmost c.text text := by
  have hstart : Done text [] (pieces text) := by
    refine ⟨source_pieces text, fun j c => ?_, fun w hw => by cases hw⟩
    rw [blocksFrom_pieces]
    simp
  have hdone := hstart.hideAll hapart vs (fun w hw => by cases hw) fun v hv => hv
  show (j, c) ∈ blocksFrom Secret.text 0 (Redaction.hideAll vs (pieces text)) ↔ _
  rw [hdone.blocks, List.append_nil, List.mem_reverse]

/-- The order of separate secrets does not matter. -/
theorem redacted_perm {text : List Char} {vs ws : List Secret} (hapart : Apart text vs) (hperm : ws.Perm vs) :
    redacted text ws = redacted text vs := by
  have hapart' : Apart text ws := fun v hv w hw => hapart v (hperm.mem_iff.mp hv) w (hperm.mem_iff.mp hw)
  apply eq_of_blocksFrom Secret.text_ne (i := 0)
  · rw [source_redacted, source_redacted]
  · intro j c
    rw [mem_blocks_redacted hapart, mem_blocks_redacted hapart', hperm.mem_iff]

/-! ## Orders that agree -/

theorem length_shown (ps : List (Piece Secret)) (i : ℕ) :
    (shownFrom Secret.text mark i ps).length =
      (places (shownFrom Secret.text mark i ps)).length + redactedMark.length * blockCount ps := by
  induction ps generalizing i with
  | nil => rfl
  | cons p ps ih =>
    cases p with
    | kept c =>
      rw [places_shownFrom_kept]
      show (shownFrom Secret.text mark (i + 1) ps).length + 1 = (places _).length + 1 + _ * blockCount ps
      rw [ih]
      omega
    | block v =>
      rw [places_shownFrom_block]
      show (inserted redactedMark ++ shownFrom Secret.text mark (i + v.text.length) ps).length =
        _ + redactedMark.length * (blockCount ps + 1)
      rw [List.length_append, ih, inserted, List.length_map, Nat.mul_add, Nat.mul_one]
      omega

/-- The bracket that begins a mark counts the blocks. -/
theorem count_shown (ps : List (Piece Secret)) (i : ℕ) :
    ((shownFrom Secret.text mark i ps).map (·.1)).count '[' = (source Secret.text ps).count '[' + blockCount ps := by
  induction ps generalizing i with
  | nil => rfl
  | cons p ps ih =>
    cases p with
    | kept c =>
      show (c :: (shownFrom Secret.text mark (i + 1) ps).map (·.1)).count '[' = (c :: source Secret.text ps).count '[' + blockCount ps
      rw [List.count_cons, List.count_cons, ih]
      omega
    | block v =>
      have hnone : v.text.count '[' = 0 := List.count_eq_zero.mpr fun hmem => v.apart '[' hmem (by
        unfold redactedMark
        decide)
      have hmark : ((inserted redactedMark).map (·.1)).count '[' = 1 := by
        unfold inserted redactedMark
        decide
      show ((inserted redactedMark ++ shownFrom Secret.text mark (i + v.text.length) ps).map (·.1)).count '[' =
        (v.text ++ source Secret.text ps).count '[' + (blockCount ps + 1)
      rw [List.map_append, List.count_append, List.count_append, ih, hnone, hmark]
      omega

/-- Pieces of one text that show the same characters have as many blocks, and keep as many places. -/
theorem counts_of_shown {ps qs : List (Piece Secret)} (hsource : source Secret.text ps = source Secret.text qs)
    (h : (shown ps).map (·.1) = (shown qs).map (·.1)) :
    blockCount ps = blockCount qs ∧ (places (shown ps)).length = (places (shown qs)).length := by
  have hcount : blockCount ps = blockCount qs := by
    have hps := count_shown ps 0
    have hqs := count_shown qs 0
    unfold shown at h
    rw [h, hsource] at hps
    omega
  have hlength := congrArg List.length h
  rw [List.length_map, List.length_map] at hlength
  unfold shown at hlength ⊢
  rw [length_shown, length_shown, hcount] at hlength
  exact ⟨hcount, by omega⟩

/-- The cells of pieces, from their text and the places they keep. -/
theorem cells_eq (ps : List (Piece Secret)) (i : ℕ) :
    cells Secret.text ps = ((source Secret.text ps).zipIdx i).map fun e =>
      (e.1, decide (e.2 ∈ places (shownFrom Secret.text mark i ps))) := by
  induction ps generalizing i with
  | nil => rfl
  | cons p ps ih =>
    cases p with
    | kept c =>
      show (c, true) :: cells Secret.text ps = ((c :: source Secret.text ps).zipIdx i).map _
      rw [List.zipIdx_cons, List.map_cons, places_shownFrom_kept, ih (i + 1)]
      congr 1
      · simp
      · apply List.map_congr_left
        intro e he
        have hle := (List.mem_zipIdx he).1
        have hne : e.2 ≠ i := by omega
        simp [hne]
    | block v =>
      show v.text.map (·, false) ++ cells Secret.text ps = ((v.text ++ source Secret.text ps).zipIdx i).map _
      rw [List.zipIdx_append, List.map_append, places_shownFrom_block, ih (i + v.text.length)]
      congr 1
      · have hhidden : ∀ e ∈ v.text.zipIdx i, e.2 ∉ places (shownFrom Secret.text mark (i + v.text.length) ps) := by
          intro e he hmem
          have hlt := (List.mem_zipIdx he).2.1
          have hle := ((mem_places_shownFrom mark _ _ _).mp hmem).1
          omega
        have hfst : v.text = (v.text.zipIdx i).map (·.1) := (List.zipIdx_map_fst i v.text).symm
        conv_lhs => rw [hfst]
        rw [List.map_map]
        apply List.map_congr_left
        intro e he
        simp [hhidden e he]

/-- A secret that contains no other one of the list. -/
def IsMinimal (vs : List Secret) (v : Secret) : Prop := v ∈ vs ∧ ∀ w ∈ vs, w.text <:+: v.text → w = v

theorem exists_minimal {vs : List Secret} {v : Secret} (hv : v ∈ vs) : ∃ w, IsMinimal vs w ∧ w.text <:+: v.text := by
  induction hn : v.text.length using Nat.strong_induction_on generalizing v with
  | _ n ih =>
    by_cases hmin : IsMinimal vs v
    · exact ⟨v, hmin, List.infix_refl _⟩
    · unfold IsMinimal at hmin
      push Not at hmin
      obtain ⟨w, hw, hwv, hne⟩ := hmin hv
      have hlt : w.text.length < n := by
        rw [← hn]
        refine lt_of_le_of_ne hwv.length_le fun heq => hne (text_injective ?_)
        exact hwv.eq_of_length heq
      obtain ⟨u, hu, huw⟩ := ih _ hlt hw rfl
      exact ⟨u, hu, huw.trans hwv⟩

/-- All orders show the same, and the first shows no place of an occurrence. -/
structure Agree (text : List Char) (vs : List Secret) : Prop where
  order : ∀ ws, ws.Perm vs → (shown (redacted text ws)).map (·.1) = (shown (redacted text vs)).map (·.1)
  whole : ∀ i ∈ places (shown (redacted text vs)), ∀ v ∈ vs, ∀ j, v.text <+: text.drop j → ¬ (j ≤ i ∧ i < j + v.text.length)

/-- Then they keep the same places. -/
theorem Agree.cells {text : List Char} {vs ws : List Secret} (h : Agree text vs) (hperm : ws.Perm vs) :
    cells Secret.text (redacted text ws) = cells Secret.text (redacted text vs) := by
  have hsource : source Secret.text (redacted text ws) = source Secret.text (redacted text vs) := by
    rw [source_redacted, source_redacted]
  have hlength := (counts_of_shown hsource (h.order ws hperm)).2
  have hsub : places (shown (redacted text vs)) ⊆ places (shown (redacted text ws)) := by
    intro i hi
    by_contra hnot
    have hlt : i < text.length := by
      have hbound := ((mem_places_shownFrom mark 0 i _).mp hi).2.1
      rw [source_redacted] at hbound
      omega
    obtain ⟨j, v, hv, -, hstarts, hle, hlt'⟩ := exists_block_of_not_mem hlt hnot
    exact h.whole i hi v (hperm.mem_iff.mp hv) j hstarts ⟨hle, hlt'⟩
  have hsame := ((nodup_places_shownFrom mark 0 _).subperm hsub).perm_of_length_le (le_of_eq hlength)
  rw [cells_eq _ 0, cells_eq _ 0, hsource]
  apply List.map_congr_left
  intro e _
  have hmem := hsame.mem_iff (a := e.2)
  unfold shown at hmem
  rw [Prod.mk.injEq]
  exact ⟨rfl, decide_eq_decide.mpr hmem.symm⟩

/-- Orders that agree cut the text in the same way: all do it like an order that takes the smallest secrets
first, which leaves nothing for the others. -/
theorem Agree.redacted_eq {text : List Char} {vs ws : List Secret} (h : Agree text vs) (hperm : ws.Perm vs) :
    redacted text ws = redacted text vs := by
  classical
  have hfirst : ((vs.filter (IsMinimal vs ·)) ++ (vs.filter (¬ IsMinimal vs ·))).Perm vs := by
    have hsplit := List.filter_append_perm (fun v => decide (IsMinimal vs v)) vs
    refine List.Perm.trans (List.Perm.of_eq ?_) hsplit
    congr 1
    apply List.filter_congr
    intro v _
    simp
  -- after the smallest secrets the others find nothing
  have hminimal : redacted text ((vs.filter (IsMinimal vs ·)) ++ (vs.filter (¬ IsMinimal vs ·))) =
      redacted text (vs.filter (IsMinimal vs ·)) := by
    unfold redacted
    rw [hideAll_append]
    apply hideAll_of_free
    intro v hv
    obtain ⟨w, hw, hwv⟩ := exists_minimal (List.mem_of_mem_filter hv)
    have hmem : w ∈ vs.filter (IsMinimal vs ·) := List.mem_filter.mpr ⟨hw.1, decide_eq_true hw⟩
    exact (free_of_mem hmem _).of_within hwv
  have hall : ∀ us : List Secret, us.Perm vs →
      redacted text ((vs.filter (IsMinimal vs ·)) ++ (vs.filter (¬ IsMinimal vs ·))) = redacted text us := by
    intro us hus
    have hcells := (h.cells hfirst).trans (h.cells hus).symm
    have hcount : blockCount (redacted text us) =
        blockCount (redacted text ((vs.filter (IsMinimal vs ·)) ++ (vs.filter (¬ IsMinimal vs ·)))) := by
      refine (counts_of_shown ?_ ((h.order us hus).trans (h.order _ hfirst).symm)).1
      rw [source_redacted, source_redacted]
    refine eq_of_blockCount Secret.text_ne text_injective (M := IsMinimal vs) ?_ ⟨?_, ?_⟩ hcells hcount
    · exact fun s t hs ht hst => ht.2 s hs.1 hst
    · intro b hb
      rw [hminimal] at hb
      have hmem := mem_of_block_mem hb
      exact of_decide_eq_true (List.mem_filter.mp hmem).2
    · intro b hb
      exact exists_minimal (hus.mem_iff.mp (mem_of_block_mem hb))
  exact (hall ws hperm).symm.trans (hall vs (List.Perm.refl vs))

/-- The blocks of an order that begins with a secret are the leftmost occurrences of that secret, and others of
other secrets. -/
theorem mem_blocks_first {text : List Char} {vs : List Secret} (v : Secret) (j : ℕ) :
    (j, v) ∈ blocksFrom Secret.text 0 (redacted text (v :: vs)) ↔ j ∈ leftmost v.text text := by
  have hrest : ∀ (us : List Secret) (ps : List (Piece Secret)), Free v.text ps →
      ((j, v) ∈ blocksFrom Secret.text 0 (hideAll us ps) ↔ (j, v) ∈ blocksFrom Secret.text 0 ps) := by
    intro us
    induction us with
    | nil => exact fun _ _ => Iff.rfl
    | cons u us ih =>
      intro ps hfree
      show (j, v) ∈ blocksFrom Secret.text 0 (hideAll us (Replace.hide Secret.text u ps)) ↔ _
      rw [ih _ (hfree.hide Secret.text_ne v.text_ne u)]
      by_cases hvu : v = u
      · subst hvu
        rw [hide_of_free hfree]
      · exact mem_blocksFrom_hide u.text_ne hvu ps 0 j
  show (j, v) ∈ blocksFrom Secret.text 0 (hideAll vs (Replace.hide Secret.text v (pieces text))) ↔ _
  rw [hrest vs _ (free_hide_self Secret.text_ne v _)]
  have hblocks := mem_blocksFrom_hide_iff Secret.text_ne v (pieces text) 0 (by
    intro i _ k c hk
    rw [blocksFrom_pieces] at hk
    cases hk) j v
  rw [hblocks, blocksFrom_pieces, source_pieces]
  simp [leftmost]

end Redaction

open Redaction Replace

/-- Another order of the strings of secrets is the strings of another order. -/
theorem exists_perm_secrets {vs : List Secret} {others : List String} (h : others.Perm (vs.map Secret.value)) :
    ∃ ws : List Secret, ws.Perm vs ∧ others = ws.map Secret.value := by
  have hplain : PlainSecrets others := by
    intro value hvalue
    obtain ⟨v, -, rfl⟩ := List.mem_map.mp (h.mem_iff.mp hvalue)
    exact ⟨value_ne v, by rw [toList_value]; exact v.apart⟩
  obtain ⟨ws, hws⟩ := exists_secrets hplain
  refine ⟨ws, ?_, hws⟩
  rw [hws] at h
  exact (List.map_perm_map_iff value_injective).mp h

/-- Whole secrets are hidden, whatever the order, if and only if the leftmost occurrences of the secrets do not
overlap and cover every occurrence. -/
theorem hidesSecrets_iff (text : String) (values : List String) (h : PlainSecrets values) :
    HidesSecrets text values ↔ SeparateSecrets text values := by
  obtain ⟨vs, rfl⟩ := exists_secrets h
  have hgone : ∀ value ∈ vs.map Secret.value, ¬ value.toList <:+: (redactSecrets text (vs.map Secret.value)).toList := by
    intro value hvalue
    obtain ⟨v, hv, rfl⟩ := List.mem_map.mp hvalue
    rw [toList_value, redactSecrets_toList]
    exact not_infix_shown hv text.toList
  constructor
  · rintro ⟨horder, -, hwhole⟩
    have hagree : Agree text.toList vs := by
      constructor
      · intro ws hws
        rw [← redactSecrets_toList, ← redactSecrets_toList, horder _ (hws.map _)]
      · intro i hi v hv j hstarts hin
        rw [← keptPlaces_eq] at hi
        refine hwhole i hi ⟨v.value, List.mem_map_of_mem hv, j, ?_, hin.1, ?_⟩
        · unfold OccursAt
          rw [toList_value]
          exact hstarts
        · rw [length_value]
          exact hin.2
    -- every order has the same blocks, also one that begins with a given secret
    have hblocks : ∀ v ∈ vs, ∀ j, (j, v) ∈ blocksFrom Secret.text 0 (redacted text.toList vs) ↔
        j ∈ leftmost v.text text.toList := by
      intro v hv j
      rw [← hagree.redacted_eq (List.perm_cons_erase hv).symm]
      exact mem_blocks_first v j
    constructor
    · intro v' hv' w' hw' hne i hi j hj
      obtain ⟨v, hv, rfl⟩ := List.mem_map.mp hv'
      obtain ⟨w, hw, rfl⟩ := List.mem_map.mp hw'
      rw [toList_value] at hi hj
      rw [length_value, length_value]
      rcases blocksFrom_apart ((hblocks v hv i).mpr hi) ((hblocks w hw j).mpr hj) with ⟨-, heq⟩ | hapart
      · exact absurd (congrArg Secret.value heq) hne
      · exact hapart
    · rintro i ⟨value, hvalue, j, hoccurs, hle, hlt⟩
      obtain ⟨v, hv, rfl⟩ := List.mem_map.mp hvalue
      rw [length_value] at hlt
      have hbound : i < text.toList.length := by
        have hlength := hoccurs.length_le
        rw [toList_value, List.length_drop] at hlength
        have hpos := List.length_pos_of_ne_nil v.text_ne
        omega
      have hhidden : i ∉ places (shown (redacted text.toList vs)) := by
        intro hi
        rw [← keptPlaces_eq] at hi
        exact hwhole i hi ⟨v.value, hvalue, j, hoccurs, hle, by rw [length_value]; exact hlt⟩
      obtain ⟨k, w, hw, hblock, -, hle', hlt'⟩ := exists_block_of_not_mem hbound hhidden
      refine ⟨w.value, List.mem_map_of_mem hw, k, ?_, hle', by rw [length_value]; exact hlt'⟩
      rw [toList_value]
      exact (hblocks w hw k).mp hblock
  · rintro ⟨hapart, hcovered⟩
    have hseparate : Apart text.toList vs := by
      intro v hv w hw hne i hi j hj
      have hvw := hapart v.value (List.mem_map_of_mem hv) w.value (List.mem_map_of_mem hw)
        (fun heq => hne (value_injective heq)) i (by rw [toList_value]; exact hi) j (by rw [toList_value]; exact hj)
      rw [length_value, length_value] at hvw
      exact hvw
    refine ⟨?_, hgone, ?_⟩
    · intro others hothers
      obtain ⟨ws, hws, rfl⟩ := exists_perm_secrets hothers
      apply String.toList_inj.mp
      rw [redactSecrets_toList, redactSecrets_toList, redacted_perm hseparate hws]
    · intro i hi hin
      rw [keptPlaces_eq] at hi
      obtain ⟨value, hvalue, j, hj, hle, hlt⟩ := hcovered i hin
      obtain ⟨v, hv, rfl⟩ := List.mem_map.mp hvalue
      rw [toList_value] at hj
      rw [length_value] at hlt
      have hfree := ((mem_places_shownFrom mark 0 i _).mp hi).2.2
      exact hfree j v ((mem_blocks_redacted hseparate j v).mpr ⟨hv, hj⟩) ⟨hle, hlt⟩

instance (values : List String) : Decidable (PlainSecrets values) :=
  @List.decidableBAll _ (fun value => value ≠ "" ∧ ∀ c ∈ value.toList, c ∉ redactedMark) (fun value =>
    @instDecidableAnd _ _ _ (List.decidableBAll (fun c => c ∉ redactedMark) value.toList)) values

/-- Two secrets that stand apart. -/
theorem hidesSecrets_token : HidesSecrets "token=abc password=xyz" ["abc", "xyz"] ∧
    redactSecrets "token=abc password=xyz" ["abc", "xyz"] = "token=[REDACTED] password=[REDACTED]" := by
  have hfound : ∀ v ∈ ["abc", "xyz"], ∀ j < 22, v.toList <+: "token=abc password=xyz".toList.drop j →
      j ∈ leftmost v.toList "token=abc password=xyz".toList := by decide +kernel
  have hseparate : SeparateSecrets "token=abc password=xyz" ["abc", "xyz"] := by
    constructor
    · decide +kernel
    · rintro i ⟨v, hv, j, hoccurs, hle, hlt⟩
      have hj : j < 22 := by
        by_contra hout
        have hempty : "token=abc password=xyz".toList.drop j = [] := List.drop_eq_nil_of_le (not_lt.mp hout)
        unfold OccursAt at hoccurs
        rw [hempty, List.prefix_nil] at hoccurs
        exact absurd hoccurs ((show ∀ v ∈ ["abc", "xyz"], v.toList ≠ [] by decide) v hv)
      exact ⟨v, hv, j, hfound v hv j hj hoccurs, hle, hlt⟩
  exact ⟨(hidesSecrets_iff "token=abc password=xyz" ["abc", "xyz"] (by decide)).mpr hseparate, by decide +kernel⟩

/-- A secret that begins another one leaves the rest of it. -/
theorem prefix_secret_leaks : PlainSecrets ["abc", "abcdef"] ∧
    redactSecrets "key=abcdef" ["abc", "abcdef"] = "key=[REDACTED]def" ∧
    redactSecrets "key=abcdef" ["abcdef", "abc"] = "key=[REDACTED]" ∧
    ¬ HidesSecrets "key=abcdef" ["abc", "abcdef"] := by
  have hleft : redactSecrets "key=abcdef" ["abc", "abcdef"] = "key=[REDACTED]def" := by decide +kernel
  have hright : redactSecrets "key=abcdef" ["abcdef", "abc"] = "key=[REDACTED]" := by decide +kernel
  refine ⟨by decide, hleft, hright, ?_⟩
  intro h
  have horder := h.order ["abcdef", "abc"] (by decide)
  rw [hleft, hright] at horder
  exact absurd horder (by decide)

end Galaxz
