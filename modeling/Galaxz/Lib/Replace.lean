import Mathlib.Data.List.Infix

/-!
# `str.replace`

Python replaces the leftmost occurrences that do not overlap, from left to right. Repeated replacement is
followed on a text that is cut into pieces: characters that are kept, and blocks that stand for a part of the
text that was replaced. As long as no replacement touches what an earlier one has put in, a replacement
hides occurrences behind blocks.
-/

namespace Galaxz.Replace

/-! ## Replacement -/

section Text

variable {α : Type} (key : α → Char) (old : List Char)

/-- The occurrences that are replaced, when the first `k` elements belong to one before. -/
def slicesFrom : ℕ → List α → List (List α)
  | _, [] => []
  | k + 1, _ :: xs => slicesFrom k xs
  | 0, x :: xs =>
    if old.isPrefixOf ((x :: xs).map key) then (x :: xs).take old.length :: slicesFrom (old.length - 1) xs
    else slicesFrom 0 xs

/-- The same with `new` in their place. -/
def replaceFrom (new : List α) : ℕ → List α → List α
  | _, [] => []
  | k + 1, _ :: xs => replaceFrom new k xs
  | 0, x :: xs =>
    if old.isPrefixOf ((x :: xs).map key) then new ++ replaceFrom new (old.length - 1) xs
    else x :: replaceFrom new 0 xs

/-- The occurrences of `old` that are replaced. -/
def slices (xs : List α) : List (List α) := slicesFrom key old 0 xs

/-- `xs.replace(old, new)`, for an `old` that is not empty. -/
def replace (new xs : List α) : List α := replaceFrom key old new 0 xs

variable {key old}

theorem slicesFrom_eq (k : ℕ) (xs : List α) : slicesFrom key old k xs = slices key old (xs.drop k) := by
  induction xs generalizing k with
  | nil => rw [List.drop_nil]; cases k <;> rfl
  | cons x xs ih =>
    cases k with
    | zero => rfl
    | succ k => exact ih k

theorem replaceFrom_eq (new : List α) (k : ℕ) (xs : List α) :
    replaceFrom key old new k xs = replace key old new (xs.drop k) := by
  induction xs generalizing k with
  | nil => rw [List.drop_nil]; cases k <;> rfl
  | cons x xs ih =>
    cases k with
    | zero => rfl
    | succ k => exact ih k

theorem drop_pred {n : ℕ} (h : 0 < n) (x : α) (xs : List α) : xs.drop (n - 1) = (x :: xs).drop n := by
  cases n with
  | zero => exact absurd h (lt_irrefl 0)
  | succ n => rfl

/-- An occurrence at the front is replaced. -/
theorem replace_of_starts {new xs : List α} (hold : old ≠ []) (h : old <+: xs.map key) :
    replace key old new xs = new ++ replace key old new (xs.drop old.length) := by
  cases xs with
  | nil => exact absurd (List.prefix_nil.mp h) hold
  | cons x xs =>
    have hstep : replace key old new (x :: xs) = new ++ replaceFrom key old new (old.length - 1) xs :=
      if_pos (List.isPrefixOf_iff_prefix.mpr h)
    rw [hstep, replaceFrom_eq, drop_pred (List.length_pos_of_ne_nil hold) x]

theorem replace_of_not_starts {new xs : List α} {x : α} (h : ¬ old <+: (x :: xs).map key) :
    replace key old new (x :: xs) = x :: replace key old new xs :=
  if_neg fun hp => h (List.isPrefixOf_iff_prefix.mp hp)

theorem slices_of_starts {xs : List α} (hold : old ≠ []) (h : old <+: xs.map key) :
    slices key old xs = xs.take old.length :: slices key old (xs.drop old.length) := by
  cases xs with
  | nil => exact absurd (List.prefix_nil.mp h) hold
  | cons x xs =>
    have hstep : slices key old (x :: xs) =
        (x :: xs).take old.length :: slicesFrom key old (old.length - 1) xs :=
      if_pos (List.isPrefixOf_iff_prefix.mpr h)
    rw [hstep, slicesFrom_eq, drop_pred (List.length_pos_of_ne_nil hold) x]

theorem slices_of_not_starts {xs : List α} {x : α} (h : ¬ old <+: (x :: xs).map key) :
    slices key old (x :: xs) = slices key old xs :=
  if_neg fun hp => h (List.isPrefixOf_iff_prefix.mp hp)

/-- The keys of a replacement are the replacement on the keys. -/
theorem map_replaceFrom (new : List α) (k : ℕ) (xs : List α) :
    (replaceFrom key old new k xs).map key = replaceFrom id old (new.map key) k (xs.map key) := by
  induction xs generalizing k with
  | nil => cases k <;> rfl
  | cons x xs ih =>
    cases k with
    | succ k => exact ih k
    | zero =>
      show (if old.isPrefixOf ((x :: xs).map key) then _ else _ : List α).map key =
        if old.isPrefixOf (((x :: xs).map key).map id) then _ else _
      rw [List.map_id]
      by_cases hfront : old.isPrefixOf ((x :: xs).map key) = true
      · rw [if_pos hfront, if_pos hfront, List.map_append, ih]
      · rw [if_neg hfront, if_neg hfront, List.map_cons, ih]

theorem map_replace (new xs : List α) :
    (replace key old new xs).map key = replace id old (new.map key) (xs.map key) :=
  map_replaceFrom new 0 xs

end Text

/-! ## Where the occurrences are -/

/-- The places of the occurrences that are replaced, from the place `i` on. -/
def leftmostFrom (old : List Char) : ℕ → ℕ → List Char → List ℕ
  | _, _, [] => []
  | k + 1, i, _ :: cs => leftmostFrom old k (i + 1) cs
  | 0, i, c :: cs =>
    if old.isPrefixOf (c :: cs) then i :: leftmostFrom old (old.length - 1) (i + 1) cs
    else leftmostFrom old 0 (i + 1) cs

/-- The places of the leftmost occurrences that do not overlap. -/
def leftmost (old text : List Char) : List ℕ := leftmostFrom old 0 0 text

section Leftmost

variable {old : List Char}

theorem leftmostFrom_eq (k i : ℕ) (cs : List Char) :
    leftmostFrom old k i cs = leftmostFrom old 0 (i + k) (cs.drop k) := by
  induction cs generalizing k i with
  | nil => rw [List.drop_nil]; cases k <;> rfl
  | cons c cs ih =>
    cases k with
    | zero => rfl
    | succ k =>
      show leftmostFrom old k (i + 1) cs = _
      rw [ih, Nat.add_assoc, Nat.add_comm 1 k]
      rfl

theorem leftmostFrom_of_starts {i : ℕ} {cs : List Char} (hold : old ≠ []) (h : old <+: cs) :
    leftmostFrom old 0 i cs = i :: leftmostFrom old 0 (i + old.length) (cs.drop old.length) := by
  have hpos := List.length_pos_of_ne_nil hold
  cases cs with
  | nil => exact absurd (List.prefix_nil.mp h) hold
  | cons c cs =>
    have hstep : leftmostFrom old 0 i (c :: cs) = i :: leftmostFrom old (old.length - 1) (i + 1) cs :=
      if_pos (List.isPrefixOf_iff_prefix.mpr h)
    rw [hstep, leftmostFrom_eq, drop_pred hpos c]
    congr 2
    omega

theorem leftmostFrom_of_not_starts {i : ℕ} {c : Char} {cs : List Char} (h : ¬ old <+: c :: cs) :
    leftmostFrom old 0 i (c :: cs) = leftmostFrom old 0 (i + 1) cs :=
  if_neg fun hp => h (List.isPrefixOf_iff_prefix.mp hp)

theorem le_of_mem_leftmostFrom {i j k : ℕ} {cs : List Char} (h : j ∈ leftmostFrom old k i cs) : i ≤ j := by
  induction cs generalizing i k with
  | nil => cases k <;> cases h
  | cons c cs ih =>
    cases k with
    | succ k =>
      have hle := ih (i := i + 1) (k := k) h
      omega
    | zero =>
      by_cases hfront : old.isPrefixOf (c :: cs) = true
      · have hstep : leftmostFrom old 0 i (c :: cs) = i :: leftmostFrom old (old.length - 1) (i + 1) cs := if_pos hfront
        rw [hstep] at h
        rcases List.mem_cons.mp h with h | h
        · omega
        · have hle := ih h
          omega
      · have hstep : leftmostFrom old 0 i (c :: cs) = leftmostFrom old 0 (i + 1) cs := if_neg hfront
        rw [hstep] at h
        have hle := ih h
        omega

/-- Text without a match in it can be passed over. -/
theorem leftmostFrom_append {i : ℕ} (hold : old ≠ []) (skipped cs : List Char)
    (h : ∀ j ∈ leftmostFrom old 0 i (skipped ++ cs), i + skipped.length ≤ j) :
    leftmostFrom old 0 i (skipped ++ cs) = leftmostFrom old 0 (i + skipped.length) cs := by
  induction skipped generalizing i with
  | nil => rfl
  | cons c skipped ih =>
    have hnot : ¬ old <+: c :: (skipped ++ cs) := by
      intro hp
      have hmem : i ∈ leftmostFrom old 0 i (c :: (skipped ++ cs)) := by
        rw [leftmostFrom_of_starts hold hp]
        exact List.mem_cons_self
      have hle := h i hmem
      rw [List.length_cons] at hle
      omega
    have hstep := leftmostFrom_of_not_starts (i := i) hnot
    rw [List.cons_append] at h ⊢
    rw [hstep] at h ⊢
    have hlength : i + (c :: skipped).length = i + 1 + skipped.length := by
      rw [List.length_cons]
      omega
    rw [hlength] at h ⊢
    exact ih h

end Leftmost

/-! ## Pieces -/

/-- A character of the text, or a part of it that is hidden behind a block. -/
inductive Piece (β : Type) where
  | kept (c : Char)
  | block (b : β)
deriving DecidableEq

/-- A character and where it stands in the text; no place, if it was put in. -/
abbrev Traced : Type := Char × Option ℕ

/-- The characters of a text from the place `i` on. -/
def traceFrom : ℕ → List Char → List Traced
  | _, [] => []
  | i, c :: cs => (c, some i) :: traceFrom (i + 1) cs

/-- The characters of a text. -/
def traced (text : List Char) : List Traced := traceFrom 0 text

/-- Characters that are put in. -/
def inserted (new : List Char) : List Traced := new.map (·, none)

/-- The slice is a part of the text, at one stretch. -/
def Original (slice : List Traced) : Prop := ∃ i, slice = traceFrom i (slice.map (·.1))

section Pieces

variable {β : Type} (old : β → List Char)

/-- The characters before the first block. -/
def run : List (Piece β) → List Char
  | .kept c :: ps => c :: run ps
  | _ => []

/-- The text that the pieces stand for. -/
def source : List (Piece β) → List Char
  | [] => []
  | .kept c :: ps => c :: source ps
  | .block b :: ps => old b ++ source ps

/-- The blocks and their places. -/
def blocksFrom : ℕ → List (Piece β) → List (ℕ × β)
  | _, [] => []
  | i, .kept _ :: ps => blocksFrom (i + 1) ps
  | i, .block b :: ps => (i, b) :: blocksFrom (i + (old b).length) ps

/-- What is shown of the pieces, with `new` in place of the blocks. -/
def shownFrom (new : β → List Char) : ℕ → List (Piece β) → List Traced
  | _, [] => []
  | i, .kept c :: ps => (c, some i) :: shownFrom new (i + 1) ps
  | i, .block b :: ps => inserted (new b) ++ shownFrom new (i + (old b).length) ps

/-- Occurrences of `old b` among the kept characters become blocks. -/
def hideFrom (b : β) : ℕ → List (Piece β) → List (Piece β)
  | _, [] => []
  | k + 1, _ :: ps => hideFrom b k ps
  | 0, p :: ps =>
    if (old b).isPrefixOf (run (p :: ps)) then .block b :: hideFrom b ((old b).length - 1) ps
    else p :: hideFrom b 0 ps

def hide (b : β) (ps : List (Piece β)) : List (Piece β) := hideFrom old b 0 ps

variable {old}

theorem hideFrom_eq (b : β) (k : ℕ) (ps : List (Piece β)) : hideFrom old b k ps = hide old b (ps.drop k) := by
  induction ps generalizing k with
  | nil => rw [List.drop_nil]; cases k <;> rfl
  | cons p ps ih =>
    cases k with
    | zero => rfl
    | succ k => exact ih k

theorem hide_of_starts {b : β} {ps : List (Piece β)} (hold : old b ≠ []) (h : old b <+: run ps) :
    hide old b ps = .block b :: hide old b (ps.drop (old b).length) := by
  cases ps with
  | nil => exact absurd (List.prefix_nil.mp h) hold
  | cons p ps =>
    have hstep : hide old b (p :: ps) = .block b :: hideFrom old b ((old b).length - 1) ps :=
      if_pos (List.isPrefixOf_iff_prefix.mpr h)
    rw [hstep, hideFrom_eq, drop_pred (List.length_pos_of_ne_nil hold) p]

theorem hide_of_not_starts {b : β} {p : Piece β} {ps : List (Piece β)} (h : ¬ old b <+: run (p :: ps)) :
    hide old b (p :: ps) = p :: hide old b ps :=
  if_neg fun hp => h (List.isPrefixOf_iff_prefix.mp hp)

/-- Pieces that begin with some characters. -/
theorem eq_kept_append {w : List Char} {ps : List (Piece β)} (h : w <+: run ps) :
    ps = w.map .kept ++ ps.drop w.length := by
  induction w generalizing ps with
  | nil => rfl
  | cons c w ih =>
    cases ps with
    | nil => exact absurd (List.prefix_nil.mp h) (List.cons_ne_nil c w)
    | cons p ps =>
      cases p with
      | block b => exact absurd (List.prefix_nil.mp h) (List.cons_ne_nil c w)
      | kept d =>
        obtain ⟨hcd, hw⟩ := List.cons_prefix_cons.mp h
        rw [hcd, List.map_cons, List.length_cons, List.drop_succ_cons, List.cons_append, ← ih hw]

theorem run_kept_append (w : List Char) (ps : List (Piece β)) : run (w.map .kept ++ ps) = w ++ run ps := by
  induction w with
  | nil => rfl
  | cons c w ih =>
    show c :: run (w.map .kept ++ ps) = _
    rw [ih]
    rfl

theorem source_kept_append (w : List Char) (ps : List (Piece β)) :
    source old (w.map .kept ++ ps) = w ++ source old ps := by
  induction w with
  | nil => rfl
  | cons c w ih =>
    show c :: source old (w.map .kept ++ ps) = _
    rw [ih]
    rfl

theorem blocksFrom_kept_append (i : ℕ) (w : List Char) (ps : List (Piece β)) :
    blocksFrom old i (w.map .kept ++ ps) = blocksFrom old (i + w.length) ps := by
  induction w generalizing i with
  | nil => rfl
  | cons c w ih =>
    show blocksFrom old (i + 1) (w.map .kept ++ ps) = _
    rw [ih, List.length_cons, Nat.add_assoc, Nat.add_comm 1]

theorem shownFrom_kept_append (new : β → List Char) (i : ℕ) (w : List Char) (ps : List (Piece β)) :
    shownFrom old new i (w.map .kept ++ ps) = traceFrom i w ++ shownFrom old new (i + w.length) ps := by
  induction w generalizing i with
  | nil => rfl
  | cons c w ih =>
    show (c, some i) :: shownFrom old new (i + 1) (w.map .kept ++ ps) = _
    rw [ih, List.length_cons, Nat.add_assoc, Nat.add_comm 1]
    rfl

@[simp] theorem map_traceFrom (i : ℕ) (cs : List Char) : (traceFrom i cs).map (·.1) = cs := by
  induction cs generalizing i with
  | nil => rfl
  | cons c cs ih => rw [traceFrom, List.map_cons, ih]

@[simp] theorem length_traceFrom (i : ℕ) (cs : List Char) : (traceFrom i cs).length = cs.length := by
  rw [← List.length_map (·.1), map_traceFrom]

/-- A case of a proof about `hide`: an occurrence becomes a block, or the first piece stays. -/
theorem hide_cases (b : β) (hold : old b ≠ []) (ps : List (Piece β)) :
    ps = [] ∨
    (∃ qs, ps = (old b).map .kept ++ qs ∧ hide old b ps = .block b :: hide old b qs) ∨
    (∃ p qs, ps = p :: qs ∧ ¬ old b <+: run (p :: qs) ∧ hide old b ps = p :: hide old b qs) := by
  cases ps with
  | nil => exact Or.inl rfl
  | cons p ps =>
    by_cases hfront : old b <+: run (p :: ps)
    · exact Or.inr (Or.inl ⟨_, eq_kept_append hfront, hide_of_starts hold hfront⟩)
    · exact Or.inr (Or.inr ⟨p, ps, rfl, hfront, hide_of_not_starts hfront⟩)

/-- The recursion of `hide` as an induction rule. -/
theorem hide_induction (b : β) (hold : old b ≠ []) {P : List (Piece β) → List (Piece β) → Prop} (nil : P [] [])
    (hit : ∀ qs, P qs (hide old b qs) → P ((old b).map .kept ++ qs) (.block b :: hide old b qs))
    (miss : ∀ p qs, ¬ old b <+: run (p :: qs) → P qs (hide old b qs) → P (p :: qs) (p :: hide old b qs))
    (ps : List (Piece β)) : P ps (hide old b ps) := by
  induction hn : ps.length using Nat.strong_induction_on generalizing ps with
  | _ n ih =>
    rcases hide_cases b hold ps with rfl | ⟨qs, hps, hhide⟩ | ⟨p, qs, hps, hfront, hhide⟩
    · exact nil
    · rw [hhide, hps]
      refine hit qs (ih qs.length ?_ qs rfl)
      have hpos := List.length_pos_of_ne_nil hold
      rw [← hn, hps, List.length_append, List.length_map]
      omega
    · rw [hhide, hps]
      refine miss p qs hfront (ih qs.length ?_ qs rfl)
      rw [← hn, hps, List.length_cons]
      omega

/-- Hiding does not change the text. -/
@[simp] theorem source_hide {b : β} (hold : old b ≠ []) (ps : List (Piece β)) :
    source old (hide old b ps) = source old ps := by
  refine hide_induction b hold (P := fun ps qs => source old qs = source old ps) rfl ?_ ?_ ps
  · intro qs ih
    rw [source_kept_append, ← ih]
    rfl
  · intro p qs _ ih
    cases p with
    | kept c => exact congrArg (c :: ·) ih
    | block c => exact congrArg (old c ++ ·) ih

/-- The blocks of another kind stay where they are. -/
theorem mem_blocksFrom_hide {b c : β} (hold : old b ≠ []) (hbc : c ≠ b) (ps : List (Piece β)) (i j : ℕ) :
    (j, c) ∈ blocksFrom old i (hide old b ps) ↔ (j, c) ∈ blocksFrom old i ps := by
  refine hide_induction b hold
    (P := fun ps qs => ∀ i, (j, c) ∈ blocksFrom old i qs ↔ (j, c) ∈ blocksFrom old i ps) ?_ ?_ ?_ ps i
  · exact fun i => Iff.rfl
  · intro qs ih i
    rw [blocksFrom_kept_append, ← ih]
    show (j, c) ∈ (i, b) :: _ ↔ _
    rw [List.mem_cons, Prod.mk.injEq]
    exact or_iff_right fun h => hbc h.2
  · intro p qs _ ih i
    cases p with
    | kept d => exact ih (i + 1)
    | block d =>
      show (j, c) ∈ (i, d) :: _ ↔ (j, c) ∈ (i, d) :: _
      rw [List.mem_cons, List.mem_cons, ih]

/-! ## Replacement on the pieces -/

/-- Every occurrence that is replaced is a part of the text. -/
def Clean (w : List Char) (xs : List Traced) : Prop := ∀ slice ∈ slices (·.1) w xs, Original slice

theorem not_original_of_inserted {c : Char} {xs : List Traced} : ¬ Original ((c, none) :: xs) := by
  rintro ⟨i, h⟩
  have hhead := (List.cons.inj h).1
  cases hhead

theorem le_of_mem_shownFrom {new : β → List Char} {i j : ℕ} {c : Char} {ps : List (Piece β)}
    (h : (c, some j) ∈ shownFrom old new i ps) : i ≤ j := by
  induction ps generalizing i with
  | nil => cases h
  | cons p ps ih =>
    cases p with
    | kept d =>
      rcases List.mem_cons.mp h with h | h
      · have hij : j = i := Option.some.inj (Prod.mk.inj h).2
        omega
      · have hle := ih h
        omega
    | block b =>
      rcases List.mem_append.mp h with h | h
      · obtain ⟨d, -, hd⟩ := List.mem_map.mp h
        cases hd
      · have hle := ih h
        omega

/-- A stretch of the text that is shown from the place it has there is made of kept characters. -/
theorem prefix_run_of_trace {new : β → List Char} (hold : ∀ b, old b ≠ []) {w : List Char} {i : ℕ} {ps : List (Piece β)}
    (h : traceFrom i w <+: shownFrom old new i ps) : w <+: run ps := by
  induction w generalizing i ps with
  | nil => exact List.nil_prefix
  | cons c w ih =>
    cases ps with
    | nil => exact absurd (List.prefix_nil.mp h) (by simp [traceFrom])
    | cons p ps =>
      cases p with
      | kept d =>
        obtain ⟨hcd, hw⟩ := List.cons_prefix_cons.mp h
        rw [(Prod.mk.inj hcd).1]
        exact List.cons_prefix_cons.mpr ⟨rfl, ih hw⟩
      | block b =>
        have hmem : (c, some i) ∈ inserted (new b) ++ shownFrom old new (i + (old b).length) ps :=
          h.subset List.mem_cons_self
        have hpos := List.length_pos_of_ne_nil (hold b)
        rcases List.mem_append.mp hmem with hmem | hmem
        · obtain ⟨d, -, hd⟩ := List.mem_map.mp hmem
          cases hd
        · have hle := le_of_mem_shownFrom hmem
          omega

/-- Characters that were put in are passed over. -/
theorem replace_inserted {w : List Char} (hw : w ≠ []) {new : List Traced} (put : List Char) {xs : List Traced}
    (h : Clean w (inserted put ++ xs)) :
    replace (·.1) w new (inserted put ++ xs) = inserted put ++ replace (·.1) w new xs ∧ Clean w xs := by
  induction put with
  | nil => exact ⟨rfl, h⟩
  | cons c put ih =>
    have hnot : ¬ w <+: (((c, none) :: (inserted put ++ xs) : List Traced)).map (·.1) := by
      intro hp
      have hslice := h _ (by
        show _ ∈ slices (·.1) w ((c, none) :: (inserted put ++ xs))
        rw [slices_of_starts hw hp]
        exact List.mem_cons_self)
      obtain ⟨d, v, rfl⟩ := List.exists_cons_of_ne_nil hw
      exact not_original_of_inserted hslice
    have hclean : Clean w (inserted put ++ xs) := by
      intro slice hslice
      apply h slice
      show slice ∈ slices (·.1) w ((c, none) :: (inserted put ++ xs))
      rw [slices_of_not_starts hnot]
      exact hslice
    obtain ⟨hreplace, hxs⟩ := ih hclean
    refine ⟨?_, hxs⟩
    show replace (·.1) w new ((c, none) :: (inserted put ++ xs)) = _
    rw [replace_of_not_starts hnot, hreplace]
    rfl

/-- A replacement that touches nothing that was put in hides its occurrences. -/
theorem replace_shownFrom {new : β → List Char} (hold : ∀ b, old b ≠ []) (b : β) (ps : List (Piece β)) (i : ℕ)
    (h : Clean (old b) (shownFrom old new i ps)) :
    replace (·.1) (old b) (inserted (new b)) (shownFrom old new i ps) = shownFrom old new i (hide old b ps) := by
  refine hide_induction b (hold b) (P := fun ps qs => ∀ i, Clean (old b) (shownFrom old new i ps) →
    replace (·.1) (old b) (inserted (new b)) (shownFrom old new i ps) = shownFrom old new i qs) ?_ ?_ ?_ ps i h
  · exact fun _ _ => rfl
  · intro qs ih i hclean
    have hfront : old b <+: (shownFrom old new i ((old b).map .kept ++ qs)).map (·.1) := by
      rw [shownFrom_kept_append, List.map_append, map_traceFrom]
      exact List.prefix_append _ _
    have hdrop : (shownFrom old new i ((old b).map .kept ++ qs)).drop (old b).length =
        shownFrom old new (i + (old b).length) qs := by
      rw [shownFrom_kept_append]
      exact List.drop_left' (length_traceFrom i _)
    rw [replace_of_starts (hold b) hfront, hdrop]
    show _ = inserted (new b) ++ shownFrom old new (i + (old b).length) (hide old b qs)
    rw [ih]
    intro slice hslice
    apply hclean slice
    rw [slices_of_starts (hold b) hfront, hdrop]
    exact List.mem_cons_of_mem _ hslice
  · intro p qs hmiss ih i hclean
    cases p with
    | block c =>
      obtain ⟨hreplace, hqs⟩ := replace_inserted (hold b) (new c) hclean
      show replace (·.1) (old b) (inserted (new b)) (inserted (new c) ++ _) = inserted (new c) ++ _
      rw [hreplace, ih _ hqs]
    | kept c =>
      have hnot : ¬ old b <+: (((c, some i) :: shownFrom old new (i + 1) qs : List Traced)).map (·.1) := by
        intro hp
        obtain ⟨k, hk⟩ := hclean _ (by
          show _ ∈ slices (·.1) (old b) ((c, some i) :: shownFrom old new (i + 1) qs)
          rw [slices_of_starts (hold b) hp]
          exact List.mem_cons_self)
        have htext : (((c, some i) :: shownFrom old new (i + 1) qs : List Traced).take (old b).length).map (·.1) = old b := by
          rw [List.map_take]
          exact (List.prefix_iff_eq_take.mp hp).symm
        rw [htext] at hk
        have hstarts : traceFrom k (old b) <+: shownFrom old new i (.kept c :: qs) := by
          rw [← hk]
          exact List.take_prefix _ _
        -- the slice begins at its place in the text
        have hplace : k = i := by
          obtain ⟨d, v, hdv⟩ := List.exists_cons_of_ne_nil (hold b)
          rw [hdv] at hstarts
          have hhead := (List.cons_prefix_cons.mp hstarts).1
          exact Option.some.inj (Prod.mk.inj hhead).2
        rw [hplace] at hstarts
        exact hmiss (prefix_run_of_trace hold hstarts)
      show replace (·.1) (old b) (inserted (new b)) ((c, some i) :: shownFrom old new (i + 1) qs) = _
      rw [replace_of_not_starts hnot, ih]
      · rfl
      · intro slice hslice
        apply hclean slice
        show slice ∈ slices (·.1) (old b) ((c, some i) :: shownFrom old new (i + 1) qs)
        rw [slices_of_not_starts hnot]
        exact hslice

/-! ## Which blocks a replacement adds -/

/-- An occurrence in the text that is not made of kept characters meets a block. -/
theorem exists_block_of_starts {w : List Char} {ps : List (Piece β)} (i : ℕ) (h : w <+: source old ps)
    (hrun : ¬ w <+: run ps) : ∃ k c, (k, c) ∈ blocksFrom old i ps ∧ i ≤ k ∧ k < i + w.length := by
  induction ps generalizing w i with
  | nil => exact absurd h hrun
  | cons p ps ih =>
    cases w with
    | nil => exact absurd List.nil_prefix hrun
    | cons d w =>
      cases p with
      | block c => exact ⟨i, c, List.mem_cons_self, le_refl i, by rw [List.length_cons]; omega⟩
      | kept c =>
        obtain ⟨hdc, hw⟩ := List.cons_prefix_cons.mp h
        obtain ⟨k, c', hk, hle, hlt⟩ := ih (i + 1) hw fun hp => hrun (List.cons_prefix_cons.mpr ⟨hdc, hp⟩)
        refine ⟨k, c', hk, by omega, ?_⟩
        rw [List.length_cons]
        omega

/-- Where the leftmost occurrences meet no block, they become blocks, and no others. -/
theorem mem_blocksFrom_hide_iff (hold : ∀ b, old b ≠ []) (b : β) (ps : List (Piece β)) (i : ℕ)
    (h : ∀ j ∈ leftmostFrom (old b) 0 i (source old ps), ∀ k c, (k, c) ∈ blocksFrom old i ps →
      j + (old b).length ≤ k ∨ k + (old c).length ≤ j) (j : ℕ) (c : β) :
    (j, c) ∈ blocksFrom old i (hide old b ps) ↔
      (j, c) ∈ blocksFrom old i ps ∨ (c = b ∧ j ∈ leftmostFrom (old b) 0 i (source old ps)) := by
  refine hide_induction b (hold b) (P := fun ps qs => ∀ i,
    (∀ j ∈ leftmostFrom (old b) 0 i (source old ps), ∀ k c, (k, c) ∈ blocksFrom old i ps →
      j + (old b).length ≤ k ∨ k + (old c).length ≤ j) →
    ((j, c) ∈ blocksFrom old i qs ↔
      (j, c) ∈ blocksFrom old i ps ∨ (c = b ∧ j ∈ leftmostFrom (old b) 0 i (source old ps)))) ?_ ?_ ?_ ps i h
  · intro i _
    exact ⟨Or.inl, fun h => h.elim id fun h => absurd h.2 (by simp [source, leftmostFrom])⟩
  · intro qs ih i hapart
    have hleft : leftmostFrom (old b) 0 i (source old ((old b).map .kept ++ qs)) =
        i :: leftmostFrom (old b) 0 (i + (old b).length) (source old qs) := by
      rw [source_kept_append, leftmostFrom_of_starts (hold b) (List.prefix_append _ _), List.drop_left]
    rw [hleft] at hapart ⊢
    rw [blocksFrom_kept_append] at hapart ⊢
    have hqs := ih _ fun k hk => hapart k (List.mem_cons_of_mem _ hk)
    show (j, c) ∈ (i, b) :: _ ↔ _
    rw [List.mem_cons, hqs, List.mem_cons, Prod.mk.injEq]
    tauto
  · intro p qs hmiss ih i hapart
    cases p with
    | block d =>
      have hskip : ∀ k ∈ leftmostFrom (old b) 0 i (old d ++ source old qs), i + (old d).length ≤ k := by
        intro k hk
        have hle := le_of_mem_leftmostFrom hk
        have hpos := List.length_pos_of_ne_nil (hold b)
        rcases hapart k hk i d List.mem_cons_self with h | h
        · omega
        · exact h
      have hleft : leftmostFrom (old b) 0 i (source old (.block d :: qs)) =
          leftmostFrom (old b) 0 (i + (old d).length) (source old qs) := leftmostFrom_append (hold b) _ _ hskip
      rw [hleft] at hapart ⊢
      have hqs := ih _ fun k hk l e hl => hapart k hk l e (List.mem_cons_of_mem _ hl)
      show (j, c) ∈ (i, d) :: _ ↔ (j, c) ∈ (i, d) :: _ ∨ _
      rw [List.mem_cons, List.mem_cons, hqs, or_assoc]
    | kept d =>
      have hnot : ¬ old b <+: d :: source old qs := by
        intro hp
        have hsource : old b <+: source old (.kept d :: qs) := hp
        obtain ⟨k, e, hk, hle, hlt⟩ := exists_block_of_starts i hsource hmiss
        have hmem : i ∈ leftmostFrom (old b) 0 i (source old (.kept d :: qs)) := by
          show i ∈ leftmostFrom (old b) 0 i (d :: source old qs)
          rw [leftmostFrom_of_starts (hold b) hp]
          exact List.mem_cons_self
        have hpos := List.length_pos_of_ne_nil (hold e)
        rcases hapart i hmem k e hk with h | h
        · omega
        · omega
      have hleft : leftmostFrom (old b) 0 i (source old (.kept d :: qs)) =
          leftmostFrom (old b) 0 (i + 1) (source old qs) := leftmostFrom_of_not_starts hnot
      rw [hleft] at hapart ⊢
      exact ih (i + 1) hapart

/-! ## Places -/

theorem le_of_mem_blocksFrom {i j : ℕ} {c : β} {ps : List (Piece β)} (h : (j, c) ∈ blocksFrom old i ps) : i ≤ j := by
  induction ps generalizing i with
  | nil => cases h
  | cons p ps ih =>
    cases p with
    | kept d =>
      have hle := ih (i := i + 1) h
      omega
    | block b =>
      rcases List.mem_cons.mp h with h | h
      · have hji := (Prod.mk.inj h).1
        omega
      · have hle := ih h
        omega

theorem exists_mem_blocksFrom (i : ℕ) {b : β} {ps : List (Piece β)} (h : .block b ∈ ps) :
    ∃ j, (j, b) ∈ blocksFrom old i ps := by
  induction ps generalizing i with
  | nil => cases h
  | cons p ps ih =>
    rcases List.mem_cons.mp h with rfl | hmem
    · exact ⟨i, List.mem_cons_self⟩
    · cases p with
      | kept c => exact ih (i + 1) hmem
      | block c =>
        obtain ⟨j, hj⟩ := ih (i + (old c).length) hmem
        exact ⟨j, List.mem_cons_of_mem _ hj⟩

/-- A block stands for an occurrence of its text. -/
theorem prefix_of_mem_blocksFrom {i j : ℕ} {c : β} {ps : List (Piece β)} (h : (j, c) ∈ blocksFrom old i ps) :
    old c <+: (source old ps).drop (j - i) := by
  induction ps generalizing i with
  | nil => cases h
  | cons p ps ih =>
    cases p with
    | kept d =>
      have hle := le_of_mem_blocksFrom (i := i + 1) h
      have hsub : j - i = (j - (i + 1)) + 1 := by omega
      rw [hsub]
      exact ih h
    | block b =>
      rcases List.mem_cons.mp h with h | h
      · obtain ⟨rfl, rfl⟩ := Prod.mk.inj h
        rw [Nat.sub_self]
        exact List.prefix_append _ _
      · have hle := le_of_mem_blocksFrom h
        have hsub : j - i = (old b).length + (j - (i + (old b).length)) := by omega
        show old c <+: (old b ++ source old ps).drop (j - i)
        rw [hsub, ← List.drop_drop, List.drop_left]
        exact ih h

/-- Two blocks do not overlap. -/
theorem blocksFrom_apart {i j k : ℕ} {b c : β} {ps : List (Piece β)} (hj : (j, b) ∈ blocksFrom old i ps)
    (hk : (k, c) ∈ blocksFrom old i ps) :
    (j = k ∧ b = c) ∨ j + (old b).length ≤ k ∨ k + (old c).length ≤ j := by
  induction ps generalizing i with
  | nil => cases hj
  | cons p ps ih =>
    cases p with
    | kept d => exact ih hj hk
    | block d =>
      rcases List.mem_cons.mp hj with hj | hj
      · obtain ⟨rfl, rfl⟩ := Prod.mk.inj hj
        rcases List.mem_cons.mp hk with hk | hk
        · obtain ⟨rfl, rfl⟩ := Prod.mk.inj hk
          exact Or.inl ⟨rfl, rfl⟩
        · exact Or.inr (Or.inl (le_of_mem_blocksFrom hk))
      · rcases List.mem_cons.mp hk with hk | hk
        · obtain ⟨rfl, rfl⟩ := Prod.mk.inj hk
          exact Or.inr (Or.inr (le_of_mem_blocksFrom hj))
        · exact ih hj hk

/-- The text and the blocks determine the pieces. -/
theorem eq_of_blocksFrom (hold : ∀ b, old b ≠ []) {i : ℕ} {ps qs : List (Piece β)} (hsource : source old ps = source old qs)
    (h : ∀ j c, (j, c) ∈ blocksFrom old i ps ↔ (j, c) ∈ blocksFrom old i qs) : ps = qs := by
  induction ps generalizing i qs with
  | nil =>
    cases qs with
    | nil => rfl
    | cons q qs =>
      cases q with
      | kept d => cases hsource
      | block b => exact absurd ((h i b).mpr List.mem_cons_self) List.not_mem_nil
  | cons p ps ih =>
    have hblock : ∀ {b : β} {rs : List (Piece β)} {d : Char}, ¬ (i, b) ∈ blocksFrom old i (.kept d :: rs) := by
      intro b rs d hmem
      have hle := le_of_mem_blocksFrom (i := i + 1) hmem
      omega
    have hlater : ∀ {b c : β} {rs : List (Piece β)}, ¬ (i, c) ∈ blocksFrom old (i + (old b).length) rs := by
      intro b c rs hmem
      have hle := le_of_mem_blocksFrom hmem
      have hpos := List.length_pos_of_ne_nil (hold b)
      omega
    cases p with
    | kept c =>
      cases qs with
      | nil => cases hsource
      | cons q qs =>
        cases q with
        | block b => exact absurd ((h i b).mpr List.mem_cons_self) hblock
        | kept d =>
          obtain ⟨hcd, htail⟩ := List.cons.inj hsource
          rw [hcd, ih (i := i + 1) htail h]
    | block b =>
      cases qs with
      | nil => exact absurd ((h i b).mp List.mem_cons_self) List.not_mem_nil
      | cons q qs =>
        cases q with
        | kept d => exact absurd ((h i b).mp List.mem_cons_self) hblock
        | block c =>
          have hbc : b = c := by
            rcases List.mem_cons.mp ((h i b).mp List.mem_cons_self) with heq | hmem
            · exact (Prod.mk.inj heq).2
            · exact absurd hmem hlater
          subst hbc
          have htail : source old ps = source old qs := List.append_cancel_left hsource
          rw [ih (i := i + (old b).length) htail]
          intro j c
          have hjc := h j c
          change (j, c) ∈ (i, b) :: blocksFrom old (i + (old b).length) ps ↔
            (j, c) ∈ (i, b) :: blocksFrom old (i + (old b).length) qs at hjc
          rw [List.mem_cons, List.mem_cons] at hjc
          constructor
          · intro hmem
            rcases hjc.mp (Or.inr hmem) with heq | hmem'
            · rw [(Prod.mk.inj heq).1] at hmem
              exact absurd hmem hlater
            · exact hmem'
          · intro hmem
            rcases hjc.mpr (Or.inr hmem) with heq | hmem'
            · rw [(Prod.mk.inj heq).1] at hmem
              exact absurd hmem hlater
            · exact hmem'

/-- The places of the text that a list shows. -/
def places (xs : List Traced) : List ℕ := xs.filterMap (·.2)

theorem places_inserted (put : List Char) : places (inserted put) = [] := by
  unfold places inserted
  rw [List.filterMap_map]
  exact List.filterMap_eq_nil_iff.mpr fun _ _ => rfl

theorem places_shownFrom_kept (new : β → List Char) (i : ℕ) (c : Char) (ps : List (Piece β)) :
    places (shownFrom old new i (.kept c :: ps)) = i :: places (shownFrom old new (i + 1) ps) := rfl

theorem places_shownFrom_block (new : β → List Char) (i : ℕ) (b : β) (ps : List (Piece β)) :
    places (shownFrom old new i (.block b :: ps)) = places (shownFrom old new (i + (old b).length) ps) := by
  show places (inserted (new b) ++ _) = _
  have hinserted := places_inserted (new b)
  unfold places at hinserted ⊢
  rw [List.filterMap_append, hinserted, List.nil_append]

/-- A place is shown if no block hides it. -/
theorem mem_places_shownFrom (new : β → List Char) (i j : ℕ) (ps : List (Piece β)) :
    j ∈ places (shownFrom old new i ps) ↔ i ≤ j ∧ j < i + (source old ps).length ∧
      ∀ k c, (k, c) ∈ blocksFrom old i ps → ¬ (k ≤ j ∧ j < k + (old c).length) := by
  induction ps generalizing i with
  | nil =>
    show j ∈ [] ↔ i ≤ j ∧ j < i + 0 ∧ _
    constructor
    · intro h
      cases h
    · rintro ⟨hle, hlt, -⟩
      omega
  | cons p ps ih =>
    cases p with
    | kept d =>
      rw [places_shownFrom_kept, List.mem_cons, ih]
      show _ ↔ i ≤ j ∧ j < i + (d :: source old ps).length ∧ ∀ k c, (k, c) ∈ blocksFrom old (i + 1) ps → _
      rw [List.length_cons]
      constructor
      · rintro (rfl | ⟨hle, hlt, hfree⟩)
        · refine ⟨le_refl j, by omega, fun k c hk hin => ?_⟩
          have hle := le_of_mem_blocksFrom hk
          omega
        · exact ⟨by omega, by omega, hfree⟩
      · rintro ⟨hle, hlt, hfree⟩
        by_cases hji : j = i
        · exact Or.inl hji
        · exact Or.inr ⟨by omega, by omega, hfree⟩
    | block b =>
      rw [places_shownFrom_block, ih]
      show _ ↔ i ≤ j ∧ j < i + (old b ++ source old ps).length ∧
        ∀ k c, (k, c) ∈ (i, b) :: blocksFrom old (i + (old b).length) ps → _
      rw [List.length_append]
      constructor
      · rintro ⟨hle, hlt, hfree⟩
        refine ⟨by omega, by omega, fun k c hk hin => ?_⟩
        rcases List.mem_cons.mp hk with hk | hk
        · obtain ⟨rfl, rfl⟩ := Prod.mk.inj hk
          omega
        · exact hfree k c hk hin
      · rintro ⟨hle, hlt, hfree⟩
        have hfirst := hfree i b List.mem_cons_self
        exact ⟨by omega, by omega, fun k c hk => hfree k c (List.mem_cons_of_mem _ hk)⟩

/-- The places are shown in their order. -/
theorem nodup_places_shownFrom (new : β → List Char) (i : ℕ) (ps : List (Piece β)) :
    (places (shownFrom old new i ps)).Nodup := by
  induction ps generalizing i with
  | nil => exact List.nodup_nil
  | cons p ps ih =>
    cases p with
    | kept d =>
      rw [places_shownFrom_kept, List.nodup_cons]
      refine ⟨fun h => ?_, ih (i + 1)⟩
      have hle := ((mem_places_shownFrom new (i + 1) i ps).mp h).1
      omega
    | block b =>
      rw [places_shownFrom_block]
      exact ih _

/-! ## Texts that are gone -/

/-- The text does not stand among the kept characters. -/
def Free (w : List Char) (ps : List (Piece β)) : Prop := ∀ qs, qs <:+ ps → ¬ w <+: run qs

theorem run_hide_prefix (hold : ∀ b, old b ≠ []) (b : β) (ps : List (Piece β)) : run (hide old b ps) <+: run ps := by
  refine hide_induction b (hold b) (P := fun ps qs => run qs <+: run ps) ?_ ?_ ?_ ps
  · exact List.prefix_refl []
  · exact fun qs _ => List.nil_prefix
  · intro p qs _ ih
    cases p with
    | kept c => exact List.cons_prefix_cons.mpr ⟨rfl, ih⟩
    | block c => exact List.nil_prefix

theorem Free.tail {w : List Char} {p : Piece β} {ps : List (Piece β)} (h : Free w (p :: ps)) : Free w ps :=
  fun qs hqs => h qs (hqs.trans (List.suffix_cons p ps))

theorem Free.cons {w : List Char} {p : Piece β} {ps : List (Piece β)} (h : Free w ps) (hp : ¬ w <+: run (p :: ps)) :
    Free w (p :: ps) := by
  intro qs hqs
  rcases List.suffix_cons_iff.mp hqs with rfl | hqs
  · exact hp
  · exact h qs hqs

theorem Free.nil {w : List Char} (hw : w ≠ []) : Free w ([] : List (Piece β)) := by
  intro qs hqs hp
  rw [List.suffix_nil.mp hqs] at hp
  exact hw (List.prefix_nil.mp hp)

/-- After a replacement the text is gone. -/
theorem free_hide_self (hold : ∀ b, old b ≠ []) (b : β) (ps : List (Piece β)) : Free (old b) (hide old b ps) := by
  refine hide_induction b (hold b) (P := fun _ qs => Free (old b) qs) ?_ ?_ ?_ ps
  · exact Free.nil (hold b)
  · exact fun qs ih => ih.cons fun hp => hold b (List.prefix_nil.mp hp)
  · intro p qs hmiss ih
    refine ih.cons fun hp => hmiss (hp.trans ?_)
    cases p with
    | kept c => exact List.cons_prefix_cons.mpr ⟨rfl, run_hide_prefix hold b qs⟩
    | block c => exact List.prefix_refl _

/-- A text that is gone stays so. -/
theorem Free.hide (hold : ∀ b, old b ≠ []) {w : List Char} (hw : w ≠ []) {ps : List (Piece β)} (h : Free w ps) (b : β) :
    Free w (hide old b ps) := by
  refine hide_induction b (hold b) (P := fun ps qs => Free w ps → Free w qs) ?_ ?_ ?_ ps h
  · exact fun h => h
  · intro qs ih h
    have hqs : Free w qs := fun rs hrs => h rs (hrs.trans (List.suffix_append _ _))
    exact (ih hqs).cons fun hp => hw (List.prefix_nil.mp hp)
  · intro p qs _ ih h
    refine (ih h.tail).cons fun hp => h _ (List.suffix_refl _) (hp.trans ?_)
    cases p with
    | kept c => exact List.cons_prefix_cons.mpr ⟨rfl, run_hide_prefix hold b qs⟩
    | block c => exact List.prefix_refl _

/-- A text is gone if a part of it is. -/
theorem Free.of_within {w v : List Char} {ps : List (Piece β)} (h : Free w ps) (hwv : w <:+: v) : Free v ps := by
  obtain ⟨s, t, rfl⟩ := hwv
  intro qs hqs hp
  refine h (qs.drop s.length) ((List.drop_suffix _ _).trans hqs) ?_
  rw [List.append_assoc] at hp
  have hs := eq_kept_append ((List.prefix_append s (w ++ t)).trans hp)
  rw [hs, run_kept_append, List.prefix_append_right_inj] at hp
  exact (List.prefix_append w t).trans hp

/-- There is nothing to hide where the text is gone. -/
theorem hide_of_free {b : β} {ps : List (Piece β)} (h : Free (old b) ps) : Replace.hide old b ps = ps := by
  induction ps with
  | nil => rfl
  | cons p ps ih => rw [hide_of_not_starts (h _ (List.suffix_refl _)), ih h.tail]

end Pieces

end Galaxz.Replace
