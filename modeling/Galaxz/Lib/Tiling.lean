import Galaxz.Lib.Replace

/-!
# Cuts of a text

Two ways to cut the same text into the same kept characters and blocks are compared block by block. Where the
blocks of one stand for texts that contain none of each other, it has at least as many blocks as the other,
and as many only if both are the same cut.
-/

namespace Galaxz.Replace

variable {β : Type} {old : β → List Char}

/-! ## Marks -/

section Marks

variable {new : β → List Char} {w : List Char}

/-- What is shown begins with a text that shares no character with the marks only where it is kept. -/
theorem prefix_run_of_shown (hnew : ∀ b, new b ≠ []) (hapart : ∀ b, ∀ c ∈ w, c ∉ new b) {i : ℕ} {ps : List (Piece β)}
    (h : w <+: (shownFrom old new i ps).map (·.1)) : w <+: run ps := by
  induction w generalizing i ps with
  | nil => exact List.nil_prefix
  | cons c w ih =>
    cases ps with
    | nil => exact absurd (List.prefix_nil.mp h) (List.cons_ne_nil c w)
    | cons p ps =>
      cases p with
      | kept d =>
        obtain ⟨hcd, hw⟩ := List.cons_prefix_cons.mp h
        exact List.cons_prefix_cons.mpr ⟨hcd, ih (fun b e he => hapart b e (List.mem_cons_of_mem c he)) hw⟩
      | block b =>
        obtain ⟨d, m, hd⟩ := List.exists_cons_of_ne_nil (hnew b)
        have hshown : (shownFrom old new i (.block b :: ps)).map (·.1) =
            d :: (m ++ (shownFrom old new (i + (old b).length) ps).map (·.1)) := by
          show (inserted (new b) ++ _).map _ = _
          rw [List.map_append, inserted, List.map_map, hd]
          show d :: (m.map id ++ _) = _
          rw [List.map_id]
        rw [hshown] at h
        have hcd := (List.cons_prefix_cons.mp h).1
        have hmem : c ∈ new b := by
          rw [hd, hcd]
          exact List.mem_cons_self
        exact absurd hmem (hapart b c List.mem_cons_self)

/-- Marks take no part in an occurrence of a text with which they share no character. -/
theorem clean_of_apart (hold : ∀ b, old b ≠ []) (hnew : ∀ b, new b ≠ []) {b : β} (hapart : ∀ c, ∀ d ∈ old b, d ∉ new c)
    (i : ℕ) (ps : List (Piece β)) : Clean (old b) (shownFrom old new i ps) := by
  have hmark : ∀ (put : List Char) (xs : List Traced), (∀ d ∈ old b, d ∉ put) →
      slices (·.1) (old b) (inserted put ++ xs) = slices (·.1) (old b) xs := by
    intro put xs
    induction put with
    | nil => exact fun _ => rfl
    | cons c put ih =>
      intro hput
      have hnot : ¬ old b <+: (((c, none) :: (inserted put ++ xs) : List Traced)).map (·.1) := by
        intro hp
        obtain ⟨d, v, hdv⟩ := List.exists_cons_of_ne_nil (hold b)
        rw [hdv] at hp hput
        have hcd : d = c := (List.cons_prefix_cons.mp hp).1
        exact hput d List.mem_cons_self (hcd ▸ List.mem_cons_self)
      show slices (·.1) (old b) ((c, none) :: (inserted put ++ xs)) = _
      rw [slices_of_not_starts hnot]
      exact ih fun d hd hmem => hput d hd (List.mem_cons_of_mem c hmem)
  refine hide_induction b (hold b) (P := fun ps _ => ∀ i, Clean (old b) (shownFrom old new i ps)) ?_ ?_ ?_ ps i
  · intro i slice hslice
    cases hslice
  · intro qs ih i slice hslice
    have hfront : old b <+: (shownFrom old new i ((old b).map .kept ++ qs)).map (·.1) := by
      rw [shownFrom_kept_append, List.map_append, map_traceFrom]
      exact List.prefix_append _ _
    rw [slices_of_starts (hold b) hfront, shownFrom_kept_append, List.drop_left' (length_traceFrom i _),
      List.take_left' (length_traceFrom i _)] at hslice
    rcases List.mem_cons.mp hslice with rfl | hslice
    · exact ⟨i, by rw [map_traceFrom]⟩
    · exact ih _ slice hslice
  · intro p qs hmiss ih i slice hslice
    cases p with
    | kept c =>
      have hnot : ¬ old b <+: (shownFrom old new i (.kept c :: qs)).map (·.1) := fun hp =>
        hmiss (prefix_run_of_shown hnew hapart hp)
      have hstep := slices_of_not_starts hnot
      exact ih (i + 1) slice (hstep ▸ hslice)
    | block c =>
      have hstep := hmark (new c) (shownFrom old new (i + (old c).length) qs) (hapart c)
      exact ih _ slice (hstep ▸ hslice)

theorem infix_of_infix_append {u v : List Char} (hw : w ≠ []) (hu : ∀ c ∈ w, c ∉ u) (h : w <:+: u ++ v) : w <:+: v := by
  induction u with
  | nil => exact h
  | cons c u ih =>
    rcases List.infix_cons_iff.mp h with h | h
    · obtain ⟨d, t, rfl⟩ := List.exists_cons_of_ne_nil hw
      have hdc : d = c := (List.cons_prefix_cons.mp h).1
      exact absurd (hdc ▸ List.mem_cons_self) (hu d List.mem_cons_self)
    · exact ih (fun d hd hmem => hu d hd (List.mem_cons_of_mem c hmem)) h

/-- A text that is gone, and shares no character with the marks, is not shown. -/
theorem not_infix_of_free (hw : w ≠ []) (hnew : ∀ b, new b ≠ []) (hapart : ∀ b, ∀ c ∈ w, c ∉ new b) {i : ℕ}
    {ps : List (Piece β)} (h : Free w ps) : ¬ w <:+: (shownFrom old new i ps).map (·.1) := by
  induction ps generalizing i with
  | nil => exact fun hin => hw (List.eq_nil_of_infix_nil hin)
  | cons p ps ih =>
    intro hin
    cases p with
    | kept c =>
      rcases List.infix_cons_iff.mp hin with hp | hin
      · have hshown : w <+: (shownFrom old new i (.kept c :: ps)).map (·.1) := hp
        exact h _ (List.suffix_refl _) (prefix_run_of_shown hnew hapart hshown)
      · exact ih h.tail hin
    | block b =>
      have happend : (shownFrom old new i (.block b :: ps)).map (·.1) =
          new b ++ (shownFrom old new (i + (old b).length) ps).map (·.1) := by
        show (inserted (new b) ++ _).map _ = _
        rw [List.map_append, inserted, List.map_map]
        show (new b).map id ++ _ = _
        rw [List.map_id]
      rw [happend] at hin
      exact ih h.tail (infix_of_infix_append hw (hapart b) hin)

end Marks

/-! ## Two cuts of a text -/

/-- The characters, each with whether it is kept. -/
def cells (old : β → List Char) : List (Piece β) → List (Char × Bool)
  | [] => []
  | .kept c :: ps => (c, true) :: cells old ps
  | .block b :: ps => (old b).map (·, false) ++ cells old ps

def blockCount : List (Piece β) → ℕ
  | [] => 0
  | .kept _ :: ps => blockCount ps
  | .block _ :: ps => blockCount ps + 1

/-- Hidden characters, one list of them before the other. -/
theorem hidden_append {u v : List Char} {xs ys : List (Char × Bool)}
    (h : u.map (·, false) ++ xs = v.map (·, false) ++ ys) :
    (∃ t, v = u ++ t ∧ xs = t.map (·, false) ++ ys) ∨ (∃ t, u = v ++ t ∧ ys = t.map (·, false) ++ xs) := by
  have hinj : Function.Injective (fun c : Char => (c, false)) := fun a b hab => (Prod.mk.inj hab).1
  rcases List.append_eq_append_iff.mp h with ⟨t, hv, hxs⟩ | ⟨t, hu, hys⟩
  · obtain ⟨u', t', hv', hu', ht'⟩ := List.map_eq_append_iff.mp hv
    have huu : u' = u := hinj.list_map hu'
    exact Or.inl ⟨t', huu ▸ hv', ht' ▸ hxs⟩
  · obtain ⟨v', t', hu', hv', ht'⟩ := List.map_eq_append_iff.mp hu
    have hvv : v' = v := hinj.list_map hv'
    exact Or.inr ⟨t', hvv ▸ hu', ht' ▸ hys⟩

/-- Where hidden characters come next, so does a block. -/
theorem exists_block_of_cells {u : List Char} (hu : u ≠ []) {xs : List (Piece β)} {cs : List (Char × Bool)}
    (h : cells old xs = u.map (·, false) ++ cs) : ∃ b ps, xs = .block b :: ps := by
  obtain ⟨c, t, rfl⟩ := List.exists_cons_of_ne_nil hu
  cases xs with
  | nil => cases h
  | cons x xs =>
    cases x with
    | block b => exact ⟨b, xs, rfl⟩
    | kept d =>
      have hhead := (List.cons.inj h).1
      cases hhead

section Compare

variable {M : β → Prop}

/-- The blocks of the first cut contain none of each other, those of the second contain one of them. -/
structure Comparable (old : β → List Char) (M : β → Prop) (xs ys : List (Piece β)) : Prop where
  minimal : ∀ b, .block b ∈ xs → M b
  contains : ∀ b, .block b ∈ ys → ∃ s, M s ∧ old s <:+: old b

theorem Comparable.left {p : Piece β} {xs ys : List (Piece β)} (h : Comparable old M (p :: xs) ys) :
    Comparable old M xs ys :=
  ⟨fun b hb => h.minimal b (List.mem_cons_of_mem p hb), h.contains⟩

theorem Comparable.right {p : Piece β} {xs ys : List (Piece β)} (h : Comparable old M xs (p :: ys)) :
    Comparable old M xs ys :=
  ⟨h.minimal, fun b hb => h.contains b (List.mem_cons_of_mem p hb)⟩

/-- The first cut has more blocks where the second is ahead, no fewer where it is ahead itself, and as many only
if both are the same where they are side by side. -/
theorem compare_cuts (hold : ∀ b, old b ≠ []) (hinj : Function.Injective old)
    (hM : ∀ s t, M s → M t → old s <:+: old t → s = t) (n : ℕ) :
    ∀ xs ys : List (Piece β), xs.length + ys.length = n → Comparable old M xs ys →
      (cells old xs = cells old ys → blockCount ys ≤ blockCount xs ∧ (blockCount ys = blockCount xs → xs = ys)) ∧
      (∀ u, u ≠ [] → cells old xs = u.map (·, false) ++ cells old ys → blockCount ys < blockCount xs) ∧
      (∀ u s, u ≠ [] → M s → u <:+ old s → u ≠ old s → u.map (·, false) ++ cells old xs = cells old ys →
        blockCount ys ≤ blockCount xs) := by
  induction n using Nat.strong_induction_on with
  | _ n ih =>
    intro xs ys hlength hcomp
    -- a text of the second cut does not fit into a part of a text of the first
    have hfit : ∀ b s u, .block b ∈ ys → M s → u <:+ old s → u ≠ old s → ¬ old b <:+: u := by
      intro b s u hb hs hu hne hbu
      obtain ⟨t, ht, htb⟩ := hcomp.contains b hb
      have hts := hM t s ht hs (htb.trans (hbu.trans hu.isInfix))
      subst hts
      exact hne (hu.eq_of_length_le (htb.trans hbu).length_le)
    refine ⟨?_, ?_, ?_⟩
    · -- side by side
      intro hcells
      cases xs with
      | nil =>
        cases ys with
        | nil => exact ⟨le_refl _, fun _ => rfl⟩
        | cons y ys =>
          cases y with
          | kept c => cases hcells
          | block b =>
            have hnil := (List.append_eq_nil_iff.mp hcells.symm).1
            exact absurd (List.map_eq_nil_iff.mp hnil) (hold b)
      | cons x xs =>
        cases x with
        | kept c =>
          cases ys with
          | nil => cases hcells
          | cons y ys =>
            cases y with
            | block b =>
              obtain ⟨_, _, hxs⟩ := exists_block_of_cells (hold b) hcells
              cases hxs
            | kept d =>
              obtain ⟨hcd, htail⟩ := List.cons.inj hcells
              have hsmall : xs.length + ys.length < n := by
                rw [← hlength, List.length_cons, List.length_cons]
                omega
              obtain ⟨hle, heq⟩ := (ih _ hsmall xs ys rfl hcomp.left.right).1 htail
              exact ⟨hle, fun h => by rw [heq h, (Prod.mk.inj hcd).1]⟩
        | block s =>
          obtain ⟨b, ys', rfl⟩ := exists_block_of_cells (hold s) hcells.symm
          have hsmall : xs.length + ys'.length < n := by
            rw [← hlength, List.length_cons, List.length_cons]
            omega
          have hrest := ih _ hsmall xs ys' rfl hcomp.left.right
          have hs := hcomp.minimal s List.mem_cons_self
          change (old s).map (·, false) ++ cells old xs = (old b).map (·, false) ++ cells old ys' at hcells
          show blockCount ys' + 1 ≤ blockCount xs + 1 ∧ (blockCount ys' + 1 = blockCount xs + 1 → _)
          rcases hidden_append hcells with ⟨t, hb, hxs⟩ | ⟨t, hs', hys⟩
          · by_cases ht : t = []
            · subst ht
              rw [List.append_nil] at hb
              obtain ⟨hle, heq⟩ := hrest.1 hxs
              refine ⟨by omega, fun h => ?_⟩
              rw [heq (by omega), hinj hb]
            · have hlt := hrest.2.1 t ht hxs
              exact ⟨by omega, fun h => by omega⟩
          · by_cases ht : t = []
            · subst ht
              rw [List.append_nil] at hs'
              obtain ⟨hle, heq⟩ := hrest.1 hys.symm
              refine ⟨by omega, fun h => ?_⟩
              rw [heq (by omega), hinj hs']
            · -- the block of the second cut contains a text of the first, which is then `old s`
              obtain ⟨m, hm, hmb⟩ := hcomp.contains b List.mem_cons_self
              have hbs : old b <:+: old s := by
                rw [hs']
                exact (List.prefix_append _ _).isInfix
              have hms := hM m s hm hs (hmb.trans hbs)
              subst hms
              have hlen := hmb.length_le
              rw [hs', List.length_append] at hlen
              have hpos := List.length_pos_of_ne_nil ht
              omega
    · -- the second cut is ahead
      intro u hu hcells
      obtain ⟨s, xs', rfl⟩ := exists_block_of_cells hu hcells
      have hsmall : xs'.length + ys.length < n := by
        rw [← hlength, List.length_cons]
        omega
      have hrest := ih _ hsmall xs' ys rfl hcomp.left
      have hs := hcomp.minimal s List.mem_cons_self
      change (old s).map (·, false) ++ cells old xs' = u.map (·, false) ++ cells old ys at hcells
      show blockCount ys < blockCount xs' + 1
      rcases hidden_append hcells with ⟨t, hut, hxs⟩ | ⟨t, hst, hys⟩
      · by_cases ht : t = []
        · subst ht
          have hle := (hrest.1 hxs).1
          omega
        · have hlt := hrest.2.1 t ht hxs
          omega
      · by_cases ht : t = []
        · subst ht
          have hle := (hrest.1 hys.symm).1
          omega
        · have hsuffix : t <:+ old s := ⟨u, hst.symm⟩
          have hne : t ≠ old s := by
            intro heq
            have hlen := congrArg List.length hst
            rw [List.length_append, ← heq] at hlen
            have hpos := List.length_pos_of_ne_nil hu
            omega
          have hle := hrest.2.2 t s ht hs hsuffix hne hys.symm
          omega
    · -- the first cut is ahead
      intro u s hu hs hsuffix hne hcells
      obtain ⟨b, ys', rfl⟩ := exists_block_of_cells hu hcells.symm
      have hsmall : xs.length + ys'.length < n := by
        rw [← hlength, List.length_cons]
        omega
      have hrest := ih _ hsmall xs ys' rfl hcomp.right
      change u.map (·, false) ++ cells old xs = (old b).map (·, false) ++ cells old ys' at hcells
      show blockCount ys' + 1 ≤ blockCount xs
      rcases hidden_append hcells with ⟨t, hbt, hxs⟩ | ⟨t, hut, -⟩
      · by_cases ht : t = []
        · subst ht
          rw [List.append_nil] at hbt
          exact absurd (hbt ▸ List.infix_refl u) (hfit b s u List.mem_cons_self hs hsuffix hne)
        · exact hrest.2.1 t ht hxs
      · have hbu : old b <:+: u := by
          rw [hut]
          exact (List.prefix_append _ _).isInfix
        exact absurd hbu (hfit b s u List.mem_cons_self hs hsuffix hne)

/-- A cut with as many blocks as one whose blocks contain none of each other is the same cut. -/
theorem eq_of_blockCount (hold : ∀ b, old b ≠ []) (hinj : Function.Injective old)
    (hM : ∀ s t, M s → M t → old s <:+: old t → s = t) {xs ys : List (Piece β)} (hcomp : Comparable old M xs ys)
    (hcells : cells old xs = cells old ys) (hcount : blockCount ys = blockCount xs) : xs = ys :=
  ((compare_cuts hold hinj hM _ xs ys rfl hcomp).1 hcells).2 hcount

end Compare

end Galaxz.Replace
