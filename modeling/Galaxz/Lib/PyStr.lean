import Mathlib.Data.List.DropRight

/-!
# Python strings

The `str` operations the modelled code uses, over code points.
-/

namespace Galaxz

/-- `str.isspace` for one character: the code points that `strip()` removes and `\s` matches. -/
def isPySpace (c : Char) : Bool :=
  let n := c.toNat
  (9 ≤ n && n ≤ 13) || (28 ≤ n && n ≤ 32) || n == 0x85 || n == 0xa0 || n == 0x1680 ||
    (0x2000 ≤ n && n ≤ 0x200a) || n == 0x2028 || n == 0x2029 || n == 0x202f || n == 0x205f ||
    n == 0x3000

/-- `strip` on the list of characters. -/
def stripChars (cs : List Char) : List Char := (cs.dropWhile isPySpace).rdropWhile isPySpace

/-- `value.strip()`. -/
def strip (s : String) : String := String.ofList (stripChars s.toList)

/-- A list whose front needs no dropping still needs none after its end is cut. -/
theorem dropWhile_rdropWhile {α : Type} (p : α → Bool) (xs : List α) (h : xs.dropWhile p = xs) :
    (xs.rdropWhile p).dropWhile p = xs.rdropWhile p := by
  rw [List.dropWhile_eq_self_iff] at h ⊢
  intro hl
  -- what is left is a prefix, so its first element is the first element of `xs`
  have hpre : xs.rdropWhile p <+: xs := List.rdropWhile_prefix p xs
  rw [hpre.getElem hl]
  exact h (hl.trans_le hpre.length_le)

/-- Stripping is idempotent. -/
theorem strip_strip (s : String) : strip (strip s) = strip s := by
  unfold strip stripChars
  rw [String.toList_ofList, dropWhile_rdropWhile _ _ (List.dropWhile_idempotent _ _),
    List.rdropWhile_idempotent]

/-- Text without a space at either end is left as it is. -/
theorem stripChars_eq_self {cs : List Char} (hhead : ∀ c, cs.head? = some c → isPySpace c = false)
    (hlast : ∀ c, cs.getLast? = some c → isPySpace c = false) : stripChars cs = cs := by
  have hfront : cs.dropWhile isPySpace = cs := by
    cases cs with
    | nil => rfl
    | cons c cs =>
      have hc := hhead c rfl
      rw [List.dropWhile_cons_of_neg (by simp [hc])]
  unfold stripChars
  rw [hfront, List.rdropWhile_eq_self_iff]
  intro hne hspace
  rw [hlast _ (List.getLast?_eq_some_getLast hne)] at hspace
  cases hspace

/-- Text that starts with a character that is no space is not blank. -/
theorem strip_ne_empty {s : String} {c : Char} (hhead : s.toList.head? = some c)
    (hc : isPySpace c = false) : strip s ≠ "" := by
  intro h
  have hnil : stripChars s.toList = [] := by
    have htext := congrArg String.toList h
    unfold strip at htext
    rw [String.toList_ofList] at htext
    exact htext
  cases hs : s.toList with
  | nil =>
    rw [hs] at hhead
    cases hhead
  | cons d ds =>
    rw [hs] at hhead hnil
    obtain rfl : d = c := Option.some.inj hhead
    unfold stripChars at hnil
    rw [List.dropWhile_cons_of_neg (by simp [hc]), List.rdropWhile_eq_nil_iff] at hnil
    have hspace := hnil d List.mem_cons_self
    rw [hc] at hspace
    cases hspace

/-- A space at the end goes. -/
theorem stripChars_concat {cs : List Char} {c : Char} (hhead : ∀ d, cs.head? = some d → isPySpace d = false)
    (hne : cs ≠ []) (hc : isPySpace c = true) : stripChars (cs ++ [c]) = stripChars cs := by
  obtain ⟨d, ds, rfl⟩ := List.exists_cons_of_ne_nil hne
  have hd : ¬ isPySpace d = true := by
    rw [hhead d rfl]
    decide
  unfold stripChars
  rw [List.cons_append, List.dropWhile_cons_of_neg hd, List.dropWhile_cons_of_neg hd, ← List.cons_append,
    List.rdropWhile_concat_pos _ _ _ hc]

/-! ## Separators -/

/-- A separator that the ends do not hold cuts a list in one way. -/
theorem append_cons_inj {α : Type} {x : α} {l l' r r' : List α} (hr : x ∉ r) (hr' : x ∉ r')
    (h : l ++ x :: r = l' ++ x :: r') : l = l' ∧ r = r' := by
  rcases List.append_eq_append_iff.mp h with ⟨m, rfl, hm⟩ | ⟨m, rfl, hm⟩
  · cases m with
    | nil =>
      rw [List.nil_append, List.cons.injEq] at hm
      exact ⟨(List.append_nil _).symm, hm.2⟩
    | cons y m =>
      rw [List.cons_append, List.cons.injEq] at hm
      exact absurd (hm.2 ▸ List.mem_append_right _ List.mem_cons_self) hr
  · cases m with
    | nil =>
      rw [List.nil_append, List.cons.injEq] at hm
      exact ⟨List.append_nil _, hm.2.symm⟩
    | cons y m =>
      rw [List.cons_append, List.cons.injEq] at hm
      exact absurd (hm.2 ▸ List.mem_append_right _ List.mem_cons_self) hr'

/-- So does one that the fronts do not hold. -/
theorem append_cons_inj_left {α : Type} {x : α} {l l' r r' : List α} (hl : x ∉ l) (hl' : x ∉ l')
    (h : l ++ x :: r = l' ++ x :: r') : l = l' ∧ r = r' := by
  have hrev := congrArg List.reverse h
  rw [List.reverse_append, List.reverse_append, List.reverse_cons, List.reverse_cons, List.append_assoc,
    List.append_assoc, List.singleton_append, List.singleton_append] at hrev
  obtain ⟨hr, hl⟩ := append_cons_inj (by simpa using hl) (by simpa using hl') hrev
  exact ⟨List.reverse_injective hl, List.reverse_injective hr⟩

/-! ## Words -/

section Words

variable {α : Type} (space : α → Bool)

/-- The rest of `split()`, with the word that is being read. -/
def wordsFrom (word : List α) : List α → List (List α)
  | [] => if word = [] then [] else [word]
  | c :: cs =>
    if space c then
      if word = [] then wordsFrom [] cs else word :: wordsFrom [] cs
    else wordsFrom (word ++ [c]) cs

/-- `" ".join(value.split())`, by what a blank is. -/
def joinWordsWith (blank : α) (cs : List α) : List α := List.intercalate [blank] (wordsFrom space [] cs)

/-- A word is not empty and has no space in it. -/
def IsWord (w : List α) : Prop := w ≠ [] ∧ ∀ c ∈ w, space c = false

variable {space}

theorem isWord_of_mem_wordsFrom (cs : List α) : ∀ word : List α,
    (∀ c ∈ word, space c = false) → ∀ w ∈ wordsFrom space word cs, IsWord space w := by
  induction cs with
  | nil =>
    intro word hword w hw
    unfold wordsFrom at hw
    split_ifs at hw with hnil
    · cases hw
    · cases List.mem_singleton.mp hw
      exact ⟨hnil, hword⟩
  | cons c cs ih =>
    intro word hword w hw
    unfold wordsFrom at hw
    split_ifs at hw with hspace hnil
    · exact ih [] (by simp) w hw
    · rcases List.mem_cons.mp hw with rfl | hw
      · exact ⟨hnil, hword⟩
      · exact ih [] (by simp) w hw
    · refine ih _ ?_ w hw
      intro d hd
      rcases List.mem_append.mp hd with hd | hd
      · exact hword d hd
      · rw [List.mem_singleton.mp hd]
        exact Bool.not_eq_true _ ▸ hspace

/-- Characters that are no spaces go to the word. -/
theorem wordsFrom_append {w : List α} (hw : ∀ c ∈ w, space c = false) (word cs : List α) :
    wordsFrom space word (w ++ cs) = wordsFrom space (word ++ w) cs := by
  induction w generalizing word with
  | nil => rw [List.append_nil, List.nil_append]
  | cons c w ih =>
    have hc : ¬ space c = true := by
      rw [hw c List.mem_cons_self]
      decide
    rw [List.cons_append, wordsFrom, if_neg hc, ih (fun d hd => hw d (List.mem_cons_of_mem _ hd)),
      List.append_assoc, List.singleton_append]

/-- Words that are joined with spaces are found again. -/
theorem wordsFrom_intercalate {blank : α} (hblank : space blank = true) (ws : List (List α))
    (hws : ∀ w ∈ ws, IsWord space w) : wordsFrom space [] (List.intercalate [blank] ws) = ws := by
  induction ws with
  | nil => rfl
  | cons w ws ih =>
    obtain ⟨hne, hspace⟩ := hws w List.mem_cons_self
    have ih := ih fun v hv => hws v (List.mem_cons_of_mem _ hv)
    cases ws with
    | nil =>
      have hjoin : List.intercalate [blank] [w] = w ++ [] := by simp [List.intercalate]
      rw [hjoin, wordsFrom_append hspace, List.nil_append, wordsFrom, if_neg hne]
    | cons v vs =>
      have hjoin : List.intercalate [blank] (w :: v :: vs) =
          w ++ (blank :: List.intercalate [blank] (v :: vs)) := by
        simp [List.intercalate]
      rw [hjoin, wordsFrom_append hspace, List.nil_append, wordsFrom, if_pos hblank, if_neg hne, ih]

/-- Joining the words twice is joining them once. -/
theorem joinWordsWith_idem {blank : α} (hblank : space blank = true) (cs : List α) :
    joinWordsWith space blank (joinWordsWith space blank cs) = joinWordsWith space blank cs := by
  have hwords := isWord_of_mem_wordsFrom cs [] (by simp : ∀ c ∈ ([] : List α), space c = false)
  unfold joinWordsWith
  rw [wordsFrom_intercalate hblank _ hwords]

variable {β : Type} {f : α → β} {space' : β → Bool}

theorem wordsFrom_map (hspace : ∀ c, space' (f c) = space c) (cs : List α) : ∀ word : List α,
    wordsFrom space' (word.map f) (cs.map f) = (wordsFrom space word cs).map (List.map f) := by
  induction cs with
  | nil =>
    intro word
    rw [List.map_nil, wordsFrom, wordsFrom]
    by_cases hword : word = []
    · rw [if_pos hword, if_pos (List.map_eq_nil_iff.mpr hword), List.map_nil]
    · rw [if_neg hword, if_neg (fun h => hword (List.map_eq_nil_iff.mp h)), List.map_singleton]
  | cons c cs ih =>
    intro word
    have hnil : wordsFrom space' [] (cs.map f) = (wordsFrom space [] cs).map (List.map f) := ih []
    have hconcat : wordsFrom space' (word.map f ++ [f c]) (cs.map f) =
        (wordsFrom space (word ++ [c]) cs).map (List.map f) := by
      rw [← ih, List.map_append, List.map_singleton]
    rw [List.map_cons, wordsFrom, wordsFrom, hspace, hnil, hconcat]
    by_cases hc : space c = true
    · rw [if_pos hc, if_pos hc]
      by_cases hword : word = []
      · rw [if_pos hword, if_pos (List.map_eq_nil_iff.mpr hword)]
      · rw [if_neg hword, if_neg (fun h => hword (List.map_eq_nil_iff.mp h)), List.map_cons]
    · rw [if_neg hc, if_neg hc]

theorem map_intercalate (sep : List α) (ws : List (List α)) :
    (List.intercalate sep ws).map f = List.intercalate (sep.map f) (ws.map (List.map f)) := by
  induction ws with
  | nil => rfl
  | cons w ws ih =>
    cases ws with
    | nil => simp
    | cons v vs =>
      rw [List.map_cons] at ih
      rw [List.intercalate_cons_cons, List.map_cons, List.map_cons, List.intercalate_cons_cons, List.map_append,
        List.map_append, ih]

/-- Joining the words of a text does not depend on what stands for its characters. -/
theorem joinWordsWith_map (hspace : ∀ c, space' (f c) = space c) (blank : α) (cs : List α) :
    joinWordsWith space' (f blank) (cs.map f) = (joinWordsWith space blank cs).map f := by
  have hwords := wordsFrom_map hspace cs []
  rw [List.map_nil] at hwords
  unfold joinWordsWith
  rw [hwords, map_intercalate, List.map_singleton]

end Words

/-- `" ".join(value.split())`. -/
def joinWords (s : String) : String := String.ofList (joinWordsWith isPySpace ' ' s.toList)

theorem joinWords_joinWords (s : String) : joinWords (joinWords s) = joinWords s := by
  unfold joinWords
  rw [String.toList_ofList, joinWordsWith_idem (by decide)]

end Galaxz
