import Galaxz.Lib.PyStr

/-!
# Lines of a text

`str.splitlines`, which knows more line breaks than most formats do, and what joining the lines with newlines
makes of the text.
-/

namespace Galaxz

/-- The characters at which `str.splitlines` ends a line. -/
def isLineBreak (c : Char) : Bool :=
  let n := c.toNat
  (10 ≤ n && n ≤ 13) || (28 ≤ n && n ≤ 30) || n == 0x85 || n == 0x2028 || n == 0x2029

/-- `text.splitlines()`, with the characters of the present line so far, the last one first. -/
def splitLines : List Char → List Char → List (List Char)
  | [], [] => []
  | line, [] => [line.reverse]
  | line, '\r' :: '\n' :: cs => line.reverse :: splitLines [] cs
  | line, c :: cs => if isLineBreak c then line.reverse :: splitLines [] cs else splitLines (c :: line) cs

/-- The text with every line break written as a newline. -/
def unifyLines : List Char → List Char
  | [] => []
  | '\r' :: '\n' :: cs => '\n' :: unifyLines cs
  | c :: cs => (if isLineBreak c then '\n' else c) :: unifyLines cs

/-! ## One character further -/

/-- A line feed after a carriage return belongs to it. -/
def Pairs (c : Char) (cs : List Char) : Prop := c = '\r' ∧ cs.head? = some '\n'

theorem unifyLines_cons {c : Char} {cs : List Char} (h : ¬ Pairs c cs) :
    unifyLines (c :: cs) = (if isLineBreak c then '\n' else c) :: unifyLines cs := by
  rw [unifyLines]
  rintro cs' rfl rfl
  exact h ⟨rfl, rfl⟩

theorem splitLines_cons {c : Char} {cs : List Char} (line : List Char) (h : ¬ Pairs c cs) :
    splitLines line (c :: cs) =
      if isLineBreak c then line.reverse :: splitLines [] cs else splitLines (c :: line) cs := by
  rw [splitLines]
  rintro cs' rfl rfl
  exact h ⟨rfl, rfl⟩

theorem not_pairs_of_line {c : Char} (hc : isLineBreak c = false) (cs : List Char) : ¬ Pairs c cs := by
  rintro ⟨rfl, -⟩
  exact absurd hc (by decide)

theorem unifyLines_line_cons {c : Char} (hc : isLineBreak c = false) (cs : List Char) :
    unifyLines (c :: cs) = c :: unifyLines cs := by
  rw [unifyLines_cons (not_pairs_of_line hc cs), if_neg (by simp [hc])]

theorem splitLines_line_cons {c : Char} (hc : isLineBreak c = false) (line cs : List Char) :
    splitLines line (c :: cs) = splitLines (c :: line) cs := by
  rw [splitLines_cons line (not_pairs_of_line hc cs), if_neg (by simp [hc])]

theorem splitLines_newline (line cs : List Char) :
    splitLines line ('\n' :: cs) = line.reverse :: splitLines [] cs := by
  have hpairs : ¬ Pairs '\n' cs := fun h => absurd h.1 (by decide)
  rw [splitLines_cons line hpairs, if_pos (by decide)]

/-! ## Pieces of a text -/

theorem unifyLines_append {a b : List Char} (h : a.getLast? = some '\r' → b.head? ≠ some '\n') :
    unifyLines (a ++ b) = unifyLines a ++ unifyLines b := by
  induction a using unifyLines.induct with
  | case1 => rfl
  | case2 cs ih =>
    have hrest : cs.getLast? = some '\r' → b.head? ≠ some '\n' := by
      intro hlast
      refine h ?_
      rw [List.getLast?_cons_cons, List.getLast?_cons, hlast]
      rfl
    rw [List.cons_append, List.cons_append, unifyLines, ih hrest, unifyLines]
    rfl
  | case3 c cs hpairs ih =>
    have hc : ¬ Pairs c cs := by
      rintro ⟨rfl, hhead⟩
      obtain ⟨cs', rfl⟩ : ∃ cs', cs = '\n' :: cs' := by
        cases cs with
        | nil => cases hhead
        | cons d cs' => exact ⟨cs', by rw [Option.some.inj hhead]⟩
      exact hpairs cs' rfl rfl
    have hcb : ¬ Pairs c (cs ++ b) := by
      rintro ⟨rfl, hhead⟩
      cases cs with
      | nil => exact h rfl hhead
      | cons d cs' => exact hc ⟨rfl, hhead⟩
    have hrest : cs.getLast? = some '\r' → b.head? ≠ some '\n' := by
      intro hlast
      refine h ?_
      rw [List.getLast?_cons, hlast]
      rfl
    rw [List.cons_append, unifyLines_cons hcb, unifyLines_cons hc, ih hrest, List.cons_append]

/-- A part of one line stays as it is. -/
theorem unifyLines_line {cs : List Char} (h : ∀ c ∈ cs, isLineBreak c = false) : unifyLines cs = cs := by
  induction cs with
  | nil => rfl
  | cons c cs ih =>
    rw [unifyLines_line_cons (h c List.mem_cons_self), ih fun d hd => h d (List.mem_cons_of_mem c hd)]

theorem splitLines_line_append {cs : List Char} (h : ∀ c ∈ cs, isLineBreak c = false) (line x : List Char) :
    splitLines line (cs ++ x) = splitLines (cs.reverse ++ line) x := by
  induction cs generalizing line with
  | nil => rfl
  | cons c cs ih =>
    rw [List.cons_append, splitLines_line_cons (h c List.mem_cons_self),
      ih (fun d hd => h d (List.mem_cons_of_mem c hd)), List.reverse_cons, List.append_assoc, List.singleton_append]

theorem splitLines_line {cs : List Char} (h : ∀ c ∈ cs, isLineBreak c = false) (hne : cs ≠ []) :
    splitLines [] cs = [cs] := by
  have hsplit := splitLines_line_append h [] []
  rw [List.append_nil, List.append_nil] at hsplit
  rw [hsplit]
  cases hr : cs.reverse with
  | nil => exact absurd (List.reverse_eq_nil_iff.mp hr) hne
  | cons c r =>
    rw [splitLines, ← hr, List.reverse_reverse]
    simp

/-- One line more in front of joined lines. -/
theorem intercalate_line {ls : List (List Char)} {z u : List Char} (line : List Char) (hls : ls ≠ [])
    (hu : u = List.intercalate ['\n'] ls ++ z) :
    line ++ '\n' :: u = List.intercalate ['\n'] (line :: ls) ++ z := by
  rw [hu, List.intercalate_cons_of_ne_nil hls]
  simp

/-- The lines before the last one, joined again: a newline at the end may be lost. -/
theorem splitLines_lastLine {last : List Char} (hlast : ∀ c ∈ last, isLineBreak c = false) (hne : last ≠ [])
    (cs line : List Char) : ∃ ls z, splitLines line (cs ++ '\n' :: last) = ls ++ [last] ∧ ls ≠ [] ∧
      (z = [] ∨ z = ['\n']) ∧ line.reverse ++ unifyLines cs = List.intercalate ['\n'] ls ++ z := by
  induction cs using unifyLines.induct generalizing line with
  | case1 =>
    refine ⟨[line.reverse], [], ?_, by simp, Or.inl rfl, by simp [unifyLines]⟩
    rw [List.nil_append, splitLines_newline, splitLines_line hlast hne]
    rfl
  | case2 cs ih =>
    obtain ⟨ls, z, hsplit, hls, hz, hu⟩ := ih []
    refine ⟨line.reverse :: ls, z, ?_, by simp, hz, ?_⟩
    · rw [List.cons_append, List.cons_append, splitLines, hsplit, List.cons_append]
    · rw [unifyLines]
      exact intercalate_line _ hls hu
  | case3 c cs hpairs ih =>
    have hc : ¬ Pairs c cs := by
      rintro ⟨rfl, hhead⟩
      cases cs with
      | nil => cases hhead
      | cons d cs' =>
        rw [Option.some.inj hhead] at hpairs
        exact hpairs cs' rfl rfl
    rw [unifyLines_cons hc, List.cons_append]
    by_cases hbreak : isLineBreak c = true
    · rw [if_pos hbreak]
      by_cases hend : c = '\r' ∧ cs = []
      · -- the break at the end of the text and the newline after it are one
        obtain ⟨rfl, rfl⟩ := hend
        refine ⟨[line.reverse], ['\n'], ?_, by simp, Or.inr rfl, by simp [unifyLines]⟩
        rw [List.nil_append, splitLines, splitLines_line hlast hne]
        rfl
      · have hc' : ¬ Pairs c (cs ++ '\n' :: last) := by
          rintro ⟨rfl, hhead⟩
          cases cs with
          | nil => exact hend ⟨rfl, rfl⟩
          | cons d cs' => exact hc ⟨rfl, hhead⟩
        obtain ⟨ls, z, hsplit, hls, hz, hu⟩ := ih []
        refine ⟨line.reverse :: ls, z, ?_, by simp, hz, intercalate_line _ hls hu⟩
        rw [splitLines_cons line hc', if_pos hbreak, hsplit, List.cons_append]
    · have hline : isLineBreak c = false := by simpa using hbreak
      obtain ⟨ls, z, hsplit, hls, hz, hu⟩ := ih (c :: line)
      refine ⟨ls, z, ?_, hls, hz, ?_⟩
      · rw [splitLines_line_cons hline, hsplit]
      · rw [if_neg hbreak, ← hu]
        simp

/-! ## A text by its newlines -/

/-- Without carriage returns, what stands before a newline and what follows it are split on their own; only empty
lines differ. -/
theorem filter_splitLines_newline {cs : List Char} (hcs : '\r' ∉ cs) (line x : List Char) :
    (splitLines line (cs ++ '\n' :: x)).filter (· ≠ []) =
      (splitLines line cs).filter (· ≠ []) ++ (splitLines [] x).filter (· ≠ []) := by
  induction cs generalizing line with
  | nil =>
    rw [List.nil_append, splitLines_newline]
    cases line with
    | nil => simp [splitLines]
    | cons c line => simp [splitLines]
  | cons c cs ih =>
    have hpairs : ∀ y, ¬ Pairs c y := fun y h => hcs (by rw [h.1]; exact List.mem_cons_self)
    have hrest : '\r' ∉ cs := fun h => hcs (List.mem_cons_of_mem c h)
    rw [List.cons_append, splitLines_cons line (hpairs _), splitLines_cons line (hpairs _)]
    by_cases hbreak : isLineBreak c = true
    · rw [if_pos hbreak, if_pos hbreak, List.filter_cons, List.filter_cons, ih hrest]
      split_ifs <;> simp
    · rw [if_neg hbreak, if_neg hbreak, ih hrest]

theorem intercalate_newline {l : List Char} {ls : List (List Char)} (h : ls ≠ []) :
    List.intercalate ['\n'] (l :: ls) = l ++ '\n' :: List.intercalate ['\n'] ls := by
  rw [List.intercalate_cons_of_ne_nil h]
  simp

/-- The lines between the newlines are split one by one. -/
theorem filter_splitLines_splitOn {x : List Char} (hx : '\r' ∉ x) :
    (splitLines [] x).filter (· ≠ []) = ((x.splitOn '\n').flatMap (splitLines [])).filter (· ≠ []) := by
  have hjoin : ∀ ls : List (List Char), '\r' ∉ List.intercalate ['\n'] ls →
      (splitLines [] (List.intercalate ['\n'] ls)).filter (· ≠ []) = (ls.flatMap (splitLines [])).filter (· ≠ []) := by
    intro ls hls
    induction ls with
    | nil => rfl
    | cons l ls ih =>
      by_cases hlast : ls = []
      · subst hlast
        simp [List.intercalate]
      · rw [intercalate_newline hlast] at hls ⊢
        have hl : '\r' ∉ l := fun h => hls (List.mem_append_left _ h)
        have hrest : '\r' ∉ List.intercalate ['\n'] ls :=
          fun h => hls (List.mem_append_right _ (List.mem_cons_of_mem _ h))
        rw [filter_splitLines_newline hl, ih hrest, List.flatMap_cons, List.filter_append]
  have hback : List.intercalate ['\n'] (x.splitOn '\n') = x := List.intercalate_splitOn '\n'
  rw [← hjoin _ (by rwa [hback]), hback]

theorem mem_of_mem_splitOn {x l : List Char} {a c : Char} (hl : l ∈ x.splitOn a) (hc : c ∈ l) : c ∈ x := by
  have hjoin : ∀ ls : List (List Char), l ∈ ls → c ∈ List.intercalate [a] ls := by
    intro ls hmem
    induction ls with
    | nil => cases hmem
    | cons k ls ih =>
      by_cases hlast : ls = []
      · subst hlast
        rw [List.mem_singleton.mp hmem] at hc
        simpa [List.intercalate] using hc
      · rw [List.intercalate_cons_of_ne_nil hlast]
        rcases List.mem_cons.mp hmem with rfl | hmem
        · simp [hc]
        · simp [ih hmem]
  have hback : List.intercalate [a] (x.splitOn a) = x := List.intercalate_splitOn a
  rw [← hback]
  exact hjoin _ hl

theorem not_mem_of_mem_splitOn {x l : List Char} {a : Char} (hl : l ∈ x.splitOn a) : a ∉ l := by
  induction x generalizing l with
  | nil =>
    rw [List.splitOn_nil, List.mem_singleton] at hl
    rw [hl]
    exact List.not_mem_nil
  | cons c x ih =>
    rw [List.splitOn_cons_eq_if_modifyHead] at hl
    split_ifs at hl with hc
    · rcases List.mem_cons.mp hl with rfl | hl
      · exact List.not_mem_nil
      · exact ih hl
    · obtain ⟨k, ls, hsplit⟩ := List.exists_cons_of_ne_nil (List.splitOn_ne_nil a x)
      rw [hsplit, List.modifyHead_cons] at hl
      rcases List.mem_cons.mp hl with rfl | hl
      · intro hmem
        rcases List.mem_cons.mp hmem with rfl | hmem
        · exact hc (beq_self_eq_true a)
        · exact ih (by rw [hsplit]; exact List.mem_cons_self) hmem
      · exact ih (by rw [hsplit]; exact List.mem_cons_of_mem k hl)

/-- A line is a piece of the text, which a line break or the end follows, and before which a line break or the
beginning stands. -/
theorem splitLines_piece {t : List Char} (ht : '\r' ∉ t) {line p : List Char} (hp : p ∈ splitLines line t) :
    (∃ q r, p = line.reverse ++ q ∧ t = q ++ r ∧ (∀ c ∈ q, isLineBreak c = false) ∧
      ∀ c ∈ r.head?, isLineBreak c = true) ∨
    ∃ a c r, t = a ++ c :: (p ++ r) ∧ isLineBreak c = true := by
  induction t generalizing line with
  | nil =>
    left
    cases line with
    | nil => cases hp
    | cons d line =>
      rw [splitLines] at hp
      · exact ⟨[], [], by simpa using hp, rfl, by simp, by simp⟩
      · nofun
  | cons c t ih =>
    have hpairs : ¬ Pairs c t := fun h => ht (by rw [h.1]; exact List.mem_cons_self)
    have hrest : '\r' ∉ t := fun h => ht (List.mem_cons_of_mem c h)
    rw [splitLines_cons line hpairs] at hp
    by_cases hbreak : isLineBreak c = true
    · rw [if_pos hbreak, List.mem_cons] at hp
      rcases hp with rfl | hp
      · exact Or.inl ⟨[], c :: t, by simp, rfl, by simp, by simpa using hbreak⟩
      · right
        rcases ih hrest hp with ⟨q, r, rfl, rfl, -, -⟩ | ⟨a, d, r, rfl, hd⟩
        · exact ⟨[], c, r, rfl, hbreak⟩
        · exact ⟨c :: a, d, r, rfl, hd⟩
    · rw [if_neg hbreak] at hp
      rcases ih hrest hp with ⟨q, r, rfl, rfl, hq, hr⟩ | ⟨a, d, r, rfl, hd⟩
      · refine Or.inl ⟨c :: q, r, by simp, rfl, ?_, hr⟩
        rintro d (_ | ⟨_, hd⟩)
        · simpa using hbreak
        · exact hq d hd
      · exact Or.inr ⟨c :: a, d, r, rfl, hd⟩

/-! ## Spaces at the ends -/

/-- Spaces at the end do not matter to `strip()`. -/
theorem stripChars_append_spaces {z : List Char} (hz : ∀ c ∈ z, isPySpace c = true) (cs : List Char) :
    stripChars (cs ++ z) = stripChars cs := by
  have hall : ∀ c ∈ z.reverse, isPySpace c = true := fun c hc => hz c (List.mem_reverse.mp hc)
  have hdrop : z.dropWhile isPySpace = [] := List.dropWhile_eq_nil_iff.mpr hz
  unfold stripChars
  rw [List.dropWhile_append]
  cases hcs : cs.dropWhile isPySpace with
  | nil => simp [hdrop]
  | cons c r =>
    rw [List.isEmpty_cons, if_neg Bool.false_ne_true, List.rdropWhile, List.reverse_append,
      List.dropWhile_append_of_pos hall, List.rdropWhile]

end Galaxz
