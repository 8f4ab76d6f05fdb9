import Galaxz.Agents.Loader
import Galaxz.Lib.JsonLexing

/-!
# Replies in code fences

All three readers see the body of a fenced reply with its line breaks unified. A JSON text keeps its value then
unless a string of it holds one of the line breaks that JSON takes for a character like any other.
-/

namespace Galaxz

open JsonReader

/-! ## Line breaks in a JSON text -/

/-- A line break of `str.splitlines` that may stand in a JSON string. -/
def IsWideBreak (c : Char) : Prop := c.toNat = 0x85 ∨ c.toNat = 0x2028 ∨ c.toNat = 0x2029

instance (c : Char) : Decidable (IsWideBreak c) := by unfold IsWideBreak; infer_instance

theorem isLineBreak_iff {c : Char} : isLineBreak c = true ↔ c.toNat < 32 ∧ isLineBreak c = true ∨ IsWideBreak c := by
  unfold isLineBreak IsWideBreak
  simp only [Bool.or_eq_true, Bool.and_eq_true, decide_eq_true_eq, beq_iff_eq]
  omega

theorem not_lineBreak {c : Char} (hlo : 32 ≤ c.toNat) (hwide : ¬ IsWideBreak c) : isLineBreak c = false := by
  rw [← Bool.not_eq_true]
  intro hbreak
  rcases isLineBreak_iff.mp hbreak with ⟨hctl, -⟩ | h
  · omega
  · exact hwide h

/-- Outside of strings and after a backslash there is ASCII only. -/
theorem inside_of_wide {m m' : LexMode} {c : Char} (h : lexStep m c = some m') (hc : IsWideBreak c) : m = .inside := by
  have hlarge : 127 ≤ c.toNat := by
    unfold IsWideBreak at hc
    omega
  have hquote : c ≠ '"' := by
    rintro rfl
    exact absurd hlarge (by decide)
  have hplain : ¬ isPlain c = true := by
    intro hp
    have := isPlain_bounds hp
    omega
  cases m with
  | inside => rfl
  | outside =>
    rw [lexStep, if_neg hquote, if_neg hplain] at h
    cases h
  | closed =>
    rw [lexStep, if_neg hplain] at h
    cases h
  | escaped =>
    rw [lexStep] at h
    split_ifs at h with he
    have := (isEscape_bounds he).2
    omega

/-! ## Unifying the line breaks of a JSON text -/

theorem unifyLines_blank {w : List Char} (hw : Blank w) : Blank (unifyLines w) := by
  induction w using unifyLines.induct with
  | case1 => exact hw
  | case2 cs ih =>
    rw [unifyLines]
    have hrest := ih fun c hc => hw c (List.mem_cons_of_mem _ (List.mem_cons_of_mem _ hc))
    exact List.forall_mem_cons.mpr ⟨by decide, hrest⟩
  | case3 c cs hpairs ih =>
    have hrest := ih fun d hd => hw d (List.mem_cons_of_mem c hd)
    rw [unifyLines]
    · refine List.forall_mem_cons.mpr ⟨?_, hrest⟩
      split_ifs
      · decide
      · exact hw c List.mem_cons_self
    · exact hpairs

theorem head_ne_newline {p : JsonPart} {c : List Char} (h : Writes p c) (r : List Char) :
    (c ++ r).head? ≠ some '\n' := by
  obtain ⟨a, t, rfl, ha⟩ := h.head
  intro heq
  rw [List.cons_append, List.head?_cons] at heq
  rw [Option.some.inj heq] at ha
  exact absurd ha (by decide)

theorem unifyLines_part {p : JsonPart} {c : List Char} (h : Writes p c) (r : List Char) :
    unifyLines (c ++ r) = unifyLines c ++ unifyLines r := by
  refine unifyLines_append fun hlast => ?_
  obtain ⟨t, a, rfl, ha⟩ := h.last
  rw [List.getLast?_concat] at hlast
  rw [Option.some.inj hlast] at ha
  exact absurd ha (by decide)

theorem unifyLines_blank_part {p : JsonPart} {w c : List Char} (h : Writes p c) (r : List Char) :
    unifyLines (w ++ (c ++ r)) = unifyLines w ++ unifyLines (c ++ r) :=
  unifyLines_append fun _ => head_ne_newline h r

theorem unifyLines_blank_mark {w : List Char} {a : Char} (ha : isLineBreak a = false) (r : List Char) :
    unifyLines (w ++ a :: r) = unifyLines w ++ a :: unifyLines r := by
  rw [unifyLines_append, unifyLines_line_cons ha]
  intro _ heq
  rw [Option.some.inj heq] at ha
  exact absurd ha (by decide)

/-- Without wide breaks, the breaks stand between the tokens only. -/
theorem Writes.unifyLines {p : JsonPart} {c : List Char} (h : Writes p c) (hwide : ∀ a ∈ c, ¬ IsWideBreak a) :
    Writes p (unifyLines c) := by
  have hstring : ∀ {b : List Char} {s : CodeString}, JsonReader.string b = .ok (s, []) →
      (∀ a ∈ b, ¬ IsWideBreak a) → ∀ a ∈ b, isLineBreak a = false :=
    fun hb hwide a ha => not_lineBreak (string_chars hb a ha) (hwide a ha)
  induction h with
  | @literal c v h =>
    obtain ⟨-, hchars, -⟩ := literal_chars h
    rw [unifyLines_line fun a ha => not_lineBreak (Nat.le_of_lt (hchars a ha).1) (hwide a ha)]
    exact .literal h
  | @string b s h =>
    have hb := hstring h fun a ha => hwide a (List.mem_cons_of_mem _ ha)
    rw [unifyLines_line_cons (by decide), unifyLines_line hb]
    exact .string h
  | @emptyArray w hw =>
    rw [unifyLines_line_cons (by decide), unifyLines_blank_mark (by decide)]
    exact .emptyArray (unifyLines_blank hw)
  | @emptyObject w hw =>
    rw [unifyLines_line_cons (by decide), unifyLines_blank_mark (by decide)]
    exact .emptyObject (unifyLines_blank hw)
  | @array w b vs hw h ih =>
    have hsplit := unifyLines_blank_part (w := w) h []
    rw [List.append_nil] at hsplit
    rw [unifyLines_line_cons (by decide), hsplit]
    exact .array (unifyLines_blank hw) (ih fun a ha => hwide a (by simp [ha]))
  | @object w b ps hw h ih =>
    have hsplit := unifyLines_blank_part (w := w) h []
    rw [List.append_nil] at hsplit
    rw [unifyLines_line_cons (by decide), hsplit]
    exact .object (unifyLines_blank hw) (ih fun a ha => hwide a (by simp [ha]))
  | @lastElement c w v h hw ih =>
    rw [unifyLines_part h, unifyLines_blank_mark (by decide)]
    exact .lastElement (ih fun a ha => hwide a (by simp [ha])) (unifyLines_blank hw)
  | @element c w w' b v vs h hw hw' hrest ih ihrest =>
    have hsplit := unifyLines_blank_part (w := w') hrest []
    rw [List.append_nil] at hsplit
    rw [unifyLines_part h, unifyLines_blank_mark (by decide), hsplit]
    exact .element (ih fun a ha => hwide a (by simp [ha])) (unifyLines_blank hw) (unifyLines_blank hw')
      (ihrest fun a ha => hwide a (by simp [ha]))
  | @lastMember b u w c w' k v hk hu hw h hw' ih =>
    have hb := hstring hk fun a ha => hwide a (by simp [ha])
    have hkey : ∀ r, Galaxz.unifyLines (b ++ r) = b ++ Galaxz.unifyLines r := by
      intro r
      rw [unifyLines_append, unifyLines_line hb]
      intro hlast
      exact absurd (hb _ (List.mem_of_getLast? hlast)) (by decide)
    rw [unifyLines_line_cons (by decide), hkey, unifyLines_blank_mark (by decide), unifyLines_blank_part h,
      unifyLines_part h, unifyLines_blank_mark (by decide)]
    exact .lastMember hk (unifyLines_blank hu) (unifyLines_blank hw) (ih fun a ha => hwide a (by simp [ha]))
      (unifyLines_blank hw')
  | @member b u w c w' x d k v ps hk hu hw h hw' hx hrest ih ihrest =>
    have hb := hstring hk fun a ha => hwide a (by simp [ha])
    have hkey : ∀ r, Galaxz.unifyLines (b ++ r) = b ++ Galaxz.unifyLines r := by
      intro r
      rw [unifyLines_append, unifyLines_line hb]
      intro hlast
      exact absurd (hb _ (List.mem_of_getLast? hlast)) (by decide)
    have hsplit := unifyLines_blank_part (w := x) hrest []
    rw [List.append_nil] at hsplit
    rw [unifyLines_line_cons (by decide), hkey, unifyLines_blank_mark (by decide), unifyLines_blank_part h,
      unifyLines_part h, unifyLines_blank_mark (by decide), hsplit]
    exact .member hk (unifyLines_blank hu) (unifyLines_blank hw) (ih fun a ha => hwide a (by simp [ha]))
      (unifyLines_blank hw') (unifyLines_blank hx) (ihrest fun a ha => hwide a (by simp [ha]))

/-- Outside of strings, only a wide break is a break and no white space. -/
theorem free_of_break {m m' : LexMode} {c : Char} (h : lexStep m c = some m') (hc : isLineBreak c = true)
    (hwide : ¬ IsWideBreak c) : m.Free ∧ m' = .outside := by
  have hctl : c.toNat < 32 := by
    rcases isLineBreak_iff.mp hc with ⟨hctl, -⟩ | hw
    · exact hctl
    · exact absurd hw hwide
  have hout : m.Free → m' = .outside := by
    rintro (rfl | rfl)
    · rw [lexStep] at h
      split_ifs at h with hquote
      · rw [hquote] at hctl
        exact absurd hctl (by decide)
      · exact (Option.some.inj h).symm
    · rw [lexStep] at h
      split_ifs at h
      exact (Option.some.inj h).symm
  cases m with
  | outside => exact ⟨Or.inl rfl, hout (Or.inl rfl)⟩
  | closed => exact ⟨Or.inr rfl, hout (Or.inr rfl)⟩
  | inside => exact absurd (lexStep_string_bounds (Or.inl rfl) h) (by omega)
  | escaped => exact absurd (lexStep_string_bounds (Or.inr rfl) h) (by omega)

theorem IsPrintable.not_lineBreak {c : Char} (h : IsPrintable c) : isLineBreak c = false := by
  obtain ⟨hlo, hhi⟩ := h
  refine Galaxz.not_lineBreak (Nat.le_of_lt hlo) ?_
  unfold IsWideBreak
  omega

/-- With a wide break, a newline gets into a string. -/
theorem lexes_unifyLines {m : LexMode} {cs : List Char} (h : (lexes m cs).isSome)
    (hwide : ∃ c ∈ cs, IsWideBreak c) : lexes m (unifyLines cs) = none := by
  have hnewline : ∀ {m : LexMode}, m.Free → lexStep m '\n' = some .outside := fun hm => lexStep_plain hm (by decide)
  induction cs using unifyLines.induct generalizing m with
  | case1 =>
    obtain ⟨c, hc, -⟩ := hwide
    exact absurd hc List.not_mem_nil
  | case2 cs ih =>
    rw [lexes] at h
    obtain ⟨m', hm'⟩ := Option.isSome_iff_exists.mp h
    obtain ⟨m₁, hstep, hrest⟩ := Option.bind_eq_some_iff.mp hm'
    obtain ⟨hfree, rfl⟩ := free_of_break hstep (by decide) (by decide)
    rw [lexes_cons (hnewline (Or.inl rfl))] at hrest
    rw [unifyLines, lexes_cons (hnewline hfree)]
    refine ih (by rw [hrest]; rfl) ?_
    obtain ⟨c, hc, hbreak⟩ := hwide
    rcases List.mem_cons.mp hc with rfl | hc
    · exact absurd hbreak (by decide)
    · rcases List.mem_cons.mp hc with rfl | hc
      · exact absurd hbreak (by decide)
      · exact ⟨c, hc, hbreak⟩
  | case3 c cs hpairs ih =>
    rw [lexes] at h
    obtain ⟨m', hm'⟩ := Option.isSome_iff_exists.mp h
    obtain ⟨m₁, hstep, hrest⟩ := Option.bind_eq_some_iff.mp hm'
    rw [unifyLines]
    · by_cases hc : IsWideBreak c
      · obtain rfl := inside_of_wide hstep hc
        rw [if_pos (isLineBreak_iff.mpr (Or.inr hc))]
        rfl
      · have hmore : ∃ d ∈ cs, IsWideBreak d := by
          obtain ⟨d, hd, hbreak⟩ := hwide
          rcases List.mem_cons.mp hd with rfl | hd
          · exact absurd hbreak hc
          · exact ⟨d, hd, hbreak⟩
        have hnone := ih (by rw [hrest]; rfl) hmore
        by_cases hbreak : isLineBreak c = true
        · obtain ⟨hfree, rfl⟩ := free_of_break hstep hbreak hc
          rw [if_pos hbreak, lexes_cons (hnewline hfree), hnone]
        · rw [if_neg hbreak, lexes_cons hstep, hnone]
    · exact hpairs

/-- The body of a JSON text, and what unifying and stripping makes of the whole. -/
theorem stripChars_unifyLines {cs : List Char} {v : JsonValue} (h : loads cs = .ok v) : ∃ c,
    stripChars (unifyLines cs) = unifyLines c ∧ Writes (.value v) c ∧
      ((∀ a ∈ cs, ¬ IsWideBreak a) ↔ ∀ a ∈ c, ¬ IsWideBreak a) := by
  obtain ⟨w, c, w', rfl, hw, hw', hwrites⟩ := loads_iff.mp h
  have hspace : ∀ {w : List Char}, Blank w → ∀ a ∈ unifyLines w, isPySpace a = true :=
    fun hw a ha => isPySpace_of_ws (unifyLines_blank hw a ha)
  have hclean : ∀ {w : List Char}, Blank w → ∀ a ∈ w, ¬ IsWideBreak a := by
    intro w hw a ha hwide
    have hplain := isPlain_bounds (isPlain_of_ws (hw a ha))
    unfold IsWideBreak at hwide
    omega
  refine ⟨c, ?_, hwrites, ?_⟩
  · rw [unifyLines_blank_part hwrites, unifyLines_part hwrites]
    refine stripChars_around (hspace hw) (hspace hw') ?_ ?_
    · obtain ⟨a, t, rfl, ha⟩ := hwrites.head
      exact ⟨a, unifyLines t, unifyLines_line_cons ha.not_lineBreak t, ha⟩
    · obtain ⟨t, a, rfl, ha⟩ := hwrites.last
      refine ⟨unifyLines t, a, ?_, ha⟩
      rw [unifyLines_blank_mark ha.not_lineBreak]
      rfl
  · simp only [List.forall_mem_append]
    exact ⟨fun h => h.2.1, fun h => ⟨hclean hw, h, hclean hw'⟩⟩

/-- Unifying the line breaks keeps the value of a JSON text exactly when it has no wide break. -/
theorem loads_unifyLines_iff {body : List Char} {v : JsonValue} (h : loads body = .ok v) :
    loads (stripChars (unifyLines body)) = .ok v ↔ ∀ c ∈ body, ¬ IsWideBreak c := by
  obtain ⟨c, hc, hwrites, hwide⟩ := stripChars_unifyLines h
  rw [hc, hwide]
  constructor
  · intro hloads
    by_contra hbreak
    push Not at hbreak
    have hsome : (lexes .outside c).isSome := by
      obtain ⟨m, -, hread⟩ := hwrites.lexes
      have hend := hread []
      rw [List.append_nil] at hend
      rw [hend]
      rfl
    have hagain := lexes_of_loads hloads
    rw [lexes_unifyLines hsome hbreak] at hagain
    cases hagain
  · intro hclean
    exact loads_iff.mpr ⟨[], unifyLines c, [], by simp, blank_nil, blank_nil, hwrites.unifyLines hclean⟩

/-! ## The readers -/

/-- The slice `lines[1:end]`, in the two ways that it is written. -/
theorem take_drop_one (ls : List (List Char)) (last : Prop) [Decidable last] :
    (ls.take (if last then ls.length - 1 else ls.length)).drop 1 = if last then ls.tail.dropLast else ls.tail := by
  by_cases hlast : last
  · rw [if_pos hlast, if_pos hlast, ← List.dropLast_eq_take, List.drop_one, List.tail_dropLast]
  · rw [if_neg hlast, if_neg hlast, List.take_length, List.drop_one]

/-- The planner and the loader of configured agents take the same fences off, on any text. -/
theorem stripFence_eq_stripFences (text : String) : stripFence text = stripFences text := by
  unfold stripFence stripFences
  by_cases hfence : "```".toList.isPrefixOf (strip text).toList = true
  · simp only [hfence, if_true, not_true, if_false, take_drop_one]
  · simp only [hfence, if_false, not_false_eq_true, if_true, Bool.false_eq_true]

/-- A reply that is a fence with a tag, a body and a closing fence, with spaces around it. -/
inductive Fenced (tag body : List Char) : List Char → Prop where
  | intro {pre nl nl' indent post : List Char} (hpre : ∀ c ∈ pre, isPySpace c = true)
      (htag : ∀ c ∈ tag, isLineBreak c = false) (hnl : nl = ['\n'] ∨ nl = ['\r', '\n'])
      (hnl' : nl' = ['\n'] ∨ nl' = ['\r', '\n'])
      (hindent : ∀ c ∈ indent, isPySpace c = true ∧ isLineBreak c = false) (hpost : ∀ c ∈ post, isPySpace c = true) :
      Fenced tag body (pre ++ ("```".toList ++ tag ++ nl ++ body ++ nl' ++ indent ++ "```".toList ++ post))

/-- The lines of a fenced reply. -/
theorem Fenced.lines {tag body reply : List Char} (h : Fenced tag body reply) :
    "```".toList.isPrefixOf (stripChars reply) = true ∧ ∃ first ls last, ls ≠ [] ∧
      splitLines [] (stripChars reply) = first :: (ls ++ [last]) ∧ stripChars last = "```".toList ∧
      stripChars (List.intercalate ['\n'] ls) = stripChars (unifyLines body) := by
  obtain ⟨hpre, htag, hnl, hnl', hindent, hpost⟩ := h
  rename_i pre nl nl' indent post
  have hstrip : stripChars (pre ++ ("```".toList ++ tag ++ nl ++ body ++ nl' ++ indent ++ "```".toList ++ post)) =
      "```".toList ++ tag ++ nl ++ body ++ nl' ++ indent ++ "```".toList := by
    refine stripChars_around hpre hpost ⟨_, _, rfl, by decide⟩ ?_
    exact ⟨"```".toList ++ tag ++ nl ++ body ++ nl' ++ indent ++ "``".toList, '`', by simp, by decide⟩
  have hfirst : ∀ c ∈ "```".toList ++ tag, isLineBreak c = false :=
    List.forall_mem_append.mpr ⟨List.all_iff_forall_prop.mp (by decide), htag⟩
  have hlast : ∀ c ∈ indent ++ "```".toList, isLineBreak c = false :=
    List.forall_mem_append.mpr ⟨fun c hc => (hindent c hc).2, List.all_iff_forall_prop.mp (by decide)⟩
  have hopen : ∀ r, splitLines [] ("```".toList ++ tag ++ nl ++ r) = ("```".toList ++ tag) :: splitLines [] r := by
    intro r
    rw [List.append_assoc, splitLines_line_append hfirst]
    rcases hnl with rfl | rfl
    · rw [List.singleton_append, splitLines_newline, List.append_nil, List.reverse_reverse]
    · rw [List.cons_append, List.singleton_append, splitLines, List.append_nil, List.reverse_reverse]
  -- a carriage return before the newline counts as the end of the body
  obtain ⟨body', hbody', hunify⟩ : ∃ body', body ++ nl' = body' ++ ['\n'] ∧
      stripChars (unifyLines body') = stripChars (unifyLines body) := by
    rcases hnl' with rfl | rfl
    · exact ⟨body, rfl, rfl⟩
    · refine ⟨body ++ ['\r'], by simp, ?_⟩
      rw [unifyLines_append (fun _ => by decide)]
      exact stripChars_append_spaces (List.all_iff_forall_prop.mp (by decide)) _
  obtain ⟨ls, z, hsplit, hls, hz, hjoin⟩ := splitLines_lastLine hlast (by simp) body' []
  rw [hstrip]
  refine ⟨by simp, "```".toList ++ tag, ls, indent ++ "```".toList, hls, ?_, ?_, ?_⟩
  · rw [← hsplit, ← hopen]
    congr 1
    have hassoc : "```".toList ++ tag ++ nl ++ body ++ nl' ++ indent ++ "```".toList =
        "```".toList ++ tag ++ nl ++ ((body ++ nl') ++ (indent ++ "```".toList)) := by
      simp only [List.append_assoc]
    rw [hassoc, hbody']
    simp only [List.append_assoc, List.singleton_append]
  · have hmark := stripChars_around (c := "```".toList) (q := []) (fun c hc => (hindent c hc).1) (by simp)
      ⟨_, _, rfl, by decide⟩ ⟨"``".toList, '`', by decide, by decide⟩
    rwa [List.append_nil] at hmark
  · have hspaces : ∀ c ∈ z, isPySpace c = true := by
      rcases hz with rfl | rfl
      · exact List.all_iff_forall_prop.mp (by decide)
      · exact List.all_iff_forall_prop.mp (by decide)
    rw [← stripChars_append_spaces hspaces, ← hjoin, List.reverse_nil, List.nil_append, hunify]

theorem Fenced.getLastD {first last : List Char} (ls : List (List Char)) :
    (first :: (ls ++ [last])).getLastD [] = last := by
  rw [← List.cons_append, List.getLastD_concat]

/-- What the planner makes of a fenced reply. -/
theorem Fenced.stripFence {tag body reply : List Char} (h : Fenced tag body reply) :
    (Galaxz.stripFence (String.ofList reply)).toList = stripChars (unifyLines body) := by
  obtain ⟨hfence, first, ls, last, -, hlines, hlast, hjoin⟩ := h.lines
  unfold Galaxz.stripFence strip
  simp only [String.toList_ofList]
  rw [if_pos hfence, hlines, Fenced.getLastD, if_pos hlast, List.tail_cons, List.dropLast_concat,
    String.toList_ofList]
  exact hjoin

/-- What the test designer reads of a fenced reply. -/
theorem Fenced.unfencedReply {tag body reply : List Char} (h : Fenced tag body reply) :
    Galaxz.unfencedReply reply = stripChars (unifyLines body) := by
  obtain ⟨hfence, first, ls, last, hne, hlines, hlast, hjoin⟩ := h.lines
  have hclose : ls ++ [last] ≠ [] ∧ "```".toList.isPrefixOf (stripChars ((ls ++ [last]).getLastD [])) = true := by
    refine ⟨by simp, ?_⟩
    rw [List.getLastD_concat, hlast]
    rfl
  unfold Galaxz.unfencedReply
  dsimp only
  rw [if_pos hfence, hlines, List.tail_cons, if_pos hclose, List.dropLast_concat]
  exact hjoin

/-- The text between the first brace and the last one starts with a brace. -/
theorem braces_head {cs : List Char} {start stop : ℕ} (hstart : cs.findIdx? (fun d => d = '{') = some start)
    (h : start < stop) : ((cs.take (stop + 1)).drop start).head? = some '{' := by
  obtain ⟨hlt, hbrace, -⟩ := List.findIdx?_eq_some_iff_getElem.mp hstart
  have hbrace' : cs[start] = '{' := by simpa using hbrace
  rw [List.head?_drop, List.getElem?_take_of_lt (by omega), List.getElem?_eq_getElem hlt, hbrace']

/-- A text between braces is the text from its first brace to its last one. -/
theorem braces_whole (t : List Char) :
    ('{' :: (t ++ ['}'])).findIdx? (fun d => d = '{') = some 0 ∧
      lastIndex '}' ('{' :: (t ++ ['}'])) = some (t.length + 1) := by
  refine ⟨by simp [List.findIdx?_cons], ?_⟩
  have hreverse : ('{' :: (t ++ ['}'])).reverse = '}' :: (t.reverse ++ ['{']) := by simp
  unfold lastIndex
  rw [hreverse, List.findIdx?_cons]
  simp

/-- The second attempt finds no value of the right kind where the first one failed. -/
theorem loadsOrBraces_iff {cs : List Char} {v : JsonValue} (hv : ∀ items, v = .obj items → ∃ t, cs = '{' :: (t ++ ['}'])) :
    loadsOrBraces cs = .ok v ↔ loads cs = .ok v := by
  unfold loadsOrBraces
  split
  · next msg hloads =>
    rw [hloads]
    refine ⟨fun h => ?_, fun h => by cases h⟩
    split at h
    · next start stop hstart hstop =>
      split_ifs at h with hlt
      obtain ⟨w, c, w', hslice, hw, -, hwrites⟩ := loads_iff.mp h
      have hhead := braces_head hstart hlt
      rw [hslice] at hhead
      have hobject : ∃ items, v = .obj items := by
        cases w with
        | nil =>
          obtain ⟨a, t, rfl, -⟩ := hwrites.head
          exact hwrites.object_of_brace hhead
        | cons a w =>
          have ha := hw a List.mem_cons_self
          rw [Option.some.inj hhead] at ha
          exact absurd ha (by decide)
      obtain ⟨items, hitems⟩ := hobject
      obtain ⟨t, rfl⟩ := hv items hitems
      obtain ⟨hfirst, hend⟩ := braces_whole t
      obtain rfl := Option.some.inj (hstart.symm.trans hfirst)
      obtain rfl := Option.some.inj (hstop.symm.trans hend)
      have hall : ('{' :: (t ++ ['}'])).take (t.length + 1 + 1) = '{' :: (t ++ ['}']) :=
        List.take_of_length_le (by simp)
      rw [hall, List.drop_zero, hloads] at h
      cases h
    · cases h
  · rfl

/-! ## Fenced replies -/

/-- What each reader makes of a JSON text in fences: the planner's and the loader's texts, which are the same for
every reply, parse to its value, and the test designer returns it, exactly when the text has no line break of
Unicode in it, which JSON allows in a string. -/
theorem fenced_read_iff {tag body reply : List Char} {v : JsonValue} (hbody : loads body = .ok v)
    (h : Fenced tag body reply) :
    (∀ text, stripFence text = stripFences text) ∧
      (loads (stripFence (String.ofList reply)).toList = .ok v ↔ ∀ c ∈ body, ¬ IsWideBreak c) ∧
      (loads (stripFences (String.ofList reply)).toList = .ok v ↔ ∀ c ∈ body, ¬ IsWideBreak c) ∧
      (extractReply (String.ofList reply) = .ok v ↔ ∀ c ∈ body, ¬ IsWideBreak c) := by
  have hplanner : loads (stripFence (String.ofList reply)).toList = .ok v ↔ ∀ c ∈ body, ¬ IsWideBreak c := by
    rw [h.stripFence]
    exact loads_unifyLines_iff hbody
  refine ⟨stripFence_eq_stripFences, hplanner, ?_, ?_⟩
  · rw [← stripFence_eq_stripFences]
    exact hplanner
  · obtain ⟨c, hc, hwrites, -⟩ := stripChars_unifyLines hbody
    have hobject : ∀ items, v = .obj items → ∃ t, stripChars (unifyLines body) = '{' :: (t ++ ['}']) := by
      rintro items rfl
      obtain ⟨t, rfl⟩ := hwrites.braces items rfl
      refine ⟨unifyLines t, ?_⟩
      rw [hc, unifyLines_line_cons (by decide), unifyLines_blank_mark (by decide)]
      rfl
    unfold extractReply
    rw [String.toList_ofList, h.unfencedReply, loadsOrBraces_iff hobject]
    exact loads_unifyLines_iff hbody

theorem json_line : ∀ c ∈ "json".toList, isLineBreak c = false := List.all_iff_forall_prop.mp (by decide)

/-- An object in a fence of its own language. -/
theorem fenced_read_object :
    (∀ text, stripFence text = stripFences text) ∧
      loads (stripFence (String.ofList "```json\n\x7b\"a\": 1\x7d\n```".toList)).toList =
        .ok (.obj [(CodeString.ofChars "a".toList, .int 1)]) ∧
      loads (stripFences (String.ofList "```json\n\x7b\"a\": 1\x7d\n```".toList)).toList =
        .ok (.obj [(CodeString.ofChars "a".toList, .int 1)]) ∧
      extractReply (String.ofList "```json\n\x7b\"a\": 1\x7d\n```".toList) =
        .ok (.obj [(CodeString.ofChars "a".toList, .int 1)]) := by
  have hloads : loads "\x7b\"a\": 1\x7d".toList = .ok (.obj [(CodeString.ofChars "a".toList, .int 1)]) := by
    decide +kernel
  have hnarrow : ∀ c ∈ "\x7b\"a\": 1\x7d".toList, ¬ IsWideBreak c := by
    have hnone : ("\x7b\"a\": 1\x7d".toList.any fun c => IsWideBreak c) = false := by decide
    simpa only [List.any_eq_false, decide_eq_true_eq] using hnone
  have hfenced := @Fenced.intro "json".toList "\x7b\"a\": 1\x7d".toList [] ['\n'] ['\n'] [] [] (by simp) json_line
    (Or.inl rfl) (Or.inl rfl) (by simp) (by simp)
  obtain ⟨hsame, hplanner, hloader, hdesigner⟩ := fenced_read_iff hloads hfenced
  exact ⟨hsame, hplanner.mpr hnarrow, hloader.mpr hnarrow, hdesigner.mpr hnarrow⟩

/-- A line separator in a string is lost, and with it the text. -/
theorem fenced_line_separator :
    loads "\"\u2028\"".toList = .ok (.str [0x2028]) ∧
      Fenced "json".toList "\"\u2028\"".toList "```json\n\"\u2028\"\n```".toList ∧
      loads (stripFence "```json\n\"\u2028\"\n```").toList = .error (.jsonDecodeError "Invalid control character at") ∧
      loads (stripFences "```json\n\"\u2028\"\n```").toList = .error (.jsonDecodeError "Invalid control character at") ∧
      extractReply "```json\n\"\u2028\"\n```" = .error (.jsonDecodeError "Invalid control character at") :=
  ⟨by decide +kernel,
    @Fenced.intro "json".toList "\"\u2028\"".toList [] ['\n'] ['\n'] [] [] (by simp) json_line (Or.inl rfl) (Or.inl rfl)
      (by simp) (by simp),
    by decide +kernel, by decide +kernel, by decide +kernel⟩

end Galaxz
