import Mathlib.Data.List.Infix
import Galaxz.Rigel.Extraction
import Galaxz.Lib.JsonLexing

/-!
# The first JSON object of a text

An object between texts without brackets and quotation marks is found whole exactly when its braces, those in its
strings included, close at its end and not before.
-/

namespace Galaxz.Rigel

open JsonReader

/-! ## Braces -/

/-- What a character adds to the depth. -/
def braceWeight (c : Char) : ℤ := if c = '{' then 1 else if c = '}' then -1 else 0

/-- The braces opened less the braces closed, in strings as well. -/
def braceCount : List Char → ℤ
  | [] => 0
  | c :: cs => braceWeight c + braceCount cs

/-- The braces of a text close at its end and not before. -/
def BracesClose (t : List Char) : Prop := braceCount t = 0 ∧ ∀ p, p <+: t → p ≠ [] → p ≠ t → 0 < braceCount p

instance (t : List Char) : Decidable (BracesClose t) :=
  decidable_of_iff (braceCount t = 0 ∧ ∀ p ∈ t.inits, p ≠ [] → p ≠ t → 0 < braceCount p)
    (by simp only [BracesClose, List.mem_inits])

/-- From a depth, the text goes to depth zero at its end and not before. -/
def Closes (depth : ℤ) (u : List Char) : Prop :=
  depth + braceCount u = 0 ∧ ∀ p, p <+: u → p ≠ u → 0 < depth + braceCount p

theorem closes_nil {depth : ℤ} : Closes depth [] ↔ depth = 0 := by
  constructor
  · rintro ⟨h, -⟩
    simpa [braceCount] using h
  · rintro rfl
    exact ⟨rfl, fun p hp hne => absurd (List.prefix_nil.mp hp) hne⟩

theorem closes_zero {u : List Char} : Closes 0 u ↔ u = [] := by
  constructor
  · rintro ⟨-, hbefore⟩
    by_contra hne
    have h := hbefore [] List.nil_prefix (Ne.symm hne)
    exact absurd h (by decide)
  · rintro rfl
    exact closes_nil.mpr rfl

theorem closes_cons {depth : ℤ} {c : Char} {u : List Char} (hd : 0 < depth) :
    Closes depth (c :: u) ↔ Closes (depth + braceWeight c) u := by
  have hcount : ∀ p : List Char, depth + braceCount (c :: p) = depth + braceWeight c + braceCount p := by
    intro p
    rw [braceCount]
    omega
  constructor
  · rintro ⟨h, hbefore⟩
    refine ⟨by rw [← hcount]; exact h, fun p hp hne => ?_⟩
    rw [← hcount]
    exact hbefore (c :: p) (List.cons_prefix_cons.mpr ⟨rfl, hp⟩) fun heq => hne (List.cons.inj heq).2
  · rintro ⟨h, hbefore⟩
    refine ⟨by rw [hcount]; exact h, fun p hp hne => ?_⟩
    cases p with
    | nil => simpa [braceCount] using hd
    | cons a p =>
      obtain ⟨rfl, htail⟩ := List.cons_prefix_cons.mp hp
      rw [hcount]
      exact hbefore p htail fun heq => hne (by rw [heq])

/-- A text that starts with a brace. -/
theorem bracesClose_iff {t : List Char} : BracesClose ('{' :: t) ↔ Closes 1 t := by
  have hcount : ∀ p : List Char, braceCount ('{' :: p) = 1 + braceCount p := fun p => rfl
  constructor
  · rintro ⟨h, hbefore⟩
    refine ⟨by rw [← hcount]; exact h, fun p hp hne => ?_⟩
    rw [← hcount]
    exact hbefore _ (List.cons_prefix_cons.mpr ⟨rfl, hp⟩) (List.cons_ne_nil _ _) fun heq => hne (List.cons.inj heq).2
  · rintro ⟨h, hbefore⟩
    refine ⟨by rw [hcount]; exact h, fun p hp hnil hne => ?_⟩
    obtain ⟨a, p, rfl⟩ := List.exists_cons_of_ne_nil hnil
    obtain ⟨rfl, htail⟩ := List.cons_prefix_cons.mp hp
    rw [hcount]
    exact hbefore p htail fun heq => hne (by rw [heq])

/-- What the loop over the characters finds. -/
theorem braceBlock_iff {depth : ℤ} {cs u : List Char} (hd : 0 < depth) :
    braceBlock depth cs = some u ↔ u <+: cs ∧ Closes depth u := by
  induction cs generalizing depth u with
  | nil =>
    refine ⟨nofun, ?_⟩
    rintro ⟨hstarts, hcloses⟩
    rw [List.prefix_nil.mp hstarts, closes_nil] at hcloses
    omega
  | cons c cs ih =>
    -- a first character, and what is found behind it
    have hcons : ∀ {next : ℤ}, next = depth + braceWeight c → 0 < next →
        ((braceBlock next cs).map (fun u => c :: u) = some u ↔ u <+: c :: cs ∧ Closes depth u) := by
      rintro next rfl hnext
      rw [Option.map_eq_some_iff]
      constructor
      · rintro ⟨v, hv, rfl⟩
        obtain ⟨hstarts, hcloses⟩ := (ih hnext).mp hv
        exact ⟨List.cons_prefix_cons.mpr ⟨rfl, hstarts⟩, (closes_cons hd).mpr hcloses⟩
      · rintro ⟨hstarts, hcloses⟩
        cases u with
        | nil =>
          rw [closes_nil] at hcloses
          omega
        | cons a v =>
          obtain ⟨rfl, htail⟩ := List.cons_prefix_cons.mp hstarts
          exact ⟨v, (ih hnext).mpr ⟨htail, (closes_cons hd).mp hcloses⟩, rfl⟩
    rw [braceBlock]
    by_cases hopen : c = '{'
    · rw [if_pos hopen]
      exact hcons (by rw [braceWeight, if_pos hopen]) (by omega)
    · rw [if_neg hopen]
      by_cases hclose : c = '}'
      · have hweight : braceWeight c = -1 := by rw [braceWeight, if_neg hopen, if_pos hclose]
        rw [if_pos hclose]
        by_cases hone : depth - 1 = 0
        · rw [if_pos hone]
          have hzero : depth + braceWeight c = 0 := by omega
          constructor
          · intro h
            obtain rfl := Option.some.inj h
            refine ⟨List.cons_prefix_cons.mpr ⟨rfl, List.nil_prefix⟩, (closes_cons hd).mpr ?_⟩
            rw [closes_nil]
            exact hzero
          · rintro ⟨hstarts, hcloses⟩
            cases u with
            | nil =>
              rw [closes_nil] at hcloses
              omega
            | cons a v =>
              obtain ⟨rfl, -⟩ := List.cons_prefix_cons.mp hstarts
              rw [closes_cons hd, hzero, closes_zero] at hcloses
              rw [hcloses]
        · rw [if_neg hone]
          exact hcons (by rw [hweight]; omega) (by omega)
      · rw [if_neg hclose]
        exact hcons (by rw [braceWeight, if_neg hopen, if_neg hclose]; omega) hd

/-- The candidate from a brace on. -/
theorem braceBlock_zero_iff {cs u : List Char} :
    braceBlock 0 ('{' :: cs) = some u ↔ u <+: '{' :: cs ∧ u.head? = some '{' ∧ BracesClose u := by
  rw [braceBlock, if_pos rfl, Option.map_eq_some_iff]
  constructor
  · rintro ⟨v, hv, rfl⟩
    obtain ⟨hstarts, hcloses⟩ := (braceBlock_iff (by decide)).mp hv
    exact ⟨List.cons_prefix_cons.mpr ⟨rfl, hstarts⟩, rfl, bracesClose_iff.mpr hcloses⟩
  · rintro ⟨hstarts, hhead, hcloses⟩
    cases u with
    | nil => cases hhead
    | cons a v =>
      obtain ⟨rfl, htail⟩ := List.cons_prefix_cons.mp hstarts
      exact ⟨v, (braceBlock_iff (by decide)).mpr ⟨htail, bracesClose_iff.mp hcloses⟩, rfl⟩

theorem braceCount_append (a b : List Char) : braceCount (a ++ b) = braceCount a + braceCount b := by
  induction a with
  | nil => exact (Int.zero_add _).symm
  | cons c a ih =>
    rw [List.cons_append, braceCount, braceCount, ih]
    omega

/-- A text whose braces close at its end ends with a brace. -/
theorem BracesClose.last {u : List Char} (h : BracesClose u) (hhead : u.head? = some '{') :
    u.getLast? = some '}' := by
  rcases List.eq_nil_or_concat u with rfl | ⟨p, a, rfl⟩
  · cases hhead
  · rw [List.concat_eq_append] at h hhead ⊢
    rw [List.getLast?_concat]
    obtain ⟨hend, hbefore⟩ := h
    have hsum : braceCount p + braceWeight a = 0 := by
      have := braceCount_append p [a]
      simp only [braceCount] at this
      omega
    by_cases hclose : a = '}'
    · rw [hclose]
    · have hweight : 0 ≤ braceWeight a := by
        unfold braceWeight
        rw [if_neg hclose]
        split_ifs <;> decide
      cases p with
      | nil =>
        rw [Option.some.inj hhead] at hsum
        exact absurd hsum (by decide)
      | cons b p =>
        have hpos := hbefore (b :: p) (List.prefix_append _ _) (List.cons_ne_nil b p) (by simp)
        omega

/-! ## Parts of a text -/

/-- A part of a text lies in its middle when neither its first character nor its last one is outside. -/
theorem infix_middle {u before c after : List Char} (hne : u ≠ []) (hhead : ∀ x ∈ u.head?, x ∉ before)
    (hlast : ∀ x ∈ u.getLast?, x ∉ after) (h : u <:+: before ++ (c ++ after)) : u <:+: c := by
  obtain ⟨p, q, hpq⟩ := h
  rw [List.append_assoc] at hpq
  obtain ⟨a, ha⟩ : ∃ a, c ++ after = a ++ (u ++ q) := by
    rcases List.append_eq_append_iff.mp hpq with ⟨e, he, hrest⟩ | ⟨e, he, hrest⟩
    · cases e with
      | nil => exact ⟨[], hrest.symm⟩
      | cons x e =>
        obtain ⟨b, u, rfl⟩ := List.exists_cons_of_ne_nil hne
        rw [List.cons_append, List.cons_append] at hrest
        refine absurd ?_ (hhead b rfl)
        rw [he, (List.cons.inj hrest).1]
        exact List.mem_append_right p List.mem_cons_self
    · exact ⟨e, hrest⟩
  rw [← List.append_assoc] at ha
  rcases List.append_eq_append_iff.mp ha with ⟨e, he, hrest⟩ | ⟨e, he, hrest⟩
  · rcases List.eq_nil_or_concat e with rfl | ⟨e, x, rfl⟩
    · rw [List.append_nil] at he
      exact ⟨a, [], by rw [he, List.append_nil]⟩
    · rcases List.eq_nil_or_concat u with rfl | ⟨u, y, rfl⟩
      · exact absurd rfl hne
      · simp only [List.concat_eq_append] at he hrest hlast
        rw [← List.append_assoc, ← List.append_assoc] at he
        have hxy : x = y := by
          have := congrArg List.getLast? he
          rw [List.getLast?_concat, List.getLast?_concat] at this
          exact (Option.some.inj this).symm
        refine absurd ?_ (hlast y (by rw [List.getLast?_concat]; rfl))
        rw [hrest, hxy]
        simp
  · exact ⟨a, e, he.symm⟩

/-! ## Repairs -/

/-- No three quotation marks stand together. -/
def NoTriple (x : List Char) : Prop := ¬ tripleQuote <:+: x

/-- A JSON text has no three quotation marks together. -/
theorem noTriple_of_lexes {x : List Char} {m : LexMode} (h : (lexes m x).isSome) : NoTriple x := by
  have hnone : ∀ m : LexMode, lexes m tripleQuote = none := by
    intro m
    cases m <;> decide
  rintro ⟨p, q, rfl⟩
  rw [lexes_append, lexes_append] at h
  cases hp : lexes m p with
  | none =>
    rw [hp] at h
    cases h
  | some m' =>
    rw [hp, Option.bind_some, hnone] at h
    cases h

theorem NoTriple.around {before c after : List Char} (h : NoTriple c) (hbefore : '"' ∉ before) (hafter : '"' ∉ after) :
    NoTriple (before ++ (c ++ after)) := by
  intro htriple
  refine h (infix_middle (by decide) ?_ ?_ htriple)
  · rintro x hx
    obtain rfl : '"' = x := Option.some.inj hx
    exact hbefore
  · rintro x hx
    obtain rfl : '"' = x := Option.some.inj hx
    exact hafter

theorem fixTripleQuotes_noTriple {x : List Char} (h : NoTriple x) : fixTripleQuotes x = x := by
  unfold fixTripleQuotes
  generalize x.length = n
  induction n generalizing x with
  | zero => rfl
  | succ n ih =>
    cases x with
    | nil => rfl
    | cons c cs =>
      have hhead : ¬ tripleQuote.isPrefixOf (c :: cs) = true :=
        fun hp => h (List.isPrefixOf_iff_prefix.mp hp).isInfix
      have htail : NoTriple cs := fun hi => h (hi.trans (List.suffix_cons c cs).isInfix)
      rw [fixTripleQuotesFrom, if_neg hhead, ih htail]

theorem fixEscapes_head (x : List Char) : (fixEscapes x).head? = x.head? := by
  induction x using fixEscapes.induct with
  | case1 => rfl
  | case2 c cs hc ih => rw [fixEscapes, if_pos hc, List.head?_cons, List.head?_cons]
  | case3 c cs hc ih => rw [fixEscapes, if_neg hc, List.head?_cons, List.head?_cons]
  | case4 c cs hne ih =>
    rw [fixEscapes, List.head?_cons, List.head?_cons]
    exact hne

/-- The repair adds backslashes only. -/
theorem fixEscapes_filter (x : List Char) :
    (fixEscapes x).filter (fun c => c ≠ '\\') = x.filter fun c => c ≠ '\\' := by
  induction x using fixEscapes.induct with
  | case1 => rfl
  | case2 c cs hc ih =>
    rw [fixEscapes, if_pos hc]
    simp only [List.filter_cons] at ih ⊢
    rw [ih]
    simp
  | case3 c cs hc ih =>
    have hdrop : ∀ l : List Char, ('\\' :: l).filter (fun c => c ≠ '\\') = l.filter fun c => c ≠ '\\' :=
      fun l => List.filter_cons_of_neg (by decide)
    rw [fixEscapes, if_neg hc, hdrop, ih, hdrop]
  | case4 c cs hne ih =>
    rw [fixEscapes]
    · rw [List.filter_cons, List.filter_cons, ih]
    · exact hne

theorem mem_fixEscapes {x : List Char} {c : Char} (hc : c ≠ '\\') : c ∈ fixEscapes x ↔ c ∈ x := by
  have hfilter := fixEscapes_filter x
  have hiff : c ∈ (fixEscapes x).filter (fun c => c ≠ '\\') ↔ c ∈ x.filter fun c => c ≠ '\\' := by rw [hfilter]
  rw [List.mem_filter, List.mem_filter] at hiff
  simpa [hc] using hiff

theorem mem_fixEscapes_slash {x : List Char} (h : '\\' ∈ x) : '\\' ∈ fixEscapes x := by
  induction x using fixEscapes.induct with
  | case1 => exact absurd h List.not_mem_nil
  | case2 c cs hc ih =>
    rw [fixEscapes, if_pos hc]
    exact List.mem_cons_self
  | case3 c cs hc ih =>
    rw [fixEscapes, if_neg hc]
    exact List.mem_cons_self
  | case4 c cs hne ih =>
    rw [fixEscapes]
    · rcases List.mem_cons.mp h with rfl | h
      · exact List.mem_cons_self
      · exact List.mem_cons_of_mem c (ih h)
    · exact hne

theorem fixEscapes_append {a b : List Char} (h : a.getLast? ≠ some '\\') :
    fixEscapes (a ++ b) = fixEscapes a ++ fixEscapes b := by
  induction a using fixEscapes.induct with
  | case1 => rfl
  | case2 c cs hc ih =>
    have hrest : cs.getLast? ≠ some '\\' := by
      intro hlast
      refine h ?_
      rw [List.getLast?_cons_cons, List.getLast?_cons, hlast]
      rfl
    rw [List.cons_append, List.cons_append, fixEscapes, if_pos hc, fixEscapes, if_pos hc, ih hrest]
    rfl
  | case3 c cs hc ih =>
    have hrest : (c :: cs).getLast? ≠ some '\\' := by
      rw [List.getLast?_cons_cons] at h
      exact h
    rw [List.cons_append, List.cons_append, fixEscapes, if_neg hc, fixEscapes, if_neg hc, ← List.cons_append,
      ih hrest]
    rfl
  | case4 c cs hne ih =>
    have hne' : ∀ d ds, c = '\\' → cs ++ b = d :: ds → False := by
      rintro d ds rfl hcons
      cases cs with
      | nil => exact h rfl
      | cons e cs => exact hne e cs rfl rfl
    have hrest : cs.getLast? ≠ some '\\' := by
      intro hlast
      refine h ?_
      rw [List.getLast?_cons, hlast]
      rfl
    rw [List.cons_append, fixEscapes, ih hrest, fixEscapes, List.cons_append]
    · exact hne
    · exact hne'

/-- A valid escape, for the repair and for JSON. -/
theorem isEscape_iff {c : Char} : isEscape c = true ↔ c ∈ validEscapes := by
  constructor
  · intro h
    by_contra hmem
    unfold validEscapes at hmem
    simp only [List.mem_cons, List.not_mem_nil, or_false, not_or] at hmem
    obtain ⟨h₁, h₂, h₃, h₄, h₅, h₆, h₇, h₈, h₉⟩ := hmem
    unfold isEscape at h
    rw [decide_eq_false h₉, Bool.false_or, escapeValue, List.lookup_isSome_iff] at h
    obtain ⟨p, hp, heq⟩ := h
    simp only [List.mem_cons, List.not_mem_nil, or_false] at hp
    have hc := beq_iff_eq.mp heq
    rcases hp with rfl | rfl | rfl | rfl | rfl | rfl | rfl | rfl <;> contradiction
  · have hall : ∀ c ∈ validEscapes, isEscape c = true := List.all_iff_forall_prop.mp (by decide)
    exact hall c

/-- In a JSON text the repair of the escapes finds nothing, or it breaks one. -/
theorem fixEscapes_lexes {x : List Char} {m : LexMode} (h : (lexes m x).isSome) :
    fixEscapes x = x ∨ lexes m (fixEscapes x) = none := by
  have hstep : ∀ {m : LexMode} {c : Char} {cs : List Char}, (lexes m (c :: cs)).isSome →
      ∃ m', lexStep m c = some m' ∧ (lexes m' cs).isSome := by
    intro m c cs h
    obtain ⟨e, he⟩ := Option.isSome_iff_exists.mp h
    obtain ⟨m', hm', hrest⟩ := Option.bind_eq_some_iff.mp he
    exact ⟨m', hm', by rw [hrest]; rfl⟩
  induction x using fixEscapes.induct generalizing m with
  | case1 => exact Or.inl rfl
  | case2 c cs hc ih =>
    right
    obtain ⟨m₁, hm₁, h₁⟩ := hstep h
    obtain ⟨m₂, hm₂, -⟩ := hstep h₁
    have hescape : isEscape c = false := by
      rw [← Bool.not_eq_true, isEscape_iff]
      exact hc
    rw [fixEscapes, if_pos hc]
    cases m with
    | outside =>
      have hnone : lexStep .outside '\\' = none := by decide
      rw [hnone] at hm₁
      cases hm₁
    | closed =>
      have hnone : lexStep .closed '\\' = none := by decide
      rw [hnone] at hm₁
      cases hm₁
    | inside =>
      obtain rfl := Option.some.inj hm₁
      rw [lexStep, hescape] at hm₂
      cases hm₂
    | escaped =>
      -- the second of two backslashes is taken for the first of an escape
      have hfirst : lexStep .escaped '\\' = some .inside := by decide
      have hsecond : lexStep .inside '\\' = some .escaped := by decide
      rw [lexes_cons hfirst, lexes_cons hsecond, lexes, lexStep, hescape]
      rfl
  | case3 c cs hc ih =>
    obtain ⟨m₁, hm₁, h₁⟩ := hstep h
    rw [fixEscapes, if_neg hc]
    rcases ih h₁ with heq | hnone
    · exact Or.inl (by rw [heq])
    · exact Or.inr (by rw [lexes_cons hm₁, hnone])
  | case4 c cs hne ih =>
    obtain ⟨m₁, hm₁, h₁⟩ := hstep h
    rw [fixEscapes]
    · rcases ih h₁ with heq | hnone
      · exact Or.inl (by rw [heq])
      · exact Or.inr (by rw [lexes_cons hm₁, hnone])
    · exact hne

/-! ## Attempts -/

theorem tryParse_iff {s : List Char} : tryParse s = true ↔ ∃ v, loads s = .ok v := by
  unfold tryParse
  cases loads s with
  | error e => exact ⟨nofun, fun ⟨v, hv⟩ => by cases hv⟩
  | ok v => exact ⟨fun _ => ⟨v, rfl⟩, fun _ => rfl⟩

/-- Without three quotation marks there are two attempts. -/
theorem tryParseFixed_noTriple {s : List Char} (h : NoTriple s) : tryParseFixed s =
    if tryParse s then some s else if tryParse (fixEscapes s) then some (fixEscapes s) else none := by
  unfold tryParseFixed
  rw [fixTripleQuotes_noTriple h]
  by_cases hraw : tryParse s = true
  · simp only [hraw, if_true]
  · by_cases hfixed : tryParse (fixEscapes s) = true
    · simp only [hraw, hfixed, if_true, if_false, Bool.false_eq_true]
    · simp only [hraw, hfixed, if_false, Bool.false_eq_true]

theorem tryParseFixed_self {s : List Char} {v : JsonValue} (h : loads s = .ok v) : tryParseFixed s = some s := by
  unfold tryParseFixed
  rw [if_pos (tryParse_iff.mpr ⟨v, h⟩)]

/-- What starts with a word or a number and has a brace in it is no JSON. -/
theorem not_loads_prose {a : Char} {x : List Char} (ha : isWs a = false) (hmark : a ∉ ['"', '[', '{'])
    (hbrace : '{' ∈ x) (v : JsonValue) : loads (a :: x) ≠ .ok v := by
  intro hloads
  obtain ⟨w, c, w', hsplit, hw, hw', hwrites⟩ := loads_iff.mp hloads
  obtain rfl : w = [] := by
    cases w with
    | nil => rfl
    | cons b w =>
      have hb := hw b List.mem_cons_self
      rw [← (List.cons.inj hsplit).1, ha] at hb
      cases hb
  obtain ⟨b, t, hcons, -⟩ := hwrites.head
  have hab : b = a := by
    rw [hcons] at hsplit
    exact (List.cons.inj hsplit).1.symm
  rw [hab] at hcons
  have hliteral : literal c = .ok (v, []) := by
    cases hwrites with
    | literal h => exact h
    | string | emptyArray | array | emptyObject | object =>
      rw [← (List.cons.inj hcons).1] at hmark
      exact absurd hmark (by decide)
  have hmem : '{' ∈ c ++ w' := by
    rw [List.nil_append] at hsplit
    rw [← hsplit]
    exact List.mem_cons_of_mem a hbrace
  rcases List.mem_append.mp hmem with hmem | hmem
  · exact absurd ((literal_chars hliteral).2.1 '{' hmem) (by decide)
  · exact absurd ( hw' '{' hmem) (by decide)

/-! ## An object in prose -/

/-- A text of the kind that may stand around an object. -/
def Prose (x : List Char) : Prop := ∀ c ∈ x, c ∉ ['{', '}', '[', ']', '"']

instance (x : List Char) : Decidable (Prose x) := List.decidableBAll _ x

/-- An object with prose before or behind it is no JSON, and repairing its escapes does not make it JSON. -/
theorem not_loads_around {before c after : List Char} {items : List (CodeString × JsonValue)}
    (h : Writes (.value (.obj items)) c) (hbefore : Prose before) (hafter : Prose after)
    (hhead : ∀ a ∈ before.head?, isPySpace a = false) (hlast : ∀ a ∈ after.getLast?, isPySpace a = false)
    (hsome : before ≠ [] ∨ after ≠ []) (v : JsonValue) :
    loads (before ++ (c ++ after)) ≠ .ok v ∧ loads (fixEscapes (before ++ (c ++ after))) ≠ .ok v := by
  obtain ⟨t, ht⟩ := h.braces items rfl
  have hmem : '{' ∈ c := by
    rw [ht]
    exact List.mem_cons_self
  cases before with
  | cons a before =>
    have ha : isWs a = false := by
      rw [← Bool.not_eq_true]
      intro hws
      have hspace := hhead a rfl
      rw [isPySpace_of_ws hws] at hspace
      cases hspace
    have hmark : a ∉ ['"', '[', '{'] := by
      intro hmem
      refine hbefore a List.mem_cons_self ?_
      simp only [List.mem_cons, List.not_mem_nil, or_false] at hmem ⊢
      tauto
    have hbrace : '{' ∈ before ++ (c ++ after) := by simp [hmem]
    refine ⟨not_loads_prose ha hmark hbrace v, ?_⟩
    have hfixed : '{' ∈ fixEscapes (a :: (before ++ (c ++ after))) :=
      (mem_fixEscapes (by decide)).mpr (List.mem_cons_of_mem a hbrace)
    have hfirst := fixEscapes_head (a :: (before ++ (c ++ after)))
    rw [List.cons_append]
    cases hcons : fixEscapes (a :: (before ++ (c ++ after))) with
    | nil =>
      rw [hcons] at hfirst
      cases hfirst
    | cons b x =>
      rw [hcons] at hfirst hfixed
      obtain rfl : b = a := Option.some.inj hfirst
      refine not_loads_prose ha hmark ?_ v
      rcases List.mem_cons.mp hfixed with heq | hx
      · rw [← heq] at hmark
        exact absurd hmark (by decide)
      · exact hx
  | nil =>
    obtain ⟨p, a, rfl⟩ : ∃ p a, after = p ++ [a] := by
      rcases List.eq_nil_or_concat after with rfl | ⟨p, a, rfl⟩
      · exact absurd rfl (hsome.resolve_left fun hne => hne rfl)
      · exact ⟨p, a, List.concat_eq_append⟩
    have ha : isPySpace a = false := hlast a (by rw [List.getLast?_concat]; rfl)
    have hnotBlank : ∀ {x : List Char}, a ∈ x → ¬ Blank x := by
      intro x hx hblank
      rw [isPySpace_of_ws (hblank a hx)] at ha
      cases ha
    rw [List.nil_append]
    refine ⟨fun hloads => hnotBlank (by simp) (h.blank_of_loads hloads), fun hloads => ?_⟩
    have hlastc : c.getLast? ≠ some '\\' := by
      rw [ht, ← List.cons_append, List.getLast?_concat]
      decide
    rw [fixEscapes_append hlastc] at hloads
    have hsome' : (lexes .outside c).isSome := by
      obtain ⟨m, -, hread⟩ := h.lexes
      have hend := hread []
      rw [List.append_nil] at hend
      rw [hend]
      rfl
    rcases fixEscapes_lexes hsome' with heq | hnone
    · rw [heq] at hloads
      have hblank := h.blank_of_loads hloads
      by_cases hback : a = '\\'
      · -- the last character stays, whatever happens before it
        have hslash : '\\' ∈ fixEscapes (p ++ [a]) := by
          rw [hback]
          exact mem_fixEscapes_slash (by simp)
        rw [← hback] at hslash
        exact hnotBlank hslash hblank
      · exact hnotBlank ((mem_fixEscapes hback).mpr (by simp)) hblank
    · have hlexes := lexes_of_loads hloads
      rw [lexes_append, hnone] at hlexes
      cases hlexes

/-! ## The search -/

theorem firstObject_skip {before : List Char} (h : '{' ∉ before) (x : List Char) :
    firstObject (before ++ x) = firstObject x := by
  induction before with
  | nil => rfl
  | cons c before ih =>
    have hc : c ≠ '{' := fun heq => h (heq ▸ List.mem_cons_self)
    rw [List.cons_append, firstObject, if_neg hc]
    exact ih fun hmem => h (List.mem_cons_of_mem c hmem)

/-- What the search returns is a repaired candidate. -/
theorem firstObject_some {x result : List Char} (h : firstObject x = some result) :
    ∃ u, u <:+: x ∧ u.head? = some '{' ∧ BracesClose u ∧ tryParseFixed u = some result := by
  induction x with
  | nil => cases h
  | cons c cs ih =>
    have hlater : firstObject cs = some result →
        ∃ u, u <:+: c :: cs ∧ u.head? = some '{' ∧ BracesClose u ∧ tryParseFixed u = some result := by
      intro h
      obtain ⟨u, hu, hrest⟩ := ih h
      exact ⟨u, hu.trans (List.suffix_cons c cs).isInfix, hrest⟩
    rw [firstObject] at h
    by_cases hc : c = '{'
    · rw [if_pos hc] at h
      split at h
      · next r hr =>
        obtain rfl := Option.some.inj h
        obtain ⟨u, hblock, hfixed⟩ := Option.bind_eq_some_iff.mp hr
        rw [hc] at hblock ⊢
        obtain ⟨hstarts, hhead, hcloses⟩ := braceBlock_zero_iff.mp hblock
        exact ⟨u, hstarts.isInfix, hhead, hcloses, hfixed⟩
      · exact hlater h
    · rw [if_neg hc] at h
      exact hlater h

theorem firstObject_closes {c after : List Char} {v : JsonValue} (hhead : c.head? = some '{') (hcloses : BracesClose c)
    (hloads : loads c = .ok v) : firstObject (c ++ after) = some c := by
  cases c with
  | nil => cases hhead
  | cons a t =>
    obtain rfl : a = '{' := Option.some.inj hhead
    have hblock : braceBlock 0 ('{' :: (t ++ after)) = some ('{' :: t) :=
      braceBlock_zero_iff.mpr ⟨List.prefix_append _ _, rfl, hcloses⟩
    rw [List.cons_append, firstObject, if_pos rfl, hblock, Option.bind_some, tryParseFixed_self hloads]

/-- A candidate within an object's text that is repaired to the whole text is the whole text. -/
theorem eq_of_fixed {c u : List Char} (hu : u <:+: c) (hhead : c.head? = some '{') (hlast : c.getLast? = some '}')
    (h : fixEscapes u = c) : u = c := by
  obtain ⟨p, q, hpq⟩ := hu
  have hfilter := fixEscapes_filter u
  rw [h, ← hpq, List.filter_append, List.filter_append] at hfilter
  have hlength := congrArg List.length hfilter
  simp only [List.length_append] at hlength
  -- only backslashes can be around the candidate, and the text starts and ends with a brace
  have hslashes : ∀ {l : List Char}, (l.filter fun c => c ≠ '\\').length = 0 → ∀ c ∈ l, c = '\\' := by
    intro l hl c hc
    have hempty := List.filter_eq_nil_iff.mp (List.eq_nil_of_length_eq_zero hl) c hc
    simpa using hempty
  have hp : p = [] := by
    cases p with
    | nil => rfl
    | cons a p =>
      have ha := hslashes (l := a :: p) (by omega) a List.mem_cons_self
      rw [← hpq] at hhead
      rw [Option.some.inj hhead] at ha
      exact absurd ha (by decide)
  have hq : q = [] := by
    rcases List.eq_nil_or_concat q with rfl | ⟨q, a, rfl⟩
    · rfl
    · rw [List.concat_eq_append] at hpq hlength
      have ha := hslashes (l := q ++ [a]) (by omega) a (by simp)
      rw [← hpq, ← List.append_assoc, List.getLast?_concat] at hlast
      rw [Option.some.inj hlast] at ha
      exact absurd ha (by decide)
  rw [← hpq, hp, hq, List.nil_append, List.append_nil]

/-! ## The result -/

/-- Nothing but spaces is around the object. -/
def Alone (before after : List Char) : Prop :=
  (∀ a ∈ before, isPySpace a = true) ∧ ∀ a ∈ after, isPySpace a = true

theorem prose_blank {w : List Char} (hw : Blank w) : Prose w := by
  intro c hc hmem
  have hws := hw c hc
  simp only [List.mem_cons, List.not_mem_nil, or_false] at hmem
  rcases hmem with rfl | rfl | rfl | rfl | rfl <;> exact absurd hws (by decide)

/-- What the search makes of an object in prose. -/
theorem extractJson_around {before c after : List Char} {items : List (CodeString × JsonValue)}
    (h : Writes (.value (.obj items)) c) (hbefore : Prose before) (hafter : Prose after) :
    (Alone before after → extractJson (before ++ (c ++ after)) = c) ∧
      (BracesClose c → extractJson (before ++ (c ++ after)) = c) ∧
      (¬ Alone before after → ¬ BracesClose c → ∀ v, loads (extractJson (before ++ (c ++ after))) = .ok v →
        ∃ u, u <:+: c ∧ u ≠ c ∧ (extractJson (before ++ (c ++ after)) = u ∨
          extractJson (before ++ (c ++ after)) = fixEscapes u)) := by
  obtain ⟨t, ht⟩ := h.braces items rfl
  have hhead : c.head? = some '{' := by rw [ht]; rfl
  have hlast : c.getLast? = some '}' := by rw [ht, ← List.cons_append, List.getLast?_concat]
  have hloads : loads c = .ok (.obj items) :=
    loads_iff.mpr ⟨[], c, [], by simp, blank_nil, blank_nil, h⟩
  have hne : before ++ (c ++ after) ≠ [] := by simp [ht]
  have hstrip := stripChars_middle before after h.head h.last
  have hfront : ∀ a ∈ (before.dropWhile isPySpace).head?, isPySpace a = false := by
    intro a ha
    have hnot := List.head?_dropWhile_not isPySpace before
    rw [Option.mem_def.mp ha] at hnot
    exact hnot
  have hback : ∀ a ∈ (after.rdropWhile isPySpace).getLast?, isPySpace a = false := by
    intro a ha
    have hnil : after.rdropWhile isPySpace ≠ [] := by
      intro hnil
      rw [hnil] at ha
      cases ha
    have hnot := List.rdropWhile_last_not isPySpace after hnil
    rw [List.getLast?_eq_some_getLast hnil] at ha
    rw [Option.some.inj ha] at hnot
    simpa using hnot
  have hprose : Prose (before.dropWhile isPySpace) := fun a ha => hbefore a (List.dropWhile_suffix _ |>.subset ha)
  have hprose' : Prose (after.rdropWhile isPySpace) := fun a ha => hafter a (List.rdropWhile_prefix _ _ |>.subset ha)
  have halone : Alone before after ↔ before.dropWhile isPySpace = [] ∧ after.rdropWhile isPySpace = [] := by
    rw [List.dropWhile_eq_nil_iff, List.rdropWhile_eq_nil_iff]
    rfl
  unfold extractJson
  rw [if_neg hne, hstrip]
  have hnoTriple : NoTriple (before.dropWhile isPySpace ++ (c ++ after.rdropWhile isPySpace)) := by
    have hc := noTriple_of_lexes (lexes_of_loads hloads)
    refine hc.around (fun hmem => ?_) fun hmem => ?_
    · exact hprose _ hmem (by decide)
    · exact hprose' _ hmem (by decide)
  by_cases hspaces : Alone before after
  · obtain ⟨hp, hq⟩ := halone.mp hspaces
    rw [hp, hq, List.nil_append, List.append_nil]
    dsimp only
    rw [tryParseFixed_self hloads]
    exact ⟨fun _ => rfl, fun _ => rfl, fun hnot => absurd hspaces hnot⟩
  · have hsome : before.dropWhile isPySpace ≠ [] ∨ after.rdropWhile isPySpace ≠ [] := by
      by_contra hnone
      push Not at hnone
      exact hspaces (halone.mpr hnone)
    have hwhole := not_loads_around h hprose hprose' hfront hback hsome
    have hfails : tryParseFixed (before.dropWhile isPySpace ++ (c ++ after.rdropWhile isPySpace)) = none := by
      rw [tryParseFixed_noTriple hnoTriple, if_neg, if_neg]
      · intro hparse
        obtain ⟨v, hv⟩ := tryParse_iff.mp hparse
        exact (hwhole v).2 hv
      · intro hparse
        obtain ⟨v, hv⟩ := tryParse_iff.mp hparse
        exact (hwhole v).1 hv
    dsimp only
    rw [hfails]
    refine ⟨fun hal => absurd hal hspaces, fun hcloses => ?_, fun _ hopen v hv => ?_⟩
    · dsimp only
      rw [firstObject_skip (fun hmem => hprose _ hmem (by decide)), firstObject_closes hhead hcloses hloads]
      rfl
    · dsimp only at hv ⊢
      cases hfirst : firstObject (before.dropWhile isPySpace ++ (c ++ after.rdropWhile isPySpace)) with
      | none =>
        rw [hfirst] at hv
        exact absurd hv (hwhole v).1
      | some result =>
        obtain ⟨u, hu, huhead, hucloses, hfixed⟩ := firstObject_some hfirst
        have hune : u ≠ [] := by
          rintro rfl
          cases huhead
        have hinner : u <:+: c := by
          refine infix_middle hune (fun x hx hmem => ?_) (fun x hx hmem => ?_) hu
          · rw [Option.mem_def.mp hx] at huhead
            rw [Option.some.inj huhead] at hmem
            exact hprose _ hmem (by decide)
          · have hulast := hucloses.last huhead
            rw [Option.mem_def.mp hx] at hulast
            rw [Option.some.inj hulast] at hmem
            exact hprose' _ hmem (by decide)
        have huTriple : NoTriple u := fun hi => hnoTriple (hi.trans hu)
        refine ⟨u, hinner, fun heq => hopen (heq ▸ hucloses), ?_⟩
        rw [tryParseFixed_noTriple huTriple] at hfixed
        show result = u ∨ result = fixEscapes u
        split_ifs at hfixed
        · exact Or.inl (Option.some.inj hfixed).symm
        · exact Or.inr (Option.some.inj hfixed).symm

/-- An object in prose is extracted as it is written exactly when it stands alone or its braces, those in its
strings included, close at its end and not before; then its value is found. Otherwise its value could come from
a smaller part of its text only. A text that is JSON as a whole is only stripped. -/
theorem extractJson_object_iff {before t after : List Char} {items : List (CodeString × JsonValue)}
    (ht : loads t = .ok (.obj items)) (hbefore : Prose before) (hafter : Prose after) :
    (extractJson (before ++ t ++ after) = stripChars t ↔ Alone before after ∨ BracesClose (stripChars t)) ∧
      (Alone before after ∨ BracesClose (stripChars t) →
        loads (extractJson (before ++ t ++ after)) = .ok (.obj items)) ∧
      (loads (extractJson (before ++ t ++ after)) = .ok (.obj items) →
        (Alone before after ∨ BracesClose (stripChars t)) ∨ ∃ u, u <:+: stripChars t ∧ u ≠ stripChars t ∧
          (loads u = .ok (.obj items) ∨ loads (fixEscapes u) = .ok (.obj items))) ∧
      ∀ text v, loads text = .ok v → extractJson text = stripChars text ∧ loads (extractJson text) = .ok v := by
  obtain ⟨w, c, w', rfl, hw, hw', h⟩ := loads_iff.mp ht
  have hspace : ∀ {w : List Char}, Blank w → ∀ a ∈ w, isPySpace a = true := fun hw a ha => isPySpace_of_ws (hw a ha)
  have hstrip : stripChars (w ++ (c ++ w')) = c := stripChars_around (hspace hw) (hspace hw') h.head h.last
  have hloads : loads c = .ok (.obj items) := loads_iff.mpr ⟨[], c, [], by simp, blank_nil, blank_nil, h⟩
  have hassoc : before ++ (w ++ (c ++ w')) ++ after = (before ++ w) ++ (c ++ (w' ++ after)) := by simp
  have hp : Prose (before ++ w) := List.forall_mem_append.mpr ⟨hbefore, prose_blank hw⟩
  have hq : Prose (w' ++ after) := List.forall_mem_append.mpr ⟨prose_blank hw', hafter⟩
  have halone : Alone (before ++ w) (w' ++ after) ↔ Alone before after := by
    unfold Alone
    rw [List.forall_mem_append, List.forall_mem_append]
    exact ⟨fun hal => ⟨hal.1.1, hal.2.2⟩, fun hal => ⟨⟨hal.1, hspace hw⟩, hspace hw', hal.2⟩⟩
  obtain ⟨hspaces, hcloses, hother⟩ := extractJson_around h hp hq
  rw [halone] at hspaces hother
  rw [hassoc, hstrip]
  have hfound : Alone before after ∨ BracesClose c → extractJson ((before ++ w) ++ (c ++ (w' ++ after))) = c :=
    fun hcond => hcond.elim hspaces hcloses
  have hhead : c.head? = some '{' := by
    obtain ⟨t, ht⟩ := h.braces items rfl
    rw [ht]
    rfl
  have hlast : c.getLast? = some '}' := by
    obtain ⟨t, ht⟩ := h.braces items rfl
    rw [ht, ← List.cons_append, List.getLast?_concat]
  refine ⟨⟨fun heq => ?_, hfound⟩, fun hcond => by rw [hfound hcond]; exact hloads, fun hvalue => ?_, ?_⟩
  · by_contra hnot
    push Not at hnot
    obtain ⟨u, hu, hne, hresult⟩ := hother hnot.1 hnot.2 (.obj items) (by rw [heq]; exact hloads)
    rw [heq] at hresult
    rcases hresult with hraw | hfixed
    · exact hne hraw.symm
    · exact hne (eq_of_fixed hu hhead hlast hfixed.symm)
  · by_cases hcond : Alone before after ∨ BracesClose c
    · exact Or.inl hcond
    · push Not at hcond
      obtain ⟨u, hu, hne, hresult⟩ := hother hcond.1 hcond.2 _ hvalue
      refine Or.inr ⟨u, hu, hne, ?_⟩
      rcases hresult with hraw | hfixed
      · exact Or.inl (by rw [← hraw]; exact hvalue)
      · exact Or.inr (by rw [← hfixed]; exact hvalue)
  · intro text v htext
    obtain ⟨x, d, x', rfl, hx, hx', hd⟩ := loads_iff.mp htext
    have hd' : loads d = .ok v := loads_iff.mpr ⟨[], d, [], by simp, blank_nil, blank_nil, hd⟩
    have hstripd : stripChars (x ++ (d ++ x')) = d := stripChars_around (hspace hx) (hspace hx') hd.head hd.last
    have hne : x ++ (d ++ x') ≠ [] := by
      obtain ⟨a, r, rfl, -⟩ := hd.head
      simp
    have hresult : extractJson (x ++ (d ++ x')) = d := by
      unfold extractJson
      rw [if_neg hne, hstripd]
      dsimp only
      rw [tryParseFixed_self hd']
    rw [hresult, hstripd]
    exact ⟨rfl, hd'⟩

/-- An object with a plain string, between two words. -/
theorem extractJson_object_words :
    extractJson ("see ".toList ++ "\x7b\"a\": \"b\"\x7d".toList ++ " ok".toList) = "\x7b\"a\": \"b\"\x7d".toList ∧
      loads (extractJson ("see ".toList ++ "\x7b\"a\": \"b\"\x7d".toList ++ " ok".toList)) =
        .ok (.obj [(CodeString.ofChars "a".toList, .str (CodeString.ofChars "b".toList))]) := by
  have hloads : loads "\x7b\"a\": \"b\"\x7d".toList =
      .ok (.obj [(CodeString.ofChars "a".toList, .str (CodeString.ofChars "b".toList))]) := by decide +kernel
  have hstrip : stripChars "\x7b\"a\": \"b\"\x7d".toList = "\x7b\"a\": \"b\"\x7d".toList := by decide +kernel
  have hclose : BracesClose "\x7b\"a\": \"b\"\x7d".toList := by decide +kernel
  have hfound := (@extractJson_object_iff "see ".toList "\x7b\"a\": \"b\"\x7d".toList " ok".toList _ hloads (by decide)
    (by decide)).1
  rw [hstrip] at hfound
  have htext := hfound.mpr (Or.inr hclose)
  rw [htext]
  exact ⟨rfl, hloads⟩

/-- A closing brace in a string ends the candidate, and nothing is found. -/
theorem extractJson_brace_in_string :
    loads "\x7b\"a\": \"\x7d\"\x7d".toList =
        .ok (.obj [(CodeString.ofChars "a".toList, .str (CodeString.ofChars "\x7d".toList))]) ∧
      Prose "see ".toList ∧ Prose "".toList ∧
      extractJson ("see ".toList ++ "\x7b\"a\": \"\x7d\"\x7d".toList ++ "".toList) =
        "see \x7b\"a\": \"\x7d\"\x7d".toList ∧
      loads (extractJson ("see ".toList ++ "\x7b\"a\": \"\x7d\"\x7d".toList ++ "".toList)) =
        .error (.jsonDecodeError "Expecting value") :=
  ⟨by decide +kernel, by decide, by decide, by decide +kernel, by decide +kernel⟩

end Galaxz.Rigel
