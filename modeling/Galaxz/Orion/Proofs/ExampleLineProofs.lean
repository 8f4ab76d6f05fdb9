import Galaxz.Lib.JsonEquality
import Galaxz.Lib.JsonLexing
import Galaxz.Orion.Migration
import Mathlib.Data.List.Chain

/-!
# The line of an example

An example is read back from its line. Where `splitlines` takes the line apart, inside one of the texts, no part of it
is an object with a key.
-/

namespace Galaxz

open JsonReader JsonWriter

/-! ## Line breaks and spaces in a JSON text -/

theorem lineBreak_bounds {c : Char} (h : isLineBreak c = true) : c.toNat < 32 ∨ 127 ≤ c.toNat := by
  unfold isLineBreak at h
  simp only [Bool.or_eq_true, Bool.and_eq_true, decide_eq_true_eq, beq_iff_eq] at h
  omega

/-- A line break other than the two that are white space stands in a string. -/
theorem lexStep_lineBreak {m m' : LexMode} {c : Char} (hc : isLineBreak c = true) (hn : c ≠ '\n') (hr : c ≠ '\r')
    (h : lexStep m c = some m') : m = .inside := by
  have hbounds := lineBreak_bounds hc
  have hnotPlain : isPlain c = false := by
    have hspace : c ≠ ' ' := by
      rintro rfl
      exact absurd hc (by decide)
    have htab : c ≠ '\t' := by
      rintro rfl
      exact absurd hc (by decide)
    have hvisible : ¬ (32 < c.toNat ∧ c.toNat < 127) := by omega
    unfold isPlain isWs
    simp only [hspace, htab, hn, hr, Bool.or_eq_false_iff, Bool.and_eq_false_iff, decide_eq_false_iff_not]
    exact ⟨by simp, Or.inl (Or.inl (not_and_or.mp hvisible))⟩
  cases m with
  | inside => rfl
  | outside =>
    have hquote : c ≠ '"' := by
      rintro rfl
      exact absurd hc (by decide)
    rw [lexStep, if_neg hquote, if_neg (by simp [hnotPlain])] at h
    cases h
  | closed =>
    rw [lexStep, if_neg (by simp [hnotPlain])] at h
    cases h
  | escaped =>
    rw [lexStep] at h
    split_ifs at h with hescape
    have hascii := isEscape_bounds hescape
    omega

theorem quote_not_space {c : Char} (h : isPySpace c = true) : c ≠ '"' ∧ c ≠ '\\' := by
  constructor
  · rintro rfl
    exact absurd h (by decide)
  · rintro rfl
    exact absurd h (by decide)

/-- Spaces open no string. -/
theorem lexes_spaces {m m' : LexMode} {w : List Char} (hm : m.Free) (hw : ∀ c ∈ w, isPySpace c = true)
    (h : lexes m w = some m') : m' = m ∨ m' = .outside := by
  induction w generalizing m with
  | nil =>
    cases h
    exact Or.inl rfl
  | cons c w ih =>
    have hquote := (quote_not_space (hw c List.mem_cons_self)).1
    have hstep : lexStep m c = if isPlain c then some .outside else none := by
      rcases hm with rfl | rfl
      · rw [lexStep, if_neg hquote]
      · rfl
    rw [lexes, hstep] at h
    split_ifs at h
    · exact Or.inr ((ih (Or.inl rfl) (fun d hd => hw d (List.mem_cons_of_mem c hd)) h).elim id id)
    · cases h

theorem stripChars_split (cs : List Char) : ∃ x y, cs = x ++ (stripChars cs ++ y) ∧
    (∀ c ∈ x, isPySpace c = true) ∧ ∀ c ∈ y, isPySpace c = true := by
  refine ⟨cs.takeWhile isPySpace, (cs.dropWhile isPySpace).rtakeWhile isPySpace, ?_, fun c hc => List.mem_takeWhile_imp hc,
    fun c hc => List.mem_rtakeWhile_imp hc⟩
  rw [stripChars, List.rdropWhile_append_rtakeWhile, List.takeWhile_append_dropWhile]

/-- What stands before a line break of a JSON text is no JSON text itself. -/
theorem not_loads_before_break {p r : List Char} {c : Char} {v v' : JsonValue} (hc : isLineBreak c = true)
    (hn : c ≠ '\n') (hr : c ≠ '\r') (h : loads (p ++ c :: r) = .ok v) : loads (stripChars p) ≠ .ok v' := by
  intro hp
  obtain ⟨x, y, hsplit, hx, hy⟩ := stripChars_split p
  obtain ⟨m, hm⟩ := Option.isSome_iff_exists.mp (lexes_of_loads h)
  rw [lexes_append] at hm
  obtain ⟨m₁, hm₁, hrest⟩ := Option.bind_eq_some_iff.mp hm
  have hfree : m₁.Free := by
    rw [hsplit, lexes_append] at hm₁
    obtain ⟨m₂, hm₂, hinner⟩ := Option.bind_eq_some_iff.mp hm₁
    rw [lexes_append] at hinner
    obtain ⟨m₃, hm₃, hend⟩ := Option.bind_eq_some_iff.mp hinner
    obtain rfl := (lexes_spaces (Or.inl rfl) hx hm₂).elim id id
    obtain ⟨m₄, hm₄, hread⟩ := lexes_free_of_loads hp
    obtain rfl := Option.some.inj (hm₃.symm.trans hread)
    rcases lexes_spaces hm₄ hy hend with rfl | rfl
    · exact hm₄
    · exact Or.inl rfl
  rw [lexes] at hrest
  obtain ⟨m₅, hstep, -⟩ := Option.bind_eq_some_iff.mp hrest
  rw [lexStep_lineBreak hc hn hr hstep] at hfree
  rcases hfree with hfree | hfree <;> cases hfree

/-! ## Behind a line break -/

/-- A quotation mark that is not escaped ends a string. -/
def StaysInside (c d : Char) : Prop := d = '"' → c = '\\'

/-- Up to the first quotation mark, a text is known. -/
theorem quote_unique {c : Char} {u v x tail : List Char} (hc : c ≠ '\\') (hu : ∀ a ∈ u, a ≠ '"' ∧ a ≠ '\\')
    (hx : (c :: x).IsChain StaysInside) (h : u ++ '"' :: v = x ++ '"' :: tail) : v = tail := by
  induction u generalizing c x with
  | nil =>
    cases x with
    | nil => exact (List.cons.inj h).2
    | cons a x =>
      obtain rfl := (List.cons.inj h).1
      exact absurd ((List.isChain_cons_cons.mp hx).1 rfl) hc
  | cons a u ih =>
    cases x with
    | nil => exact absurd (List.cons.inj h).1 (hu a List.mem_cons_self).1
    | cons b x =>
      obtain ⟨rfl, hrest⟩ := List.cons.inj h
      exact ih (hu a List.mem_cons_self).2 (fun d hd => hu d (List.mem_cons_of_mem a hd))
        (List.isChain_cons_cons.mp hx).2 hrest

theorem Writes.members_opening {p : JsonPart} {c : List Char} (h : Writes p c) :
    ∀ ps, p = .members ps → ∃ b k u z, c = '"' :: (b ++ (u ++ ':' :: z)) ∧ JsonReader.string b = .ok (k, []) ∧ Blank u := by
  intro ps hp
  cases h with
  | lastMember hk hu => exact ⟨_, _, _, _, rfl, hk, hu⟩
  | member hk hu => exact ⟨_, _, _, _, rfl, hk, hu⟩
  | literal | string | emptyArray | array | emptyObject | object | lastElement | element => cases hp

/-- An object that is not empty starts with a key. -/
theorem opening_of_loads {cs : List Char} {items : List (CodeString × JsonValue)} (h : loads cs = .ok (.obj items))
    (hne : items ≠ []) : ∃ w w' b k u z, cs = w ++ '{' :: (w' ++ '"' :: (b ++ (u ++ ':' :: z))) ∧ Blank w ∧ Blank w' ∧
      JsonReader.string b = .ok (k, []) ∧ Blank u := by
  obtain ⟨w, c, w'', rfl, hw, -, hwrites⟩ := loads_iff.mp h
  generalize hp : JsonPart.value (.obj items) = p at hwrites
  cases hwrites with
  | literal hliteral =>
    obtain rfl := JsonPart.value.inj hp
    exact absurd rfl (literal_not_object hliteral items)
  | emptyObject hw' => exact absurd (JsonValue.obj.inj (JsonPart.value.inj hp)) hne
  | object hw' hmembers =>
    obtain ⟨b, k, u, z, rfl, hk, hu⟩ := hmembers.members_opening _ rfl
    exact ⟨w, _, b, k, u, z ++ w'', by simp, hw, hw', hk, hu⟩
  | string | emptyArray | array => cases JsonPart.value.inj hp
  | lastElement | element | lastMember | member => cases hp

/-- What can follow a text of an example: the closing brace, or a key. -/
def GoesOn (tail : List Char) : Prop :=
  tail = ['}'] ∨ ∃ l z, tail = ',' :: '"' :: l :: z ∧ l ≠ ':' ∧ isWs l = false

/-- Read from within a text of an example, the line is no object with a key. -/
theorem not_loads_within {c : Char} {p r x tail : List Char} {items : List (CodeString × JsonValue)} (hc : c ≠ '\\')
    (hx : (c :: x).IsChain StaysInside) (htail : GoesOn tail) (h : p ++ r = x ++ '"' :: tail)
    (hloads : loads (stripChars p) = .ok (.obj items)) : items = [] := by
  by_contra hne
  obtain ⟨s, s', hsplit, hs, -⟩ := stripChars_split p
  obtain ⟨w, w', b, k, u, z, hopening, hw, hw', hk, hu⟩ := opening_of_loads hloads hne
  have hmark : ∀ a ∈ s ++ (w ++ '{' :: w'), a ≠ '"' ∧ a ≠ '\\' := by
    intro a ha
    simp only [List.mem_append, List.mem_cons] at ha
    rcases ha with ha | ha | rfl | ha
    · exact quote_not_space (hs a ha)
    · exact quote_not_space (isPySpace_of_ws (hw a ha))
    · decide
    · exact quote_not_space (isPySpace_of_ws (hw' a ha))
  have heq : (s ++ (w ++ '{' :: w')) ++ '"' :: (b ++ (u ++ ':' :: (z ++ (s' ++ r)))) = x ++ '"' :: tail := by
    rw [← h, hsplit, hopening]
    simp
  have hrest := quote_unique hc hmark hx heq
  rcases htail with rfl | ⟨l, y, rfl, hl, hblank⟩
  · cases b with
    | nil => cases hk
    | cons a b =>
      have hlen := congrArg List.length hrest
      simp only [List.length_append, List.length_cons, List.length_nil] at hlen
      omega
  · obtain ⟨rfl, hb⟩ : k = [44] ∧ b = [',', '"'] := by
      cases b with
      | nil => cases hk
      | cons a b =>
        obtain ⟨rfl, hbehind⟩ := List.cons.inj hrest
        cases b with
        | nil => cases hk
        | cons a b =>
          obtain ⟨rfl, -⟩ := List.cons.inj hbehind
          obtain ⟨rfl, rfl⟩ := Prod.mk.inj (Except.ok.inj hk)
          exact ⟨rfl, rfl⟩
    rw [hb] at hrest
    have hnext : u ++ ':' :: (z ++ (s' ++ r)) = l :: y := by simpa using hrest
    cases u with
    | nil => exact hl (List.cons.inj hnext).1.symm
    | cons a u =>
      have ha := hu a List.mem_cons_self
      rw [(List.cons.inj hnext).1, hblank] at ha
      cases ha

/-! ## The text of an example -/

/-- A string as it stands between its quotation marks. -/
theorem isChain_escaped {s : CodeString} (h : s.IsText) (c : Char) : (c :: (escaped s).chars).IsChain StaysInside := by
  have hplain : ∀ {d e : Char}, e ≠ '"' → StaysInside d e := fun hne heq => absurd heq hne
  induction s generalizing c with
  | nil => exact List.isChain_singleton c
  | cons n s ih =>
    have hsplit : (escaped (n :: s)).chars = (escape n).chars ++ (escaped s).chars := by
      simp [CodeString.chars, escaped]
    have hrest := ih fun m hm => h m (List.mem_cons_of_mem n hm)
    rw [hsplit]
    unfold escape
    cases hshort : shortEscape n with
    | some e =>
      have hchars : CodeString.chars [92, e.toNat] ++ (escaped s).chars = '\\' :: e :: (escaped s).chars := by
        simp [CodeString.chars, Char.ofNat_toNat]
      dsimp only
      rw [hchars]
      exact List.isChain_cons_cons.mpr ⟨hplain (by decide), List.isChain_cons_cons.mpr ⟨fun _ => rfl, hrest e⟩⟩
    | none =>
      by_cases hctl : n < 32
      · have hdigit : ∀ d : ℕ, hexDigit (d % 16) ≠ '"' := by
          intro d
          have hall : ∀ a < 16, hexDigit a ≠ '"' := by decide
          exact hall _ (Nat.mod_lt d (by omega))
        dsimp only
        rw [if_pos hctl, chars_ofChars]
        unfold hex4
        simp only [List.cons_append, List.nil_append]
        refine List.isChain_cons_cons.mpr ⟨hplain (by decide), List.isChain_cons_cons.mpr ⟨hplain (by decide), ?_⟩⟩
        refine List.isChain_cons_cons.mpr ⟨hplain (hdigit _), List.isChain_cons_cons.mpr ⟨hplain (hdigit _), ?_⟩⟩
        exact List.isChain_cons_cons.mpr ⟨hplain (hdigit _), List.isChain_cons_cons.mpr ⟨hplain (hdigit _), hrest _⟩⟩
      · have hquote : Char.ofNat n ≠ '"' := by
          intro heq
          have hnat := toNat_ofNat (h n List.mem_cons_self)
          rw [heq] at hnat
          rw [← hnat] at hshort
          cases hshort
        dsimp only
        rw [if_neg hctl]
        exact List.isChain_cons_cons.mpr ⟨hplain hquote, hrest _⟩

/-- A key that is written as it is, and could not be mistaken for what follows a key. -/
def IsPlainKey (k : CodeString) : Prop :=
  k.IsText ∧ ((escaped k).chars.all fun a => IsPrintable a) = true ∧ (escaped k).chars.head? ≠ some ':'

instance (k : CodeString) : Decidable (IsPlainKey k) := by unfold IsPlainKey; infer_instance

theorem IsPlainKey.printable {k : CodeString} (h : IsPlainKey k) : ∀ a ∈ (escaped k).chars, IsPrintable a :=
  fun a ha => of_decide_eq_true (List.all_eq_true.mp h.2.1 a ha)

/-- A value without values in it. -/
def IsScalar : JsonValue → Prop
  | .arr _ | .obj _ => False
  | _ => True

/-- A value that is neither a string nor has values in it is written without line breaks. -/
theorem Writes.scalar_chars {p : JsonPart} {cs : List Char} (h : Writes p cs) :
    ∀ v, p = .value v → IsScalar v → (∀ s, v ≠ .str s) → ∀ c ∈ cs, 32 < c.toNat ∧ c.toNat < 127 := by
  intro v hp hscalar hstr
  cases h with
  | literal hread => exact fun c hc => ⟨((literal_chars hread).2.1 c hc).1, ((literal_chars hread).2.1 c hc).2.1⟩
  | string =>
    obtain rfl := JsonPart.value.inj hp
    exact absurd rfl (hstr _)
  | emptyArray | array | emptyObject | object =>
    obtain rfl := JsonPart.value.inj hp
    exact hscalar.elim
  | lastElement | element | lastMember | member => cases hp

/-- Where a character of two texts stands. -/
theorem append_cons_cases {a u v r : List Char} {c : Char} (h : u ++ v = a ++ c :: r) :
    (∃ b, u = a ++ c :: b ∧ r = b ++ v) ∨ ∃ b, a = u ++ b ∧ v = b ++ c :: r := by
  rcases List.append_eq_append_iff.mp h with ⟨b, rfl, hv⟩ | ⟨b, rfl, hv⟩
  · exact Or.inr ⟨b, rfl, hv⟩
  · cases b with
    | nil => exact Or.inr ⟨[], by simp, by simpa using hv.symm⟩
    | cons d b =>
      obtain ⟨rfl, rfl⟩ := List.cons.inj hv
      exact Or.inl ⟨b, rfl, rfl⟩

theorem append_cons_of_not_mem {a u v r : List Char} {c : Char} (h : u ++ v = a ++ c :: r) (hc : c ∉ u) :
    ∃ b, a = u ++ b ∧ v = b ++ c :: r := by
  rcases append_cons_cases h with ⟨b, rfl, -⟩ | hcase
  · exact absurd (by simp) hc
  · exact hcase

/-- Behind a line break in a value comes the end of a string. -/
theorem within_value {float : PyFloat → Except PyError (List Char)} (hfloat : ReadsBack float) {v : JsonValue}
    (hscalar : IsScalar v) (hplain : v.IsPlain) {part : CodeString} (hpart : dumps float v = .ok part)
    {a r : List Char} {c : Char} (hc : isLineBreak c = true) (h : part.chars = a ++ c :: r) :
    ∃ x, r = x ++ ['"'] ∧ (c :: x).IsChain StaysInside := by
  have hbounds := lineBreak_bounds hc
  have hmem : c ∈ part.chars := by
    rw [h]
    simp
  by_cases hstr : ∃ s, v = .str s
  · obtain ⟨s, rfl⟩ := hstr
    cases hpart
    have hne : c ∉ ['"'] := by
      rintro (_ | ⟨_, ⟨⟩⟩)
      exact absurd hc (by decide)
    rw [chars_strText] at h
    obtain ⟨b, -, hb⟩ := append_cons_of_not_mem (u := ['"']) h hne
    -- the break is before the closing quote
    rcases append_cons_cases hb with ⟨x, hx, rfl⟩ | ⟨d, -, hd⟩
    · have hchain : (('"' :: b) ++ c :: x).IsChain StaysInside := by
        rw [List.cons_append, ← hx]
        exact isChain_escaped hplain '"'
      exact ⟨x, rfl, hchain.right_of_append⟩
    · exact absurd (by rw [hd]; simp) hne
  · have hspells := spells_dumps hfloat v hplain part hpart
    have hchar := hspells.2.scalar_chars v rfl hscalar (fun s hs => hstr ⟨s, hs⟩) c hmem
    omega

/-- The text of members from a key on. -/
def closing (parts : List CodeString) : List Char := CodeString.chars (List.intercalate [44] parts ++ [125])

/-- The text behind a value. -/
def afterValue (others : List CodeString) : List Char := if others = [] then ['}'] else ',' :: closing others

theorem closing_cons (k part : CodeString) (others : List CodeString) :
    closing ((JsonWriter.strText k ++ 58 :: part) :: others) =
      ('"' :: ((escaped k).chars ++ ['"', ':'])) ++ (part.chars ++ afterValue others) := by
  unfold afterValue closing
  by_cases hlast : others = []
  · subst hlast
    rw [if_pos rfl, intercalate_singleton]
    simp [CodeString.chars, JsonWriter.strText]
  · rw [if_neg hlast, intercalate_cons _ hlast]
    simp [CodeString.chars, JsonWriter.strText]

theorem closing_opens {float : PyFloat → Except PyError (List Char)} {items : List (CodeString × JsonValue)}
    (hkeys : ∀ e ∈ items, IsPlainKey e.1) {parts : List CodeString} (hparts : dumpsItems float items = .ok parts) :
    GoesOn (afterValue parts) := by
  unfold afterValue
  by_cases hlast : parts = []
  · exact Or.inl (if_pos hlast)
  · rw [if_neg hlast]
    cases items with
    | nil =>
      cases hparts
      exact absurd rfl hlast
    | cons e items =>
      obtain ⟨k, v⟩ := e
      obtain ⟨part, others, -, -, rfl⟩ := dumpsItems_cons hparts
      have hprintable := (hkeys _ List.mem_cons_self).printable
      have hcolon := (hkeys _ List.mem_cons_self).2.2
      rw [closing_cons]
      dsimp only at hprintable hcolon
      cases hescaped : (escaped k).chars with
      | nil => exact Or.inr ⟨'"', _, rfl, by decide, by decide⟩
      | cons l z =>
        rw [hescaped] at hprintable hcolon
        have hl := hprintable l List.mem_cons_self
        refine Or.inr ⟨l, _, rfl, fun heq => hcolon (congrArg some heq), ?_⟩
        cases hblank : isWs l with
        | false => rfl
        | true =>
          have hspace := hl.not_space
          rw [isPySpace_of_ws hblank] at hspace
          cases hspace

/-- Behind a line break in the members of an object without inner values, one of its texts goes on. -/
theorem within_members {float : PyFloat → Except PyError (List Char)} (hfloat : ReadsBack float)
    {items : List (CodeString × JsonValue)} (hkeys : ∀ e ∈ items, IsPlainKey e.1)
    (hvalues : ∀ e ∈ items, IsScalar e.2 ∧ e.2.IsPlain) {parts : List CodeString}
    (hparts : dumpsItems float items = .ok parts) {a r : List Char} {c : Char} (hc : isLineBreak c = true)
    (h : closing parts = a ++ c :: r) : ∃ x tail, r = x ++ '"' :: tail ∧ (c :: x).IsChain StaysInside ∧ GoesOn tail := by
  have hbounds := lineBreak_bounds hc
  have hbrace : ∀ {b : List Char}, ['}'] ≠ b ++ c :: r := by
    intro b hb
    have hmem : c ∈ ['}'] := by
      rw [hb]
      simp
    rw [List.mem_singleton.mp hmem] at hc
    exact absurd hc (by decide)
  induction items generalizing parts a with
  | nil =>
    cases hparts
    exact absurd h hbrace
  | cons e items ih =>
    obtain ⟨k, v⟩ := e
    obtain ⟨part, others, hpart, hothers, rfl⟩ := dumpsItems_cons hparts
    have hprintable := (hkeys _ List.mem_cons_self).printable
    obtain ⟨hscalar, hplain⟩ := hvalues _ List.mem_cons_self
    have hotherKeys : ∀ e ∈ items, IsPlainKey e.1 := fun e he => hkeys e (List.mem_cons_of_mem _ he)
    have hnot : c ∉ '"' :: ((escaped k).chars ++ ['"', ':']) := by
      intro hmem
      have hvisible : IsPrintable c := by
        simp only [List.mem_cons, List.mem_append, List.not_mem_nil, or_false] at hmem
        rcases hmem with rfl | hmem | rfl | rfl
        · decide
        · exact hprintable c hmem
        · decide
        · decide
      unfold IsPrintable at hvisible
      omega
    rw [closing_cons] at h
    obtain ⟨b, -, hb⟩ := append_cons_of_not_mem h hnot
    rcases append_cons_cases hb with ⟨d, hd, rfl⟩ | ⟨d, -, hd⟩
    · obtain ⟨x, rfl, hx⟩ := within_value hfloat hscalar hplain hpart hc hd
      exact ⟨x, afterValue others, by simp, hx, closing_opens hotherKeys hothers⟩
    · unfold afterValue at hd
      split_ifs at hd
      · exact absurd hd hbrace
      · -- the break is in the next members
        cases d with
        | nil =>
          rw [← (List.cons.inj hd).1] at hc
          exact absurd hc (by decide)
        | cons d₁ d =>
          exact ih hotherKeys (fun e he => hvalues e (List.mem_cons_of_mem _ he)) hothers (List.cons.inj hd).2

namespace TrainingExample

open Migration

variable {host : MigrationHost} {e : TrainingExample} {line : CodeString}

theorem isText_str (s : String) : (str s).IsPlain := isText_ofChars s.toList

/-- The names of the fields. -/
def fieldNames : List CodeString := ["prompt", "completion", "domain", "source", "quality_score", "feedback_event_id",
  "created_at", "exported_at"].map fun k => .ofChars k.toList

theorem items_keys (e : TrainingExample) : e.items.map (·.1) = fieldNames := by
  unfold items fieldNames
  simp only [List.map_cons, List.map_nil]

theorem items_plainKeys (e : TrainingExample) : ∀ item ∈ e.items, IsPlainKey item.1 := by
  have hall : ∀ k ∈ fieldNames, IsPlainKey k := by decide +kernel
  intro item hitem
  refine hall _ ?_
  rw [← items_keys e]
  exact List.mem_map_of_mem hitem

/-- A score is no infinity, and it is small. -/
theorem score_cases (e : TrainingExample) : e.qualityScore = .nan ∨
    ∃ q, e.qualityScore = .finite q ∧ PyFloat.IsDouble q ∧ |q| < PyFloat.overflowBound := by
  have hunit := e.quality_ok
  have hdouble := e.quality_double
  cases hscore : e.qualityScore with
  | nan => exact Or.inl rfl
  | posInf =>
    rw [hscore] at hunit
    exact absurd hunit.2 (by decide)
  | negInf =>
    rw [hscore] at hunit
    exact absurd hunit.1 (by decide)
  | finite q =>
    rw [hscore] at hunit
    have hlow : ¬ q < 0 := of_decide_eq_false hunit.1
    have hhigh : ¬ 1 < q := of_decide_eq_false hunit.2
    have hbound : (1 : ℚ) < PyFloat.overflowBound := one_lt_pow₀ one_lt_two (by omega)
    refine Or.inr ⟨q, rfl, hdouble q hscore, ?_⟩
    rw [abs_of_nonneg (not_lt.mp hlow)]
    exact lt_of_le_of_lt (not_lt.mp hhigh) hbound

theorem items_values (e : TrainingExample) : ∀ item ∈ e.items, IsScalar item.2 ∧ item.2.IsPlain := by
  have hstr : ∀ s : String, IsScalar (str s) ∧ (str s).IsPlain := fun s => ⟨trivial, isText_ofChars s.toList⟩
  have hnull : IsScalar .null ∧ JsonValue.IsPlain .null := ⟨trivial, trivial⟩
  have hscore : IsScalar (if e.qualityScore = .nan then .null else .float e.qualityScore) ∧
      JsonValue.IsPlain (if e.qualityScore = .nan then .null else .float e.qualityScore) := by
    rcases score_cases e with hnan | ⟨q, hq, hdouble, hbound⟩
    · rw [if_pos hnan]
      exact hnull
    · have hne : e.qualityScore ≠ .nan := by
        rw [hq]
        intro hcase
        cases hcase
      rw [if_neg hne]
      exact ⟨trivial, q, hq, hdouble, hbound⟩
  intro item hitem
  unfold items at hitem
  simp only [List.map_cons, List.map_nil, List.mem_cons, List.not_mem_nil, or_false] at hitem
  rcases hitem with rfl | rfl | rfl | rfl | rfl | rfl | rfl | rfl
  · exact hstr _
  · exact hstr _
  · exact hstr _
  · exact hstr _
  · exact hscore
  · exact hstr _
  · exact hstr _
  · cases e.exportedAt with
    | none => exact hnull
    | some t => exact hstr _

theorem nodup_keys (e : TrainingExample) : (e.items.map (·.1)).Nodup := by
  have hnodup : fieldNames.Nodup := by decide +kernel
  rw [items_keys]
  exact hnodup

theorem isPlain_items (e : TrainingExample) : (JsonValue.obj e.items).IsPlain :=
  ⟨⟨e.nodup_keys, fun item hitem => (e.items_plainKeys item hitem).1⟩,
    JsonValue.allItems_iff.mpr fun item hitem => (e.items_values item hitem).2⟩

/-- The fields that the migration looks at. -/
theorem get_items (e : TrainingExample) : JsonValue.get e.items "feedback_event_id" = some (str e.feedbackEventId.text) ∧
    JsonValue.get e.items "prompt" = some (str e.prompt) ∧ JsonValue.get e.items "completion" = some (str e.completion) ∧
      JsonValue.get e.items "quality_score" = some (if e.qualityScore = .nan then .null else .float e.qualityScore) := by
  have hget : ∀ {k : String} {v : JsonValue}, (CodeString.ofChars k.toList, v) ∈ e.items → JsonValue.get e.items k = some v :=
    fun hmem => JsonValue.lookup_of_mem e.nodup_keys hmem
  refine ⟨hget ?_, hget ?_, hget ?_, hget ?_⟩ <;>
    (unfold items; simp only [List.map_cons, List.map_nil, List.mem_cons, true_or, or_true])

section Line

variable (hfloat : ReadsBack fun x => .ok (host.numberText x)) (hline : e.line host = .ok line)

include hfloat hline

/-- The line is read back. -/
theorem loads_line : JsonReader.loads line.chars = .ok (.obj e.items) := (loads_dumps hfloat e.isPlain_items hline).2

theorem stripChars_line : stripChars line.chars = line.chars := by
  have hwrites := (spells_dumps hfloat _ e.isPlain_items line hline).2
  have hnone : ∀ a ∈ ([] : List Char), isPySpace a = true := fun a ha => by cases ha
  have haround := stripChars_around hnone hnone hwrites.head hwrites.last
  rwa [List.nil_append, List.append_nil] at haround

theorem line_ne_nil : line.chars ≠ [] := by
  obtain ⟨a, t, ht, -⟩ := (spells_dumps hfloat _ e.isPlain_items line hline).2.head
  rw [ht]
  exact List.cons_ne_nil a t

/-- If the line is taken apart, no part of it is an object with a key. -/
theorem not_loads_part (hn : '\n' ∉ line.chars) (hr : '\r' ∉ line.chars)
    (hbreak : ∃ c ∈ line.chars, isLineBreak c = true) {p : List Char} (hp : p ∈ splitLines [] line.chars)
    {items : List (CodeString × JsonValue)} (hloads : JsonReader.loads (stripChars p) = .ok (.obj items)) :
    items = [] := by
  have hread := loads_line hfloat hline
  rcases splitLines_piece hr hp with ⟨q, r, rfl, ht, hq, hend⟩ | ⟨a, c, r, ht, hc⟩
  · -- the first part
    cases r with
    | nil =>
      obtain ⟨c, hmem, hc⟩ := hbreak
      rw [ht, List.append_nil] at hmem
      rw [hq c hmem] at hc
      cases hc
    | cons c r =>
      have hmem : c ∈ line.chars := by
        rw [ht]
        simp
      rw [ht] at hread
      exact absurd hloads (not_loads_before_break (hend c rfl) (ne_of_mem_of_not_mem hmem hn)
        (ne_of_mem_of_not_mem hmem hr) hread)
  · -- a part behind a line break
    obtain ⟨parts, hparts, rfl⟩ := JsonReader.map_ok_iff.mp hline
    have hopen : CodeString.chars (123 :: (List.intercalate [44] parts ++ [125])) = ['{'] ++ closing parts := rfl
    have hnot : c ∉ ['{'] := by
      intro hmem
      rw [List.mem_singleton.mp hmem] at hc
      exact absurd hc (by decide)
    rw [hopen] at ht
    obtain ⟨b, -, hb⟩ := append_cons_of_not_mem ht hnot
    obtain ⟨x, tail, hx, hchain, htail⟩ := within_members hfloat e.items_plainKeys e.items_values hparts hc hb
    have hslash : c ≠ '\\' := by
      rintro rfl
      exact absurd hc (by decide)
    exact not_loads_within hslash hchain htail hx hloads

end Line

end TrainingExample

end Galaxz
