import Galaxz.Lib.JsonGrammar

/-!
# JSON texts by their quotation marks

What can be said of a JSON text without its structure: which characters stand outside of strings, which in
them, and which after a backslash.
-/

namespace Galaxz

open JsonReader

/-- Where a reader is who knows of quotation marks and backslashes only. -/
inductive LexMode where
  | outside
  | inside
  | escaped
  | closed
deriving DecidableEq

/-- What may follow a backslash. -/
def isEscape (c : Char) : Bool := c = 'u' || (escapeValue c).isSome

/-- A character of a JSON text outside of its strings. -/
def isPlain (c : Char) : Bool := isWs c || (32 < c.toNat && c.toNat < 127 && c ≠ '\\' && c ≠ '"')

/-- One character further, unless no JSON text has it there. A string is not followed by a string. -/
def lexStep : LexMode → Char → Option LexMode
  | .outside, c => if c = '"' then some .inside else if isPlain c then some .outside else none
  | .closed, c => if isPlain c then some .outside else none
  | .inside, c =>
    if c = '"' then some .closed else if c = '\\' then some .escaped else if c.toNat < 32 then none else some .inside
  | .escaped, c => if isEscape c then some .inside else none

/-- Where the reader is after a text. -/
def lexes : LexMode → List Char → Option LexMode
  | m, [] => some m
  | m, c :: cs => (lexStep m c).bind fun m' => lexes m' cs

theorem lexes_cons {m m' : LexMode} {c : Char} (h : lexStep m c = some m') (cs : List Char) :
    lexes m (c :: cs) = lexes m' cs := by
  rw [lexes, h, Option.bind_some]

theorem lexes_append (m : LexMode) (a b : List Char) :
    lexes m (a ++ b) = (lexes m a).bind fun m' => lexes m' b := by
  induction a generalizing m with
  | nil => rfl
  | cons c a ih =>
    rw [List.cons_append, lexes, lexes]
    cases lexStep m c with
    | none => rfl
    | some m' => exact ih m'

/-- Outside of strings. -/
def LexMode.Free (m : LexMode) : Prop := m = .outside ∨ m = .closed

theorem lexStep_plain {m : LexMode} {c : Char} (hm : m.Free) (hc : isPlain c = true) :
    lexStep m c = some .outside := by
  rcases hm with rfl | rfl
  · by_cases hq : c = '"'
    · rw [hq] at hc
      exact absurd hc (by decide)
    · rw [lexStep, if_neg hq, if_pos hc]
  · rw [lexStep, if_pos hc]

theorem lexes_plain {w : List Char} (hw : ∀ c ∈ w, isPlain c = true) (r : List Char) :
    lexes .outside (w ++ r) = lexes .outside r := by
  induction w with
  | nil => rfl
  | cons c w ih =>
    have hc := lexStep_plain (Or.inl rfl) (hw c List.mem_cons_self)
    rw [List.cons_append, lexes_cons hc]
    exact ih fun d hd => hw d (List.mem_cons_of_mem c hd)

theorem isPlain_of_ws {c : Char} (h : isWs c = true) : isPlain c = true := by
  unfold isPlain
  rw [h, Bool.true_or]

theorem JsonReader.IsLiteralChar.isPlain {c : Char} (h : IsLiteralChar c) : isPlain c = true := by
  obtain ⟨hlo, hhi, hmem⟩ := h
  have hquote : c ≠ '"' := fun he => hmem (by simp [he])
  have hback : c ≠ '\\' := fun he => hmem (by simp [he])
  unfold Galaxz.isPlain
  simp [hlo, hhi, hquote, hback]

theorem lexes_blank {w : List Char} (hw : Blank w) (r : List Char) : lexes .outside (w ++ r) = lexes .outside r :=
  lexes_plain (fun c hc => isPlain_of_ws (hw c hc)) r

theorem lexes_mark {m : LexMode} {w : List Char} {a : Char} (hm : m.Free) (hw : Blank w) (ha : isPlain a = true)
    (r : List Char) : lexes m (w ++ a :: r) = lexes .outside r := by
  cases w with
  | nil => exact lexes_cons (lexStep_plain hm ha) r
  | cons c w =>
    have hc := lexStep_plain hm (isPlain_of_ws (hw c List.mem_cons_self))
    rw [List.cons_append, lexes_cons hc, lexes_blank fun d hd => hw d (List.mem_cons_of_mem c hd)]
    exact lexes_cons (lexStep_plain (Or.inl rfl) ha) r

/-! ## Strings -/

/-- The mode of a string's scanner, as this reader sees it. -/
def JsonReader.StringMode.lexMode : StringMode → LexMode
  | .plain => .inside
  | .escape => .escaped
  | .hex _ _ => .inside

/-- The mode after a step. -/
def JsonReader.StringStep.lexMode : StringStep → LexMode
  | .close => .closed
  | .go _ m => m.lexMode

theorem hexValue_bounds {c : Char} {d : ℕ} (h : JsonReader.hexValue c = some d) :
    48 ≤ c.toNat ∧ c ≠ '"' ∧ c ≠ '\\' := by
  have hlo : 48 ≤ c.toNat := by
    simp only [JsonReader.hexValue] at h
    split_ifs at h <;> omega
  refine ⟨hlo, ?_, ?_⟩
  · rintro rfl
    exact absurd hlo (by decide)
  · rintro rfl
    have hnone : JsonReader.hexValue '\\' = none := by decide
    rw [hnone] at h
    cases h

/-- The scanner of a string does the steps of this reader. -/
theorem lexStep_of_stringStep {m : StringMode} {c : Char} {step : StringStep} (h : stringStep m c = .ok step) :
    lexStep m.lexMode c = some step.lexMode := by
  cases m with
  | plain =>
    rw [stringStep] at h
    unfold StringMode.lexMode
    rw [lexStep]
    split_ifs at h with hquote hback hctl
    · obtain rfl := Except.ok.inj h
      rw [if_pos hquote]
      rfl
    · obtain rfl := Except.ok.inj h
      rw [if_neg hquote, if_pos hback]
      rfl
    · obtain rfl := Except.ok.inj h
      rw [if_neg hquote, if_neg hback, if_neg hctl]
      rfl
  | escape =>
    rw [stringStep] at h
    unfold StringMode.lexMode
    rw [lexStep]
    by_cases hu : c = 'u'
    · rw [if_pos hu] at h
      obtain rfl := Except.ok.inj h
      have hescape : isEscape c = true := by
        rw [hu]
        decide
      rw [if_pos hescape]
      rfl
    · rw [if_neg hu] at h
      cases hvalue : escapeValue c with
      | none =>
        rw [hvalue] at h
        cases h
      | some n =>
        rw [hvalue] at h
        obtain rfl := Except.ok.inj h
        have hescape : isEscape c = true := by
          unfold isEscape
          rw [hvalue, Option.isSome_some, Bool.or_true]
        rw [if_pos hescape]
        rfl
  | hex digits acc =>
    rw [stringStep] at h
    unfold StringMode.lexMode
    cases hvalue : JsonReader.hexValue c with
    | none =>
      rw [hvalue] at h
      cases h
    | some d =>
      obtain ⟨hlo, hquote, hback⟩ := hexValue_bounds hvalue
      have hctl : ¬ c.toNat < 32 := by omega
      rw [lexStep, if_neg hquote, if_neg hback, if_neg hctl]
      rw [hvalue] at h
      dsimp only at h
      split_ifs at h <;> (obtain rfl := Except.ok.inj h; rfl)

theorem lexes_stringBody {b : List Char} {s : List ℕ} (m : StringMode) (h : stringBody m b = .ok (s, [])) :
    lexes m.lexMode b = some .closed := by
  induction b generalizing m s with
  | nil => cases h
  | cons c b ih =>
    rcases stringBody_cons_iff.mp h with ⟨hstep, -, hb⟩ | ⟨unit, m', s', hstep, hrest, -⟩
    · rw [lexes_cons (lexStep_of_stringStep hstep), ← hb]
      rfl
    · rw [lexes_cons (lexStep_of_stringStep hstep)]
      exact ih m' hrest

theorem lexes_string {b : List Char} {s : CodeString} (h : JsonReader.string b = .ok (s, [])) (r : List Char) :
    lexes .inside (b ++ r) = lexes .closed r := by
  unfold JsonReader.string at h
  obtain ⟨⟨ns, r'⟩, hbody, heq⟩ := map_ok_iff.mp h
  obtain ⟨-, rfl⟩ := Prod.mk.inj heq
  have hb := lexes_stringBody .plain hbody
  unfold StringMode.lexMode at hb
  rw [lexes_append, hb, Option.bind_some]

theorem isPlain_bounds {c : Char} (h : isPlain c = true) : c.toNat < 127 := by
  unfold isPlain at h
  simp only [Bool.or_eq_true, Bool.and_eq_true, decide_eq_true_eq] at h
  rcases h with hws | h
  · unfold isWs at hws
    simp only [Bool.or_eq_true, decide_eq_true_eq] at hws
    rcases hws with ((rfl | rfl) | rfl) | rfl <;> decide
  · exact h.1.1.2

theorem isEscape_bounds {c : Char} (h : isEscape c = true) : 32 ≤ c.toNat ∧ c.toNat < 127 := by
  have hall : ∀ p ∈ [('"', 34), ('\\', 92), ('/', 47), ('b', 8), ('f', 12), ('n', 10), ('r', 13), ('t', 9)],
      32 ≤ p.1.toNat ∧ p.1.toNat < 127 := by decide
  unfold isEscape escapeValue at h
  simp only [Bool.or_eq_true, decide_eq_true_eq] at h
  rcases h with rfl | hlookup
  · decide
  · obtain ⟨p, hp, heq⟩ := List.lookup_isSome_iff.mp hlookup
    rw [beq_iff_eq.mp heq]
    exact hall p hp

/-- A string holds no control characters. -/
theorem lexStep_string_bounds {m m' : LexMode} {c : Char} (hm : m = .inside ∨ m = .escaped)
    (h : lexStep m c = some m') : 32 ≤ c.toNat := by
  rcases hm with rfl | rfl
  · rw [lexStep] at h
    split_ifs at h with hquote hback hctl
    · rw [hquote]
      decide
    · rw [hback]
      decide
    · omega
  · rw [lexStep] at h
    split_ifs at h with he
    exact (isEscape_bounds he).1

theorem StringMode.lexMode_cases (m : StringMode) : m.lexMode = .inside ∨ m.lexMode = .escaped := by
  cases m with
  | plain => exact Or.inl rfl
  | escape => exact Or.inr rfl
  | hex digits acc => exact Or.inl rfl

theorem stringBody_chars {b : List Char} {s : List ℕ} (m : StringMode) (h : stringBody m b = .ok (s, [])) :
    ∀ c ∈ b, 32 ≤ c.toNat := by
  induction b generalizing m s with
  | nil => exact fun c hc => absurd hc List.not_mem_nil
  | cons a b ih =>
    rcases stringBody_cons_iff.mp h with ⟨hstep, -, hb⟩ | ⟨unit, m', s', hstep, hrest, -⟩
    · have ha := lexStep_string_bounds (StringMode.lexMode_cases m) (lexStep_of_stringStep hstep)
      rw [← hb]
      simpa using ha
    · have ha := lexStep_string_bounds (StringMode.lexMode_cases m) (lexStep_of_stringStep hstep)
      exact List.forall_mem_cons.mpr ⟨ha, ih m' hrest⟩

theorem string_chars {b : List Char} {s : CodeString} (h : JsonReader.string b = .ok (s, [])) :
    ∀ c ∈ b, 32 ≤ c.toNat := by
  unfold JsonReader.string at h
  obtain ⟨⟨ns, r'⟩, hbody, heq⟩ := map_ok_iff.mp h
  obtain ⟨-, rfl⟩ := Prod.mk.inj heq
  exact stringBody_chars .plain hbody

/-! ## The grammar -/

/-- A part of a JSON text is read from outside of strings to outside of strings. -/
theorem Writes.lexes {p : JsonPart} {c : List Char} (h : Writes p c) :
    ∃ m : LexMode, m.Free ∧ ∀ r, lexes .outside (c ++ r) = Galaxz.lexes m r := by
  have hquote : ∀ r, Galaxz.lexes .outside ('"' :: r) = Galaxz.lexes .inside r := fun r => lexes_cons rfl r
  induction h with
  | @literal c v h =>
    obtain ⟨-, hchars, -⟩ := literal_chars h
    exact ⟨.outside, Or.inl rfl, lexes_plain fun a ha => (hchars a ha).isPlain⟩
  | @string b s h =>
    refine ⟨.closed, Or.inr rfl, fun r => ?_⟩
    rw [List.cons_append, hquote, lexes_string h]
  | @emptyArray w hw | @emptyObject w hw =>
    refine ⟨.outside, Or.inl rfl, fun r => ?_⟩
    rw [List.cons_append, List.append_assoc, lexes_cons rfl]
    exact lexes_mark (Or.inl rfl) hw (by decide) r
  | @array w b vs hw h ih | @object w b ps hw h ih =>
    obtain ⟨m, hm, ih⟩ := ih
    refine ⟨m, hm, fun r => ?_⟩
    rw [List.cons_append, List.append_assoc, lexes_cons rfl, lexes_blank hw]
    exact ih r
  | @lastElement c w v h hw ih =>
    obtain ⟨m, hm, ih⟩ := ih
    refine ⟨.outside, Or.inl rfl, fun r => ?_⟩
    rw [List.append_assoc, List.append_assoc, ih]
    exact lexes_mark hm hw (by decide) r
  | @element c w w' b v vs h hw hw' hrest ih ihrest =>
    obtain ⟨m, hm, ih⟩ := ih
    obtain ⟨m', hm', ihrest⟩ := ihrest
    refine ⟨m', hm', fun r => ?_⟩
    rw [List.append_assoc, List.append_assoc, ih, List.cons_append, lexes_mark hm hw (by decide), List.append_assoc,
      lexes_blank hw', ihrest]
  | @lastMember b u w c w' k v hk hu hw h hw' ih =>
    obtain ⟨m, hm, ih⟩ := ih
    refine ⟨.outside, Or.inl rfl, fun r => ?_⟩
    simp only [List.cons_append, List.append_assoc]
    rw [hquote, lexes_string hk, lexes_mark (Or.inr rfl) hu (by decide), lexes_blank hw, ih]
    exact lexes_mark hm hw' (by decide) r
  | @member b u w c w' x d k v ps hk hu hw h hw' hx hrest ih ihrest =>
    obtain ⟨m, hm, ih⟩ := ih
    obtain ⟨m', hm', ihrest⟩ := ihrest
    refine ⟨m', hm', fun r => ?_⟩
    simp only [List.cons_append, List.append_assoc]
    rw [hquote, lexes_string hk, lexes_mark (Or.inr rfl) hu (by decide), lexes_blank hw, ih,
      lexes_mark hm hw' (by decide), lexes_blank hx, ihrest]

/-- A JSON text can be read by its quotation marks, and its last string is closed. -/
theorem lexes_free_of_loads {cs : List Char} {v : JsonValue} (h : loads cs = .ok v) :
    ∃ m : LexMode, m.Free ∧ lexes .outside cs = some m := by
  obtain ⟨w, c, w', rfl, hw, hw', hwrites⟩ := loads_iff.mp h
  obtain ⟨m, hm, hread⟩ := hwrites.lexes
  rw [lexes_blank hw, hread]
  cases w' with
  | nil => exact ⟨m, hm, rfl⟩
  | cons a w' =>
    have ha := lexStep_plain hm (isPlain_of_ws (hw' a List.mem_cons_self))
    have hrest := lexes_blank (fun d hd => hw' d (List.mem_cons_of_mem a hd)) []
    rw [List.append_nil] at hrest
    rw [lexes_cons ha, hrest]
    exact ⟨.outside, Or.inl rfl, rfl⟩

theorem lexes_of_loads {cs : List Char} {v : JsonValue} (h : loads cs = .ok v) : (lexes .outside cs).isSome := by
  obtain ⟨m, -, hm⟩ := lexes_free_of_loads h
  rw [hm]
  rfl

/-! ## The first character and the last -/

/-- A character that is seen. -/
def IsPrintable (c : Char) : Prop := 32 < c.toNat ∧ c.toNat < 127

instance (c : Char) : Decidable (IsPrintable c) := by unfold IsPrintable; infer_instance

theorem IsPrintable.not_space {c : Char} (h : IsPrintable c) : isPySpace c = false := by
  obtain ⟨hlo, hhi⟩ := h
  unfold isPySpace
  simp only [Bool.or_eq_false_iff, Bool.and_eq_false_iff, decide_eq_false_iff_not, beq_eq_false_iff_ne]
  omega

theorem isPySpace_of_ws {c : Char} (h : isWs c = true) : isPySpace c = true := by
  unfold isWs at h
  simp only [Bool.or_eq_true, decide_eq_true_eq] at h
  rcases h with ((rfl | rfl) | rfl) | rfl <;> decide

theorem Writes.head {p : JsonPart} {c : List Char} (h : Writes p c) : ∃ a t, c = a :: t ∧ IsPrintable a := by
  have hcut : ∀ {c x : List Char}, (∃ a t, c = a :: t ∧ IsPrintable a) → ∃ a t, c ++ x = a :: t ∧ IsPrintable a := by
    rintro _ x ⟨a, t, rfl, ha⟩
    exact ⟨a, t ++ x, rfl, ha⟩
  induction h with
  | @literal c v h =>
    obtain ⟨hne, hchars, -⟩ := literal_chars h
    obtain ⟨a, t, rfl⟩ := List.exists_cons_of_ne_nil hne
    obtain ⟨hlo, hhi, -⟩ := hchars a List.mem_cons_self
    exact ⟨a, t, rfl, hlo, hhi⟩
  | string | emptyArray | array | emptyObject | object | lastMember | member => exact ⟨_, _, rfl, by decide⟩
  | lastElement _ _ ih => exact hcut ih
  | element _ _ _ _ ih => exact hcut ih

/-- What ends a text ends its string. -/
theorem string_last {b : List Char} {s : CodeString} (h : JsonReader.string b = .ok (s, [])) :
    ∃ t, b = t ++ ['"'] := by
  have hb := lexes_string h []
  rw [List.append_nil] at hb
  rcases List.eq_nil_or_concat b with rfl | ⟨t, a, rfl⟩
  · cases h
  · rw [List.concat_eq_append] at hb ⊢
    rw [lexes_append] at hb
    obtain ⟨m, -, hlast⟩ := Option.bind_eq_some_iff.mp hb
    obtain ⟨m', hstep, hm'⟩ := Option.bind_eq_some_iff.mp hlast
    obtain rfl := Option.some.inj hm'
    refine ⟨t, ?_⟩
    cases m with
    | inside =>
      rw [lexStep] at hstep
      split_ifs at hstep with hquote
      · rw [hquote]
      · cases hstep
      · cases hstep
    | outside =>
      rw [lexStep] at hstep
      split_ifs at hstep
      · cases hstep
      · cases hstep
    | closed =>
      rw [lexStep] at hstep
      split_ifs at hstep
      cases hstep
    | escaped =>
      rw [lexStep] at hstep
      split_ifs at hstep
      cases hstep

theorem Writes.last {p : JsonPart} {c : List Char} (h : Writes p c) : ∃ t a, c = t ++ [a] ∧ IsPrintable a := by
  induction h with
  | @literal c v h =>
    obtain ⟨hne, hchars, -⟩ := literal_chars h
    obtain ⟨hlo, hhi, -⟩ := hchars (c.getLast hne) (List.getLast_mem hne)
    exact ⟨c.dropLast, c.getLast hne, (List.dropLast_append_getLast hne).symm, hlo, hhi⟩
  | @string b s h =>
    obtain ⟨t, rfl⟩ := string_last h
    exact ⟨'"' :: t, '"', rfl, by decide⟩
  | @emptyArray w hw => exact ⟨'[' :: w, ']', rfl, by decide⟩
  | @emptyObject w hw => exact ⟨'{' :: w, '}', rfl, by decide⟩
  | @array w b vs hw h ih =>
    obtain ⟨t, a, rfl, ha⟩ := ih
    exact ⟨'[' :: (w ++ t), a, by simp, ha⟩
  | @object w b ps hw h ih =>
    obtain ⟨t, a, rfl, ha⟩ := ih
    exact ⟨'{' :: (w ++ t), a, by simp, ha⟩
  | @lastElement c w v h hw ih => exact ⟨c ++ w, ']', by simp, by decide⟩
  | @element c w w' b v vs h hw hw' hrest ih ihrest =>
    obtain ⟨t, a, rfl, ha⟩ := ihrest
    exact ⟨c ++ (w ++ ',' :: (w' ++ t)), a, by simp, ha⟩
  | @lastMember b u w c w' k v hk hu hw h hw' ih =>
    exact ⟨'"' :: (b ++ (u ++ ':' :: (w ++ (c ++ w')))), '}', by simp, by decide⟩
  | @member b u w c w' x d k v ps hk hu hw h hw' hx hrest ih ihrest =>
    obtain ⟨t, a, rfl, ha⟩ := ihrest
    exact ⟨'"' :: (b ++ (u ++ ':' :: (w ++ (c ++ (w' ++ ',' :: (x ++ t)))))), a, by simp, ha⟩

/-! ## Objects -/

/-- A word or a number is no object. -/
theorem literal_not_object {cs r : List Char} {v : JsonValue} (h : literal cs = .ok (v, r)) :
    ∀ items, v ≠ .obj items := by
  unfold literal at h
  cases hfind : words.find? fun w => w.1.isPrefixOf cs with
  | some w =>
    have hall : ∀ w ∈ words, ∀ items, w.2 ≠ .obj items := by
      simp [words]
    rw [hfind] at h
    obtain ⟨rfl, -⟩ := Prod.mk.inj (Except.ok.inj h)
    exact hall w (List.mem_of_find?_eq_some hfind)
  | none =>
    rw [hfind] at h
    unfold number at h
    dsimp only at h
    split at h
    · cases h
    · obtain ⟨u, hvalue, heq⟩ := map_ok_iff.mp h
      obtain ⟨rfl, -⟩ := Prod.mk.inj heq
      unfold numberValue at hvalue
      split_ifs at hvalue <;> (rw [← Except.ok.inj hvalue]; nofun)

theorem Writes.members_last {p : JsonPart} {c : List Char} (h : Writes p c) :
    ∀ ps, p = .members ps → ∃ t, c = t ++ ['}'] := by
  induction h with
  | literal | string | emptyArray | array | emptyObject | object | lastElement | element => nofun
  | @lastMember b u w c w' k v hk hu hw h hw' ih =>
    exact fun _ _ => ⟨'"' :: (b ++ (u ++ ':' :: (w ++ (c ++ w')))), by simp⟩
  | @member b u w c w' x d k v ps hk hu hw h hw' hx hrest ih ihrest =>
    intro _ _
    obtain ⟨t, rfl⟩ := ihrest ps rfl
    exact ⟨'"' :: (b ++ (u ++ ':' :: (w ++ (c ++ (w' ++ ',' :: (x ++ t)))))), by simp⟩

/-- An object stands between braces. -/
theorem Writes.braces {p : JsonPart} {c : List Char} (h : Writes p c) :
    ∀ items, p = .value (.obj items) → ∃ t, c = '{' :: (t ++ ['}']) := by
  intro items hp
  cases h with
  | literal h =>
    obtain rfl := JsonPart.value.inj hp
    exact absurd rfl (literal_not_object h items)
  | emptyObject hw => exact ⟨_, rfl⟩
  | object hw h =>
    obtain ⟨t, rfl⟩ := h.members_last _ rfl
    exact ⟨_ ++ t, by rw [List.append_assoc]⟩
  | string | emptyArray | array => cases hp
  | lastElement | element | lastMember | member => cases hp

/-- What starts with a brace is an object. -/
theorem Writes.object_of_brace {c : List Char} {v : JsonValue} (h : Writes (.value v) c) (hc : c.head? = some '{') :
    ∃ items, v = .obj items := by
  cases h with
  | literal h =>
    obtain ⟨hne, hchars, -⟩ := literal_chars h
    obtain ⟨a, t, rfl⟩ := List.exists_cons_of_ne_nil hne
    have ha := hchars a List.mem_cons_self
    rw [Option.some.inj hc] at ha
    exact absurd ha (by decide)
  | emptyObject hw => exact ⟨[], rfl⟩
  | object hw h => exact ⟨_, rfl⟩
  | string | emptyArray | array => exact absurd (Option.some.inj hc) (by decide)

/-- An object is read whatever follows it. -/
theorem Writes.reads_object {c : List Char} {items : List (CodeString × JsonValue)}
    (h : Writes (.value (.obj items)) c) {n : ℕ} (hn : 2 * c.length ≤ n) (r : List Char) :
    value n (c ++ r) = .ok (.obj items, r) := by
  generalize hp : JsonPart.value (.obj items) = p at h
  cases h with
  | literal h =>
    obtain rfl := JsonPart.value.inj hp
    exact absurd rfl (literal_not_object h items)
  | @emptyObject w hw =>
    obtain rfl := JsonValue.obj.inj (JsonPart.value.inj hp)
    rw [List.length_cons] at hn
    obtain ⟨m, rfl⟩ : ∃ m, n = m + 1 := ⟨n - 1, by omega⟩
    rw [List.cons_append, List.append_assoc, List.singleton_append, value, skipWs_mark hw (by decide)]
    rfl
  | @object w b ps hw h =>
    rw [JsonPart.value.inj hp]
    rw [List.length_cons, List.length_append] at hn
    obtain ⟨m, rfl⟩ : ∃ m, n = m + 1 := ⟨n - 1, by omega⟩
    rw [List.cons_append, List.append_assoc, value_object m hw h.starts, h.reads m (by omega)]
    rfl
  | string | emptyArray | array => cases JsonPart.value.inj hp
  | lastElement | element | lastMember | member => cases hp

/-- Behind an object, only white space can follow. -/
theorem Writes.blank_of_loads {c r : List Char} {items : List (CodeString × JsonValue)} {v : JsonValue}
    (h : Writes (.value (.obj items)) c) (hloads : loads (c ++ r) = .ok v) : Blank r := by
  obtain ⟨t, ht⟩ := h.braces items rfl
  obtain ⟨w, d, w', hsplit, hw, hw', hwrites⟩ := loads_iff.mp hloads
  obtain rfl : w = [] := by
    cases w with
    | nil => rfl
    | cons a w =>
      have ha := hw a List.mem_cons_self
      rw [ht] at hsplit
      rw [← (List.cons.inj hsplit).1] at ha
      exact absurd ha (by decide)
  rw [List.nil_append] at hsplit
  have hhead : d.head? = some '{' := by
    obtain ⟨a, t', rfl, -⟩ := hwrites.head
    rw [ht] at hsplit
    rw [List.head?_cons, ← (List.cons.inj hsplit).1]
  obtain ⟨items', rfl⟩ := hwrites.object_of_brace hhead
  have hread := h.reads_object (Nat.le_add_right (2 * c.length) (2 * d.length)) r
  rw [hsplit, hwrites.reads_object (Nat.le_add_left (2 * d.length) (2 * c.length)) w'] at hread
  obtain ⟨-, rfl⟩ := Prod.mk.inj (Except.ok.inj hread)
  exact hw'

/-- `strip()` takes off the spaces before and behind a text that starts and ends with visible characters. -/
theorem stripChars_middle {c : List Char} (before after : List Char) (hhead : ∃ a t, c = a :: t ∧ IsPrintable a)
    (hlast : ∃ t a, c = t ++ [a] ∧ IsPrintable a) :
    stripChars (before ++ (c ++ after)) = before.dropWhile isPySpace ++ (c ++ after.rdropWhile isPySpace) := by
  have hfront : (before ++ (c ++ after)).dropWhile isPySpace = before.dropWhile isPySpace ++ (c ++ after) := by
    rw [List.dropWhile_append]
    cases hdrop : before.dropWhile isPySpace with
    | nil =>
      obtain ⟨a, t, rfl, ha⟩ := hhead
      rw [List.isEmpty_nil, if_pos rfl, List.cons_append, List.dropWhile_cons_of_neg (by simp [ha.not_space])]
      rfl
    | cons b r => rfl
  unfold stripChars
  rw [hfront]
  obtain ⟨t, a, rfl, ha⟩ := hlast
  have hend : ∀ x : List Char, (x ++ [a] ++ after).rdropWhile isPySpace = x ++ [a] ++ after.rdropWhile isPySpace := by
    intro x
    rw [List.rdropWhile, List.rdropWhile, List.reverse_append, List.dropWhile_append]
    cases hdrop : after.reverse.dropWhile isPySpace with
    | nil =>
      rw [List.isEmpty_nil, if_pos rfl, List.reverse_append, List.reverse_singleton, List.singleton_append,
        List.dropWhile_cons_of_neg (by simp [ha.not_space])]
      simp
    | cons b r => simp
  have hassoc : before.dropWhile isPySpace ++ (t ++ [a] ++ after) =
      before.dropWhile isPySpace ++ t ++ [a] ++ after := by simp
  rw [hassoc, hend]
  simp

/-- Spaces around such a text are what `strip()` removes. -/
theorem stripChars_around {p c q : List Char} (hp : ∀ a ∈ p, isPySpace a = true) (hq : ∀ a ∈ q, isPySpace a = true)
    (hhead : ∃ a t, c = a :: t ∧ IsPrintable a) (hlast : ∃ t a, c = t ++ [a] ∧ IsPrintable a) :
    stripChars (p ++ (c ++ q)) = c := by
  rw [stripChars_middle p q hhead hlast, List.dropWhile_eq_nil_iff.mpr hp, List.rdropWhile_eq_nil_iff.mpr hq,
    List.nil_append, List.append_nil]

end Galaxz
