import Galaxz.Lib.FloatText
import Galaxz.Lib.JsonText
import Mathlib.Data.List.Sort

/-!
# Writing JSON

A compact writer, as `json.dumps(value, separators=(",", ":"), ensure_ascii=False)` is one: the texts of floats are a
parameter, since serializers differ in them. What it writes is in the grammar, with the value that was written.
-/

namespace Galaxz

/-- All numbers of the string are code points of characters, so that it can be encoded. -/
def CodeString.IsText (s : CodeString) : Prop := ∀ n ∈ s, n.isValidChar

instance (s : CodeString) : Decidable s.IsText := inferInstanceAs (Decidable (∀ n ∈ s, n.isValidChar))

/-- The characters of a text. -/
def CodeString.chars (s : CodeString) : List Char := s.map Char.ofNat

namespace JsonValue

variable (p : JsonValue → Prop)

mutual

/-- The value and all values in it have the property. -/
def All : JsonValue → Prop
  | .arr xs => p (.arr xs) ∧ AllList xs
  | .obj items => p (.obj items) ∧ AllItems items
  | v => p v

/-- The same, for the elements of a list. -/
def AllList : List JsonValue → Prop
  | [] => True
  | x :: xs => All x ∧ AllList xs

/-- The same, for the values of a `dict`. -/
def AllItems : List (CodeString × JsonValue) → Prop
  | [] => True
  | (_, x) :: items => All x ∧ AllItems items

end

/-- A float is a finite double, a string is a text, and a `dict` has texts for keys, all different. -/
def IsPlainNode : JsonValue → Prop
  | .float x => ∃ q, x = .finite q ∧ PyFloat.IsDouble q ∧ |q| < PyFloat.overflowBound
  | .str s => s.IsText
  | .obj items => (items.map (·.1)).Nodup ∧ ∀ e ∈ items, e.1.IsText
  | _ => True

/-- An integer that `str` writes and `int` reads. -/
def IsShortNode : JsonValue → Prop
  | .int n => (natText n.natAbs).length ≤ JsonReader.maxDigits
  | _ => True

/-- A value with finite numbers and well-formed strings. -/
def IsPlain (v : JsonValue) : Prop := v.All IsPlainNode

/-- All integers in the value have at most 4300 digits. -/
def HasShortInts (v : JsonValue) : Prop := v.All IsShortNode

end JsonValue

namespace JsonWriter

/-- The second character of a short escape. -/
def shortEscape (n : ℕ) : Option Char :=
  [(34, '"'), (92, '\\'), (10, 'n'), (13, 'r'), (9, 't'), (12, 'f'), (8, 'b')].lookup n

/-- A code point inside a string: only the quote, the backslash and control characters are escaped. -/
def escape (n : ℕ) : CodeString :=
  match shortEscape n with
  | some e => [92, e.toNat]
  | none => if n < 32 then CodeString.ofChars ('\\' :: 'u' :: hex4 n) else [n]

/-- What stands between the quotes of a string. -/
def escaped (s : CodeString) : CodeString := s.flatMap escape

/-- A string with its quotes. -/
def strText (s : CodeString) : CodeString := 34 :: (escaped s ++ [34])

section Dumps

variable (float : PyFloat → Except PyError (List Char))

mutual

/-- The text of a value. -/
def dumps : JsonValue → Except PyError CodeString
  | .null => .ok (.ofChars "null".toList)
  | .bool b => .ok (.ofChars (if b then "true".toList else "false".toList))
  | .int n =>
    if JsonReader.maxDigits < (natText n.natAbs).length then
      .error (.valueError "Exceeds the limit (4300 digits) for integer string conversion")
    else .ok (.ofChars (intText n))
  | .float x => (float x).map .ofChars
  | .str s => .ok (strText s)
  | .arr xs => (dumpsList xs).map fun parts => 91 :: (List.intercalate [44] parts ++ [93])
  | .obj items => (dumpsItems items).map fun parts => 123 :: (List.intercalate [44] parts ++ [125])

/-- The texts of the elements of a list. -/
def dumpsList : List JsonValue → Except PyError (List CodeString)
  | [] => .ok []
  | x :: xs => do
    let part ← dumps x
    let parts ← dumpsList xs
    .ok (part :: parts)

/-- The texts of the items of a `dict`. -/
def dumpsItems : List (CodeString × JsonValue) → Except PyError (List CodeString)
  | [] => .ok []
  | (k, x) :: items => do
    let part ← dumps x
    let parts ← dumpsItems items
    .ok ((strText k ++ 58 :: part) :: parts)

end

end Dumps

/-! ## Texts -/

@[simp] theorem ofChars_append (cs ds : List Char) :
    CodeString.ofChars (cs ++ ds) = CodeString.ofChars cs ++ CodeString.ofChars ds := List.map_append

theorem toNat_ofNat {n : ℕ} (h : n.isValidChar) : (Char.ofNat n).toNat = n := by
  unfold Char.ofNat
  rw [dif_pos h]
  rfl

theorem chars_ofChars (cs : List Char) : (CodeString.ofChars cs).chars = cs := by
  unfold CodeString.ofChars CodeString.chars
  rw [List.map_map]
  refine (List.map_congr_left fun c _ => ?_).trans (List.map_id cs)
  exact Char.ofNat_toNat c

theorem isText_ofChars (cs : List Char) : (CodeString.ofChars cs).IsText := by
  intro n hn
  obtain ⟨c, -, rfl⟩ := List.mem_map.mp hn
  exact c.valid

/-! ## Strings -/

theorem stringBody_go {m m' : JsonReader.StringMode} {c : Char} {unit : Option ℕ}
    (h : JsonReader.stringStep m c = .ok (.go unit m')) (r : List Char) :
    JsonReader.stringBody m (c :: r) = (JsonReader.stringBody m' r).map fun p => (unit.toList ++ p.1, p.2) := by
  rw [JsonReader.stringBody, h]

theorem map_append_map {a b : List ℕ} (x : Except PyError (List ℕ × List Char)) :
    (x.map fun p => (b ++ p.1, p.2)).map (fun p => (a ++ p.1, p.2)) = x.map fun p => ((a ++ b) ++ p.1, p.2) := by
  cases x with
  | error e => rfl
  | ok p => simp [Except.map]

/-- A hexadecimal digit is read back. -/
theorem hexValue_hexDigit {d : ℕ} (h : d < 16) : JsonReader.hexValue (hexDigit d) = some d := by
  have hall : ∀ a < 16, JsonReader.hexValue (hexDigit a) = some a := by decide
  exact hall d h

/-- Four digits are a code unit. -/
theorem stringBody_hex4 {n : ℕ} (hn : n < 0x10000) (r : List Char) :
    JsonReader.stringBody (.hex 0 0) (hex4 n ++ r) =
      (JsonReader.stringBody .plain r).map fun p => ([n] ++ p.1, p.2) := by
  have hstep : ∀ {digits acc d : ℕ}, d < 16 → digits ≠ 3 →
      JsonReader.stringStep (.hex digits acc) (hexDigit d) = .ok (.go none (.hex (digits + 1) (acc * 16 + d))) := by
    intro digits acc d hd hdigits
    rw [JsonReader.stringStep, hexValue_hexDigit hd]
    dsimp only
    rw [if_neg hdigits]
  have hlast : ∀ {acc d : ℕ}, d < 16 →
      JsonReader.stringStep (.hex 3 acc) (hexDigit d) = .ok (.go (some (acc * 16 + d)) .plain) := by
    intro acc d hd
    rw [JsonReader.stringStep, hexValue_hexDigit hd]
    rfl
  have hvalue : (((0 * 16 + n / 4096 % 16) * 16 + n / 256 % 16) * 16 + n / 16 % 16) * 16 + n % 16 = n := by omega
  unfold hex4
  rw [List.cons_append, List.cons_append, List.cons_append, List.cons_append, List.nil_append,
    stringBody_go (hstep (by omega) (by omega)), stringBody_go (hstep (by omega) (by omega)),
    stringBody_go (hstep (by omega) (by omega)), stringBody_go (hlast (by omega)), hvalue, map_append_map,
    map_append_map, map_append_map]
  rfl

/-- An escape is read back, whatever follows it. -/
theorem stringBody_escape {n : ℕ} (hn : n.isValidChar) (r : List Char) :
    JsonReader.stringBody .plain ((escape n).chars ++ r) =
      (JsonReader.stringBody .plain r).map fun p => ([n] ++ p.1, p.2) := by
  have hback : JsonReader.stringStep .plain '\\' = .ok (.go none .escape) := rfl
  unfold escape
  cases hshort : shortEscape n with
  | some e =>
    have hall : ∀ a ∈ [(34, '"'), (92, '\\'), (10, 'n'), (13, 'r'), (9, 't'), (12, 'f'), (8, 'b')],
        a.2 ≠ 'u' ∧ JsonReader.escapeValue a.2 = some a.1 := by decide
    have hmem : (n, e) ∈ [(34, '"'), (92, '\\'), (10, 'n'), (13, 'r'), (9, 't'), (12, 'f'), (8, 'b')] := by
      obtain ⟨as, bs, happend, -⟩ := List.lookup_eq_some_iff.mp hshort
      rw [happend]
      simp
    obtain ⟨hu, hvalue⟩ := hall _ hmem
    have hchars : CodeString.chars [92, e.toNat] ++ r = '\\' :: e :: r := by
      simp [CodeString.chars, Char.ofNat_toNat]
    have hstep : JsonReader.stringStep .escape e = .ok (.go (some n) .plain) := by
      rw [JsonReader.stringStep, if_neg hu, hvalue]
    dsimp only
    rw [hchars, stringBody_go hback, stringBody_go hstep, map_append_map]
    rfl
  | none =>
    by_cases hctl : n < 32
    · have hunit : JsonReader.stringStep .escape 'u' = .ok (.go none (.hex 0 0)) := rfl
      dsimp only
      rw [if_pos hctl, chars_ofChars, List.cons_append, List.cons_append, stringBody_go hback, stringBody_go hunit,
        stringBody_hex4 (by omega : n < 0x10000), map_append_map, map_append_map]
      rfl
    · have hquote : n ≠ 34 := by
        rintro rfl
        cases hshort
      have hbackslash : n ≠ 92 := by
        rintro rfl
        cases hshort
      have hnat := toNat_ofNat hn
      have hne : ∀ c : Char, n ≠ c.toNat → Char.ofNat n ≠ c := by
        rintro c hc rfl
        exact hc hnat.symm
      have hstep : JsonReader.stringStep .plain (Char.ofNat n) = .ok (.go (some n) .plain) := by
        rw [JsonReader.stringStep, if_neg (hne '"' hquote), if_neg (hne '\\' hbackslash), hnat, if_neg hctl]
      dsimp only
      rw [if_neg hctl]
      show JsonReader.stringBody .plain (Char.ofNat n :: r) = _
      rw [stringBody_go hstep]
      rfl

theorem stringBody_escaped {s : CodeString} (h : s.IsText) (r : List Char) :
    JsonReader.stringBody .plain ((escaped s).chars ++ '"' :: r) = .ok (s, r) := by
  induction s with
  | nil => rfl
  | cons n s ih =>
    have hsplit : (escaped (n :: s)).chars ++ '"' :: r =
        (escape n).chars ++ ((escaped s).chars ++ '"' :: r) := by
      simp [CodeString.chars, escaped]
    rw [hsplit, stringBody_escape (h n List.mem_cons_self), ih fun m hm => h m (List.mem_cons_of_mem n hm)]
    rfl

theorem joinSurrogates_text {s : CodeString} (h : s.IsText) : JsonReader.joinSurrogates s = s := by
  have hhigh : ∀ n ∈ s, ¬ IsHigh n := by
    intro n hn hsurrogate
    have hvalid := h n hn
    unfold Nat.isValidChar at hvalid
    unfold IsHigh at hsurrogate
    omega
  induction s with
  | nil => rfl
  | cons n s ih =>
    have hrest := ih (fun m hm => h m (List.mem_cons_of_mem n hm)) fun m hm => hhigh m (List.mem_cons_of_mem n hm)
    cases s with
    | nil => rfl
    | cons m s => rw [JsonReader.joinSurrogates, if_neg fun hpair => hhigh n List.mem_cons_self hpair.1, hrest]

/-- A string is read back from what follows its opening quote. -/
theorem string_escaped {s : CodeString} (h : s.IsText) :
    JsonReader.string ((escaped s).chars ++ ['"']) = .ok (s, []) := by
  unfold JsonReader.string
  rw [stringBody_escaped h]
  show Except.ok (JsonReader.joinSurrogates s, []) = _
  rw [joinSurrogates_text h]

theorem chars_strText (s : CodeString) : (strText s).chars = '"' :: ((escaped s).chars ++ ['"']) := by
  unfold strText CodeString.chars
  rw [List.map_cons, List.map_append]
  rfl

/-! ## What is written is in the grammar -/

theorem isText_append {s t : CodeString} (hs : s.IsText) (ht : t.IsText) : CodeString.IsText (s ++ t) :=
  List.forall_mem_append.mpr ⟨hs, ht⟩

theorem chars_append (s t : CodeString) : CodeString.chars (s ++ t) = s.chars ++ t.chars := List.map_append

theorem isText_escape {n : ℕ} (hn : n.isValidChar) : (escape n).IsText := by
  unfold escape
  cases shortEscape n with
  | some e => exact isText_ofChars ['\\', e]
  | none =>
    dsimp only
    split_ifs
    · exact isText_ofChars _
    · exact fun m hm => by rwa [List.mem_singleton.mp hm]

theorem isText_strText {s : CodeString} (h : s.IsText) : (strText s).IsText := by
  have hquote : CodeString.IsText [34] := by decide
  refine isText_append hquote (isText_append (fun n hn => ?_) hquote)
  obtain ⟨m, hm, hmem⟩ := List.mem_flatMap.mp hn
  exact isText_escape (h m hm) n hmem

theorem intercalate_singleton (a : CodeString) : List.intercalate [44] [a] = a := by
  simp [List.intercalate]

theorem intercalate_cons (a : CodeString) {parts : List CodeString} (h : parts ≠ []) :
    List.intercalate [44] (a :: parts) = a ++ 44 :: List.intercalate [44] parts := by
  obtain ⟨b, parts, rfl⟩ := List.exists_cons_of_ne_nil h
  simp [List.intercalate]

/-- Different keys stay as they are. -/
theorem setItem_of_not_mem {k : CodeString} {x : JsonValue} {items : List (CodeString × JsonValue)}
    (h : k ∉ items.map (·.1)) : JsonValue.setItem k x items = items ++ [(k, x)] := by
  induction items with
  | nil => rfl
  | cons e items ih =>
    rw [List.map_cons, List.mem_cons, not_or] at h
    rw [JsonValue.setItem, if_neg (Ne.symm h.1), ih h.2, List.cons_append]

theorem ofPairs_of_nodup {items : List (CodeString × JsonValue)} (h : (items.map (·.1)).Nodup) :
    JsonValue.ofPairs items = .obj items := by
  have hfold : ∀ (items done : List (CodeString × JsonValue)), ((done ++ items).map (·.1)).Nodup →
      items.foldl (fun items p => JsonValue.setItem p.1 p.2 items) done = done ++ items := by
    intro items
    induction items with
    | nil => exact fun done _ => (List.append_nil done).symm
    | cons e items ih =>
      intro done hnodup
      have hnot : e.1 ∉ done.map (·.1) := by
        rw [List.map_append, List.map_cons] at hnodup
        intro hmem
        exact (List.disjoint_of_nodup_append hnodup) hmem List.mem_cons_self
      have hassoc : done ++ e :: items = done ++ [(e.1, e.2)] ++ items := by simp
      rw [List.foldl_cons, setItem_of_not_mem hnot, hassoc, ih]
      rwa [← hassoc]
  unfold JsonValue.ofPairs
  rw [hfold items [] h, List.nil_append]

/-- What a text of characters denotes. -/
def Spells (p : JsonPart) (t : CodeString) : Prop := t.IsText ∧ Writes p t.chars

theorem spells_literal {v : JsonValue} {cs : List Char} (h : JsonReader.literal cs = .ok (v, [])) :
    Spells (.value v) (.ofChars cs) :=
  ⟨isText_ofChars cs, by rw [chars_ofChars]; exact .literal h⟩

theorem spells_str {s : CodeString} (h : s.IsText) : Spells (.value (.str s)) (strText s) := by
  refine ⟨isText_strText h, ?_⟩
  rw [chars_strText]
  exact .string (string_escaped h)

theorem spells_lastElement {t : CodeString} {v : JsonValue} (h : Spells (.value v) t) :
    Spells (.elements [v]) (t ++ [93]) := by
  refine ⟨isText_append h.1 (by decide), ?_⟩
  rw [chars_append]
  exact .lastElement h.2 JsonReader.blank_nil

theorem spells_element {t u : CodeString} {v : JsonValue} {vs : List JsonValue} (h : Spells (.value v) t)
    (hrest : Spells (.elements vs) u) : Spells (.elements (v :: vs)) (t ++ 44 :: u) := by
  refine ⟨isText_append h.1 (isText_append (s := [44]) (by decide) hrest.1), ?_⟩
  rw [chars_append]
  exact .element h.2 JsonReader.blank_nil JsonReader.blank_nil hrest.2

theorem spells_array {t : CodeString} {vs : List JsonValue} (h : Spells (.elements vs) t) :
    Spells (.value (.arr vs)) (91 :: t) :=
  ⟨isText_append (s := [91]) (by decide) h.1, .array JsonReader.blank_nil h.2⟩

section Items

variable {k t u : CodeString} {v : JsonValue} {items : List (CodeString × JsonValue)}

theorem spells_lastMember (hk : k.IsText) (h : Spells (.value v) t) :
    Spells (.members [(k, v)]) (strText k ++ 58 :: t ++ [125]) := by
  refine ⟨isText_append (isText_append (isText_strText hk) (isText_append (s := [58]) (by decide) h.1)) (by decide), ?_⟩
  rw [chars_append, chars_append, chars_strText]
  have hwrites := Writes.lastMember (string_escaped hk) JsonReader.blank_nil JsonReader.blank_nil h.2
    JsonReader.blank_nil
  simpa [CodeString.chars] using hwrites

theorem spells_member (hk : k.IsText) (h : Spells (.value v) t) (hrest : Spells (.members items) u) :
    Spells (.members ((k, v) :: items)) (strText k ++ 58 :: t ++ 44 :: u) := by
  refine ⟨isText_append (isText_append (isText_strText hk) (isText_append (s := [58]) (by decide) h.1))
    (isText_append (s := [44]) (by decide) hrest.1), ?_⟩
  rw [chars_append, chars_append, chars_strText]
  have hwrites := Writes.member (string_escaped hk) JsonReader.blank_nil JsonReader.blank_nil h.2
    JsonReader.blank_nil JsonReader.blank_nil hrest.2
  simpa [CodeString.chars] using hwrites

theorem spells_object (hkeys : (items.map (·.1)).Nodup) (h : Spells (.members items) t) :
    Spells (.value (.obj items)) (123 :: t) := by
  refine ⟨isText_append (s := [123]) (by decide) h.1, ?_⟩
  rw [← ofPairs_of_nodup hkeys]
  exact .object JsonReader.blank_nil h.2

end Items

/-- The texts of floats are numbers that are read back. -/
def ReadsBack (float : PyFloat → Except PyError (List Char)) : Prop :=
  ∀ (q : ℚ) (cs : List Char), PyFloat.IsDouble q → |q| < PyFloat.overflowBound → float (.finite q) = .ok cs →
    JsonReader.literal cs = .ok (.float (.finite q), [])

section Dumped

theorem dumpsList_cons {float : PyFloat → Except PyError (List Char)} {x : JsonValue} {xs : List JsonValue}
    {parts : List CodeString} (h : dumpsList float (x :: xs) = .ok parts) :
    ∃ part others, dumps float x = .ok part ∧ dumpsList float xs = .ok others ∧ parts = part :: others := by
  obtain ⟨part, hpart, hrest⟩ := except_bind_eq_ok_iff.mp h
  obtain ⟨others, hothers, heq⟩ := except_bind_eq_ok_iff.mp hrest
  exact ⟨part, others, hpart, hothers, (Except.ok.inj heq).symm⟩

theorem dumpsItems_cons {float : PyFloat → Except PyError (List Char)} {k : CodeString} {x : JsonValue}
    {items : List (CodeString × JsonValue)} {parts : List CodeString}
    (h : dumpsItems float ((k, x) :: items) = .ok parts) :
    ∃ part others, dumps float x = .ok part ∧ dumpsItems float items = .ok others ∧
      parts = (strText k ++ 58 :: part) :: others := by
  obtain ⟨part, hpart, hrest⟩ := except_bind_eq_ok_iff.mp h
  obtain ⟨others, hothers, heq⟩ := except_bind_eq_ok_iff.mp hrest
  exact ⟨part, others, hpart, hothers, (Except.ok.inj heq).symm⟩

theorem dumpsList_ne_nil {float : PyFloat → Except PyError (List Char)} {xs : List JsonValue} (hne : xs ≠ [])
    {parts : List CodeString} (h : dumpsList float xs = .ok parts) : parts ≠ [] := by
  obtain ⟨x, xs, rfl⟩ := List.exists_cons_of_ne_nil hne
  obtain ⟨part, others, -, -, rfl⟩ := dumpsList_cons h
  exact List.cons_ne_nil part others

theorem dumpsItems_ne_nil {float : PyFloat → Except PyError (List Char)} {items : List (CodeString × JsonValue)}
    (hne : items ≠ []) {parts : List CodeString} (h : dumpsItems float items = .ok parts) : parts ≠ [] := by
  obtain ⟨⟨k, x⟩, items, rfl⟩ := List.exists_cons_of_ne_nil hne
  obtain ⟨part, others, -, -, rfl⟩ := dumpsItems_cons h
  exact List.cons_ne_nil _ others

variable {float : PyFloat → Except PyError (List Char)}

mutual

/-- What is written denotes what was written. -/
theorem spells_dumps (hfloat : ReadsBack float) : ∀ (v : JsonValue), v.IsPlain → ∀ t, dumps float v = .ok t →
    Spells (.value v) t
  | .null, _, t, h => by
    cases h
    exact spells_literal rfl
  | .bool true, _, t, h => by
    cases h
    exact spells_literal rfl
  | .bool false, _, t, h => by
    cases h
    exact spells_literal rfl
  | .int n, _, t, h => by
    rw [dumps] at h
    split_ifs at h with hlong
    cases h
    exact spells_literal (literal_intText (not_lt.mp hlong))
  | .float x, hv, t, h => by
    obtain ⟨q, rfl, hq, hrange⟩ := hv
    obtain ⟨cs, hcs, rfl⟩ := JsonReader.map_ok_iff.mp h
    exact spells_literal (hfloat q cs hq hrange hcs)
  | .str s, hv, t, h => by
    cases h
    exact spells_str hv
  | .arr [], _, t, h => by
    cases h
    exact ⟨by decide, .emptyArray JsonReader.blank_nil⟩
  | .arr (x :: xs), hv, t, h => by
    obtain ⟨parts, hparts, rfl⟩ := JsonReader.map_ok_iff.mp h
    exact spells_array (spells_dumpsList hfloat (x :: xs) (List.cons_ne_nil _ _) hv.2 parts hparts)
  | .obj [], _, t, h => by
    cases h
    exact ⟨by decide, .emptyObject JsonReader.blank_nil⟩
  | .obj ((k, x) :: items), hv, t, h => by
    obtain ⟨⟨hkeys, htexts⟩, hvalues⟩ := hv
    obtain ⟨parts, hparts, rfl⟩ := JsonReader.map_ok_iff.mp h
    exact spells_object hkeys
      (spells_dumpsItems hfloat ((k, x) :: items) (List.cons_ne_nil _ _) htexts hvalues parts hparts)

theorem spells_dumpsList (hfloat : ReadsBack float) : ∀ (xs : List JsonValue), xs ≠ [] → JsonValue.AllList JsonValue.IsPlainNode xs →
    ∀ parts, dumpsList float xs = .ok parts → Spells (.elements xs) (List.intercalate [44] parts ++ [93])
  | [], hne, _, _, _ => absurd rfl hne
  | x :: xs, _, hv, parts, h => by
    obtain ⟨part, others, hpart, hothers, rfl⟩ := dumpsList_cons h
    have hvalue := spells_dumps hfloat x hv.1 part hpart
    by_cases hlast : xs = []
    · subst hlast
      cases hothers
      rw [intercalate_singleton]
      exact spells_lastElement hvalue
    · rw [intercalate_cons part (dumpsList_ne_nil hlast hothers), List.append_assoc]
      exact spells_element hvalue (spells_dumpsList hfloat xs hlast hv.2 others hothers)

theorem spells_dumpsItems (hfloat : ReadsBack float) : ∀ (items : List (CodeString × JsonValue)), items ≠ [] →
    (∀ e ∈ items, e.1.IsText) → JsonValue.AllItems JsonValue.IsPlainNode items → ∀ parts, dumpsItems float items = .ok parts →
      Spells (.members items) (List.intercalate [44] parts ++ [125])
  | [], hne, _, _, _, _ => absurd rfl hne
  | (k, x) :: items, _, hk, hv, parts, h => by
    obtain ⟨part, others, hpart, hothers, rfl⟩ := dumpsItems_cons h
    have hkey := hk _ List.mem_cons_self
    have hvalue := spells_dumps hfloat x hv.1 part hpart
    by_cases hlast : items = []
    · subst hlast
      cases hothers
      rw [intercalate_singleton]
      exact spells_lastMember hkey hvalue
    · have hrest := spells_dumpsItems hfloat items hlast (fun e he => hk e (List.mem_cons_of_mem _ he)) hv.2 others hothers
      rw [intercalate_cons _ (dumpsItems_ne_nil hlast hothers), List.append_assoc]
      exact spells_member hkey hvalue hrest

end

/-- What is written is read back. -/
theorem loads_dumps (hfloat : ReadsBack float) {v : JsonValue} (hv : v.IsPlain) {t : CodeString} (h : dumps float v = .ok t) :
    t.IsText ∧ JsonReader.loads t.chars = .ok v := by
  obtain ⟨htext, hwrites⟩ := spells_dumps hfloat v hv t h
  refine ⟨htext, JsonReader.loads_iff.mpr ⟨[], t.chars, [], ?_, JsonReader.blank_nil, JsonReader.blank_nil, hwrites⟩⟩
  rw [List.append_nil, List.nil_append]

mutual

/-- A value is written if the texts of its floats are, and its integers are not too long. -/
theorem dumps_total (hfloat : ∀ q, ∃ cs, float (.finite q) = .ok cs) : ∀ v : JsonValue, v.IsPlain → v.HasShortInts →
    ∃ t, dumps float v = .ok t
  | .null, _, _ => ⟨_, rfl⟩
  | .bool _, _, _ => ⟨_, rfl⟩
  | .int n, _, hshort => ⟨_, if_neg (not_lt.mpr hshort)⟩
  | .float x, hv, _ => by
    obtain ⟨q, rfl, -⟩ := hv
    obtain ⟨cs, hcs⟩ := hfloat q
    exact ⟨_, JsonReader.map_ok_iff.mpr ⟨cs, hcs, rfl⟩⟩
  | .str _, _, _ => ⟨_, rfl⟩
  | .arr xs, hv, hshort => by
    obtain ⟨parts, hparts⟩ := dumpsList_total hfloat xs hv.2 hshort.2
    exact ⟨_, JsonReader.map_ok_iff.mpr ⟨parts, hparts, rfl⟩⟩
  | .obj items, hv, hshort => by
    obtain ⟨parts, hparts⟩ := dumpsItems_total hfloat items hv.2 hshort.2
    exact ⟨_, JsonReader.map_ok_iff.mpr ⟨parts, hparts, rfl⟩⟩

theorem dumpsList_total (hfloat : ∀ q, ∃ cs, float (.finite q) = .ok cs) : ∀ xs : List JsonValue,
    JsonValue.AllList JsonValue.IsPlainNode xs → JsonValue.AllList JsonValue.IsShortNode xs →
      ∃ parts, dumpsList float xs = .ok parts
  | [], _, _ => ⟨_, rfl⟩
  | x :: xs, hv, hshort => by
    obtain ⟨part, hpart⟩ := dumps_total hfloat x hv.1 hshort.1
    obtain ⟨parts, hparts⟩ := dumpsList_total hfloat xs hv.2 hshort.2
    refine ⟨part :: parts, ?_⟩
    rw [dumpsList, hpart, hparts]
    rfl

theorem dumpsItems_total (hfloat : ∀ q, ∃ cs, float (.finite q) = .ok cs) : ∀ items : List (CodeString × JsonValue),
    JsonValue.AllItems JsonValue.IsPlainNode items → JsonValue.AllItems JsonValue.IsShortNode items →
      ∃ parts, dumpsItems float items = .ok parts
  | [], _, _ => ⟨_, rfl⟩
  | (k, x) :: items, hv, hshort => by
    obtain ⟨part, hpart⟩ := dumps_total hfloat x hv.1 hshort.1
    obtain ⟨parts, hparts⟩ := dumpsItems_total hfloat items hv.2 hshort.2
    refine ⟨(strText k ++ 58 :: part) :: parts, ?_⟩
    rw [dumpsItems, hpart, hparts]
    rfl

end

/-- The text of a `dict` starts with its brace, and goes on with a key or the closing brace. -/
theorem dumps_object {items : List (CodeString × JsonValue)} {t : CodeString}
    (h : dumps float (.obj items) = .ok t) : ∃ c u, (c = 34 ∨ c = 125) ∧ t = 123 :: c :: u := by
  obtain ⟨parts, hparts, rfl⟩ := JsonReader.map_ok_iff.mp h
  cases items with
  | nil =>
    cases hparts
    exact ⟨125, [], Or.inr rfl, rfl⟩
  | cons e items =>
    obtain ⟨k, x⟩ := e
    obtain ⟨part, others, -, -, rfl⟩ := dumpsItems_cons hparts
    by_cases hlast : others = []
    · subst hlast
      rw [intercalate_singleton]
      exact ⟨34, _, Or.inl rfl, rfl⟩
    · rw [intercalate_cons _ hlast]
      exact ⟨34, _, Or.inl rfl, rfl⟩

end Dumped

end JsonWriter

end Galaxz
