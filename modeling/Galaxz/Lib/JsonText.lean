import Galaxz.Lib.NumberText

/-!
# JSON texts

The text that `json.dumps` writes with its default separators and `ensure_ascii`. It is uniquely
readable: two values with the same text, even if something follows them, are the same value.
-/

namespace Galaxz

/-! ## Strings -/

/-- The four digits of a code unit. -/
def hex4 (n : ℕ) : List Char :=
  [hexDigit (n / 4096 % 16), hexDigit (n / 256 % 16), hexDigit (n / 16 % 16), hexDigit (n % 16)]

/-- The number of a hexadecimal digit. -/
def hexVal (c : Char) : ℕ := "0123456789abcdef".toList.idxOf c

theorem hexVal_hexDigit {n : ℕ} (h : n < 16) : hexVal (hexDigit n) = n := by
  have hall : ∀ a < 16, hexVal (hexDigit a) = a := by decide
  exact hall n h

/-- The code unit that four digits denote, and what follows it. -/
def readHex4 : List Char → ℕ × List Char
  | a :: b :: c :: d :: r => (hexVal a * 4096 + hexVal b * 256 + hexVal c * 16 + hexVal d, r)
  | r => (0, r)

theorem readHex4_hex4 {n : ℕ} (h : n < 0x10000) (r : List Char) : readHex4 (hex4 n ++ r) = (n, r) := by
  show (hexVal (hexDigit (n / 4096 % 16)) * 4096 + hexVal (hexDigit (n / 256 % 16)) * 256 +
    hexVal (hexDigit (n / 16 % 16)) * 16 + hexVal (hexDigit (n % 16)), r) = (n, r)
  rw [hexVal_hexDigit (by omega), hexVal_hexDigit (by omega), hexVal_hexDigit (by omega),
    hexVal_hexDigit (by omega)]
  congr 1
  omega

/-- The characters that have an escape of two characters, with its second one. -/
def shortEscapes : List (Char × Char) :=
  [('"', '"'), ('\\', '\\'), ('\n', 'n'), ('\r', 'r'), ('\t', 't'), (Char.ofNat 12, 'f'), (Char.ofNat 8, 'b')]

/-- The character that a short escape stands for. -/
def unescape (e : Char) : Char := ((shortEscapes.find? (·.2 = e)).map (·.1)).getD e

/-- A character inside a JSON string, with `ensure_ascii`. -/
def charText (c : Char) : List Char :=
  match shortEscapes.lookup c with
  | some e => ['\\', e]
  | none =>
    let n := c.toNat
    if 32 ≤ n ∧ n ≤ 126 then [c]
    else if n < 0x10000 then '\\' :: 'u' :: hex4 n
    else '\\' :: 'u' :: (hex4 (0xd800 + (n - 0x10000) / 1024) ++
      '\\' :: 'u' :: hex4 (0xdc00 + (n - 0x10000) % 1024))

/-- The character that an escaped code unit starts, and what follows it: the first unit of a surrogate
pair is read together with the second one. -/
def readUnit (cs : List Char) : Char × List Char :=
  let first := readHex4 cs
  if 0xd800 ≤ first.1 ∧ first.1 < 0xdc00 then
    let second := readHex4 (first.2.drop 2)
    (Char.ofNat (0x10000 + (first.1 - 0xd800) * 1024 + (second.1 - 0xdc00)), second.2)
  else (Char.ofNat first.1, first.2)

/-- The first character of the body of a JSON string, and what follows it. -/
def readChar : List Char → Char × List Char
  | [] => ('"', [])
  | c :: r =>
    if c = '\\' then
      match r with
      | [] => (c, [])
      | e :: r => if e = 'u' then readUnit r else (unescape e, r)
    else (c, r)

theorem shortEscapes_unescape {c e : Char} (h : shortEscapes.lookup c = some e) :
    e ≠ 'u' ∧ unescape e = c := by
  have hmem : (c, e) ∈ shortEscapes := by
    obtain ⟨l₁, l₂, hsplit, -⟩ := List.lookup_eq_some_iff.mp h
    rw [hsplit]
    simp
  have hall : ∀ p ∈ shortEscapes, p.2 ≠ 'u' ∧ unescape p.2 = p.1 := by decide
  exact hall (c, e) hmem

theorem lookup_backslash : shortEscapes.lookup '\\' = some '\\' := by decide

theorem lookup_quote : shortEscapes.lookup '"' = some '"' := by decide

/-- A character is no surrogate. -/
theorem char_not_surrogate (c : Char) (h : c.toNat < 0x10000) :
    ¬ (0xd800 ≤ c.toNat ∧ c.toNat < 0xdc00) := by
  have hvalid := c.valid
  unfold UInt32.isValidChar Nat.isValidChar at hvalid
  have hval : c.toNat = c.val.toNat := rfl
  omega

theorem char_lt (c : Char) : c.toNat < 0x110000 := by
  have hvalid := c.valid
  unfold UInt32.isValidChar Nat.isValidChar at hvalid
  have hval : c.toNat = c.val.toNat := rfl
  omega

/-- A character of a JSON string reads back, whatever follows it. -/
theorem readChar_charText (c : Char) (r : List Char) : readChar (charText c ++ r) = (c, r) := by
  unfold charText
  cases hshort : shortEscapes.lookup c with
  | some e =>
    obtain ⟨hu, hback⟩ := shortEscapes_unescape hshort
    simp [readChar, hu, hback]
  | none =>
    dsimp only
    split_ifs with hplain hunit
    · have hc : c ≠ '\\' := by
        rintro rfl
        rw [lookup_backslash] at hshort
        cases hshort
      simp [readChar, hc]
    · have hread := readHex4_hex4 hunit r
      have hlone := char_not_surrogate c hunit
      simp [readChar, readUnit, hread, hlone]
    · have hlt := char_lt c
      have hfirst := readHex4_hex4 (n := 0xd800 + (c.toNat - 0x10000) / 1024) (by omega)
      have hsecond := readHex4_hex4 (n := 0xdc00 + (c.toNat - 0x10000) % 1024) (by omega)
      have hpair : 0xd800 ≤ 0xd800 + (c.toNat - 0x10000) / 1024 ∧
          0xd800 + (c.toNat - 0x10000) / 1024 < 0xdc00 := by omega
      have hsum : 0x10000 + (0xd800 + (c.toNat - 0x10000) / 1024 - 0xd800) * 1024 +
          (0xdc00 + (c.toNat - 0x10000) % 1024 - 0xdc00) = c.toNat := by omega
      simp only [readChar, readUnit, List.cons_append, List.append_assoc, hfirst,
        if_pos hpair, List.drop_succ_cons, List.drop_zero, hsecond]
      rw [hsum, Char.ofNat_toNat, if_pos trivial, if_pos trivial]

/-- The text of a character starts with no quote. -/
theorem charText_cons (c : Char) : ∃ d ds, charText c = d :: ds ∧ d ≠ '"' := by
  unfold charText
  cases hshort : shortEscapes.lookup c with
  | some e => exact ⟨'\\', _, rfl, by decide⟩
  | none =>
    dsimp only
    split_ifs with hplain hunit
    · refine ⟨c, _, rfl, ?_⟩
      rintro rfl
      rw [lookup_quote] at hshort
      cases hshort
    · exact ⟨'\\', _, rfl, by decide⟩
    · exact ⟨'\\', _, rfl, by decide⟩

/-- `json.dumps(s)`. -/
def strText (s : String) : List Char := '"' :: (s.toList.flatMap charText ++ ['"'])

theorem flatMap_charText_unique (cs ds r r' : List Char)
    (h : cs.flatMap charText ++ '"' :: r = ds.flatMap charText ++ '"' :: r') : cs = ds ∧ r = r' := by
  induction cs generalizing ds with
  | nil =>
    cases ds with
    | nil => exact ⟨rfl, (List.cons.inj h).2⟩
    | cons d ds =>
      obtain ⟨e, es, hcons, he⟩ := charText_cons d
      rw [List.flatMap_cons, hcons] at h
      exact absurd (List.cons.inj h).1.symm he
  | cons c cs ih =>
    cases ds with
    | nil =>
      obtain ⟨e, es, hcons, he⟩ := charText_cons c
      rw [List.flatMap_cons, hcons] at h
      exact absurd (List.cons.inj h).1 he
    | cons d ds =>
      rw [List.flatMap_cons, List.flatMap_cons, List.append_assoc, List.append_assoc] at h
      have hread := congrArg readChar h
      rw [readChar_charText, readChar_charText] at hread
      obtain ⟨hhead, htail⟩ := Prod.mk.inj hread
      obtain ⟨hrest, hr⟩ := ih ds htail
      exact ⟨by rw [hhead, hrest], hr⟩

theorem strText_unique {s t : String} {r r' : List Char} (h : strText s ++ r = strText t ++ r') :
    s = t ∧ r = r' := by
  unfold strText at h
  rw [List.cons_append, List.cons_append, List.append_assoc, List.append_assoc] at h
  obtain ⟨hlist, hr⟩ := flatMap_charText_unique _ _ r r' (List.cons.inj h).2
  exact ⟨String.toList_injective hlist, hr⟩

/-! ## Values without parts -/

namespace PyValue

/-- The text of a value that is no string, list or `dict`. -/
def atomText : PyValue → List Char
  | .none => "null".toList
  | .bool b => if b then "true".toList else "false".toList
  | .int n => intText n
  | .float x => x.reprText
  | _ => []

/-- The text has the characters of an integer only. -/
def IsIntText (cs : List Char) : Prop := ∀ c ∈ cs, IsDigit c ∨ c = '-'

instance : DecidablePred IsIntText := fun cs => List.decidableBAll (fun c => IsDigit c ∨ c = '-') cs

/-- The value that such a text denotes. -/
def atomOf (cs : List Char) : PyValue :=
  if cs = "null".toList then .none
  else if cs = "true".toList then .bool true
  else if cs = "false".toList then .bool false
  else if IsIntText cs then .int (intOf cs)
  else .float (PyFloat.floatOf cs)

/-- A value that is no string, list or `dict`. -/
def IsAtom : PyValue → Prop
  | .none | .bool _ | .int _ | .float _ => True
  | _ => False

theorem intText_chars (n : ℤ) : IsIntText (intText n) := by
  intro c hc
  unfold intText at hc
  split_ifs at hc
  · rcases List.mem_cons.mp hc with rfl | hc
    · exact Or.inr rfl
    · exact Or.inl (natText_digits _ c hc)
  · exact Or.inl (natText_digits _ c hc)

/-- The text of a decimal is not that of an integer. -/
theorem decimalText_point (m : ℕ) (e : ℤ) : '.' ∈ PyFloat.decimalText m e ∨ 'e' ∈ PyFloat.decimalText m e := by
  unfold PyFloat.decimalText
  dsimp only
  split_ifs
  · exact Or.inl (by simp)
  · exact Or.inl (by simp)
  · exact Or.inl (by simp)
  · exact Or.inr (by simp)
  · exact Or.inr (by simp)

theorem magnitudeText_point (q : ℚ) :
    ∃ c ∈ PyFloat.magnitudeText q, ¬ (IsDigit c ∨ c = '-') := by
  unfold PyFloat.magnitudeText
  cases PyFloat.shortestDecimal q with
  | some p =>
    obtain ⟨m, e⟩ := p
    rcases decimalText_point m e with h | h
    · exact ⟨'.', h, by decide⟩
    · exact ⟨'e', h, by decide⟩
  | none => exact ⟨'/', by simp, by decide⟩

theorem reprText_point (x : PyFloat) : ∃ c ∈ x.reprText, ¬ (IsDigit c ∨ c = '-') := by
  cases x with
  | nan => exact ⟨'N', by decide, by decide⟩
  | posInf => exact ⟨'I', by decide, by decide⟩
  | negInf => exact ⟨'I', by decide, by decide⟩
  | finite q =>
    unfold PyFloat.reprText
    dsimp only
    obtain ⟨c, hc, hpoint⟩ := magnitudeText_point |q|
    split_ifs
    · exact ⟨'.', by decide, by decide⟩
    · exact ⟨c, List.mem_cons_of_mem _ hc, hpoint⟩
    · exact ⟨c, hc, hpoint⟩

/-- A character that opens or closes a string, a list or a `dict`, or separates their parts. -/
def IsMark (c : Char) : Prop := c ∈ ['"', '[', '{', ',', ']', '}']

instance (c : Char) : Decidable (IsMark c) := inferInstanceAs (Decidable (c ∈ _))

/-- The first character of a number. -/
def IsNumberHead (c : Char) : Prop := IsDigit c ∨ c ∈ ['-', 'N', 'I']

instance (c : Char) : Decidable (IsNumberHead c) := inferInstanceAs (Decidable (_ ∨ _))

theorem intText_head (n : ℤ) : ∃ c cs, intText n = c :: cs ∧ IsNumberHead c := by
  unfold intText
  obtain ⟨c, cs, hcons, hc⟩ := PyFloat.natText_cons n.natAbs
  split_ifs
  · exact ⟨'-', _, rfl, by decide⟩
  · exact ⟨c, cs, hcons, Or.inl hc⟩

theorem reprText_head (x : PyFloat) : ∃ c cs, x.reprText = c :: cs ∧ IsNumberHead c := by
  cases x with
  | nan => exact ⟨'N', _, rfl, by decide⟩
  | posInf => exact ⟨'I', _, rfl, by decide⟩
  | negInf => exact ⟨'-', _, rfl, by decide⟩
  | finite q =>
    unfold PyFloat.reprText
    dsimp only
    obtain ⟨c, cs, hcons, hc⟩ := PyFloat.magnitudeText_cons |q|
    split_ifs
    · exact ⟨'0', _, rfl, by decide⟩
    · exact ⟨'-', _, rfl, by decide⟩
    · exact ⟨c, cs, hcons, Or.inl hc⟩

theorem not_word_of_head {cs : List Char} (h : ∃ c ds, cs = c :: ds ∧ IsNumberHead c) :
    cs ≠ "null".toList ∧ cs ≠ "true".toList ∧ cs ≠ "false".toList := by
  obtain ⟨c, ds, rfl, hc⟩ := h
  refine ⟨?_, ?_, ?_⟩
  · intro e
    have hhead : c = 'n' := (List.cons.inj e).1
    exact absurd (hhead ▸ hc) (by decide)
  · intro e
    have hhead : c = 't' := (List.cons.inj e).1
    exact absurd (hhead ▸ hc) (by decide)
  · intro e
    have hhead : c = 'f' := (List.cons.inj e).1
    exact absurd (hhead ▸ hc) (by decide)

/-- A value without parts reads back from its text. -/
theorem atomOf_atomText {v : PyValue} (h : v.IsAtom) : atomOf (atomText v) = v := by
  cases v with
  | none => rfl
  | bool b => cases b <;> rfl
  | int n =>
    obtain ⟨hnull, htrue, hfalse⟩ := not_word_of_head (intText_head n)
    show atomOf (intText n) = .int n
    unfold atomOf
    rw [if_neg hnull, if_neg htrue, if_neg hfalse, if_pos (intText_chars n), intOf_intText]
  | float x =>
    obtain ⟨hnull, htrue, hfalse⟩ := not_word_of_head (reprText_head x)
    obtain ⟨c, hc, hpoint⟩ := reprText_point x
    show atomOf x.reprText = .float x
    unfold atomOf
    rw [if_neg hnull, if_neg htrue, if_neg hfalse, if_neg fun hall => hpoint (hall c hc),
      PyFloat.floatOf_reprText]
  | str s => exact h.elim
  | list xs => exact h.elim
  | dict items => exact h.elim
  | other => exact h.elim

theorem not_isMark_of_isDigit {c : Char} (h : IsDigit c) : ¬ IsMark c := by
  intro hmark
  unfold IsMark at hmark
  simp only [List.mem_cons, List.not_mem_nil, or_false] at hmark
  rcases hmark with rfl | rfl | rfl | rfl | rfl | rfl <;> exact absurd h (by decide)

theorem magnitudeText_plain (q : ℚ) : ∀ c ∈ PyFloat.magnitudeText q, ¬ IsMark c := by
  intro c hc
  unfold PyFloat.magnitudeText at hc
  cases hshort : PyFloat.shortestDecimal q with
  | some p =>
    rw [hshort] at hc
    rcases PyFloat.decimalText_chars _ _ c hc with h | rfl | rfl | rfl | rfl
    · exact not_isMark_of_isDigit h
    · decide
    · decide
    · decide
    · decide
  | none =>
    rw [hshort] at hc
    rcases List.mem_append.mp hc with hc | hc
    · exact not_isMark_of_isDigit (natText_digits _ c hc)
    · rcases List.mem_cons.mp hc with rfl | hc
      · decide
      · exact not_isMark_of_isDigit (natText_digits _ c hc)

theorem plain_of_all {cs : List Char} (h : cs.all (fun c => decide (¬ IsMark c)) = true) :
    ∀ c ∈ cs, ¬ IsMark c := by
  intro c hc
  exact of_decide_eq_true (List.all_eq_true.mp h c hc)

theorem reprText_plain (x : PyFloat) : ∀ c ∈ x.reprText, ¬ IsMark c := by
  cases x with
  | nan => exact plain_of_all (by decide)
  | posInf => exact plain_of_all (by decide)
  | negInf => exact plain_of_all (by decide)
  | finite q =>
    unfold PyFloat.reprText
    dsimp only
    split_ifs
    · exact plain_of_all (by decide)
    · intro c hc
      rcases List.mem_cons.mp hc with rfl | hc
      · decide
      · exact magnitudeText_plain _ c hc
    · exact magnitudeText_plain _

/-- The text of a value without parts has none of the characters that delimit values. -/
theorem atomText_plain (v : PyValue) : ∀ c ∈ atomText v, ¬ IsMark c := by
  cases v with
  | none => exact plain_of_all (by decide)
  | bool b => cases b <;> exact plain_of_all (by decide)
  | int n =>
    intro c hc
    rcases intText_chars n c hc with h | rfl
    · exact not_isMark_of_isDigit h
    · decide
  | float x => exact reprText_plain x
  | str s => exact fun c hc => absurd hc List.not_mem_nil
  | list xs => exact fun c hc => absurd hc List.not_mem_nil
  | dict items => exact fun c hc => absurd hc List.not_mem_nil
  | other => exact fun c hc => absurd hc List.not_mem_nil

theorem atomText_ne_nil {v : PyValue} (h : v.IsAtom) : atomText v ≠ [] := by
  cases v with
  | none => decide
  | bool b => cases b <;> decide
  | int n =>
    obtain ⟨c, cs, hcons, -⟩ := intText_head n
    exact fun hnil => List.cons_ne_nil c cs (hcons.symm.trans hnil)
  | float x =>
    obtain ⟨c, cs, hcons, -⟩ := reprText_head x
    exact fun hnil => List.cons_ne_nil c cs (hcons.symm.trans hnil)
  | str s => exact h.elim
  | list xs => exact h.elim
  | dict items => exact h.elim
  | other => exact h.elim

/-- What may follow a value: nothing, or the next character of what it is a part of. -/
def Closed (r : List Char) : Prop := ∀ c ∈ r.head?, IsMark c

theorem Closed.takeWhile {cs r : List Char} (hr : Closed r) (hcs : ∀ c ∈ cs, ¬ IsMark c) :
    (cs ++ r).takeWhile (fun c => ¬ IsMark c) = cs ∧ (cs ++ r).dropWhile (fun c => ¬ IsMark c) = r := by
  have hall : ∀ c ∈ cs, (fun c => decide (¬ IsMark c)) c = true := fun c hc => decide_eq_true (hcs c hc)
  rw [List.takeWhile_append_of_pos hall, List.dropWhile_append_of_pos hall]
  cases r with
  | nil => simp
  | cons c r =>
    have hc : IsMark c := hr c rfl
    simp [hc]

theorem atomText_unique {a b : PyValue} {r r' : List Char} (ha : a.IsAtom) (hb : b.IsAtom)
    (hr : Closed r) (hr' : Closed r') (h : atomText a ++ r = atomText b ++ r') : a = b ∧ r = r' := by
  obtain ⟨htake, hdrop⟩ := hr.takeWhile (atomText_plain a)
  obtain ⟨htake', hdrop'⟩ := hr'.takeWhile (atomText_plain b)
  rw [h] at htake hdrop
  constructor
  · have htext : atomText a = atomText b := htake.symm.trans htake'
    rw [← atomOf_atomText ha, htext, atomOf_atomText hb]
  · exact hdrop.symm.trans hdrop'

/-! ## All values -/

section

-- What stands between a separator and what it separates, and what `default=str` makes of an object that
-- is no JSON value.
variable (gap : List Char) (unknown : String)

mutual

/-- `json.dumps(value, separators=(..), default=str)`. -/
def textWith : PyValue → List Char
  | .str s => strText s
  | .list xs => '[' :: textList xs
  | .dict items => '{' :: textItems items
  | .other => strText unknown
  | .none => atomText .none
  | .bool b => atomText (.bool b)
  | .int n => atomText (.int n)
  | .float x => atomText (.float x)

/-- The rest of the text of a list, from its first element on. -/
def textList : List PyValue → List Char
  | [] => [']']
  | x :: xs => textWith x ++ textRest xs

/-- The rest of the text of a list, after an element. -/
def textRest : List PyValue → List Char
  | [] => [']']
  | x :: xs => ',' :: (gap ++ (textWith x ++ textRest xs))

/-- The rest of the text of a `dict`, from its first item on. -/
def textItems : List (String × PyValue) → List Char
  | [] => ['}']
  | (k, x) :: xs => strText k ++ ':' :: (gap ++ (textWith x ++ textItemsRest xs))

/-- The rest of the text of a `dict`, after an item. -/
def textItemsRest : List (String × PyValue) → List Char
  | [] => ['}']
  | (k, x) :: xs => ',' :: (gap ++ (strText k ++ ':' :: (gap ++ (textWith x ++ textItemsRest xs))))

end

/-- `json.dumps(value, default=str)`, with the usual separators. -/
def text : PyValue → List Char := textWith [' '] unknown

/-- The kinds of values, by the first character of their texts. -/
def kind : PyValue → ℕ
  | .str _ | .other => 1
  | .list _ => 2
  | .dict _ => 3
  | .none | .bool _ | .int _ | .float _ => 0

/-- The kind of the values whose text starts with a character. -/
def kindOf (c : Char) : ℕ := if c = '"' then 1 else if c = '[' then 2 else if c = '{' then 3 else 0

theorem kindOf_atomText (v : PyValue) (h : v.IsAtom) (r : List Char) :
    (atomText v ++ r).head?.map kindOf = some 0 := by
  obtain ⟨c, cs, hcons⟩ := List.exists_cons_of_ne_nil (atomText_ne_nil h)
  have hplain : ¬ IsMark c := atomText_plain v c (hcons ▸ List.mem_cons_self)
  have hquote : c ≠ '"' := by rintro rfl; exact hplain (by decide)
  have hlist : c ≠ '[' := by rintro rfl; exact hplain (by decide)
  have hdict : c ≠ '{' := by rintro rfl; exact hplain (by decide)
  rw [hcons]
  simp [kindOf, hquote, hlist, hdict]

/-- The first character of a text says which kind of value it is. -/
theorem kindOf_text (v : PyValue) (r : List Char) :
    (textWith gap unknown v ++ r).head?.map kindOf = some (kind v) := by
  cases v with
  | none => exact kindOf_atomText .none trivial r
  | bool b => exact kindOf_atomText (.bool b) trivial r
  | int n => exact kindOf_atomText (.int n) trivial r
  | float x => exact kindOf_atomText (.float x) trivial r
  | str s => simp [textWith, strText, kindOf, kind]
  | list xs => simp [textWith, kindOf, kind]
  | dict items => simp [textWith, kindOf, kind]
  | other => simp [textWith, strText, kindOf, kind]

variable {gap unknown}

theorem kind_eq_of_text {a b : PyValue} {r r' : List Char}
    (h : textWith gap unknown a ++ r = textWith gap unknown b ++ r') : kind a = kind b := by
  have hkind := kindOf_text gap unknown a r
  rw [h, kindOf_text] at hkind
  exact (Option.some_injective _ hkind).symm

theorem text_eq_atomText {v : PyValue} (h : v.IsAtom) : textWith gap unknown v = atomText v := by
  cases v with
  | none => rfl
  | bool b => rfl
  | int n => rfl
  | float x => rfl
  | str s => exact h.elim
  | list xs => exact h.elim
  | dict items => exact h.elim
  | other => exact h.elim

theorem isAtom_of_kind {v : PyValue} (h : kind v = 0) : v.IsAtom := by
  cases v with
  | none => trivial
  | bool b => trivial
  | int n => trivial
  | float x => trivial
  | str s => cases h
  | list xs => cases h
  | dict items => cases h
  | other => cases h

theorem text_unique_atom {a b : PyValue} {r r' : List Char} (ha : a.IsAtom) (hr : Closed r)
    (hr' : Closed r') (hzero : kind a = 0) (h : textWith gap unknown a ++ r = textWith gap unknown b ++ r') :
    a = b ∧ r = r' := by
  have hb : b.IsAtom := isAtom_of_kind ((kind_eq_of_text h).symm.trans hzero)
  rw [text_eq_atomText ha, text_eq_atomText hb] at h
  exact atomText_unique ha hb hr hr' h

/-- No value starts with a closing bracket. -/
theorem text_not_closing {v : PyValue} {c : Char} {r r' : List Char} (hc : c = ']' ∨ c = '}') :
    textWith gap unknown v ++ r ≠ c :: r' := by
  intro h
  have hkind := kindOf_text gap unknown v r
  have hzero : kindOf c = 0 := by rcases hc with rfl | rfl <;> decide
  rw [h, List.head?_cons, Option.map_some, hzero] at hkind
  have hatom := isAtom_of_kind (Option.some_injective _ hkind).symm
  obtain ⟨d, ds, hcons⟩ := List.exists_cons_of_ne_nil (atomText_ne_nil hatom)
  rw [text_eq_atomText hatom, hcons] at h
  have hmem : c ∈ atomText v := by
    rw [hcons, ← (List.cons.inj h).1]
    exact List.mem_cons_self
  refine atomText_plain v c hmem ?_
  rcases hc with rfl | rfl <;> decide

theorem append_of_separator {c : Char} {gap x y r r' : List Char}
    (h : c :: (gap ++ x) ++ r = c :: (gap ++ y) ++ r') : x ++ r = y ++ r' := by
  have htail : (gap ++ x) ++ r = (gap ++ y) ++ r' := (List.cons.inj h).2
  rw [List.append_assoc, List.append_assoc] at htail
  exact List.append_cancel_left htail

theorem closed_textRest (xs : List PyValue) (r : List Char) : Closed (textRest gap unknown xs ++ r) := by
  cases xs with
  | nil => intro c hc; cases hc; decide
  | cons x xs => intro c hc; cases hc; decide

theorem closed_textItemsRest (xs : List (String × PyValue)) (r : List Char) :
    Closed (textItemsRest gap unknown xs ++ r) := by
  cases xs with
  | nil => intro c hc; cases hc; decide
  | cons x xs => intro c hc; cases hc; decide

mutual

/-- A JSON value is determined by its text, whatever may follow it. -/
theorem text_unique : ∀ (a b : PyValue) (r r' : List Char), a.serializable = true →
    b.serializable = true → Closed r → Closed r' → textWith gap unknown a ++ r = textWith gap unknown b ++ r' →
    a = b ∧ r = r'
  | .none, _, _, _, _, _, hr, hr', h => text_unique_atom trivial hr hr' rfl h
  | .bool _, _, _, _, _, _, hr, hr', h => text_unique_atom trivial hr hr' rfl h
  | .int _, _, _, _, _, _, hr, hr', h => text_unique_atom trivial hr hr' rfl h
  | .float _, _, _, _, _, _, hr, hr', h => text_unique_atom trivial hr hr' rfl h
  | .other, _, _, _, ha, _, _, _, _ => by cases ha
  | .str s, b, r, r', _, hb, _, _, h => by
    have hkind := kind_eq_of_text h
    cases b with
    | str t =>
      obtain ⟨hs, hrest⟩ := strText_unique h
      exact ⟨by rw [hs], hrest⟩
    | other => cases hb
    | _ => cases hkind
  | .list xs, b, r, r', ha, hb, hr, hr', h => by
    have hkind := kind_eq_of_text h
    cases b with
    | list ys =>
      obtain ⟨hxs, hrest⟩ := textList_unique xs ys r r' ha hb (List.cons.inj h).2
      exact ⟨by rw [hxs], hrest⟩
    | _ => cases hkind
  | .dict xs, b, r, r', ha, hb, hr, hr', h => by
    have hkind := kind_eq_of_text h
    cases b with
    | dict ys =>
      obtain ⟨hxs, hrest⟩ := textItems_unique xs ys r r' ha hb (List.cons.inj h).2
      exact ⟨by rw [hxs], hrest⟩
    | _ => cases hkind

theorem textList_unique : ∀ (xs ys : List PyValue) (r r' : List Char), serializableList xs = true →
    serializableList ys = true → textList gap unknown xs ++ r = textList gap unknown ys ++ r' →
    xs = ys ∧ r = r'
  | [], [], r, r', _, _, h => ⟨rfl, (List.cons.inj h).2⟩
  | [], y :: ys, r, r', _, _, h => by
    rw [textList, textList, List.append_assoc] at h
    exact absurd h.symm (text_not_closing (Or.inl rfl))
  | x :: xs, [], r, r', _, _, h => by
    rw [textList, textList, List.append_assoc] at h
    exact absurd h (text_not_closing (Or.inl rfl))
  | x :: xs, y :: ys, r, r', ha, hb, h => by
    rw [serializableList, Bool.and_eq_true] at ha hb
    rw [textList, textList, List.append_assoc, List.append_assoc] at h
    obtain ⟨hx, htail⟩ := text_unique x y _ _ ha.1 hb.1 (closed_textRest xs r) (closed_textRest ys r') h
    obtain ⟨hxs, hrest⟩ := textRest_unique xs ys r r' ha.2 hb.2 htail
    exact ⟨by rw [hx, hxs], hrest⟩

theorem textRest_unique : ∀ (xs ys : List PyValue) (r r' : List Char), serializableList xs = true →
    serializableList ys = true → textRest gap unknown xs ++ r = textRest gap unknown ys ++ r' →
    xs = ys ∧ r = r'
  | [], [], r, r', _, _, h => ⟨rfl, (List.cons.inj h).2⟩
  | [], y :: ys, r, r', _, _, h => absurd (List.cons.inj h).1 (by decide)
  | x :: xs, [], r, r', _, _, h => absurd (List.cons.inj h).1 (by decide)
  | x :: xs, y :: ys, r, r', ha, hb, h => by
    rw [serializableList, Bool.and_eq_true] at ha hb
    have h := append_of_separator h
    rw [List.append_assoc, List.append_assoc] at h
    obtain ⟨hx, htail⟩ := text_unique x y _ _ ha.1 hb.1 (closed_textRest xs r) (closed_textRest ys r') h
    obtain ⟨hxs, hrest⟩ := textRest_unique xs ys r r' ha.2 hb.2 htail
    exact ⟨by rw [hx, hxs], hrest⟩

theorem textItems_unique : ∀ (xs ys : List (String × PyValue)) (r r' : List Char),
    serializableItems xs = true → serializableItems ys = true →
    textItems gap unknown xs ++ r = textItems gap unknown ys ++ r' → xs = ys ∧ r = r'
  | [], [], r, r', _, _, h => ⟨rfl, (List.cons.inj h).2⟩
  | [], (l, y) :: ys, r, r', _, _, h => absurd (List.cons.inj h).1 (by decide)
  | (k, x) :: xs, [], r, r', _, _, h => absurd (List.cons.inj h).1 (by decide)
  | (k, x) :: xs, (l, y) :: ys, r, r', ha, hb, h => by
    rw [serializableItems, Bool.and_eq_true] at ha hb
    rw [textItems, textItems, List.append_assoc, List.append_assoc] at h
    obtain ⟨hk, h⟩ := strText_unique h
    have h := append_of_separator h
    rw [List.append_assoc, List.append_assoc] at h
    obtain ⟨hx, htail⟩ :=
      text_unique x y _ _ ha.1 hb.1 (closed_textItemsRest xs r) (closed_textItemsRest ys r') h
    obtain ⟨hxs, hrest⟩ := textItemsRest_unique xs ys r r' ha.2 hb.2 htail
    exact ⟨by rw [hk, hx, hxs], hrest⟩

theorem textItemsRest_unique : ∀ (xs ys : List (String × PyValue)) (r r' : List Char),
    serializableItems xs = true → serializableItems ys = true →
    textItemsRest gap unknown xs ++ r = textItemsRest gap unknown ys ++ r' → xs = ys ∧ r = r'
  | [], [], r, r', _, _, h => ⟨rfl, (List.cons.inj h).2⟩
  | [], (l, y) :: ys, r, r', _, _, h => absurd (List.cons.inj h).1 (by decide)
  | (k, x) :: xs, [], r, r', _, _, h => absurd (List.cons.inj h).1 (by decide)
  | (k, x) :: xs, (l, y) :: ys, r, r', ha, hb, h => by
    rw [serializableItems, Bool.and_eq_true] at ha hb
    have h := append_of_separator h
    rw [List.append_assoc, List.append_assoc] at h
    obtain ⟨hk, h⟩ := strText_unique h
    have h := append_of_separator h
    rw [List.append_assoc, List.append_assoc] at h
    obtain ⟨hx, htail⟩ :=
      text_unique x y _ _ ha.1 hb.1 (closed_textItemsRest xs r) (closed_textItemsRest ys r') h
    obtain ⟨hxs, hrest⟩ := textItemsRest_unique xs ys r r' ha.2 hb.2 htail
    exact ⟨by rw [hk, hx, hxs], hrest⟩

end

/-- A JSON value is determined by its text. -/
theorem textWith_injective {a b : PyValue} (ha : a.serializable = true) (hb : b.serializable = true)
    (h : textWith gap unknown a = textWith gap unknown b) : a = b := by
  have hclosed : Closed [] := fun c hc => absurd hc (by simp)
  exact (text_unique a b [] [] ha hb hclosed hclosed (by rw [h])).1

end

end PyValue

end Galaxz
