import Galaxz.Lib.JsonLexing
import Galaxz.Rigel.Extraction

/-!
# When the repair of escapes is right

A text is to be repaired by doubling each backslash in its strings that starts no escape, with the escapes read
from left to right. The pattern looks at a backslash and the character behind it, so it does not know whether
the backslash is itself escaped, and it takes every `\u` for an escape.
-/

namespace Galaxz.Rigel

open JsonReader

/-! ## The repair -/

/-- What follows a backslash makes an escape of it: four hexadecimal digits have to follow a `u`. -/
def startsEscape : List Char → Bool
  | [] => false
  | c :: cs =>
    if c = 'u' then 4 ≤ cs.length && (cs.take 4).all fun d => (JsonReader.hexValue d).isSome else (escapeValue c).isSome

/-- Where a reader of escapes is. -/
inductive TextMode where
  | outside
  | inside
  | escaped
deriving DecidableEq

/-- One character further. -/
def TextMode.next : TextMode → Char → TextMode
  | .outside, c => if c = '"' then .inside else .outside
  | .inside, c => if c = '"' then .outside else if c = '\\' then .escaped else .inside
  | .escaped, _ => .inside

/-- Where the reader is after a text. -/
def TextMode.read (m : TextMode) (cs : List Char) : TextMode := cs.foldl TextMode.next m

/-- The text with each backslash doubled that is to start an escape in a string and starts none. -/
def repair : TextMode → List Char → List Char
  | _, [] => []
  | m, c :: cs =>
    if m = .inside ∧ c = '\\' ∧ startsEscape cs = false then '\\' :: '\\' :: repair .inside cs
    else c :: repair (m.next c) cs

/-- The text can be read by its quotation marks and backslashes, as every JSON text can. -/
def WellQuoted (cs : List Char) : Prop := ∃ m : LexMode, m.Free ∧ lexes .outside cs = some m

theorem wellQuoted_of_loads {cs : List Char} {v : JsonValue} (h : loads cs = .ok v) : WellQuoted cs :=
  lexes_free_of_loads h

/-- Behind each backslash that is escaped stands what the pattern takes for an escape, and behind each `\u` of a
string stand four hexadecimal digits. -/
def KeepsEscapesFrom (m : TextMode) (text : List Char) : Prop :=
  ∀ a cs, text = a ++ '\\' :: cs → (m.read a = .escaped → ∀ d ∈ cs.head?, d ∈ validEscapes) ∧
    (m.read a = .inside → cs.head? = some 'u' → startsEscape cs = true)

/-- The condition for a whole text. -/
def KeepsEscapes (text : List Char) : Prop := KeepsEscapesFrom .outside text

/-! ## One character further -/

theorem fixEscapes_cons {c : Char} (hc : c ≠ '\\') (cs : List Char) : fixEscapes (c :: cs) = c :: fixEscapes cs := by
  rw [fixEscapes]
  intro d ds hd
  exact absurd hd hc

/-- What follows a backslash is no backslash where the pattern matches, so the matches do not overlap. -/
theorem fixEscapes_doubled {d : Char} (hd : d ∉ validEscapes) (cs : List Char) :
    fixEscapes ('\\' :: d :: cs) = '\\' :: '\\' :: fixEscapes (d :: cs) := by
  have hback : d ≠ '\\' := by
    rintro rfl
    exact hd (by decide)
  rw [fixEscapes, if_pos hd, fixEscapes_cons hback]

theorem fixEscapes_kept {cs : List Char} (h : ∀ d ∈ cs.head?, d ∈ validEscapes) :
    fixEscapes ('\\' :: cs) = '\\' :: fixEscapes cs := by
  cases cs with
  | nil => rfl
  | cons d cs => rw [fixEscapes, if_neg (not_not.mpr (h d rfl))]

theorem repair_cons {m : TextMode} {c : Char} (hc : c ≠ '\\') (cs : List Char) :
    repair m (c :: cs) = c :: repair (m.next c) cs := by
  rw [repair, if_neg fun h => hc h.2.1]

theorem TextMode.next_inside {c : Char} (hquote : c ≠ '"') (hback : c ≠ '\\') : TextMode.next .inside c = .inside := by
  rw [next, if_neg hquote, if_neg hback]

theorem keepsEscapesFrom_cons {m : TextMode} {c : Char} {cs : List Char} : KeepsEscapesFrom m (c :: cs) ↔
    (c = '\\' → (m = .escaped → ∀ d ∈ cs.head?, d ∈ validEscapes) ∧
      (m = .inside → cs.head? = some 'u' → startsEscape cs = true)) ∧ KeepsEscapesFrom (m.next c) cs := by
  constructor
  · intro h
    refine ⟨?_, fun a ds hds => ?_⟩
    · rintro rfl
      exact h [] cs rfl
    · exact h (c :: a) ds (by rw [hds]; rfl)
  · rintro ⟨hfirst, hrest⟩ a ds hds
    cases a with
    | nil =>
      obtain ⟨rfl, rfl⟩ := List.cons.inj hds
      exact hfirst rfl
    | cons b a =>
      obtain ⟨rfl, htail⟩ := List.cons.inj hds
      exact hrest a ds htail

instance : (m : TextMode) → (text : List Char) → Decidable (KeepsEscapesFrom m text)
  | _, [] => isTrue fun _ _ h => absurd h.symm (List.append_ne_nil_of_right_ne_nil _ (List.cons_ne_nil _ _))
  | m, c :: cs =>
    have : Decidable (KeepsEscapesFrom (m.next c) cs) := instDecidableKeepsEscapesFrom (m.next c) cs
    decidable_of_iff _ keepsEscapesFrom_cons.symm

instance (text : List Char) : Decidable (KeepsEscapes text) := inferInstanceAs (Decidable (KeepsEscapesFrom _ _))

/-- What starts no escape, if it is no `u`, is no character of the pattern's list. -/
theorem not_mem_validEscapes {d : Char} {cs : List Char} (hu : d ≠ 'u') (h : startsEscape (d :: cs) = false) :
    d ∉ validEscapes := by
  rw [startsEscape, if_neg hu] at h
  intro hmem
  have hall : ∀ e ∈ validEscapes, e ≠ 'u' → (escapeValue e).isSome = true :=
    List.all_iff_forall_prop.mp (by decide)
  rw [hall d hmem hu] at h
  cases h

theorem mem_validEscapes {d : Char} {cs : List Char} (h : startsEscape (d :: cs) = true) : d ∈ validEscapes := by
  by_cases hu : d = 'u'
  · rw [hu]
    decide
  · rw [startsEscape, if_neg hu] at h
    have hall : ∀ p ∈ [('"', 34), ('\\', 92), ('/', 47), ('b', 8), ('f', 12), ('n', 10), ('r', 13), ('t', 9)],
        p.1 ∈ validEscapes := by decide
    obtain ⟨p, hp, heq⟩ := List.lookup_isSome_iff.mp h
    rw [beq_iff_eq.mp heq]
    exact hall p hp

/-! ## The whole text -/

/-- The two readers are at the same place. -/
def TextMode.Reads : TextMode → LexMode → Prop
  | .outside, l => l.Free
  | .inside, l => l = .inside
  | .escaped, l => l = .escaped

/-- They stay together. A backslash stands only in a string. -/
theorem TextMode.Reads.step {m : TextMode} {l l' : LexMode} {c : Char} (h : m.Reads l) (hstep : lexStep l c = some l') :
    (m.next c).Reads l' ∧ (m = .outside → c ≠ '\\') := by
  cases m with
  | outside =>
    have hplain : isPlain '\\' = false := by decide
    rcases h with rfl | rfl
    · rw [lexStep] at hstep
      split_ifs at hstep with hquote hc
      · rw [hquote, ← Option.some.inj hstep]
        exact ⟨rfl, fun _ => by decide⟩
      · rw [next, if_neg hquote, ← Option.some.inj hstep]
        refine ⟨Or.inl rfl, ?_⟩
        rintro - rfl
        rw [hplain] at hc
        cases hc
    · rw [lexStep] at hstep
      split_ifs at hstep with hc
      have hquote : c ≠ '"' := by
        rintro rfl
        exact absurd hc (by decide)
      rw [next, if_neg hquote, ← Option.some.inj hstep]
      refine ⟨Or.inl rfl, ?_⟩
      rintro - rfl
      rw [hplain] at hc
      cases hc
  | inside =>
    rw [h, lexStep] at hstep
    refine ⟨?_, fun hm => by cases hm⟩
    split_ifs at hstep with hquote hback hctl
    · rw [next, if_pos hquote, ← Option.some.inj hstep]
      exact Or.inr rfl
    · rw [next, if_neg hquote, if_pos hback, ← Option.some.inj hstep]
      rfl
    · rw [next, if_neg hquote, if_neg hback, ← Option.some.inj hstep]
      rfl
  | escaped =>
    rw [h, lexStep] at hstep
    refine ⟨?_, fun hm => by cases hm⟩
    split_ifs at hstep with hescape
    rw [← Option.some.inj hstep]
    rfl

/-- From where the two readers are at the same place, the pattern repairs the rest of the text under the
condition, and only then. -/
theorem fixEscapes_eq_repair_iff {m : TextMode} {l e : LexMode} (cs : List Char) (hm : m.Reads l) (he : e.Free)
    (h : lexes l (repair m cs) = some e) : fixEscapes cs = repair m cs ↔ KeepsEscapesFrom m cs := by
  induction cs generalizing m l with
  | nil =>
    refine iff_of_true rfl fun a ds hds => ?_
    cases a <;> cases hds
  | cons c cs ih =>
    rw [keepsEscapesFrom_cons]
    by_cases hc : c = '\\'
    · subst hc
      cases m with
      | outside =>
        -- no backslash is there
        rw [repair, if_neg (fun hin => by cases hin.1), lexes, Option.bind_eq_some_iff] at h
        obtain ⟨l', hstep, -⟩ := h
        exact absurd rfl ((hm.step hstep).2 rfl)
      | escaped =>
        rw [repair, if_neg (fun hin => by cases hin.1)] at h ⊢
        rw [lexes, Option.bind_eq_some_iff] at h
        obtain ⟨l', hstep, hrest⟩ := h
        have ih := ih (hm.step hstep).1 hrest
        by_cases hhead : ∀ d ∈ cs.head?, d ∈ validEscapes
        · rw [fixEscapes_kept hhead, List.cons.injEq, and_iff_right rfl, ih]
          exact ⟨fun hkeep => ⟨fun _ => ⟨fun _ => hhead, fun hin => (by cases hin)⟩, hkeep⟩, And.right⟩
        · -- the second backslash of an escape is taken for the start of one
          refine iff_of_false ?_ fun hkeep => hhead ((hkeep.1 rfl).1 rfl)
          obtain ⟨d, ds, rfl, hd⟩ : ∃ d ds, cs = d :: ds ∧ d ∉ validEscapes := by
            cases cs with
            | nil => exact absurd (fun d hd => by cases hd) hhead
            | cons d ds => exact ⟨d, ds, rfl, fun hd => hhead fun b hb => Option.some.inj hb ▸ hd⟩
          have hback : d ≠ '\\' := by
            rintro rfl
            exact hd (by decide)
          rw [fixEscapes_doubled hd, repair_cons hback]
          intro heq
          exact hback (List.cons.inj (List.cons.inj heq).2).1.symm
      | inside =>
        cases hstart : startsEscape cs with
        | true =>
          rw [repair, if_neg (fun hin => by rw [hin.2.2] at hstart; cases hstart)] at h ⊢
          rw [lexes, Option.bind_eq_some_iff] at h
          obtain ⟨l', hstep, hrest⟩ := h
          have ih := ih (hm.step hstep).1 hrest
          have hhead : ∀ d ∈ cs.head?, d ∈ validEscapes := by
            intro d hd
            obtain ⟨ds, rfl⟩ := List.head?_eq_some_iff.mp hd
            exact mem_validEscapes hstart
          rw [fixEscapes_kept hhead, List.cons.injEq, and_iff_right rfl, ih]
          exact ⟨fun hkeep => ⟨fun _ => ⟨fun hin => (by cases hin), fun _ _ => rfl⟩, hkeep⟩, And.right⟩
        | false =>
          rw [repair, if_pos ⟨rfl, rfl, hstart⟩] at h ⊢
          have hm' : l = .inside := hm
          have hopen : lexStep .inside '\\' = some .escaped := rfl
          have hclose : lexStep .escaped '\\' = some .inside := rfl
          rw [hm', lexes_cons hopen, lexes_cons hclose] at h
          have ih := ih (m := .inside) rfl h
          cases cs with
          | nil =>
            -- the text does not end in a string
            rcases he with rfl | rfl <;> cases h
          | cons d ds =>
            have hquote : d ≠ '"' := by
              rintro rfl
              cases hstart
            have hback : d ≠ '\\' := by
              rintro rfl
              cases hstart
            -- behind such a backslash, it does not matter whether the character is read as escaped
            have hsame : KeepsEscapesFrom (TextMode.next .inside '\\') (d :: ds) ↔ KeepsEscapesFrom .inside (d :: ds) := by
              rw [keepsEscapesFrom_cons, keepsEscapesFrom_cons, TextMode.next_inside hquote hback]
              simp only [hback, false_imp_iff, true_and]
              rfl
            rw [hsame]
            by_cases hu : d = 'u'
            · refine iff_of_false ?_ ?_
              · have hmem : ∀ b ∈ (d :: ds).head?, b ∈ validEscapes := by
                  intro b hb
                  rw [← Option.some.inj hb, hu]
                  decide
                rw [fixEscapes_kept hmem, fixEscapes_cons hback]
                intro heq
                exact hback (List.cons.inj (List.cons.inj heq).2).1
              · intro hkeep
                have htrue := (hkeep.1 rfl).2 rfl (congrArg some hu)
                cases htrue
            · rw [fixEscapes_doubled (not_mem_validEscapes hu hstart), List.cons.injEq, and_iff_right rfl,
                List.cons.injEq, and_iff_right rfl, ih]
              refine ⟨fun hkeep => ⟨fun _ => ⟨fun hin => (by cases hin), fun _ hd => ?_⟩, hkeep⟩, And.right⟩
              exact absurd (Option.some.inj hd) hu
    · rw [repair_cons hc] at h ⊢
      rw [lexes, Option.bind_eq_some_iff] at h
      obtain ⟨l', hstep, hrest⟩ := h
      rw [fixEscapes_cons hc, List.cons.injEq, ih (hm.step hstep).1 hrest]
      simp only [hc, false_imp_iff, true_and]

/-- For a text that the repair makes readable as JSON, `_fix_escapes` is the repair exactly under the condition. -/
theorem fixEscapes_iff {text : List Char} (h : WellQuoted (repair .outside text)) :
    fixEscapes text = repair .outside text ↔ KeepsEscapes text := by
  obtain ⟨e, he, hread⟩ := h
  exact fixEscapes_eq_repair_iff text (Or.inl rfl) he hread

/-- An invalid escape, `"\d"`. -/
theorem fixEscapes_digit_class : repair .outside "\"\\d\"".toList = "\"\\\\d\"".toList ∧
    fixEscapes "\"\\d\"".toList = repair .outside "\"\\d\"".toList := by
  have hquoted : WellQuoted (repair .outside "\"\\d\"".toList) := ⟨.closed, Or.inr rfl, by decide⟩
  have hkeeps : KeepsEscapes "\"\\d\"".toList := by decide
  exact ⟨by decide, (fixEscapes_iff hquoted).mpr hkeeps⟩

/-- A valid JSON text, `"\\d"`, which `_fix_escapes` breaks. -/
theorem escaped_backslash_altered : (loads "\"\\\\d\"".toList).isOk = true ∧
    repair .outside "\"\\\\d\"".toList = "\"\\\\d\"".toList ∧
    fixEscapes "\"\\\\d\"".toList ≠ repair .outside "\"\\\\d\"".toList := by
  decide +kernel

end Galaxz.Rigel
