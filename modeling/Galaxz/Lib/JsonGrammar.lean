import Galaxz.Lib.JsonReader
import Galaxz.Lib.PyStr
import Mathlib.Data.Bool.AllAny

/-!
# The grammar of JSON

A text denotes a value if it is put together from its tokens, with white space between them. The scanner
accepts the texts of the grammar, each with its value, and no others.
-/

namespace Galaxz

open JsonReader

/-- What a piece of a JSON text denotes: a value, the rest of a list, or the rest of an object. -/
inductive JsonPart where
  | value (v : JsonValue)
  | elements (vs : List JsonValue)
  | members (ps : List (CodeString × JsonValue))

/-- The text denotes the value, the elements up to the closing bracket, or the members up to the closing
brace. -/
inductive Writes : JsonPart → List Char → Prop where
  | literal {c : List Char} {v : JsonValue} (h : literal c = .ok (v, [])) : Writes (.value v) c
  | string {b : List Char} {s : CodeString} (h : string b = .ok (s, [])) : Writes (.value (.str s)) ('"' :: b)
  | emptyArray {w : List Char} (hw : Blank w) : Writes (.value (.arr [])) ('[' :: (w ++ [']']))
  | array {w b : List Char} {vs : List JsonValue} (hw : Blank w) (h : Writes (.elements vs) b) :
      Writes (.value (.arr vs)) ('[' :: (w ++ b))
  | emptyObject {w : List Char} (hw : Blank w) : Writes (.value (.obj [])) ('{' :: (w ++ ['}']))
  | object {w b : List Char} {ps : List (CodeString × JsonValue)} (hw : Blank w) (h : Writes (.members ps) b) :
      Writes (.value (.ofPairs ps)) ('{' :: (w ++ b))
  | lastElement {c w : List Char} {v : JsonValue} (h : Writes (.value v) c) (hw : Blank w) :
      Writes (.elements [v]) (c ++ (w ++ [']']))
  | element {c w w' b : List Char} {v : JsonValue} {vs : List JsonValue} (h : Writes (.value v) c)
      (hw : Blank w) (hw' : Blank w') (hrest : Writes (.elements vs) b) :
      Writes (.elements (v :: vs)) (c ++ (w ++ ',' :: (w' ++ b)))
  | lastMember {b u w c w' : List Char} {k : CodeString} {v : JsonValue} (hk : JsonReader.string b = .ok (k, []))
      (hu : Blank u) (hw : Blank w) (h : Writes (.value v) c) (hw' : Blank w') :
      Writes (.members [(k, v)]) ('"' :: (b ++ (u ++ ':' :: (w ++ (c ++ (w' ++ ['}']))))))
  | member {b u w c w' x d : List Char} {k : CodeString} {v : JsonValue} {ps : List (CodeString × JsonValue)}
      (hk : JsonReader.string b = .ok (k, [])) (hu : Blank u) (hw : Blank w) (h : Writes (.value v) c)
      (hw' : Blank w') (hx : Blank x) (hrest : Writes (.members ps) d) :
      Writes (.members ((k, v) :: ps)) ('"' :: (b ++ (u ++ ':' :: (w ++ (c ++ (w' ++ ',' :: (x ++ d)))))))

namespace JsonReader

/-! ## White space -/

theorem skipWs_append {w : List Char} (hw : Blank w) (cs : List Char) : skipWs (w ++ cs) = skipWs cs :=
  List.dropWhile_append_of_pos hw

theorem skipWs_cons {c : Char} (hc : isWs c = false) (cs : List Char) : skipWs (c :: cs) = c :: cs :=
  List.dropWhile_cons_of_neg (by simp [hc])

/-- The white space at the front, and the rest. -/
theorem skipWs_split (cs : List Char) : ∃ w, Blank w ∧ cs = w ++ skipWs cs :=
  ⟨cs.takeWhile isWs, fun _ h => List.mem_takeWhile_imp h, (List.takeWhile_append_dropWhile).symm⟩

theorem skipWs_eq_nil_iff {cs : List Char} : skipWs cs = [] ↔ Blank cs := List.dropWhile_eq_nil_iff

theorem blank_nil : Blank [] := fun _ h => absurd h List.not_mem_nil

/-! ## Tokens -/

theorem map_ok_iff {α β : Type} {f : α → β} {x : Except PyError α} {b : β} :
    x.map f = .ok b ↔ ∃ a, x = .ok a ∧ f a = b := by
  cases x with
  | error e => simp [Except.map]
  | ok a => simp [Except.map]

/-- A string goes on until a character closes it. -/
theorem stringBody_cons_iff {c : Char} {cs r : List Char} {s : List ℕ} {m : StringMode} :
    stringBody m (c :: cs) = .ok (s, r) ↔ stringStep m c = .ok .close ∧ s = [] ∧ r = cs ∨
      ∃ unit m' s', stringStep m c = .ok (.go unit m') ∧ stringBody m' cs = .ok (s', r) ∧ s = unit.toList ++ s' := by
  rw [stringBody]
  cases hstep : stringStep m c with
  | error e => simp
  | ok step =>
    cases step with
    | close =>
      simp only [Except.ok.injEq, Prod.mk.injEq, true_and, reduceCtorEq, false_and, exists_false, or_false]
      exact and_congr eq_comm eq_comm
    | go unit m' =>
      simp only [map_ok_iff, Prod.mk.injEq, Prod.exists, Except.ok.injEq, reduceCtorEq, false_and, false_or,
        StringStep.go.injEq]
      constructor
      · rintro ⟨s', r', hrest, hs, rfl⟩
        exact ⟨unit, m', s', ⟨rfl, rfl⟩, hrest, hs.symm⟩
      · rintro ⟨_, _, s', ⟨rfl, rfl⟩, hrest, hs⟩
        exact ⟨s', r, hrest, hs.symm, rfl⟩

/-- The scanner of a string looks at nothing behind the closing quote. -/
theorem stringBody_append {b : List Char} {s : List ℕ} (m : StringMode) (h : stringBody m b = .ok (s, []))
    (r : List Char) : stringBody m (b ++ r) = .ok (s, r) := by
  induction b generalizing m s with
  | nil => cases h
  | cons c b ih =>
    rw [List.cons_append, stringBody_cons_iff]
    rcases stringBody_cons_iff.mp h with ⟨hstep, hs, rfl⟩ | ⟨unit, m', s', hstep, hrest, hs⟩
    · exact Or.inl ⟨hstep, hs, rfl⟩
    · exact Or.inr ⟨unit, m', s', hstep, ih m' hrest, hs⟩

/-- A scanned string is a part of the text. -/
theorem stringBody_split {cs r : List Char} {s : List ℕ} (m : StringMode) (h : stringBody m cs = .ok (s, r)) :
    ∃ b, cs = b ++ r ∧ stringBody m b = .ok (s, []) := by
  induction cs generalizing m s with
  | nil => cases h
  | cons c cs ih =>
    rcases stringBody_cons_iff.mp h with ⟨hstep, hs, rfl⟩ | ⟨unit, m', s', hstep, hrest, hs⟩
    · exact ⟨[c], rfl, stringBody_cons_iff.mpr (Or.inl ⟨hstep, hs, rfl⟩)⟩
    · obtain ⟨b, rfl, hb⟩ := ih m' hrest
      exact ⟨c :: b, rfl, stringBody_cons_iff.mpr (Or.inr ⟨unit, m', s', hstep, hb, hs⟩)⟩

theorem string_append {b : List Char} {s : CodeString} (h : string b = .ok (s, [])) (r : List Char) :
    string (b ++ r) = .ok (s, r) := by
  unfold string at h ⊢
  obtain ⟨⟨ns, r'⟩, hbody, heq⟩ := map_ok_iff.mp h
  obtain ⟨rfl, rfl⟩ := Prod.mk.inj heq
  rw [stringBody_append .plain hbody]
  rfl

theorem string_split {cs r : List Char} {s : CodeString} (h : string cs = .ok (s, r)) :
    ∃ b, cs = b ++ r ∧ string b = .ok (s, []) := by
  unfold string at h
  obtain ⟨⟨ns, r'⟩, hbody, heq⟩ := map_ok_iff.mp h
  obtain ⟨rfl, rfl⟩ := Prod.mk.inj heq
  obtain ⟨b, rfl, hb⟩ := stringBody_split .plain hbody
  refine ⟨b, rfl, ?_⟩
  unfold string
  rw [hb]
  rfl

/-! ## Literals -/

open PyFloat (Digits)

/-- What follows a number does not go on with it. -/
def Ends (r : List Char) : Prop := ∀ c ∈ r.head?, ¬ IsDigit c ∧ c ≠ '.' ∧ c ≠ 'e' ∧ c ≠ 'E'

theorem ends_nil : Ends [] := fun _ h => by cases h

theorem takeWhile_digits_append {ds x : List Char} (hds : Digits ds) (hx : ∀ c ∈ x.head?, ¬ IsDigit c) :
    (ds ++ x).takeWhile (fun d => IsDigit d) = ds ∧ (ds ++ x).dropWhile (fun d => IsDigit d) = x := by
  have hall : ∀ c ∈ ds, (fun d => decide (IsDigit d)) c = true := fun c hc => decide_eq_true (hds c hc)
  rw [List.takeWhile_append_of_pos hall, List.dropWhile_append_of_pos hall]
  cases x with
  | nil => simp
  | cons c x =>
    have hc : ¬ IsDigit c := hx c rfl
    simp [hc]

theorem digits_takeWhile (cs : List Char) : Digits (cs.takeWhile fun d => IsDigit d) := by
  intro d hd
  simpa using List.mem_takeWhile_imp hd

/-- The digits before the point, whatever follows them. -/
theorem wholePart_cut {cs w r : List Char} (h : wholePart cs = some (w, r)) :
    cs = w ++ r ∧ Digits w ∧ (∃ d ds, w = d :: ds) ∧
      ∀ x, (∀ c ∈ x.head?, ¬ IsDigit c) → wholePart (w ++ x) = some (w, x) := by
  cases cs with
  | nil => cases h
  | cons c cs =>
    rw [wholePart] at h
    split_ifs at h with hzero hdigit
    · obtain ⟨rfl, rfl⟩ := Prod.mk.inj (Option.some.inj h)
      refine ⟨rfl, fun d hd => ?_, ⟨c, [], rfl⟩, fun x hx => ?_⟩
      · rw [List.mem_singleton.mp hd, hzero]
        decide
      · rw [List.singleton_append, wholePart, if_pos hzero]
    · obtain ⟨rfl, rfl⟩ := Prod.mk.inj (Option.some.inj h)
      have hdigits := digits_takeWhile (c :: cs)
      have hcons : (c :: cs).takeWhile (fun d => IsDigit d) = c :: cs.takeWhile fun d => IsDigit d :=
        List.takeWhile_cons_of_pos (by simpa using hdigit)
      refine ⟨List.takeWhile_append_dropWhile.symm, hdigits, ⟨c, _, hcons⟩, fun x hx => ?_⟩
      obtain ⟨htake, hdrop⟩ := takeWhile_digits_append hdigits hx
      rw [hcons, List.cons_append] at htake hdrop ⊢
      rw [wholePart, if_neg hzero, if_pos hdigit, htake, hdrop]

/-- A character of a number. -/
def IsNumberChar (c : Char) : Prop := IsDigit c ∨ c = '.' ∨ c = 'e' ∨ c = 'E' ∨ c = '+' ∨ c = '-'

instance (c : Char) : Decidable (IsNumberChar c) := by unfold IsNumberChar; infer_instance

theorem fractionPart_cut {cs ds r : List Char} (h : fractionPart cs = (ds, r)) :
    ∃ c, cs = c ++ r ∧ (c = [] ∨ c.head? = some '.') ∧ (∀ a ∈ c, IsNumberChar a) ∧
      ∀ x, (∀ a ∈ x.head?, ¬ IsDigit a ∧ a ≠ '.') → fractionPart (c ++ x) = (ds, x) := by
  have hnone : ∀ x : List Char, (∀ a ∈ x.head?, ¬ IsDigit a ∧ a ≠ '.') → fractionPart x = ([], x) := by
    intro x hx
    cases x with
    | nil => rfl
    | cons a x => exact if_neg fun hdot => (hx a rfl).2 hdot.1
  cases cs with
  | nil =>
    obtain ⟨rfl, rfl⟩ := Prod.mk.inj h
    exact ⟨[], rfl, Or.inl rfl, fun a ha => absurd ha List.not_mem_nil, hnone⟩
  | cons c cs =>
    simp only [fractionPart] at h
    split_ifs at h with hdot
    · obtain ⟨rfl, hne⟩ := hdot
      obtain ⟨rfl, rfl⟩ := Prod.mk.inj h
      have hdigits := digits_takeWhile cs
      refine ⟨'.' :: cs.takeWhile fun d => IsDigit d, ?_, Or.inr rfl, fun a ha => ?_, fun x hx => ?_⟩
      · rw [List.cons_append, List.takeWhile_append_dropWhile]
      · rcases List.mem_cons.mp ha with rfl | ha
        · exact Or.inr (Or.inl rfl)
        · exact Or.inl (hdigits a ha)
      · obtain ⟨htake, hdrop⟩ := takeWhile_digits_append hdigits fun a ha => (hx a ha).1
        rw [List.cons_append]
        simp only [fractionPart]
        rw [htake, hdrop, if_pos ⟨trivial, hne⟩]
    · obtain ⟨rfl, rfl⟩ := Prod.mk.inj h
      exact ⟨[], rfl, Or.inl rfl, fun a ha => absurd ha List.not_mem_nil, hnone⟩

/-- A sign, or none before a digit. -/
theorem exponentSign_cut (cs : List Char) : ∃ s, exponentSign cs = (s, (exponentSign cs).2) ∧
    cs = s ++ (exponentSign cs).2 ∧ (∀ a ∈ s, IsNumberChar a) ∧
      ∀ d ds, IsDigit d → exponentSign (s ++ d :: ds) = (s, d :: ds) := by
  have hdigit : ∀ d ds, IsDigit d → exponentSign (d :: ds) = ([], d :: ds) := by
    intro d ds hd
    refine if_neg ?_
    rintro (rfl | rfl) <;> exact absurd hd (by decide)
  cases cs with
  | nil => exact ⟨[], rfl, rfl, fun a ha => absurd ha List.not_mem_nil, hdigit⟩
  | cons c cs =>
    by_cases hsign : c = '+' ∨ c = '-'
    · have heq : exponentSign (c :: cs) = ([c], cs) := if_pos hsign
      rw [heq]
      refine ⟨[c], rfl, rfl, fun a ha => ?_, fun d ds _ => if_pos hsign⟩
      rw [List.mem_singleton.mp ha]
      rcases hsign with rfl | rfl
      · decide
      · decide
    · have heq : exponentSign (c :: cs) = ([], c :: cs) := if_neg hsign
      rw [heq]
      exact ⟨[], rfl, rfl, fun a ha => absurd ha List.not_mem_nil, hdigit⟩

theorem exponentPart_cut {cs r : List Char} {e : Option (List Char)} (h : exponentPart cs = (e, r)) :
    ∃ c, cs = c ++ r ∧ (c = [] ∨ c.head? = some 'e' ∨ c.head? = some 'E') ∧ (∀ a ∈ c, IsNumberChar a) ∧
      ∀ x, Ends x → exponentPart (c ++ x) = (e, x) := by
  have hnone : ∀ x : List Char, Ends x → exponentPart x = (none, x) := by
    intro x hx
    cases x with
    | nil => rfl
    | cons a x =>
      obtain ⟨-, -, he, hE⟩ := hx a rfl
      exact if_neg fun hexp => hexp.1.elim he hE
  cases cs with
  | nil =>
    obtain ⟨rfl, rfl⟩ := Prod.mk.inj h
    exact ⟨[], rfl, Or.inl rfl, fun a ha => absurd ha List.not_mem_nil, hnone⟩
  | cons c cs =>
    obtain ⟨s, hsigned, hsplit, hschars, hagain⟩ := exponentSign_cut cs
    simp only [exponentPart] at h
    split_ifs at h with hexp
    · obtain ⟨he, hne⟩ := hexp
      obtain ⟨rfl, rfl⟩ := Prod.mk.inj h
      rw [hsigned]
      dsimp only
      have hdigits := digits_takeWhile (exponentSign cs).2
      obtain ⟨d, ds, hcons⟩ := List.exists_cons_of_ne_nil hne
      refine ⟨c :: (s ++ (exponentSign cs).2.takeWhile fun d => IsDigit d), ?_, ?_, fun a ha => ?_, fun x hx => ?_⟩
      · rw [List.cons_append, List.append_assoc, List.takeWhile_append_dropWhile, ← hsplit]
      · rcases he with rfl | rfl
        · exact Or.inr (Or.inl rfl)
        · exact Or.inr (Or.inr rfl)
      · rcases List.mem_cons.mp ha with rfl | ha
        · rcases he with rfl | rfl
          · decide
          · decide
        · rcases List.mem_append.mp ha with ha | ha
          · exact hschars a ha
          · exact Or.inl (hdigits a ha)
      · obtain ⟨htake, hdrop⟩ := takeWhile_digits_append hdigits fun a ha => (hx a ha).1
        rw [hcons] at htake hdrop hdigits ⊢
        have hsign := hagain d (ds ++ x) (hdigits d List.mem_cons_self)
        rw [List.cons_append, List.append_assoc, List.cons_append]
        simp only [exponentPart, hsign]
        rw [List.cons_append] at htake hdrop
        rw [htake, hdrop, if_pos ⟨he, List.cons_ne_nil d ds⟩]
    · obtain ⟨rfl, rfl⟩ := Prod.mk.inj h
      exact ⟨[], rfl, Or.inl rfl, fun a ha => absurd ha List.not_mem_nil, hnone⟩

/-- How a number starts. -/
def NumberStart (c : List Char) : Prop :=
  (∃ d ds, c = d :: ds ∧ IsDigit d) ∨ ∃ d ds, c = '-' :: d :: ds ∧ IsDigit d

theorem Ends.of_empty_or {c x : List Char} (hc : c = [] ∨ c.head? = some 'e' ∨ c.head? = some 'E')
    (hx : Ends x) : ∀ a ∈ (c ++ x).head?, ¬ IsDigit a ∧ a ≠ '.' := by
  intro a ha
  cases c with
  | nil => exact ⟨(hx a ha).1, (hx a ha).2.1⟩
  | cons b c =>
    obtain rfl : b = a := Option.some.inj ha
    rcases hc with hc | hc | hc
    · cases hc
    · rw [Option.some.inj hc]
      decide
    · rw [Option.some.inj hc]
      decide

/-- A number, whatever follows it. -/
theorem number_cut {cs r : List Char} {v : JsonValue} (h : number cs = .ok (v, r)) :
    ∃ c, cs = c ++ r ∧ NumberStart c ∧ (∀ a ∈ c, IsNumberChar a) ∧ ∀ x, Ends x → number (c ++ x) = .ok (v, x) := by
  unfold number at h
  dsimp only at h
  cases hwhole : wholePart (if decide (cs.head? = some '-') = true then cs.tail else cs) with
  | none =>
    rw [hwhole] at h
    cases h
  | some p =>
    obtain ⟨w, r₁⟩ := p
    rcases hfrac : fractionPart r₁ with ⟨fs, r₂⟩
    rcases hexp : exponentPart r₂ with ⟨es, r₃⟩
    rw [hwhole] at h
    simp only [hfrac, hexp] at h
    obtain ⟨v', hvalue, heq⟩ := map_ok_iff.mp h
    obtain ⟨rfl, rfl⟩ := Prod.mk.inj heq
    obtain ⟨hw, hwdigits, ⟨d, ds, hcons⟩, hwhole'⟩ := wholePart_cut hwhole
    obtain ⟨f, rfl, hfhead, hfchars, hfraction⟩ := fractionPart_cut hfrac
    obtain ⟨e, rfl, hehead, hechars, hexponent⟩ := exponentPart_cut hexp
    have hd : IsDigit d := hwdigits d (by rw [hcons]; exact List.mem_cons_self)
    have hbody : ∀ x, Ends x → wholePart (w ++ (f ++ (e ++ x))) = some (w, f ++ (e ++ x)) := by
      intro x hx
      refine hwhole' _ fun a ha => ?_
      cases f with
      | nil => exact (hx.of_empty_or hehead a ha).1
      | cons b f =>
        obtain rfl : b = a := Option.some.inj ha
        rcases hfhead with hfhead | hfhead
        · cases hfhead
        · rw [Option.some.inj hfhead]
          decide
    have hchars : ∀ a ∈ w ++ (f ++ e), IsNumberChar a := by
      simp only [List.forall_mem_append]
      exact ⟨fun a ha => Or.inl (hwdigits a ha), hfchars, hechars⟩
    by_cases hneg : cs.head? = some '-'
    · obtain ⟨t, rfl⟩ : ∃ t, cs = '-' :: t := by
        cases cs with
        | nil => cases hneg
        | cons a t => exact ⟨t, by rw [Option.some.inj hneg]⟩
      rw [if_pos (decide_eq_true hneg), List.tail_cons] at hw
      refine ⟨'-' :: (w ++ (f ++ e)), ?_, Or.inr ⟨d, ds ++ (f ++ e), ?_, hd⟩, ?_, fun x hx => ?_⟩
      · rw [hw, List.cons_append, List.append_assoc, List.append_assoc]
      · rw [hcons]
        rfl
      · exact List.forall_mem_cons.mpr ⟨by decide, hchars⟩
      · unfold number
        simp only [List.cons_append, List.append_assoc, List.head?_cons, decide_true, if_true, List.tail_cons,
          hbody x hx, hfraction (e ++ x) (hx.of_empty_or hehead), hexponent x hx]
        rw [decide_eq_true hneg] at hvalue
        rw [hvalue]
        rfl
    · rw [if_neg (by simpa using hneg)] at hw
      have hhead : ∀ x, ¬ (w ++ (f ++ (e ++ x))).head? = some '-' := by
        intro x hx
        rw [hcons] at hx
        rw [Option.some.inj hx] at hd
        exact absurd hd (by decide)
      refine ⟨w ++ (f ++ e), ?_, Or.inl ⟨d, ds ++ (f ++ e), ?_, hd⟩, hchars, fun x hx => ?_⟩
      · rw [hw, List.append_assoc, List.append_assoc]
      · rw [hcons]
        rfl
      · unfold number
        simp only [List.append_assoc, hhead x, decide_false, if_false, Bool.false_eq_true,
          hbody x hx, hfraction (e ++ x) (hx.of_empty_or hehead), hexponent x hx]
        rw [decide_eq_false hneg] at hvalue
        rw [hvalue]
        rfl

/-- A character of a word or of a number. -/
def IsLiteralChar (c : Char) : Prop := 32 < c.toNat ∧ c.toNat < 127 ∧ c ∉ ['"', '\\', '[', ']', '{', '}', ',', ':']

instance (c : Char) : Decidable (IsLiteralChar c) := by unfold IsLiteralChar; infer_instance

theorem isLiteralChar_of_number {c : Char} (h : IsNumberChar c) : IsLiteralChar c := by
  rcases h with h | rfl | rfl | rfl | rfl | rfl
  · have hall : ∀ n < 58, 48 ≤ n → IsLiteralChar (Char.ofNat n) := by decide
    have hc := hall c.toNat (by unfold IsDigit at h; omega) h.1
    rwa [Char.ofNat_toNat] at hc
  all_goals decide

theorem words_spec : ∀ w ∈ words, (∀ a ∈ w.1, IsLiteralChar a) ∧ w.1 ≠ [] ∧
    ∀ c : List Char, NumberStart c → w.1.isPrefixOf c = false := by
  have hdigit : ∀ {d : Char} {w : List Char} {ds : List Char}, IsDigit d → (∀ a ∈ w.head?, ¬ IsDigit a) → w ≠ [] →
      w.isPrefixOf (d :: ds) = false := by
    intro d w ds hd hw hne
    obtain ⟨a, w, rfl⟩ := List.exists_cons_of_ne_nil hne
    have ha : (a == d) = false := beq_eq_false_iff_ne.mpr fun h => hw a rfl (h ▸ hd)
    rw [List.isPrefixOf, ha]
    rfl
  intro w hw
  have hchars : ∀ w ∈ words, w.1.all (fun a => IsLiteralChar a) ∧ w.1 ≠ [] ∧ w.1.head?.all (fun a => ¬ IsDigit a) ∧
      w.1.tail.head?.all (fun a => ¬ IsDigit a) ∧ w.1.tail ≠ [] := by decide +kernel
  have hoption : ∀ x : Option Char, x.all (fun a => ¬ IsDigit a) = true → ∀ a ∈ x, ¬ IsDigit a := by
    intro x hx a ha
    rw [Option.mem_def.mp ha] at hx
    exact of_decide_eq_true hx
  obtain ⟨hall, hne, hfirst, hsecond, htail⟩ := hchars w hw
  replace hfirst := hoption _ hfirst
  replace hsecond := hoption _ hsecond
  refine ⟨List.all_iff_forall_prop.mp hall, hne, ?_⟩
  rintro c (⟨d, ds, rfl, hd⟩ | ⟨d, ds, rfl, hd⟩)
  · exact hdigit hd hfirst hne
  · obtain ⟨a, u, hcons⟩ := List.exists_cons_of_ne_nil hne
    rw [hcons] at hsecond htail ⊢
    rw [List.tail_cons] at hsecond htail
    rw [List.isPrefixOf, hdigit hd hsecond htail, Bool.and_false]

/-- A word is found whatever follows it. -/
theorem find?_words_append : ∀ w ∈ words, ∀ x, words.find? (fun u => u.1.isPrefixOf (w.1 ++ x)) = some w := by
  intro w hw x
  unfold words at hw ⊢
  simp only [List.mem_cons, List.not_mem_nil, or_false] at hw
  rcases hw with rfl | rfl | rfl | rfl | rfl | rfl <;> rfl

/-- A literal, whatever follows it. -/
theorem literal_cut {cs r : List Char} {v : JsonValue} (h : literal cs = .ok (v, r)) :
    ∃ c, cs = c ++ r ∧ c ≠ [] ∧ (∀ a ∈ c, IsLiteralChar a) ∧ ∀ x, Ends x → literal (c ++ x) = .ok (v, x) := by
  unfold literal at h
  cases hfind : words.find? fun w => w.1.isPrefixOf cs with
  | some w =>
    rw [hfind] at h
    obtain ⟨rfl, rfl⟩ := Prod.mk.inj (Except.ok.inj h)
    have hmem := List.mem_of_find?_eq_some hfind
    obtain ⟨hchars, hne, -⟩ := words_spec w hmem
    have hstarts := List.find?_some (p := fun w : List Char × JsonValue => w.1.isPrefixOf cs) hfind
    obtain ⟨t, rfl⟩ := List.isPrefixOf_iff_prefix.mp hstarts
    refine ⟨w.1, by rw [List.drop_left], hne, hchars, fun x _ => ?_⟩
    unfold literal
    rw [find?_words_append w hmem x]
    dsimp only
    rw [List.drop_left]
  | none =>
    rw [hfind] at h
    obtain ⟨c, rfl, hstart, hchars, hagain⟩ := number_cut h
    have hne : c ≠ [] := by rcases hstart with ⟨d, ds, rfl, -⟩ | ⟨d, ds, rfl, -⟩ <;> simp
    refine ⟨c, rfl, hne, fun a ha => isLiteralChar_of_number (hchars a ha), fun x hx => ?_⟩
    have hstart' : NumberStart (c ++ x) := by
      rcases hstart with ⟨d, ds, rfl, hd⟩ | ⟨d, ds, rfl, hd⟩
      · exact Or.inl ⟨d, ds ++ x, rfl, hd⟩
      · exact Or.inr ⟨d, ds ++ x, rfl, hd⟩
    have hnone : words.find? (fun w => w.1.isPrefixOf (c ++ x)) = none := by
      rw [List.find?_eq_none]
      intro w hw
      rw [(words_spec w hw).2.2 _ hstart']
      decide
    unfold literal
    rw [hnone]
    exact hagain x hx

/-! ## The scanner accepts texts of the grammar only -/

/-- What each part of the scanner reads is a text of the grammar. -/
structure Sound (n : ℕ) : Prop where
  value : ∀ {cs v r}, value n cs = .ok (v, r) → ∃ c, cs = c ++ r ∧ Writes (.value v) c
  elements : ∀ {cs vs r}, elements n cs = .ok (vs, r) → ∃ b, cs = b ++ r ∧ Writes (.elements vs) b
  members : ∀ {cs ps r}, members n cs = .ok (ps, r) → ∃ b, cs = b ++ r ∧ Writes (.members ps) b

theorem Sound.succ_value {n : ℕ} (ih : Sound n) {cs r : List Char} {v : JsonValue}
    (h : JsonReader.value (n + 1) cs = .ok (v, r)) : ∃ c, cs = c ++ r ∧ Writes (.value v) c := by
  unfold JsonReader.value at h
  split at h
  · obtain ⟨⟨s, r'⟩, hstring, heq⟩ := map_ok_iff.mp h
    obtain ⟨rfl, rfl⟩ := Prod.mk.inj heq
    obtain ⟨b, rfl, hb⟩ := string_split hstring
    exact ⟨'"' :: b, rfl, .string hb⟩
  · next cs =>
    obtain ⟨w, hw, hsplit⟩ := skipWs_split cs
    split at h
    · next r' heq =>
      obtain ⟨rfl, rfl⟩ := Prod.mk.inj (Except.ok.inj h)
      rw [heq] at hsplit
      exact ⟨'[' :: (w ++ [']']), by rw [hsplit]; simp, .emptyArray hw⟩
    · obtain ⟨⟨vs, r'⟩, helements, heq⟩ := map_ok_iff.mp h
      obtain ⟨rfl, rfl⟩ := Prod.mk.inj heq
      obtain ⟨b, hb, hwrites⟩ := ih.elements helements
      exact ⟨'[' :: (w ++ b), by rw [hsplit, hb]; simp, .array hw hwrites⟩
  · next cs =>
    obtain ⟨w, hw, hsplit⟩ := skipWs_split cs
    split at h
    · next r' heq =>
      obtain ⟨rfl, rfl⟩ := Prod.mk.inj (Except.ok.inj h)
      rw [heq] at hsplit
      exact ⟨'{' :: (w ++ ['}']), by rw [hsplit]; simp, .emptyObject hw⟩
    · obtain ⟨⟨ps, r'⟩, hmembers, heq⟩ := map_ok_iff.mp h
      obtain ⟨rfl, rfl⟩ := Prod.mk.inj heq
      obtain ⟨b, hb, hwrites⟩ := ih.members hmembers
      exact ⟨'{' :: (w ++ b), by rw [hsplit, hb]; simp, .object hw hwrites⟩
  · obtain ⟨c, rfl, -, -, hagain⟩ := literal_cut h
    refine ⟨c, rfl, .literal ?_⟩
    have hc := hagain [] ends_nil
    rwa [List.append_nil] at hc

theorem Sound.succ_elements {n : ℕ} (ih : Sound n) {cs r : List Char} {vs : List JsonValue}
    (h : JsonReader.elements (n + 1) cs = .ok (vs, r)) : ∃ b, cs = b ++ r ∧ Writes (.elements vs) b := by
  unfold JsonReader.elements at h
  obtain ⟨⟨v, r₁⟩, hvalue, hnext⟩ := except_bind_eq_ok_iff.mp h
  obtain ⟨c, rfl, hc⟩ := ih.value hvalue
  obtain ⟨w, hw, hsplit⟩ := skipWs_split r₁
  dsimp only at hnext
  split at hnext
  · next r' heq =>
    obtain ⟨rfl, rfl⟩ := Prod.mk.inj (Except.ok.inj hnext)
    rw [heq] at hsplit
    exact ⟨c ++ (w ++ [']']), by rw [hsplit]; simp, .lastElement hc hw⟩
  · next r' heq =>
    obtain ⟨⟨vs', r''⟩, helements, hpair⟩ := map_ok_iff.mp hnext
    obtain ⟨rfl, rfl⟩ := Prod.mk.inj hpair
    obtain ⟨w', hw', hsplit'⟩ := skipWs_split r'
    obtain ⟨b, hb, hwrites⟩ := ih.elements helements
    rw [heq, hsplit', hb] at hsplit
    exact ⟨c ++ (w ++ ',' :: (w' ++ b)), by rw [hsplit]; simp, .element hc hw hw' hwrites⟩
  · cases hnext

theorem Sound.succ_members {n : ℕ} (ih : Sound n) {cs r : List Char} {ps : List (CodeString × JsonValue)}
    (h : JsonReader.members (n + 1) cs = .ok (ps, r)) : ∃ b, cs = b ++ r ∧ Writes (.members ps) b := by
  unfold JsonReader.members at h
  split at h
  · next cs =>
    obtain ⟨⟨k, r₁⟩, hstring, hcolon⟩ := except_bind_eq_ok_iff.mp h
    obtain ⟨b, rfl, hb⟩ := string_split hstring
    obtain ⟨u, hu, hsplit⟩ := skipWs_split r₁
    dsimp only at hcolon
    split at hcolon
    · next r₂ hat =>
      obtain ⟨⟨v, r₃⟩, hvalue, hnext⟩ := except_bind_eq_ok_iff.mp hcolon
      obtain ⟨w, hw, hsplit₂⟩ := skipWs_split r₂
      obtain ⟨c, hcut, hc⟩ := ih.value hvalue
      obtain ⟨w', hw', hsplit₃⟩ := skipWs_split r₃
      dsimp only at hnext
      split at hnext
      · next r₄ hbrace =>
        obtain ⟨rfl, rfl⟩ := Prod.mk.inj (Except.ok.inj hnext)
        rw [hbrace] at hsplit₃
        rw [hat, hsplit₂, hcut, hsplit₃] at hsplit
        exact ⟨'"' :: (b ++ (u ++ ':' :: (w ++ (c ++ (w' ++ ['}']))))), by rw [hsplit]; simp,
          .lastMember hb hu hw hc hw'⟩
      · next r₄ hcomma =>
        obtain ⟨⟨ps', r₅⟩, hmembers, hpair⟩ := map_ok_iff.mp hnext
        obtain ⟨rfl, rfl⟩ := Prod.mk.inj hpair
        obtain ⟨x, hx, hsplit₄⟩ := skipWs_split r₄
        obtain ⟨d, hd, hwrites⟩ := ih.members hmembers
        rw [hcomma, hsplit₄, hd] at hsplit₃
        rw [hat, hsplit₂, hcut, hsplit₃] at hsplit
        exact ⟨'"' :: (b ++ (u ++ ':' :: (w ++ (c ++ (w' ++ ',' :: (x ++ d)))))), by rw [hsplit]; simp,
          .member hb hu hw hc hw' hx hwrites⟩
      · cases hnext
    · cases hcolon
  · cases h

theorem sound (n : ℕ) : Sound n := by
  induction n with
  | zero => exact ⟨nofun, nofun, nofun⟩
  | succ n ih => exact ⟨ih.succ_value, ih.succ_elements, ih.succ_members⟩

/-! ## Every text of the grammar is read -/

theorem Ends.of_char {a : Char} (ha : ¬ IsDigit a ∧ a ≠ '.' ∧ a ≠ 'e' ∧ a ≠ 'E') (t : List Char) : Ends (a :: t) := by
  intro c hc
  rwa [← Option.some.inj hc]

/-- White space, or what follows it, ends a number. -/
theorem Ends.of_blank {w x : List Char} (hw : Blank w) (hx : Ends x) : Ends (w ++ x) := by
  cases w with
  | nil => exact hx
  | cons a w =>
    have ha := hw a List.mem_cons_self
    unfold isWs at ha
    simp only [Bool.or_eq_true, decide_eq_true_eq] at ha
    refine Ends.of_char ?_ (w ++ x)
    rcases ha with ((rfl | rfl) | rfl) | rfl <;> decide

theorem IsLiteralChar.not_ws {c : Char} (h : IsLiteralChar c) : isWs c = false := by
  rw [← Bool.not_eq_true]
  intro hws
  unfold isWs at hws
  simp only [Bool.or_eq_true, decide_eq_true_eq] at hws
  rcases hws with ((rfl | rfl) | rfl) | rfl <;> exact absurd h (by decide)

/-- What a value, an element or a member starts with. -/
def Starts (c : List Char) : Prop := ∃ a t, c = a :: t ∧ isWs a = false ∧ a ≠ ']' ∧ a ≠ '}'

theorem literal_chars {c : List Char} {v : JsonValue} (h : literal c = .ok (v, [])) :
    c ≠ [] ∧ (∀ a ∈ c, IsLiteralChar a) ∧ ∀ x, Ends x → literal (c ++ x) = .ok (v, x) := by
  obtain ⟨d, hd, hne, hchars, hagain⟩ := literal_cut h
  rw [List.append_nil] at hd
  rw [hd]
  exact ⟨hne, hchars, hagain⟩

end JsonReader

theorem Writes.starts {p : JsonPart} {c : List Char} (h : Writes p c) : Starts c := by
  have hcut : ∀ {c x : List Char}, Starts c → Starts (c ++ x) := by
    rintro _ x ⟨a, t, rfl, ha⟩
    exact ⟨a, t ++ x, rfl, ha⟩
  induction h with
  | @literal c v h =>
    obtain ⟨hne, hchars, -⟩ := literal_chars h
    obtain ⟨a, t, rfl⟩ := List.exists_cons_of_ne_nil hne
    have ha := hchars a List.mem_cons_self
    refine ⟨a, t, rfl, ha.not_ws, ?_, ?_⟩
    · rintro rfl
      exact absurd ha (by decide)
    · rintro rfl
      exact absurd ha (by decide)
  | string | emptyArray | array | emptyObject | object | lastMember | member =>
    exact ⟨_, _, rfl, by decide, by decide, by decide⟩
  | lastElement _ _ ih => exact hcut ih
  | element _ _ _ _ ih => exact hcut ih

namespace JsonReader

theorem skipWs_starts {w c : List Char} (hw : Blank w) (hc : Starts c) (r : List Char) :
    skipWs (w ++ (c ++ r)) = c ++ r := by
  obtain ⟨a, t, rfl, ha, -⟩ := hc
  rw [skipWs_append hw, List.cons_append, skipWs_cons ha]

theorem skipWs_mark {w : List Char} {a : Char} (hw : Blank w) (ha : isWs a = false) (r : List Char) :
    skipWs (w ++ a :: r) = a :: r := by
  rw [skipWs_append hw, skipWs_cons ha]

theorem value_literal {c : List Char} {v : JsonValue} (h : literal c = .ok (v, [])) (n : ℕ) {r : List Char}
    (hr : Ends r) : value (n + 1) (c ++ r) = .ok (v, r) := by
  obtain ⟨hne, hchars, hagain⟩ := literal_chars h
  obtain ⟨a, t, rfl⟩ := List.exists_cons_of_ne_nil hne
  have ha := hchars a List.mem_cons_self
  have hread := hagain r hr
  rw [List.cons_append] at hread ⊢
  unfold value
  split
  · next heq =>
    rw [(List.cons.inj heq).1] at ha
    exact absurd ha (by decide)
  · next heq =>
    rw [(List.cons.inj heq).1] at ha
    exact absurd ha (by decide)
  · next heq =>
    rw [(List.cons.inj heq).1] at ha
    exact absurd ha (by decide)
  · exact hread

theorem value_array (n : ℕ) {w b : List Char} (hw : Blank w) (hb : Starts b) (r : List Char) :
    value (n + 1) ('[' :: (w ++ (b ++ r))) = (elements n (b ++ r)).map fun p => (.arr p.1, p.2) := by
  rw [value]
  rw [skipWs_starts hw hb]
  obtain ⟨a, t, rfl, -, ha, -⟩ := hb
  rw [List.cons_append]
  split
  · next heq => exact absurd (List.cons.inj heq).1 ha
  · rfl

theorem value_object (n : ℕ) {w b : List Char} (hw : Blank w) (hb : Starts b) (r : List Char) :
    value (n + 1) ('{' :: (w ++ (b ++ r))) = (members n (b ++ r)).map fun p => (.ofPairs p.1, p.2) := by
  rw [value]
  rw [skipWs_starts hw hb]
  obtain ⟨a, t, rfl, -, -, ha⟩ := hb
  rw [List.cons_append]
  split
  · next heq => exact absurd (List.cons.inj heq).1 ha
  · rfl

/-- With fuel for its length, the scanner reads the text and stops behind it. -/
def Reads : JsonPart → List Char → Prop
  | .value v, c => ∀ n, 2 * c.length ≤ n → ∀ r, Ends r → value n (c ++ r) = .ok (v, r)
  | .elements vs, c => ∀ n, 2 * c.length + 1 ≤ n → ∀ r, elements n (c ++ r) = .ok (vs, r)
  | .members ps, c => ∀ n, 2 * c.length + 1 ≤ n → ∀ r, members n (c ++ r) = .ok (ps, r)

end JsonReader

theorem Writes.reads {p : JsonPart} {c : List Char} (h : Writes p c) : Reads p c := by
  induction h with
  | @literal c v h =>
    intro n hn r hr
    have hpos := List.length_pos_of_ne_nil (literal_chars h).1
    obtain ⟨m, rfl⟩ : ∃ m, n = m + 1 := ⟨n - 1, by omega⟩
    exact value_literal h m hr
  | @string b s h =>
    intro n hn r hr
    rw [List.length_cons] at hn
    obtain ⟨m, rfl⟩ : ∃ m, n = m + 1 := ⟨n - 1, by omega⟩
    rw [List.cons_append, value, string_append h]
    rfl
  | @emptyArray w hw =>
    intro n hn r hr
    rw [List.length_cons] at hn
    obtain ⟨m, rfl⟩ : ∃ m, n = m + 1 := ⟨n - 1, by omega⟩
    rw [List.cons_append, List.append_assoc, List.singleton_append, value, skipWs_mark hw (by decide)]
    rfl
  | @array w b vs hw h ih =>
    intro n hn r hr
    rw [List.length_cons, List.length_append] at hn
    obtain ⟨m, rfl⟩ : ∃ m, n = m + 1 := ⟨n - 1, by omega⟩
    rw [List.cons_append, List.append_assoc, value_array m hw h.starts, ih m (by omega)]
    rfl
  | @emptyObject w hw =>
    intro n hn r hr
    rw [List.length_cons] at hn
    obtain ⟨m, rfl⟩ : ∃ m, n = m + 1 := ⟨n - 1, by omega⟩
    rw [List.cons_append, List.append_assoc, List.singleton_append, value, skipWs_mark hw (by decide)]
    rfl
  | @object w b ps hw h ih =>
    intro n hn r hr
    rw [List.length_cons, List.length_append] at hn
    obtain ⟨m, rfl⟩ : ∃ m, n = m + 1 := ⟨n - 1, by omega⟩
    rw [List.cons_append, List.append_assoc, value_object m hw h.starts, ih m (by omega)]
    rfl
  | @lastElement c w v h hw ih =>
    intro n hn r
    rw [List.length_append] at hn
    obtain ⟨m, rfl⟩ : ∃ m, n = m + 1 := ⟨n - 1, by omega⟩
    have hread := ih m (by omega) (w ++ ']' :: r) (.of_blank hw (.of_char (by decide) r))
    rw [List.append_assoc, List.append_assoc, List.singleton_append, elements, hread]
    simp only [bind, Except.bind, skipWs_mark hw (show isWs ']' = false by decide)]
  | @element c w w' b v vs h hw hw' hrest ih ihrest =>
    intro n hn r
    simp only [List.length_append, List.length_cons] at hn
    obtain ⟨m, rfl⟩ : ∃ m, n = m + 1 := ⟨n - 1, by omega⟩
    have hread := ih m (by omega) (w ++ ',' :: (w' ++ (b ++ r))) (.of_blank hw (.of_char (by decide) _))
    have hmore := ihrest m (by omega) r
    simp only [List.append_assoc, List.cons_append]
    rw [elements, hread]
    simp only [bind, Except.bind, skipWs_mark hw (show isWs ',' = false by decide), skipWs_starts hw' hrest.starts,
      hmore]
    rfl
  | @lastMember b u w c w' k v hk hu hw h hw' ih =>
    intro n hn r
    simp only [List.length_append, List.length_cons] at hn
    obtain ⟨m, rfl⟩ : ∃ m, n = m + 1 := ⟨n - 1, by omega⟩
    have hread := ih m (by omega) (w' ++ '}' :: r) (.of_blank hw' (.of_char (by decide) r))
    simp only [List.append_assoc, List.cons_append, List.nil_append]
    rw [members, string_append hk]
    simp only [bind, Except.bind, skipWs_mark hu (show isWs ':' = false by decide), skipWs_starts hw h.starts, hread,
      skipWs_mark hw' (show isWs '}' = false by decide)]
  | @member b u w c w' x d k v ps hk hu hw h hw' hx hrest ih ihrest =>
    intro n hn r
    simp only [List.length_append, List.length_cons] at hn
    obtain ⟨m, rfl⟩ : ∃ m, n = m + 1 := ⟨n - 1, by omega⟩
    have hread := ih m (by omega) (w' ++ ',' :: (x ++ (d ++ r))) (.of_blank hw' (.of_char (by decide) _))
    have hmore := ihrest m (by omega) r
    simp only [List.append_assoc, List.cons_append]
    rw [members, string_append hk]
    simp only [bind, Except.bind, skipWs_mark hu (show isWs ':' = false by decide), skipWs_starts hw h.starts, hread,
      skipWs_mark hw' (show isWs ',' = false by decide), skipWs_starts hx hrest.starts, hmore]
    rfl

namespace JsonReader

/-- `json.loads` accepts exactly the texts of the grammar, with white space around them. -/
theorem loads_iff {cs : List Char} {v : JsonValue} : loads cs = .ok v ↔
    ∃ w c w', cs = w ++ (c ++ w') ∧ Blank w ∧ Blank w' ∧ Writes (.value v) c := by
  unfold loads
  constructor
  · intro h
    obtain ⟨⟨u, r⟩, hvalue, hrest⟩ := except_bind_eq_ok_iff.mp h
    dsimp only at hrest
    split_ifs at hrest with hblank
    obtain rfl := Except.ok.inj hrest
    obtain ⟨w, hw, hsplit⟩ := skipWs_split cs
    obtain ⟨c, hc, hwrites⟩ := (sound _).value hvalue
    exact ⟨w, c, r, by rw [← hc]; exact hsplit, hw, skipWs_eq_nil_iff.mp hblank, hwrites⟩
  · rintro ⟨w, c, w', rfl, hw, hw', h⟩
    have hfuel : 2 * c.length ≤ 2 * (w ++ (c ++ w')).length + 2 := by
      simp only [List.length_append]
      omega
    have hends : Ends w' := by
      have := Ends.of_blank hw' ends_nil
      rwa [List.append_nil] at this
    rw [skipWs_starts hw h.starts, h.reads _ hfuel w' hends]
    simp only [bind, Except.bind, skipWs_eq_nil_iff.mpr hw', if_true]

end JsonReader

end Galaxz
