import Galaxz.Lib.PyError
import Mathlib.Data.List.DropRight
import Mathlib.Data.List.GetD

/-!
# Base64

`base64.urlsafe_b64encode`, and `base64.urlsafe_b64decode`, which skips what is not in the alphabet and stops at
the padding. What is encoded reads back, also when the padding was cut off and put back by the length.
-/

namespace Galaxz.Base64

/-- The digits, with `-` and `_` as the last two. -/
def alphabet : List Char := "ABCDEFGHIJKLMNOPQRSTUVWXYZabcdefghijklmnopqrstuvwxyz0123456789-_".toList

/-- The digit of a sextet. -/
def digit (n : ℕ) : Char := alphabet.getD n '='

/-- `urlsafe_b64encode(data)`. -/
def encode : List UInt8 → List Char
  | [] => []
  | [a] => [digit (a.toNat / 4), digit (a.toNat % 4 * 16), '=', '=']
  | [a, b] => [digit (a.toNat / 4), digit (a.toNat % 4 * 16 + b.toNat / 16), digit (b.toNat % 16 * 4), '=']
  | a :: b :: c :: data =>
    digit (a.toNat / 4) :: digit (a.toNat % 4 * 16 + b.toNat / 16) :: digit (b.toNat % 16 * 4 + c.toNat / 64) ::
      digit (c.toNat % 64) :: encode data

/-- The sextet of a digit. `-` and `_` are replaced by `+` and `/` first, so all four are digits. -/
def sextet (c : Char) : Option ℕ :=
  let n := c.toNat
  if 65 ≤ n ∧ n ≤ 90 then some (n - 65)
  else if 97 ≤ n ∧ n ≤ 122 then some (n - 71)
  else if 48 ≤ n ∧ n ≤ 57 then some (n + 4)
  else if c = '+' ∨ c = '-' then some 62
  else if c = '/' ∨ c = '_' then some 63
  else none

/-- The loop of `binascii.a2b_base64`: how many digits of the group were read, the bits that are left of the last
one, and how many paddings were seen since. -/
def decodeFrom : ℕ → ℕ → ℕ → List Char → Except PyError (List UInt8)
  | group, _, _, [] => if group = 0 then .ok [] else .error (.valueError "Incorrect padding")
  | group, left, pads, c :: cs =>
    if c = '=' then
      if 2 ≤ group then
        if 4 ≤ group + (pads + 1) then .ok [] else decodeFrom group left (pads + 1) cs
      else decodeFrom group left pads cs
    else match sextet c with
      | none => decodeFrom group left pads cs
      | some v => match group with
        | 0 => decodeFrom 1 v 0 cs
        | 1 => (decodeFrom 2 (v % 16) 0 cs).map (UInt8.ofNat (left * 4 + v / 16) :: ·)
        | 2 => (decodeFrom 3 (v % 4) 0 cs).map (UInt8.ofNat (left * 16 + v / 4) :: ·)
        | _ => (decodeFrom 0 0 0 cs).map (UInt8.ofNat (left * 64 + v) :: ·)

/-- `urlsafe_b64decode(text)`. -/
def decode (cs : List Char) : Except PyError (List UInt8) := decodeFrom 0 0 0 cs

/-- `-n % 4` paddings, for a text of that length. -/
def padding (n : ℕ) : List Char := List.replicate ((-(n : ℤ)) % 4).toNat '='

/-! ## Digits -/

theorem sextet_digit {n : ℕ} (h : n < 64) : sextet (digit n) = some n ∧ digit n ≠ '=' := by
  have hall : ∀ m < 64, sextet (digit m) = some m ∧ digit m ≠ '=' := by decide +kernel
  exact hall n h

section Read

variable {n : ℕ} (h : n < 64) (left pads : ℕ) (cs : List Char)

include h

theorem decodeFrom_first : decodeFrom 0 left pads (digit n :: cs) = decodeFrom 1 n 0 cs := by
  obtain ⟨hsextet, hpad⟩ := sextet_digit h
  rw [decodeFrom, if_neg hpad, hsextet]
  rfl

theorem decodeFrom_second : decodeFrom 1 left pads (digit n :: cs) =
    (decodeFrom 2 (n % 16) 0 cs).map (UInt8.ofNat (left * 4 + n / 16) :: ·) := by
  obtain ⟨hsextet, hpad⟩ := sextet_digit h
  rw [decodeFrom, if_neg hpad, hsextet]
  rfl

theorem decodeFrom_third : decodeFrom 2 left pads (digit n :: cs) =
    (decodeFrom 3 (n % 4) 0 cs).map (UInt8.ofNat (left * 16 + n / 4) :: ·) := by
  obtain ⟨hsextet, hpad⟩ := sextet_digit h
  rw [decodeFrom, if_neg hpad, hsextet]
  rfl

theorem decodeFrom_fourth : decodeFrom 3 left pads (digit n :: cs) =
    (decodeFrom 0 0 0 cs).map (UInt8.ofNat (left * 64 + n) :: ·) := by
  obtain ⟨hsextet, hpad⟩ := sextet_digit h
  rw [decodeFrom, if_neg hpad, hsextet]
  rfl

end Read

theorem ofNat_of_eq {a : UInt8} {n : ℕ} (h : n = a.toNat) : UInt8.ofNat n = a := by
  rw [h, UInt8.ofNat_toNat]

/-! ## What is encoded reads back -/

/-- Four digits are three bytes. -/
theorem decodeFrom_group (a b c : UInt8) (pads : ℕ) (cs : List Char) :
    decodeFrom 0 0 pads (digit (a.toNat / 4) :: digit (a.toNat % 4 * 16 + b.toNat / 16) ::
      digit (b.toNat % 16 * 4 + c.toNat / 64) :: digit (c.toNat % 64) :: cs) =
      (decodeFrom 0 0 0 cs).map fun data => a :: b :: c :: data := by
  have ha := a.toNat_lt
  have hb := b.toNat_lt
  have hc := c.toNat_lt
  rw [decodeFrom_first (by omega), decodeFrom_second (by omega), decodeFrom_third (by omega), decodeFrom_fourth (by omega)]
  have hfirst : UInt8.ofNat (a.toNat / 4 * 4 + (a.toNat % 4 * 16 + b.toNat / 16) / 16) = a := ofNat_of_eq (by omega)
  have hsecond : UInt8.ofNat ((a.toNat % 4 * 16 + b.toNat / 16) % 16 * 16 + (b.toNat % 16 * 4 + c.toNat / 64) / 4) = b :=
    ofNat_of_eq (by omega)
  have hthird : UInt8.ofNat ((b.toNat % 16 * 4 + c.toNat / 64) % 4 * 64 + c.toNat % 64) = c := ofNat_of_eq (by omega)
  rw [hfirst, hsecond, hthird]
  cases decodeFrom 0 0 0 cs with
  | error e => rfl
  | ok data => rfl

theorem decode_encode (data : List UInt8) : decode (encode data) = .ok data := by
  unfold decode
  induction data using encode.induct with
  | case1 => rfl
  | case2 a =>
    have ha := a.toNat_lt
    rw [encode, decodeFrom_first (by omega), decodeFrom_second (by omega)]
    have hbyte : UInt8.ofNat (a.toNat / 4 * 4 + a.toNat % 4 * 16 / 16) = a := ofNat_of_eq (by omega)
    rw [hbyte]
    rfl
  | case3 a b =>
    have ha := a.toNat_lt
    have hb := b.toNat_lt
    rw [encode, decodeFrom_first (by omega), decodeFrom_second (by omega), decodeFrom_third (by omega)]
    have hfirst : UInt8.ofNat (a.toNat / 4 * 4 + (a.toNat % 4 * 16 + b.toNat / 16) / 16) = a := ofNat_of_eq (by omega)
    have hsecond : UInt8.ofNat ((a.toNat % 4 * 16 + b.toNat / 16) % 16 * 16 + b.toNat % 16 * 4 / 4) = b :=
      ofNat_of_eq (by omega)
    rw [hfirst, hsecond]
    rfl
  | case4 a b c data ih =>
    rw [encode, decodeFrom_group, ih]
    rfl

/-- The text is ASCII. -/
theorem ascii_of_mem_encode {data : List UInt8} {c : Char} (h : c ∈ encode data) : c.toNat < 128 := by
  have hdigit : ∀ n, (digit n).toNat < 128 := by
    intro n
    have hall : alphabet.all (fun d => d.toNat < 128) = true := by decide +kernel
    unfold digit
    by_cases hn : n < alphabet.length
    · rw [List.getD_eq_getElem _ _ hn]
      exact of_decide_eq_true (List.all_eq_true.mp hall _ (List.getElem_mem hn))
    · rw [List.getD_eq_default _ _ (by omega)]
      decide
  have hpad : '='.toNat < 128 := by decide
  induction data using encode.induct with
  | case1 => cases h
  | case2 a =>
    simp only [encode, List.mem_cons, List.not_mem_nil, or_false] at h
    rcases h with rfl | rfl | rfl | rfl
    · exact hdigit _
    · exact hdigit _
    · exact hpad
    · exact hpad
  | case3 a b =>
    simp only [encode, List.mem_cons, List.not_mem_nil, or_false] at h
    rcases h with rfl | rfl | rfl | rfl
    · exact hdigit _
    · exact hdigit _
    · exact hdigit _
    · exact hpad
  | case4 a b c data ih =>
    simp only [encode, List.mem_cons] at h
    rcases h with rfl | rfl | rfl | rfl | h
    · exact hdigit _
    · exact hdigit _
    · exact hdigit _
    · exact hdigit _
    · exact ih h

/-! ## The padding -/

/-- The text is digits and then the padding for its length. -/
theorem encode_padded (data : List UInt8) :
    ∃ body, encode data = body ++ padding body.length ∧ ∀ c ∈ body, c ≠ '=' := by
  have hdigit : ∀ {n : ℕ}, n < 64 → digit n ≠ '=' := fun h => (sextet_digit h).2
  induction data using encode.induct with
  | case1 => exact ⟨[], rfl, by simp⟩
  | case2 a =>
    have ha := a.toNat_lt
    refine ⟨[digit (a.toNat / 4), digit (a.toNat % 4 * 16)], rfl, ?_⟩
    simp only [List.forall_mem_cons]
    exact ⟨hdigit (by omega), hdigit (by omega), by simp⟩
  | case3 a b =>
    have ha := a.toNat_lt
    have hb := b.toNat_lt
    refine ⟨[digit (a.toNat / 4), digit (a.toNat % 4 * 16 + b.toNat / 16), digit (b.toNat % 16 * 4)], rfl, ?_⟩
    simp only [List.forall_mem_cons]
    exact ⟨hdigit (by omega), hdigit (by omega), hdigit (by omega), by simp⟩
  | case4 a b c data ih =>
    have ha := a.toNat_lt
    have hb := b.toNat_lt
    have hc := c.toNat_lt
    obtain ⟨body, hbody, hdigits⟩ := ih
    refine ⟨digit (a.toNat / 4) :: digit (a.toNat % 4 * 16 + b.toNat / 16) ::
      digit (b.toNat % 16 * 4 + c.toNat / 64) :: digit (c.toNat % 64) :: body, ?_, ?_⟩
    · have hlength : padding (body.length + 1 + 1 + 1 + 1) = padding body.length := by
        unfold padding
        congr 2
        push_cast
        omega
      rw [encode, hbody]
      simp only [List.length_cons, hlength, List.cons_append]
    · simp only [List.forall_mem_cons]
      exact ⟨hdigit (by omega), hdigit (by omega), hdigit (by omega), hdigit (by omega), hdigits⟩

/-- The padding comes back by the length of what is left without it. -/
theorem padding_of_stripped (data : List UInt8) :
    (encode data).rdropWhile (· = '=') ++ padding ((encode data).rdropWhile (· = '=')).length = encode data := by
  obtain ⟨body, hbody, hdigits⟩ := encode_padded data
  have hstrip : (encode data).rdropWhile (· = '=') = body := by
    rw [hbody, padding]
    generalize ((-(body.length : ℤ)) % 4).toNat = k
    induction k with
    | zero =>
      rw [List.replicate_zero, List.append_nil, List.rdropWhile_eq_self_iff]
      intro hne
      simpa using hdigits _ (List.getLast_mem hne)
    | succ k ih =>
      rw [List.replicate_succ', ← List.append_assoc, List.rdropWhile_concat_pos _ _ _ (by simp), ih]
  rw [hstrip, hbody]

end Galaxz.Base64
