import Mathlib.Data.List.Infix

/-!
# Shell patterns

`fnmatch.fnmatchcase`: `*` stands for any text, `?` for any character, `[seq]` for a character of the
sequence and `[!seq]` for one that is not in it; a sequence may hold ranges `a-z`. A bracket that is not
closed stands for itself.
-/

namespace Galaxz

/-- A part of a pattern. -/
inductive PatItem where
  | star
  | any
  | literal (c : Char)
  | set (negated : Bool) (ranges : List (Char × Char))

/-- The characters of a sequence, as ranges. -/
def seqRanges : ℕ → List Char → List (Char × Char)
  | 0, _ => []
  | _, [] => []
  | n + 1, a :: cs =>
    match cs with
    | '-' :: b :: rest => (a, b) :: seqRanges n rest
    | _ => (a, a) :: seqRanges n cs

/-- The sequence after an opening bracket and what follows its closing one. A `]` right after the
opening, or after its `!`, belongs to the sequence. -/
def splitSeq (cs : List Char) : Option (List Char × List Char) :=
  let bang := if cs.head? = some '!' then 1 else 0
  let lead := if (cs.drop bang).head? = some ']' then bang + 1 else bang
  match (cs.drop lead).dropWhile (· ≠ ']') with
  | [] => none
  | _ :: rest => some (cs.take lead ++ (cs.drop lead).takeWhile (· ≠ ']'), rest)

/-- The set that a sequence denotes. -/
def seqSet (cs : List Char) : PatItem :=
  match cs with
  | '!' :: rest => .set true (seqRanges rest.length rest)
  | _ => .set false (seqRanges cs.length cs)

/-- The parts of a pattern; the number bounds the characters still to be read. -/
def patItems : ℕ → List Char → List PatItem
  | 0, _ => []
  | _, [] => []
  | n + 1, c :: cs =>
    if c = '*' then .star :: patItems n cs
    else if c = '?' then .any :: patItems n cs
    else if c = '[' then
      match splitSeq cs with
      | none => .literal c :: patItems n cs
      | some (seq, rest) => seqSet seq :: patItems n rest
    else .literal c :: patItems n cs

/-- A part that stands for one character accepts it. -/
def PatItem.accepts (c : Char) : PatItem → Bool
  | .star => false
  | .any => true
  | .literal d => c = d
  | .set negated ranges => (ranges.any fun r => r.1 ≤ c && c ≤ r.2) != negated

/-- The parts match the whole text. -/
def matchItems : List PatItem → List Char → Bool
  | [], cs => cs.isEmpty
  | .star :: items, cs => cs.tails.any (matchItems items)
  | _ :: _, [] => false
  | item :: items, c :: cs => item.accepts c && matchItems items cs

/-- `fnmatchcase(name, pat)`. -/
def fnmatchcase (name pat : String) : Bool :=
  matchItems (patItems pat.length pat.toList) name.toList

end Galaxz
