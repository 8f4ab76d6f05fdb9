import Galaxz.Lib.JsonReader
import Galaxz.Lib.PyStr

/-!
# `agents/rigel/agent.py`: the first JSON object of a text

A model's text is tried as JSON whole, and then from each opening brace on up to where as many braces are closed
as opened. Each candidate is tried as it is and with two repairs.
-/

namespace Galaxz.Rigel

/-- The characters that the pattern of `_fix_escapes` takes for a valid escape. -/
def validEscapes : List Char := ['"', '\\', '/', 'b', 'f', 'n', 'r', 't', 'u']

/-- `_fix_escapes`: a backslash before any other character is doubled. A match takes both characters. -/
def fixEscapes : List Char → List Char
  | [] => []
  | '\\' :: c :: cs =>
    if c ∉ validEscapes then '\\' :: '\\' :: c :: fixEscapes cs else '\\' :: fixEscapes (c :: cs)
  | c :: cs => c :: fixEscapes cs

/-- Three quotation marks. -/
def tripleQuote : List Char := ['"', '"', '"']

/-- The text up to the next three quotation marks, and the text behind them. -/
def untilTriple : List Char → Option (List Char × List Char)
  | [] => none
  | c :: cs =>
    if tripleQuote.isPrefixOf (c :: cs) then some ([], (c :: cs).drop 3)
    else (untilTriple cs).map fun p => (c :: p.1, p.2)

/-- `escape_content`, for the content of a match. No replacement makes what a later one looks for. -/
def escapeContent (content : List Char) : List Char :=
  '"' :: (content.flatMap fun c =>
    if c = '\\' then ['\\', '\\']
    else if c = '"' then ['\\', '"']
    else if c = '\n' then ['\\', 'n']
    else if c = '\r' then ['\\', 'r']
    else if c = '\t' then ['\\', 't']
    else [c]) ++ ['"']

/-- `_fix_triple_quotes`, with fuel for every character of the text. -/
def fixTripleQuotesFrom : ℕ → List Char → List Char
  | 0, cs => cs
  | _ + 1, [] => []
  | n + 1, c :: cs =>
    if tripleQuote.isPrefixOf (c :: cs) then
      match untilTriple ((c :: cs).drop 3) with
      | some (content, rest) => escapeContent content ++ fixTripleQuotesFrom n rest
      | none => c :: fixTripleQuotesFrom n cs
    else c :: fixTripleQuotesFrom n cs

/-- `_fix_triple_quotes`. -/
def fixTripleQuotes (text : List Char) : List Char := fixTripleQuotesFrom text.length text

/-- `try_parse`. -/
def tryParse (s : List Char) : Bool := (JsonReader.loads s).isOk

/-- `try_parse_fixed`: as it is, with the quotes repaired, with the escapes, with both. -/
def tryParseFixed (s : List Char) : Option (List Char) :=
  if tryParse s then some s
  else
    let tq := fixTripleQuotes s
    if tryParse tq then some tq
    else
      let fixed := fixEscapes s
      if tryParse fixed then some fixed
      else
        let both := fixEscapes tq
        if tryParse both then some both else none

/-- The text up to where the depth is zero again after a closing brace. -/
def braceBlock : ℤ → List Char → Option (List Char)
  | _, [] => none
  | depth, c :: cs =>
    if c = '{' then (braceBlock (depth + 1) cs).map fun u => c :: u
    else if c = '}' then
      if depth - 1 = 0 then some [c] else (braceBlock (depth - 1) cs).map fun u => c :: u
    else (braceBlock depth cs).map fun u => c :: u

/-- The loop over the opening braces: the first candidate that parses. The next start is behind the present one,
so the text is read once at most. -/
def firstObject : List Char → Option (List Char)
  | [] => none
  | c :: cs =>
    if c = '{' then
      match (braceBlock 0 (c :: cs)).bind tryParseFixed with
      | some result => some result
      | none => firstObject cs
    else firstObject cs

/-- `_extract_json`. -/
def extractJson (text : List Char) : List Char :=
  if text = [] then text
  else
    let stripped := stripChars text
    match tryParseFixed stripped with
    | some result => result
    | none => (firstObject stripped).getD stripped

end Galaxz.Rigel
