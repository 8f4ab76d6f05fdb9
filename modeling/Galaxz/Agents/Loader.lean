import Galaxz.Andromeda.Planner
import Galaxz.Lib.JsonReader
import Galaxz.Lib.Mapping
import Galaxz.Lib.Replace

/-!
# `core/agent_loader.py`: prompts and replies

What the loader of configured agents, the planner and the test designer do with texts of a model.
-/

namespace Galaxz

/-! ## `core/agent_loader.py` and `agents/vega/stages/test_designer.py`: replies in code fences

A model likes to put its reply between lines of three backquotes. The planner, the loader of configured agents
and the test designer each take them off.
-/

/-- `_strip_fences`. -/
def stripFences (text : String) : String :=
  let text := strip text
  if ¬ "```".toList.isPrefixOf text.toList then text
  else
    let lines := splitLines [] text.toList
    let stop := if stripChars (lines.getLastD []) = "```".toList then lines.length - 1 else lines.length
    strip (String.ofList (List.intercalate ['\n'] ((lines.take stop).drop 1)))

/-- The text of the reply that `_extract_json` reads. -/
def unfencedReply (text : List Char) : List Char :=
  let cleaned := stripChars text
  if "```".toList.isPrefixOf cleaned then
    -- `[][1:]` is empty as well
    let lines := (splitLines [] cleaned).tail
    let lines := if lines ≠ [] ∧ "```".toList.isPrefixOf (stripChars (lines.getLastD [])) then lines.dropLast else lines
    stripChars (List.intercalate ['\n'] lines)
  else cleaned

/-- `text.rfind(c)`. -/
def lastIndex (c : Char) (cs : List Char) : Option ℕ :=
  (cs.reverse.findIdx? fun d => d = c).map fun i => cs.length - 1 - i

/-- `json.loads(cleaned)`, and where that is no JSON, the text from the first brace to the last one. -/
def loadsOrBraces (cleaned : List Char) : Except PyError JsonValue :=
  match JsonReader.loads cleaned with
  | .error (.jsonDecodeError msg) =>
    match cleaned.findIdx? (fun d => d = '{'), lastIndex '}' cleaned with
    | some start, some stop =>
      if start < stop then JsonReader.loads ((cleaned.take (stop + 1)).drop start) else .error (.jsonDecodeError msg)
    | _, _ => .error (.jsonDecodeError msg)
  | result => result

/-- `_extract_json` of the test designer. -/
def extractReply (text : String) : Except PyError JsonValue := loadsOrBraces (unfencedReply text.toList)

/-! ## `core/agent_loader.py`: `_render`

The placeholders of a template are replaced one variable after the other. The values come from the payload of
a task.
-/

open Replace

/-- A variable and the text of its value. -/
abbrev TemplateVar : Type := String × List Char

/-- `f"{{{key}}}"`. -/
def placeholder (var : TemplateVar) : List Char := '{' :: (var.1.toList ++ ['}'])

/-- The loop of `_render`, on elements that have a character. -/
def renderLoop {α : Type} (key : α → Char) (put : List Char → List α) (text : List α) (vars : List TemplateVar) : List α :=
  vars.foldl (fun result var => replace key (placeholder var) (put var.2) result) text

/-- What the loop replaces, on characters that know where they come from. -/
def renderSlices : List Traced → List TemplateVar → List (List Traced)
  | _, [] => []
  | text, var :: vars =>
    slices (·.1) (placeholder var) text ++ renderSlices (replace (·.1) (placeholder var) (inserted var.2) text) vars

section Render

variable {V : Type} (str : V → String)

/-- The variables in the order of the `dict`, with `str(value)`. -/
def templateVars (vars : Mapping String V) : List TemplateVar := vars.items.map fun e => (e.1, (str e.2).toList)

/-- `_render`. -/
def render (template : String) (vars : Mapping String V) : String :=
  String.ofList (renderLoop id id template.toList (templateVars str vars))

end Render

/-- The placeholder of the variable stands in the template at the place. -/
def StandsAt (template : String) (var : TemplateVar) (i : ℕ) : Prop := placeholder var <+: template.toList.drop i

/-- The template with every placeholder of the variables behind a block, and nothing else. -/
structure IsCut (template : String) (vars : List TemplateVar) (ps : List (Piece TemplateVar)) : Prop where
  source : source placeholder ps = template.toList
  blocks : ∀ i var, (i, var) ∈ blocksFrom placeholder 0 ps ↔ var ∈ vars ∧ StandsAt template var i

/-- The template with the values of the variables in place of the blocks. -/
def filled (ps : List (Piece TemplateVar)) : List Traced := shownFrom placeholder (·.2) 0 ps

/-- Rendering is a simultaneous substitution. In every order of the variables, the result is the template with
each placeholder replaced by its value, and only placeholders of the template are replaced. -/
structure Substitutes {V : Type} (str : V → String) (template : String) (vars : Mapping String V) : Prop where
  result : ∀ others : Mapping String V, others.items.Perm vars.items → ∃ ps, IsCut template (templateVars str vars) ps ∧
    (render str template others).toList = (filled ps).map (·.1)
  values : ∀ others : Mapping String V, others.items.Perm vars.items →
    ∀ slice ∈ renderSlices (traced template.toList) (templateVars str others), Original slice

/-- No two placeholders of the template overlap. -/
def PlaceholdersApart (template : String) (vars : List TemplateVar) : Prop :=
  ∀ v ∈ vars, ∀ w ∈ vars, ∀ i j, StandsAt template v i → StandsAt template w j →
    (i = j ∧ v = w) ∨ i + (placeholder v).length ≤ j ∨ j + (placeholder w).length ≤ i

/-- Where some of the variables are filled in, a search for another one finds only placeholders of the template. -/
def ValuesInert (template : String) (vars : List TemplateVar) : Prop :=
  ∀ (done : List TemplateVar) (ps : List (Piece TemplateVar)), (∀ w ∈ done, w ∈ vars) → IsCut template done ps →
    ∀ v ∈ vars, v ∉ done → Clean (placeholder v) (filled ps)

end Galaxz
