import Galaxz.Contracts.Goals
import Galaxz.Lib.Json

/-!
# `core/goals/substitution.py`: dependency results in payloads

A string of a payload that matches `_REFERENCE` stands for a value inside the result of a declared
dependency. `resolvePayload` replaces all of them, or raises the first error it meets.
-/

namespace Galaxz

/-! ## The reference pattern -/

/-- The rest of the text after a literal. -/
def dropLiteral (literal : String) (cs : List Char) : Option (List Char) :=
  if literal.toList.isPrefixOf cs then some (cs.drop literal.length) else none

/-- `[0-9a-fA-F-]`. -/
def isIdChar (c : Char) : Bool :=
  let n := c.toNat
  (48 ≤ n && n ≤ 57) || (97 ≤ n && n ≤ 102) || (65 ≤ n && n ≤ 70) || n == 45

/-- `}}$`: the end of a reference. `$` also matches before a final newline. -/
def closesReference (cs : List Char) : Bool := cs = ['}', '}'] || cs = ['}', '}', '\n']

/-- `(?:\.([^}]+))?\s*}}$`: the path, if there is one. The path is greedy and takes the white space
before the braces. -/
def matchPath : List Char → Option (Option String)
  | '.' :: cs =>
    let path := cs.takeWhile (· ≠ '}')
    if path ≠ [] ∧ closesReference (cs.dropWhile (· ≠ '}')) then some (some (String.ofList path))
    else none
  | cs => if closesReference (cs.dropWhile isPySpace) then some none else none

/-- `_REFERENCE.match(value)`: the id and the path of a reference. -/
def matchReference (value : String) : Option (String × Option String) := do
  let cs ← dropLiteral "$\x7b\x7b" value.toList
  let cs ← dropLiteral "dependencies." (cs.dropWhile isPySpace)
  let id := cs.takeWhile isIdChar
  if id = [] then none
  else
    let cs ← dropLiteral ".result" (cs.dropWhile isIdChar)
    let path ← matchPath cs
    return (String.ofList id, path)

/-! ## Resolution -/

/-- The value under the keys, one after the other. -/
def walkPath (missing : PyError) : List String → PyValue → Except PyError PyValue
  | [], current => .ok current
  | part :: parts, current => match current with
    | .dict items => match items.lookup part with
      | some item => walkPath missing parts item
      | none => .error missing
    | _ => .error missing

/-- `{task.task_id: task for task in tasks}.get(id)`: the last task with the id. -/
def byId (tasks : List PlannedTask) (id : Uuid) : Option PlannedTask :=
  tasks.reverse.find? (·.taskId = id)

/-- The value that a reference stands for. -/
def resolveReference (declared : List Uuid) (dependencies : List PlannedTask) (id : String)
    (path : Option String) : Except PyError PyValue :=
  match Uuid.parse id with
  | .error _ =>
    .error (.payloadResolutionError "dependency reference contains an invalid UUID")
  | .ok dependencyId =>
    if dependencyId ∉ declared then
      .error (.payloadResolutionError s!"task {dependencyId.text} is not a declared dependency")
    else
      match (byId dependencies dependencyId).bind (·.result) with
      | none => .error (.payloadResolutionError s!"dependency {dependencyId.text} has no result")
      | some result =>
        match path with
        | none => .ok (.dict result)
        | some path =>
          walkPath (.payloadResolutionError
              s!"dependency {dependencyId.text} result has no path {strip path}")
            (((strip path).toList.splitOn '.').map String.ofList) (.dict result)

mutual

/-- `resolve`. -/
def resolve (declared : List Uuid) (dependencies : List PlannedTask) :
    PyValue → Except PyError PyValue
  | .dict items => do return .dict (← resolveItems declared dependencies items)
  | .list xs => do return .list (← resolveList declared dependencies xs)
  | .str s => match matchReference s with
    | none => .ok (.str s)
    | some (id, path) => resolveReference declared dependencies id path
  | v => .ok v

/-- The elements of a list. -/
def resolveList (declared : List Uuid) (dependencies : List PlannedTask) :
    List PyValue → Except PyError (List PyValue)
  | [] => .ok []
  | x :: xs => do return (← resolve declared dependencies x) ::
      (← resolveList declared dependencies xs)

/-- The items of a `dict`. -/
def resolveItems (declared : List Uuid) (dependencies : List PlannedTask) :
    List (String × PyValue) → Except PyError (List (String × PyValue))
  | [] => .ok []
  | (key, item) :: items => do return (key, ← resolve declared dependencies item) ::
      (← resolveItems declared dependencies items)

end

/-- `resolve_payload`. The payload is an object, and so is what it resolves to. -/
def resolvePayload (task : PlannedTask) (dependencies : List PlannedTask) (maxBytes : ℕ := 65536) :
    Except PyError PyDict := do
  let resolved ← resolveItems task.dependsOn dependencies task.payload
  if PyValue.serializableItems resolved = false then
    .error (.typeError "Object is not JSON serializable")
  else if maxBytes < (PyValue.dict resolved).jsonSize then
    .error (.payloadResolutionError "resolved payload exceeds the configured size limit")
  else .ok resolved

end Galaxz
