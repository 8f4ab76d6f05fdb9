import Galaxz.Contracts.Goals
import Galaxz.Lib.CycleSearch
import Galaxz.Lib.Json
import Galaxz.Lib.PyLines

/-!
# `agents/andromeda/planner.py`: plans from a model's reply

The reply is read as JSON and walked project by project and task by task; then every task is checked against
the registered skills, and the dependencies for cycles. Python's recursion limit is left out, but for the search,
which raises where it would not end.
-/

namespace Galaxz

/-! ## Values of the reply -/

namespace PyFloat

/-- `max(x, y)`: the first argument unless the second is larger. -/
def pyMax (x y : PyFloat) : PyFloat := if x.lt y then y else x

/-- `float(n)`. -/
def ofInt (n : ℤ) : Except PyError PyFloat :=
  if overflowBound ≤ |toDouble n| then .error (.overflowError "int too large to convert to float")
  else .ok (.finite (toDouble n))

end PyFloat

namespace PyValue

/-- `for x in value`. -/
def iterate : PyValue → Except PyError (List PyValue)
  | .list xs => .ok xs
  | .dict items => .ok (items.map fun item => .str item.1)
  | .str s => .ok (s.toList.map fun c => .str (String.singleton c))
  | _ => .error (.typeError "object is not iterable")

/-- The value has a method `get`. -/
def asDict : PyValue → Except PyError PyDict
  | .dict items => .ok items
  | _ => .error (.attributeError "object has no attribute 'get'")

/-- `hash(value)` raises. -/
def unhashable : PyValue → Bool
  | .list _ => true
  | .dict _ => true
  | _ => false

/-- The `int` that the value is; a `bool` is one. -/
def asInt : PyValue → Option ℤ
  | .int n => some n
  | .bool b => some (if b then 1 else 0)
  | _ => Option.none

end PyValue

/-- `items.get(key, default)`. -/
def PyDict.getOr (items : PyDict) (key : String) (default : PyValue) : PyValue := (items.lookup key).getD default

/-- What is taken from Python as it is: `json.loads`, `float`, `str` and `repr`, and the texts that pydantic accepts,
which are those without a lone surrogate. -/
structure PlannerText where
  loads : String → Except PyError PyValue
  /-- `json.loads` knows nothing of a plan. -/
  loads_ne : ∀ s msg, loads s ≠ .error (.planValidationError msg)
  float : String → Option PyFloat
  str : PyValue → String
  repr : PyValue → String
  isUnicode : String → Bool

/-! ## The reply -/

/-- `_strip_fence`. -/
def stripFence (text : String) : String :=
  let text := strip text
  if "```".toList.isPrefixOf text.toList then
    let lines := splitLines [] text.toList
    let body := if stripChars (lines.getLastD []) = "```".toList then lines.tail.dropLast else lines.tail
    strip (String.ofList (List.intercalate ['\n'] body))
  else text

/-- `text.split(sep)[-1]`: the text after the last separator, of those found from the left. -/
def lastPiece (sep : List Char) : ℕ → List Char → List Char → List Char
  | 0, piece, _ => piece.reverse
  | _ + 1, piece, [] => piece.reverse
  | fuel + 1, piece, c :: cs =>
    if sep.isPrefixOf (c :: cs) then lastPiece sep fuel [] ((c :: cs).drop sep.length)
    else lastPiece sep fuel (c :: piece) cs

/-- `ProjectNode(goal_id=goal_id, title=title, description=description)`. -/
def ProjectNode.validate (isUnicode : String → Bool) (projectId goalId : Uuid) (title description : String) :
    Except PyError ProjectNode :=
  if isUnicode title = false ∨ isUnicode description = false then
    .error (.valueError "unable to parse raw data as a unicode string")
  else if strip title = "" then .error (.valueError "must not be empty")
  else .ok { projectId, goalId, title := strip title, description }

/-! ## The registry -/

/-- What the planner reads of a registered skill. -/
structure PlannerSkill where
  skillId : String
  inputSchema : PyDict

/-- `_known_skills()`. -/
def knownSkills (skills : List PlannerSkill) : List String := (skills.map (·.skillId)).dedup

/-- `schemas.get(skill)`: the last schema under the id. -/
def schemaOf (skills : List PlannerSkill) (skill : String) : PyDict :=
  ((skills.reverse.find? (·.skillId = skill)).map (·.inputSchema)).getD []

/-- `(schemas.get(skill) or {}).get("required", [])`. -/
def requiredOf (skills : List PlannerSkill) (skill : String) : PyValue :=
  (schemaOf skills skill).getOr "required" (.list [])

/-! ## The checks -/

/-- An entry of `flat_specs`. -/
structure TaskSpec where
  projectId : Uuid
  skill : PyValue
  payload : PyValue
  dependsOn : PyValue

/-- The registered skills that end in the last part of the text. -/
def skillMatches (text : PlannerText) (skills : List PlannerSkill) (skill : PyValue) : List String :=
  let name := (text.str skill).toList
  let suffix := lastPiece ".skill.".toList (name.length + 1) [] name
  (knownSkills skills).filter fun known => (".skill.".toList ++ suffix).isSuffixOf known.toList

/-- `spec["skill"]` after the correction of an invented agent prefix. -/
def checkSkill (text : PlannerText) (skills : List PlannerSkill) (skill : PyValue) : Except PyError String :=
  if skill.unhashable then .error (.typeError "unhashable type")
  else
    match (knownSkills skills).find? fun known => PyValue.str known = skill with
    | some known => .ok known
    | none => match skillMatches text skills skill with
      | [only] => .ok only
      | _ => .error (.planValidationError s!"unknown skill: {text.repr skill}")

/-- `any(key not in payload for key in required)`. -/
def anyMissing (payload : PyDict) : List PyValue → Except PyError Bool
  | [] => .ok false
  | key :: keys =>
    if key.unhashable then .error (.typeError "unhashable type")
    else if payload.any fun item => PyValue.str item.1 = key then anyMissing payload keys
    else .ok true

/-- The payload is an object with the keys that the skill requires. -/
def checkPayload (text : PlannerText) (skills : List PlannerSkill) (i : ℕ) (skill : String) (payload : PyValue) :
    Except PyError PyDict :=
  let refused := PyError.planValidationError
    s!"task {i} payload for {skill} requires {text.str (requiredOf skills skill)}"
  match payload with
  | .dict payload => do
    let keys ← (requiredOf skills skill).iterate
    if ← anyMissing payload keys then .error refused else .ok payload
  | _ => .error refused

/-- `d` is the index of another task. -/
def checkIndex (n i : ℕ) (d : PyValue) : Option ℕ :=
  match d.asInt with
  | some d => if d < 0 ∨ n ≤ d ∨ d = i then none else some d.toNat
  | none => none

/-- The dependencies are a list of indices of other tasks. -/
def checkDepends (text : PlannerText) (n i : ℕ) (deps : PyValue) : Except PyError (List ℕ) :=
  let refused := PyError.planValidationError s!"task {i} has invalid depends_on: {text.repr deps}"
  match deps with
  | .list ds => match ds.mapM (checkIndex n i) with
    | some ds => .ok ds
    | none => .error refused
  | _ => .error refused

/-- A spec that passed its checks. -/
structure CheckedSpec where
  projectId : Uuid
  skill : String
  payload : PyDict
  dependsOn : List ℕ

/-- The checks of one spec. -/
def checkSpec (text : PlannerText) (skills : List PlannerSkill) (n i : ℕ) (spec : TaskSpec) :
    Except PyError CheckedSpec := do
  let skill ← checkSkill text skills spec.skill
  let payload ← checkPayload text skills i skill spec.payload
  let dependsOn ← checkDepends text n i spec.dependsOn
  return { projectId := spec.projectId, skill, payload, dependsOn }

/-- The checks of the specs from index `i` on. -/
def checkSpecs (text : PlannerText) (skills : List PlannerSkill) (n : ℕ) :
    ℕ → List TaskSpec → Except PyError (List CheckedSpec)
  | _, [] => .ok []
  | i, spec :: specs => do
    let checked ← checkSpec text skills n i spec
    let rest ← checkSpecs text skills n (i + 1) specs
    return checked :: rest

/-- `_has_cycle(edges, n)`; `none` would be a search that does not end. -/
def hasCycle (edges : ℕ → List ℕ) (n : ℕ) : Option Bool :=
  (CycleSearch.search edges n (List.range n) fun _ => .white).map (·.1)

/-! ## A plan -/

structure PlanResult where
  projects : List ProjectNode
  tasks : List PlannedTask
  planConfidence : PyFloat
deriving DecidableEq

/-- `float(value)`. -/
def floatOf (text : PlannerText) : PyValue → Except PyError PyFloat
  | .bool b => .ok (.finite (if b then 1 else 0))
  | .int n => PyFloat.ofInt n
  | .float x => .ok x
  | .str s => match text.float s with
    | some x => .ok x
    | none => .error (.valueError "could not convert string to float")
  | _ => .error (.typeError "float() argument must be a string or a real number")

/-- `max(0.0, min(1.0, float(value)))`, or one half when there is no such number. -/
def planConfidence (text : PlannerText) (value : PyValue) : Except PyError PyFloat :=
  match floatOf text value with
  | .ok x => .ok (PyFloat.pyMax (.finite 0) (PyFloat.pyMin (.finite 1) x))
  | .error (.typeError _) => .ok (.finite (1 / 2))
  | .error (.valueError _) => .ok (.finite (1 / 2))
  | .error e => .error e

/-- The spec of a task of the reply. -/
def readTask (projectId : Uuid) (rt : PyValue) : Except PyError TaskSpec := do
  let rt ← rt.asDict
  return { projectId, skill := PyDict.get rt "skill", payload := (PyDict.get rt "payload").orElse (.dict []),
           dependsOn := (PyDict.get rt "depends_on").orElse (.list []) }

/-- `str(rp.get("title") or "Untitled project")`. -/
def titleOf (text : PlannerText) (rp : PyDict) : String :=
  text.str ((PyDict.get rp "title").orElse (.str "Untitled project"))

/-- `str(rp.get("description") or "")`. -/
def descriptionOf (text : PlannerText) (rp : PyDict) : String :=
  text.str ((PyDict.get rp "description").orElse (.str ""))

/-- A project of the reply, and the specs of its tasks. -/
def readProject (text : PlannerText) (goalId projectId : Uuid) (rp : PyValue) :
    Except PyError (ProjectNode × List TaskSpec) := do
  let rp ← rp.asDict
  let project ← ProjectNode.validate text.isUnicode projectId goalId (titleOf text rp) (descriptionOf text rp)
  let rts ← (rp.getOr "tasks" (.list [])).iterate
  let specs ← rts.mapM (readTask projectId)
  return (project, specs)

/-- The projects of the reply from the `k`-th on. The `k`-th id of the supply is that of the `k`-th project. -/
def readProjects (text : PlannerText) (goalId : Uuid) (ids : ℕ → Uuid) :
    ℕ → List PyValue → Except PyError (List (ProjectNode × List TaskSpec))
  | _, [] => .ok []
  | k, rp :: rps => do
    let read ← readProject text goalId (ids k) rp
    let rest ← readProjects text goalId ids (k + 1) rps
    return read :: rest

/-- The tasks of the plan. The ids of the supply from `first` on are those of the tasks. -/
def planTasks (goalId : Uuid) (ids : ℕ → Uuid) (first : ℕ) (specs : List CheckedSpec) : List PlannedTask :=
  specs.zipIdx.map fun (spec, i) =>
    { taskId := ids (first + i), projectId := spec.projectId, goalId, skill := spec.skill, payload := spec.payload,
      dependsOn := spec.dependsOn.map fun d => ids (first + d) }

/-- `_plan_once(goal)` with the text that the model replied. Every `uuid4()` takes the next id of the supply. -/
def planOnce (text : PlannerText) (skills : List PlannerSkill) (ids : ℕ → Uuid) (goal : GoalContract)
    (reply : String) : Except PyError PlanResult :=
  match text.loads (stripFence reply) with
  | .error (.jsonDecodeError msg) => .error (.planValidationError s!"planner returned non-JSON: {msg}")
  | .error e => .error e
  | .ok (.dict data) => match PyDict.get data "projects" with
    | .list (rp :: rps) => do
      let planConfidence ← planConfidence text (PyDict.getOr data "plan_confidence" (.float (.finite (1 / 2))))
      let read ← readProjects text goal.goalId ids 0 (rp :: rps)
      let flatSpecs := read.flatMap (·.2)
      if flatSpecs = [] then .error (.planValidationError "plan has no tasks")
      else
        let checked ← checkSpecs text skills flatSpecs.length 0 flatSpecs
        match hasCycle (fun u => (checked[u]?.map (·.dependsOn)).getD []) flatSpecs.length with
        | none => .error (.runtimeError "maximum recursion depth exceeded")
        | some true => .error (.planValidationError "plan dependency graph has a cycle")
        | some false =>
          return { projects := read.map (·.1), tasks := planTasks goal.goalId ids read.length checked, planConfidence }
    | _ => .error (.planValidationError "plan has no projects")
  | .ok _ => .error (.planValidationError "plan must be a JSON object")

/-- `plan(goal)`. The model is asked once more, with the error, when its plan is refused. `standalone` is the test
of the objective for a webpage that is one scaffold task. -/
def plan (text : PlannerText) (skills : List PlannerSkill) (ids retryIds : ℕ → Uuid) (standalone : String → Bool)
    (llm : String → Except PyError String) (goal : GoalContract) : Except PyError PlanResult :=
  if "rigel.skill.scaffold" ∈ knownSkills skills ∧ standalone goal.objective = true then do
    let project ← ProjectNode.validate text.isUnicode (ids 0) goal.goalId "Webpage" goal.objective
    let task : PlannedTask :=
      { taskId := ids 1, projectId := project.projectId, goalId := goal.goalId, skill := "rigel.skill.scaffold",
        payload := [("project_type", .str "standalone webpage"), ("stack", .str "HTML, CSS and JavaScript"),
          ("features", .list [.str goal.objective])] }
    return { projects := [project], tasks := [task], planConfidence := .finite 1 }
  else do
    let reply ← llm ""
    match planOnce text skills ids goal reply with
    | .error (.planValidationError msg) =>
      let reply ← llm msg
      planOnce text skills retryIds goal reply
    | r => r

end Galaxz
