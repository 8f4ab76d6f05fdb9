import Galaxz.Lib.Fnmatch
import Galaxz.Lib.PyStr
import Galaxz.Lib.PyValue

/-!
# `core/a2a/config.py`: callers and remote agents

Who may call over A2A, under which origin, and which remote agents are called.
-/

namespace Galaxz

/-- What is taken from Python as it is: `str()` and `repr()` of a value, and the characters of `\w`. -/
structure PyText where
  str : PyValue → String
  str_str : ∀ s, str (.str s) = s
  repr : String → String
  isWord : Char → Bool
  word_not_space : ∀ c, isWord c = true → isPySpace c = false

/-- Texts and word characters as ASCII has them. -/
def asciiText : PyText where
  str
    | .str s => s
    | _ => ""
  str_str _ := rfl
  repr s := "'" ++ s ++ "'"
  isWord c :=
    let n := c.toNat
    (48 ≤ n && n ≤ 57) || (65 ≤ n && n ≤ 90) || n == 95 || (97 ≤ n && n ≤ 122)
  word_not_space c h := by
    unfold isPySpace
    simp only [Bool.or_eq_true, Bool.and_eq_true, decide_eq_true_eq, beq_iff_eq, Bool.or_eq_false_iff,
      Bool.and_eq_false_iff, decide_eq_false_iff_not, beq_eq_false_iff_ne] at h ⊢
    omega

/-- `for x in value or []`. -/
def iterated (value : PyValue) : Except PyError (List PyValue) :=
  if value.truthy then
    match value with
    | .list xs => .ok xs
    | .dict items => .ok (items.map fun item => .str item.1)
    | .str s => .ok (s.toList.map fun c => .str (String.singleton c))
    | _ => .error (.typeError "object is not iterable")
  else .ok []

/-- `_string_list(value)`. -/
def stringList : PyValue → Option (List String)
  | .list xs => xs.mapM fun
    | .str s => some s
    | _ => none
  | _ => none

/-- The token in the variable that `token_env` names. -/
def tokenOf (environ : String → Option String) (envName : PyValue) : Except PyError (Option String) :=
  if envName.truthy then
    match envName with
    | .str name =>
      let token := strip ((environ name).getD "")
      .ok (if token = "" then none else some token)
    | _ => .error (.typeError "str expected")
  else .ok none

/-! ## Callers -/

/-- `_ORIGIN_PREFIX`. -/
def originPrefix : String := "a2a:"

/-- A `CallerConfig`, after its token was checked; the origin is one that `_load_caller` lets through. -/
structure CallerConfig where
  origin : String
  skills : Option (List String) := none
  origin_stripped : strip origin = origin
  origin_prefixed : originPrefix.toList <+: origin.toList

/-- `_load_caller(entry, environ)`. -/
def loadCaller (text : PyText) (environ : String → Option String) :
    PyValue → Except PyError (Option CallerConfig)
  | .dict entry =>
    let origin := strip (text.str ((PyDict.get entry "origin").orElse (.str "")))
    if (PyDict.get entry "token_env").truthy && origin ≠ "" then
      if origin_prefixed : originPrefix.toList <+: origin.toList then do
        let origin_stripped := strip_strip _
        match ← tokenOf environ (PyDict.get entry "token_env") with
        | none => .ok none
        | some _ =>
          let skills := PyDict.get entry "skills"
          if skills = .none then .ok (some { origin, skills := none, origin_stripped, origin_prefixed })
          else .ok ((stringList skills).map fun patterns =>
            { origin, skills := some patterns, origin_stripped, origin_prefixed })
      else .ok none
    else .ok none
  | _ => .ok none

/-- `allows_skill`. -/
def CallerConfig.allowsSkill (caller : CallerConfig) (skillId : String) : Bool :=
  match caller.skills with
  | none => true
  | some patterns => patterns.any fun pattern => fnmatchcase skillId pattern

/-! ## Agents -/

/-- `re.compile(r"^[...]+$").match(s)` for a class of characters. The `$` also matches before a newline at
the end. -/
def matchesLine (p : Char → Bool) (s : String) : Bool :=
  let cs := s.toList
  (cs ≠ [] && cs.all p) || (cs.getLast? = some '\n' && cs.dropLast ≠ [] && cs.dropLast.all p)

/-- `[a-z0-9_-]`. -/
def isNameChar (c : Char) : Bool := ('a' ≤ c && c ≤ 'z') || c.isDigit || c = '_' || c = '-'

/-- An `AgentConfig`; the name is one that `_load_agent` lets through. -/
structure AgentConfig where
  name : String
  url : String
  token : Option String := none
  timeoutS : PyFloat := .finite 60
  allowedOrigins : Option (List String) := none
  name_ok : matchesLine isNameChar name = true
deriving DecidableEq

/-- `timeout_s`, or the default when it is no positive number. -/
def agentTimeout (entry : PyDict) : PyFloat :=
  match (entry.lookup "timeout_s").getD (.float (.finite 60)) with
  | .int n => if n ≤ 0 then .finite 60 else .finite n
  | .float x => if x.le (.finite 0) then .finite 60 else x
  | _ => .finite 60

/-- `_load_agent(entry, environ)`. -/
def loadAgent (text : PyText) (environ : String → Option String) :
    PyValue → Except PyError (Option AgentConfig)
  | .dict entry => do
    let name := text.str ((PyDict.get entry "name").orElse (.str ""))
    let url := String.ofList ((strip (text.str ((PyDict.get entry "url").orElse (.str "")))).toList.rdropWhile (· = '/'))
    if name_ok : matchesLine isNameChar name = true then
      if "http://".toList.isPrefixOf url.toList || "https://".toList.isPrefixOf url.toList then
        let token ← tokenOf environ (PyDict.get entry "token_env")
        let timeoutS := agentTimeout entry
        let allowed := PyDict.get entry "allowed_origins"
        if allowed = .none then
          .ok (some { name, url, token, timeoutS, allowedOrigins := none, name_ok })
        else
          .ok ((stringList allowed).map fun origins =>
            { name, url, token, timeoutS, allowedOrigins := some origins, name_ok })
      else .ok none
    else .ok none
  | _ => .ok none

/-- The agents of `load_a2a_config`, for the entries of the file. -/
def loadAgents (text : PyText) (environ : String → Option String) (entries : List PyValue) :
    Except PyError (List AgentConfig) := do
  let agents ← entries.mapM (loadAgent text environ)
  .ok (agents.filterMap id)

end Galaxz
