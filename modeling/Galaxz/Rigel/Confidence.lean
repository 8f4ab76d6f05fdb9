import Galaxz.Andromeda.Planner
import Galaxz.Lib.JsonReader

/-!
# `agents/rigel/confidence.py`: the confidence of a result

The confidence is a weighted sum of a structural check, the score that a model gives, and a historical score; an
execution of the output moves it into a band of its own. The sums are taken without rounding errors.
-/

namespace Galaxz

/-! ## Arithmetic -/

namespace PyFloat

/-- `x * w` for a finite weight. -/
def scale (x : PyFloat) (w : ℚ) : PyFloat :=
  match x with
  | finite q => finite (q * w)
  | posInf => if w = 0 then nan else if 0 < w then posInf else negInf
  | negInf => if w = 0 then nan else if 0 < w then negInf else posInf
  | nan => nan

/-- `b + x` for a finite number. -/
def shift (x : PyFloat) (b : ℚ) : PyFloat :=
  match x with
  | finite q => finite (b + q)
  | posInf => posInf
  | negInf => negInf
  | nan => nan

/-- `round(x, 3)`. -/
def round3 (x : PyFloat) : PyFloat :=
  match x with
  | finite q => finite (roundHalfEven (q * 1000) / 1000)
  | posInf => posInf
  | negInf => negInf
  | nan => nan

end PyFloat

namespace JsonValue

/-- `items.get(key)`. -/
def get (items : List (CodeString × JsonValue)) (key : String) : Option JsonValue :=
  items.lookup (CodeString.ofChars key.toList)

/-- `isinstance(value, str)`. -/
def isStr : Option JsonValue → Bool
  | some (.str _) => true
  | _ => false

/-- `isinstance(value, list)`. -/
def isList : Option JsonValue → Bool
  | some (.arr _) => true
  | _ => false

/-- `isinstance(value, dict)`. -/
def isDict : Option JsonValue → Bool
  | some (.obj _) => true
  | _ => false

/-- `bool(value)`; `none` stands for `None`. -/
def truthy : Option JsonValue → Bool
  | none => false
  | some .null => false
  | some (.bool b) => b
  | some (.int n) => n ≠ 0
  | some (.float x) => x ≠ .finite 0
  | some (.str s) => s ≠ []
  | some (.arr xs) => !xs.isEmpty
  | some (.obj items) => !items.isEmpty

/-- `isinstance(value, int) and value > 0`; a `bool` is an `int`. -/
def isPositiveInt : Option JsonValue → Bool
  | some (.int n) => 0 < n
  | some (.bool b) => b
  | _ => false

/-- `isinstance(value, str) and bool(value.strip())`. -/
def isWritten : Option JsonValue → Bool
  | some (.str s) => s.any fun n => !isPySpace (Char.ofNat n)
  | _ => false

end JsonValue

namespace Rigel

open JsonValue

/-! ## The structural check -/

/-- The checks of a skill; the other skills have none. -/
def structuralChecks (skillId : String) (result : List (CodeString × JsonValue)) : Option (List Bool) :=
  if skillId = "rigel.skill.code_generation" then
    some [isWritten (get result "code"), (get result "code").isSome]
  else if skillId = "rigel.skill.pr_review" then
    some [isList (get result "findings"), isStr (get result "summary")]
  else if skillId = "rigel.skill.test_writing" then
    some [isStr (get result "tests"), isPositiveInt (get result "test_count")]
  else if skillId = "rigel.skill.refactor" then
    some [truthy (get result "refactored_code"), isList (get result "changes_made")]
  else if skillId = "rigel.skill.scaffold" then
    some [isDict (get result "file_tree"), isList (get result "files") && truthy (get result "files")]
  else if skillId = "rigel.skill.debug_triage" then
    some [truthy (get result "root_cause_hypothesis")]
  else none

/-- `_structural_check`. -/
def structuralCheck (skillId : String) (result : List (CodeString × JsonValue)) : ℚ :=
  match structuralChecks skillId result with
  | none => 1 / 2
  | some results => (results.countP fun v => v) / results.length

/-! ## The model's critique -/

/-- `float(value)`, with what it makes of a text. -/
def floatOfJson (text : CodeString → Option PyFloat) : JsonValue → Except PyError PyFloat
  | .bool b => .ok (.finite (if b then 1 else 0))
  | .int n => PyFloat.ofInt n
  | .float x => .ok x
  | .str s => match text s with
    | some x => .ok x
    | none => .error (.valueError "could not convert string to float")
  | _ => .error (.typeError "float() argument must be a string or a real number")

/-- The score and the gaps that the model's reply has. -/
def readCritique (text : CodeString → Option PyFloat) (reply : Except PyError (List Char)) :
    Except PyError (PyFloat × JsonValue) := do
  let response ← reply
  let parsed ← JsonReader.loads response
  match parsed with
  | .obj items =>
    match get items "score" with
    | none => .error (.keyError "score")
    | some value => (floatOfJson text value).map fun score => (score, (get items "gaps").getD (.arr []))
  | _ => .error (.typeError "indices must be integers or slices, not str")

/-- `_self_critique`, with what the call of the model gives. -/
def selfCritique (text : CodeString → Option PyFloat) (reply : Except PyError (List Char)) (parseErrorFallback : ℚ) :
    PyFloat × JsonValue :=
  match readCritique text reply with
  | .ok critique => critique
  | .error _ => (.finite parseErrorFallback, .arr [.str (CodeString.ofChars "self_critique_parse_error".toList)])

/-! ## The confidence -/

/-- The outcomes of an `ExecutionResult`. -/
inductive ExecutionOutcome where
  | pass
  | fail
  | timeout
  | error
deriving DecidableEq

/-- `_calibrated_confidence`; `none` is no execution. -/
def calibratedConfidence (softConfidence : PyFloat) : Option ExecutionOutcome → PyFloat
  | none => softConfidence
  | some .pass => (softConfidence.scale (1 / 10)).shift (9 / 10)
  | some .fail => (softConfidence.scale (1 / 10)).shift (1 / 10)
  | some .timeout => .finite (1 / 20)
  | some .error => .finite (3 / 20)

/-- The weights of the three parts. -/
structure Weights where
  structuralCheck : ℚ
  selfCritique : ℚ
  historicalBaseline : ℚ

/-- `_DEFAULT_WEIGHTS`. -/
def defaultWeights : Weights := { structuralCheck := 2 / 5, selfCritique := 2 / 5, historicalBaseline := 1 / 5 }

/-- What `score_confidence` returns. -/
structure ConfidenceData where
  confidence : PyFloat
  softConfidence : PyFloat
  structural : ℚ
  selfCritique : PyFloat
  historical : ℚ
  executionOutcome : Option ExecutionOutcome
  gaps : JsonValue

/-- `score_confidence`. -/
def scoreConfidence (text : CodeString → Option PyFloat) (w : Weights) (skillId : String)
    (result : List (CodeString × JsonValue)) (reply : Except PyError (List Char)) (historicalScore : ℚ)
    (executionResult : Option ExecutionOutcome) (parseErrorFallback : ℚ) : ConfidenceData :=
  let structural := structuralCheck skillId result
  let critique := selfCritique text reply parseErrorFallback
  let softConfidence := ((critique.1.scale w.selfCritique).shift (structural * w.structuralCheck)).shift
    (historicalScore * w.historicalBaseline)
  let composite := calibratedConfidence softConfidence executionResult
  { confidence := composite.round3
    softConfidence := softConfidence.round3
    structural
    selfCritique := critique.1
    historical := historicalScore
    executionOutcome := executionResult
    gaps := critique.2 }

/-- `gaps: list[str]` of the routing state: a list of texts without lone surrogates. -/
def gapsFit : JsonValue → Bool
  | .arr xs => xs.all fun x => match x with
    | .str s => decide s.IsUnicode
    | _ => false
  | _ => false

end Rigel

end Galaxz
