import Galaxz.Lib.JsonWriter
import Galaxz.Lib.PyLines
import Galaxz.Orion.EventsTable
import Galaxz.Rigel.Confidence

/-!
# `EventLog.migrate_flat_jsonl`

The flat dataset files of `DatasetStore` hold one training example on each line. The migration puts the examples into
`events` and removes the files.
-/

namespace Galaxz

/-! ## The writer -/

inductive ExampleSource where
  | humanCorrection
  | highConfidenceSuccess
deriving DecidableEq

def ExampleSource.value : ExampleSource → String
  | .humanCorrection => "human_correction"
  | .highConfidenceSuccess => "high_confidence_success"

structure TrainingExample where
  prompt : String
  completion : String
  domain : String
  source : ExampleSource
  qualityScore : PyFloat
  feedbackEventId : Uuid
  createdAt : PyDatetime
  exportedAt : Option PyDatetime := none
  quality_ok : InUnit qualityScore
  quality_double : ∀ q, qualityScore = .finite q → PyFloat.IsDouble q

/-- What the migration uses of other packages, and what depends on the interpreter. -/
structure MigrationHost where
  /-- The text of a float in `model_dump_json()`. -/
  numberText : PyFloat → List Char
  /-- Reading the line, or writing its prompt or completion, meets the recursion limit. -/
  tooDeep : List Char → Bool
  /-- `str(value)` of a list or a `dict`. -/
  containerText : JsonValue → CodeString
  /-- `float(text)`. -/
  floatOfText : CodeString → Option PyFloat

namespace TrainingExample

def str (s : String) : JsonValue := .str (CodeString.ofChars s.toList)

/-- The fields of an example. `nan` is written as `null`. -/
def items (e : TrainingExample) : List (CodeString × JsonValue) :=
  [("prompt", str e.prompt), ("completion", str e.completion), ("domain", str e.domain),
    ("source", str e.source.value),
    ("quality_score", if e.qualityScore = .nan then .null else .float e.qualityScore),
    ("feedback_event_id", str e.feedbackEventId.text), ("created_at", str e.createdAt.jsonText),
    ("exported_at", (e.exportedAt.map fun t => str t.jsonText).getD .null)].map
    fun p => (CodeString.ofChars p.1.toList, p.2)

/-- `example.model_dump_json()`, without the newline that `append_example` puts behind it. -/
def line (host : MigrationHost) (e : TrainingExample) : Except PyError CodeString :=
  JsonWriter.dumps (fun x => .ok (host.numberText x)) (.obj e.items)

end TrainingExample

/-! ## The directory -/

/-- An entry of the directory. `content` is what `read_text` finds: the text that the bytes decode to, or why there
is none. -/
structure DatasetFile where
  name : String
  isFile : Bool := true
  content : Except PyError (List Char)
  removable : Bool := true

namespace DatasetFile

/-- `entry.stem`, of a name that ends with `.jsonl`. -/
def stem (file : DatasetFile) : List Char :=
  if file.name = ".jsonl" then file.name.toList else file.name.toList.take (file.name.toList.length - 6)

end DatasetFile

/-- A hexadecimal digit, in either case. -/
def isHexDigit (c : Char) : Bool :=
  let n := c.toNat
  (48 ≤ n && n ≤ 57) || (65 ≤ n && n ≤ 70) || (97 ≤ n && n ≤ 102)

/-- The groups of a UUID. -/
def isUuidText (cs : List Char) : Bool :=
  (cs.splitOn '-').map List.length = [8, 4, 4, 4, 12] && cs.all fun c => c = '-' || isHexDigit c

/-- `uuid_re.match(text)`: `$` also stands before a newline at the end. -/
def matchesUuid (cs : List Char) : Bool := isUuidText cs || cs.getLast? = some '\n' && isUuidText cs.dropLast

/-- The migration looks at the entry. -/
def DatasetFile.isConsidered (file : DatasetFile) : Bool :=
  file.isFile && ".jsonl".toList.isSuffixOf file.name.toList && !matchesUuid file.stem

/-- The text as `read_text` returns it. -/
def universalNewlines : List Char → List Char
  | [] => []
  | '\r' :: '\n' :: cs => '\n' :: universalNewlines cs
  | c :: cs => (if c = '\r' then '\n' else c) :: universalNewlines cs

/-! ## A line -/

/-- What the migration takes from a line. Without `created_at`, it is the time of the migration. -/
structure MigratedEvent where
  id : CodeString
  skillId : CodeString
  confidence : PyFloat
  humanVerified : Bool
  prompt : JsonValue
  completion : JsonValue
  createdAt : Option CodeString
  exportedAt : JsonValue

namespace Migration

variable (host : MigrationHost)

/-- `str(value)`. -/
def strOf : JsonValue → CodeString
  | .str s => s
  | .null => .ofChars "None".toList
  | .bool b => .ofChars (if b then "True".toList else "False".toList)
  | .int n => .ofChars (intText n)
  | .float .nan => .ofChars "nan".toList
  | .float .posInf => .ofChars "inf".toList
  | .float .negInf => .ofChars "-inf".toList
  | .float x => .ofChars x.reprText
  | v => host.containerText v

/-- `str(data.get("feedback_event_id", ""))`. -/
def idOf (items : List (CodeString × JsonValue)) : CodeString :=
  strOf host ((JsonValue.get items "feedback_event_id").getD (.str []))

/-- `str(data.get("domain", entry.stem))`. -/
def skillOf (stem : List Char) (items : List (CodeString × JsonValue)) : CodeString :=
  strOf host ((JsonValue.get items "domain").getD (.str (.ofChars stem)))

/-- `float(data.get("quality_score", 0.75))`. -/
def scoreOf (items : List (CodeString × JsonValue)) : Except PyError PyFloat :=
  Rigel.floatOfJson host.floatOfText ((JsonValue.get items "quality_score").getD (.float (.finite (3 / 4))))

/-- The event of an object. -/
def eventOf (stem : List Char) (items : List (CodeString × JsonValue)) (confidence : PyFloat) : MigratedEvent where
  id := idOf host items
  skillId := skillOf host stem items
  confidence
  humanVerified := JsonValue.get items "source" = some (.str (.ofChars "human_correction".toList))
  prompt := (JsonValue.get items "prompt").getD (.str [])
  completion := (JsonValue.get items "completion").getD (.str [])
  createdAt := (JsonValue.get items "created_at").map (strOf host)
  exportedAt := (JsonValue.get items "exported_at").getD .null

/-- The event of an object, unless it has no id. -/
def objectEvent (stem : List Char) (items : List (CodeString × JsonValue)) : Except PyError (Option MigratedEvent) :=
  if idOf host items = [] then .ok none
  else (scoreOf host items).map fun confidence => some (eventOf host stem items confidence)

/-- The event of a line, unless it is blank, no JSON or without an id. A `ValueError` of `json.loads` that is no
`JSONDecodeError` is raised, and so is the `AttributeError` of `data.get`. -/
def lineEvent (stem raw : List Char) : Except PyError (Option MigratedEvent) :=
  let line := stripChars raw
  if line = [] then .ok none
  else if host.tooDeep line then .error (.runtimeError "maximum recursion depth exceeded")
  else match JsonReader.loads line with
    | .error (.jsonDecodeError _) => .ok none
    | .error e => .error e
    | .ok (.obj items) => objectEvent host stem items
    | .ok _ => .error (.attributeError "object has no attribute 'get'")

/-! ## A row -/

/-- A text parameter. -/
def bindText (s : CodeString) : Except PyError String :=
  if s.IsText then .ok (String.ofList s.chars)
  else .error (.valueError "'utf-8' codec can't encode: surrogates not allowed")

/-- A parameter of any type. -/
def bindAny : JsonValue → Except PyError (Option JsonValue)
  | .null | .float .nan => .ok none
  | .bool b => .ok (some (.bool b))
  | .int n => (Sqlite.bindInt n).map fun n => some (.int n)
  | .float x => .ok (some (.float x))
  | .str s => (bindText s).map fun _ => some (.str s)
  | .arr _ => .error (.interfaceError "Error binding parameter: type 'list' is not supported")
  | .obj _ => .error (.interfaceError "Error binding parameter: type 'dict' is not supported")

/-- `"rigel" if skill_id.startswith("rigel") else "vega"`. -/
def agentOf (skillId : CodeString) : String :=
  if (CodeString.ofChars "rigel".toList).isPrefixOf skillId then "rigel" else "vega"

/-- The `dict` with one field, as the column holds it. -/
def column (key : String) (v : JsonValue) : Option JsonValue := some (.obj [(.ofChars key.toList, v)])

/-- The row of an event; `now` is the time of the migration. -/
def eventRow (now : Datetime) (event : MigratedEvent) : Except PyError EventsRow := do
  let id ← bindText event.id
  let skillId ← bindText event.skillId
  let createdAt ← bindText (event.createdAt.getD (.ofChars now.isoformat.toList))
  let exportedAt ← bindAny event.exportedAt
  .ok {
    id
    taskId := id
    skillId
    agentId := agentOf event.skillId
    domain := agentOf event.skillId
    outcome := "success"
    confidence := event.confidence
    humanVerified := event.humanVerified
    payload := column "prompt" event.prompt
    result := column "completion" event.completion
    createdAt
    exportedAt }

/-- The rows of lines, or what is raised: all lines are read before the first row is made. -/
def lineRows (now : Datetime) (stem : List Char) (lines : List (List Char)) : Except PyError (List EventsRow) := do
  let events ← lines.mapM (lineEvent host stem)
  events.reduceOption.mapM (eventRow now)

/-! ## The migration -/

/-- What `entry.read_text(encoding="utf-8").splitlines()` returns. -/
def textLines (text : List Char) : List (List Char) := splitLines [] (universalNewlines text)

/-- The rows of an entry: none if it is not considered or cannot be read. -/
def fileRows (now : Datetime) (file : DatasetFile) : Except PyError (List EventsRow) :=
  if file.isConsidered then
    match file.content with
    | .error (.osError _) => .ok []
    | .error e => .error e
    | .ok text => lineRows host now file.stem (textLines text)
  else .ok []

/-- The loop over the entries: how many events there were, what is left of the entries, and the table. What is raised
leaves the entries that were not reached, and the table without the rows of the one that raised. -/
def migrateFiles (now : Datetime) : List DatasetFile → List EventsRow →
    Except PyError ℕ × List DatasetFile × List EventsRow
  | [], table => (.ok 0, [], table)
  | file :: files, table =>
    match fileRows host now file with
    | .error e => (.error e, file :: files, table)
    | .ok [] =>
      let rest := migrateFiles now files table
      (rest.1, file :: rest.2.1, rest.2.2)
    | .ok rows =>
      let rest := migrateFiles now files (EventsTable.insertAll rows table)
      (rest.1.map (rows.length + ·), if file.removable then rest.2.1 else file :: rest.2.1, rest.2.2)

end Migration

/-- The directory, with its entries in the order of their names, and the table. -/
structure MigrationState where
  files : List DatasetFile
  table : List EventsRow
  sorted : files.Pairwise fun a b => a.name < b.name
  keys : (table.map (·.id)).Nodup

namespace Migration

variable {host : MigrationHost} {now : Datetime}

theorem sublist_migrateFiles (files : List DatasetFile) (table : List EventsRow) :
    ((migrateFiles host now files table).2.1).Sublist files := by
  induction files generalizing table with
  | nil => exact List.Sublist.refl []
  | cons file files ih =>
    rw [migrateFiles]
    split
    · exact List.Sublist.refl _
    · exact (ih _).cons_cons file
    · dsimp only
      split_ifs
      · exact (ih _).cons file
      · exact (ih _).cons_cons file

theorem nodup_migrateFiles (files : List DatasetFile) {table : List EventsRow} (h : (table.map (·.id)).Nodup) :
    ((migrateFiles host now files table).2.2.map (·.id)).Nodup := by
  induction files generalizing table with
  | nil => exact h
  | cons file files ih =>
    rw [migrateFiles]
    split
    · exact h
    · exact ih h
    · exact ih (EventsTable.nodup_insertAll _ h)

variable (host now)

/-- `migrate_flat_jsonl`, of a directory that exists. -/
def migrateFlatJsonl (s : MigrationState) : Except PyError ℕ × MigrationState :=
  let done := migrateFiles host now s.files s.table
  (done.1, ⟨done.2.1, done.2.2, s.sorted.sublist (sublist_migrateFiles s.files s.table), nodup_migrateFiles s.files s.keys⟩)

/-! ## What the migration is for -/

/-- The lines of a text, as the opened file gives them one by one, without their newlines. -/
def fileLines (text : List Char) : List (List Char) := (universalNewlines text).splitOn '\n'

/-- The fields of an object fit a row. -/
structure IsRecord (stem : List Char) (items : List (CodeString × JsonValue)) : Prop where
  score : ∃ x, scoreOf host items = .ok x
  id : (idOf host items).IsText
  skill : (skillOf host stem items).IsText
  created : ∀ v, JsonValue.get items "created_at" = some v → (strOf host v).IsText
  exported : ∃ v, bindAny ((JsonValue.get items "exported_at").getD .null) = .ok v

/-- The line is an object with an id, and its fields fit a row. -/
def IsMigratable (stem line : List Char) : Prop :=
  host.tooDeep (stripChars line) = false ∧ ∃ items, JsonReader.loads (stripChars line) = .ok (.obj items) ∧
    idOf host items ≠ [] ∧ IsRecord host stem items ∧ scoreOf host items ≠ .ok .nan

/-- The row has the id and the texts of the example. -/
def Keeps (row : EventsRow) (e : TrainingExample) : Prop :=
  row.id = e.feedbackEventId.text ∧ row.payload = column "prompt" (TrainingExample.str e.prompt) ∧
    row.result = column "completion" (TrainingExample.str e.completion)

/-- The table when the entries `files` and the lines `lines` of the next entry have been read in. -/
def tableAt (table : List EventsRow) (files : List DatasetFile) (stem : List Char) (lines : List (List Char)) :
    List EventsRow :=
  let before := (migrateFiles host now files table).2.2
  match lineRows host now stem (lines.flatMap (splitLines [])) with
  | .ok rows => EventsTable.insertAll rows before
  | .error _ => before

/-- The migration returns; each example in a file that it removes is in the table then, or its id was there when its
turn came; a file with another line is kept; and a second migration changes nothing. -/
structure LosesNothing (s : MigrationState) : Prop where
  returns : ∃ n, (migrateFlatJsonl host now s).1 = .ok n
  stored : ∀ before file after, s.files = before ++ file :: after → file ∉ (migrateFlatJsonl host now s).2.files →
    ∀ text, file.content = .ok text → ∀ (e : TrainingExample) line, e.line host = .ok line →
      ∀ first rest, fileLines text = first ++ line.chars :: rest →
        (∃ row ∈ (migrateFlatJsonl host now s).2.table, Keeps row e) ∨
          ∃ row ∈ tableAt host now s.table before file.stem first, row.id = e.feedbackEventId.text
  kept : ∀ file ∈ s.files, file.isConsidered → ∀ text, file.content = .ok text →
    (∃ line ∈ fileLines text, stripChars line ≠ [] ∧ ¬ IsMigratable host file.stem line) →
      file ∈ (migrateFlatJsonl host now s).2.files
  again : ∀ now', (migrateFlatJsonl host now' (migrateFlatJsonl host now s).2).2 = (migrateFlatJsonl host now s).2

/-! ## When it is that -/

/-- The line is blank, no JSON, or an object, and the object has no id or fits a row. -/
def IsReadable (stem raw : List Char) : Prop :=
  stripChars raw = [] ∨ host.tooDeep (stripChars raw) = false ∧
    ((∃ message, JsonReader.loads (stripChars raw) = .error (.jsonDecodeError message)) ∨
      ∃ items, JsonReader.loads (stripChars raw) = .ok (.obj items) ∧
        (idOf host items = [] ∨ IsRecord host stem items))

/-- The row of a line that has one. -/
def rowOf (stem raw : List Char) : Option EventsRow :=
  match lineEvent host stem raw with
  | .ok (some event) => (eventRow now event).toOption
  | _ => none

/-- The rows of the lines that have one. -/
def recordRows (file : DatasetFile) : List EventsRow :=
  if file.isConsidered then
    match file.content with
    | .ok text => (textLines text).filterMap (rowOf host now file.stem)
    | .error _ => []
  else []

/-- The rows of lines, each as `splitlines` takes it apart. -/
def partRows (stem : List Char) (lines : List (List Char)) : List EventsRow :=
  (lines.flatMap (splitLines [])).filterMap (rowOf host now stem)

/-- The rows that come before a line, of the entries `files` and the lines `lines` of its own one. -/
def rowsBefore (files : List DatasetFile) (stem : List Char) (lines : List (List Char)) : List EventsRow :=
  files.flatMap (recordRows host now) ++ partRows host now stem lines

/-- The rows that come after a line, of the lines `lines` of its entry and the entries `files`. -/
def rowsAfter (stem : List Char) (lines : List (List Char)) (files : List DatasetFile) : List EventsRow :=
  partRows host now stem lines ++ files.flatMap (recordRows host now)

/-- All files can be read line by line; a file that has a record and can be removed has nothing but records; and an
example in it has no line break within, or its id is there before, or is next used for the same texts. -/
structure Harmless (s : MigrationState) : Prop where
  readable : ∀ file ∈ s.files, file.isConsidered → (∃ message, file.content = .error (.osError message)) ∨
    ∃ text, file.content = .ok text ∧ ∀ line ∈ textLines text, IsReadable host file.stem line
  migratable : ∀ file ∈ s.files, file.removable → recordRows host now file ≠ [] → ∀ text, file.content = .ok text →
    ∀ line ∈ fileLines text, stripChars line ≠ [] → IsMigratable host file.stem line
  unbroken : ∀ before file after, s.files = before ++ file :: after → file.removable → recordRows host now file ≠ [] →
    ∀ text, file.content = .ok text → ∀ (e : TrainingExample) line, e.line host = .ok line →
      ∀ first rest, fileLines text = first ++ line.chars :: rest →
        (∀ c ∈ line.chars, isLineBreak c = false) ∨
          (∃ row ∈ s.table ++ EventsTable.storable (rowsBefore host now before file.stem first),
            row.id = e.feedbackEventId.text) ∨
          ∃ row, (EventsTable.storable (rowsAfter host now file.stem rest after)).find?
            (·.id = e.feedbackEventId.text) = some row ∧ Keeps row e

end Migration

end Galaxz
