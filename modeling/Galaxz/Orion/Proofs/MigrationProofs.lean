import Galaxz.Lib.JsonEquality
import Galaxz.Orion.Proofs.ExampleLineProofs

/-!
# What the migration keeps

An entry that can be read is left, or its rows go into the table and it is removed; the rows are those of its lines
one by one. So an example is kept unless `splitlines` takes its line apart, and an entry is only removed unharmed if
all its lines are records.
-/

namespace Galaxz

namespace Migration

variable {host : MigrationHost} {now now' : Datetime} {stem raw : List Char}

/-! ## A line -/

theorem bindText_ok_iff {s : CodeString} {t : String} : bindText s = .ok t ↔ s.IsText ∧ String.ofList s.chars = t := by
  unfold bindText
  by_cases htext : s.IsText
  · rw [if_pos htext]
    exact ⟨fun h => ⟨htext, Except.ok.inj h⟩, fun h => congrArg _ h.2⟩
  · rw [if_neg htext]
    exact ⟨nofun, fun h => absurd h.1 htext⟩

/-- An event with texts for its columns has a row. -/
theorem eventRow_total (event : MigratedEvent) (hid : event.id.IsText) (hskill : event.skillId.IsText)
    (hcreated : ∀ s, event.createdAt = some s → s.IsText) (hexported : ∃ v, bindAny event.exportedAt = .ok v)
    (now : Datetime) : ∃ row, eventRow now event = .ok row ∧ row.id = String.ofList event.id.chars ∧
      row.confidence = event.confidence ∧ row.payload = column "prompt" event.prompt ∧
      row.result = column "completion" event.completion := by
  obtain ⟨exported, hexported⟩ := hexported
  have htime : (event.createdAt.getD (.ofChars now.isoformat.toList)).IsText := by
    cases hget : event.createdAt with
    | none => exact JsonWriter.isText_ofChars _
    | some s => exact hcreated s hget
  unfold eventRow
  simp only [bindText_ok_iff.mpr ⟨hid, rfl⟩, bindText_ok_iff.mpr ⟨hskill, rfl⟩, bindText_ok_iff.mpr ⟨htime, rfl⟩,
    hexported, bind, Except.bind]
  exact ⟨_, rfl, rfl, rfl, rfl, rfl⟩

/-- Only such an event has one. -/
theorem eventRow_ok {event : MigratedEvent} {row : EventsRow} (h : eventRow now event = .ok row) :
    event.id.IsText ∧ event.skillId.IsText ∧ (∀ s, event.createdAt = some s → s.IsText) ∧
      ∃ v, bindAny event.exportedAt = .ok v := by
  obtain ⟨id, hid, h⟩ := except_bind_eq_ok_iff.mp h
  obtain ⟨skill, hskill, h⟩ := except_bind_eq_ok_iff.mp h
  obtain ⟨created, hcreated, h⟩ := except_bind_eq_ok_iff.mp h
  obtain ⟨exported, hexported, -⟩ := except_bind_eq_ok_iff.mp h
  refine ⟨(bindText_ok_iff.mp hid).1, (bindText_ok_iff.mp hskill).1, fun s hs => ?_, exported, hexported⟩
  rw [hs] at hcreated
  exact (bindText_ok_iff.mp hcreated).1

/-- The line is an object with an id, and its fields fit a row. -/
def IsRecordLine (host : MigrationHost) (stem raw : List Char) (items : List (CodeString × JsonValue)) : Prop :=
  host.tooDeep (stripChars raw) = false ∧ JsonReader.loads (stripChars raw) = .ok (.obj items) ∧
    idOf host items ≠ [] ∧ IsRecord host stem items

/-- What a row has of the object on its line. -/
structure RowOf (host : MigrationHost) (items : List (CodeString × JsonValue)) (row : EventsRow) : Prop where
  id : row.id = String.ofList (idOf host items).chars
  score : scoreOf host items = .ok row.confidence
  payload : row.payload = column "prompt" ((JsonValue.get items "prompt").getD (.str []))
  result : row.result = column "completion" ((JsonValue.get items "completion").getD (.str []))

theorem stripChars_ne_nil {v : JsonValue} (h : JsonReader.loads (stripChars raw) = .ok v) : stripChars raw ≠ [] := by
  intro hnil
  rw [hnil] at h
  cases h

theorem lineEvent_object (hdeep : host.tooDeep (stripChars raw) = false) {items : List (CodeString × JsonValue)}
    (hloads : JsonReader.loads (stripChars raw) = .ok (.obj items)) :
    lineEvent host stem raw = objectEvent host stem items := by
  unfold lineEvent
  rw [if_neg (stripChars_ne_nil hloads), if_neg (by simp [hdeep])]
  simp only [hloads]

/-- A record has a row. -/
theorem IsRecordLine.row {items : List (CodeString × JsonValue)} (h : IsRecordLine host stem raw items)
    (now : Datetime) : ∃ event row, lineEvent host stem raw = .ok (some event) ∧ eventRow now event = .ok row ∧
      RowOf host items row := by
  obtain ⟨hdeep, hloads, hid, hrecord⟩ := h
  obtain ⟨score, hscore⟩ := hrecord.score
  have hcreated : ∀ s, (eventOf host stem items score).createdAt = some s → s.IsText := by
    intro s hs
    obtain ⟨v, hv, rfl⟩ := Option.map_eq_some_iff.mp hs
    exact hrecord.created v hv
  obtain ⟨row, hrow, hrowId, hconfidence, hpayload, hresult⟩ :=
    eventRow_total (eventOf host stem items score) hrecord.id hrecord.skill hcreated hrecord.exported now
  refine ⟨eventOf host stem items score, row, ?_, hrow, hrowId, ?_, hpayload, hresult⟩
  · rw [lineEvent_object hdeep hloads, objectEvent, if_neg hid, hscore]
    rfl
  · rw [hscore, hconfidence]
    rfl

/-- A line that can be read is passed over, or it is a record. -/
theorem IsReadable.cases (h : IsReadable host stem raw) :
    lineEvent host stem raw = .ok none ∨ ∃ items, IsRecordLine host stem raw items := by
  rcases h with hblank | ⟨hdeep, ⟨message, hloads⟩ | ⟨items, hloads, hitems⟩⟩
  · left
    unfold lineEvent
    rw [if_pos hblank]
  · left
    unfold lineEvent
    by_cases hblank : stripChars raw = []
    · rw [if_pos hblank]
    · rw [if_neg hblank, if_neg (by simp [hdeep])]
      simp only [hloads]
  · by_cases hid : idOf host items = []
    · left
      rw [lineEvent_object hdeep hloads, objectEvent, if_pos hid]
    · exact Or.inr ⟨items, hdeep, hloads, hid, hitems.resolve_left hid⟩

/-- Other lines cannot be read, or have no row. -/
theorem isReadable_of_event {event : Option MigratedEvent} (h : lineEvent host stem raw = .ok event)
    (hrow : ∀ e, event = some e → ∃ row, eventRow now e = .ok row) : IsReadable host stem raw := by
  by_cases hblank : stripChars raw = []
  · exact Or.inl hblank
  · cases hdeep : host.tooDeep (stripChars raw) with
    | true =>
      unfold lineEvent at h
      rw [if_neg hblank, if_pos hdeep] at h
      cases h
    | false =>
      refine Or.inr ⟨hdeep, ?_⟩
      cases hloads : JsonReader.loads (stripChars raw) with
      | error e =>
        unfold lineEvent at h
        rw [if_neg hblank, if_neg (by simp [hdeep])] at h
        simp only [hloads] at h
        cases e with
        | jsonDecodeError message => exact Or.inl ⟨message, rfl⟩
        | _ => cases h
      | ok v =>
        cases v with
        | obj items =>
          refine Or.inr ⟨items, rfl, ?_⟩
          by_cases hid : idOf host items = []
          · exact Or.inl hid
          · rw [lineEvent_object hdeep hloads, objectEvent, if_neg hid] at h
            obtain ⟨score, hscore, rfl⟩ := JsonReader.map_ok_iff.mp h
            obtain ⟨row, hrow⟩ := hrow _ rfl
            obtain ⟨hidText, hskill, hcreated, hexported⟩ := eventRow_ok hrow
            refine Or.inr ⟨⟨score, hscore⟩, hidText, hskill, fun v hv => hcreated _ ?_, hexported⟩
            show (JsonValue.get items "created_at").map (strOf host) = _
            rw [hv]
            rfl
        | _ =>
          unfold lineEvent at h
          rw [if_neg hblank, if_neg (by simp [hdeep])] at h
          simp only [hloads] at h
          cases h

theorem rowOf_event {event : MigratedEvent} (h : lineEvent host stem raw = .ok (some event)) :
    rowOf host now stem raw = (eventRow now event).toOption := by
  unfold rowOf
  rw [h]

theorem rowOf_none (h : lineEvent host stem raw = .ok none) : rowOf host now stem raw = none := by
  unfold rowOf
  rw [h]

theorem IsRecordLine.rowOf {items : List (CodeString × JsonValue)} (h : IsRecordLine host stem raw items)
    (now : Datetime) : ∃ row, rowOf host now stem raw = some row ∧ RowOf host items row := by
  obtain ⟨event, row, hevent, hrow, hfields⟩ := h.row now
  refine ⟨row, ?_, hfields⟩
  rw [rowOf_event hevent, hrow]
  rfl

/-- Only records have rows. -/
theorem record_of_rowOf {row : EventsRow} (h : rowOf host now stem raw = some row) :
    ∃ items, IsRecordLine host stem raw items ∧ RowOf host items row := by
  cases hevent : lineEvent host stem raw with
  | error e =>
    unfold rowOf at h
    rw [hevent] at h
    cases h
  | ok event =>
    cases event with
    | none =>
      rw [rowOf_none hevent] at h
      cases h
    | some event =>
      have hbound : ∀ e, some event = some e → ∃ row, eventRow now e = .ok row := by
        intro e he
        obtain rfl := Option.some.inj he
        rw [rowOf_event hevent] at h
        cases hrow : eventRow now event with
        | error e =>
          rw [hrow] at h
          cases h
        | ok row => exact ⟨row, rfl⟩
      rcases (isReadable_of_event hevent hbound).cases with hnone | ⟨items, hrecord⟩
      · rw [hnone] at hevent
        cases hevent
      · obtain ⟨row', hrow', hfields⟩ := hrecord.rowOf now
        rw [h] at hrow'
        rw [Option.some.inj hrow']
        exact ⟨items, hrecord, hfields⟩

theorem isMigratable_of_rowOf {row : EventsRow} (h : rowOf host now stem raw = some row)
    (hscore : row.confidence ≠ .nan) : IsMigratable host stem raw := by
  obtain ⟨items, ⟨hdeep, hloads, hid, hrecord⟩, hfields⟩ := record_of_rowOf h
  refine ⟨hdeep, items, hloads, hid, hrecord, ?_⟩
  rw [hfields.score]
  exact fun hnan => hscore (Except.ok.inj hnan)

/-- At another time, a line has a row with the same id and score, or again none. -/
theorem rowOf_later {row : EventsRow} (h : rowOf host now stem raw = some row) (now' : Datetime) :
    ∃ row', rowOf host now' stem raw = some row' ∧ row'.id = row.id ∧ row'.confidence = row.confidence := by
  obtain ⟨items, hrecord, hfields⟩ := record_of_rowOf h
  obtain ⟨row', hrow', hfields'⟩ := hrecord.rowOf now'
  refine ⟨row', hrow', hfields'.id.trans hfields.id.symm, ?_⟩
  exact Except.ok.inj (hfields'.score.symm.trans hfields.score)

/-! ## The lines of an entry -/

theorem lineRows_cons_none {lines : List (List Char)} (h : lineEvent host stem raw = .ok none) :
    lineRows host now stem (raw :: lines) = lineRows host now stem lines := by
  unfold lineRows
  rw [List.mapM_cons, h]
  cases lines.mapM (lineEvent host stem) with
  | error e => rfl
  | ok events => rfl

theorem lineRows_cons_some {lines : List (List Char)} {event : MigratedEvent} {row : EventsRow}
    (h : lineEvent host stem raw = .ok (some event)) (hrow : eventRow now event = .ok row) :
    lineRows host now stem (raw :: lines) = (lineRows host now stem lines).map (row :: ·) := by
  unfold lineRows
  rw [List.mapM_cons, h]
  cases lines.mapM (lineEvent host stem) with
  | error e => rfl
  | ok events =>
    show (event :: events.reduceOption).mapM (eventRow now) = (events.reduceOption.mapM (eventRow now)).map _
    rw [List.mapM_cons, hrow]
    cases events.reduceOption.mapM (eventRow now) with
    | error e => rfl
    | ok rows => rfl

/-- If the lines have rows, the first one can be read. -/
theorem isReadable_of_lineRows {lines : List (List Char)} {rows : List EventsRow}
    (h : lineRows host now stem (raw :: lines) = .ok rows) : IsReadable host stem raw := by
  unfold lineRows at h
  rw [List.mapM_cons] at h
  obtain ⟨events, hevents, hrows⟩ := except_bind_eq_ok_iff.mp h
  obtain ⟨event, hevent, hrest⟩ := except_bind_eq_ok_iff.mp hevents
  obtain ⟨others, -, heq⟩ := except_bind_eq_ok_iff.mp hrest
  obtain rfl := Except.ok.inj heq
  have hbound : ∀ e, event = some e → ∃ row, eventRow now e = .ok row := by
    rintro e rfl
    have hcons : (some e :: others).reduceOption = e :: others.reduceOption := rfl
    rw [hcons, List.mapM_cons] at hrows
    obtain ⟨row, hrow, -⟩ := except_bind_eq_ok_iff.mp hrows
    exact ⟨row, hrow⟩
  exact isReadable_of_event hevent hbound

/-- The lines have rows when all can be read, and these are the rows of the records. -/
theorem lineRows_ok_iff {lines : List (List Char)} {rows : List EventsRow} : lineRows host now stem lines = .ok rows ↔
    (∀ line ∈ lines, IsReadable host stem line) ∧ rows = lines.filterMap (rowOf host now stem) := by
  induction lines generalizing rows with
  | nil =>
    have hnil : lineRows host now stem [] = .ok [] := rfl
    rw [hnil]
    exact ⟨fun h => ⟨by simp, (Except.ok.inj h).symm⟩, fun h => congrArg _ h.2.symm⟩
  | cons raw lines ih =>
    have hcases : ∀ hraw : IsReadable host stem raw, lineRows host now stem (raw :: lines) = .ok rows ↔
        (∀ line ∈ lines, IsReadable host stem line) ∧ rows = (raw :: lines).filterMap (rowOf host now stem) := by
      intro hraw
      rcases hraw.cases with hnone | ⟨items, hrecord⟩
      · rw [lineRows_cons_none hnone, ih, List.filterMap_cons_none (rowOf_none hnone)]
      · obtain ⟨event, row, hevent, hrow, -⟩ := hrecord.row now
        have hsome : rowOf host now stem raw = some row := by
          rw [rowOf_event hevent, hrow]
          rfl
        rw [lineRows_cons_some hevent hrow, JsonReader.map_ok_iff, List.filterMap_cons_some hsome]
        constructor
        · rintro ⟨others, hothers, rfl⟩
          obtain ⟨hlines, rfl⟩ := ih.mp hothers
          exact ⟨hlines, rfl⟩
        · rintro ⟨hlines, rfl⟩
          exact ⟨_, ih.mpr ⟨hlines, rfl⟩, rfl⟩
    constructor
    · intro h
      have hraw := isReadable_of_lineRows h
      obtain ⟨hlines, hrows⟩ := (hcases hraw).mp h
      exact ⟨List.forall_mem_cons.mpr ⟨hraw, hlines⟩, hrows⟩
    · rintro ⟨hall, hrows⟩
      exact (hcases (hall raw List.mem_cons_self)).mpr ⟨fun line hline => hall line (List.mem_cons_of_mem raw hline), hrows⟩

theorem rowOf_nil : rowOf host now stem [] = none := rfl

theorem universalNewlines_no_return (text : List Char) : '\r' ∉ universalNewlines text := by
  induction text using universalNewlines.induct with
  | case1 => exact List.not_mem_nil
  | case2 cs ih =>
    rw [universalNewlines, List.mem_cons, not_or]
    exact ⟨by decide, ih⟩
  | case3 c cs hpairs ih =>
    rw [universalNewlines, List.mem_cons, not_or]
    · refine ⟨?_, ih⟩
      split_ifs with hc
      · decide
      · exact Ne.symm hc
    · exact hpairs

/-- What `splitlines` makes of a text and what it makes of the lines one by one differs in empty lines only. -/
theorem mem_textLines_iff {text p : List Char} (hp : p ≠ []) :
    p ∈ textLines text ↔ ∃ line ∈ fileLines text, p ∈ splitLines [] line := by
  have heq := filter_splitLines_splitOn (universalNewlines_no_return text)
  have hmem : p ∈ (textLines text).filter (· ≠ []) ↔
      p ∈ ((fileLines text).flatMap (splitLines [])).filter (· ≠ []) := by
    unfold textLines fileLines
    rw [heq]
  simpa [hp] using hmem

theorem filterMap_textLines (text : List Char) :
    (textLines text).filterMap (rowOf host now stem) = partRows host now stem (fileLines text) := by
  have hskip : ∀ lines : List (List Char), lines.filterMap (rowOf host now stem) =
      (lines.filter (· ≠ [])).filterMap (rowOf host now stem) := by
    intro lines
    induction lines with
    | nil => rfl
    | cons line lines ih =>
      by_cases hline : line = []
      · subst hline
        rw [List.filterMap_cons_none rowOf_nil, List.filter_cons_of_neg (by simp), ih]
      · rw [List.filter_cons_of_pos (by simpa using hline), List.filterMap_cons, List.filterMap_cons, ih]
  rw [partRows, hskip, hskip ((fileLines text).flatMap (splitLines []))]
  unfold textLines fileLines
  rw [filter_splitLines_splitOn (universalNewlines_no_return text)]

theorem isReadable_nil : IsReadable host stem [] := Or.inl rfl

theorem isReadable_part {text : List Char} (h : ∀ line ∈ textLines text, IsReadable host stem line)
    {line : List Char} (hline : line ∈ fileLines text) : ∀ p ∈ splitLines [] line, IsReadable host stem p := by
  intro p hp
  by_cases hnil : p = []
  · rw [hnil]
    exact isReadable_nil
  · exact h p ((mem_textLines_iff hnil).mpr ⟨line, hline, hp⟩)

/-! ## The entries -/

/-- The entry cannot be opened, or it is read line by line. -/
def IsLegible (host : MigrationHost) (file : DatasetFile) : Prop :=
  (∃ message, file.content = .error (.osError message)) ∨
    ∃ text, file.content = .ok text ∧ ∀ line ∈ textLines text, IsReadable host file.stem line

theorem fileRows_ok_iff {file : DatasetFile} {rows : List EventsRow} : fileRows host now file = .ok rows ↔
    (file.isConsidered → IsLegible host file) ∧ rows = recordRows host now file := by
  unfold fileRows recordRows
  by_cases hconsidered : file.isConsidered = true
  · rw [if_pos hconsidered, if_pos hconsidered]
    simp only [hconsidered, true_implies]
    unfold IsLegible
    cases hcontent : file.content with
    | ok text =>
      dsimp only
      rw [lineRows_ok_iff]
      constructor
      · exact fun h => ⟨Or.inr ⟨text, rfl, h.1⟩, h.2⟩
      · rintro ⟨⟨message, herror⟩ | ⟨text', htext, hlines⟩, hrows⟩
        · cases herror
        · obtain rfl := Except.ok.inj htext
          exact ⟨hlines, hrows⟩
    | error e =>
      constructor
      · intro h
        cases e with
        | osError message => exact ⟨Or.inl ⟨message, rfl⟩, (Except.ok.inj h).symm⟩
        | _ => cases h
      · rintro ⟨⟨message, herror⟩ | ⟨text', htext, -⟩, hrows⟩
        · obtain rfl := Except.error.inj herror
          rw [hrows]
        · cases htext
  · rw [if_neg hconsidered, if_neg hconsidered]
    exact ⟨fun h => ⟨fun hc => absurd hc hconsidered, (Except.ok.inj h).symm⟩, fun h => congrArg _ h.2.symm⟩

/-- The entry is removed: it has a record, and nothing forbids it. -/
def isRemoved (host : MigrationHost) (now : Datetime) (file : DatasetFile) : Bool :=
  file.removable && !(recordRows host now file).isEmpty

theorem isRemoved_iff {file : DatasetFile} :
    isRemoved host now file = true ↔ file.removable = true ∧ recordRows host now file ≠ [] := by
  unfold isRemoved
  rw [Bool.and_eq_true, Bool.not_eq_true', List.isEmpty_eq_false_iff]

/-- What a run does with entries that can be read. -/
theorem migrateFiles_legible (now : Datetime) {files : List DatasetFile} (h : ∀ file ∈ files, file.isConsidered → IsLegible host file)
    (table : List EventsRow) : ∃ n, migrateFiles host now files table =
      (.ok n, files.filter (!isRemoved host now ·), EventsTable.insertAll (files.flatMap (recordRows host now)) table) := by
  induction files generalizing table with
  | nil => exact ⟨0, rfl⟩
  | cons file files ih =>
    have hrest := ih fun other hother => h other (List.mem_cons_of_mem file hother)
    have hrows : fileRows host now file = .ok (recordRows host now file) :=
      fileRows_ok_iff.mpr ⟨h file List.mem_cons_self, rfl⟩
    rw [migrateFiles, hrows, List.flatMap_cons, EventsTable.insertAll_append, List.filter_cons]
    cases hrecords : recordRows host now file with
    | nil =>
      have hkept : isRemoved host now file = false := by
        unfold isRemoved
        rw [hrecords, List.isEmpty_nil, Bool.not_true, Bool.and_false]
      obtain ⟨n, hn⟩ := hrest table
      refine ⟨n, ?_⟩
      rw [hkept]
      simp only [hn]
      rfl
    | cons row rows =>
      have hremoved : isRemoved host now file = file.removable := by
        unfold isRemoved
        rw [hrecords, List.isEmpty_cons, Bool.not_false, Bool.and_true]
      obtain ⟨n, hn⟩ := hrest (EventsTable.insertAll (row :: rows) table)
      refine ⟨(row :: rows).length + n, ?_⟩
      rw [hremoved]
      simp only [hn]
      cases file.removable with
      | true => rfl
      | false => rfl

/-- A run that returns has read all its entries. -/
theorem legible_of_migrateFiles {files : List DatasetFile} {table : List EventsRow} {n : ℕ}
    (h : (migrateFiles host now files table).1 = .ok n) : ∀ file ∈ files, file.isConsidered → IsLegible host file := by
  induction files generalizing table n with
  | nil => exact fun file hfile => by cases hfile
  | cons file files ih =>
    rw [migrateFiles] at h
    cases hrows : fileRows host now file with
    | error e =>
      rw [hrows] at h
      cases h
    | ok rows =>
      have hfile := (fileRows_ok_iff.mp hrows).1
      rw [hrows] at h
      have hrest : ∃ table' n', (migrateFiles host now files table').1 = .ok n' := by
        cases rows with
        | nil => exact ⟨table, n, h⟩
        | cons row rows =>
          obtain ⟨n', hn', -⟩ := JsonReader.map_ok_iff.mp h
          exact ⟨_, n', hn'⟩
      obtain ⟨table', n', hn'⟩ := hrest
      exact List.forall_mem_cons.mpr ⟨hfile, ih hn'⟩

theorem isConsidered_of_rows {file : DatasetFile} (h : recordRows host now file ≠ []) : file.isConsidered = true := by
  by_contra hnot
  rw [recordRows, if_neg hnot] at h
  exact h rfl

theorem recordRows_text {file : DatasetFile} (hconsidered : file.isConsidered = true) {text : List Char}
    (htext : file.content = .ok text) : recordRows host now file = partRows host now file.stem (fileLines text) := by
  rw [recordRows, if_pos hconsidered, htext]
  exact filterMap_textLines text

theorem IsLegible.lines {file : DatasetFile} (h : IsLegible host file) {text : List Char}
    (htext : file.content = .ok text) : ∀ line ∈ textLines text, IsReadable host file.stem line := by
  rcases h with ⟨message, herror⟩ | ⟨text', htext', hlines⟩
  · rw [htext] at herror
    cases herror
  · rw [htext] at htext'
    obtain rfl := Except.ok.inj htext'
    exact hlines

/-! ## Examples -/

theorem partRows_append (lines lines' : List (List Char)) :
    partRows host now stem (lines ++ lines') = partRows host now stem lines ++ partRows host now stem lines' := by
  unfold partRows
  rw [List.flatMap_append, List.filterMap_append]

section Example

variable (hfloat : JsonWriter.ReadsBack fun x => .ok (host.numberText x)) {e : TrainingExample} {line : CodeString}
  (hline : e.line host = .ok line)

include hfloat hline

/-- If the line of an example can be read, it has a row with the texts of the example. -/
theorem rowOf_example (hreadable : IsReadable host stem line.chars) (now : Datetime) :
    ∃ row, rowOf host now stem line.chars = some row ∧ Keeps row e ∧ row.confidence ≠ .nan := by
  have hloads := TrainingExample.loads_line hfloat hline
  rw [← TrainingExample.stripChars_line hfloat hline] at hloads
  obtain ⟨hgetId, hgetPrompt, hgetCompletion, hgetScore⟩ := e.get_items
  have hid : idOf host e.items = CodeString.ofChars e.feedbackEventId.text.toList := by
    rw [idOf, hgetId]
    rfl
  have hne : idOf host e.items ≠ [] := by
    rw [hid]
    intro hnil
    have htext : e.feedbackEventId.text.toList = [] := List.map_eq_nil_iff.mp hnil
    exact Uuid.text_ne_empty _ (String.toList_eq_nil_iff.mp htext)
  have hscore : ∀ x, scoreOf host e.items = .ok x → x ≠ .nan := by
    intro x hx
    rw [scoreOf, hgetScore] at hx
    by_cases hnan : e.qualityScore = .nan
    · rw [if_pos hnan] at hx
      cases hx
    · rw [if_neg hnan] at hx
      cases hx
      exact hnan
  obtain ⟨items, hrecord⟩ : ∃ items, IsRecordLine host stem line.chars items := by
    refine hreadable.cases.resolve_left fun hnone => ?_
    rcases hreadable with hblank | ⟨hdeep, -⟩
    · exact stripChars_ne_nil hloads hblank
    · rw [lineEvent_object hdeep hloads, objectEvent, if_neg hne] at hnone
      obtain ⟨x, -, hx⟩ := JsonReader.map_ok_iff.mp hnone
      cases hx
  obtain rfl : items = e.items := JsonValue.obj.inj (Except.ok.inj (hrecord.2.1.symm.trans hloads))
  obtain ⟨row, hrow, hfields⟩ := hrecord.rowOf now
  refine ⟨row, hrow, ⟨?_, ?_, ?_⟩, hscore _ hfields.score⟩
  · rw [hfields.id, hid, JsonWriter.chars_ofChars, String.ofList_toList]
  · rw [hfields.payload, hgetPrompt]
    rfl
  · rw [hfields.result, hgetCompletion]
    rfl

/-- The rows of the line of an example: one with its texts, or none if the line is taken apart. -/
theorem partRows_example (now : Datetime) {text : List Char} (hmem : line.chars ∈ fileLines text)
    (hreadable : ∀ l ∈ textLines text, IsReadable host stem l) :
    (∀ c ∈ line.chars, isLineBreak c = false) ∧
        (∃ row, EventsTable.storable (partRows host now stem [line.chars]) = [row] ∧ Keeps row e) ∨
      (∃ c ∈ line.chars, isLineBreak c = true) ∧ partRows host now stem [line.chars] = [] := by
  have hparts := isReadable_part hreadable hmem
  have hone : partRows host now stem [line.chars] = (splitLines [] line.chars).filterMap (rowOf host now stem) := by
    unfold partRows
    rw [List.flatMap_cons, List.flatMap_nil, List.append_nil]
  rw [hone]
  by_cases hbreak : ∃ c ∈ line.chars, isLineBreak c = true
  · refine Or.inr ⟨hbreak, List.filterMap_eq_nil_iff.mpr fun p hp => ?_⟩
    cases hrow : rowOf host now stem p with
    | none => rfl
    | some row =>
      obtain ⟨items, ⟨-, hloads, hid, -⟩, -⟩ := record_of_rowOf hrow
      have hreturn : '\r' ∉ line.chars := fun h =>
        universalNewlines_no_return text (mem_of_mem_splitOn hmem h)
      have hnil := TrainingExample.not_loads_part hfloat hline (not_mem_of_mem_splitOn hmem) hreturn hbreak hp hloads
      rw [hnil] at hid
      exact absurd rfl hid
  · have hplain : ∀ c ∈ line.chars, isLineBreak c = false := by
      intro c hc
      by_contra h
      exact hbreak ⟨c, hc, by simpa using h⟩
    have hsplit := splitLines_line hplain (TrainingExample.line_ne_nil hfloat hline)
    rw [hsplit] at hparts ⊢
    obtain ⟨row, hrow, hkeeps, hscore⟩ := rowOf_example hfloat hline (hparts _ List.mem_cons_self) now
    refine Or.inl ⟨hplain, row, ?_, hkeeps⟩
    rw [List.filterMap_cons_some hrow, List.filterMap_nil]
    unfold EventsTable.storable
    rw [List.filter_cons_of_pos (by simpa using hscore), List.filter_nil]

end Example

/-! ## A run -/

/-- The table before the turn of a line. -/
theorem tableAt_eq {files : List DatasetFile} (h : ∀ file ∈ files, file.isConsidered → IsLegible host file)
    {lines : List (List Char)} (hlines : ∀ line ∈ lines, ∀ p ∈ splitLines [] line, IsReadable host stem p)
    (table : List EventsRow) : tableAt host now table files stem lines =
      EventsTable.insertAll (rowsBefore host now files stem lines) table := by
  obtain ⟨n, hrun⟩ := migrateFiles_legible now h table
  have hparts : ∀ p ∈ lines.flatMap (splitLines []), IsReadable host stem p := by
    intro p hp
    obtain ⟨line, hline, hp⟩ := List.mem_flatMap.mp hp
    exact hlines line hline p hp
  have hrows : lineRows host now stem (lines.flatMap (splitLines [])) = .ok (partRows host now stem lines) :=
    lineRows_ok_iff.mpr ⟨hparts, rfl⟩
  rw [rowsBefore, EventsTable.insertAll_append]
  unfold tableAt
  rw [hrun]
  simp only [hrows]

/-- At another time, an entry has rows with the same ids and scores. -/
theorem recordRows_later {file : DatasetFile} {row : EventsRow} (h : row ∈ recordRows host now file) (now' : Datetime) :
    ∃ row' ∈ recordRows host now' file, row'.id = row.id ∧ row'.confidence = row.confidence := by
  unfold recordRows at h ⊢
  split_ifs at h ⊢
  · cases hcontent : file.content with
    | error e =>
      rw [hcontent] at h
      cases h
    | ok text =>
      rw [hcontent] at h
      obtain ⟨line, hline, hrow⟩ := List.mem_filterMap.mp h
      obtain ⟨row', hrow', hfields⟩ := rowOf_later hrow now'
      exact ⟨row', List.mem_filterMap.mpr ⟨line, hline, hrow'⟩, hfields⟩
  · cases h

theorem isRemoved_later {file : DatasetFile} (h : isRemoved host now file = true) (now' : Datetime) :
    isRemoved host now' file = true := by
  obtain ⟨hremovable, hrows⟩ := isRemoved_iff.mp h
  obtain ⟨row, hrow⟩ := List.exists_mem_of_ne_nil _ hrows
  obtain ⟨row', hrow', -⟩ := recordRows_later hrow now'
  exact isRemoved_iff.mpr ⟨hremovable, List.ne_nil_of_mem hrow'⟩

theorem state_eq {s t : MigrationState} (hfiles : s.files = t.files) (htable : s.table = t.table) : s = t := by
  cases s
  cases t
  subst hfiles htable
  rfl

section Run

variable {s : MigrationState} (hs : ∀ file ∈ s.files, file.isConsidered → IsLegible host file)

include hs

theorem migrate_legible (now : Datetime) : (∃ n, (migrateFlatJsonl host now s).1 = .ok n) ∧
    (migrateFlatJsonl host now s).2.files = s.files.filter (!isRemoved host now ·) ∧
      (migrateFlatJsonl host now s).2.table = EventsTable.insertAll (s.files.flatMap (recordRows host now)) s.table := by
  obtain ⟨n, hrun⟩ := migrateFiles_legible now hs s.table
  unfold migrateFlatJsonl
  dsimp only
  rw [hrun]
  exact ⟨⟨n, rfl⟩, rfl, rfl⟩

theorem mem_migrated_iff {file : DatasetFile} (hfile : file ∈ s.files) :
    file ∈ (migrateFlatJsonl host now s).2.files ↔ isRemoved host now file = false := by
  rw [(migrate_legible hs now).2.1, List.mem_filter, Bool.not_eq_true']
  exact and_iff_right hfile

/-- A second migration finds nothing that is new to the table. -/
theorem migrate_again (now' : Datetime) :
    (migrateFlatJsonl host now' (migrateFlatJsonl host now s).2).2 = (migrateFlatJsonl host now s).2 := by
  obtain ⟨-, hfiles, htable⟩ := migrate_legible hs now
  have hsub : ∀ file ∈ (migrateFlatJsonl host now s).2.files, file ∈ s.files ∧ isRemoved host now file = false := by
    intro file hfile
    rw [hfiles, List.mem_filter, Bool.not_eq_true'] at hfile
    exact hfile
  obtain ⟨-, hfiles', htable'⟩ := migrate_legible (fun file hfile => hs file (hsub file hfile).1) now'
  refine state_eq ?_ ?_
  · rw [hfiles', List.filter_eq_self]
    intro file hfile
    rw [Bool.not_eq_true']
    by_contra hremoved
    have hkept := (hsub file hfile).2
    rw [isRemoved_later (by simpa using hremoved) now] at hkept
    cases hkept
  · rw [htable']
    refine EventsTable.insertAll_eq_self fun row hrow => ?_
    obtain ⟨file, hfile, hrow⟩ := List.mem_flatMap.mp hrow
    obtain ⟨row', hrow', hid, hscore⟩ := recordRows_later hrow now
    by_cases hnan : row.confidence = .nan
    · exact Or.inl hnan
    · right
      rw [htable, ← hid]
      refine EventsTable.exists_insertAll.mpr ⟨row', List.mem_append_right _ (List.mem_filter.mpr ⟨?_, ?_⟩), rfl⟩
      · exact List.mem_flatMap.mpr ⟨file, (hsub file hfile).1, hrow'⟩
      · rw [hscore]
        simpa using hnan

/-- Who is first with an id in the new table. -/
theorem find_migrated (now : Datetime) {before after : List DatasetFile} {file : DatasetFile} (hsplit : s.files = before ++ file :: after)
    (hconsidered : file.isConsidered = true) {text : List Char} (htext : file.content = .ok text)
    {line : List Char} {first rest : List (List Char)} (hlines : fileLines text = first ++ line :: rest) (id : String) :
    (migrateFlatJsonl host now s).2.table.find? (·.id = id) =
      (((s.table ++ EventsTable.storable (rowsBefore host now before file.stem first)).find? (·.id = id)).or
        ((EventsTable.storable (partRows host now file.stem [line])).find? (·.id = id))).or
        ((EventsTable.storable (rowsAfter host now file.stem rest after)).find? (·.id = id)) := by
  have hrows : s.files.flatMap (recordRows host now) = rowsBefore host now before file.stem first ++
      (partRows host now file.stem [line] ++ rowsAfter host now file.stem rest after) := by
    unfold rowsBefore rowsAfter
    rw [hsplit, List.flatMap_append, List.flatMap_cons, recordRows_text hconsidered htext, hlines, partRows_append,
      ← List.singleton_append, partRows_append]
    simp only [List.append_assoc]
  rw [(migrate_legible hs now).2.2, EventsTable.find_insertAll, hrows, EventsTable.storable_append,
    EventsTable.storable_append (partRows _ _ _ _), ← List.append_assoc, ← List.append_assoc, List.find?_append,
    List.find?_append]

/-- What becomes of an example, by its line and the lines around. -/
theorem stored_iff (hfloat : JsonWriter.ReadsBack fun x => .ok (host.numberText x)) {before after : List DatasetFile}
    {file : DatasetFile} (hsplit : s.files = before ++ file :: after) (hconsidered : file.isConsidered = true)
    {text : List Char} (htext : file.content = .ok text) {e : TrainingExample} {line : CodeString}
    (hline : e.line host = .ok line) {first rest : List (List Char)} (hlines : fileLines text = first ++ line.chars :: rest) :
    ((∃ row ∈ (migrateFlatJsonl host now s).2.table, Keeps row e) ∨
        ∃ row ∈ tableAt host now s.table before file.stem first, row.id = e.feedbackEventId.text) ↔
      (∀ c ∈ line.chars, isLineBreak c = false) ∨
        (∃ row ∈ s.table ++ EventsTable.storable (rowsBefore host now before file.stem first),
          row.id = e.feedbackEventId.text) ∨
        ∃ row, (EventsTable.storable (rowsAfter host now file.stem rest after)).find?
          (·.id = e.feedbackEventId.text) = some row ∧ Keeps row e := by
  have hreadable := (hs file (by rw [hsplit]; simp) hconsidered).lines htext
  have hfirst : ∀ l ∈ first, ∀ p ∈ splitLines [] l, IsReadable host file.stem p := fun l hl =>
    isReadable_part hreadable (by rw [hlines]; exact List.mem_append_left _ hl)
  have hbefore : ∀ f ∈ before, f.isConsidered → IsLegible host f := fun f hf =>
    hs f (by rw [hsplit]; exact List.mem_append_left _ hf)
  have hmem : line.chars ∈ fileLines text := by
    rw [hlines]
    simp
  have hfind := find_migrated hs now hsplit hconsidered htext hlines e.feedbackEventId.text
  rw [tableAt_eq hbefore hfirst, EventsTable.exists_insertAll]
  by_cases hearlier : ∃ row ∈ s.table ++ EventsTable.storable (rowsBefore host now before file.stem first),
      row.id = e.feedbackEventId.text
  · exact ⟨fun _ => Or.inr (Or.inl hearlier), fun _ => Or.inr hearlier⟩
  · have hnone : (s.table ++ EventsTable.storable (rowsBefore host now before file.stem first)).find?
        (·.id = e.feedbackEventId.text) = none := by
      rw [List.find?_eq_none]
      intro row hrow hid
      exact hearlier ⟨row, hrow, by simpa using hid⟩
    rw [hnone, Option.none_or] at hfind
    rcases partRows_example hfloat hline now hmem hreadable with
      ⟨hplain, row, hrow, hkeeps⟩ | ⟨⟨c, hc, hbreak⟩, hnil⟩
    · -- the line has a row, and it is the first one with the id
      rw [hrow, List.find?_cons_of_pos (by simpa using hkeeps.1), Option.some_or] at hfind
      exact ⟨fun _ => Or.inl hplain, fun _ => Or.inl ⟨row, List.mem_of_find?_eq_some hfind, hkeeps⟩⟩
    · -- the line has no row, so the id is for the lines behind it
      rw [hnil, EventsTable.storable, List.filter_nil, List.find?_nil, Option.none_or] at hfind
      constructor
      · rintro (⟨row, hrow, hkeeps⟩ | hthere)
        · have hfound := EventsTable.find_of_mem (migrateFlatJsonl host now s).2.keys hrow
          rw [hkeeps.1, hfind] at hfound
          exact Or.inr (Or.inr ⟨row, hfound, hkeeps⟩)
        · exact absurd hthere hearlier
      · rintro (hplain | hthere | ⟨row, hrow, hkeeps⟩)
        · rw [hplain c hc] at hbreak
          cases hbreak
        · exact absurd hthere hearlier
        · rw [← hfind] at hrow
          exact Or.inl ⟨row, List.mem_of_find?_eq_some hrow, hkeeps⟩

end Run

/-- The migration of a directory loses nothing exactly if its entries are harmless. -/
theorem losesNothing_iff (host : MigrationHost) (hfloat : JsonWriter.ReadsBack fun x => .ok (host.numberText x))
    (now : Datetime) (s : MigrationState) : LosesNothing host now s ↔ Harmless host now s := by
  constructor
  · intro h
    obtain ⟨n, hn⟩ := h.returns
    have hs : ∀ file ∈ s.files, file.isConsidered → IsLegible host file := legible_of_migrateFiles hn
    have hgone : ∀ file ∈ s.files, file.removable → recordRows host now file ≠ [] →
        file ∉ (migrateFlatJsonl host now s).2.files := by
      intro file hfile hremovable hrows hmem
      rw [mem_migrated_iff hs hfile, isRemoved_iff.mpr ⟨hremovable, hrows⟩] at hmem
      cases hmem
    refine ⟨hs, ?_, ?_⟩
    · intro file hfile hremovable hrows text htext line hline hblank
      by_contra hnot
      exact hgone file hfile hremovable hrows
        (h.kept file hfile (isConsidered_of_rows hrows) text htext ⟨line, hline, hblank, hnot⟩)
    · intro before file after hsplit hremovable hrows text htext e line hline first rest hlines
      have hfile : file ∈ s.files := by
        rw [hsplit]
        simp
      exact (stored_iff hs hfloat hsplit (isConsidered_of_rows hrows) htext hline hlines).mp
        (h.stored before file after hsplit (hgone file hfile hremovable hrows) text htext e line hline first rest hlines)
  · intro h
    have hs : ∀ file ∈ s.files, file.isConsidered → IsLegible host file := h.readable
    have hremoved : ∀ file ∈ s.files, file ∉ (migrateFlatJsonl host now s).2.files →
        file.removable = true ∧ recordRows host now file ≠ [] := by
      intro file hfile hgone
      rw [mem_migrated_iff hs hfile, Bool.not_eq_false] at hgone
      exact isRemoved_iff.mp hgone
    refine ⟨(migrate_legible hs now).1, ?_, ?_, migrate_again hs⟩
    · intro before file after hsplit hgone text htext e line hline first rest hlines
      have hfile : file ∈ s.files := by
        rw [hsplit]
        simp
      obtain ⟨hremovable, hrows⟩ := hremoved file hfile hgone
      exact (stored_iff hs hfloat hsplit (isConsidered_of_rows hrows) htext hline hlines).mpr
        (h.unbroken before file after hsplit hremovable hrows text htext e line hline first rest hlines)
    · rintro file hfile - text htext ⟨line, hline, hblank, hnot⟩
      by_contra hgone
      obtain ⟨hremovable, hrows⟩ := hremoved file hfile hgone
      exact hnot (h.migratable file hfile hremovable hrows text htext line hline hblank)

/-- An interpreter that has stack enough for every line, and reads no text as a number. -/
def plainHost : MigrationHost where
  numberText := PyFloat.reprText
  tooDeep _ := false
  containerText _ := []
  floatOfText _ := none

theorem plainHost_readsBack : JsonWriter.ReadsBack fun x => .ok (plainHost.numberText x) := by
  intro q cs hq hrange hcs
  cases hcs
  exact literal_reprText hq hrange

theorem naive_offset : ∀ o ∈ (none : Option ℤ), -(dayMicros : ℤ) < o ∧ o < dayMicros := by simp

theorem one_inUnit : InUnit (.finite 1) := by unfold InUnit; decide +kernel

theorem threeQuarters_inUnit : InUnit (.finite (3 / 4)) := by unfold InUnit; decide +kernel

def correctedExample : TrainingExample where
  prompt := "Rotate the log.\nTwice, at 6:00."
  completion := "\"rotated\""
  domain := "rigel"
  source := .humanCorrection
  qualityScore := .finite 1
  feedbackEventId := 7
  createdAt := { wall := Datetime.ofMicros 0, offset_lt := naive_offset }
  quality_ok := one_inUnit
  quality_double := by
    intro q hq
    cases hq
    exact ⟨1, 0, by norm_num⟩

def successExample : TrainingExample where
  prompt := "Übersetze «log»."
  completion := "Protokoll \\ 記録"
  domain := "rigel"
  source := .highConfidenceSuccess
  qualityScore := .finite (3 / 4)
  feedbackEventId := 8
  createdAt := { wall := Datetime.ofMicros 0, offset_lt := naive_offset }
  quality_ok := threeQuarters_inUnit
  quality_double := by
    intro q hq
    cases hq
    exact ⟨3, -2, by norm_num⟩

/-- What `append_example` leaves in a new file. -/
def appendedText (host : MigrationHost) (examples : List TrainingExample) : List Char :=
  examples.flatMap fun e =>
    match e.line host with
    | .ok line => line.chars ++ ['\n']
    | .error _ => []

/-- A file with two examples, and a file that has none. -/
def exampleDirectory : MigrationState where
  files := [{ name := "rigel.jsonl", content := .ok (appendedText plainHost [correctedExample, successExample]) },
    { name := "vega.jsonl", content := .ok "to do\n".toList }]
  table := []
  sorted := by decide
  keys := List.nodup_nil

theorem migrate_exampleDirectory : (migrateFlatJsonl plainHost (Datetime.ofMicros 0) exampleDirectory).1.toOption = some 2 ∧
    (migrateFlatJsonl plainHost (Datetime.ofMicros 0) exampleDirectory).2.files.map (·.name) = ["vega.jsonl"] ∧
      (migrateFlatJsonl plainHost (Datetime.ofMicros 0) exampleDirectory).2.table.map (·.id) =
        [correctedExample.feedbackEventId.text, successExample.feedbackEventId.text] := by
  decide +kernel

/-- The lines of the examples have rows, and no line break within. -/
theorem exampleDirectory_lines : ∀ line ∈ fileLines (appendedText plainHost [correctedExample, successExample]),
    (line ≠ [] → (rowOf plainHost (Datetime.ofMicros 0) "rigel".toList line).any fun row => row.confidence ≠ .nan) ∧
      line.any isLineBreak = false := by
  decide +kernel

/-- Only the first file has rows. -/
theorem exampleDirectory_rows {file : DatasetFile} (hfile : file ∈ exampleDirectory.files)
    (hrows : recordRows plainHost (Datetime.ofMicros 0) file ≠ []) {text : List Char} (htext : file.content = .ok text) :
    file.stem = "rigel".toList ∧ text = appendedText plainHost [correctedExample, successExample] := by
  rcases List.mem_cons.mp hfile with rfl | hfile
  · exact ⟨by decide, (Except.ok.inj htext).symm⟩
  · obtain rfl := List.mem_singleton.mp hfile
    have hnone : (recordRows plainHost (Datetime.ofMicros 0)
        { name := "vega.jsonl", content := .ok "to do\n".toList }).length = 0 := by decide +kernel
    exact absurd (List.length_eq_zero_iff.mp hnone) hrows

/-- The file with the examples is removed, and nothing is lost. -/
theorem losesNothing_examples : LosesNothing plainHost (Datetime.ofMicros 0) exampleDirectory ∧
    (migrateFlatJsonl plainHost (Datetime.ofMicros 0) exampleDirectory).2.files.map (·.name) = ["vega.jsonl"] ∧
      (migrateFlatJsonl plainHost (Datetime.ofMicros 0) exampleDirectory).2.table.map (·.id) =
        [correctedExample.feedbackEventId.text, successExample.feedbackEventId.text] := by
  obtain ⟨hreturns, hfiles, htable⟩ := migrate_exampleDirectory
  refine ⟨(losesNothing_iff plainHost plainHost_readsBack _ _).mpr ⟨?_, ?_, ?_⟩, hfiles, htable⟩
  · cases hrun : (migrateFlatJsonl plainHost (Datetime.ofMicros 0) exampleDirectory).1 with
    | ok n => exact legible_of_migrateFiles hrun
    | error e =>
      rw [hrun] at hreturns
      cases hreturns
  · intro file hfile _ hrows text htext line hline hblank
    obtain ⟨hstem, rfl⟩ := exampleDirectory_rows hfile hrows htext
    have hnonempty : line ≠ [] := by
      rintro rfl
      exact hblank rfl
    have hrow := (exampleDirectory_lines line hline).1 hnonempty
    rw [← hstem] at hrow
    obtain ⟨row, hrow, hscore⟩ := (Option.any_eq_true _ _).mp hrow
    exact isMigratable_of_rowOf hrow (of_decide_eq_true hscore)
  · intro before file after hsplit _ hrows text htext e line _ first rest hlines
    have hfile : file ∈ exampleDirectory.files := by
      rw [hsplit]
      exact List.mem_append_right _ List.mem_cons_self
    obtain ⟨-, rfl⟩ := exampleDirectory_rows hfile hrows htext
    have hline : line.chars ∈ fileLines (appendedText plainHost [correctedExample, successExample]) := by
      rw [hlines]
      exact List.mem_append_right _ List.mem_cons_self
    exact Or.inl fun c hc => by simpa using List.any_eq_false.mp (exampleDirectory_lines _ hline).2 c hc

/-- A file with one line, which is a list. -/
def listDirectory : MigrationState where
  files := [{ name := "rigel.jsonl", content := .ok "[]\n".toList }]
  table := []
  sorted := List.pairwise_singleton _ _
  keys := List.nodup_nil

/-- The migration stops at a line that is a list. -/
theorem list_line_not_survived : ¬ LosesNothing plainHost (Datetime.ofMicros 0) listDirectory := by
  intro h
  obtain ⟨n, hn⟩ := h.returns
  have herror : (migrateFlatJsonl plainHost (Datetime.ofMicros 0) listDirectory).1 =
      .error (.attributeError "object has no attribute 'get'") := by rfl
  rw [herror] at hn
  cases hn

end Migration

end Galaxz
