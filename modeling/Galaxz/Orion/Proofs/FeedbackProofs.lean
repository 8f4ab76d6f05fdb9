import Galaxz.Orion.FeedbackLog

/-!
# What the feedback log keeps of an event

Every field but one comes back from the row that `append` writes: the table has no column for
`human_verified`.
-/

namespace Galaxz

/-! ## The text of a `UUID` -/

/-- A character of the text of a `UUID`, but for the dashes. -/
def IsHexChar (c : Char) : Prop := ∃ n < 16, c = hexDigit n

theorem hexValue_hexDigit {n : ℕ} (h : n < 16) : hexValue (hexDigit n) = some n := by
  have hall : ∀ n < 16, hexValue (hexDigit n) = some n := by decide
  exact hall n h

/-- None of the characters that `UUID` or `int` treat in their own way is a digit. -/
theorem IsHexChar.plain {c : Char} (h : IsHexChar c) :
    c ≠ '-' ∧ c ≠ '_' ∧ c ≠ '+' ∧ c ≠ 'x' ∧ c ≠ 'X' ∧ c ≠ 'u' ∧ c ≠ '\x7b' ∧ c ≠ '\x7d' ∧
      isPySpace c = false := by
  obtain ⟨n, hn, rfl⟩ := h
  have hall : ∀ n < 16, hexDigit n ≠ '-' ∧ hexDigit n ≠ '_' ∧ hexDigit n ≠ '+' ∧ hexDigit n ≠ 'x' ∧
      hexDigit n ≠ 'X' ∧ hexDigit n ≠ 'u' ∧ hexDigit n ≠ '\x7b' ∧ hexDigit n ≠ '\x7d' ∧
        isPySpace (hexDigit n) = false := by decide
  exact hall n hn

theorem isHexChar_hexPadded (w n : ℕ) : ∀ c ∈ hexPadded w n, IsHexChar c := by
  intro c hc
  rw [hexPadded_eq] at hc
  obtain ⟨i, -, rfl⟩ := List.mem_map.mp hc
  exact ⟨_, Nat.mod_lt _ (by decide), rfl⟩

/-- The number that hexadecimal digits denote. -/
def hexOf (acc : ℕ) (cs : List Char) : ℕ := cs.foldl (fun n c => n * 16 + (hexValue c).getD 0) acc

theorem hexOf_hexPadded {w n : ℕ} (h : n < 16 ^ w) : hexOf 0 (hexPadded w n) = n := by
  induction w generalizing n with
  | zero =>
    rw [pow_zero] at h
    have hzero : n = 0 := by omega
    rw [hzero]
    rfl
  | succ w ih =>
    rw [pow_succ] at h
    have hrest := ih (show n / 16 < 16 ^ w by omega)
    unfold hexOf at hrest ⊢
    rw [hexPadded, List.foldl_append, hrest, List.foldl_cons, List.foldl_nil,
      hexValue_hexDigit (Nat.mod_lt _ (by decide)), Option.getD_some]
    omega

theorem hexNumber_eq (cs : List Char) (acc : ℕ) (hcs : ∀ c ∈ cs, IsHexChar c) (hne : cs ≠ []) :
    hexNumber acc cs = some (hexOf acc cs) := by
  induction cs generalizing acc with
  | nil => exact absurd rfl hne
  | cons c cs ih =>
    obtain ⟨n, hn, rfl⟩ := hcs c List.mem_cons_self
    cases cs with
    | nil => simp [hexNumber, hexOf, hexValue_hexDigit hn]
    | cons d ds =>
      have hd := (hcs d (by simp)).plain
      have hrest := ih (acc * 16 + n) (fun x hx => hcs x (List.mem_cons_of_mem _ hx))
        (List.cons_ne_nil d ds)
      rw [hexNumber]
      · rw [hexValue_hexDigit hn, Option.bind_some, hrest]
        simp [hexOf, hexValue_hexDigit hn]
      · exact List.cons_ne_nil d ds
      · intro es hsame
        exact hd.2.1 (List.cons.inj hsame).1

theorem removeAll_eq_self (old : Char) (rest : List Char) (fuel : ℕ) (cs : List Char) (h : old ∉ cs) :
    removeAll (old :: rest) fuel cs = cs := by
  induction fuel generalizing cs with
  | zero => rfl
  | succ fuel ih =>
    cases cs with
    | nil => rfl
    | cons c cs =>
      rw [List.mem_cons, not_or] at h
      have hstart : (old :: rest).isPrefixOf (c :: cs) = false := by
        simp [List.isPrefixOf, h.1]
      rw [removeAll, hstart, ih cs h.2]
      rfl

theorem dropWhile_eq_self {p : Char → Bool} {cs : List Char} (h : ∀ c ∈ cs, p c = false) :
    cs.dropWhile p = cs := by
  cases cs with
  | nil => rfl
  | cons c cs => rw [List.dropWhile_cons, h c List.mem_cons_self]; rfl

theorem rdropWhile_eq_self {p : Char → Bool} {cs : List Char} (h : ∀ c ∈ cs, p c = false) :
    cs.rdropWhile p = cs := by
  unfold List.rdropWhile
  rw [dropWhile_eq_self fun c hc => h c (List.mem_reverse.mp hc), List.reverse_reverse]

/-- `int(hex, 16)` of padded digits. -/
theorem hexInt_eq {cs : List Char} (hcs : ∀ c ∈ cs, IsHexChar c) (hne : cs ≠ []) :
    hexInt cs = some (hexOf 0 cs) := by
  have hspace : stripChars cs = cs := by
    unfold stripChars
    rw [dropWhile_eq_self fun c hc => (hcs c hc).plain.2.2.2.2.2.2.2.2,
      rdropWhile_eq_self fun c hc => (hcs c hc).plain.2.2.2.2.2.2.2.2]
  have hmark : dropHexMark cs = cs := by
    unfold dropHexMark
    split
    · next x ds =>
      have hx := (hcs x (by simp)).plain
      rw [if_neg (by simp [hx.2.2.2.1, hx.2.2.2.2.1])]
    · next x ds _ =>
      have hx := (hcs x (by simp)).plain
      rw [if_neg (by simp [hx.2.2.2.1, hx.2.2.2.2.1])]
    · rfl
  unfold hexInt
  rw [hspace]
  split
  · next ds => exact absurd rfl (hcs '+' List.mem_cons_self).plain.2.2.1
  · rw [hmark]
    exact hexNumber_eq cs 0 hcs hne

theorem uuidDigits_text (u : Uuid) : uuidDigits u.text = hexPadded 32 u.toNat := by
  have hchars : ∀ c ∈ u.text.toList, c = '-' ∨ IsHexChar c := by
    intro c hc
    rw [Uuid.text_eq, String.toList_ofList] at hc
    simp only [List.mem_append, List.mem_cons, List.not_mem_nil, or_false] at hc
    rcases hc with h | h | h | h | h | h | h | h | h
    · exact Or.inr (isHexChar_hexPadded _ _ c h)
    · exact Or.inl h
    · exact Or.inr (isHexChar_hexPadded _ _ c h)
    · exact Or.inl h
    · exact Or.inr (isHexChar_hexPadded _ _ c h)
    · exact Or.inl h
    · exact Or.inr (isHexChar_hexPadded _ _ c h)
    · exact Or.inl h
    · exact Or.inr (isHexChar_hexPadded _ _ c h)
  have hplain : ∀ c ∈ u.text.toList, c ≠ 'u' ∧ c ≠ '\x7b' ∧ c ≠ '\x7d' := by
    intro c hc
    rcases hchars c hc with rfl | h
    · decide
    · exact ⟨h.plain.2.2.2.2.2.1, h.plain.2.2.2.2.2.2.1, h.plain.2.2.2.2.2.2.2.1⟩
  have hu : 'u' ∉ u.text.toList := fun hmem => (hplain 'u' hmem).1 rfl
  have hbrace : ∀ c ∈ u.text.toList, (c = '\x7b' || c = '\x7d') = false := by
    intro c hc
    simp [(hplain c hc).2.1, (hplain c hc).2.2]
  unfold uuidDigits
  rw [show "urn:".toList = 'u' :: ['r', 'n', ':'] by decide,
    show "uuid:".toList = 'u' :: ['u', 'i', 'd', ':'] by decide, removeAll_eq_self 'u' _ _ _ hu,
    removeAll_eq_self 'u' _ _ _ hu]
  simp only
  rw [dropWhile_eq_self hbrace, rdropWhile_eq_self hbrace]
  -- without the dashes
  unfold Uuid.text
  rw [String.toList_ofList, hexPadded_eq]
  have hdigit : ∀ i, hexDigit (u.toNat / 16 ^ (31 - i) % 16) ≠ '-' := fun i =>
    (IsHexChar.plain ⟨_, Nat.mod_lt _ (by decide), rfl⟩).1
  simp only [Nat.reduceSub]
  generalize hds : ((List.range 32).map fun i => hexDigit (u.toNat / 16 ^ (31 - i) % 16)) = ds
  have hself : ∀ cs : List Char, cs ⊆ ds → cs.filter (· ≠ '-') = cs := by
    intro cs hcs
    refine List.filter_eq_self.mpr fun c hc => decide_eq_true ?_
    obtain ⟨i, -, rfl⟩ := List.mem_map.mp (hds ▸ hcs hc)
    exact hdigit i
  have hskip : ∀ cs : List Char, ('-' :: cs).filter (· ≠ '-') = cs.filter (· ≠ '-') := by simp
  have hjoin : ∀ k, (ds.drop k).take 4 ++ ds.drop (k + 4) = ds.drop k := by
    intro k
    rw [← List.drop_drop]
    exact List.take_append_drop 4 (ds.drop k)
  rw [List.append_assoc, List.append_assoc, List.append_assoc]
  simp only [List.cons_append, List.filter_append, hskip]
  rw [hself _ (List.take_subset 8 ds), hself _ fun c hc => List.drop_subset 8 ds (List.take_subset 4 _ hc),
    hself _ fun c hc => List.drop_subset 12 ds (List.take_subset 4 _ hc),
    hself _ fun c hc => List.drop_subset 16 ds (List.take_subset 4 _ hc),
    hself _ (List.drop_subset 20 ds), hjoin 16, hjoin 12, hjoin 8, List.take_append_drop]

/-- A `UUID` reads back from its text. -/
theorem Uuid.parse_text (u : Uuid) : Uuid.parse u.text = .ok u := by
  have hchars := isHexChar_hexPadded 32 u.toNat
  have hlength : (hexPadded 32 u.toNat).length = 32 := by
    rw [hexPadded_eq, List.length_map, List.length_range]
  have hne : hexPadded 32 u.toNat ≠ [] := by
    intro hnil
    rw [hnil] at hlength
    cases hlength
  unfold Uuid.parse
  rw [uuidDigits_text, hlength, hexInt_eq hchars hne, hexOf_hexPadded (by have := u.isLt; omega)]
  simp

/-! ## One event -/

theorem OutcomeType.ofText_value (outcome : OutcomeType) :
    OutcomeType.ofText outcome.value = .ok outcome := by
  cases outcome <;> decide

namespace EventLog

/-- A `dict` that was written reads back, and is equal exactly if JSON keeps it. -/
theorem readDict_dumpsText {items : List (PyKey × PyData)} (hwf : PyData.wellFormedItems items = true)
    {v : PyValue} (h : dumpsText items = .ok v) (name : String) :
    ∃ pairs hpairs, v = .dict pairs ∧
      readDict name v = .ok ⟨PyData.ofPairs (PyData.loadsItems pairs), hpairs⟩ ∧
      ((PyData.dict items).pyEq (.dict (PyData.ofPairs (PyData.loadsItems pairs))) = true ↔
        PyData.survivesItems items = true) := by
  unfold dumpsText at h
  cases hv : (PyData.dict items).dumps with
  | none =>
    rw [hv] at h
    cases h
  | some w =>
    rw [hv] at h
    cases h
    have hkeep := PyData.pyEq_loads_iff (.dict items) v hwf hv
    rw [PyData.dumps] at hv
    obtain ⟨pairs, -, rfl⟩ := Option.map_eq_some_iff.mp hv
    rw [PyData.loads, PyData.survives] at hkeep
    exact ⟨pairs, PyData.wellFormedItems_loads pairs, rfl, rfl, hkeep⟩

/-- What was read can be written again. -/
theorem dumpsText_read {items : List (PyKey × PyData)} {pairs : List (String × PyValue)}
    (h : dumpsText items = .ok (.dict pairs)) :
    ∃ v, dumpsText (PyData.ofPairs (PyData.loadsItems pairs)) = .ok v := by
  unfold dumpsText at h
  cases hv : (PyData.dict items).dumps with
  | none =>
    rw [hv] at h
    cases h
  | some w =>
    rw [hv] at h
    cases h
    have hagain := PyData.dumps_loads (.dict pairs) (PyData.serializable_dumps _ _ hv)
    rw [PyData.loads] at hagain
    obtain ⟨v, hv'⟩ := Option.isSome_iff_exists.mp hagain
    exact ⟨v, by unfold dumpsText; rw [hv']⟩

/-- A correction, or none, that was written reads back. -/
theorem readOptionalDict_dumpsOptional {correction : Option (List (PyKey × PyData))}
    (hwf : ∀ c ∈ correction, PyData.wellFormedItems c = true) {v : Option PyValue}
    (h : dumpsOptional correction = .ok v) (name : String) :
    ∃ read, readOptionalDict name v = .ok read ∧
      (dictEq correction (read.map (·.1)) = true ↔ ∀ c ∈ correction, PyData.survivesItems c = true) ∧
      (correction = none ↔ read = none) ∧
      ∀ c ∈ read.map (·.1), ∃ v, dumpsText c = .ok v := by
  cases correction with
  | none =>
    cases h
    exact ⟨none, rfl, by simp [dictEq], by simp, by simp⟩
  | some items =>
    change (dumpsText items).map some = .ok v at h
    cases hw : dumpsText items with
    | error e =>
      rw [hw] at h
      cases h
    | ok w =>
      rw [hw] at h
      cases h
      obtain ⟨pairs, hpairs, rfl, hread, hkeep⟩ := readDict_dumpsText (hwf items rfl) hw name
      have hagain := dumpsText_read hw
      refine ⟨some ⟨_, hpairs⟩, ?_, ?_, by simp, by simpa using hagain⟩
      · change (readDict name (.dict pairs)).map some = _
        rw [hread]
        rfl
      · simpa [dictEq] using hkeep

/-- What the fields of a row read as is the event. -/
theorem rowToEvent_eq {row : FeedbackEventRow} {outcome : OutcomeType}
    {output : {items : List (PyKey × PyData) // PyData.wellFormedItems items = true}}
    {correction : Option {items : List (PyKey × PyData) // PyData.wellFormedItems items = true}}
    {timestamp : PyDatetime} {taskId : Uuid} {latencyMs : ℕ}
    (houtcome : OutcomeType.ofText row.outcome = .ok outcome)
    (houtput : readDict "agent_output" row.agentOutput = .ok output)
    (hcorrection : readOptionalDict "human_correction" row.humanCorrection = .ok correction)
    (htimestamp : PyDatetime.fromisoformat row.timestamp = .ok timestamp)
    (htaskId : Uuid.parse row.taskId = .ok taskId) (hconfidence : InUnit row.confidenceScore)
    (hlatency : row.latencyMs = latencyMs) : ∃ hkeys, rowToEvent row = .ok {
      taskId
      taskCategory := row.taskCategory
      agentId := row.agentId
      outcome
      confidenceScore := row.confidenceScore
      inputHash := row.inputHash
      agentOutput := output.1
      humanCorrection := correction.map (·.1)
      latencyMs
      timestamp
      confidence_ok := hconfidence
      output_keys := output.2
      correction_keys := hkeys } := by
  have hnonneg : ¬ row.latencyMs < 0 := by omega
  have hnat : row.latencyMs.toNat = latencyMs := by omega
  subst hnat
  refine ⟨fun c hc => ?_, ?_⟩
  · obtain ⟨items, -, rfl⟩ := Option.map_eq_some_iff.mp hc
    exact items.2
  · unfold rowToEvent
    rw [houtcome, houtput, hcorrection, htimestamp, htaskId]
    simp only [bind, Except.bind]
    rw [dif_pos hconfidence, if_neg hnonneg]

/-- What a row that was written reads as. -/
theorem rowToEvent_newRow {eventId : Uuid} {event : FeedbackEvent} {row : FeedbackEventRow}
    (h : newRow eventId event = .ok row) : ∃ read, rowToEvent row = .ok read ∧
      read.humanVerified = false ∧ read.outcome = event.outcome ∧
      (event.humanCorrection = none ↔ read.humanCorrection = none) ∧
      (∀ c ∈ read.humanCorrection, ∃ v, dumpsText c = .ok v) ∧
      (event.Equal read ↔ event.Storable) := by
  unfold newRow at h
  obtain ⟨output, houtput, h⟩ := (except_bind_ok_iff _ _ _).mp h
  obtain ⟨correction, hcorrection, h⟩ := (except_bind_ok_iff _ _ _).mp h
  obtain ⟨latency, hlatency, h⟩ := (except_bind_ok_iff _ _ _).mp h
  obtain ⟨hnan, h⟩ := except_guard_ok_iff.mp h
  have hrow := Except.ok.inj h
  obtain ⟨pairs, hpairs, rfl, hread, hkeep⟩ := readDict_dumpsText event.output_keys houtput "agent_output"
  obtain ⟨read, hreadCorrection, hkeepCorrection, hnone, hagain⟩ :=
    readOptionalDict_dumpsOptional event.correction_keys hcorrection "human_correction"
  have hlatencyMs : row.latencyMs = event.latencyMs := by
    rw [← hrow]
    unfold Sqlite.bindInt at hlatency
    split_ifs at hlatency
    exact (Except.ok.inj hlatency).symm
  have houtcome : OutcomeType.ofText row.outcome = .ok event.outcome := by
    rw [← hrow]
    exact OutcomeType.ofText_value event.outcome
  have houtput' : readDict "agent_output" row.agentOutput =
      .ok ⟨PyData.ofPairs (PyData.loadsItems pairs), hpairs⟩ := by
    rw [← hrow]
    exact hread
  have hcorrection' : readOptionalDict "human_correction" row.humanCorrection = .ok read := by
    rw [← hrow]
    exact hreadCorrection
  have htimestamp : PyDatetime.fromisoformat row.timestamp =
      .ok { event.timestamp with foldDependent := false } := by
    rw [← hrow]
    exact PyDatetime.fromisoformat_isoformat event.timestamp
  have htaskId : Uuid.parse row.taskId = .ok event.taskId := by
    rw [← hrow]
    exact Uuid.parse_text event.taskId
  have hconfidence : row.confidenceScore = event.confidenceScore := by rw [← hrow]
  have htexts : row.taskCategory = event.taskCategory ∧ row.agentId = event.agentId ∧
      row.inputHash = event.inputHash := by
    rw [← hrow]
    exact ⟨rfl, rfl, rfl⟩
  have hnumber : PyValue.sameNumber event.confidenceScore row.confidenceScore = true := by
    rw [hconfidence]
    simp [PyValue.sameNumber, hnan]
  have htime : event.timestamp.pyEq { event.timestamp with foldDependent := false } = true ↔
      event.timestamp.offset = none ∨ event.timestamp.foldDependent = false := by
    unfold PyDatetime.pyEq
    cases event.timestamp.offset with
    | none => simp
    | some o => simp
  obtain ⟨hkeys, heq⟩ := rowToEvent_eq houtcome houtput' hcorrection' htimestamp htaskId
    (hconfidence ▸ event.confidence_ok) hlatencyMs
  refine ⟨_, heq, rfl, rfl, ?_, hagain, ?_⟩
  · rw [hnone, Option.map_eq_none_iff]
  · constructor
    · intro hequal
      exact ⟨hequal.humanVerified, hkeep.mp hequal.agentOutput, hkeepCorrection.mp hequal.humanCorrection,
        htime.mp hequal.timestamp⟩
    · rintro ⟨hverified, hout, hcorr, hfold⟩
      exact ⟨rfl, htexts.1.symm, htexts.2.1.symm, rfl, hnumber, htexts.2.2.symm, hkeep.mpr hout,
        hkeepCorrection.mpr hcorr, hverified, rfl, htime.mpr hfold⟩

/-! ## Windows of the log -/

/-- Reading a row does not look at its flag. -/
theorem rowToEvent_quarantined (row : FeedbackEventRow) (b : Bool) :
    rowToEvent { row with quarantined := b } = rowToEvent row := rfl

theorem readWindow_ok {column : FeedbackEventRow → String} {value : String} {micros : ℤ} {now : Datetime}
    {rows : List FeedbackEventRow} {events : List FeedbackEvent}
    (h : readWindow column value micros now rows = .ok events) :
    ∃ cutoff, now.add (-micros) = .ok cutoff ∧
      (selectRows column value cutoff rows).mapM rowToEvent = .ok events :=
  (except_bind_ok_iff _ _ _).mp h

theorem mem_selectRows {column : FeedbackEventRow → String} {value : String} {cutoff : Datetime}
    {rows : List FeedbackEventRow} {row : FeedbackEventRow} :
    row ∈ selectRows column value cutoff rows ↔ row ∈ rows ∧ inWindow column value cutoff row = true := by
  unfold selectRows
  rw [List.mem_insertionSort, List.mem_filter]

/-- A selected row is among the events of a window. -/
theorem mem_readWindow {column : FeedbackEventRow → String} {value : String} {micros : ℤ} {now : Datetime}
    {rows : List FeedbackEventRow} {events : List FeedbackEvent}
    (h : readWindow column value micros now rows = .ok events) {cutoff : Datetime}
    (hcutoff : now.add (-micros) = .ok cutoff) {row : FeedbackEventRow} (hrow : row ∈ rows)
    (hwindow : inWindow column value cutoff row = true) {event : FeedbackEvent}
    (hread : rowToEvent row = .ok event) : event ∈ events := by
  obtain ⟨cutoff', hcutoff', hevents⟩ := readWindow_ok h
  rw [hcutoff] at hcutoff'
  cases hcutoff'
  obtain ⟨event', hevent', hread'⟩ := mapM_ok_of_mem hevents (mem_selectRows.mpr ⟨hrow, hwindow⟩)
  rw [hread] at hread'
  cases hread'
  exact hevent'

/-- An append fails and leaves the table, or it adds the row of the event. -/
theorem append_cases (eventId : Uuid) (event : FeedbackEvent) (rows : List FeedbackEventRow) :
    (∃ e, append eventId event rows = (.error e, rows)) ∨
    ∃ row, newRow eventId event = .ok row ∧ append eventId event rows = (.ok row.id, rows ++ [row]) := by
  unfold append
  cases hrow : newRow eventId event with
  | error e => exact Or.inl ⟨e, rfl⟩
  | ok row =>
    simp only
    split_ifs
    · exact Or.inl ⟨_, rfl⟩
    · exact Or.inr ⟨row, rfl, rfl⟩

end EventLog

namespace FeedbackLog

open EventLog

/-- Every row was written for some event. -/
def Written (rows : List FeedbackEventRow) : Prop :=
  ∀ row ∈ rows, ∃ eventId event, newRow eventId event = .ok { row with quarantined := false }

theorem newRow_unquarantined {eventId : Uuid} {event : FeedbackEvent} {row : FeedbackEventRow}
    (h : newRow eventId event = .ok row) : row.quarantined = false := by
  unfold newRow at h
  obtain ⟨output, -, h⟩ := (except_bind_ok_iff _ _ _).mp h
  obtain ⟨correction, -, h⟩ := (except_bind_ok_iff _ _ _).mp h
  obtain ⟨latency, -, h⟩ := (except_bind_ok_iff _ _ _).mp h
  obtain ⟨-, h⟩ := except_guard_ok_iff.mp h
  rw [← Except.ok.inj h]

/-- Every event that was appended has its row. -/
def Recorded (log : FeedbackLog) : Prop :=
  ∀ p ∈ log.appended, ∃ row ∈ log.rows, row.id = p.1 ∧
    ∃ eventId, newRow eventId p.2 = .ok { row with quarantined := false }

theorem step_append_rows (eventId : Uuid) (event : FeedbackEvent) (log : FeedbackLog) :
    (step (.append eventId event) log).rows = (append eventId event log.rows).2 := by
  unfold step
  rcases append_cases eventId event log.rows with ⟨e, h⟩ | ⟨row, -, h⟩
  · simp only [h]
  · simp only [h]

theorem step_written (action : FeedbackAction) (log : FeedbackLog) (h : Written log.rows) :
    Written (step action log).rows := by
  cases action with
  | append eventId event =>
    rw [step_append_rows]
    rcases append_cases eventId event log.rows with ⟨e, happend⟩ | ⟨row, hrow, happend⟩
    · rw [happend]
      exact h
    · rw [happend]
      intro r hr
      rcases List.mem_append.mp hr with hr | hr
      · exact h r hr
      · rw [List.mem_singleton.mp hr]
        refine ⟨eventId, event, ?_⟩
        rw [hrow, ← newRow_unquarantined hrow]
  | quarantine eventId =>
    intro r hr
    obtain ⟨row, hrow, rfl⟩ := List.mem_map.mp hr
    obtain ⟨id, event, hwritten⟩ := h row hrow
    refine ⟨id, event, ?_⟩
    split_ifs
    · exact hwritten
    · exact hwritten

theorem run_written (actions : List FeedbackAction) : Written (run actions).rows :=
  Machine.run_invariant (I := fun log : FeedbackLog => Written log.rows) step_written actions {}
    fun row hrow => by cases hrow

theorem step_recorded (action : FeedbackAction) (log : FeedbackLog) (h : Recorded log) :
    Recorded (step action log) := by
  cases action with
  | append eventId event =>
    unfold step
    rcases append_cases eventId event log.rows with ⟨e, happend⟩ | ⟨row, hrow, happend⟩
    · simp only [happend]
      exact h
    · simp only [happend]
      intro p hp
      rcases List.mem_append.mp hp with hp | hp
      · obtain ⟨r, hr, hid, hwritten⟩ := h p hp
        exact ⟨r, List.mem_append_left _ hr, hid, hwritten⟩
      · rw [List.mem_singleton.mp hp]
        refine ⟨row, List.mem_append_right _ (List.mem_singleton.mpr rfl), rfl, eventId, ?_⟩
        rw [hrow, ← newRow_unquarantined hrow]
  | quarantine eventId =>
    intro p hp
    obtain ⟨row, hrow, hid, id, hwritten⟩ := h p hp
    refine ⟨_, List.mem_map_of_mem hrow, ?_, id, ?_⟩
    · split_ifs
      · exact hid
      · exact hid
    · split_ifs
      · exact hwritten
      · exact hwritten

theorem run_recorded (actions : List FeedbackAction) : Recorded (run actions) :=
  Machine.run_invariant (I := Recorded) step_recorded actions {} fun p hp => by cases hp

/-- What is read from a row that was written has no verified correction, and every correction in it can
be written again. -/
theorem read_of_written {rows : List FeedbackEventRow} (h : Written rows) {row : FeedbackEventRow}
    (hrow : row ∈ rows) : ∃ read, rowToEvent row = .ok read ∧ read.humanVerified = false ∧
      ∀ c ∈ read.humanCorrection, ∃ v, dumpsText c = .ok v := by
  obtain ⟨eventId, event, hwritten⟩ := h row hrow
  obtain ⟨read, hread, hverified, -, -, hagain, -⟩ := rowToEvent_newRow hwritten
  exact ⟨read, hread, hverified, hagain⟩

/-- The events of a window of the log. -/
theorem window_of_written {rows : List FeedbackEventRow} (h : Written rows)
    {column : FeedbackEventRow → String} {value : String} {micros : ℤ} {now : Datetime}
    {events : List FeedbackEvent} (hevents : readWindow column value micros now rows = .ok events) :
    ∀ event ∈ events, event.humanVerified = false ∧
      ∀ c ∈ event.humanCorrection, ∃ v, dumpsText c = .ok v := by
  intro event hevent
  obtain ⟨cutoff, -, hevents⟩ := readWindow_ok hevents
  obtain ⟨row, hrow, hread⟩ := mem_of_mapM_ok hevents hevent
  obtain ⟨read, hread', hverified, hagain⟩ := read_of_written h (mem_selectRows.mp hrow).1
  rw [hread] at hread'
  cases hread'
  exact ⟨hverified, hagain⟩

/-- Every window of a log can be read, if its start is a datetime. -/
theorem readWindow_of_written {rows : List FeedbackEventRow} (h : Written rows)
    (column : FeedbackEventRow → String) (value : String) {micros : ℤ} {now cutoff : Datetime}
    (hcutoff : now.add (-micros) = .ok cutoff) :
    ∃ events, readWindow column value micros now rows = .ok events := by
  have hread : ∀ row ∈ selectRows column value cutoff rows, ∃ event, rowToEvent row = .ok event := by
    intro row hrow
    obtain ⟨event, hevent, -⟩ := read_of_written h (mem_selectRows.mp hrow).1
    exact ⟨event, hevent⟩
  obtain ⟨events, hevents⟩ := mapM_ok _ hread
  exact ⟨events, (except_bind_ok_iff _ _ _).mpr ⟨cutoff, hcutoff, hevents⟩⟩

end FeedbackLog

end Galaxz
