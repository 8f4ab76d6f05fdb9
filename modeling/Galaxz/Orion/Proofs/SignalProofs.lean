import Galaxz.Orion.Proofs.FeedbackProofs
import Galaxz.Orion.Signals

/-!
# What a summary of the log still shows

A summary keeps one event of each input, so no two of its corrections are for the same input; and what it
has read from the log is never verified.
-/

namespace Galaxz

open EventLog FeedbackLog

namespace SignalExtractor

/-! ## De-duplication -/

theorem keepBest_hashes (best : List FeedbackEvent) (event : FeedbackEvent)
    (h : (best.map (·.inputHash)).Nodup) : ((keepBest best event).map (·.inputHash)).Nodup := by
  unfold keepBest
  split_ifs with hany
  · have hsame : ((best.map fun b =>
        if b.inputHash = event.inputHash ∧ b.confidenceScore.lt event.confidenceScore then event else b).map
          (·.inputHash)) = best.map (·.inputHash) := by
      rw [List.map_map]
      refine List.map_congr_left fun b _ => ?_
      rw [Function.comp_apply]
      split_ifs with hb
      · exact hb.1.symm
      · rfl
    rw [hsame]
    exact h
  · rw [List.map_append, List.map_singleton]
    refine List.nodup_append.mpr ⟨h, List.nodup_singleton _, ?_⟩
    intro x hx y hy
    rw [List.mem_singleton.mp hy]
    obtain ⟨b, hb, rfl⟩ := List.mem_map.mp hx
    exact fun hsame => hany (List.any_eq_true.mpr ⟨b, hb, decide_eq_true hsame⟩)

theorem foldl_keepBest (events best : List FeedbackEvent) (h : (best.map (·.inputHash)).Nodup) :
    ((events.foldl keepBest best).map (·.inputHash)).Nodup := by
  induction events generalizing best with
  | nil => exact h
  | cons event events ih => exact ih _ (keepBest_hashes best event h)

/-- No two kept events are of the same input. -/
theorem deduplicate_hashes (events : List FeedbackEvent) :
    ((deduplicate events).map (·.inputHash)).Nodup :=
  foldl_keepBest events [] List.nodup_nil

theorem mem_keepBest {best : List FeedbackEvent} {event e : FeedbackEvent} (h : e ∈ keepBest best event) :
    e = event ∨ e ∈ best := by
  unfold keepBest at h
  split_ifs at h
  · obtain ⟨b, hb, hsame⟩ := List.mem_map.mp h
    split_ifs at hsame
    · exact Or.inl hsame.symm
    · exact Or.inr (hsame ▸ hb)
  · rcases List.mem_append.mp h with h | h
    · exact Or.inr h
    · exact Or.inl (List.mem_singleton.mp h)

theorem mem_foldl_keepBest {events best : List FeedbackEvent} {e : FeedbackEvent}
    (h : e ∈ events.foldl keepBest best) : e ∈ events ∨ e ∈ best := by
  induction events generalizing best with
  | nil => exact Or.inr h
  | cons event events ih =>
    rcases ih h with h | h
    · exact Or.inl (List.mem_cons_of_mem _ h)
    · rcases mem_keepBest h with rfl | h
      · exact Or.inl List.mem_cons_self
      · exact Or.inr h

theorem mem_of_mem_deduplicate {events : List FeedbackEvent} {e : FeedbackEvent}
    (h : e ∈ deduplicate events) : e ∈ events := by
  rcases mem_foldl_keepBest h with h | h
  · exact h
  · cases h

/-- A correction pair is a corrected event of the window with its correction. -/
theorem mem_correctionPairs {domain : String} {windowStart windowEnd : Datetime}
    {events : List FeedbackEvent} {p : FeedbackEvent × List (PyKey × PyData)}
    (h : p ∈ (summarize domain windowStart windowEnd events).correctionPairs) :
    p.1 ∈ events ∧ p.1.humanCorrection = some p.2 := by
  obtain ⟨e, he, hp⟩ := List.mem_filterMap.mp h
  obtain ⟨c, hc, rfl⟩ := Option.map_eq_some_iff.mp hp
  exact ⟨mem_of_mem_deduplicate (List.mem_of_mem_filter he), hc⟩

theorem correctionPairs_hashes (domain : String) (windowStart windowEnd : Datetime)
    (events : List FeedbackEvent) :
    ((summarize domain windowStart windowEnd events).correctionPairs.map (·.1.inputHash)).Nodup := by
  refine (deduplicate_hashes events).sublist ?_
  show ((((deduplicate events).filter (·.outcome = .corrected)).filterMap fun e =>
    e.humanCorrection.map fun c => (e, c)).map (·.1.inputHash)).Sublist _
  rw [List.map_filterMap]
  generalize deduplicate events = kept
  induction kept with
  | nil => exact List.Sublist.slnil
  | cons e kept ih =>
    rw [List.filter_cons, List.map_cons]
    split_ifs
    · rw [List.filterMap_cons]
      cases e.humanCorrection with
      | none => exact ih.cons _
      | some c => exact ih.cons_cons _
    · exact ih.cons _

end SignalExtractor

namespace HeuristicEngine

/-! ## Conflicting corrections -/

theorem sortedText_ok {correction : List (PyKey × PyData)} (h : ∃ v, dumpsText correction = .ok v) :
    ∃ text, sortedText correction = .ok text := by
  obtain ⟨v, hv⟩ := h
  exact ⟨_, by unfold sortedText; rw [hv]; rfl⟩

/-- Corrections of different inputs do not conflict. -/
theorem conflictsWith_false (pairs : List (FeedbackEvent × List (PyKey × PyData)))
    (seen : List (String × String)) (hwritten : ∀ p ∈ pairs, ∃ v, dumpsText p.2 = .ok v)
    (hnodup : (pairs.map (·.1.inputHash)).Nodup)
    (hnew : ∀ p ∈ pairs, p.1.inputHash ∉ seen.map (·.1)) : conflictsWith seen pairs = .ok false := by
  induction pairs generalizing seen with
  | nil => rfl
  | cons p pairs ih =>
    obtain ⟨event, correction⟩ := p
    rw [List.map_cons, List.nodup_cons] at hnodup
    obtain ⟨text, htext⟩ := sortedText_ok (hwritten _ List.mem_cons_self)
    have hlookup : seen.lookup event.inputHash = none := by
      rw [List.lookup_eq_none_iff]
      intro q hq
      have hne := hnew _ List.mem_cons_self
      exact bne_iff_ne.mpr fun hsame => hne (List.mem_map.mpr ⟨q, hq, hsame.symm⟩)
    unfold conflictsWith
    rw [htext]
    simp only [bind, Except.bind, hlookup, Option.any_none]
    refine ih _ (fun q hq => hwritten q (List.mem_cons_of_mem _ hq)) hnodup.2 fun q hq => ?_
    rw [List.map_cons, List.mem_cons, not_or]
    refine ⟨fun hsame => ?_, hnew q (List.mem_cons_of_mem _ hq)⟩
    exact hnodup.1 (List.mem_map.mpr ⟨q, hq, hsame⟩)

variable {cfg : FineTuneConfig} {host : FineTuneHost}

/-- A domain of no signal is not among those fired. -/
theorem mem_fineTuneStep {signals : List SignalRecord} {domain : String}
    (h : domain ∈ (fineTuneStep cfg host signals).1) : domain ∈ signals.map (·.domain) := by
  induction signals with
  | nil => cases h
  | cons signal signals ih =>
    rw [List.map_cons, List.mem_cons]
    unfold fineTuneStep at h
    cases hconflict : hasConflictingCorrections signal with
    | error e =>
      rw [hconflict] at h
      cases h
    | ok conflict =>
      rw [hconflict] at h
      cases conflict with
      | true => exact Or.inr (ih h)
      | false =>
        cases hfired : checkFineTune cfg host signal with
        | error e =>
          rw [hfired] at h
          cases h
        | ok fired =>
          rw [hfired] at h
          cases fired with
          | true =>
            rcases List.mem_cons.mp h with h | h
            · exact Or.inl h
            · exact Or.inr (ih h)
          | false => exact Or.inr (ih h)

/-- The statistics can be read, a threshold is met, and the trigger can be fired. -/
def Due (cfg : FineTuneConfig) (host : FineTuneHost) (signal : SignalRecord) : Prop :=
  (∃ count, host.humanCorrectionCount signal.domain = .ok count ∧
    (cfg.correctionCount ≤ count ∨ cfg.correctionRate.le signal.correctionRate = true)) ∧
  ∃ path, host.snapshot signal.domain = .ok path ∧ host.emit signal.domain path = .ok ()

theorem checkFineTune_iff (signal : SignalRecord) :
    checkFineTune cfg host signal = .ok true ↔ Due cfg host signal := by
  unfold checkFineTune Due
  constructor
  · intro h
    obtain ⟨count, hcount, h⟩ := (except_bind_ok_iff _ _ _).mp h
    split_ifs at h with hmet
    · obtain ⟨path, hpath, h⟩ := (except_bind_ok_iff _ _ _).mp h
      obtain ⟨_, hemit, -⟩ := (except_bind_ok_iff _ _ _).mp h
      exact ⟨⟨count, hcount, hmet⟩, path, hpath, hemit⟩
    · cases h
  · rintro ⟨⟨count, hcount, hmet⟩, path, hpath, hemit⟩
    rw [hcount]
    simp only [bind, Except.bind, if_pos hmet]
    rw [hpath]
    simp only [hemit]

variable (cfg host) in
/-- A domain whose corrections do not conflict is fired exactly when the loop gets there and it is due. -/
theorem fired_iff {before after : List SignalRecord} {signal : SignalRecord}
    (hconflict : hasConflictingCorrections signal = .ok false)
    (hbefore : signal.domain ∉ before.map (·.domain)) (hafter : signal.domain ∉ after.map (·.domain)) :
    signal.domain ∈ (fineTuneStep cfg host (before ++ signal :: after)).1 ↔
      (fineTuneStep cfg host before).2 = .ok () ∧ Due cfg host signal := by
  have hrest : signal.domain ∉ (fineTuneStep cfg host after).1 := fun h => hafter (mem_fineTuneStep h)
  induction before with
  | nil =>
    rw [← checkFineTune_iff]
    simp only [List.nil_append, fineTuneStep, hconflict, true_and]
    cases checkFineTune cfg host signal with
    | error e => simp
    | ok fired => cases fired <;> simp [hrest]
  | cons first before ih =>
    rw [List.map_cons, List.mem_cons, not_or] at hbefore
    have hnext := ih hbefore.2
    rw [List.cons_append, fineTuneStep, fineTuneStep]
    cases hasConflictingCorrections first with
    | error e => simp
    | ok conflict =>
      cases conflict with
      | true => exact hnext
      | false =>
        cases checkFineTune cfg host first with
        | error e => simp
        | ok fired =>
          cases fired with
          | true =>
            simp only [List.mem_cons, hbefore.1, false_or]
            exact hnext
          | false => exact hnext

end HeuristicEngine

open SignalExtractor HeuristicEngine

/-- The summary of a window of the log, from the events of the window. -/
theorem extract_ok {domain : String} {windowHours : ℤ} {now windowNow : Datetime}
    {rows : List FeedbackEventRow} {signal : SignalRecord}
    (h : extract domain windowHours now windowNow rows = .ok signal) :
    ∃ windowStart events, getWindow domain windowHours windowNow rows = .ok events ∧
      signal = summarize domain windowStart now events := by
  obtain ⟨windowStart, -, h⟩ := (except_bind_ok_iff _ _ _).mp h
  obtain ⟨events, hevents, h⟩ := (except_bind_ok_iff _ _ _).mp h
  exact ⟨windowStart, events, hevents, (Except.ok.inj h).symm⟩

/-- The summary of a window of the log never shows conflicting corrections. -/
theorem hasConflictingCorrections_extract (actions : List FeedbackAction) {domain : String}
    {windowHours : ℤ} {now windowNow : Datetime} {signal : SignalRecord}
    (h : extract domain windowHours now windowNow (FeedbackLog.run actions).rows = .ok signal) :
    hasConflictingCorrections signal = .ok false := by
  obtain ⟨windowStart, events, hevents, rfl⟩ := extract_ok h
  refine conflictsWith_false _ [] (fun p hp => ?_) (correctionPairs_hashes _ _ _ _) (by simp)
  obtain ⟨hmem, hcorrection⟩ := mem_correctionPairs hp
  exact (window_of_written (run_written actions) hevents p.1 hmem).2 p.2 hcorrection

/-- The detector is right about a window of the log exactly when there is nothing to detect, and the
fine-tune step leaves a domain with conflicting corrections exactly when it would leave it anyway. -/
theorem conflicting_detected_iff (actions : List FeedbackAction) (domain : String) (windowHours : ℤ)
    (now windowNow : Datetime) (signal : SignalRecord)
    (h : extract domain windowHours now windowNow (FeedbackLog.run actions).rows = .ok signal) :
    ∃ events, getWindow domain windowHours windowNow (FeedbackLog.run actions).rows = .ok events ∧
      ((hasConflictingCorrections signal = .ok true ↔ Conflicting events) ↔ ¬ Conflicting events) ∧
      ∀ cfg host before after, domain ∉ before.map (·.domain) → domain ∉ after.map (·.domain) →
        ((Conflicting events → domain ∉ (fineTuneStep cfg host (before ++ signal :: after)).1) ↔
          ¬ Conflicting events ∨ (fineTuneStep cfg host before).2 ≠ .ok () ∨ ¬ Due cfg host signal) := by
  have hfalse := hasConflictingCorrections_extract actions h
  obtain ⟨windowStart, events, hevents, rfl⟩ := extract_ok h
  refine ⟨events, hevents, by rw [hfalse]; simp, fun cfg host before after hbefore hafter => ?_⟩
  have hfired : domain ∈ (fineTuneStep cfg host (before ++ _ :: after)).1 ↔ _ :=
    fired_iff cfg host hfalse hbefore hafter
  rw [hfired]
  tauto

/-- A corrected event of one input. -/
def correctedEvent (taskId : Uuid) (answer : Bool) (micros : ℕ) : FeedbackEvent where
  taskId
  taskCategory := "qa.review"
  agentId := "vega"
  outcome := .corrected
  confidenceScore := .finite (1 / 2)
  inputHash := "h"
  agentOutput := []
  humanCorrection := some [(.str "ok", .bool answer)]
  latencyMs := 5
  timestamp :=
    { wall := Datetime.ofMicros micros, offset := some 0, offset_lt := fun o ho => by cases ho; decide }
  confidence_ok := by decide +kernel
  output_keys := rfl
  correction_keys := fun c hc => by cases hc; rfl

/-- Two reviewers correct one input in different ways. -/
def opposedCorrections : List FeedbackAction :=
  [.append 1 (correctedEvent 10 true 63839750400000000),
    .append 2 (correctedEvent 11 false 63839750400000001)]

/-- Two reviewers correct it in the same way. -/
def sameCorrections : List FeedbackAction :=
  [.append 1 (correctedEvent 10 true 63839750400000000),
    .append 2 (correctedEvent 11 true 63839750400000001)]

def opposedNow : Datetime := Datetime.ofMicros 63839754000000000

/-- Nothing is missing for the trigger. -/
def readyHost : FineTuneHost where
  humanCorrectionCount _ := .ok 200
  snapshot _ := .ok "snapshot"
  emit _ _ := .ok ()

/-- The file of the domain cannot be read. -/
def unreadableHost : FineTuneHost :=
  { readyHost with humanCorrectionCount := fun _ => .error (.jsonDecodeError "Expecting value") }

/-- The last day of a log. -/
def lastDay (actions : List FeedbackAction) : Except PyError (List FeedbackEvent) :=
  getWindow "qa.review" 24 opposedNow (FeedbackLog.run actions).rows

def lastDaySignal (actions : List FeedbackAction) : Except PyError SignalRecord :=
  extract "qa.review" 24 opposedNow opposedNow (FeedbackLog.run actions).rows

/-- The detector is right where the corrections are the same, and no trigger is fired for opposed ones while the
statistics of the domain cannot be read. -/
theorem conflicting_detected_examples :
    (∃ signal events, lastDaySignal sameCorrections = .ok signal ∧ lastDay sameCorrections = .ok events ∧
      (hasConflictingCorrections signal = .ok true ↔ Conflicting events)) ∧
    ∃ signal events, lastDaySignal opposedCorrections = .ok signal ∧ lastDay opposedCorrections = .ok events ∧
      Conflicting events ∧ "qa.review" ∉ (fineTuneStep {} unreadableHost [signal]).1 := by
  have hsame : (lastDaySignal sameCorrections).toOption.isSome = true ∧
      ∀ events ∈ (lastDay sameCorrections).toOption, ¬ Conflicting events := by decide +kernel
  have hopposed : (lastDaySignal opposedCorrections).toOption.isSome = true ∧
      ∀ events ∈ (lastDay opposedCorrections).toOption, Conflicting events := by decide +kernel
  constructor
  · cases hsignal : lastDaySignal sameCorrections with
    | error e =>
      rw [hsignal] at hsame
      cases hsame.1
    | ok signal =>
      obtain ⟨events, hevents, hdetected, -⟩ :=
        conflicting_detected_iff sameCorrections "qa.review" 24 opposedNow opposedNow signal hsignal
      have hwindow : lastDay sameCorrections = .ok events := hevents
      have hnot := hsame.2 events (by rw [hwindow]; rfl)
      exact ⟨signal, events, rfl, hwindow, hdetected.mpr hnot⟩
  · cases hsignal : lastDaySignal opposedCorrections with
    | error e =>
      rw [hsignal] at hopposed
      cases hopposed.1
    | ok signal =>
      obtain ⟨events, hevents, -, hfired⟩ :=
        conflicting_detected_iff opposedCorrections "qa.review" 24 opposedNow opposedNow signal hsignal
      have hwindow : lastDay opposedCorrections = .ok events := hevents
      have hconflicting := hopposed.2 events (by rw [hwindow]; rfl)
      have hidle : ¬ Due {} unreadableHost signal := by
        rintro ⟨⟨count, hcount, -⟩, -⟩
        cases hcount
      have hquiet := (hfired {} unreadableHost [] [] List.not_mem_nil List.not_mem_nil).mpr (Or.inr (Or.inr hidle))
      exact ⟨signal, events, rfl, hwindow, hconflicting, hquiet hconflicting⟩

/-- The corrections conflict, none is found to, and the trigger of the domain is fired. -/
theorem opposedCorrections_fire : (∃ events ∈ (lastDay opposedCorrections).toOption, Conflicting events) ∧
    ∃ signal ∈ (lastDaySignal opposedCorrections).toOption, hasConflictingCorrections signal = .ok false ∧
      "qa.review" ∈ (fineTuneStep {} readyHost [signal]).1 := by decide +kernel

/-! ## The trip of an event through the log -/

namespace DatasetCurator

/-- Without a verified event the first loop adds no example. -/
theorem curateCorrections_unverified (now : Datetime) (pairs : List (FeedbackEvent × List (PyKey × PyData)))
    (h : ∀ p ∈ pairs, p.1.humanVerified = false) : curateCorrections now pairs = .ok [] := by
  induction pairs with
  | nil => rfl
  | cons p pairs ih =>
    have hskip : correctionExample now p.1 p.2 = .ok none := by
      unfold correctionExample
      rw [if_pos (h p List.mem_cons_self)]
    have hrest := ih fun q hq => h q (List.mem_cons_of_mem _ hq)
    unfold curateCorrections
    rw [hskip, hrest]
    rfl

end DatasetCurator

open DatasetCurator

/-- No example is made of a correction that has been through the log. -/
theorem curateCorrections_extract (actions : List FeedbackAction) {domain : String} {windowHours : ℤ}
    {now windowNow : Datetime} {signal : SignalRecord}
    (h : extract domain windowHours now windowNow (FeedbackLog.run actions).rows = .ok signal)
    (curateNow : Datetime) : curateCorrections curateNow signal.correctionPairs = .ok [] := by
  obtain ⟨windowStart, events, hevents, rfl⟩ := extract_ok h
  refine curateCorrections_unverified curateNow _ fun p hp => ?_
  exact (window_of_written (run_written actions) hevents p.1 (mem_correctionPairs hp).1).1

/-- A row that was written can be read in every window that selects it, as an event that equals the
appended one exactly when that is storable. -/
theorem read_of_recorded {log : FeedbackLog} (hwritten : Written log.rows) (hrecorded : FeedbackLog.Recorded log)
    {id : String} {event : FeedbackEvent} (h : (id, event) ∈ log.appended) :
    ∃ row ∈ log.rows, row.id = id ∧ ∃ read, rowToEvent row = .ok read ∧
      (∀ column value micros now cutoff, now.add (-micros) = .ok cutoff →
        inWindow column value cutoff row = true →
        ∃ events, readWindow column value micros now log.rows = .ok events ∧ read ∈ events) ∧
      (event.Equal read ↔ event.Storable) := by
  obtain ⟨row, hrow, hid, eventId, hnew⟩ := hrecorded _ h
  obtain ⟨read, hread, -, -, -, -, hequal⟩ := rowToEvent_newRow hnew
  rw [rowToEvent_quarantined] at hread
  refine ⟨row, hrow, hid, read, hread, fun column value micros now cutoff hcutoff hwindow => ?_, hequal⟩
  obtain ⟨events, hevents⟩ := readWindow_of_written hwritten column value hcutoff
  exact ⟨events, hevents, mem_readWindow hevents hcutoff hrow hwindow hread⟩

/-- An appended event is read back as an equal event exactly when it is storable, and the verified
corrections of a window reach the dataset exactly when there are none. -/
theorem appended_roundTrip_iff (actions : List FeedbackAction) :
    (∀ id event, (id, event) ∈ (FeedbackLog.run actions).appended →
      ∃ row ∈ (FeedbackLog.run actions).rows, row.id = id ∧ ∃ read, rowToEvent row = .ok read ∧
        (∀ (hours : ℤ) now cutoff, now.add (-(hours * 3600000000)) = .ok cutoff →
          inWindow (·.taskCategory) event.taskCategory cutoff row = true →
          ∃ events, getWindow event.taskCategory hours now (FeedbackLog.run actions).rows = .ok events ∧
            read ∈ events) ∧
        (∀ (days : ℤ) now cutoff, now.add (-(days * 86400000000)) = .ok cutoff →
          inWindow (·.agentId) event.agentId cutoff row = true →
          ∃ events, getByAgent event.agentId days now (FeedbackLog.run actions).rows = .ok events ∧
            read ∈ events) ∧
        (event.Equal read ↔ event.Storable)) ∧
    ∀ domain (windowHours : ℤ) now windowNow curateNow signal,
      extract domain windowHours now windowNow (FeedbackLog.run actions).rows = .ok signal →
      ∃ cutoff examples, windowNow.add (-(windowHours * 3600000000)) = .ok cutoff ∧
        curateCorrections curateNow signal.correctionPairs = .ok examples ∧
        ((∀ event, VerifiedCorrection (FeedbackLog.run actions) domain cutoff event →
            ∃ x ∈ examples, x.taskId = event.taskId.text) ↔
          ∀ event, ¬ VerifiedCorrection (FeedbackLog.run actions) domain cutoff event) := by
  constructor
  · intro id event h
    obtain ⟨row, hrow, hid, read, hread, hwindow, hequal⟩ :=
      read_of_recorded (run_written actions) (run_recorded actions) h
    refine ⟨row, hrow, hid, read, hread, fun hours now cutoff hcutoff hin => ?_,
      fun days now cutoff hcutoff hin => ?_, hequal⟩
    · exact hwindow _ _ _ now cutoff hcutoff hin
    · exact hwindow _ _ _ now cutoff hcutoff hin
  · intro domain windowHours now windowNow curateNow signal h
    obtain ⟨windowStart, events, hevents, -⟩ := extract_ok h
    obtain ⟨cutoff, hcutoff, -⟩ := readWindow_ok hevents
    refine ⟨cutoff, [], hcutoff, curateCorrections_extract actions h curateNow, ?_⟩
    constructor
    · intro hreach event hevent
      obtain ⟨x, hx, -⟩ := hreach event hevent
      cases hx
    · intro hnone event hevent
      exact absurd hevent (hnone event)

/-- An event without a verified correction comes back as it was. -/
theorem appended_roundTrip_unverified :
    ∃ row ∈ (FeedbackLog.run opposedCorrections).rows, row.id = Uuid.text 1 ∧
      ∃ read, rowToEvent row = .ok read ∧ (correctedEvent 10 true 63839750400000000).Equal read := by
  have happended : (Uuid.text 1, correctedEvent 10 true 63839750400000000) ∈
      (FeedbackLog.run opposedCorrections).appended := List.mem_cons_self
  obtain ⟨row, hrow, hid, read, hread, -, -, hequal⟩ :=
    (appended_roundTrip_iff opposedCorrections).1 _ _ happended
  refine ⟨row, hrow, hid, read, hread, hequal.mpr ⟨rfl, rfl, fun c hc => ?_, Or.inr rfl⟩⟩
  cases hc
  rfl

def verifiedEvent : FeedbackEvent :=
  { correctedEvent 10 true 63839750400000000 with humanVerified := true }

def verifiedLog : FeedbackLog := FeedbackLog.run [.append 1 verifiedEvent]

def verifiedSignal : Except PyError SignalRecord :=
  extract "qa.review" 24 opposedNow opposedNow verifiedLog.rows

/-- The event that is read is not verified, and no example is made of the verified correction. -/
theorem verifiedEvent_lost :
    (∃ row ∈ verifiedLog.rows, ∃ read ∈ (rowToEvent row).toOption, ¬ verifiedEvent.Equal read) ∧
    VerifiedCorrection verifiedLog "qa.review" (Datetime.ofMicros 63839667600000000) verifiedEvent ∧
    ∃ signal ∈ verifiedSignal.toOption,
      (curateCorrections opposedNow signal.correctionPairs).toOption.any (·.isEmpty) = true := by
  have hread : ∃ row ∈ verifiedLog.rows, ∃ read ∈ (rowToEvent row).toOption,
      read.humanVerified = false := by decide +kernel
  have hrow : ∃ row ∈ verifiedLog.rows, row.id = Uuid.text 1 ∧
      inWindow (·.taskCategory) "qa.review" (Datetime.ofMicros 63839667600000000) row = true := by
    decide +kernel
  refine ⟨?_, ?_, by decide +kernel⟩
  · obtain ⟨row, hrow, read, hread, hverified⟩ := hread
    refine ⟨row, hrow, read, hread, fun hequal => ?_⟩
    rw [← hequal.humanVerified] at hverified
    cases hverified
  · obtain ⟨row, hrow, hid, hwindow⟩ := hrow
    refine ⟨row, hrow, ?_, hwindow, rfl, fun h => by cases h⟩
    rw [hid]
    exact List.mem_cons_self

end Galaxz
