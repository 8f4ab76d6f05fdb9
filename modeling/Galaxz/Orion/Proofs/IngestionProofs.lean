import Galaxz.Orion.Ingestion
import Mathlib.Data.List.GetD

/-!
# When ingestion loses nothing

While the handlers store all their messages and the process never stops with a pending message, every stream
is processed from its first message on, each message once: the messages that were handled and those that are
still to be handled are the delivered ones, in order.
-/

namespace Galaxz.IngestionWorker

/-- The messages of the batch whose handler has not ended. -/
def todo (l : StreamLane) : List ℕ := if l.stage = .ack then l.batch.tail else l.batch

/-- The invariant of one stream. -/
structure LaneInv (l : StreamLane) : Prop where
  order : l.handled ++ todo l = List.range l.delivered
  bound : l.delivered ≤ l.entries.length
  acked : ∀ m ∈ l.acked, m ∈ l.handled
  batch : ∀ m ∈ l.batch, m ∈ l.pending.map (·.1)
  unswitched : l.switched = false → l.pending = []
  busy : l.stage ≠ .handler → l.batch ≠ []
  current : l.stage = .ack → ∀ m rest, l.batch = m :: rest → m ∈ l.handled
  inherited : l.inherited = []

/-- The lane has no sentinel that is still to be quarantined. -/
def settled (l : StreamLane) : Prop := ∀ rowId, l.stage ≠ .quarantine rowId

/-- The tables have exactly one event of every message that was handled, and none of the others but for
sentinels that are still to be quarantined. -/
structure IngestInv (host : IngestHost) (s : IngestState) : Prop where
  lanes : ∀ stream, LaneInv (s.lane stream)
  processed : ∀ stream, ∀ m ∈ (s.lane stream).handled, StoredOnce host s stream m ∧
    s.counted.count (stream, m) = countsAs (parsed host s stream m)
  untouched : ∀ stream m, m ∉ (s.lane stream).handled →
    (settled (s.lane stream) ∨ (s.lane stream).batch.head? ≠ some m) → rowsOf s (stream, m) = []
  uncounted : ∀ stream m, m ∉ (s.lane stream).handled → s.counted.count (stream, m) = 0
  sentinels : ∀ stream rowId, (s.lane stream).stage = .quarantine rowId →
    ∀ m rest, (s.lane stream).batch = m :: rest → parsed host s stream m = .quarantine ∧
      (rowsOf s (stream, m)).map (fun r => (r.rowId, r.quarantined)) = [(rowId, false)]
  ids : s.feedback.map (·.rowId) = List.range s.feedback.length
  keys : (s.events.map (·.id)).Nodup

section

variable {host : IngestHost} {s s' : IngestState} {l l' : StreamLane}

/-! ## Facts of a lane -/

theorem LaneInv.lt_of_todo (h : LaneInv l) {m : ℕ} (hm : m ∈ todo l) : m < l.delivered := by
  rw [← List.mem_range, ← h.order]
  exact List.mem_append_right _ hm

theorem LaneInv.lt_of_handled (h : LaneInv l) {m : ℕ} (hm : m ∈ l.handled) : m < l.delivered := by
  rw [← List.mem_range, ← h.order]
  exact List.mem_append_left _ hm

/-- A message that is still to be handled was not handled before. -/
theorem LaneInv.not_handled (h : LaneInv l) {m : ℕ} (hm : m ∈ todo l) : m ∉ l.handled := by
  intro hhandled
  have hnodup : (l.handled ++ todo l).Nodup := by
    rw [h.order]
    exact List.nodup_range
  exact List.disjoint_of_nodup_append hnodup hhandled hm

theorem LaneInv.stage_of_idle (h : LaneInv l) (hbatch : l.batch = []) : l.stage = .handler := by
  by_contra hstage
  exact h.busy hstage hbatch

/-- A listener without messages has none of its handlers under way. -/
theorem LaneInv.settled_of_idle (h : LaneInv l) (hbatch : l.batch = []) : settled l := by
  intro rowId hquarantine
  rw [h.stage_of_idle hbatch] at hquarantine
  cases hquarantine

theorem LaneInv.handled_of_idle (h : LaneInv l) (hbatch : l.batch = []) : l.handled = List.range l.delivered := by
  have horder := h.order
  unfold todo at horder
  rw [h.stage_of_idle hbatch, hbatch] at horder
  simpa using horder

theorem todo_of_handler {m : ℕ} {rest : List ℕ} (hbatch : l.batch = m :: rest) (hstage : l.stage ≠ .ack) :
    todo l = m :: rest := by
  unfold todo
  rw [if_neg hstage, hbatch]

/-- A lane after a step that handles no message. -/
structure LaneFrame (l l' : StreamLane) : Prop where
  handled : l'.handled = l.handled
  entries : ∀ m < l.delivered, l'.entries.getD m [] = l.entries.getD m []
  stage : ∀ rowId, l'.stage = .quarantine rowId → l.stage = .quarantine rowId ∧ l'.batch = l.batch
  settled : settled l' → settled l

theorem LaneFrame.refl (l : StreamLane) : LaneFrame l l := ⟨rfl, fun _ _ => rfl, fun _ h => ⟨h, rfl⟩, id⟩

/-- A step that handles no message and writes no row. -/
theorem IngestInv.frame (h : IngestInv host s) (hfeedback : s'.feedback = s.feedback)
    (hevents : s'.events = s.events) (hcounted : s'.counted = s.counted)
    (hlanes : ∀ stream, LaneInv (s'.lane stream))
    (hframe : ∀ stream, LaneFrame (s.lane stream) (s'.lane stream)) : IngestInv host s' := by
  have hrows : ∀ source, rowsOf s' source = rowsOf s source := by
    intro source
    unfold rowsOf
    rw [hfeedback]
  have hparsed : ∀ stream, ∀ m < (s.lane stream).delivered, parsed host s' stream m = parsed host s stream m := by
    intro stream m hm
    unfold parsed
    rw [(hframe stream).entries m hm]
  constructor
  case lanes => exact hlanes
  case processed =>
    intro stream m hm
    rw [(hframe stream).handled] at hm
    have hlt := (h.lanes stream).lt_of_handled hm
    unfold StoredOnce
    rw [hparsed stream m hlt, hrows, hevents, hcounted]
    exact h.processed stream m hm
  case untouched =>
    intro stream m hm hfree
    rw [(hframe stream).handled] at hm
    rw [hrows]
    refine h.untouched stream m hm ?_
    by_cases hsettled : settled (s'.lane stream)
    · exact .inl ((hframe stream).settled hsettled)
    · rcases hfree with hfree | hfree
      · exact absurd hfree hsettled
      · unfold settled at hsettled
        push Not at hsettled
        obtain ⟨rowId, hstage⟩ := hsettled
        rw [((hframe stream).stage rowId hstage).2] at hfree
        exact .inr hfree
  case uncounted =>
    intro stream m hm
    rw [(hframe stream).handled] at hm
    rw [hcounted]
    exact h.uncounted stream m hm
  case sentinels =>
    intro stream rowId hstage m rest hbatch
    obtain ⟨hold, hsame⟩ := (hframe stream).stage rowId hstage
    rw [hsame] at hbatch
    have hlt : m < (s.lane stream).delivered := by
      refine (h.lanes stream).lt_of_todo ?_
      rw [todo_of_handler hbatch (by rw [hold]; exact ListenerStage.noConfusion)]
      exact List.mem_cons_self
    rw [hparsed stream m hlt, hrows]
    exact h.sentinels stream rowId hold m rest hbatch
  case ids =>
    rw [hfeedback]
    exact h.ids
  case keys =>
    rw [hevents]
    exact h.keys

/-- The same for a step of one lane. -/
theorem IngestInv.setLane (h : IngestInv host s) {stream : FeedbackStream} (hlane : LaneInv l')
    (hframe : LaneFrame (s.lane stream) l') : IngestInv host (IngestionWorker.setLane stream l' s) := by
  have hother : ∀ other, (IngestionWorker.setLane stream l' s).lane other =
      if other = stream then l' else s.lane other := fun other => Function.update_apply s.lane stream l' other
  refine h.frame rfl rfl rfl ?_ ?_
  · intro other
    rw [hother]
    split_ifs
    · exact hlane
    · exact h.lanes other
  · intro other
    rw [hother]
    split_ifs with heq
    · rw [heq]
      exact hframe
    · exact LaneFrame.refl _

/-! ## Steps that handle no message -/

theorem publish_laneInv (h : LaneInv l) (fields : StreamFields) :
    LaneInv { l with entries := l.entries ++ [fields] } := by
  have hbound : l.delivered ≤ (l.entries ++ [fields]).length := by
    rw [List.length_append]
    exact Nat.le_add_right_of_le h.bound
  exact ⟨h.order, hbound, h.acked, h.batch, h.unswitched, h.busy, h.current, h.inherited⟩

theorem publish_laneFrame (h : LaneInv l) (fields : StreamFields) :
    LaneFrame l { l with entries := l.entries ++ [fields] } := by
  refine ⟨rfl, ?_, fun _ hstage => ⟨hstage, rfl⟩, id⟩
  intro m hm
  exact List.getD_append _ _ _ _ (lt_of_lt_of_le hm h.bound)

/-- A read takes the next messages, or switches to them. -/
theorem readLane_spec (h : LaneInv l) (consumer : String) :
    LaneInv (readLane consumer l) ∧ LaneFrame l (readLane consumer l) := by
  unfold readLane
  by_cases hbatch : l.batch ≠ []
  · rw [if_pos hbatch]
    exact ⟨h, LaneFrame.refl l⟩
  rw [if_neg hbatch]
  rw [not_not] at hbatch
  have hsettled := h.settled_of_idle hbatch
  have hdone := h.handled_of_idle hbatch
  split_ifs with hswitched
  · refine ⟨⟨?_, ?_, h.acked, ?_, ?_, ?_, ?_, h.inherited⟩, rfl, fun _ _ => rfl, ?_, fun _ => hsettled⟩
    · show l.handled ++ news l = List.range (l.delivered + (news l).length)
      have happend := List.range'_append_1 (s := 0) (m := l.delivered) (n := min 10 (l.entries.length - l.delivered))
      rw [Nat.zero_add] at happend
      rw [hdone, news, List.length_range', List.range_eq_range', List.range_eq_range', happend]
    · show l.delivered + (news l).length ≤ l.entries.length
      have hbound := h.bound
      rw [news, List.length_range']
      omega
    · intro m hm
      rw [List.map_append, List.mem_append]
      right
      rw [List.map_map]
      exact List.mem_map.2 ⟨m, hm, rfl⟩
    · intro hfalse
      rw [hswitched] at hfalse
      cases hfalse
    · intro hne
      exact absurd rfl hne
    · intro hack
      cases hack
    · intro rowId hquarantine
      cases hquarantine
  · rw [Bool.not_eq_true] at hswitched
    have hpending := h.unswitched hswitched
    have hhistory : history consumer l = [] := by
      unfold history
      rw [hpending]
      rfl
    refine ⟨⟨?_, h.bound, h.acked, ?_, ?_, ?_, ?_, h.inherited⟩, rfl, fun _ _ => rfl, ?_, fun _ => hsettled⟩
    · show l.handled ++ history consumer l = _
      rw [hhistory, List.append_nil, hdone]
    · intro m hm
      rw [hhistory] at hm
      cases hm
    · exact fun _ => hpending
    · intro hne
      exact absurd rfl hne
    · intro hack
      cases hack
    · intro rowId hquarantine
      cases hquarantine

/-- An acknowledgement goes on to the next message, whether it works or not. -/
theorem ackLane_spec (h : LaneInv l) (works : Bool) :
    LaneInv (ackLane works l) ∧ LaneFrame l (ackLane works l) := by
  unfold ackLane
  split
  · next m rest hbatch hstage =>
    have hhandled := h.current hstage m rest hbatch
    have htodo : todo l = rest := by
      unfold todo
      rw [if_pos hstage, hbatch]
      rfl
    have hsettled : settled l := by
      intro rowId hquarantine
      rw [hstage] at hquarantine
      cases hquarantine
    refine ⟨⟨?_, h.bound, ?_, ?_, ?_, ?_, ?_, h.inherited⟩, rfl, fun _ _ => rfl, ?_, fun _ => hsettled⟩
    · show l.handled ++ rest = _
      rw [← htodo]
      exact h.order
    · intro x hx
      cases works with
      | false => exact h.acked x hx
      | true =>
        rcases List.mem_append.1 hx with hx | hx
        · exact h.acked x hx
        · rw [List.mem_singleton.1 hx]
          exact hhandled
    · intro x hx
      have hpending := h.batch x (by rw [hbatch]; exact List.mem_cons_of_mem _ hx)
      cases works with
      | false => exact hpending
      | true =>
        -- the rest of the batch is not handled yet, the acknowledged message is
        have hne : x ≠ m := by
          rintro rfl
          exact h.not_handled (htodo ▸ hx) hhandled
        obtain ⟨e, he, rfl⟩ := List.mem_map.1 hpending
        exact List.mem_map.2 ⟨e, List.mem_filter.2 ⟨he, by simpa using hne⟩, rfl⟩
    · intro hfalse
      have hpending := h.unswitched (Bool.or_eq_false_iff.1 hfalse).1
      show (if works = true then l.pending.filter _ else l.pending) = []
      rw [hpending]
      split_ifs <;> rfl
    · intro hne
      exact absurd rfl hne
    · intro hack
      cases hack
    · intro rowId hquarantine
      cases hquarantine
  · exact ⟨h, LaneFrame.refl l⟩

/-- A process that stops with nothing pending has nothing to do. -/
theorem restartLane_spec (h : LaneInv l) (hpending : l.pending = []) :
    LaneInv (restartLane l) ∧ LaneFrame l (restartLane l) := by
  have hbatch : l.batch = [] := by
    refine List.eq_nil_iff_forall_not_mem.2 ?_
    intro m hm
    have hmem := h.batch m hm
    rw [hpending] at hmem
    cases hmem
  have hsettled := h.settled_of_idle hbatch
  refine ⟨⟨?_, h.bound, h.acked, ?_, fun _ => hpending, ?_, ?_, ?_⟩, rfl, fun _ _ => rfl, ?_, fun _ => hsettled⟩
  · show l.handled ++ [] = List.range l.delivered
    rw [List.append_nil, h.handled_of_idle hbatch]
  · intro m hm
    cases hm
  · intro hne
    exact absurd rfl hne
  · intro hack
    cases hack
  · show l.pending.map (·.1) = []
    rw [hpending]
    rfl
  · intro rowId hquarantine
    cases hquarantine

/-! ## Handlers -/

theorem endHandler_laneInv {m : ℕ} {rest : List ℕ} (h : LaneInv l) (hbatch : l.batch = m :: rest)
    (hstage : l.stage ≠ .ack) : LaneInv (endHandler m l) := by
  refine ⟨?_, h.bound, ?_, h.batch, h.unswitched, ?_, ?_, h.inherited⟩
  · show (l.handled ++ [m]) ++ l.batch.tail = List.range l.delivered
    rw [← h.order, todo_of_handler hbatch hstage, hbatch, List.append_assoc]
    rfl
  · intro x hx
    exact List.mem_append_left _ (h.acked x hx)
  · intro _
    show l.batch ≠ []
    rw [hbatch]
    exact List.cons_ne_nil _ _
  · intro _ x xs hx
    have hhead : m = x := (List.cons.inj (hbatch.symm.trans hx)).1
    rw [← hhead]
    exact List.mem_append_right _ (List.mem_singleton.2 rfl)

/-- The end of a handler that has stored its message, and nothing for any other message. -/
theorem IngestInv.ended {stream : FeedbackStream} {m : ℕ} {rest : List ℕ} {t : IngestState}
    (h : IngestInv host s) (hbatch : (s.lane stream).batch = m :: rest) (hstage : (s.lane stream).stage ≠ .ack)
    (hlane : t.lane = s.lane) (hrows : ∀ source, source ≠ (stream, m) → rowsOf t source = rowsOf s source)
    (hevents : ∀ event, Recorded s.events event → Recorded t.events event)
    (hcounted : ∀ source, source ≠ (stream, m) → t.counted.count source = s.counted.count source)
    (hstored : storedAs (rowsOf t (stream, m)) t.events (parsed host s stream m))
    (hcount : t.counted.count (stream, m) = countsAs (parsed host s stream m))
    (hids : t.feedback.map (·.rowId) = List.range t.feedback.length) (hkeys : (t.events.map (·.id)).Nodup) :
    IngestInv host (IngestionWorker.setLane stream (endHandler m (s.lane stream)) t) := by
  have hother : ∀ other, other ≠ stream →
      (IngestionWorker.setLane stream (endHandler m (s.lane stream)) t).lane other = s.lane other := by
    intro other hne
    rw [← hlane]
    exact Function.update_of_ne hne _ _
  have hself : (IngestionWorker.setLane stream (endHandler m (s.lane stream)) t).lane stream =
      endHandler m (s.lane stream) := Function.update_self _ _ _
  have hparsed : ∀ other x, parsed host (IngestionWorker.setLane stream (endHandler m (s.lane stream)) t) other x =
      parsed host s other x := by
    intro other x
    unfold parsed
    by_cases heq : other = stream
    · rw [heq, hself]
      rfl
    · rw [hother other heq]
  -- what was stored for a message before is stored now
  have hkept : ∀ other x, (other, x) ≠ (stream, m) → StoredOnce host s other x →
      storedAs (rowsOf t (other, x)) t.events (parsed host s other x) := by
    intro other x hne hold
    unfold StoredOnce at hold
    rw [hrows _ hne]
    cases hp : parsed host s other x with
    | ingest event =>
      rw [hp] at hold
      exact hevents event hold
    | _ =>
      rw [hp] at hold
      exact hold
  constructor
  case lanes =>
    intro other
    by_cases heq : other = stream
    · rw [heq, hself]
      exact endHandler_laneInv (h.lanes stream) hbatch hstage
    · rw [hother other heq]
      exact h.lanes other
  case processed =>
    intro other x hx
    unfold StoredOnce
    rw [hparsed]
    by_cases hsame : (other, x) = (stream, m)
    · obtain ⟨rfl, rfl⟩ := Prod.mk.inj hsame
      exact ⟨hstored, hcount⟩
    · have hold : x ∈ (s.lane other).handled := by
        by_cases heq : other = stream
        · rw [heq, hself] at hx
          rw [heq]
          rcases List.mem_append.1 hx with hx | hx
          · exact hx
          · rw [List.mem_singleton.1 hx, heq] at hsame
            exact absurd rfl hsame
        · rwa [hother other heq] at hx
      obtain ⟨honce, hcountOld⟩ := h.processed other x hold
      exact ⟨hkept other x hsame honce, (hcounted _ hsame).trans hcountOld⟩
  case untouched =>
    intro other x hx hfree
    show rowsOf t (other, x) = []
    by_cases heq : other = stream
    · rw [heq, hself] at hx
      have hx : x ∉ (s.lane stream).handled ∧ x ≠ m := by
        have hx : x ∉ (s.lane stream).handled ++ [m] := hx
        rw [List.mem_append, not_or, List.mem_singleton] at hx
        exact hx
      rw [heq, hrows _ (fun hsame => hx.2 (Prod.mk.inj hsame).2)]
      refine h.untouched stream x hx.1 (.inr ?_)
      rw [hbatch, List.head?_cons]
      intro hhead
      exact hx.2 (Option.some.inj hhead).symm
    · rw [hother other heq] at hx hfree
      rw [hrows _ (fun hsame => heq (Prod.mk.inj hsame).1)]
      exact h.untouched other x hx hfree
  case uncounted =>
    intro other x hx
    show t.counted.count (other, x) = 0
    by_cases heq : other = stream
    · rw [heq, hself] at hx
      have hx : x ∉ (s.lane stream).handled ∧ x ≠ m := by
        have hx : x ∉ (s.lane stream).handled ++ [m] := hx
        rw [List.mem_append, not_or, List.mem_singleton] at hx
        exact hx
      rw [heq, hcounted _ (fun hsame => hx.2 (Prod.mk.inj hsame).2)]
      exact h.uncounted stream x hx.1
    · rw [hother other heq] at hx
      rw [hcounted _ (fun hsame => heq (Prod.mk.inj hsame).1)]
      exact h.uncounted other x hx
  case sentinels =>
    intro other rowId hquarantine x xs hx
    by_cases heq : other = stream
    · rw [heq, hself] at hquarantine
      cases hquarantine
    · rw [hother other heq] at hquarantine hx
      rw [hparsed]
      show _ ∧ (rowsOf t (other, x)).map _ = _
      rw [hrows _ (fun hsame => heq (Prod.mk.inj hsame).1)]
      exact h.sentinels other rowId hquarantine x xs hx
  case ids => exact hids
  case keys => exact hkeys

theorem rowsOf_append (event : PyDict) (source other : FeedbackStream × ℕ) (s : IngestState) :
    rowsOf (append event source s) other =
      rowsOf s other ++ if source = other then [({ rowId := s.feedback.length, event, source } : FeedbackRow)] else [] := by
  unfold rowsOf append
  rw [List.filter_append, List.filter_singleton]
  by_cases hsame : source = other
  · simp only [hsame, decide_true, if_true]
    rfl
  · simp only [hsame, decide_false, if_false]
    rfl

theorem append_ids {event : PyDict} {source : FeedbackStream × ℕ}
    (h : s.feedback.map (·.rowId) = List.range s.feedback.length) :
    (append event source s).feedback.map (·.rowId) = List.range (append event source s).feedback.length := by
  unfold append
  rw [List.map_append, h, List.length_append, List.length_singleton, List.range_succ]
  rfl

section

variable {stream : FeedbackStream} {m : ℕ} {rest : List ℕ}

theorem IngestInv.not_handled (h : IngestInv host s) (hbatch : (s.lane stream).batch = m :: rest)
    (hstage : (s.lane stream).stage ≠ .ack) : m ∉ (s.lane stream).handled := by
  refine (h.lanes stream).not_handled ?_
  rw [todo_of_handler hbatch hstage]
  exact List.mem_cons_self

theorem settled_of_handler (hstage : l.stage = .handler) : settled l := by
  intro rowId hquarantine
  rw [hstage] at hquarantine
  cases hquarantine

/-- A valid feedback event is stored. -/
theorem store_inv {event : PyDict} (h : IngestInv host s) (hbatch : (s.lane stream).batch = m :: rest)
    (hstage : (s.lane stream).stage = .handler) (hparsed : parsed host s stream m = .store event) :
    IngestInv host (setLane stream (endHandler m (s.lane stream)) (append event (stream, m) s)) := by
  have hack : (s.lane stream).stage ≠ .ack := by
    rw [hstage]
    exact ListenerStage.noConfusion
  have hnot := h.not_handled hbatch hack
  refine h.ended hbatch hack rfl ?_ (fun _ hone => hone) (fun _ _ => rfl) ?_ ?_ (append_ids h.ids) h.keys
  · intro source hne
    rw [rowsOf_append, if_neg (Ne.symm hne), List.append_nil]
  · rw [hparsed, rowsOf_append, if_pos rfl, h.untouched stream m hnot (.inl (settled_of_handler hstage))]
    rfl
  · rw [hparsed]
    exact h.uncounted stream m hnot

/-- The row of an event records it, whenever it was made. -/
theorem records_eventRow {event : RefineryEvent} {now : Datetime} {row : EventsRow}
    (h : EventsTable.eventRow event.toRefineryFeedbackEvent (!eligible event) now = .ok row) :
    records event row = true := by
  unfold EventsTable.eventRow at h
  obtain ⟨latency, hlatency, h⟩ := except_bind_eq_ok_iff.mp h
  cases h
  unfold records EventsTable.eventRow
  simp only [hlatency, bind, Except.bind, decide_true]

theorem eventRow_fields {event : RefineryFeedbackEvent} {quarantined : Bool} {now : Datetime} {row : EventsRow}
    (h : EventsTable.eventRow event quarantined now = .ok row) :
    row.id = event.taskId.text ∧ row.confidence = event.confidenceScore := by
  obtain ⟨latency, -, h⟩ := except_bind_eq_ok_iff.mp h
  cases h
  exact ⟨rfl, rfl⟩

/-- Whether an event has a row does not depend on the clock. -/
theorem exists_eventRow {event : RefineryFeedbackEvent} {quarantined : Bool}
    (h : (Sqlite.bindInt event.latencyMs).toOption.isSome = true) (now : Datetime) :
    ∃ row, EventsTable.eventRow event quarantined now = .ok row := by
  unfold EventsTable.eventRow
  cases hlatency : Sqlite.bindInt event.latencyMs with
  | error e =>
    rw [hlatency] at h
    cases h
  | ok latency => exact ⟨_, rfl⟩

/-- The latency of an event that has a row fits the column. -/
theorem bindInt_of_records {event : RefineryEvent} {row : EventsRow} (h : records event row = true) :
    (Sqlite.bindInt event.latencyMs).toOption.isSome = true := by
  unfold records EventsTable.eventRow at h
  cases hlatency : Sqlite.bindInt event.latencyMs with
  | error e =>
    rw [hlatency] at h
    cases h
  | ok latency => rfl

/-- A row is the only one with its id. -/
theorem filter_of_find {events : List EventsRow} (hkeys : (events.map (·.id)).Nodup) {row : EventsRow} {id : String}
    (hfind : events.find? (·.id = id) = some row) : events.filter (·.id = id) = [row] := by
  obtain ⟨hrow, hid⟩ := (Table.find?_key EventsRow.id hkeys).mp hfind
  have hcount : (events.map (·.id)).count id = 1 :=
    List.count_eq_one_of_mem hkeys (List.mem_map.mpr ⟨row, hrow, hid⟩)
  rw [List.count, List.countP_map] at hcount
  have hlength : (events.filter (·.id = id)).length = 1 := by
    rw [← List.countP_eq_length_filter]
    exact hcount
  obtain ⟨only, honly⟩ := List.length_eq_one_iff.mp hlength
  have hmem : row ∈ events.filter (·.id = id) := List.mem_filter.mpr ⟨hrow, decide_eq_true hid⟩
  rw [honly] at hmem ⊢
  rw [List.mem_singleton.mp hmem]

/-- An event that can be recorded leaves one row, which is there already or comes to the others. -/
theorem recordable_spec {event : RefineryEvent} {events : List EventsRow} (hkeys : (events.map (·.id)).Nodup)
    (h : recordable events event = true) (now : Datetime) :
    ∃ events', EventsTable.appendEvent event.toRefineryFeedbackEvent (!eligible event) now events =
        (.ok event.taskId.text, events') ∧ Recorded events' event ∧
      (events' = events ∨ ∃ row, row.id ∉ events.map (·.id) ∧ events' = events ++ [row]) := by
  unfold recordable at h
  cases hfind : events.find? (·.id = event.taskId.text) with
  | some found =>
    rw [hfind] at h
    obtain ⟨row, hrow⟩ := exists_eventRow (bindInt_of_records h) now
    have hskip : EventsTable.insertOrIgnore row events = events := by
      have hid : found.id = row.id := by
        rw [(eventRow_fields hrow).1]
        exact ((Table.find?_key EventsRow.id hkeys).mp hfind).2
      exact if_pos (Or.inl (List.any_eq_true.mpr ⟨found, List.mem_of_find?_eq_some hfind, decide_eq_true hid⟩))
    refine ⟨events, ?_, ⟨found, filter_of_find hkeys hfind, h⟩, Or.inl rfl⟩
    unfold EventsTable.appendEvent
    rw [hrow]
    simp only [hskip]
  | none =>
    rw [hfind] at h
    obtain ⟨hlatency, hscore⟩ := Bool.and_eq_true_iff.mp h
    obtain ⟨row, hrow⟩ := exists_eventRow hlatency now
    obtain ⟨hid, hconfidence⟩ := eventRow_fields hrow
    have hnew : row.id ∉ events.map (·.id) := by
      rw [hid]
      intro hmem
      obtain ⟨other, hother, hsame⟩ := List.mem_map.mp hmem
      exact List.find?_eq_none.mp hfind other hother (decide_eq_true hsame)
    have hinsert : EventsTable.insertOrIgnore row events = events ++ [row] := by
      refine if_neg ?_
      rintro (hany | hnan)
      · obtain ⟨other, hother, hsame⟩ := List.any_eq_true.mp hany
        exact hnew (List.mem_map.mpr ⟨other, hother, of_decide_eq_true hsame⟩)
      · rw [hconfidence] at hnan
        exact of_decide_eq_true hscore hnan
    have hnone : events.filter (·.id = event.taskId.text) = [] :=
      List.filter_eq_nil_iff.mpr (List.find?_eq_none.mp hfind)
    refine ⟨events ++ [row], ?_, ⟨row, ?_, records_eventRow hrow⟩, Or.inr ⟨row, hnew, rfl⟩⟩
    · unfold EventsTable.appendEvent
      rw [hrow]
      simp only [hinsert]
    · rw [List.filter_append, hnone, List.nil_append, List.filter_cons_of_pos (by simpa using hid), List.filter_nil]

/-- What was recorded is recorded when another row comes. -/
theorem Recorded.append {event : RefineryEvent} {events : List EventsRow} (h : Recorded events event) {row : EventsRow}
    (hnew : row.id ∉ events.map (·.id)) : Recorded (events ++ [row]) event := by
  obtain ⟨found, hfilter, hrecords⟩ := h
  have hmem : found ∈ events.filter (·.id = event.taskId.text) := by
    rw [hfilter]
    exact List.mem_singleton_self found
  obtain ⟨hfound, hid⟩ := List.mem_filter.mp hmem
  have hne : row.id ≠ event.taskId.text := by
    intro heq
    rw [← of_decide_eq_true hid] at heq
    exact hnew (heq ▸ List.mem_map_of_mem hfound)
  refine ⟨found, ?_, hrecords⟩
  rw [List.filter_append, hfilter, List.filter_cons_of_neg (by simpa using hne), List.filter_nil, List.append_nil]

/-- What `ingest` does with an event that is appended. -/
structure Ingested (event : RefineryEvent) (source : FeedbackStream × ℕ) (events : List EventsRow)
    (s t : IngestState) : Prop where
  lane : t.lane = s.lane
  feedback : t.feedback = s.feedback
  events : t.events = events
  counted : t.counted = if eligible event then s.counted ++ [source] else s.counted

theorem ingest_appended {event : RefineryEvent} {now : Datetime} {id : String} {events : List EventsRow}
    (h : EventsTable.appendEvent event.toRefineryFeedbackEvent (!eligible event) now s.events = (.ok id, events))
    (source : FeedbackStream × ℕ) : Ingested event source events s (ingest event now source s) := by
  unfold ingest
  rw [h]
  dsimp only
  split_ifs with heligible
  · exact ⟨rfl, rfl, rfl, (if_pos heligible).symm⟩
  · exact ⟨rfl, rfl, rfl, (if_neg heligible).symm⟩

/-- A refinery event is stored, and counted if it is eligible. -/
theorem ingest_inv {event : RefineryEvent} {now : Datetime} (h : IngestInv host s)
    (hbatch : (s.lane stream).batch = m :: rest) (hstage : (s.lane stream).stage = .handler)
    (hparsed : parsed host s stream m = .ingest event) (hrecordable : recordable s.events event = true) :
    IngestInv host (setLane stream (endHandler m (s.lane stream)) (ingest event now (stream, m) s)) := by
  have hack : (s.lane stream).stage ≠ .ack := by
    rw [hstage]
    exact ListenerStage.noConfusion
  have hnot := h.not_handled hbatch hack
  obtain ⟨events, happend, hrecorded, hevents⟩ := recordable_spec h.keys hrecordable now
  have hingested := ingest_appended happend (stream, m)
  refine h.ended hbatch hack hingested.lane ?_ ?_ ?_ ?_ ?_ ?_ ?_
  · intro source _
    unfold rowsOf
    rw [hingested.feedback]
  · intro other hother
    rw [hingested.events]
    rcases hevents with rfl | ⟨row, hnew, rfl⟩
    · exact hother
    · exact hother.append hnew
  · intro source hne
    rw [hingested.counted]
    split_ifs
    · rw [List.count_append, List.count_singleton, if_neg (by simpa using Ne.symm hne), Nat.add_zero]
    · rfl
  · rw [hparsed, hingested.events]
    exact hrecorded
  · rw [hparsed, hingested.counted]
    show _ = if eligible event = true then 1 else 0
    split_ifs
    · rw [List.count_append, h.uncounted stream m hnot, List.count_singleton_self]
    · exact h.uncounted stream m hnot
  · rw [hingested.feedback]
    exact h.ids
  · rw [hingested.events]
    rcases hevents with rfl | ⟨row, hnew, rfl⟩
    · exact h.keys
    · exact Table.nodup_append _ h.keys fun other hother heq => hnew (heq ▸ List.mem_map_of_mem hother)

/-- The sentinel of an invalid message is stored, and still to be quarantined. -/
theorem sentinel_inv {event : PyDict} (h : IngestInv host s) (hbatch : (s.lane stream).batch = m :: rest)
    (hstage : (s.lane stream).stage = .handler) (hparsed : parsed host s stream m = .quarantine) :
    IngestInv host (setLane stream { s.lane stream with stage := .quarantine s.feedback.length }
      (append event (stream, m) s)) := by
  have hack : (s.lane stream).stage ≠ .ack := by
    rw [hstage]
    exact ListenerStage.noConfusion
  have hnot := h.not_handled hbatch hack
  have hsettled := settled_of_handler hstage
  generalize hl : { s.lane stream with stage := ListenerStage.quarantine s.feedback.length } = l'
  have hlane : ∀ other, (setLane stream l' (append event (stream, m) s)).lane other =
      if other = stream then l' else s.lane other := fun other => Function.update_apply s.lane stream l' other
  have hhandled : l'.handled = (s.lane stream).handled := by rw [← hl]
  have hbatch' : l'.batch = m :: rest := by
    rw [← hl]
    exact hbatch
  have hsame : ∀ other x, parsed host (setLane stream l' (append event (stream, m) s)) other x =
      parsed host s other x := by
    intro other x
    unfold parsed
    rw [hlane]
    split_ifs with heq
    · rw [heq, ← hl]
    · rfl
  have hrows : ∀ source, source ≠ (stream, m) →
      rowsOf (setLane stream l' (append event (stream, m) s)) source = rowsOf s source := by
    intro source hne
    show rowsOf (append event (stream, m) s) source = _
    rw [rowsOf_append, if_neg (Ne.symm hne), List.append_nil]
  constructor
  case lanes =>
    intro other
    rw [hlane]
    split_ifs with heq
    · have hold := h.lanes stream
      have horder := hold.order
      rw [todo_of_handler hbatch hack] at horder
      rw [← hl]
      refine ⟨?_, hold.bound, hold.acked, hold.batch, hold.unswitched, ?_, ?_, hold.inherited⟩
      · show (s.lane stream).handled ++ (s.lane stream).batch = _
        rw [hbatch]
        exact horder
      · intro _
        show (s.lane stream).batch ≠ []
        rw [hbatch]
        exact List.cons_ne_nil _ _
      · intro hquarantine
        cases hquarantine
    · exact h.lanes other
  case processed =>
    intro other x hx
    have hold : x ∈ (s.lane other).handled := by
      rw [hlane] at hx
      split_ifs at hx with heq
      · rw [heq, ← hhandled]
        exact hx
      · exact hx
    have hne : (other, x) ≠ (stream, m) := by
      intro heq
      obtain ⟨rfl, rfl⟩ := Prod.mk.inj heq
      exact hnot hold
    unfold StoredOnce
    rw [hsame, hrows _ hne]
    exact h.processed other x hold
  case untouched =>
    intro other x hx hfree
    by_cases heq : other = stream
    · rw [hlane, if_pos heq] at hx hfree
      have hne : x ≠ m := by
        rintro rfl
        rcases hfree with hfree | hfree
        · exact hfree s.feedback.length (by rw [← hl])
        · rw [hbatch'] at hfree
          exact hfree rfl
      rw [hrows _ (fun hpair => hne (Prod.mk.inj hpair).2), heq]
      rw [hhandled] at hx
      exact h.untouched stream x hx (.inl hsettled)
    · rw [hlane, if_neg heq] at hx hfree
      rw [hrows _ (fun hpair => heq (Prod.mk.inj hpair).1)]
      exact h.untouched other x hx hfree
  case uncounted =>
    intro other x hx
    show s.counted.count (other, x) = 0
    refine h.uncounted other x ?_
    rw [hlane] at hx
    split_ifs at hx with heq
    · rw [heq, ← hhandled]
      exact hx
    · exact hx
  case sentinels =>
    intro other rowId hquarantine x xs hx
    rw [hsame]
    by_cases heq : other = stream
    · rw [hlane, if_pos heq] at hquarantine hx
      have hrow : rowId = s.feedback.length := by
        rw [← hl] at hquarantine
        exact (ListenerStage.quarantine.inj hquarantine).symm
      obtain ⟨rfl, -⟩ := List.cons.inj (hbatch'.symm.trans hx)
      rw [heq]
      refine ⟨hparsed, ?_⟩
      show (rowsOf (append event (stream, m) s) (stream, m)).map _ = _
      rw [rowsOf_append, if_pos rfl, h.untouched stream m hnot (.inl hsettled), hrow]
      rfl
    · rw [hlane, if_neg heq] at hquarantine hx
      rw [hrows _ (fun hpair => heq (Prod.mk.inj hpair).1)]
      exact h.sentinels other rowId hquarantine x xs hx
  case ids => exact append_ids h.ids
  case keys => exact h.keys

/-- The sentinel is quarantined. -/
theorem quarantine_inv {rowId : ℕ} (h : IngestInv host s) (hbatch : (s.lane stream).batch = m :: rest)
    (hstage : (s.lane stream).stage = .quarantine rowId) :
    IngestInv host (setLane stream (endHandler m (s.lane stream)) (quarantine rowId s)) := by
  have hack : (s.lane stream).stage ≠ .ack := by
    rw [hstage]
    exact ListenerStage.noConfusion
  have hnot := h.not_handled hbatch hack
  obtain ⟨hparsed, hsentinel⟩ := h.sentinels stream rowId hstage m rest hbatch
  obtain ⟨row, hrow, hfields⟩ := List.map_eq_singleton_iff.1 hsentinel
  obtain ⟨hid, -⟩ := Prod.mk.inj hfields
  have hmem : row ∈ s.feedback ∧ row.source = (stream, m) := by
    have hmem : row ∈ rowsOf s (stream, m) := by
      rw [hrow]
      exact List.mem_singleton.2 rfl
    obtain ⟨hmem, hsource⟩ := List.mem_filter.1 hmem
    exact ⟨hmem, of_decide_eq_true hsource⟩
  have hnodup : (s.feedback.map (·.rowId)).Nodup := by
    rw [h.ids]
    exact List.nodup_range
  have hfilter : ∀ source, rowsOf (quarantine rowId s) source =
      Table.updateWhere (·.rowId = rowId) (fun r => { r with quarantined := true }) (rowsOf s source) := by
    intro source
    unfold rowsOf quarantine
    rw [Table.filter_updateWhere]
    intro r
    rfl
  refine h.ended hbatch hack rfl ?_ (fun _ hone => hone) (fun _ _ => rfl) ?_ ?_ ?_ h.keys
  · -- the row with the id is the sentinel, so no row of another message changes
    intro source hne
    rw [hfilter]
    refine Table.updateWhere_eq_self ?_
    intro r hr
    obtain ⟨hr, hsource⟩ := List.mem_filter.1 hr
    refine decide_eq_false ?_
    intro hrid
    have hsame : r = row := List.inj_on_of_nodup_map hnodup hr hmem.1 (hrid.trans hid.symm)
    rw [hsame] at hsource
    exact hne ((of_decide_eq_true hsource).symm.trans hmem.2)
  · rw [hparsed, hfilter, hrow, Table.updateWhere_singleton, if_pos (decide_eq_true hid)]
    rfl
  · rw [hparsed]
    exact h.uncounted stream m hnot
  · have hsame : (quarantine rowId s).feedback.map (·.rowId) = s.feedback.map (·.rowId) := by
      unfold quarantine
      rw [Table.map_updateWhere]
      intro r
      rfl
    have hlength : (quarantine rowId s).feedback.length = s.feedback.length := List.length_map _
    rw [hsame, hlength]
    exact h.ids

/-! ## Runs -/

theorem handle_inv (h : IngestInv host s)
    (hstorable : (s.lane stream).stage = .handler →
      ∀ m ∈ (s.lane stream).batch.head?.toList, storable s (parsed host s stream m) = true) (now : Datetime) :
    IngestInv host (handle host stream true now s) := by
  unfold handle
  split
  · next m rest hbatch hstage =>
    have hstored : storable s (parsed host s stream m) = true := by
      refine hstorable hstage m ?_
      rw [hbatch]
      exact List.mem_singleton.2 rfl
    have hparse : parse host stream ((s.lane stream).entries.getD m []) = parsed host s stream m := rfl
    simp only [handleMessage, hparse]
    cases hparsed : parsed host s stream m with
    | store event => exact store_inv h hbatch hstage hparsed
    | quarantine => exact sentinel_inv h hbatch hstage hparsed
    | ingest event =>
      rw [hparsed] at hstored
      obtain ⟨hadmits, hrecordable⟩ := Bool.and_eq_true_iff.mp hstored
      simp only [hadmits, Bool.and_true, if_true]
      exact ingest_inv h hbatch hstage hparsed hrecordable
    | drop =>
      rw [hparsed] at hstored
      cases hstored
  · next m rest rowId hbatch hstage => exact quarantine_inv h hbatch hstage
  · exact h

theorem step_inv (action : IngestAction) (s : IngestState) (h : IngestInv host s)
    (hattended : Attended host action s) : IngestInv host (step host action s) := by
  cases action with
  | publish stream fields =>
    exact h.setLane (publish_laneInv (h.lanes stream) fields) (publish_laneFrame (h.lanes stream) fields)
  | setRegistry registry => exact h.frame rfl rfl rfl h.lanes fun stream => LaneFrame.refl _
  | read stream works =>
    cases works with
    | false => exact h
    | true =>
      obtain ⟨hlane, hframe⟩ := readLane_spec (h.lanes stream) s.consumer
      exact h.setLane hlane hframe
  | handle stream works now =>
    obtain ⟨rfl, hstorable⟩ := hattended
    exact handle_inv h hstorable now
  | acknowledge stream works =>
    obtain ⟨hlane, hframe⟩ := ackLane_spec (h.lanes stream) works
    exact h.setLane hlane hframe
  | restart consumer =>
    have hpending : ∀ stream, (s.lane stream).pending = [] := by
      intro stream
      exact hattended stream (by cases stream <;> simp)
    refine h.frame rfl rfl rfl ?_ ?_
    · exact fun stream => (restartLane_spec (h.lanes stream) (hpending stream)).1
    · exact fun stream => (restartLane_spec (h.lanes stream) (hpending stream)).2

end

theorem IngestInv.nothingLost (h : IngestInv host s) : NothingLost host s := by
  refine ⟨?_, ?_, h.processed⟩
  · intro stream m hm
    exact (h.processed stream m ((h.lanes stream).acked m hm)).1
  · intro stream _ m hm
    rw [(h.lanes stream).inherited] at hm
    cases hm

end

/-- A feedback event in the flat-field format. -/
def demoFields : StreamFields :=
  [("task_category", "code"), ("agent_id", "vega"), ("outcome", "completed"), ("confidence_score", "0.9"),
    ("input_hash", "h"), ("agent_output", "\x7b\x7d"), ("latency_ms", "5")]

/-- A refinery event in the same format, and what is made of it. -/
def refineryFields : StreamFields :=
  [("task_id", "00000000-0000-0000-0000-000000000007"), ("agent_id", "vega"), ("skill", "qa.run"),
    ("outcome", "success"), ("confidence_score", "1"), ("latency_ms", "5")]

def demoRefineryEvent : RefineryEvent where
  taskId := 7
  agentId := "vega"
  skill := "qa.run"
  outcome := .success
  confidenceScore := .finite 1
  latencyMs := 5
  confidence_ok := by unfold InUnit; decide

/-- The libraries on these messages and on one without fields. -/
def demoHost : IngestHost where
  loads := fun text => if text = "\x7b\x7d" then .ok (.dict []) else .error (.jsonDecodeError "Expecting value")
  feedbackEvent := fun items => if (items.lookup "task_category").isSome then some items else none
  refineryEvent := fun items => if (items.lookup "skill").isSome then some demoRefineryEvent else none
  hasIngest := true

/-- A valid message, an invalid one and a refinery event that comes twice are processed, and the worker starts again. -/
def processedThenRestarted : List IngestAction :=
  [.restart "orion-worker-1", .publish .feedback demoFields, .publish .feedback [], .publish .vega refineryFields,
    .publish .vega refineryFields, .read .feedback true, .read .vega true, .read .feedback true,
    .handle .feedback true (.ofMicros 1000), .acknowledge .feedback true, .read .vega true,
    .handle .feedback true (.ofMicros 2000), .handle .vega true (.ofMicros 3000),
    .handle .feedback true (.ofMicros 4000), .acknowledge .vega true, .acknowledge .feedback true,
    .handle .vega true (.ofMicros 2000000), .acknowledge .vega true, .restart "orion-worker-2", .read .feedback true]

/-- The worker stops after it has read a message, and the next one has another name. -/
def stoppedAfterRead : List IngestAction :=
  [.restart "orion-worker-1", .publish .feedback demoFields, .read .feedback true, .read .feedback true,
    .restart "orion-worker-2", .read .feedback true]

end Galaxz.IngestionWorker
