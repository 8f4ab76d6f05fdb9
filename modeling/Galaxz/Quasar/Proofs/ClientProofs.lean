import Galaxz.Quasar.Client

/-!
# What the MCP client makes of what a server prints

Each function is related to what meets it: a request to the first output that it does not pass over, a call
to its start and its request, and `list_tools` to the pages of the server. From this follows when the client
ends properly.
-/

namespace Galaxz

open Fuel

namespace McpStdioClient

variable {text : McpText} {c : McpStdioClient} {method : String} {rid : ℕ}

/-! ## One output -/

theorem not_forRequest_iff {message : PyDict} :
    ¬ForRequest rid message ↔
      (PyValue.int rid).pyEq (PyDict.get message "id") = false ∨ (message.lookup "method").isSome = true := by
  unfold ForRequest
  rw [not_and_or, Bool.not_eq_true, ← ne_eq, Option.ne_none_iff_isSome]

theorem judge_foreign {message : PyDict} (h : ¬ForRequest rid message) :
    c.judgeOutput method rid (.json (.dict message)) = none :=
  if_pos (not_forRequest_iff.mp h)

theorem judge_reply {message : PyDict} (h : ForRequest rid message) (herror : message.lookup "error" = none) :
    c.judgeOutput method rid (.json (.dict message)) =
      some (.ok (getOr message "result" (.dict [])), false) := by
  have hnot := fun hforeign => not_forRequest_iff.mpr hforeign h
  show (if _ then none else _) = _
  rw [if_neg hnot, herror]

theorem judge_error {message error : PyDict} (h : ForRequest rid message)
    (herror : message.lookup "error" = some (.dict error)) :
    c.judgeOutput method rid (.json (.dict message)) =
      some (.error (.mcpError (getOr error "message" (.str "MCP error"))), false) := by
  have hnot := fun hforeign => not_forRequest_iff.mpr hforeign h
  show (if _ then none else _) = _
  rw [if_neg hnot, herror]

/-- An error that is no object has no `get`. -/
theorem judge_noObject {message : PyDict} {error : PyValue} (h : ForRequest rid message)
    (herror : message.lookup "error" = some error) (hobject : ∀ items, error ≠ .dict items) :
    c.judgeOutput method rid (.json (.dict message)) =
      some (.error (.other (.attributeError "object has no attribute 'get'")), false) := by
  have hnot := fun hforeign => not_forRequest_iff.mpr hforeign h
  show (if _ then none else _) = _
  rw [if_neg hnot, herror]
  cases error with
  | dict items => exact absurd rfl (hobject items)
  | _ => rfl

/-- What a message for the request can be, by its error. -/
theorem message_cases (rid : ℕ) (message : PyDict) :
    ¬ForRequest rid message ∨ (ForRequest rid message ∧ (message.lookup "error" = none ∨
      (∃ error, message.lookup "error" = some (.dict error)) ∨
      ∃ error, message.lookup "error" = some error ∧ ∀ items, error ≠ .dict items)) := by
  by_cases h : ForRequest rid message
  · refine Or.inr ⟨h, ?_⟩
    cases herror : message.lookup "error" with
    | none => exact Or.inl rfl
    | some error =>
      refine Or.inr ?_
      cases error with
      | dict items => exact Or.inl ⟨items, rfl⟩
      | _ => exact Or.inr ⟨_, rfl, fun items => PyValue.noConfusion⟩
  · exact Or.inl h

theorem judgeOutput_none_iff {o : Output} : c.judgeOutput method rid o = none ↔ o.Ignored rid := by
  constructor
  · intro h
    cases o with
    | silence => exact Output.Ignored.silence
    | noise => exact Output.Ignored.noise
    | json v =>
      cases v with
      | dict message =>
        rcases message_cases rid message with hfor | ⟨hfor, herror | ⟨error, herror⟩ | ⟨error, herror, hobject⟩⟩
        · exact Output.Ignored.foreign hfor
        · rw [judge_reply hfor herror] at h
          cases h
        · rw [judge_error hfor herror] at h
          cases h
        · rw [judge_noObject hfor herror hobject] at h
          cases h
      | _ => cases h
    | _ => cases h
  · rintro (_ | _ | hfor)
    · rfl
    · rfl
    · exact judge_foreign hfor

theorem judgeOutput_ok_iff {o : Output} {v : PyValue} {b : Bool} :
    c.judgeOutput method rid o = some (.ok v, b) ↔ o.Settles rid (.ok v) ∧ b = false := by
  constructor
  · intro h
    cases o with
    | json value =>
      cases value with
      | dict message =>
        rcases message_cases rid message with hfor | ⟨hfor, herror | ⟨error, herror⟩ | ⟨error, herror, hobject⟩⟩
        · rw [judge_foreign hfor] at h
          cases h
        · rw [judge_reply hfor herror] at h
          cases h
          exact ⟨Output.Settles.reply hfor herror, rfl⟩
        · rw [judge_error hfor herror] at h
          cases h
        · rw [judge_noObject hfor herror hobject] at h
          cases h
      | _ => cases h
    | _ => cases h
  · rintro ⟨hsettles, rfl⟩
    cases hsettles with
    | reply hfor herror => exact judge_reply hfor herror

theorem judgeOutput_mcpError_iff {o : Output} {m : PyValue} :
    (∃ b, c.judgeOutput method rid o = some (.error (.mcpError m), b)) ↔ o.Settles rid (.error m) := by
  constructor
  · rintro ⟨b, h⟩
    cases o with
    | json value =>
      cases value with
      | dict message =>
        rcases message_cases rid message with hfor | ⟨hfor, herror | ⟨error, herror⟩ | ⟨error, herror, hobject⟩⟩
        · rw [judge_foreign hfor] at h
          cases h
        · rw [judge_reply hfor herror] at h
          cases h
        · rw [judge_error hfor herror] at h
          cases h
          exact Output.Settles.error hfor herror
        · rw [judge_noObject hfor herror hobject] at h
          cases h
      | none =>
        cases h
        exact Output.Settles.null
      | _ => cases h
    | broken =>
      cases h
      exact Output.Settles.broken
    | ended =>
      cases h
      exact Output.Settles.ended
    | silence => cases h
    | noise => cases h
  · intro hsettles
    cases hsettles with
    | error hfor herror => exact ⟨false, judge_error hfor herror⟩
    | _ => exact ⟨true, rfl⟩

/-- A reply with the request's own id is one for the request. -/
theorem settles_of_ownReply {o : Output} {v : PyValue} (h : o.OwnReply rid v) : o.Settles rid (.ok v) := by
  cases h with
  | intro hid hmethod herror =>
    refine Output.Settles.reply ⟨?_, hmethod⟩ herror
    rcases hid with hid | hid
    · rw [hid]
      simp [PyValue.pyEq, PyValue.number, PyValue.sameNumber]
    · rw [hid]
      simp [PyValue.pyEq, PyValue.number, PyValue.sameNumber]

/-! ## The time of an output -/

section Time

variable {x : Exchange} {n : ℕ}

theorem judgeAt_inTime (h : c.InTime x n) : c.judgeAt method rid x n = c.judgeOutput method rid (x.outputs n) := if_pos h

theorem judgeAt_late (h : ¬c.InTime x n) : c.judgeAt method rid x n = some (.error (.mcpError (.str
    ("MCP " ++ method ++ " timed out after " ++ c.timeoutText ++ "s"))), true) := if_neg h

theorem judgeAt_none_iff : c.judgeAt method rid x n = none ↔ c.Passes rid x n := by
  unfold Passes
  by_cases h : c.InTime x n
  · rw [judgeAt_inTime h, judgeOutput_none_iff, and_iff_right h]
  · rw [judgeAt_late h]
    exact ⟨fun hsome => (by cases hsome), fun hall => absurd hall.1 h⟩

theorem judgeAt_ok_iff {v : PyValue} {b : Bool} :
    c.judgeAt method rid x n = some (.ok v, b) ↔ c.Ends method rid x n (.ok v) ∧ b = false := by
  by_cases h : c.InTime x n
  · rw [judgeAt_inTime h, judgeOutput_ok_iff]
    refine and_congr_left fun _ => ⟨Ends.settled h, fun hends => ?_⟩
    cases hends with
    | settled _ hsettles => exact hsettles
  · rw [judgeAt_late h]
    constructor
    · intro hsome
      cases hsome
    · rintro ⟨hends, -⟩
      cases hends with
      | settled hin _ => exact absurd hin h

theorem judgeAt_mcpError_iff {m : PyValue} :
    (∃ b, c.judgeAt method rid x n = some (.error (.mcpError m), b)) ↔ c.Ends method rid x n (.error m) := by
  by_cases h : c.InTime x n
  · rw [judgeAt_inTime h, judgeOutput_mcpError_iff]
    refine ⟨Ends.settled h, fun hends => ?_⟩
    cases hends with
    | timedOut hlate => exact absurd h hlate
    | settled _ hsettles => exact hsettles
  · rw [judgeAt_late h]
    constructor
    · rintro ⟨_, hsome⟩
      cases hsome
      exact Ends.timedOut h
    · intro hends
      cases hends with
      | timedOut _ => exact ⟨true, rfl⟩
      | settled hin _ => exact absurd hin h

/-- Without messages, the end of the wait stays where it is. -/
theorem limit_of_silence {timeout : ℚ} (h : ∀ m, n ≤ m → (x.outputs m).received = none) (k : ℕ) :
    x.limit timeout (n + k) = x.limit timeout n := by
  induction k with
  | zero => rfl
  | succ k ih =>
    have hnone := h (n + k) (Nat.le_add_right n k)
    rw [← Nat.add_assoc, Exchange.limit, hnone, if_neg (by simp), ih]

/-- When no messages come any more, the time is up at some output. -/
theorem exists_late (h : ∀ m, n ≤ m → (x.outputs m).received = none) : ∃ m, ¬c.InTime x m := by
  obtain ⟨k, hk⟩ := x.endless (x.limit c.timeout n)
  refine ⟨n + k, fun hin => ?_⟩
  have hlater : x.arrives k ≤ x.arrives (n + k) := x.arrives_mono (Nat.le_add_left k n)
  have hlimit : x.arrives (n + k) ≤ x.limit c.timeout (n + k) := hin
  rw [limit_of_silence h k] at hlimit
  exact absurd hk (not_lt.mpr (hlater.trans hlimit))

end Time

/-! ## One request -/

variable {x : Exchange} {params : PyDict} {s s' : ClientState}

theorem request_unencodable (h : ¬text.encodes (.dict params) = true) :
    request text c x method params s = fun _ => some (.error (.other (.runtimeError
      "maximum recursion depth exceeded")), { s with nextId := s.nextId + 1 }) := by
  funext fuel
  unfold request send
  rw [if_neg h]
  rfl

theorem request_lost {e : String} (h : text.encodes (.dict params) = true) (hsend : x.sendError = some e) :
    request text c x method params s = fun _ => some (.error (.mcpError (.str
      ("MCP server connection lost: " ++ e))), { started := false, nextId := s.nextId + 1 }) := by
  funext fuel
  unfold request send
  rw [if_pos h, hsend]
  rfl

theorem request_waits (h : text.encodes (.dict params) = true) (hsend : x.sendError = none) :
    request text c x method params s = fun fuel =>
      (search (c.judgeAt method (s.nextId + 1) x) id fuel).map fun out =>
        (out.1, stopIf out.2 { s with nextId := s.nextId + 1 }) := by
  funext fuel
  unfold request send
  rw [if_pos h, hsend]

theorem steady_request : Steady (request text c x method params s) := by
  by_cases h : text.encodes (.dict params) = true
  · cases hsend : x.sendError with
    | some e =>
      rw [request_lost h hsend]
      exact steady_const _
    | none =>
      rw [request_waits h hsend]
      exact (steady_search _ _).map _
  · rw [request_unencodable h]
    exact steady_const _

/-- The loop of a request ends with the first output that it does not pass over. -/
theorem yields_outputs_iff {out : Except McpFailure PyValue × Bool} :
    Yields (search (c.judgeAt method rid x) id) out ↔
      ∃ n, (∀ m < n, c.Passes rid x m) ∧ c.judgeAt method rid x n = some out := by
  simp only [yields_search_iff, judgeAt_none_iff, id]

theorem yields_request_ok_iff {v : PyValue} :
    Yields (request text c x method params s) (.ok v, s') ↔ text.encodes (.dict params) = true ∧
      c.Exchanges method (s.nextId + 1) x (.ok v) ∧ s' = { s with nextId := s.nextId + 1 } := by
  by_cases h : text.encodes (.dict params) = true
  · cases hsend : x.sendError with
    | some e =>
      rw [request_lost h hsend, yields_const_iff]
      refine ⟨fun heq => ?_, fun ⟨_, hexchanges, _⟩ => ?_⟩
      · cases heq
      · rcases hexchanges with ⟨_, _, heq⟩ | ⟨hnone, _⟩
        · cases heq
        · rw [hsend] at hnone
          cases hnone
    | none =>
      rw [request_waits h hsend, yields_map_iff]
      constructor
      · rintro ⟨⟨out, b⟩, hout, heq⟩
        cases heq
        obtain ⟨n, hbefore, hn⟩ := yields_outputs_iff.mp hout
        obtain ⟨hends, rfl⟩ := judgeAt_ok_iff.mp hn
        exact ⟨h, Or.inr ⟨hsend, n, hbefore, hends⟩, rfl⟩
      · rintro ⟨-, ⟨_, hsome, _⟩ | ⟨-, n, hbefore, hends⟩, rfl⟩
        · rw [hsend] at hsome
          cases hsome
        · exact ⟨(.ok v, false), yields_outputs_iff.mpr ⟨n, hbefore, judgeAt_ok_iff.mpr ⟨hends, rfl⟩⟩, rfl⟩
  · rw [request_unencodable h, yields_const_iff]
    exact ⟨fun heq => (by cases heq), fun hall => absurd hall.1 h⟩

theorem yields_request_mcpError_iff {m : PyValue} :
    (∃ s', Yields (request text c x method params s) (.error (.mcpError m), s')) ↔
      text.encodes (.dict params) = true ∧ c.Exchanges method (s.nextId + 1) x (.error m) := by
  by_cases h : text.encodes (.dict params) = true
  · cases hsend : x.sendError with
    | some e =>
      rw [request_lost h hsend]
      simp only [yields_const_iff]
      constructor
      · rintro ⟨_, heq⟩
        cases heq
        exact ⟨h, Or.inl ⟨e, hsend, rfl⟩⟩
      · rintro ⟨-, ⟨e', hsome, heq⟩ | ⟨hnone, _⟩⟩
        · rw [hsend] at hsome
          cases hsome
          cases heq
          exact ⟨_, rfl⟩
        · rw [hsend] at hnone
          cases hnone
    | none =>
      rw [request_waits h hsend]
      simp only [yields_map_iff]
      constructor
      · rintro ⟨_, ⟨out, b⟩, hout, heq⟩
        cases heq
        obtain ⟨n, hbefore, hn⟩ := yields_outputs_iff.mp hout
        exact ⟨h, Or.inr ⟨hsend, n, hbefore, judgeAt_mcpError_iff.mp ⟨b, hn⟩⟩⟩
      · rintro ⟨-, ⟨_, hsome, _⟩ | ⟨-, n, hbefore, hends⟩⟩
        · rw [hsend] at hsome
          cases hsome
        · obtain ⟨b, hb⟩ := judgeAt_mcpError_iff.mpr hends
          exact ⟨_, (.error (.mcpError m), b), yields_outputs_iff.mpr ⟨n, hbefore, hb⟩, rfl⟩
  · rw [request_unencodable h]
    simp only [yields_const_iff]
    exact ⟨fun ⟨_, heq⟩ => (by cases heq), fun hall => absurd hall.1 h⟩

/-- A request whose server sends no messages from some time on comes to an end. -/
theorem request_ends (hsilent : ∃ n, ∀ m, n ≤ m → (x.outputs m).received = none) :
    ∃ out, Yields (request text c x method params s) out := by
  by_cases h : text.encodes (.dict params) = true
  · cases hsend : x.sendError with
    | some e =>
      rw [request_lost h hsend]
      exact ⟨_, yields_const_iff.mpr rfl⟩
    | none =>
      rw [request_waits h hsend]
      obtain ⟨n, hn⟩ := hsilent
      obtain ⟨late, hlate⟩ : ∃ late, ¬c.InTime x late := exists_late hn
      have hstops : ∃ k, ¬c.Passes (s.nextId + 1) x k := ⟨late, fun hpasses => hlate hpasses.1⟩
      classical
      -- the first output that the client does not pass over
      have hfirst : c.judgeAt method (s.nextId + 1) x (Nat.find hstops) ≠ none :=
        fun hnone => Nat.find_spec hstops (judgeAt_none_iff.mp hnone)
      obtain ⟨out, hout⟩ := Option.ne_none_iff_exists'.mp hfirst
      refine ⟨_, yields_map_iff.mpr ⟨out, yields_outputs_iff.mpr ⟨Nat.find hstops, fun m hm => ?_, hout⟩, rfl⟩⟩
      exact not_not.mp (Nat.find_min hstops hm)
  · rw [request_unencodable h]
    exact ⟨_, yields_const_iff.mpr rfl⟩

/-- A request ends properly exactly when its message cannot be written, or the first output that it does not
pass over comes too late, brings an `McpError` or is the reply with its own id. -/
theorem requestTolerates_iff :
    RequestTolerates text c x method params s ↔ text.encodes (.dict params) = true ∧ (x.sendError ≠ none ∨
      ∃ n, (∀ m < n, c.Passes (s.nextId + 1) x m) ∧ ((∃ m, c.Ends method (s.nextId + 1) x n (.error m)) ∨
        c.InTime x n ∧ ∃ v, (x.outputs n).OwnReply (s.nextId + 1) v)) := by
  constructor
  · rintro ⟨⟨r, s'⟩, hout, ⟨m, rfl⟩ | ⟨n, v, htakes, hreply, rfl⟩⟩
    · obtain ⟨h, ⟨e, hsend, _⟩ | ⟨_, n, hbefore, hends⟩⟩ := yields_request_mcpError_iff.mp ⟨s', hout⟩
      · exact ⟨h, Or.inl (by rw [hsend]; exact Option.some_ne_none e)⟩
      · exact ⟨h, Or.inr ⟨n, hbefore, Or.inl ⟨m, hends⟩⟩⟩
    · obtain ⟨h, -⟩ := yields_request_ok_iff.mp hout
      refine ⟨h, Or.inr ⟨n, fun m hm => judgeAt_none_iff.mp (htakes.1 m hm), ?_⟩⟩
      by_cases hin : c.InTime x n
      · exact Or.inr ⟨hin, v, hreply⟩
      · exact Or.inl ⟨_, Ends.timedOut hin⟩
  · rintro ⟨h, hcase⟩
    cases hsend : x.sendError with
    | some e =>
      obtain ⟨s', hs'⟩ := yields_request_mcpError_iff.mpr ⟨h, Or.inl ⟨e, hsend, rfl⟩⟩
      exact ⟨_, hs', Or.inl ⟨_, rfl⟩⟩
    | none =>
      rcases hcase with hne | ⟨n, hbefore, ⟨m, hends⟩ | ⟨hin, v, hreply⟩⟩
      · exact absurd hsend hne
      · obtain ⟨s', hs'⟩ := yields_request_mcpError_iff.mpr ⟨h, Or.inr ⟨hsend, n, hbefore, hends⟩⟩
        exact ⟨_, hs', Or.inl ⟨m, rfl⟩⟩
      · have hends : c.Ends method (s.nextId + 1) x n (.ok v) := Ends.settled hin (settles_of_ownReply hreply)
        have htakes : c.Takes method (s.nextId + 1) x n := by
          refine ⟨fun m hm => judgeAt_none_iff.mpr (hbefore m hm), ?_⟩
          rw [judgeAt_ok_iff.mpr ⟨hends, rfl⟩]
          exact Option.some_ne_none _
        exact ⟨_, yields_request_ok_iff.mpr ⟨h, Or.inr ⟨hsend, n, hbefore, hends⟩, rfl⟩,
          Or.inr ⟨n, v, htakes, hreply, rfl⟩⟩

/-! ## The start of a process -/

variable {run : CallRun}

theorem finishStart_ok_iff {out : Except McpFailure PyValue × ClientState} :
    finishStart text run out = (.ok (), s') ↔
      ∃ v, out.1 = .ok v ∧ run.notifyError = none ∧ s' = out.2 := by
  obtain ⟨r, s⟩ := out
  unfold finishStart send
  rw [if_pos text.encodes_empty]
  rcases r with (m | e) | v
  · simp
  · simp
  · cases hnotify : run.notifyError with
    | none => simp [eq_comm]
    | some e => simp

theorem finishStart_mcpError_iff {out : Except McpFailure PyValue × ClientState} {m : PyValue} :
    (∃ s', finishStart text run out = (.error (.mcpError m), s')) ↔
      out.1 = .error (.mcpError m) ∨ ∃ v e, out.1 = .ok v ∧ run.notifyError = some e ∧
        m = .str ("MCP server connection lost: " ++ e) := by
  obtain ⟨r, s⟩ := out
  unfold finishStart send
  rw [if_pos text.encodes_empty]
  rcases r with (m' | e) | v
  · simp
  · simp
  · cases hnotify : run.notifyError with
    | none => simp
    | some e => simp [eq_comm]

theorem ensureStarted_running (h : s.started = true ∧ run.running = true) :
    ensureStarted text c run s = fun _ => some (.ok (), s) := by
  funext fuel
  unfold ensureStarted
  rw [if_pos h]

theorem ensureStarted_failed {e : String} (h : ¬(s.started = true ∧ run.running = true))
    (hstart : run.startError = some e) :
    ensureStarted text c run s = fun _ => some (.error (.mcpError (.str
      ("failed to start MCP server " ++ c.command ++ ": " ++ e))), stopIf true s) := by
  funext fuel
  unfold ensureStarted
  rw [if_neg h, hstart]

theorem ensureStarted_new (h : ¬(s.started = true ∧ run.running = true)) (hstart : run.startError = none) :
    ensureStarted text c run s = fun fuel =>
      (request text c run.handshake "initialize" handshakeParams { started := true, nextId := 0 } fuel).map
        (finishStart text run) := by
  funext fuel
  unfold ensureStarted
  rw [if_neg h, hstart]

theorem steady_ensureStarted : Steady (ensureStarted text c run s) := by
  by_cases h : s.started = true ∧ run.running = true
  · rw [ensureStarted_running h]
    exact steady_const _
  · cases hstart : run.startError with
    | some e =>
      rw [ensureStarted_failed h hstart]
      exact steady_const _
    | none =>
      rw [ensureStarted_new h hstart]
      exact steady_request.map _

theorem encodes_handshakeParams : text.encodes (.dict handshakeParams) = true := text.encodes_handshake

theorem yields_ensureStarted_ok_iff :
    Yields (ensureStarted text c run s) (.ok (), s') ↔ c.Begins run s (.ok s') := by
  by_cases h : s.started = true ∧ run.running = true
  · rw [ensureStarted_running h, yields_const_iff]
    constructor
    · intro heq
      cases heq
      exact Begins.running h
    · intro hbegins
      cases hbegins with
      | running _ => rfl
      | initialised hnot => exact absurd h hnot
  · cases hstart : run.startError with
    | some e =>
      rw [ensureStarted_failed h hstart, yields_const_iff]
      constructor
      · intro heq
        cases heq
      · intro hbegins
        cases hbegins with
        | running hrunning => exact absurd hrunning h
        | initialised _ hnone =>
          rw [hstart] at hnone
          cases hnone
    | none =>
      rw [ensureStarted_new h hstart, yields_map_iff]
      constructor
      · rintro ⟨⟨r, s₁⟩, hrequest, hfinish⟩
        obtain ⟨v, hr, hnotify, rfl⟩ := finishStart_ok_iff.mp hfinish
        dsimp only at hr
        subst hr
        obtain ⟨-, hexchanges, hs⟩ := yields_request_ok_iff.mp hrequest
        rw [hs]
        exact Begins.initialised h hstart hexchanges hnotify
      · intro hbegins
        cases hbegins with
        | running hrunning => exact absurd hrunning h
        | initialised _ _ hexchanges hnotify =>
          exact ⟨_, yields_request_ok_iff.mpr ⟨encodes_handshakeParams, hexchanges, rfl⟩,
            finishStart_ok_iff.mpr ⟨_, rfl, hnotify, rfl⟩⟩

theorem yields_ensureStarted_mcpError_iff {m : PyValue} :
    (∃ s', Yields (ensureStarted text c run s) (.error (.mcpError m), s')) ↔ c.Begins run s (.error m) := by
  by_cases h : s.started = true ∧ run.running = true
  · rw [ensureStarted_running h]
    simp only [yields_const_iff]
    constructor
    · rintro ⟨_, heq⟩
      cases heq
    · intro hbegins
      cases hbegins with
      | failed hnot => exact absurd h hnot
      | refused hnot => exact absurd h hnot
      | lost hnot => exact absurd h hnot
  · cases hstart : run.startError with
    | some e =>
      rw [ensureStarted_failed h hstart]
      simp only [yields_const_iff]
      constructor
      · rintro ⟨_, heq⟩
        cases heq
        exact Begins.failed h hstart
      · intro hbegins
        cases hbegins with
        | failed _ hsome =>
          rw [hstart] at hsome
          cases hsome
          exact ⟨_, rfl⟩
        | refused _ hnone =>
          rw [hstart] at hnone
          cases hnone
        | lost _ hnone =>
          rw [hstart] at hnone
          cases hnone
    | none =>
      rw [ensureStarted_new h hstart]
      simp only [yields_map_iff]
      constructor
      · rintro ⟨s₂, ⟨r, s₁⟩, hrequest, hfinish⟩
        rcases finishStart_mcpError_iff.mp ⟨s₂, hfinish⟩ with hr | ⟨v, e, hr, hnotify, rfl⟩
        · dsimp only at hr
          subst hr
          exact Begins.refused h hstart (yields_request_mcpError_iff.mp ⟨s₁, hrequest⟩).2
        · dsimp only at hr
          subst hr
          exact Begins.lost h hstart (yields_request_ok_iff.mp hrequest).2.1 hnotify
      · intro hbegins
        cases hbegins with
        | failed _ hsome =>
          rw [hstart] at hsome
          cases hsome
        | refused _ _ hexchanges =>
          obtain ⟨s₁, hs₁⟩ := (yields_request_mcpError_iff
            (s := { started := true, nextId := 0 })).mpr ⟨encodes_handshakeParams, hexchanges⟩
          obtain ⟨s₂, hs₂⟩ : ∃ s₂, finishStart text run (.error (.mcpError m), s₁) = (.error (.mcpError m), s₂) :=
            finishStart_mcpError_iff.mpr (Or.inl rfl)
          exact ⟨s₂, _, hs₁, hs₂⟩
        | @lost v e _ _ hexchanges hnotify =>
          have hrequest : Yields (request text c run.handshake "initialize" handshakeParams
              { started := true, nextId := 0 }) (.ok v, { started := true, nextId := 1 }) :=
            yields_request_ok_iff.mpr ⟨encodes_handshakeParams, hexchanges, rfl⟩
          obtain ⟨s₂, hs₂⟩ : ∃ s₂, finishStart text run (.ok v, { started := true, nextId := 1 }) =
              (.error (.mcpError (.str ("MCP server connection lost: " ++ e))), s₂) :=
            finishStart_mcpError_iff.mpr (Or.inr ⟨v, e, rfl, hnotify, rfl⟩)
          exact ⟨s₂, _, hrequest, hs₂⟩

/-! ## One call -/

theorem steady_afterStart (started : Except McpFailure Unit × ClientState) :
    Steady (afterStart text c run method params started) := by
  obtain ⟨e | _, s⟩ := started
  · exact steady_const _
  · exact steady_request

theorem steady_call : Steady (call text c run method params s) :=
  steady_ensureStarted.bind steady_afterStart

theorem yields_call_iff {out : Except McpFailure PyValue × ClientState} :
    Yields (call text c run method params s) out ↔ ∃ started,
      Yields (ensureStarted text c run s) started ∧ Yields (afterStart text c run method params started) out :=
  yields_bind_iff steady_ensureStarted steady_afterStart

theorem yields_call_ok_iff {v : PyValue} :
    Yields (call text c run method params s) (.ok v, s') ↔ Gives text c run method params s (.ok (v, s')) := by
  rw [yields_call_iff]
  constructor
  · rintro ⟨⟨e | _, s₁⟩, hstart, hrequest⟩
    · cases yields_const_iff.mp hrequest
    · obtain ⟨hencodes, hexchanges, rfl⟩ := yields_request_ok_iff.mp hrequest
      exact Gives.result (yields_ensureStarted_ok_iff.mp hstart) hencodes hexchanges
  · intro hgives
    cases hgives with
    | result hbegins hencodes hexchanges =>
      exact ⟨_, yields_ensureStarted_ok_iff.mpr hbegins,
        yields_request_ok_iff.mpr ⟨hencodes, hexchanges, rfl⟩⟩

theorem yields_call_mcpError_iff {m : PyValue} :
    (∃ s', Yields (call text c run method params s) (.error (.mcpError m), s')) ↔
      Gives text c run method params s (.error m) := by
  simp only [yields_call_iff]
  constructor
  · rintro ⟨s₂, ⟨e | _, s₁⟩, hstart, hrequest⟩
    · cases yields_const_iff.mp hrequest
      exact Gives.notBegun (yields_ensureStarted_mcpError_iff.mp ⟨_, hstart⟩)
    · obtain ⟨hencodes, hexchanges⟩ := yields_request_mcpError_iff.mp ⟨s₂, hrequest⟩
      exact Gives.refused (yields_ensureStarted_ok_iff.mp hstart) hencodes hexchanges
  · intro hgives
    cases hgives with
    | notBegun hbegins =>
      obtain ⟨s₁, hs₁⟩ := yields_ensureStarted_mcpError_iff.mpr hbegins
      exact ⟨s₁, _, hs₁, yields_const_iff.mpr rfl⟩
    | refused hbegins hencodes hexchanges =>
      obtain ⟨s₂, hs₂⟩ := yields_request_mcpError_iff.mpr ⟨hencodes, hexchanges⟩
      exact ⟨s₂, _, yields_ensureStarted_ok_iff.mpr hbegins, hs₂⟩

/-! ## The pages -/

variable {runs : ℕ → CallRun} {l l' : ToolListing}

/-- A page is taken when it is an object whose tools can be iterated. -/
theorem takePage_inl_iff {out : Except McpFailure PyValue × ClientState} :
    takePage l out = .inl l' ↔ ∃ result tools, out.1 = .ok (.dict result) ∧
      extended (getOr result "tools" (.list [])) = .ok tools ∧
      (PyDict.get result "nextCursor").truthy = true ∧
      l' = { calls := l.calls + 1, tools := l.tools ++ tools, cursor := PyDict.get result "nextCursor",
             state := out.2 } := by
  obtain ⟨r, s⟩ := out
  constructor
  · intro h
    rcases r with e | v
    · cases h
    · cases v with
      | dict result =>
        unfold takePage at h
        dsimp only at h
        cases htools : extended (getOr result "tools" (.list [])) with
        | error e =>
          rw [htools] at h
          cases h
        | ok tools =>
          rw [htools] at h
          dsimp only at h
          split_ifs at h with hcursor
          cases h
          exact ⟨result, tools, rfl, htools, hcursor, rfl⟩
      | _ => cases h
  · rintro ⟨result, tools, hr, htools, hcursor, rfl⟩
    dsimp only at hr
    subst hr
    unfold takePage
    dsimp only
    rw [htools]
    dsimp only
    rw [if_pos hcursor]

theorem takePage_ok_iff {out : Except McpFailure PyValue × ClientState} {all : List PyValue} :
    takePage l out = .inr (.ok all) ↔ ∃ result tools, out.1 = .ok (.dict result) ∧
      extended (getOr result "tools" (.list [])) = .ok tools ∧
      (PyDict.get result "nextCursor").truthy = false ∧ all = l.tools ++ tools := by
  obtain ⟨r, s⟩ := out
  constructor
  · intro h
    rcases r with e | v
    · cases h
    · cases v with
      | dict result =>
        unfold takePage at h
        dsimp only at h
        cases htools : extended (getOr result "tools" (.list [])) with
        | error e =>
          rw [htools] at h
          cases h
        | ok tools =>
          rw [htools] at h
          dsimp only at h
          split_ifs at h with hcursor
          cases h
          exact ⟨result, tools, rfl, htools, Bool.not_eq_true _ ▸ hcursor, rfl⟩
      | _ => cases h
  · rintro ⟨result, tools, hr, htools, hcursor, rfl⟩
    dsimp only at hr
    subst hr
    unfold takePage
    dsimp only
    rw [htools]
    dsimp only
    rw [if_neg (by rw [hcursor]; exact Bool.false_ne_true)]

theorem takePage_mcpError_iff {out : Except McpFailure PyValue × ClientState} {m : PyValue} :
    takePage l out = .inr (.error (.mcpError m)) ↔ out.1 = .error (.mcpError m) := by
  obtain ⟨r, s⟩ := out
  constructor
  · intro h
    rcases r with e | v
    · cases h
      rfl
    · cases v with
      | dict result =>
        unfold takePage at h
        dsimp only at h
        cases htools : extended (getOr result "tools" (.list [])) with
        | error e =>
          rw [htools] at h
          cases h
        | ok tools =>
          rw [htools] at h
          dsimp only at h
          split_ifs at h
          cases h
      | _ => cases h
  · intro h
    dsimp only at h
    subst h
    rfl

theorem steady_listTurn (l : ToolListing) : Steady (listTurn text c runs · l) := steady_call.map (takePage l)

theorem yields_listTurn_iff {r : ToolListing ⊕ Except McpFailure (List PyValue)} :
    Yields (listTurn text c runs · l) r ↔ ∃ out,
      Yields (call text c (runs l.calls) "tools/list" (pageParams l.cursor) l.state) out ∧ takePage l out = r :=
  yields_map_iff

theorem yields_listTurn_inl_iff :
    Yields (listTurn text c runs · l) (.inl l') ↔ Continues text c runs l l' := by
  rw [yields_listTurn_iff]
  constructor
  · rintro ⟨⟨r, s⟩, hcall, htake⟩
    obtain ⟨result, tools, hr, htools, hcursor, rfl⟩ := takePage_inl_iff.mp htake
    dsimp only at hr
    subst hr
    exact Continues.intro (yields_call_ok_iff.mp hcall) htools hcursor
  · rintro ⟨hgives, htools, hcursor⟩
    exact ⟨_, yields_call_ok_iff.mpr hgives, takePage_inl_iff.mpr ⟨_, _, rfl, htools, hcursor, rfl⟩⟩

/-- A turn of `list_tools` that ends it properly is the end of the pages. -/
theorem pages_of_listTurn {r : Except PyValue (List PyValue)}
    (h : Yields (listTurn text c runs · l) (.inr (r.mapError .mcpError))) : Pages text c runs l r := by
  obtain ⟨⟨out, s⟩, hcall, htake⟩ := yields_listTurn_iff.mp h
  cases r with
  | error m =>
    have hout : out = .error (.mcpError m) := takePage_mcpError_iff.mp htake
    subst hout
    exact Pages.refused (yields_call_mcpError_iff.mp ⟨s, hcall⟩)
  | ok all =>
    obtain ⟨result, tools, hr, htools, hcursor, rfl⟩ := takePage_ok_iff.mp htake
    dsimp only at hr
    subst hr
    exact Pages.last (yields_call_ok_iff.mp hcall) htools hcursor

theorem yields_listTools_iff {r : Except PyValue (List PyValue)} :
    Yields (listTools text c runs) (r.mapError .mcpError) ↔ Pages text c runs {} r := by
  constructor
  · intro h
    refine Yields.loop_induction (P := fun l b => ∀ r : Except PyValue (List PyValue),
      b = r.mapError .mcpError → Pages text c runs l r) ?_ ?_ h r rfl
    · rintro l b hlast r rfl
      exact pages_of_listTurn hlast
    · intro l l' b hnext ih r hr
      exact Pages.more (yields_listTurn_inl_iff.mp hnext) (ih r hr)
  · intro h
    have hloop : ∀ l (r : Except PyValue (List PyValue)), Pages text c runs l r →
        Yields (loop (listTurn text c runs) · l) (r.mapError .mcpError) := by
      intro l r hl
      clear h
      induction hl with
      | refused hgives =>
        obtain ⟨s, hs⟩ := yields_call_mcpError_iff.mpr hgives
        exact (yields_loop_iff steady_listTurn).mpr (Or.inl (yields_listTurn_iff.mpr ⟨_, hs, rfl⟩))
      | last hgives htools hcursor =>
        refine (yields_loop_iff steady_listTurn).mpr (Or.inl (yields_listTurn_iff.mpr ?_))
        exact ⟨_, yields_call_ok_iff.mpr hgives, takePage_ok_iff.mpr ⟨_, _, rfl, htools, hcursor, rfl⟩⟩
      | more hcontinues _ ih =>
        exact (yields_loop_iff steady_listTurn).mpr (Or.inr ⟨_, yields_listTurn_inl_iff.mpr hcontinues, ih⟩)
    exact hloop {} r h

theorem steady_listTools : Steady (listTools text c runs) := steady_loop steady_listTurn {}

/-- `list_tools` ends properly exactly when the pages of the server come to an end. -/
theorem listTolerates_iff : ListTolerates text c runs ↔ ∃ r, Pages text c runs {} r := by
  constructor
  · rintro ⟨_, hlist, ⟨tools, rfl⟩ | ⟨m, rfl⟩⟩
    · exact ⟨.ok tools, yields_listTools_iff.mp hlist⟩
    · exact ⟨.error m, yields_listTools_iff.mp hlist⟩
  · rintro ⟨r, hpages⟩
    refine ⟨_, yields_listTools_iff.mpr hpages, ?_⟩
    cases r with
    | ok tools => exact Or.inl ⟨tools, rfl⟩
    | error m => exact Or.inr ⟨m, rfl⟩

/-- `list_tools` makes a bounded number of calls exactly when the server does not go on with cursors. -/
theorem listsInFinitelyMany_iff :
    ListsInFinitelyMany text c runs ↔
      ¬∃ f : ℕ → ToolListing, f 0 = {} ∧ ∀ n, Continues text c runs (f n) (f (n + 1)) := by
  unfold ListsInFinitelyMany
  rw [bounded_turns_iff steady_listTurn]
  simp only [yields_listTurn_inl_iff]

end McpStdioClient

end Galaxz
