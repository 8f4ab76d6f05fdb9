import Galaxz.A2A.Proofs.EnvelopeProofs
import Galaxz.A2A.Proofs.StreamingProofs
import Galaxz.Jobs.Proofs.CancelProofs

/-!
# Proofs: when the endpoint answers

Each handler refuses a request with an error of the protocol, and leaves the jobs as they were, or it lets an
exception through, or it returns something; and for each of these it is said on which parameters it happens.
-/

namespace Galaxz

open SqliteJobRepository

namespace A2AEndpoint

variable {text : PyText} {py : Interpreter} {caller : CallerConfig} {params : PyDict} {ids : RequestIds} {s : Db}

/-! ## Messages -/

theorem isPlain_invalidParams {detail : String} (h : isAscii detail = true) :
    (A2AError.invalidParams detail).isPlain = true := by
  have hreason : isAscii "INVALID_PARAMS" = true := by decide
  unfold A2AError.isPlain
  rw [Bool.and_eq_true]
  exact ⟨h, hreason⟩

/-- A failure is an error of the protocol, in ASCII. -/
def Refusal (f : A2AFailure) : Prop := ∃ e, f = .a2a e ∧ e.isPlain = true

theorem refusal_invalidParams {detail : String} (h : isAscii detail = true) :
    Refusal (.a2a (.invalidParams detail)) := ⟨_, rfl, isPlain_invalidParams h⟩

/-- The first call is in the first part, or after it. -/
theorem firstCall_cons {part : PyValue} {parts : List PyValue} {skill : String} {data : PyDict} :
    FirstCall (part :: parts) skill data ↔
      callData part = some (skill, data) ∨ callData part = none ∧ FirstCall parts skill data := by
  constructor
  · rintro ⟨before, p, after, hparts, hbefore, hp⟩
    cases before with
    | nil =>
      cases hparts
      exact Or.inl hp
    | cons b before =>
      obtain ⟨rfl, hrest⟩ := List.cons.inj hparts
      obtain ⟨hb, hbefore⟩ := List.forall_mem_cons.mp hbefore
      exact Or.inr ⟨hb, before, p, after, hrest, hbefore, hp⟩
  · rintro (hp | ⟨hnone, before, p, after, rfl, hbefore, hp⟩)
    · exact ⟨[], part, parts, rfl, fun q hq => (by cases hq), hp⟩
    · exact ⟨part :: before, p, after, rfl, List.forall_mem_cons.mpr ⟨hnone, hbefore⟩, hp⟩

theorem FirstCall.unique {parts : List PyValue} {skill skill' : String} {data data' : PyDict}
    (h : FirstCall parts skill data) (h' : FirstCall parts skill' data') : skill' = skill ∧ data' = data := by
  induction parts with
  | nil =>
    obtain ⟨before, p, after, hparts, -⟩ := h
    cases before <;> cases hparts
  | cons part parts ih =>
    rcases firstCall_cons.mp h with hp | ⟨hnone, hrest⟩
    · rcases firstCall_cons.mp h' with hp' | ⟨hnone', -⟩
      · rw [hp] at hp'
        cases hp'
        exact ⟨rfl, rfl⟩
      · rw [hp] at hnone'
        cases hnone'
    · rcases firstCall_cons.mp h' with hp' | ⟨-, hrest'⟩
      · rw [hp'] at hnone
        cases hnone
      · exact ih hrest hrest'

/-- The loop over the parts finds the first call, and refuses one without a payload. -/
theorem findCall_spec (parts : List PyValue) :
    (∃ skill payload data, findCall parts = .ok (skill, payload) ∧ FirstCall parts skill data ∧
      (data.lookup "payload").getD (.dict []) = .dict payload) ∨
    ∃ f, findCall parts = .error f ∧ Refusal f ∧ ∀ skill data payload, FirstCall parts skill data →
      (data.lookup "payload").getD (.dict []) ≠ .dict payload := by
  induction parts with
  | nil =>
    refine Or.inr ⟨_, rfl, refusal_invalidParams (by decide), ?_⟩
    rintro skill data payload ⟨before, part, after, hparts, -⟩
    cases before <;> cases hparts
  | cons part parts ih =>
    unfold findCall
    cases hcall : callData part with
    | none =>
      simp only [firstCall_cons, hcall]
      simpa using ih
    | some found =>
      obtain ⟨skill, data⟩ := found
      have hfirst : FirstCall (part :: parts) skill data := firstCall_cons.mpr (Or.inl hcall)
      by_cases hpayload : ∃ payload, (data.lookup "payload").getD (.dict []) = .dict payload
      · obtain ⟨payload, hpayload⟩ := hpayload
        dsimp only
        rw [hpayload]
        exact Or.inl ⟨skill, payload, data, rfl, hfirst, hpayload⟩
      · refine Or.inr ⟨.a2a (.invalidParams "data.payload must be an object"), ?_,
          refusal_invalidParams (by decide), ?_⟩
        · dsimp only
          split
          · next payload heq => exact absurd ⟨payload, heq⟩ hpayload
          · rfl
        · intro skill' data' payload h heq
          rw [(hfirst.unique h).2] at heq
          exact hpayload ⟨payload, heq⟩

/-- The threshold is read, or refused. -/
theorem threshold_spec (message : PyDict) :
    (∃ level, threshold message = .ok level ∧ HasThreshold message level) ∨
    ∃ f, threshold message = .error f ∧ Refusal f ∧ ∀ level, ¬HasThreshold message level := by
  have hrange : Refusal (.a2a (.invalidParams "confidenceThreshold must be a number between 0 and 1")) :=
    refusal_invalidParams (by decide)
  unfold threshold HasThreshold
  dsimp only
  generalize (PyDict.get message "metadata").orElse (.dict []) = metadata
  cases metadata with
  | dict items =>
    simp only [PyValue.dict.injEq, exists_eq_left']
    generalize (items.lookup "confidenceThreshold").getD (.float DEFAULT_THRESHOLD) = value
    cases value with
    | int n =>
      dsimp only
      by_cases hn : 0 ≤ n ∧ n ≤ 1
      · rw [if_pos hn]
        exact Or.inl ⟨_, rfl, Or.inr ⟨n, rfl, hn.1, hn.2, rfl⟩⟩
      · rw [if_neg hn]
        refine Or.inr ⟨_, rfl, hrange, ?_⟩
        rintro level (⟨heq, -⟩ | ⟨m, heq, h0, h1, -⟩)
        · cases heq
        · cases heq
          exact hn ⟨h0, h1⟩
    | float x =>
      dsimp only
      by_cases hx : (PyFloat.le (.finite 0) x && x.le (.finite 1)) = true
      · rw [if_pos hx]
        rw [Bool.and_eq_true] at hx
        exact Or.inl ⟨x, rfl, Or.inl ⟨rfl, hx⟩⟩
      · rw [if_neg hx]
        refine Or.inr ⟨_, rfl, hrange, ?_⟩
        rintro level (⟨heq, h⟩ | ⟨m, heq, -⟩)
        · cases heq
          exact hx (Bool.and_eq_true _ _ ▸ h)
        · cases heq
    | _ =>
      refine Or.inr ⟨_, rfl, hrange, ?_⟩
      rintro level (⟨heq, -⟩ | ⟨m, heq, -⟩)
      · cases heq
      · cases heq
  | _ =>
    refine Or.inr ⟨_, rfl, refusal_invalidParams (by decide), ?_⟩
    rintro level ⟨items, heq, -⟩
    cases heq

theorem IsMessage.unique {message message' : PyDict} {messageId messageId' : String}
    (h : IsMessage params message messageId) (h' : IsMessage params message' messageId') :
    message' = message ∧ messageId' = messageId := by
  have hmessage := h.isDict.symm.trans h'.isDict
  cases hmessage
  have hid := h.hasId.symm.trans h'.hasId
  cases hid
  exact ⟨rfl, rfl⟩

theorem HasThreshold.unique {message : PyDict} {level level' : PyFloat} (h : HasThreshold message level)
    (h' : HasThreshold message level') : level' = level := by
  obtain ⟨metadata, hmetadata, h⟩ := h
  obtain ⟨metadata', hmetadata', h'⟩ := h'
  rw [hmetadata] at hmetadata'
  cases hmetadata'
  rcases h with ⟨hvalue, -⟩ | ⟨n, hvalue, -, -, rfl⟩ <;> rcases h' with ⟨hvalue', -⟩ | ⟨n', hvalue', -, -, rfl⟩
  all_goals
    rw [hvalue] at hvalue'
    cases hvalue'
  · rfl
  · rfl

/-- The message is read, or refused, or its parts cannot be iterated. -/
theorem readMessage_spec (params : PyDict) :
    (∃ m, readMessage params = .ok m ∧ PartsFit params ∧ ReadsAs params m) ∨
    (∃ f, readMessage params = .error f ∧ Refusal f ∧ PartsFit params ∧ ∀ m, ¬ReadsAs params m) ∨
    ∃ e, readMessage params = .error (.raised e) ∧ ¬PartsFit params := by
  by_cases hmessage : ∃ message messageId, IsMessage params message messageId
  · obtain ⟨message, messageId, h⟩ := hmessage
    have hread : readMessage params = (do
        let call ← extractCall message
        let threshold ← threshold message
        .ok { messageId := strip messageId, skill := call.1, payload := call.2, threshold }) := by
      unfold readMessage
      simp only [h.isDict, h.hasId, if_neg h.nonblank, if_pos h.isUser]
    have hfit : ∀ parts, iterated (PyDict.get message "parts") = .ok parts → PartsFit params := by
      intro parts hparts message' messageId' h'
      rw [(h.unique h').1]
      exact ⟨parts, hparts⟩
    -- another message cannot be read from the parameters
    have hnone : ∀ parts, iterated (PyDict.get message "parts") = .ok parts →
        (∀ skill data payload level, FirstCall parts skill data →
          (data.lookup "payload").getD (.dict []) = .dict payload → ¬HasThreshold message level) →
        ∀ m, ¬ReadsAs params m := by
      rintro parts hparts hno m ⟨h', hparts', hcall, hpayload, hlevel⟩
      rw [(h.unique h').1] at hparts' hlevel
      rw [hparts] at hparts'
      cases hparts'
      exact hno _ _ _ _ hcall hpayload hlevel
    rw [hread]
    unfold extractCall
    cases hparts : iterated (PyDict.get message "parts") with
    | error e =>
      refine Or.inr (Or.inr ⟨e, rfl, fun hfits => ?_⟩)
      obtain ⟨parts, hok⟩ := hfits message messageId h
      rw [hparts] at hok
      cases hok
    | ok parts =>
      rcases findCall_spec parts with ⟨skill, payload, data, hcall, hfirst, hpayload⟩ | ⟨f, hcall, hf, hno⟩
      · rcases threshold_spec message with ⟨level, hlevel, hhas⟩ | ⟨f, hlevel, hf, hno⟩
        · refine Or.inl ⟨{ messageId := strip messageId, skill, payload, threshold := level }, ?_, hfit parts hparts,
            ReadsAs.mk h hparts hfirst hpayload hhas⟩
          simp [passing, Except.mapError, hcall, hlevel, bind, Except.bind]
        · refine Or.inr (Or.inl ⟨f, ?_, hf, hfit parts hparts,
            hnone parts hparts fun _ _ _ level _ _ hhas => hno level hhas⟩)
          simp [passing, Except.mapError, hcall, hlevel, bind, Except.bind]
      · refine Or.inr (Or.inl ⟨f, ?_, hf, hfit parts hparts,
          hnone parts hparts fun skill data payload _ hfirst hpayload _ => hno skill data payload hfirst hpayload⟩)
        simp [passing, Except.mapError, hcall, bind, Except.bind]
  · have hfit : PartsFit params := fun message messageId h => absurd ⟨message, messageId, h⟩ hmessage
    have hno : ∀ m, ¬ReadsAs params m := by
      rintro m ⟨h, -, -, -, -⟩
      exact hmessage ⟨_, _, h⟩
    have hrefused : ∃ f, readMessage params = .error f ∧ Refusal f := by
      unfold readMessage
      split
      · next message hdict =>
        split
        · next messageId hid =>
          split_ifs with hblank hrole
          · exact ⟨_, rfl, refusal_invalidParams (by decide)⟩
          · exact absurd ⟨message, messageId, hdict, hid, hblank, hrole⟩ hmessage
          · exact ⟨_, rfl, refusal_invalidParams (by decide)⟩
        · exact ⟨_, rfl, refusal_invalidParams (by decide)⟩
      · exact ⟨_, rfl, refusal_invalidParams (by decide)⟩
    obtain ⟨f, hf, hrefusal⟩ := hrefused
    exact Or.inr (Or.inl ⟨f, hf, hrefusal, hfit, hno⟩)

/-- There is one message to read. -/
theorem ReadsAs.unique {m m' : A2AMessage} (h : ReadsAs params m) (h' : ReadsAs params m') : m' = m := by
  obtain ⟨hmessage, hparts, hcall, hpayload, hlevel⟩ := h
  obtain ⟨hmessage', hparts', hcall', hpayload', hlevel'⟩ := h'
  obtain ⟨rfl, rfl⟩ := hmessage.unique hmessage'
  rw [hparts] at hparts'
  cases hparts'
  obtain ⟨rfl, rfl⟩ := hcall.unique hcall'
  rw [hpayload] at hpayload'
  cases hpayload'
  rw [hlevel.unique hlevel']

/-! ## The repository -/

/-- Under a key that no job has, a submission returns a queued job, or raises because the id of the job is
in use. -/
theorem submit_unknown (h : s.Inv) {c : Submission} {task : TaskContract} (hadm : c.Admitted)
    (hpolicy : c.retryPolicy = none) (htask : c.task = some task)
    (hdumps : PyValue.serializableItems task.payload = true) (hkey : ∀ k ∈ s.idempotency, k.idempotencyKey ≠ c.key) :
    (s.job? c.jobId = none ∧ ∃ job, (c.submit s).1 = .ok job ∧ job.jobId = c.jobId ∧ job.status = .queued) ∨
      s.job? c.jobId ≠ none ∧ ∃ e, (c.submit s).1 = .error e := by
  have hbegins : Begins s c := submit_begins h hkey
  by_cases hfresh : s.job? c.jobId = none
  · have hbind : bindPolicy (c.retryPolicy.getD .default) = .ok () := by
      rw [hpolicy]
      decide +kernel
    have hpayload : ∀ t, c.task = some t → PyValue.serializableItems t.payload = true := by
      intro t ht
      rw [htask] at ht
      cases ht
      exact hdumps
    obtain ⟨job, hjob⟩ := hbegins.returns_iff.mpr ⟨hadm, hbind, hpayload, hfresh⟩
    obtain ⟨hid, -, -, hstatus⟩ := hbegins.new_job job hjob
    exact Or.inl ⟨hfresh, job, hjob, hid, hstatus⟩
  · refine Or.inr ⟨hfresh, ?_⟩
    cases hanswer : (c.submit s).1 with
    | error e => exact ⟨e, rfl⟩
    | ok job => exact absurd (hbegins.returns_iff.mp ⟨job, hanswer⟩).fresh hfresh

/-- A task is made of a message that was read exactly if its skill is not blank. -/
theorem contractOf_spec {m : A2AMessage} (h : ReadsAs params m) :
    (strip m.skill ≠ "" ∧ ∃ task, (A2AServer.contractOf caller m ids).validate = .ok task ∧
      task.taskId = ids.taskId ∧ task.payload = m.payload) ∨
    strip m.skill = "" ∧ ∃ e, (A2AServer.contractOf caller m ids).validate = .error e := by
  have horigin : strip caller.origin ≠ "" := by
    rw [caller.origin_stripped]
    intro hempty
    have hprefixed := caller.origin_prefixed
    rw [hempty] at hprefixed
    exact absurd hprefixed (by decide)
  have hlevel : m.threshold.lt (.finite 0) = false ∧ PyFloat.lt (.finite 1) m.threshold = false := by
    have hbounds : PyFloat.le (.finite 0) m.threshold = true ∧ m.threshold.le (.finite 1) = true := by
      obtain ⟨-, -, -, -, metadata, -, ⟨-, hlow, hhigh⟩ | ⟨n, -, hlow, hhigh, hlevel⟩⟩ := h
      · exact ⟨hlow, hhigh⟩
      · dsimp only
        rw [hlevel]
        exact ⟨decide_eq_true (by exact_mod_cast hlow), decide_eq_true (by exact_mod_cast hhigh)⟩
    revert hbounds
    cases m.threshold with
    | finite q =>
      rintro ⟨hlow, hhigh⟩
      have hlow : 0 ≤ q := of_decide_eq_true hlow
      have hhigh : q ≤ 1 := of_decide_eq_true hhigh
      exact ⟨decide_eq_false (not_lt.mpr hlow), decide_eq_false (not_lt.mpr hhigh)⟩
    | posInf => exact fun hbounds => by cases hbounds.2
    | negInf => exact fun hbounds => by cases hbounds.1
    | nan => exact fun hbounds => by cases hbounds.1
  unfold TaskContract.validate A2AServer.contractOf
  dsimp only
  rw [if_neg horigin]
  by_cases hskill : strip m.skill = ""
  · rw [if_pos hskill]
    exact Or.inr ⟨hskill, _, rfl⟩
  · rw [if_neg hskill, hlevel.1, hlevel.2]
    exact Or.inl ⟨hskill, _, rfl, rfl, rfl⟩

/-- What came of a message that was stored: the job of its key as it stands, or a new job. -/
inductive StoredJob (caller : CallerConfig) (m : A2AMessage) (ids : RequestIds) (s : Db) : Db → Job → Prop where
  | known {job : Job} {jobId : Uuid} (hkey : HasKey caller m s jobId) (hget : getJob s jobId = .ok (some job)) :
    StoredJob caller m ids s s job
  | fresh {s' : Db} {job : Job} (hkey : ∀ other, ¬HasKey caller m s other) (hfree : s.job? ids.jobId = none)
    (hid : job.jobId = ids.jobId) (hstatus : job.status = .queued) : StoredJob caller m ids s s' job

/-- The key of a message is Unicode where its id is. -/
theorem isUnicode_messageKey {origin messageId : String} (horigin : py.isUnicode origin = true) :
    py.isUnicode (messageKey origin messageId) = true ↔ py.isUnicode messageId = true := by
  have hstart : py.isUnicode "a2a:" = true := Interpreter.isUnicode_of_isAscii (by decide)
  have hcolon : py.isUnicode ":" = true := Interpreter.isUnicode_of_isAscii (by decide)
  unfold messageKey
  rw [Interpreter.isUnicode_append, Interpreter.isUnicode_append, Interpreter.isUnicode_append]
  exact and_iff_right ⟨⟨hstart, horigin⟩, hcolon⟩

/-- A task is stored, or an exception escapes. -/
theorem storeTask_spec (hs : s.Inv ∧ s.KeysNodup) {m : A2AMessage} {task : TaskContract}
    (hread : readMessage params = .ok m) (horigin : py.isUnicode caller.origin = true)
    (hid : task.taskId = ids.taskId) (hpayload : task.payload = m.payload) :
    (Stores py caller m ids s ∧ ∃ job s', storeTask py caller m task ids s = (.ok job, s') ∧
      StoredJob caller m ids s s' job) ∨
    ¬Stores py caller m ids s ∧ ∃ e s', storeTask py caller m task ids s = (.error e, s') := by
  obtain ⟨messageId, hmessageId, hnonblank⟩ := readMessage_messageId hread
  have hkey : (A2AServer.submissionOf caller m task ids).key = messageKey caller.origin m.messageId := by
    unfold Submission.key A2AServer.submissionOf
    dsimp only
    rw [hmessageId]
    exact strip_messageKey caller.origin hnonblank
  have hadm : (A2AServer.submissionOf caller m task ids).Admitted := by
    have hpriority : (-100 : ℤ) ≤ 0 ∧ (0 : ℤ) ≤ 100 := by decide
    refine ⟨?_, hpriority, ?_⟩
    · show decide (task.taskId ≠ ids.taskId) = false
      rw [hid]
      simp
    · rw [hkey]
      intro hempty
      have hlist := messageKey_toList caller.origin m.messageId
      rw [hempty] at hlist
      cases hlist
  have hkeyText : (A2AServer.submissionOf caller m task ids).idempotencyKey = messageKey caller.origin m.messageId := rfl
  unfold storeTask
  dsimp only
  rw [hkeyText]
  by_cases hunicode : py.isUnicode m.messageId = true
  · rw [if_pos ((isUnicode_messageKey horigin).mpr hunicode)]
    by_cases hknown : ∃ jobId, HasKey caller m s jobId
    · obtain ⟨jobId, hk⟩ := hknown
      obtain ⟨k, hmem, hkk, hkid⟩ := hk
      have hany : s.idempotency.any (·.idempotencyKey = messageKey caller.origin m.messageId) = true :=
        List.any_eq_true.mpr ⟨k, hmem, decide_eq_true hkk⟩
      rw [if_pos (Or.inl hany)]
      have hrepeats : Repeats s (A2AServer.submissionOf caller m task ids) k.jobId :=
        submit_repeats hs.1 hs.2 hmem (hkk.trans hkey.symm)
      obtain ⟨job, hjob⟩ := hrepeats.returns_iff.mpr hadm
      refine Or.inl ⟨⟨hunicode, Or.inl ⟨jobId, k, hmem, hkk, hkid⟩⟩, job, s, ?_, ?_⟩
      · exact Prod.ext hjob hrepeats.unchanged
      · exact StoredJob.known ⟨k, hmem, hkk, rfl⟩ (hrepeats.same_job job hjob).2.1
    · have hnone : ∀ k ∈ s.idempotency, k.idempotencyKey ≠ (A2AServer.submissionOf caller m task ids).key :=
        fun k hk heq => hknown ⟨k.jobId, k, hk, heq.trans hkey, rfl⟩
      have hany : ¬s.idempotency.any (·.idempotencyKey = messageKey caller.origin m.messageId) = true := by
        rw [List.any_eq_true]
        rintro ⟨k, hk, heq⟩
        exact hnone k hk ((of_decide_eq_true heq).trans hkey.symm)
      by_cases hdump : py.dump.Fits 1 (.dict task.payload)
      · rw [if_pos (Or.inr hdump)]
        rcases submit_unknown hs.1 hadm rfl rfl (JsonEncoder.serializableItems_of_scalars _ hdump.1) hnone with
          ⟨hfree, job, hjob, hjobId, hstatus⟩ | ⟨hused, e, he⟩
        · refine Or.inl ⟨⟨hunicode, Or.inr ⟨hfree, hpayload ▸ hdump⟩⟩, job, _, Prod.ext hjob rfl, ?_⟩
          exact StoredJob.fresh (fun other hk => hknown ⟨other, hk⟩) hfree hjobId hstatus
        · refine Or.inr ⟨?_, e, _, Prod.ext he rfl⟩
          rintro ⟨-, hk | ⟨hfree, -⟩⟩
          · exact hknown hk
          · exact hused hfree
      · rw [if_neg (not_or.mpr ⟨hany, hdump⟩)]
        refine Or.inr ⟨?_, _, _, rfl⟩
        rintro ⟨-, hk | ⟨-, hfits⟩⟩
        · exact hknown hk
        · rw [hpayload] at hdump
          exact hdump hfits
  · rw [if_neg fun h => hunicode ((isUnicode_messageKey horigin).mp h)]
    exact Or.inr ⟨fun h => hunicode h.1, _, _, rfl⟩

/-! ## Views -/

section Views

variable {fits : PyValue → Prop} {tells : String → Prop} (htells : ∀ t, isAscii t = true → tells t)

/-- What a view shows may be sent. -/
def ViewFits (fits : PyValue → Prop) (tells : String → Prop) (shown : Option String) (artifacts : List PyValue) : Prop :=
  (∀ t, shown = some t → tells t) ∧ ∀ a ∈ artifacts, fits a

theorem viewFits_some {t : String} : ViewFits fits tells (some t) [] ↔ tells t := by
  constructor
  · exact fun h => h.1 t rfl
  · intro h
    refine ⟨fun t' ht' => ?_, fun a ha => by cases ha⟩
    rw [← Option.some.inj ht']
    exact h

theorem isRejection_spec (reason : PyValue) :
    (∃ rejected, isRejection reason = .ok rejected ∧ ((∀ xs, reason ≠ .list xs) ∧ ∀ items, reason ≠ .dict items) ∧
      (rejected = true ↔ reason = .str "origin_not_allowed" ∨ reason = .str "policy_denied")) ∨
    (∃ e, isRejection reason = .error e) ∧ ¬((∀ xs, reason ≠ .list xs) ∧ ∀ items, reason ≠ .dict items) := by
  cases reason with
  | list xs => exact Or.inr ⟨⟨_, rfl⟩, fun h => h.1 xs rfl⟩
  | dict items => exact Or.inr ⟨⟨_, rfl⟩, fun h => h.2 items rfl⟩
  | str t => exact Or.inl ⟨_, rfl, ⟨fun xs h => (by cases h), fun items h => by cases h⟩, by simp⟩
  | _ => exact Or.inl ⟨_, rfl, ⟨fun xs h => (by cases h), fun items h => by cases h⟩, by simp⟩

include htells

/-- The view of a completed job ends a stream, and may be sent where its result may; or it raises. -/
theorem mapResult_spec (result : PyDict) :
    (∃ state shown artifacts, mapResult text result = .ok (state, shown, artifacts) ∧ state ∈ stopStates ∧
      (ViewFits fits tells shown artifacts ↔ ResultFits text fits tells result)) ∨
    (∃ e, mapResult text result = .error e) ∧ ¬ResultFits text fits tells result := by
  unfold mapResult ResultFits
  dsimp only
  generalize PyDict.get result "status" = outcome
  generalize PyDict.get result "failure_reason" = reason
  by_cases hcomplete : outcome = .str "complete"
  · rw [if_pos hcomplete]
    refine Or.inl ⟨_, _, _, rfl, by decide, ?_⟩
    constructor
    · intro h
      exact ⟨fun _ => h.2 _ List.mem_cons_self, fun hne => absurd hcomplete hne⟩
    · intro h
      refine ⟨fun t ht => (by cases ht), fun a ha => ?_⟩
      rw [List.mem_singleton.mp ha]
      exact h.1 hcomplete
  · rw [if_neg hcomplete]
    by_cases hescalated : outcome = .str "escalated"
    · rw [if_pos hescalated]
      refine Or.inl ⟨_, _, _, rfl, by decide, ?_⟩
      rw [viewFits_some]
      exact iff_of_true (htells _ (by decide)) ⟨fun h => absurd h hcomplete, fun _ hne => absurd hescalated hne⟩
    · rw [if_neg hescalated]
      -- the text of a job that is not rejected
      have hfailed : ¬(outcome = .str "no_agent_found" ∧
          (reason = .str "origin_not_allowed" ∨ reason = .str "policy_denied")) →
          (outcome = .str "no_agent_found" → (∀ xs, reason ≠ .list xs) ∧ ∀ items, reason ≠ .dict items) →
          ∃ state shown artifacts, (Except.ok ("TASK_STATE_FAILED",
              some (text.str ((reason.orElse outcome).orElse (.str "task failed"))), []) :
              Except PyError (String × Option String × List PyValue)) = .ok (state, shown, artifacts) ∧
            state ∈ stopStates ∧ (ViewFits fits tells shown artifacts ↔
              (outcome = .str "complete" → fits (resultArtifact result)) ∧
                (outcome ≠ .str "complete" → outcome ≠ .str "escalated" →
                  (outcome = .str "no_agent_found" → (∀ xs, reason ≠ .list xs) ∧ ∀ items, reason ≠ .dict items) ∧
                  (¬(outcome = .str "no_agent_found" ∧
                      (reason = .str "origin_not_allowed" ∨ reason = .str "policy_denied")) →
                    tells (text.str ((reason.orElse outcome).orElse (.str "task failed")))))) := by
        intro hnot hhash
        refine ⟨_, _, _, rfl, by decide, ?_⟩
        rw [viewFits_some]
        constructor
        · exact fun h => ⟨fun hc => absurd hc hcomplete, fun _ _ => ⟨hhash, fun _ => h⟩⟩
        · exact fun h => (h.2 hcomplete hescalated).2 hnot
      by_cases hnone : outcome = .str "no_agent_found"
      · rw [if_pos hnone]
        rcases isRejection_spec reason with ⟨rejected, hrejected, hhash, hiff⟩ | ⟨⟨e, he⟩, hhash⟩
        · rw [hrejected]
          cases hr : rejected with
          | true =>
            have hreason := hiff.mp hr
            refine Or.inl ⟨_, _, _, rfl, by decide, ?_⟩
            rw [viewFits_some]
            refine iff_of_true (htells _ (by decide)) ⟨fun h => absurd h hcomplete, fun _ _ => ⟨fun _ => hhash, ?_⟩⟩
            exact fun hnot => absurd ⟨hnone, hreason⟩ hnot
          | false =>
            refine Or.inl (hfailed ?_ fun _ => hhash)
            rintro ⟨-, hreason⟩
            rw [hiff.mpr hreason] at hr
            cases hr
        · rw [he]
          refine Or.inr ⟨⟨e, rfl⟩, fun h => hhash ((h.2 hcomplete hescalated).1 hnone)⟩
      · rw [if_neg hnone]
        exact Or.inl (hfailed (fun h => hnone h.1) fun h => absurd h hnone)

/-- The view of a job may be sent where the result of a completed job may; or it raises. -/
theorem taskView_spec (s : Db) (job : Job) :
    (∃ view, taskView text s job = .ok view ∧ isAscii view.id = true ∧
      isAscii view.state = true ∧ (view.state ∈ stopStates ↔ ¬(job.status = .queued ∨ job.status = .running)) ∧
      (ViewFits fits tells view.text view.artifacts ↔
        (job.status = .completed → ResultFits text fits tells ((getResult s job.jobId).getD [])))) ∨
    (∃ e, taskView text s job = .error e) ∧
      ¬(job.status = .completed → ResultFits text fits tells ((getResult s job.jobId).getD [])) := by
  have hstates : ∀ state ∈ stopStates, isAscii state = true := by decide
  -- a view that a status has without its result
  have hconst : ∀ state shown, job.status ≠ .completed → isAscii state = true → (∀ t, shown = some t → isAscii t = true) →
      (state ∈ stopStates ↔ ¬(job.status = .queued ∨ job.status = .running)) →
      mapJob text job (getResult s job.jobId) = .ok (state, shown, []) →
      ∃ view, taskView text s job = .ok view ∧ isAscii view.id = true ∧
        isAscii view.state = true ∧ (view.state ∈ stopStates ↔ ¬(job.status = .queued ∨ job.status = .running)) ∧
        (ViewFits fits tells view.text view.artifacts ↔
          (job.status = .completed → ResultFits text fits tells ((getResult s job.jobId).getD []))) := by
    intro state shown hnot hascii htext hstop hmap
    refine ⟨{ id := job.jobId.text, state, text := shown, artifacts := [] }, ?_, Uuid.isAscii_text _, hascii, hstop, ?_⟩
    · unfold taskView
      rw [hmap]
      rfl
    · exact iff_of_true ⟨fun t ht => htells t (htext t ht), fun a ha => (by cases ha)⟩ fun h => absurd h hnot
  cases hstatus : job.status with
  | completed =>
    have hmap : mapJob text job (getResult s job.jobId) = mapResult text ((getResult s job.jobId).getD []) := by
      unfold mapJob
      rw [hstatus]
    rcases @mapResult_spec text fits tells htells ((getResult s job.jobId).getD []) with
      ⟨state, shown, artifacts, hresult, hstop, hfits⟩ | ⟨⟨e, he⟩, hfits⟩
    · refine Or.inl ⟨{ id := job.jobId.text, state, text := shown, artifacts }, ?_, Uuid.isAscii_text _,
        hstates state hstop, iff_of_true hstop (by simp), ?_⟩
      · unfold taskView
        rw [hmap, hresult]
        rfl
      · exact hfits.trans ⟨fun h _ => h, fun h => h rfl⟩
    · refine Or.inr ⟨⟨e, ?_⟩, fun h => hfits (h rfl)⟩
      unfold taskView
      rw [hmap, he]
      rfl
  | queued =>
    have hmap : mapJob text job (getResult s job.jobId) = .ok ("TASK_STATE_SUBMITTED", none, []) := by
      unfold mapJob
      rw [hstatus]
    rw [hstatus] at hconst
    exact Or.inl (hconst _ _ (by simp) (by decide) (by simp) (by decide) hmap)
  | running =>
    have hmap : mapJob text job (getResult s job.jobId) = .ok ("TASK_STATE_WORKING", none, []) := by
      unfold mapJob
      rw [hstatus]
    rw [hstatus] at hconst
    exact Or.inl (hconst _ _ (by simp) (by decide) (by simp) (by decide) hmap)
  | cancelled =>
    have hmap : mapJob text job (getResult s job.jobId) = .ok ("TASK_STATE_CANCELED", none, []) := by
      unfold mapJob
      rw [hstatus]
    rw [hstatus] at hconst
    exact Or.inl (hconst _ _ (by simp) (by decide) (by simp) (by decide) hmap)
  | failed =>
    have hmap : mapJob text job (getResult s job.jobId) = .ok ("TASK_STATE_FAILED", some "task failed", []) := by
      unfold mapJob
      rw [hstatus]
    rw [hstatus] at hconst
    exact Or.inl (hconst _ _ (by simp) (by decide) (by intro t ht; cases ht; decide) (by decide) hmap)

end Views

theorem showJob_ok {job : Job} {view : TaskView} (h : taskView text s job = .ok view) :
    A2AServer.showJob text s job = .ok (some job.jobId, view) := by
  unfold A2AServer.showJob
  rw [h]
  rfl

theorem showJob_error {job : Job} {e : PyError} (h : taskView text s job = .error e) :
    A2AServer.showJob text s job = .error (.raised e) := by
  unfold A2AServer.showJob
  rw [h]
  rfl

/-- The row of a job that is read has the status of the job. -/
theorem status_of_getJob (h : s.Inv) {jobId : Uuid} {job : Job} (hget : getJob s jobId = .ok (some job)) :
    ∃ row, s.job? jobId = some row ∧ row.status = job.status := by
  have hstatus := A2AServer.status?_of_getJob h hget
  unfold Db.status? at hstatus
  obtain ⟨row, hrow, heq⟩ := Option.map_eq_some_iff.mp hstatus
  exact ⟨row, hrow, heq⟩

theorem jobFits_iff {fits : PyValue → Prop} {tells : String → Prop} (h : s.Inv) {r : Db} {jobId : Uuid} {job : Job}
    (hget : getJob s jobId = .ok (some job)) :
    JobFits text fits tells s r jobId ↔
      (job.status = .completed → ResultFits text fits tells ((getResult r jobId).getD [])) := by
  obtain ⟨row, hrow, hstatus⟩ := status_of_getJob h hget
  unfold JobFits
  rw [hrow, ← hstatus]
  exact ⟨fun hfits => hfits row rfl, fun hfits row' heq => Option.some.inj heq ▸ hfits⟩

theorem waits_iff (h : s.Inv) {jobId : Uuid} {job : Job} (hget : getJob s jobId = .ok (some job)) :
    Waits s jobId ↔ job.status = .queued ∨ job.status = .running := by
  obtain ⟨row, hrow, hstatus⟩ := status_of_getJob h hget
  unfold Waits
  rw [hrow, ← hstatus]
  exact ⟨fun hwaits => hwaits row rfl, fun hwaits row' heq => Option.some.inj heq ▸ hwaits⟩

/-! ## Sending a message -/

/-- The message is stored, if it makes a task, and its job may be sent. -/
def Sendable (text : PyText) (py : Interpreter) (caller : CallerConfig) (fits : PyValue → Prop) (tells : String → Prop)
    (params : PyDict) (ids : RequestIds) (s : Db) : Prop :=
  PartsFit params ∧ ∀ m, ReadsAs params m → caller.allowsSkill m.skill = true → MakesTask py caller m →
    Stores py caller m ids s ∧ ∀ jobId, HasKey caller m s jobId → JobFits text fits tells s s jobId

/-- The job that a message is answered with: that of its key, or a new one. -/
def AnsweredWith (caller : CallerConfig) (m : A2AMessage) (ids : RequestIds) (s : Db) (jobId : Uuid) : Prop :=
  HasKey caller m s jobId ∨ (∀ other, ¬HasKey caller m s other) ∧ jobId = ids.jobId

/-- How `enqueue` ends: it refuses the message, lets an exception through, rejects the skill, or shows the job. -/
inductive Enqueued (text : PyText) (py : Interpreter) (caller : CallerConfig) (fits : PyValue → Prop)
    (tells : String → Prop) (params : PyDict) (ids : RequestIds) (s : Db) : Except A2AFailure Shown × Db → Prop where
  | refused {f : A2AFailure} (hf : Refusal f) (hparts : PartsFit params)
    (hnone : ∀ m, ReadsAs params m → caller.allowsSkill m.skill = true ∧ ¬MakesTask py caller m) :
    Enqueued text py caller fits tells params ids s (.error f, s)
  | escaped {e : PyError} {s' : Db} (h : ¬Sendable text py caller fits tells params ids s) :
    Enqueued text py caller fits tells params ids s (.error (.raised e), s')
  | rejected {m : A2AMessage} (hparts : PartsFit params) (hread : ReadsAs params m)
    (hdenied : ¬caller.allowsSkill m.skill = true) :
    Enqueued text py caller fits tells params ids s (.ok (none, A2AServer.rejectedView ids), s)
  | shown {m : A2AMessage} {jobId : Uuid} {view : TaskView} {s' : Db} (hparts : PartsFit params)
    (hread : ReadsAs params m) (hallowed : caller.allowsSkill m.skill = true) (htask : MakesTask py caller m)
    (hstores : Stores py caller m ids s) (hjob : AnsweredWith caller m ids s jobId) (hid : isAscii view.id = true)
    (hstate : isAscii view.state = true) (hstop : view.state ∈ stopStates ↔ ¬Waits s jobId)
    (hview : ViewFits fits tells view.text view.artifacts ↔ JobFits text fits tells s s jobId) :
    Enqueued text py caller fits tells params ids s (.ok (some jobId, view), s')

theorem enqueue_spec {fits : PyValue → Prop} {tells : String → Prop} (htells : ∀ t, isAscii t = true → tells t)
    (hs : s.Inv ∧ s.KeysNodup) :
    Enqueued text py caller fits tells params ids s (enqueue text py caller params ids s) := by
  unfold enqueue submit
  dsimp only
  rcases readMessage_spec params with ⟨m, hok, hparts, hread⟩ | ⟨f, hf, hrefusal, hparts, hno⟩ | ⟨e, he, hparts⟩
  · rw [hok]
    dsimp only
    by_cases hallowed : caller.allowsSkill m.skill = true
    · rw [if_pos hallowed]
      have hrefused : ¬MakesTask py caller m →
          Enqueued text py caller fits tells params ids s (invalidParams "invalid skill", s) := by
        intro hno
        refine Enqueued.refused (refusal_invalidParams (by decide)) hparts fun m' hread' => ?_
        rw [hread.unique hread']
        exact ⟨hallowed, hno⟩
      by_cases hunicode : py.isUnicode caller.origin = true ∧ py.isUnicode m.skill = true
      · rw [if_pos hunicode]
        rcases @contractOf_spec caller params ids m hread with ⟨hskill, task, hvalid, hid, hpayload⟩ | ⟨hskill, e, he⟩
        · have htask : MakesTask py caller m := ⟨hunicode, hskill⟩
          rw [hvalid]
          dsimp only
          rcases storeTask_spec hs hok hunicode.1 hid hpayload with ⟨hstores, job, s', hstored, hcase⟩ |
            ⟨hno, e, s', he⟩
          · rw [hstored]
            show Enqueued text py caller fits tells params ids s (A2AServer.showJob text s' job, s')
            cases hcase with
            | @known job jobId hkey hget =>
              have hjobId := (getJob_jobId hget).1
              rcases @taskView_spec text fits tells htells s job with
                ⟨view, hshow, hid, hstate, hstop, hview⟩ | ⟨⟨e, he⟩, hno⟩
              · rw [showJob_ok hshow, hjobId]
                rw [hjobId, ← jobFits_iff hs.1 hget] at hview
                rw [← waits_iff hs.1 hget] at hstop
                exact Enqueued.shown hparts hread hallowed htask hstores (Or.inl hkey) hid hstate hstop hview
              · rw [showJob_error he]
                rw [hjobId, ← jobFits_iff hs.1 hget] at hno
                exact Enqueued.escaped fun h => hno ((h.2 m hread hallowed htask).2 jobId hkey)
            | fresh hkey hfree hjobId hqueued =>
              rcases @taskView_spec text fits tells htells s' job with
                ⟨view, hshow, hid, hstate, hstop, hview⟩ | ⟨-, hno⟩
              · rw [showJob_ok hshow, hjobId]
                have hwaits : Waits s ids.jobId := fun row hrow => by rw [hfree] at hrow; cases hrow
                have hfits : JobFits text fits tells s s ids.jobId := fun row hrow => by rw [hfree] at hrow; cases hrow
                refine Enqueued.shown hparts hread hallowed htask hstores (Or.inr ⟨hkey, rfl⟩) hid hstate ?_ ?_
                · exact hstop.trans (iff_of_false (not_not.mpr (Or.inl hqueued)) (not_not.mpr hwaits))
                · exact hview.trans (iff_of_true (fun hc => by rw [hqueued] at hc; cases hc) hfits)
              · exact absurd (fun hc => by rw [hqueued] at hc; cases hc) hno
          · rw [he]
            exact Enqueued.escaped fun h => hno (h.2 m hread hallowed htask).1
        · rw [he]
          exact hrefused fun h => h.2 hskill
      · rw [if_neg hunicode]
        exact hrefused fun h => hunicode h.1
    · rw [if_neg hallowed]
      exact Enqueued.rejected hparts hread hallowed
  · rw [hf]
    exact Enqueued.refused hrefusal hparts fun m hread => absurd hread (hno m)
  · rw [he]
    exact Enqueued.escaped fun h => hparts h.1

/-! ## Jobs by their id -/

/-- How `owned_job` ends: it refuses the id, lets an exception through, or finds a job of the caller. -/
inductive Owned (text : PyText) (py : Interpreter) (caller : CallerConfig) (params : PyDict) (s : Db) :
    Except A2AFailure Job → Prop where
  | refused {f : A2AFailure} (hf : Refusal f) (h : ∀ fits, IdFits text py caller params s fits) :
    Owned text py caller params s (.error f)
  | escaped {e : PyError} (h : ∀ fits, ¬IdFits text py caller params s fits) :
    Owned text py caller params s (.error (.raised e))
  | found {job : Job} {jobId : Uuid} (hget : getJob s jobId = .ok (some job))
    (h : ∀ fits, IdFits text py caller params s fits ↔ fits jobId) : Owned text py caller params s (.ok job)

theorem ownedJob_spec (hs : s.Inv) : Owned text py caller params s (ownedJob text py caller params s) := by
  have hnotFound : Refusal (.a2a .taskNotFound) := ⟨_, rfl, by decide⟩
  unfold ownedJob
  cases hparse : Uuid.parse (text.str (PyDict.get params "id")) with
  | error e =>
    refine Owned.refused hnotFound fun fits jobId hid => ?_
    rw [hparse] at hid
    cases hid
  | ok jobId =>
    have honly : ∀ fits, IdFits text py caller params s fits ↔ (s.job? jobId ≠ none →
        (∀ task, getTask s jobId = some task → 1 + (PyValue.dict task.payload).depth ≤ py.readDepth) ∧
          (A2AServer.TaskOf s jobId caller.origin → fits jobId)) := by
      intro fits
      unfold IdFits
      rw [hparse]
      exact ⟨fun h => h jobId rfl, fun h other hid => Except.ok.inj hid ▸ h⟩
    obtain ⟨found, hget, hiff⟩ := getJob_ok hs jobId
    dsimp only
    rw [hget]
    cases found with
    | none =>
      refine Owned.refused hnotFound fun fits => (honly fits).mpr fun hjob => ?_
      have hsome := hiff.mpr (Option.isSome_iff_ne_none.mpr hjob)
      cases hsome
    | some job =>
      have hjob : s.job? jobId ≠ none := (getJob_jobId hget).2
      show Owned text py caller params s (passing (readTask py s jobId) >>= _)
      unfold readTask
      cases htask : getTask s jobId with
      | none =>
        refine Owned.refused hnotFound fun fits => (honly fits).mpr fun _ => ⟨fun task h => ?_, ?_⟩
        · rw [htask] at h
          cases h
        · rintro ⟨task, h, -⟩
          rw [htask] at h
          cases h
      | some task =>
        dsimp only
        by_cases hdepth : 1 + (PyValue.dict task.payload).depth ≤ py.readDepth
        · rw [if_pos hdepth]
          have hread : ∀ task', getTask s jobId = some task' →
              1 + (PyValue.dict task'.payload).depth ≤ py.readDepth := by
            intro task' h
            rw [htask] at h
            cases h
            exact hdepth
          show Owned text py caller params s (if task.origin = caller.origin then .ok job
            else .error (.a2a .taskNotFound))
          by_cases horigin : task.origin = caller.origin
          · rw [if_pos horigin]
            refine Owned.found hget fun fits => (honly fits).trans ?_
            exact ⟨fun h => (h hjob).2 ⟨task, htask, horigin⟩, fun h _ => ⟨hread, fun _ => h⟩⟩
          · rw [if_neg horigin]
            refine Owned.refused hnotFound fun fits => (honly fits).mpr fun _ => ⟨hread, ?_⟩
            rintro ⟨task', h, horigin'⟩
            rw [htask] at h
            cases h
            exact absurd horigin' horigin
        · rw [if_neg hdepth]
          exact Owned.escaped fun fits h => hdepth (((honly fits).mp h hjob).1 task htask)

/-- How a handler ends: it refuses, and the jobs are as before, it lets an exception through, or it returns a
result, which can be sent exactly if the parameters fit. -/
inductive Handled (py : Interpreter) (s : Db) (fits : Prop) : Except A2AFailure PyValue × Db → Prop where
  | refused {f : A2AFailure} (hf : Refusal f) (h : fits) : Handled py s fits (.error f, s)
  | escaped {e : PyError} {s' : Db} (h : ¬fits) : Handled py s fits (.error (.raised e), s')
  | done {result : PyValue} {s' : Db} (h : fits ↔ py.response.Fits 1 result) : Handled py s fits (.ok result, s')

/-- The task that shows a job can be sent where the result of a completed job can. -/
theorem shownTask_spec (stamp : Stamp) (s s' : Db) (job : Job) : Handled py s
    (job.status = .completed → ResultFits text (py.response.Fits 3) (fun t => py.isUnicode t = true)
      ((getResult s' job.jobId).getD [])) (shownTask text stamp s' job, s') := by
  unfold shownTask
  rcases @taskView_spec text (py.response.Fits 3) (fun t => py.isUnicode t = true)
    (fun t => Interpreter.isUnicode_of_isAscii) s' job with ⟨view, hshow, hid, hstate, -, hview⟩ | ⟨⟨e, he⟩, hno⟩
  · rw [showJob_ok hshow]
    refine Handled.done (hview.symm.trans ?_)
    exact (fits_makeTask Interpreter.response_takesAscii py.response_room (by omega) stamp
      (Interpreter.isUnicode_of_isAscii hid) (Interpreter.isUnicode_of_isAscii hstate)).symm
  · rw [showJob_error he]
    exact Handled.escaped hno

/-- The handler of `GetTask`. -/
theorem getTask_spec (hs : s.Inv) (stamp : Stamp) :
    Handled py s (IdFits text py caller params s fun jobId =>
        JobFits text (py.response.Fits 3) (fun t => py.isUnicode t = true) s s jobId)
      (ownedJob text py caller params s >>= shownTask text stamp s, s) := by
  have howned := @ownedJob_spec text py caller params s hs
  generalize ownedJob text py caller params s = owned at howned ⊢
  cases howned with
  | refused hf h => exact Handled.refused hf (h _)
  | escaped h => exact Handled.escaped (h _)
  | @found job jobId hget h =>
    have hfits : IdFits text py caller params s (fun jobId =>
        JobFits text (py.response.Fits 3) (fun t => py.isUnicode t = true) s s jobId) ↔
          JobFits text (py.response.Fits 3) (fun t => py.isUnicode t = true) s s jobId := h _
    have hshown := @shownTask_spec text py stamp s s job
    rw [(getJob_jobId hget).1, ← jobFits_iff hs hget, ← hfits] at hshown
    exact hshown

/-- The handler of `CancelTask`. -/
theorem cancelTask_spec (hs : s.Inv) (stamp : Stamp) :
    Handled py s (IdFits text py caller params s fun _ => True)
      ((cancelOwned text py caller params ids s).1 >>=
        shownTask text stamp (cancelOwned text py caller params ids s).2, (cancelOwned text py caller params ids s).2) := by
  unfold cancelOwned
  have howned := @ownedJob_spec text py caller params s hs
  generalize ownedJob text py caller params s = owned at howned ⊢
  cases howned with
  | refused hf h => exact Handled.refused hf (h _)
  | escaped h => exact Handled.escaped (h _)
  | @found job jobId hget h =>
    have hfits : IdFits text py caller params s fun _ => True := (h _).mpr trivial
    obtain ⟨row, hrow, -⟩ := status_of_getJob hs hget
    rw [← (getJob_jobId hget).1] at hrow
    dsimp only
    rcases cancel_spec hs hrow ids.now with ⟨-, message, he⟩ | ⟨-, job', s', -, hok, hstatus, -⟩
    · rw [he]
      exact Handled.refused ⟨_, rfl, by decide⟩ hfits
    · rw [hok]
      have hshown := @shownTask_spec text py stamp s s' job'
      have htrue : (job'.status = .completed → ResultFits text (py.response.Fits 3) (fun t => py.isUnicode t = true)
          ((getResult s' job'.jobId).getD [])) ↔ IdFits text py caller params s fun _ => True :=
        iff_of_true (fun hc => by rw [hstatus] at hc; cases hc) hfits
      rw [htrue] at hshown
      exact hshown

/-! ## Methods -/

/-- A message is answered with one job. -/
theorem AnsweredWith.unique (hkeys : s.KeysNodup) {m : A2AMessage} {jobId other : Uuid}
    (h : AnsweredWith caller m ids s jobId) (h' : AnsweredWith caller m ids s other) : other = jobId := by
  rcases h with ⟨k, hk, hkk, rfl⟩ | ⟨hnone, rfl⟩
  · rcases h' with ⟨k', hk', hkk', rfl⟩ | ⟨hnone', -⟩
    · rw [Table.eq_of_key IdempotencyRow.idempotencyKey hkeys hk' hk (hkk'.trans hkk.symm)]
    · exact absurd ⟨k, hk, hkk, rfl⟩ (hnone' k.jobId)
  · rcases h' with hk' | ⟨-, rfl⟩
    · exact absurd hk' (hnone other)
    · rfl

/-- A new job has nothing that could not be sent. -/
theorem Stores.fresh {m : A2AMessage} (h : Stores py caller m ids s) (hnone : ∀ other, ¬HasKey caller m s other) :
    s.job? ids.jobId = none := by
  rcases h.2 with ⟨jobId, hk⟩ | ⟨hfree, -⟩
  · exact absurd hk (hnone jobId)
  · exact hfree

/-- The handler of `SendMessage`. -/
theorem sendMessage_spec (hs : s.Inv ∧ s.KeysNodup) (stamp : Stamp) :
    Handled py s (SendFits text py caller params ids s)
      ((enqueue text py caller params ids s).1.map fun shown => .dict [("task", makeTask stamp shown.2)],
        (enqueue text py caller params ids s).2) := by
  have hascii : py.response.TakesAscii := Interpreter.response_takesAscii
  have hroom : 9 ≤ py.response.maxDepth := py.response_room
  have hresult : ∀ view : TaskView, isAscii view.id = true → isAscii view.state = true →
      (py.response.Fits 1 (.dict [("task", makeTask stamp view)]) ↔
        ViewFits (py.response.Fits 4) (fun t => py.isUnicode t = true) view.text view.artifacts) := by
    intro view hid hstate
    rw [JsonEncoder.fits_dict, List.forall_mem_singleton,
      fits_makeTask hascii hroom (by omega) stamp (hascii _ hid) (hascii _ hstate)]
    have hkey : isAscii "task" = true := by decide
    exact ⟨fun h => h.2.2, fun h => ⟨by omega, hascii _ hkey, h⟩⟩
  have hspec := @enqueue_spec text py caller params ids s (py.response.Fits 4) (fun t => py.isUnicode t = true)
    (fun t => Interpreter.isUnicode_of_isAscii) hs
  generalize enqueue text py caller params ids s = answer at hspec ⊢
  cases hspec with
  | refused hf hparts hnone =>
    exact Handled.refused hf ⟨hparts, fun m hread _ htask => absurd htask (hnone m hread).2⟩
  | escaped h => exact Handled.escaped h
  | @rejected m hparts hread hdenied =>
    refine Handled.done (iff_of_true ⟨hparts, fun m' hread' hallowed => ?_⟩ ?_)
    · rw [hread.unique hread'] at hallowed
      exact absurd hallowed hdenied
    · have hstate : isAscii "TASK_STATE_REJECTED" = true := by decide
      rw [hresult (A2AServer.rejectedView ids) (Uuid.isAscii_text _) hstate]
      refine ⟨fun t ht => ?_, fun a ha => by cases ha⟩
      rw [← Option.some.inj ht]
      exact Interpreter.isUnicode_of_isAscii (by decide)
  | @shown m jobId view s' hparts hread hallowed htask hstores hjob hid hstate hstop hview =>
    refine Handled.done ?_
    rw [hresult view hid hstate, hview]
    constructor
    · intro h
      rcases hjob with hk | ⟨hnone, rfl⟩
      · exact (h.2 m hread hallowed htask).2 jobId hk
      · intro row hrow
        rw [hstores.fresh hnone] at hrow
        cases hrow
    · intro h
      refine ⟨hparts, fun m' hread' _ _ => ?_⟩
      rw [hread.unique hread']
      refine ⟨hstores, fun other hk => ?_⟩
      rw [hjob.unique hs.2 (Or.inl hk)]
      exact h

variable {Time : Type} {registry : List (ManifestRecord Time)} {version url : String}

/-- Every method but the one with a stream. -/
theorem dispatch_spec (hs : s.Inv ∧ s.KeysNodup) (method : String) (stamp : Stamp) :
    Handled py s
      (if method = "SendMessage" then SendFits text py caller params ids s
      else if method = "GetTask" then IdFits text py caller params s fun jobId =>
        JobFits text (py.response.Fits 3) (fun t => py.isUnicode t = true) s s jobId
      else if method = "CancelTask" then IdFits text py caller params s fun _ => True
      else if method = "GetExtendedAgentCard" then CardFits py caller registry version url
      else True)
      (dispatch text py caller (buildExtendedCard registry version (rstripSlash url) caller) method params ids stamp
        s) := by
  unfold dispatch
  dsimp only
  by_cases hsend : method = "SendMessage"
  · rw [if_pos hsend, if_pos hsend]
    exact sendMessage_spec hs stamp
  rw [if_neg hsend, if_neg hsend]
  by_cases hget : method = "GetTask"
  · rw [if_pos hget, if_pos hget]
    exact getTask_spec hs.1 stamp
  rw [if_neg hget, if_neg hget]
  by_cases hcancel : method = "CancelTask"
  · rw [if_pos hcancel, if_pos hcancel]
    exact cancelTask_spec hs.1 stamp
  rw [if_neg hcancel, if_neg hcancel]
  by_cases hcard : method = "GetExtendedAgentCard"
  · rw [if_pos hcard, if_pos hcard]
    exact Handled.done (fits_buildExtendedCard registry version url caller).symm
  · rw [if_neg hcard, if_neg hcard]
    exact Handled.refused ⟨_, rfl, by decide⟩ trivial

/-! ## Streams -/

/-- The looks fit if the first one does and, where it leaves the job waiting, the others do. -/
theorem looksFit_cons {jobId : Uuid} {poll : Db × Db} {polls : List (Db × Db)} :
    LooksFit text py jobId (poll :: polls) ↔
      JobFits text (py.frame.Fits 3) (fun _ => True) poll.1 poll.2 jobId ∧
        (poll.1.job? jobId ≠ none ∧ Waits poll.1 jobId → LooksFit text py jobId polls) := by
  constructor
  · intro h
    refine ⟨h [] poll polls rfl fun p hp => (by cases hp), fun hwaits before q after hpolls hbefore => ?_⟩
    exact h (poll :: before) q after (by rw [hpolls]; rfl) (List.forall_mem_cons.mpr ⟨hwaits, hbefore⟩)
  · rintro ⟨hfirst, hrest⟩ before q after hpolls hbefore
    cases before with
    | nil =>
      cases hpolls
      exact hfirst
    | cons b before =>
      obtain ⟨rfl, hlater⟩ := List.cons.inj hpolls
      obtain ⟨hb, hbefore⟩ := List.forall_mem_cons.mp hbefore
      exact hrest hb before q after hlater hbefore

/-- The artifacts of the frames fit. -/
def ArtifactsFit (py : Interpreter) (frames : List StreamFrame) : Prop :=
  ∀ f ∈ frames, ∀ a ∈ f.artifacts, py.frame.Fits (if f.isTask = true then 4 else 3) a

theorem artifactsFit_append {fs gs : List StreamFrame} :
    ArtifactsFit py (fs ++ gs) ↔ ArtifactsFit py fs ∧ ArtifactsFit py gs := List.forall_mem_append

/-- The frames for a view fit where its artifacts do. -/
theorem artifactsFit_updates {view : TaskView} {job : Job} (h : taskView text s job = .ok view) :
    ArtifactsFit py (A2AServer.updates view) ↔ ∀ a ∈ view.artifacts, py.frame.Fits 3 a := by
  obtain ⟨-, shown, hmap⟩ := A2AServer.taskView_ok h
  have hstatus : ArtifactsFit py [.statusUpdate view.id view.state view.text] := by
    intro f hf a ha
    rw [List.mem_singleton.mp hf] at ha
    cases ha
  unfold A2AServer.updates
  rw [artifactsFit_append, and_iff_left hstatus]
  by_cases hcompleted : view.state = "TASK_STATE_COMPLETED"
  · rw [if_pos hcompleted]
    unfold ArtifactsFit
    rw [List.forall_mem_map]
    constructor
    · exact fun hall a ha => hall a ha a List.mem_cons_self
    · intro hall a ha b hb
      rw [List.mem_singleton.mp hb]
      exact hall a ha
  · have hnone : view.artifacts = [] := (A2AServer.mapJob_shows hmap).2 hcompleted
    rw [if_neg hcompleted, hnone]
    exact iff_of_true (fun f hf => by cases hf) (fun a ha => by cases ha)

/-- The loop of `events` ends and its frames fit exactly if the looks do, unless it has stopped before. -/
theorem pollLoop_spec {jobId : Uuid} (polls : List (Db × Db)) (hpolls : ∀ p ∈ polls, p.1.Inv) :
    ∀ state : String, ((A2AServer.pollLoop text jobId state polls).2 = .ok () ∧
      ArtifactsFit py (A2AServer.pollLoop text jobId state polls).1) ↔
        (state ∉ stopStates → LooksFit text py jobId polls) := by
  have hnothing : ArtifactsFit py [] := fun f hf => by cases hf
  induction polls with
  | nil =>
    intro state
    refine iff_of_true ⟨rfl, hnothing⟩ fun _ before poll after hpolls => ?_
    cases before <;> cases hpolls
  | cons poll polls ih =>
    intro state
    obtain ⟨hinv, hrest⟩ := List.forall_mem_cons.mp hpolls
    unfold A2AServer.pollLoop
    by_cases hstop : state ∈ stopStates
    · rw [if_pos hstop]
      exact iff_of_true ⟨rfl, hnothing⟩ fun hnot => absurd hstop hnot
    · rw [if_neg hstop, looksFit_cons]
      obtain ⟨found, hget, hiff⟩ := getJob_ok hinv jobId
      unfold A2AServer.pollView
      rw [hget]
      cases found with
      | none =>
        have hnone : poll.1.job? jobId = none := by
          by_contra hsome
          have := hiff.mpr (Option.isSome_iff_ne_none.mpr hsome)
          cases this
        refine iff_of_true ⟨rfl, hnothing⟩ fun _ => ⟨fun row hrow => ?_, fun hwaits => absurd hnone hwaits.1⟩
        rw [hnone] at hrow
        cases hrow
      | some job =>
        have hsome : poll.1.job? jobId ≠ none := (getJob_jobId hget).2
        have hspec := @taskView_spec text (py.frame.Fits 3) (fun _ => True) (fun _ _ => trivial) poll.2 job
        rw [(getJob_jobId hget).1, ← jobFits_iff hinv hget, ← waits_iff hinv hget] at hspec
        rcases hspec with ⟨view, hview, -, -, hends, hfits⟩ | ⟨⟨e, he⟩, hno⟩
        · have hartifacts : (∀ a ∈ view.artifacts, py.frame.Fits 3 a) ↔
              JobFits text (py.frame.Fits 3) (fun _ => True) poll.1 poll.2 jobId :=
            Iff.trans ⟨fun h => ⟨fun _ _ => trivial, h⟩, fun h => h.2⟩ hfits
          have hwaits : view.state ∉ stopStates ↔ poll.1.job? jobId ≠ none ∧ Waits poll.1 jobId := by
            rw [hends, not_not]
            exact (and_iff_right hsome).symm
          simp only [bind, Except.bind, hview]
          by_cases hsame : view.state = state
          · rw [if_pos hsame, ih hrest state]
            rw [hsame] at hwaits
            constructor
            · intro h hnot
              refine ⟨fun row hrow hcompleted => ?_, fun _ => h hnot⟩
              rcases (hwaits.mp hnot).2 row hrow with hq | hr
              · rw [hq] at hcompleted
                cases hcompleted
              · rw [hr] at hcompleted
                cases hcompleted
            · exact fun h hnot => (h hnot).2 (hwaits.mp hnot)
          · rw [if_neg hsame]
            have hlater := ih hrest view.state
            rw [artifactsFit_append, artifactsFit_updates hview, hartifacts]
            rw [hwaits] at hlater
            constructor
            · exact fun h _ => ⟨h.2.1, hlater.mp ⟨h.1, h.2.2⟩⟩
            · intro h
              obtain ⟨hjob, hafter⟩ := h hstop
              obtain ⟨hend, hfits⟩ := hlater.mpr hafter
              exact ⟨hend, hjob, hfits⟩
        · simp only [bind, Except.bind, he]
          refine iff_of_false (fun h => ?_) fun h => hno (h hstop).1
          cases h.1

/-- A stream ends without an exception exactly if the loop does and every frame fits; then every frame is
sent. -/
theorem sendFrames_spec (requestId : PyValue) (stamps : ℕ → Stamp) (ending : Except PyError Unit)
    (frames : List StreamFrame) : ∀ n,
      ((sendFrames py requestId stamps ending n frames).2 = .ok () ↔
        ending = .ok () ∧ (frames ≠ [] → py.frame.Fits 1 requestId) ∧ ArtifactsFit py frames) ∧
      ((sendFrames py requestId stamps ending n frames).2 = .ok () →
        (sendFrames py requestId stamps ending n frames).1.length = frames.length) ∧
      ∀ content ∈ (sendFrames py requestId stamps ending n frames).1, ∃ payload,
        content = rpcResult requestId payload := by
  induction frames with
  | nil =>
    intro n
    refine ⟨⟨fun h => ⟨h, fun hne => absurd rfl hne, fun f hf => by cases hf⟩, fun h => h.1⟩, fun _ => rfl, ?_⟩
    exact fun content hcontent => by cases hcontent
  | cons f frames ih =>
    intro n
    obtain ⟨hend, hlength, hcontents⟩ := ih (n + 1)
    unfold sendFrames
    dsimp only
    by_cases hfits : py.frame.Fits 0 (rpcResult requestId (framePayload (stamps n) f))
    · rw [if_pos hfits]
      have hframe := (fits_framePayload requestId (stamps n) f).mp hfits
      refine ⟨?_, fun h => ?_, ?_⟩
      · dsimp only
        rw [hend]
        constructor
        · rintro ⟨hok, -, hrest⟩
          exact ⟨hok, fun _ => hframe.1, List.forall_mem_cons.mpr ⟨hframe.2, hrest⟩⟩
        · rintro ⟨hok, -, hall⟩
          exact ⟨hok, fun _ => hframe.1, (List.forall_mem_cons.mp hall).2⟩
      · rw [List.length_cons, List.length_cons, hlength h]
      · exact List.forall_mem_cons.mpr ⟨⟨_, rfl⟩, hcontents⟩
    · rw [if_neg hfits]
      refine ⟨iff_of_false (fun h => by cases h) ?_, fun h => (by cases h), fun content hcontent => by cases hcontent⟩
      rintro ⟨-, hid, hall⟩
      apply hfits
      rw [fits_framePayload]
      exact ⟨hid (List.cons_ne_nil _ _), (List.forall_mem_cons.mp hall).1⟩

/-! ## Responses -/

theorem isResponse_rpcError (requestId : PyValue) (e : A2AError) :
    IsResponse requestId (rpcError requestId e) true := ⟨_, rfl, rfl, rfl, rfl, rfl⟩

theorem isResponse_rpcResult (requestId result : PyValue) :
    IsResponse requestId (rpcResult requestId result) false := ⟨_, rfl, rfl, rfl, rfl, rfl⟩

theorem jsonResponse_cases (content : PyValue) :
    (py.response.Fits 0 content ∧ jsonResponse py content = .ok (.json content)) ∨
      ¬py.response.Fits 0 content ∧ ∃ e, jsonResponse py content = .error e := by
  unfold jsonResponse
  by_cases hfits : py.response.Fits 0 content
  · rw [if_pos hfits]
    exact Or.inl ⟨hfits, rfl⟩
  · rw [if_neg hfits]
    refine Or.inr ⟨hfits, ?_⟩
    split_ifs
    · exact ⟨_, rfl⟩
    · exact ⟨_, rfl⟩

/-- An exception that escapes is no answer. -/
theorem not_answers_of_raised {loads : List UInt8 → Body} {request : A2ARequest} {answer : Except PyError A2AReply × Db}
    (h : raised answer.1 = true) : ¬Answers loads request s answer := by
  obtain ⟨reply, s'⟩ := answer
  cases reply with
  | error e => exact id
  | ok reply => cases h

theorem readId_none {loads : List UInt8 → Body} {request : A2ARequest}
    (h : ∀ declared body, declaredLength request.contentLength = .ok declared →
      loads request.raw = .json (.dict body) → tooLarge declared request.raw = true) :
    readId loads request = .none := by
  unfold readId
  split
  · next declared body hdeclared hloads => exact if_pos (h declared body hdeclared hloads)
  · rfl

section Responses

variable {loads : List UInt8 → Body} {request : A2ARequest} {requestId : PyValue}
  (hid : readId loads request = requestId)

include hid

/-- An error is answered exactly if the id can be sent. -/
theorem answers_rpcError {e : A2AError} (he : e.isPlain = true) :
    Answers loads request s (jsonResponse py (rpcError requestId e), s) ↔ SendsId py requestId := by
  have hfits := fits_rpcError Interpreter.response_takesAscii py.response_room requestId he
  rcases @jsonResponse_cases py (rpcError requestId e) with ⟨hok, hresponse⟩ | ⟨hno, e', hresponse⟩
  · rw [hresponse]
    refine iff_of_true (Or.inr ⟨?_, rfl⟩) (hfits.mp hok)
    rw [hid]
    exact isResponse_rpcError requestId e
  · rw [hresponse]
    exact iff_of_false id fun h => hno (hfits.mpr h)

/-- A result is answered exactly if it can be sent with the id. -/
theorem answers_rpcResult (result : PyValue) (s' : Db) :
    Answers loads request s (jsonResponse py (rpcResult requestId result), s') ↔
      SendsId py requestId ∧ py.response.Fits 1 result := by
  have hfits := fits_rpcResult Interpreter.response_takesAscii py.response_room requestId result
  rcases @jsonResponse_cases py (rpcResult requestId result) with ⟨hok, hresponse⟩ | ⟨hno, e', hresponse⟩
  · rw [hresponse]
    refine iff_of_true (Or.inl ?_) (hfits.mp hok)
    rw [hid]
    exact isResponse_rpcResult requestId result
  · rw [hresponse]
    exact iff_of_false id fun h => hno (hfits.mpr h)

/-- The answer of a handler that refuses or returns. -/
theorem answers_handled {fits : Prop} {answer : Except A2AFailure PyValue × Db} (h : Handled py s fits answer) :
    Answers loads request s
        (respond py requestId (fun result => jsonResponse py (rpcResult requestId result)) answer) ↔
      SendsId py requestId ∧ fits := by
  cases h with
  | refused hf hfits =>
    obtain ⟨e, rfl, he⟩ := hf
    exact (answers_rpcError hid he).trans (and_iff_left hfits).symm
  | escaped hno => exact iff_of_false id fun h => hno h.2
  | @done result s' hfits =>
    rw [hfits]
    exact answers_rpcResult hid result s'

/-- The answer with a stream. -/
theorem answers_stream (hmethod : ∃ body, loads request.raw = .json (.dict body) ∧
      PyDict.get body "method" = .str "SendStreamingMessage") (stamps : ℕ → Stamp) (ending : Except PyError Unit)
    (frames : List StreamFrame) (hframes : frames ≠ []) (s' : Db) :
    Answers loads request s (.ok (.stream (sendFrames py requestId stamps ending 0 frames).1
        (sendFrames py requestId stamps ending 0 frames).2), s') ↔
      ending = .ok () ∧ py.frame.Fits 1 requestId ∧ ArtifactsFit py frames := by
  obtain ⟨hend, hlength, hcontents⟩ := @sendFrames_spec py requestId stamps ending frames 0
  constructor
  · rintro ⟨-, hok, -⟩
    obtain ⟨hending, hfits, hall⟩ := hend.mp hok
    exact ⟨hending, hfits hframes, hall⟩
  · rintro ⟨hending, hfits, hall⟩
    have hok := hend.mpr ⟨hending, fun _ => hfits, hall⟩
    refine ⟨hmethod, hok, fun hnil => ?_, fun content hcontent => ?_⟩
    · have hzero := hlength hok
      rw [hnil] at hzero
      exact hframes (List.eq_nil_of_length_eq_zero hzero.symm)
    · obtain ⟨payload, rfl⟩ := hcontents content hcontent
      rw [hid]
      exact isResponse_rpcResult requestId payload

/-- The answer to `SendStreamingMessage`. -/
theorem answers_streaming (hs : s.Inv ∧ s.KeysNodup) (hmethod : ∃ body, loads request.raw = .json (.dict body) ∧
      PyDict.get body "method" = .str "SendStreamingMessage") (stamps : ℕ → Stamp) {polls : List (Db × Db)}
    (hpolls : ∀ p ∈ polls, p.1.Inv) :
    Answers loads request s (respond py requestId (fun shown =>
        let sent := A2AServer.events text shown.1 shown.2 polls
        let frames := sendFrames py requestId stamps sent.2 0 sent.1
        .ok (.stream frames.1 frames.2)) (enqueue text py caller params ids s)) ↔
      StreamFits text py caller requestId params ids polls s := by
  have hspec := @enqueue_spec text py caller params ids s (py.frame.Fits 4) (fun _ => True) (fun _ _ => trivial) hs
  generalize enqueue text py caller params ids s = answer at hspec ⊢
  cases hspec with
  | refused hf hparts hnone =>
    obtain ⟨e, rfl, he⟩ := hf
    refine (answers_rpcError hid he).trans ?_
    have hno : ¬Streams py caller params := by
      rintro ⟨m, hread, htask⟩
      obtain ⟨hallowed, hnot⟩ := hnone m hread
      exact hnot (htask hallowed)
    constructor
    · intro hsends
      refine ⟨hparts, fun _ => hsends, fun hstreams => absurd hstreams hno, fun m hread _ htask => ?_⟩
      exact absurd htask (hnone m hread).2
    · exact fun h => h.2.1 hno
  | escaped h =>
    refine iff_of_false id fun hfits => h ⟨hfits.1, fun m hread hallowed htask => ?_⟩
    obtain ⟨hstores, hjobs⟩ := hfits.2.2.2 m hread hallowed htask
    exact ⟨hstores, fun jobId hk => (hjobs jobId (Or.inl hk)).1⟩
  | @rejected m hparts hread hdenied =>
    have hstreams : Streams py caller params := ⟨m, hread, fun hallowed => absurd hallowed hdenied⟩
    have hartifacts : ArtifactsFit py [.task (A2AServer.rejectedView ids)] := by
      intro f hf a ha
      rw [List.mem_singleton.mp hf] at ha
      cases ha
    refine (answers_stream hid hmethod stamps (.ok ()) [.task (A2AServer.rejectedView ids)]
      (List.cons_ne_nil _ _) s).trans ?_
    constructor
    · rintro ⟨-, hfits, -⟩
      refine ⟨hparts, fun hno => absurd hstreams hno, fun _ => hfits, fun m' hread' hallowed => ?_⟩
      rw [hread.unique hread'] at hallowed
      exact absurd hallowed hdenied
    · exact fun h => ⟨rfl, h.2.2.1 hstreams, hartifacts⟩
  | @shown m jobId view s' hparts hread hallowed htask hstores hjob _ _ hstop hview =>
    have hstreams : Streams py caller params := ⟨m, hread, fun _ => htask⟩
    have hloop := @pollLoop_spec text py jobId polls hpolls view.state
    rw [hstop, not_not] at hloop
    have hfirst : ArtifactsFit py [.task view] ↔ JobFits text (py.frame.Fits 4) (fun _ => True) s s jobId := by
      rw [← hview]
      constructor
      · exact fun h => ⟨fun _ _ => trivial, h (.task view) List.mem_cons_self⟩
      · intro h f hf
        rw [List.mem_singleton.mp hf]
        exact h.2
    refine (answers_stream hid hmethod stamps _ _ (List.cons_ne_nil _ _) s').trans ?_
    have hframes : ArtifactsFit py (.task view :: (A2AServer.pollLoop text jobId view.state polls).1) ↔
        ArtifactsFit py [.task view] ∧ ArtifactsFit py (A2AServer.pollLoop text jobId view.state polls).1 :=
      @artifactsFit_append py [.task view] (A2AServer.pollLoop text jobId view.state polls).1
    rw [hframes, hfirst]
    constructor
    · rintro ⟨hend, hfits, hjobFits, hlater⟩
      refine ⟨hparts, fun hno => absurd hstreams hno, fun _ => hfits, fun m' hread' _ _ => ?_⟩
      rw [hread.unique hread']
      refine ⟨hstores, fun other hother => ?_⟩
      rw [AnsweredWith.unique hs.2 hjob hother]
      exact ⟨hjobFits, hloop.mp ⟨hend, hlater⟩⟩
    · intro h
      obtain ⟨hjobFits, hlooks⟩ := (h.2.2.2 m hread hallowed htask).2 jobId hjob
      obtain ⟨hend, hlater⟩ := hloop.mpr hlooks
      exact ⟨hend, h.2.2.1 hstreams, hjobFits, hlater⟩

end Responses

/-! ## Requests -/

/-- A body that is an object is parsed, or refused with its id. -/
theorem parseCall_dict (body : PyDict) :
    (∃ method params, PyDict.get body "jsonrpc" = .str "2.0" ∧ PyDict.get body "method" = .str method ∧
      (body.lookup "params").getD (.dict []) = .dict params ∧
      parseCall (.json (.dict body)) = .ok { requestId := PyDict.get body "id", method, params }) ∨
    (∀ method params, ¬(PyDict.get body "jsonrpc" = .str "2.0" ∧ PyDict.get body "method" = .str method ∧
      (body.lookup "params").getD (.dict []) = .dict params)) ∧
      ∃ call e, parseCall (.json (.dict body)) = .ok call ∧ call.requestId = PyDict.get body "id" ∧
        call.error = some e ∧ e.isPlain = true := by
  have hrequest : A2AError.isPlain .invalidRequest = true := by decide
  unfold parseCall
  dsimp only
  split
  · next method hmethod =>
    by_cases hversion : PyDict.get body "jsonrpc" = .str "2.0"
    · rw [if_pos hversion]
      split
      · next params hparams => exact Or.inl ⟨method, params, hversion, hmethod, hparams, rfl⟩
      · next hother =>
        refine Or.inr ⟨fun _ params h => hother params h.2.2, _, _, rfl, rfl, rfl, ?_⟩
        exact isPlain_invalidParams (by decide)
    · rw [if_neg hversion]
      exact Or.inr ⟨fun _ _ h => hversion h.1, _, _, rfl, rfl, rfl, hrequest⟩
  · next hother => exact Or.inr ⟨fun method _ h => hother method h.2.1, _, _, rfl, rfl, rfl, hrequest⟩

/-- Any other body that is not nested too deep is refused. -/
theorem parseCall_other {b : Body} (hdeep : b ≠ .tooDeep) (hdict : ∀ body, b ≠ .json (.dict body)) :
    ∃ e, parseCall b = .ok { error := some e } ∧ e.isPlain = true := by
  cases b with
  | tooDeep => exact absurd rfl hdeep
  | invalid => exact ⟨_, rfl, by decide⟩
  | json v =>
    cases v with
    | dict body => exact absurd rfl (hdict body)
    | _ => exact ⟨.invalidRequest, rfl, by decide⟩

section Bodies

variable {loads : List UInt8 → Body} {request : A2ARequest} {body : PyDict} {stamps : ℕ → Stamp} {polls : List (Db × Db)}

/-- The answer to a call, by its method. -/
theorem answers_call (hid : readId loads request = PyDict.get body "id") (hloads : loads request.raw = .json (.dict body))
    (hs : s.Inv ∧ s.KeysNodup) (hpolls : ∀ p ∈ polls, p.1.Inv) {method : String}
    (hmethod : PyDict.get body "method" = .str method) :
    Answers loads request s (answerCall text py caller (buildExtendedCard registry version (rstripSlash url) caller)
        (some "1.0") { requestId := PyDict.get body "id", method, params } ids stamps polls s) ↔
      MethodFits text py caller registry version url (PyDict.get body "id") method params ids polls s := by
  unfold answerCall MethodFits
  dsimp only
  rw [if_neg (not_not.mpr rfl)]
  by_cases hstream : method = "SendStreamingMessage"
  · rw [if_pos hstream, if_pos hstream]
    exact answers_streaming hid hs ⟨body, hloads, hstream ▸ hmethod⟩ stamps hpolls
  · rw [if_neg hstream, if_neg hstream]
    exact answers_handled hid (dispatch_spec hs method (stamps 0))

/-- The answer to a body that is an object: to a call by its method, and an error with the id to any other. -/
theorem answers_body (hid : readId loads request = PyDict.get body "id") (hloads : loads request.raw = .json (.dict body))
    (hs : s.Inv ∧ s.KeysNodup) (hpolls : ∀ p ∈ polls, p.1.Inv) : ∃ call, parseCall (.json (.dict body)) = .ok call ∧
      (Answers loads request s (answerCall text py caller
          (buildExtendedCard registry version (rstripSlash url) caller) request.version call ids stamps polls s) ↔
        ((∀ method params, ¬IsCall request body method params) → SendsId py (PyDict.get body "id")) ∧
          ∀ method params, IsCall request body method params →
            MethodFits text py caller registry version url (PyDict.get body "id") method params ids polls s) := by
  -- a body that is no call
  have hother : (∀ method params, ¬IsCall request body method params) →
      (((∀ method params, ¬IsCall request body method params) → SendsId py (PyDict.get body "id")) ∧
        (∀ method params, IsCall request body method params →
          MethodFits text py caller registry version url (PyDict.get body "id") method params ids polls s) ↔
        SendsId py (PyDict.get body "id")) :=
    fun hno => ⟨fun h => h.1 hno, fun h => ⟨fun _ => h, fun method params hcall => absurd hcall (hno method params)⟩⟩
  rcases parseCall_dict body with ⟨method, params, hjsonrpc, hmethod, hparams, hparse⟩ |
    ⟨hno, call, e, hparse, hcallId, herror, he⟩
  · refine ⟨_, hparse, ?_⟩
    by_cases hversion : request.version = some "1.0"
    · have hcall : IsCall request body method params := ⟨hjsonrpc, hmethod, hparams, hversion⟩
      rw [hversion, answers_call hid hloads hs hpolls hmethod]
      constructor
      · intro h
        refine ⟨fun hno => absurd hcall (hno method params), fun method' params' hcall' => ?_⟩
        have hm := hmethod.symm.trans hcall'.method
        have hp := hparams.symm.trans hcall'.params
        cases hm
        cases hp
        exact h
      · exact fun h => h.2 method params hcall
    · rw [hother fun _ _ hcall => hversion hcall.version]
      unfold answerCall
      dsimp only
      rw [if_pos hversion]
      exact answers_rpcError hid (by decide)
  · refine ⟨call, hparse, ?_⟩
    rw [hother fun method params hcall => hno method params ⟨hcall.jsonrpc, hcall.method, hcall.params⟩]
    unfold answerCall
    rw [herror, hcallId]
    exact answers_rpcError hid he

end Bodies

variable (text py caller) (loads : List UInt8 → Body) (registry version)

/-- In every state of the job database, and for all databases that a stream looks at, the endpoint answers a
request in protocol exactly if the request fits. -/
theorem a2a_answers_iff (request : A2ARequest) (ids : RequestIds) (stamps : ℕ → Stamp) (calls : List JobCall)
    (looks : List (List JobCall × List JobCall)) :
    Answers loads request (run calls)
        (a2a text py caller loads registry version request ids stamps (looks.map fun p => (run p.1, run p.2))
          (run calls)) ↔
      RequestFits text py caller loads registry version request ids (looks.map fun p => (run p.1, run p.2))
        (run calls) := by
  have hs := run_keysNodup calls
  have hpolls : ∀ p ∈ looks.map fun p => (run p.1, run p.2), p.1.Inv := by
    rw [List.forall_mem_map]
    exact fun p _ => run_inv p.1
  generalize looks.map (fun p => (run p.1, run p.2)) = polls at hpolls ⊢
  generalize run calls = s at hs ⊢
  have hnull : SendsId py .none := JsonEncoder.fits_none.mpr (le_trans (by decide) py.response_room)
  unfold a2a RequestFits
  cases hdeclared : declaredLength request.contentLength with
  | error e => exact iff_of_false id fun ⟨declared, h, _⟩ => by cases h
  | ok declared =>
    simp only [Except.ok.injEq, exists_eq_left']
    by_cases hlarge : tooLarge declared request.raw = true
    · have hid : readId loads request = .none := by
        apply readId_none
        intro declared' body h _
        rw [hdeclared] at h
        rw [← Except.ok.inj h]
        exact hlarge
      rw [if_pos hlarge]
      refine iff_of_true ((answers_rpcError hid (by decide)).mpr hnull) fun hsmall => ?_
      rw [hlarge] at hsmall
      cases hsmall
    · have hsmall : tooLarge declared request.raw = false := Bool.eq_false_iff.mpr hlarge
      rw [if_neg hlarge]
      by_cases hdeep : loads request.raw = .tooDeep
      · rw [hdeep]
        exact iff_of_false id fun h => (h hsmall).1 rfl
      by_cases hdict : ∃ body, loads request.raw = .json (.dict body)
      · obtain ⟨body, hloads⟩ := hdict
        have hid : readId loads request = PyDict.get body "id" := by
          unfold readId
          rw [hdeclared, hloads]
          exact if_neg hlarge
        obtain ⟨call, hparse, hanswers⟩ := @answers_body text py caller ids s Time registry version request.url loads
          request body stamps polls hid hloads hs hpolls
        rw [hloads, hparse]
        refine hanswers.trans ⟨fun h _ => ⟨by simp, fun body' heq => ?_⟩, fun h => (h hsmall).2 body rfl⟩
        cases heq
        exact h
      · have hother : ∀ body, loads request.raw ≠ .json (.dict body) := fun body h => hdict ⟨body, h⟩
        have hid : readId loads request = .none := by
          apply readId_none
          exact fun _ body _ h => absurd h (hother body)
        obtain ⟨e, hparse, he⟩ := parseCall_other hdeep hother
        rw [hparse]
        refine iff_of_true ((answers_rpcError hid he).mpr hnull) fun _ => ⟨hdeep, fun body h => ?_⟩
        exact absurd h (hother body)

/-- Texts without surrogates, and the depths that CPython and `pydantic` go to. -/
def cpython : Interpreter where
  isSurrogate _ := false
  ascii _ _ := rfl
  responseDepth := 900
  response_room := by decide
  frameDepth := 900
  frame_room := by decide
  dumpDepth := 255
  readDepth := 200

/-- A message whose parts are a number. -/
def strayPartsText : String :=
  "\x7b\"jsonrpc\":\"2.0\",\"id\":1,\"method\":\"SendMessage\",\"params\":\x7b\"message\":" ++
    "\x7b\"messageId\":\"m\",\"role\":\"ROLE_USER\",\"parts\":5\x7d\x7d\x7d"

def strayPartsBytes : List UInt8 := strayPartsText.toList.map fun c => UInt8.ofNat c.toNat

/-- What `json.loads` makes of it. -/
def strayPartsBody : PyDict :=
  [("jsonrpc", .str "2.0"), ("id", .int 1), ("method", .str "SendMessage"),
    ("params", .dict [("message", .dict [("messageId", .str "m"), ("role", .str "ROLE_USER"), ("parts", .int 5)])])]

def strayPartsLoads (raw : List UInt8) : Body :=
  if raw = strayPartsBytes then .json (.dict strayPartsBody) else .invalid

def strayPartsRequest : A2ARequest :=
  { contentLength := "115", version := some "1.0", url := "http://localhost:8000/", raw := strayPartsBytes }

def someStamp : Stamp where
  timestamp := "2026-01-01T00:00:00Z"
  messageId := 0
  ascii := List.all_iff_forall_prop.mp (by decide)

def strayPartsAnswer : Except PyError A2AReply × Db :=
  a2a asciiText cpython A2AServer.partnerX strayPartsLoads ([] : List (ManifestRecord Unit)) "0.1.0"
    strayPartsRequest (A2AServer.requestIds 1) (fun _ => someStamp) [] (run [])

/-- It is not answered, although its id can be read. -/
theorem strayParts_escapes : ¬Answers strayPartsLoads strayPartsRequest (run []) strayPartsAnswer :=
  not_answers_of_raised (by decide +kernel)

end A2AEndpoint

end Galaxz
