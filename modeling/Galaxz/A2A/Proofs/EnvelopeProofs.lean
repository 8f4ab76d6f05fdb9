import Galaxz.A2A.Endpoint
import Mathlib.Data.Bool.AllAny

/-!
# Proofs: what can be encoded

A response can be encoded where the id of its request can and where what it carries can: the rest of every
envelope is ASCII and is nested less deep than every encoder goes.
-/

namespace Galaxz

/-! ## Texts -/

theorem hexDigit_ascii (n : ℕ) : (hexDigit n).toNat < 128 := by
  have hall : ∀ c ∈ '0' :: "0123456789abcdef".toList, c.toNat < 128 :=
    List.all_iff_forall_prop.mp (by decide)
  apply hall
  unfold hexDigit
  rw [List.getD_eq_getElem?_getD]
  cases h : "0123456789abcdef".toList[n]? with
  | none => exact List.mem_cons_self
  | some c => exact List.mem_cons_of_mem _ (List.mem_of_getElem? h)

theorem Uuid.isAscii_text (u : Uuid) : isAscii u.text = true := by
  have hdigits : ∀ c ∈ (List.range 32).map fun i => hexDigit (u.toNat / 16 ^ (31 - i) % 16), c.toNat < 128 := by
    intro c hc
    obtain ⟨i, -, rfl⟩ := List.mem_map.mp hc
    exact hexDigit_ascii _
  unfold isAscii Uuid.text
  dsimp only
  generalize (List.range 32).map (fun i => hexDigit (u.toNat / 16 ^ (31 - i) % 16)) = digits at hdigits
  rw [String.toList_ofList, List.all_eq_true]
  intro c hc
  have hmem : c ∈ digits ∨ c = '-' := by
    simp only [List.mem_append, List.mem_cons, or_assoc] at hc
    rcases hc with hc | rfl | hc | rfl | hc | rfl | hc | rfl | hc
    · exact Or.inl (List.mem_of_mem_take hc)
    · exact Or.inr rfl
    · exact Or.inl (List.mem_of_mem_drop (List.mem_of_mem_take hc))
    · exact Or.inr rfl
    · exact Or.inl (List.mem_of_mem_drop (List.mem_of_mem_take hc))
    · exact Or.inr rfl
    · exact Or.inl (List.mem_of_mem_drop (List.mem_of_mem_take hc))
    · exact Or.inr rfl
    · exact Or.inl (List.mem_of_mem_drop hc)
  rcases hmem with hc | rfl
  · exact decide_eq_true (hdigits c hc)
  · rfl

namespace Interpreter

variable {py : Interpreter}

theorem isUnicode_of_isAscii {s : String} (h : isAscii s = true) : py.isUnicode s = true := by
  unfold isUnicode
  rw [List.all_eq_true]
  intro c hc
  have hascii : c.toNat < 128 := of_decide_eq_true (List.all_eq_true.mp h c hc)
  rw [py.ascii c hascii]
  rfl

theorem response_takesAscii : py.response.TakesAscii := fun _ h => isUnicode_of_isAscii h

theorem frame_takesAscii : py.frame.TakesAscii := fun _ _ => rfl

end Interpreter

/-! ## Envelopes -/

/-- The texts of an error are ASCII. -/
def A2AError.isPlain (e : A2AError) : Bool := isAscii e.message && e.reason.all isAscii

section Envelopes

variable {enc : JsonEncoder} (hascii : enc.TakesAscii) (hroom : 9 ≤ enc.maxDepth)

include hascii hroom

theorem fits_rpcResult (requestId result : PyValue) :
    enc.Fits 0 (rpcResult requestId result) ↔ enc.Fits 1 requestId ∧ enc.Fits 1 result := by
  have hkeys : ∀ s ∈ ["jsonrpc", "id", "result", "2.0"], enc.text s = true := by
    intro s hs
    apply hascii
    revert s hs
    decide
  unfold rpcResult
  rw [JsonEncoder.fits_dict]
  simp only [List.forall_mem_cons, JsonEncoder.fits_str] at hkeys ⊢
  constructor
  · rintro ⟨-, -, hid, hresult, -⟩
    exact ⟨hid.2, hresult.2⟩
  · rintro ⟨hid, hresult⟩
    exact ⟨by omega, ⟨hkeys.1, hkeys.2.2.2.1, by omega⟩, ⟨hkeys.2.1, hid⟩, ⟨hkeys.2.2.1, hresult⟩,
      fun p hp => by cases hp⟩

theorem fits_rpcError (requestId : PyValue) {e : A2AError} (he : e.isPlain = true) :
    enc.Fits 0 (rpcError requestId e) ↔ enc.Fits 1 requestId := by
  have hkeys : ∀ s ∈ ["jsonrpc", "id", "error", "2.0", "code", "message", "data", "details", "@type", "reason",
      "domain", "type.googleapis.com/google.rpc.ErrorInfo", "a2a-protocol.org"], enc.text s = true := by
    intro s hs
    apply hascii
    revert s hs
    decide
  rw [A2AError.isPlain, Bool.and_eq_true] at he
  have hmessage : enc.text e.message = true := hascii _ he.1
  have hdetails : ∀ p ∈ e.details, enc.text p.1 = true ∧ enc.Fits 2 p.2 := by
    unfold A2AError.details
    cases hreason : e.reason with
    | none => exact fun p hp => by cases hp
    | some reason =>
      have htext : enc.text reason = true := hascii _ (by simpa [hreason] using he.2)
      dsimp only
      split_ifs
      · exact fun p hp => by cases hp
      · simp only [List.forall_mem_cons, JsonEncoder.fits_dict, JsonEncoder.fits_list, JsonEncoder.fits_str] at hkeys ⊢
        have hlevel : ∀ k ≤ 9, k ≤ enc.maxDepth := fun k hk => by omega
        simp [hkeys, htext, hlevel]
  unfold rpcError
  rw [JsonEncoder.fits_dict]
  simp only [List.forall_mem_cons, List.forall_mem_append, JsonEncoder.fits_str, JsonEncoder.fits_int,
    JsonEncoder.fits_dict] at hkeys ⊢
  constructor
  · rintro ⟨-, -, hid, -⟩
    exact hid.2
  · intro hid
    refine ⟨by omega, ⟨hkeys.1, hkeys.2.2.2.1, by omega⟩, ⟨hkeys.2.1, hid⟩, ⟨hkeys.2.2.1, by omega, ?_, hdetails⟩,
      fun p hp => by cases hp⟩
    exact ⟨⟨hkeys.2.2.2.2.1, by omega⟩, ⟨hkeys.2.2.2.2.2.1, hmessage, by omega⟩, fun p hp => by cases hp⟩

/-- A status can be encoded where its text can. -/
theorem fits_statusValue {k : ℕ} (hk : k ≤ 3) (stamp : Stamp) {state : String} (hstate : enc.text state = true)
    (text : Option String) :
    enc.Fits k (statusValue stamp state text) ↔ ∀ t, text = some t → enc.text t = true := by
  have hkeys : ∀ s ∈ ["state", "timestamp", "message", "messageId", "role", "ROLE_AGENT", "parts", "text", ""],
      enc.text s = true := by
    intro s hs
    apply hascii
    revert s hs
    decide
  simp only [List.forall_mem_cons] at hkeys
  obtain ⟨hstateKey, htimestamp, hmessage, hmessageId, hrole, hagent, hparts, htext, hempty, -⟩ := hkeys
  have huuid : enc.text stamp.messageId.text = true := hascii _ (Uuid.isAscii_text _)
  have htime : enc.text stamp.timestamp = true :=
    hascii _ (List.all_eq_true.mpr fun c hc => decide_eq_true (stamp.ascii c hc))
  unfold statusValue
  rw [JsonEncoder.fits_dict]
  cases text with
  | none =>
    simp only [List.append_nil, List.forall_mem_cons, JsonEncoder.fits_str]
    refine ⟨fun _ t ht => (by cases ht), fun _ => ⟨by omega, ⟨hstateKey, hstate, by omega⟩,
      ⟨htimestamp, htime, by omega⟩, fun p hp => by cases hp⟩⟩
  | some t =>
    by_cases ht : t = ""
    · simp only [if_pos ht, List.append_nil, List.forall_mem_cons, JsonEncoder.fits_str]
      refine ⟨fun _ t' ht' => ?_, fun _ => ⟨by omega, ⟨hstateKey, hstate, by omega⟩,
        ⟨htimestamp, htime, by omega⟩, fun p hp => by cases hp⟩⟩
      rw [← Option.some.inj ht', ht]
      exact hempty
    · simp only [if_neg ht, List.forall_mem_append, List.forall_mem_cons, JsonEncoder.fits_str, JsonEncoder.fits_dict,
        JsonEncoder.fits_list]
      constructor
      · rintro ⟨-, -, ⟨-, -, -, -, hpart, -⟩, -⟩ t' ht'
        rw [← Option.some.inj ht']
        exact hpart.2.2.1.2.1.2.1
      · intro hall
        have hsome := hall t rfl
        refine ⟨by omega, ⟨⟨hstateKey, hstate, by omega⟩, ⟨htimestamp, htime, by omega⟩, fun p hp => by cases hp⟩,
          ⟨hmessage, by omega, ⟨hmessageId, huuid, by omega⟩, ⟨hrole, hagent, by omega⟩, ⟨hparts, by omega, ?_⟩,
            fun p hp => by cases hp⟩, fun p hp => by cases hp⟩
        exact ⟨⟨by omega, ⟨htext, hsome, by omega⟩, fun p hp => by cases hp⟩, fun p hp => by cases hp⟩

/-- A task can be encoded where the text and the artifacts of its view can. -/
theorem fits_makeTask {k : ℕ} (hk : k ≤ 2) (stamp : Stamp) {view : TaskView} (hid : enc.text view.id = true)
    (hstate : enc.text view.state = true) :
    enc.Fits k (makeTask stamp view) ↔
      (∀ t, view.text = some t → enc.text t = true) ∧ ∀ a ∈ view.artifacts, enc.Fits (k + 2) a := by
  have hkeys : ∀ s ∈ ["id", "contextId", "status", "artifacts"], enc.text s = true := by
    intro s hs
    apply hascii
    revert s hs
    decide
  simp only [List.forall_mem_cons] at hkeys
  obtain ⟨hidKey, hcontext, hstatus, hartifacts, -⟩ := hkeys
  have hstatusFits := fits_statusValue hascii hroom (by omega : k + 1 ≤ 3) stamp hstate view.text
  unfold makeTask
  rw [JsonEncoder.fits_dict]
  simp only [List.forall_mem_append, List.forall_mem_cons, JsonEncoder.fits_str, hstatusFits]
  by_cases hnone : view.artifacts.isEmpty = true
  · rw [if_pos hnone, List.isEmpty_iff.mp hnone]
    constructor
    · rintro ⟨-, ⟨-, -, htext, -⟩, -⟩
      exact ⟨htext.2, fun a ha => by cases ha⟩
    · rintro ⟨htext, -⟩
      exact ⟨by omega, ⟨⟨hidKey, hid, by omega⟩, ⟨hcontext, hid, by omega⟩, ⟨hstatus, htext⟩,
        fun p hp => by cases hp⟩, fun p hp => by cases hp⟩
  · rw [if_neg hnone]
    simp only [List.forall_mem_cons, JsonEncoder.fits_list]
    constructor
    · rintro ⟨-, ⟨-, -, htext, -⟩, ⟨-, -, hall⟩, -⟩
      exact ⟨htext.2, hall⟩
    · rintro ⟨htext, hall⟩
      exact ⟨by omega, ⟨⟨hidKey, hid, by omega⟩, ⟨hcontext, hid, by omega⟩, ⟨hstatus, htext⟩,
        fun p hp => by cases hp⟩, ⟨hartifacts, by omega, hall⟩, fun p hp => by cases hp⟩

end Envelopes

/-- A frame can be encoded where the id of its request and its artifacts can. -/
theorem fits_framePayload {py : Interpreter} (requestId : PyValue) (stamp : Stamp) (f : StreamFrame) :
    py.frame.Fits 0 (rpcResult requestId (A2AEndpoint.framePayload stamp f)) ↔ py.frame.Fits 1 requestId ∧
      ∀ a ∈ f.artifacts, py.frame.Fits (if f.isTask = true then 4 else 3) a := by
  have hascii : py.frame.TakesAscii := Interpreter.frame_takesAscii
  have hroom : 9 ≤ py.frame.maxDepth := py.frame_room
  have htext : ∀ s, py.frame.text s = true := fun s => rfl
  rw [fits_rpcResult hascii hroom]
  refine and_congr_right fun _ => ?_
  cases f with
  | task view =>
    show py.frame.Fits 1 (.dict [("task", makeTask stamp view)]) ↔ ∀ a ∈ view.artifacts, py.frame.Fits 4 a
    rw [JsonEncoder.fits_dict, List.forall_mem_singleton,
      fits_makeTask hascii hroom (by omega) stamp (htext view.id) (htext view.state)]
    exact ⟨fun h => h.2.2.2, fun h => ⟨by omega, htext _, fun t _ => htext t, h⟩⟩
  | artifactUpdate taskId artifact =>
    unfold A2AEndpoint.framePayload StreamFrame.artifacts
    rw [List.forall_mem_singleton]
    simp only [JsonEncoder.fits_dict, List.forall_mem_cons, JsonEncoder.fits_str, htext]
    constructor
    · rintro ⟨-, ⟨-, -, -, -, ⟨-, hartifact⟩, -⟩, -⟩
      exact hartifact
    · intro hartifact
      have hartifact : py.frame.Fits 3 artifact := hartifact
      exact ⟨by omega, ⟨trivial, by omega, ⟨trivial, trivial, by omega⟩, ⟨trivial, trivial, by omega⟩, ⟨trivial, hartifact⟩,
        fun p hp => by cases hp⟩, fun p hp => by cases hp⟩
  | statusUpdate taskId state text =>
    unfold A2AEndpoint.framePayload StreamFrame.artifacts
    have hstatus := (fits_statusValue hascii hroom (by omega : 3 ≤ 3) stamp (htext state) text).mpr fun t _ => htext t
    simp only [JsonEncoder.fits_dict, List.forall_mem_cons, JsonEncoder.fits_str, htext]
    refine ⟨fun _ a ha => (by cases ha), fun _ => ?_⟩
    exact ⟨by omega, ⟨trivial, by omega, ⟨trivial, trivial, by omega⟩, ⟨trivial, trivial, by omega⟩, ⟨trivial, hstatus⟩,
      fun p hp => by cases hp⟩, fun p hp => by cases hp⟩

/-! ## The card -/

section Card

variable {py : Interpreter}

theorem Interpreter.isUnicode_append (s t : String) :
    py.isUnicode (s ++ t) = true ↔ py.isUnicode s = true ∧ py.isUnicode t = true := by
  unfold isUnicode
  rw [String.toList_append, List.all_append, Bool.and_eq_true]

theorem rstripSlash_rstripSlash (url : String) : rstripSlash (rstripSlash url) = rstripSlash url := by
  unfold rstripSlash
  rw [String.toList_ofList, List.rdropWhile_idempotent]

/-- The first segment of a text in Unicode is in Unicode. -/
theorem Interpreter.isUnicode_takeWhile {s : String} (p : Char → Bool) (h : py.isUnicode s = true) :
    py.isUnicode (String.ofList (s.toList.takeWhile p)) = true := by
  unfold isUnicode at h ⊢
  rw [List.all_eq_true] at h ⊢
  rw [String.toList_ofList]
  exact fun c hc => h c ((List.takeWhile_prefix p).subset hc)

/-- An entry of the card can be encoded where the texts of its skill can. -/
theorem fits_skillEntry (skill : SkillRecord) :
    py.response.Fits 3 (skillEntry skill) ↔
      py.isUnicode skill.skillId = true ∧ py.isUnicode skill.description = true := by
  have hroom : 9 ≤ py.response.maxDepth := py.response_room
  have hkeys : ∀ s ∈ ["id", "name", "description", "tags", "inputModes", "outputModes", "application/json"],
      py.response.text s = true := by
    intro s hs
    apply Interpreter.response_takesAscii
    revert s hs
    decide
  simp only [List.forall_mem_cons] at hkeys
  obtain ⟨hid, hname, hdescription, htags, hinput, houtput, hjson, -⟩ := hkeys
  unfold skillEntry
  simp only [JsonEncoder.fits_dict, JsonEncoder.fits_list, List.forall_mem_cons, JsonEncoder.fits_str]
  constructor
  · rintro ⟨-, ⟨-, hskill, -⟩, -, ⟨-, htext, -⟩, -⟩
    exact ⟨hskill, htext⟩
  · rintro ⟨hskill, htext⟩
    have hmodes : (5 ≤ py.response.maxDepth ∧ (py.response.text "application/json" = true ∧ 5 ≤ py.response.maxDepth) ∧
        ∀ x ∈ ([] : List PyValue), py.response.Fits 5 x) :=
      ⟨by omega, ⟨hjson, by omega⟩, fun x hx => by cases hx⟩
    have hsegment : py.isUnicode (String.ofList (skill.skillId.toList.takeWhile (· ≠ '.'))) = true :=
      Interpreter.isUnicode_takeWhile _ hskill
    exact ⟨by omega, ⟨hid, hskill, by omega⟩, ⟨hname, hskill, by omega⟩, ⟨hdescription, htext, by omega⟩,
      ⟨htags, by omega, ⟨hsegment, by omega⟩, fun x hx => by cases hx⟩, ⟨hinput, hmodes⟩, ⟨houtput, hmodes⟩,
      fun p hp => by cases hp⟩

/-- The extended card can be encoded exactly if its texts are Unicode. -/
theorem fits_buildExtendedCard {Time : Type} (registry : List (ManifestRecord Time)) (version url : String)
    (caller : CallerConfig) :
    py.response.Fits 1 (buildExtendedCard registry version (rstripSlash url) caller) ↔
      A2AEndpoint.CardFits py caller registry version url := by
  have hroom : 9 ≤ py.response.maxDepth := py.response_room
  have hkeys : ∀ s ∈ ["name", "Galaxz", "description", "version", "supportedInterfaces", "url", "protocolBinding",
      "JSONRPC", "protocolVersion", "1.0", "capabilities", "streaming", "pushNotifications", "extendedAgentCard",
      "securitySchemes", "bearer", "httpAuthSecurityScheme", "scheme", "Bearer", "securityRequirements", "schemes",
      "list", "defaultInputModes", "defaultOutputModes", "application/json", "skills",
      "Galaxz multi-agent platform. To run a skill, send a data part " ++
        "\x7b\"skill\": \"<skill id>\", \"payload\": \x7b...\x7d\x7d."], py.response.text s = true := by
    intro s hs
    apply Interpreter.response_takesAscii
    revert s hs
    decide +kernel
  simp only [List.forall_mem_cons] at hkeys
  have hslash : py.isUnicode "/a2a" = true := Interpreter.isUnicode_of_isAscii (by decide)
  have hurl : py.response.text (rstripSlash (rstripSlash url) ++ "/a2a") = true ↔
      py.isUnicode (rstripSlash url) = true := by
    rw [rstripSlash_rstripSlash]
    exact (Interpreter.isUnicode_append _ _).trans (and_iff_left hslash)
  have hskills : (∀ x ∈ (callerSkills registry caller).map skillEntry, py.response.Fits 3 x) ↔
      ∀ skill ∈ callerSkills registry caller, py.isUnicode skill.skillId = true ∧
        py.isUnicode skill.description = true := by
    rw [List.forall_mem_map]
    exact forall₂_congr fun skill _ => fits_skillEntry skill
  unfold buildExtendedCard cardValue A2AEndpoint.CardFits
  simp only [JsonEncoder.fits_dict, JsonEncoder.fits_list, List.forall_mem_cons, JsonEncoder.fits_str,
    JsonEncoder.fits_bool, hurl, hskills, hkeys]
  constructor
  · rintro ⟨-, -, -, ⟨-, hversion, -⟩, ⟨-, -, ⟨-, ⟨-, hbase, -⟩, -⟩, -⟩, -, -, -, -, -, ⟨-, -, hlisted⟩, -⟩
    exact ⟨hversion, hbase, hlisted⟩
  · rintro ⟨hversion, hbase, hlisted⟩
    have hversion : py.response.text version = true := hversion
    have hlevel : ∀ k ≤ 9, k ≤ py.response.maxDepth := fun k hk => by omega
    simpa [hversion, hbase, hlevel] using hlisted

end Card

end Galaxz
