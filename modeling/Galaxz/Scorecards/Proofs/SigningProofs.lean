import Galaxz.Scorecards.Signing

/-!
# Signed scorecards

What is signed verifies, and gives a scorecard equal to the one that was signed. What verifies was signed.
-/

namespace Galaxz.Scorecards

/-! ## Base64 -/

theorem b64d_b64e (data : List UInt8) : b64d (b64e data) = .ok data := by
  have hpadded := Base64.padding_of_stripped data
  have hdecode := Base64.decode_encode data
  have hascii : (b64e data).all (· < 128) = true := by
    rw [List.all_eq_true]
    intro n hn
    obtain ⟨c, hc, rfl⟩ := List.mem_map.mp hn
    exact decide_eq_true (Base64.ascii_of_mem_encode ((List.rdropWhile_prefix _ _).subset hc))
  have htext : (b64e data).chars ++ Base64.padding (b64e data).length = Base64.encode data := by
    unfold b64e
    rw [JsonWriter.chars_ofChars, CodeString.ofChars, List.length_map]
    exact hpadded
  unfold b64d
  rw [if_pos hascii, htext, hdecode]

/-! ## The fields of an envelope -/

theorem get_cons_self (key : String) (v : JsonValue) (items : List (CodeString × JsonValue)) :
    get ((lit key, v) :: items) key = some v := by
  unfold get
  rw [List.lookup_cons_self]

theorem get_cons_of_ne {key : String} {k : CodeString} (h : lit key ≠ k) (v : JsonValue)
    (items : List (CodeString × JsonValue)) : get ((k, v) :: items) key = get items key := by
  have hbeq : (lit key == k) = false := by simpa using h
  unfold get
  rw [List.lookup_cons, hbeq]

/-! ## Signing -/

theorem readsBack_finiteText : JsonWriter.ReadsBack finiteText := by
  intro q cs hq hrange hcs
  cases hcs
  exact literal_reprText hq hrange

namespace SigningHost

variable {Key : Type} {host : SigningHost Key}

/-- The payload of a scorecard is read back as the scorecard with its keys sorted. -/
theorem canonicalJson_loads {items : List (CodeString × JsonValue)} (hplain : (JsonValue.obj items).IsPlain)
    (hshort : (JsonValue.obj items).HasShortInts) (hdeep : host.GoesAsDeep (.obj items)) :
    ∃ payload, host.canonicalJson (.obj items) = .ok payload ∧
      host.loads payload = .ok (JsonValue.obj items).sortKeys := by
  have hsorted := JsonValue.all_sortKeys JsonValue.isShallow_plain _ hplain
  have htotal : ∀ q, ∃ cs, finiteText (.finite q) = .ok cs := fun q => ⟨_, rfl⟩
  obtain ⟨text, htext⟩ := JsonWriter.dumps_total htotal _ hsorted
    (JsonValue.all_sortKeys JsonValue.isShallow_short _ hshort)
  obtain ⟨hchars, hloads⟩ := JsonWriter.loads_dumps readsBack_finiteText hsorted htext
  have hread := hdeep.read text htext
  obtain ⟨c, u, hc, rfl⟩ := JsonWriter.dumps_object htext
  refine ⟨(CodeString.chars (123 :: c :: u)).flatMap String.utf8EncodeChar, ?_, ?_⟩
  · unfold canonicalJson
    rw [hdeep.write, if_neg Bool.false_ne_true, htext]
    exact if_pos hchars
  · have hhead : Char.ofNat c = '"' ∨ Char.ofNat c = '\x7d' := by
      rcases hc with rfl | rfl
      · exact Or.inl rfl
      · exact Or.inr rfl
    have hcons : CodeString.chars (123 :: c :: u) = '\x7b' :: Char.ofNat c :: CodeString.chars u := rfl
    unfold SigningHost.loads
    rw [hcons, loadsBytes_object hhead, ← hcons]
    unfold loadsText
    rw [hread, if_neg Bool.false_ne_true, hloads]

/-- A signed scorecard verifies. -/
theorem verifyEnvelope_sign (hcorrect : host.Correct) (key : Key) {items : List (CodeString × JsonValue)}
    (hplain : (JsonValue.obj items).IsPlain) (hshort : (JsonValue.obj items).HasShortInts)
    (hdeep : host.GoesAsDeep (.obj items)) :
    ∃ envelope, host.sign key (.obj items) = .ok envelope ∧
      host.verifyEnvelope envelope (host.publicKeyB64 key) = .ok (JsonValue.obj items).sortKeys := by
  obtain ⟨payload, hpayload, hloads⟩ := canonicalJson_loads hplain hshort hdeep
  refine ⟨.obj [
    (lit "payload", .str (b64e payload)),
    (lit "scorecard", .obj items),
    (lit "signature", .obj [
      (lit "alg", .str (lit "Ed25519")),
      (lit "kid", .str (host.keyId (host.publicRaw key))),
      (lit "value", .str (b64e (host.signature key payload)))])], ?_, ?_⟩
  · unfold SigningHost.sign
    rw [hpayload]
    rfl
  have hequal := (JsonValue.pyEq_sortKeys host.sameNan _ hplain).1
  have hcheck : ∀ p v, host.checkField [(lit "payload", p), (lit "scorecard", .obj items), (lit "signature", v)]
      (JsonValue.obj items).sortKeys = .ok (JsonValue.obj items).sortKeys := by
    intro p v
    unfold checkField
    rw [get_cons_of_ne (by decide), get_cons_self]
    dsimp only
    rw [hdeep.compare, if_neg Bool.false_ne_true, if_pos hequal]
  unfold verifyEnvelope
  dsimp only
  rw [get_cons_self, get_cons_of_ne (by decide), get_cons_of_ne (by decide), get_cons_self]
  dsimp only
  rw [get_cons_self, if_neg (by simp), get_cons_of_ne (by decide), get_cons_of_ne (by decide), get_cons_self,
    get_cons_of_ne (by decide), get_cons_self]
  dsimp only
  unfold verifySignature publicKeyB64
  rw [b64d_b64e]
  show (if (host.publicRaw key).length ≠ 32 then _ else _) = _
  rw [if_neg (by simp [hcorrect.length key]), if_neg (by simp), b64d_b64e, b64d_b64e]
  show (if host.accepts (host.publicRaw key) (host.signature key payload) payload = true then _ else _) = _
  rw [if_pos (hcorrect.accepts key payload)]
  unfold readPayload
  rw [hloads]
  exact hcheck _ _

/-! ## What verifies -/

theorem checkField_eq_ok {items : List (CodeString × JsonValue)} {scorecard card : JsonValue}
    (h : host.checkField items scorecard = .ok card) :
    scorecard = card ∧ ∀ field, get items "scorecard" = some field → field.pyEq host.sameNan card = true := by
  unfold checkField at h
  cases hfield : get items "scorecard" with
  | none =>
    rw [hfield] at h
    exact ⟨Except.ok.inj h, nofun⟩
  | some field =>
    rw [hfield] at h
    dsimp only at h
    split_ifs at h with hdeep hequal
    obtain rfl := Except.ok.inj h
    refine ⟨rfl, ?_⟩
    rintro other heq
    rwa [← Option.some.inj heq]

theorem readPayload_eq_ok {items : List (CodeString × JsonValue)} {payload : List UInt8} {card : JsonValue}
    (h : host.readPayload items payload = .ok card) :
    host.loads payload = .ok card ∧ ∀ field, get items "scorecard" = some field → field.pyEq host.sameNan card = true := by
  unfold readPayload at h
  cases hloads : host.loads payload with
  | error e =>
    rw [hloads] at h
    dsimp only at h
    split_ifs at h
  | ok scorecard =>
    rw [hloads] at h
    obtain ⟨rfl, hfield⟩ := checkField_eq_ok h
    exact ⟨rfl, hfield⟩

theorem verifySignature_eq_ok {items : List (CodeString × JsonValue)} {payloadB64 value publicKey : CodeString}
    {kid : Option JsonValue} {card : JsonValue}
    (h : host.verifySignature items payloadB64 value kid publicKey = .ok card) :
    ∃ publicRaw signature payload, b64d publicKey = .ok publicRaw ∧ b64d payloadB64 = .ok payload ∧
      host.accepts publicRaw signature payload = true ∧ host.readPayload items payload = .ok card := by
  unfold verifySignature at h
  obtain ⟨publicRaw, hpublic, h⟩ := except_bind_eq_ok_iff.mp h
  split_ifs at h with hlength hkid
  obtain ⟨payload, hpayload, h⟩ := except_bind_eq_ok_iff.mp h
  obtain ⟨signature, -, h⟩ := except_bind_eq_ok_iff.mp h
  split_ifs at h with haccepts
  exact ⟨publicRaw, signature, payload, hpublic, hpayload, haccepts, h⟩

theorem verifyEnvelope_eq_ok {envelope card : JsonValue} {publicKey : CodeString}
    (h : host.verifyEnvelope envelope publicKey = .ok card) :
    ∃ items payloadB64 value kid, envelope = .obj items ∧ get items "payload" = some (.str payloadB64) ∧
      host.verifySignature items payloadB64 value kid publicKey = .ok card := by
  unfold verifyEnvelope at h
  split at h
  · next items =>
    split at h
    · next payloadB64 signature hpayload hsignature =>
      split_ifs at h with halg
      split at h
      · next value hvalue => exact ⟨items, payloadB64, value, _, rfl, hpayload, h⟩
      · cases h
    · cases h
  · cases h

/-- What is signed verifies as the scorecard that was signed. What verifies under a key was signed with it, and a
scorecard next to it is the same. -/
theorem scorecards_verify (hcorrect : host.Correct) :
    (∀ (key : Key) (items : List (CodeString × JsonValue)), (JsonValue.obj items).IsPlain →
      (JsonValue.obj items).HasShortInts → host.GoesAsDeep (.obj items) →
        ∃ envelope card, host.sign key (.obj items) = .ok envelope ∧
          host.verifyEnvelope envelope (host.publicKeyB64 key) = .ok card ∧
            card.pyEq host.sameNan (.obj items) = true) ∧
      ∀ signed, host.Ideal signed → ∀ envelope publicKey card, host.verifyEnvelope envelope publicKey = .ok card →
        ∃ items payloadB64 publicRaw payload, envelope = .obj items ∧ get items "payload" = some (.str payloadB64) ∧
          b64d payloadB64 = .ok payload ∧ b64d publicKey = .ok publicRaw ∧ signed publicRaw payload ∧
            host.loads payload = .ok card ∧
              ∀ field, get items "scorecard" = some field → field.pyEq host.sameNan card = true := by
  constructor
  · intro key items hplain hshort hdeep
    obtain ⟨envelope, hsign, hverify⟩ := verifyEnvelope_sign hcorrect key hplain hshort hdeep
    exact ⟨envelope, _, hsign, hverify, (JsonValue.pyEq_sortKeys host.sameNan _ hplain).2⟩
  · intro signed hideal envelope publicKey card h
    obtain ⟨items, payloadB64, value, kid, henvelope, hget, hverify⟩ := verifyEnvelope_eq_ok h
    obtain ⟨publicRaw, signature, payload, hpublic, hpayload, haccepts, hread⟩ := verifySignature_eq_ok hverify
    obtain ⟨hloads, hfield⟩ := readPayload_eq_ok hread
    exact ⟨items, payloadB64, publicRaw, payload, henvelope, hget, hpayload, hpublic, hideal _ _ _ haccepts, hloads,
      hfield⟩

end SigningHost

/-! ## A host for examples -/

/-- Whoever has the data signs it: one key, whose signature of the data is the data. -/
def openHost : SigningHost Unit where
  publicRaw _ := List.replicate 32 1
  signature _ data := data
  accepts publicRaw signature data := publicRaw = List.replicate 32 1 && signature = data
  sha256 _ := List.replicate 64 '0'
  tooDeepToWrite _ := false
  tooDeepToRead _ := false
  tooDeepToCompare _ _ := false
  loadsOther _ _ := .error (.valueError "not in UTF-8")
  sameNan := true
  repr _ := ""

theorem openHost_correct : openHost.Correct where
  length _ := rfl
  accepts _ data := by simp [openHost]

theorem openHost_goesAsDeep (v : JsonValue) : openHost.GoesAsDeep v := ⟨rfl, fun _ _ => rfl, rfl⟩

theorem rate_plain : (JsonValue.obj [(lit "rate", .float (.finite (1 / 2)))]).IsPlain := by
  refine ⟨⟨by decide, by decide⟩, ⟨1 / 2, rfl, ⟨1, -1, by norm_num, by norm_num, by norm_num⟩, ?_⟩, trivial⟩
  calc |(1 / 2 : ℚ)| ≤ 1 := by norm_num [abs_of_pos]
    _ < PyFloat.overflowBound := one_lt_pow₀ (by norm_num) (by norm_num)

/-- Nothing is signed with another key. -/
def signedByOne (publicRaw _payload : List UInt8) : Prop := publicRaw = List.replicate 32 1

theorem openHost_ideal : openHost.Ideal signedByOne := by
  intro publicRaw signature data haccepts
  unfold openHost at haccepts
  rw [Bool.and_eq_true, decide_eq_true_eq] at haccepts
  exact haccepts.1

/-- A scorecard with a rate; and nothing verifies under another key. -/
theorem scorecards_verify_rate : (∃ envelope card,
    openHost.sign () (.obj [(lit "rate", .float (.finite (1 / 2)))]) = .ok envelope ∧
      openHost.verifyEnvelope envelope (openHost.publicKeyB64 ()) = .ok card ∧
        card.pyEq true (.obj [(lit "rate", .float (.finite (1 / 2)))]) = true ∧
          ∃ payload, openHost.loads payload = .ok card) ∧
    ∀ envelope publicKey card, openHost.verifyEnvelope envelope publicKey = .ok card →
      b64d publicKey = .ok (List.replicate 32 1) := by
  obtain ⟨hsigns, hsound⟩ := SigningHost.scorecards_verify openHost_correct
  obtain ⟨envelope, card, hsign, hverify, hequal⟩ := hsigns () [(lit "rate", .float (.finite (1 / 2)))] rate_plain
    ⟨trivial, trivial, trivial⟩ (openHost_goesAsDeep _)
  obtain ⟨_, _, _, payload, -, -, -, -, -, hloads, -⟩ := hsound _ openHost_ideal envelope _ card hverify
  refine ⟨⟨envelope, card, hsign, hverify, hequal, payload, hloads⟩, fun envelope publicKey card hverify => ?_⟩
  obtain ⟨_, _, publicRaw, _, -, -, -, hpublic, hsigned, -, -⟩ := hsound _ openHost_ideal envelope _ card hverify
  rw [show publicRaw = List.replicate 32 1 from hsigned] at hpublic
  exact hpublic

theorem integer_plain (n : ℤ) : (JsonValue.obj [(lit "n", .int n)]).IsPlain := by
  have htext : (lit "n").IsText := by decide
  exact ⟨⟨List.nodup_singleton _, List.forall_mem_singleton.mpr htext⟩, trivial, trivial⟩

/-- A scorecard with one integer, which has too many digits. -/
theorem sign_long_integer {n : ℤ} (h : JsonReader.maxDigits < (natText n.natAbs).length) :
    openHost.sign () (.obj [(lit "n", .int n)]) =
      .error (.valueError "Exceeds the limit (4300 digits) for integer string conversion") := by
  have hdumps : JsonWriter.dumps finiteText (.int n) =
      .error (.valueError "Exceeds the limit (4300 digits) for integer string conversion") := if_pos h
  have hsorted : (JsonValue.obj [(lit "n", .int n)]).sortKeys = .obj [(lit "n", .int n)] := rfl
  have hitems : JsonWriter.dumpsItems finiteText [(lit "n", .int n)] =
      .error (.valueError "Exceeds the limit (4300 digits) for integer string conversion") := by
    rw [JsonWriter.dumpsItems, hdumps]
    rfl
  unfold SigningHost.sign SigningHost.canonicalJson
  rw [hsorted, JsonWriter.dumps, hitems]
  rfl

/-- An integer with 4301 digits is not signed. -/
theorem long_integer_not_signed :
    (JsonValue.obj [(lit "n", .int (10 ^ 4300))]).IsPlain ∧ openHost.Correct ∧
      openHost.sign () (.obj [(lit "n", .int (10 ^ 4300))]) =
        .error (.valueError "Exceeds the limit (4300 digits) for integer string conversion") := by
  refine ⟨integer_plain _, openHost_correct, sign_long_integer ?_⟩
  have hten : (10 : ℤ).natAbs = 10 := rfl
  rw [Int.natAbs_pow, hten, natText_length_pow]
  decide

end Galaxz.Scorecards
