import Galaxz.Lib.Base64
import Galaxz.Lib.JsonBytes
import Galaxz.Lib.JsonEquality

/-!
# `core/scorecards/signing.py`

A scorecard is signed as the canonical JSON of it, which travels in the envelope, so that verifying needs no
canonical form again. Ed25519 and SHA-256 are parameters.
-/

namespace Galaxz.Scorecards

/-- What the module uses of other packages, and what depends on the interpreter. -/
structure SigningHost (Key : Type) where
  /-- The raw bytes of the public key. -/
  publicRaw : Key → List UInt8
  /-- `private_key.sign(data)`. -/
  signature : Key → List UInt8 → List UInt8
  /-- `Ed25519PublicKey.from_public_bytes(raw).verify(signature, data)` raises no `InvalidSignature`. -/
  accepts : List UInt8 → List UInt8 → List UInt8 → Bool
  /-- `hashlib.sha256(data).hexdigest()`. -/
  sha256 : List UInt8 → List Char
  /-- Writing the value meets the recursion limit. -/
  tooDeepToWrite : JsonValue → Bool
  /-- Reading the text meets the recursion limit. -/
  tooDeepToRead : List Char → Bool
  /-- Comparing the values meets the recursion limit. -/
  tooDeepToCompare : JsonValue → JsonValue → Bool
  /-- `json.loads` of bytes that are no strict UTF-8. -/
  loadsOther : JsonCodec → List UInt8 → Except PyError JsonValue
  /-- Every `nan` in the envelope is the one that `json.loads` returns. -/
  sameNan : Bool
  /-- `repr(value)`. -/
  repr : JsonValue → String

/-- The texts of the floats, with `allow_nan=False`. -/
def finiteText : PyFloat → Except PyError (List Char)
  | .finite q => .ok (PyFloat.reprText (.finite q))
  | _ => .error (.valueError "Out of range float values are not JSON compliant")

/-- `_b64e(data)`. -/
def b64e (data : List UInt8) : CodeString := .ofChars ((Base64.encode data).rdropWhile (· = '='))

/-- `_b64d(value)`. -/
def b64d (value : CodeString) : Except PyError (List UInt8) :=
  if value.all (· < 128) then
    match Base64.decode (value.chars ++ Base64.padding value.length) with
    | .ok data => .ok data
    | .error _ => .error (.scorecardError "invalid base64")
  else .error (.scorecardError "invalid base64")

/-- The string of a literal. -/
def lit (s : String) : CodeString := .ofChars s.toList

/-- `items.get(key)`. -/
def get (items : List (CodeString × JsonValue)) (key : String) : Option JsonValue := items.lookup (lit key)

/-- The exception is a `ValueError`. -/
def isValueError : PyError → Bool
  | .valueError _ | .jsonDecodeError _ | .scorecardError _ => true
  | _ => false

namespace SigningHost

variable {Key : Type} (host : SigningHost Key)

/-- `canonical_json(obj)`. -/
def canonicalJson (obj : JsonValue) : Except PyError (List UInt8) :=
  if host.tooDeepToWrite obj then .error (.runtimeError "maximum recursion depth exceeded")
  else do
    let text ← JsonWriter.dumps finiteText obj.sortKeys
    encodeUtf8 text

/-- `key_id(public_raw)`. -/
def keyId (publicRaw : List UInt8) : CodeString := .ofChars ((host.sha256 publicRaw).take 16)

/-- `signer.public_key_b64`. -/
def publicKeyB64 (key : Key) : CodeString := b64e (host.publicRaw key)

/-- `signer.sign(scorecard)`. -/
def sign (key : Key) (scorecard : JsonValue) : Except PyError JsonValue := do
  let payload ← host.canonicalJson scorecard
  .ok (.obj [
    (lit "payload", .str (b64e payload)),
    (lit "scorecard", scorecard),
    (lit "signature", .obj [
      (lit "alg", .str (lit "Ed25519")),
      (lit "kid", .str (host.keyId (host.publicRaw key))),
      (lit "value", .str (b64e (host.signature key payload)))])])

/-- `json.loads(text)`. -/
def loadsText (text : List Char) : Except PyError JsonValue :=
  if host.tooDeepToRead text then .error (.runtimeError "maximum recursion depth exceeded")
  else JsonReader.loads text

/-- `json.loads(payload)`. -/
def loads (payload : List UInt8) : Except PyError JsonValue := loadsBytes host.loadsText host.loadsOther payload

/-- The field `scorecard` of the envelope, if there is one, equals the scorecard. -/
def checkField (items : List (CodeString × JsonValue)) (scorecard : JsonValue) : Except PyError JsonValue :=
  match get items "scorecard" with
  | none => .ok scorecard
  | some field =>
    if host.tooDeepToCompare field scorecard then .error (.runtimeError "maximum recursion depth exceeded")
    else if field.pyEq host.sameNan scorecard then .ok scorecard
    else .error (.scorecardError "scorecard field does not match the signed payload")

/-- The scorecard of a payload whose signature was checked. -/
def readPayload (items : List (CodeString × JsonValue)) (payload : List UInt8) : Except PyError JsonValue :=
  match host.loads payload with
  | .ok scorecard => host.checkField items scorecard
  | .error e => if isValueError e then .error (.scorecardError "payload is not valid JSON") else .error e

/-- `verify_envelope` from the signature on. -/
def verifySignature (items : List (CodeString × JsonValue)) (payloadB64 value : CodeString) (kid : Option JsonValue)
    (publicKey : CodeString) : Except PyError JsonValue := do
  let publicRaw ← b64d publicKey
  if publicRaw.length ≠ 32 then
    .error (.scorecardError "public key must be a raw 32-byte Ed25519 key")
  else if kid ≠ none ∧ kid ≠ some .null ∧ kid ≠ some (.str (host.keyId publicRaw)) then
    .error (.scorecardError "signature was made by a different key")
  else do
    let payload ← b64d payloadB64
    let signature ← b64d value
    if host.accepts publicRaw signature payload then host.readPayload items payload
    else .error (.scorecardError "signature does not match the payload")

/-- `verify_envelope(envelope, public_key)`. -/
def verifyEnvelope (envelope : JsonValue) (publicKey : CodeString) : Except PyError JsonValue :=
  match envelope with
  | .obj items =>
    match get items "payload", get items "signature" with
    | some (.str payloadB64), some (.obj signature) =>
      if get signature "alg" ≠ some (.str (lit "Ed25519")) then
        .error (.scorecardError ("unsupported signature algorithm " ++ host.repr ((get signature "alg").getD .null)))
      else match get signature "value" with
        | some (.str value) => host.verifySignature items payloadB64 value (get signature "kid") publicKey
        | _ => .error (.scorecardError "signature has no value")
    | _, _ => .error (.scorecardError "envelope needs a payload and a signature")
  | _ => .error (.scorecardError "envelope must be an object")

/-- Ed25519 as documented: public keys have 32 bytes, and a signature is accepted under the key that made it. -/
structure Correct : Prop where
  length : ∀ key, (host.publicRaw key).length = 32
  accepts : ∀ key data, host.accepts (host.publicRaw key) (host.signature key data) data = true

/-- An ideal signature scheme: only what was signed with a key is accepted under it. -/
def Ideal (signed : List UInt8 → List UInt8 → Prop) : Prop :=
  ∀ publicRaw signature data, host.accepts publicRaw signature data = true → signed publicRaw data

/-- The interpreter goes deep enough for the scorecard. -/
structure GoesAsDeep (scorecard : JsonValue) : Prop where
  write : host.tooDeepToWrite scorecard = false
  read : ∀ text, JsonWriter.dumps finiteText scorecard.sortKeys = .ok text → host.tooDeepToRead text.chars = false
  compare : host.tooDeepToCompare scorecard scorecard.sortKeys = false

end SigningHost

end Galaxz.Scorecards
