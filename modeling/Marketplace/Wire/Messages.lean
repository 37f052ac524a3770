import Mathlib.Data.List.TakeDrop
import Marketplace.Lib.Base64
import Marketplace.Messaging.Service
import Marketplace.Wire.Texts

/-!
# An encrypted message between two clients

`SendMessageRequest` and `message_to_response_dict` of the server, `MessageEnvelopeDto` and
`MessagingCryptoService` of the client. The two sides name the fields of a message
differently: the server refuses every message that the client sends, and the client throws
on every message that the server answers. The encodings themselves differ in one more
respect, the padding.
-/

namespace Marketplace

open Lib

/-! ### The server's schema -/

/-- `_b64url_encode`. -/
def b64urlEncode (raw : Bytes) : String := String.ofList (Base64.encodeBare Base64.urlSafe raw)

/-- `_decode_b64url`; `none` is its `ValueError`. -/
def decodeB64url (v : String) (minLen maxLen : ℕ) : Option Bytes :=
  let padded := v.toList ++ List.replicate ((4 - v.length % 4) % 4) '='
  if padded.all fun c => c.toNat < 128 then
    (Base64.decodeLenient {} 0 padded).filter fun raw => minLen ≤ raw.length ∧ raw.length ≤ maxLen
  else none

/-- A field of base64url text, with the validator of the request. -/
def b64urlField (body : Json.Entries) (field : String) (maxLength minLen maxLen : ℕ) :
    Except FieldError String := do
  let v ← textField body field maxLength
  if decodeB64url v minLen maxLen = none then .error { loc := field, type := "value_error" }
  else .ok v

/-- `SendMessageRequest`. -/
structure SendMessageRequest where
  ciphertextB64url : String
  nonceB64url : String
  ephemeralPublicKeyB64url : String
  recipientKeyId : Option Id
deriving DecidableEq, Repr

namespace SendMessageRequest

/-- The fields of the request. -/
def fields : List String :=
  ["ciphertext_b64url", "nonce_b64url", "ephemeral_public_key_b64url", "recipient_key_id"]

/-- `SendMessageRequest.model_validate`. -/
def modelValidate (body : Json.Entries) : Except (List FieldError) SendMessageRequest :=
  match b64urlField body "ciphertext_b64url" 131072 1 65536,
      b64urlField body "nonce_b64url" 32 12 12,
      b64urlField body "ephemeral_public_key_b64url" 128 32 32,
      uuidField body "recipient_key_id", extraFields body fields with
  | .ok ciphertext, .ok nonce, .ok key, .ok recipient, [] =>
    .ok { ciphertextB64url := ciphertext, nonceB64url := nonce, ephemeralPublicKeyB64url := key,
          recipientKeyId := recipient }
  | ciphertext, nonce, key, recipient, extra =>
    .error (errorOf ciphertext ++ errorOf nonce ++ errorOf key ++ errorOf recipient ++ extra)

/-- What the endpoint hands to `store_message`: the decoded fields. -/
def decoded (request : SendMessageRequest) : Option MessagingService.Sealed := do
  let ciphertext ← decodeB64url request.ciphertextB64url 1 65536
  let nonce ← decodeB64url request.nonceB64url 12 12
  let ephemeralPublicKey ← decodeB64url request.ephemeralPublicKeyB64url 32 32
  pure { ciphertext, nonce, ephemeralPublicKey, recipientKeyId := request.recipientKeyId }

end SendMessageRequest

/-- The JSON body of `MessageResponse(**message_to_response_dict(msg))`. -/
def messageToResponse (texts : TimeTexts) (msg : Message) : Json.Entries :=
  [("id", uuidJson msg.id), ("conversation_id", uuidJson msg.conversationId),
   ("sender_id", uuidJson msg.senderId),
   ("ciphertext_b64url", .str (b64urlEncode msg.ciphertext)),
   ("nonce_b64url", .str (b64urlEncode msg.nonce)),
   ("ephemeral_public_key_b64url", .str (b64urlEncode msg.ephemeralPublicKey)),
   ("recipient_key_id", .ofOption uuidJson msg.recipientKeyId),
   ("sent_at", texts.json msg.sentAt), ("read_at", .ofOption texts.json msg.readAt)]

/-! ### The client's envelope -/

/-- `MessageEnvelopeDto`. -/
structure MessageEnvelopeDto where
  id : String
  conversationId : String
  senderId : String
  ciphertext : String
  nonce : String
  ephemeralPublicKey : String
  recipientKeyId : String
  sentAt : Time
  readAt : Option Time := none
deriving DecidableEq, Repr

namespace MessageEnvelopeDto

/-- `MessageEnvelopeDto.fromJson`. -/
def fromJson (texts : TimeTexts) (json : Json.Entries) :
    Except Json.ReadError MessageEnvelopeDto := do
  let id ← (json.at "id").asString
  let conversationId ← (json.at "conversation_id").asString
  let senderId ← (json.at "sender_id").asString
  let ciphertext ← (json.at "ciphertext").asString
  let nonce ← (json.at "nonce").asString
  let ephemeralPublicKey ← (json.at "ephemeral_public_key").asString
  let recipientKeyId ← (json.at "recipient_key_id").asString
  let sentAt ← texts.parse (json.at "sent_at")
  let readAt ← texts.tryParseOrNull (json.at "read_at")
  pure { id, conversationId, senderId, ciphertext, nonce, ephemeralPublicKey, recipientKeyId,
         sentAt, readAt }

/-- `toSendJson`. -/
def toSendJson (envelope : MessageEnvelopeDto) : Json.Entries :=
  [("ciphertext", .str envelope.ciphertext), ("nonce", .str envelope.nonce),
   ("ephemeral_public_key", .str envelope.ephemeralPublicKey),
   ("recipient_key_id", .str envelope.recipientKeyId)]

end MessageEnvelopeDto

/-! ### The client's cryptography -/

/-- The primitives that `MessagingCryptoService` calls. -/
structure CryptoSuite where
  /-- The X25519 public key of a private key. -/
  publicKey : Bytes → Bytes
  /-- The X25519 secret of a private key and a public key. -/
  sharedSecretKey : Bytes → Bytes → Bytes
  sha256 : Bytes → Bytes
  /-- AES-256-GCM: the cipher text and the tag for a key, a nonce and a clear text. -/
  encrypt : Bytes → Bytes → Bytes → Bytes × Bytes
  /-- AES-256-GCM: the clear text for a key, a nonce, a cipher text and a tag. -/
  decrypt : Bytes → Bytes → Bytes → Bytes → Option Bytes

/-- The primitives are ideal as far as decryption goes. -/
structure CryptoSuite.Ideal (suite : CryptoSuite) : Prop where
  shared_comm : ∀ a b, suite.sharedSecretKey a (suite.publicKey b) =
    suite.sharedSecretKey b (suite.publicKey a)
  decrypt_encrypt : ∀ key nonce clear, suite.decrypt key nonce (suite.encrypt key nonce clear).1
    (suite.encrypt key nonce clear).2 = some clear
  tag_length : ∀ key nonce clear, (suite.encrypt key nonce clear).2.length = 16
  publicKey_length : ∀ a, (suite.publicKey a).length = 32

/-- `base64Encode`. -/
def base64Encode (bytes : Bytes) : String := String.ofList (Base64.encode Base64.standard bytes)

/-- `base64Decode`. -/
def base64Decode (text : String) : Except Json.ReadError Bytes :=
  (Base64.decodeStrict {} text.toList).elim (.error .formatException) .ok

/-- `utf8.encode`. -/
def utf8Encode (text : String) : Bytes := text.toByteArray.data.toList

/-- The encoding of a byte order mark. -/
def byteOrderMark : Bytes := [0xEF, 0xBB, 0xBF]

/-- `utf8.decode`, which discards a byte order mark at the start. -/
def utf8Decode (bytes : Bytes) : Option String :=
  String.fromUTF8? ⟨(if byteOrderMark <+: bytes then bytes.drop 3 else bytes).toArray⟩

/-- A text without a byte order mark at its start. -/
def withoutBom (text : String) : String :=
  match text.toList with
  | '\uFEFF' :: rest => String.ofList rest
  | _ => text

/-- `EncryptedEnvelope`. -/
structure EncryptedEnvelope where
  ciphertext : String
  nonce : String
  ephemeralPublicKey : String
deriving DecidableEq, Repr

namespace CryptoSuite

variable (suite : CryptoSuite)

/-- `_hkdf`. -/
def hkdf (ikm salt : Bytes) : Bytes := (suite.sha256 (salt ++ ikm)).take 32

/-- What `encryptFor` encrypts, before its encoding: `ephemeral` is the private key of the
new key pair, and `nonce` the one that the cipher draws. -/
def sealFor (ephemeral nonce peerPublicKey : Bytes) (plaintext : String) :
    MessagingService.Sealed :=
  let key := suite.hkdf (suite.sharedSecretKey ephemeral peerPublicKey) (suite.publicKey ephemeral)
  let box := suite.encrypt key nonce (utf8Encode plaintext)
  { ciphertext := box.1 ++ box.2, nonce, ephemeralPublicKey := suite.publicKey ephemeral }

/-- `encryptFor`. -/
def encryptFor (ephemeral nonce peerPublicKey : Bytes) (plaintext : String) : EncryptedEnvelope :=
  let body := suite.sealFor ephemeral nonce peerPublicKey plaintext
  { ciphertext := base64Encode body.ciphertext, nonce := base64Encode body.nonce,
    ephemeralPublicKey := base64Encode body.ephemeralPublicKey }

/-- `decryptWith`. -/
def decryptWith (privateKey : Bytes) (ciphertextB64 nonceB64 ephemeralPublicKeyB64 : String) :
    Except Json.ReadError String := do
  let ct ← base64Decode ciphertextB64
  let nonce ← base64Decode nonceB64
  let ephPub ← base64Decode ephemeralPublicKeyB64
  if ct.length < 16 then .error .formatException
  else
    let key := suite.hkdf (suite.sharedSecretKey privateKey ephPub) ephPub
    let clear := suite.decrypt key nonce (ct.take (ct.length - 16)) (ct.drop (ct.length - 16))
    (clear.bind utf8Decode).elim (.error .formatException) .ok

end CryptoSuite

/-! ### The encodings agree up to the padding -/

section Encodings

variable {suite : CryptoSuite} {bytes : Bytes}

/-- What is encoded decodes. -/
theorem base64Decode_base64Encode : base64Decode (base64Encode bytes) = .ok bytes := by
  simp [base64Decode, base64Encode, Base64.decodeStrict_encode Base64.standard_known]

/-- The client reads what the server encodes exactly when there is nothing to pad. -/
theorem base64Decode_b64urlEncode :
    base64Decode (b64urlEncode bytes) =
      if Base64.padLength bytes = 0 then .ok bytes else .error .formatException := by
  simp only [base64Decode, b64urlEncode, String.toList_ofList,
    Base64.decodeStrict_encodeBare Base64.urlSafe_known]
  split <;> rfl

/-- The standard alphabet is ASCII. -/
theorem char_lt_standard : ∀ n < 64, (Base64.standard.char n).toNat < 128 := by decide

/-- The server would decode what the client encodes to the encrypted bytes. -/
theorem decodeB64url_base64Encode {minLen maxLen : ℕ} (hmin : minLen ≤ bytes.length)
    (hmax : bytes.length ≤ maxLen) :
    decodeB64url (base64Encode bytes) minLen maxLen = some bytes := by
  have hlength : (Base64.encode Base64.standard bytes).length = 4 * ((bytes.length + 2) / 3) := by
    rw [← Base64.sextets_length]
    simp [Base64.encode, Base64.encodeBare]
  have hascii : (Base64.encode Base64.standard bytes).all (fun c => c.toNat < 128) = true := by
    simp only [Base64.encode, Base64.encodeBare, List.all_append, Bool.and_eq_true,
      List.all_eq_true, List.mem_map, decide_eq_true_eq, List.mem_replicate]
    constructor
    · rintro c ⟨n, hn, rfl⟩
      exact char_lt_standard n (Base64.sextets_lt bytes n hn)
    · rintro c ⟨-, rfl⟩
      decide
  have hpad : (4 - (Base64.encode Base64.standard bytes).length % 4) % 4 = 0 := by omega
  simp only [decodeB64url, base64Encode, String.toList_ofList, String.length_ofList, hpad,
    List.replicate_zero, List.append_nil, hascii, if_true,
    Base64.decodeLenient_encode Base64.standard_known]
  simp [hmin, hmax]

/-- A text is encoded character by character. -/
theorem utf8Encode_cons (c : Char) (rest : List Char) :
    utf8Encode (String.ofList (c :: rest)) =
      String.utf8EncodeChar c ++ utf8Encode (String.ofList rest) := by
  simp only [utf8Encode, String.toByteArray_ofList]
  rw [List.utf8Encode_cons, List.utf8Encode_singleton]
  simp

/-- An encoded text is valid UTF-8 and decodes to itself. -/
theorem fromUTF8?_utf8Encode (text : String) :
    String.fromUTF8? ⟨(utf8Encode text).toArray⟩ = some text := by
  have hvalid : (⟨text.toByteArray.data⟩ : ByteArray).IsValidUTF8 := text.isValidUTF8
  simp [utf8Encode, String.fromUTF8?, hvalid, String.fromUTF8]

/-- An encoding starts like the byte order mark only if the text starts with it. -/
theorem eq_of_byteOrderMark_startsWith {c : Char} {rest : List Char}
    (h : byteOrderMark <+: utf8Encode (String.ofList (c :: rest))) : c = '\uFEFF' := by
  obtain ⟨bytes, hbytes⟩ := h
  rw [utf8Encode_cons] at hbytes
  have hmark : byteOrderMark = String.utf8EncodeChar '\uFEFF' := by decide
  rw [hmark] at hbytes
  have hfirst := congrArg (fun bytes : Bytes => bytes.toByteArray.utf8DecodeChar? 0) hbytes
  simp only [List.toByteArray_append, ByteArray.utf8DecodeChar?_utf8EncodeChar_append] at hfirst
  exact (Option.some.inj hfirst).symm

/-- The client's decoder returns the text without a leading byte order mark. -/
theorem utf8Decode_utf8Encode (text : String) :
    utf8Decode (utf8Encode text) = some (withoutBom text) := by
  obtain ⟨cs, rfl⟩ : ∃ cs, text = String.ofList cs := ⟨text.toList, String.ofList_toList.symm⟩
  cases cs with
  | nil => exact fromUTF8?_utf8Encode ""
  | cons c rest =>
    by_cases hc : c = '\uFEFF'
    · subst hc
      have hmark : String.utf8EncodeChar '\uFEFF' = byteOrderMark := by decide
      have hdrop : (byteOrderMark ++ utf8Encode (String.ofList rest)).drop 3 =
          utf8Encode (String.ofList rest) := rfl
      rw [utf8Decode, utf8Encode_cons, hmark, if_pos (List.prefix_append _ _), hdrop,
        fromUTF8?_utf8Encode]
      simp [withoutBom]
    · have hnot : ¬byteOrderMark <+: utf8Encode (String.ofList (c :: rest)) :=
        fun h => hc (eq_of_byteOrderMark_startsWith h)
      rw [utf8Decode, if_neg hnot, fromUTF8?_utf8Encode, withoutBom, String.toList_ofList]
      split
      · next heq => exact absurd (List.cons.inj heq).1 hc
      · rfl

/-- Decoding loses nothing but a byte order mark at the start. -/
theorem withoutBom_eq_iff {text : String} :
    withoutBom text = text ↔ text.toList.head? ≠ some '\uFEFF' := by
  unfold withoutBom
  split
  · next rest heq =>
    have hne : String.ofList rest ≠ text := by
      intro hsame
      rw [← hsame, String.toList_ofList] at heq
      exact List.cons_ne_self _ _ heq.symm
    simp [heq, hne]
  · next hnot =>
    refine ⟨fun _ hhead => ?_, fun _ => rfl⟩
    obtain ⟨rest, hrest⟩ := List.head?_eq_some_iff.mp hhead
    exact hnot rest hrest

/-- With an ideal suite, a client decrypts what another client has encrypted for it, but for a byte
order mark at the start. -/
theorem decryptWith_encryptFor (hideal : suite.Ideal) (ephemeral nonce privateKey : Bytes)
    (plaintext : String) :
    let sent := suite.encryptFor ephemeral nonce (suite.publicKey privateKey) plaintext
    suite.decryptWith privateKey sent.ciphertext sent.nonce sent.ephemeralPublicKey =
      .ok (withoutBom plaintext) := by
  let key := suite.hkdf (suite.sharedSecretKey ephemeral (suite.publicKey privateKey))
    (suite.publicKey ephemeral)
  let box := suite.encrypt key nonce (utf8Encode plaintext)
  have htag : box.2.length = 16 := hideal.tag_length key nonce (utf8Encode plaintext)
  have hopen : suite.decrypt key nonce box.1 box.2 = some (utf8Encode plaintext) :=
    hideal.decrypt_encrypt key nonce (utf8Encode plaintext)
  have hlength : (box.1 ++ box.2).length - 16 = box.1.length := by
    simp [htag]
  have hkey : suite.hkdf (suite.sharedSecretKey privateKey (suite.publicKey ephemeral))
      (suite.publicKey ephemeral) = key := by
    rw [hideal.shared_comm]
  have hbound : ¬(box.1 ++ box.2).length < 16 := by
    rw [List.length_append]
    omega
  change suite.decryptWith privateKey (base64Encode (box.1 ++ box.2)) (base64Encode nonce)
    (base64Encode (suite.publicKey ephemeral)) = .ok (withoutBom plaintext)
  simp only [CryptoSuite.decryptWith, base64Decode_base64Encode, Except.bind, bind]
  rw [if_neg hbound, hkey, hlength, List.take_left, List.drop_left, hopen]
  simp [utf8Decode_utf8Encode]

/-- With the names agreed on, the recipient would still throw: a public key of 32 bytes needs
padding. -/
theorem decryptWith_b64urlEncode {privateKey ciphertext nonce ephemeralPublicKey : Bytes}
    (hlength : ephemeralPublicKey.length = 32) :
    suite.decryptWith privateKey (b64urlEncode ciphertext) (b64urlEncode nonce)
      (b64urlEncode ephemeralPublicKey) = .error .formatException := by
  have hkey : base64Decode (b64urlEncode ephemeralPublicKey) = .error .formatException := by
    rw [base64Decode_b64urlEncode, if_neg]
    simp [Base64.padLength, hlength]
  unfold CryptoSuite.decryptWith
  rw [hkey, base64Decode_b64urlEncode, base64Decode_b64urlEncode]
  split <;> split <;> rfl

end Encodings

/-! ### A message on its way -/

/-- A message that a client is about to send. -/
structure Outgoing where
  id : String
  conversationId : String
  senderId : String
  /-- The key of the peer that the message is encrypted for. -/
  recipientKeyId : String
  sentAt : Time
  plaintext : String
  /-- The private key that the recipient holds for it. -/
  privateKey : Bytes
  /-- The private key of the new key pair. -/
  ephemeral : Bytes
  nonce : Bytes
deriving DecidableEq, Repr

namespace Outgoing

variable (out : Outgoing) (suite : CryptoSuite) (texts : TimeTexts)

/-- The encrypted bytes. -/
def sealed : MessagingService.Sealed :=
  suite.sealFor out.ephemeral out.nonce (suite.publicKey out.privateKey) out.plaintext

/-- The `outbound` envelope. -/
def envelope : MessageEnvelopeDto :=
  let env := suite.encryptFor out.ephemeral out.nonce (suite.publicKey out.privateKey) out.plaintext
  { id := out.id, conversationId := out.conversationId, senderId := out.senderId,
    ciphertext := env.ciphertext, nonce := env.nonce,
    ephemeralPublicKey := env.ephemeralPublicKey, recipientKeyId := out.recipientKeyId,
    sentAt := out.sentAt }

/-- The encrypted bytes are within the limits of the server. -/
def WithinLimits : Prop :=
  (out.sealed suite).ciphertext.length ≤ 65536 ∧ out.nonce.length = 12

/-- The server accepts the body that the client sends, and stores the encrypted bytes. -/
def Accepted : Prop :=
  ∃ request body, SendMessageRequest.modelValidate (out.envelope suite).toSendJson = .ok request ∧
    request.decoded = some body ∧ body.ciphertext = (out.sealed suite).ciphertext ∧
    body.nonce = (out.sealed suite).nonce ∧
    body.ephemeralPublicKey = (out.sealed suite).ephemeralPublicKey

/-- The recipient parses the server's answer for a message of these bytes, and decrypts it to
the plaintext. -/
def Opened (msg : Message) : Prop :=
  ∃ dto, MessageEnvelopeDto.fromJson texts (messageToResponse texts msg) = .ok dto ∧
    suite.decryptWith out.privateKey dto.ciphertext dto.nonce dto.ephemeralPublicKey =
      .ok out.plaintext

/-- The message arrives: the server accepts and stores it, and the recipient opens what the
server answers for the row that is stored. -/
def Arrives (env : Env) (senderId conversationId : Id) : Prop :=
  out.Accepted suite ∧
    out.Opened suite texts
      (MessagingService.newMessage env senderId conversationId (out.sealed suite))

end Outgoing

/-- The request model misses three fields in what the client sends, and forbids three. -/
theorem modelValidate_toSendJson (envelope : MessageEnvelopeDto) :
    SendMessageRequest.modelValidate envelope.toSendJson = .error
      ([{ loc := "ciphertext_b64url", type := "missing" },
        { loc := "nonce_b64url", type := "missing" },
        { loc := "ephemeral_public_key_b64url", type := "missing" }] ++
        errorOf (uuidField envelope.toSendJson "recipient_key_id") ++
        [{ loc := "ciphertext", type := "extra_forbidden" },
         { loc := "nonce", type := "extra_forbidden" },
         { loc := "ephemeral_public_key", type := "extra_forbidden" }]) := by
  rfl

/-- The envelope has no reading for the server's answer: it names no `ciphertext`. -/
theorem fromJson_messageToResponse (texts : TimeTexts) (msg : Message) :
    MessageEnvelopeDto.fromJson texts (messageToResponse texts msg) = .error .typeError := by
  rfl

/-- No message arrives: the server refuses each body that a client sends, and the client
throws on each answer, whatever the row is. -/
theorem not_arrives (out : Outgoing) (suite : CryptoSuite) (texts : TimeTexts) (env : Env)
    (senderId conversationId : Id) :
    ¬out.Arrives suite texts env senderId conversationId ∧ ¬out.Accepted suite ∧
      ∀ msg, ¬out.Opened suite texts msg := by
  have haccepted : ¬out.Accepted suite := by
    rintro ⟨request, -, hok, -⟩
    rw [modelValidate_toSendJson] at hok
    cases hok
  have hopened : ∀ msg, ¬out.Opened suite texts msg := by
    rintro msg ⟨dto, hok, -⟩
    rw [fromJson_messageToResponse] at hok
    cases hok
  exact ⟨fun h => haccepted h.1, haccepted, hopened⟩

namespace Sample

/-- Primitives that keep nothing secret but fit together. -/
def suite : CryptoSuite :=
  { publicKey := fun a => a.takeD 32 0
    sharedSecretKey := fun a b => (a.takeD 32 0).zipWith (· ^^^ ·) b
    sha256 := fun bytes => bytes.takeD 32 0
    encrypt := fun _ _ clear => (clear, List.replicate 16 0)
    decrypt := fun _ _ cipher _ => some cipher }

/-- The sample suite is ideal. -/
theorem suite_ideal : suite.Ideal where
  shared_comm _ _ := List.zipWith_comm_of_comm fun x y => UInt8.xor_comm x y
  decrypt_encrypt _ _ _ := rfl
  tag_length _ _ _ := rfl
  publicKey_length a := List.takeD_length 32 a 0

/-- A short message to the key with the id 9. -/
def greeting : Outgoing :=
  { id := "tmp-1", conversationId := uuidStr 20, senderId := uuidStr 1,
    recipientKeyId := uuidStr 9, sentAt := 0, plaintext := "hello",
    privateKey := List.replicate 32 7, ephemeral := List.replicate 32 5,
    nonce := List.replicate 12 3 }

end Sample

/-- A message within the limits, under ideal primitives, does not arrive. -/
theorem greeting_lost :
    Sample.suite.Ideal ∧ Sample.greeting.WithinLimits Sample.suite ∧
      ¬Sample.greeting.Arrives Sample.suite Sample.timeTexts
        { now := fun _ => 0, transactionNow := 0, uuid4 := fun n => 100 + n, randbelow := 0 }
        1 20 := by
  have hlimits : Sample.greeting.WithinLimits Sample.suite := by
    constructor
    · decide
    · rfl
  have haccepted : ¬Sample.greeting.Accepted Sample.suite := by
    rintro ⟨request, -, hok, -⟩
    rw [modelValidate_toSendJson] at hok
    cases hok
  exact ⟨Sample.suite_ideal, hlimits, fun h => haccepted h.1⟩

end Marketplace
