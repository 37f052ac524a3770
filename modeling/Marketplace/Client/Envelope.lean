import Marketplace.Wire.Messages

/-!
# The encrypted envelope

`crypto_service.dart` under ideal primitives. An ideal cipher opens what has been encrypted and
nothing else, so that it knows the messages sent so far. With it the recipient gets every text back
that does not begin with a byte order mark, no altered envelope is ever opened, and the safety
number of two keys does not depend on their order.
-/

namespace Marketplace

open Lib

namespace CryptoSuite

/-! ### Ideal primitives -/

/-- A call of `encryptFor`, with the private key of the new key pair and the nonce that it draws. -/
structure Sealing where
  ephemeral : Bytes
  nonce : Bytes
  peerPublicKey : Bytes
  plaintext : String
  ephemeral_length : ephemeral.length = 32

namespace Sealing

variable (m : Sealing) (suite : CryptoSuite)

/-- What is hashed to the key. -/
def hashed : Bytes :=
  suite.publicKey m.ephemeral ++ suite.sharedSecretKey m.ephemeral m.peerPublicKey

/-- The key of the cipher. -/
def key : Bytes :=
  suite.hkdf (suite.sharedSecretKey m.ephemeral m.peerPublicKey) (suite.publicKey m.ephemeral)

/-- The envelope that `encryptFor` returns. -/
def envelope : EncryptedEnvelope :=
  suite.encryptFor m.ephemeral m.nonce m.peerPublicKey m.plaintext

/-- The bytes of the envelope: the cipher text with its tag, the nonce and the ephemeral key. -/
def bytes : Bytes × Bytes × Bytes :=
  let body := suite.sealFor m.ephemeral m.nonce m.peerPublicKey m.plaintext
  (body.ciphertext, body.nonce, body.ephemeralPublicKey)

end Sealing

/-- The primitives are ideal for the messages `sent`, each with a key pair of its own. -/
structure IdealFor (suite : CryptoSuite) (sent : Set Sealing) : Prop where
  publicKey_length : ∀ a, a.length = 32 → (suite.publicKey a).length = 32
  shared_comm : ∀ a b, a.length = 32 → b.length = 32 →
    suite.sharedSecretKey a (suite.publicKey b) = suite.sharedSecretKey b (suite.publicKey a)
  tag_length : ∀ key nonce clear, (suite.encrypt key nonce clear).2.length = 16
  /-- The cipher opens what has been encrypted, and nothing else. -/
  decrypt_iff : ∀ key nonce cipher tag clear, suite.decrypt key nonce cipher tag = some clear ↔
    (∃ m ∈ sent, m.key suite = key ∧ m.nonce = nonce ∧ utf8Encode m.plaintext = clear) ∧
      suite.encrypt key nonce clear = (cipher, tag)
  /-- No input has the digest of one that was hashed for a message. -/
  collision_free : ∀ m ∈ sent, ∀ input,
    (suite.sha256 input).take 32 = (suite.sha256 (m.hashed suite)).take 32 → input = m.hashed suite
  fresh : ∀ m ∈ sent, ∀ m' ∈ sent, suite.publicKey m.ephemeral = suite.publicKey m'.ephemeral →
    m = m'

end CryptoSuite

namespace EncryptedEnvelope

/-- The bytes that an envelope carries. -/
def bytes (env : EncryptedEnvelope) : Except Json.ReadError (Bytes × Bytes × Bytes) := do
  let ct ← base64Decode env.ciphertext
  let nonce ← base64Decode env.nonce
  let ephPub ← base64Decode env.ephemeralPublicKey
  pure (ct, nonce, ephPub)

/-- `decryptWith` throws on the envelope. -/
def Rejected (env : EncryptedEnvelope) (suite : CryptoSuite) (privateKey : Bytes) : Prop :=
  ∃ e, suite.decryptWith privateKey env.ciphertext env.nonce env.ephemeralPublicKey = .error e

end EncryptedEnvelope

/-! ### Opening an envelope -/

section Open

variable {suite : CryptoSuite} {sent : Set CryptoSuite.Sealing} {privateKey : Bytes}
  {env : EncryptedEnvelope} {text : String}

/-- The parts of an envelope decode when each of them does. -/
theorem EncryptedEnvelope.bytes_eq_ok {ct nonce ephPub : Bytes} :
    env.bytes = .ok (ct, nonce, ephPub) ↔ base64Decode env.ciphertext = .ok ct ∧
      base64Decode env.nonce = .ok nonce ∧ base64Decode env.ephemeralPublicKey = .ok ephPub := by
  unfold EncryptedEnvelope.bytes
  cases base64Decode env.ciphertext <;> cases base64Decode env.nonce <;>
    cases base64Decode env.ephemeralPublicKey <;> simp [bind, Except.bind, pure, Except.pure]

/-- `decryptWith` on the bytes of an envelope. -/
theorem decryptWith_of_bytes {ct nonce ephPub : Bytes}
    (hbytes : env.bytes = .ok (ct, nonce, ephPub)) :
    suite.decryptWith privateKey env.ciphertext env.nonce env.ephemeralPublicKey =
      if ct.length < 16 then .error .formatException
      else
        let key := suite.hkdf (suite.sharedSecretKey privateKey ephPub) ephPub
        let clear := suite.decrypt key nonce (ct.take (ct.length - 16)) (ct.drop (ct.length - 16))
        (clear.bind utf8Decode).elim (.error .formatException) .ok := by
  obtain ⟨hct, hnonce, hephPub⟩ := EncryptedEnvelope.bytes_eq_ok.mp hbytes
  simp only [CryptoSuite.decryptWith, hct, hnonce, hephPub, bind, Except.bind]

/-- What is opened carries the bytes of a message that was sent. -/
theorem bytes_of_decryptWith (hideal : suite.IdealFor sent) {ct nonce ephPub : Bytes}
    (hbytes : env.bytes = .ok (ct, nonce, ephPub)) (hlength : ephPub.length = 32)
    (hopen : suite.decryptWith privateKey env.ciphertext env.nonce env.ephemeralPublicKey =
      .ok text) :
    16 ≤ ct.length ∧ ∃ m ∈ sent, m.bytes suite = (ct, nonce, ephPub) := by
  rw [decryptWith_of_bytes hbytes] at hopen
  split at hopen
  · cases hopen
  · next hlong =>
    refine ⟨Nat.le_of_not_lt hlong, ?_⟩
    obtain ⟨clear, hclear⟩ : ∃ clear,
        suite.decrypt (suite.hkdf (suite.sharedSecretKey privateKey ephPub) ephPub) nonce
          (ct.take (ct.length - 16)) (ct.drop (ct.length - 16)) = some clear := by
      rw [← Option.ne_none_iff_exists']
      intro hnone
      simp [hnone] at hopen
    obtain ⟨⟨m, hm, hkey, hnonce, htext⟩, hbox⟩ := (hideal.decrypt_iff _ _ _ _ _).mp hclear
    -- the key tells the ephemeral key that was hashed to it
    have hhashed : ephPub ++ suite.sharedSecretKey privateKey ephPub = m.hashed suite :=
      hideal.collision_free m hm _ hkey.symm
    have hsame : ephPub = suite.publicKey m.ephemeral :=
      (List.append_inj hhashed
        (hlength.trans (hideal.publicKey_length _ m.ephemeral_length).symm)).1
    refine ⟨m, hm, ?_⟩
    have hct : (suite.encrypt (m.key suite) nonce clear).1 ++
        (suite.encrypt (m.key suite) nonce clear).2 = ct := by
      rw [hkey, hbox]
      exact List.take_append_drop ..
    simp only [CryptoSuite.Sealing.bytes, CryptoSuite.sealFor, ← hsame, hnonce, htext]
    simp only [CryptoSuite.Sealing.key, ← hsame] at hct
    rw [hct]

/-- The bytes of the envelope of a message. -/
theorem CryptoSuite.Sealing.bytes_envelope (m : CryptoSuite.Sealing) :
    (m.envelope suite).bytes = .ok (m.bytes suite) := by
  rw [CryptoSuite.Sealing.bytes, EncryptedEnvelope.bytes_eq_ok]
  exact ⟨base64Decode_base64Encode, base64Decode_base64Encode, base64Decode_base64Encode⟩

/-- The recipient opens a message, but for a byte order mark at the start. -/
theorem decryptWith_envelope (hideal : suite.IdealFor sent) {m : CryptoSuite.Sealing}
    (hm : m ∈ sent) (hlength : privateKey.length = 32)
    (hpeer : m.peerPublicKey = suite.publicKey privateKey) :
    suite.decryptWith privateKey (m.envelope suite).ciphertext (m.envelope suite).nonce
      (m.envelope suite).ephemeralPublicKey = .ok (withoutBom m.plaintext) := by
  have hkey : suite.hkdf (suite.sharedSecretKey privateKey (suite.publicKey m.ephemeral))
      (suite.publicKey m.ephemeral) = m.key suite := by
    rw [CryptoSuite.Sealing.key, hpeer, hideal.shared_comm _ _ hlength m.ephemeral_length]
  rcases hbox : suite.encrypt (m.key suite) m.nonce (utf8Encode m.plaintext) with ⟨cipher, tag⟩
  have htag : tag.length = 16 := by
    have h := hideal.tag_length (m.key suite) m.nonce (utf8Encode m.plaintext)
    rwa [hbox] at h
  have hopen : suite.decrypt (m.key suite) m.nonce cipher tag = some (utf8Encode m.plaintext) :=
    (hideal.decrypt_iff _ _ _ _ _).mpr ⟨⟨m, hm, rfl, rfl, rfl⟩, hbox⟩
  have hbytes : (m.envelope suite).bytes =
      .ok (cipher ++ tag, m.nonce, suite.publicKey m.ephemeral) := by
    have hct : (suite.sealFor m.ephemeral m.nonce m.peerPublicKey m.plaintext).ciphertext =
        cipher ++ tag := by
      change (suite.encrypt (m.key suite) m.nonce (utf8Encode m.plaintext)).1 ++
        (suite.encrypt (m.key suite) m.nonce (utf8Encode m.plaintext)).2 = _
      rw [hbox]
    rw [m.bytes_envelope, CryptoSuite.Sealing.bytes, hct]
    rfl
  have hsplit : (cipher ++ tag).length - 16 = cipher.length := by
    rw [List.length_append, htag]
    omega
  have hlong : ¬(cipher ++ tag).length < 16 := by
    rw [List.length_append]
    omega
  rw [decryptWith_of_bytes hbytes, if_neg hlong, hkey, hsplit, List.take_left, List.drop_left]
  simp [hopen, utf8Decode_utf8Encode]

end Open

/-! ### The safety number -/

/-- The first differing byte of `a` is the greater one. -/
def bytesAfter : Bytes → Bytes → Bool
  | x :: a, y :: b => if x < y then false else if x > y then true else bytesAfter a b
  | _, _ => false

/-- `_sortedPair`. -/
def sortedPair (a b : Bytes) : Bytes × Bytes := if bytesAfter a b then (b, a) else (a, b)

/-- What `safetyNumber` hashes. -/
def safetyInput (a b : Bytes) : Bytes :=
  let pair := sortedPair a b
  utf8Encode "marketplace-v1" ++ pair.1 ++ pair.2

/-- `digest.toString()`: the bytes in hexadecimal. -/
def hexString (bytes : Bytes) : List Char :=
  bytes.flatMap fun b => [Nat.digitChar (b.toNat / 16), Nat.digitChar (b.toNat % 16)]

/-- `safetyNumber`. -/
def CryptoSuite.safetyNumber (suite : CryptoSuite) (a b : Bytes) : String :=
  let hex := ((hexString (suite.sha256 (safetyInput a b))).take 12).map Char.toUpper
  String.ofList (hex.take 4 ++ ' ' :: (hex.drop 4).take 4 ++ ' ' :: hex.drop 8)

section SafetyNumber

variable {a b : Bytes}

/-- Of two different byte strings of one length exactly one is after the other. -/
theorem bytesAfter_swap (hlength : a.length = b.length) (hne : a ≠ b) :
    bytesAfter b a = !bytesAfter a b := by
  induction a generalizing b with
  | nil =>
    cases b with
    | nil => exact absurd rfl hne
    | cons y b => cases hlength
  | cons x a ih =>
    cases b with
    | nil => cases hlength
    | cons y b =>
      rcases Nat.lt_trichotomy x.toNat y.toNat with hlt | heq | hgt
      · simp [bytesAfter, UInt8.lt_iff_toNat_lt, hlt, hlt.not_gt]
      · obtain rfl := UInt8.toNat_inj.mp heq
        have hrest : a ≠ b := fun h => hne (by rw [h])
        simpa [bytesAfter] using ih (Nat.succ.inj hlength) hrest
      · simp [bytesAfter, UInt8.lt_iff_toNat_lt, hgt, hgt.not_gt]

/-- The sorted pair of two keys of one length does not depend on their order. -/
theorem sortedPair_comm (hlength : a.length = b.length) : sortedPair a b = sortedPair b a := by
  by_cases hab : a = b
  · rw [hab]
  · rw [sortedPair, sortedPair, bytesAfter_swap hlength hab]
    cases bytesAfter a b <;> rfl

/-- The sorted pair is the pair in one of the two orders. -/
theorem sortedPair_eq_or (a b : Bytes) : sortedPair a b = (a, b) ∨ sortedPair a b = (b, a) := by
  unfold sortedPair
  split
  · exact .inr rfl
  · exact .inl rfl

/-- Both parties hash the same input. -/
theorem safetyInput_comm (hlength : a.length = b.length) : safetyInput a b = safetyInput b a := by
  rw [safetyInput, safetyInput, sortedPair_comm hlength]

/-- The hashed input determines the unordered pair of keys. -/
theorem safetyInput_eq_iff {n : ℕ} {a' b' : Bytes} (ha : a.length = n) (hb : b.length = n)
    (ha' : a'.length = n) (hb' : b'.length = n) :
    safetyInput a b = safetyInput a' b' ↔ a = a' ∧ b = b' ∨ a = b' ∧ b = a' := by
  constructor
  · intro h
    simp only [safetyInput, List.append_assoc] at h
    have hpairs := List.append_cancel_left h
    rcases sortedPair_eq_or a b with hpair | hpair <;>
      rcases sortedPair_eq_or a' b' with hpair' | hpair' <;>
      rw [hpair, hpair'] at hpairs <;>
      obtain ⟨rfl, rfl⟩ := List.append_inj hpairs (by simp [ha, hb, ha', hb'])
    · exact .inl ⟨rfl, rfl⟩
    · exact .inr ⟨rfl, rfl⟩
    · exact .inr ⟨rfl, rfl⟩
    · exact .inl ⟨rfl, rfl⟩
  · rintro (⟨rfl, rfl⟩ | ⟨rfl, rfl⟩)
    · rfl
    · exact safetyInput_comm (ha.trans hb.symm)

end SafetyNumber

/-! ### The codec -/

/-- A message is opened by its recipient and by nobody's alteration, and the safety number of two
keys is well defined. -/
structure CodecCorrect (suite : CryptoSuite) (sent : Set CryptoSuite.Sealing)
    (m : CryptoSuite.Sealing) (privateKey : Bytes) : Prop where
  opens : suite.decryptWith privateKey (m.envelope suite).ciphertext (m.envelope suite).nonce
    (m.envelope suite).ephemeralPublicKey = .ok m.plaintext
  /-- An envelope that was not sent is rejected. -/
  altered : ∀ (env : EncryptedEnvelope) (ct nonce ephPub : Bytes),
    env.bytes = .ok (ct, nonce, ephPub) → ephPub.length = 32 →
    (∀ m' ∈ sent, m'.bytes suite ≠ (ct, nonce, ephPub)) → env.Rejected suite privateKey
  /-- Under the ephemeral key of a message nothing but its own envelope is opened. -/
  tampered : ∀ (env : EncryptedEnvelope) (ct nonce : Bytes),
    env.bytes = .ok (ct, nonce, suite.publicKey m.ephemeral) →
    m.bytes suite ≠ (ct, nonce, suite.publicKey m.ephemeral) → env.Rejected suite privateKey
  short : ∀ (env : EncryptedEnvelope) (ct nonce ephPub : Bytes),
    env.bytes = .ok (ct, nonce, ephPub) → ct.length < 16 → env.Rejected suite privateKey
  safetyNumber_comm : ∀ a b : Bytes, a.length = 32 → b.length = 32 →
    suite.safetyNumber a b = suite.safetyNumber b a
  safetyInput_determines : ∀ a b a' b' : Bytes, a.length = 32 → b.length = 32 → a'.length = 32 →
    b'.length = 32 → (safetyInput a b = safetyInput a' b' ↔ a = a' ∧ b = b' ∨ a = b' ∧ b = a')

section Codec

variable {suite : CryptoSuite} {sent : Set CryptoSuite.Sealing} {privateKey : Bytes}
  {env : EncryptedEnvelope} {ct nonce ephPub : Bytes}

/-- An envelope whose bytes were not sent is rejected. -/
theorem rejected_of_unsent (hideal : suite.IdealFor sent)
    (hbytes : env.bytes = .ok (ct, nonce, ephPub)) (hlength : ephPub.length = 32)
    (hunsent : ∀ m ∈ sent, m.bytes suite ≠ (ct, nonce, ephPub)) :
    env.Rejected suite privateKey := by
  rcases hopen : suite.decryptWith privateKey env.ciphertext env.nonce env.ephemeralPublicKey with
    e | text
  · exact ⟨e, hopen⟩
  · obtain ⟨-, m, hm, hsame⟩ := bytes_of_decryptWith hideal hbytes hlength hopen
    exact absurd hsame (hunsent m hm)

/-- A cipher text that is shorter than the tag is rejected. -/
theorem rejected_of_short (hbytes : env.bytes = .ok (ct, nonce, ephPub)) (hshort : ct.length < 16) :
    env.Rejected suite privateKey :=
  ⟨.formatException, by rw [decryptWith_of_bytes hbytes, if_pos hshort]⟩

/-- With ideal primitives the codec is right about a message exactly when its text does not begin
with a byte order mark. -/
theorem codecCorrect_iff (hideal : suite.IdealFor sent) {m : CryptoSuite.Sealing} (hm : m ∈ sent)
    (hlength : privateKey.length = 32) (hpeer : m.peerPublicKey = suite.publicKey privateKey) :
    CodecCorrect suite sent m privateKey ↔ m.plaintext.toList.head? ≠ some '\uFEFF' := by
  rw [← withoutBom_eq_iff]
  have hopen := decryptWith_envelope hideal hm hlength hpeer
  constructor
  · intro hcodec
    exact Except.ok.inj (hopen.symm.trans hcodec.opens)
  · intro htext
    rw [htext] at hopen
    refine ⟨hopen, fun _ _ _ _ hbytes hlong => rejected_of_unsent hideal hbytes hlong, ?_,
      fun _ _ _ _ hbytes hshort => rejected_of_short hbytes hshort, ?_, ?_⟩
    · intro env ct nonce hbytes hne
      have hpub := hideal.publicKey_length _ m.ephemeral_length
      refine rejected_of_unsent hideal hbytes hpub ?_
      -- the ephemeral key tells the message
      intro m' hm' hsame
      have hephemeral : suite.publicKey m'.ephemeral = suite.publicKey m.ephemeral :=
        congrArg (fun parts : Bytes × Bytes × Bytes => parts.2.2) hsame
      obtain rfl := hideal.fresh m' hm' m hm hephemeral
      exact hne hsame
    · intro a b ha hb
      rw [CryptoSuite.safetyNumber, safetyInput_comm (ha.trans hb.symm)]
      rfl
    · intro a b a' b' ha hb ha' hb'
      exact safetyInput_eq_iff ha hb ha' hb'

end Codec

namespace Sample

/-- A message of the text for the key `2, 2, …`. -/
def sealing (text : String) : CryptoSuite.Sealing :=
  { ephemeral := List.replicate 32 1, nonce := List.replicate 12 9,
    peerPublicKey := List.replicate 32 2, plaintext := text,
    ephemeral_length := List.length_replicate }

/-- Primitives that know the one message. -/
def suiteFor (text : String) : CryptoSuite where
  publicKey a := a
  sharedSecretKey a b := List.zipWith (· ^^^ ·) a b
  sha256 input :=
    if input = List.replicate 32 1 ++ List.replicate 32 3 then List.replicate 32 5
    else List.replicate 32 4
  encrypt _ _ clear := (clear, List.replicate 16 7)
  decrypt key nonce cipher tag :=
    if key = List.replicate 32 5 ∧ nonce = List.replicate 12 9 ∧ cipher = utf8Encode text ∧
      tag = List.replicate 16 7 then some cipher
    else none

/-- The sample sealing derives its key from these bytes. -/
theorem sealing_hashed (text : String) :
    (sealing text).hashed (suiteFor text) = List.replicate 32 1 ++ List.replicate 32 3 :=
  rfl

/-- The sample suite hashes them to this key. -/
theorem sha256_hashed (text : String) :
    (suiteFor text).sha256 (List.replicate 32 1 ++ List.replicate 32 3) = List.replicate 32 5 := by
  simp only [suiteFor, if_true]

/-- The sample sealing's key. -/
theorem sealing_key (text : String) :
    (sealing text).key (suiteFor text) = List.replicate 32 5 := by
  change ((suiteFor text).sha256 ((sealing text).hashed (suiteFor text))).take 32 = _
  rw [sealing_hashed, sha256_hashed]
  rfl

/-- The sample suite is ideal for the sample sealing. -/
theorem suiteFor_ideal (text : String) : (suiteFor text).IdealFor {sealing text} where
  publicKey_length _ h := h
  shared_comm a b _ _ := List.zipWith_comm_of_comm fun x y => UInt8.xor_comm x y
  tag_length _ _ _ := List.length_replicate
  decrypt_iff key nonce cipher tag clear := by
    have hkey := sealing_key text
    simp only [Set.mem_singleton_iff, exists_eq_left, hkey]
    simp only [suiteFor, sealing, Prod.mk.injEq]
    grind
  collision_free := by
    rintro m rfl input hdigest
    rw [sealing_hashed] at hdigest ⊢
    by_contra hne
    have hother : (suiteFor text).sha256 input = List.replicate 32 4 := if_neg hne
    rw [hother, sha256_hashed] at hdigest
    exact absurd hdigest (by decide)
  fresh := by
    rintro m rfl m' rfl -
    rfl

end Sample

/-- The codec is right about a greeting. -/
theorem codecCorrect_greeting :
    CodecCorrect (Sample.suiteFor "hi") {Sample.sealing "hi"} (Sample.sealing "hi")
      (List.replicate 32 2) :=
  (codecCorrect_iff (Sample.suiteFor_ideal "hi") rfl List.length_replicate rfl).mpr (by decide)

/-- The recipient of a text that begins with a byte order mark is shown another one. -/
theorem codec_loses_mark :
    (Sample.suiteFor "\uFEFFhi").IdealFor {Sample.sealing "\uFEFFhi"} ∧
      (let env := (Sample.sealing "\uFEFFhi").envelope (Sample.suiteFor "\uFEFFhi")
      (Sample.suiteFor "\uFEFFhi").decryptWith (List.replicate 32 2) env.ciphertext env.nonce
        env.ephemeralPublicKey = .ok "hi") ∧
      ¬CodecCorrect (Sample.suiteFor "\uFEFFhi") {Sample.sealing "\uFEFFhi"}
        (Sample.sealing "\uFEFFhi") (List.replicate 32 2) := by
  have hopen := decryptWith_envelope (Sample.suiteFor_ideal "\uFEFFhi")
    (m := Sample.sealing "\uFEFFhi") rfl (List.length_replicate (n := 32) (a := 2)) rfl
  have htext : withoutBom "\uFEFFhi" = "hi" := by decide
  refine ⟨Sample.suiteFor_ideal _, hopen.trans (congrArg Except.ok htext), fun hcodec => ?_⟩
  have hsame := Except.ok.inj (hopen.symm.trans hcodec.opens)
  exact absurd hsame (by decide)

end Marketplace
