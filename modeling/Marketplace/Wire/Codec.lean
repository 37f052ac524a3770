import Marketplace.Lib.Canonical
import Marketplace.Wire.Messages

/-!
# The texts of keys and ciphertexts

Four fields of the API carry bytes as base64url: the ciphertext, the nonce and the ephemeral key
of `SendMessageRequest`, and the public key of `RegisterKeyRequest`. What the API emits is
decoded to the same bytes. The decoders are built on a lenient one, which reads a text by its
letters up to the first complete padding: they accept more than encodings, and several texts for
the same bytes.
-/

namespace Marketplace

open Lib Base64

/-! ### The key registry's side -/

/-- `_decode_b64url_32`; `none` is its `ValueError`. -/
def decodeB64url32 (v : String) : Option Bytes :=
  let padded := v.toList ++ List.replicate ((4 - v.length % 4) % 4) '='
  if padded.all fun c => c.toNat < 128 then
    (Base64.decodeLenient {} 0 padded).filter fun raw => raw.length = 32
  else none

/-- `encode_public_key_b64url`. -/
def encodePublicKeyB64url (raw : Bytes) : String :=
  String.ofList (Base64.encodeBare Base64.urlSafe raw)

/-- The field `public_key_b64url` of `RegisterKeyRequest`, with its validator. -/
def publicKeyField (body : Json.Entries) : Except FieldError String := do
  let v ← textField body "public_key_b64url" 128
  if decodeB64url32 v = none then .error { loc := "public_key_b64url", type := "value_error" }
  else .ok v

/-- A text field is read exactly when it is a string within its bounds. -/
theorem textField_ok_iff {body : Json.Entries} {field : String} {bound : ℕ} {v : String} :
    textField body field bound = .ok v ↔
      body.lookup field = some (.str v) ∧ 1 ≤ v.length ∧ v.length ≤ bound := by
  unfold textField
  split
  · next hnone => simp [hnone]
  · next s hsome =>
    rw [hsome]
    split
    · next hshort =>
      simp only [reduceCtorEq, Option.some.injEq, Json.str.injEq, false_iff, not_and]
      rintro rfl hone
      omega
    · next hshort =>
      split
      · next hlong =>
        simp only [reduceCtorEq, Option.some.injEq, Json.str.injEq, false_iff, not_and]
        rintro rfl hone
        omega
      · next hlong =>
        simp only [Except.ok.injEq, Option.some.injEq, Json.str.injEq]
        constructor
        · rintro rfl
          exact ⟨rfl, by omega, by omega⟩
        · exact fun hv => hv.1
  · next value hother hsome =>
    rw [hsome]
    simp only [reduceCtorEq, Option.some.injEq, false_iff, not_and]
    rintro rfl
    exact absurd rfl (hother v)

/-- A field of text whose validator has a decoding. -/
theorem checkedField_ok_iff {body : Json.Entries} {field : String} {bound : ℕ} {v : String}
    {decode : String → Option Bytes} :
    (do
      let v ← textField body field bound
      if decode v = none then .error { loc := field, type := "value_error" } else .ok v :
        Except FieldError String) = .ok v ↔
      body.lookup field = some (.str v) ∧ (1 ≤ v.length ∧ v.length ≤ bound) ∧ decode v ≠ none := by
  rw [← and_assoc, ← textField_ok_iff]
  cases textField body field bound with
  | error e => simp [bind, Except.bind]
  | ok s =>
    simp only [bind, Except.bind, Except.ok.injEq]
    split
    · next hnone =>
      simp only [reduceCtorEq, false_iff, not_and, not_not]
      rintro rfl
      exact hnone
    · next hsome =>
      constructor
      · intro h
        obtain rfl := Except.ok.inj h
        exact ⟨rfl, hsome⟩
      · rintro ⟨rfl, -⟩
        rfl

/-! ### The four texts -/

/-- A text of bytes in a request. -/
inductive ByteText
  | ciphertext
  | nonce
  | ephemeralPublicKey
  | publicKey
deriving DecidableEq, Repr

namespace ByteText

/-- The name of the field. -/
def field : ByteText → String
  | ciphertext => "ciphertext_b64url"
  | nonce => "nonce_b64url"
  | ephemeralPublicKey => "ephemeral_public_key_b64url"
  | publicKey => "public_key_b64url"

/-- The `max_length` of the field. -/
def maxLength : ByteText → ℕ
  | ciphertext => 131072
  | nonce => 32
  | ephemeralPublicKey | publicKey => 128

/-- The least number of bytes. -/
def minLen : ByteText → ℕ
  | ciphertext => 1
  | nonce => 12
  | ephemeralPublicKey | publicKey => 32

/-- The greatest number of bytes. -/
def maxLen : ByteText → ℕ
  | ciphertext => 65536
  | nonce => 12
  | ephemeralPublicKey | publicKey => 32

/-- The field in a body, with its validator. -/
def validate (t : ByteText) (body : Json.Entries) : Except FieldError String :=
  match t with
  | publicKey => publicKeyField body
  | t => b64urlField body t.field t.maxLength t.minLen t.maxLen

/-- The bytes of a text. -/
def decode (t : ByteText) (v : String) : Option Bytes :=
  match t with
  | publicKey => decodeB64url32 v
  | t => decodeB64url v t.minLen t.maxLen

/-- The text that the API emits for some bytes. -/
def encode (t : ByteText) (raw : Bytes) : String :=
  match t with
  | publicKey => encodePublicKeyB64url raw
  | _ => b64urlEncode raw

/-- A number of bytes that the field admits. -/
def Admits (t : ByteText) (n : ℕ) : Prop := t.minLen ≤ n ∧ n ≤ t.maxLen

instance (t : ByteText) (n : ℕ) : Decidable (t.Admits n) := inferInstanceAs (Decidable (_ ∧ _))

/-- The field accepts this text. -/
def Accepts (t : ByteText) (v : String) : Prop := t.validate [(t.field, .str v)] = .ok v

/-- A base64url encoding, with or without its padding, of an admitted number of bytes. -/
def Valid (t : ByteText) (v : String) : Prop :=
  ∃ raw : Bytes, t.Admits raw.length ∧ EncodingOf urlSafe raw v.toList

/-- What the API emits is accepted, and decoded to the same bytes. -/
def RoundTrips (t : ByteText) : Prop :=
  ∀ raw : Bytes, t.Admits raw.length → t.Accepts (t.encode raw) ∧ t.decode (t.encode raw) = some raw

/-- On these texts, the field accepts the encodings and nothing else, and no bytes have two
accepted texts without padding. -/
structure ExactOn (t : ByteText) (texts : String → Prop) : Prop where
  accepts_iff : ∀ v, texts v → (t.Accepts v ↔ t.Valid v)
  injective : ∀ v w, texts v → texts w → t.Accepts v → t.Accepts w → '=' ∉ v.toList →
    '=' ∉ w.toList → t.decode v = t.decode w → v = w

/-- The text with the padding that the decoders add. -/
def padded (v : String) : List Char := v.toList ++ List.replicate ((4 - v.length % 4) % 4) '='

/-- A text that the decoder gets bytes from: ASCII, of admitted length, whose letters up to the
first complete padding make an admitted number of bytes. -/
def Reads (t : ByteText) (v : String) : Prop :=
  (1 ≤ v.length ∧ v.length ≤ t.maxLength) ∧ (∀ c ∈ v.toList, c.toNat < 128) ∧
    Readable (padded v) ∧ t.Admits (letterCount (window [] (padded v)) * 3 / 4)

variable {t : ByteText} {v : String}

/-- Decoding: ASCII text, the lenient decoder, and a length that the field admits. -/
theorem decode_eq : t.decode v =
    if (padded v).all fun c => c.toNat < 128 then
      (decodeLenient {} 0 (padded v)).filter fun raw => t.Admits raw.length
    else none := by
  have hone : ∀ n : ℕ, decide (n = 32) = decide (32 ≤ n ∧ n ≤ 32) := by
    intro n
    congr 1
    simp only [eq_iff_iff]
    omega
  cases t with
  | publicKey =>
    unfold decode decodeB64url32 Admits minLen maxLen
    simp only [hone]
    rfl
  | _ => rfl

/-- Padding adds ASCII only. -/
theorem all_padded : ((padded v).all fun c => c.toNat < 128) = true ↔
    ∀ c ∈ v.toList, c.toNat < 128 := by
  simp only [padded, List.all_append, Bool.and_eq_true, List.all_eq_true, decide_eq_true_eq,
    List.mem_replicate]
  constructor
  · exact fun h => h.1
  · refine fun h => ⟨h, ?_⟩
    rintro c ⟨-, rfl⟩
    decide

/-- A field is accepted exactly when it is within its bounds and decodes. -/
theorem accepts_iff_decode : t.Accepts v ↔
    (1 ≤ v.length ∧ v.length ≤ t.maxLength) ∧ ∃ raw, t.decode v = some raw := by
  have hlookup : ∀ field : String, List.lookup field [(field, Json.str v)] = some (Json.str v) := by
    intro field
    simp
  cases t with
  | publicKey =>
    rw [Accepts, validate, publicKeyField, checkedField_ok_iff]
    simp [hlookup, decode, field, maxLength, Option.ne_none_iff_exists']
  | _ =>
    rw [Accepts, validate, b64urlField, checkedField_ok_iff]
    · simp [hlookup, decode, Option.ne_none_iff_exists']
    · nofun

/-- A field that is read was accepted. -/
theorem accepts_of_field {body : Json.Entries}
    (h : b64urlField body t.field t.maxLength t.minLen t.maxLen = .ok v)
    (ht : t ≠ publicKey) : t.Accepts v := by
  rw [b64urlField, checkedField_ok_iff] at h
  obtain ⟨-, hlength, hdecode⟩ := h
  refine accepts_iff_decode.mpr ⟨hlength, Option.ne_none_iff_exists'.mp ?_⟩
  cases t with
  | publicKey => exact absurd rfl ht
  | _ => exact hdecode

/-- The texts of an accepted message are accepted, each by its own field. -/
theorem accepts_of_modelValidate {body : Json.Entries} {request : SendMessageRequest}
    (h : SendMessageRequest.modelValidate body = .ok request) :
    ciphertext.Accepts request.ciphertextB64url ∧ nonce.Accepts request.nonceB64url ∧
      ephemeralPublicKey.Accepts request.ephemeralPublicKeyB64url := by
  unfold SendMessageRequest.modelValidate at h
  split at h
  · next hciphertext hnonce hkey _ _ =>
    obtain rfl := Except.ok.inj h
    exact ⟨accepts_of_field hciphertext nofun, accepts_of_field hnonce nofun,
      accepts_of_field hkey nofun⟩
  · cases h

/-- The decoder gets bytes from exactly the texts that it reads. -/
theorem accepts_iff_reads : t.Accepts v ↔ t.Reads v := by
  rw [accepts_iff_decode, Reads, decode_eq]
  refine and_congr_right fun _ => ?_
  by_cases hascii : ∀ c ∈ v.toList, c.toNat < 128
  · rw [if_pos (all_padded.mpr hascii), ← decodeLenient_some_iff, and_iff_right hascii]
    simp [Option.filter_eq_some_iff]
  · rw [if_neg fun h => hascii (all_padded.mp h)]
    simp [hascii]

/-! ### Canonical texts -/

/-- The URL-safe alphabet is ASCII. -/
theorem char_lt_urlSafe : ∀ n < 64, (urlSafe.char n).toNat < 128 := by decide

/-- With its padding, a canonical text has the whole padding of its letters. -/
theorem padded_canonical {ds : List ℕ} {pads : ℕ}
    (hv : v.toList = ds.map urlSafe.char ++ List.replicate pads '=')
    (hpads : pads = 0 ∨ pads = fullPadding ds.length) :
    padded v = ds.map urlSafe.char ++ List.replicate (fullPadding ds.length) '=' := by
  have hlength : v.length = ds.length + pads := by
    rw [← String.length_toList, hv]
    simp
  have hadded : pads + (4 - v.length % 4) % 4 = fullPadding ds.length := by
    unfold fullPadding at hpads ⊢
    omega
  rw [padded, hv, List.append_assoc, List.replicate_append_replicate, hadded]

/-- What the decoder gets from a canonical text. -/
theorem decode_canonical {ds : List ℕ} {pads : ℕ} (hds : ∀ d ∈ ds, d < 64)
    (hv : v.toList = ds.map urlSafe.char ++ List.replicate pads '=')
    (hpads : pads = 0 ∨ pads = fullPadding ds.length) {raw : Bytes} :
    t.decode v = some raw ↔ ds.length % 4 ≠ 1 ∧ bytesOf ds = raw ∧ t.Admits raw.length := by
  have hascii : ∀ c ∈ v.toList, c.toNat < 128 := by
    intro c hc
    rw [hv, List.mem_append, List.mem_map, List.mem_replicate] at hc
    rcases hc with ⟨d, hd, rfl⟩ | ⟨-, rfl⟩
    · exact char_lt_urlSafe d (hds d hd)
    · decide
  rw [decode_eq, if_pos (all_padded.mpr hascii), padded_canonical hv hpads,
    decodeLenient_canonical urlSafe_known hds]
  split
  · next hone => simp [hone]
  · next hne => simp [Option.filter_eq_some_iff, hne]

/-- A text for an admitted number of bytes is short enough for its field. -/
theorem length_of_admits {n length pads : ℕ} (hadmits : t.Admits (n * 3 / 4))
    (hlength : length = n + pads) (hpads : pads = 0 ∨ pads = fullPadding n) :
    1 ≤ length ∧ length ≤ t.maxLength := by
  obtain ⟨hmin, hmax⟩ := hadmits
  have hthree : pads ≤ 3 := by
    unfold fullPadding at hpads
    omega
  cases t with
  | ciphertext =>
    simp only [minLen, maxLen, maxLength] at *
    omega
  | nonce =>
    simp only [minLen, maxLen, maxLength] at *
    omega
  | ephemeralPublicKey =>
    simp only [minLen, maxLen, maxLength] at *
    omega
  | publicKey =>
    simp only [minLen, maxLen, maxLength] at *
    omega

/-- An encoding of an admitted number of bytes is accepted and decoded to these bytes. -/
theorem reads_encoding {raw : Bytes} (hadmits : t.Admits raw.length)
    (h : EncodingOf urlSafe raw v.toList) : t.Accepts v ∧ t.decode v = some raw := by
  obtain ⟨pads, hv, hpads⟩ : ∃ pads,
      v.toList = (sextets raw).map urlSafe.char ++ List.replicate pads '=' ∧
        (pads = 0 ∨ pads = fullPadding (sextets raw).length) := by
    rcases h with h | h
    · exact ⟨0, by rw [h, List.replicate_zero, List.append_nil, encodeBare], .inl rfl⟩
    · exact ⟨padLength raw, h, .inr (padLength_eq_fullPadding raw)⟩
  have hdecode : t.decode v = some raw :=
    (decode_canonical (sextets_lt raw) hv hpads).mpr
      ⟨length_sextets_mod raw, bytesOf_sextets raw, hadmits⟩
  have hbytes : raw.length = (sextets raw).length * 3 / 4 := by
    rw [← length_bytesOf, bytesOf_sextets]
  have hlength : v.length = (sextets raw).length + pads := by
    rw [← String.length_toList, hv]
    simp
  refine ⟨accepts_iff_decode.mpr ⟨?_, raw, hdecode⟩, hdecode⟩
  exact length_of_admits (hbytes ▸ hadmits) hlength hpads

/-- A canonical text is accepted exactly when it encodes an admitted number of bytes. -/
theorem accepts_iff_valid (h : Canonical urlSafe v.toList) : t.Accepts v ↔ t.Valid v := by
  obtain ⟨ds, pads, hds, hv, hpads, hunused⟩ := h
  rw [accepts_iff_decode]
  constructor
  · rintro ⟨-, raw, hraw⟩
    obtain ⟨hlength, rfl, hadmits⟩ := (decode_canonical hds hv hpads).mp hraw
    refine ⟨bytesOf ds, hadmits, ?_⟩
    have hsextets := sextets_bytesOf hds hunused hlength
    rcases hpads with rfl | rfl
    · left
      rw [hv, encodeBare, hsextets, List.replicate_zero, List.append_nil]
    · right
      rw [hv, Base64.encode, encodeBare, hsextets, padLength_eq_fullPadding, hsextets]
  · rintro ⟨raw, hadmits, hencoding⟩
    exact accepts_iff_decode.mp (reads_encoding hadmits hencoding).1

/-- Exactly the canonical texts and those that the decoder does not read are accepted as they
should be. -/
theorem accepts_iff_valid_iff :
    (t.Accepts v ↔ t.Valid v) ↔ Canonical urlSafe v.toList ∨ ¬t.Reads v := by
  constructor
  · intro h
    by_cases hreads : t.Reads v
    · obtain ⟨raw, -, hencoding⟩ := h.mp (accepts_iff_reads.mpr hreads)
      exact .inl hencoding.canonical
    · exact .inr hreads
  · rintro (hcanonical | hnot)
    · exact accepts_iff_valid hcanonical
    · have hrefused : ¬t.Accepts v := fun h => hnot (accepts_iff_reads.mp h)
      refine iff_of_false hrefused fun hvalid => hrefused ?_
      obtain ⟨raw, hadmits, hencoding⟩ := hvalid
      exact (reads_encoding hadmits hencoding).1

/-- A text without padding characters is a bare encoding. -/
theorem eq_encodeBare {raw : Bytes} (h : EncodingOf urlSafe raw v.toList)
    (hbare : '=' ∉ v.toList) : v = String.ofList (encodeBare urlSafe raw) := by
  have hlist : v.toList = encodeBare urlSafe raw := by
    rcases h with h | h
    · exact h
    · have hnone : padLength raw = 0 := by
        by_contra hpos
        refine hbare ?_
        rw [h, Base64.encode]
        exact List.mem_append_right _ (List.mem_replicate.mpr ⟨hpos, rfl⟩)
      rw [h, Base64.encode, hnone, List.replicate_zero, List.append_nil]
  rw [← hlist, String.ofList_toList]

/-- What the API emits is read back as the same bytes, and a field is exact on some texts exactly
when each of them is canonical or is not read at all. -/
theorem codec_iff (t : ByteText) : t.RoundTrips ∧ ∀ texts : String → Prop,
    t.ExactOn texts ↔ ∀ v, texts v → Canonical urlSafe v.toList ∨ ¬t.Reads v := by
  refine ⟨fun raw hadmits => ?_, fun texts => ⟨fun h v hv => ?_, fun h => ⟨fun v hv => ?_, ?_⟩⟩⟩
  · have hbare : EncodingOf urlSafe raw (t.encode raw).toList := by
      left
      cases t <;> simp [encode, encodePublicKeyB64url, b64urlEncode]
    exact reads_encoding hadmits hbare
  · exact accepts_iff_valid_iff.mp (h.accepts_iff v hv)
  · exact accepts_iff_valid_iff.mpr (h v hv)
  · intro v w hv hw hacceptsv hacceptsw hbarev hbarew hsame
    obtain ⟨raw, hadmits, hencoding⟩ := (accepts_iff_valid_iff.mpr (h v hv)).mp hacceptsv
    obtain ⟨raw', hadmits', hencoding'⟩ := (accepts_iff_valid_iff.mpr (h w hw)).mp hacceptsw
    rw [(reads_encoding hadmits hencoding).2, (reads_encoding hadmits' hencoding').2] at hsame
    obtain rfl := Option.some.inj hsame
    rw [eq_encodeBare hencoding hbarev, eq_encodeBare hencoding' hbarew]

/-- A nonce of zeros has two accepted texts without padding. -/
theorem nonce_ambiguous : ¬∀ t : ByteText, t.RoundTrips ∧ t.ExactOn fun _ => True := by
  intro h
  have hdecode : nonce.decode "AAAAAAAAAAAAAAAA" = nonce.decode "AAAAAAAAAAAAAAAA!" := by decide
  have hfirst : nonce.Accepts "AAAAAAAAAAAAAAAA" := by
    rw [accepts_iff_decode]
    exact ⟨by decide, List.replicate 12 0, by decide⟩
  have hsecond : nonce.Accepts "AAAAAAAAAAAAAAAA!" := by
    rw [accepts_iff_decode]
    exact ⟨by decide, List.replicate 12 0, by decide⟩
  have heq := (h nonce).2.injective _ _ trivial trivial hfirst hsecond (by decide) (by decide)
    hdecode
  exact absurd heq (by decide)

end ByteText

end Marketplace
