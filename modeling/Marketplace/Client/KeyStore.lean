import Mathlib.Logic.Function.Basic
import Marketplace.Lib.Run
import Marketplace.Wire.Messages

/-!
# The key store of the client

`key_store.dart`: the active key pair and those that were active before it, in the secure storage of
the device. A rotation is two writes, and it may be interrupted before each of them. The pair that
is replaced is written to its own place first, so that no pair that has been active is ever lost.
When a pair was created is stored as a text, which tells no offset of a local time: only a pair that
was created in UTC is read back unchanged wherever the device is.
-/

namespace Marketplace

open Lib

/-! ### Dates as texts -/

/-- The rules of a time zone: what the clocks show at a moment, and which moment is meant by what
they show. They may show the same twice, where they are put back. -/
structure TimeZone where
  clock : Time → Time
  moment : Time → Time

/-- `DateTime`: a moment, in UTC or in the time zone of the device. -/
structure DateTime where
  moment : Time
  isUtc : Bool
deriving DecidableEq, Repr

/-- The text of a date and a time of day, which ends in `Z` when they are in UTC, and its parser:
what the one writes, the other reads back. -/
structure IsoTimes where
  format : Bool → Time → String
  read : String → Option (Bool × Time)
  read_format : ∀ isUtc clock, read (format isUtc clock) = some (isUtc, clock)

namespace IsoTimes

variable (times : IsoTimes)

/-- `toIso8601String`: a local time is written without its offset. -/
def toIso8601String (zone : TimeZone) (t : DateTime) : String :=
  times.format t.isUtc (if t.isUtc then t.moment else zone.clock t.moment)

/-- The `DateTime` of a date and a time of day. -/
def ofClock (zone : TimeZone) (isUtc : Bool) (clock : Time) : DateTime :=
  { moment := if isUtc then clock else zone.moment clock, isUtc }

/-- `DateTime.parse`: a text without an offset is in the time zone of the device. -/
def parse (zone : TimeZone) (text : String) : Option DateTime :=
  (times.read text).map fun time => ofClock zone time.1 time.2

variable {t : DateTime}

/-- A time in UTC is read back in every time zone. -/
theorem parse_toIso8601String (h : t.isUtc = true) (zone zone' : TimeZone) :
    times.parse zone' (times.toIso8601String zone t) = some t := by
  obtain ⟨moment, isUtc⟩ := t
  obtain rfl : isUtc = true := h
  simp [parse, toIso8601String, ofClock, times.read_format]

/-- A time in UTC is written alike in all time zones. -/
theorem toIso8601String_eq (h : t.isUtc = true) (zone zone' : TimeZone) :
    times.toIso8601String zone t = times.toIso8601String zone' t := by
  simp [toIso8601String, h]

end IsoTimes

/-! ### Key pairs as JSON -/

/-- `StoredKeypair`. -/
structure StoredKeypair where
  keyId : String
  publicKey : Bytes
  privateKey : Bytes
  createdAt : DateTime
deriving DecidableEq, Repr

namespace StoredKeypair

variable (times : IsoTimes) (zone : TimeZone)

/-- `toJson`. -/
def toJson (kp : StoredKeypair) : Json.Entries :=
  [("key_id", .str kp.keyId), ("public_key", .str (base64Encode kp.publicKey)),
   ("private_key", .str (base64Encode kp.privateKey)),
   ("created_at", .str (times.toIso8601String zone kp.createdAt))]

/-- `StoredKeypair.fromJson`. -/
def fromJson (json : Json.Entries) : Except Json.ReadError StoredKeypair := do
  let keyId ← (json.at "key_id").asString
  let publicKey ← (json.at "public_key").asString
  let publicKey ← base64Decode publicKey
  let privateKey ← (json.at "private_key").asString
  let privateKey ← base64Decode privateKey
  let createdAt ← (json.at "created_at").asString
  let createdAt ← (times.parse zone createdAt).elim (.error .formatException) .ok
  pure { keyId, publicKey, privateKey, createdAt }

variable {times zone} {kp : StoredKeypair}

/-- A pair that was created in UTC is read back as it was written, in every time zone. -/
theorem fromJson_toJson (h : kp.createdAt.isUtc = true) (zone' : TimeZone) :
    fromJson times zone' (kp.toJson times zone) = .ok kp := by
  have hid : (kp.toJson times zone).at "key_id" = .str kp.keyId := rfl
  have hpublic : (kp.toJson times zone).at "public_key" = .str (base64Encode kp.publicKey) := rfl
  have hprivate : (kp.toJson times zone).at "private_key" = .str (base64Encode kp.privateKey) := rfl
  have hcreated : (kp.toJson times zone).at "created_at" =
      .str (times.toIso8601String zone kp.createdAt) := rfl
  simp [fromJson, hid, hpublic, hprivate, hcreated, base64Decode_base64Encode,
    times.parse_toIso8601String h, bind, Except.bind, pure, Except.pure]

/-- It is written alike in all time zones. -/
theorem toJson_eq (h : kp.createdAt.isUtc = true) (zone zone' : TimeZone) :
    kp.toJson times zone = kp.toJson times zone' := by
  rw [toJson, toJson, times.toIso8601String_eq h zone zone']

/-- What is read in another time zone is the same pair, but for when it was created. -/
theorem fromJson_elsewhere {json : Json.Entries} (h : fromJson times zone json = .ok kp) :
    ∃ clock, kp.createdAt = IsoTimes.ofClock zone kp.createdAt.isUtc clock ∧ ∀ zone',
      fromJson times zone' json =
        .ok { kp with createdAt := IsoTimes.ofClock zone' kp.createdAt.isUtc clock } := by
  simp only [fromJson, bind_eq_ok] at h
  obtain ⟨keyId, hid, publicText, hpublic, publicKey, hpublicKey, privateText, hprivate, privateKey,
    hprivateKey, text, hcreated, createdAt, hparse, hkp⟩ := h
  obtain rfl := Except.ok.inj hkp
  cases hread : times.read text with
  | none => simp [IsoTimes.parse, hread] at hparse
  | some time =>
    obtain ⟨isUtc, clock⟩ := time
    have hdate : IsoTimes.ofClock zone isUtc clock = createdAt := by
      simpa [IsoTimes.parse, hread] using hparse
    subst hdate
    refine ⟨clock, rfl, fun zone' => ?_⟩
    simp only [fromJson, hid, hpublic, hpublicKey, hprivate, hprivateKey, hcreated, IsoTimes.parse,
      hread, bind, Except.bind, pure, Except.pure, Option.map_some, Option.elim_some]
    rfl

end StoredKeypair

/-! ### The store -/

/-- The secure storage: what is stored under a key, as the value of its JSON text. -/
abbrev SecureStorage := String → Option Json.Entries

namespace MessagingKeyStore

/-- `_activeKey`. -/
def activeKey : String := "keys.v1.active"

/-- `_rotatedPrefix`. -/
def rotatedPrefix : String := "keys.v1.rotated."

section Operations

variable (times : IsoTimes) (zone : TimeZone) (storage : SecureStorage)

/-- `readActive`. -/
def readActive : Except Json.ReadError (Option StoredKeypair) :=
  match storage activeKey with
  | none => .ok none
  | some raw => (StoredKeypair.fromJson times zone raw).map some

/-- `readByKeyId`. -/
def readByKeyId (keyId : String) : Except Json.ReadError (Option StoredKeypair) := do
  let active ← readActive times zone storage
  match active.filter fun kp => kp.keyId = keyId with
  | some kp => pure (some kp)
  | none =>
    match storage (rotatedPrefix ++ keyId) with
    | none => pure none
    | some raw => (StoredKeypair.fromJson times zone raw).map some

/-- The writes of `rotateActiveTo`, in their order, unless it cannot read the active pair. -/
def rotationWrites (next : StoredKeypair) : Except Json.ReadError (List (String × Json.Entries)) :=
  (readActive times zone storage).map fun prev =>
    match prev with
    | none => [(activeKey, next.toJson times zone)]
    | some prev =>
      [(rotatedPrefix ++ prev.keyId, prev.toJson times zone), (activeKey, next.toJson times zone)]

/-- The storage after some writes. -/
def write (writes : List (String × Json.Entries)) : SecureStorage :=
  writes.foldl (fun storage w => Function.update storage w.1 (some w.2)) storage

end Operations

section Read

variable {times : IsoTimes} {zone : TimeZone} {storage : SecureStorage} {keyId : String}
  {kp : StoredKeypair}

/-- A pair is found as the active one, or at the place of its key id when the active one is
another. -/
theorem readByKeyId_iff : readByKeyId times zone storage keyId = .ok (some kp) ↔
    (readActive times zone storage = .ok (some kp) ∧ kp.keyId = keyId) ∨
    ((∃ active, readActive times zone storage = .ok active ∧ ∀ a ∈ active, a.keyId ≠ keyId) ∧
      ∃ raw, storage (rotatedPrefix ++ keyId) = some raw ∧
        StoredKeypair.fromJson times zone raw = .ok kp) := by
  have hplace : (match storage (rotatedPrefix ++ keyId) with
        | none => pure none
        | some raw => (StoredKeypair.fromJson times zone raw).map some) = .ok (some kp) ↔
      ∃ raw, storage (rotatedPrefix ++ keyId) = some raw ∧
        StoredKeypair.fromJson times zone raw = .ok kp := by
    cases storage (rotatedPrefix ++ keyId) with
    | none => simp [pure, Except.pure]
    | some raw => cases hread : StoredKeypair.fromJson times zone raw <;> simp [hread, Except.map]
  rw [readByKeyId, bind_eq_ok]
  cases hactive : readActive times zone storage with
  | error e => simp
  | ok active =>
    cases active with
    | none => simpa using hplace
    | some a =>
      by_cases hid : a.keyId = keyId
      · simp only [Except.ok.injEq, Option.filter, hid, decide_true, ite_true, exists_eq_left']
        constructor
        · intro h
          obtain rfl : a = kp := by simpa [pure, Except.pure] using h
          exact .inl ⟨rfl, hid⟩
        · rintro (⟨ha, -⟩ | ⟨hne, -⟩)
          · rw [ha]
            rfl
          · exact absurd hid (hne a rfl)
      · simp only [Except.ok.injEq, Option.filter, hid, decide_false, exists_eq_left']
        refine hplace.trans ⟨fun h => .inr ⟨fun b hb => ?_, h⟩, ?_⟩
        · obtain rfl := Option.some.inj hb
          exact hid
        · rintro (⟨ha, hid'⟩ | ⟨-, h⟩)
          · obtain rfl := Option.some.inj ha
            exact absurd hid' hid
          · exact h

end Read

/-- A call of `rotateActiveTo`, the time zone of the device at that time, and how many of its writes
it comes to. -/
structure Rotation where
  next : StoredKeypair
  zone : TimeZone
  completed : ℕ

/-- `rotateActiveTo`, up to where it is interrupted. -/
def rotateActiveTo (times : IsoTimes) (storage : SecureStorage) (rotation : Rotation) :
    SecureStorage :=
  match rotationWrites times rotation.zone storage rotation.next with
  | .error _ => storage
  | .ok writes => write storage (writes.take rotation.completed)

/-- The call comes to its last write, which makes the new pair the active one. -/
def Rotation.Finishes (times : IsoTimes) (storage : SecureStorage) (rotation : Rotation) : Prop :=
  ∃ writes, rotationWrites times rotation.zone storage rotation.next = .ok writes ∧
    writes.length ≤ rotation.completed

/-! ### What is to hold -/

/-- The pairs that a run of rotations is given. -/
def Given (run : List Rotation) (kp : StoredKeypair) : Prop := ∃ r ∈ run, r.next = kp

/-- Rotations with the same key id are to the same pair: the one is a retry of the other. -/
def DistinctKeyIds (run : List Rotation) : Prop :=
  ∀ a b, Given run a → Given run b → a.keyId = b.keyId → a = b

/-- The storage after some rotations from an empty one. -/
def storageAfter (times : IsoTimes) (run : List Rotation) : SecureStorage :=
  after (rotateActiveTo times) (fun _ => none) run

/-- A rotation of the run has made the pair the active one. -/
def EverActive (times : IsoTimes) (run : List Rotation) (kp : StoredKeypair) : Prop :=
  ∃ first r rest, run = first ++ r :: rest ∧ r.Finishes times (storageAfter times first) ∧
    r.next = kp

/-- No key is lost, as the device sees it in the time zone it is in. -/
structure KeysKept (times : IsoTimes) (zone : TimeZone) (run : List Rotation) : Prop where
  /-- A rotation that is not interrupted comes to its last write. -/
  finishes : ∀ first r rest, run = first ++ r :: rest → 2 ≤ r.completed →
    r.Finishes times (storageAfter times first)
  /-- Its pair is the active one then. -/
  active : ∀ first r rest, run = first ++ r :: rest →
    r.Finishes times (storageAfter times first) →
    readActive times zone (storageAfter times (first ++ [r])) = .ok (some r.next)
  /-- Every pair that has been the active one is found by its key id, as it was. -/
  found : ∀ kp, EverActive times run kp →
    readByKeyId times zone (storageAfter times run) kp.keyId = .ok (some kp)
  /-- Nothing else is stored, and everything that is stored reads back as what it was. -/
  stored : ∀ key raw, storageAfter times run key = some raw → ∃ kp, EverActive times run kp ∧
    key ∈ [activeKey, rotatedPrefix ++ kp.keyId] ∧
    StoredKeypair.fromJson times zone raw = .ok kp

/-! ### The invariant -/

/-- The places of the rotated pairs are not the one of the active pair. -/
theorem rotatedKey_ne (keyId : String) : rotatedPrefix ++ keyId ≠ activeKey := by
  intro h
  have hchars := congrArg (fun key => key.toList.take 9) h
  simp only [String.toList_append] at hchars
  have hprefix : rotatedPrefix.toList.length = 16 := rfl
  rw [List.take_append_of_le_length (by omega)] at hchars
  exact absurd hchars (by decide)

/-- Pairs with different key ids have different places. -/
theorem rotatedKey_injective {keyId keyId' : String}
    (h : rotatedPrefix ++ keyId = rotatedPrefix ++ keyId') : keyId = keyId' := by
  have hchars := congrArg String.toList h
  rw [String.toList_append, String.toList_append] at hchars
  exact String.toList_inj.mp (List.append_cancel_left hchars)

/-- The time zone of UTC. -/
def utc : TimeZone := { clock := id, moment := id }

/-- The JSON of a pair that was created in UTC, which is the same in all time zones. -/
def json (times : IsoTimes) (kp : StoredKeypair) : Json.Entries := kp.toJson times utc

/-- The pairs of a family that were created in UTC, with one key id for each. -/
structure Keyring (P : StoredKeypair → Prop) : Prop where
  isUtc : ∀ kp, P kp → kp.createdAt.isUtc = true
  distinct : ∀ a b, P a → P b → a.keyId = b.keyId → a = b

section Invariant

variable {times : IsoTimes} {zone : TimeZone} {P : StoredKeypair → Prop} {storage : SecureStorage}
  {kp prev next : StoredKeypair}

/-- A pair of the family is read back from its JSON. -/
theorem Keyring.fromJson (hP : Keyring P) (hkp : P kp) (zone : TimeZone) :
    StoredKeypair.fromJson times zone (json times kp) = .ok kp :=
  StoredKeypair.fromJson_toJson (hP.isUtc kp hkp) zone

/-- A pair of the family is written alike in all time zones. -/
theorem Keyring.toJson (hP : Keyring P) (hkp : P kp) (zone : TimeZone) :
    kp.toJson times zone = json times kp := StoredKeypair.toJson_eq (hP.isUtc kp hkp) zone utc

/-- Pairs with the same JSON are the same pair. -/
theorem Keyring.json_injective (hP : Keyring P) {kp' : StoredKeypair} (hkp : P kp) (hkp' : P kp')
    (h : json times kp = json times kp') : kp = kp' := by
  have hread : StoredKeypair.fromJson times utc (json times kp) = .ok kp :=
    hP.fromJson hkp utc
  rw [h, hP.fromJson hkp'] at hread
  exact (Except.ok.inj hread).symm

/-- Everything stored is the JSON of a pair of the family `P`: the active pair under its key, every
other one under its key id. -/
structure Intact (times : IsoTimes) (P : StoredKeypair → Prop)
    (storage : SecureStorage) : Prop where
  active : ∀ raw, storage activeKey = some raw → ∃ kp, P kp ∧ raw = json times kp
  rotated : ∀ key raw, key ≠ activeKey → storage key = some raw →
    ∃ kp, P kp ∧ key = rotatedPrefix ++ kp.keyId ∧ raw = json times kp

/-- The pair is the active one or stored as a rotated one. -/
def Held (times : IsoTimes) (storage : SecureStorage) (kp : StoredKeypair) : Prop :=
  storage activeKey = some (json times kp) ∨
    storage (rotatedPrefix ++ kp.keyId) = some (json times kp)

/-- The active pair is read. -/
theorem Keyring.readActive (hP : Keyring P) (hkp : P kp)
    (h : storage activeKey = some (json times kp)) (zone : TimeZone) :
    readActive times zone storage = .ok (some kp) := by
  rw [MessagingKeyStore.readActive, h]
  simp [hP.fromJson hkp, Except.map]

/-- A pair that is held is found by its key id. -/
theorem Held.readByKeyId (hheld : Held times storage kp) (h : Intact times P storage)
    (hP : Keyring P) (hkp : P kp) (zone : TimeZone) :
    readByKeyId times zone storage kp.keyId = .ok (some kp) := by
  rw [readByKeyId_iff]
  cases hraw : storage activeKey with
  | none =>
    have hnone : readActive times zone storage = .ok none := by
      rw [MessagingKeyStore.readActive, hraw]
    have hrotated := hheld.resolve_left fun hactive => by
      rw [hraw] at hactive
      cases hactive
    exact .inr ⟨⟨none, hnone, nofun⟩, _, hrotated, hP.fromJson hkp zone⟩
  | some raw =>
    obtain ⟨active, hactive, rfl⟩ := h.active raw hraw
    have hread := hP.readActive hactive hraw zone
    by_cases hid : active.keyId = kp.keyId
    · obtain rfl := hP.distinct active kp hactive hkp hid
      exact .inl ⟨hread, rfl⟩
    · have hrotated := hheld.resolve_left fun hactive' => by
        rw [hraw] at hactive'
        exact hid (congrArg _ (hP.json_injective hactive hkp (Option.some.inj hactive')))
      refine .inr ⟨⟨_, hread, fun a ha => ?_⟩, _, hrotated, hP.fromJson hkp zone⟩
      obtain rfl := Option.some.inj ha
      exact hid

/-- The active pair is copied to its place among the rotated ones. -/
theorem Intact.retire (h : Intact times P storage) (hprev : P prev) :
    Intact times P
      (Function.update storage (rotatedPrefix ++ prev.keyId) (some (json times prev))) where
  active raw hraw := by
    rw [Function.update_of_ne (rotatedKey_ne prev.keyId).symm] at hraw
    exact h.active raw hraw
  rotated key raw hkey hraw := by
    by_cases heq : key = rotatedPrefix ++ prev.keyId
    · subst heq
      rw [Function.update_self] at hraw
      exact ⟨prev, hprev, rfl, (Option.some.inj hraw).symm⟩
    · rw [Function.update_of_ne heq] at hraw
      exact h.rotated key raw hkey hraw

/-- The active pair is replaced. -/
theorem Intact.activate (h : Intact times P storage) (hnext : P next) :
    Intact times P (Function.update storage activeKey (some (json times next))) where
  active raw hraw := by
    rw [Function.update_self] at hraw
    exact ⟨next, hnext, (Option.some.inj hraw).symm⟩
  rotated key raw hkey hraw := by
    rw [Function.update_of_ne hkey] at hraw
    exact h.rotated key raw hkey hraw

/-- With distinct key ids the copy overwrites no other pair. -/
theorem Held.retire (hheld : Held times storage kp) (hkp : P kp) (hprev : P prev)
    (hP : Keyring P) :
    Held times (Function.update storage (rotatedPrefix ++ prev.keyId) (some (json times prev)))
      kp := by
  by_cases hid : kp.keyId = prev.keyId
  · obtain rfl := hP.distinct kp prev hkp hprev hid
    exact .inr (Function.update_self ..)
  · refine hheld.imp (fun hactive => ?_) fun hrotated => ?_
    · rw [Function.update_of_ne (rotatedKey_ne prev.keyId).symm]
      exact hactive
    · rw [Function.update_of_ne fun heq => hid (rotatedKey_injective heq)]
      exact hrotated

/-- The active pair may be replaced once it is among the rotated ones. -/
theorem Held.activate (hheld : Held times storage kp)
    (hactive : storage activeKey = some (json times kp) →
      storage (rotatedPrefix ++ kp.keyId) = some (json times kp)) :
    Held times (Function.update storage activeKey (some (json times next))) kp := by
  refine .inr ?_
  rw [Function.update_of_ne (rotatedKey_ne kp.keyId)]
  exact hheld.elim hactive id

/-- What a call of `rotateActiveTo` does before it is interrupted or returns. -/
inductive Rotated (times : IsoTimes) (P : StoredKeypair → Prop) (storage : SecureStorage)
    (rotation : Rotation) : SecureStorage → Prop
  | interrupted : ¬rotation.Finishes times storage → Rotated times P storage rotation storage
  | first : rotation.Finishes times storage → P rotation.next → storage activeKey = none →
      Rotated times P storage rotation
        (Function.update storage activeKey (some (json times rotation.next)))
  | retired (prev : StoredKeypair) : ¬rotation.Finishes times storage → P prev →
      storage activeKey = some (json times prev) →
      Rotated times P storage rotation
        (Function.update storage (rotatedPrefix ++ prev.keyId) (some (json times prev)))
  | replaced (prev : StoredKeypair) : rotation.Finishes times storage → P rotation.next → P prev →
      storage activeKey = some (json times prev) →
      Rotated times P storage rotation
        (Function.update
          (Function.update storage (rotatedPrefix ++ prev.keyId) (some (json times prev)))
          activeKey (some (json times rotation.next)))

/-- The writes of a rotation from an intact storage. -/
theorem Intact.writes_cases (h : Intact times P storage) (hP : Keyring P) (zone : TimeZone)
    (next : StoredKeypair) :
    (storage activeKey = none ∧ rotationWrites times zone storage next =
      .ok [(activeKey, next.toJson times zone)]) ∨
    ∃ prev, P prev ∧ storage activeKey = some (json times prev) ∧
      rotationWrites times zone storage next =
        .ok [(rotatedPrefix ++ prev.keyId, json times prev),
          (activeKey, next.toJson times zone)] := by
  cases hraw : storage activeKey with
  | none =>
    refine .inl ⟨rfl, ?_⟩
    simp [MessagingKeyStore.rotationWrites, MessagingKeyStore.readActive, hraw, Except.map]
  | some raw =>
    obtain ⟨prev, hprev, rfl⟩ := h.active raw hraw
    refine .inr ⟨prev, hprev, rfl, ?_⟩
    simp [MessagingKeyStore.rotationWrites, hP.readActive hprev hraw, Except.map,
      hP.toJson hprev]

/-- A rotation that is not interrupted comes to its last write. -/
theorem Intact.finishes (h : Intact times P storage) (hP : Keyring P) {rotation : Rotation}
    (hcompleted : 2 ≤ rotation.completed) : rotation.Finishes times storage := by
  rcases h.writes_cases hP rotation.zone rotation.next with ⟨-, hwrites⟩ | ⟨prev, -, -, hwrites⟩
  · exact ⟨_, hwrites, (Nat.le_succ 1).trans hcompleted⟩
  · exact ⟨_, hwrites, hcompleted⟩

/-- A rotation is interrupted before its first write, between its writes, or comes to its last. -/
theorem Intact.rotateActiveTo_cases (h : Intact times P storage) (hP : Keyring P)
    {rotation : Rotation} (hnext : rotation.Finishes times storage → P rotation.next) :
    Rotated times P storage rotation (rotateActiveTo times storage rotation) := by
  obtain ⟨next, zone, completed⟩ := rotation
  have hjson : Rotation.Finishes times storage ⟨next, zone, completed⟩ →
      next.toJson times zone = json times next := fun hfinishes => hP.toJson (hnext hfinishes) zone
  have hshort : ∀ {writes}, rotationWrites times zone storage next = .ok writes →
      completed < writes.length → ¬Rotation.Finishes times storage ⟨next, zone, completed⟩ := by
    rintro writes hwrites hlt ⟨writes', hwrites', hle⟩
    obtain rfl := Except.ok.inj (hwrites.symm.trans hwrites')
    exact absurd hle (by simpa using hlt)
  rcases h.writes_cases hP zone next with ⟨hnone, hwrites⟩ | ⟨prev, hprev, hactive, hwrites⟩
  · simp only [rotateActiveTo, hwrites]
    match completed with
    | 0 => exact .interrupted (hshort hwrites (by simp))
    | completed + 1 =>
      have hfinishes : Rotation.Finishes times storage ⟨next, zone, completed + 1⟩ :=
        ⟨_, hwrites, by simp⟩
      rw [hjson hfinishes, List.take_of_length_le (by simp)]
      exact .first hfinishes (hnext hfinishes) hnone
  · simp only [rotateActiveTo, hwrites]
    match completed with
    | 0 => exact .interrupted (hshort hwrites (by simp))
    | 1 => exact .retired prev (hshort hwrites (by simp)) hprev hactive
    | completed + 2 =>
      have hfinishes : Rotation.Finishes times storage ⟨next, zone, completed + 2⟩ :=
        ⟨_, hwrites, by simp⟩
      rw [hjson hfinishes, List.take_of_length_le (by simp)]
      exact .replaced prev hfinishes (hnext hfinishes) hprev hactive

/-- Nothing that is held gets lost in a rotation, wherever it is interrupted. -/
theorem Intact.rotate (h : Intact times P storage) (hP : Keyring P) {rotation : Rotation}
    (hnext : rotation.Finishes times storage → P rotation.next) :
    Intact times P (rotateActiveTo times storage rotation) ∧
      (∀ kp, P kp → Held times storage kp →
        Held times (rotateActiveTo times storage rotation) kp) ∧
      (rotation.Finishes times storage →
        rotateActiveTo times storage rotation activeKey = some (json times rotation.next)) := by
  have hcases := h.rotateActiveTo_cases hP hnext
  generalize rotateActiveTo times storage rotation = storage' at hcases ⊢
  cases hcases with
  | interrupted hnot => exact ⟨h, fun _ _ hheld => hheld, fun hfinishes => absurd hfinishes hnot⟩
  | first hfinishes hnext hnone =>
    refine ⟨h.activate hnext, fun kp _ hheld => hheld.activate fun hsome => ?_,
      fun _ => Function.update_self ..⟩
    rw [hnone] at hsome
    cases hsome
  | retired prev hnot hprev hactive =>
    exact ⟨h.retire hprev, fun kp hkp hheld => hheld.retire hkp hprev hP,
      fun hfinishes => absurd hfinishes hnot⟩
  | replaced prev hfinishes hnext hprev hactive =>
    refine ⟨(h.retire hprev).activate hnext, fun kp hkp hheld => ?_,
      fun _ => Function.update_self ..⟩
    refine (hheld.retire hkp hprev hP).activate fun hsome => ?_
    rw [Function.update_of_ne (rotatedKey_ne prev.keyId).symm, hactive] at hsome
    obtain rfl := hP.json_injective hprev hkp (Option.some.inj hsome)
    exact Function.update_self ..

end Invariant

/-! ### Runs -/

section Runs

variable {times : IsoTimes} {P : StoredKeypair → Prop} {storage : SecureStorage}
  {run : List Rotation}

/-- An empty storage is intact. -/
theorem intact_empty : Intact times P fun _ => none where
  active _ h := nomatch h
  rotated _ _ _ h := nomatch h

/-- The storage stays intact, whatever interrupts the rotations. -/
theorem Intact.after (h : Intact times P storage) (hP : Keyring P)
    (hrun : EachStep (rotateActiveTo times)
      (fun storage r => r.Finishes times storage → P r.next) storage run) :
    Intact times P (after (rotateActiveTo times) storage run) :=
  hrun.invariant (fun _ _ hs hnext => (hs.rotate hP hnext).1) h

/-- A pair that is held remains held. -/
theorem Held.after {kp : StoredKeypair} (hheld : Held times storage kp)
    (h : Intact times P storage) (hP : Keyring P) (hkp : P kp)
    (hrun : EachStep (rotateActiveTo times)
      (fun storage r => r.Finishes times storage → P r.next) storage run) :
    Held times (after (rotateActiveTo times) storage run) kp :=
  (hrun.invariant (I := fun storage => Intact times P storage ∧ Held times storage kp)
    (fun _ _ hs hnext => ⟨(hs.1.rotate hP hnext).1, (hs.1.rotate hP hnext).2.1 kp hkp hs.2⟩)
    ⟨h, hheld⟩).2

/-- Where every pair that becomes active was created in UTC, no key is lost in any time zone. -/
theorem keysKept_of_utc (hids : DistinctKeyIds run)
    (hutc : ∀ kp, EverActive times run kp → kp.createdAt.isUtc = true) (zone : TimeZone) :
    KeysKept times zone run := by
  have hP : Keyring (EverActive times run) := by
    refine ⟨hutc, ?_⟩
    rintro a b ⟨first, r, rest, hrun, -, rfl⟩ ⟨first', r', rest', hrun', -, rfl⟩ hid
    exact hids r.next r'.next ⟨r, by simp [hrun], rfl⟩ ⟨r', by simp [hrun'], rfl⟩ hid
  have hsteps : EachStep (rotateActiveTo times)
      (fun storage r => r.Finishes times storage → EverActive times run r.next)
      (fun _ => none) run :=
    eachStep_iff.mpr fun first r rest heq hfinishes => ⟨first, r, rest, heq, hfinishes, rfl⟩
  have hintact : ∀ first rest, run = first ++ rest →
      Intact times (EverActive times run) (storageAfter times first) ∧
        EachStep (rotateActiveTo times)
          (fun storage r => r.Finishes times storage → EverActive times run r.next)
          (storageAfter times first) rest := by
    intro first rest heq
    have hboth := hsteps
    rw [heq, eachStep_append, ← heq] at hboth
    exact ⟨intact_empty.after hP hboth.1, hboth.2⟩
  have hactive : ∀ first r rest, run = first ++ r :: rest →
      r.Finishes times (storageAfter times first) →
      storageAfter times (first ++ [r]) activeKey = some (json times r.next) := by
    intro first r rest heq hfinishes
    obtain ⟨hbefore, hstep, -⟩ := hintact first (r :: rest) heq
    rw [storageAfter, after_append]
    exact (hbefore.rotate hP hstep).2.2 hfinishes
  refine ⟨fun first r rest heq hcompleted => ?_, fun first r rest heq hfinishes => ?_, ?_, ?_⟩
  · exact (hintact first _ heq).1.finishes hP hcompleted
  · exact hP.readActive ⟨first, r, rest, heq, hfinishes, rfl⟩ (hactive first r rest heq hfinishes)
      zone
  · rintro kp ⟨first, r, rest, heq, hfinishes, rfl⟩
    have hkp : EverActive times run r.next := ⟨first, r, rest, heq, hfinishes, rfl⟩
    have heq' : run = (first ++ [r]) ++ rest := by simp [heq]
    obtain ⟨hthen, hrest⟩ := hintact _ _ heq'
    have hheld : Held times (storageAfter times run) r.next := by
      have hlater := Held.after (.inl (hactive first r rest heq hfinishes)) hthen hP hkp hrest
      rwa [storageAfter, ← after_append, ← heq'] at hlater
    exact hheld.readByKeyId (hintact run [] (by simp)).1 hP hkp zone
  · intro key raw hraw
    have hrun := (hintact run [] (by simp)).1
    by_cases hkey : key = activeKey
    · subst hkey
      obtain ⟨kp, hkp, rfl⟩ := hrun.active raw hraw
      exact ⟨kp, hkp, by simp, hP.fromJson hkp zone⟩
    · obtain ⟨kp, hkp, rfl, rfl⟩ := hrun.rotated key raw hkey hraw
      exact ⟨kp, hkp, by simp, hP.fromJson hkp zone⟩

end Runs

/-! ### In another time zone -/

section Elsewhere

variable {times : IsoTimes} {zone : TimeZone} {storage : SecureStorage} {keyId : String}
  {kp : StoredKeypair}

/-- The active pair that is read elsewhere is the same, but for when it was created. -/
theorem readActive_elsewhere {active : Option StoredKeypair}
    (h : readActive times zone storage = .ok active) :
    (active = none ∧ ∀ zone', readActive times zone' storage = .ok none) ∨
    ∃ kp clock, active = some kp ∧
      kp.createdAt = IsoTimes.ofClock zone kp.createdAt.isUtc clock ∧ ∀ zone',
        readActive times zone' storage =
          .ok (some { kp with createdAt := IsoTimes.ofClock zone' kp.createdAt.isUtc clock }) := by
  unfold readActive at h ⊢
  cases hraw : storage activeKey with
  | none =>
    rw [hraw] at h
    exact .inl ⟨(Except.ok.inj h).symm, fun _ => rfl⟩
  | some raw =>
    rw [hraw] at h
    cases hread : StoredKeypair.fromJson times zone raw with
    | error e => simp [hread, Except.map] at h
    | ok kp =>
      obtain rfl : some kp = active := by simpa [hread, Except.map] using h
      obtain ⟨clock, hclock, helsewhere⟩ := StoredKeypair.fromJson_elsewhere hread
      exact .inr ⟨kp, clock, rfl, hclock, fun zone' => by simp [helsewhere zone', Except.map]⟩

/-- A pair that is found is found elsewhere, but for when it was created. -/
theorem readByKeyId_elsewhere (h : readByKeyId times zone storage keyId = .ok (some kp)) :
    ∃ clock, kp.createdAt = IsoTimes.ofClock zone kp.createdAt.isUtc clock ∧ ∀ zone',
      readByKeyId times zone' storage keyId =
        .ok (some { kp with createdAt := IsoTimes.ofClock zone' kp.createdAt.isUtc clock }) := by
  rcases readByKeyId_iff.mp h with ⟨hactive, hid⟩ | ⟨⟨active, hactive, hother⟩, raw, hraw, hread⟩
  · rcases readActive_elsewhere hactive with ⟨hnone, -⟩ | ⟨kp', clock, hkp, hclock, helsewhere⟩
    · cases hnone
    · obtain rfl := Option.some.inj hkp
      exact ⟨clock, hclock, fun zone' => readByKeyId_iff.mpr (.inl ⟨helsewhere zone', hid⟩)⟩
  · obtain ⟨clock, hclock, helsewhere⟩ := StoredKeypair.fromJson_elsewhere hread
    refine ⟨clock, hclock, fun zone' => readByKeyId_iff.mpr
      (.inr ⟨?_, raw, hraw, helsewhere zone'⟩)⟩
    rcases readActive_elsewhere hactive with ⟨-, hnone⟩ | ⟨a, _, rfl, -, hactive'⟩
    · exact ⟨none, hnone zone', nofun⟩
    · refine ⟨_, hactive' zone', fun b hb => ?_⟩
      obtain rfl := Option.some.inj hb
      exact hother a rfl

/-- A time zone an hour ahead of UTC. -/
def ahead : TimeZone := { clock := fun t => t + hours 1, moment := fun t => t - hours 1 }

/-- A pair that is found as it was in all time zones was created in UTC. -/
theorem isUtc_of_found
    (h : ∀ zone, readByKeyId times zone storage keyId = .ok (some kp)) :
    kp.createdAt.isUtc = true := by
  obtain ⟨clock, hclock, helsewhere⟩ := readByKeyId_elsewhere (h utc)
  have hkp : kp = { kp with createdAt := IsoTimes.ofClock ahead kp.createdAt.isUtc clock } :=
    Option.some.inj (Except.ok.inj ((h ahead).symm.trans (helsewhere ahead)))
  have hcreated := congrArg (fun kp => kp.createdAt.moment) hkp
  cases hutc : kp.createdAt.isUtc with
  | true => rfl
  | false =>
    -- one text, but two moments
    rw [hclock, hutc] at hcreated
    have hhour : (clock : ℤ) - hours 1 = clock := hcreated.symm
    have hzero : hours 1 = 0 := by simpa using hhour
    exact absurd hzero (by decide)

end Elsewhere

/-- **No key is lost, if it was created in UTC.** After any rotations with distinct key ids, each
interrupted before any of its writes and retried or not, every pair that has been the active one is
found unchanged in whatever time zone the device is then, exactly when each of them was created in
UTC: a local time is stored without its offset. -/
theorem rotation_keeps_keys (times : IsoTimes) (run : List Rotation) (hids : DistinctKeyIds run) :
    (∀ zone, KeysKept times zone run) ↔
      ∀ kp, EverActive times run kp → kp.createdAt.isUtc = true :=
  ⟨fun h kp hkp => isUtc_of_found fun zone => (h zone).found kp hkp, keysKept_of_utc hids⟩

namespace Sample

/-- The epoch as it is written, and every other time as its distance from it. -/
def isoTimes : IsoTimes where
  format isUtc clock :=
    match isUtc with
    | true =>
      if clock = 0 then "1970-01-01T00:00:00.000Z"
      else String.ofList ((if clock < 0 then '-' else '+') :: List.replicate clock.natAbs '0')
    | false =>
      if clock = 0 then "1970-01-01T00:00:00.000"
      else String.ofList ((if clock < 0 then '<' else '>') :: List.replicate clock.natAbs '0')
  read text :=
    match text.toList with
    | '+' :: digits => some (true, digits.length)
    | '-' :: digits => some (true, -digits.length)
    | '>' :: digits => some (false, digits.length)
    | '<' :: digits => some (false, -digits.length)
    | _ =>
      if text = "1970-01-01T00:00:00.000Z" then some (true, 0)
      else if text = "1970-01-01T00:00:00.000" then some (false, 0)
      else none
  read_format isUtc clock := by
    have hneg : ∀ n : ℤ, n < 0 → -(n.natAbs : ℤ) = n := fun n h => by omega
    have hpos : ∀ n : ℤ, ¬n < 0 → (n.natAbs : ℤ) = n := fun n h => by omega
    by_cases hzero : clock = 0
    · subst hzero
      cases isUtc <;> decide +kernel
    · by_cases hlt : clock < 0
      · cases isUtc <;>
          simp only [if_neg hzero, if_pos hlt, String.toList_ofList, List.length_replicate] <;>
          rw [hneg clock hlt]
      · cases isUtc <;>
          simp only [if_neg hzero, if_neg hlt, String.toList_ofList, List.length_replicate] <;>
          rw [hpos clock hlt]

/-- A pair that was created at the epoch. -/
def pair (keyId : String) (byte : UInt8) : StoredKeypair :=
  { keyId, publicKey := List.replicate 32 byte, privateKey := List.replicate 32 (byte + 1),
    createdAt := { moment := 0, isUtc := true } }

/-- The second rotation is interrupted between its writes and retried in another time zone. -/
def rotations : List Rotation :=
  [{ next := pair "k1" 1, zone := utc, completed := 2 },
    { next := pair "k2" 3, zone := utc, completed := 1 },
    { next := pair "k2" 3, zone := ahead, completed := 2 }]

/-- A time zone whose clocks are put back, an hour before the epoch, from one to midnight. -/
def clocksBack : TimeZone where
  clock t := if t < -hours 1 then t + hours 2 else t + hours 1
  moment clock := if clock < hours 1 then clock - hours 2 else clock - hours 1

/-- A pair is created at midnight, after the clocks have been put back. -/
def atMidnight : Rotation :=
  { next := { pair "k1" 1 with createdAt := { moment := -hours 1, isUtc := false } },
    zone := clocksBack, completed := 2 }

end Sample

/-- The first pair is found, where the clocks are put back, after a rotation that was interrupted
and retried. -/
theorem rotation_keeps_first :
    readByKeyId Sample.isoTimes Sample.clocksBack (storageAfter Sample.isoTimes Sample.rotations)
      (Sample.pair "k1" 1).keyId = .ok (some (Sample.pair "k1" 1)) := by
  have hnext : ∀ r ∈ Sample.rotations,
      r.next = Sample.pair "k1" 1 ∨ r.next = Sample.pair "k2" 3 := by
    simp [Sample.rotations]
  have hids : DistinctKeyIds Sample.rotations := by
    rintro a b ⟨r, hr, rfl⟩ ⟨r', hr', rfl⟩ hid
    rcases hnext r hr with h | h <;> rcases hnext r' hr' with h' | h' <;>
      rw [h, h'] at hid ⊢ <;> exact absurd hid (by decide)
  have hutc : ∀ kp, EverActive Sample.isoTimes Sample.rotations kp →
      kp.createdAt.isUtc = true := by
    rintro kp ⟨first, r, rest, heq, -, rfl⟩
    rcases hnext r (by simp [heq]) with h | h <;> rw [h] <;> rfl
  have hfirst : EverActive Sample.isoTimes Sample.rotations (Sample.pair "k1" 1) :=
    ⟨[], _, _, rfl, ⟨_, rfl, by decide⟩, rfl⟩
  have hkept :=
    (rotation_keeps_keys Sample.isoTimes Sample.rotations hids).mpr hutc Sample.clocksBack
  exact hkept.found _ hfirst

/-- The pair that was created after the clocks were put back is read as an hour older. -/
theorem rotation_loses_hour : DistinctKeyIds [Sample.atMidnight] ∧
    ¬KeysKept Sample.isoTimes Sample.clocksBack [Sample.atMidnight] := by
  refine ⟨?_, fun h => ?_⟩
  · rintro a b ⟨r, hr, rfl⟩ ⟨r', hr', rfl⟩ -
    rw [List.mem_singleton.mp hr, List.mem_singleton.mp hr']
  · have hfound := h.found Sample.atMidnight.next ⟨[], _, _, rfl, ⟨_, rfl, by decide⟩, rfl⟩
    have hcreated :=
      congrArg (fun kp => kp.toOption.map (Option.map StoredKeypair.createdAt)) hfound
    exact absurd hcreated (by decide +kernel)

end MessagingKeyStore

end Marketplace
