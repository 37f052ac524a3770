import Mathlib.Data.List.Nodup
import Marketplace.Lib.Run
import Marketplace.Wire.Messages

/-!
# The messages of a conversation

`conversation_controller.dart`: the list of an open conversation. A message that is sent is listed
at once and renamed when the server has answered; a message that is pushed is decrypted first and
then added to the list as it was before. The list is right as long as nothing happens during a
decryption, no echo and no receipt overtakes the answer of the server, and the key store can read
what the user has written.
-/

namespace Marketplace

open Lib

/-- `MessageStatus`. -/
inductive MessageStatus
  | pending
  | sending
  | sent
  | delivered
  | read
  | failed
  | decryptionError
deriving DecidableEq, Repr

/-- `MessageView`. -/
structure MessageView where
  id : String
  text : String
  isMine : Bool
  sentAt : Time
  status : MessageStatus
  readAt : Option Time := none
deriving DecidableEq, Repr

namespace ConversationController

/-- `_decryptToView`: `plain` is the text, if there is a key for it and it can be decrypted. -/
def decryptToView (ownId : String) (env : MessageEnvelopeDto) (plain : Option String) :
    MessageView :=
  match plain with
  | some text =>
    { id := env.id, text, isMine := env.senderId = ownId, sentAt := env.sentAt,
      status := if env.readAt.isSome then .read else .sent, readAt := env.readAt }
  | none =>
    { id := env.id, text := "", isMine := env.senderId = ownId, sentAt := env.sentAt,
      status := .decryptionError }

/-- `build`: each message that the server lists is decrypted, with its text if there is one, and the
views are sorted by time, in any order where the times agree. -/
structure FirstLoad (ownId : String) (listed : List (MessageEnvelopeDto × Option String))
    (messages : List MessageView) : Prop where
  perm : messages.Perm (listed.map fun e => decryptToView ownId e.1 e.2)
  sorted : messages.Pairwise fun a b => a.sentAt ≤ b.sentAt

/-- A call of `send` that awaits the answer of the server. -/
structure Sending where
  tmpId : String
  plaintext : String
deriving DecidableEq, Repr

/-- A pushed message that is being decrypted, and the list as it was when it came. -/
structure Decrypting where
  cur : List MessageView
  env : MessageEnvelopeDto
deriving DecidableEq, Repr

/-- The loaded conversation. -/
structure State where
  messages : List MessageView
  sending : List Sending := []
  decrypting : List Decrypting := []
deriving DecidableEq, Repr

/-- What can happen next: a call of `send`, the answer to one or its failure, an event, the end of a
decryption, an error of the key store in its place. -/
inductive Input
  | send (ready : Bool) (plaintext : String) (now : Time)
  | sent (i : ℕ) (id : String) (sentAt : Time)
  | sendFailed (i : ℕ)
  | messageNew (env : MessageEnvelopeDto)
  | decrypted (i : ℕ) (plain : Option String)
  | decryptionThrew (i : ℕ)
  | messageRead (messageId readerId : String) (now : Time)
deriving DecidableEq, Repr

/-- The identifier of a message that the server has not named yet. -/
def tmpId (now : Time) : String := "tmp-" ++ toString now

/-- The identifiers of some messages. -/
def ids (messages : List MessageView) : List String := messages.map MessageView.id

/-- The messages with a change to those of an identifier. -/
def replace (messages : List MessageView) (id : String) (f : MessageView → MessageView) :
    List MessageView :=
  messages.map fun m => if m.id = id then f m else m

/-- `send`, up to the request: `ready` tells that there are a key of the peer and a session. -/
def send (s : State) (ready : Bool) (plaintext : String) (now : Time) : State :=
  let optimistic : MessageView :=
    { id := tmpId now, text := plaintext, isMine := true, sentAt := now, status := .sending }
  if ready then
    { s with messages := s.messages ++ [optimistic],
             sending := s.sending ++ [{ tmpId := tmpId now, plaintext }] }
  else s

/-- `send`, from the answer of the server. -/
def acknowledge (s : State) (i : ℕ) (id : String) (sentAt : Time) : State :=
  match s.sending[i]? with
  | none => s
  | some sending =>
    { s with
      messages := replace s.messages sending.tmpId fun m => { m with id, status := .sent, sentAt }
      sending := s.sending.eraseIdx i }

/-- `send`, from its failure. -/
def fail (s : State) (i : ℕ) : State :=
  match s.sending[i]? with
  | none => s
  | some sending =>
    { s with
      messages := replace s.messages sending.tmpId fun m => { m with status := .failed }
      sending := s.sending.eraseIdx i }

/-- `_handleMessageNew`, up to the decryption. The event has no `read_at`. -/
def handleMessageNew (s : State) (env : MessageEnvelopeDto) : State :=
  if env.id ∈ ids s.messages then s
  else
    { s with
      decrypting := s.decrypting ++ [{ cur := s.messages, env := { env with readAt := none } }] }

/-- `_handleMessageNew`, from the end of the decryption. -/
def append (ownId : String) (s : State) (i : ℕ) (plain : Option String) : State :=
  match s.decrypting[i]? with
  | none => s
  | some d =>
    { s with messages := d.cur ++ [decryptToView ownId d.env plain],
             decrypting := s.decrypting.eraseIdx i }

/-- `_handleMessageNew`, where `readByKeyId` throws: `catch (_)` drops the message. -/
def drop (s : State) (i : ℕ) : State := { s with decrypting := s.decrypting.eraseIdx i }

/-- `_handleMessageRead`. -/
def handleMessageRead (ownId : String) (s : State) (messageId readerId : String) (now : Time) :
    State :=
  if readerId = ownId then s
  else
    { s with messages := replace s.messages messageId fun m =>
        { m with status := .read, readAt := some now } }

def step (ownId : String) (s : State) : Input → State
  | .send ready plaintext now => send s ready plaintext now
  | .sent i id sentAt => acknowledge s i id sentAt
  | .sendFailed i => fail s i
  | .messageNew env => handleMessageNew s env
  | .decrypted i plain => append ownId s i plain
  | .decryptionThrew i => drop s i
  | .messageRead messageId readerId now => handleMessageRead ownId s messageId readerId now

/-! ### What is to hold -/

/-- What has happened in the conversation. -/
structure History where
  /-- The identifiers of the server: loaded, received or acknowledged. -/
  known : List String
  /-- The messages that the server has acknowledged, under its identifiers. -/
  acknowledged : List (String × String) := []
  /-- The messages whose sending has failed. -/
  failed : List (String × String) := []
  /-- The messages that have been read: loaded as such, or with a receipt of somebody else. -/
  receipts : List String := []
deriving DecidableEq, Repr

/-- A step is noted. -/
def note (ownId : String) (h : History) (s : State) : Input → History
  | .send .. => h
  | .sent i id _ =>
    match s.sending[i]? with
    | none => h
    | some sending => { h with known := h.known ++ [id],
                               acknowledged := h.acknowledged ++ [(id, sending.plaintext)] }
  | .sendFailed i =>
    match s.sending[i]? with
    | none => h
    | some sending => { h with failed := h.failed ++ [(sending.tmpId, sending.plaintext)] }
  | .messageNew env => { h with known := h.known ++ [env.id] }
  | .decrypted _ _ => h
  | .decryptionThrew _ => h
  | .messageRead messageId readerId _ =>
    if readerId = ownId then h else { h with receipts := h.receipts ++ [messageId] }

/-- The conversation with its history. -/
def stepNoted (ownId : String) : State × History → Input → State × History :=
  withMemory (step ownId) (note ownId)

/-- A loaded conversation, and its history. -/
def start (messages : List MessageView) : State × History :=
  ({ messages },
   { known := ids messages, receipts := ids (messages.filter (·.status = .read)) })

/-- What the server knows of a message: who has sent it, and the text that was written. -/
structure Original where
  senderId : String
  plaintext : String
deriving DecidableEq, Repr

/-- The list has an own message with this text and status. -/
def HasOwn (messages : List MessageView) (id plaintext : String) (status : MessageStatus) : Prop :=
  ∃ m ∈ messages, m.id = id ∧ m.text = plaintext ∧ m.isMine = true ∧ m.status = status

/-- Nothing is lost and nothing is there twice; what the user has written is there with its text and
its status, be it loaded, pushed, acknowledged or failed. -/
structure Right (ownId : String) (server : String → Original) (messages : List MessageView)
    (h : History) : Prop where
  nodup : (ids messages).Nodup
  known : ∀ id ∈ h.known, id ∈ ids messages
  only : ∀ id ∈ ids messages, id ∈ h.known ∨ id ∈ h.failed.map Prod.fst
  own : ∀ id ∈ h.known, (server id).senderId = ownId →
    HasOwn messages id (server id).plaintext (if id ∈ h.receipts then .read else .sent)
  acknowledged : ∀ e ∈ h.acknowledged,
    HasOwn messages e.1 e.2 (if e.1 ∈ h.receipts then .read else .sent)
  failed : ∀ e ∈ h.failed, HasOwn messages e.1 e.2 .failed
  receipts : ∀ id ∈ h.receipts, ∀ m ∈ messages, m.id = id → m.status = .read

/-- Nothing is pending. -/
def State.Settled (s : State) : Prop := s.sending = [] ∧ s.decrypting = []

/-- An identifier of the server: a UUID, and not one of the client. -/
def ServerId (id : String) : Prop := ¬"tmp-".toList <+: id.toList

instance (id : String) : Decidable (ServerId id) :=
  inferInstanceAs (Decidable (¬"tmp-".toList <+: id.toList))

/-- The server names its messages with identifiers of its own, tells their senders, and answers with
the message that was sent. -/
def FromServer (ownId : String) (server : String → Original) (s : State × History) : Input → Prop
  | .sent i id _ => ServerId id ∧
    ∀ p, s.1.sending[i]? = some p → server id = { senderId := ownId, plaintext := p.plaintext }
  | .messageNew env => ServerId env.id ∧ env.senderId = (server env.id).senderId
  | .messageRead messageId _ _ => ServerId messageId
  | _ => True

/-- What is decrypted is what was written. -/
def Authentic (server : String → Original) (env : MessageEnvelopeDto) (plain : Option String) :
    Prop :=
  ∀ text, plain = some text → text = (server env.id).plaintext

/-- The server lists each message once, and what is decrypted of it is what was written. -/
structure ListedBy (server : String → Original)
    (listed : List (MessageEnvelopeDto × Option String)) : Prop where
  nodup : (listed.map fun e => e.1.id).Nodup
  serverId : ∀ e ∈ listed, ServerId e.1.id
  sender : ∀ e ∈ listed, e.1.senderId = (server e.1.id).senderId
  authentic : ∀ e ∈ listed, Authentic server e.1 e.2

/-- A decryption gives what was written, if it gives anything. -/
def AuthenticStep (server : String → Original) (s : State × History) : Input → Prop
  | .decrypted i plain => ∀ d, s.1.decrypting[i]? = some d → Authentic server d.env plain
  | _ => True

/-- The text of a message is there, if it is an own message: the key store has the key that it was
encrypted to. -/
def HasText (ownId : String) (env : MessageEnvelopeDto) (plain : Option String) : Prop :=
  env.senderId = ownId → plain ≠ none

/-- Nothing overtakes anything: no two messages are sent in the same microsecond, the list is the
same at the end of a decryption as at its start, and a message is listed under its identifier before
its echo and before its receipt. No decryption ends without a list, and none of an own message
without a text. -/
def Undisturbed (ownId : String) (s : State × History) : Input → Prop
  | .send ready _ now => ready = true → tmpId now ∉ ids s.1.messages
  | .sent _ id _ => id ∉ ids s.1.messages ∧ id ∉ s.2.receipts
  | .decrypted i plain => ∀ d, s.1.decrypting[i]? = some d →
    d.cur = s.1.messages ∧ d.env.id ∉ s.2.receipts ∧ HasText ownId d.env plain
  | .decryptionThrew i => s.1.decrypting[i]? = none
  | _ => True

/-! ### The list -/

section Messages

variable {messages : List MessageView} {id id' plaintext : String} {status : MessageStatus}
  {f : MessageView → MessageView} {m : MessageView}

/-- An identifier is listed with its message. -/
theorem mem_ids : id ∈ ids messages ↔ ∃ m ∈ messages, m.id = id := List.mem_map

/-- The identifiers with one message more. -/
theorem ids_concat : ids (messages ++ [m]) = ids messages ++ [m.id] := by
  simp [ids]

/-- A new message is added. -/
theorem nodup_concat (h : (ids messages).Nodup) (hnew : m.id ∉ ids messages) :
    (ids (messages ++ [m])).Nodup := by
  rw [ids_concat, ← List.concat_eq_append, List.nodup_concat]
  exact ⟨hnew, h⟩

/-- A change that keeps the identifiers. -/
theorem ids_replace (hf : ∀ m, (f m).id = m.id) : ids (replace messages id f) = ids messages := by
  rw [ids, replace, List.map_map]
  refine List.map_congr_left fun m _ => ?_
  simp only [Function.comp_apply]
  split
  · exact hf m
  · rfl

/-- The other messages stay. -/
theorem mem_replace_of_ne (hm : m ∈ messages) (hne : m.id ≠ id) : m ∈ replace messages id f :=
  List.mem_map.mpr ⟨m, hm, if_neg hne⟩

/-- The messages of the identifier are changed. -/
theorem mem_replace_of_eq (hm : m ∈ messages) (heq : m.id = id) : f m ∈ replace messages id f :=
  List.mem_map.mpr ⟨m, hm, if_pos heq⟩

/-- A message after a replacement is one of the others, or a changed one. -/
theorem of_mem_replace (hm : m ∈ replace messages id f) :
    m ∈ messages ∧ m.id ≠ id ∨ ∃ m' ∈ messages, m'.id = id ∧ m = f m' := by
  obtain ⟨m', hm', heq⟩ := List.mem_map.mp hm
  split at heq
  · next hid => exact .inr ⟨m', hm', hid, heq.symm⟩
  · next hid =>
    obtain rfl := heq
    exact .inl ⟨hm', hid⟩

/-- A message is renamed. -/
theorem ids_rename (hf : ∀ m, (f m).id = id') :
    ids (replace messages id f) = (ids messages).map fun x => if x = id then id' else x := by
  rw [ids, ids, replace, List.map_map, List.map_map]
  refine List.map_congr_left fun m _ => ?_
  simp only [Function.comp_apply]
  split
  · exact hf m
  · rfl

/-- A message gets an identifier that is new. -/
theorem nodup_rename (h : (ids messages).Nodup) (hf : ∀ m, (f m).id = id')
    (hnew : id' ∉ ids messages) : (ids (replace messages id f)).Nodup := by
  rw [ids_rename hf]
  refine h.map_on fun x hx y hy hxy => ?_
  split at hxy <;> split at hxy
  · next hx' hy' => exact hx'.trans hy'.symm
  · exact absurd (hxy ▸ hy) hnew
  · exact absurd (hxy ▸ hx) hnew
  · exact hxy

/-- One message more leaves the others there. -/
theorem HasOwn.concat (h : HasOwn messages id plaintext status) (m : MessageView) :
    HasOwn (messages ++ [m]) id plaintext status := by
  obtain ⟨m', hm', hown⟩ := h
  exact ⟨m', List.mem_append_left _ hm', hown⟩

/-- There is one message of an identifier. -/
theorem eq_of_id {m' : MessageView} (h : (ids messages).Nodup) (hm : m ∈ messages)
    (hm' : m' ∈ messages) (hid : m.id = m'.id) : m = m' :=
  List.inj_on_of_nodup_map h hm hm' hid

/-- Another message is replaced. -/
theorem HasOwn.replace_of_ne (h : HasOwn messages id plaintext status) (hne : id ≠ id') :
    HasOwn (replace messages id' f) id plaintext status := by
  obtain ⟨m', hm', hid, hown⟩ := h
  exact ⟨m', mem_replace_of_ne hm' (hid ▸ hne), hid, hown⟩

end Messages

/-! ### The invariant -/

/-- An own message that the server knows is shown with its text and its status. -/
def Shown (ownId : String) (server : String → Original) (receipts : List String) (m : MessageView) :
    Prop :=
  ServerId m.id → (server m.id).senderId = ownId →
    m.text = (server m.id).plaintext ∧ m.isMine = true ∧
      m.status = if m.id ∈ receipts then .read else .sent

/-- The list is right but for what is pending: a message that is being sent is listed under its own
identifier, and one that is being decrypted is not listed yet. -/
structure Inv (ownId : String) (server : String → Original) (s : State × History) : Prop where
  nodup : (ids s.1.messages).Nodup
  known : ∀ id ∈ s.2.known, id ∈ ids s.1.messages ∨ ∃ d ∈ s.1.decrypting, d.env.id = id
  only : ∀ id ∈ ids s.1.messages, id ∈ s.2.known ∨ id ∈ s.2.failed.map Prod.fst ∨
    id ∈ s.1.sending.map Sending.tmpId
  own : ∀ m ∈ s.1.messages, Shown ownId server s.2.receipts m
  acknowledged : ∀ e ∈ s.2.acknowledged,
    HasOwn s.1.messages e.1 e.2 (if e.1 ∈ s.2.receipts then .read else .sent)
  failed : ∀ e ∈ s.2.failed, HasOwn s.1.messages e.1 e.2 .failed
  receipts : ∀ id ∈ s.2.receipts, ∀ m ∈ s.1.messages, m.id = id → m.status = .read
  sending : ∀ p ∈ s.1.sending,
    ∃ m ∈ s.1.messages, m.id = p.tmpId ∧ m.text = p.plaintext ∧ m.isMine = true
  sendingNodup : (s.1.sending.map Sending.tmpId).Nodup
  apart : ∀ id ∈ s.2.failed.map Prod.fst, id ∉ s.1.sending.map Sending.tmpId
  sendingClient : ∀ p ∈ s.1.sending, ¬ServerId p.tmpId
  failedClient : ∀ e ∈ s.2.failed, ¬ServerId e.1
  knownServer : ∀ id ∈ s.2.known, ServerId id
  acknowledgedServer : ∀ e ∈ s.2.acknowledged, ServerId e.1
  receiptsServer : ∀ id ∈ s.2.receipts, ServerId id
  decrypting : ∀ d ∈ s.1.decrypting, d.env.id ∈ s.2.known ∧ d.env.id ∉ ids d.cur
  pushed : ∀ d ∈ s.1.decrypting,
    d.env.senderId = (server d.env.id).senderId ∧ d.env.readAt = none

section Steps

variable {ownId : String} {server : String → Original} {s : State × History}

/-- An identifier of the client is none of the server. -/
theorem not_serverId_tmpId (now : Time) : ¬ServerId (tmpId now) := by
  rw [ServerId, not_not, tmpId, String.toList_append]
  exact List.prefix_append _ _

/-- A decrypted view keeps its message's id. -/
theorem decryptToView_id (ownId : String) (env : MessageEnvelopeDto) (plain : Option String) :
    (decryptToView ownId env plain).id = env.id := by
  cases plain <;> rfl

/-- An own message that can be read is shown with what was written. -/
theorem decryptToView_shown {env : MessageEnvelopeDto} {plain : Option String}
    {receipts : List String} (hsender : env.senderId = (server env.id).senderId)
    (hauthentic : Authentic server env plain) (hreadable : HasText ownId env plain)
    (hread : env.senderId = ownId → (env.id ∈ receipts ↔ env.readAt.isSome = true)) :
    Shown ownId server receipts (decryptToView ownId env plain) := by
  intro _ hown
  rw [decryptToView_id, ← hsender] at hown
  cases hplain : plain with
  | none => exact absurd hplain (hreadable hown)
  | some text =>
    refine ⟨hauthentic text hplain, decide_eq_true hown, ?_⟩
    change (if env.readAt.isSome then MessageStatus.read else .sent) = _
    simp only [decryptToView_id, hread hown]

/-- The identifiers of a loaded list are the listed ones. -/
theorem FirstLoad.ids {listed : List (MessageEnvelopeDto × Option String)}
    {messages : List MessageView} (h : FirstLoad ownId listed messages) :
    (ids messages).Perm (listed.map fun e => e.1.id) := by
  have hmap : (listed.map fun e => decryptToView ownId e.1 e.2).map MessageView.id =
      listed.map fun e => e.1.id := by
    rw [List.map_map]
    exact List.map_congr_left fun e _ => decryptToView_id ownId e.1 e.2
  exact hmap ▸ h.perm.map MessageView.id

/-- A message is read from the start, if it was loaded so. -/
theorem mem_read_iff {messages : List MessageView} {m : MessageView} (h : (ids messages).Nodup)
    (hm : m ∈ messages) : m.id ∈ ids (messages.filter (·.status = .read)) ↔ m.status = .read := by
  rw [mem_ids]
  constructor
  · rintro ⟨m', hm', hid⟩
    obtain ⟨hmem, hstatus⟩ := List.mem_filter.mp hm'
    exact eq_of_id h hmem hm hid ▸ of_decide_eq_true hstatus
  · intro hstatus
    exact ⟨m, List.mem_filter.mpr ⟨hm, decide_eq_true hstatus⟩, rfl⟩

/-- A conversation is loaded. -/
theorem inv_start {listed : List (MessageEnvelopeDto × Option String)} {messages : List MessageView}
    (hloaded : FirstLoad ownId listed messages) (hlisted : ListedBy server listed)
    (hreadable : ∀ e ∈ listed, HasText ownId e.1 e.2) : Inv ownId server (start messages) := by
  have hnodup : (ids messages).Nodup := hloaded.ids.nodup_iff.mpr hlisted.nodup
  have hserver (id : String) (hid : id ∈ ids messages) : ServerId id := by
    obtain ⟨e, he, rfl⟩ := List.mem_map.mp (hloaded.ids.mem_iff.mp hid)
    exact hlisted.serverId e he
  have hsub (id : String) (hid : id ∈ ids (messages.filter (·.status = .read))) :
      id ∈ ids messages := by
    obtain ⟨m, hm, rfl⟩ := mem_ids.mp hid
    exact mem_ids.mpr ⟨m, List.mem_of_mem_filter hm, rfl⟩
  exact {
    nodup := hnodup
    known := fun _ hid => .inl hid
    only := fun _ hid => .inl hid
    own := fun m hm => by
      obtain ⟨e, he, rfl⟩ := List.mem_map.mp (hloaded.perm.mem_iff.mp hm)
      refine decryptToView_shown (hlisted.sender e he) (hlisted.authentic e he) (hreadable e he)
        fun hown => ?_
      have hread := mem_read_iff hnodup hm
      rw [decryptToView_id] at hread
      refine hread.trans ?_
      cases hplain : e.2 with
      | none => exact absurd hplain (hreadable e he hown)
      | some text =>
        change (if e.1.readAt.isSome then MessageStatus.read else .sent) = .read ↔ _
        cases e.1.readAt <;> simp
    acknowledged := nofun
    failed := nofun
    receipts := fun id hid m hm heq => (mem_read_iff hnodup hm).mp (heq ▸ hid)
    sending := nofun
    sendingNodup := List.nodup_nil
    apart := nofun
    sendingClient := nofun
    failedClient := nofun
    knownServer := hserver
    acknowledgedServer := nofun
    receiptsServer := fun id hid => hserver id (hsub id hid)
    decrypting := nofun
    pushed := nofun }

/-- A message is listed before the server knows it. -/
theorem Inv.send (h : Inv ownId server s) {ready : Bool} {plaintext : String} {now : Time}
    (hfresh : ready = true → tmpId now ∉ ids s.1.messages) :
    Inv ownId server (stepNoted ownId s (.send ready plaintext now)) := by
  simp only [stepNoted, withMemory, step, note, ConversationController.send]
  cases ready with
  | false => exact h
  | true =>
    have hfresh := hfresh rfl
    have hnot (p : Sending) (hp : p ∈ s.1.sending) : p.tmpId ≠ tmpId now := by
      rintro heq
      obtain ⟨m, hm, hid, -⟩ := h.sending p hp
      exact hfresh (mem_ids.mpr ⟨m, hm, hid.trans heq⟩)
    rw [if_pos rfl]
    refine { h with
      nodup := nodup_concat h.nodup hfresh
      known := fun id hid => (h.known id hid).imp_left fun hmem => ?_
      only := fun id hid => ?_
      own := forall_mem_concat h.own fun hserver => absurd hserver (not_serverId_tmpId now)
      acknowledged := fun e he => (h.acknowledged e he).concat _
      failed := fun e he => (h.failed e he).concat _
      receipts := fun id hid => forall_mem_concat (h.receipts id hid) fun hmid => ?_
      sending := forall_mem_concat (fun p hp => ?_) ?_
      sendingNodup := ?_
      apart := fun id hid hmem => ?_
      sendingClient := forall_mem_concat h.sendingClient (not_serverId_tmpId now) }
    · exact ids_concat.symm ▸ List.mem_append_left _ hmem
    · rw [ids_concat] at hid
      rw [List.map_append]
      rcases List.mem_append.mp hid with hold | hnew
      · exact (h.only id hold).imp_right (Or.imp_right (List.mem_append_left _))
      · exact .inr (.inr (List.mem_append_right _ hnew))
    · have hmid' : tmpId now = id := hmid
      exact absurd (hmid' ▸ h.receiptsServer id hid) (not_serverId_tmpId now)
    · obtain ⟨m, hm, hrest⟩ := h.sending p hp
      exact ⟨m, List.mem_append_left _ hm, hrest⟩
    · exact ⟨_, List.mem_append_right _ List.mem_cons_self, rfl, rfl, rfl⟩
    · rw [List.map_append, List.map_singleton, ← List.concat_eq_append, List.nodup_concat]
      refine ⟨fun hmem => ?_, h.sendingNodup⟩
      obtain ⟨p, hp, heq⟩ := List.mem_map.mp hmem
      exact hnot p hp heq
    · rw [List.map_append] at hmem
      rcases List.mem_append.mp hmem with hold | hnew
      · exact h.apart id hid hold
      · obtain ⟨e, he, rfl⟩ := List.mem_map.mp hid
        obtain ⟨m, hm, hmid, -⟩ := h.failed e he
        exact hfresh (mem_ids.mpr ⟨m, hm, hmid.trans (List.mem_singleton.mp hnew)⟩)

/-- The other messages that are being sent have other identifiers. -/
theorem Inv.tmpId_ne (h : Inv ownId server s) {i : ℕ} {p q : Sending}
    (hp : s.1.sending[i]? = some p) (hq : q ∈ s.1.sending.eraseIdx i) : q.tmpId ≠ p.tmpId := by
  obtain ⟨j, hji, hj⟩ := List.mem_eraseIdx_iff_getElem?.mp hq
  rintro heq
  have hlength : j < (s.1.sending.map Sending.tmpId).length := by
    rw [List.length_map]
    exact (List.getElem?_eq_some_iff.mp hj).1
  have hsame : (s.1.sending.map Sending.tmpId)[j]? = (s.1.sending.map Sending.tmpId)[i]? := by
    rw [List.getElem?_map, List.getElem?_map, hj, hp, Option.map_some, Option.map_some, heq]
  exact hji ((List.getElem?_inj hlength h.sendingNodup).mp hsame)

/-- The message is not being sent any more; what was sent under its identifier changes, and nothing
else does. -/
theorem Inv.done (h : Inv ownId server s) {i : ℕ} {p : Sending} (hp : s.1.sending[i]? = some p)
    {f : MessageView → MessageView} :
    (∀ q ∈ s.1.sending.eraseIdx i, ∃ m ∈ replace s.1.messages p.tmpId f,
      m.id = q.tmpId ∧ m.text = q.plaintext ∧ m.isMine = true) ∧
    ((s.1.sending.eraseIdx i).map Sending.tmpId).Nodup ∧
    (∀ e ∈ s.2.acknowledged, HasOwn (replace s.1.messages p.tmpId f) e.1 e.2
      (if e.1 ∈ s.2.receipts then .read else .sent)) ∧
    ∀ e ∈ s.2.failed, HasOwn (replace s.1.messages p.tmpId f) e.1 e.2 .failed := by
  have hmem := List.mem_of_getElem? hp
  refine ⟨fun q hq => ?_, ?_, fun e he => ?_, fun e he => ?_⟩
  · obtain ⟨m, hm, hid, hrest⟩ := h.sending q (List.mem_of_mem_eraseIdx hq)
    exact ⟨m, mem_replace_of_ne hm (hid ▸ h.tmpId_ne hp hq), hid, hrest⟩
  · exact h.sendingNodup.sublist ((List.eraseIdx_sublist ..).map _)
  · refine (h.acknowledged e he).replace_of_ne ?_
    rintro heq
    exact h.sendingClient p hmem (heq ▸ h.acknowledgedServer e he)
  · refine (h.failed e he).replace_of_ne ?_
    rintro heq
    exact h.apart e.1 (List.mem_map_of_mem he) (heq ▸ List.mem_map_of_mem hmem)

/-- Every other listed identifier is still accounted for. -/
theorem Inv.only_of_ne (h : Inv ownId server s) {i : ℕ} {p : Sending}
    (hp : s.1.sending[i]? = some p) {x : String} (hx : x ∈ ids s.1.messages)
    (hne : x ≠ p.tmpId) : x ∈ s.2.known ∨ x ∈ s.2.failed.map Prod.fst ∨
      x ∈ (s.1.sending.eraseIdx i).map Sending.tmpId := by
  refine (h.only x hx).imp_right (Or.imp_right fun hsending => ?_)
  obtain ⟨q, hq, rfl⟩ := List.mem_map.mp hsending
  refine List.mem_map_of_mem (mem_eraseIdx_of_ne hq hp ?_)
  rintro rfl
  exact hne rfl

/-- The answer of the server comes before the echo and before the receipt. -/
theorem Inv.sent (h : Inv ownId server s) {i : ℕ} {id : String} {sentAt : Time}
    (hserver : ServerId id)
    (hanswer : ∀ p, s.1.sending[i]? = some p →
      server id = { senderId := ownId, plaintext := p.plaintext })
    (hunlisted : id ∉ ids s.1.messages) (hunread : id ∉ s.2.receipts) :
    Inv ownId server (stepNoted ownId s (.sent i id sentAt)) := by
  simp only [stepNoted, withMemory, step, note, acknowledge]
  cases hp : s.1.sending[i]? with
  | none => exact h
  | some p =>
    have hmem := List.mem_of_getElem? hp
    obtain ⟨hsending, hnodup, hacknowledged, hfailed⟩ :=
      h.done hp (f := fun m => { m with id, status := .sent, sentAt })
    obtain ⟨m, hm, hmid, htext, hmine⟩ := h.sending p hmem
    have hids : ids (replace s.1.messages p.tmpId fun m => { m with id, status := .sent, sentAt }) =
        (ids s.1.messages).map fun x => if x = p.tmpId then id else x := ids_rename fun _ => rfl
    refine { h with
      nodup := nodup_rename h.nodup (fun _ => rfl) hunlisted
      known := fun x hx => ?_
      only := fun x hx => ?_
      own := fun m' hm' => ?_
      acknowledged := forall_mem_concat hacknowledged ?_
      failed := hfailed
      receipts := fun x hx m' hm' hid => ?_
      sending := hsending
      sendingNodup := hnodup
      apart := fun x hx hq => ?_
      sendingClient := fun q hq => h.sendingClient q (List.mem_of_mem_eraseIdx hq)
      knownServer := forall_mem_concat h.knownServer hserver
      acknowledgedServer := forall_mem_concat h.acknowledgedServer hserver
      decrypting := fun d hd => (h.decrypting d hd).imp_left (List.mem_append_left _) }
    · rw [hids]
      rcases List.mem_append.mp hx with hold | hnew
      · refine (h.known x hold).imp_left fun hlisted => List.mem_map.mpr ⟨x, hlisted, if_neg ?_⟩
        rintro rfl
        exact h.sendingClient p hmem (h.knownServer _ hold)
      · obtain rfl := List.mem_singleton.mp hnew
        exact .inl (List.mem_map.mpr ⟨p.tmpId, mem_ids.mpr ⟨m, hm, hmid⟩, if_pos rfl⟩)
    · rw [hids] at hx
      obtain ⟨y, hy, hyx⟩ := List.mem_map.mp hx
      split at hyx
      · exact .inl (List.mem_append_right _ (List.mem_singleton.mpr hyx.symm))
      · next hne =>
        obtain rfl := hyx
        exact (h.only_of_ne hp hy hne).imp_left (List.mem_append_left _)
    · rcases of_mem_replace hm' with ⟨hold, -⟩ | ⟨m'', hm'', hid'', rfl⟩
      · exact h.own m' hold
      · obtain rfl := eq_of_id h.nodup hm hm'' (hmid.trans hid''.symm)
        intro _ _
        refine ⟨?_, hmine, ?_⟩
        · rw [hanswer p hp]
          exact htext
        · rw [if_neg hunread]
    · rw [if_neg hunread]
      exact ⟨_, mem_replace_of_eq hm hmid, rfl, htext, hmine, rfl⟩
    · rcases of_mem_replace hm' with ⟨hold, -⟩ | ⟨m'', -, -, rfl⟩
      · exact h.receipts x hx m' hold hid
      · obtain rfl : id = x := hid
        exact absurd hx hunread
    · obtain ⟨q, hq', rfl⟩ := List.mem_map.mp hq
      exact h.apart _ hx (List.mem_map_of_mem (List.mem_of_mem_eraseIdx hq'))

/-- A failure is shown at the message. -/
theorem Inv.sendFailed (h : Inv ownId server s) {i : ℕ} :
    Inv ownId server (stepNoted ownId s (.sendFailed i)) := by
  simp only [stepNoted, withMemory, step, note, fail]
  cases hp : s.1.sending[i]? with
  | none => exact h
  | some p =>
    have hmem := List.mem_of_getElem? hp
    obtain ⟨hsending, hnodup, hacknowledged, hfailed⟩ :=
      h.done hp (f := fun m => { m with status := .failed })
    obtain ⟨m, hm, hmid, htext, hmine⟩ := h.sending p hmem
    have hids : ids (replace s.1.messages p.tmpId fun m => { m with status := .failed }) =
        ids s.1.messages := ids_replace fun _ => rfl
    refine { h with
      nodup := hids ▸ h.nodup
      known := fun x hx => hids ▸ h.known x hx
      only := fun x hx => ?_
      own := fun m' hm' => ?_
      acknowledged := hacknowledged
      failed := forall_mem_concat hfailed ⟨_, mem_replace_of_eq hm hmid, hmid, htext, hmine, rfl⟩
      receipts := fun x hx m' hm' hid => ?_
      sending := hsending
      sendingNodup := hnodup
      apart := fun x hx hq => ?_
      sendingClient := fun q hq => h.sendingClient q (List.mem_of_mem_eraseIdx hq)
      failedClient := forall_mem_concat h.failedClient (h.sendingClient p hmem) }
    · rw [hids] at hx
      rw [List.map_append]
      by_cases hne : x = p.tmpId
      · exact .inr (.inl (List.mem_append_right _ (List.mem_singleton.mpr hne)))
      · exact (h.only_of_ne hp hx hne).imp_right (Or.imp_left (List.mem_append_left _))
    · rcases of_mem_replace hm' with ⟨hold, -⟩ | ⟨m'', -, hid'', rfl⟩
      · exact h.own m' hold
      · exact fun hserver => absurd (hid'' ▸ hserver) (h.sendingClient p hmem)
    · rcases of_mem_replace hm' with ⟨hold, -⟩ | ⟨m'', -, hid', rfl⟩
      · exact h.receipts x hx m' hold hid
      · have hx' : p.tmpId = x := hid'.symm.trans hid
        exact absurd (hx' ▸ h.receiptsServer x hx) (h.sendingClient p hmem)
    · obtain ⟨q, hq', rfl⟩ := List.mem_map.mp hq
      rw [List.map_append] at hx
      rcases List.mem_append.mp hx with hold | hnew
      · exact h.apart _ hold (List.mem_map_of_mem (List.mem_of_mem_eraseIdx hq'))
      · exact h.tmpId_ne hp hq' (List.mem_singleton.mp hnew)

/-- A pushed message is listed, or about to be. -/
theorem Inv.messageNew (h : Inv ownId server s) {env : MessageEnvelopeDto}
    (hserver : ServerId env.id) (hsender : env.senderId = (server env.id).senderId) :
    Inv ownId server (stepNoted ownId s (.messageNew env)) := by
  simp only [stepNoted, withMemory, step, note, handleMessageNew]
  have hknownServer : ∀ x ∈ s.2.known ++ [env.id], ServerId x :=
    forall_mem_concat h.knownServer hserver
  by_cases hlisted : env.id ∈ ids s.1.messages
  · rw [if_pos hlisted]
    refine { h with
      known := forall_mem_concat h.known (.inl hlisted)
      only := fun x hx => (h.only x hx).imp_left (List.mem_append_left _)
      knownServer := hknownServer
      decrypting := fun d hd => (h.decrypting d hd).imp_left (List.mem_append_left _) }
  · rw [if_neg hlisted]
    refine { h with
      known := forall_mem_concat (fun x hx => ?_) ?_
      only := fun x hx => (h.only x hx).imp_left (List.mem_append_left _)
      knownServer := hknownServer
      decrypting := forall_mem_concat (fun d hd => ?_) ?_
      pushed := forall_mem_concat h.pushed ⟨hsender, rfl⟩ }
    · exact (h.known x hx).imp_right fun ⟨d, hd, hid⟩ => ⟨d, List.mem_append_left _ hd, hid⟩
    · exact .inr ⟨_, List.mem_append_right _ List.mem_cons_self, rfl⟩
    · exact (h.decrypting d hd).imp_left (List.mem_append_left _)
    · exact ⟨List.mem_append_right _ List.mem_cons_self, hlisted⟩

/-- The list is the one that the message is added to. -/
theorem Inv.decrypted (h : Inv ownId server s) {i : ℕ} {plain : Option String}
    (hauthentic : ∀ d, s.1.decrypting[i]? = some d → Authentic server d.env plain)
    (hsame : ∀ d, s.1.decrypting[i]? = some d →
      d.cur = s.1.messages ∧ d.env.id ∉ s.2.receipts ∧ HasText ownId d.env plain) :
    Inv ownId server (stepNoted ownId s (.decrypted i plain)) := by
  simp only [stepNoted, withMemory, step, note, append]
  cases hd : s.1.decrypting[i]? with
  | none => exact h
  | some d =>
    obtain ⟨hcur, hunread, hreadable⟩ := hsame d hd
    obtain ⟨hknown, hunlisted⟩ := h.decrypting d (List.mem_of_getElem? hd)
    obtain ⟨hsender, hreadAt⟩ := h.pushed d (List.mem_of_getElem? hd)
    have hids : ids (s.1.messages ++ [decryptToView ownId d.env plain]) =
        ids s.1.messages ++ [d.env.id] := by
      rw [ids_concat, decryptToView_id]
    rw [hcur] at hunlisted
    simp only [hcur]
    refine { h with
      nodup := nodup_concat h.nodup (decryptToView_id ownId d.env plain ▸ hunlisted)
      known := fun x hx => ?_
      only := fun x hx => ?_
      own := forall_mem_concat h.own ?_
      acknowledged := fun e he => (h.acknowledged e he).concat _
      failed := fun e he => (h.failed e he).concat _
      receipts := fun x hx => forall_mem_concat (h.receipts x hx) fun hid => ?_
      sending := fun p hp => ?_
      decrypting := fun d' hd' => h.decrypting d' (List.mem_of_mem_eraseIdx hd')
      pushed := fun d' hd' => h.pushed d' (List.mem_of_mem_eraseIdx hd') }
    · rw [hids]
      rcases h.known x hx with hlisted | ⟨d', hd', rfl⟩
      · exact .inl (List.mem_append_left _ hlisted)
      · by_cases heq : d' = d
        · exact .inl (List.mem_append_right _ (List.mem_singleton.mpr (heq ▸ rfl)))
        · exact .inr ⟨d', mem_eraseIdx_of_ne hd' hd (Ne.symm heq), rfl⟩
    · rw [hids] at hx
      rcases List.mem_append.mp hx with hold | hnew
      · exact h.only x hold
      · exact .inl (List.mem_singleton.mp hnew ▸ hknown)
    · refine decryptToView_shown hsender (hauthentic d hd) hreadable fun _ => ?_
      rw [hreadAt]
      exact iff_of_false hunread (by simp)
    · rw [decryptToView_id] at hid
      exact absurd (hid ▸ hx) hunread
    · obtain ⟨m, hm, hrest⟩ := h.sending p hp
      exact ⟨m, List.mem_append_left _ hm, hrest⟩

/-- No decryption ends without a list. -/
theorem Inv.decryptionThrew (h : Inv ownId server s) {i : ℕ} (hnone : s.1.decrypting[i]? = none) :
    Inv ownId server (stepNoted ownId s (.decryptionThrew i)) := by
  have hlength : s.1.decrypting.length ≤ i := List.getElem?_eq_none_iff.mp hnone
  simp only [stepNoted, withMemory, ConversationController.step, note, ConversationController.drop,
    List.eraseIdx_of_length_le hlength]
  exact h

/-- A receipt is shown at its message. -/
theorem Inv.messageRead (h : Inv ownId server s) {messageId readerId : String} {now : Time}
    (hserver : ServerId messageId) :
    Inv ownId server (stepNoted ownId s (.messageRead messageId readerId now)) := by
  simp only [stepNoted, withMemory, step, note, handleMessageRead]
  by_cases hown : readerId = ownId
  · rw [if_pos hown, if_pos hown]
    exact h
  · rw [if_neg hown, if_neg hown]
    have hids : ids (replace s.1.messages messageId
        fun m => { m with status := .read, readAt := some now }) = ids s.1.messages :=
      ids_replace fun _ => rfl
    have hread : messageId ∈ s.2.receipts ++ [messageId] :=
      List.mem_append_right _ (List.mem_singleton.mpr rfl)
    have hother {x : String} (hne : x ≠ messageId) :
        x ∈ s.2.receipts ++ [messageId] ↔ x ∈ s.2.receipts := by
      rw [List.mem_append, List.mem_singleton, or_iff_left hne]
    refine { h with
      nodup := hids ▸ h.nodup
      known := fun x hx => hids ▸ h.known x hx
      only := fun x hx => h.only x (hids ▸ hx)
      own := fun m hm => ?_
      acknowledged := fun e he => ?_
      failed := fun e he => (h.failed e he).replace_of_ne ?_
      receipts := fun x hx m hm hid => ?_
      sending := fun p hp => ?_
      receiptsServer := forall_mem_concat h.receiptsServer hserver }
    · rcases of_mem_replace hm with ⟨hold, hne⟩ | ⟨m', hm', rfl, rfl⟩
      · simp only [Shown, hother hne]
        exact h.own m hold
      · intro hid hown
        obtain ⟨htext, hmine, -⟩ := h.own m' hm' hid hown
        exact ⟨htext, hmine, (if_pos hread).symm⟩
    · have hshown := h.acknowledged e he
      by_cases hid : e.1 = messageId
      · rw [if_pos (hid ▸ hread)]
        obtain ⟨m, hm, hmid, htext, hmine, -⟩ := hshown
        exact ⟨_, mem_replace_of_eq hm (hmid.trans hid), hmid, htext, hmine, rfl⟩
      · simp only [hother hid]
        exact hshown.replace_of_ne hid
    · rintro heq
      exact h.failedClient e he (heq ▸ hserver)
    · rcases of_mem_replace hm with ⟨hold, hne⟩ | ⟨m', -, -, rfl⟩
      · rcases List.mem_append.mp hx with hx | hx
        · exact h.receipts x hx m hold hid
        · exact absurd (hid.trans (List.mem_singleton.mp hx)) hne
      · rfl
    · obtain ⟨m, hm, hid, hrest⟩ := h.sending p hp
      refine ⟨m, mem_replace_of_ne hm ?_, hid, hrest⟩
      rintro heq
      exact h.sendingClient p hp (hid ▸ heq ▸ hserver)

/-- Every step keeps the invariant, if nothing overtakes anything in it. -/
theorem Inv.step (h : Inv ownId server s) {i : Input} (hserver : FromServer ownId server s i)
    (hauthentic : AuthenticStep server s i) (hundisturbed : Undisturbed ownId s i) :
    Inv ownId server (stepNoted ownId s i) := by
  cases i with
  | send => exact h.send hundisturbed
  | sent => exact h.sent hserver.1 hserver.2 hundisturbed.1 hundisturbed.2
  | sendFailed => exact h.sendFailed
  | messageNew => exact h.messageNew hserver.1 hserver.2
  | decrypted => exact h.decrypted hauthentic hundisturbed
  | decryptionThrew => exact h.decryptionThrew hundisturbed
  | messageRead => exact h.messageRead hserver

/-- Where nothing is pending, what the server knows is listed. -/
theorem Inv.listed (h : Inv ownId server s) (hsettled : s.1.Settled) {id : String}
    (hid : id ∈ s.2.known) : id ∈ ids s.1.messages := by
  refine (h.known id hid).resolve_right ?_
  rintro ⟨d, hd, -⟩
  rw [hsettled.2] at hd
  cases hd

/-- Where nothing is pending, the list is right. -/
theorem Inv.right (h : Inv ownId server s) (hsettled : s.1.Settled) :
    Right ownId server s.1.messages s.2 where
  nodup := h.nodup
  known id hid := h.listed hsettled hid
  only id hid := by
    refine (h.only id hid).imp_right fun hor => hor.resolve_right ?_
    rw [hsettled.1]
    exact List.not_mem_nil
  own id hid hown := by
    obtain ⟨m, hm, rfl⟩ := mem_ids.mp (h.listed hsettled hid)
    obtain ⟨htext, hmine, hstatus⟩ := h.own m hm (h.knownServer _ hid) hown
    exact ⟨m, hm, rfl, htext, hmine, hstatus⟩
  acknowledged := h.acknowledged
  failed := h.failed
  receipts := h.receipts

/-- An own message that is loaded without a key to read it by is listed without its text, and the
list is not right. -/
theorem not_right_of_unreadable {listed : List (MessageEnvelopeDto × Option String)}
    {messages : List MessageView} (hloaded : FirstLoad ownId listed messages)
    (hlisted : ListedBy server listed) {e : MessageEnvelopeDto × Option String} (he : e ∈ listed)
    (hunreadable : ¬HasText ownId e.1 e.2) :
    ¬Right ownId server messages (start messages).2 := by
  obtain ⟨hown, hplain⟩ := Classical.not_imp.mp hunreadable
  intro h
  have hmem : decryptToView ownId e.1 e.2 ∈ messages :=
    hloaded.perm.mem_iff.mpr (List.mem_map_of_mem he)
  have hknown : e.1.id ∈ ids messages :=
    mem_ids.mpr ⟨_, hmem, decryptToView_id ownId e.1 e.2⟩
  obtain ⟨m, hm, hid, -, -, hstatus⟩ := h.own e.1.id hknown (hlisted.sender e he ▸ hown)
  obtain rfl := eq_of_id h.nodup hm hmem (hid.trans (decryptToView_id ownId e.1 e.2).symm)
  rw [not_not.mp hplain] at hstatus
  split at hstatus
  · cases hstatus
  · cases hstatus

end Steps

end ConversationController

open ConversationController

/-- In every run in which nothing overtakes anything, the list is right whenever nothing is
pending. -/
theorem conversation_right (ownId : String) (server : String → Original)
    {listed : List (MessageEnvelopeDto × Option String)} {messages : List MessageView}
    (hloaded : FirstLoad ownId listed messages) (hlisted : ListedBy server listed)
    (hreadable : ∀ e ∈ listed, HasText ownId e.1 e.2) {run : List Input}
    (hfromServer : EachStep (stepNoted ownId) (FromServer ownId server) (start messages) run)
    (hauthentic : EachStep (stepNoted ownId) (AuthenticStep server) (start messages) run)
    (hundisturbed : EachStep (stepNoted ownId) (Undisturbed ownId) (start messages) run)
    (hsettled : (after (stepNoted ownId) (start messages) run).1.Settled) :
    Right ownId server (after (stepNoted ownId) (start messages) run).1.messages
      (after (stepNoted ownId) (start messages) run).2 :=
  (((hfromServer.and hauthentic).and hundisturbed).invariant (I := Inv ownId server)
    (fun _ _ hs hi => hs.step hi.1.1 hi.1.2 hi.2) (inv_start hloaded hlisted hreadable)).right
    hsettled

namespace Sample

/-- A message in a conversation of Alice with Bob. -/
def pushed (id senderId : String) : MessageEnvelopeDto where
  id := id
  conversationId := "c1"
  senderId := senderId
  ciphertext := ""
  nonce := ""
  ephemeralPublicKey := ""
  recipientKeyId := "k1"
  sentAt := 2

/-- Who has written what. -/
def serverMessages : String → Original
  | "m1" => { senderId := "alice", plaintext := "Hello" }
  | "m2" => { senderId := "bob", plaintext := "Hi" }
  | "m3" => { senderId := "alice", plaintext := "From my phone" }
  | _ => { senderId := "bob", plaintext := "Anybody there?" }

/-- Bob's first message. -/
def first : MessageEnvelopeDto × Option String := (pushed "m0" "bob", some "Anybody there?")

/-- Alice writes, hears the echo, Bob reads it and answers; she writes from elsewhere, where this
client has the key, and what she writes next is not sent. -/
def talk : List Input :=
  [.send true "Hello" 1, .sent 0 "m1" 1, .messageNew (pushed "m1" "alice"),
   .messageRead "m1" "bob" 2, .messageNew (pushed "m2" "bob"), .decrypted 0 (some "Hi"),
   .messageNew (pushed "m3" "alice"), .decrypted 0 (some "From my phone"),
   .send true "Bye" 3, .sendFailed 0]

/-- Two messages are pushed at once. -/
def pushedAtOnce : List Input :=
  [.messageNew (pushed "m2" "bob"), .messageNew (pushed "m4" "bob"), .decrypted 0 (some "Hi"),
   .decrypted 0 (some "Anybody there?")]

end Sample

/-- A conversation with a page loaded, a message sent and one pushed is right. -/
theorem conversation_right_talk :
    Right "alice" Sample.serverMessages
      (after (stepNoted "alice") (start [decryptToView "alice" Sample.first.1 Sample.first.2])
        Sample.talk).1.messages
      (after (stepNoted "alice") (start [decryptToView "alice" Sample.first.1 Sample.first.2])
        Sample.talk).2 := by
  have hm0 : ServerId "m0" := by decide +kernel
  have hm1 : ServerId "m1" := by decide +kernel
  have hm2 : ServerId "m2" := by decide +kernel
  have hm3 : ServerId "m3" := by decide +kernel
  have hfirst {P : MessageEnvelopeDto × Option String → Prop} (h : P Sample.first) :
      ∀ e ∈ [Sample.first], P e := fun e he => List.mem_singleton.mp he ▸ h
  have hloaded : FirstLoad "alice" [Sample.first]
      [decryptToView "alice" Sample.first.1 Sample.first.2] :=
    ⟨List.Perm.refl _, List.pairwise_singleton _ _⟩
  refine conversation_right "alice" Sample.serverMessages hloaded
    ⟨List.nodup_singleton _, hfirst hm0, hfirst rfl, hfirst ?_⟩ (hfirst nofun)
    ⟨trivial, ⟨hm1, ?_⟩, ⟨hm1, rfl⟩, hm1, ⟨hm2, rfl⟩, trivial, ⟨hm3, rfl⟩, trivial, trivial,
      trivial, trivial⟩
    ⟨trivial, trivial, trivial, trivial, trivial, ?_, trivial, ?_, trivial, trivial, trivial⟩
    ⟨?_, ⟨?_, ?_⟩, trivial, trivial, trivial, ?_, trivial, ?_, ?_, trivial, trivial⟩ ⟨rfl, rfl⟩
  · exact fun text htext => (Option.some.inj htext).symm
  · rintro p hp
    obtain rfl := Option.some.inj hp
    rfl
  · rintro d hd text htext
    obtain rfl := Option.some.inj hd
    exact (Option.some.inj htext).symm
  · rintro d hd text htext
    obtain rfl := Option.some.inj hd
    exact (Option.some.inj htext).symm
  · intro _
    change tmpId 1 ∉ ["m0"]
    decide +kernel
  · change "m1" ∉ ["m0", tmpId 1]
    decide +kernel
  · exact List.not_mem_nil
  · rintro d hd
    obtain rfl := Option.some.inj hd
    exact ⟨rfl, by decide +kernel, nofun⟩
  · rintro d hd
    obtain rfl := Option.some.inj hd
    exact ⟨rfl, by decide +kernel, nofun⟩
  · intro _
    change tmpId 3 ∉ ["m0", "m1", "m2", "m3"]
    decide +kernel

/-- The first one is lost. -/
theorem conversation_loses_first :
    EachStep (stepNoted "alice") (FromServer "alice" Sample.serverMessages) (start [])
        Sample.pushedAtOnce ∧
      EachStep (stepNoted "alice") (AuthenticStep Sample.serverMessages) (start [])
        Sample.pushedAtOnce ∧
      (after (stepNoted "alice") (start []) Sample.pushedAtOnce).1.Settled ∧
      ¬Right "alice" Sample.serverMessages
        (after (stepNoted "alice") (start []) Sample.pushedAtOnce).1.messages
        (after (stepNoted "alice") (start []) Sample.pushedAtOnce).2 := by
  have hm2 : ServerId "m2" := by decide +kernel
  have hm4 : ServerId "m4" := by decide +kernel
  refine ⟨⟨⟨hm2, rfl⟩, ⟨hm4, rfl⟩, trivial, trivial, trivial⟩, ⟨trivial, trivial, ?_, ?_, trivial⟩,
    ⟨rfl, rfl⟩, fun h => ?_⟩
  · rintro d hd text htext
    obtain rfl := Option.some.inj hd
    exact (Option.some.inj htext).symm
  · rintro d hd text htext
    obtain rfl := Option.some.inj hd
    exact (Option.some.inj htext).symm
  · have hlost :
        "m2" ∉ ids (after (stepNoted "alice") (start []) Sample.pushedAtOnce).1.messages := by
      decide +kernel
    exact hlost (h.known "m2" (by decide +kernel))

end Marketplace
