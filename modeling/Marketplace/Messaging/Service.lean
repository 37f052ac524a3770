import Marketplace.Order.Service
import Marketplace.Invite.Service

/-!
# The messaging service

`messaging_service.py`: conversations between two users, their messages, and the retention
of messages. A conversation is stored once, under its two users in order; a message is
stored under the lock on its conversation and marked as read under its own.
-/

namespace Marketplace

open Lib Txn Err

/-! ### What the service writes -/

namespace Conversation

/-- The two users of a conversation. -/
def participants (c : Conversation) : List Id := [c.userAId, c.userBId]

def bump (sentAt : Time) (c : Conversation) : Conversation :=
  { c with lastMessageAt := some sentAt }

/-- Bumping a conversation keeps its id. -/
@[simp] theorem bump_id (sentAt : Time) (c : Conversation) : (c.bump sentAt).id = c.id := rfl

/-- Bumping a conversation keeps its participants. -/
@[simp] theorem bump_participants (sentAt : Time) (c : Conversation) :
    (c.bump sentAt).participants = c.participants := rfl

end Conversation

/-- `msg.read_at = _now()`. -/
def Message.markRead (now : Time) (m : Message) : Message := { m with readAt := some now }

/-- Marking a message read keeps its id. -/
@[simp] theorem Message.markRead_id (now : Time) (m : Message) : (m.markRead now).id = m.id := rfl

namespace Db

def addConversation (db : Db) (c : Conversation) : Db :=
  { db with conversations := db.conversations.insert c }

def modifyConversation (db : Db) (id : Id) (f : Conversation → Conversation) : Db :=
  { db with conversations := db.conversations.modify id f }

def addChatMessage (db : Db) (m : Message) : Db := { db with messages := db.messages.insert m }

def modifyChatMessage (db : Db) (id : Id) (f : Message → Message) : Db :=
  { db with messages := db.messages.modify id f }

def removeChatMessage (db : Db) (id : Id) : Db :=
  { db with messages := db.messages.delete fun m => m.id = id }

/-- The conversations of a pair. -/
def conversationsOf (db : Db) (userAId userBId : Id) : List Conversation :=
  db.conversations.rows.filter fun c => c.userAId = userAId ∧ c.userBId = userBId

/-- The messages of a conversation that are neither read nor deleted. -/
def unreadIn (db : Db) (conversationId : Id) : List Message :=
  db.messages.rows.filter fun m =>
    m.conversationId = conversationId ∧ m.readAt = none ∧ m.deletedAt = none

end Db

/-! ### Statements -/

/-- `INSERT INTO conversations`, with its CHECK, its unique index and its foreign keys. -/
def insertConversation (c : Conversation) : Tx Unit := do
  raiseIf (¬c.userAId < c.userBId) (.integrity "ck_conversations_canonical_ordering")
  reserve (.conversation c.id) (fun db => (db.conversations.get c.id).isSome) "pk_conversations"
  reserve (.conversationPair c.userAId c.userBId)
    (fun db => db.conversationsOf c.userAId c.userBId ≠ []) "uq_conversations_user_pair"
  let db ← read
  raiseIf (db.users.get c.userAId = none) (.integrity "fk_conversations_user_a_id")
  raiseIf (db.users.get c.userBId = none) (.integrity "fk_conversations_user_b_id")
  modify fun db => db.addConversation c

def updateConversation (id : Id) (f : Conversation → Conversation) : Tx Unit :=
  updateRow (.conversation id) fun db => db.modifyConversation id f

/-- `INSERT INTO messages`, with the foreign key on the recipient's key. -/
def insertChatMessage (m : Message) : Tx Unit := do
  let db ← read
  raiseIf ((m.recipientKeyId.any fun key => (db.userPublicKeys.get key).isNone) = true)
    (.integrity "fk_messages_recipient_key_id")
  insertRow (.message m.id) (fun db => (db.messages.get m.id).isSome) "pk_messages"
    fun db => db.addChatMessage m

def updateChatMessage (id : Id) (f : Message → Message) : Tx Unit :=
  updateRow (.message id) fun db => db.modifyChatMessage id f

/-- `DELETE FROM messages WHERE …`, row by row over the messages the statement found, and the
number of those that were still there. -/
def deleteChatMessages : List Message → Tx ℕ
  | [] => pure 0
  | m :: ms => do
    let db ← acquire (.message m.id)
    modify fun db => db.removeChatMessage m.id
    let rest ← deleteChatMessages ms
    pure (if (db.messages.get m.id).isSome then rest + 1 else rest)

namespace MessagingService

/-! ### Eligibility -/

/-- `_canonical_pair`: the bytes of two UUIDs compare as the numbers do. -/
def canonicalPair (a b : Id) : Id × Id := if a < b then (a, b) else (b, a)

/-- `_can_converse` with a peer that is found. -/
def mayConverseWith (caller peer : User) : Bool :=
  if peer.role = .admin then true
  else if caller.role = .customer ∧ peer.role = .seller then caller.referringSellerId = some peer.id
  else if caller.role = .seller ∧ peer.role = .customer then peer.referringSellerId = some caller.id
  else false

/-- `_can_converse`. -/
def canConverse (caller : User) (peerId : Id) : Tx Bool :=
  if caller.id = peerId then pure false
  else if caller.role = .admin then pure true
  else do
    let db ← read
    pure (((db.users.get peerId).filter fun u => u.deletedAt = none ∧ u.isActive = true).any
      (mayConverseWith caller))

/-- The access check of `_load_conversation_for_caller`. -/
def ensureMayAccess (caller : User) (conv : Conversation) : Tx Unit :=
  if caller.role = .admin then pure ()
  else raiseIf (caller.id ∉ conv.participants) conversationNotFound

/-- `_load_conversation_for_caller`. -/
def loadConversationForCaller (caller : User) (conversationId : Id) : Tx Conversation := do
  let db ← read
  let conv ← getOrRaise (db.conversations.get conversationId) conversationNotFound
  ensureMayAccess caller conv
  pure conv

/-- `_load_conversation_for_caller` with `lock=True`. -/
def lockConversationForCaller (caller : User) (conversationId : Id) : Tx Conversation := do
  let found ← selectForUpdate (.conversation conversationId)
    fun db => db.conversations.get conversationId
  let conv ← getOrRaise found conversationNotFound
  ensureMayAccess caller conv
  pure conv

/-! ### Conversations -/

/-- The row of a new conversation. -/
def newConversation (env : Env) (pair : Id × Id) : Conversation :=
  { id := env.uuid4 0, userAId := pair.1, userBId := pair.2, createdAt := env.now 0 }

/-- The look-up of `create_conversation`, and its insertion when nothing is found. -/
def openConversation (env : Env) (pair : Id × Id) : Tx Conversation := do
  let db ← read
  let existing ← scalarOneOrNone (db.conversationsOf pair.1 pair.2)
  match existing with
  | some conv => pure conv
  | none => do
    insertConversation (newConversation env pair)
    pure (newConversation env pair)

/-- `create_conversation`. -/
def createConversation (env : Env) (caller : User) (peerUserId : Id) : Tx Conversation := do
  let allowed ← canConverse caller peerUserId
  raiseIf (allowed = false) conversationIneligible
  openConversation env (canonicalPair caller.id peerUserId)

/-- `list_conversations_for_caller`. -/
def listConversationsForCaller (caller : User) (limit : ℕ) : Tx (List Conversation) := do
  let db ← read
  pure (((db.conversations.rows.filter fun c => caller.id ∈ c.participants).mergeSort fun c d =>
    d.lastMessageAt.getD d.createdAt ≤ c.lastMessageAt.getD c.createdAt).take limit)

/-- `get_conversation`. -/
def getConversation (caller : User) (conversationId : Id) : Tx Conversation :=
  loadConversationForCaller caller conversationId

/-- The count of `unread_count`. -/
def unread (db : Db) (conversationId callerId : Id) : ℕ :=
  ((db.unreadIn conversationId).filter fun m => m.senderId ≠ callerId).length

/-- `unread_count`. -/
def unreadCount (conversationId callerId : Id) : Tx ℕ := do
  let db ← read
  pure (unread db conversationId callerId)

/-! ### Messages -/

/-- What a sender encrypts. -/
structure Sealed where
  ciphertext : Bytes
  nonce : Bytes
  ephemeralPublicKey : Bytes
  recipientKeyId : Option Id := none
deriving DecidableEq, Repr

/-- The row of a new message. -/
def newMessage (env : Env) (senderId conversationId : Id) (body : Sealed) : Message :=
  { id := env.uuid4 0, conversationId, senderId, ciphertext := body.ciphertext,
    nonce := body.nonce, ephemeralPublicKey := body.ephemeralPublicKey,
    recipientKeyId := body.recipientKeyId, sentAt := env.now 0 }

/-- `store_message`. -/
def storeMessage (env : Env) (caller : User) (conversationId : Id) (body : Sealed) :
    Tx Message := do
  let conv ← lockConversationForCaller caller conversationId
  updateConversation conv.id (Conversation.bump (env.now 0))
  insertChatMessage (newMessage env caller.id conv.id body)
  pure (newMessage env caller.id conv.id body)

/-- `list_messages`. -/
def listMessages (caller : User) (conversationId : Id) (before : Option Time) (limit : ℕ) :
    Tx (List Message) := do
  let _ ← loadConversationForCaller caller conversationId
  let db ← read
  pure (((db.messages.rows.filter fun m => m.conversationId = conversationId ∧
    m.deletedAt = none ∧ (before.all fun t => m.sentAt < t)).mergeSort
      fun m n => n.sentAt ≤ m.sentAt).take limit)

/-- The message of a conversation that `mark_message_read` locks. -/
def findMessage (db : Db) (conversationId messageId : Id) : Option Message :=
  (db.messages.get messageId).filter fun m =>
    m.conversationId = conversationId ∧ m.deletedAt = none

/-- The part of `mark_message_read` that changes the message. -/
def setRead (env : Env) (msg : Message) : Tx Message :=
  if msg.readAt = none then do
    updateChatMessage msg.id (Message.markRead (env.now 0))
    pure (msg.markRead (env.now 0))
  else pure msg

/-- `mark_message_read`. -/
def markMessageRead (env : Env) (caller : User) (conversationId messageId : Id) :
    Tx Message := do
  let _ ← loadConversationForCaller caller conversationId
  let found ← selectForUpdate (.message messageId)
    fun db => findMessage db conversationId messageId
  let msg ← getOrRaise found (notFoundError "Message not found.")
  raiseIf (msg.senderId = caller.id) (notFoundError "Message not found.")
  setRead env msg

/-! ### Retention -/

/-- `_get_settings`. -/
def getSettings (env : Env) : Tx PlatformSettings := OrderService.getRetentionSettings env

/-- `get_message_retention_days`. -/
def getMessageRetentionDays (env : Env) : Tx ℤ := do
  let ps ← getSettings env
  pure ps.messageRetentionDays

/-- `update_message_retention_days`. -/
def updateMessageRetentionDays (env : Env) (caller : User) (days : ℤ) : Tx ℤ := do
  raiseIf (days < 7) messageRetentionInvalid
  let ps ← getSettings env
  updateRow .platformSettings fun db => db.setSettings
    { ps with messageRetentionDays := days, updatedByUserId := some caller.id,
              updatedAt := env.now 0 }
  pure days

/-- `purge_old_messages`. -/
def purgeOldMessages (env : Env) : Tx ℕ := do
  let ps ← getSettings env
  let db ← read
  deleteChatMessages (db.messages.rows.filter fun m =>
    m.sentAt < env.now 0 - days ps.messageRetentionDays)

end MessagingService

/-! ### Requests -/

/-- An operation of the service. -/
inductive MessagingOp
  | createConversation (peerUserId : Id)
  | listConversationsForCaller (limit : ℕ)
  | getConversation (conversationId : Id)
  | unreadCount (conversationId : Id)
  | storeMessage (conversationId : Id) (body : MessagingService.Sealed)
  | listMessages (conversationId : Id) (before : Option Time) (limit : ℕ)
  | markMessageRead (conversationId messageId : Id)
  | getMessageRetentionDays
  | updateMessageRetentionDays (days : ℤ)
  | purgeOldMessages

/-- What an operation returns. -/
inductive MessagingReply
  | conversation (conv : Conversation)
  | conversations (rows : List Conversation)
  | message (msg : Message)
  | messages (rows : List Message)
  | count (n : ℕ)
  | retentionDays (days : ℤ)
  deriving DecidableEq

/-- A call of the service by an authenticated user. -/
structure MessagingRequest where
  caller : User
  op : MessagingOp
  env : Env

open MessagingService in
def MessagingRequest.exec (q : MessagingRequest) : Tx MessagingReply :=
  match q.op with
  | .createConversation peerUserId => do
    pure (.conversation (← createConversation q.env q.caller peerUserId))
  | .listConversationsForCaller limit => do
    pure (.conversations (← listConversationsForCaller q.caller limit))
  | .getConversation conversationId => do
    pure (.conversation (← getConversation q.caller conversationId))
  | .unreadCount conversationId => do
    pure (.count (← unreadCount conversationId q.caller.id))
  | .storeMessage conversationId body => do
    pure (.message (← storeMessage q.env q.caller conversationId body))
  | .listMessages conversationId before limit => do
    pure (.messages (← listMessages q.caller conversationId before limit))
  | .markMessageRead conversationId messageId => do
    pure (.message (← markMessageRead q.env q.caller conversationId messageId))
  | .getMessageRetentionDays => do
    pure (.retentionDays (← getMessageRetentionDays q.env))
  | .updateMessageRetentionDays days => do
    pure (.retentionDays (← updateMessageRetentionDays q.env q.caller days))
  | .purgeOldMessages => do
    pure (.count (← purgeOldMessages q.env))

end Marketplace
