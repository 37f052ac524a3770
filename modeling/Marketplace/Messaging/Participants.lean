import Marketplace.Lib.Rely
import Marketplace.Messaging.Pairs

/-!
# Two-party messages

A message belongs to the two participants of its conversation: one of them has sent it, and the
other one has it marked as read, once. The service checks that a caller is a participant before
it stores a message or marks one as read, but lets every administrator pass. As long as no
administrator writes in a conversation of others, messages are two-party, and the unread counts
of the two participants add up.
-/

namespace Marketplace

open Lib Txn MessagingService

/-! ### What the conversations are for -/

/-- The messages of a database are two-party. -/
structure TwoParty (db : Db) : Prop where
  /-- The sender of a message is one of the two participants of its conversation. -/
  sender : ∀ id m, db.messages.get id = some m →
    ∃ c, db.conversations.get m.conversationId = some c ∧ m.senderId ∈ c.participants
  /-- The unread counts of the two participants add up. -/
  unread : ∀ id c, db.conversations.get id = some c →
    unread db id c.userAId + unread db id c.userBId = (db.unreadIn id).length

/-- The user is a participant of the conversation. -/
def Db.Participates (db : Db) (userId conversationId : Id) : Prop :=
  ∃ c, db.conversations.get conversationId = some c ∧ userId ∈ c.participants

/-- A commit marks a message as read only for the participant who has not sent it, and once. -/
def ReadByPeer (q : MessagingRequest) (s t : Db) : Prop :=
  ∀ id m m', s.messages.get id = some m → t.messages.get id = some m' →
    (m.readAt ≠ none → m'.readAt = m.readAt) ∧
    (m.readAt = none → m'.readAt ≠ none →
      s.Participates q.caller.id m.conversationId ∧ q.caller.id ≠ m.senderId)

/-- The request writes in the conversation: it stores a message, or marks an unread one as read. -/
def MessagingRequest.WritesIn (q : MessagingRequest) (db : Db) (conversationId : Id) : Prop :=
  (∃ body, q.op = .storeMessage conversationId body) ∨
    ∃ id m, q.op = .markMessageRead conversationId id ∧
      findMessage db conversationId id = some m ∧ m.readAt = none

section

variable {ι : Type} (calls : ι → MessagingRequest)

/-- No administrator commits a write in a conversation of others. -/
def AdminsObserve (s : Sys ι Db Key Err MessagingReply) (i : ι)
    (_ : Sys ι Db Key Err MessagingReply) :
    Prop :=
  s.AboutToCommit i → (calls i).caller.role = .admin → ∀ conversationId,
    (calls i).WritesIn s.db conversationId → s.db.Participates (calls i).caller.id conversationId

end

/-! ### The unread counts -/

/-- The messages that each of two users has not sent are all messages, if each message is from
one of the two. -/
theorem unread_add {db : Db} {id : Id} {c : Conversation} (hne : c.userAId ≠ c.userBId)
    (hsender : ∀ m ∈ db.unreadIn id, m.senderId ∈ c.participants) :
    unread db id c.userAId + unread db id c.userBId = (db.unreadIn id).length := by
  unfold MessagingService.unread
  have hother : ((db.unreadIn id).filter fun m => m.senderId ≠ c.userBId) =
      (db.unreadIn id).filter fun m => m.senderId = c.userAId := by
    refine List.filter_congr fun m hm => decide_eq_decide.mpr ?_
    have hm' : m.senderId = c.userAId ∨ m.senderId = c.userBId := by
      simpa [Conversation.participants] using hsender m hm
    rcases hm' with heq | heq
    · simp [heq, hne]
    · simp [heq, hne.symm]
  have hsplit : (db.unreadIn id).length = _ :=
    List.length_eq_length_filter_add fun m => decide (m.senderId = c.userAId)
  simp only [ne_eq, decide_not] at hother ⊢
  rw [hother]
  omega

/-! ### What the requests do to the messages -/

/-- A conversation is protected by its lock, and so is a message. -/
def messageLocking : Locking Db Key where
  agree
    | .conversation id, s, t => t.conversations.get id = s.conversations.get id
    | .message id, s, t => t.messages.get id = s.messages.get id
    | _, _, _ => True
  refl key s := by cases key <;> trivial
  trans {key s t v} hst htv := by
    cases key with
    | conversation id => exact Eq.trans htv hst
    | message id => exact Eq.trans htv hst
    | _ => trivial

/-- The CHECK on conversations. -/
def Db.OrderedConversations (db : Db) : Prop :=
  ∀ id c, db.conversations.get id = some c → c.userAId < c.userBId

/-- Conversations stay, with their participants. -/
def ConversationsStay (s t : Db) : Prop :=
  ∀ id c, s.conversations.get id = some c →
    ∃ c', t.conversations.get id = some c' ∧ c'.participants = c.participants

/-- The request passes the access check for the conversation. -/
def MessagingRequest.MayAccess (q : MessagingRequest) (db : Db) (conversationId : Id) : Prop :=
  ∃ c, db.conversations.get conversationId = some c ∧
    (q.caller.role = .admin ∨ q.caller.id ∈ c.participants)

/-- Where a message comes from that is there after a commit. -/
inductive MessageOrigin (q : MessagingRequest) (s : Db) (id : Id) (m' : Message) : Prop
  /-- It was there as it is. -/
  | same : s.messages.get id = some m' → MessageOrigin q s id m'
  /-- It was there, unread, and is marked as read now. -/
  | read {m : Message} : s.messages.get id = some m → m.readAt = none →
      m'.senderId = m.senderId → m'.conversationId = m.conversationId →
      q.WritesIn s m.conversationId → q.caller.id ≠ m.senderId →
      q.MayAccess s m.conversationId → MessageOrigin q s id m'
  /-- It is stored now. -/
  | stored : s.messages.get id = none → q.WritesIn s m'.conversationId →
      m'.senderId = q.caller.id → q.MayAccess s m'.conversationId → MessageOrigin q s id m'

/-- What a commit does to the messages. -/
structure MessageEffect (q : MessagingRequest) (s t : Db) : Prop where
  conversations : ConversationsStay s t
  messages : ∀ id m', t.messages.get id = some m' → MessageOrigin q s id m'

/-- A state's conversations stay in it. -/
theorem ConversationsStay.refl (s : Db) : ConversationsStay s s := fun _ c hc => ⟨c, hc, rfl⟩

/-- Conversations that stay twice stay. -/
theorem ConversationsStay.trans {s t v : Db} (hst : ConversationsStay s t)
    (htv : ConversationsStay t v) : ConversationsStay s v := by
  intro id c hc
  obtain ⟨c', hc', hp⟩ := hst id c hc
  obtain ⟨c'', hc'', hp'⟩ := htv id c' hc'
  exact ⟨c'', hc'', hp'.trans hp⟩

/-- A participant stays one. -/
theorem ConversationsStay.participates {s t : Db} (h : ConversationsStay s t) {u id : Id}
    (hu : s.Participates u id) : t.Participates u id := by
  obtain ⟨c, hc, hmem⟩ := hu
  obtain ⟨c', hc', hp⟩ := h id c hc
  exact ⟨c', hc', by rw [hp]; exact hmem⟩

/-! ### Requests that write in no conversation -/

/-- The writes of these requests. -/
inductive ChatWrite : Key → (Db → Db) → Prop
  | addConversation (c : Conversation) : c.userAId < c.userBId →
      ChatWrite (.conversation c.id) fun db => db.addConversation c
  | removeMessage (id : Id) : ChatWrite (.message id) fun db => db.removeChatMessage id
  | setSettings (ps : PlatformSettings) : ChatWrite .platformSettings fun db => db.setSettings ps

/-- Messages may go, and nothing else happens to them. -/
structure MessagesOnlyGo (s t : Db) : Prop where
  conversations : ConversationsStay s t
  messages : ∀ id m, t.messages.get id = some m → s.messages.get id = some m

section Quiet

variable {env : Env} {caller : User}

/-- A new conversation leaves the old ones in place. -/
theorem conversationsStay_add (s : Db) (c : Conversation) :
    ConversationsStay s (s.addConversation c) := by
  intro id c' hc'
  have hget := Table.get_insert_or s.conversations c id
  by_cases heq : id = c.id
  · rw [if_pos heq, hc', Option.some_or] at hget
    exact ⟨c', hget, rfl⟩
  · rw [if_neg heq, hc'] at hget
    exact ⟨c', hget, rfl⟩

/-- A new conversation in canonical order keeps them all in order. -/
theorem orderedConversations_add {s : Db} (hs : s.OrderedConversations) {c : Conversation}
    (hlt : c.userAId < c.userBId) : (s.addConversation c).OrderedConversations := by
  intro id c' hc'
  have hget : (s.addConversation c).conversations.get id = _ :=
    Table.get_insert_or s.conversations c id
  rw [hc'] at hget
  split at hget
  · cases hs' : s.conversations.get id with
    | none =>
      rw [hs', Option.none_or] at hget
      obtain rfl := Option.some.inj hget
      exact hlt
    | some c'' =>
      rw [hs', Option.some_or] at hget
      obtain rfl := Option.some.inj hget
      exact hs id c' hs'
  · exact hs id c' hget.symm

/-- What such a write keeps. -/
theorem ChatWrite.keeps {key : Key} {f : Db → Db} (h : ChatWrite key f) {s : Db}
    (hs : s.OrderedConversations) : (f s).OrderedConversations ∧ MessagesOnlyGo s (f s) := by
  cases h with
  | addConversation c hlt =>
    exact ⟨orderedConversations_add hs hlt, conversationsStay_add s c, fun _ _ hm => hm⟩
  | removeMessage id =>
    refine ⟨hs, ConversationsStay.refl s, fun id' m hm => ?_⟩
    have hget := Table.get_delete s.messages (fun m => m.id = id) id'
    rw [show (s.removeChatMessage id).messages = s.messages.delete _ from rfl, hget] at hm
    exact (Option.filter_eq_some_iff.mp hm).1
  | setSettings ps => exact ⟨hs, ConversationsStay.refl s, fun _ _ hm => hm⟩

/-- A chat write under one lock leaves the rows under the others alone. -/
theorem ChatWrite.frame {key : Key} {f : Db → Db} (h : ChatWrite key f) (s : Db) (key' : Key)
    (hne : key' ≠ key) : messageLocking.agree key' s (f s) := by
  cases h with
  | addConversation c _ =>
    cases key' with
    | conversation id => exact Table.get_insert_of_ne _ fun heq => hne (by rw [heq])
    | message id => rfl
    | _ => trivial
  | removeMessage id =>
    cases key' with
    | conversation id' => rfl
    | message id' =>
      have hget := Table.get_delete s.messages (fun m => m.id = id) id'
      refine hget.trans ?_
      cases hm : s.messages.get id' with
      | none => rfl
      | some m =>
        have hkey := Table.key_of_get hm
        have hid : m.id ≠ id := fun heq => hne (by rw [← hkey, heq])
        simp [hid]
    | _ => trivial
  | setSettings ps => cases key' <;> trivial

/-- Inserting a conversation is a chat write. -/
theorem chatWrites_insertConversation (c : Conversation) :
    (insertConversation c).Writes ChatWrite := by
  unfold insertConversation
  by_cases hlt : c.userAId < c.userBId
  · rw [raiseIf_of_not (by simpa using hlt)]
    refine writes_reserve_bind fun held₁ hkey =>
      (writes_reserve _ _ _ held₁).bind fun _ held₂ hsub₂ => fun s => ?_
    refine (Writes.raiseIf _ _ held₂).bind fun _ held₃ hsub₃ => ?_
    refine (Writes.raiseIf _ _ held₃).bind fun _ held₄ hsub₄ => ?_
    exact ⟨⟨.conversation c.id, hsub₄ (hsub₃ (hsub₂ hkey)), .addConversation c hlt⟩, trivial⟩
  · rw [raiseIf_of (by simpa using hlt)]
    exact .raise _

/-- Opening a conversation makes chat writes only. -/
theorem chatWrites_createConversation (peerUserId : Id) :
    (createConversation env caller peerUserId).Writes ChatWrite := by
  have hcheck : (canConverse caller peerUserId).Writes ChatWrite := by
    unfold canConverse
    exact .ite (.pure _) (.ite (.pure _) (.bind .read fun _ => .pure _))
  refine .bind hcheck fun _ => .bind (.raiseIf _ _) fun _ => .bind .read fun db => ?_
  refine .bind (writes_scalarOneOrNone _) fun existing => ?_
  cases existing with
  | some conv => exact .pure _
  | none => exact .bind (chatWrites_insertConversation _) fun _ => .pure _

/-- Reading the settings makes chat writes only. -/
theorem chatWrites_getSettings : (getSettings env).Writes ChatWrite := by
  refine .bind .read fun db => ?_
  split
  · exact .pure _
  · exact .bind (.updateRow (.setSettings _)) fun _ => .pure _

/-- Deleting messages makes chat writes only. -/
theorem chatWrites_deleteChatMessages (ms : List Message) :
    (deleteChatMessages ms).Writes ChatWrite := by
  induction ms with
  | nil => exact .pure 0
  | cons m ms ih =>
    intro held s
    refine ⟨⟨.message m.id, List.mem_cons_self, .removeMessage m.id⟩, ?_⟩
    exact (ih _).bind fun _ _ _ => trivial

/-- Loading a conversation makes chat writes only. -/
theorem chatWrites_loadConversationForCaller (conversationId : Id) :
    (loadConversationForCaller caller conversationId).Writes ChatWrite := by
  refine .bind .read fun db => .bind (.getOrRaise _ _) fun conv => .bind ?_ fun _ => .pure _
  exact .ite (.pure _) (.raiseIf _ _)

/-- The request neither stores a message nor marks one as read. -/
def MessagingOp.quiet : MessagingOp → Bool
  | .storeMessage .. => false
  | .markMessageRead .. => false
  | _ => true

/-- The requests that neither send nor mark make chat writes only. -/
theorem chatWrites_exec {q : MessagingRequest} (hop : q.op.quiet = true) :
    q.exec.Writes ChatWrite := by
  obtain ⟨caller, op, env⟩ := q
  cases op with
  | createConversation peerUserId =>
    exact .bind (chatWrites_createConversation peerUserId) fun _ => .pure _
  | listConversationsForCaller limit =>
    exact .bind (.bind .read fun _ => .pure _) fun _ => .pure _
  | getConversation conversationId =>
    exact .bind (chatWrites_loadConversationForCaller conversationId) fun _ => .pure _
  | unreadCount conversationId => exact .bind (.bind .read fun _ => .pure _) fun _ => .pure _
  | listMessages conversationId before limit =>
    refine .bind (.bind (chatWrites_loadConversationForCaller conversationId) fun _ => ?_)
      fun _ => .pure _
    exact .bind .read fun _ => .pure _
  | getMessageRetentionDays =>
    exact .bind (.bind chatWrites_getSettings fun _ => .pure _) fun _ => .pure _
  | updateMessageRetentionDays days =>
    refine .bind (.bind (.raiseIf _ _) fun _ => .bind chatWrites_getSettings fun ps => ?_)
      fun _ => .pure _
    exact .bind (.updateRow (.setSettings _)) fun _ => .pure _
  | purgeOldMessages =>
    refine .bind (.bind chatWrites_getSettings fun ps => .bind .read fun db => ?_) fun _ => .pure _
    exact chatWrites_deleteChatMessages _
  | storeMessage conversationId body => cases hop
  | markMessageRead conversationId messageId => cases hop

/-- Such a request brings no message and leaves those that stay as they are. -/
theorem exec_quiet {q : MessagingRequest} (hop : q.op.quiet = true) :
    q.exec.Safe messageLocking Db.OrderedConversations fun _ s t => MessageEffect q s t := by
  have hsafe := (chatWrites_exec hop).safe (L := messageLocking) (I := Db.OrderedConversations)
    (R := MessagesOnlyGo) (fun s => ⟨ConversationsStay.refl s, fun _ _ h => h⟩)
    (fun s t v hst htv => ⟨hst.conversations.trans htv.conversations,
      fun id m hm => hst.messages id m (htv.messages id m hm)⟩)
    (fun _ _ hf _ hs => hf.keeps hs) fun _ _ hf s key' hne => hf.frame s key' hne
  refine wp_mono (fun facts w r hr s hI hknown => ?_) hsafe
  obtain ⟨hI', hgo, hframe⟩ := hr s hI hknown
  exact ⟨hI', ⟨hgo.conversations, fun id m hm => .same (hgo.messages id m hm)⟩, hframe⟩

end Quiet

/-! ### Requests that write in a conversation -/

section Programs

variable {env : Env} {caller : User} {R : Db → Db → Prop} {K : Db → Prop}
  {facts : List (Key × Db)} {w : Db → Db}

/-- A user that passes the access check is an administrator or a participant. -/
theorem wpr_ensureMayAccess {L : Locking Db Key} {I : Db → Prop} {conv : Conversation}
    {Post : (Db → Prop) → List (Key × Db) → (Db → Db) → Unit → Prop}
    (h : caller.role = .admin ∨ caller.id ∈ conv.participants → Post K facts w ()) :
    (ensureMayAccess caller conv).wpr L I R Post K facts w := by
  unfold ensureMayAccess
  split
  · next hadmin => exact h (.inl hadmin)
  · exact wpr_raiseIf.mpr fun hmem => h (.inr (not_not.mp hmem))

/-- A row that is found is locked, and read again under the lock. -/
theorem wpr_selectLocked {ρ : Type} {L : Locking Db Key} {I : Db → Prop} {key : Key}
    {get : Db → Option ρ} {Post : (Db → Prop) → List (Key × Db) → (Db → Db) → Option ρ → Prop}
    (hnone : ∀ K', Post K' facts w none)
    (hsome : ∀ s K', (∀ t, K' t → K t) → Post K' ((key, s) :: facts) w (get (w s))) :
    (selectForUpdate key get).wpr L I R Post K facts w := by
  simp only [selectForUpdate, bind_eq, wpr_bind, wpr_read]
  intro t _ _ _
  cases get (w t) with
  | none => exact hnone _
  | some r => exact fun s _ _ _ => hsome s _ fun t ht => ht.1.1

/-- The database after a message has been stored. -/
theorem storedEffect {q : MessagingRequest} {s : Db} {conv : Conversation} {m : Message}
    (hs : s.OrderedConversations) (hconv : s.conversations.get conv.id = some conv)
    (hnew : s.messages.get m.id = none) (hin : m.conversationId = conv.id)
    (hsender : m.senderId = q.caller.id) (hop : ∃ body, q.op = .storeMessage conv.id body)
    (haccess : q.caller.role = .admin ∨ q.caller.id ∈ conv.participants) (sentAt : Time) :
    ((s.modifyConversation conv.id
        (Conversation.bump sentAt)).addChatMessage m).OrderedConversations ∧
      MessageEffect q s
        ((s.modifyConversation conv.id (Conversation.bump sentAt)).addChatMessage m) := by
  have hget : ∀ id, (s.modifyConversation conv.id (Conversation.bump sentAt)).conversations.get id =
      if id = conv.id then (s.conversations.get id).map (Conversation.bump sentAt)
      else s.conversations.get id := Table.get_modify _ _ (Conversation.bump_id sentAt)
  refine ⟨fun id c hc => ?_, fun id c hc => ?_, fun id m' hm' => ?_⟩
  · have hc' := (hget id).symm.trans hc
    split at hc'
    · obtain ⟨c₀, hc₀, rfl⟩ := Option.map_eq_some_iff.mp hc'
      exact hs id c₀ hc₀
    · exact hs id c hc'
  · by_cases heq : id = conv.id
    · refine ⟨c.bump sentAt, (hget id).trans ?_, rfl⟩
      rw [if_pos heq, hc, Option.map_some]
    · refine ⟨c, (hget id).trans ?_, rfl⟩
      rw [if_neg heq, hc]
  · have hmessages : ((s.modifyConversation conv.id (Conversation.bump sentAt)).addChatMessage
        m).messages.get id = if id = m.id then some m else s.messages.get id :=
      Table.get_insert hnew id
    rw [hmessages] at hm'
    split at hm'
    · next heq =>
      obtain rfl := Option.some.inj hm'
      refine .stored (by rw [heq, hnew]) ?_ hsender ⟨conv, by rw [hin, hconv], haccess⟩
      rw [hin]
      exact .inl hop
    · exact .same hm'

/-- `store_message`. -/
theorem storeMessage_relies (conversationId : Id) (body : Sealed) :
    (storeMessage env caller conversationId body).wpr messageLocking Db.OrderedConversations R
      (fun K facts w r => RelyOk messageLocking Db.OrderedConversations
        (fun _ : MessagingReply => MessageEffect ⟨caller, .storeMessage conversationId body, env⟩)
        K facts w (.message r))
      (fun _ => True) [] id := by
  simp only [storeMessage, lockConversationForCaller, bind_eq, wpr_bind]
  refine wpr_selectLocked (fun K' => by simp) fun s₁ K₁ _ => ?_
  simp only [wpr_getOrRaise, id_eq, pure_eq, wpr_ret]
  intro conv hconv
  obtain rfl := Table.key_of_get hconv
  refine wpr_ensureMayAccess fun haccess => ?_
  simp only [updateConversation, insertChatMessage, insertRow, bind_eq, wpr_bind, wpr_updateRow,
    wpr_read, wpr_raiseIf, wpr_acquire, wpr_modify]
  intro s₂ _ _ _ s₃ _ _ _ _ s₄ _ _ _ hfree s hI _ hknown
  have hconv' : s.conversations.get conv.id = some conv :=
    (hknown (.conversation conv.id, s₁) (by simp)).trans hconv
  have hnew : s.messages.get (env.uuid4 0) = none := by
    have hs₄ : s₄.messages.get (env.uuid4 0) = none := by
      simpa [newMessage, Db.modifyConversation] using hfree
    exact (hknown (.message (env.uuid4 0), s₄) (by simp [newMessage])).trans hs₄
  obtain ⟨hI', heffect⟩ := storedEffect (q := ⟨caller, .storeMessage conv.id body, env⟩)
    (m := newMessage env caller.id conv.id body) hI hconv' hnew rfl rfl ⟨body, rfl⟩ haccess
    (env.now 0)
  refine ⟨hI', heffect, fun key hkey => ?_⟩
  cases key with
  | conversation id =>
    refine Table.get_modify_of_ne _ ?_ _
    rintro rfl
    exact hkey (.conversation conv.id, s₁) (by simp) rfl
  | message id =>
    refine Table.get_insert_of_ne _ ?_
    rintro rfl
    exact hkey (.message (env.uuid4 0), s₄) (by simp [newMessage]) rfl
  | _ => trivial

/-- The database after a message has been marked as read. -/
theorem readEffect {q : MessagingRequest} {s : Db} {m : Message} (now : Time)
    (hs : s.OrderedConversations) (hm : findMessage s m.conversationId m.id = some m)
    (hread : m.readAt = none) (hop : q.op = .markMessageRead m.conversationId m.id)
    (hpeer : q.caller.id ≠ m.senderId) (haccess : q.MayAccess s m.conversationId) :
    (s.modifyChatMessage m.id (Message.markRead now)).OrderedConversations ∧
      MessageEffect q s (s.modifyChatMessage m.id (Message.markRead now)) := by
  refine ⟨hs, ConversationsStay.refl s, fun id m' hm' => ?_⟩
  have hget : (s.modifyChatMessage m.id (Message.markRead now)).messages.get id =
      if id = m.id then (s.messages.get id).map (Message.markRead now) else s.messages.get id :=
    Table.get_modify _ _ (Message.markRead_id now) id
  rw [hget] at hm'
  split at hm'
  · next heq =>
    subst heq
    have hm'' : s.messages.get m.id = some m := (Option.filter_eq_some_iff.mp hm).1
    rw [hm'', Option.map_some] at hm'
    obtain rfl := Option.some.inj hm'
    exact .read hm'' hread rfl rfl (.inr ⟨m.id, m, hop, hm, hread⟩) hpeer haccess
  · exact .same hm'

/-- `mark_message_read`. -/
theorem markMessageRead_relies (conversationId messageId : Id) :
    (markMessageRead env caller conversationId messageId).wpr messageLocking
      Db.OrderedConversations ConversationsStay
      (fun K facts w r => RelyOk messageLocking Db.OrderedConversations
        (fun _ : MessagingReply =>
          MessageEffect ⟨caller, .markMessageRead conversationId messageId, env⟩)
        K facts w (.message r))
      (fun _ => True) [] id := by
  simp only [markMessageRead, loadConversationForCaller, bind_eq, wpr_bind, wpr_read,
    wpr_getOrRaise, id_eq]
  intro s₀ _ _ _ conv hconv
  refine wpr_ensureMayAccess fun haccess => ?_
  simp only [pure_eq, wpr_ret]
  refine wpr_selectLocked (fun K' => by simp) fun s₁ K₁ hK₁ => ?_
  simp only [wpr_raiseIf, id_eq]
  intro m hm hsender
  have hmessage := (Option.filter_eq_some_iff.mp hm)
  obtain rfl : m.id = messageId := Table.key_of_get hmessage.1
  obtain ⟨rfl, -⟩ : m.conversationId = conversationId ∧ m.deletedAt = none :=
    of_decide_eq_true hmessage.2
  unfold setRead
  split
  · next hread =>
    simp only [updateChatMessage, bind_eq, wpr_bind, wpr_updateRow, pure_eq, wpr_ret]
    intro s₂ _ _ _ s hI hK hknown
    have hsame : s.messages.get m.id = s₁.messages.get m.id :=
      hknown (.message m.id, s₁) (by simp)
    have hfind : findMessage s m.conversationId m.id = some m := by
      rw [← hm, findMessage, findMessage, hsame]
    have hstays : ConversationsStay s₀ s := (hK₁ s hK.1).2
    obtain ⟨conv', hconv', hparticipants⟩ := hstays _ conv hconv
    obtain ⟨hI', heffect⟩ := readEffect (q := ⟨caller, .markMessageRead m.conversationId m.id, env⟩)
      (env.now 0) hI hfind hread rfl (Ne.symm hsender)
      ⟨conv', hconv', by rw [hparticipants]; exact haccess⟩
    refine ⟨hI', heffect, fun key hkey => ?_⟩
    cases key with
    | message id =>
      refine Table.get_modify_of_ne _ ?_ _
      rintro rfl
      exact hkey (.message m.id, s₁) (by simp) rfl
    | conversation id => rfl
    | _ => trivial
  · intro s hI _ _
    exact ⟨hI, ⟨ConversationsStay.refl s, fun _ _ h => .same h⟩,
      fun key _ => messageLocking.refl key s⟩

/-- A request among the others, which leave the participants of conversations as they are. -/
theorem MessagingRequest.relies (q : MessagingRequest) :
    q.exec.wprFrom messageLocking Db.OrderedConversations ConversationsStay (fun _ => True)
      (RelyOk messageLocking Db.OrderedConversations fun _ => MessageEffect q) := by
  refine wprFrom_of_wpr (fun _ _ _ _ _ hK => RelyOk.of_imp hK) ?_
  cases hop : q.op.quiet with
  | true =>
    exact wpr_mono (fun K facts w r hr s hI _ hknown => hr s hI hknown) (wpr_of_wp (exec_quiet hop))
  | false =>
    obtain ⟨caller, op, env⟩ := q
    cases op with
    | storeMessage conversationId body =>
        exact wpr_bind.mpr (storeMessage_relies conversationId body)
    | markMessageRead conversationId messageId =>
      exact wpr_bind.mpr (markMessageRead_relies conversationId messageId)
    | _ => cases hop

end Programs

/-! ### In every interleaving -/

section Interleaving

variable {ι : Type} {calls : ι → MessagingRequest} {db : Db}

/-- The sender of each message is a participant of its conversation. -/
def Db.SentByParticipants (db : Db) : Prop :=
  ∀ id m, db.messages.get id = some m → db.Participates m.senderId m.conversationId

/-- Who passes the access check and is no observer is a participant. -/
theorem MessagingRequest.MayAccess.participates {q : MessagingRequest} {s : Db} {id : Id}
    (h : q.MayAccess s id) (hadmin : q.caller.role = .admin → s.Participates q.caller.id id) :
    s.Participates q.caller.id id := by
  obtain ⟨c, hc, hrole | hmem⟩ := h
  · exact hadmin hrole
  · exact ⟨c, hc, hmem⟩

/-- A commit of no observer keeps messages two-party. -/
theorem MessageEffect.sentByParticipants {q : MessagingRequest} {s t : Db}
    (h : MessageEffect q s t) (hadmin : q.caller.role = .admin → ∀ id, q.WritesIn s id →
      s.Participates q.caller.id id) (hs : s.SentByParticipants) : t.SentByParticipants := by
  intro id m' hm'
  refine h.conversations.participates ?_
  cases h.messages id m' hm' with
  | same hm => exact hs id m' hm
  | read hm _ hsender hin _ _ _ =>
    rw [hsender, hin]
    exact hs id _ hm
  | stored _ hwrites hsender haccess =>
    rw [hsender]
    exact haccess.participates fun hrole => hadmin hrole _ hwrites

/-- Such a commit marks messages as read for the peer of their sender. -/
theorem MessageEffect.readByPeer {q : MessagingRequest} {s t : Db} (h : MessageEffect q s t)
    (hadmin : q.caller.role = .admin → ∀ id, q.WritesIn s id → s.Participates q.caller.id id) :
    ReadByPeer q s t := by
  intro id m m' hm hm'
  cases h.messages id m' hm' with
  | same hsame =>
    obtain rfl := Option.some.inj (hm.symm.trans hsame)
    exact ⟨fun _ => rfl, fun hnone hne => absurd hnone hne⟩
  | @read m₀ hm₀ hunread _ _ hwrites hpeer haccess =>
    obtain rfl := Option.some.inj (hm.symm.trans hm₀)
    refine ⟨fun hne => absurd hunread hne, fun _ _ => ⟨?_, hpeer⟩⟩
    exact haccess.participates fun hrole => hadmin hrole _ hwrites
  | stored hnone =>
    rw [hm] at hnone
    cases hnone

/-- If the senders are participants, the messages are two-party. -/
theorem Db.SentByParticipants.twoParty (hs : db.SentByParticipants)
    (hordered : db.OrderedConversations) : TwoParty db where
  sender := hs
  unread id c hc := by
    refine unread_add (Nat.ne_of_lt (hordered id c hc)) fun m hm => ?_
    obtain ⟨hmem, hin⟩ := List.mem_filter.mp hm
    obtain ⟨rfl, -⟩ : m.conversationId = id ∧ m.readAt = none ∧ m.deletedAt = none :=
      of_decide_eq_true hin
    obtain ⟨c', hc', hparticipant⟩ := hs m.id m (Table.mem_rows_iff.mp hmem)
    obtain rfl := Option.some.inj (hc.symm.trans hc')
    exact hparticipant

/-- What the requests rely on, in every interleaving. -/
theorem messaging_holds [DecidableEq ι] (hordered : db.OrderedConversations)
    {s : Sys ι Db Key Err MessagingReply}
    (hs : Sys.StepsIf (AdminsObserve calls) (Sys.init db fun i => (calls i).exec) s) :
    Sys.Holds messageLocking Db.OrderedConversations (fun i => Sys.relies messageLocking
      Db.OrderedConversations (calls i).exec ConversationsStay
        fun _ => MessageEffect (calls i)) s := by
  refine hs.holds_relies (S := fun _ _ => True) (fun _ => ConversationsStay.refl)
    (fun _ _ _ _ => ConversationsStay.trans) (fun i => (calls i).relies) hordered ?_
  intro i s t hst _ _ hcommit
  refine ⟨fun _ => trivial, fun j _ _ => ?_⟩
  cases hst with
  | commit hi => exact (hcommit _ _ hi).conversations
  | _ => exact ConversationsStay.refl _

/-- What a step does to the messages, whatever it is. -/
theorem messageEffect_of_step [DecidableEq ι] (hordered : db.OrderedConversations)
    {s t : Sys ι Db Key Err MessagingReply} {i : ι}
    (hs : Sys.StepsIf (AdminsObserve calls) (Sys.init db fun i => (calls i).exec) s)
    (hst : Sys.Step i s t) :
    t.db = s.db ∨ s.AboutToCommit i ∧ MessageEffect (calls i) s.db t.db := by
  cases hst with
  | @commit w r hi =>
    have hcommit := (messaging_holds hordered hs).relies_commit (fun i => (calls i).relies) hi
    exact .inr ⟨⟨w, r, hi⟩, hcommit.2.1⟩
  | _ => exact .inl rfl

end Interleaving

/-- **Two-party messages.** In every run in which no administrator writes in a conversation of
others, each message is sent by a participant of its conversation, the unread counts of the two
participants add up, and a message is marked as read once, for the participant who has not sent
it. -/
theorem two_party_messages {ι : Type} [DecidableEq ι] (calls : ι → MessagingRequest) {db : Db}
    (hordered : db.OrderedConversations) (hdb : db.SentByParticipants)
    {s : Sys ι Db Key Err MessagingReply}
    (hs : Sys.StepsIf (AdminsObserve calls) (Sys.init db fun i => (calls i).exec) s) :
    TwoParty s.db ∧ ∀ i t, Sys.Step i s t → AdminsObserve calls s i t →
      ReadByPeer (calls i) s.db t.db := by
  have hsent : s.db.SentByParticipants := by
    induction hs with
    | refl => exact hdb
    | tail i hs hst hC ih =>
      rcases messageEffect_of_step hordered hs hst with heq | ⟨hcommits, heffect⟩
      · rw [heq]
        exact ih
      · exact heffect.sentByParticipants (hC hcommits) ih
  refine ⟨hsent.twoParty (messaging_holds hordered hs).db, fun i t hst hC => ?_⟩
  rcases messageEffect_of_step hordered hs hst with heq | ⟨hcommits, heffect⟩
  · intro id m m' hm hm'
    rw [heq, hm] at hm'
    obtain rfl := Option.some.inj hm'
    exact ⟨fun _ => rfl, fun hnone hne => absurd hnone hne⟩
  · exact heffect.readByPeer (hC hcommits)

namespace Sample

def support : User := { id := 3, role := .admin }

/-- The two users have a conversation, in which the seller has written. -/
def written : Db :=
  { introduced with
    conversations := (∅ : Table Conversation Conversation.id).insert
      { id := 20, userAId := 1, userBId := 2, createdAt := 0 }
    messages := (∅ : Table Message Message.id).insert
      { id := 30, conversationId := 20, senderId := 2, ciphertext := [], nonce := [],
        ephemeralPublicKey := [], sentAt := 0 } }

/-- The customer reads the message; an administrator reads it too, and writes another one. -/
def messagingCalls : Fin 3 → MessagingRequest
  | 0 => ⟨buyer, .markMessageRead 20 30,
    { now := fun _ => 10, transactionNow := 10, uuid4 := fun _ => 40, randbelow := 0 }⟩
  | 1 => ⟨support, .markMessageRead 20 30,
    { now := fun _ => 11, transactionNow := 11, uuid4 := fun _ => 41, randbelow := 0 }⟩
  | 2 => ⟨support, .storeMessage 20 { ciphertext := [], nonce := [], ephemeralPublicKey := [] },
    { now := fun _ => 12, transactionNow := 12, uuid4 := fun _ => 42, randbelow := 0 }⟩

/-- The transactions of these calls. -/
def messaging (i : Fin 3) : Tx MessagingReply := (messagingCalls i).exec

end Sample

namespace Sample

/-- The conversations of the sample database are in canonical order. -/
theorem written_ordered : written.OrderedConversations := by
  intro id c hc
  have hall : ∀ c ∈ written.conversations.rows, c.userAId < c.userBId := by decide +kernel
  exact hall c (Table.get_eq_some_iff.mp hc).1

/-- The messages of the sample database were sent by participants. -/
theorem written_sentByParticipants : written.SentByParticipants := by
  intro id m hm
  have hall : ∀ m ∈ written.messages.rows, ∃ c ∈ written.conversations.get m.conversationId,
      m.senderId ∈ c.participants := by decide +kernel
  exact hall m (Table.get_eq_some_iff.mp hm).1

end Sample

/-- The customer marks the message of the seller as read. -/
theorem two_party_messages_read :
    Sample.written.OrderedConversations ∧ Sample.written.SentByParticipants ∧
    ∃ s, Sys.StepsIf (AdminsObserve Sample.messagingCalls)
        (Sys.init Sample.written Sample.messaging) s ∧ s.log.map Prod.fst = [0] ∧
      TwoParty s.db ∧ ∀ i t, Sys.Step i s t → AdminsObserve Sample.messagingCalls s i t →
        ReadByPeer (Sample.messagingCalls i) s.db t.db := by
  refine ⟨Sample.written_ordered, Sample.written_sentByParticipants, ?_⟩
  obtain ⟨r, hrun⟩ := run_of_session (p := Sample.messaging 0) (s := Sample.written)
    (by decide +kernel)
  obtain ⟨s, hs⟩ := Sys.runsTo_of_run (s := Sys.init Sample.written Sample.messaging) (i := 0) rfl
    (fun _ => .inl rfl) hrun
  have hread : Sys.StepsIf (AdminsObserve Sample.messagingCalls)
      (Sys.init Sample.written Sample.messaging) s := by
    refine (Sys.StepsIf.refl _).alone (fun v _ _ _ _ hrole => ?_) hs.alone
    cases hrole
  exact ⟨s, hread, by rw [hs.log]; rfl, two_party_messages Sample.messagingCalls
    Sample.written_ordered Sample.written_sentByParticipants hread⟩

/-- An administrator who is no participant stores a message, or marks one as read. -/
theorem observer_writes :
    (∃ t, Sys.Steps (Sys.init Sample.written Sample.messaging) t ∧ ¬TwoParty t.db) ∧
    ∃ s t, Sys.Steps (Sys.init Sample.written Sample.messaging) s ∧ Sys.Step 1 s t ∧
      ¬ReadByPeer (Sample.messagingCalls 1) s.db t.db := by
  constructor
  · obtain ⟨r, hrun⟩ := run_of_session (p := Sample.messaging 2) (s := Sample.written)
      (by decide +kernel)
    obtain ⟨t, ht⟩ := Sys.runsTo_of_run (s := Sys.init Sample.written Sample.messaging) (i := 2) rfl
      (fun _ => .inl rfl) hrun
    refine ⟨t, ht.steps, fun h => ?_⟩
    have hstored : ∃ m ∈ t.db.messages.get 42,
        ¬∃ c ∈ t.db.conversations.get m.conversationId, m.senderId ∈ c.participants := by
      rw [ht.db]
      decide +kernel
    obtain ⟨m, hm, hnot⟩ := hstored
    exact hnot (h.sender 42 m hm)
  · obtain ⟨r, hrun⟩ := run_of_session (p := Sample.messaging 1) (s := Sample.written)
      (by decide +kernel)
    obtain ⟨s, hs⟩ := Sys.atCommit_of_run (s := Sys.init Sample.written Sample.messaging) (i := 1)
      rfl (fun _ => .inl rfl) hrun
    obtain ⟨t, hst, ht⟩ := hs.runsTo
    refine ⟨s, t, hs.steps, hst, fun h => ?_⟩
    have hbefore : ∃ m ∈ s.db.messages.get 30, m.readAt = none ∧
        ¬∃ c ∈ s.db.conversations.get m.conversationId,
          (Sample.messagingCalls 1).caller.id ∈ c.participants := by
      rw [hs.db]
      decide +kernel
    have hafter : ∃ m ∈ t.db.messages.get 30, m.readAt ≠ none := by
      rw [ht.db]
      decide +kernel
    obtain ⟨m, hm, hunread, hnot⟩ := hbefore
    obtain ⟨m', hm', hread⟩ := hafter
    exact hnot ((h 30 m m' hm hm').2 hunread hread).1

end Marketplace
