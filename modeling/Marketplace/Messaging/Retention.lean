import Marketplace.Messaging.Participants

/-!
# How long messages are kept

The messages of all the conversations are a list to which the service appends. Only the purge
takes from it, and only what is older than the retention, which is never shorter than a week.
Whatever purges run at the same time and whatever is stored meanwhile, each message is counted by
one purge at most, and the counts account for every message that is gone.
-/

namespace Marketplace

open Lib Txn MessagingService

/-! ### The list of messages -/

/-- The message without the column that changes later. -/
def Message.asSent (m : Message) : Message := { m with readAt := none }

/-- The messages that are stored, as they were sent. -/
def Db.sent (db : Db) : List Message := db.messages.rows.map Message.asSent

/-- `ck_platform_settings_message_retention_min`. -/
def Db.KeepsAWeek (db : Db) : Prop :=
  ∀ ps, db.platformSettings = some ps → 7 ≤ ps.messageRetentionDays

namespace MessagingRequest

/-- The identifier and the time of the message that the request stores. -/
def draws (q : MessagingRequest) : Option (Id × Time) :=
  match q.op with
  | .storeMessage .. => some (q.env.uuid4 0, q.env.now 0)
  | _ => none

/-- The message that the request has stored. -/
def stored (q : MessagingRequest) (reply : MessagingReply) : List Message :=
  match q.op, reply with
  | .storeMessage .., .message m => [m.asSent]
  | _, _ => []

/-- The number of messages that the request reports as purged. -/
def purged (q : MessagingRequest) (reply : MessagingReply) : ℕ :=
  match q.op, reply with
  | .purgeOldMessages, .count n => n
  | _, _ => 0

/-- The request is a purge for which the message is too old. -/
def MayPurge (q : MessagingRequest) (m : Message) : Prop :=
  q.op = .purgeOldMessages ∧ m.sentAt < q.env.now 0 - days 7

/-- What a commit does to the list: something is appended to it, or a purge takes from it what is
too old, and says how much. -/
structure Kept (q : MessagingRequest) (reply : MessagingReply) (sent sent' : List Message) :
    Prop where
  sublist : sent'.Sublist (sent ++ q.stored reply)
  gone : ∀ m ∈ sent ++ q.stored reply, m ∉ sent' → q.MayPurge m
  count : sent'.length + q.purged reply = (sent ++ q.stored reply).length

end MessagingRequest

section Runs

variable {ι : Type} (db : Db) (calls : ι → MessagingRequest)

/-- When the message of an identifier was sent, of those in the database and those that the
requests store. -/
inductive SentAt (id : Id) (t : Time) : Prop
  | before {m : Message} (h : db.messages.get id = some m) (ht : m.sentAt = t) : SentAt id t
  | drawn {i : ι} (h : (calls i).draws = some (id, t)) : SentAt id t

/-- `uuid4` draws no identifier again. -/
structure DrawnAfresh : Prop where
  new : ∀ i id t, (calls i).draws = some (id, t) → db.messages.get id = none
  distinct : ∀ i j id t t', (calls i).draws = some (id, t) → (calls j).draws = some (id, t') → i = j

/-- The retention is long enough, and each message is from when its identifier was drawn. -/
structure Dated (s : Db) : Prop where
  week : s.KeepsAWeek
  dated : ∀ id m, s.messages.get id = some m → SentAt db calls id m.sentAt

end Runs

variable {ι : Type} {db : Db} {calls : ι → MessagingRequest}

/-- An identifier tells when its message was sent. -/
theorem SentAt.unique (h : DrawnAfresh db calls) {id : Id} {t t' : Time}
    (ht : SentAt db calls id t) (ht' : SentAt db calls id t') : t = t' := by
  cases ht with
  | before hm hsent =>
    cases ht' with
    | before hm' hsent' =>
      rw [hm] at hm'
      cases hm'
      rw [← hsent, ← hsent']
    | drawn hdraws => cases hm.symm.trans (h.new _ _ _ hdraws)
  | drawn hdraws =>
    cases ht' with
    | before hm _ => cases hm.symm.trans (h.new _ _ _ hdraws)
    | drawn hdraws' =>
      obtain rfl := h.distinct _ _ _ _ _ hdraws hdraws'
      rw [hdraws] at hdraws'
      cases hdraws'
      rfl

/-! ### Requests that keep the list -/

/-- A write that keeps every message as it was sent. -/
inductive KeepWrite : Key → (Db → Db) → Prop
  | addConversation (c) : KeepWrite (.conversation c.id) fun db => db.addConversation c
  | setSettings (ps) (h : 7 ≤ ps.messageRetentionDays) :
      KeepWrite .platformSettings fun db => db.setSettings ps
  | markRead (id now) : KeepWrite (.message id) fun db =>
      db.modifyChatMessage id (Message.markRead now)

section KeepWrites

variable {env : Env} {caller : User} {P : Key → (Db → Db) → Prop}

/-- Marking a message read changes nothing of what was sent. -/
theorem sent_markRead (s : Db) (id : Id) (now : Time) :
    (s.modifyChatMessage id (Message.markRead now)).sent = s.sent := by
  rw [Db.sent, Db.modifyChatMessage, Table.rows_modify _ _ (Message.markRead_id now), List.map_map]
  refine List.map_congr_left fun m _ => ?_
  rw [Function.comp_apply]
  split
  · rfl
  · rfl

/-- What such a write keeps. -/
theorem KeepWrite.keeps {key : Key} {f : Db → Db} (h : KeepWrite key f) {s : Db}
    (hs : Dated db calls s) : Dated db calls (f s) ∧ (f s).sent = s.sent := by
  cases h with
  | addConversation c => exact ⟨⟨hs.week, hs.dated⟩, rfl⟩
  | setSettings ps h =>
    refine ⟨⟨fun ps' hps => ?_, hs.dated⟩, rfl⟩
    obtain rfl : ps = ps' := Option.some.inj hps
    exact h
  | markRead id now =>
    refine ⟨⟨hs.week, fun id' m hm => ?_⟩, sent_markRead s id now⟩
    have hget : (s.modifyChatMessage id (Message.markRead now)).messages.get id' = _ :=
      Table.get_modify s.messages id (Message.markRead_id now) id'
    rw [hm] at hget
    split at hget
    · obtain ⟨m', hm', rfl⟩ := Option.map_eq_some_iff.mp hget.symm
      exact hs.dated id' m' hm'
    · exact hs.dated id' m hget.symm

/-- A write that keeps messages leaves the rows under the other locks alone. -/
theorem KeepWrite.frame {key : Key} {f : Db → Db} (h : KeepWrite key f) (s : Db) (key' : Key)
    (hne : key' ≠ key) : messageLocking.agree key' s (f s) := by
  cases h with
  | addConversation c =>
    cases key' with
    | conversation id => exact Table.get_insert_of_ne _ fun heq => hne (by rw [heq])
    | message id => rfl
    | _ => trivial
  | setSettings ps => cases key' <;> trivial
  | markRead id now =>
    cases key' with
    | conversation id' => rfl
    | message id' => exact Table.get_modify_of_ne _ (fun heq => hne (by rw [heq])) _
    | _ => trivial

/-- Loading a conversation writes nothing. -/
theorem reads_loadConversationForCaller (conversationId : Id) :
    (loadConversationForCaller caller conversationId).Writes P :=
  .bind .read fun _ => .bind (.getOrRaise _ _) fun _ =>
    .bind (.ite (.pure _) (.raiseIf _ _)) fun _ => .pure _

/-- Inserting a conversation writes the conversation. -/
theorem writes_insertConversation
    (hadd : ∀ c, P (.conversation c.id) fun db => db.addConversation c) (c : Conversation) :
    (insertConversation c).Writes P := by
  refine .bind (.raiseIf _ _) fun _ => ?_
  refine writes_reserve_bind fun held₁ hkey =>
    (writes_reserve _ _ _ held₁).bind fun _ held₂ hsub₂ => fun s => ?_
  refine (Writes.raiseIf _ _ held₂).bind fun _ held₃ hsub₃ => ?_
  refine (Writes.raiseIf _ _ held₃).bind fun _ held₄ hsub₄ => ?_
  exact ⟨⟨.conversation c.id, hsub₄ (hsub₃ (hsub₂ hkey)), hadd c⟩, trivial⟩

/-- Opening a conversation writes the conversation at most. -/
theorem writes_createConversation
    (hadd : ∀ c, P (.conversation c.id) fun db => db.addConversation c) (peerUserId : Id) :
    (createConversation env caller peerUserId).Writes P := by
  have hcheck : (canConverse caller peerUserId).Writes P :=
    .ite (.pure _) (.ite (.pure _) (.bind .read fun _ => .pure _))
  refine .bind hcheck fun _ => .bind (.raiseIf _ _) fun _ => .bind .read fun _ =>
    .bind (writes_scalarOneOrNone _) fun existing => ?_
  cases existing with
  | some conv => exact .pure _
  | none => exact .bind (writes_insertConversation hadd _) fun _ => .pure _

/-- Reading the settings keeps the messages. -/
theorem keepWrites_getSettings : (getSettings env).Writes KeepWrite := by
  refine .bind .read fun db => ?_
  split
  · exact .pure _
  · have hdefault : (7 : ℤ) ≤ 90 := by decide
    exact .bind (.updateRow (.setSettings _ hdefault)) fun _ => .pure _

/-- Shorter than a week is refused. -/
theorem keepWrites_updateMessageRetentionDays (days : ℤ) :
    (updateMessageRetentionDays env caller days).Writes KeepWrite := by
  unfold updateMessageRetentionDays raiseIf
  split
  · exact .raise _
  · next hweek =>
    have hweek : (7 : ℤ) ≤ days := Int.not_lt.mp hweek
    exact .bind (.pure ()) fun _ => .bind keepWrites_getSettings fun ps =>
      .bind (.updateRow (.setSettings _ hweek)) fun _ => .pure _

/-- Marking a message read writes the mark at most. -/
theorem writes_markMessageRead
    (hmark : ∀ id now, P (.message id) fun db => db.modifyChatMessage id (Message.markRead now))
    (conversationId messageId : Id) :
    (markMessageRead env caller conversationId messageId).Writes P := by
  refine .bind (reads_loadConversationForCaller _) fun _ => .bind (writes_selectForUpdate _ _)
    fun _ => .bind (.getOrRaise _ _) fun msg => .bind (.raiseIf _ _) fun _ => ?_
  exact .ite (.bind (.updateRow (hmark _ _)) fun _ => .pure _) (.pure _)

/-- The request keeps the list as it is. -/
def MessagingOp.keeps : MessagingOp → Bool
  | .storeMessage .. => false
  | .purgeOldMessages => false
  | _ => true

/-- The requests that neither store nor purge keep the messages. -/
theorem keepWrites_exec {q : MessagingRequest} (hop : q.op.keeps = true) :
    q.exec.Writes KeepWrite := by
  obtain ⟨caller, op, env⟩ := q
  cases op with
  | createConversation peerUserId =>
    exact .bind (writes_createConversation .addConversation peerUserId) fun _ => .pure _
  | listConversationsForCaller limit =>
    exact .bind (.bind .read fun _ => .pure _) fun _ => .pure _
  | getConversation conversationId =>
    exact .bind (reads_loadConversationForCaller conversationId) fun _ => .pure _
  | unreadCount conversationId => exact .bind (.bind .read fun _ => .pure _) fun _ => .pure _
  | listMessages conversationId before limit =>
    exact .bind (.bind (reads_loadConversationForCaller conversationId) fun _ =>
      .bind .read fun _ => .pure _) fun _ => .pure _
  | markMessageRead conversationId messageId =>
    exact .bind (writes_markMessageRead .markRead conversationId messageId) fun _ => .pure _
  | getMessageRetentionDays =>
    exact .bind (.bind keepWrites_getSettings fun _ => .pure _) fun _ => .pure _
  | updateMessageRetentionDays days =>
    exact .bind (keepWrites_updateMessageRetentionDays days) fun _ => .pure _
  | storeMessage conversationId body => cases hop
  | purgeOldMessages => cases hop

/-- Such a request leaves what was sent as it is. -/
theorem kept_of_keeps {q : MessagingRequest} (hop : q.op.keeps = true) (reply : MessagingReply)
    (sent : List Message) : q.Kept reply sent sent := by
  obtain ⟨caller, op, env⟩ := q
  have hstored : MessagingRequest.stored ⟨caller, op, env⟩ reply = [] ∧
      MessagingRequest.purged ⟨caller, op, env⟩ reply = 0 := by
    cases op with
    | storeMessage conversationId body => cases hop
    | purgeOldMessages => cases hop
    | _ => exact ⟨rfl, rfl⟩
  refine ⟨?_, fun m hm hgone => ?_, ?_⟩
  · rw [hstored.1, List.append_nil]
  · rw [hstored.1, List.append_nil] at hm
    exact absurd hm hgone
  · rw [hstored.1, hstored.2, List.append_nil]
    rfl

/-- Such a request keeps the list as it is. -/
theorem exec_keeps {q : MessagingRequest} (hop : q.op.keeps = true) :
    q.exec.Safe messageLocking (Dated db calls) fun reply s t => q.Kept reply s.sent t.sent := by
  have hsafe := (keepWrites_exec hop).safe (L := messageLocking) (I := Dated db calls)
    (R := fun s t => t.sent = s.sent) (fun _ => rfl)
    (fun s t v (hst : t.sent = s.sent) (htv : v.sent = t.sent) => htv.trans hst)
    (fun _ _ hf _ hs => hf.keeps hs) fun _ _ hf s key' hne => hf.frame s key' hne
  refine wp_mono (fun facts w r hr s hs hknown => ?_) hsafe
  obtain ⟨hI, hsent, hframe⟩ := hr s hs hknown
  refine ⟨hI, ?_, hframe⟩
  change q.Kept r s.sent (w s).sent
  rw [hsent]
  exact kept_of_keeps hop r s.sent

end KeepWrites

/-! ### The purge -/

/-- The purge has deleted the messages with the identifiers `ids`, whose locks it holds. -/
structure Purging (ids : List Id) (facts : List (Key × Db)) (w : Db → Db) : Prop where
  messages : ∀ s, (w s).messages = s.messages.delete fun m => m.id ∈ ids
  conversations : ∀ s, (w s).conversations = s.conversations
  week : ∀ s, s.KeepsAWeek → (w s).KeepsAWeek
  locked : ∀ id ∈ ids, ∃ s, (.message id, s) ∈ facts

/-- Deleting no row leaves the table as it is. -/
theorem Table.delete_none {ρ κ : Type} {key : ρ → κ} (t : Table ρ key) {p : ρ → Bool}
    (h : ∀ r ∈ t.rows, p r = false) : t.delete p = t := by
  refine Table.ext (List.filter_eq_self.mpr fun r hr => ?_)
  rw [h r hr]
  rfl

namespace Purging

variable {ids : List Id} {facts : List (Key × Db)} {w : Db → Db}

/-- Nothing is deleted yet. -/
theorem nil (hmessages : ∀ s, (w s).messages = s.messages)
    (hconversations : ∀ s, (w s).conversations = s.conversations)
    (hweek : ∀ s, s.KeepsAWeek → (w s).KeepsAWeek) : Purging [] facts w where
  messages s := by
    rw [hmessages, Table.delete_none _ fun _ _ => by simp]
  conversations := hconversations
  week := hweek
  locked id hid := absurd hid List.not_mem_nil

/-- One more message is locked and deleted. -/
theorem remove (h : Purging ids facts w) (id : Id) (s₁ : Db) :
    Purging (id :: ids) ((.message id, s₁) :: facts)
      ((fun db => db.removeChatMessage id) ∘ w) where
  messages s := by
    refine Table.ext ?_
    rw [Function.comp_apply, Db.removeChatMessage, h.messages]
    simp only [Table.rows_delete, List.filter_filter]
    refine List.filter_congr fun m _ => ?_
    by_cases hid : m.id = id
    · simp [hid]
    · simp [hid]
  conversations s := h.conversations s
  week s hs := h.week s hs
  locked id' hid' := by
    rcases List.mem_cons.mp hid' with rfl | hid'
    · exact ⟨s₁, List.mem_cons_self⟩
    · obtain ⟨s, hs⟩ := h.locked id' hid'
      exact ⟨s, List.mem_cons_of_mem _ hs⟩

/-- A message that is not deleted yet is as it was under its lock. -/
theorem get (h : Purging ids facts w) {id : Id} (hid : id ∉ ids) (s : Db) :
    (w s).messages.get id = s.messages.get id := by
  rw [h.messages, Table.get_delete]
  cases hm : s.messages.get id with
  | none => rfl
  | some m =>
    have hkey : m.id = id := Table.key_of_get hm
    simp [hkey, hid]

/-- Only locked messages are touched. -/
theorem frame (h : Purging ids facts w) (s : Db) (key : Key) (hkey : ∀ f ∈ facts, f.1 ≠ key) :
    messageLocking.agree key s (w s) := by
  cases key with
  | conversation id => exact congrArg (fun t => t.get id) (h.conversations s)
  | message id =>
    refine h.get (fun hid => ?_) s
    obtain ⟨s₁, hs₁⟩ := h.locked id hid
    exact hkey _ hs₁ rfl
  | _ => trivial

end Purging

/-- `DELETE`, row by row: the number it returns is that of the messages that are still there. -/
theorem wp_deleteChatMessages {I : Db → Prop} {ms : List Message} {ids : List Id}
    {facts : List (Key × Db)} {w : Db → Db} {Post : List (Key × Db) → (Db → Db) → ℕ → Prop}
    (h : Purging ids facts w) (hnew : ∀ m ∈ ms, m.id ∉ ids)
    (hdistinct : (ms.map Message.id).Nodup)
    (hpost : ∀ facts' w' n, facts ⊆ facts' →
      Purging ((ms.map Message.id).reverse ++ ids) facts' w' →
      (∀ s, messageLocking.Known facts' s →
        n = (ms.filter fun m => (s.messages.get m.id).isSome).length) → Post facts' w' n) :
    (deleteChatMessages ms).wp messageLocking I Post facts w := by
  induction ms generalizing ids facts w Post with
  | nil => exact hpost facts w 0 (List.Subset.refl _) h fun _ _ => rfl
  | cons m ms ih =>
    obtain ⟨hm, hdistinct⟩ := List.nodup_cons.mp hdistinct
    simp only [deleteChatMessages, bind_eq, wp_bind, wp_acquire, wp_modify, pure_eq, wp_ret]
    intro s₁ _ hknown₁
    have hget := h.get (hnew m List.mem_cons_self) s₁
    refine ih (h.remove m.id s₁) (fun m' hm' hid => ?_) hdistinct ?_
    · rcases List.mem_cons.mp hid with heq | hid
      · exact hm (List.mem_map.mpr ⟨m', hm', heq⟩)
      · exact hnew m' (List.mem_cons_of_mem m hm') hid
    · intro facts' w' n hsub hpurging hcount
      refine hpost facts' w' _ (fun f hf => hsub (List.mem_cons_of_mem _ hf)) ?_ fun s hs => ?_
      · rwa [List.map_cons, List.reverse_cons, List.append_assoc]
      · have hsame : s.messages.get m.id = s₁.messages.get m.id :=
          hs _ (hsub List.mem_cons_self)
        rw [hget, ← hsame, List.filter_cons, hcount s hs]
        split
        · rfl
        · rfl

/-- Of the messages with these identifiers, as many are found one by one as among the rows. -/
theorem length_found {t : Table Message Message.id} {ms : List Message}
    (hdistinct : (ms.map Message.id).Nodup) :
    (ms.filter fun m => (t.get m.id).isSome).length =
      (t.rows.filter fun m => m.id ∈ ms.map Message.id).length := by
  have hperm : ((ms.filter fun m => (t.get m.id).isSome).map Message.id).Perm
      ((t.rows.filter fun m => m.id ∈ ms.map Message.id).map Message.id) := by
    refine (List.perm_ext_iff_of_nodup (hdistinct.sublist (List.filter_sublist.map _))
      (t.nodup.sublist (List.filter_sublist.map _))).mpr fun id => ?_
    simp only [List.mem_map, List.mem_filter, decide_eq_true_eq]
    constructor
    · rintro ⟨m, ⟨hm, hfound⟩, rfl⟩
      obtain ⟨r, hr⟩ := Option.isSome_iff_exists.mp hfound
      have hrow := Table.get_eq_some_iff.mp hr
      exact ⟨r, ⟨hrow.1, m, hm, hrow.2.symm⟩, hrow.2⟩
    · rintro ⟨r, ⟨hr, m, hm, hid⟩, rfl⟩
      refine ⟨m, ⟨hm, ?_⟩, hid⟩
      rw [hid, Table.mem_rows_iff.mp hr]
      rfl
  have hlength := hperm.length_eq
  rwa [List.length_map, List.length_map] at hlength

/-- The settings, whose retention is long enough. -/
theorem wp_getSettings {env : Env} {Post : List (Key × Db) → (Db → Db) → PlatformSettings → Prop}
    (h : ∀ ps facts w, 7 ≤ ps.messageRetentionDays → Purging [] facts w → Post facts w ps) :
    (getSettings env).wp messageLocking (Dated db calls) Post [] id := by
  simp only [getSettings, OrderService.getRetentionSettings, bind_eq, wp_bind, wp_read, id]
  intro s hs _
  cases hps : s.platformSettings with
  | some ps => exact h ps [] id (hs.week ps hps) (.nil (fun _ => rfl) (fun _ => rfl) fun _ h => h)
  | none =>
    have hdefault : (7 : ℤ) ≤ 90 := by decide
    refine fun s' _ _ => h _ _ _ hdefault (.nil (fun _ => rfl) (fun _ => rfl) fun _ _ ps hps => ?_)
    obtain rfl := Option.some.inj hps
    exact hdefault

/-- A longer retention reaches further back. -/
theorem days_le {m n : ℤ} (h : m ≤ n) : days m ≤ days n := by
  have hscaled : m * 24 * 60 * 60 * 1000000 ≤ n * 24 * 60 * 60 * 1000000 := by omega
  exact hscaled

/-- What a purge commits that has deleted `old`, the messages that it found to be too old. -/
theorem kept_of_purging (hfresh : DrawnAfresh db calls) {q : MessagingRequest}
    (hop : q.op = .purgeOldMessages) {s₀ s : Db} {retention : ℤ} (hweek : 7 ≤ retention)
    {ids : List Id} (hids : ids = ((s₀.messages.rows.filter fun m =>
      m.sentAt < q.env.now 0 - days retention).map Message.id).reverse ++ [])
    {facts : List (Key × Db)} {w : Db → Db} (h : Purging ids facts w) {n : ℕ}
    (hcount : n = ((s₀.messages.rows.filter fun m =>
      m.sentAt < q.env.now 0 - days retention).filter fun m =>
        (s.messages.get m.id).isSome).length)
    (hs₀ : Dated db calls s₀) (hs : Dated db calls s) :
    Dated db calls (w s) ∧ q.Kept (.count n) s.sent (w s).sent := by
  set old := s₀.messages.rows.filter fun m => m.sentAt < q.env.now 0 - days retention with hold
  have hmem : ∀ id, id ∈ ids ↔ id ∈ old.map Message.id := by
    intro id
    rw [hids, List.append_nil, List.mem_reverse]
  have hsent : (w s).sent = (s.messages.rows.filter fun m => !decide (m.id ∈ ids)).map
      Message.asSent := by
    rw [Db.sent, h.messages, Table.rows_delete]
  have hdistinct : (old.map Message.id).Nodup :=
    s₀.messages.nodup.sublist (List.filter_sublist.map _)
  have hstored : q.stored (.count n) = [] := by
    simp only [MessagingRequest.stored, hop]
  have hpurged : q.purged (.count n) = n := by
    simp only [MessagingRequest.purged, hop]
  refine ⟨⟨h.week s hs.week, fun id m hm => ?_⟩, ?_, fun m hm hgone => ⟨hop, ?_⟩, ?_⟩
  · rw [h.messages, Table.get_delete] at hm
    exact hs.dated id m (Option.filter_eq_some_iff.mp hm).1
  · rw [hstored, List.append_nil, hsent]
    exact List.filter_sublist.map _
  · rw [hstored, List.append_nil] at hm
    obtain ⟨x, hx, rfl⟩ := List.mem_map.mp hm
    have hid : x.id ∈ ids := by
      by_contra hid
      refine hgone ?_
      rw [hsent]
      exact List.mem_map.mpr ⟨x, List.mem_filter.mpr ⟨hx, by simpa using hid⟩, rfl⟩
    obtain ⟨x₀, hx₀, hsame⟩ := List.mem_map.mp ((hmem _).mp hid)
    obtain ⟨hrow, hlate⟩ := List.mem_filter.mp hx₀
    have hdate : x.sentAt = x₀.sentAt := by
      refine (hs.dated x.id x (Table.mem_rows_iff.mp hx)).unique hfresh ?_
      rw [← hsame]
      exact hs₀.dated x₀.id x₀ (Table.mem_rows_iff.mp hrow)
    have hlate : x₀.sentAt < q.env.now 0 - days retention := of_decide_eq_true hlate
    change x.sentAt < _
    rw [hdate]
    exact Int.lt_of_lt_of_le hlate (Int.sub_le_sub_left (days_le hweek) _)
  · have hall : s.messages.rows.length = _ :=
      List.length_eq_length_filter_add fun m => decide (m.id ∈ ids)
    have hfound : n = (s.messages.rows.filter fun m => decide (m.id ∈ ids)).length := by
      rw [hcount, length_found hdistinct]
      congr 1
      exact List.filter_congr fun m _ => decide_eq_decide.mpr (hmem m.id).symm
    rw [hstored, hpurged, List.append_nil, hsent, Db.sent, List.length_map, List.length_map]
    omega

/-- `purge_old_messages`. -/
theorem purge_safe (hfresh : DrawnAfresh db calls) {q : MessagingRequest}
    (hop : q.op = .purgeOldMessages) :
    q.exec.Safe messageLocking (Dated db calls) fun reply s t => q.Kept reply s.sent t.sent := by
  simp only [Safe, MessagingRequest.exec, hop, purgeOldMessages, bind_eq, wp_bind, wp_read, pure_eq,
    wp_ret]
  refine wp_getSettings fun ps facts w hweek hnil s₀ hs₀ _ => ?_
  have hrows : (w s₀).messages.rows = s₀.messages.rows := by
    rw [hnil.messages, Table.delete_none _ fun _ _ => by simp]
  rw [hrows]
  refine wp_deleteChatMessages hnil (fun _ _ => List.not_mem_nil)
    (s₀.messages.nodup.sublist (List.filter_sublist.map _)) ?_
  intro facts' w' n _ hpurging hcount s hs hknown
  obtain ⟨hdated, hkept⟩ := kept_of_purging hfresh hop hweek rfl hpurging (hcount s hknown) hs₀ hs
  exact ⟨hdated, hkept, fun key hkey => hpurging.frame s key hkey⟩

/-! ### Storing a message -/

/-- The access check writes nothing. -/
theorem wp_ensureMayAccess {I : Db → Prop} {caller : User} {conv : Conversation}
    {facts : List (Key × Db)} {w : Db → Db} {Post : List (Key × Db) → (Db → Db) → Unit → Prop}
    (h : Post facts w ()) : (ensureMayAccess caller conv).wp messageLocking I Post facts w := by
  unfold ensureMayAccess
  split
  · exact h
  · exact wp_raiseIf.mpr fun _ => h

/-- `store_message`. -/
theorem storeMessage_safe {i : ι} {conversationId : Id} {body : Sealed}
    (hop : (calls i).op = .storeMessage conversationId body) :
    (calls i).exec.Safe messageLocking (Dated db calls) fun reply s t =>
      (calls i).Kept reply s.sent t.sent := by
  have hdraws : (calls i).draws = some ((calls i).env.uuid4 0, (calls i).env.now 0) := by
    simp only [MessagingRequest.draws, hop]
  simp only [Safe, MessagingRequest.exec, hop, storeMessage, lockConversationForCaller, bind_eq,
    wp_bind, pure_eq, wp_ret]
  refine wp_selectForUpdate (by simp) fun s₁ _ _ => ?_
  simp only [wp_getOrRaise]
  intro conv hconv
  refine wp_ensureMayAccess ?_
  simp only [updateConversation, insertChatMessage, bind_eq, wp_bind, wp_updateRow, wp_read,
    wp_raiseIf, wp_insertRow]
  intro s₂ _ _ s₃ _ _ _ s₄ _ _ hfree s hs hknown
  set m := newMessage (calls i).env (calls i).caller.id conv.id body with hm
  have hnew : s.messages.get m.id = none := by
    have hs₄ : s₄.messages.get m.id = none := by simpa [Db.modifyConversation] using hfree
    exact (hknown (.message m.id, s₄) (by simp)).trans hs₄
  have hstored : (calls i).stored (.message m) = [m.asSent] := by
    simp only [MessagingRequest.stored, hop]
  have hpurged : (calls i).purged (.message m) = 0 := by
    simp only [MessagingRequest.purged, hop]
  have hsent : ((s.modifyConversation conv.id (Conversation.bump
      ((calls i).env.now 0))).addChatMessage m).sent =
        s.sent ++ (calls i).stored (.message m) := by
    rw [hstored]
    change (s.messages.insert m).rows.map Message.asSent = _
    rw [Table.rows_insert hnew, List.map_append]
    rfl
  refine ⟨⟨hs.week, fun id m' hm' => ?_⟩, ⟨?_, fun m' hm' hgone => ?_, ?_⟩, fun key hkey => ?_⟩
  · rcases Table.get_of_insert hm' with rfl | hm'
    · rw [← Table.key_of_get hm']
      exact .drawn hdraws
    · exact hs.dated id m' hm'
  · rw [← hsent]
    exact List.Sublist.refl _
  · rw [← hsent] at hm'
    exact absurd hm' hgone
  · rw [hpurged, ← hsent]
    rfl
  · cases key with
    | conversation id =>
      refine Table.get_modify_of_ne _ ?_ _
      rintro rfl
      exact hkey (.conversation conv.id, s₂) (by simp) rfl
    | message id =>
      refine Table.get_insert_of_ne _ ?_
      rintro rfl
      exact hkey (.message m.id, s₄) (by simp) rfl
    | _ => trivial

/-! ### Every interleaving -/

/-- Every request keeps the list. -/
theorem exec_kept (hfresh : DrawnAfresh db calls) (i : ι) :
    (calls i).exec.Safe messageLocking (Dated db calls) fun reply s t =>
      (calls i).Kept reply s.sent t.sent := by
  by_cases hop : (calls i).op.keeps = true
  · exact exec_keeps hop
  · cases hq : (calls i).op with
    | storeMessage conversationId body => exact storeMessage_safe hq
    | purgeOldMessages => exact purge_safe hfresh hq
    | _ => simp [hq, MessagingOp.keeps] at hop

section Logs

variable (calls)

/-- The messages that have been stored, in the order of the commits. -/
def storedBy (log : List (ι × MessagingReply)) : List Message :=
  log.flatMap fun c => (calls c.1).stored c.2

/-- The number of messages that the purges have reported. -/
def purgedBy (log : List (ι × MessagingReply)) : ℕ :=
  (log.map fun c => (calls c.1).purged c.2).sum

end Logs

/-- What the commits of a log have kept of the messages. -/
theorem kept_of_commits {log : List (ι × MessagingReply)} {t : Db}
    (h : Sys.Commits (fun i reply s t => (calls i).Kept reply s.sent t.sent) db log t) :
    t.sent.Sublist (db.sent ++ storedBy calls log) ∧
      (∀ m ∈ db.sent ++ storedBy calls log, m ∉ t.sent →
        ∃ i reply, (i, reply) ∈ log ∧ (calls i).MayPurge m) ∧
      t.sent.length + purgedBy calls log = (db.sent ++ storedBy calls log).length := by
  induction h with
  | nil =>
    have hnothing : db.sent ++ storedBy calls [] = db.sent := List.append_nil _
    rw [hnothing]
    exact ⟨List.Sublist.refl _, fun m hm hgone => absurd hm hgone, rfl⟩
  | @snoc log s t i reply _ hkept ih =>
    obtain ⟨hsublist, hgone, hcount⟩ := ih
    have hstored : db.sent ++ storedBy calls (log ++ [(i, reply)]) =
        db.sent ++ storedBy calls log ++ (calls i).stored reply := by
      simp [storedBy, List.flatMap_append]
    have hpurged : purgedBy calls (log ++ [(i, reply)]) =
        purgedBy calls log + (calls i).purged reply := by
      simp [purgedBy]
    rw [hstored, hpurged]
    refine ⟨hkept.sublist.trans (hsublist.append_right _), fun m hm hout => ?_, ?_⟩
    · -- it went with this commit, or it had gone before
      by_cases hbefore : m ∈ s.sent ++ (calls i).stored reply
      · exact ⟨i, reply, by simp, hkept.gone m hbefore hout⟩
      · have hm' : m ∈ db.sent ++ storedBy calls log := by
          rcases List.mem_append.mp hm with hm | hm
          · exact hm
          · exact absurd (List.mem_append_right _ hm) hbefore
        obtain ⟨j, reply', hlog, hpurge⟩ := hgone m hm' fun hin =>
          hbefore (List.mem_append_left _ hin)
        exact ⟨j, reply', List.mem_append_left _ hlog, hpurge⟩
    · have hnow := hkept.count
      rw [List.length_append] at hnow ⊢
      omega

/-- In every interleaving of any requests to the service, the messages that are stored are those
there were and those that have been stored since, in the order of their commits, without what the
purges have taken: only messages older than a week, and as many as the purges have reported. -/
theorem messages_accounted [DecidableEq ι] (calls : ι → MessagingRequest)
    {s : Sys ι Db Key Err MessagingReply} (hweek : db.KeepsAWeek) (hfresh : DrawnAfresh db calls)
    (hs : Sys.Steps (Sys.init db fun i => (calls i).exec) s) :
    s.db.KeepsAWeek ∧ s.db.sent.Sublist (db.sent ++ storedBy calls s.log) ∧
      (∀ m ∈ db.sent ++ storedBy calls s.log, m ∉ s.db.sent →
        ∃ i reply, (i, reply) ∈ s.log ∧ (calls i).MayPurge m) ∧
      s.db.sent.length + purgedBy calls s.log = (db.sent ++ storedBy calls s.log).length := by
  have hdated : Dated db calls db := ⟨hweek, fun _ _ hm => .before hm rfl⟩
  have hsound := hs.sound (Sys.sound_init hdated (exec_kept hfresh))
  exact ⟨hsound.db.week, kept_of_commits (hs.commits hdated (exec_kept hfresh))⟩

namespace Sample

/-- A message is stored, and the old one is purged. -/
def retaining : Bool → MessagingRequest
  | false => ⟨buyer, .storeMessage 20 { ciphertext := [], nonce := [], ephemeralPublicKey := [] },
    { now := fun _ => days 100, transactionNow := days 100, uuid4 := fun _ => 40, randbelow := 0 }⟩
  | true => ⟨support, .purgeOldMessages,
    { now := fun _ => days 100, transactionNow := days 100, uuid4 := fun _ => 41, randbelow := 0 }⟩

/-- The sample requests draw ids that nothing has. -/
theorem retaining_fresh : DrawnAfresh written retaining where
  new i id t h := by
    cases i with
    | false =>
      cases h
      decide
    | true => cases h
  distinct i j id t t' hi hj := by
    cases i with
    | false =>
      cases j with
      | false => rfl
      | true => cases hj
    | true => cases hi

end Sample

/-- One after the other, the new message is stored and the purge takes the old one. -/
theorem messages_accounted_in_turn : Sample.written.KeepsAWeek ∧ ∃ s,
    Sys.Steps (Sys.init Sample.written fun i => (Sample.retaining i).exec) s ∧
    s.log.map Prod.fst = [false, true] ∧
    s.db.sent.length + purgedBy Sample.retaining s.log =
      (Sample.written.sent ++ storedBy Sample.retaining s.log).length := by
  have hweek : Sample.written.KeepsAWeek := fun _ hps => by cases hps
  obtain ⟨r, hrun⟩ := run_of_session (p := (Sample.retaining false).exec) (s := Sample.written)
    (by decide +kernel)
  obtain ⟨r', hrun'⟩ := run_of_session (p := (Sample.retaining true).exec)
    (s := ((Sample.retaining false).exec.session Sample.written).2) (by decide +kernel)
  obtain ⟨s, hs, -, hlog⟩ := Sys.inTurn_of_run (p := fun i => (Sample.retaining i).exec)
    (i := false) (j := true) (by decide) hrun hrun'
  refine ⟨hweek, s, hs, ?_,
    (messages_accounted Sample.retaining hweek Sample.retaining_fresh hs).2.2.2⟩
  rw [hlog]
  rfl

end Marketplace
