import Marketplace.Auth.Frames
import Marketplace.Catalog.Step
import Marketplace.Keys.Service
import Marketplace.Messaging.Participants
import Marketplace.Order.Gating

/-!
# Requests to the whole server

One type for the requests that the services serve, with the transaction of each and the
kinds of its writes. The services about orders write in the tables of orders and in the
stock of products, the other services in the remaining tables.
-/

namespace Marketplace

open Lib Txn OrderService MessagingService KeyService DeliveryTracking

/-- A request to any of the services. -/
inductive AppRequest
  | service (c : ServiceCall)
  | auth (q : AuthRequest)
  | catalog (q : CatalogRequest)
  | messaging (q : MessagingRequest)
  | keys (q : KeyRequest)

/-- What it returns. -/
inductive AppReply
  | service (r : ServiceReply)
  | auth (r : AuthReply)
  | catalog (r : CatalogReply)
  | messaging (r : MessagingReply)
  | keys (r : KeyReply)

/-- The transaction that serves it. -/
def AppRequest.exec (sec : Security) (lower : String → String) : AppRequest → Tx AppReply
  | service c => do return .service (← c.exec sec.sha256)
  | auth q => do return .auth (← q.exec sec)
  | catalog q => do return .catalog (← q.exec lower)
  | messaging q => do return .messaging (← q.exec)
  | keys q => do return .keys (← q.exec)

/-! ### The kinds of the writes -/

/-- A write of the messaging service. -/
inductive MessagingWrite : Key → (Db → Db) → Prop
  | chat {key f} (h : ChatWrite key f) : MessagingWrite key f
  | bump (id sentAt) : MessagingWrite (.conversation id) fun db =>
      db.modifyConversation id (Conversation.bump sentAt)
  | addMessage (m) : MessagingWrite (.message m.id) fun db => db.addChatMessage m
  | markRead (id now) : MessagingWrite (.message id) fun db =>
      db.modifyChatMessage id (Message.markRead now)

/-- A write of the key service. -/
inductive KeyWrite : Key → (Db → Db) → Prop
  | add (k) : KeyWrite (.activePublicKey k.userId) fun db => db.addPublicKey k
  | modify (id f) : KeyWrite (.userPublicKey id) fun db => db.modifyPublicKey id f

/-- A write of a service that is not about orders. -/
inductive SideWrite : Key → (Db → Db) → Prop
  | auth {key f} (h : AuthWrite AccountChange key f) : SideWrite key f
  | catalog {key f} (h : CatalogWrite key f) : SideWrite key f
  | messaging {key f} (h : MessagingWrite key f) : SideWrite key f
  | keys {key f} (h : KeyWrite key f) : SideWrite key f

/-- A write of a service about orders. -/
inductive OrderSideWrite : Key → (Db → Db) → Prop
  | service {K key f} (h : ServiceWrite K key f) : OrderSideWrite key f
  | place {key f} (h : PlaceWrite key f) : OrderSideWrite key f
  | report (orderId f) : OrderSideWrite (.delivery orderId) fun db => db.modifyDelivery orderId f

/-- A write of any request. -/
inductive AppWrite : Key → (Db → Db) → Prop
  | orderSide {key f} (h : OrderSideWrite key f) : AppWrite key f
  | side {key f} (h : SideWrite key f) : AppWrite key f

section Writes

variable {sec : Security} {sha256 lower : String → String} {P : Key → (Db → Db) → Prop}
  {env : Env} {caller : User}

/-- Locking the conversation writes nothing. -/
theorem writes_lockConversationForCaller (conversationId : Id) :
    (lockConversationForCaller caller conversationId).Writes P := by
  refine .bind (writes_selectForUpdate _ _) fun _ => .bind (.getOrRaise _ _) fun conv =>
    .bind ?_ fun _ => .pure _
  exact .ite (.pure _) (.raiseIf _ _)

/-- Storing a message writes the chat tables only. -/
theorem storeMessage_writes (conversationId : Id) (body : Sealed) :
    (storeMessage env caller conversationId body).Writes MessagingWrite :=
  .bind (writes_lockConversationForCaller _) fun _ => .bind (.updateRow (.bump _ _)) fun _ =>
    .bind (.bind .read fun _ => .bind (.raiseIf _ _) fun _ => writes_insertRow (.addMessage _))
    fun _ => .pure _

/-- Marking a message read writes the chat tables only. -/
theorem markMessageRead_writes (conversationId messageId : Id) :
    (markMessageRead env caller conversationId messageId).Writes MessagingWrite := by
  refine .bind ((chatWrites_loadConversationForCaller _).mono fun _ _ h => .chat h) fun _ =>
    .bind (writes_selectForUpdate _ _) fun _ => .bind (.getOrRaise _ _) fun msg =>
    .bind (.raiseIf _ _) fun _ => ?_
  exact .ite (.bind (.updateRow (.markRead _ _)) fun _ => .pure _) (.pure _)

/-- Every request to the messaging service. -/
theorem messagingExec_writes (q : MessagingRequest) : q.exec.Writes MessagingWrite := by
  obtain ⟨caller, op, env⟩ := q
  cases op with
  | storeMessage conversationId body =>
    exact .bind (storeMessage_writes conversationId body) fun _ => .pure _
  | markMessageRead conversationId messageId =>
    exact .bind (markMessageRead_writes conversationId messageId) fun _ => .pure _
  | _ => exact (chatWrites_exec rfl).mono fun _ _ h => .chat h

/-- Retiring a key writes the key table only. -/
theorem writes_retireKey (k : UserPublicKey) (f : UserPublicKey → UserPublicKey) :
    (retireKey k f).Writes KeyWrite :=
  .bind (.acquire _) fun _ => .updateRow (.modify _ _)

/-- Rotating keys writes the key table only. -/
theorem writes_rotateKeys (now : Time) (ks : List UserPublicKey) :
    (rotateKeys now ks).Writes KeyWrite := by
  induction ks with
  | nil => exact .pure _
  | cons k ks ih => exact .bind (writes_retireKey _ _) fun _ => ih

/-- Locking the active keys writes nothing. -/
theorem writes_lockActiveKeys (userId : Id) (ks : List UserPublicKey) :
    (lockActiveKeys userId ks).Writes P := by
  induction ks with
  | nil => exact .pure _
  | cons k ks ih => exact .bind (.acquire _) fun _ => .bind ih fun _ => .pure _

/-- Revoking a key writes the key table only. -/
theorem setRevoked_writes (row : UserPublicKey) : (setRevoked env row).Writes KeyWrite := by
  unfold setRevoked
  cases row.status with
  | revoked => exact .pure _
  | active => exact .bind (writes_retireKey _ _) fun _ => .pure _
  | rotated => exact .bind (.updateRow (.modify _ _)) fun _ => .pure _

/-- Every request to the key service. -/
theorem keyExec_writes (q : KeyRequest) : q.exec.Writes KeyWrite := by
  obtain ⟨caller, op, env⟩ := q
  cases op with
  | registerKey publicKeyRaw keyVersion =>
    refine .bind (.bind .read fun _ => .bind (writes_lockActiveKeys _ _) fun _ =>
      .bind (writes_rotateKeys _ _) fun _ => .bind ?_ fun _ => .pure _) fun _ => .pure _
    exact .bind (.raiseIf _ _) fun _ => .bind (writes_reserve _ _ _) fun _ =>
      writes_insertRow (.add _)
  | getActiveKeyForUser userId =>
    exact .bind (.bind .read fun _ => .bind (writes_scalarOneOrNone _) fun _ =>
      .getOrRaise _ _) fun _ => .pure _
  | listKeysForUser => exact .bind (.bind .read fun _ => .pure _) fun _ => .pure _
  | revokeKey keyId =>
    exact .bind (.bind (writes_selectForUpdate _ _) fun _ => .bind (.getOrRaise _ _) fun _ =>
      .bind (.raiseIf _ _) fun _ => setRevoked_writes _) fun _ => .pure _

/-- Every request about accounts, tokens and invites. -/
theorem authExec_changes (q : AuthRequest) : (q.exec sec).Writes (AuthWrite AccountChange) :=
  authExec_writes (fun _ hf => hf.toAccountChange) (fun _ reason _ now =>
    accountChange_suspend now reason) fun _ _ => accountChange_unsuspend

/-- A report changes a delivery row. -/
theorem postLocation_writes (hP : ∀ o f, P (.delivery o) fun db => db.modifyDelivery o f)
    (r : Report) : (r.exec env).Writes P :=
  .bind (.bind .read fun _ => .pure _) fun _ => .bind (.getOrRaise _ _) fun _ =>
    .bind resolveRoleLoading_writes fun _ => .bind (.raiseIf _ _) fun _ =>
    .bind (.raiseIf _ _) fun _ => .bind (.raiseIf _ _) fun _ =>
    .bind (writes_selectForUpdate _ _) fun _ => .bind (.getOrRaise _ _) fun _ =>
    .bind (.raiseIf _ _) fun _ => .bind (.updateRow (hP _ _)) fun _ => .pure _

/-- Every request about orders. -/
theorem serviceExec_writes (c : ServiceCall) : (c.exec sha256).Writes OrderSideWrite := by
  cases c with
  | call q =>
    refine .bind ?_ fun _ => .pure _
    by_cases hop : ∀ items address, q.op ≠ .createOrder items address
    · exact (exec_writes hop).mono fun _ _ h => .service h
    · simp only [not_forall, not_not] at hop
      obtain ⟨items, address, hop⟩ := hop
      rw [Request.exec, hop]
      exact .bind ((createOrder_writes _ _).mono fun _ _ h => .place h) fun _ => .pure _
  | report r env => exact .bind (postLocation_writes .report r) fun _ => .pure _
  | view caller o => exact .bind getTrackView_writes fun _ => .pure _

end Writes

/-! ### What the writes leave alone -/

/-- The tables about orders are the same. -/
structure SameOrders (s t : Db) : Prop where
  orders : t.orders = s.orders
  orderItems : t.orderItems = s.orderItems
  deliveries : t.deliveries = s.deliveries
  driverAssignments : t.driverAssignments = s.driverAssignments
  snapshots : t.snapshots = s.snapshots

/-- The accounts, the profiles of sellers and the invite links are the same. -/
structure SameAccounts (s t : Db) : Prop where
  users : t.users = s.users
  sellers : t.sellers = s.sellers
  inviteLinks : t.inviteLinks = s.inviteLinks

section Frame

variable {key : Key} {f : Db → Db}

/-- The services that are not about orders leave the tables of orders alone. -/
theorem SideWrite.orders (h : SideWrite key f) (db : Db) : SameOrders db (f db) := by
  cases h with
  | auth h =>
    cases h with
    | quiet h => cases h <;> exact ⟨rfl, rfl, rfl, rfl, rfl⟩
    | _ => exact ⟨rfl, rfl, rfl, rfl, rfl⟩
  | catalog h => cases h <;> exact ⟨rfl, rfl, rfl, rfl, rfl⟩
  | messaging h =>
    cases h with
    | chat h => cases h <;> exact ⟨rfl, rfl, rfl, rfl, rfl⟩
    | _ => exact ⟨rfl, rfl, rfl, rfl, rfl⟩
  | keys h => cases h <;> exact ⟨rfl, rfl, rfl, rfl, rfl⟩

/-- The services about orders leave accounts and profiles alone. -/
theorem OrderSideWrite.accounts (h : OrderSideWrite key f) (db : Db) :
    SameAccounts db (f db) := by
  cases h with
  | service h =>
    cases h with
    | order h => cases h <;> exact ⟨rfl, rfl, rfl⟩
    | setSettings ps => exact ⟨rfl, rfl, rfl⟩
  | place h => cases h <;> exact ⟨rfl, rfl, rfl⟩
  | report => exact ⟨rfl, rfl, rfl⟩

/-- The chat's writes leave the accounts alone. -/
theorem MessagingWrite.accounts (h : MessagingWrite key f) (db : Db) :
    SameAccounts db (f db) := by
  cases h with
  | chat h => cases h <;> exact ⟨rfl, rfl, rfl⟩
  | _ => exact ⟨rfl, rfl, rfl⟩

/-- The writes on keys leave the accounts alone. -/
theorem KeyWrite.accounts (h : KeyWrite key f) (db : Db) : SameAccounts db (f db) := by
  cases h <;> exact ⟨rfl, rfl, rfl⟩

end Frame

end Marketplace
