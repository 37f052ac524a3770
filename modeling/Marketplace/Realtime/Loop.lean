import Marketplace.Lib.Json
import Marketplace.Realtime.Registry

/-!
# The loop over the frames of a connection

`handle_ws` reads one text frame after another. It answers what it cannot parse, branches on the
value of `type`, and takes identifiers from values that a client chooses. `uuid.UUID` raises
`ValueError` for a text it cannot read, `TypeError` for `None` and `AttributeError` for a value
that is no text, and so does `.get` for a message that is no object; nothing in the loop catches
that one.
-/

namespace Marketplace

open Lib Txn DeliveryTracking

namespace Gateway

/-! ### Values of any type -/

/-- An exception in the loop. -/
inductive LoopError
  | jsonDecodeError
  | valueError
  | typeError
  | attributeError
  | recursionError
  /-- What the session of `_resolve_delivery_role` raises. -/
  | lookup (e : Err)
deriving DecidableEq, Repr

/-- `json.loads`, and `uuid.UUID` on texts, which raises `ValueError` for the others. -/
structure Parsers where
  loads : String → Except LoopError Json
  uuid : String → Option Id

/-- `uuid.UUID(value)`. -/
def Parsers.uuidOf (p : Parsers) : Json → Except LoopError Id
  | .null => .error .typeError
  | .str s => (p.uuid s).elim (.error .valueError) .ok
  | _ => .error .attributeError

/-- `state in ("start", "stop")`. -/
def isTypingState : Json → Bool
  | .str s => s = "start" ∨ s = "stop"
  | _ => false

/-! ### The handler -/

/-- What the loop does with a frame: it goes on with a registry after sending events, each to some
connections, or it closes the connection, or an exception escapes it. -/
inductive Served
  | goOn (registry : ConnectionRegistry) (sent : List (Finset ConnId × Event))
  | close (code : ℕ)
  | raise (e : LoopError)

/-- `CLOSE_FORBIDDEN`. -/
def closeForbidden : ℕ := 4403

/-- An error that the loop answers. -/
def errorEvent (error : String) : Event := [("type", .text "error"), ("error", .text error)]

/-- `_is_participant`. -/
def isParticipant (db : Db) (conversationId : Id) (user : User) : Bool :=
  (db.conversations.get conversationId).any fun conv =>
    user.role = .admin ∨ user.id ∈ [conv.userAId, conv.userBId]

section Handler

variable (p : Parsers) (db : Db) (user : User) (conn : ConnId) (r : ConnectionRegistry)

/-- The loop answers a frame and changes nothing. -/
def answerError (error : String) : Served := .goOn r [({conn}, errorEvent error)]

/-- `subscribe` to the delivery of an order. -/
def joinDelivery (oid : Id) : Served :=
  match ((resolveDeliveryRole oid user).session db).1 with
  | .error e => .raise (.lookup e)
  | .ok none => .close closeForbidden
  | .ok (some role) => .goOn (r.subscribeDelivery conn oid role)
      [({conn}, [("type", .text "delivery.subscribed"), ("order_id", .id oid)])]

/-- `subscribe` with a `delivery_order_id`. -/
def serveSubscribeDelivery (value : Json) : Served :=
  match p.uuidOf value with
  | .error .valueError | .error .typeError => answerError conn r "invalid_delivery_order_id"
  | .error e => .raise e
  | .ok oid => joinDelivery db user conn r oid

/-- `subscribe` to a conversation. -/
def joinConversation (cid : Id) : Served :=
  if isParticipant db cid user = true then
    .goOn (r.subscribe conn cid)
      [({conn}, [("type", .text "subscribed"), ("conversation_id", .id cid)])]
  else .close closeForbidden

/-- `subscribe` with a `conversation_id`. -/
def serveSubscribeConversation (value : Json) : Served :=
  if value.truthy = false then answerError conn r "missing_conversation_id"
  else match p.uuidOf value with
    | .error .valueError => answerError conn r "invalid_conversation_id"
    | .error e => .raise e
    | .ok cid => joinConversation db user conn r cid

/-- `unsubscribe` with a `delivery_order_id`. -/
def serveUnsubscribeDelivery (value : Json) : Served :=
  match p.uuidOf value with
  | .error .valueError | .error .typeError => .goOn r []
  | .error e => .raise e
  | .ok oid => .goOn (r.unsubscribeDelivery conn oid) []

/-- `unsubscribe` with a `conversation_id`. -/
def serveUnsubscribeConversation (value : Json) : Served :=
  if value.truthy = false then .goOn r []
  else match p.uuidOf value with
    | .error .valueError => .goOn r []
    | .error e => .raise e
    | .ok cid => .goOn (r.unsubscribe conn cid) []

/-- The subscribers of a conversation other than the user's own connections. -/
def otherSubscribers (cid : Id) : Finset ConnId :=
  (r.subscribersOf cid).filter fun other => (r.userOf other).map User.id ≠ some user.id

/-- `typing` in a conversation, for the subscribers of it if the connection is one. -/
def relayTyping (cid : Id) (state : String) : Served :=
  if cid ∈ r.conversationsOf conn then
    .goOn r [(otherSubscribers user r cid,
      [("type", .text "typing"), ("conversation_id", .id cid), ("state", .text state),
       ("from", .id user.id)])]
  else .goOn r []

/-- `typing`. -/
def serveTyping (state value : Json) : Served :=
  if isTypingState state = false ∨ value.truthy = false then .goOn r []
  else match p.uuidOf value with
    | .error .valueError => .goOn r []
    | .error e => .raise e
    | .ok cid => relayTyping user conn r cid (state.asString.toOption.getD "")

/-- `ping`. -/
def answerPing : Served := .goOn r [({conn}, [("type", .text "pong")])]

/-- The branches on `type`. -/
def serveMessage (msg : Json.Entries) : Served :=
  match msg.at "type" with
  | .str "ping" => answerPing conn r
  | .str "subscribe" =>
    match msg.at "delivery_order_id" with
    | .null => serveSubscribeConversation p db user conn r (msg.at "conversation_id")
    | value => serveSubscribeDelivery p db user conn r value
  | .str "unsubscribe" =>
    match msg.at "delivery_order_id" with
    | .null => serveUnsubscribeConversation p conn r (msg.at "conversation_id")
    | value => serveUnsubscribeDelivery p conn r value
  | .str "typing" => serveTyping p user conn r (msg.at "state") (msg.at "conversation_id")
  | _ => answerError conn r "unknown_type"

/-- One turn of the loop of `handle_ws`. -/
def serveFrame (raw : String) : Served :=
  match p.loads raw with
  | .error .jsonDecodeError => answerError conn r "invalid_json"
  | .error e => .raise e
  | .ok (.obj msg) => serveMessage p db user conn r msg
  | .ok _ => .raise .attributeError

end Handler

/-! ### The whole connection -/

/-- A connection after some frames. -/
inductive Socket
  | opened (registry : ConnectionRegistry)
  | closed (code : ℕ)
  | failed (e : LoopError)

/-- What comes next: a frame, served over a database, or what other connections do to the registry
meanwhile. -/
inductive Arrival
  | frame (raw : String) (db : Db)
  | others (change : ConnectionRegistry → ConnectionRegistry)

section Run

variable (p : Parsers) (user : User) (conn : ConnId)

/-- The connection after the next arrival. -/
def receive : Socket → Arrival → Socket
  | .opened r, .frame raw db =>
    match serveFrame p db user conn r raw with
    | .goOn r' _ => .opened r'
    | .close code => .closed code
    | .raise e => .failed e
  | .opened r, .others change => .opened (change r)
  | .closed code, _ => .closed code
  | .failed e, _ => .failed e

end Run

/-! ### What frames should do -/

/-- The conversation is one of the user's, or any if the user is an admin. -/
def MayJoinConversation (db : Db) (user : User) (cid : Id) : Prop :=
  ∃ conv, db.conversations.get cid = some conv ∧
    (user.role = .admin ∨ user.id = conv.userAId ∨ user.id = conv.userBId)

/-- The user is an admin, the seller, the customer or a driver of the order. -/
def MayTrackOrder (db : Db) (user : User) (oid : Id) : Prop :=
  ∃ order, db.orders.get oid = some order ∧ order.deletedAt = none ∧
    (user.role = .admin ∨ (user.role = .seller ∧ order.sellerId = user.id) ∨
      (user.role = .customer ∧ order.customerId = user.id) ∨
      (user.role = .driver ∧ (db.life oid).Names user.id))

section Frames

variable (p : Parsers)

/-- The message asks for a subscription that the user is not entitled to. -/
def ForbiddenMessage (db : Db) (user : User) (msg : Json.Entries) : Prop :=
  msg.at "type" = .str "subscribe" ∧ ∃ text id, p.uuid text = some id ∧
    ((msg.at "delivery_order_id" = .str text ∧ ¬MayTrackOrder db user id) ∨
      (msg.at "delivery_order_id" = .null ∧ msg.at "conversation_id" = .str text ∧
        ¬MayJoinConversation db user id))

/-- The frame holds such a message. -/
def AsksForbidden (db : Db) (user : User) (raw : String) : Prop :=
  ∃ msg : Json.Entries, p.loads raw = .ok (.obj msg) ∧ ForbiddenMessage p db user msg

/-- The value is the text of an identifier. -/
def IsUuid (value : Json) : Prop := ∃ text id, value = .str text ∧ p.uuid text = some id

/-- The message is one of the six that the gateway knows. -/
def WellFormedMessage (msg : Json.Entries) : Prop :=
  msg.at "type" = .str "ping" ∨
    ((msg.at "type" = .str "subscribe" ∨ msg.at "type" = .str "unsubscribe") ∧
      (IsUuid p (msg.at "delivery_order_id") ∨
        (msg.at "delivery_order_id" = .null ∧ IsUuid p (msg.at "conversation_id")))) ∨
    (msg.at "type" = .str "typing" ∧ isTypingState (msg.at "state") = true ∧
      IsUuid p (msg.at "conversation_id"))

/-- The frame holds such a message. -/
def WellFormed (raw : String) : Prop :=
  ∃ msg : Json.Entries, p.loads raw = .ok (.obj msg) ∧ WellFormedMessage p msg

/-- A frame that is served as it should be: no exception escapes, a malformed or unknown frame is
answered with an error or ignored, and the connection is closed only with 4403 and only on a
subscription that the user is not entitled to. -/
structure ServedWell (db : Db) (user : User) (conn : ConnId) (r : ConnectionRegistry)
    (raw : String) : Prop where
  noEscape : ∀ e, serveFrame p db user conn r raw ≠ .raise e
  malformed : ¬WellFormed p raw → serveFrame p db user conn r raw = .goOn r [] ∨
    ∃ error, serveFrame p db user conn r raw = answerError conn r error
  closes : ∀ code, serveFrame p db user conn r raw = .close code →
    code = closeForbidden ∧ AsksForbidden p db user raw

/-- The value is falsy, or a text. -/
def TextIfAny (value : Json) : Prop := value.truthy = true → ∃ text, value = .str text

/-- The lookup of a driver's assignments of the order finds one at most, if it is made. -/
def LookupSettles (db : Db) (user : User) (oid : Id) : Prop :=
  ∀ order, db.orders.get oid = some order → order.deletedAt = none → user.role = .driver →
    (db.deliveries.get oid).bind Delivery.driverId = some user.id ∨
      (drivingAssignments db oid user.id).length ≤ 1

/-- Wherever the gateway takes an identifier, the message has a text or nothing. -/
def TextIds (db : Db) (user : User) (msg : Json.Entries) : Prop :=
  (msg.at "type" = .str "subscribe" →
    (msg.at "delivery_order_id" = .null ∧ TextIfAny (msg.at "conversation_id")) ∨
      ∃ text, msg.at "delivery_order_id" = .str text ∧
        ∀ oid, p.uuid text = some oid → LookupSettles db user oid) ∧
  (msg.at "type" = .str "unsubscribe" →
    (msg.at "delivery_order_id" = .null ∧ TextIfAny (msg.at "conversation_id")) ∨
      ∃ text, msg.at "delivery_order_id" = .str text) ∧
  (msg.at "type" = .str "typing" → isTypingState (msg.at "state") = true →
    TextIfAny (msg.at "conversation_id"))

/-- The frame is no JSON, or an object that has texts where the gateway takes identifiers. -/
def Tame (db : Db) (user : User) (raw : String) : Prop :=
  p.loads raw = .error .jsonDecodeError ∨
    ∃ msg : Json.Entries, p.loads raw = .ok (.obj msg) ∧ TextIds p db user msg

end Frames

/-! ### The lookup of a role -/

section Lookup

variable {db : Db} {user : User} {oid : Id} {order : Order}

/-- Loading an order finds the live one. -/
theorem loadOrder_run : (loadOrder oid).run db =
    .ok ((db.orders.get oid).filter fun o => o.deletedAt = none, db) := rfl

/-- There is no role on an order that is not found. -/
theorem resolveDeliveryRole_run_none
    (h : (db.orders.get oid).filter (fun o => o.deletedAt = none) = none) :
    (resolveDeliveryRole oid user).run db = .ok (none, db) := by
  rw [resolveDeliveryRole, bind_eq, run_bind_of_ok loadOrder_run, h]
  rfl

/-- The role on a live order is the one resolved for the user. -/
theorem resolveDeliveryRole_run_some
    (h : (db.orders.get oid).filter (fun o => o.deletedAt = none) = some order) :
    (resolveDeliveryRole oid user).run db =
      ((resolveRole user order).run db).map fun r => (deliveryRole r.1, r.2) := by
  rw [resolveDeliveryRole, bind_eq, run_bind_of_ok loadOrder_run, h]
  cases hrole : (resolveRole user order).run db with
  | error e => exact run_bind_of_error hrole
  | ok r =>
    obtain ⟨role, t⟩ := r
    exact (run_bind_of_ok hrole).trans rfl

/-- The role of a user who is no driver takes no lookup. -/
theorem resolveRole_run_of_not_driver (order : Order) (h : user.role ≠ .driver) :
    ∃ role, (resolveRole user order).run db = .ok (role, db) ∧
      (role = .none → ¬(user.role = .admin ∨ (user.role = .seller ∧ order.sellerId = user.id) ∨
        (user.role = .customer ∧ order.customerId = user.id))) := by
  unfold resolveRole resolveRoleLoading
  split
  · next hadmin => exact ⟨.admin, rfl, nofun⟩
  · next hadmin =>
    split
    · next hseller => exact ⟨.seller, rfl, nofun⟩
    · next hseller =>
      split
      · next hcustomer => exact ⟨.customer, rfl, nofun⟩
      · next hcustomer =>
        refine ⟨.none, rfl, fun _ => ?_⟩
        rintro (hrole | hrole | hrole)
        · exact hadmin hrole
        · exact hseller hrole
        · exact hcustomer hrole

/-- A driver's role, if the lookup settles. -/
theorem resolveRole_run_of_driver (h : user.role = .driver)
    (hone : (db.deliveries.get order.id).bind Delivery.driverId = some user.id ∨
      (drivingAssignments db order.id user.id).length ≤ 1) :
    ∃ role, (resolveRole user order).run db = .ok (role, db) ∧
      (role = .none → ¬(db.life order.id).Names user.id) := by
  by_cases hnames : (db.life order.id).Names user.id
  · refine ⟨.driver, ?_, nofun⟩
    rcases hone with hdelivery | hone
    · exact (resolveRole_driver h).mpr ⟨rfl, by rw [if_pos (by exact hdelivery)]⟩
    · exact resolveRole_of_names h hone hnames
  · exact ⟨.none, resolveRole_of_not_names h hnames, fun _ => hnames⟩

/-- A lookup that does not settle raises. -/
theorem resolveRole_run_error (h : user.role = .driver)
    (hdelivery : (db.deliveries.get order.id).bind Delivery.driverId ≠ some user.id)
    (hmany : 1 < (drivingAssignments db order.id user.id).length) :
    ∃ e, (resolveRole user order).run db = .error e := by
  cases hrun : (resolveRole user order).run db with
  | error e => exact ⟨e, rfl⟩
  | ok r =>
    obtain ⟨role, t⟩ := r
    obtain ⟨-, hresult⟩ := (resolveRole_driver h).mp hrun
    rw [if_neg (by exact hdelivery)] at hresult
    obtain ⟨a, hrows, -⟩ := hresult
    rw [hrows] at hmany
    cases a <;> simp at hmany

/-- What the lookup for a subscription finds. -/
theorem lookup_cases (db : Db) (user : User) (oid : Id) :
    (∃ role, ((resolveDeliveryRole oid user).session db).1 = .ok (some role) ∧
      LookupSettles db user oid) ∨
    (((resolveDeliveryRole oid user).session db).1 = .ok none ∧ LookupSettles db user oid ∧
      ¬MayTrackOrder db user oid) ∨
    ∃ e, ((resolveDeliveryRole oid user).session db).1 = .error e ∧
      ¬LookupSettles db user oid := by
  cases hfound : (db.orders.get oid).filter fun o => o.deletedAt = none with
  | none =>
    have hgone : ∀ order, db.orders.get oid = some order → order.deletedAt ≠ none := by
      intro order hget hlive
      rw [hget] at hfound
      simp [hlive] at hfound
    refine .inr (.inl ⟨by rw [session_of_run (resolveDeliveryRole_run_none hfound)], ?_, ?_⟩)
    · exact fun order hget hlive => absurd hlive (hgone order hget)
    · rintro ⟨order, hget, hlive, -⟩
      exact hgone order hget hlive
  | some order =>
    obtain ⟨hget, hlive⟩ := Option.filter_eq_some_iff.mp hfound
    obtain rfl : order.id = oid := Table.key_of_get hget
    have hrun := @resolveDeliveryRole_run_some db user order.id order hfound
    -- a role that is found gives a bucket, or none
    have hok : ∀ role, (resolveRole user order).run db = .ok (role, db) →
        ((resolveDeliveryRole order.id user).session db).1 = .ok (deliveryRole role) := by
      intro role hrole
      rw [hrole] at hrun
      rw [session_of_run hrun]
    have hsame : ∀ x, db.orders.get order.id = some x → x = order := fun x hx =>
      Option.some.inj (hx.symm.trans hget)
    have hfinish : ∀ role, (resolveRole user order).run db = .ok (role, db) →
        LookupSettles db user order.id → (role = .none → ¬MayTrackOrder db user order.id) →
        (∃ role, ((resolveDeliveryRole order.id user).session db).1 = .ok (some role) ∧
          LookupSettles db user order.id) ∨
        (((resolveDeliveryRole order.id user).session db).1 = .ok none ∧
          LookupSettles db user order.id ∧ ¬MayTrackOrder db user order.id) := by
      intro role hrole hsettles hnone
      cases role with
      | none => exact .inr ⟨hok _ hrole, hsettles, hnone rfl⟩
      | _ => exact .inl ⟨_, hok _ hrole, hsettles⟩
    by_cases hdriver : user.role = .driver
    · by_cases hone : (db.deliveries.get order.id).bind Delivery.driverId = some user.id ∨
          (drivingAssignments db order.id user.id).length ≤ 1
      · obtain ⟨role, hrole, hnone⟩ := resolveRole_run_of_driver hdriver hone
        refine or_assoc.mp (.inl (hfinish role hrole (fun _ _ _ _ => hone) fun hr => ?_))
        rintro ⟨x, -, -, hx⟩
        rw [hdriver] at hx
        simp only [reduceCtorEq, false_and, false_or, true_and] at hx
        exact hnone hr hx
      · rw [not_or, not_le] at hone
        obtain ⟨e, he⟩ := resolveRole_run_error hdriver hone.1 hone.2
        rw [he] at hrun
        refine .inr (.inr ⟨e, by rw [session, hrun]; rfl, fun hsettles => ?_⟩)
        rcases hsettles order hget (by simpa using hlive) hdriver with h | h
        · exact hone.1 h
        · omega
    · obtain ⟨role, hrole, hnone⟩ := resolveRole_run_of_not_driver order hdriver
      refine or_assoc.mp (.inl (hfinish role hrole (fun _ _ _ h => absurd h hdriver) fun hr => ?_))
      rintro ⟨x, hx, -, hroles⟩
      obtain rfl := hsame x hx
      refine hnone hr ?_
      simpa [hdriver] using hroles

end Lookup

/-! ### One frame -/

section Verdicts

variable {p : Parsers} {db : Db} {user : User} {conn : ConnId} {r : ConnectionRegistry}

/-- A value that is not null is the text of an identifier, another text, or no text. -/
theorem uuidOf_cases (p : Parsers) {value : Json} (h : value ≠ .null) :
    (∃ text id, value = .str text ∧ p.uuid text = some id ∧ p.uuidOf value = .ok id) ∨
    (∃ text, value = .str text ∧ p.uuid text = none ∧ p.uuidOf value = .error .valueError) ∨
    ((∀ text, value ≠ .str text) ∧ p.uuidOf value = .error .attributeError) := by
  cases value with
  | null => exact absurd rfl h
  | str text =>
    cases huuid : p.uuid text with
    | none => exact .inr (.inl ⟨text, rfl, huuid, by rw [Parsers.uuidOf, huuid]; rfl⟩)
    | some id => exact .inl ⟨text, id, rfl, huuid, by rw [Parsers.uuidOf, huuid]; rfl⟩
  | _ => exact .inr (.inr ⟨nofun, rfl⟩)

/-- `null` is not truthy. -/
theorem ne_null_of_truthy {value : Json} (h : value.truthy = true) : value ≠ .null := by
  rintro rfl
  cases h

/-- A frame is served as it should be, or an exception escapes; the first when it is tame. -/
def Verdict (tame wellFormed forbidden : Prop) (conn : ConnId) (r : ConnectionRegistry)
    (served : Served) : Prop :=
  (tame ∧ ((wellFormed ∧ ∃ r' sent, served = .goOn r' sent) ∨
    (forbidden ∧ served = .close closeForbidden) ∨ served = .goOn r [] ∨
      ∃ error, served = answerError conn r error)) ∨
  (¬tame ∧ ∃ e, served = .raise e)

/-- A verdict under conditions that say as much or less. -/
theorem Verdict.imp {tame tame' wellFormed wellFormed' forbidden forbidden' : Prop}
    {served : Served} (h : Verdict tame wellFormed forbidden conn r served)
    (htame : tame ↔ tame') (hwell : wellFormed → wellFormed')
    (hforbidden : forbidden → forbidden') :
    Verdict tame' wellFormed' forbidden' conn r served := by
  rcases h with ⟨ht, hgo | hclose | hsilent⟩ | ⟨ht, hraise⟩
  · exact .inl ⟨htame.mp ht, .inl ⟨hwell hgo.1, hgo.2⟩⟩
  · exact .inl ⟨htame.mp ht, .inr (.inl ⟨hforbidden hclose.1, hclose.2⟩)⟩
  · exact .inl ⟨htame.mp ht, .inr (.inr hsilent)⟩
  · exact .inr ⟨fun h' => ht (htame.mpr h'), hraise⟩

/-- The verdict on `subscribe` to a delivery. -/
theorem verdict_subscribeDelivery {value : Json} (hvalue : value ≠ .null) :
    Verdict
      (∃ text, value = .str text ∧ ∀ oid, p.uuid text = some oid → LookupSettles db user oid)
      (IsUuid p value)
      (∃ text id, p.uuid text = some id ∧ value = .str text ∧ ¬MayTrackOrder db user id)
      conn r (serveSubscribeDelivery p db user conn r value) := by
  unfold serveSubscribeDelivery
  rcases uuidOf_cases p hvalue with
    ⟨text, id, rfl, huuid, hof⟩ | ⟨text, rfl, huuid, hof⟩ | ⟨hno, hof⟩
  · have htame : LookupSettles db user id →
        ∃ text', Json.str text = .str text' ∧ ∀ oid, p.uuid text' = some oid →
          LookupSettles db user oid := by
      intro hsettles
      refine ⟨text, rfl, fun oid hoid => ?_⟩
      obtain rfl := Option.some.inj (huuid.symm.trans hoid)
      exact hsettles
    rw [hof]
    rcases lookup_cases db user id with ⟨role, hrole, hsettles⟩ | ⟨hnone, hsettles, hnot⟩ |
      ⟨e, he, hsettles⟩
    · simp only [joinDelivery, hrole]
      exact .inl ⟨htame hsettles, .inl ⟨⟨text, id, rfl, huuid⟩, _, _, rfl⟩⟩
    · simp only [joinDelivery, hnone]
      exact .inl ⟨htame hsettles, .inr (.inl ⟨⟨text, id, huuid, rfl, hnot⟩, rfl⟩)⟩
    · simp only [joinDelivery, he]
      refine .inr ⟨?_, _, rfl⟩
      rintro ⟨text', htext, hall⟩
      obtain rfl := Json.str.inj htext
      exact hsettles (hall id huuid)
  · rw [hof]
    refine .inl ⟨⟨text, rfl, fun oid hoid => ?_⟩, .inr (.inr (.inr ⟨_, rfl⟩))⟩
    rw [huuid] at hoid
    cases hoid
  · rw [hof]
    refine .inr ⟨?_, _, rfl⟩
    rintro ⟨text, htext, -⟩
    exact hno text htext

/-- The participant check is the right to join. -/
theorem isParticipant_iff {cid : Id} :
    isParticipant db cid user = true ↔ MayJoinConversation db user cid := by
  unfold isParticipant MayJoinConversation
  cases db.conversations.get cid with
  | none => simp
  | some conv => simp

/-- The verdict on `subscribe` to a conversation. -/
theorem verdict_subscribeConversation (value : Json) :
    Verdict (TextIfAny value) (IsUuid p value)
      (∃ text id, p.uuid text = some id ∧ value = .str text ∧ ¬MayJoinConversation db user id)
      conn r (serveSubscribeConversation p db user conn r value) := by
  unfold serveSubscribeConversation
  by_cases hfalsy : value.truthy = false
  · rw [if_pos hfalsy]
    refine .inl ⟨fun htrue => ?_, .inr (.inr (.inr ⟨_, rfl⟩))⟩
    rw [hfalsy] at htrue
    cases htrue
  · rw [if_neg hfalsy]
    have htrue : value.truthy = true := Bool.not_eq_false _ ▸ hfalsy
    rcases uuidOf_cases p (ne_null_of_truthy htrue) with
      ⟨text, id, rfl, huuid, hof⟩ | ⟨text, rfl, huuid, hof⟩ | ⟨hno, hof⟩
    · rw [hof]
      simp only [joinConversation]
      by_cases hjoin : isParticipant db id user = true
      · rw [if_pos hjoin]
        exact .inl ⟨fun _ => ⟨text, rfl⟩, .inl ⟨⟨text, id, rfl, huuid⟩, _, _, rfl⟩⟩
      · rw [if_neg hjoin]
        have hnot : ¬MayJoinConversation db user id := fun h => hjoin (isParticipant_iff.mpr h)
        exact .inl ⟨fun _ => ⟨text, rfl⟩, .inr (.inl ⟨⟨text, id, huuid, rfl, hnot⟩, rfl⟩)⟩
    · rw [hof]
      exact .inl ⟨fun _ => ⟨text, rfl⟩, .inr (.inr (.inr ⟨_, rfl⟩))⟩
    · rw [hof]
      refine .inr ⟨fun hany => ?_, _, rfl⟩
      obtain ⟨text, htext⟩ := hany htrue
      exact hno text htext

/-- The verdict on `unsubscribe` from a delivery. -/
theorem verdict_unsubscribeDelivery {value : Json} (hvalue : value ≠ .null) :
    Verdict (∃ text, value = .str text) (IsUuid p value) False conn r
      (serveUnsubscribeDelivery p conn r value) := by
  unfold serveUnsubscribeDelivery
  rcases uuidOf_cases p hvalue with
    ⟨text, id, rfl, huuid, hof⟩ | ⟨text, rfl, huuid, hof⟩ | ⟨hno, hof⟩
  · rw [hof]
    exact .inl ⟨⟨text, rfl⟩, .inl ⟨⟨text, id, rfl, huuid⟩, _, _, rfl⟩⟩
  · rw [hof]
    exact .inl ⟨⟨text, rfl⟩, .inr (.inr (.inl rfl))⟩
  · rw [hof]
    exact .inr ⟨fun ⟨text, htext⟩ => hno text htext, _, rfl⟩

/-- The verdict on `unsubscribe` from a conversation. -/
theorem verdict_unsubscribeConversation (value : Json) :
    Verdict (TextIfAny value) (IsUuid p value) False conn r
      (serveUnsubscribeConversation p conn r value) := by
  unfold serveUnsubscribeConversation
  by_cases hfalsy : value.truthy = false
  · rw [if_pos hfalsy]
    refine .inl ⟨fun htrue => ?_, .inr (.inr (.inl rfl))⟩
    rw [hfalsy] at htrue
    cases htrue
  · rw [if_neg hfalsy]
    have htrue : value.truthy = true := Bool.not_eq_false _ ▸ hfalsy
    rcases uuidOf_cases p (ne_null_of_truthy htrue) with
      ⟨text, id, rfl, huuid, hof⟩ | ⟨text, rfl, huuid, hof⟩ | ⟨hno, hof⟩
    · rw [hof]
      exact .inl ⟨fun _ => ⟨text, rfl⟩, .inl ⟨⟨text, id, rfl, huuid⟩, _, _, rfl⟩⟩
    · rw [hof]
      exact .inl ⟨fun _ => ⟨text, rfl⟩, .inr (.inr (.inl rfl))⟩
    · rw [hof]
      refine .inr ⟨fun hany => ?_, _, rfl⟩
      obtain ⟨text, htext⟩ := hany htrue
      exact hno text htext

/-- The verdict on `typing`. -/
theorem verdict_typing (state value : Json) :
    Verdict (isTypingState state = true → TextIfAny value)
      (isTypingState state = true ∧ IsUuid p value) False conn r
      (serveTyping p user conn r state value) := by
  unfold serveTyping
  by_cases hidle : isTypingState state = false ∨ value.truthy = false
  · rw [if_pos hidle]
    refine .inl ⟨fun hstate htrue => ?_, .inr (.inr (.inl rfl))⟩
    rcases hidle with h | h
    · rw [h] at hstate
      cases hstate
    · rw [h] at htrue
      cases htrue
  · rw [if_neg hidle]
    rw [not_or, Bool.not_eq_false, Bool.not_eq_false] at hidle
    obtain ⟨hstate, htrue⟩ := hidle
    rcases uuidOf_cases p (ne_null_of_truthy htrue) with
      ⟨text, id, rfl, huuid, hof⟩ | ⟨text, rfl, huuid, hof⟩ | ⟨hno, hof⟩
    · rw [hof]
      simp only [relayTyping]
      have hwell : isTypingState state = true ∧ IsUuid p (.str text) :=
        ⟨hstate, text, id, rfl, huuid⟩
      split
      · exact .inl ⟨fun _ _ => ⟨text, rfl⟩, .inl ⟨hwell, _, _, rfl⟩⟩
      · exact .inl ⟨fun _ _ => ⟨text, rfl⟩, .inl ⟨hwell, _, _, rfl⟩⟩
    · rw [hof]
      exact .inl ⟨fun _ _ => ⟨text, rfl⟩, .inr (.inr (.inl rfl))⟩
    · rw [hof]
      refine .inr ⟨fun hany => ?_, _, rfl⟩
      obtain ⟨text, htext⟩ := hany hstate htrue
      exact hno text htext

/-- A message of any entries. -/
theorem verdict_message (msg : Json.Entries) :
    Verdict (TextIds p db user msg) (WellFormedMessage p msg) (ForbiddenMessage p db user msg)
      conn r (serveMessage p db user conn r msg) := by
  unfold serveMessage
  split
  · next htype =>
    refine .inl ⟨⟨?_, ?_, ?_⟩, .inl ⟨.inl htype, _, _, rfl⟩⟩ <;> simp [htype]
  · next htype =>
    split
    · next hnull =>
      refine (verdict_subscribeConversation _).imp ?_ ?_ ?_
      · simp [TextIds, htype, hnull]
      · exact fun h => .inr (.inl ⟨.inl htype, .inr ⟨hnull, h⟩⟩)
      · rintro ⟨text, id, huuid, htext, hnot⟩
        exact ⟨htype, text, id, huuid, .inr ⟨hnull, htext, hnot⟩⟩
    · next value hvalue =>
      have hne : msg.at "delivery_order_id" ≠ .null := hvalue
      refine (verdict_subscribeDelivery hne).imp ?_ ?_ ?_
      · simp [TextIds, htype, hne]
      · exact fun h => .inr (.inl ⟨.inl htype, .inl h⟩)
      · rintro ⟨text, id, huuid, htext, hnot⟩
        exact ⟨htype, text, id, huuid, .inl ⟨htext, hnot⟩⟩
  · next htype =>
    split
    · next hnull =>
      refine (verdict_unsubscribeConversation _).imp ?_ ?_ False.elim
      · simp [TextIds, htype, hnull]
      · exact fun h => .inr (.inl ⟨.inr htype, .inr ⟨hnull, h⟩⟩)
    · next value hvalue =>
      have hne : msg.at "delivery_order_id" ≠ .null := hvalue
      refine (verdict_unsubscribeDelivery hne).imp ?_ ?_ False.elim
      · simp [TextIds, htype, hne]
      · exact fun h => .inr (.inl ⟨.inr htype, .inl h⟩)
  · next htype =>
    refine (verdict_typing _ _).imp ?_ ?_ False.elim
    · simp [TextIds, htype]
    · exact fun h => .inr (.inr ⟨htype, h.1, h.2⟩)
  · next hping hsubscribe hunsubscribe htyping =>
    refine .inl ⟨⟨?_, ?_, ?_⟩, .inr (.inr (.inr ⟨_, rfl⟩))⟩
    · exact fun h => absurd h (by simpa using hsubscribe)
    · exact fun h => absurd h (by simpa using hunsubscribe)
    · exact fun h => absurd h (by simpa using htyping)

/-- Any frame. -/
theorem verdict_frame (raw : String) :
    Verdict (Tame p db user raw) (WellFormed p raw) (AsksForbidden p db user raw) conn r
      (serveFrame p db user conn r raw) := by
  unfold serveFrame
  split
  · next hloads => exact .inl ⟨.inl hloads, .inr (.inr (.inr ⟨_, rfl⟩))⟩
  · next e hother hloads =>
    refine .inr ⟨?_, _, rfl⟩
    rintro (h | ⟨msg, h, -⟩)
    · rw [hloads] at h
      exact hother (Except.error.inj h)
    · rw [hloads] at h
      cases h
  · next msg hloads =>
    have hmsg : ∀ msg' : Json.Entries, p.loads raw = .ok (.obj msg') → msg' = msg := by
      intro msg' h
      rw [hloads] at h
      exact (Json.obj.inj (Except.ok.inj h)).symm
    refine (verdict_message msg).imp ?_ (fun h => ⟨msg, hloads, h⟩) fun h => ⟨msg, hloads, h⟩
    constructor
    · exact fun h => .inr ⟨msg, hloads, h⟩
    · rintro (h | ⟨msg', h, hids⟩)
      · rw [hloads] at h
        cases h
      · exact hmsg msg' h ▸ hids
  · next value hno hloads =>
    refine .inr ⟨?_, _, rfl⟩
    rintro (h | ⟨msg, h, -⟩)
    · rw [hloads] at h
      cases h
    · rw [hloads] at h
      exact hno msg (Except.ok.inj h)

/-- A forbidden subscription is a message that the gateway knows. -/
theorem AsksForbidden.wellFormed {raw : String} (h : AsksForbidden p db user raw) :
    WellFormed p raw := by
  obtain ⟨msg, hloads, htype, text, id, huuid, ⟨htext, -⟩ | ⟨hnull, htext, -⟩⟩ := h
  · exact ⟨msg, hloads, .inr (.inl ⟨.inl htype, .inl ⟨text, id, htext, huuid⟩⟩)⟩
  · exact ⟨msg, hloads, .inr (.inl ⟨.inl htype, .inr ⟨hnull, text, id, htext, huuid⟩⟩)⟩

/-- Exactly the tame frames are served as they should be. -/
theorem servedWell_iff {raw : String} : ServedWell p db user conn r raw ↔ Tame p db user raw := by
  have hverdict : Verdict (Tame p db user raw) (WellFormed p raw) (AsksForbidden p db user raw) conn
      r (serveFrame p db user conn r raw) := verdict_frame raw
  constructor
  · intro h
    rcases hverdict with ⟨htame, -⟩ | ⟨-, e, he⟩
    · exact htame
    · exact absurd he (h.noEscape e)
  · intro htame
    rcases hverdict with ⟨-, hregular⟩ | ⟨hnot, -⟩
    · rcases hregular with ⟨hwell, r', sent, hgo⟩ | ⟨hforbidden, hclose⟩ | hsilent | ⟨error, herror⟩
      · refine ⟨fun e he => ?_, fun hnot => absurd hwell hnot, fun code hcode => ?_⟩
        · rw [hgo] at he
          cases he
        · rw [hgo] at hcode
          cases hcode
      · refine ⟨fun e he => ?_, fun hnot => absurd hforbidden.wellFormed hnot, fun code hcode => ?_⟩
        · rw [hclose] at he
          cases he
        · rw [hclose] at hcode
          obtain rfl := Served.close.inj hcode
          exact ⟨rfl, hforbidden⟩
      · refine ⟨fun e he => ?_, fun _ => .inl hsilent, fun code hcode => ?_⟩
        · rw [hsilent] at he
          cases he
        · rw [hsilent] at hcode
          cases hcode
      · refine ⟨fun e he => ?_, fun _ => .inr ⟨error, herror⟩, fun code hcode => ?_⟩
        · rw [herror] at he
          cases he
        · rw [herror] at hcode
          cases hcode
    · exact absurd htame hnot

end Verdicts

/-! ### Every run -/

section Runs

variable (p : Parsers) (user : User) (conn : ConnId)

/-- A frame that finds the connection open is served as it should be. -/
def ServesWell : Socket → Arrival → Prop
  | .opened r, .frame raw db => ServedWell p db user conn r raw
  | _, _ => True

/-- A frame that finds the connection open is tame. -/
def TameArrival : Socket → Arrival → Prop
  | .opened _, .frame raw db => Tame p db user raw
  | _, _ => True

/-- The loop survives what arrives: every frame is served as it should be, no exception has escaped
at the end, and a connection that the server has closed was closed with 4403. -/
structure Survives (r₀ : ConnectionRegistry) (arrivals : List Arrival) : Prop where
  steps : EachStep (receive p user conn) (ServesWell p user conn) (.opened r₀) arrivals
  noEscape : ∀ e, after (receive p user conn) (.opened r₀) arrivals ≠ .failed e
  closed : ∀ code, after (receive p user conn) (.opened r₀) arrivals = .closed code →
    code = closeForbidden

/-- The connection is open, or was closed with 4403. -/
def Sound : Socket → Prop
  | .opened _ => True
  | .closed code => code = closeForbidden
  | .failed _ => False

variable {p user conn}

/-- Every arrival keeps a socket sound. -/
theorem sound_receive {s : Socket} {a : Arrival} (hs : Sound s) (ha : ServesWell p user conn s a) :
    Sound (receive p user conn s a) := by
  cases s with
  | failed e => exact hs
  | closed code => exact hs
  | opened r =>
    cases a with
    | others change => trivial
    | frame raw db =>
      have hwell : ServedWell p db user conn r raw := ha
      rw [receive]
      cases hserved : serveFrame p db user conn r raw with
      | goOn r' sent => exact trivial
      | close code => exact (hwell.closes code hserved).1
      | raise e => exact absurd hserved (hwell.noEscape e)

/-- The loop survives a run exactly when every frame that finds the connection open is tame. -/
theorem survives_iff (p : Parsers) (user : User) (conn : ConnId) (r₀ : ConnectionRegistry)
    (arrivals : List Arrival) :
    Survives p user conn r₀ arrivals ↔
      EachStep (receive p user conn) (TameArrival p user) (.opened r₀) arrivals := by
  have hsame : ∀ s a, ServesWell p user conn s a ↔ TameArrival p user s a := by
    intro s a
    cases s with
    | opened r =>
      cases a with
      | frame raw db => exact servedWell_iff
      | others change => exact Iff.rfl
    | _ => exact Iff.rfl
  constructor
  · exact fun h => h.steps.mono fun s a hsa => (hsame s a).mp hsa
  · intro h
    have hsteps := h.mono fun s a hsa => (hsame s a).mpr hsa
    have hsound : Sound (after (receive p user conn) (.opened r₀) arrivals) :=
      hsteps.invariant (fun _ _ => sound_receive) trivial
    refine ⟨hsteps, fun e he => ?_, fun code hcode => ?_⟩
    · rw [he] at hsound
      exact hsound
    · rw [hcode] at hsound
      exact hsound

end Runs

/-- A frame that holds an empty array. -/
def listFrame : String := "[]"

/-- What `json.loads` makes of that frame. -/
def listParsers : Parsers where
  loads raw := if raw = listFrame then .ok (.arr []) else .error .jsonDecodeError
  uuid _ := none

/-- A frame that is an array ends the handler with an `AttributeError`. -/
theorem list_escapes : ¬∀ (p : Parsers) (user : User) (conn : ConnId) (r₀ : ConnectionRegistry)
    (arrivals : List Arrival), Survives p user conn r₀ arrivals := by
  intro h
  have hsurvives := h listParsers { id := 1, role := .customer } 0 {} [.frame listFrame {}]
  exact hsurvives.noEscape .attributeError rfl

end Gateway

end Marketplace
