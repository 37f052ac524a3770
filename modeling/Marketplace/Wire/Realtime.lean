import Marketplace.Realtime.Loop
import Marketplace.Wire.Messages

/-!
# The frames of the WebSocket

The control frames of `ws_client.dart` and the loop of `handle_ws` that reads them; the
events of `gateway.py` and `_onRaw`, which reads these. The client names a channel where the
gateway names an identifier: of all frames the gateway understands the ping alone, and the
client decodes every event to one on no channel and without data.
-/

namespace Marketplace

open Lib

/-! ### Channels and frames of the client -/

/-- A channel of the client. -/
inductive Channel
  | conversation (id : Id)
  | delivery (orderId : Id)
deriving DecidableEq, Repr

/-- `conversationChannel` and `deliveryChannel`. -/
def Channel.name : Channel → String
  | conversation id => "conversation:" ++ uuidStr id
  | delivery orderId => "delivery:" ++ uuidStr orderId

/-- A control frame that the client sends. -/
inductive ControlFrame
  | subscribe (channel : Channel)
  | unsubscribe (channel : Channel)
  | typing (conversationId : Id) (isTyping : Bool)
  | ping
deriving DecidableEq, Repr

/-- The message that the client hands to `_send`. -/
def ControlFrame.toJson : ControlFrame → Json.Entries
  | subscribe channel => [("type", .str "subscribe"), ("channel", .str channel.name)]
  | unsubscribe channel => [("type", .str "unsubscribe"), ("channel", .str channel.name)]
  | typing conversationId isTyping =>
    [("type", .str "typing"), ("conversation_id", uuidJson conversationId),
     ("is_typing", .bool isTyping)]
  | ping => [("type", .str "ping")]

/-! ### The gateway reads a frame -/

/-- An operation of the gateway. -/
inductive WsOperation
  | ping
  | subscribe (channel : Channel)
  | unsubscribe (channel : Channel)
  | typing (conversationId : Id) (state : String)
deriving DecidableEq, Repr

/-- What the loop of `handle_ws` makes of a frame. -/
inductive Dispatched
  | operation (op : WsOperation)
  /-- An error frame is sent back. -/
  | error (code : String)
  | ignored
  /-- An exception that nothing catches ends the handler. -/
  | crashed
deriving DecidableEq, Repr

/-- `uuid.UUID(value)` in a `try`: a text that is no UUID goes on with `invalid`, and what is
no text has no method `replace`. -/
def withUuid (value : Json) (invalid : Dispatched) (k : Id → Dispatched) : Dispatched :=
  match value with
  | .str s => (parseUuid s).elim invalid k
  | _ => .crashed

/-- The branch for `subscribe`. -/
def dispatchSubscribe (msg : Json.Entries) : Dispatched :=
  match msg.at "delivery_order_id" with
  | .null =>
    if (msg.at "conversation_id").truthy = false then .error "missing_conversation_id"
    else withUuid (msg.at "conversation_id") (.error "invalid_conversation_id") fun cid =>
      .operation (.subscribe (.conversation cid))
  | value => withUuid value (.error "invalid_delivery_order_id") fun oid =>
      .operation (.subscribe (.delivery oid))

/-- The branch for `unsubscribe`. -/
def dispatchUnsubscribe (msg : Json.Entries) : Dispatched :=
  match msg.at "delivery_order_id" with
  | .null =>
    if (msg.at "conversation_id").truthy = false then .ignored
    else withUuid (msg.at "conversation_id") .ignored fun cid =>
      .operation (.unsubscribe (.conversation cid))
  | value => withUuid value .ignored fun oid => .operation (.unsubscribe (.delivery oid))

/-- The branch for `typing`. -/
def dispatchTyping (msg : Json.Entries) : Dispatched :=
  match msg.at "state" with
  | .str state =>
    if state ∉ ["start", "stop"] ∨ (msg.at "conversation_id").truthy = false then .ignored
    else withUuid (msg.at "conversation_id") .ignored fun cid => .operation (.typing cid state)
  | _ => .ignored

/-- The loop of `handle_ws` on one frame. -/
def dispatch (msg : Json.Entries) : Dispatched :=
  match msg.at "type" with
  | .str "ping" => .operation .ping
  | .str "subscribe" => dispatchSubscribe msg
  | .str "unsubscribe" => dispatchUnsubscribe msg
  | .str "typing" => dispatchTyping msg
  | _ => .error "unknown_type"

/-- The operation that a frame of the client asks for. -/
def ControlFrame.operation : ControlFrame → WsOperation
  | subscribe channel => .subscribe channel
  | unsubscribe channel => .unsubscribe channel
  | typing conversationId isTyping =>
    .typing conversationId (if isTyping then "start" else "stop")
  | ping => .ping

/-- What the gateway makes of each frame of the client. -/
theorem dispatch_toJson (frame : ControlFrame) :
    dispatch frame.toJson = match frame with
      | .subscribe _ => .error "missing_conversation_id"
      | .unsubscribe _ => .ignored
      | .typing _ _ => .ignored
      | .ping => .operation .ping := by
  cases frame with
  | subscribe channel => rfl
  | unsubscribe channel => rfl
  | typing conversationId isTyping => rfl
  | ping => rfl

section Loop

variable (p : Gateway.Parsers) (db : Db) (user : User) (conn : ConnId) (r : ConnectionRegistry)

/-- What the loop does on an operation. -/
def WsOperation.serve : WsOperation → Gateway.Served
  | ping => Gateway.answerPing conn r
  | subscribe (.conversation cid) => Gateway.joinConversation db user conn r cid
  | subscribe (.delivery oid) => Gateway.joinDelivery db user conn r oid
  | unsubscribe (.conversation cid) => .goOn (r.unsubscribe conn cid) []
  | unsubscribe (.delivery oid) => .goOn (r.unsubscribeDelivery conn oid) []
  | typing cid state => Gateway.relayTyping user conn r cid state

/-- What the loop does on what it makes of a frame. -/
def Dispatched.serve : Dispatched → Gateway.Served
  | operation op => op.serve db user conn r
  | error code => Gateway.answerError conn r code
  | ignored => .goOn r []
  | crashed => .raise .attributeError

variable {p db user conn r} {value : Json}

/-- Both readings of an identifier agree, if the parsers read UUIDs as Python does. -/
theorem withUuid_cases (hp : p.uuid = parseUuid) (hvalue : value ≠ .null) (invalid : Dispatched)
    (k : Id → Dispatched) :
    (p.uuidOf value = .error .valueError ∧ withUuid value invalid k = invalid) ∨
      (p.uuidOf value = .error .attributeError ∧ withUuid value invalid k = .crashed) ∨
      ∃ id, p.uuidOf value = .ok id ∧ withUuid value invalid k = k id := by
  cases value with
  | null => exact absurd rfl hvalue
  | str s =>
    simp only [Gateway.Parsers.uuidOf, withUuid, hp]
    cases parseUuid s with
    | none => exact .inl ⟨rfl, rfl⟩
    | some id => exact .inr (.inr ⟨id, rfl, rfl⟩)
  | _ => exact .inr (.inl ⟨rfl, rfl⟩)

/-- `subscribe` with a `delivery_order_id`. -/
theorem serveSubscribeDelivery_eq (hp : p.uuid = parseUuid) (hvalue : value ≠ .null) :
    Gateway.serveSubscribeDelivery p db user conn r value =
      (withUuid value (.error "invalid_delivery_order_id") fun oid =>
        .operation (.subscribe (.delivery oid))).serve db user conn r := by
  unfold Gateway.serveSubscribeDelivery
  rcases withUuid_cases hp hvalue (.error "invalid_delivery_order_id") fun oid =>
    .operation (.subscribe (.delivery oid)) with ⟨h, h'⟩ | ⟨h, h'⟩ | ⟨id, h, h'⟩ <;>
    rw [h, h'] <;> rfl

/-- `unsubscribe` with a `delivery_order_id`. -/
theorem serveUnsubscribeDelivery_eq (hp : p.uuid = parseUuid) (hvalue : value ≠ .null) :
    Gateway.serveUnsubscribeDelivery p conn r value =
      (withUuid value .ignored fun oid =>
        .operation (.unsubscribe (.delivery oid))).serve db user conn r := by
  unfold Gateway.serveUnsubscribeDelivery
  rcases withUuid_cases hp hvalue .ignored fun oid => .operation (.unsubscribe (.delivery oid)) with
    ⟨h, h'⟩ | ⟨h, h'⟩ | ⟨id, h, h'⟩ <;> rw [h, h'] <;> rfl

/-- `subscribe` with a `conversation_id`. -/
theorem serveSubscribeConversation_eq (hp : p.uuid = parseUuid) :
    Gateway.serveSubscribeConversation p db user conn r value =
      (if value.truthy = false then .error "missing_conversation_id"
        else withUuid value (.error "invalid_conversation_id") fun cid =>
          .operation (.subscribe (.conversation cid)) : Dispatched).serve db user conn r := by
  unfold Gateway.serveSubscribeConversation
  by_cases hfalsy : value.truthy = false
  · rw [if_pos hfalsy, if_pos hfalsy]
    rfl
  · rw [if_neg hfalsy, if_neg hfalsy]
    have hvalue := Gateway.ne_null_of_truthy (Bool.eq_true_of_not_eq_false hfalsy)
    rcases withUuid_cases hp hvalue (.error "invalid_conversation_id") fun cid =>
      .operation (.subscribe (.conversation cid)) with ⟨h, h'⟩ | ⟨h, h'⟩ | ⟨id, h, h'⟩ <;>
      rw [h, h'] <;> rfl

/-- `unsubscribe` with a `conversation_id`. -/
theorem serveUnsubscribeConversation_eq (hp : p.uuid = parseUuid) :
    Gateway.serveUnsubscribeConversation p conn r value =
      (if value.truthy = false then .ignored
        else withUuid value .ignored fun cid =>
          .operation (.unsubscribe (.conversation cid)) : Dispatched).serve db user conn r := by
  unfold Gateway.serveUnsubscribeConversation
  by_cases hfalsy : value.truthy = false
  · rw [if_pos hfalsy, if_pos hfalsy]
    rfl
  · rw [if_neg hfalsy, if_neg hfalsy]
    have hvalue := Gateway.ne_null_of_truthy (Bool.eq_true_of_not_eq_false hfalsy)
    rcases withUuid_cases hp hvalue .ignored fun cid =>
      .operation (.unsubscribe (.conversation cid)) with ⟨h, h'⟩ | ⟨h, h'⟩ | ⟨id, h, h'⟩ <;>
      rw [h, h'] <;> rfl

/-- `typing`. -/
theorem serveTyping_eq (hp : p.uuid = parseUuid) {msg : Json.Entries} :
    Gateway.serveTyping p user conn r (msg.at "state") (msg.at "conversation_id") =
      (dispatchTyping msg).serve db user conn r := by
  unfold Gateway.serveTyping dispatchTyping
  generalize msg.at "conversation_id" = value
  cases msg.at "state" with
  | str state =>
    have hstate : Gateway.isTypingState (.str state) = false ↔ state ∉ ["start", "stop"] := by
      simp [Gateway.isTypingState]
    simp only [hstate]
    by_cases hidle : state ∉ ["start", "stop"] ∨ value.truthy = false
    · rw [if_pos hidle, if_pos hidle]
      rfl
    · rw [if_neg hidle, if_neg hidle]
      have hvalue := Gateway.ne_null_of_truthy
        (Bool.eq_true_of_not_eq_false fun hfalsy => hidle (.inr hfalsy))
      rcases withUuid_cases hp hvalue .ignored fun cid => .operation (.typing cid state) with
        ⟨h, h'⟩ | ⟨h, h'⟩ | ⟨id, h, h'⟩ <;> rw [h, h'] <;> rfl
  | _ => rfl

/-- **What the loop makes of a frame is what it does on it**, if it reads UUIDs as Python does. -/
theorem serveMessage_eq (hp : p.uuid = parseUuid) (msg : Json.Entries) :
    Gateway.serveMessage p db user conn r msg = (dispatch msg).serve db user conn r := by
  unfold Gateway.serveMessage dispatch
  cases msg.at "type" with
  | str type =>
    by_cases hping : type = "ping"
    · subst hping
      rfl
    by_cases hsubscribe : type = "subscribe"
    · subst hsubscribe
      simp only [dispatchSubscribe]
      cases msg.at "delivery_order_id" with
      | null => exact serveSubscribeConversation_eq hp
      | _ => exact serveSubscribeDelivery_eq hp (by simp)
    by_cases hunsubscribe : type = "unsubscribe"
    · subst hunsubscribe
      simp only [dispatchUnsubscribe]
      cases msg.at "delivery_order_id" with
      | null => exact serveUnsubscribeConversation_eq hp
      | _ => exact serveUnsubscribeDelivery_eq hp (by simp)
    by_cases htyping : type = "typing"
    · subst htyping
      exact serveTyping_eq hp
    simp [hping, hsubscribe, hunsubscribe, htyping, Dispatched.serve]
  | _ => rfl

end Loop

/-! ### The events of the gateway -/

/-- The JSON of a value in an event. -/
def Value.toJson (texts : TimeTexts) : Value → Json
  | null => .null
  | text s => .str s
  | int n => .int n
  | coordinate c => .double c
  | id i => uuidJson i
  | time t => texts.json t

/-- An event that the gateway sends on a channel. -/
inductive ChannelEvent
  /-- `broadcast_message_new`. -/
  | messageNew (conversationId : Id) (msg : Message)
  /-- `broadcast_message_read`. -/
  | messageRead (conversationId : Id) (msg : Message)
  | typing (conversationId : Id) (state : String) (sender : Id)
  | deliveryLocation (delivery : Delivery)
  | deliveryEta (delivery : Delivery)
  | deliveryStatus (orderId : Id) (status : String) (startedAt deliveredAt : Option Time)

namespace ChannelEvent

/-- The channel that the gateway sends the event on. -/
def channel : ChannelEvent → Channel
  | messageNew conversationId _ | messageRead conversationId _ | typing conversationId _ _ =>
    .conversation conversationId
  | deliveryLocation delivery | deliveryEta delivery => .delivery delivery.orderId
  | deliveryStatus orderId _ _ _ => .delivery orderId

/-- The `type` of the event. -/
def type : ChannelEvent → String
  | messageNew _ _ => "message.new"
  | messageRead _ _ => "message.read"
  | typing _ _ _ => "typing"
  | deliveryLocation _ => "delivery.location"
  | deliveryEta _ => "delivery.eta"
  | deliveryStatus _ _ _ _ => "delivery.status"

/-- The event as a JSON object. -/
def toJson (texts : TimeTexts) : ChannelEvent → Json.Entries
  | messageNew conversationId msg =>
    [("type", .str "message.new"), ("conversation_id", uuidJson conversationId),
     ("message", .obj (messageToResponse texts msg))]
  | messageRead conversationId msg =>
    [("type", .str "message.read"), ("conversation_id", uuidJson conversationId),
     ("message", .obj (messageToResponse texts msg))]
  | typing conversationId state sender =>
    [("type", .str "typing"), ("conversation_id", uuidJson conversationId),
     ("state", .str state), ("from", uuidJson sender)]
  | deliveryLocation delivery =>
    (DeliveryTracking.internalLocationEvent delivery).map fun e => (e.1, e.2.toJson texts)
  | deliveryEta delivery =>
    (DeliveryTracking.etaEvent delivery).map fun e => (e.1, e.2.toJson texts)
  | deliveryStatus orderId status startedAt deliveredAt =>
    (DeliveryTracking.statusEvent orderId status startedAt deliveredAt).map fun e =>
      (e.1, e.2.toJson texts)

end ChannelEvent

/-! ### The client reads a message -/

/-- `WsEvent`. -/
structure WsEvent where
  type : String
  channel : String
  data : Json.Entries

/-- `WsEvent.fromJson`. -/
def WsEvent.fromJson (json : Json.Entries) : Except Json.ReadError WsEvent := do
  let type ← Json.orNull Json.asString (json.at "type")
  let channel ← Json.orNull Json.asString (json.at "channel")
  let data ← Json.orNull Json.asMap (json.at "data")
  pure { type := type.getD "unknown", channel := channel.getD "", data := data.getD [] }

/-- What `_onRaw` does with a message. -/
inductive Received
  | pong
  | nothing
  | denied (channel : String)
  | event (e : WsEvent)

/-- `_onRaw`, after the message has been parsed. -/
def onRaw (json : Json.Entries) : Except Json.ReadError Received := do
  let type ← Json.orNull Json.asString (json.at "type")
  match type with
  | some "pong" => pure .pong
  | some "subscribed" => pure .nothing
  | some "error" =>
    let code ← Json.orNull Json.asString (json.at "code")
    let channel ← Json.orNull Json.asString (json.at "channel")
    match channel with
    | some channel => pure (if code = some "channel.forbidden" then .denied channel else .nothing)
    | none => pure .nothing
  | none | some "unknown" => pure .nothing
  | _ => do
    let e ← WsEvent.fromJson json
    pure (.event e)

/-- Every event reaches the client on no channel and without its data. -/
theorem onRaw_toJson (texts : TimeTexts) (e : ChannelEvent) :
    onRaw (e.toJson texts) = .ok (.event { type := e.type, channel := "", data := [] }) := by
  cases e with
  | messageNew conversationId msg => rfl
  | messageRead conversationId msg => rfl
  | typing conversationId state sender => rfl
  | deliveryLocation delivery => rfl
  | deliveryEta delivery => rfl
  | deliveryStatus orderId status startedAt deliveredAt =>
    cases startedAt <;> cases deliveredAt <;> rfl

/-! ### What the two sides agree on -/

/-- What one side sends the other. -/
inductive WireMessage
  | frame (frame : ControlFrame)
  | event (e : ChannelEvent)

/-- The receiver understands the message: the gateway treats a frame as its operation on its
identifier, and the client decodes an event to one on its channel, of its type and with its
fields. -/
def WireMessage.Understood (texts : TimeTexts) : WireMessage → Prop
  | frame f => dispatch f.toJson = .operation f.operation
  | event e => ∃ received, onRaw (e.toJson texts) = .ok (.event received) ∧
      received.type = e.type ∧ received.channel = e.channel.name ∧
      ∀ key value, (key, value) ∈ e.toJson texts → key ≠ "type" → received.data.at key = value

/-- A channel has a name. -/
theorem channel_name_ne_empty (channel : Channel) : channel.name ≠ "" := by
  intro h
  have hlength := congrArg String.length h
  cases channel with
  | conversation id => simp [Channel.name] at hlength
  | delivery orderId => simp [Channel.name] at hlength

/-- Of all that the two sides send, the ping alone is understood. -/
theorem understood_iff (texts : TimeTexts) (message : WireMessage) :
    message.Understood texts ↔ message = .frame .ping := by
  cases message with
  | frame f =>
    simp only [WireMessage.Understood, dispatch_toJson, WireMessage.frame.injEq]
    cases f with
    | subscribe channel => simp
    | unsubscribe channel => simp
    | typing conversationId isTyping => simp
    | ping => simp [ControlFrame.operation]
  | event e =>
    simp only [WireMessage.Understood, onRaw_toJson, reduceCtorEq, iff_false]
    rintro ⟨received, hreceived, -, hchannel, -⟩
    obtain rfl : _ = received := by simpa using hreceived
    exact channel_name_ne_empty e.channel hchannel.symm

/-- The gateway answers a subscription to conversation 20 with an error, and the client puts a
typing event of that conversation on no channel. -/
theorem conversation_not_understood :
    ¬(WireMessage.frame (.subscribe (.conversation 20))).Understood Sample.timeTexts ∧
      ¬(WireMessage.event (.typing 20 "start" 1)).Understood Sample.timeTexts := by
  constructor
  · intro h
    rw [WireMessage.Understood, dispatch_toJson] at h
    cases h
  · rintro ⟨received, hreceived, -, hchannel, -⟩
    rw [onRaw_toJson] at hreceived
    cases hreceived
    exact channel_name_ne_empty _ hchannel.symm

end Marketplace
