import Mathlib.Data.Finset.Basic
import Marketplace.Order.Requests

/-!
# The WebSocket gateway

The events that `delivery_tracking_service.py` builds, the registry of connections of
`gateway.py` with its two buckets for each order, and the role a connection gets when it
subscribes to an order. A registry operation runs under the registry's lock, in one step.
-/

namespace Marketplace

open Lib Txn DeliveryFlow DeliveryTracking

/-! ### Events -/

/-- A value in an event. -/
inductive Value
  | null
  | text (s : String)
  | int (n : ℤ)
  | coordinate (c : Coordinate)
  /-- `str(id)`. -/
  | id (i : Id)
  /-- `isoformat()`. -/
  | time (t : Time)
deriving DecidableEq, Repr

namespace Value

/-- A value, or `None`. -/
def ofOption {α : Type} (f : α → Value) (x : Option α) : Value := x.elim null f

/-- The value is a latitude or a longitude. -/
def isCoordinate : Value → Bool
  | coordinate _ => true
  | _ => false

/-- A text is no coordinate. -/
@[simp] theorem isCoordinate_text (s : String) : (text s).isCoordinate = false := rfl

/-- An identifier is no coordinate. -/
@[simp] theorem isCoordinate_id (i : Id) : (id i).isCoordinate = false := rfl

/-- A time is no coordinate. -/
@[simp] theorem isCoordinate_time (t : Time) : (time t).isCoordinate = false := rfl

/-- An integer, or none, is no coordinate. -/
@[simp] theorem isCoordinate_ofOption_int (x : Option ℤ) :
    (ofOption int x).isCoordinate = false := by
  cases x <;> rfl

/-- A time, or none, is no coordinate. -/
@[simp] theorem isCoordinate_ofOption_time (x : Option Time) :
    (ofOption time x).isCoordinate = false := by
  cases x <;> rfl

end Value

/-- The dictionary that is sent as a JSON object. -/
abbrev Event := List (String × Value)

namespace Event

/-- Some key names a coordinate, or some value is one. -/
def CarriesCoordinates (e : Event) : Prop :=
  ∃ entry ∈ e, entry.1 ∈ ["lat", "lng"] ∨ entry.2.isCoordinate = true

instance (e : Event) : Decidable e.CarriesCoordinates :=
  inferInstanceAs (Decidable (∃ entry ∈ e, entry.1 ∈ ["lat", "lng"] ∨ entry.2.isCoordinate = true))

/-- The events of delivery tracking. -/
def deliveryTypes : List Value :=
  [.text "delivery.location", .text "delivery.eta", .text "delivery.status"]

/-- A delivery event of the order. -/
def IsDelivery (e : Event) (orderId : Id) : Prop :=
  (∃ t ∈ deliveryTypes, e.lookup "type" = some t) ∧ e.lookup "order_id" = some (.id orderId)

instance (e : Event) (orderId : Id) : Decidable (e.IsDelivery orderId) :=
  inferInstanceAs (Decidable ((∃ t ∈ deliveryTypes, e.lookup "type" = some t) ∧
    e.lookup "order_id" = some (.id orderId)))

end Event

namespace DeliveryTracking

/-- `internal_location_event`. -/
def internalLocationEvent (delivery : Delivery) : Event :=
  [("type", .text "delivery.location"), ("order_id", .id delivery.orderId),
   ("lat", .ofOption .coordinate delivery.currentLat),
   ("lng", .ofOption .coordinate delivery.currentLng),
   ("at", .ofOption .time delivery.lastLocationAt),
   ("driver_id", .ofOption .id delivery.driverId)]

/-- `eta_event`. -/
def etaEvent (delivery : Delivery) : Event :=
  [("type", .text "delivery.eta"), ("order_id", .id delivery.orderId),
   ("eta_seconds", .ofOption .int delivery.currentEtaSeconds),
   ("eta_updated_at", .ofOption .time delivery.currentEtaUpdatedAt)]

/-- `status_event`. -/
def statusEvent (orderId : Id) (status : String) (startedAt deliveredAt : Option Time) : Event :=
  [("type", .text "delivery.status"), ("order_id", .id orderId), ("status", .text status)] ++
    startedAt.toList.map (fun t => ("started_at", .time t)) ++
    deliveredAt.toList.map fun t => ("delivered_at", .time t)

/-- The event for the customer carries no coordinates. -/
theorem etaEvent_safe (delivery : Delivery) : ¬(etaEvent delivery).CarriesCoordinates := by
  simp [etaEvent, Event.CarriesCoordinates]

/-- The event of a new status carries no coordinates. -/
theorem statusEvent_safe (orderId : Id) (status : String) (startedAt deliveredAt : Option Time) :
    ¬(statusEvent orderId status startedAt deliveredAt).CarriesCoordinates := by
  cases startedAt <;> cases deliveredAt <;> simp [statusEvent, Event.CarriesCoordinates]

end DeliveryTracking

/-! ### The registry -/

/-- The identity of a connection object. -/
abbrev ConnId := ℕ

/-- `DeliveryRole`. -/
inductive DeliveryRole
  | internal | customer
deriving DecidableEq, Repr

/-- `WSConnection`, with the user its handler has authenticated. -/
structure WSConnection where
  user : User
  conversations : Finset Id := ∅
  deliveryOrders : Finset Id := ∅
deriving DecidableEq

/-- The two buckets of an order in `_delivery_subs`. -/
structure Topic where
  internal : Finset ConnId := ∅
  customer : Finset ConnId := ∅
deriving DecidableEq

namespace Topic

/-- The connections in a bucket. -/
def bucket (topic : Topic) : DeliveryRole → Finset ConnId
  | .internal => topic.internal
  | .customer => topic.customer

/-- `topic[role].add(conn)`. -/
def add (topic : Topic) (role : DeliveryRole) (conn : ConnId) : Topic :=
  match role with
  | .internal => { topic with internal := insert conn topic.internal }
  | .customer => { topic with customer := insert conn topic.customer }

/-- Both buckets without the connection; the topic goes once both are empty. -/
def discard (topic : Topic) (conn : ConnId) : Option Topic :=
  if topic.internal.erase conn = ∅ ∧ topic.customer.erase conn = ∅ then none
  else some { internal := topic.internal.erase conn, customer := topic.customer.erase conn }

end Topic

/-- The subscribers without the connection; the conversation goes once there are none. -/
def discardSub (subs : Finset ConnId) (conn : ConnId) : Option (Finset ConnId) :=
  if subs.erase conn = ∅ then none else some (subs.erase conn)

/-- `ConnectionRegistry`, with the connection objects it refers to. -/
structure ConnectionRegistry where
  connections : ConnId → Option WSConnection := fun _ => none
  subs : Id → Option (Finset ConnId) := fun _ => none
  deliverySubs : Id → Option Topic := fun _ => none

namespace ConnectionRegistry

/-- A change of one connection object. -/
def modifyConnection (r : ConnectionRegistry) (conn : ConnId) (f : WSConnection → WSConnection) :
    ConnectionRegistry :=
  { r with connections := Function.update r.connections conn ((r.connections conn).map f) }

/-- A connection that its handler has just made. -/
def connect (r : ConnectionRegistry) (conn : ConnId) (user : User) : ConnectionRegistry :=
  { r with connections := Function.update r.connections conn (some { user }) }

/-- `subscribe`. -/
def subscribe (r : ConnectionRegistry) (conn : ConnId) (conversationId : Id) :
    ConnectionRegistry :=
  let r := r.modifyConnection conn fun c =>
    { c with conversations := insert conversationId c.conversations }
  { r with
    subs := Function.update r.subs conversationId
      (some (insert conn ((r.subs conversationId).getD ∅))) }

/-- `unsubscribe`. -/
def unsubscribe (r : ConnectionRegistry) (conn : ConnId) (conversationId : Id) :
    ConnectionRegistry :=
  let r := r.modifyConnection conn fun c =>
    { c with conversations := c.conversations.erase conversationId }
  { r with
    subs := Function.update r.subs conversationId
      ((r.subs conversationId).bind fun subs => discardSub subs conn) }

/-- `subscribers_of`. -/
def subscribersOf (r : ConnectionRegistry) (conversationId : Id) : Finset ConnId :=
  (r.subs conversationId).getD ∅

/-- `subscribe_delivery`. -/
def subscribeDelivery (r : ConnectionRegistry) (conn : ConnId) (orderId : Id)
    (role : DeliveryRole) : ConnectionRegistry :=
  let r := r.modifyConnection conn fun c =>
    { c with deliveryOrders := insert orderId c.deliveryOrders }
  { r with
    deliverySubs := Function.update r.deliverySubs orderId
      (some (((r.deliverySubs orderId).getD {}).add role conn)) }

/-- `unsubscribe_delivery`. -/
def unsubscribeDelivery (r : ConnectionRegistry) (conn : ConnId) (orderId : Id) :
    ConnectionRegistry :=
  let r := r.modifyConnection conn fun c =>
    { c with deliveryOrders := c.deliveryOrders.erase orderId }
  { r with
    deliverySubs := Function.update r.deliverySubs orderId
      ((r.deliverySubs orderId).bind fun topic => topic.discard conn) }

/-- `delivery_internal_subscribers` and `delivery_customer_subscribers`. -/
def deliverySubscribers (r : ConnectionRegistry) (role : DeliveryRole) (orderId : Id) :
    Finset ConnId :=
  (r.deliverySubs orderId).elim ∅ fun topic => topic.bucket role

/-- `disconnect_all`. -/
def disconnectAll (r : ConnectionRegistry) (conn : ConnId) : ConnectionRegistry :=
  match r.connections conn with
  | none => r
  | some c =>
    { connections := Function.update r.connections conn
        (some { c with conversations := ∅, deliveryOrders := ∅ })
      subs := fun conversationId =>
        if conversationId ∈ c.conversations then
          (r.subs conversationId).bind fun subs => discardSub subs conn
        else r.subs conversationId
      deliverySubs := fun orderId =>
        if orderId ∈ c.deliveryOrders then
          (r.deliverySubs orderId).bind fun topic => topic.discard conn
        else r.deliverySubs orderId }

/-- The connection is in one of the buckets of the order. -/
def Subscribed (r : ConnectionRegistry) (conn : ConnId) (orderId : Id) : Prop :=
  ∃ role, conn ∈ r.deliverySubscribers role orderId

end ConnectionRegistry

/-! ### Subscribing to an order -/

namespace Gateway

/-- The bucket for a role. -/
def deliveryRole : TrackingRole → Option DeliveryRole
  | .none => none
  | .customer => some .customer
  | _ => some .internal

/-- The bucket of a user in the order that `load_order` has found. -/
def roleInOrder (user : User) : Option Order → Tx (Option DeliveryRole)
  | none => pure none
  | some order => do
    let role ← resolveRole user order
    pure (deliveryRole role)

/-- `_resolve_delivery_role`, in a session of its own. -/
def resolveDeliveryRole (orderId : Id) (user : User) : Tx (Option DeliveryRole) := do
  let order ← loadOrder orderId
  roleInOrder user order

end Gateway

/-! ### Buckets before and after -/

namespace Topic

/-- Nobody has subscribed to a new topic. -/
@[simp] theorem bucket_empty (role : DeliveryRole) : ({} : Topic).bucket role = ∅ := by
  cases role <;> rfl

/-- A subscription adds its connection to the bucket of its role alone. -/
@[simp] theorem mem_bucket_add {topic : Topic} {role role' : DeliveryRole} {conn c : ConnId} :
    c ∈ (topic.add role conn).bucket role' ↔
      (c = conn ∧ role' = role) ∨ c ∈ topic.bucket role' := by
  cases role <;> cases role' <;> simp [add, bucket]

/-- Discarding a connection leaves the others in their buckets. -/
theorem mem_discard {topic topic' : Topic} {conn c : ConnId} {role : DeliveryRole}
    (h : topic.discard conn = some topic') :
    c ∈ topic'.bucket role ↔ c ≠ conn ∧ c ∈ topic.bucket role := by
  unfold discard at h
  split at h
  · cases h
  · obtain rfl := Option.some.inj h
    cases role <;> simp [bucket]

/-- A topic goes when its only subscriber goes. -/
theorem discard_eq_none {topic : Topic} {conn c : ConnId} {role : DeliveryRole}
    (h : topic.discard conn = none) (hc : c ∈ topic.bucket role) : c = conn := by
  unfold discard at h
  split at h
  · next hempty =>
    by_contra hne
    cases role with
    | internal => exact Finset.notMem_empty c (hempty.1 ▸ Finset.mem_erase.mpr ⟨hne, hc⟩)
    | customer => exact Finset.notMem_empty c (hempty.2 ▸ Finset.mem_erase.mpr ⟨hne, hc⟩)
  · cases h

end Topic

namespace ConnectionRegistry

variable {r : ConnectionRegistry} {conn c : ConnId} {orderId o : Id} {role role' : DeliveryRole}

/-- A new connection has subscribed to no order. -/
@[simp] theorem deliverySubscribers_connect {user : User} :
    (r.connect conn user).deliverySubscribers role o = r.deliverySubscribers role o := rfl

/-- Subscribing to a conversation leaves the orders alone. -/
@[simp] theorem deliverySubscribers_subscribe {conversationId : Id} :
    (r.subscribe conn conversationId).deliverySubscribers role o =
      r.deliverySubscribers role o := rfl

/-- Unsubscribing from a conversation leaves the orders alone. -/
@[simp] theorem deliverySubscribers_unsubscribe {conversationId : Id} :
    (r.unsubscribe conn conversationId).deliverySubscribers role o =
      r.deliverySubscribers role o := rfl

/-- Subscribing to an order adds the connection to the one bucket of its role. -/
@[simp] theorem mem_subscribeDelivery :
    c ∈ (r.subscribeDelivery conn orderId role).deliverySubscribers role' o ↔
      (c = conn ∧ o = orderId ∧ role' = role) ∨ c ∈ r.deliverySubscribers role' o := by
  by_cases ho : o = orderId
  · subst ho
    cases htopic : r.deliverySubs o with
    | none => simp [subscribeDelivery, deliverySubscribers, modifyConnection, htopic]
    | some topic => simp [subscribeDelivery, deliverySubscribers, modifyConnection, htopic]
  · simp [subscribeDelivery, deliverySubscribers, modifyConnection, ho]

/-- The same, where the topic may not be there. -/
theorem mem_bind_discard {topic : Option Topic} :
    c ∈ (topic.bind fun t => t.discard conn).elim ∅ (fun t => t.bucket role) ↔
      c ≠ conn ∧ c ∈ topic.elim ∅ fun t => t.bucket role := by
  cases topic with
  | none => simp
  | some t =>
    cases hd : t.discard conn with
    | none =>
      simp only [Option.bind_some, hd, Option.elim_none, Finset.notMem_empty, Option.elim_some,
        false_iff, not_and]
      exact fun hne hc => hne (Topic.discard_eq_none hd hc)
    | some t' =>
      simp only [Option.bind_some, hd, Option.elim_some]
      exact Topic.mem_discard hd

/-- Unsubscribing from an order takes the connection out of its buckets alone. -/
@[simp] theorem mem_unsubscribeDelivery :
    c ∈ (r.unsubscribeDelivery conn orderId).deliverySubscribers role o ↔
      (o = orderId → c ≠ conn) ∧ c ∈ r.deliverySubscribers role o := by
  by_cases ho : o = orderId
  · subst ho
    simpa [unsubscribeDelivery, deliverySubscribers, modifyConnection] using
      mem_bind_discard
  · simp [unsubscribeDelivery, deliverySubscribers, modifyConnection, ho]

/-- A connection that leaves adds nobody to a bucket. -/
theorem mem_of_mem_disconnectAll
    (h : c ∈ (r.disconnectAll conn).deliverySubscribers role o) :
    c ∈ r.deliverySubscribers role o := by
  unfold disconnectAll at h
  split at h
  · exact h
  · simp only [deliverySubscribers] at h ⊢
    split at h
    · exact (mem_bind_discard.mp h).2
    · exact h

/-! ### Whose connection it is -/

/-- The user of a connection. -/
def userOf (r : ConnectionRegistry) (conn : ConnId) : Option User :=
  (r.connections conn).map WSConnection.user

/-- A change that keeps the user of every connection. -/
theorem userOf_modifyConnection {f : WSConnection → WSConnection}
    (hf : ∀ c, (f c).user = c.user) : (r.modifyConnection conn f).userOf c = r.userOf c := by
  by_cases hc : c = conn
  · subst hc
    simp [modifyConnection, userOf, Function.comp_def, hf]
  · simp [modifyConnection, userOf, hc]

/-- A new connection belongs to the user who has authenticated. -/
@[simp] theorem userOf_connect_self {user : User} :
    (r.connect conn user).userOf conn = some user := by
  simp [connect, userOf]

/-- The other connections keep their users. -/
theorem userOf_connect_of_ne {user : User} (h : c ≠ conn) :
    (r.connect conn user).userOf c = r.userOf c := by
  simp [connect, userOf, h]

/-- Subscribing to a conversation changes no user. -/
@[simp] theorem userOf_subscribe {conversationId : Id} :
    (r.subscribe conn conversationId).userOf c = r.userOf c :=
  userOf_modifyConnection fun _ => rfl

/-- Unsubscribing from a conversation changes no user. -/
@[simp] theorem userOf_unsubscribe {conversationId : Id} :
    (r.unsubscribe conn conversationId).userOf c = r.userOf c :=
  userOf_modifyConnection fun _ => rfl

/-- Subscribing to an order changes no user. -/
@[simp] theorem userOf_subscribeDelivery :
    (r.subscribeDelivery conn orderId role).userOf c = r.userOf c :=
  userOf_modifyConnection fun _ => rfl

/-- Unsubscribing from an order changes no user. -/
@[simp] theorem userOf_unsubscribeDelivery :
    (r.unsubscribeDelivery conn orderId).userOf c = r.userOf c :=
  userOf_modifyConnection fun _ => rfl

/-- Leaving all topics changes no user. -/
@[simp] theorem userOf_disconnectAll : (r.disconnectAll conn).userOf c = r.userOf c := by
  unfold disconnectAll
  split
  · rfl
  · next d hd =>
    by_cases hc : c = conn
    · subst hc
      simp [userOf, hd]
    · simp [userOf, hc]

end ConnectionRegistry

end Marketplace
