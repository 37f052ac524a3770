import Marketplace.Lib.Run
import Marketplace.Realtime.Gateway

/-!
# The two directions of the registry

A connection knows its conversations and orders, and the registry knows the connections of each
conversation and of each order. Every operation changes both directions, and a topic that loses
its last connection goes.
-/

namespace Marketplace

open Lib

namespace ConnectionRegistry

/-- The conversations in the connection's own set. -/
def conversationsOf (r : ConnectionRegistry) (conn : ConnId) : Finset Id :=
  (r.connections conn).elim ∅ WSConnection.conversations

/-- The orders in the connection's own set. -/
def deliveryOrdersOf (r : ConnectionRegistry) (conn : ConnId) : Finset Id :=
  (r.connections conn).elim ∅ WSConnection.deliveryOrders

/-- The operations of the registry. -/
inductive RegistryOp
  | subscribe (conn : ConnId) (conversationId : Id)
  | unsubscribe (conn : ConnId) (conversationId : Id)
  | subscribeDelivery (conn : ConnId) (orderId : Id)
  | unsubscribeDelivery (conn : ConnId) (orderId : Id)
  | disconnectAll (conn : ConnId)
deriving DecidableEq

/-- The connection subscribes. -/
def RegistryOp.Subscribes (conn : ConnId) : RegistryOp → Prop
  | .subscribe c _ => c = conn
  | .subscribeDelivery c _ => c = conn
  | _ => False

/-- One operation; `bucket` says in which bucket a connection is put for an order. -/
def perform (bucket : ConnId → Id → DeliveryRole) (r : ConnectionRegistry) :
    RegistryOp → ConnectionRegistry
  | .subscribe conn conversationId => r.subscribe conn conversationId
  | .unsubscribe conn conversationId => r.unsubscribe conn conversationId
  | .subscribeDelivery conn orderId => r.subscribeDelivery conn orderId (bucket conn orderId)
  | .unsubscribeDelivery conn orderId => r.unsubscribeDelivery conn orderId
  | .disconnectAll conn => r.disconnectAll conn

/-- The registry after the operations, one after the other. -/
def registryAfter (bucket : ConnId → Id → DeliveryRole) : ConnectionRegistry → List RegistryOp →
    ConnectionRegistry :=
  Lib.after (perform bucket)

/-- Connection objects that have not subscribed yet, and an empty registry. -/
structure Fresh (r : ConnectionRegistry) : Prop where
  connections : ∀ conn, ∃ user, r.connections conn = some { user }
  subs : ∀ conversationId, r.subs conversationId = none
  deliverySubs : ∀ orderId, r.deliverySubs orderId = none

/-- The two directions agree, and no topic is empty. -/
structure Represents (bucket : ConnId → Id → DeliveryRole) (r : ConnectionRegistry) : Prop where
  objects : ∀ conn, (r.connections conn).isSome = true
  conversations : ∀ conn conversationId,
    conn ∈ r.subscribersOf conversationId ↔ conversationId ∈ r.conversationsOf conn
  orders : ∀ conn orderId role,
    conn ∈ r.deliverySubscribers role orderId ↔
      orderId ∈ r.deliveryOrdersOf conn ∧ role = bucket conn orderId
  subs : ∀ conversationId s, r.subs conversationId = some s → s ≠ ∅
  topics : ∀ orderId t, r.deliverySubs orderId = some t → t.internal ≠ ∅ ∨ t.customer ≠ ∅

/-- Some set of the connection, or of the registry, mentions the connection. -/
def Mentions (r : ConnectionRegistry) (conn : ConnId) : Prop :=
  (∃ conversationId, conn ∈ r.subscribersOf conversationId) ∨
    (∃ orderId, r.Subscribed conn orderId) ∨
      r.conversationsOf conn ≠ ∅ ∨ r.deliveryOrdersOf conn ≠ ∅

/-! ### A connection's own sets -/

section Own

variable {r : ConnectionRegistry} {conn c : ConnId} {id orderId : Id} {role : DeliveryRole}
  {f : WSConnection → WSConnection}

/-- Modifying a connection changes that one alone. -/
theorem connections_modifyConnection :
    (r.modifyConnection conn f).connections c =
      if c = conn then (r.connections c).map f else r.connections c := by
  by_cases hc : c = conn
  · subst hc
    simp [modifyConnection]
  · simp [modifyConnection, hc]

/-- No operation removes a connection object. -/
theorem isSome_perform (bucket : ConnId → Id → DeliveryRole) (op : RegistryOp)
    (h : (r.connections c).isSome = true) :
    ((r.perform bucket op).connections c).isSome = true := by
  have hmodify : ∀ {conn f}, ((r.modifyConnection conn f).connections c).isSome = true := by
    intro conn f
    rw [connections_modifyConnection]
    split
    · simpa using h
    · exact h
  cases op with
  | subscribe => exact hmodify
  | unsubscribe => exact hmodify
  | subscribeDelivery => exact hmodify
  | unsubscribeDelivery => exact hmodify
  | disconnectAll conn =>
    simp only [perform, disconnectAll]
    split
    · exact h
    · by_cases hc : c = conn
      · subst hc
        simp
      · simpa [hc] using h

/-- Subscribing adds the conversation to that connection. -/
theorem mem_conversationsOf_subscribe (hc : (r.connections conn).isSome = true) {id' : Id} :
    id' ∈ (r.subscribe conn id).conversationsOf c ↔
      (c = conn ∧ id' = id) ∨ id' ∈ r.conversationsOf c := by
  obtain ⟨x, hx⟩ := Option.isSome_iff_exists.mp hc
  change id' ∈ (r.modifyConnection conn _).conversationsOf c ↔ _
  rw [conversationsOf, connections_modifyConnection]
  by_cases heq : c = conn
  · subst heq
    simp [conversationsOf, hx]
  · simp [conversationsOf, heq]

/-- Unsubscribing takes the conversation from that connection. -/
theorem mem_conversationsOf_unsubscribe {id' : Id} :
    id' ∈ (r.unsubscribe conn id).conversationsOf c ↔
      (c = conn → id' ≠ id) ∧ id' ∈ r.conversationsOf c := by
  change id' ∈ (r.modifyConnection conn _).conversationsOf c ↔ _
  rw [conversationsOf, connections_modifyConnection]
  by_cases heq : c = conn
  · subst heq
    cases hx : r.connections c with
    | none => simp [conversationsOf, hx]
    | some x => simp [conversationsOf, hx]
  · simp [conversationsOf, heq]

/-- Subscribing to a delivery adds the order to that connection. -/
theorem mem_deliveryOrdersOf_subscribeDelivery (hc : (r.connections conn).isSome = true)
    {orderId' : Id} : orderId' ∈ (r.subscribeDelivery conn orderId role).deliveryOrdersOf c ↔
      (c = conn ∧ orderId' = orderId) ∨ orderId' ∈ r.deliveryOrdersOf c := by
  obtain ⟨x, hx⟩ := Option.isSome_iff_exists.mp hc
  change orderId' ∈ (r.modifyConnection conn _).deliveryOrdersOf c ↔ _
  rw [deliveryOrdersOf, connections_modifyConnection]
  by_cases heq : c = conn
  · subst heq
    simp [deliveryOrdersOf, hx]
  · simp [deliveryOrdersOf, heq]

/-- Unsubscribing takes the order from that connection. -/
theorem mem_deliveryOrdersOf_unsubscribeDelivery {orderId' : Id} :
    orderId' ∈ (r.unsubscribeDelivery conn orderId).deliveryOrdersOf c ↔
      (c = conn → orderId' ≠ orderId) ∧ orderId' ∈ r.deliveryOrdersOf c := by
  change orderId' ∈ (r.modifyConnection conn _).deliveryOrdersOf c ↔ _
  rw [deliveryOrdersOf, connections_modifyConnection]
  by_cases heq : c = conn
  · subst heq
    cases hx : r.connections c with
    | none => simp [deliveryOrdersOf, hx]
    | some x => simp [deliveryOrdersOf, hx]
  · simp [deliveryOrdersOf, heq]

/-- A change of the orders leaves the conversations alone. -/
theorem conversationsOf_modifyConnection (hf : ∀ x, (f x).conversations = x.conversations) :
    (r.modifyConnection conn f).conversationsOf c = r.conversationsOf c := by
  rw [conversationsOf, connections_modifyConnection]
  split
  · cases hx : r.connections c with
    | none => simp [conversationsOf, hx]
    | some x => simp [conversationsOf, hx, hf]
  · rfl

/-- What leaves the deliveries of a connection alone leaves all of them alone. -/
theorem deliveryOrdersOf_modifyConnection (hf : ∀ x, (f x).deliveryOrders = x.deliveryOrders) :
    (r.modifyConnection conn f).deliveryOrdersOf c = r.deliveryOrdersOf c := by
  rw [deliveryOrdersOf, connections_modifyConnection]
  split
  · cases hx : r.connections c with
    | none => simp [deliveryOrdersOf, hx]
    | some x => simp [deliveryOrdersOf, hx, hf]
  · rfl

/-- A connection that leaves empties its own sets. -/
theorem conversationsOf_disconnectAll :
    (r.disconnectAll conn).conversationsOf c = if c = conn then ∅ else r.conversationsOf c := by
  unfold disconnectAll
  split
  · next hnone =>
    split
    · next heq => simp [conversationsOf, heq, hnone]
    · rfl
  · by_cases heq : c = conn
    · subst heq
      simp [conversationsOf]
    · simp [conversationsOf, heq]

/-- A disconnected connection has no delivery left. -/
theorem deliveryOrdersOf_disconnectAll :
    (r.disconnectAll conn).deliveryOrdersOf c = if c = conn then ∅ else r.deliveryOrdersOf c := by
  unfold disconnectAll
  split
  · next hnone =>
    split
    · next heq => simp [deliveryOrdersOf, heq, hnone]
    · rfl
  · by_cases heq : c = conn
    · subst heq
      simp [deliveryOrdersOf]
    · simp [deliveryOrdersOf, heq]

end Own

/-! ### The registry's sets -/

section Sets

variable {r : ConnectionRegistry} {conn c : ConnId} {id id' orderId o : Id} {role : DeliveryRole}

/-- Subscribing adds the connection to the conversation. -/
theorem mem_subscribersOf_subscribe :
    c ∈ (r.subscribe conn id).subscribersOf id' ↔
      (c = conn ∧ id' = id) ∨ c ∈ r.subscribersOf id' := by
  by_cases hid : id' = id
  · subst hid
    simp [subscribe, subscribersOf, modifyConnection]
  · simp [subscribe, subscribersOf, modifyConnection, hid]

/-- Discarding takes one connection from a set of subscribers. -/
theorem mem_bind_discardSub {subs : Option (Finset ConnId)} :
    c ∈ (subs.bind fun s => discardSub s conn).getD ∅ ↔ c ≠ conn ∧ c ∈ subs.getD ∅ := by
  cases subs with
  | none => simp
  | some s =>
    simp only [Option.bind_some, Option.getD_some, discardSub]
    split
    · next hempty => simp [← Finset.mem_erase, hempty]
    · simp

/-- A set that discarding leaves empty is deleted. -/
theorem discardSub_ne_empty {s s' : Finset ConnId} (h : discardSub s conn = some s') : s' ≠ ∅ := by
  unfold discardSub at h
  split at h
  · cases h
  · next hne =>
    obtain rfl := Option.some.inj h
    exact hne

/-- Unsubscribing takes the connection from the conversation. -/
theorem mem_subscribersOf_unsubscribe :
    c ∈ (r.unsubscribe conn id).subscribersOf id' ↔
      (c = conn → id' ≠ id) ∧ c ∈ r.subscribersOf id' := by
  by_cases hid : id' = id
  · subst hid
    have hmem : c ∈ ((r.subs id').bind fun s => discardSub s conn).getD ∅ ↔
        c ≠ conn ∧ c ∈ (r.subs id').getD ∅ := mem_bind_discardSub
    simpa [unsubscribe, subscribersOf, modifyConnection] using hmem
  · simp [unsubscribe, subscribersOf, modifyConnection, hid]

/-- A connection that leaves goes from the topics of its own sets. -/
theorem mem_subscribersOf_disconnectAll :
    c ∈ (r.disconnectAll conn).subscribersOf id ↔
      (id ∈ r.conversationsOf conn → c ≠ conn) ∧ c ∈ r.subscribersOf id := by
  unfold disconnectAll conversationsOf
  cases hx : r.connections conn with
  | none => simp
  | some x =>
    simp only [Option.elim_some, subscribersOf]
    split
    · next hmem => simp [mem_bind_discardSub, hmem]
    · next hmem => simp [hmem]

/-- A disconnected connection leaves the deliveries that it was subscribed to. -/
theorem mem_deliverySubscribers_disconnectAll :
    c ∈ (r.disconnectAll conn).deliverySubscribers role o ↔
      (o ∈ r.deliveryOrdersOf conn → c ≠ conn) ∧ c ∈ r.deliverySubscribers role o := by
  unfold disconnectAll deliveryOrdersOf
  cases hx : r.connections conn with
  | none => simp
  | some x =>
    simp only [Option.elim_some, deliverySubscribers]
    split
    · next hmem => simp [mem_bind_discard, hmem]
    · next hmem => simp [hmem]

end Sets

/-! ### One operation -/

section Step

variable {r : ConnectionRegistry} {bucket : ConnId → Id → DeliveryRole} {conn : ConnId} {id : Id}

/-- The maps of a fresh registry agree. -/
theorem Fresh.represents (h : r.Fresh) : r.Represents bucket where
  objects conn := by
    obtain ⟨user, hx⟩ := h.connections conn
    simp [hx]
  conversations conn id := by
    obtain ⟨user, hx⟩ := h.connections conn
    simp [subscribersOf, h.subs id, conversationsOf, hx]
  orders conn o role := by
    obtain ⟨user, hx⟩ := h.connections conn
    simp [deliverySubscribers, h.deliverySubs o, deliveryOrdersOf, hx]
  subs id s hs := by
    rw [h.subs id] at hs
    cases hs
  topics o t ht := by
    rw [h.deliverySubs o] at ht
    cases ht

/-- Subscribing keeps the two maps in agreement. -/
theorem Represents.subscribe (h : r.Represents bucket) :
    (r.subscribe conn id).Represents bucket where
  objects c := isSome_perform bucket (.subscribe conn id) (h.objects c)
  conversations c id' := by
    rw [mem_subscribersOf_subscribe, mem_conversationsOf_subscribe (h.objects conn),
      h.conversations c id']
  orders c o role := by
    have horders : (r.subscribe conn id).deliveryOrdersOf c = r.deliveryOrdersOf c :=
      deliveryOrdersOf_modifyConnection fun _ => rfl
    rw [deliverySubscribers_subscribe, horders]
    exact h.orders c o role
  subs id' s hs := by
    by_cases hid : id' = id
    · subst hid
      have hinsert : insert conn ((r.subs id').getD ∅) = s := by
        simpa [ConnectionRegistry.subscribe, modifyConnection] using hs
      rw [← hinsert]
      exact Finset.insert_ne_empty _ _
    · exact h.subs id' s (by simpa [ConnectionRegistry.subscribe, modifyConnection, hid] using hs)
  topics := h.topics

/-- Unsubscribing keeps the two maps in agreement. -/
theorem Represents.unsubscribe (h : r.Represents bucket) :
    (r.unsubscribe conn id).Represents bucket where
  objects c := isSome_perform bucket (.unsubscribe conn id) (h.objects c)
  conversations c id' := by
    rw [mem_subscribersOf_unsubscribe, mem_conversationsOf_unsubscribe, h.conversations c id']
  orders c o role := by
    have horders : (r.unsubscribe conn id).deliveryOrdersOf c = r.deliveryOrdersOf c :=
      deliveryOrdersOf_modifyConnection fun _ => rfl
    rw [deliverySubscribers_unsubscribe, horders]
    exact h.orders c o role
  subs id' s hs := by
    by_cases hid : id' = id
    · subst hid
      have hbind : ((r.subs id').bind fun subs => discardSub subs conn) = some s := by
        simpa [ConnectionRegistry.unsubscribe, modifyConnection] using hs
      obtain ⟨s', -, hdiscard⟩ := Option.bind_eq_some_iff.mp hbind
      exact discardSub_ne_empty hdiscard
    · exact h.subs id' s (by simpa [ConnectionRegistry.unsubscribe, modifyConnection, hid] using hs)
  topics := h.topics

/-- A topic somebody joins is not empty. -/
theorem Topic.add_ne_empty {t : Topic} {role : DeliveryRole} :
    (t.add role conn).internal ≠ ∅ ∨ (t.add role conn).customer ≠ ∅ := by
  cases role with
  | internal => exact .inl (Finset.insert_ne_empty _ _)
  | customer => exact .inr (Finset.insert_ne_empty _ _)

/-- A topic that somebody leaves empty is deleted. -/
theorem Topic.discard_ne_empty {t t' : Topic} (h : t.discard conn = some t') :
    t'.internal ≠ ∅ ∨ t'.customer ≠ ∅ := by
  unfold Topic.discard at h
  split at h
  · cases h
  · next hne =>
    obtain rfl := Option.some.inj h
    exact not_and_or.mp hne

/-- Subscribing to a delivery keeps the two maps in agreement. -/
theorem Represents.subscribeDelivery (h : r.Represents bucket) :
    (r.subscribeDelivery conn id (bucket conn id)).Represents bucket where
  objects c := isSome_perform bucket (.subscribeDelivery conn id) (h.objects c)
  conversations c id' := by
    have hconversations : (r.subscribeDelivery conn id (bucket conn id)).conversationsOf c =
        r.conversationsOf c := conversationsOf_modifyConnection fun _ => rfl
    rw [hconversations]
    exact h.conversations c id'
  orders c o role := by
    rw [mem_subscribeDelivery, mem_deliveryOrdersOf_subscribeDelivery (h.objects conn),
      h.orders c o role]
    constructor
    · rintro (⟨rfl, rfl, rfl⟩ | ⟨hmem, hrole⟩)
      · exact ⟨.inl ⟨rfl, rfl⟩, rfl⟩
      · exact ⟨.inr hmem, hrole⟩
    · rintro ⟨⟨rfl, rfl⟩ | hmem, hrole⟩
      · exact .inl ⟨rfl, rfl, hrole⟩
      · exact .inr ⟨hmem, hrole⟩
  subs := h.subs
  topics o t ht := by
    by_cases ho : o = id
    · subst ho
      have hadd : ((r.deliverySubs o).getD {}).add (bucket conn o) conn = t := by
        simpa [ConnectionRegistry.subscribeDelivery, modifyConnection] using ht
      rw [← hadd]
      exact Topic.add_ne_empty
    · exact h.topics o t
        (by simpa [ConnectionRegistry.subscribeDelivery, modifyConnection, ho] using ht)

/-- Unsubscribing from a delivery keeps the two maps in agreement. -/
theorem Represents.unsubscribeDelivery (h : r.Represents bucket) :
    (r.unsubscribeDelivery conn id).Represents bucket where
  objects c := isSome_perform bucket (.unsubscribeDelivery conn id) (h.objects c)
  conversations c id' := by
    have hconversations : (r.unsubscribeDelivery conn id).conversationsOf c =
        r.conversationsOf c := conversationsOf_modifyConnection fun _ => rfl
    rw [hconversations]
    exact h.conversations c id'
  orders c o role := by
    rw [mem_unsubscribeDelivery, mem_deliveryOrdersOf_unsubscribeDelivery, h.orders c o role]
    constructor
    · rintro ⟨hne, hmem, hrole⟩
      exact ⟨⟨fun hc ho => hne ho hc, hmem⟩, hrole⟩
    · rintro ⟨⟨hne, hmem⟩, hrole⟩
      exact ⟨fun ho hc => hne hc ho, hmem, hrole⟩
  subs := h.subs
  topics o t ht := by
    by_cases ho : o = id
    · subst ho
      have hbind : ((r.deliverySubs o).bind fun topic => topic.discard conn) = some t := by
        simpa [ConnectionRegistry.unsubscribeDelivery, modifyConnection] using ht
      obtain ⟨t', -, hdiscard⟩ := Option.bind_eq_some_iff.mp hbind
      exact Topic.discard_ne_empty hdiscard
    · exact h.topics o t
        (by simpa [ConnectionRegistry.unsubscribeDelivery, modifyConnection, ho] using ht)

/-- The connection is found in every topic of its own sets, and in no other. -/
theorem Represents.disconnectAll (h : r.Represents bucket) :
    (r.disconnectAll conn).Represents bucket where
  objects c := isSome_perform bucket (.disconnectAll conn) (h.objects c)
  conversations c id := by
    rw [mem_subscribersOf_disconnectAll, conversationsOf_disconnectAll, h.conversations c id]
    by_cases hc : c = conn
    · subst hc
      simp
    · simp [hc]
  orders c o role := by
    rw [mem_deliverySubscribers_disconnectAll, deliveryOrdersOf_disconnectAll, h.orders c o role]
    by_cases hc : c = conn
    · subst hc
      simp only [if_true, Finset.notMem_empty, false_and, iff_false, not_and]
      exact fun hne hmem => absurd rfl (hne hmem)
    · simp [hc]
  subs id s hs := by
    unfold ConnectionRegistry.disconnectAll at hs
    split at hs
    · exact h.subs id s hs
    · dsimp only at hs
      split at hs
      · obtain ⟨s', -, hdiscard⟩ := Option.bind_eq_some_iff.mp hs
        exact discardSub_ne_empty hdiscard
      · exact h.subs id s hs
  topics o t ht := by
    unfold ConnectionRegistry.disconnectAll at ht
    split at ht
    · exact h.topics o t ht
    · dsimp only at ht
      split at ht
      · obtain ⟨t', -, hdiscard⟩ := Option.bind_eq_some_iff.mp ht
        exact Topic.discard_ne_empty hdiscard
      · exact h.topics o t ht

/-- Every operation keeps the two maps in agreement. -/
theorem Represents.perform (h : r.Represents bucket) (op : RegistryOp) :
    (r.perform bucket op).Represents bucket := by
  cases op with
  | subscribe => exact h.subscribe
  | unsubscribe => exact h.unsubscribe
  | subscribeDelivery => exact h.subscribeDelivery
  | unsubscribeDelivery => exact h.unsubscribeDelivery
  | disconnectAll => exact h.disconnectAll

/-- The connection has left, and has not subscribed again. -/
structure Left (r : ConnectionRegistry) (conn : ConnId) : Prop where
  conversations : r.conversationsOf conn = ∅
  orders : r.deliveryOrdersOf conn = ∅

/-- A disconnected connection has left everything. -/
theorem left_disconnectAll : (r.disconnectAll conn).Left conn where
  conversations := by rw [conversationsOf_disconnectAll, if_pos rfl]
  orders := by rw [deliveryOrdersOf_disconnectAll, if_pos rfl]

/-- Nothing but a subscription of its own brings a connection back. -/
theorem Left.perform (h : r.Left conn) {op : RegistryOp} (hr : r.Represents bucket)
    (hop : ¬op.Subscribes conn) : (r.perform bucket op).Left conn := by
  have hnone : ∀ id, id ∉ r.conversationsOf conn := fun id => by simp [h.conversations]
  have hnoOrder : ∀ id, id ∉ r.deliveryOrdersOf conn := fun id => by simp [h.orders]
  cases op with
  | subscribe c id =>
    have hne : conn ≠ c := fun heq => hop heq.symm
    have horders : (r.subscribe c id).deliveryOrdersOf conn = r.deliveryOrdersOf conn :=
      deliveryOrdersOf_modifyConnection fun _ => rfl
    refine ⟨Finset.eq_empty_of_forall_notMem fun id' hmem => ?_, horders.trans h.orders⟩
    rcases (mem_conversationsOf_subscribe (hr.objects c)).mp hmem with ⟨heq, -⟩ | hmem
    · exact hne heq
    · exact hnone id' hmem
  | unsubscribe c id =>
    have horders : (r.unsubscribe c id).deliveryOrdersOf conn = r.deliveryOrdersOf conn :=
      deliveryOrdersOf_modifyConnection fun _ => rfl
    refine ⟨Finset.eq_empty_of_forall_notMem fun id' hmem => ?_, horders.trans h.orders⟩
    exact hnone id' (mem_conversationsOf_unsubscribe.mp hmem).2
  | subscribeDelivery c o =>
    have hne : conn ≠ c := fun heq => hop heq.symm
    have hconvs : (r.subscribeDelivery c o (bucket c o)).conversationsOf conn =
        r.conversationsOf conn :=
      conversationsOf_modifyConnection fun _ => rfl
    refine ⟨hconvs.trans h.conversations, Finset.eq_empty_of_forall_notMem fun o' hmem => ?_⟩
    rcases (mem_deliveryOrdersOf_subscribeDelivery (hr.objects c)).mp hmem with ⟨heq, -⟩ | hmem
    · exact hne heq
    · exact hnoOrder o' hmem
  | unsubscribeDelivery c o =>
    have hconvs : (r.unsubscribeDelivery c o).conversationsOf conn =
        r.conversationsOf conn := conversationsOf_modifyConnection fun _ => rfl
    refine ⟨hconvs.trans h.conversations, Finset.eq_empty_of_forall_notMem fun o' hmem => ?_⟩
    exact hnoOrder o' (mem_deliveryOrdersOf_unsubscribeDelivery.mp hmem).2
  | disconnectAll c =>
    refine ⟨conversationsOf_disconnectAll.trans ?_, deliveryOrdersOf_disconnectAll.trans ?_⟩
    · rw [h.conversations, ite_self]
    · rw [h.orders, ite_self]

/-- Where the directions agree, a connection without topics is mentioned nowhere. -/
theorem Left.not_mentions (h : r.Left conn) (hr : r.Represents bucket) : ¬r.Mentions conn := by
  rintro (⟨id, hmem⟩ | ⟨o, role, hmem⟩ | hne | hne)
  · have hown := (hr.conversations conn id).mp hmem
    simp [h.conversations] at hown
  · have hown := ((hr.orders conn o role).mp hmem).1
    simp [h.orders] at hown
  · exact hne h.conversations
  · exact hne h.orders

end Step

/-! ### Every sequence of operations -/

section Runs

variable {bucket : ConnId → Id → DeliveryRole} {r : ConnectionRegistry} {conn : ConnId}
  {ops : List RegistryOp}

/-- Any sequence of operations keeps the two maps in agreement. -/
theorem Represents.after (h : r.Represents bucket) (ops : List RegistryOp) :
    (registryAfter bucket r ops).Represents bucket := by
  induction ops generalizing r with
  | nil => exact h
  | cons op ops ih => exact ih (h.perform op)

/-- A connection that has left stays away until it subscribes. -/
theorem Left.after (h : r.Left conn) (hr : r.Represents bucket)
    (hops : ∀ op ∈ ops, ¬op.Subscribes conn) : (registryAfter bucket r ops).Left conn := by
  induction ops generalizing r with
  | nil => exact h
  | cons op ops ih =>
    have hop : ¬op.Subscribes conn := hops op List.mem_cons_self
    exact ih (h.perform hr hop) (hr.perform op) fun op' hmem =>
      hops op' (List.mem_cons_of_mem op hmem)

/-- **The registry represents the subscriptions.** After any operations the two directions agree,
no topic is empty, and a connection that has left is mentioned nowhere until it subscribes again. -/
theorem registry_represents (h : r.Fresh) (ops : List RegistryOp) :
    (registryAfter bucket r ops).Represents bucket ∧
      ∀ conn before rest, ops = before ++ .disconnectAll conn :: rest →
        (∀ op ∈ rest, ¬op.Subscribes conn) →
        ¬(registryAfter bucket r ops).Mentions conn := by
  have hend : (registryAfter bucket r ops).Represents bucket := h.represents.after ops
  refine ⟨hend, ?_⟩
  rintro conn before rest rfl hrest
  have hbefore : (registryAfter bucket r before).Represents bucket := h.represents.after before
  have hleft : (registryAfter bucket ((registryAfter bucket r before).disconnectAll conn)
      rest).Left conn := left_disconnectAll.after hbefore.disconnectAll hrest
  have hsplit : registryAfter bucket r (before ++ .disconnectAll conn :: rest) =
      registryAfter bucket ((registryAfter bucket r before).disconnectAll conn) rest := by
    unfold registryAfter
    rw [after_append]
    rfl
  rw [hsplit] at hend ⊢
  exact hleft.not_mentions hend

/-- A connection joins an order and leaves. -/
theorem registry_represents_left :
    ¬(registryAfter (fun _ _ => .internal)
      { connections := fun _ => some { user := { id := 1, role := .seller } } }
      [.subscribeDelivery 0 7, .disconnectAll 0]).Mentions 0 :=
  (registry_represents ⟨fun _ => ⟨_, rfl⟩, fun _ => rfl, fun _ => rfl⟩ _).2 0
    [.subscribeDelivery 0 7] [] rfl fun _ hop => (List.not_mem_nil hop).elim

end Runs

end ConnectionRegistry

end Marketplace
