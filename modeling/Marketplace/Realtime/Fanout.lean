import Marketplace.Realtime.Gateway

/-!
# Fan-outs and what they reach

The single process of the gateway: handlers subscribe their connections, and requests
broadcast delivery events. A broadcast takes its subscribers first and then sends to one
after another, and between any two of these steps the others go on.
-/

namespace Marketplace

open Lib Txn OrderService DeliveryTracking

/-! ### Broadcasts -/

/-- A broadcast under way; the local variables are `None` until they are assigned. -/
structure Broadcast where
  orderId : Id
  event : Event
  /-- There is a customer path. -/
  toAll : Bool
  internalSubs : Option (Finset ConnId) := none
  customerSubs : Option (Finset ConnId) := none
deriving DecidableEq

/-- `broadcast_delivery_location_internal`. -/
def broadcastDeliveryLocationInternal (orderId : Id) (event : Event) : Broadcast :=
  { orderId, event, toAll := false }

/-- `broadcast_delivery_event_all`. -/
def broadcastDeliveryEventAll (orderId : Id) (event : Event) : Broadcast :=
  { orderId, event, toAll := true }

namespace Broadcast

/-- The connections that the broadcast has taken and has still to send to. -/
def waiting (b : Broadcast) : Finset ConnId := b.internalSubs.getD ∅ ∪ b.customerSubs.getD ∅

/-- The loops come after both queries, and the internal subscribers come first. -/
def Next (b : Broadcast) (conn : ConnId) : Prop :=
  b.internalSubs.isSome ∧ (b.toAll → b.customerSubs.isSome) ∧
    (conn ∈ b.internalSubs.getD ∅ ∨ b.internalSubs = some ∅ ∧ conn ∈ b.customerSubs.getD ∅)

/-- After a frame has gone to the connection from the internal loop, or from the other. -/
def sent (b : Broadcast) (conn : ConnId) : Broadcast :=
  if b.internalSubs = some ∅ then
    { b with customerSubs := b.customerSubs.map fun subs => subs.erase conn }
  else { b with internalSubs := b.internalSubs.map fun subs => subs.erase conn }

end Broadcast

/-- What the endpoints broadcast. The two broadcasts of a location report are taken apart: that
of the ETA may start at any time. -/
inductive Broadcasts : Broadcast → Prop
  | location {r : Report} {env order delivery} :
      (r.exec env).MayReturn (order, delivery) →
      Broadcasts (broadcastDeliveryLocationInternal order.id (internalLocationEvent delivery))
  | eta {r : Report} {env order delivery} :
      (r.exec env).MayReturn (order, delivery) → r.etaSeconds ≠ none →
      Broadcasts (broadcastDeliveryEventAll order.id (etaEvent delivery))
  | outForDelivery {env caller orderId full} :
      (outForDelivery env caller orderId).MayReturn full →
      Broadcasts (broadcastDeliveryEventAll full.order.id
        (statusEvent full.order.id "out_for_delivery" (full.delivery.bind Delivery.startedAt) none))
  | delivered {env caller orderId full} :
      (markDelivered env caller orderId).MayReturn full →
      Broadcasts (broadcastDeliveryEventAll full.order.id
        (statusEvent full.order.id "delivered" none full.order.deliveredAt))

/-- What a handler sends to its own connection. -/
inductive Answers : Event → Prop
  | pong : Answers [("type", .text "pong")]
  | error (what : String) : Answers [("type", .text "error"), ("error", .text what)]
  | subscribed (conversationId : Id) :
      Answers [("type", .text "subscribed"), ("conversation_id", .id conversationId)]
  | deliverySubscribed (orderId : Id) :
      Answers [("type", .text "delivery.subscribed"), ("order_id", .id orderId)]

/-! ### The process -/

/-- A frame that has reached a client, and the broadcast it comes from. -/
structure Receipt where
  conn : ConnId
  event : Event
  broadcast : Option ℕ := none

/-- The state of the process. -/
structure Realtime where
  registry : ConnectionRegistry := {}
  /-- The connections whose handler is running. -/
  live : Finset ConnId := ∅
  broadcasts : ℕ → Option Broadcast := fun _ => none
  received : List Receipt := []

namespace Realtime

/-- Broadcast `i` is now as given. -/
def setBroadcast (s : Realtime) (i : ℕ) (b : Broadcast) : Realtime :=
  { s with broadcasts := Function.update s.broadcasts i (some b) }

/-- One step of the process. A frame that is sent may be lost, as `_send_text` ignores every
failure. -/
inductive Step : Realtime → Realtime → Prop
  | connect {s conn user} : s.registry.connections conn = none →
      Step s { s with registry := s.registry.connect conn user, live := insert conn s.live }
  | subscribe {s conn conversationId} : conn ∈ s.live →
      Step s { s with registry := s.registry.subscribe conn conversationId }
  | unsubscribe {s conn conversationId} : conn ∈ s.live →
      Step s { s with registry := s.registry.unsubscribe conn conversationId }
  | subscribeDelivery {s conn user orderId role} : conn ∈ s.live →
      s.registry.userOf conn = some user →
      (Gateway.resolveDeliveryRole orderId user).MayReturn (some role) →
      Step s { s with registry := s.registry.subscribeDelivery conn orderId role }
  | unsubscribeDelivery {s conn orderId} : conn ∈ s.live →
      Step s { s with registry := s.registry.unsubscribeDelivery conn orderId }
  | disconnect {s conn} : conn ∈ s.live →
      Step s { s with registry := s.registry.disconnectAll conn, live := s.live.erase conn }
  | answer {s conn event} : conn ∈ s.live → Answers event →
      Step s { s with received := s.received ++ [{ conn, event }] }
  | broadcast {s i b} : s.broadcasts i = none → Broadcasts b → Step s (s.setBroadcast i b)
  | takeInternal {s i b} : s.broadcasts i = some b → b.internalSubs = none →
      Step s (s.setBroadcast i
        { b with internalSubs := some (s.registry.deliverySubscribers .internal b.orderId) })
  | takeCustomer {s i b} : s.broadcasts i = some b → b.toAll = true → b.internalSubs.isSome →
      b.customerSubs = none →
      Step s (s.setBroadcast i
        { b with customerSubs := some (s.registry.deliverySubscribers .customer b.orderId) })
  | send {s i b conn} : s.broadcasts i = some b → b.Next conn →
      Step s { s.setBroadcast i (b.sent conn) with
        received := s.received ++ [{ conn, event := b.event, broadcast := some i }] }
  | lose {s i b conn} : s.broadcasts i = some b → b.Next conn →
      Step s (s.setBroadcast i (b.sent conn))

/-- The first `n` steps of a run of the process, from its start. -/
structure Run (g : ℕ → Realtime) (n : ℕ) : Prop where
  start : g 0 = {}
  step : ∀ m < n, Step (g m) (g (m + 1))

/-- The connection belongs to a user with the role. -/
def HasRole (s : Realtime) (conn : ConnId) (role : UserRole) : Prop :=
  ∃ user, s.registry.userOf conn = some user ∧ user.role = role

/-- A broadcast of the order has taken the connection and has still to send to it. -/
def Awaits (s : Realtime) (i : ℕ) (orderId : Id) (conn : ConnId) : Prop :=
  ∃ b, s.broadcasts i = some b ∧ b.orderId = orderId ∧ conn ∈ b.waiting

/-- In this step broadcast `i` takes the connection among the subscribers of the order. -/
def Takes (s t : Realtime) (i : ℕ) (orderId : Id) (conn : ConnId) : Prop :=
  ¬s.Awaits i orderId conn ∧ t.Awaits i orderId conn

end Realtime

/-! ### The bucket a user gets -/

section Roles

variable {user : User} {orderId : Id}

/-- A customer is never resolved to the internal bucket, whatever the queries find. -/
theorem not_customer_of_internal
    (h : (Gateway.resolveDeliveryRole orderId user).MayReturn (some .internal)) :
    user.role ≠ .customer := by
  intro hrole
  have hfound : ∀ found w, (Gateway.roleInOrder user found).wp .free (fun _ => True)
      (fun _ _ role => role ≠ some .internal) [] w := by
    intro found w
    cases found with
    | none => simp [Gateway.roleInOrder]
    | some order =>
      by_cases hc : order.customerId = user.id
      · simp [Gateway.roleInOrder, resolveRole, resolveRoleLoading, hrole, hc,
          Gateway.deliveryRole]
      · simp [Gateway.roleInOrder, resolveRole, resolveRoleLoading, hrole, hc,
          Gateway.deliveryRole]
  refine h.of_wp (P := fun role => role ≠ some .internal) ?_ rfl
  simp only [Gateway.resolveDeliveryRole, loadOrder, bind_eq, wp_bind, wp_read,
    pure_eq, wp_ret]
  exact fun s _ _ => hfound _ _

/-- What `resolve_role` loads is a delivery row of the order. -/
theorem wp_resolveRoleLoading {order : Order} {L : Locking Db Key} {I : Db → Prop}
    {facts : List (Key × Db)} {w : Db → Db}
    {Post : List (Key × Db) → (Db → Db) → TrackingRole × Option Delivery → Prop}
    (h : ∀ role loaded, (∀ d, loaded = some d → d.orderId = order.id) →
      Post facts w (role, loaded)) :
    (resolveRoleLoading user order).wp L I Post facts w := by
  simp only [resolveRoleLoading, resolveDriver, loadDelivery, bind_eq, wp_bind, wp_read, wp_ite,
    pure_eq, wp_ret, wp_scalarOneOrNone]
  have hnone : ∀ role, Post facts w (role, none) := fun role => h role none (by simp)
  refine ⟨fun _ => hnone _, fun _ => ⟨fun _ => hnone _, fun _ => ⟨fun _ => hnone _, fun _ =>
    ⟨fun _ s _ _ => ?_, fun _ => hnone _⟩⟩⟩⟩
  have hkey : ∀ d, (w s).deliveries.get order.id = some d → d.orderId = order.id := fun d hd =>
    Table.key_of_get hd
  exact ⟨fun _ => h _ _ hkey, fun _ _ _ _ _ _ => h _ _ hkey⟩

/-- The row that `post_location` goes on with is a delivery row of the order. -/
theorem asLoaded_orderId {loaded found : Option Delivery} {d : Delivery}
    (hloaded : ∀ d, loaded = some d → d.orderId = orderId)
    (hfound : ∀ d, found = some d → d.orderId = orderId)
    (h : asLoaded loaded found = some d) : d.orderId = orderId := by
  unfold asLoaded at h
  split at h
  · split at h
    · exact hloaded _ h
    · exact hfound _ h
  · exact hfound _ h

/-- A report returns the delivery row of its order. -/
theorem report_delivery {r : Report} {env : Env} {order : Order} {delivery : Delivery}
    (h : (r.exec env).MayReturn (order, delivery)) : delivery.orderId = order.id := by
  refine h.of_wp (P := fun r => r.2.orderId = r.1.id) ?_
  simp only [Report.exec, postLocation, loadOrder, bind_eq, wp_bind, wp_read, pure_eq, wp_ret,
    wp_getOrRaise, wp_raiseIf]
  intro s _ _ order _
  refine wp_resolveRoleLoading fun role loaded hloaded => ?_
  intro _ _ _
  -- the row that is locked may be another one than the session has loaded
  refine wp_selectForUpdate ?_ fun t _ _ => ?_
  · intro d hd
    cases loaded <;> cases hd
  · intro d hd _
    have hrow : d.orderId = order.id := asLoaded_orderId hloaded (fun _ => Table.key_of_get) hd
    simp only [updateDelivery, wp_updateRow]
    exact fun _ _ _ => hrow

end Roles

/-! ### What is broadcast -/

namespace Broadcasts

variable {b : Broadcast}

/-- An event with coordinates has no customer path. -/
theorem internal_of_coordinates (h : Broadcasts b) (hb : b.event.CarriesCoordinates) :
    b.toAll = false := by
  cases h with
  | location _ => rfl
  | eta _ _ => exact absurd hb (etaEvent_safe _)
  | outForDelivery _ => exact absurd hb (statusEvent_safe _ _ _ _)
  | delivered _ => exact absurd hb (statusEvent_safe _ _ _ _)

/-- An event goes to the subscribers of the order it is about. -/
theorem addressed (h : Broadcasts b) {o : Id} (hb : b.event.IsDelivery o) : b.orderId = o := by
  have hid : b.event.lookup "order_id" = some (.id b.orderId) := by
    cases h with
    | location hr => exact congrArg (fun i => some (Value.id i)) (report_delivery hr)
    | eta hr _ => exact congrArg (fun i => some (Value.id i)) (report_delivery hr)
    | outForDelivery _ => rfl
    | delivered _ => rfl
  rw [hb.2] at hid
  exact (Value.id.inj (Option.some.inj hid)).symm

/-- No subscriber is taken before the broadcast begins. -/
theorem waiting_eq (h : Broadcasts b) : b.waiting = ∅ := by
  cases h with
  | location _ => rfl
  | eta _ _ => rfl
  | outForDelivery _ => rfl
  | delivered _ => rfl

end Broadcasts

/-- An answer is no delivery event and carries no coordinates. -/
theorem Answers.safe {event : Event} (h : Answers event) :
    ¬event.CarriesCoordinates ∧ ∀ o, ¬event.IsDelivery o := by
  cases h with
  | pong => exact ⟨by decide, fun o ho => by simp [Event.IsDelivery, Event.deliveryTypes] at ho⟩
  | error what =>
    exact ⟨by simp [Event.CarriesCoordinates],
      fun o ho => by simp [Event.IsDelivery, Event.deliveryTypes] at ho⟩
  | subscribed conversationId =>
    exact ⟨by simp [Event.CarriesCoordinates],
      fun o ho => by simp [Event.IsDelivery, Event.deliveryTypes] at ho⟩
  | deliverySubscribed orderId =>
    exact ⟨by simp [Event.CarriesCoordinates],
      fun o ho => by simp [Event.IsDelivery, Event.deliveryTypes] at ho⟩

/-! ### One step -/

namespace Realtime

variable {s t : Realtime} {i : ℕ} {o : Id} {conn : ConnId}

/-- A connection stays its user's. -/
theorem Step.userOf (h : Step s t) {user : User} (hu : s.registry.userOf conn = some user) :
    t.registry.userOf conn = some user := by
  cases h with
  | @connect conn' _ hnew =>
    have hne : conn ≠ conn' := by
      rintro rfl
      simp [ConnectionRegistry.userOf, hnew] at hu
    rw [← hu]
    exact ConnectionRegistry.userOf_connect_of_ne hne
  | subscribe _ => simpa using hu
  | unsubscribe _ => simpa using hu
  | subscribeDelivery _ _ _ => simpa using hu
  | unsubscribeDelivery _ => simpa using hu
  | disconnect _ => simpa using hu
  | answer _ _ => exact hu
  | broadcast _ _ => exact hu
  | takeInternal _ _ => exact hu
  | takeCustomer _ _ _ _ => exact hu
  | send _ _ => exact hu
  | lose _ _ => exact hu

/-- Somebody else than a customer is behind the connection. -/
def Internal (s : Realtime) (conn : ConnId) : Prop :=
  ∃ user, s.registry.userOf conn = some user ∧ user.role ≠ .customer

/-- A customer's subscription is not an internal one. -/
theorem HasRole.not_internal (h : s.HasRole conn .customer) : ¬s.Internal conn := by
  obtain ⟨user, hu, hrole⟩ := h
  rintro ⟨user', hu', hrole'⟩
  rw [hu] at hu'
  exact hrole' (Option.some.inj hu' ▸ hrole)

/-- An internal subscription stays internal. -/
theorem Step.internal (h : Step s t) (hs : s.Internal conn) : t.Internal conn := by
  obtain ⟨user, hu, hrole⟩ := hs
  exact ⟨user, h.userOf hu, hrole⟩

/-- A connection gets into the internal bucket by a subscription of somebody internal. -/
theorem Step.subscribers (h : Step s t)
    (hin : conn ∈ t.registry.deliverySubscribers .internal o) :
    conn ∈ s.registry.deliverySubscribers .internal o ∨ s.Internal conn := by
  cases h with
  | connect _ => exact .inl hin
  | subscribe _ => exact .inl hin
  | unsubscribe _ => exact .inl hin
  | subscribeDelivery _ huser hrole =>
    rcases ConnectionRegistry.mem_subscribeDelivery.mp hin with ⟨rfl, rfl, rfl⟩ | hold
    · exact .inr ⟨_, huser, not_customer_of_internal hrole⟩
    · exact .inl hold
  | unsubscribeDelivery _ => exact .inl (ConnectionRegistry.mem_unsubscribeDelivery.mp hin).2
  | disconnect _ => exact .inl (ConnectionRegistry.mem_of_mem_disconnectAll hin)
  | answer _ _ => exact .inl hin
  | broadcast _ _ => exact .inl hin
  | takeInternal _ _ => exact .inl hin
  | takeCustomer _ _ _ _ => exact .inl hin
  | send _ _ => exact .inl hin
  | lose _ _ => exact .inl hin

/-- A frame comes from its own handler or from a broadcast that has taken the connection. -/
theorem Step.received (h : Step s t) {r : Receipt} (hr : r ∈ t.received) :
    r ∈ s.received ∨ Answers r.event ∨
      ∃ i b, s.broadcasts i = some b ∧ b.Next r.conn ∧ r.event = b.event ∧
        r.broadcast = some i := by
  cases h with
  | answer _ hanswer =>
    rcases List.mem_append.mp hr with hold | hnew
    · exact .inl hold
    · obtain rfl := List.mem_singleton.mp hnew
      exact .inr (.inl hanswer)
  | send hb hnext =>
    rcases List.mem_append.mp hr with hold | hnew
    · exact .inl hold
    · obtain rfl := List.mem_singleton.mp hnew
      exact .inr (.inr ⟨_, _, hb, hnext, rfl, rfl⟩)
  | connect _ => exact .inl hr
  | subscribe _ => exact .inl hr
  | unsubscribe _ => exact .inl hr
  | subscribeDelivery _ _ _ => exact .inl hr
  | unsubscribeDelivery _ => exact .inl hr
  | disconnect _ => exact .inl hr
  | broadcast _ _ => exact .inl hr
  | takeInternal _ _ => exact .inl hr
  | takeCustomer _ _ _ _ => exact .inl hr
  | lose _ _ => exact .inl hr

end Realtime

/-- How a broadcast goes on: it takes subscribers of its order from the bucket that it asks, and
it forgets those it has sent to. -/
structure Broadcast.Advances (r : ConnectionRegistry) (b b' : Broadcast) : Prop where
  orderId : b'.orderId = b.orderId
  event : b'.event = b.event
  toAll : b'.toAll = b.toAll
  internal : ∀ conn ∈ b'.internalSubs.getD ∅,
    conn ∈ b.internalSubs.getD ∅ ∨ conn ∈ r.deliverySubscribers .internal b.orderId
  customer : ∀ conn ∈ b'.customerSubs.getD ∅, conn ∈ b.customerSubs.getD ∅ ∨
    b.toAll = true ∧ conn ∈ r.deliverySubscribers .customer b.orderId

namespace Broadcast

variable {r : ConnectionRegistry} {b b' : Broadcast} {conn : ConnId}

/-- A broadcast advances to itself. -/
theorem Advances.refl (r : ConnectionRegistry) (b : Broadcast) : b.Advances r b where
  orderId := rfl
  event := rfl
  toAll := rfl
  internal _ h := .inl h
  customer _ h := .inl h

/-- Whoever is next has been taken. -/
theorem Next.waiting (h : b.Next conn) : conn ∈ b.waiting :=
  Finset.mem_union.mpr (h.2.2.imp_right And.right)

/-- What is left of the recipients was among them. -/
theorem mem_of_mem_erase {subs : Option (Finset ConnId)} {c : ConnId}
    (h : c ∈ (subs.map fun subs => subs.erase conn).getD ∅) : c ∈ subs.getD ∅ := by
  cases subs with
  | none => exact h
  | some subs => exact Finset.mem_of_mem_erase h

/-- Sending to one connection advances the broadcast. -/
theorem advances_sent (r : ConnectionRegistry) (b : Broadcast) (conn : ConnId) :
    b.Advances r (b.sent conn) := by
  unfold sent
  split
  · exact ⟨rfl, rfl, rfl, fun _ h => .inl h, fun _ h => .inl (mem_of_mem_erase h)⟩
  · exact ⟨rfl, rfl, rfl, fun _ h => .inl (mem_of_mem_erase h), fun _ h => .inl h⟩

/-- Whoever is taken is subscribed. -/
theorem Advances.subscribed (h : b.Advances r b') (hnot : conn ∉ b.waiting)
    (hin : conn ∈ b'.waiting) : r.Subscribed conn b.orderId := by
  simp only [waiting, Finset.mem_union, not_or] at hnot hin
  rcases hin with hin | hin
  · exact ⟨.internal, (h.internal conn hin).resolve_left hnot.1⟩
  · exact ⟨.customer, ((h.customer conn hin).resolve_left hnot.2).2⟩

end Broadcast

namespace Realtime

variable {s t : Realtime} {i : ℕ} {o : Id} {conn : ConnId} {b : Broadcast}

/-- A broadcast begins, or it goes on. -/
theorem Step.broadcasts (h : Step s t) (hb : t.broadcasts i = some b) :
    (s.broadcasts i = none ∧ Broadcasts b) ∨
      ∃ b₀, s.broadcasts i = some b₀ ∧ b₀.Advances s.registry b := by
  have hsame : s.broadcasts i = some b →
      (s.broadcasts i = none ∧ Broadcasts b) ∨
        ∃ b₀, s.broadcasts i = some b₀ ∧ b₀.Advances s.registry b :=
    fun h => .inr ⟨b, h, .refl _ _⟩
  -- a step that sets broadcast `j` to `b₁`
  have hset : ∀ {j b₁}, (s.setBroadcast j b₁).broadcasts i = some b →
      (j = i ∧ b₁ = b) ∨ s.broadcasts i = some b := by
    intro j b₁ h
    by_cases hij : i = j
    · subst hij
      exact .inl ⟨rfl, by simpa [setBroadcast] using h⟩
    · exact .inr (by simpa [setBroadcast, hij] using h)
  cases h with
  | connect _ => exact hsame hb
  | subscribe _ => exact hsame hb
  | unsubscribe _ => exact hsame hb
  | subscribeDelivery _ _ _ => exact hsame hb
  | unsubscribeDelivery _ => exact hsame hb
  | disconnect _ => exact hsame hb
  | answer _ _ => exact hsame hb
  | broadcast hnone hnew =>
    rcases hset hb with ⟨rfl, rfl⟩ | hold
    · exact .inl ⟨hnone, hnew⟩
    · exact hsame hold
  | takeInternal hold hnone =>
    rcases hset hb with ⟨rfl, rfl⟩ | hother
    · exact .inr ⟨_, hold, rfl, rfl, rfl, fun _ h => .inr h, fun _ h => .inl h⟩
    · exact hsame hother
  | takeCustomer hold hall _ _ =>
    rcases hset hb with ⟨rfl, rfl⟩ | hother
    · exact .inr ⟨_, hold, rfl, rfl, rfl, fun _ h => .inl h, fun _ h => .inr ⟨hall, h⟩⟩
    · exact hsame hother
  | send hold _ =>
    rcases hset hb with ⟨rfl, rfl⟩ | hother
    · exact .inr ⟨_, hold, Broadcast.advances_sent _ _ _⟩
    · exact hsame hother
  | lose hold _ =>
    rcases hset hb with ⟨rfl, rfl⟩ | hother
    · exact .inr ⟨_, hold, Broadcast.advances_sent _ _ _⟩
    · exact hsame hother

/-- Whoever a broadcast of the order takes is subscribed to the order then. -/
theorem Step.takes (h : Step s t) (htake : s.Takes t i o conn) :
    s.registry.Subscribed conn o := by
  obtain ⟨hnot, b, hb, rfl, hin⟩ := htake
  rcases h.broadcasts hb with ⟨-, hnew⟩ | ⟨b₀, hold, hadv⟩
  · simp [hnew.waiting_eq] at hin
  · rw [hadv.orderId]
    refine hadv.subscribed (fun hwait => hnot ⟨b₀, hold, hadv.orderId.symm, hwait⟩) hin

/-! ### What every run keeps -/

/-- Only internal connections are in internal buckets, and only they get coordinates. -/
structure Shielding (s : Realtime) : Prop where
  bucket : ∀ o, ∀ conn ∈ s.registry.deliverySubscribers .internal o, s.Internal conn
  taken : ∀ i b, s.broadcasts i = some b → ∀ conn ∈ b.internalSubs.getD ∅, s.Internal conn
  located : ∀ i b, s.broadcasts i = some b → b.event.CarriesCoordinates →
    b.toAll = false ∧ b.customerSubs.getD ∅ = ∅
  addressed : ∀ i b, s.broadcasts i = some b → ∀ o, b.event.IsDelivery o → b.orderId = o
  received : ∀ r ∈ s.received, r.event.CarriesCoordinates → s.Internal r.conn

/-- The gateway starts shielded. -/
theorem shielding_start : Shielding {} where
  bucket _ _ h := absurd h (Finset.notMem_empty _)
  taken _ _ h := by cases h
  located _ _ h := by cases h
  addressed _ _ h := by cases h
  received _ h := by cases h

/-- The next connection of a broadcast with coordinates is internal. -/
theorem Shielding.next (h : s.Shielding) (hb : s.broadcasts i = some b) (hnext : b.Next conn)
    (hcoords : b.event.CarriesCoordinates) : s.Internal conn := by
  rcases hnext.2.2 with hin | ⟨-, hin⟩
  · exact h.taken i b hb conn hin
  · rw [(h.located i b hb hcoords).2] at hin
    exact absurd hin (Finset.notMem_empty _)

/-- Every step of the gateway keeps it shielded. -/
theorem Shielding.step (h : s.Shielding) (hst : Step s t) : t.Shielding where
  bucket o conn hin := by
    rcases hst.subscribers hin with hold | hinternal
    · exact hst.internal (h.bucket o conn hold)
    · exact hst.internal hinternal
  taken i b hb conn hin := by
    refine hst.internal ?_
    rcases hst.broadcasts hb with ⟨-, hnew⟩ | ⟨b₀, hold, hadv⟩
    · have hnone : conn ∈ b.waiting := Finset.mem_union_left _ hin
      simp [hnew.waiting_eq] at hnone
    · rcases hadv.internal conn hin with hin | hin
      · exact h.taken i b₀ hold conn hin
      · exact h.bucket _ conn hin
  located i b hb hcoords := by
    rcases hst.broadcasts hb with ⟨-, hnew⟩ | ⟨b₀, hold, hadv⟩
    · refine ⟨hnew.internal_of_coordinates hcoords, Finset.eq_empty_of_forall_notMem fun c hc => ?_⟩
      have hnone : c ∈ b.waiting := Finset.mem_union_right _ hc
      simp [hnew.waiting_eq] at hnone
    · obtain ⟨hall, hempty⟩ := h.located i b₀ hold (hadv.event ▸ hcoords)
      refine ⟨hadv.toAll.trans hall, Finset.eq_empty_of_forall_notMem fun c hc => ?_⟩
      rcases hadv.customer c hc with hc | ⟨htrue, -⟩
      · rw [hempty] at hc
        exact Finset.notMem_empty c hc
      · rw [hall] at htrue
        cases htrue
  addressed i b hb o hevent := by
    rcases hst.broadcasts hb with ⟨-, hnew⟩ | ⟨b₀, hold, hadv⟩
    · exact hnew.addressed hevent
    · rw [hadv.orderId]
      exact h.addressed i b₀ hold o (hadv.event ▸ hevent)
  received r hr hcoords := by
    refine hst.internal ?_
    rcases hst.received hr with hold | hanswer | ⟨i, b, hb, hnext, hevent, -⟩
    · exact h.received r hold hcoords
    · exact absurd hcoords hanswer.safe.1
    · exact h.next hb hnext (hevent ▸ hcoords)

variable {g : ℕ → Realtime} {n : ℕ}

/-- Every state of a run is shielded. -/
theorem Run.shielding (h : Run g n) : ∀ m ≤ n, (g m).Shielding := by
  intro m
  induction m with
  | zero =>
    intro _
    rw [h.start]
    exact shielding_start
  | succ m ih => exact fun hm => (ih (by omega)).step (h.step m (by omega))

/-- A connection that is awaited has been taken before, when it was subscribed. -/
theorem Run.taken (h : Run g n) {m : ℕ} (hm : m ≤ n) (hin : (g m).Awaits i o conn) :
    ∃ k < m, (g k).Takes (g (k + 1)) i o conn ∧ (g k).registry.Subscribed conn o := by
  induction m with
  | zero =>
    obtain ⟨b, hb, -⟩ := hin
    rw [h.start] at hb
    cases hb
  | succ m ih =>
    by_cases hold : (g m).Awaits i o conn
    · obtain ⟨k, hk, htakes⟩ := ih (by omega) hold
      exact ⟨k, by omega, htakes⟩
    · have htakes : (g m).Takes (g (m + 1)) i o conn := ⟨hold, hin⟩
      exact ⟨m, by omega, htakes, (h.step m (by omega)).takes htakes⟩

/-- A delivery event comes from a broadcast that took its receiver as a subscriber of the
order. -/
theorem Run.delivered (h : Run g n) {m : ℕ} (hm : m ≤ n) {r : Receipt}
    (hr : r ∈ (g m).received) (hevent : r.event.IsDelivery o) :
    ∃ i, r.broadcast = some i ∧ ∃ k < m, (g k).Takes (g (k + 1)) i o r.conn ∧
      (g k).registry.Subscribed r.conn o := by
  induction m with
  | zero =>
    rw [h.start] at hr
    cases hr
  | succ m ih =>
    have hst := h.step m (by omega)
    rcases hst.received hr with hold | hanswer | ⟨i, b, hb, hnext, hsame, hfrom⟩
    · obtain ⟨i, hi, k, hk, htakes⟩ := ih (by omega) hold
      exact ⟨i, hi, k, by omega, htakes⟩
    · exact absurd hevent (hanswer.safe.2 o)
    · have horder := (h.shielding m (by omega)).addressed i b hb o (hsame ▸ hevent)
      obtain ⟨k, hk, htakes⟩ := h.taken (by omega) ⟨b, hb, horder, hnext.waiting⟩
      exact ⟨i, hfrom, k, by omega, htakes⟩

/-- In every run no connection of a customer is in an internal bucket, no event that it receives
carries coordinates, and whoever receives a delivery event of an order was subscribed to the
order when the broadcast of that event took its subscribers. -/
theorem coordinates_shielded (h : Run g n) :
    (∀ conn, (g n).HasRole conn .customer → ∀ o,
      conn ∉ (g n).registry.deliverySubscribers .internal o) ∧
    (∀ r ∈ (g n).received, (g n).HasRole r.conn .customer → ¬r.event.CarriesCoordinates) ∧
    ∀ r ∈ (g n).received, ∀ o, r.event.IsDelivery o →
      ∃ i, r.broadcast = some i ∧ ∃ k < n, (g k).Takes (g (k + 1)) i o r.conn ∧
        (g k).registry.Subscribed r.conn o := by
  have hshield := h.shielding n le_rfl
  refine ⟨fun conn hrole o hin => ?_, fun r hr hrole hcoords => ?_, fun r hr o hevent => ?_⟩
  · exact hrole.not_internal (hshield.bucket o conn hin)
  · exact hrole.not_internal (hshield.received r hr hcoords)
  · exact h.delivered le_rfl hr hevent

end Realtime

namespace Sample

/-- The database once the order is on its way. -/
def sentDb : Db := (after (World.serve sha256) start sent).db

/-- A report of the driver. -/
def position : Report :=
  { caller := driver, orderId := 0, lat := 52, lng := 13, now := fun _ => 8, transactionNow := 8 }

/-- What the report returns. -/
def reported : Order × Delivery :=
  ((position.exec (start.reportEnv position)).session sentDb).1.toOption.get (by decide +kernel)

/-- The sample report returns the position. -/
theorem position_returns : (position.exec (start.reportEnv position)).MayReturn reported :=
  mayReturn_of_run (session_ok (s := sentDb) (by decide +kernel))

/-- What the location report broadcasts. -/
def location : Broadcast :=
  broadcastDeliveryLocationInternal reported.1.id (internalLocationEvent reported.2)

/-- The location broadcast once it has taken the administrator. -/
def taken : Broadcast := { location with internalSubs := some {0} }

/-- The administrator and the customer subscribe, and the administrator hears of the report. -/
def frames : List (Realtime → Realtime) :=
  [fun s => { s with registry := s.registry.connect 0 admin, live := insert 0 s.live },
   fun s => { s with registry := s.registry.connect 1 customer, live := insert 1 s.live },
   fun s => { s with registry := s.registry.subscribeDelivery 0 0 .internal },
   fun s => { s with registry := s.registry.subscribeDelivery 1 0 .customer },
   fun s => s.setBroadcast 0 location,
   fun s => s.setBroadcast 0 { location with
     internalSubs := some (s.registry.deliverySubscribers .internal location.orderId) },
   fun s => { s.setBroadcast 0 (taken.sent 0) with
     received := s.received ++ [{ conn := 0, event := taken.event, broadcast := some 0 }] }]

def watching (n : ℕ) : Realtime := (frames.take n).foldl (fun s f => f s) {}

/-- The sample steps are a run of the gateway. -/
theorem watching_run : Realtime.Run watching 7 where
  start := rfl
  step m hm := by
    match m with
    | 0 =>
      change Realtime.Step (watching 0) { watching 0 with registry := _, live := _ }
      exact .connect rfl
    | 1 =>
      change Realtime.Step (watching 1) { watching 1 with registry := _, live := _ }
      exact .connect rfl
    | 2 =>
      change Realtime.Step (watching 2) { watching 2 with registry := _ }
      refine .subscribeDelivery (by decide) rfl ?_
      exact mayReturn_of_run (session_ok (s := sentDb) (by decide +kernel))
    | 3 =>
      change Realtime.Step (watching 3) { watching 3 with registry := _ }
      refine .subscribeDelivery (by decide) rfl ?_
      exact mayReturn_of_run (session_ok (s := sentDb) (by decide +kernel))
    | 4 => exact .broadcast rfl (.location position_returns)
    | 5 => exact .takeInternal rfl rfl
    | 6 => exact .send (b := taken) (by decide +kernel) ⟨rfl, nofun, .inl (by decide)⟩
    | m + 7 => omega

end Sample

/-- The administrator's connection was in a bucket of the order when the report was broadcast. -/
theorem coordinates_shielded_watching :
    ∃ k < 7, (Sample.watching k).registry.Subscribed 0 0 := by
  have hevent : Sample.location.event.IsDelivery 0 := by decide +kernel
  obtain ⟨-, -, hdelivered⟩ := Realtime.coordinates_shielded Sample.watching_run
  obtain ⟨i, -, k, hk, -, hsub⟩ :=
    hdelivered { conn := 0, event := Sample.location.event, broadcast := some 0 }
      (List.mem_singleton.mpr rfl) 0 hevent
  exact ⟨k, hk, hsub⟩

end Marketplace
