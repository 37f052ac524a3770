import Marketplace.Realtime.Fanout
import Marketplace.Order.Drivers
import Marketplace.Order.Exclusivity

/-!
# Who hears of a position

A connection is put into a bucket of an order when it subscribes and stays there until it
leaves, whatever happens to the order. The requests that write a driver to the delivery row
take the role of driver away from whoever was there, and leave their connections alone. In
every run in which no such request finds a connection of the driver it replaces, whoever
hears of a position is internal to the order then.
-/

namespace Marketplace

open Lib Txn OrderService DeliveryFlow DeliveryTracking

/-! ### The server with its connections -/

/-- The server and the registry of its connections. -/
structure LiveServer where
  world : World
  registry : ConnectionRegistry := {}
  /-- The connections whose handler is running. -/
  live : Finset ConnId := ∅

/-- What happens next: a request, or something on a connection. -/
inductive Traffic
  | request (q : ServiceRequest)
  | connect (conn : ConnId) (user : User)
  | subscribe (conn : ConnId) (orderId : Id)
  | unsubscribe (conn : ConnId) (orderId : Id)
  | disconnect (conn : ConnId)

namespace LiveServer

variable (sha256 : String → String)

/-- The end of a handler. -/
def disconnect (s : LiveServer) (conn : ConnId) : LiveServer :=
  { s with registry := s.registry.disconnectAll conn, live := s.live.erase conn }

/-- The `subscribe` frame for an order. Whoever has no role there is closed with 4403, and an
exception ends the handler too. -/
def subscribe (s : LiveServer) (conn : ConnId) (user : User) (orderId : Id) : LiveServer :=
  match ((Gateway.resolveDeliveryRole orderId user).session s.world.db).1 with
  | .ok (some role) => { s with registry := s.registry.subscribeDelivery conn orderId role }
  | _ => s.disconnect conn

/-- The server after the next thing that happens. -/
def handle (s : LiveServer) : Traffic → LiveServer
  | .request q => { s with world := s.world.handle sha256 q }
  | .connect conn user =>
    if (s.registry.connections conn).isNone then
      { s with registry := s.registry.connect conn user, live := insert conn s.live }
    else s
  | .subscribe conn orderId =>
    if conn ∈ s.live then
      (s.registry.userOf conn).elim s fun user => s.subscribe conn user orderId
    else s
  | .unsubscribe conn orderId =>
    if conn ∈ s.live then
      { s with registry := s.registry.unsubscribeDelivery conn orderId }
    else s
  | .disconnect conn => s.disconnect conn

/-- The location broadcast that something leads to, with the subscribers it takes. -/
def located (s : LiveServer) : Traffic → Option Broadcast
  | .request (.report r) => (s.world.answer r).1.toOption.map fun (order, delivery) =>
    { broadcastDeliveryLocationInternal order.id (internalLocationEvent delivery) with
      internalSubs := some (s.registry.deliverySubscribers .internal order.id) }
  | _ => none

end LiveServer

/-- The order and the driver that a request writes to the order's delivery row. -/
def Op.takesRow (caller : User) : Op → Option (Id × Id)
  | adminPatchDelivery o (some driver) _ _ => some (o, driver)
  | driverAccept o => some (o, caller.id)
  | _ => none

namespace LiveServer

variable (sha256 : String → String)

/-- A request that passes its checks and writes a driver to the delivery row of an active order
finds no connection in the internal bucket whose user, another driver, only that row names. -/
def ReplacesNoSubscriber (s : LiveServer) : Traffic → Prop
  | .request (.call c) => ∀ o driver, c.op.takesRow c.caller = some (o, driver) →
      c.op.MayHand s.world.db c.caller o driver →
      (∃ x, s.world.db.orders.get o = some x ∧ x.status ∈ activeStatuses) →
      ∀ conn ∈ s.registry.deliverySubscribers .internal o, ∀ user,
        s.registry.userOf conn = some user → user.role = .driver →
        (s.world.db.life o).delivery.bind Delivery.driverId = some user.id →
        user.id = driver ∨ (s.world.db.life o).Assigns user.id
  | _ => True

/-- Whoever gets the position resolves to an internal role of the order. -/
def Confined (s : LiveServer) (t : Traffic) : Prop :=
  ∀ b, s.located t = some b → ∀ conn ∈ b.waiting, ∃ user x role,
    s.registry.userOf conn = some user ∧
    (s.handle sha256 t).world.db.orders.get b.orderId = some x ∧
    (resolveRole user x).run (s.handle sha256 t).world.db =
      .ok (role, (s.handle sha256 t).world.db) ∧
    isInternalRole role = true

end LiveServer

/-- Taking the row hands the order to the driver. -/
theorem handsTo_of_takesRow {caller : User} {op : Op} {o driver : Id}
    (h : op.takesRow caller = some (o, driver)) : op.handsTo caller = some (o, driver) := by
  cases op with
  | adminPatchDelivery _ given _ _ =>
    cases given with
    | none => cases h
    | some given => exact h
  | driverAccept _ => exact h
  | _ => cases h

/-! ### Who is internal to an order -/

/-- Those whom `resolve_role` takes for internal. -/
def Life.Internal (L : Life) (user : User) : Prop :=
  user.role = .admin ∨
    (user.role = .seller ∧ ∃ x, L.order = some x ∧ x.sellerId = user.id) ∨
    (user.role = .driver ∧ L.Names user.id)

section Roles

variable {db db' : Db} {user : User} {x : Order} {role : TrackingRole} {o : Id}

/-- What an internal role says of the records. -/
theorem internal_of_resolveRole (hx : db.orders.get x.id = some x)
    (h : (resolveRole user x).run db = .ok (role, db')) (hrole : isInternalRole role = true) :
    (db.life x.id).Internal user := by
  cases hu : user.role with
  | admin => exact .inl hu
  | driver =>
    have hdriver := h
    rw [resolveRole_driver hu] at hdriver
    obtain ⟨rfl, hcases⟩ := hdriver
    refine .inr (.inr ⟨hu, ?_⟩)
    by_contra hnot
    have hnone := resolveRole_of_not_names hu hnot
    rw [h] at hnone
    obtain ⟨rfl, -⟩ := Prod.mk.inj (Except.ok.inj hnone)
    cases hrole
  | seller =>
    refine .inr (.inl ⟨hu, x, hx, ?_⟩)
    by_contra hne
    obtain ⟨loaded, hrun⟩ := resolveRole_ok.mp h
    simp only [resolveRoleLoading, hu, hne, reduceCtorEq, if_false, false_and, and_false, pure_eq,
      run_ret_ok, Prod.mk.injEq] at hrun
    obtain ⟨⟨rfl, -⟩, -⟩ := hrun
    cases hrole
  | customer =>
    obtain ⟨loaded, hrun⟩ := resolveRole_ok.mp h
    simp only [resolveRoleLoading, hu, reduceCtorEq, if_false, false_and, true_and, pure_eq,
      run_ite_ok, run_ret_ok, Prod.mk.injEq] at hrun
    rcases hrun with ⟨-, ⟨rfl, -⟩, -⟩ | ⟨-, ⟨rfl, -⟩, -⟩
    · cases hrole
    · cases hrole

/-- Whoever is internal resolves to an internal role, if at most one assignment is in force. -/
theorem resolveRole_of_internal (hx : db.orders.get x.id = some x)
    (hone : (db.fulfilment x.id).Exclusive) (h : (db.life x.id).Internal user) :
    ∃ role, (resolveRole user x).run db = .ok (role, db) ∧ isInternalRole role = true := by
  rcases h with hu | ⟨hu, x', hx', hseller⟩ | ⟨hu, hn⟩
  · refine ⟨.admin, resolveRole_ok.mpr ⟨none, ?_⟩, rfl⟩
    simp [resolveRoleLoading, hu, run]
  · have hsame : db.orders.get x.id = some x' := hx'
    obtain rfl := Option.some.inj (hx.symm.trans hsame)
    refine ⟨.seller, resolveRole_ok.mpr ⟨none, ?_⟩, rfl⟩
    simp [resolveRoleLoading, hu, hseller, run]
  · have hlength : (drivingAssignments db x.id user.id).length ≤ 1 := by
      refine Nat.le_trans (List.Sublist.length_le ?_) hone.single
      refine List.monotone_filter_right _ fun a ha => ?_
      have hdriving := (of_decide_eq_true ha).2
      exact decide_eq_true (drivingStatuses_active hdriving)
    exact ⟨.driver, resolveRole_of_names hu hlength hn, rfl⟩

/-- An internal subscription is that of somebody internal. -/
theorem internal_of_session
    (h : ((Gateway.resolveDeliveryRole o user).session db).1 = .ok (some .internal)) :
    ∃ x, db.orders.get o = some x ∧ (db.life o).Internal user := by
  have hrun := session_ok h
  simp only [Gateway.resolveDeliveryRole, loadOrder, bind_eq, run_bind_ok, run_read_ok, pure_eq,
    run_ret_ok] at hrun
  obtain ⟨found, _, ⟨_, _, ⟨rfl, rfl⟩, rfl, rfl⟩, hrun⟩ := hrun
  cases hfound : (db.orders.get o).filter fun x => x.deletedAt = none with
  | none =>
    simp [hfound, Gateway.roleInOrder] at hrun
  | some x =>
    obtain ⟨hget, -⟩ := Option.filter_eq_some_iff.mp hfound
    have hid : x.id = o := Table.key_of_get hget
    subst hid
    simp only [hfound, Gateway.roleInOrder, bind_eq, run_bind_ok, pure_eq, run_ret_ok] at hrun
    obtain ⟨role, _, hrole, hbucket, rfl⟩ := hrun
    refine ⟨x, hget, internal_of_resolveRole hget hrole ?_⟩
    revert hbucket
    cases role <;> simp [Gateway.deliveryRole, isInternalRole]

end Roles

/-! ### What a move leaves of that -/

section Moves

variable {sha256 : String → String} {ps : PlatformSettings} {env : Env} {caller : User} {o : Id}
  {op : Op} {L L' : Life} {x' : Order} {driver : Id} {user : User}

/-- An order that is active was active before, with the same seller, or was not there. -/
theorem Move.still_active (h : Move sha256 ps env caller o op L L') (hx' : L'.order = some x')
    (hactive : x'.status ∈ activeStatuses) :
    L.order = none ∨ ∃ x, L.order = some x ∧ x.status ∈ activeStatuses ∧
      x.sellerId = x'.sellerId := by
  cases h with
  | stay => exact .inr ⟨x', hx', hactive, rfl⟩
  | create _ hnone => exact .inl hnone
  | accept hx _ hstatus =>
    obtain rfl := Option.some.inj hx'
    exact .inr ⟨_, hx, by simp [hstatus, activeStatuses], rfl⟩
  | prepare hx _ hstatus =>
    obtain rfl := Option.some.inj hx'
    exact .inr ⟨_, hx, by simp [hstatus, activeStatuses], rfl⟩
  | sendOutNew hx _ hstatus =>
    obtain rfl := Option.some.inj hx'
    exact .inr ⟨_, hx, by simp [hstatus, activeStatuses], rfl⟩
  | sendOut hx _ hstatus =>
    obtain rfl := Option.some.inj hx'
    exact .inr ⟨_, hx, by simp [hstatus, activeStatuses], rfl⟩
  | driverAccept hx =>
    obtain rfl := Option.some.inj hx'
    exact .inr ⟨_, hx, hactive, rfl⟩
  | deliver =>
    obtain rfl := Option.some.inj hx'
    exact absurd hactive delivered_not_active
  | completeDelivery =>
    obtain rfl := Option.some.inj hx'
    exact absurd hactive delivered_not_active
  | complete =>
    obtain rfl := Option.some.inj hx'
    exact absurd hactive completed_not_active
  | autoComplete =>
    obtain rfl := Option.some.inj hx'
    exact absurd hactive completed_not_active
  | cancel =>
    obtain rfl := Option.some.inj hx'
    exact absurd hactive cancelledOrder_not_active
  | delete => cases hx'
  | purge => cases hx'
  | _ => exact .inr ⟨x', hx', hactive, rfl⟩

/-- While the order is active, a driver is named as long as nobody takes the delivery row from
him. -/
theorem Move.keeps_names (h : Move sha256 ps env caller o op L L') (hn : L.Names driver)
    (hx' : L'.order = some x') (hactive : x'.status ∈ activeStatuses)
    (hrow : ∀ other, op.takesRow caller = some (o, other) → L' ≠ L →
      L.delivery.bind Delivery.driverId = some driver → driver = other ∨ L.Assigns driver) :
    L'.Names driver := by
  by_cases hmoved : L' = L
  · rw [hmoved]
    exact hn
  cases h with
  | stay => exact hn
  | chooseSelfDelivery _ _ _ hnone hfree =>
    rcases hn with hd | ha
    · rw [hnone] at hd
      cases hd
    · exact absurd ha (Life.not_assigns hfree)
  | requestDriver =>
    refine hn.imp id ?_
    rintro ⟨a, ha, hdriver⟩
    exact ⟨a, List.mem_append_left _ ha, hdriver⟩
  | @assignDriver _ _ p _ _ _ _ _ _ _ hfree =>
    refine hn.imp id ?_
    rintro ⟨a, ha, hdriver, hs⟩
    -- an assignment that drives is no longer free to be assigned
    rw [hfree a ha (drivingStatuses_active hs)] at hdriver
    cases hdriver
  | sendOutNew _ _ _ hnone =>
    rcases hn with hd | ha
    · rw [hnone] at hd
      cases hd
    · exact .inr ha
  | sendOut _ _ _ hd =>
    refine hn.imp (fun hd' => ?_) id
    rw [hd] at hd'
    exact hd'
  | driverAccept =>
    rcases hn with hd | ha
    · rcases hrow caller.id rfl hmoved hd with rfl | ha
      · exact .inl (takenDelivery_driverId _ _ _ _)
      · exact .inr ha
    · exact .inr ha
  | recordLocation =>
    refine hn.imp (fun hd => ?_) id
    cases hdel : L.delivery with
    | none => simp [hdel] at hd
    | some d =>
      rw [hdel] at hd
      exact hd
  | @patchDelivery _ _ d given _ _ _ _ hd =>
    cases given with
    | none =>
      refine hn.imp (fun hd' => ?_) id
      rw [hd] at hd'
      exact hd'
    | some given =>
      rcases hn with hd' | ha
      · rcases hrow given rfl hmoved hd' with rfl | ha
        · exact .inl rfl
        · exact .inr ha
      · exact .inr ha
  | deliver =>
    obtain rfl := Option.some.inj hx'
    exact absurd hactive delivered_not_active
  | completeDelivery =>
    obtain rfl := Option.some.inj hx'
    exact absurd hactive delivered_not_active
  | cancel =>
    obtain rfl := Option.some.inj hx'
    exact absurd hactive cancelledOrder_not_active
  | delete => cases hx'
  | purge => cases hx'
  | _ => exact hn

/-- The same for everybody who is internal. -/
theorem Move.keeps_internal (h : Move sha256 ps env caller o op L L') (hL : L.order ≠ none)
    (hi : L.Internal user) (hx' : L'.order = some x') (hactive : x'.status ∈ activeStatuses)
    (hrow : user.role = .driver → ∀ other, op.takesRow caller = some (o, other) → L' ≠ L →
      L.delivery.bind Delivery.driverId = some user.id → user.id = other ∨ L.Assigns user.id) :
    L'.Internal user := by
  rcases hi with hu | ⟨hu, x, hx, hseller⟩ | ⟨hu, hn⟩
  · exact .inl hu
  · obtain ⟨y, hy, -, hsame⟩ := (h.still_active hx' hactive).resolve_left hL
    obtain rfl := Option.some.inj (hx.symm.trans hy)
    exact .inr (.inl ⟨hu, x', hx', hsame.symm.trans hseller⟩)
  · exact .inr (.inr ⟨hu, h.keeps_names hn hx' hactive (hrow hu)⟩)

/-- What changes neither the driver of the row nor the assignments. -/
theorem Life.Exclusive.congr (h : L.fulfilment.Exclusive)
    (hdelivery : L'.delivery.map Delivery.driverId = L.delivery.map Delivery.driverId)
    (hassignments : L'.assignments = L.assignments) : L'.fulfilment.Exclusive := by
  have hsame : L'.fulfilment = L.fulfilment := by
    simp only [Life.fulfilment, hdelivery, hassignments]
  rw [hsame]
  exact h

/-- A delivery row with a driver leaves room for an assignment. -/
theorem Life.Exclusive.give (h : L.fulfilment.Exclusive)
    (hdelivery : L'.delivery.map Delivery.driverId = some (some driver))
    (hassignments : L'.assignments = L.assignments) : L'.fulfilment.Exclusive where
  self hself := by
    have hnone : L'.delivery.map Delivery.driverId = some none := hself
    rw [hdelivery] at hnone
    cases hnone
  single := by
    have hactive : L'.fulfilment.active = L.fulfilment.active := by
      simp only [Fulfilment.active, Life.fulfilment, hassignments]
    rw [hactive]
    exact h.single

/-- Every move keeps an order to one fulfilment. -/
theorem Move.exclusive (h : Move sha256 ps env caller o op L L')
    (hL : L.fulfilment.Exclusive) : L'.fulfilment.Exclusive := by
  cases h with
  | chooseSelfDelivery _ _ _ _ hfree =>
    exact Fulfilment.exclusive_of_active_eq_nil
      (List.filter_eq_nil_iff.mpr fun a ha => by simpa using hfree a ha)
  | requestDriver _ _ _ hnone hfree =>
    refine Fulfilment.exclusive_request (F := L.fulfilment) ?_ ?_ _
    · simp [Life.fulfilment, hnone]
    · exact List.filter_eq_nil_iff.mpr fun a ha => by simpa using hfree a ha
  | assignDriver _ _ _ _ hp hactive _ hids =>
    exact hL.assign (List.mem_filter.mpr ⟨hp, decide_eq_true hactive⟩) hids _ _ _
  | sendOutNew _ _ _ hnone _ _ hdriver =>
    obtain ⟨driver, hdriver⟩ := Option.ne_none_iff_exists'.mp hdriver
    exact Life.Exclusive.give hL (congrArg some hdriver) rfl
  | sendOut _ _ _ hd => exact Life.Exclusive.congr hL (by rw [hd]; rfl) rfl
  | deliver _ _ _ hd => exact Life.Exclusive.congr hL (by rw [hd]; rfl) rfl
  | cancel => exact Fulfilment.exclusive_cancel L.fulfilment
  | delete => exact Fulfilment.exclusive_of_active_eq_nil rfl
  | purge => exact Fulfilment.exclusive_of_active_eq_nil rfl
  | driverAccept =>
    exact Life.Exclusive.give hL (congrArg some (takenDelivery_driverId _ _ _ _)) rfl
  | recordLocation =>
    refine Life.Exclusive.congr hL ?_ rfl
    rw [Option.map_map]
    rfl
  | @patchDelivery _ _ d given _ _ _ _ hd =>
    cases given with
    | none => exact Life.Exclusive.congr hL (by rw [hd]; rfl) rfl
    | some given => exact Life.Exclusive.give hL rfl rfl
  | _ => exact Life.Exclusive.congr hL rfl rfl

/-- A report keeps the fulfilment exclusive. -/
theorem Reported.exclusive {r : Report} (h : Reported r o L L') (hL : L.fulfilment.Exclusive) :
    L'.fulfilment.Exclusive := by
  cases h with
  | stay => exact hL
  | report _ _ _ _ hd => exact Life.Exclusive.congr hL (by rw [hd]; rfl) rfl

/-- Who is internal to an order stays so after a report. -/
theorem Reported.internal {r : Report} (h : Reported r o L L') (hi : L.Internal user) :
    L'.Internal user := by
  cases h with
  | stay => exact hi
  | report _ _ _ _ hd =>
    refine hi.imp id fun hi => hi.imp id fun hi => ⟨hi.1, hi.2.imp (fun hd' => ?_) id⟩
    rw [hd] at hd'
    exact hd'

end Moves

/-! ### Runs -/

/-- An id once drawn stays drawn. -/
theorem World.Drawn.handle {sha256 : String → String} {w : World} {o : Id} (h : w.Drawn o)
    (q : ServiceRequest) : (w.handle sha256 q).Drawn o := by
  obtain ⟨n, hn, rfl⟩ := h
  have hserved : (w.handle sha256 q).served = w.served + 1 := by
    cases q with
    | call c => rfl
    | report r => rfl
  exact ⟨n, by omega, rfl⟩

namespace LiveServer

variable {sha256 : String → String} {s : LiveServer} {conn : ConnId} {user : User} {o : Id}

/-- While an order is active, whoever is in its internal bucket is internal to it. -/
def Current (db : Db) (o : Id) (user : User) : Prop :=
  ∀ x, db.orders.get o = some x → x.status ∈ activeStatuses → (db.life o).Internal user

/-- What holds between any two steps. -/
structure Tidy (s : LiveServer) : Prop where
  ready : s.world.Ready
  exclusive : ∀ o, (s.world.db.fulfilment o).Exclusive
  bucket : ∀ o, ∀ conn ∈ s.registry.deliverySubscribers .internal o,
    s.world.Drawn o ∧ ∃ user, s.registry.userOf conn = some user ∧ Current s.world.db o user

/-- What changes the registry only, and adds nobody to an internal bucket. -/
theorem Tidy.registry (h : s.Tidy) {r : ConnectionRegistry} {live : Finset ConnId}
    (hbucket : ∀ o, ∀ conn ∈ r.deliverySubscribers .internal o,
      conn ∈ s.registry.deliverySubscribers .internal o)
    (huser : ∀ conn user, s.registry.userOf conn = some user → r.userOf conn = some user) :
    Tidy { world := s.world, registry := r, live } where
  ready := h.ready
  exclusive := h.exclusive
  bucket o conn hin := by
    obtain ⟨hdrawn, user, hu, hcurrent⟩ := h.bucket o conn (hbucket o conn hin)
    exact ⟨hdrawn, user, huser conn user hu, hcurrent⟩

/-- A disconnection keeps the server tidy. -/
theorem Tidy.disconnect (h : s.Tidy) : (s.disconnect conn).Tidy :=
  h.registry (fun _ _ hin => ConnectionRegistry.mem_of_mem_disconnectAll hin)
    fun _ _ hu => by simpa using hu

/-- A subscription puts somebody internal into the internal bucket, or nobody. -/
theorem Tidy.subscribe (h : s.Tidy) (hu : s.registry.userOf conn = some user) :
    (s.subscribe conn user o).Tidy := by
  unfold LiveServer.subscribe
  split
  · next role hrole =>
    refine ⟨h.ready, h.exclusive, fun o' conn' hin => ?_⟩
    rcases ConnectionRegistry.mem_subscribeDelivery.mp hin with ⟨rfl, rfl, rfl⟩ | hold
    · obtain ⟨x, hx, hinternal⟩ := internal_of_session hrole
      refine ⟨h.ready.drawn o' fun hempty => ?_, user, by simpa using hu, fun _ _ _ => hinternal⟩
      have hrow : (s.world.db.life o').order = some x := hx
      rw [hempty] at hrow
      cases hrow
    · obtain ⟨hdrawn, user', hu', hcurrent⟩ := h.bucket o' conn' hold
      exact ⟨hdrawn, user', by simpa using hu', hcurrent⟩
  · exact h.disconnect

/-- A call leaves everybody internal who is, if it replaces nobody who is subscribed. -/
theorem Tidy.call (h : s.Tidy) {c : Call} (hc : s.ReplacesNoSubscriber (.request (.call c)))
    (hin : conn ∈ s.registry.deliverySubscribers .internal o)
    (hu : s.registry.userOf conn = some user) (hcurrent : Current s.world.db o user) :
    Current (s.world.serve sha256 c).db o user := by
  obtain ⟨hdrawn, -⟩ := h.bucket o conn hin
  intro x' hx' hactive
  have hmove := h.ready.moves sha256 c o
  have hL : (s.world.db.life o).order ≠ none := by
    intro hnone
    -- nothing is created under an identifier that has been drawn before
    have hsame : (s.world.serve sha256 c).db.life o = s.world.db.life o :=
      h.ready.stays_absent c hdrawn hnone
    have hrow : ((s.world.serve sha256 c).db.life o).order = some x' := hx'
    rw [hsame, hnone] at hrow
    cases hrow
  obtain ⟨x, hx, hwas, -⟩ := (hmove.still_active hx' hactive).resolve_left hL
  refine hmove.keeps_internal hL (hcurrent x hx hwas) hx' hactive ?_
  intro hrole other hrow hmoved hdelivery
  have hhands : c.op.handsTo c.caller = some (o, other) := handsTo_of_takesRow hrow
  cases hr : (s.world.respond sha256 c).1 with
  | error e => exact absurd (congrArg (Db.life · o) (serve_of_error hr)) hmoved
  | ok r =>
    exact hc o other hrow (mayHand_of_ok hhands hr hmoved) ⟨x, hx, hwas⟩ conn hin user hu hrole
      hdelivery

/-- Traffic that replaces no subscriber keeps the server tidy. -/
theorem Tidy.handle (h : s.Tidy) {t : Traffic} (ht : s.ReplacesNoSubscriber t) :
    (s.handle sha256 t).Tidy := by
  cases t with
  | connect conn' user' =>
    simp only [LiveServer.handle]
    split
    · next hnew =>
      refine h.registry (fun _ _ hin => hin) fun c u hu => ?_
      have hne : c ≠ conn' := by
        rintro rfl
        simp [ConnectionRegistry.userOf, Option.isNone_iff_eq_none.mp hnew] at hu
      rw [ConnectionRegistry.userOf_connect_of_ne hne]
      exact hu
    · exact h
  | subscribe conn' orderId =>
    simp only [LiveServer.handle]
    split
    · cases hu : s.registry.userOf conn' with
      | none => exact h
      | some user' => exact h.subscribe hu
    · exact h
  | unsubscribe conn' orderId =>
    simp only [LiveServer.handle]
    split
    · exact h.registry (fun _ _ hin => (ConnectionRegistry.mem_unsubscribeDelivery.mp hin).2)
        fun _ _ hu => by simpa using hu
    · exact h
  | disconnect conn' => exact h.disconnect
  | request q =>
    refine ⟨h.ready.handle q, fun o => ?_, fun o conn hin => ?_⟩
    · cases q with
      | call c => exact (h.ready.moves sha256 c o).exclusive (h.exclusive o)
      | report r => exact (answer_reported s.world r o).exclusive (h.exclusive o)
    · obtain ⟨hdrawn, user, hu, hcurrent⟩ := h.bucket o conn hin
      refine ⟨hdrawn.handle q, user, hu, ?_⟩
      cases q with
      | call c => exact h.call ht hin hu hcurrent
      | report r =>
        have hreported := answer_reported s.world r o
        intro x hx hactive
        have hsame : (s.world.db.life o).order = some x := by
          rw [← hreported.order]
          exact hx
        exact hreported.internal (hcurrent x hsame hactive)

/-- While the invariant holds, whoever hears of a position is internal. -/
theorem Tidy.confined (h : s.Tidy) {t : Traffic} (ht : s.ReplacesNoSubscriber t) :
    s.Confined sha256 t := by
  intro b hb conn hin
  have hafter : (s.handle sha256 t).Tidy := h.handle ht
  cases t with
  | request q =>
    cases q with
    | call c => cases hb
    | report r =>
      simp only [located, Option.map_eq_some_iff] at hb
      obtain ⟨⟨x, d⟩, hanswer, rfl⟩ := hb
      have hr : (s.world.answer r).1 = .ok (x, d) := by
        revert hanswer
        cases (s.world.answer r).1 <;> simp [Except.toOption]
      obtain ⟨x', d', role, hget, -, hstatus, -, -, -, -, hresult, hdb⟩ :=
        postLocation_ok (session_ok hr)
      obtain rfl := (Prod.mk.inj hresult).1
      have hid : x.id = r.orderId := Table.key_of_get hget
      have hbucket : conn ∈ s.registry.deliverySubscribers .internal x.id := by
        simpa [Broadcast.waiting, broadcastDeliveryLocationInternal] using hin
      obtain ⟨-, user, hu, hcurrent⟩ := hafter.bucket x.id conn hbucket
      have hrow : (s.handle sha256 (.request (.report r))).world.db.orders.get x.id = some x := by
        have hdb' : (s.handle sha256 (.request (.report r))).world.db = _ := hdb
        rw [hdb', hid]
        exact hget
      have hinternal := hcurrent x hrow (by simp [hstatus, activeStatuses])
      obtain ⟨role, hrun, hrole⟩ := resolveRole_of_internal hrow (hafter.exclusive x.id) hinternal
      exact ⟨user, x, role, hu, hrow, hrun, hrole⟩
  | _ => cases hb

end LiveServer

/-- **Positions are for those who are internal now.** From a server without orders and
connections, in every run in which no request takes the delivery row of an active order from a
driver who is subscribed to it, whoever hears of a position resolves to an internal role then. -/
theorem positions_confined (sha256 : String → String) {w : World} (hw : w.Initial)
    {traffic : List Traffic}
    (htraffic : EachStep (LiveServer.handle sha256) LiveServer.ReplacesNoSubscriber { world := w }
      traffic) :
    EachStep (LiveServer.handle sha256) (LiveServer.Confined sha256) { world := w } traffic := by
  have hstart : LiveServer.Tidy { world := w } := by
    refine ⟨hw.ready, fun o => ?_, fun o conn hin => absurd hin (Finset.notMem_empty _)⟩
    have hnone : w.db.fulfilment o = {} := congrArg Life.fulfilment (hw.noOrder o)
    rw [hnone]
    exact Fulfilment.exclusive_of_active_eq_nil rfl
  exact htraffic.guarantee (I := LiveServer.Tidy) (fun s t h ht => h.handle ht)
    (fun s t h ht => h.confined ht) hstart

/-- A call that takes no row replaces no subscriber. -/
theorem replacesNoSubscriber_of_none {s : LiveServer} {c : Call}
    (h : c.op.takesRow c.caller = none) : s.ReplacesNoSubscriber (.request (.call c)) := by
  intro o driver hrow
  rw [h] at hrow
  cases hrow

namespace Sample

/-- The order on its way with its seller. -/
def selfSent : List Call :=
  [place, request seller (.acceptOrder 0) 2, request seller (.chooseSelfDelivery 0) 3,
   request seller (.markPreparing 0) 4, request seller (.outForDelivery 0) 5]

/-- A report of somebody who delivers the order. -/
def positionOf (caller : User) (time : Time) : Report :=
  { caller, orderId := 0, lat := 52, lng := 13, now := fun _ => time, transactionNow := time }

end Sample

/-- The administrator watches an order that its seller delivers. -/
theorem positions_confined_self :
    EachStep (LiveServer.handle Sample.sha256) (LiveServer.Confined Sample.sha256)
      { world := Sample.start }
      (Sample.selfSent.map (fun c => .request (.call c)) ++
        [.connect 0 Sample.admin, .subscribe 0 0,
         .request (.report (Sample.positionOf Sample.seller 6))]) :=
  positions_confined Sample.sha256 Sample.start_initial
    ⟨replacesNoSubscriber_of_none rfl, replacesNoSubscriber_of_none rfl,
      replacesNoSubscriber_of_none rfl, replacesNoSubscriber_of_none rfl,
      replacesNoSubscriber_of_none rfl, trivial, trivial, trivial, trivial⟩

namespace Sample

/-- A driver takes the order, subscribes to it and is replaced by the administrator. -/
def replaced : List Traffic :=
  selfSent.map (fun c => .request (.call c)) ++
    [.request (.call (request driver (.driverAccept 0) 6)), .connect 0 driver, .subscribe 0 0,
     .request (.call (request admin (.adminPatchDelivery 0 (some 4) none none) 7))]

/-- The server when the other driver is about to report. -/
def replacedServer : LiveServer := after (LiveServer.handle sha256) { world := start } replaced

/-- The report of the new driver. -/
def newPosition : Traffic := .request (.report (positionOf otherDriver 8))

end Sample

/-- The replaced driver still hears of the position that the new driver reports. -/
theorem replaced_driver_hears :
    Sample.start.Initial ∧
      ¬EachStep (LiveServer.handle Sample.sha256) (LiveServer.Confined Sample.sha256)
        { world := Sample.start } (Sample.replaced ++ [Sample.newPosition]) := by
  refine ⟨Sample.start_initial, fun h => ?_⟩
  have hlast : Sample.replacedServer.Confined Sample.sha256 Sample.newPosition :=
    (eachStep_append.mp h).2.1
  have hheard : ∃ b, Sample.replacedServer.located Sample.newPosition = some b ∧
      b.orderId = 0 ∧ 0 ∈ b.waiting := by
    refine ⟨_, Option.some_get (x := Sample.replacedServer.located Sample.newPosition)
      (by decide +kernel) |>.symm, ?_⟩
    decide +kernel
  obtain ⟨b, hb, ho, hin⟩ := hheard
  obtain ⟨user, x, role, hu, hx, hrun, hrole⟩ := hlast b hb 0 hin
  have huser : Sample.replacedServer.registry.userOf 0 = some Sample.driver := by decide +kernel
  obtain rfl : Sample.driver = user := Option.some.inj (huser.symm.trans hu)
  have hid : x.id = b.orderId := Table.key_of_get hx
  rw [ho] at hid
  -- the row names the new driver, and nobody has been assigned
  have hnot : ¬((Sample.replacedServer.handle Sample.sha256 Sample.newPosition).world.db.life
      x.id).Names Sample.driver.id := by
    rw [hid]
    rintro (hd | ⟨a, ha, -⟩)
    · revert hd
      decide +kernel
    · refine absurd (List.length_pos_of_mem ha) ?_
      decide +kernel
  rw [resolveRole_of_not_names rfl hnot] at hrun
  obtain ⟨rfl, -⟩ := Prod.mk.inj (Except.ok.inj hrun)
  cases hrole

end Marketplace
