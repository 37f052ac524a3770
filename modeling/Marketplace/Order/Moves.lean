import Marketplace.Order.Life

/-!
# The moves of an order

The state machine of one order, with every operation of the order, delivery flow and
delivery tracking services, and the proof that the services follow it: a request
that returns makes one move in the life of every order, which is to stay for every
order it does not name, and the purge job makes two, one for each of its loops.
-/

namespace Marketplace

open Lib Txn OrderService DeliveryFlow DeliveryTracking

/-! ### The moves -/

/-- A snapshot that `_write_snapshot` may take of an order. -/
structure SnapshotOf (L : Life) (x : Order) (s : OrderAnalyticsSnapshot) : Prop where
  orderId : s.orderId = x.id
  sellerId : s.sellerId = x.sellerId
  storeId : s.storeId = x.storeId
  customerId : s.customerId = x.customerId
  itemCount : s.itemCount = (L.items.map OrderItem.quantity).sum
  subtotalMinor : s.subtotalMinor = x.subtotalMinor
  totalMinor : s.totalMinor = x.totalMinor
  duration : s.deliveryDurationSeconds = L.delivery.bind Delivery.durationSeconds
  distance : s.deliveryDistanceMeters = L.delivery.bind Delivery.distanceMeters

/-- The moves of the operation `op` of `caller` in the life of the order `o`, under the
settings `ps` in force. -/
inductive Move (sha256 : String → String) (ps : PlatformSettings) (env : Env) (caller : User)
    (o : Id) : Op → Life → Life → Prop
  /-- Nothing happens in this life. -/
  | stay {op L} : Move sha256 ps env caller o op L L
  | create {items address L seller store lines} : o = env.uuid4 0 → L.order = none →
      caller.role = .customer → caller.referringSellerId = some seller →
      Move sha256 ps env caller o (.createOrder items address) L
        { L with order := some (newOrder env caller seller store address lines),
                 items := L.items ++ newItems env o 1 lines }
  | accept {L x} : L.order = some x → x.deletedAt = none → x.status = .pending →
      Move sha256 ps env caller o (.acceptOrder o) L
        { L with order := some (x.accept (env.now 0)) }
  | prepare {L x} : L.order = some x → x.deletedAt = none → x.status = .accepted →
      Move sha256 ps env caller o (.markPreparing o) L
        { L with order := some (x.prepare (env.now 0)) }
  | chooseSelfDelivery {L x seller} : L.order = some x → x.deletedAt = none →
      (x.status = .accepted ∨ x.status = .preparing) → L.delivery = none →
      (∀ a ∈ L.assignments, a.status ∉ activeAssignmentStatuses) →
      Move sha256 ps env caller o (.chooseSelfDelivery o) L
        { L with delivery := some { id := env.uuid4 0, orderId := o, driverId := none,
                                    sellerId := seller, status := .pending } }
  | requestDriver {L x seller} : L.order = some x → x.deletedAt = none →
      (x.status = .accepted ∨ x.status = .preparing) → L.delivery = none →
      (∀ a ∈ L.assignments, a.status ∉ activeAssignmentStatuses) →
      Move sha256 ps env caller o (.requestDriver o) L
        { L with assignments := L.assignments ++
            [{ id := env.uuid4 0, orderId := o, driverId := none, status := .requested,
               requestedBySellerId := seller, requestedAt := env.transactionNow }] }
  | assignDriver {L x p driver} : L.order = some x → x.deletedAt = none →
      (x.status = .accepted ∨ x.status = .preparing) → caller.role = .admin →
      p ∈ L.assignments → p.status ∈ activeAssignmentStatuses →
      (∀ a ∈ L.assignments, a.status ∈ activeAssignmentStatuses → a.driverId = none) →
      (L.assignments.map DriverAssignment.id).Nodup →
      Move sha256 ps env caller o (.assignDriver o driver) L
        { L with assignments := L.assignments.map fun a =>
            if a.id = p.id then a.assign driver caller.id (env.now 0) else a }
  /-- The driver's delivery is created when the order goes out. -/
  | sendOutNew {L x a} : L.order = some x → x.deletedAt = none → x.status = .preparing →
      L.delivery = none → a ∈ L.assignments → (a.status = .assigned ∨ a.status = .accepted) →
      a.driverId ≠ none →
      Move sha256 ps env caller o (.outForDelivery o) L
        { L with order := some (x.sendOut (env.now 1)),
                 delivery := some { id := env.uuid4 0, orderId := o, driverId := a.driverId,
                                    sellerId := x.sellerId, status := .inTransit,
                                    startedAt := some (env.now 0) } }
  | sendOut {L x d} : L.order = some x → x.deletedAt = none → x.status = .preparing →
      L.delivery = some d →
      Move sha256 ps env caller o (.outForDelivery o) L
        { L with order := some (x.sendOut (env.now 1)), delivery := some (d.start (env.now 0)) }
  | deliver {L x d} : L.order = some x → x.deletedAt = none → x.status = .outForDelivery →
      L.delivery = some d → (d.driverId = none → caller.role = .seller) →
      (caller.role = .driver → d.driverId = some caller.id) →
      Move sha256 ps env caller o (.markDelivered o) L
        { L with order := some (x.deliver (env.now 0)),
                 delivery := some (d.deliver (env.now 0) (stampDuration (env.now 0) d)) }
  | complete {L x s} : L.order = some x → x.deletedAt = none → x.status = .delivered →
      SnapshotOf L x s →
      Move sha256 ps env caller o (.completeOrder o) L
        (Life.record { L with order := some (x.complete (env.now 0)) } s)
  | cancel {L x reason} : L.order = some x → x.deletedAt = none → x.status ∈ activeStatuses →
      Move sha256 ps env caller o (.cancelOrder o reason) L
        { L with order := some (x.cancel (env.now 0) reason),
                 assignments := L.assignments.map fun a =>
                   if a.status ∈ activeAssignmentStatuses then a.cancel else a }
  /-- An order that completed is recorded once more before its row goes. -/
  | delete {L x s terminal} : L.order = some x → x.deletedAt = none →
      terminalAt x = some terminal → days ps.retentionMinDays ≤ env.now 0 - terminal →
      SnapshotOf L x s →
      Move sha256 ps env caller o (.deleteOrder o) L
        (if x.status = .completed then L.record s else L).bury
  | autoComplete {L x s} : L.order = some x → x.deletedAt = none → x.status = .delivered →
      (∃ t, x.deliveredAt = some t ∧ t ≤ env.now 0 - hours ps.orderAutoCompleteGraceHours) →
      SnapshotOf L x s →
      Move sha256 ps env caller o .runPurgeJob L
        (Life.record { L with order := some (x.complete (env.now 0)) } s)
  | purge {L x s terminal} : L.order = some x → x.deletedAt = none →
      terminalAt x = some terminal → terminal ≤ env.now 0 - days ps.retentionMinDays →
      SnapshotOf L x s →
      Move sha256 ps env caller o .runPurgeJob L
        (if x.status = .completed then L.record s else L).bury
  | driverAccept {L x} : L.order = some x → x.deletedAt = none → caller.role = .driver →
      L.code = none →
      Move sha256 ps env caller o (.driverAccept o) L
        { L with order := some (x.acceptByDriver (env.now 0)),
                 delivery := some (takenDelivery env caller x L.delivery),
                 code := some (newCode sha256 env o) }
  | recordLocation {L x lat lng} : L.order = some x → x.deletedAt = none →
      caller.role ∈ [UserRole.driver, .seller, .admin] →
      Move sha256 ps env caller o (.recordLocation o lat lng) L
        { L with delivery := L.delivery.map (Delivery.moveTo lat lng) }
  | completeDelivery {L x c submitted} : L.order = some x → x.deletedAt = none →
      caller.role = .driver → L.code = some c → checkCode sha256 c submitted = .right →
      Move sha256 ps env caller o (.completeDelivery o submitted) L
        { L with order := some (x.deliverByCode (env.now 0)), code := some (c.consume (env.now 0)) }
  | patchDelivery {L x d driver distance duration} : L.order = some x → x.deletedAt = none →
      L.delivery = some d → caller.role = .admin →
      Move sha256 ps env caller o (.adminPatchDelivery o driver distance duration) L
        { L with delivery := some ((driver.elim d fun i => d.giveTo i).patch distance duration) }


/-! ### Every operation moves -/

section Simulation

variable {sha256 : String → String} {ps : PlatformSettings} {env : Env} {caller : User} {o : Id}
  {db db' : Db}

/-- The settings a request finds. -/
def Db.settingsInForce (db : Db) (env : Env) : PlatformSettings :=
  db.platformSettings.getD { updatedAt := env.transactionNow }

/-- The settings in force are read, and no life is touched. -/
theorem getRetentionSettings_inForce {ps : PlatformSettings}
    (h : (getRetentionSettings env).run db = .ok (ps, db')) :
    ps = db.settingsInForce env ∧ ∀ o, db'.life o = db.life o := by
  rcases getRetentionSettings_ok h with ⟨hps, rfl⟩ | ⟨hps, rfl, rfl⟩
  · exact ⟨by rw [Db.settingsInForce, hps, Option.getD_some], fun _ => rfl⟩
  · exact ⟨by rw [Db.settingsInForce, hps, Option.getD_none], fun _ => rfl⟩

/-- The snapshot of an order describes it. -/
theorem snapshotOf_snapshotRow (db : Db) (env : Env) (i : ℕ) (x : Order) :
    SnapshotOf (db.life x.id) x (snapshotRow db env i x) := by
  constructor <;> rfl

/-- The new items belong to the new order. -/
theorem orderId_of_mem_newItems {orderId : Id} {n : ℕ} {lines : List (Product × ℤ)}
    {item : OrderItem} (hitem : item ∈ newItems env orderId n lines) : item.orderId = orderId := by
  induction lines generalizing n with
  | nil => simp [newItems] at hitem
  | cons line lines ih =>
    rcases List.mem_cons.mp hitem with rfl | hitem
    · rfl
    · exact ih hitem

/-- `create_order` begins a life. -/
theorem createOrder_moves {items : List LineItem} {address : Address} {r : OrderFull}
    (h : (createOrder env caller items address).run db = .ok (r, db')) :
    Move sha256 ps env caller o (.createOrder items address) (db.life o) (db'.life o) := by
  obtain ⟨lines, seller, store, hrole, hseller, -, -, -, hfresh, rfl, hrows⟩ := createOrder_ok h
  have hnone : (db.life (env.uuid4 0)).order = none := by
    have hlife : (takeStock db lines).life (env.uuid4 0) = db.life (env.uuid4 0) := life_takeStock
    rw [← hlife]
    exact hfresh
  rw [life_addItems hrows fun i => orderId_of_mem_newItems, life_addOrder hfresh, life_takeStock]
  by_cases ho : o = env.uuid4 0
  · subst ho
    rw [if_pos rfl, newOrder, if_pos rfl]
    exact .create rfl hnone hrole hseller
  · rw [if_neg ho, newOrder, if_neg ho]
    exact .stay

/-- An operation that touches one order moves in that order's life and stays in all others. -/
theorem move_of_local {op : Op} (orderId : Id)
    (hother : ∀ o, o ≠ orderId → db'.life o = db.life o)
    (hself : Move sha256 ps env caller orderId op (db.life orderId) (db'.life orderId)) :
    Move sha256 ps env caller o op (db.life o) (db'.life o) := by
  by_cases ho : o = orderId
  · subst ho
    exact hself
  · rw [hother o ho]
    exact .stay

/-- An operation that changes the order row and nothing else. -/
theorem move_of_modifyOrder {op : Op} {orderId : Id} {x : Order} {f : Order → Order}
    (hf : ∀ x, (f x).id = x.id) (hx : db.orders.get orderId = some x)
    (hself : Move sha256 ps env caller orderId op (db.life orderId)
      { db.life orderId with order := some (f x) }) :
    Move sha256 ps env caller o op (db.life o) ((db.modifyOrder orderId f).life o) := by
  refine move_of_local orderId (fun o ho => life_modifyOrder_of_ne hf ho) ?_
  have hlife : (db.life orderId).order = some x := hx
  rw [life_modifyOrder_self hf, hlife]
  exact hself

/-- `accept_order` moves the life of its order alone. -/
theorem acceptOrder_moves {orderId : Id} {r : OrderFull}
    (h : (OrderService.acceptOrder env caller orderId).run db = .ok (r, db')) :
    Move sha256 ps env caller o (.acceptOrder orderId) (db.life o) (db'.life o) := by
  obtain ⟨x, hact, -, hstatus, rfl⟩ := OrderService.acceptOrder_ok h
  exact move_of_modifyOrder (Order.accept_id _) hact.found (.accept hact.found hact.live hstatus)

/-- So does `mark_preparing`. -/
theorem markPreparing_moves {orderId : Id} {r : OrderFull}
    (h : (markPreparing env caller orderId).run db = .ok (r, db')) :
    Move sha256 ps env caller o (.markPreparing orderId) (db.life o) (db'.life o) := by
  obtain ⟨x, hact, -, hstatus, rfl⟩ := markPreparing_ok h
  exact move_of_modifyOrder (Order.prepare_id _) hact.found (.prepare hact.found hact.live hstatus)

/-- So does `choose_self_delivery`. -/
theorem chooseSelfDelivery_moves {orderId : Id} {r : OrderFull}
    (h : (chooseSelfDelivery env caller orderId).run db = .ok (r, db')) :
    Move sha256 ps env caller o (.chooseSelfDelivery orderId) (db.life o) (db'.life o) := by
  obtain ⟨x, seller, hact, -, hstatus, hopen, rfl⟩ := chooseSelfDelivery_ok h
  refine move_of_local orderId (fun o ho => life_addDelivery_of_ne rfl ho) ?_
  have hnone : (db.life orderId).delivery = none := hopen.delivery
  rw [life_addDelivery_self rfl, hnone, Option.none_or]
  exact .chooseSelfDelivery hact.found hact.live hstatus hnone hopen.assignments

/-- So does `request_driver`. -/
theorem requestDriver_moves {orderId : Id} {r : OrderFull}
    (h : (requestDriver env caller orderId).run db = .ok (r, db')) :
    Move sha256 ps env caller o (.requestDriver orderId) (db.life o) (db'.life o) := by
  obtain ⟨x, seller, hact, -, hstatus, hopen, hfresh, rfl⟩ := requestDriver_ok h
  refine move_of_local orderId (fun o ho => by rw [life_addAssignment hfresh, if_neg ho]) ?_
  rw [life_addAssignment hfresh, if_pos rfl]
  exact .requestDriver hact.found hact.live hstatus hopen.delivery hopen.assignments

/-- So does `assign_driver`. -/
theorem assignDriver_moves {orderId driverId : Id} {r : OrderFull}
    (h : (assignDriver env caller orderId driverId).run db = .ok (r, db')) :
    Move sha256 ps env caller o (.assignDriver orderId driverId) (db.life o) (db'.life o) := by
  obtain ⟨x, p, hact, hrole, hstatus, -, hp, hactive, hfree, rfl⟩ := assignDriver_ok h
  obtain ⟨hrow, hof⟩ := List.mem_filter.mp hp
  have hpo : p.orderId = orderId := of_decide_eq_true hof
  refine move_of_local orderId (fun o ho => life_modifyAssignment_of_ne
    (DriverAssignment.assign_keys _ _ _) hrow (hpo ▸ ho)) ?_
  rw [life_modifyAssignment (DriverAssignment.assign_keys _ _ _)]
  exact .assignDriver hact.found hact.live hstatus hrole hp hactive hfree
    (db.driverAssignments.nodup.sublist (List.filter_sublist.map _))

/-- So does `out_for_delivery`. -/
theorem outForDelivery_moves {orderId : Id} {r : OrderFull}
    (h : (outForDelivery env caller orderId).run db = .ok (r, db')) :
    Move sha256 ps env caller o (.outForDelivery orderId) (db.life o) (db'.life o) := by
  obtain ⟨x, u, t, hact, hstatus, hstart, rfl⟩ := outForDelivery_ok h
  have hid := hact.id_eq
  subst hid
  have hx : (db.life x.id).order = some x := hact.found
  rcases startDelivery_ok hstart with ⟨a, ha, hassigned, hdriver, hnone, rfl⟩ | ⟨d, hd, rfl⟩
  · refine move_of_local x.id (fun o ho => by
      rw [life_modifyOrder_of_ne (Order.sendOut_id _) ho, life_addDelivery_of_ne rfl ho]) ?_
    have hlife : (db.life x.id).delivery = none := hnone
    rw [life_modifyOrder_self (Order.sendOut_id _), life_addDelivery_self rfl, hlife,
      Option.none_or, hx]
    exact .sendOutNew hx hact.live hstatus hnone ha hassigned hdriver
  · refine move_of_local x.id (fun o ho => by
      rw [life_modifyOrder_of_ne (Order.sendOut_id _) ho,
        life_modifyDelivery_of_ne (Delivery.start_orderId _) ho]) ?_
    have hlife : (db.life x.id).delivery = some d := hd
    rw [life_modifyOrder_self (Order.sendOut_id _),
      life_modifyDelivery_self (Delivery.start_orderId _), hlife, hx]
    exact .sendOut hx hact.live hstatus hd

/-- So does `mark_delivered`. -/
theorem markDelivered_moves {orderId : Id} {r : OrderFull}
    (h : (markDelivered env caller orderId).run db = .ok (r, db')) :
    Move sha256 ps env caller o (.markDelivered orderId) (db.life o) (db'.life o) := by
  obtain ⟨x, d, hact, hstatus, hd, hself, hdriver, rfl⟩ := markDelivered_ok h
  have hkey : ∀ d' : Delivery, (d'.deliver (env.now 0) (stampDuration (env.now 0) d)).orderId =
      d'.orderId := fun d' => Delivery.deliver_orderId _ d' _
  refine move_of_local orderId (fun o ho => by
    rw [life_modifyDelivery_of_ne hkey ho, life_modifyOrder_of_ne (Order.deliver_id _) ho]) ?_
  have hx : (db.life orderId).order = some x := hact.found
  have hlife : (db.life orderId).delivery = some d := hd
  rw [life_modifyDelivery_self hkey, life_modifyOrder_self (Order.deliver_id _), hx, hlife]
  exact .deliver hx hact.live hstatus hd hself hdriver

/-- The snapshot of an order that has just been completed. -/
theorem snapshotOf_complete (db : Db) (env : Env) (i : ℕ) (x : Order) (now : Time) :
    SnapshotOf (db.life x.id) x (snapshotRow db env i (x.complete now)) := by
  constructor <;> rfl

/-- So does `complete_order`. -/
theorem completeOrder_moves {orderId : Id} {r : OrderFull}
    (h : (completeOrder env caller orderId).run db = .ok (r, db')) :
    Move sha256 ps env caller o (.completeOrder orderId) (db.life o) (db'.life o) := by
  obtain ⟨x, hact, hstatus, rfl⟩ := completeOrder_ok h
  have hid := hact.id_eq
  subst hid
  have hs := snapshotOf_complete db env 0 x (env.now 0)
  refine move_of_local x.id (fun o ho => by
    rw [life_addSnapshot_of_ne hs.orderId ho, life_modifyOrder_of_ne (Order.complete_id _) ho]) ?_
  have hx : (db.life x.id).order = some x := hact.found
  rw [life_addSnapshot_self hs.orderId, life_modifyOrder_self (Order.complete_id _), hx]
  exact .complete hx hact.live hstatus hs

/-- The assignments of an order after some assignments have been cancelled. -/
theorem life_cancelAll (as : List DriverAssignment) :
    (cancelAll db as).life o =
      { db.life o with assignments :=
          (db.life o).assignments.map fun a =>
            if a.id ∈ as.map DriverAssignment.id then a.cancel else a } := by
  induction as generalizing db with
  | nil => simp [cancelAll]
  | cons b as ih =>
    have hstep : cancelAll db (b :: as) =
        cancelAll (db.modifyAssignment b.id DriverAssignment.cancel) as := rfl
    rw [hstep, ih, life_modifyAssignment DriverAssignment.cancel_keys]
    simp only [List.map_map]
    congr 1
    refine List.map_congr_left fun a _ => ?_
    by_cases hb : a.id = b.id
    · simp [hb, DriverAssignment.cancel]
    · simp [hb]

/-- The assignments of an order in force. -/
def Db.activeAssignments (db : Db) (orderId : Id) : List DriverAssignment :=
  (db.assignmentsOf orderId).filter fun a => a.status ∈ activeAssignmentStatuses

/-- An assignment in force is known by its identifier. -/
theorem mem_activeAssignments_ids {orderId : Id} {a : DriverAssignment}
    (ha : a ∈ db.driverAssignments.rows) :
    a.id ∈ (db.activeAssignments orderId).map DriverAssignment.id ↔
      a.orderId = orderId ∧ a.status ∈ activeAssignmentStatuses := by
  simp only [Db.activeAssignments, List.mem_map, List.mem_filter, Db.assignmentsOf,
    decide_eq_true_eq]
  constructor
  · rintro ⟨b, ⟨⟨hb, hbo⟩, hbs⟩, hid⟩
    have hab := List.inj_on_of_nodup_map db.driverAssignments.nodup hb ha hid
    exact hab ▸ ⟨hbo, hbs⟩
  · rintro ⟨hao, has⟩
    exact ⟨a, ⟨⟨ha, hao⟩, has⟩, rfl⟩

/-- Cancelling what is in force for an order cancels what is in force in its life. -/
theorem life_cancelActive_self :
    (cancelAll db (db.activeAssignments o)).life o =
      { db.life o with assignments := (db.life o).assignments.map fun a =>
          if a.status ∈ activeAssignmentStatuses then a.cancel else a } := by
  have hsame : ((db.life o).assignments.map fun a =>
      if a.id ∈ (db.activeAssignments o).map DriverAssignment.id then a.cancel else a) =
      (db.life o).assignments.map fun a =>
        if a.status ∈ activeAssignmentStatuses then a.cancel else a := by
    refine List.map_congr_left fun a ha => ?_
    obtain ⟨harow, hao⟩ := List.mem_filter.mp ha
    simp only [mem_activeAssignments_ids harow, of_decide_eq_true hao, true_and]
  rw [life_cancelAll, hsame]

/-- Cancelled assignments are those of one order. -/
theorem life_cancelActive_of_ne {orderId : Id} (ho : o ≠ orderId) :
    (cancelAll db (db.activeAssignments orderId)).life o = db.life o := by
  rw [life_cancelAll]
  have hsame : ((db.life o).assignments.map fun a =>
      if a.id ∈ (db.activeAssignments orderId).map DriverAssignment.id then a.cancel else a) =
      (db.life o).assignments := by
    conv_rhs => rw [← List.map_id (db.life o).assignments]
    refine List.map_congr_left fun a ha => ?_
    obtain ⟨harow, hao⟩ := List.mem_filter.mp ha
    rw [if_neg, id]
    rw [mem_activeAssignments_ids harow]
    rintro ⟨hother, -⟩
    exact ho (of_decide_eq_true hao ▸ hother)
  rw [hsame]

/-- `cancel_order` moves the life of its order alone. -/
theorem cancelOrder_moves {orderId : Id} {reason : Option String} {r : OrderFull}
    (h : (cancelOrder env caller orderId reason).run db = .ok (r, db')) :
    Move sha256 ps env caller o (.cancelOrder orderId reason) (db.life o) (db'.life o) := by
  obtain ⟨x, hact, hstatus, rfl⟩ := cancelOrder_ok h
  have hx : (db.life orderId).order = some x := hact.found
  have hactive : (db.assignmentsOf orderId).filter (fun a => a.status ∈ activeAssignmentStatuses) =
      (db.modifyOrder orderId (Order.cancel (env.now 0) reason)).activeAssignments orderId := rfl
  rw [hactive]
  refine move_of_local orderId (fun o ho => ?_) ?_
  · rw [life_cancelActive_of_ne ho, life_modifyOrder_of_ne (fun x => Order.cancel_id _ x _) ho]
  · rw [life_cancelActive_self, life_modifyOrder_self fun x => Order.cancel_id _ x _, hx]
    exact .cancel hx hact.live hstatus

/-- The snapshot pre-flight before a deletion, in the order's life. -/
theorem life_bury {x : Order} {s : OrderAnalyticsSnapshot} (hs : s.orderId = x.id) :
    ((if x.status = .completed then db.addSnapshot s else db).removeOrder x.id).life x.id =
      (if x.status = .completed then (db.life x.id).record s else db.life x.id).bury := by
  rw [life_removeOrder_self]
  by_cases hc : x.status = .completed
  · rw [if_pos hc, if_pos hc, life_addSnapshot_self hs]
  · rw [if_neg hc, if_neg hc]

/-- A deleted order leaves the other lives alone. -/
theorem life_bury_of_ne {x : Order} {s : OrderAnalyticsSnapshot} (hs : s.orderId = x.id)
    (ho : o ≠ x.id) :
    ((if x.status = .completed then db.addSnapshot s else db).removeOrder x.id).life o =
      db.life o := by
  rw [life_removeOrder_of_ne ho]
  by_cases hc : x.status = .completed
  · rw [if_pos hc, life_addSnapshot_of_ne hs ho]
  · rw [if_neg hc]

/-- `delete_order` ends the life of its order. -/
theorem deleteOrder_moves {orderId : Id} {u : Unit}
    (h : (deleteOrder env caller orderId).run db = .ok (u, db')) :
    Move sha256 (db.settingsInForce env) env caller o (.deleteOrder orderId) (db.life o)
      (db'.life o) := by
  obtain ⟨x, terminal, ps, t, hget, hlive, hterm, hps, hret, rfl⟩ := deleteOrder_ok h
  obtain ⟨rfl, hsame⟩ := getRetentionSettings_inForce hps
  have hid := Table.key_of_get hget
  subst hid
  refine move_of_local x.id (fun o ho => ?_) ?_
  · rw [life_bury_of_ne rfl ho, hsame]
  · rw [life_bury rfl, hsame]
    exact .delete hget hlive hterm hret (hsame x.id ▸ snapshotOf_snapshotRow t env 0 x)

/-! ### The purge job -/

/-- The orders of a list are distinct rows of the database. -/
structure RowsOf (db : Db) (orders : List Order) : Prop where
  distinct : (orders.map Order.id).Nodup
  found : ∀ x ∈ orders, db.orders.get x.id = some x

/-- What a query finds, re-read row by row, is what it found. -/
theorem rowsOf_filter (db : Db) (p : Order → Bool) : RowsOf db (db.orders.rows.filter p) where
  distinct := db.orders.nodup.sublist (List.filter_sublist.map _)
  found _ hx := Table.mem_rows_iff.mp (List.mem_filter.mp hx).1

/-- Rows that are read again pass the same filter. -/
theorem reread_filter (db : Db) (p : Order → Bool) :
    (((db.orders.rows.filter p).map Order.id).filterMap fun id => db.orders.get id).filter p =
      db.orders.rows.filter p := by
  have hsame : (((db.orders.rows.filter p).map Order.id).filterMap fun id => db.orders.get id) =
      db.orders.rows.filter p := by
    rw [List.filterMap_map]
    exact (List.filterMap_congr (rowsOf_filter db p).found).trans List.filterMap_some
  rw [hsame, List.filter_filter]
  simp only [Bool.and_self]

/-- The rest of the rows is still as it was. -/
theorem RowsOf.tail {x : Order} {orders : List Order} (h : RowsOf db (x :: orders))
    (hsame : ∀ o, o ≠ x.id → db'.life o = db.life o) : RowsOf db' orders where
  distinct := (List.nodup_cons.mp h.distinct).2
  found y hy := by
    have hne : y.id ≠ x.id := by
      intro heq
      exact (List.nodup_cons.mp h.distinct).1 (heq ▸ List.mem_map.mpr ⟨y, hy, rfl⟩)
    have hlife : (db'.life y.id).order = some y := by
      rw [hsame y.id hne]
      exact h.found y (List.mem_cons_of_mem x hy)
    exact hlife

/-- The automatic completion moves the lives that are due. -/
theorem autoComplete_moves (sha256 : String → String) (caller : User) {i n : ℕ}
    {orders : List Order} (hrows : RowsOf db orders)
    (hdue : ∀ x ∈ orders, awaitsAutoComplete
      (env.now 0 - hours ps.orderAutoCompleteGraceHours) x = true)
    (h : (autoComplete env (env.now 0) i orders).run db = .ok (n, db')) :
    ∀ o, Move sha256 ps env caller o .runPurgeJob (db.life o) (db'.life o) ∧
      (o ∉ orders.map Order.id → db'.life o = db.life o) := by
  induction orders generalizing db i n with
  | nil =>
    simp only [autoComplete, pure_eq, run_ret_ok] at h
    obtain ⟨-, rfl⟩ := h
    exact fun o => ⟨.stay, fun _ => rfl⟩
  | cons x orders ih =>
    have hx := hdue x List.mem_cons_self
    simp only [awaitsAutoComplete, decide_eq_true_eq] at hx
    obtain ⟨hstatus, hat, hlive⟩ := hx
    have hget := hrows.found x List.mem_cons_self
    simp only [autoComplete, hstatus, ne_eq, not_true_eq_false, if_false, bind_eq, run_bind_ok,
      run_updateOrder_ok, writeSnapshot, run_read_ok, run_insertSnapshot_ok, pure_eq,
      run_ret_ok] at h
    obtain ⟨_, _, rfl, _, db₁, ⟨_, _, ⟨rfl, rfl⟩, hdb₁⟩, _, _, hrest, _, rfl⟩ := h
    have hs := snapshotOf_complete (db.modifyOrder x.id (Order.complete (env.now 0))) env i x
      (env.now 0)
    have hother : ∀ o, o ≠ x.id → db₁.life o = db.life o := by
      intro o ho
      rw [hdb₁, life_addSnapshot_of_ne hs.orderId ho,
        life_modifyOrder_of_ne (Order.complete_id _) ho]
    have hself : Move sha256 ps env caller x.id .runPurgeJob (db.life x.id) (db₁.life x.id) := by
      have hlife : (db.life x.id).order = some x := hget
      have hs' := snapshotOf_complete db env i x (env.now 0)
      rw [hdb₁, life_addSnapshot_self hs.orderId, life_modifyOrder_self (Order.complete_id _),
        hlife]
      refine .autoComplete hlife hlive hstatus ?_ hs'
      simpa [Option.any_eq_true] using hat
    have hnotin : x.id ∉ orders.map Order.id := (List.nodup_cons.mp hrows.distinct).1
    intro o
    obtain ⟨hmove, hstay⟩ := ih (hrows.tail hother)
      (fun y hy => hdue y (List.mem_cons_of_mem x hy)) hrest o
    by_cases ho : o = x.id
    · subst ho
      rw [hstay hnotin]
      exact ⟨hself, fun hmem => absurd List.mem_cons_self hmem⟩
    · rw [← hother o ho]
      refine ⟨hmove, fun hmem => hstay fun hin => hmem (List.mem_cons_of_mem _ hin)⟩

/-- An order the purge query finds is terminal since the cutoff or longer. -/
theorem terminalAt_of_awaitsPurge {cutoff : Time} {x : Order} (h : awaitsPurge cutoff x = true) :
    x.deletedAt = none ∧ ∃ terminal, terminalAt x = some terminal ∧ terminal ≤ cutoff := by
  simp only [awaitsPurge, decide_eq_true_eq] at h
  obtain ⟨-, hlive, hat⟩ := h
  refine ⟨hlive, ?_⟩
  rcases hat with ⟨hs, hat⟩ | ⟨hs, hat⟩
  · simpa [terminalAt, hs, Option.any_eq_true] using hat
  · simpa [terminalAt, hs, Option.any_eq_true] using hat

/-- The purge ends the lives that are due. -/
theorem purge_moves (sha256 : String → String) (caller : User) {i n : ℕ} {orders : List Order}
    (hrows : RowsOf db orders)
    (hdue : ∀ x ∈ orders, awaitsPurge (env.now 0 - days ps.retentionMinDays) x = true)
    (h : (purge env i orders).run db = .ok (n, db')) :
    ∀ o, Move sha256 ps env caller o .runPurgeJob (db.life o) (db'.life o) ∧
      (o ∉ orders.map Order.id → db'.life o = db.life o) := by
  induction orders generalizing db i n with
  | nil =>
    simp only [purge, pure_eq, run_ret_ok] at h
    obtain ⟨-, rfl⟩ := h
    exact fun o => ⟨.stay, fun _ => rfl⟩
  | cons x orders ih =>
    obtain ⟨hlive, terminal, hterm, hle⟩ := terminalAt_of_awaitsPurge (hdue x List.mem_cons_self)
    have hget := hrows.found x List.mem_cons_self
    have hs := snapshotOf_snapshotRow db env i x
    have hstep : ∃ db₁, db₁ = (if x.status = .completed then
        db.addSnapshot (snapshotRow db env i x) else db).removeOrder x.id ∧
        ∃ n, (purge env (i + 1) orders).run db₁ = .ok (n, db') := by
      by_cases hc : x.status = .completed
      · simp [purge, hc, writeSnapshot] at h
        obtain ⟨m, hrest, -⟩ := h
        exact ⟨_, by rw [if_pos hc], m, hrest⟩
      · simp [purge, hc] at h
        obtain ⟨m, hrest, -⟩ := h
        exact ⟨_, by rw [if_neg hc], m, hrest⟩
    obtain ⟨db₁, hdb₁, n, hrest⟩ := hstep
    have hother : ∀ o, o ≠ x.id → db₁.life o = db.life o := by
      intro o ho
      rw [hdb₁, life_bury_of_ne hs.orderId ho]
    have hself : Move sha256 ps env caller x.id .runPurgeJob (db.life x.id) (db₁.life x.id) := by
      rw [hdb₁, life_bury hs.orderId]
      exact .purge hget hlive hterm hle hs
    have hnotin : x.id ∉ orders.map Order.id := (List.nodup_cons.mp hrows.distinct).1
    intro o
    obtain ⟨hmove, hstay⟩ := ih (hrows.tail hother)
      (fun y hy => hdue y (List.mem_cons_of_mem x hy)) hrest o
    by_cases ho : o = x.id
    · subst ho
      rw [hstay hnotin]
      exact ⟨hself, fun hmem => absurd List.mem_cons_self hmem⟩
    · rw [← hother o ho]
      refine ⟨hmove, fun hmem => hstay fun hin => hmem (List.mem_cons_of_mem _ hin)⟩

/-- The job completes some orders and deletes others. -/
theorem runPurgeJob_moves {r : PurgeResult} (h : (runPurgeJob env).run db = .ok (r, db')) :
    ∃ M, Move sha256 (db.settingsInForce env) env caller o .runPurgeJob (db.life o) M ∧
      Move sha256 (db.settingsInForce env) env caller o .runPurgeJob M (db'.life o) := by
  simp only [runPurgeJob, bind_eq, run_bind_ok, run_read_ok, run_skipLockedOrders_ok, pure_eq,
    run_ret_ok] at h
  obtain ⟨ps, t, hps, _, _, ⟨rfl, rfl⟩, _, _, ⟨rfl, rfl⟩, n, t', hauto, _, _, ⟨rfl, rfl⟩, _, _,
    ⟨rfl, rfl⟩, m, _, hpurge, _, rfl⟩ := h
  obtain ⟨rfl, hsame⟩ := getRetentionSettings_inForce hps
  rw [reread_filter] at hauto hpurge
  have hfirst := (autoComplete_moves sha256 caller (rowsOf_filter t _)
    (fun x hx => (List.mem_filter.mp hx).2) hauto o).1
  have hsecond := (purge_moves sha256 caller (rowsOf_filter t' _)
    (fun x hx => (List.mem_filter.mp hx).2) hpurge o).1
  rw [hsame] at hfirst
  exact ⟨_, hfirst, hsecond⟩

/-! ### The delivery flow and tracking -/

/-- An acceptance by a driver moves the life of its order alone. -/
theorem driverAccept_moves {orderId : Id} {r : Order × DeliveryCode}
    (h : (DeliveryFlow.acceptOrder sha256 env caller orderId).run db = .ok (r, db')) :
    Move sha256 ps env caller o (.driverAccept orderId) (db.life o) (db'.life o) := by
  obtain ⟨hrole, x, hget, hlive, ⟨-, -, rfl⟩ | ⟨hcode, rfl⟩⟩ := DeliveryFlow.acceptOrder_ok h
  · exact .stay
  have hid := Table.key_of_get hget
  subst hid
  have hx : (db.life x.id).order = some x := hget
  have hc : (db.life x.id).code = none := hcode
  -- the delivery is created or given to the driver
  have htaken : ∀ o, (taken (db.modifyOrder x.id (Order.acceptByDriver (env.now 0))) env caller x
      (db.deliveries.get x.id)).life o =
      if o = x.id then { db.life o with
        order := some (x.acceptByDriver (env.now 0)),
        delivery := some (takenDelivery env caller x (db.life o).delivery) }
      else db.life o := by
    intro o
    by_cases ho : o = x.id
    · subst ho
      rw [if_pos rfl]
      cases hd : db.deliveries.get x.id with
      | none =>
        have hlife : (db.life x.id).delivery = none := hd
        rw [taken, life_addDelivery_self (takenDelivery_orderId _ _ _),
          life_modifyOrder_self (Order.acceptByDriver_id _), hx, hlife]
        rfl
      | some d =>
        have hlife : (db.life x.id).delivery = some d := hd
        rw [taken, life_modifyDelivery_self fun d => Delivery.giveTo_orderId d _,
          life_modifyOrder_self (Order.acceptByDriver_id _), hx, hlife]
        rfl
    · rw [if_neg ho]
      cases hd : db.deliveries.get x.id with
      | none =>
        rw [taken, life_addDelivery_of_ne (takenDelivery_orderId _ _ _) ho,
          life_modifyOrder_of_ne (Order.acceptByDriver_id _) ho]
      | some d =>
        rw [taken, life_modifyDelivery_of_ne (fun d => Delivery.giveTo_orderId d _) ho,
          life_modifyOrder_of_ne (Order.acceptByDriver_id _) ho]
  refine move_of_local x.id (fun o ho => ?_) ?_
  · rw [accepted, life_addCode_of_ne (newCode_orderId _ _ _) ho, htaken, if_neg ho]
  · rw [accepted, life_addCode_self (newCode_orderId _ _ _), htaken, if_pos rfl, hc,
      Option.none_or]
    exact .driverAccept hx hlive hrole hc

/-- So does a recorded position. -/
theorem recordLocation_moves {orderId : Id} {lat lng : Coordinate} {p : OrderTrackingPoint}
    (h : (recordLocation env caller orderId lat lng).run db = .ok (p, db')) :
    Move sha256 ps env caller o (.recordLocation orderId lat lng) (db.life o) (db'.life o) := by
  obtain ⟨hrole, x, hget, hlive, rfl⟩ := recordLocation_ok h
  refine move_of_local orderId (fun o ho => ?_) ?_
  · rw [life_modifyDelivery_of_ne (fun d => Delivery.moveTo_orderId d _ _) ho,
      life_addTrackingPoint]
  · rw [life_modifyDelivery_self fun d => Delivery.moveTo_orderId d _ _, life_addTrackingPoint]
    exact .recordLocation hget hlive hrole

/-- The life of an order that has been completed with its code. -/
theorem life_delivered (env : Env) (caller : User) (submitted : String) {orderId : Id} {x : Order}
    {c : DeliveryCode}
    (hx : db.orders.get orderId = some x) (hc : db.deliveryCodes.get orderId = some c) :
    (delivered db env caller orderId submitted).life orderId =
      { db.life orderId with
        order := some (x.deliverByCode (env.now 0)), code := some (c.consume (env.now 0)) } := by
  have hlife : (db.life orderId).order = some x := hx
  have hcode : (db.life orderId).code = some c := hc
  rw [delivered, life_addCodeAttempt, life_modifyCode_self (DeliveryCode.consume_orderId · _),
    life_modifyOrder_self (Order.deliverByCode_id _), life_archiveAll, hlife, hcode]
  rfl

/-- A delivery by code leaves the other lives alone. -/
theorem life_delivered_of_ne {orderId : Id} {submitted : String} (ho : o ≠ orderId) :
    (delivered db env caller orderId submitted).life o = db.life o := by
  rw [delivered, life_addCodeAttempt, life_modifyCode_of_ne (DeliveryCode.consume_orderId · _) ho,
    life_modifyOrder_of_ne (Order.deliverByCode_id _) ho, life_archiveAll]

/-- `complete_delivery` moves the life of its order alone. -/
theorem completeDelivery_moves {orderId : Id} {submitted : String} {x' : Order}
    (h : (completeDelivery sha256 env caller orderId submitted).run db = .ok (x', db')) :
    Move sha256 ps env caller o (.completeDelivery orderId submitted) (db.life o)
      (db'.life o) := by
  obtain ⟨hrole, x, c, hget, hlive, hcode, hcheck, rfl⟩ := completeDelivery_ok h
  refine move_of_local orderId (fun o ho => life_delivered_of_ne ho) ?_
  rw [life_delivered env caller submitted hget hcode]
  exact .completeDelivery hget hlive hrole hcode hcheck

/-- So does an administrator's patch. -/
theorem adminPatchDelivery_moves {orderId : Id} {driverId : Option Id}
    {distance duration : Option ℤ}
    {r : Order × Option Delivery}
    (h : (adminPatchDelivery caller orderId driverId distance duration).run db = .ok (r, db')) :
    Move sha256 ps env caller o (.adminPatchDelivery orderId driverId distance duration)
      (db.life o) (db'.life o) := by
  obtain ⟨hrole, x, d, hget, hlive, hd, rfl⟩ := adminPatchDelivery_ok h
  have hlife : (db.life orderId).delivery = some d := hd
  refine move_of_local orderId (fun o ho => ?_) ?_
  · rw [life_modifyDelivery_of_ne (fun d => Delivery.patch_orderId d _ _) ho]
    cases driverId with
    | none => rfl
    | some driver => exact life_modifyDelivery_of_ne (fun d => Delivery.giveTo_orderId d _) ho
  · rw [life_modifyDelivery_self fun d => Delivery.patch_orderId d _ _]
    have hpatch : (patchedDriver db orderId driverId).life orderId = { db.life orderId with
        delivery := some (driverId.elim d fun i => d.giveTo i) } := by
      cases driverId with
      | none => rw [patchedDriver, Option.elim_none, ← hlife]
      | some driver =>
        rw [patchedDriver, life_modifyDelivery_self fun d => Delivery.giveTo_orderId d _, hlife]
        rfl
    rw [hpatch]
    exact .patchDelivery hget hlive hlife hrole

end Simulation

end Marketplace
