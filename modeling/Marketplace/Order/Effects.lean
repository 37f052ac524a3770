import Marketplace.Order.Step

/-!
# What a request that returns has done

One lemma for each operation: if it returns, then these were its guards and this is
the database it leaves. Later modules use these and never unfold an operation.
-/

namespace Marketplace

open Lib Txn

/-- The order a caller may act on, as `_lock_order_or_404` finds it. -/
structure Actionable (db : Db) (caller : User) (orderId : Id) (order : Order) : Prop where
  found : db.orders.get orderId = some order
  live : order.deletedAt = none
  seller : caller.role = .seller → order.sellerId = caller.id
  customer : caller.role = .customer → order.customerId = caller.id

namespace Actionable

variable {db : Db} {caller : User} {orderId : Id} {order : Order}

/-- The row found under an identifier has it. -/
theorem id_eq (h : Actionable db caller orderId order) : order.id = orderId :=
  Table.key_of_get h.found

end Actionable

namespace OrderService

variable {env : Env} {caller : User} {orderId : Id} {db db' : Db} {r : OrderFull}

/-- The locked order is the row, or none. -/
@[simp] theorem run_loadOrderLocked_ok {o : Option Order} :
    (loadOrderLocked orderId).run db = .ok (o, db') ↔ db.orders.get orderId = o ∧ db = db' := by
  simp [loadOrderLocked]

/-- The lock succeeds if the caller may act on the order. -/
@[simp] theorem run_lockOrderOr404_ok {order : Order} :
    (lockOrderOr404 orderId caller).run db = .ok (order, db') ↔
      Actionable db caller orderId order ∧ db = db' := by
  have hiff : Actionable db caller orderId order ↔ db.orders.get orderId = some order ∧
      order.deletedAt = none ∧ (caller.role = .seller → order.sellerId = caller.id) ∧
      (caller.role = .customer → order.customerId = caller.id) :=
    ⟨fun h => ⟨h.1, h.2, h.3, h.4⟩, fun h => ⟨h.1, h.2.1, h.2.2.1, h.2.2.2⟩⟩
  rw [hiff]
  simp [lockOrderOr404]
  grind

/-- The order with its relationships, as `_load_order_full` reads it. -/
def full (db : Db) (order : Order) : OrderFull :=
  { order, orderItems := db.itemsOf order.id, delivery := db.deliveries.get order.id,
    driverAssignments := db.assignmentsOf order.id }

/-- The answer about an order that is there. -/
@[simp] theorem run_loaded_ok :
    (loaded orderId).run db = .ok (r, db') ↔
      (∃ order, db.orders.get orderId = some order ∧ full db order = r) ∧ db = db' := by
  simp [loaded, loadOrderFull]
  grind [full, Table.key_of_get]

/-! ### Placing an order -/

/-- The locked products are those that are there. -/
@[simp] theorem run_lockProducts_ok {ids : List Id} {products : List Product} :
    (lockProducts ids).run db = .ok (products, db') ↔
      (ids.filterMap fun id => db.products.get id) = products ∧ db = db' := by
  induction ids generalizing products with
  | nil => simp [lockProducts]
  | cons id ids ih =>
    simp only [lockProducts, bind_eq, run_bind_ok, run_acquire_ok, pure_eq, run_ret_ok]
    cases h : db.products.get id with
    | none => simp [h, ih]
    | some p => simp [h, ih, and_comm]

/-- The lines of an order, each with the locked row of its product. -/
theorem resolveLines_ok {products : List Product} {qty : List (Id × ℤ)}
    {lines : List (Product × ℤ)} (h : (resolveLines products qty).run db = .ok (lines, db')) :
    db = db' ∧ lines.map (fun l => (l.1.id, l.2)) = qty ∧ ∀ l ∈ lines, l.1 ∈ products := by
  induction qty generalizing lines with
  | nil =>
    simp only [resolveLines, pure_eq, run_ret_ok] at h
    obtain ⟨rfl, rfl⟩ := h
    simp
  | cons entry qty ih =>
    simp only [resolveLines, bind_eq, run_bind_ok, run_getOrRaise_ok, pure_eq, run_ret_ok] at h
    obtain ⟨product, _, ⟨hfind, rfl⟩, rest, _, hrest, rfl, rfl⟩ := h
    obtain ⟨rfl, rfl, hmem⟩ := ih hrest
    have hid : product.id = entry.1 := by simpa using List.find?_some hfind
    refine ⟨rfl, by simp [hid], ?_⟩
    intro l hl
    rcases List.mem_cons.mp hl with rfl | hl
    · exact List.mem_of_find?_eq_some hfind
    · exact hmem l hl

/-- The lines that pass ask for no more than there is. -/
theorem checkLines_ok {lines : List (Product × ℤ)} {u : Unit}
    (h : (checkLines lines).run db = .ok (u, db')) :
    db = db' ∧ ∀ l ∈ lines, ∀ stock, l.1.stockQuantity = some stock → l.2 ≤ stock := by
  induction lines with
  | nil =>
    simp only [checkLines, pure_eq, run_ret_ok] at h
    exact ⟨h.2, by simp⟩
  | cons line lines ih =>
    simp only [checkLines, bind_eq, run_bind_ok, run_raiseIf_ok] at h
    obtain ⟨_, _, ⟨_, rfl⟩, _, _, ⟨hstock, rfl⟩, h⟩ := h
    obtain ⟨rfl, hrest⟩ := ih h
    refine ⟨rfl, ?_⟩
    intro l hl stock hsome
    rcases List.mem_cons.mp hl with rfl | hl
    · simpa [hsome] using hstock
    · exact hrest l hl stock hsome

/-- The database once the stock of every line has been taken. -/
def takeStock (db : Db) (lines : List (Product × ℤ)) : Db :=
  lines.foldl (fun db line => match line.1.stockQuantity with
    | none => db
    | some stock => db.setStock line.1.id (stock - line.2)) db

/-- The stock is taken, line by line. -/
theorem decrementStock_ok {lines : List (Product × ℤ)} {u : Unit}
    (h : (decrementStock lines).run db = .ok (u, db')) : db' = takeStock db lines := by
  induction lines generalizing db with
  | nil =>
    simp only [decrementStock, pure_eq, run_ret_ok] at h
    exact h.2.symm
  | cons line lines ih =>
    simp only [decrementStock] at h
    cases hstock : line.1.stockQuantity with
    | none =>
      rw [hstock] at h
      simpa [takeStock, hstock] using ih h
    | some stock =>
      simp only [hstock, updateStock, bind_eq, run_bind_ok, run_encode_ok, run_raiseIf_ok,
        run_updateRow_ok] at h
      obtain ⟨_, _, ⟨_, _, ⟨-, rfl⟩, _, _, ⟨_, rfl⟩, rfl⟩, h⟩ := h
      simpa [takeStock, hstock] using ih h

/-- The item rows of an order. -/
def newItems (env : Env) (orderId : Id) : ℕ → List (Product × ℤ) → List OrderItem
  | _, [] => []
  | i, line :: lines => newItem env orderId i line :: newItems env orderId (i + 1) lines

/-- The database with some items added. -/
def addItems (db : Db) (items : List OrderItem) : Db := items.foldl Db.addItem db

/-- The items are added, within the bounds of their columns. -/
theorem insertItems_ok {i : ℕ} {lines : List (Product × ℤ)} {u : Unit}
    (h : (insertItems env orderId i lines).run db = .ok (u, db')) :
    db' = addItems db (newItems env orderId i lines) ∧
      (addItems db (newItems env orderId i lines)).orderItems.rows =
        db.orderItems.rows ++ newItems env orderId i lines ∧
      ∀ item ∈ newItems env orderId i lines, 0 < item.quantity := by
  induction lines generalizing db i with
  | nil =>
    simp only [insertItems, pure_eq, run_ret_ok] at h
    exact ⟨h.2.symm, by simp [newItems, addItems], by simp [newItems]⟩
  | cons line lines ih =>
    simp only [insertItems, bind_eq, run_bind_ok, run_insertOrderItem_ok] at h
    obtain ⟨_, _, ⟨-, hpos, hfresh, rfl⟩, h⟩ := h
    obtain ⟨rfl, hrows, hall⟩ := ih h
    refine ⟨rfl, ?_, ?_⟩
    · have hone : (db.addItem (newItem env orderId i line)).orderItems.rows =
          db.orderItems.rows ++ [newItem env orderId i line] := Table.rows_insert hfresh
      simpa [newItems, addItems, hone] using hrows
    · intro item hitem
      rcases List.mem_cons.mp hitem with rfl | hitem
      · exact hpos
      · exact hall item hitem

/-- What a successful `create_order` has found and done. -/
theorem createOrder_ok {items : List LineItem} {address : Address}
    (h : (createOrder env caller items address).run db = .ok (r, db')) :
    ∃ (lines : List (Product × ℤ)) (seller store : Id),
      caller.role = .customer ∧ caller.referringSellerId = some seller ∧
      (∀ l ∈ lines, db.products.get l.1.id = some l.1) ∧
      lines.map (fun l => (l.1.id, l.2)) = qtyById items ∧
      (∀ l ∈ lines, ∀ stock, l.1.stockQuantity = some stock → l.2 ≤ stock) ∧
      (takeStock db lines).orders.get (env.uuid4 0) = none ∧
      db' = addItems ((takeStock db lines).addOrder
        (newOrder env caller seller store address lines)) (newItems env (env.uuid4 0) 1 lines) ∧
      db'.orderItems.rows = (takeStock db lines).orderItems.rows ++
        newItems env (env.uuid4 0) 1 lines := by
  simp only [createOrder, bind_eq, run_bind_ok, run_raiseIf_ok, run_getOrRaise_ok, run_read_ok,
    run_lockProducts_ok, run_insertOrder_ok, run_loaded_ok] at h
  obtain ⟨_, _, ⟨hrole, rfl⟩, _, _, ⟨_, rfl⟩, seller, _, ⟨hseller, rfl⟩, _, _, ⟨rfl, rfl⟩, products,
    _, ⟨rfl, rfl⟩, _, _, ⟨_, rfl⟩, _, _, ⟨_, rfl⟩, lines, _, hlines, _, _, hcheck, _, _, htake,
    first, _, ⟨_, rfl⟩, _, _, ⟨-, hfresh, rfl⟩, _, _, hitems, _, rfl⟩ := h
  obtain ⟨rfl, hqty, hmem⟩ := resolveLines_ok hlines
  obtain ⟨rfl, hstock⟩ := checkLines_ok hcheck
  have hdb := decrementStock_ok htake
  subst hdb
  have hend := insertItems_ok hitems
  refine ⟨lines, seller, first.storeId, not_not.mp hrole, hseller, ?_, hqty, hstock, hfresh,
    hend.1, hend.1 ▸ hend.2.1⟩
  intro l hl
  obtain ⟨id, _, hget⟩ := List.mem_filterMap.mp (hmem l hl)
  rw [Table.key_of_get hget, hget]

/-! ### Transitions -/

/-- What a successful `accept_order` has found and done. -/
theorem acceptOrder_ok (h : (acceptOrder env caller orderId).run db = .ok (r, db')) :
    ∃ order, Actionable db caller orderId order ∧ caller.role = .seller ∧
      order.status = .pending ∧ db' = db.modifyOrder orderId (Order.accept (env.now 0)) := by
  simp [acceptOrder] at h
  obtain ⟨hrole, order, hact, hstatus, _, rfl⟩ := h
  exact ⟨order, hact, hrole, hstatus, by rw [hact.id_eq]⟩

/-- What a successful `mark_preparing` has found and done. -/
theorem markPreparing_ok (h : (markPreparing env caller orderId).run db = .ok (r, db')) :
    ∃ order, Actionable db caller orderId order ∧ caller.role = .seller ∧
      order.status = .accepted ∧ db' = db.modifyOrder orderId (Order.prepare (env.now 0)) := by
  simp [markPreparing] at h
  obtain ⟨hrole, order, hact, hstatus, _, rfl⟩ := h
  exact ⟨order, hact, hrole, hstatus, by rw [hact.id_eq]⟩

/-! ### Fulfilment -/

/-- An order for which no fulfilment has been chosen. -/
structure FulfillmentOpen (db : Db) (orderId : Id) : Prop where
  delivery : db.deliveries.get orderId = none
  assignments : ∀ a ∈ db.assignmentsOf orderId, a.status ∉ activeAssignmentStatuses

/-- The check passes if nobody delivers the order yet. -/
@[simp] theorem run_ensureFulfillmentOpen_ok {u : Unit} :
    (ensureFulfillmentOpen orderId).run db = .ok (u, db') ↔
      FulfillmentOpen db orderId ∧ db = db' := by
  have hiff : FulfillmentOpen db orderId ↔ db.deliveries.get orderId = none ∧
      ∀ a ∈ db.assignmentsOf orderId, a.status ∉ activeAssignmentStatuses :=
    ⟨fun h => ⟨h.1, h.2⟩, fun h => ⟨h.1, h.2⟩⟩
  rw [hiff]
  simp [ensureFulfillmentOpen]
  tauto

/-- The lookup of the profile writes nothing. -/
theorem getCallerSeller_ok {seller : Seller}
    (h : (getCallerSeller caller).run db = .ok (seller, db')) : db = db' := by
  simp [getCallerSeller] at h
  exact h.1

/-- What a successful `choose_self_delivery` has found and done. -/
theorem chooseSelfDelivery_ok
    (h : (chooseSelfDelivery env caller orderId).run db = .ok (r, db')) :
    ∃ order seller, Actionable db caller orderId order ∧ caller.role = .seller ∧
      (order.status = .accepted ∨ order.status = .preparing) ∧ FulfillmentOpen db orderId ∧
      db' = db.addDelivery
        { id := env.uuid4 0, orderId, driverId := none, sellerId := seller,
          status := .pending } := by
  simp only [chooseSelfDelivery, bind_eq, run_bind_ok, run_raiseIf_ok, run_lockOrderOr404_ok,
    run_ensureFulfillmentOpen_ok, run_insertDelivery_ok, run_loaded_ok] at h
  obtain ⟨_, _, ⟨hrole, rfl⟩, order, _, ⟨hact, rfl⟩, _, _, ⟨hstatus, rfl⟩, _, _, ⟨hopen, rfl⟩,
    seller, _, hseller, _, _, ⟨_, rfl⟩, _, rfl⟩ := h
  have hid := hact.id_eq
  have hdb := getCallerSeller_ok hseller
  subst hid hdb
  exact ⟨order, seller.id, hact, by simpa using hrole, by simpa [or_iff_not_imp_left] using hstatus,
    hopen, rfl⟩

/-- What a successful `request_driver` has found and done. -/
theorem requestDriver_ok (h : (requestDriver env caller orderId).run db = .ok (r, db')) :
    ∃ order seller, Actionable db caller orderId order ∧ caller.role = .seller ∧
      (order.status = .accepted ∨ order.status = .preparing) ∧ FulfillmentOpen db orderId ∧
      db.driverAssignments.get (env.uuid4 0) = none ∧
      db' = db.addAssignment
        { id := env.uuid4 0, orderId, driverId := none, status := .requested,
          requestedBySellerId := seller, requestedAt := env.transactionNow } := by
  simp only [requestDriver, bind_eq, run_bind_ok, run_raiseIf_ok, run_lockOrderOr404_ok,
    run_ensureFulfillmentOpen_ok, run_insertAssignment_ok, run_loaded_ok] at h
  obtain ⟨_, _, ⟨hrole, rfl⟩, order, _, ⟨hact, rfl⟩, _, _, ⟨hstatus, rfl⟩, _, _, ⟨hopen, rfl⟩,
    seller, _, hseller, _, _, ⟨hfresh, rfl⟩, _, rfl⟩ := h
  have hid := hact.id_eq
  have hdb := getCallerSeller_ok hseller
  subst hid hdb
  exact ⟨order, seller.id, hact, by simpa using hrole, by simpa [or_iff_not_imp_left] using hstatus,
    hopen, hfresh, rfl⟩

/-- A user whom an administrator may assign. -/
def ActiveDriver (db : Db) (driverId : Id) : Prop :=
  ∃ u, db.users.get driverId = some u ∧ u.role = .driver ∧ u.deletedAt = none ∧ u.isActive = true

/-- The driver who is found is active. -/
theorem findDriver_isSome {driverId : Id} {u : Option User}
    (h : (findDriver driverId).run db = .ok (u, db')) (hu : u.isNone ≠ true) :
    ActiveDriver db driverId ∧ db = db' := by
  simp only [findDriver, bind_eq, run_bind_ok, run_read_ok, pure_eq, run_ret_ok] at h
  obtain ⟨_, _, ⟨rfl, rfl⟩, rfl, rfl⟩ := h
  refine ⟨?_, rfl⟩
  cases huser : (db.users.get driverId).filter fun u =>
      u.role = .driver ∧ u.deletedAt = none ∧ u.isActive = true with
  | none => exact absurd (by rw [huser]; rfl) hu
  | some user =>
    obtain ⟨hget, hp⟩ := Option.filter_eq_some_iff.mp huser
    exact ⟨user, hget, by simpa using hp⟩

/-- What a successful `assign_driver` has found and done. -/
theorem assignDriver_ok {driverId : Id}
    (h : (assignDriver env caller orderId driverId).run db = .ok (r, db')) :
    ∃ order pending, Actionable db caller orderId order ∧ caller.role = .admin ∧
      (order.status = .accepted ∨ order.status = .preparing) ∧ ActiveDriver db driverId ∧
      pending ∈ db.assignmentsOf orderId ∧ pending.status ∈ activeAssignmentStatuses ∧
      (∀ a ∈ db.assignmentsOf orderId, a.status ∈ activeAssignmentStatuses → a.driverId = none) ∧
      db' = db.modifyAssignment pending.id
        (DriverAssignment.assign driverId caller.id (env.now 0)) := by
  simp only [assignDriver, bind_eq, run_bind_ok, run_raiseIf_ok, run_lockOrderOr404_ok, run_read_ok,
    run_getOrRaise_ok, run_updateAssignment_ok, run_loaded_ok] at h
  obtain ⟨_, _, ⟨hrole, rfl⟩, order, _, ⟨hact, rfl⟩, _, _, ⟨hstatus, rfl⟩, user, _, hfind, _, _,
    ⟨huser, rfl⟩, _, _, ⟨rfl, rfl⟩, assignments, _, hlock, pending, _, ⟨hhead, rfl⟩, _, _,
    ⟨hfree, rfl⟩, _, _, rfl, _, rfl⟩ := h
  have hid := hact.id_eq
  obtain ⟨hdriver, rfl⟩ := findDriver_isSome hfind huser
  subst hid
  have hrows : ∀ a ∈ (db.assignmentsOf order.id).mergeSort fun a b => b.requestedAt ≤ a.requestedAt,
      a ∈ db.driverAssignments.rows := by
    intro a ha
    exact (List.mem_filter.mp ((List.mergeSort_perm _ _).mem_iff.mp ha)).1
  obtain ⟨rfl, rfl⟩ := (run_lockAssignments_of_mem hrows).mp hlock
  have hpending := List.mem_of_mem_head? hhead
  simp only [List.mem_filter, (List.mergeSort_perm _ _).mem_iff, decide_eq_true_eq] at hpending
  refine ⟨order, pending, hact, by simpa using hrole, by simpa [or_iff_not_imp_left] using hstatus,
    hdriver,
    hpending.1, hpending.2, ?_, rfl⟩
  intro a ha hactive
  by_contra hsome
  exact hfree (List.any_eq_true.mpr ⟨a, by simp [(List.mergeSort_perm _ _).mem_iff, ha, hactive],
    by simpa [Option.isSome_iff_ne_none] using hsome⟩)

/-! ### Delivery -/

/-- The delivery that `out_for_delivery` has started. -/
theorem startDelivery_ok {order : Order} {u : Unit}
    (h : (startDelivery env caller order (db.deliveries.get order.id)).run db = .ok (u, db')) :
    (∃ a ∈ db.assignmentsOf order.id, (a.status = .assigned ∨ a.status = .accepted) ∧
      a.driverId ≠ none ∧ db.deliveries.get order.id = none ∧
      db' = db.addDelivery
        { id := env.uuid4 0, orderId := order.id, driverId := a.driverId,
          sellerId := order.sellerId, status := .inTransit, startedAt := some (env.now 0) }) ∨
    (∃ d, db.deliveries.get order.id = some d ∧
      db' = db.modifyDelivery order.id (Delivery.start (env.now 0))) := by
  cases hget : db.deliveries.get order.id with
  | none =>
    simp only [hget, startDelivery, bind_eq, run_bind_ok, run_read_ok, run_scalarOneOrNone_ok,
      run_getOrRaise_ok, run_raiseIf_ok, run_insertDelivery_ok] at h
    obtain ⟨_, _, ⟨rfl, rfl⟩, _, _, ⟨hrows, rfl⟩, a, _, ⟨rfl, rfl⟩, _, _, ⟨_, rfl⟩, _, _,
      ⟨_, rfl⟩, _, rfl⟩ := h
    have ha : a ∈ (db.assignmentsOf order.id).filter fun a =>
        a.status ∈ [DriverAssignmentStatus.assigned, .accepted] ∧ a.driverId ≠ none := by
      rw [hrows]
      simp
    simp only [List.mem_filter, decide_eq_true_eq] at ha
    exact .inl ⟨a, ha.1, by simpa using ha.2.1, ha.2.2, rfl, rfl⟩
  | some d =>
    simp only [hget, startDelivery, bind_eq, run_bind_ok, run_raiseIf_ok,
      run_updateDelivery_ok] at h
    obtain ⟨_, _, ⟨_, rfl⟩, _, _, ⟨_, rfl⟩, _, _, ⟨_, rfl⟩, rfl⟩ := h
    exact .inr ⟨d, rfl, rfl⟩

/-- What a successful `out_for_delivery` has found and done. -/
theorem outForDelivery_ok (h : (outForDelivery env caller orderId).run db = .ok (r, db')) :
    ∃ order u t, Actionable db caller orderId order ∧ order.status = .preparing ∧
      (startDelivery env caller order (db.deliveries.get order.id)).run db = .ok (u, t) ∧
      db' = t.modifyOrder orderId (Order.sendOut (env.now 1)) := by
  simp only [outForDelivery, bind_eq, run_bind_ok, run_raiseIf_ok, run_lockOrderOr404_ok,
    run_selectForUpdate_ok, run_updateOrder_ok, run_loaded_ok] at h
  obtain ⟨_, _, ⟨_, rfl⟩, order, _, ⟨hact, rfl⟩, _, _, ⟨_, rfl⟩, _, _, ⟨hstatus, rfl⟩, _, _,
    ⟨rfl, rfl⟩, u, t, hstart, _, _, rfl, _, rfl⟩ := h
  exact ⟨order, u, t, hact, by simpa using hstatus, hstart, by rw [hact.id_eq]⟩

/-- What a successful `mark_delivered` has found and done. -/
theorem markDelivered_ok (h : (markDelivered env caller orderId).run db = .ok (r, db')) :
    ∃ order delivery, Actionable db caller orderId order ∧ order.status = .outForDelivery ∧
      db.deliveries.get orderId = some delivery ∧
      (delivery.driverId = none → caller.role = .seller) ∧
      (caller.role = .driver → delivery.driverId = some caller.id) ∧
      db' = (db.modifyOrder orderId (Order.deliver (env.now 0))).modifyDelivery orderId
        (Delivery.deliver (env.now 0) (stampDuration (env.now 0) delivery)) := by
  simp only [markDelivered, bind_eq, run_bind_ok, run_raiseIf_ok, run_lockOrderOr404_ok,
    run_selectForUpdate_ok, run_getOrRaise_ok, run_updateOrder_ok, run_updateDelivery_ok,
    run_loaded_ok] at h
  obtain ⟨_, _, ⟨_, rfl⟩, order, _, ⟨hact, rfl⟩, _, _, ⟨hstatus, rfl⟩, _, _, ⟨rfl, rfl⟩, delivery,
    _, ⟨hget, rfl⟩, _, _, ⟨hself, rfl⟩, _, _, ⟨hdriver, rfl⟩, _, _, ⟨_, rfl⟩, _, _, rfl, _, _, rfl,
    _, rfl⟩ := h
  have hid := hact.id_eq
  subst hid
  refine ⟨order, delivery, hact, by simpa using hstatus, hget, ?_, ?_, rfl⟩
  · grind
  · grind

/-- What a successful `complete_order` has found and done. -/
theorem completeOrder_ok (h : (completeOrder env caller orderId).run db = .ok (r, db')) :
    ∃ order, Actionable db caller orderId order ∧ order.status = .delivered ∧
      db' = (db.modifyOrder orderId (Order.complete (env.now 0))).addSnapshot
        (snapshotRow db env 0 (order.complete (env.now 0))) := by
  simp [completeOrder, writeSnapshot] at h
  obtain ⟨_, order, hact, hstatus, _, rfl⟩ := h
  exact ⟨order, hact, hstatus, by rw [hact.id_eq]; rfl⟩

/-! ### Cancellation, retention and purge -/

/-- The database after the cancellation of some assignments. -/
def cancelAll (db : Db) (as : List DriverAssignment) : Db :=
  as.foldl (fun db a => db.modifyAssignment a.id DriverAssignment.cancel) db

/-- The assignments are cancelled one by one. -/
@[simp] theorem run_cancelAssignments_ok {as : List DriverAssignment} {u : Unit} :
    (cancelAssignments as).run db = .ok (u, db') ↔ db' = cancelAll db as := by
  induction as generalizing db with
  | nil => simp [cancelAssignments, cancelAll, eq_comm (a := db)]
  | cons a as ih => simp [cancelAssignments, cancelAll, ih]

/-- The statuses from which somebody may cancel. -/
theorem ensureMayCancel_ok {status : OrderStatus} {u : Unit}
    (h : (ensureMayCancel caller status).run db = .ok (u, db')) : db = db' := by
  unfold ensureMayCancel at h
  cases hrole : caller.role with
  | customer => simp_all
  | seller => simp_all
  | admin => simp_all
  | driver => simp_all

/-- What a successful `cancel_order` has found and done. -/
theorem cancelOrder_ok {reason : Option String}
    (h : (cancelOrder env caller orderId reason).run db = .ok (r, db')) :
    ∃ order, Actionable db caller orderId order ∧ order.status ∈ activeStatuses ∧
      db' = cancelAll (db.modifyOrder orderId (Order.cancel (env.now 0) reason))
        ((db.assignmentsOf orderId).filter fun a => a.status ∈ activeAssignmentStatuses) := by
  simp only [cancelOrder, bind_eq, run_bind_ok, run_raiseIf_ok, run_lockOrderOr404_ok, run_read_ok,
    run_updateOrder_ok, run_cancelAssignments_ok, run_loaded_ok] at h
  obtain ⟨order, _, ⟨hact, rfl⟩, _, _, ⟨hstatus, rfl⟩, _, _, hmay, _, _, ⟨rfl, rfl⟩, as, _, hlock,
    _, _, rfl, _, _, rfl, _, rfl⟩ := h
  have hid := hact.id_eq
  have hdb := ensureMayCancel_ok hmay
  subst hid hdb
  have hrows : ∀ a ∈ (db.assignmentsOf order.id).filter fun a =>
      a.status ∈ activeAssignmentStatuses, a ∈ db.driverAssignments.rows :=
    fun a ha => (List.mem_filter.mp (List.mem_filter.mp ha).1).1
  obtain ⟨rfl, rfl⟩ := (run_lockAssignments_of_mem hrows).mp hlock
  refine ⟨order, hact, ?_, by simp⟩
  cases hs : order.status <;> simp_all [terminalStatuses, activeStatuses]

/-- The settings in force, and the database with their row. -/
theorem getRetentionSettings_ok {ps : PlatformSettings}
    (h : (getRetentionSettings env).run db = .ok (ps, db')) :
    (db.platformSettings = some ps ∧ db' = db) ∨
      (db.platformSettings = none ∧ ps = { updatedAt := env.transactionNow } ∧
        db' = db.setSettings ps) := by
  simp only [getRetentionSettings, bind_eq, run_bind_ok, run_read_ok] at h
  obtain ⟨_, _, ⟨rfl, rfl⟩, h⟩ := h
  cases hps : db.platformSettings with
  | none =>
    simp [hps] at h
    exact .inr ⟨rfl, h.1.symm, by rw [← h.2, ← h.1]⟩
  | some ps' =>
    simp [hps] at h
    exact .inl ⟨by rw [h.1], h.2.symm⟩

/-- What a successful `delete_order` has found and done. -/
theorem deleteOrder_ok {u : Unit} (h : (deleteOrder env caller orderId).run db = .ok (u, db')) :
    ∃ order terminal ps t, db.orders.get orderId = some order ∧ order.deletedAt = none ∧
      terminalAt order = some terminal ∧ (getRetentionSettings env).run db = .ok (ps, t) ∧
      days ps.retentionMinDays ≤ env.now 0 - terminal ∧
      db' = (if order.status = .completed then t.addSnapshot (snapshotRow t env 0 order)
        else t).removeOrder orderId := by
  simp [deleteOrder, writeSnapshot] at h
  obtain ⟨order, hget, hlive, _, _, _, terminal, hterm, ps, t, hps, hret, hend⟩ := h
  refine ⟨order, terminal, ps, t, hget, hlive, hterm, hps, hret, ?_⟩
  rw [Table.key_of_get hget] at hend
  rcases hend with ⟨hs, rfl⟩ | ⟨hs, rfl⟩
  · rw [if_pos hs]
  · rw [if_neg hs]

/-- What a successful change of the settings has found and done. -/
theorem updateRetentionSettings_ok {retention grace : Option ℤ} {ps : PlatformSettings}
    (h : (updateRetentionSettings env caller retention grace).run db = .ok (ps, db')) :
    ∃ old t, (getRetentionSettings env).run db = .ok (old, t) ∧ db' = t.setSettings ps ∧
      ps.retentionMinDays = retention.getD old.retentionMinDays ∧
      (∀ n, retention = some n → 1 ≤ n) := by
  simp [updateRetentionSettings] at h
  obtain ⟨old, t, hold, hret, _, rfl, rfl⟩ := h
  refine ⟨old, t, hold, rfl, rfl, ?_⟩
  rintro n rfl
  simpa using hret

end OrderService

namespace DeliveryFlow

variable {sha256 : String → String} {env : Env} {caller : User} {orderId : Id} {db db' : Db}

/-- The order is there and not deleted. -/
@[simp] theorem run_getOrderOr404_ok {order : Order} :
    (getOrderOr404 orderId).run db = .ok (order, db') ↔
      (db.orders.get orderId = some order ∧ order.deletedAt = none) ∧ db = db' := by
  simp [getOrderOr404]
  tauto

/-- The code that an acceptance creates. -/
def newCode (sha256 : String → String) (env : Env) (orderId : Id) : DeliveryCode :=
  { orderId, codePlain := generateCode env.randbelow,
    codeHash := hashCode sha256 (generateCode env.randbelow), createdAt := env.transactionNow }

/-- The delivery of an order that `driver` accepts. -/
def takenDelivery (env : Env) (driver : User) (order : Order) (delivery : Option Delivery) :
    Delivery :=
  match delivery with
  | none => { id := env.uuid4 0, orderId := order.id, driverId := some driver.id,
              sellerId := order.sellerId, status := .inTransit }
  | some d => d.giveTo driver.id

/-- A new code belongs to its order. -/
theorem newCode_orderId (sha256 : String → String) (env : Env) (orderId : Id) :
    (newCode sha256 env orderId).orderId = orderId := rfl

/-- A delivery that a driver takes over belongs to its order. -/
theorem takenDelivery_orderId (env : Env) (driver : User) (order : Order) :
    (takenDelivery env driver order none).orderId = order.id := rfl

/-- It names the driver. -/
theorem takenDelivery_driverId (env : Env) (driver : User) (order : Order)
    (delivery : Option Delivery) :
    (takenDelivery env driver order delivery).driverId = some driver.id := by
  cases delivery with
  | none => rfl
  | some d => rfl

/-- The database once the accepting driver has the delivery. -/
def taken (db : Db) (env : Env) (driver : User) (order : Order) : Option Delivery → Db
  | none => db.addDelivery (takenDelivery env driver order none)
  | some _ => db.modifyDelivery order.id (Delivery.giveTo driver.id)

/-- The database after an acceptance that creates a code. -/
def accepted (sha256 : String → String) (db : Db) (env : Env) (driver : User) (order : Order) :
    Db :=
  (taken (db.modifyOrder order.id (Order.acceptByDriver (env.now 0))) env driver order
    (db.deliveries.get order.id)).addCode (newCode sha256 env order.id)

/-- The driver has the delivery afterwards. -/
theorem takeDelivery_ok {order : Order} {delivery : Option Delivery} {u : Unit}
    (h : (takeDelivery env caller order delivery).run db = .ok (u, db')) :
    db' = taken db env caller order delivery := by
  cases delivery with
  | none =>
    simp only [takeDelivery, run_insertDelivery_ok] at h
    exact h.2
  | some d =>
    simp only [takeDelivery, run_updateDelivery_ok] at h
    exact h

/-- An acceptance makes the first code of the order. -/
theorem accept_ok {order : Order} {r : Order × DeliveryCode}
    (h : (accept sha256 env caller order).run db = .ok (r, db')) :
    db.deliveryCodes.get order.id = none ∧ db' = accepted sha256 db env caller order := by
  simp only [accept, bind_eq, run_bind_ok, run_read_ok, run_updateOrder_ok, run_insertCode_ok,
    pure_eq, run_ret_ok] at h
  obtain ⟨_, _, ⟨rfl, rfl⟩, _, _, rfl, _, t, htake, _, _, ⟨hcode, rfl⟩, _, rfl⟩ := h
  have ht := takeDelivery_ok htake
  subst ht
  refine ⟨?_, rfl⟩
  cases hget : db.deliveries.get order.id with
  | none =>
    rw [hget] at hcode
    exact hcode
  | some d =>
    rw [hget] at hcode
    exact hcode

/-- What a successful acceptance by a driver has found and done. -/
theorem acceptOrder_ok {r : Order × DeliveryCode}
    (h : (acceptOrder sha256 env caller orderId).run db = .ok (r, db')) :
    caller.role = .driver ∧ ∃ order, db.orders.get orderId = some order ∧ order.deletedAt = none ∧
      ((order.driverAcceptedAt ≠ none ∧ db.deliveryCodes.get orderId ≠ none ∧ db' = db) ∨
        (db.deliveryCodes.get orderId = none ∧ db' = accepted sha256 db env caller order)) := by
  simp only [acceptOrder, bind_eq, run_bind_ok, run_raiseIf_ok, run_getOrderOr404_ok,
    run_read_ok] at h
  obtain ⟨_, _, ⟨hrole, rfl⟩, order, _, ⟨⟨hget, hlive⟩, rfl⟩, _, _, ⟨rfl, rfl⟩, h⟩ := h
  refine ⟨by simpa using hrole, order, hget, hlive, ?_⟩
  have hid := Table.key_of_get hget
  subst hid
  split at h
  · next hacc hcode =>
    simp only [pure_eq, run_ret_ok] at h
    exact .inl ⟨by simp [hacc], by simp [hcode], h.2.symm⟩
  · exact .inr (accept_ok h)

/-- What a successful `record_location` has found and done. -/
theorem recordLocation_ok {lat lng : Coordinate} {p : OrderTrackingPoint}
    (h : (recordLocation env caller orderId lat lng).run db = .ok (p, db')) :
    caller.role ∈ [UserRole.driver, .seller, .admin] ∧
      ∃ order, db.orders.get orderId = some order ∧ order.deletedAt = none ∧
        db' = (db.addTrackingPoint p).modifyDelivery orderId (Delivery.moveTo lat lng) := by
  simp only [recordLocation, bind_eq, run_bind_ok, run_raiseIf_ok, run_getOrderOr404_ok,
    run_insertTrackingPoint_ok, run_read_ok, run_ite_ok, run_updateDelivery_ok, pure_eq,
    run_ret_ok] at h
  obtain ⟨_, _, ⟨hrole, rfl⟩, order, _, ⟨⟨hget, hlive⟩, rfl⟩, _, _, ⟨_, rfl⟩, _, _, ⟨rfl, rfl⟩,
    hmove⟩ := h
  have hid := Table.key_of_get hget
  subst hid
  refine ⟨not_not.mp hrole, order, hget, hlive, ?_⟩
  rcases hmove with ⟨_, _, _, rfl, rfl, rfl⟩ | ⟨hnone, hpoint, rfl⟩
  · rfl
  · subst hpoint
    rw [Db.modifyDelivery_of_none (Option.not_isSome_iff_eq_none.mp hnone)]

/-- What a successful `get_route` has found. -/
theorem getRoute_ok {route : Route} (h : (getRoute caller orderId).run db = .ok (route, db')) :
    caller.role ∈ [UserRole.driver, .admin] ∧ db' = db ∧
      ∃ order, db.orders.get orderId = some order ∧ order.deletedAt = none := by
  simp only [getRoute, bind_eq, run_bind_ok, run_raiseIf_ok, run_getOrderOr404_ok, pure_eq,
    run_ret_ok] at h
  obtain ⟨_, _, ⟨hrole, rfl⟩, order, _, ⟨hget, rfl⟩, _, rfl⟩ := h
  exact ⟨not_not.mp hrole, rfl, order, hget⟩

/-- The archive leaves the attempts alone. -/
theorem archiveAll_attempts (db : Db) (archivedAt : Time) (ms : List OrderMessage) :
    (db.archiveAll archivedAt ms).deliveryCodeAttempts = db.deliveryCodeAttempts := by
  induction ms generalizing db with
  | nil => rfl
  | cons m ms ih => exact ih _

/-- The database after a completion with the right code. -/
def delivered (db : Db) (env : Env) (driver : User) (orderId : Id) (submitted : String) : Db :=
  (((db.archiveAll (env.now 0) (db.orderMessages.rows.filter fun m =>
    m.orderId = orderId ∧ m.archivedAt = none)).modifyOrder orderId
      (Order.deliverByCode (env.now 0))).modifyCode orderId
        (DeliveryCode.consume (env.now 0))).addCodeAttempt
          (attempt env driver orderId submitted true)

/-- A wrong code never succeeds. -/
theorem refuseCode_not_ok {order o : Order} {code : DeliveryCode} {submitted : String} :
    (refuseCode env caller order code submitted).run db ≠ .ok (o, db') := by
  intro h
  simp [refuseCode] at h

/-- What a successful `complete_delivery` has found and done. -/
theorem completeDelivery_ok {submitted : String} {o : Order}
    (h : (completeDelivery sha256 env caller orderId submitted).run db = .ok (o, db')) :
    caller.role = .driver ∧ ∃ order code, db.orders.get orderId = some order ∧
      order.deletedAt = none ∧ db.deliveryCodes.get orderId = some code ∧
      checkCode sha256 code submitted = .right ∧
      db' = delivered db env caller orderId submitted := by
  simp only [completeDelivery, bind_eq, run_bind_ok, run_raiseIf_ok, run_getOrderOr404_ok,
    run_read_ok, run_getOrRaise_ok] at h
  obtain ⟨_, _, ⟨hrole, rfl⟩, order, _, ⟨⟨hget, hlive⟩, rfl⟩, _, _, ⟨rfl, rfl⟩, code, _,
    ⟨hcode, rfl⟩, h⟩ := h
  have hid := Table.key_of_get hget
  subst hid
  refine ⟨by simpa using hrole, order, code, hget, hlive, hcode, ?_⟩
  cases hcheck : checkCode sha256 code submitted with
  | locked => simp [hcheck] at h
  | wrong =>
    simp only [hcheck] at h
    exact absurd h refuseCode_not_ok
  | right =>
    simp only [hcheck, deliver, bind_eq, run_bind_ok, run_read_ok, run_archiveMessages_ok,
      run_updateOrder_ok, run_updateCode_ok, run_insertCodeAttempt_ok, pure_eq, run_ret_ok] at h
    obtain ⟨_, _, ⟨rfl, rfl⟩, _, _, rfl, _, _, rfl, _, _, rfl, _, _, ⟨_, rfl⟩, _, rfl⟩ := h
    exact ⟨rfl, rfl⟩

/-- The right code, with a fresh identifier for the attempt, completes the delivery. -/
theorem completeDelivery_right (env : Env) {submitted : String} {order : Order}
    {code : DeliveryCode}
    (hrole : caller.role = .driver) (hget : db.orders.get orderId = some order)
    (hlive : order.deletedAt = none) (hcode : db.deliveryCodes.get orderId = some code)
    (hcheck : checkCode sha256 code submitted = .right)
    (hfresh : db.deliveryCodeAttempts.get (env.uuid4 0) = none) :
    (completeDelivery sha256 env caller orderId submitted).run db =
      .ok (order.deliverByCode (env.now 0), delivered db env caller orderId submitted) := by
  have hid := Table.key_of_get hget
  subst hid
  have hattempts : ∀ (t : Time) (ms : List OrderMessage),
      (db.archiveAll t ms).deliveryCodeAttempts = db.deliveryCodeAttempts := archiveAll_attempts db
  simp only [completeDelivery, deliver, bind_eq, run_bind_ok, run_raiseIf_ok,
    run_getOrderOr404_ok, run_read_ok, run_getOrRaise_ok]
  refine ⟨(), db, ⟨by simp [hrole], rfl⟩, order, db, ⟨⟨hget, hlive⟩, rfl⟩, db, db, ⟨rfl, rfl⟩, code,
    db, ⟨hcode, rfl⟩, ?_⟩
  simp only [hcheck, run_bind_ok, run_read_ok, run_archiveMessages_ok, run_updateOrder_ok,
    run_updateCode_ok, run_insertCodeAttempt_ok, pure_eq, run_ret_ok]
  refine ⟨db, db, ⟨rfl, rfl⟩, (), _, rfl, (), _, rfl, (), _, rfl, (), _, ⟨?_, rfl⟩, trivial, rfl⟩
  have hsame := hattempts (env.now 0) (db.orderMessages.rows.filter fun m =>
    m.orderId = order.id ∧ m.archivedAt = none)
  simp only [Db.modifyCode, Db.modifyOrder, attempt]
  rw [hsame]
  exact hfresh

/-- The role in the chat is found without a write. -/
theorem chatRole_ok {order : Order} {delivery : Option Delivery} {role : SenderRole}
    (h : (chatRole caller order delivery).run db = .ok (role, db')) : db = db' := by
  unfold chatRole at h
  split_ifs at h <;> simp_all

/-- A message is added. -/
theorem postOrderMessage_ok {ciphertext nonce : String} {m : OrderMessage}
    (h : (postOrderMessage env caller orderId ciphertext nonce).run db = .ok (m, db')) :
    db' = db.addMessage m := by
  simp only [postOrderMessage, bind_eq, run_bind_ok, run_raiseIf_ok, run_getOrderOr404_ok,
    run_read_ok, run_insertMessage_ok, pure_eq, run_ret_ok] at h
  obtain ⟨_, _, ⟨_, rfl⟩, _, _, ⟨_, rfl⟩, _, _, ⟨_, rfl⟩, _, _, ⟨rfl, rfl⟩, role, t, hrole, _, _,
    ⟨_, rfl⟩, rfl, rfl⟩ := h
  rw [chatRole_ok hrole]

end DeliveryFlow

namespace DeliveryTracking

variable {caller : User} {orderId : Id} {db db' : Db}

/-- The database after the patch of a delivery's driver. -/
def patchedDriver (db : Db) (orderId : Id) : Option Id → Db
  | none => db
  | some driverId => db.modifyDelivery orderId (Delivery.giveTo driverId)

/-- The driver of the delivery is the new one. -/
theorem patchDriver_ok {driverId : Option Id} {u : Unit}
    (h : (patchDriver orderId driverId).run db = .ok (u, db')) :
    db' = patchedDriver db orderId driverId := by
  cases driverId with
  | none =>
    simp only [patchDriver, pure_eq, run_ret_ok] at h
    exact h.2.symm
  | some driver =>
    simp only [patchDriver, bind_eq, run_bind_ok, run_raiseIf_ok, run_updateDelivery_ok] at h
    obtain ⟨user, _, hfind, _, _, ⟨huser, rfl⟩, rfl⟩ := h
    rw [← (OrderService.findDriver_isSome hfind huser).2]
    rfl

/-- What a successful patch by an administrator has found and done. -/
theorem adminPatchDelivery_ok {driverId : Option Id} {distance duration : Option ℤ}
    {r : Order × Option Delivery}
    (h : (adminPatchDelivery caller orderId driverId distance duration).run db = .ok (r, db')) :
    caller.role = .admin ∧ ∃ order delivery, db.orders.get orderId = some order ∧
      order.deletedAt = none ∧ db.deliveries.get orderId = some delivery ∧
      db' = (patchedDriver db orderId driverId).modifyDelivery orderId
        (Delivery.patch distance duration) := by
  simp only [adminPatchDelivery, loadOrder, bind_eq, run_bind_ok, run_raiseIf_ok, run_read_ok,
    run_getOrRaise_ok, run_selectForUpdate_ok, run_updateDelivery_ok, pure_eq, run_ret_ok] at h
  obtain ⟨_, _, ⟨hrole, rfl⟩, _, _, ⟨_, _, ⟨rfl, rfl⟩, rfl, rfl⟩, order, _, ⟨hfound, rfl⟩, _, _,
    ⟨rfl, rfl⟩, _, _, ⟨hsome, rfl⟩, _, _, hpatch, _, _, rfl, _, _, ⟨rfl, rfl⟩, _, rfl⟩ := h
  obtain ⟨hget, hlive⟩ := Option.filter_eq_some_iff.mp hfound
  have hid := Table.key_of_get hget
  subst hid
  cases hdel : db.deliveries.get order.id with
  | none => simp [hdel] at hsome
  | some delivery =>
    exact ⟨by simpa using hrole, order, delivery, hget, by simpa using hlive, rfl,
      by rw [patchDriver_ok hpatch]⟩

/-- A patch hands the delivery to an active driver only. -/
theorem adminPatchDelivery_driver {driverId : Id} {distance duration : Option ℤ}
    {r : Order × Option Delivery}
    (h : (adminPatchDelivery caller orderId (some driverId) distance duration).run db =
      .ok (r, db')) : OrderService.ActiveDriver db driverId := by
  simp only [adminPatchDelivery, loadOrder, patchDriver, bind_eq, run_bind_ok, run_raiseIf_ok,
    run_read_ok, run_getOrRaise_ok, run_selectForUpdate_ok, pure_eq, run_ret_ok] at h
  obtain ⟨_, _, ⟨-, rfl⟩, _, _, ⟨_, _, ⟨rfl, rfl⟩, rfl, rfl⟩, _, _, ⟨-, rfl⟩, _, _, ⟨rfl, rfl⟩,
    _, _,
    ⟨-, rfl⟩, _, _, ⟨user, _, hfind, _, _, ⟨huser, -⟩, -⟩, -⟩ := h
  exact (OrderService.findDriver_isSome hfind huser).1

end DeliveryTracking

end Marketplace
