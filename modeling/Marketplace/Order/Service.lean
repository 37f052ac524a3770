import Marketplace.Statements

/-!
# The order service

`order_service.py`, function by function: placing an order, its transitions, the
retention gate and the purge job. Every transition locks the order row before it
looks at the status.
-/

namespace Marketplace

open Lib Txn Err

/-! ### What the transitions write -/

namespace Order

def accept (now : Time) (o : Order) : Order :=
  { o with status := .accepted, acceptedAt := some now }

def prepare (now : Time) (o : Order) : Order :=
  { o with status := .preparing, preparingAt := some now }

def sendOut (now : Time) (o : Order) : Order :=
  { o with status := .outForDelivery, outForDeliveryAt := some now }

def deliver (now : Time) (o : Order) : Order :=
  { o with status := .delivered, deliveredAt := some now }

def complete (now : Time) (o : Order) : Order :=
  { o with status := .completed, completedAt := some now }

def cancel (now : Time) (reason : Option String) (o : Order) : Order :=
  { o with status := .cancelled, cancelledAt := some now, cancellationReason := reason }

variable (now : Time) (o : Order)

/-- Accepting keeps the order's id. -/
@[simp] theorem accept_id : (o.accept now).id = o.id := rfl

/-- Preparing keeps the order's id. -/
@[simp] theorem prepare_id : (o.prepare now).id = o.id := rfl

/-- Sending out keeps the order's id. -/
@[simp] theorem sendOut_id : (o.sendOut now).id = o.id := rfl

/-- Delivering keeps the order's id. -/
@[simp] theorem deliver_id : (o.deliver now).id = o.id := rfl

/-- Completing keeps the order's id. -/
@[simp] theorem complete_id : (o.complete now).id = o.id := rfl

/-- Cancelling keeps the order's id. -/
@[simp] theorem cancel_id (reason : Option String) : (o.cancel now reason).id = o.id := rfl

end Order

namespace Delivery

def start (now : Time) (d : Delivery) : Delivery :=
  { d with status := .inTransit, startedAt := some now }

def deliver (now : Time) (duration : Option ℤ) (d : Delivery) : Delivery :=
  { d with status := .delivered, deliveredAt := some now, durationSeconds := duration }

variable (now : Time) (d : Delivery)

/-- Starting a delivery keeps its order. -/
@[simp] theorem start_orderId : (d.start now).orderId = d.orderId := rfl

/-- Finishing a delivery keeps its order. -/
@[simp] theorem deliver_orderId (duration : Option ℤ) :
    (d.deliver now duration).orderId = d.orderId := rfl

end Delivery

namespace DriverAssignment

def assign (driverId adminId : Id) (now : Time) (a : DriverAssignment) : DriverAssignment :=
  { a with driverId := some driverId, status := .assigned, assignedByAdminId := some adminId,
           assignedAt := some now }

def cancel (a : DriverAssignment) : DriverAssignment := { a with status := .cancelled }

/-- Assigning a driver keeps the assignment's id and order. -/
theorem assign_keys (driverId adminId : Id) (now : Time) (a : DriverAssignment) :
    (a.assign driverId adminId now).id = a.id ∧
      (a.assign driverId adminId now).orderId = a.orderId := ⟨rfl, rfl⟩

/-- Cancelling an assignment keeps its id and order. -/
theorem cancel_keys (a : DriverAssignment) : a.cancel.id = a.id ∧ a.cancel.orderId = a.orderId :=
  ⟨rfl, rfl⟩

end DriverAssignment

/-- An order with its items, its delivery and its assignments loaded. -/
structure OrderFull where
  order : Order
  orderItems : List OrderItem
  delivery : Option Delivery
  driverAssignments : List DriverAssignment
deriving DecidableEq, Repr

namespace OrderService

/-! ### Helpers -/

/-- `_load_order_locked`. -/
def loadOrderLocked (orderId : Id) : Tx (Option Order) :=
  selectForUpdate (.order orderId) fun db => db.orders.get orderId

/-- `_load_order_full`. -/
def loadOrderFull (orderId : Id) : Tx (Option OrderFull) := do
  let db ← read
  pure ((db.orders.get orderId).map fun order =>
    { order, orderItems := db.itemsOf orderId, delivery := db.deliveries.get orderId,
      driverAssignments := db.assignmentsOf orderId })

/-- The end of every transition: `loaded = await _load_order_full(…); assert loaded is not None`. -/
def loaded (orderId : Id) : Tx OrderFull := do
  let full ← loadOrderFull orderId
  getOrRaise full (.unexpected "AssertionError")

/-- `_get_caller_seller`. -/
def getCallerSeller (caller : User) : Tx Seller := do
  let db ← read
  let seller ← scalarOneOrNone
    (db.sellers.rows.filter fun s => s.userId = caller.id ∧ s.deletedAt = none)
  getOrRaise seller sellerProfileMissing

/-- `_terminal_at`. -/
def terminalAt (order : Order) : Option Time :=
  match order.status with
  | .completed => order.completedAt
  | .cancelled => order.cancelledAt
  | _ => none

/-- `_lock_order_or_404`. -/
def lockOrderOr404 (orderId : Id) (caller : User) : Tx Order := do
  let found ← loadOrderLocked orderId
  let order ← getOrRaise found orderNotFound
  raiseIf (order.deletedAt ≠ none) orderNotFound
  raiseIf (caller.role = .seller ∧ order.sellerId ≠ caller.id) orderNotFound
  raiseIf (caller.role = .customer ∧ order.customerId ≠ caller.id) orderNotFound
  pure order

/-! ### Placing an order -/

/-- A line of the request. -/
structure LineItem where
  productId : Id
  quantity : ℤ
deriving DecidableEq, Repr

/-- `qty_by_id[pid] = qty_by_id.get(pid, 0) + quantity`. -/
def addQuantity : List (Id × ℤ) → LineItem → List (Id × ℤ)
  | [], item => [(item.productId, item.quantity)]
  | (pid, qty) :: rest, item =>
    if pid = item.productId then (pid, qty + item.quantity) :: rest
    else (pid, qty) :: addQuantity rest item

/-- `qty_by_id`. -/
def qtyById (items : List LineItem) : List (Id × ℤ) := items.foldl addQuantity []

/-- `sorted({item["product_id"] for item in items})`. -/
def productIds (items : List LineItem) : List Id :=
  (items.map LineItem.productId).dedup.mergeSort (· ≤ ·)

/-- `products_by_id[pid]` for every line. -/
def resolveLines (products : List Product) : List (Id × ℤ) → Tx (List (Product × ℤ))
  | [] => pure []
  | (pid, qty) :: lines => do
    let product ← getOrRaise (products.find? fun p => p.id = pid) (.unexpected "KeyError")
    let rest ← resolveLines products lines
    pure ((product, qty) :: rest)

/-- The visibility, activity and stock checks of every line. -/
def checkLines : List (Product × ℤ) → Tx Unit
  | [] => pure ()
  | (product, qty) :: lines => do
    raiseIf (product.deletedAt ≠ none ∨ product.isActive = false) (productNotVisible)
    raiseIf ((product.stockQuantity.any fun stock => stock < qty) = true) productOutOfStock
    checkLines lines

/-- `product.stock_quantity = product.stock_quantity - qty` for every tracked product. -/
def decrementStock : List (Product × ℤ) → Tx Unit
  | [] => pure ()
  | (product, qty) :: lines => do
    match product.stockQuantity with
    | none => decrementStock lines
    | some stock => do
      updateStock product.id (stock - qty)
      decrementStock lines

/-- The item row of a line, whose id is the `i`-th draw of `uuid4`. -/
def newItem (env : Env) (orderId : Id) (i : ℕ) (line : Product × ℤ) : OrderItem :=
  { id := env.uuid4 i, orderId, productId := some line.1.id,
    productNameSnapshot := line.1.name, unitPriceMinorSnapshot := line.1.priceMinor,
    quantity := line.2 }

/-- The item rows, whose ids are the draws of `uuid4` from the `i`-th on. -/
def insertItems (env : Env) (orderId : Id) : ℕ → List (Product × ℤ) → Tx Unit
  | _, [] => pure ()
  | i, line :: lines => do
    insertOrderItem (newItem env orderId i line)
    insertItems env orderId (i + 1) lines

/-- `sum(products_by_id[pid].price_minor * qty …)`. -/
def subtotal (lines : List (Product × ℤ)) : ℤ := (lines.map fun l => l.1.priceMinor * l.2).sum

/-- The order row. -/
def newOrder (env : Env) (customer : User) (sellerId storeId : Id) (deliveryAddress : Address)
    (lines : List (Product × ℤ)) : Order :=
  { id := env.uuid4 0, customerId := customer.id, sellerId, storeId, status := .pending,
    subtotalMinor := subtotal lines, totalMinor := subtotal lines, deliveryAddress,
    placedAt := env.transactionNow, sellerFullVisibleUntil := some (env.now 0 + days 7) }

/-- `create_order`. -/
def createOrder (env : Env) (customer : User) (items : List LineItem) (deliveryAddress : Address) :
    Tx OrderFull := do
  raiseIf (customer.role ≠ .customer) (productNotVisible "Only customers may place orders.")
  raiseIf (items = []) (orderInvalidTransition "Order must have at least one line item.")
  let expectedSellerId ← getOrRaise customer.referringSellerId (productNotVisible)
  -- lock all product rows up front, in id order
  let db ← read
  let products ← lockProducts ((productIds items).filter fun id => (db.products.get id).isSome)
  raiseIf (products.length ≠ (productIds items).length) (productNotVisible)
  raiseIf ((products.map Product.sellerId).dedup.length ≠ 1 ∨
    expectedSellerId ∉ products.map Product.sellerId) (productNotVisible)
  let lines ← resolveLines products (qtyById items)
  checkLines lines
  decrementStock lines
  let firstProduct ← getOrRaise products.head? (.unexpected "StopIteration")
  insertOrder
    (newOrder env customer expectedSellerId firstProduct.storeId deliveryAddress lines)
  insertItems env (env.uuid4 0) 1 lines
  loaded (env.uuid4 0)

/-! ### Transitions -/

/-- `accept_order`. -/
def acceptOrder (env : Env) (caller : User) (orderId : Id) : Tx OrderFull := do
  raiseIf (caller.role ≠ .seller) orderNotFound
  let order ← lockOrderOr404 orderId caller
  raiseIf (order.status ≠ .pending)
    (orderInvalidTransition ("Cannot accept order in state " ++ order.status.quoted ++ "."))
  updateOrder order.id (Order.accept (env.now 0))
  loaded order.id

/-- `mark_preparing`. -/
def markPreparing (env : Env) (caller : User) (orderId : Id) : Tx OrderFull := do
  raiseIf (caller.role ≠ .seller) orderNotFound
  let order ← lockOrderOr404 orderId caller
  raiseIf (order.status ≠ .accepted)
    (orderInvalidTransition ("Cannot transition to preparing from " ++ order.status.quoted ++ "."))
  updateOrder order.id (Order.prepare (env.now 0))
  loaded order.id

/-- The check that neither a delivery nor a driver request exists, which both fulfilment
choices make. -/
def ensureFulfillmentOpen (orderId : Id) : Tx Unit := do
  let db ← read
  raiseIf ((db.deliveries.get orderId).isSome = true) fulfillmentAlreadyChosen
  let db ← read
  let existing ← scalarOneOrNone
    ((db.assignmentsOf orderId).filter fun a => a.status ∈ activeAssignmentStatuses)
  raiseIf (existing.isSome = true) fulfillmentAlreadyChosen

/-- `choose_self_delivery`. -/
def chooseSelfDelivery (env : Env) (caller : User) (orderId : Id) : Tx OrderFull := do
  raiseIf (caller.role ≠ .seller) orderNotFound
  let order ← lockOrderOr404 orderId caller
  raiseIf (order.status ∉ [OrderStatus.accepted, .preparing])
    (orderInvalidTransition ("Cannot choose fulfillment in state " ++ order.status.quoted ++ "."))
  ensureFulfillmentOpen order.id
  let seller ← getCallerSeller caller
  insertDelivery
    { id := env.uuid4 0, orderId := order.id, driverId := none, sellerId := seller.id,
      status := .pending }
  loaded order.id

/-- `request_driver`. -/
def requestDriver (env : Env) (caller : User) (orderId : Id) : Tx OrderFull := do
  raiseIf (caller.role ≠ .seller) orderNotFound
  let order ← lockOrderOr404 orderId caller
  raiseIf (order.status ∉ [OrderStatus.accepted, .preparing])
    (orderInvalidTransition ("Cannot request driver in state " ++ order.status.quoted ++ "."))
  ensureFulfillmentOpen order.id
  let seller ← getCallerSeller caller
  insertAssignment
    { id := env.uuid4 0, orderId := order.id, driverId := none, status := .requested,
      requestedBySellerId := seller.id, requestedAt := env.transactionNow }
  loaded order.id

/-- The lookup of an active driver, which `assign_driver` and `admin_patch_delivery` share. -/
def findDriver (driverId : Id) : Tx (Option User) := do
  let db ← read
  pure ((db.users.get driverId).filter fun u =>
    u.role = .driver ∧ u.deletedAt = none ∧ u.isActive = true)

/-- `assign_driver`. -/
def assignDriver (env : Env) (caller : User) (orderId driverId : Id) : Tx OrderFull := do
  raiseIf (caller.role ≠ .admin) orderNotFound
  let order ← lockOrderOr404 orderId caller
  raiseIf (order.status ∉ [OrderStatus.accepted, .preparing])
    (orderInvalidTransition ("Cannot assign driver in state " ++ order.status.quoted ++ "."))
  let driverUser ← findDriver driverId
  raiseIf (driverUser.isNone = true) (orderInvalidTransition "Driver not found or inactive.")
  let db ← read
  let assignments ← lockAssignments
    ((db.assignmentsOf order.id).mergeSort fun a b => b.requestedAt ≤ a.requestedAt)
  let active := assignments.filter fun a => a.status ∈ activeAssignmentStatuses
  let pending ← getOrRaise active.head? driverNotRequested
  raiseIf ((active.any fun a => a.driverId.isSome) = true) driverAlreadyAssigned
  updateAssignment pending.id (DriverAssignment.assign driverId caller.id (env.now 0))
  loaded order.id

/-- The delivery row that `out_for_delivery` starts: the driver's, created now from the
assignment, or the one that exists, if the caller may start it. -/
def startDelivery (env : Env) (caller : User) (order : Order) : Option Delivery → Tx Unit
  | none => do
    let db ← read
    let assignment ← scalarOneOrNone ((db.assignmentsOf order.id).filter fun a =>
      a.status ∈ [DriverAssignmentStatus.assigned, .accepted] ∧ a.driverId ≠ none)
    let assignment ← getOrRaise assignment
      (orderInvalidTransition "No fulfillment mode chosen for this order.")
    raiseIf (caller.role = .driver ∧ some caller.id ≠ assignment.driverId) orderNotFound
    raiseIf (caller.role = .seller ∧ caller.id ≠ order.sellerId) orderNotFound
    insertDelivery
      { id := env.uuid4 0, orderId := order.id, driverId := assignment.driverId,
        sellerId := order.sellerId, status := .inTransit, startedAt := some (env.now 0) }
  | some delivery => do
    raiseIf (delivery.driverId = none ∧ (caller.role ≠ .seller ∨ caller.id ≠ order.sellerId))
      orderNotFound
    raiseIf (delivery.driverId ≠ none ∧ caller.role = .driver ∧ some caller.id ≠ delivery.driverId)
      orderNotFound
    raiseIf (delivery.driverId ≠ none ∧ caller.role = .seller ∧ caller.id ≠ order.sellerId)
      orderNotFound
    updateDelivery order.id (Delivery.start (env.now 0))

/-- `out_for_delivery`. -/
def outForDelivery (env : Env) (caller : User) (orderId : Id) : Tx OrderFull := do
  raiseIf (caller.role ∉ [UserRole.seller, .driver]) orderNotFound
  let order ← lockOrderOr404 orderId caller
  raiseIf (order.status = .outForDelivery ∨ order.outForDeliveryAt ≠ none) deliveryAlreadyStarted
  raiseIf (order.status ≠ .preparing)
    (orderInvalidTransition
      ("Cannot transition to out_for_delivery from " ++ order.status.quoted ++ "."))
  let delivery ← selectForUpdate (.delivery order.id) fun db => db.deliveries.get order.id
  startDelivery env caller order delivery
  updateOrder order.id (Order.sendOut (env.now 1))
  loaded order.id

/-- The duration that `mark_delivered` stamps, once. -/
def stampDuration (now : Time) (delivery : Delivery) : Option ℤ :=
  match delivery.startedAt, delivery.durationSeconds with
  | some started, none => some (max 0 (totalSeconds (now - started)))
  | _, duration => duration

/-- `mark_delivered`. -/
def markDelivered (env : Env) (caller : User) (orderId : Id) : Tx OrderFull := do
  raiseIf (caller.role ∉ [UserRole.seller, .driver]) orderNotFound
  let order ← lockOrderOr404 orderId caller
  raiseIf (order.status ≠ .outForDelivery)
    (orderInvalidTransition ("Cannot transition to delivered from " ++ order.status.quoted ++ "."))
  let found ← selectForUpdate (.delivery order.id) fun db => db.deliveries.get order.id
  let delivery ← getOrRaise found (orderInvalidTransition "Delivery row missing.")
  raiseIf (delivery.driverId = none ∧ (caller.role ≠ .seller ∨ caller.id ≠ order.sellerId))
    orderNotFound
  raiseIf (delivery.driverId ≠ none ∧ caller.role = .driver ∧ some caller.id ≠ delivery.driverId)
    orderNotFound
  raiseIf (delivery.driverId ≠ none ∧ caller.role = .seller ∧ caller.id ≠ order.sellerId)
    orderNotFound
  updateOrder order.id (Order.deliver (env.now 0))
  updateDelivery order.id
    (Delivery.deliver (env.now 0) (stampDuration (env.now 0) delivery))
  loaded order.id

/-- The row `_write_snapshot` inserts. Whether the store is found or not, the city is the
seller's. -/
def snapshotRow (db : Db) (env : Env) (i : ℕ) (order : Order) : OrderAnalyticsSnapshot :=
  let delivery := db.deliveries.get order.id
  { id := env.uuid4 i, orderId := order.id, sellerId := order.sellerId, storeId := order.storeId,
    customerId := order.customerId,
    city := ((db.sellers.get order.sellerId).map Seller.city).getD "",
    itemCount := ((db.itemsOf order.id).map OrderItem.quantity).sum,
    subtotalMinor := order.subtotalMinor, totalMinor := order.totalMinor,
    deliveredAt := (order.deliveredAt.or order.completedAt).getD (env.now (i + 1)),
    deliveryDurationSeconds := delivery.bind Delivery.durationSeconds,
    deliveryDistanceMeters := delivery.bind Delivery.distanceMeters }

/-- `_write_snapshot`. -/
def writeSnapshot (env : Env) (i : ℕ) (order : Order) : Tx Unit := do
  let db ← read
  insertSnapshot (snapshotRow db env i order)

/-- `complete_order`. -/
def completeOrder (env : Env) (caller : User) (orderId : Id) : Tx OrderFull := do
  raiseIf (caller.role ≠ .customer) orderNotFound
  let order ← lockOrderOr404 orderId caller
  raiseIf (order.status ≠ .delivered)
    (orderInvalidTransition ("Cannot complete order in state " ++ order.status.quoted ++ "."))
  updateOrder order.id (Order.complete (env.now 0))
  writeSnapshot env 0 (order.complete (env.now 0))
  loaded order.id

/-- `a.status = "cancelled"` for each of the assignments. -/
def cancelAssignments : List DriverAssignment → Tx Unit
  | [] => pure ()
  | a :: as => do
    updateAssignment a.id DriverAssignment.cancel
    cancelAssignments as

/-- Who may cancel an order in which status. -/
def ensureMayCancel (caller : User) (status : OrderStatus) : Tx Unit :=
  match caller.role with
  | .customer => raiseIf (status ≠ .pending)
      (orderInvalidTransition "Customers may only cancel orders in 'pending' state.")
  | .seller => raiseIf (status ∉ [OrderStatus.pending, .accepted, .preparing])
      (orderInvalidTransition "Seller may not cancel after out_for_delivery.")
  | .admin => pure ()
  | .driver => raise orderNotFound

/-- `cancel_order`. -/
def cancelOrder (env : Env) (caller : User) (orderId : Id) (reason : Option String) :
    Tx OrderFull := do
  let order ← lockOrderOr404 orderId caller
  raiseIf (order.status ∈ terminalStatuses ∨ order.status = .delivered)
    (orderInvalidTransition ("Cannot cancel order in state " ++ order.status.quoted ++ "."))
  ensureMayCancel caller order.status
  let db ← read
  let assignments ← lockAssignments
    ((db.assignmentsOf order.id).filter fun a => a.status ∈ activeAssignmentStatuses)
  updateOrder order.id (Order.cancel (env.now 0) reason)
  cancelAssignments (assignments.filter fun a => a.status ∈ activeAssignmentStatuses)
  loaded order.id

/-! ### Retention -/

/-- `_get_retention_settings`: the seeded row, or one with the defaults. -/
def getRetentionSettings (env : Env) : Tx PlatformSettings := do
  let db ← read
  match db.platformSettings with
  | some ps => pure ps
  | none => do
    updateRow .platformSettings fun db => db.setSettings { updatedAt := env.transactionNow }
    pure { updatedAt := env.transactionNow }

/-- `delete_order`. -/
def deleteOrder (env : Env) (caller : User) (orderId : Id) : Tx Unit := do
  let found ← loadOrderLocked orderId
  let order ← getOrRaise found orderNotFound
  raiseIf (order.deletedAt ≠ none) orderNotFound
  raiseIf (caller.role = .customer ∧ order.customerId ≠ caller.id) orderNotFound
  raiseIf (caller.role = .seller ∧ order.sellerId ≠ caller.id) orderNotFound
  raiseIf (caller.role = .driver) orderNotFound
  let terminalAt ← getOrRaise (terminalAt order) (orderRetentionNotMet
    "Order is not yet in a terminal state; retention has not started.")
  let ps ← getRetentionSettings env
  raiseIf (env.now 0 - terminalAt < days ps.retentionMinDays) (orderRetentionNotMet)
  if order.status = .completed then do
    writeSnapshot env 0 order
    deleteOrderRow order.id
  else
    deleteOrderRow order.id

/-- The `WHERE` of the auto-complete query. -/
def awaitsAutoComplete (graceCutoff : Time) (o : Order) : Bool :=
  o.status = .delivered ∧ (o.deliveredAt.any fun at' => at' ≤ graceCutoff) ∧ o.deletedAt = none

/-- The `WHERE` of the purge query. -/
def awaitsPurge (retentionCutoff : Time) (o : Order) : Bool :=
  o.status ∈ terminalStatuses ∧ o.deletedAt = none ∧
    ((o.status = .completed ∧ o.completedAt.any fun at' => at' ≤ retentionCutoff) ∨
      (o.status = .cancelled ∧ o.cancelledAt.any fun at' => at' ≤ retentionCutoff))

/-- The auto-complete loop, whose snapshot ids are the draws of `uuid4` from the `i`-th on. -/
def autoComplete (env : Env) (now : Time) : ℕ → List Order → Tx ℕ
  | _, [] => pure 0
  | i, order :: orders =>
    if order.status ≠ .delivered then autoComplete env now i orders
    else do
      updateOrder order.id (Order.complete now)
      writeSnapshot env i (order.complete now)
      let n ← autoComplete env now (i + 1) orders
      pure (n + 1)

/-- The purge loop. -/
def purge (env : Env) : ℕ → List Order → Tx ℕ
  | _, [] => pure 0
  | i, order :: orders => do
    if order.status = .completed then writeSnapshot env i order else pure ()
    deleteOrderRow order.id
    let n ← purge env (i + 1) orders
    pure (n + 1)

/-- `{"purged_count": …, "auto_completed_count": …}`. -/
structure PurgeResult where
  purgedCount : ℕ
  autoCompletedCount : ℕ
deriving DecidableEq, Repr

/-- `run_purge_job`. -/
def runPurgeJob (env : Env) : Tx PurgeResult := do
  let ps ← getRetentionSettings env
  let db ← read
  let delivered ← skipLockedOrders
    (awaitsAutoComplete (env.now 0 - hours ps.orderAutoCompleteGraceHours))
    ((db.orders.rows.filter
      (awaitsAutoComplete (env.now 0 - hours ps.orderAutoCompleteGraceHours))).map Order.id)
  let autoCompleted ← autoComplete env (env.now 0) 0 delivered
  let db ← read
  let terminal ← skipLockedOrders (awaitsPurge (env.now 0 - days ps.retentionMinDays))
    ((db.orders.rows.filter (awaitsPurge (env.now 0 - days ps.retentionMinDays))).map Order.id)
  let purged ← purge env autoCompleted terminal
  pure { purgedCount := purged, autoCompletedCount := autoCompleted }

/-- `update_retention_settings`. -/
def updateRetentionSettings (env : Env) (caller : User) (retentionMinDays : Option ℤ)
    (orderAutoCompleteGraceHours : Option ℤ) : Tx PlatformSettings := do
  let ps ← getRetentionSettings env
  raiseIf ((retentionMinDays.any fun n => n < 1) = true) (retentionSettingInvalid)
  raiseIf ((orderAutoCompleteGraceHours.any fun n => n < 1) = true)
    (retentionSettingInvalid "order_auto_complete_grace_hours must be >= 1.")
  let ps' : PlatformSettings :=
    { ps with
      retentionMinDays := retentionMinDays.getD ps.retentionMinDays
      orderAutoCompleteGraceHours :=
        orderAutoCompleteGraceHours.getD ps.orderAutoCompleteGraceHours
      updatedAt := env.now 0
      updatedByUserId := some caller.id }
  updateRow .platformSettings fun db => db.setSettings ps'
  pure ps'

end OrderService

end Marketplace
