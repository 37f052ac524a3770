import Marketplace.Order.Effects

/-!
# What the orders router answers

The response helpers of `order_service.py`, the queries behind `GET /orders` and
`GET /orders/{id}`, and the endpoints of `orders.py`: the list masks and hides orders by
role and time, every other endpoint renders the order it has loaded.
-/

namespace Marketplace

open Lib Txn Err

/-! ### Responses -/

/-- `OrderLineItemOut`. -/
structure OrderLineItemOut where
  id : Id
  productId : Option Id
  productNameSnapshot : String
  unitPriceMinorSnapshot : ℤ
  quantity : ℤ
deriving DecidableEq, Repr

/-- `DeliveryOut`. -/
structure DeliveryOut where
  id : Id
  driverId : Option Id
  sellerId : Id
  status : DeliveryStatus
  startedAt : Option Time
  deliveredAt : Option Time
deriving DecidableEq, Repr

/-- `DriverAssignmentOut`. -/
structure DriverAssignmentOut where
  id : Id
  driverId : Option Id
  status : DriverAssignmentStatus
  requestedAt : Time
  assignedAt : Option Time
deriving DecidableEq, Repr

/-- `OrderResponse`. -/
structure OrderResponse where
  id : Id
  customerId : Id
  sellerId : Id
  storeId : Id
  status : String
  subtotalMinor : ℤ
  totalMinor : ℤ
  /-- `None` is the empty object. -/
  deliveryAddress : Option Address := none
  placedAt : Time
  acceptedAt : Option Time := none
  preparingAt : Option Time := none
  outForDeliveryAt : Option Time := none
  deliveredAt : Option Time := none
  completedAt : Option Time := none
  cancelledAt : Option Time := none
  cancellationReason : Option String := none
  items : List OrderLineItemOut := []
  delivery : Option DeliveryOut := none
  driverAssignment : Option DriverAssignmentOut := none
deriving DecidableEq, Repr

namespace OrderService

/-- `max(candidates, key=lambda x: x.requested_at)`: the first of the latest. -/
def latestRequested : List DriverAssignment → Option DriverAssignment
  | [] => none
  | a :: as => some (as.foldl (fun b c => if b.requestedAt < c.requestedAt then c else b) a)

/-- `order_to_response_dict`. -/
def orderToResponse (f : OrderFull) : OrderResponse :=
  { id := f.order.id, customerId := f.order.customerId, sellerId := f.order.sellerId,
    storeId := f.order.storeId, status := f.order.status.label,
    subtotalMinor := f.order.subtotalMinor, totalMinor := f.order.totalMinor,
    deliveryAddress := some f.order.deliveryAddress, placedAt := f.order.placedAt,
    acceptedAt := f.order.acceptedAt, preparingAt := f.order.preparingAt,
    outForDeliveryAt := f.order.outForDeliveryAt, deliveredAt := f.order.deliveredAt,
    completedAt := f.order.completedAt, cancelledAt := f.order.cancelledAt,
    cancellationReason := f.order.cancellationReason,
    items := f.orderItems.map fun i =>
      { id := i.id, productId := i.productId, productNameSnapshot := i.productNameSnapshot,
        unitPriceMinorSnapshot := i.unitPriceMinorSnapshot, quantity := i.quantity }
    delivery := f.delivery.map fun d =>
      { id := d.id, driverId := d.driverId, sellerId := d.sellerId, status := d.status,
        startedAt := d.startedAt, deliveredAt := d.deliveredAt }
    driverAssignment := (latestRequested
        (f.driverAssignments.filter fun a => a.status ≠ .cancelled)).map fun a =>
      { id := a.id, driverId := a.driverId, status := a.status, requestedAt := a.requestedAt,
        assignedAt := a.assignedAt } }

/-- The body that both masks share. -/
def maskOrderResponse (order : Order) : OrderResponse :=
  { id := order.id, customerId := order.customerId, sellerId := order.sellerId,
    storeId := order.storeId, status := "hidden", subtotalMinor := order.totalMinor,
    totalMinor := order.totalMinor, placedAt := order.placedAt }

/-- `mask_seller_order_response`. -/
def maskSellerOrderResponse (order : Order) : OrderResponse := maskOrderResponse order

/-- `mask_customer_order_response`. -/
def maskCustomerOrderResponse (order : Order) : OrderResponse := maskOrderResponse order

/-- The instant up to which a delivered order is hidden from its customer. -/
def hiddenUntil (order : Order) (deliveredAt : Time) : Time :=
  order.customerVisibleAfter.getD (deliveredAt + minutes 30)

/-- `is_customer_hidden`. -/
def isCustomerHidden (now : Time) (order : Order) : Bool :=
  order.deliveredAt.any fun deliveredAt => now < hiddenUntil order deliveredAt

/-- `is_customer_masked`. -/
def isCustomerMasked (now : Time) (order : Order) : Bool :=
  order.deliveredAt.any fun deliveredAt => hiddenUntil order deliveredAt ≤ now

/-- `is_seller_stripped`. -/
def isSellerStripped (now : Time) (order : Order) : Bool :=
  order.sellerFullVisibleUntil.getD (order.placedAt + days 7) ≤ now

/-! ### Queries -/

/-- `_ensure_can_view`. -/
def ensureCanView (f : OrderFull) (caller : User) : Tx Unit :=
  match caller.role with
  | .admin => pure ()
  | .seller => raiseIf (f.order.sellerId ≠ caller.id) orderNotFound
  | .customer => raiseIf (f.order.customerId ≠ caller.id) orderNotFound
  | .driver => raiseIf (f.delivery.bind Delivery.driverId ≠ some caller.id ∧
      ¬∃ a ∈ f.driverAssignments, a.driverId = some caller.id ∧
        a.status ∈ [DriverAssignmentStatus.assigned, .accepted]) orderNotFound

/-- `get_order_for_caller`. -/
def getOrderForCaller (caller : User) (orderId : Id) : Tx OrderFull := do
  let found ← loadOrderFull orderId
  let f ← getOrRaise found orderNotFound
  raiseIf (f.order.deletedAt ≠ none) orderNotFound
  ensureCanView f caller
  pure f

/-- The orders that the query of `list_orders_for_caller` selects by the caller's role. -/
def listedFor (db : Db) (caller : User) (order : Order) : Bool :=
  match caller.role with
  | .admin => true
  | .seller => order.sellerId = caller.id
  | .customer => order.customerId = caller.id
  | .driver => (db.deliveries.get order.id).bind Delivery.driverId = some caller.id ∨
      ∃ a ∈ db.assignmentsOf order.id, a.driverId = some caller.id ∧
        a.status ∈ [DriverAssignmentStatus.assigned, .accepted]

/-- The status filter as the database takes it: it refuses what is not a label. -/
def statusFilter : Option String → Tx (Option OrderStatus)
  | none => pure none
  | some label => do
    let s ← getOrRaise (OrderStatus.ofLabel label) (.unexpected "DBAPIError")
    pure (some s)

/-- The query of `list_orders_for_caller`. -/
def selectOrders (db : Db) (caller : User) (status : Option OrderStatus) (limit : ℤ) :
    List Order :=
  ((db.orders.rows.filter fun o =>
    o.deletedAt = none ∧ (status.all fun s => o.status = s) ∧ listedFor db caller o).mergeSort
      fun a b => b.placedAt ≤ a.placedAt).take (min (max limit 1) 200).toNat

/-- `list_orders_for_caller`. -/
def listOrdersForCaller (caller : User) (status : Option String) (limit : ℤ) :
    Tx (List OrderFull) := do
  let filter ← statusFilter status
  let db ← read
  pure ((selectOrders db caller filter limit).map (full db))

end OrderService

open OrderService

namespace OrdersRouter

/-- `_render`. -/
def render (f : OrderFull) : OrderResponse := orderToResponse f

/-- What `list_orders` appends for one order at the time `now`; `None` where it continues. -/
def renderListed (now : Time) (caller : User) (f : OrderFull) : Option OrderResponse :=
  if caller.role = .customer ∧ isCustomerHidden now f.order = true then none
  else if caller.role = .customer ∧ isCustomerMasked now f.order = true then
    some (maskCustomerOrderResponse f.order)
  else if caller.role = .seller ∧ isSellerStripped now f.order = true then
    some (maskSellerOrderResponse f.order)
  else some (render f)

/-- `list_orders`, at the time `now`. -/
def listOrders (now : Time) (caller : User) (status : Option String) (limit : ℤ) :
    Tx (List OrderResponse) := do
  let orders ← listOrdersForCaller caller status limit
  pure (orders.filterMap (renderListed now caller))

end OrdersRouter

/-- The requests that the orders router answers with orders. -/
inductive OrdersRequest
  | create (items : List LineItem) (deliveryAddress : Address)
  | list (status : Option String) (limit : ℤ)
  | get (orderId : Id)
  | accept (orderId : Id)
  | preparing (orderId : Id)
  | selfDeliver (orderId : Id)
  | requestDriver (orderId : Id)
  | outForDelivery (orderId : Id)
  | delivered (orderId : Id)
  | complete (orderId : Id)
  | cancel (orderId : Id) (reason : Option String)
deriving DecidableEq

namespace OrdersRequest

/-- The order that a request names. -/
def orderId : OrdersRequest → Option Id
  | create _ _ | list _ _ => none
  | get o | accept o | preparing o | selfDeliver o | requestDriver o | outForDelivery o
  | delivered o | complete o | cancel o _ => some o

/-- The order a service returns, rendered. -/
def rendered (p : Tx OrderFull) : Tx (List OrderResponse) := do
  let f ← p
  pure [OrdersRouter.render f]

/-- The endpoints of the orders router; `now` is when a list is rendered. -/
def exec (env : Env) (now : Time) (caller : User) : OrdersRequest → Tx (List OrderResponse)
  | create items address => rendered (createOrder env caller items address)
  | list status limit => OrdersRouter.listOrders now caller status limit
  | get o => rendered (getOrderForCaller caller o)
  | accept o => rendered (acceptOrder env caller o)
  | preparing o => rendered (markPreparing env caller o)
  | selfDeliver o => rendered (chooseSelfDelivery env caller o)
  | requestDriver o => rendered (OrderService.requestDriver env caller o)
  | outForDelivery o => rendered (OrderService.outForDelivery env caller o)
  | delivered o => rendered (markDelivered env caller o)
  | complete o => rendered (completeOrder env caller o)
  | cancel o reason => rendered (cancelOrder env caller o reason)

end OrdersRequest

end Marketplace
