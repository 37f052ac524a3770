import Marketplace.Order.Runs

/-!
# Delivery tracking

`delivery_tracking_service.py` but for the administrator's patch: who a caller is to an
order, the view of the delivery that this caller gets, and the reports of positions. With
the reports the requests about orders are complete, and the runs of the server are
extended to them.
-/

namespace Marketplace

open Lib Txn Err

/-! ### What a report writes -/

namespace Delivery

/-- The columns that `post_location` sets; `distanceMeters` is the value it has computed. -/
def report (lat lng : Coordinate) (now : Time) (etaSeconds distanceMeters : Option ℤ)
    (d : Delivery) : Delivery :=
  { d with
    currentLat := some lat, currentLng := some lng, lastLocationAt := some now,
    currentEtaSeconds := etaSeconds.or d.currentEtaSeconds,
    currentEtaUpdatedAt := if etaSeconds = none then d.currentEtaUpdatedAt else some now,
    distanceMeters := distanceMeters.or d.distanceMeters }

/-- A report keeps the delivery's order. -/
@[simp] theorem report_orderId (lat lng : Coordinate) (now : Time) (eta distance : Option ℤ)
    (d : Delivery) : (d.report lat lng now eta distance).orderId = d.orderId := rfl

end Delivery

/-- `TrackingRole`. -/
inductive TrackingRole
  | customer | seller | driver | admin | none
deriving DecidableEq, Repr

/-- `InternalDeliveryView`. -/
structure InternalDeliveryView where
  orderId : Id
  deliveryId : Id
  status : String
  driverId : Option Id
  sellerId : Id
  startedAt : Option Time
  deliveredAt : Option Time
  lastKnownLat : Option Coordinate
  lastKnownLng : Option Coordinate
  lastLocationAt : Option Time
  currentEtaSeconds : Option ℤ
  currentEtaUpdatedAt : Option Time
  distanceMeters : Option ℤ
  durationSeconds : Option ℤ
  customerDeliveryAddress : Address
deriving DecidableEq, Repr

/-- `CustomerDeliveryView`. -/
structure CustomerDeliveryView where
  orderId : Id
  status : String
  etaSeconds : Option ℤ
  etaUpdatedAt : Option Time
  startedAt : Option Time
  deliveredAt : Option Time
  deliveryAddress : Address
deriving DecidableEq, Repr

/-- What `get_track_view` returns. -/
inductive TrackView
  | internal (v : InternalDeliveryView)
  | customer (v : CustomerDeliveryView)
deriving DecidableEq, Repr

/-- The status a view shows. -/
def TrackView.status : TrackView → String
  | internal v => v.status
  | customer v => v.status

namespace DeliveryTracking

/-! ### Roles -/

/-- `load_delivery` without the lock. -/
def loadDelivery (orderId : Id) : Tx (Option Delivery) := do
  let db ← read
  pure (db.deliveries.get orderId)

/-- The statuses of an assignment that make its driver the driver of the order. -/
def drivingStatuses : List DriverAssignmentStatus := [.assigned, .accepted]

/-- The assignments that `resolve_role` asks for. -/
def drivingAssignments (db : Db) (orderId driverId : Id) : List DriverAssignment :=
  (db.assignmentsOf orderId).filter fun a => a.driverId = some driverId ∧ a.status ∈ drivingStatuses

/-- The part of `resolve_role` about drivers, with the delivery row it has loaded. -/
def resolveDriver (user : User) (order : Order) : Tx (TrackingRole × Option Delivery) := do
  let delivery ← loadDelivery order.id
  if delivery.bind Delivery.driverId = some user.id then pure (.driver, delivery)
  else do
    let db ← read
    let assignment ← scalarOneOrNone (drivingAssignments db order.id user.id)
    pure (if assignment.isSome then .driver else .none, delivery)

/-- `resolve_role`, with the delivery row that stays in the session's identity map. -/
def resolveRoleLoading (user : User) (order : Order) : Tx (TrackingRole × Option Delivery) :=
  if user.role = .admin then pure (.admin, none)
  else if user.role = .seller ∧ order.sellerId = user.id then pure (.seller, none)
  else if user.role = .customer ∧ order.customerId = user.id then pure (.customer, none)
  else if user.role = .driver then resolveDriver user order
  else pure (.none, none)

/-- `resolve_role`. -/
def resolveRole (user : User) (order : Order) : Tx TrackingRole := do
  let (role, _) ← resolveRoleLoading user order
  pure role

/-- `is_internal_role`. -/
def isInternalRole (role : TrackingRole) : Bool := role ∈ [TrackingRole.admin, .seller, .driver]

/-! ### Views -/

/-- `build_internal_view`. -/
def buildInternalView (order : Order) (delivery : Delivery) : InternalDeliveryView :=
  { orderId := order.id, deliveryId := delivery.id, status := delivery.status.label,
    driverId := delivery.driverId, sellerId := delivery.sellerId,
    startedAt := delivery.startedAt, deliveredAt := delivery.deliveredAt,
    lastKnownLat := delivery.currentLat, lastKnownLng := delivery.currentLng,
    lastLocationAt := delivery.lastLocationAt, currentEtaSeconds := delivery.currentEtaSeconds,
    currentEtaUpdatedAt := delivery.currentEtaUpdatedAt,
    distanceMeters := delivery.distanceMeters, durationSeconds := delivery.durationSeconds,
    customerDeliveryAddress := order.deliveryAddress }

/-- `build_customer_view`. -/
def buildCustomerView (order : Order) (delivery : Option Delivery) : CustomerDeliveryView :=
  { orderId := order.id,
    status := delivery.elim order.status.label fun d => d.status.label,
    etaSeconds := delivery.bind Delivery.currentEtaSeconds,
    etaUpdatedAt := delivery.bind Delivery.currentEtaUpdatedAt,
    startedAt := delivery.bind Delivery.startedAt,
    deliveredAt := delivery.elim order.deliveredAt Delivery.deliveredAt,
    deliveryAddress := order.deliveryAddress }

/-- What a query for the delivery gives a session that may have loaded its row before: the
loaded object keeps its attributes. -/
def asLoaded (loaded found : Option Delivery) : Option Delivery :=
  match loaded, found with
  | some d, some e => if d.id = e.id then some d else some e
  | _, _ => found

/-- The view of a caller with a role. -/
def viewFor (role : TrackingRole) (order : Order) (delivery : Option Delivery) : Tx TrackView :=
  if role = .customer then pure (.customer (buildCustomerView order delivery))
  else do
    let delivery ← getOrRaise delivery
      (notFoundError "No delivery row for this order yet." "DELIVERY_NOT_STARTED")
    pure (.internal (buildInternalView order delivery))

/-- `get_track_view`. -/
def getTrackView (user : User) (orderId : Id) : Tx TrackView := do
  let found ← loadOrder orderId
  let order ← getOrRaise found orderNotFound
  let (role, loaded) ← resolveRoleLoading user order
  raiseIf (role = .none) orderNotFound
  let delivery ← loadDelivery order.id
  viewFor role order (asLoaded loaded delivery)

/-! ### Reports of positions -/

/-- `max(delivery.distance_meters or 0, distance_meters)`, when a distance is given. -/
def farthest (delivery : Delivery) (distanceMeters : Option ℤ) : Option ℤ :=
  distanceMeters.map fun n => max (delivery.distanceMeters.getD 0) n

/-- `post_location`. -/
def postLocation (env : Env) (user : User) (orderId : Id) (lat lng : Coordinate)
    (etaSeconds distanceMeters : Option ℤ) : Tx (Order × Delivery) := do
  let found ← loadOrder orderId
  let order ← getOrRaise found orderNotFound
  let (role, loaded) ← resolveRoleLoading user order
  raiseIf (role = .none) orderNotFound
  raiseIf (role ∉ [TrackingRole.driver, .seller, .admin])
    (authorizationError
      "Only the assigned driver, the seller, or an admin may post delivery locations.")
  raiseIf (order.status ≠ .outForDelivery)
    (orderInvalidTransition
      ("Cannot post location while order status is " ++ order.status.quoted ++ "."))
  let found ← selectForUpdate (.delivery order.id) fun db => db.deliveries.get order.id
  let delivery ← getOrRaise (asLoaded loaded found)
    (orderInvalidTransition "Delivery row missing for out_for_delivery order.")
  raiseIf (delivery.status = .delivered) (orderInvalidTransition "Delivery already completed.")
  let report := Delivery.report lat lng (env.now 0) etaSeconds (farthest delivery distanceMeters)
  updateDelivery order.id report
  pure (order, report delivery)

end DeliveryTracking

end Marketplace
