import Marketplace.Order.Service

/-!
# The delivery flow and delivery tracking services

`delivery_flow_service.py` (a driver accepts, reports positions and completes with
the customer's code; the order chat) and the administrator's patch of a delivery
from `delivery_tracking_service.py`. Nothing here locks the order row: orders, codes
and deliveries are read by plain selects and written at the flush.
-/

namespace Marketplace

open Lib Txn Err

/-! ### What the delivery flow writes -/

namespace Order

def acceptByDriver (now : Time) (o : Order) : Order := { o with driverAcceptedAt := some now }

def lockCode (o : Order) : Order := { o with deliveryCodeLocked := true }

def deliverByCode (now : Time) (o : Order) : Order :=
  { o with deliveredAt := some now, status := .delivered,
           customerVisibleAfter := some (now + minutes 30) }

variable (now : Time) (o : Order)

/-- The driver's acceptance keeps the order's id. -/
@[simp] theorem acceptByDriver_id : (o.acceptByDriver now).id = o.id := rfl

/-- Locking the code keeps the order's id. -/
@[simp] theorem lockCode_id : o.lockCode.id = o.id := rfl

/-- Delivering keeps the order's id. -/
@[simp] theorem deliverByCode_id : (o.deliverByCode now).id = o.id := rfl

end Order

namespace Delivery

def giveTo (driverId : Id) (d : Delivery) : Delivery := { d with driverId := some driverId }

def moveTo (lat lng : Coordinate) (d : Delivery) : Delivery :=
  { d with currentLat := some lat, currentLng := some lng }

def patch (distanceMeters durationSeconds : Option ℤ) (d : Delivery) : Delivery :=
  { d with distanceMeters := distanceMeters.or d.distanceMeters,
           durationSeconds := durationSeconds.or d.durationSeconds }

variable (d : Delivery)

/-- Giving a delivery to a driver keeps its order. -/
@[simp] theorem giveTo_orderId (driverId : Id) : (d.giveTo driverId).orderId = d.orderId := rfl

/-- A position keeps the delivery's order. -/
@[simp] theorem moveTo_orderId (lat lng : Coordinate) : (d.moveTo lat lng).orderId = d.orderId :=
  rfl

/-- A patch keeps the delivery's order. -/
@[simp] theorem patch_orderId (distance duration : Option ℤ) :
    (d.patch distance duration).orderId = d.orderId := rfl

end Delivery

namespace DeliveryCode

def countAttempt (attemptsUsed : ℤ) (c : DeliveryCode) : DeliveryCode := { c with attemptsUsed }

def lock (attemptsUsed : ℤ) (c : DeliveryCode) : DeliveryCode :=
  { c with attemptsUsed, locked := true }

def consume (now : Time) (c : DeliveryCode) : DeliveryCode := { c with consumedAt := some now }

variable (c : DeliveryCode)

/-- Counting an attempt keeps the code's order. -/
@[simp] theorem countAttempt_orderId (attemptsUsed : ℤ) :
    (c.countAttempt attemptsUsed).orderId = c.orderId := rfl

/-- Locking a code keeps its order. -/
@[simp] theorem lock_orderId (attemptsUsed : ℤ) : (c.lock attemptsUsed).orderId = c.orderId := rfl

/-- Consuming a code keeps its order. -/
@[simp] theorem consume_orderId (now : Time) : (c.consume now).orderId = c.orderId := rfl

end DeliveryCode

/-- `_get_order_or_404` of the delivery flow: `db.get(Order, order_id)`. -/
def getOrderOr404 (orderId : Id) : Tx Order := do
  let db ← read
  let order ← getOrRaise (db.orders.get orderId) orderNotFound
  raiseIf (order.deletedAt ≠ none) orderNotFound
  pure order

namespace DeliveryFlow

/-- `_generate_code`: six decimal digits. -/
def generateCode (n : Fin 1000000) : String :=
  let digits := Nat.repr n.val
  String.ofList (List.replicate (6 - digits.length) '0') ++ digits

variable (sha256 : String → String)

/-- `_hash_code`: the hex digest of the text. -/
def hashCode (plain : String) : String := sha256 plain

/-- The driver is written to the delivery row, which is created if there is none. -/
def takeDelivery (env : Env) (driver : User) (order : Order) : Option Delivery → Tx Unit
  | none => insertDelivery
      { id := env.uuid4 0, orderId := order.id, driverId := some driver.id,
        sellerId := order.sellerId, status := .inTransit }
  | some _ => updateDelivery order.id (Delivery.giveTo driver.id)

/-- The part of `accept_order` after the check for an earlier acceptance. -/
def accept (env : Env) (driver : User) (order : Order) : Tx (Order × DeliveryCode) := do
  let db ← read
  let plain := generateCode env.randbelow
  let code : DeliveryCode :=
    { orderId := order.id, codePlain := plain, codeHash := hashCode sha256 plain,
      createdAt := env.transactionNow }
  updateOrder order.id (Order.acceptByDriver (env.now 0))
  takeDelivery env driver order (db.deliveries.get order.id)
  insertCode code
  pure (order.acceptByDriver (env.now 0), code)

/-- `accept_order`. -/
def acceptOrder (env : Env) (driver : User) (orderId : Id) : Tx (Order × DeliveryCode) := do
  raiseIf (driver.role ≠ .driver) (authorizationError "Only drivers can accept orders.")
  let order ← getOrderOr404 orderId
  let db ← read
  match order.driverAcceptedAt, db.deliveryCodes.get order.id with
  | some _, some existing => pure (order, existing)
  | _, _ => accept sha256 env driver order

/-- `record_location`. -/
def recordLocation (env : Env) (driver : User) (orderId : Id) (lat lng : Coordinate) :
    Tx OrderTrackingPoint := do
  raiseIf (driver.role ∉ [UserRole.driver, .seller, .admin])
    (authorizationError "Permission denied.")
  let order ← getOrderOr404 orderId
  let point : OrderTrackingPoint :=
    { id := env.uuid4 0, orderId := order.id,
      driverId := if driver.role = .driver then some driver.id else none, lat, lng,
      recordedAt := env.transactionNow }
  insertTrackingPoint point
  let db ← read
  if (db.deliveries.get order.id).isSome then
    updateDelivery order.id (Delivery.moveTo lat lng)
  else pure ()
  pure point

/-- What `get_route` returns. -/
structure Route where
  orderId : Id
  customerLat : Option Coordinate
  customerLng : Option Coordinate
deriving DecidableEq, Repr

/-- `GET /driver/orders/{id}/route`: the role check of the endpoint and `get_route`. -/
def getRoute (caller : User) (orderId : Id) : Tx Route := do
  raiseIf (caller.role ∉ [UserRole.driver, .admin]) (authorizationError "Driver only.")
  let order ← getOrderOr404 orderId
  pure { orderId := order.id, customerLat := order.deliveryAddress.lat,
         customerLng := order.deliveryAddress.lng }

/-- What a submitted code meets. -/
inductive CodeCheck
  | locked | wrong | right
deriving DecidableEq, Repr

/-- The two tests of `complete_delivery` on the code row. -/
def checkCode (code : DeliveryCode) (submitted : String) : CodeCheck :=
  if code.locked then .locked
  else if hashCode sha256 submitted ≠ code.codeHash then .wrong
  else .right

/-- The attempt row. -/
def attempt (env : Env) (driver : User) (orderId : Id) (submitted : String) (success : Bool) :
    DeliveryCodeAttempt :=
  { id := env.uuid4 0, orderId, driverId := some driver.id, submittedCode := submitted, success,
    attemptedAt := env.transactionNow }

/-- The wrong code: the counter, the lock and the attempt are flushed, then the error raised. -/
def refuseCode (env : Env) (driver : User) (order : Order) (code : DeliveryCode)
    (submitted : String) : Tx Order := do
  let used := code.attemptsUsed + 1
  if used ≥ 3 then do
    updateOrder order.id Order.lockCode
    updateCode order.id (DeliveryCode.lock used)
    insertCodeAttempt (attempt env driver order.id submitted false)
    raise (deliveryCodeLocked "Delivery code locked after 3 failed attempts.")
  else do
    updateCode order.id (DeliveryCode.countAttempt used)
    insertCodeAttempt (attempt env driver order.id submitted false)
    raise (deliveryCodeInvalid
      ("Incorrect code. " ++ toString (3 - used) ++ " attempts remaining.") (3 - used))

/-- The right code: the order is delivered and its chat archived. -/
def deliver (env : Env) (driver : User) (order : Order) (submitted : String) : Tx Order := do
  let db ← read
  archiveMessages (env.now 0)
    (db.orderMessages.rows.filter fun m => m.orderId = order.id ∧ m.archivedAt = none)
  updateOrder order.id (Order.deliverByCode (env.now 0))
  updateCode order.id (DeliveryCode.consume (env.now 0))
  insertCodeAttempt (attempt env driver order.id submitted true)
  pure (order.deliverByCode (env.now 0))

/-- `complete_delivery`. -/
def completeDelivery (env : Env) (driver : User) (orderId : Id) (submitted : String) :
    Tx Order := do
  raiseIf (driver.role ≠ .driver) (authorizationError "Only drivers complete deliveries.")
  let order ← getOrderOr404 orderId
  let db ← read
  let code ← getOrRaise (db.deliveryCodes.get order.id)
    (conflictError "Delivery has not been accepted yet." "DELIVERY_NOT_ACCEPTED")
  match checkCode sha256 code submitted with
  | .locked => do
    insertCodeAttempt (attempt env driver order.id submitted false)
    raise (deliveryCodeLocked "Delivery code is locked. Contact support.")
  | .wrong => refuseCode env driver order code submitted
  | .right => deliver env driver order submitted

/-- The role under which `sender` may write in the chat of `order`. -/
def chatRole (sender : User) (order : Order) (delivery : Option Delivery) : Tx SenderRole :=
  if sender.role = .admin then
    raise (authorizationError "Admins cannot post in order chats.")
  else if sender.id = order.customerId then pure .customer
  else if delivery.bind Delivery.driverId = some sender.id then pure .driver
  else raise (authorizationError "Not a participant.")

/-- `post_order_message`. -/
def postOrderMessage (env : Env) (sender : User) (orderId : Id) (ciphertext nonce : String) :
    Tx OrderMessage := do
  let order ← getOrderOr404 orderId
  raiseIf (order.driverAcceptedAt = none) (conflictError "Chat not open yet." "CHAT_NOT_OPEN")
  raiseIf (order.deliveredAt ≠ none)
    (conflictError "Chat closed — delivery completed." "CHAT_CLOSED")
  let db ← read
  let role ← chatRole sender order (db.deliveries.get order.id)
  let msg : OrderMessage :=
    { id := env.uuid4 0, orderId := order.id, senderId := some sender.id, senderRole := role,
      ciphertext, nonce, createdAt := env.transactionNow }
  insertMessage msg
  pure msg

end DeliveryFlow

namespace DeliveryTracking

/-- `load_order`. -/
def loadOrder (orderId : Id) : Tx (Option Order) := do
  let db ← read
  pure ((db.orders.get orderId).filter fun o => o.deletedAt = none)

/-- The patch of the delivery's driver, when one is given. -/
def patchDriver (orderId : Id) : Option Id → Tx Unit
  | none => pure ()
  | some driverId => do
    let driver ← OrderService.findDriver driverId
    raiseIf (driver.isNone = true) (orderInvalidTransition "Driver not found or inactive.")
    updateDelivery orderId (Delivery.giveTo driverId)

/-- `admin_patch_delivery`. -/
def adminPatchDelivery (caller : User) (orderId : Id) (driverId : Option Id)
    (distanceMeters durationSeconds : Option ℤ) : Tx (Order × Option Delivery) := do
  raiseIf (caller.role ≠ .admin) orderNotFound
  let found ← loadOrder orderId
  let order ← getOrRaise found orderNotFound
  let delivery ← selectForUpdate (.delivery order.id) fun db => db.deliveries.get order.id
  raiseIf (delivery.isNone = true) orderNotFound
  patchDriver order.id driverId
  updateDelivery order.id (Delivery.patch distanceMeters durationSeconds)
  let db ← read
  pure (order, db.deliveries.get order.id)

end DeliveryTracking

end Marketplace
