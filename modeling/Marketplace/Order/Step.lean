import Mathlib.Data.Nat.Pairing
import Marketplace.Order.Flow

/-!
# Requests about orders

One type for every request the order, delivery flow and delivery tracking services
serve, and the state of the server between requests. A request runs in a session of
its own, which commits when the endpoint returns and rolls back when it raises.
-/

namespace Marketplace

open Lib

/-- The operations of the order, delivery flow and delivery tracking services. -/
inductive Op
  | createOrder (items : List OrderService.LineItem) (deliveryAddress : Address)
  | acceptOrder (orderId : Id)
  | markPreparing (orderId : Id)
  | chooseSelfDelivery (orderId : Id)
  | requestDriver (orderId : Id)
  | assignDriver (orderId driverId : Id)
  | outForDelivery (orderId : Id)
  | markDelivered (orderId : Id)
  | completeOrder (orderId : Id)
  | cancelOrder (orderId : Id) (reason : Option String)
  | deleteOrder (orderId : Id)
  | runPurgeJob
  | updateRetentionSettings (retentionMinDays orderAutoCompleteGraceHours : Option ℤ)
  /-- The driver's acceptance, of the delivery flow. -/
  | driverAccept (orderId : Id)
  | recordLocation (orderId : Id) (lat lng : Coordinate)
  | getRoute (orderId : Id)
  | completeDelivery (orderId : Id) (submitted : String)
  | postOrderMessage (orderId : Id) (ciphertext nonce : String)
  | adminPatchDelivery (orderId : Id) (driverId : Option Id)
      (distanceMeters durationSeconds : Option ℤ)
deriving DecidableEq

/-- What a request returns. -/
inductive Reply
  | order (o : OrderFull)
  | deleted
  | purged (r : OrderService.PurgeResult)
  | settings (ps : PlatformSettings)
  | accepted (o : Order) (code : DeliveryCode)
  | location (p : OrderTrackingPoint)
  | route (r : DeliveryFlow.Route)
  | delivered (o : Order)
  | message (m : OrderMessage)
  | delivery (o : Order) (d : Option Delivery)
deriving DecidableEq

/-- A request: who calls what, and what the clock and the random source give it. -/
structure Call where
  caller : User
  op : Op
  now : ℕ → Time
  transactionNow : Time
  randbelow : Fin 1000000 := 0

section

variable (sha256 : String → String)

/-- The transaction that serves a request. -/
def Op.exec (op : Op) (env : Env) (caller : User) : Tx Reply :=
  match op with
  | .createOrder items address => do
    return .order (← OrderService.createOrder env caller items address)
  | .acceptOrder o => do return .order (← OrderService.acceptOrder env caller o)
  | .markPreparing o => do return .order (← OrderService.markPreparing env caller o)
  | .chooseSelfDelivery o => do return .order (← OrderService.chooseSelfDelivery env caller o)
  | .requestDriver o => do return .order (← OrderService.requestDriver env caller o)
  | .assignDriver o driver => do return .order (← OrderService.assignDriver env caller o driver)
  | .outForDelivery o => do return .order (← OrderService.outForDelivery env caller o)
  | .markDelivered o => do return .order (← OrderService.markDelivered env caller o)
  | .completeOrder o => do return .order (← OrderService.completeOrder env caller o)
  | .cancelOrder o reason => do return .order (← OrderService.cancelOrder env caller o reason)
  | .deleteOrder o => do
    OrderService.deleteOrder env caller o
    return .deleted
  | .runPurgeJob => do return .purged (← OrderService.runPurgeJob env)
  | .updateRetentionSettings retention grace => do
    return .settings (← OrderService.updateRetentionSettings env caller retention grace)
  | .driverAccept o => do
    let (order, code) ← DeliveryFlow.acceptOrder sha256 env caller o
    return .accepted order code
  | .recordLocation o lat lng => do
    return .location (← DeliveryFlow.recordLocation env caller o lat lng)
  | .getRoute o => do return .route (← DeliveryFlow.getRoute caller o)
  | .completeDelivery o submitted => do
    return .delivered (← DeliveryFlow.completeDelivery sha256 env caller o submitted)
  | .postOrderMessage o ciphertext nonce => do
    return .message (← DeliveryFlow.postOrderMessage env caller o ciphertext nonce)
  | .adminPatchDelivery o driver distance duration => do
    let (order, delivery) ← DeliveryTracking.adminPatchDelivery caller o driver distance duration
    return .delivery order delivery

/-- The server between two requests. -/
structure World where
  db : Db
  /-- The number of requests served so far, which makes the draws of `uuid4` fresh. -/
  served : ℕ := 0

/-- The surroundings of the next request. -/
def World.env (w : World) (c : Call) : Env :=
  { now := c.now, transactionNow := c.transactionNow, uuid4 := fun i => Nat.pair w.served i,
    randbelow := c.randbelow }

/-- The next request, in its own session. -/
def World.respond (w : World) (c : Call) : Except Err Reply × Db :=
  (c.op.exec sha256 (w.env c) c.caller).session w.db

/-- The server after the next request. -/
def World.serve (w : World) (c : Call) : World :=
  { db := (w.respond sha256 c).2, served := w.served + 1 }

end

end Marketplace
