import Marketplace.Lib.Alike
import Marketplace.Order.Chat
import Marketplace.Order.Gating
import Marketplace.Order.Response

/-!
# The secrecy of the delivery codes

The customer alone is shown the code that completes the delivery. The endpoints of
`delivery_flow.py` are modelled with what they show, and two servers are compared that draw
different codes: whatever the requests and however they interleave, the two answer the same to
everyone whom the code is not meant for, as long as no submitted code tells the draws apart.
-/

namespace Marketplace

open Lib Txn OrderService DeliveryFlow DeliveryTracking

/-! ### What the endpoints show -/

/-- `AcceptOrderResponse`, without the field that stays `None`. -/
structure AcceptOrderResponse where
  orderId : Id
  driverAcceptedAt : Option Time
deriving DecidableEq, Repr

/-- `CustomerCodeResponse`. -/
structure CustomerCodeResponse where
  orderId : Id
  code : String
  locked : Bool
  attemptsUsed : ℤ
deriving DecidableEq, Repr

namespace DeliveryFlow

/-- `get_delivery_code_for_customer`. -/
def getDeliveryCodeForCustomer (customer : User) (orderId : Id) : Tx DeliveryCode := do
  let order ← getOrderOr404 orderId
  raiseIf (order.customerId ≠ customer.id ∧ customer.role ≠ .admin) Err.orderNotFound
  let db ← read
  let unavailable := Err.notFoundError "Delivery code not available." "CODE_NOT_AVAILABLE"
  let code ← getOrRaise (db.deliveryCodes.get order.id) unavailable
  raiseIf (order.driverAcceptedAt = none ∨ order.deliveredAt ≠ none) unavailable
  pure code

/-- `customer_code`, of the router. -/
def customerCode (caller : User) (orderId : Id) : Tx CustomerCodeResponse := do
  let code ← getDeliveryCodeForCustomer caller orderId
  pure { orderId := code.orderId, code := code.codePlain, locked := code.locked,
         attemptsUsed := code.attemptsUsed }

/-- `list_tracking_points`. -/
def listTrackingPoints (orderId : Id) : Tx (List OrderTrackingPoint) := do
  let db ← read
  pure ((db.orderTrackingPoints.rows.filter fun p => p.orderId = orderId).mergeSort
    fun p q => p.recordedAt ≤ q.recordedAt)

/-- `get_current_admin`. -/
def getCurrentAdmin (caller : User) : Tx Unit :=
  raiseIf (caller.role ≠ .admin) (Err.authorizationError
    ("Role " ++ reprText caller.role.label ++
      " is not authorized for this endpoint. Required: ['admin']."))

/-- `admin_tracking`, of the router. -/
def adminTracking (caller : User) (orderId : Id) : Tx (List OrderTrackingPoint) := do
  getCurrentAdmin caller
  listTrackingPoints orderId

/-- `admin_messages`, of the router. -/
def adminMessages (caller : User) (orderId : Id) : Tx (List OrderMessage) := do
  getCurrentAdmin caller
  listOrderMessages orderId true

end DeliveryFlow

/-- A request about orders, to the services or to the endpoints that only read. -/
inductive FlowRequest
  | service (c : ServiceCall)
  | listOrders (now : Time) (caller : User) (status : Option String) (limit : ℤ)
  | getOrder (caller : User) (orderId : Id)
  | customerCode (caller : User) (orderId : Id)
  | listChat (caller : User) (orderId : Id)
  | adminTracking (caller : User) (orderId : Id)
  | adminMessages (caller : User) (orderId : Id)

/-- What an endpoint answers. -/
inductive FlowReply
  | service (r : ServiceReply)
  | accepted (r : AcceptOrderResponse)
  | orders (rs : List OrderResponse)
  | code (r : CustomerCodeResponse)
  | chat (ms : List OrderMessage)
  | tracking (ps : List OrderTrackingPoint)

/-- The endpoint of an acceptance shows the order only. -/
def FlowReply.ofService : ServiceReply → FlowReply
  | .reply (.accepted order _) =>
    .accepted { orderId := order.id, driverAcceptedAt := order.driverAcceptedAt }
  | r => .service r

/-- An answer without the text of the code. -/
def FlowReply.withoutCode : FlowReply → FlowReply
  | .code r => .code { r with code := "" }
  | r => r

namespace FlowRequest

/-- The transaction that serves a request. -/
def exec (sha256 : String → String) : FlowRequest → Tx FlowReply
  | .service c => do return .ofService (← c.exec sha256)
  | .listOrders now caller status limit => do
    return .orders (← OrdersRouter.listOrders now caller status limit)
  | .getOrder caller o => do return .orders [OrdersRouter.render (← getOrderForCaller caller o)]
  | .customerCode caller o => do return .code (← DeliveryFlow.customerCode caller o)
  | .listChat caller o => do return .chat (← DeliveryFlow.listChat caller o)
  | .adminTracking caller o => do return .tracking (← DeliveryFlow.adminTracking caller o)
  | .adminMessages caller o => do return .chat (← DeliveryFlow.adminMessages caller o)

/-- The same request, whose transaction draws `n`. -/
def drawing (n : Fin 1000000) : FlowRequest → FlowRequest
  | .service (.call q) => .service (.call { q with env := { q.env with randbelow := n } })
  | q => q

/-- The request submits the code `g` for the order `o`. -/
def Submits (q : FlowRequest) (o : Id) (g : String) : Prop :=
  ∃ caller env, q = .service (.call ⟨caller, .completeDelivery o g, env⟩)

/-- The request is a driver's acceptance of the order `o`. -/
def Accepts (q : FlowRequest) (o : Id) : Prop :=
  ∃ caller env, q = .service (.call ⟨caller, .driverAccept o, env⟩)

/-- The request places the order `o` for the customer `u`. -/
def Places (q : FlowRequest) (o u : Id) : Prop :=
  ∃ caller items address env, q = .service (.call ⟨caller, .createOrder items address, env⟩) ∧
    env.uuid4 0 = o ∧ caller.id = u

end FlowRequest

/-! ### Databases with the same rows but other codes -/

/-- The database with other delivery codes. -/
def Db.withCodes (db : Db) (codes : Table DeliveryCode DeliveryCode.orderId) : Db :=
  { db with deliveryCodes := codes }

/-- The codes may differ in their text and its hash, but no text that is submitted tells them
apart. -/
structure CodeAlike (sha256 : String → String) (submitted : String → Prop)
    (c c' : DeliveryCode) : Prop where
  same : c' = { c with codePlain := c'.codePlain, codeHash := c'.codeHash }
  untold : ∀ g, submitted g → (hashCode sha256 g = c.codeHash ↔ hashCode sha256 g = c'.codeHash)

/-- The codes of each order are alike. -/
def CodesAlike (sha256 : String → String) (submitted : Id → String → Prop)
    (codes codes' : Table DeliveryCode DeliveryCode.orderId) : Prop :=
  ∀ o, Option.Rel (CodeAlike sha256 (submitted o)) (codes.get o) (codes'.get o)

/-- The databases are the same but for the codes, and `placed` names the customer of each order. -/
structure SameButCodes (sha256 : String → String) (submitted : Id → String → Prop)
    (placed : Id → Id → Prop) (s t : Db) : Prop where
  same : ∃ codes, t = s.withCodes codes ∧ CodesAlike sha256 submitted s.deliveryCodes codes
  placed : ∀ o x, s.orders.get o = some x → placed o x.customerId

/-- The program does not depend on the codes. -/
abbrev Unaware {α : Type} (sha256 : String → String) (submitted : Id → String → Prop)
    (placed : Id → Id → Prop) (p : Tx α) : Prop :=
  p.Blind (SameButCodes sha256 submitted placed)

section Blind

variable {sha256 : String → String} {submitted : Id → String → Prop} {placed : Id → Id → Prop}
  {α β : Type} {s t : Db}

/-- What depends on nothing but the codes' being there is the same. -/
theorem SameButCodes.induct {P : Db → Db → Prop}
    (h : ∀ s codes, CodesAlike sha256 submitted s.deliveryCodes codes →
      (∀ o x, s.orders.get o = some x → placed o x.customerId) → P s (s.withCodes codes)) :
    ∀ s t, SameButCodes sha256 submitted placed s t → P s t := by
  rintro s _ ⟨⟨codes, rfl, hcodes⟩, hplaced⟩
  exact h s codes hcodes hplaced

/-- A write that keeps the customers of the orders. -/
theorem sameButCodes_orders {f : Db → Db}
    (hf : ∀ s codes, f (s.withCodes codes) = (f s).withCodes codes)
    (horders : ∀ s, (∀ o x, s.orders.get o = some x → placed o x.customerId) →
      ∀ o x, (f s).orders.get o = some x → placed o x.customerId) (s t : Db)
    (h : SameButCodes sha256 submitted placed s t) :
    SameButCodes sha256 submitted placed (f s) (f t) := by
  obtain ⟨⟨codes, rfl, hcodes⟩, hplaced⟩ := h
  have hsame : (f s).deliveryCodes = s.deliveryCodes := by
    have hself : s = s.withCodes s.deliveryCodes := rfl
    rw [hself, hf]
    rfl
  exact ⟨⟨codes, hf s codes, hsame ▸ hcodes⟩, horders s hplaced⟩

/-- A write that neither touches the codes nor the orders. -/
theorem sameButCodes_write {f : Db → Db}
    (hf : ∀ s codes, f (s.withCodes codes) = (f s).withCodes codes)
    (horders : ∀ s, (f s).orders = s.orders) (s t : Db)
    (h : SameButCodes sha256 submitted placed s t) :
    SameButCodes sha256 submitted placed (f s) (f t) :=
  sameButCodes_orders hf (fun s hplaced => by rw [horders]; exact hplaced) s t h

/-- A statement whose rows are not codes. -/
theorem blind_read {f : Db → Tx α} (hf : ∀ s codes, f (s.withCodes codes) = f s)
    (h : ∀ s, Unaware sha256 submitted placed (f s)) :
    Unaware sha256 submitted placed ((read : Tx Db) >>= f) := by
  refine Alike.read_bind (SameButCodes.induct fun s codes _ _ => ?_)
  rw [hf]
  exact h s

/-- A lock tells nothing about the codes, whatever comes after it. -/
theorem blind_acquire {key : Key} {f : Db → Tx α} (hf : ∀ s codes, f (s.withCodes codes) = f s)
    (h : ∀ s, Unaware sha256 submitted placed (f s)) :
    Unaware sha256 submitted placed ((acquire key : Tx Db) >>= f) := by
  refine Alike.lock (SameButCodes.induct fun s codes _ _ => ?_)
  change (f s).Alike _ Eq (f (s.withCodes codes))
  rw [hf]
  exact h s

/-- An `UPDATE` that does not depend on the codes and leaves the orders as they are. -/
theorem blind_updateRow {key : Key} {f : Db → Db}
    (hf : ∀ s codes, f (s.withCodes codes) = (f s).withCodes codes)
    (horders : ∀ s, (f s).orders = s.orders) :
    Unaware sha256 submitted placed (updateRow key f) :=
  .updateRow (sameButCodes_write hf horders)

/-- An insertion whose constraint does not depend on the codes. -/
theorem blind_insertRow {key : Key} {taken : Db → Bool} {constraint : String} {put : Db → Db}
    (htaken : ∀ s codes, taken (s.withCodes codes) = taken s)
    (hput : ∀ s t, SameButCodes sha256 submitted placed s t →
      SameButCodes sha256 submitted placed (put s) (put t)) :
    Unaware sha256 submitted placed (insertRow key taken constraint put) := by
  refine blind_acquire (fun s codes => by rw [htaken]) fun s => ?_
  exact .bind (.raiseIf _ _) fun _ => .write hput (.ret rfl)

/-- A locking `SELECT` of anything but the codes. -/
theorem blind_selectForUpdate {ρ : Type} {key : Key} {get : Db → Option ρ}
    (hget : ∀ s codes, get (s.withCodes codes) = get s) :
    Unaware sha256 submitted placed (selectForUpdate key get) := by
  refine blind_read (fun s codes => by rw [hget]) fun s => ?_
  cases get s with
  | none => exact .pure _
  | some r => exact blind_acquire (fun s codes => by rw [hget]) fun _ => .pure _

/-- A query whose rows are known. -/
theorem blind_scalarOneOrNone {ρ : Type} (rows : List ρ) :
    Unaware sha256 submitted placed (scalarOneOrNone rows) := by
  rcases rows with _ | ⟨a, _ | ⟨b, rest⟩⟩
  · exact .pure _
  · exact .pure _
  · exact .raise _

/-- The driver's checks of the parameters. -/
theorem blind_encode (integers bigints : List ℤ) :
    Unaware sha256 submitted placed (encode integers bigints) := .raiseIf _ _

end Blind

/-! ### The statements -/

section Statements

variable {sha256 : String → String} {submitted : Id → String → Prop} {placed : Id → Id → Prop}
  {α : Type} {s t : Db}

/-- An order is edited without a look at its code. -/
theorem unaware_updateOrder {target : Option OrderStatus} {f : Order → Order}
    (hf : OrderEdit target f) (id : Id) : Unaware sha256 submitted placed (updateOrder id f) := by
  refine .updateRow (sameButCodes_orders (fun _ _ => rfl) fun s hplaced o y hy => ?_)
  have hget : (s.modifyOrder id f).orders.get o = _ := Table.get_modify s.orders id hf.id o
  rw [hget] at hy
  split at hy
  · obtain ⟨x, hx, rfl⟩ := Option.map_eq_some_iff.mp hy
    rw [hf.customerId]
    exact hplaced o x hx
  · exact hplaced o y hy

/-- A new order belongs to the customer who has placed it, on both servers. -/
theorem unaware_insertOrder {x : Order} (hx : placed x.id x.customerId) :
    Unaware sha256 submitted placed (insertOrder x) := by
  refine .bind (blind_encode _ _) fun _ => blind_insertRow (fun _ _ => rfl)
    (sameButCodes_orders (fun _ _ => rfl) fun s hplaced o y hy => ?_)
  have hget : (s.addOrder x).orders.get o = _ := Table.get_insert_or s.orders x o
  rw [hget] at hy
  cases hold : s.orders.get o with
  | none =>
    rw [hold] at hy
    split at hy
    · next ho =>
      obtain rfl := Option.some.inj hy
      rw [ho]
      exact hx
    · cases hy
  | some z =>
    rw [hold] at hy
    split at hy
    · obtain rfl := Option.some.inj hy
      exact hplaced o z hold
    · obtain rfl := Option.some.inj hy
      exact hplaced o z hold

/-- The code of an order goes with its row. -/
theorem unaware_deleteOrderRow (id : Id) :
    Unaware sha256 submitted placed (deleteOrderRow id) := by
  refine .updateRow fun s t h => ?_
  obtain ⟨⟨codes, rfl, hcodes⟩, hplaced⟩ := h
  refine ⟨⟨codes.delete fun c => c.orderId = id, rfl, fun o => ?_⟩, fun o y hy => ?_⟩
  · have hget : (s.removeOrder id).deliveryCodes.get o = _ := Table.get_delete s.deliveryCodes _ o
    rw [hget, Table.get_delete codes]
    have hsame := hcodes o
    revert hsame
    cases hcode : s.deliveryCodes.get o with
    | none =>
      cases codes.get o with
      | none => exact fun h => h
      | some c' =>
        intro h
        cases h
    | some c =>
      cases codes.get o with
      | none =>
        intro h
        cases h
      | some c' =>
        intro hsame
        cases hsame with
        | some hc =>
          have hid : c'.orderId = c.orderId := by rw [hc.same]
          simp only [Option.filter, hid]
          split
          · exact .some hc
          · exact .none
  · have hget : (s.removeOrder id).orders.get o = _ := Table.get_delete s.orders _ o
    rw [hget] at hy
    exact hplaced o y (Option.filter_eq_some_iff.mp hy).1

/-- A delivery is edited without a look at the code. -/
theorem unaware_updateDelivery (o : Id) (f : Delivery → Delivery) :
    Unaware sha256 submitted placed (updateDelivery o f) :=
  blind_updateRow (fun _ _ => rfl) fun _ => rfl

/-- A delivery is inserted without a look at the code. -/
theorem unaware_insertDelivery (d : Delivery) :
    Unaware sha256 submitted placed (insertDelivery d) :=
  blind_insertRow (fun _ _ => rfl) (sameButCodes_write (fun _ _ => rfl) fun _ => rfl)

/-- An assignment is edited without a look at the code. -/
theorem unaware_updateAssignment (id : Id) (f : DriverAssignment → DriverAssignment) :
    Unaware sha256 submitted placed (updateAssignment id f) :=
  blind_updateRow (fun _ _ => rfl) fun _ => rfl

/-- An assignment is inserted without a look at the code. -/
theorem unaware_insertAssignment (a : DriverAssignment) :
    Unaware sha256 submitted placed (insertAssignment a) :=
  blind_insertRow (fun _ _ => rfl) (sameButCodes_write (fun _ _ => rfl) fun _ => rfl)

/-- Assignments are locked without a look at the code. -/
theorem unaware_lockAssignments (as : List DriverAssignment) :
    Unaware sha256 submitted placed (lockAssignments as) := by
  induction as with
  | nil => exact .pure _
  | cons a as ih => exact blind_acquire (fun _ _ => rfl) fun _ => .bind ih fun _ => .pure _

/-- Products are locked without a look at any code. -/
theorem unaware_lockProducts (ids : List Id) :
    Unaware sha256 submitted placed (lockProducts ids) := by
  induction ids with
  | nil => exact .pure _
  | cons id ids ih => exact blind_acquire (fun _ _ => rfl) fun _ => .bind ih fun _ => .pure _

/-- Which orders are skipped depends on locks alone. -/
theorem unaware_skipLockedOrders (p : Order → Bool) (ids : List Id) :
    Unaware sha256 submitted placed (skipLockedOrders p ids) := by
  induction ids with
  | nil => exact .pure _
  | cons id ids ih =>
    have hrest : ∀ found : Option Order, Unaware sha256 submitted placed (do
        let rest ← skipLockedOrders p ids
        pure ((found.filter p).toList ++ rest)) := fun _ => .bind ih fun _ => .pure _
    exact .skipLocked (SameButCodes.induct fun s _ _ _ => hrest (s.orders.get id)) (hrest none)

/-- Messages are archived without a look at the code. -/
theorem unaware_archiveMessages (now : Time) (ms : List OrderMessage) :
    Unaware sha256 submitted placed (archiveMessages now ms) := by
  induction ms with
  | nil => exact .pure _
  | cons m ms ih => exact .bind (blind_updateRow (fun _ _ => rfl) fun _ => rfl) fun _ => ih

end Statements

/-! ### The order service -/

section OrderService

variable {sha256 : String → String} {submitted : Id → String → Prop} {placed : Id → Id → Prop}
  {env : Env} {caller : User} {o : Id}

/-- The locked order row has no code. -/
theorem unaware_loadOrderLocked : Unaware sha256 submitted placed (loadOrderLocked o) :=
  blind_selectForUpdate fun _ _ => rfl

/-- The order with its items and delivery has no code. -/
theorem unaware_loadOrderFull : Unaware sha256 submitted placed (loadOrderFull o) :=
  blind_read (fun _ _ => rfl) fun _ => .pure _

/-- Neither has the answer about an order. -/
theorem unaware_loaded : Unaware sha256 submitted placed (loaded o) :=
  .bind unaware_loadOrderFull fun _ => .getOrRaise _ _

/-- The profile of the caller has no code. -/
theorem unaware_getCallerSeller : Unaware sha256 submitted placed (getCallerSeller caller) :=
  blind_read (fun _ _ => rfl) fun _ => .bind (blind_scalarOneOrNone _) fun _ => .getOrRaise _ _

/-- A seller's order is locked and checked without a look at its code. -/
theorem unaware_lockOrderOr404 : Unaware sha256 submitted placed (lockOrderOr404 o caller) :=
  .bind unaware_loadOrderLocked fun _ => .bind (.getOrRaise _ _) fun _ =>
    .bind (.raiseIf _ _) fun _ => .bind (.raiseIf _ _) fun _ => .bind (.raiseIf _ _) fun _ =>
    .pure _

/-- The lines of a request come from the products. -/
theorem unaware_resolveLines (products : List Product) (qty : List (Id × ℤ)) :
    Unaware sha256 submitted placed (resolveLines products qty) := by
  induction qty with
  | nil => exact .pure _
  | cons q qty ih => exact .bind (.getOrRaise _ _) fun _ => .bind ih fun _ => .pure _

/-- The checks of the lines look at products. -/
theorem unaware_checkLines (lines : List (Product × ℤ)) :
    Unaware sha256 submitted placed (checkLines lines) := by
  induction lines with
  | nil => exact .pure _
  | cons line lines ih => exact .bind (.raiseIf _ _) fun _ => .bind (.raiseIf _ _) fun _ => ih

/-- The stock is no code. -/
theorem unaware_decrementStock (lines : List (Product × ℤ)) :
    Unaware sha256 submitted placed (decrementStock lines) := by
  induction lines with
  | nil => exact .pure _
  | cons line lines ih =>
    unfold decrementStock
    split
    · exact ih
    · refine .bind ?_ fun _ => ih
      exact .bind (blind_encode _ _) fun _ => .bind (.raiseIf _ _) fun _ =>
        blind_updateRow (fun _ _ => rfl) fun _ => rfl

/-- The items of an order are inserted without a look at its code. -/
theorem unaware_insertItems (i : ℕ) (lines : List (Product × ℤ)) :
    Unaware sha256 submitted placed (insertItems env o i lines) := by
  induction lines generalizing i with
  | nil => exact .pure _
  | cons line lines ih =>
    refine .bind ?_ fun _ => ih (i + 1)
    exact .bind (blind_encode _ _) fun _ => .bind (.raiseIf _ _) fun _ =>
      blind_insertRow (fun _ _ => rfl) (sameButCodes_write (fun _ _ => rfl) fun _ => rfl)

/-- `create_order`, by the customer for whom the draw of the identifier stands. -/
theorem unaware_createOrder {items : List LineItem} {address : Address}
    (h : placed (env.uuid4 0) caller.id) :
    Unaware sha256 submitted placed (createOrder env caller items address) :=
  .bind (.raiseIf _ _) fun _ => .bind (.raiseIf _ _) fun _ => .bind (.getOrRaise _ _) fun _ =>
    blind_read (fun _ _ => rfl) fun _ => .bind (unaware_lockProducts _) fun _ =>
    .bind (.raiseIf _ _) fun _ => .bind (.raiseIf _ _) fun _ =>
    .bind (unaware_resolveLines _ _) fun _ => .bind (unaware_checkLines _) fun _ =>
    .bind (unaware_decrementStock _) fun _ => .bind (.getOrRaise _ _) fun _ =>
    .bind (unaware_insertOrder h) fun _ => .bind (unaware_insertItems _ _) fun _ => unaware_loaded

/-- `accept_order` of the order service, which makes no code. -/
theorem unaware_acceptOrder :
    Unaware sha256 submitted placed (OrderService.acceptOrder env caller o) :=
  .bind (.raiseIf _ _) fun _ => .bind unaware_lockOrderOr404 fun _ => .bind (.raiseIf _ _) fun _ =>
    .bind (unaware_updateOrder orderEdit_accept _) fun _ => unaware_loaded

/-- `mark_preparing`. -/
theorem unaware_markPreparing : Unaware sha256 submitted placed (markPreparing env caller o) :=
  .bind (.raiseIf _ _) fun _ => .bind unaware_lockOrderOr404 fun _ => .bind (.raiseIf _ _) fun _ =>
    .bind (unaware_updateOrder orderEdit_prepare _) fun _ => unaware_loaded

/-- Whether the fulfilment is open depends on delivery and assignments. -/
theorem unaware_ensureFulfillmentOpen :
    Unaware sha256 submitted placed (ensureFulfillmentOpen o) :=
  blind_read (fun _ _ => rfl) fun _ => .bind (.raiseIf _ _) fun _ =>
    blind_read (fun _ _ => rfl) fun _ => .bind (blind_scalarOneOrNone _) fun _ => .raiseIf _ _

/-- `choose_self_delivery`. -/
theorem unaware_chooseSelfDelivery :
    Unaware sha256 submitted placed (chooseSelfDelivery env caller o) :=
  .bind (.raiseIf _ _) fun _ => .bind unaware_lockOrderOr404 fun _ => .bind (.raiseIf _ _) fun _ =>
    .bind unaware_ensureFulfillmentOpen fun _ => .bind unaware_getCallerSeller fun _ =>
    .bind (unaware_insertDelivery _) fun _ => unaware_loaded

/-- `request_driver`. -/
theorem unaware_requestDriver :
    Unaware sha256 submitted placed (OrderService.requestDriver env caller o) :=
  .bind (.raiseIf _ _) fun _ => .bind unaware_lockOrderOr404 fun _ => .bind (.raiseIf _ _) fun _ =>
    .bind unaware_ensureFulfillmentOpen fun _ => .bind unaware_getCallerSeller fun _ =>
    .bind (unaware_insertAssignment _) fun _ => unaware_loaded

/-- The driver is looked up among the users. -/
theorem unaware_findDriver (driverId : Id) :
    Unaware sha256 submitted placed (findDriver driverId) :=
  blind_read (fun _ _ => rfl) fun _ => .pure _

/-- `assign_driver`. -/
theorem unaware_assignDriver (driverId : Id) :
    Unaware sha256 submitted placed (assignDriver env caller o driverId) :=
  .bind (.raiseIf _ _) fun _ => .bind unaware_lockOrderOr404 fun _ => .bind (.raiseIf _ _) fun _ =>
    .bind (unaware_findDriver _) fun _ => .bind (.raiseIf _ _) fun _ =>
    blind_read (fun _ _ => rfl) fun _ => .bind (unaware_lockAssignments _) fun _ =>
    .bind (.getOrRaise _ _) fun _ => .bind (.raiseIf _ _) fun _ =>
    .bind (unaware_updateAssignment _ _) fun _ => unaware_loaded

/-- The start of a delivery, by which nobody learns the code. -/
theorem unaware_startDelivery (order : Order) (delivery : Option Delivery) :
    Unaware sha256 submitted placed (startDelivery env caller order delivery) := by
  cases delivery with
  | none =>
    exact blind_read (fun _ _ => rfl) fun _ => .bind (blind_scalarOneOrNone _) fun _ =>
      .bind (.getOrRaise _ _) fun _ => .bind (.raiseIf _ _) fun _ => .bind (.raiseIf _ _) fun _ =>
      unaware_insertDelivery _
  | some d =>
    exact .bind (.raiseIf _ _) fun _ => .bind (.raiseIf _ _) fun _ => .bind (.raiseIf _ _) fun _ =>
      unaware_updateDelivery _ _

/-- `out_for_delivery`. -/
theorem unaware_outForDelivery :
    Unaware sha256 submitted placed (OrderService.outForDelivery env caller o) :=
  .bind (.raiseIf _ _) fun _ => .bind unaware_lockOrderOr404 fun _ => .bind (.raiseIf _ _) fun _ =>
    .bind (.raiseIf _ _) fun _ => .bind (blind_selectForUpdate fun _ _ => rfl) fun _ =>
    .bind (unaware_startDelivery _ _) fun _ =>
    .bind (unaware_updateOrder orderEdit_sendOut _) fun _ => unaware_loaded

/-- `mark_delivered`, which asks for no code. -/
theorem unaware_markDelivered : Unaware sha256 submitted placed (markDelivered env caller o) :=
  .bind (.raiseIf _ _) fun _ => .bind unaware_lockOrderOr404 fun _ => .bind (.raiseIf _ _) fun _ =>
    .bind (blind_selectForUpdate fun _ _ => rfl) fun _ => .bind (.getOrRaise _ _) fun _ =>
    .bind (.raiseIf _ _) fun _ => .bind (.raiseIf _ _) fun _ => .bind (.raiseIf _ _) fun _ =>
    .bind (unaware_updateOrder orderEdit_deliver _) fun _ =>
    .bind (unaware_updateDelivery _ _) fun _ => unaware_loaded

/-- A snapshot is made of the order alone. -/
theorem unaware_writeSnapshot (i : ℕ) (order : Order) :
    Unaware sha256 submitted placed (writeSnapshot env i order) :=
  blind_read (fun _ _ => rfl) fun _ => blind_updateRow (fun _ _ => rfl) fun _ => rfl

/-- `complete_order`, which asks for no code. -/
theorem unaware_completeOrder : Unaware sha256 submitted placed (completeOrder env caller o) :=
  .bind (.raiseIf _ _) fun _ => .bind unaware_lockOrderOr404 fun _ => .bind (.raiseIf _ _) fun _ =>
    .bind (unaware_updateOrder orderEdit_complete _) fun _ =>
    .bind (unaware_writeSnapshot _ _) fun _ => unaware_loaded

/-- Assignments are cancelled without a look at the code. -/
theorem unaware_cancelAssignments (as : List DriverAssignment) :
    Unaware sha256 submitted placed (cancelAssignments as) := by
  induction as with
  | nil => exact .pure _
  | cons a as ih => exact .bind (unaware_updateAssignment _ _) fun _ => ih

/-- Who may cancel depends on role and status. -/
theorem unaware_ensureMayCancel (status : OrderStatus) :
    Unaware sha256 submitted placed (ensureMayCancel caller status) := by
  unfold ensureMayCancel
  split
  · exact .raiseIf _ _
  · exact .raiseIf _ _
  · exact .pure _
  · exact .raise _

/-- `cancel_order`. -/
theorem unaware_cancelOrder (reason : Option String) :
    Unaware sha256 submitted placed (cancelOrder env caller o reason) :=
  .bind unaware_lockOrderOr404 fun _ => .bind (.raiseIf _ _) fun _ =>
    .bind (unaware_ensureMayCancel _) fun _ => blind_read (fun _ _ => rfl) fun _ =>
    .bind (unaware_lockAssignments _) fun _ =>
    .bind (unaware_updateOrder orderEdit_cancel _) fun _ =>
    .bind (unaware_cancelAssignments _) fun _ => unaware_loaded

/-- The settings have no code. -/
theorem unaware_getRetentionSettings :
    Unaware sha256 submitted placed (getRetentionSettings env) := by
  refine blind_read (fun _ _ => rfl) fun db => ?_
  cases db.platformSettings with
  | none => exact .bind (blind_updateRow (fun _ _ => rfl) fun _ => rfl) fun _ => .pure _
  | some ps => exact .pure _

/-- `delete_order`, which takes the code along unread. -/
theorem unaware_deleteOrder : Unaware sha256 submitted placed (deleteOrder env caller o) := by
  refine .bind unaware_loadOrderLocked fun _ => .bind (.getOrRaise _ _) fun _ =>
    .bind (.raiseIf _ _) fun _ => .bind (.raiseIf _ _) fun _ => .bind (.raiseIf _ _) fun _ =>
    .bind (.raiseIf _ _) fun _ => .bind (.getOrRaise _ _) fun _ =>
    .bind unaware_getRetentionSettings fun _ => .bind (.raiseIf _ _) fun _ => ?_
  exact .ite (.bind (unaware_writeSnapshot _ _) fun _ => unaware_deleteOrderRow _)
    (unaware_deleteOrderRow _)

/-- The job completes orders without a look at their codes. -/
theorem unaware_autoComplete (now : Time) (i : ℕ) (orders : List Order) :
    Unaware sha256 submitted placed (autoComplete env now i orders) := by
  induction orders generalizing i with
  | nil => exact .pure _
  | cons order orders ih =>
    refine .ite (ih i) ?_
    exact .bind (unaware_updateOrder orderEdit_complete _) fun _ =>
      .bind (unaware_writeSnapshot _ _) fun _ => .bind (ih (i + 1)) fun _ => .pure _

/-- The job deletes orders with their codes, unread. -/
theorem unaware_purge (i : ℕ) (orders : List Order) :
    Unaware sha256 submitted placed (purge env i orders) := by
  induction orders generalizing i with
  | nil => exact .pure _
  | cons order orders ih =>
    have hrest : Unaware sha256 submitted placed (do
        deleteOrderRow order.id
        let n ← purge env (i + 1) orders
        pure (n + 1)) :=
      .bind (unaware_deleteOrderRow _) fun _ => .bind (ih (i + 1)) fun _ => .pure _
    exact .ite (.bind (unaware_writeSnapshot _ _) fun _ => hrest) hrest

/-- `run_purge_job`. -/
theorem unaware_runPurgeJob : Unaware sha256 submitted placed (runPurgeJob env) :=
  .bind unaware_getRetentionSettings fun _ => blind_read (fun _ _ => rfl) fun _ =>
    .bind (unaware_skipLockedOrders _ _) fun _ => .bind (unaware_autoComplete _ _ _) fun _ =>
    blind_read (fun _ _ => rfl) fun _ => .bind (unaware_skipLockedOrders _ _) fun _ =>
    .bind (unaware_purge _ _) fun _ => .pure _

/-- `update_retention_settings`. -/
theorem unaware_updateRetentionSettings (retention grace : Option ℤ) :
    Unaware sha256 submitted placed (updateRetentionSettings env caller retention grace) :=
  .bind unaware_getRetentionSettings fun _ => .bind (.raiseIf _ _) fun _ =>
    .bind (.raiseIf _ _) fun _ =>
    .bind (blind_updateRow (fun _ _ => rfl) fun _ => rfl) fun _ => .pure _

/-- `get_order_for_caller`. -/
theorem unaware_getOrderForCaller :
    Unaware sha256 submitted placed (getOrderForCaller caller o) := by
  refine .bind unaware_loadOrderFull fun _ => .bind (.getOrRaise _ _) fun f =>
    .bind (.raiseIf _ _) fun _ => .bind ?_ fun _ => .pure _
  unfold ensureCanView
  split
  · exact .pure _
  · exact .raiseIf _ _
  · exact .raiseIf _ _
  · exact .raiseIf _ _

/-- The list of a caller's orders. -/
theorem unaware_listOrders (now : Time) (status : Option String) (limit : ℤ) :
    Unaware sha256 submitted placed (OrdersRouter.listOrders now caller status limit) := by
  refine .bind (.bind ?_ fun _ => blind_read (fun _ _ => rfl) fun _ => .pure _) fun _ => .pure _
  cases status with
  | none => exact .pure _
  | some label => exact .bind (.getOrRaise _ _) fun _ => .pure _

end OrderService

/-! ### Delivery tracking -/

section Tracking

variable {sha256 : String → String} {submitted : Id → String → Prop} {placed : Id → Id → Prop}
  {env : Env} {caller : User} {o : Id}

/-- The order of the tracking service has no code. -/
theorem unaware_loadOrder : Unaware sha256 submitted placed (loadOrder o) :=
  blind_read (fun _ _ => rfl) fun _ => .pure _

/-- Neither has its delivery. -/
theorem unaware_loadDelivery : Unaware sha256 submitted placed (loadDelivery o) :=
  blind_read (fun _ _ => rfl) fun _ => .pure _

/-- `resolve_role` looks at the order, the delivery and the assignments. -/
theorem unaware_resolveRoleLoading (order : Order) :
    Unaware sha256 submitted placed (resolveRoleLoading caller order) := by
  refine .ite (.pure _) (.ite (.pure _) (.ite (.pure _) (.ite ?_ (.pure _))))
  refine .bind unaware_loadDelivery fun _ => .ite (.pure _) ?_
  exact blind_read (fun _ _ => rfl) fun _ => .bind (blind_scalarOneOrNone _) fun _ => .pure _

/-- No view has the code. -/
theorem unaware_getTrackView : Unaware sha256 submitted placed (getTrackView caller o) := by
  refine .bind unaware_loadOrder fun _ => .bind (.getOrRaise _ _) fun _ =>
    .bind (unaware_resolveRoleLoading _) fun _ => .bind (.raiseIf _ _) fun _ =>
    .bind unaware_loadDelivery fun _ => ?_
  unfold viewFor
  exact .ite (.pure _) (.bind (.getOrRaise _ _) fun _ => .pure _)

/-- A report of a position. -/
theorem unaware_report (r : Report) : Unaware sha256 submitted placed (r.exec env) :=
  .bind unaware_loadOrder fun _ => .bind (.getOrRaise _ _) fun _ =>
    .bind (unaware_resolveRoleLoading _) fun _ => .bind (.raiseIf _ _) fun _ =>
    .bind (.raiseIf _ _) fun _ => .bind (.raiseIf _ _) fun _ =>
    .bind (blind_selectForUpdate fun _ _ => rfl) fun _ => .bind (.getOrRaise _ _) fun _ =>
    .bind (.raiseIf _ _) fun _ => .bind (unaware_updateDelivery _ _) fun _ => .pure _

/-- The administrator's patch of a delivery. -/
theorem unaware_adminPatchDelivery (driverId : Option Id) (distance duration : Option ℤ) :
    Unaware sha256 submitted placed (adminPatchDelivery caller o driverId distance duration) := by
  refine .bind (.raiseIf _ _) fun _ => .bind unaware_loadOrder fun _ =>
    .bind (.getOrRaise _ _) fun _ => .bind (blind_selectForUpdate fun _ _ => rfl) fun _ =>
    .bind (.raiseIf _ _) fun _ => .bind ?_ fun _ => .bind (unaware_updateDelivery _ _) fun _ =>
    blind_read (fun _ _ => rfl) fun _ => .pure _
  cases driverId with
  | none => exact .pure _
  | some d =>
    exact .bind (unaware_findDriver _) fun _ => .bind (.raiseIf _ _) fun _ =>
      unaware_updateDelivery _ _

end Tracking

/-! ### The delivery flow -/

section DeliveryFlow

variable {sha256 : String → String} {submitted : Id → String → Prop} {placed : Id → Id → Prop}
  {env env' : Env} {caller : User} {o : Id} {s t : Db} {c c' : DeliveryCode}

/-- The order of the delivery flow has no code. -/
theorem unaware_getOrderOr404 : Unaware sha256 submitted placed (getOrderOr404 o) :=
  blind_read (fun _ _ => rfl) fun _ => .bind (.getOrRaise _ _) fun _ =>
    .bind (.raiseIf _ _) fun _ => .pure _

/-- `record_location`. -/
theorem unaware_recordLocation (lat lng : Coordinate) :
    Unaware sha256 submitted placed (recordLocation env caller o lat lng) := by
  refine .bind (.raiseIf _ _) fun _ => .bind unaware_getOrderOr404 fun _ =>
    .bind (blind_insertRow (fun _ _ => rfl) (sameButCodes_write (fun _ _ => rfl) fun _ => rfl))
      fun _ => blind_read (fun _ _ => rfl) fun _ => ?_
  exact .ite (.bind (unaware_updateDelivery _ _) fun _ => .pure _) (.pure _)

/-- `get_route`. -/
theorem unaware_getRoute : Unaware sha256 submitted placed (getRoute caller o) :=
  .bind (.raiseIf _ _) fun _ => .bind unaware_getOrderOr404 fun _ => .pure _

/-- A message of the chat. -/
theorem unaware_postOrderMessage (ciphertext nonce : String) :
    Unaware sha256 submitted placed (postOrderMessage env caller o ciphertext nonce) := by
  refine .bind unaware_getOrderOr404 fun _ => .bind (.raiseIf _ _) fun _ =>
    .bind (.raiseIf _ _) fun _ => blind_read (fun _ _ => rfl) fun _ => .bind ?_ fun _ =>
    .bind (blind_insertRow (fun _ _ => rfl) (sameButCodes_write (fun _ _ => rfl) fun _ => rfl))
      fun _ => .pure _
  exact .ite (.raise _) (.ite (.pure _) (.ite (.pure _) (.raise _)))

/-- The messages of a chat. -/
theorem unaware_listOrderMessages (includeArchived : Bool) :
    Unaware sha256 submitted placed (listOrderMessages o includeArchived) :=
  blind_read (fun _ _ => rfl) fun _ => .pure _

/-- The chat, for those who may read it. -/
theorem unaware_listChat : Unaware sha256 submitted placed (listChat caller o) :=
  .bind unaware_getOrderOr404 fun _ => .ite (unaware_listOrderMessages _)
    (blind_read (fun _ _ => rfl) fun _ => .bind (.raiseIf _ _) fun _ =>
      .ite (.pure _) (unaware_listOrderMessages _))

/-- The administrator's tracking view. -/
theorem unaware_adminTracking :
    Unaware sha256 submitted placed (DeliveryFlow.adminTracking caller o) :=
  .bind (.raiseIf _ _) fun _ => blind_read (fun _ _ => rfl) fun _ => .pure _

/-- The administrator's view of a chat. -/
theorem unaware_adminMessages :
    Unaware sha256 submitted placed (DeliveryFlow.adminMessages caller o) :=
  .bind (.raiseIf _ _) fun _ => unaware_listOrderMessages _

/-! #### The codes themselves -/

/-- The order of two calls that act on the same order. -/
theorem alike_getOrderOr404 :
    (getOrderOr404 o).Alike (SameButCodes sha256 submitted placed)
      (fun x y => y = x ∧ x.id = o ∧ placed o x.customerId) (getOrderOr404 o) := by
  refine .read_bind (SameButCodes.induct fun s codes _ hplaced => ?_)
  change (_ >>= _ : Tx Order).Alike _ _ (getOrRaise (s.orders.get o) _ >>= _)
  cases hx : s.orders.get o with
  | none => exact .raise _
  | some x =>
    simp only [getOrRaise, bind_eq, ret_bind]
    refine .bind (Blind.raiseIf _ _) fun _ _ _ => .ret ⟨rfl, Table.key_of_get hx, hplaced o x hx⟩

/-- A change of the code that leaves its text and the hash alone. -/
theorem sameButCodes_modifyCode {f : DeliveryCode → DeliveryCode}
    (hid : ∀ c, (f c).orderId = c.orderId)
    (hf : ∀ g (c c' : DeliveryCode), CodeAlike sha256 g c c' → CodeAlike sha256 g (f c) (f c'))
    (h : SameButCodes sha256 submitted placed s t) :
    SameButCodes sha256 submitted placed (s.modifyCode o f) (t.modifyCode o f) := by
  obtain ⟨⟨codes, rfl, hcodes⟩, hplaced⟩ := h
  refine ⟨⟨codes.modify o f, rfl, fun o' => ?_⟩, hplaced⟩
  have hget : (s.modifyCode o f).deliveryCodes.get o' = _ :=
    Table.get_modify s.deliveryCodes o hid o'
  rw [hget, Table.get_modify codes o hid]
  have hsame := hcodes o'
  split
  · revert hsame
    generalize s.deliveryCodes.get o' = x
    generalize codes.get o' = y
    intro hsame
    cases hsame with
    | some h => exact .some (hf _ _ _ h)
    | none => exact .none
  · exact hsame

/-- Two codes that nobody has submitted may differ. -/
theorem sameButCodes_addCode (hc : CodeAlike sha256 (submitted c.orderId) c c')
    (h : SameButCodes sha256 submitted placed s t) :
    SameButCodes sha256 submitted placed (s.addCode c) (t.addCode c') := by
  obtain ⟨⟨codes, rfl, hcodes⟩, hplaced⟩ := h
  refine ⟨⟨codes.insert c', rfl, fun o' => ?_⟩, hplaced⟩
  have hid : c'.orderId = c.orderId := by rw [hc.same]
  have hget : (s.addCode c).deliveryCodes.get o' = _ := Table.get_insert_or s.deliveryCodes c o'
  rw [hget, Table.get_insert_or codes c', hid]
  have hsame := hcodes o'
  split
  · next ho =>
    rw [ho] at hsame ⊢
    revert hsame
    generalize s.deliveryCodes.get c.orderId = x
    generalize codes.get c.orderId = y
    intro hsame
    cases hsame with
    | some h => exact .some h
    | none => exact .some hc
  · exact hsame

/-- Equal codes are alike. -/
theorem CodesAlike.refl (codes : Table DeliveryCode DeliveryCode.orderId) :
    CodesAlike sha256 submitted codes codes := by
  intro o
  cases codes.get o with
  | none => exact .none
  | some c => exact .some ⟨rfl, fun _ _ => Iff.rfl⟩

/-- Whether there is a code does not depend on the codes. -/
theorem CodesAlike.isSome {codes codes' : Table DeliveryCode DeliveryCode.orderId}
    (h : CodesAlike sha256 submitted codes codes') (o : Id) :
    (codes'.get o).isSome = (codes.get o).isSome := by
  have ho := h o
  revert ho
  generalize codes.get o = x
  generalize codes'.get o = y
  intro ho
  cases ho with
  | some _ => rfl
  | none => rfl

/-- Different codes are inserted under the same constraint. -/
theorem alike_insertCode (hc : CodeAlike sha256 (submitted c.orderId) c c') :
    (insertCode c).Alike (SameButCodes sha256 submitted placed) Eq (insertCode c') := by
  have hid : c'.orderId = c.orderId := by rw [hc.same]
  unfold insertCode insertRow
  rw [hid]
  refine .lock (SameButCodes.induct fun s codes hcodes _ => ?_)
  have hsome : ((s.withCodes codes).deliveryCodes.get c.orderId).isSome =
      (s.deliveryCodes.get c.orderId).isSome := hcodes.isSome c.orderId
  simp only [ret_bind, hsome]
  exact .bind (Blind.raiseIf _ _) fun _ _ _ =>
    .write (fun s t h => sameButCodes_addCode hc h) (.ret rfl)

/-- The two codes that an acceptance draws. -/
def Drawn (sha256 : String → String) (submitted : String → Prop) (n n' : Fin 1000000) : Prop :=
  ∀ g, submitted g → (hashCode sha256 g = hashCode sha256 (generateCode n) ↔
    hashCode sha256 g = hashCode sha256 (generateCode n'))

/-- A driver takes over a delivery without a look at the code. -/
theorem alike_takeDelivery (order : Order) (delivery : Option Delivery) :
    Unaware sha256 submitted placed (takeDelivery env caller order delivery) := by
  cases delivery with
  | none => exact unaware_insertDelivery _
  | some d => exact unaware_updateDelivery _ _

/-- Two acceptances that draw different codes. -/
theorem alike_acceptOrder {n : Fin 1000000}
    (hdrawn : Drawn sha256 (submitted o) env.randbelow n) :
    (DeliveryFlow.acceptOrder sha256 env caller o).Alike (SameButCodes sha256 submitted placed)
      (fun a b => b.1 = a.1)
      (DeliveryFlow.acceptOrder sha256 { env with randbelow := n } caller o) := by
  refine .bind (Blind.raiseIf _ _) fun _ _ _ => .bind alike_getOrderOr404 fun _ x hx => ?_
  obtain ⟨rfl, hid, -⟩ := hx
  refine .read_bind (SameButCodes.induct fun s codes hcodes _ => ?_)
  have haccept : (accept sha256 env caller x).Alike (SameButCodes sha256 submitted placed)
      (fun a b => b.1 = a.1) (accept sha256 { env with randbelow := n } caller x) := by
    refine .read_bind (SameButCodes.induct fun s codes _ _ => ?_)
    refine .bind (unaware_updateOrder orderEdit_acceptByDriver _) fun _ _ _ =>
      .bind (alike_takeDelivery _ _) fun _ _ _ => .bind (alike_insertCode ?_) fun _ _ _ => .ret rfl
    exact ⟨rfl, hid ▸ hdrawn⟩
  have hsame := hcodes x.id
  dsimp only [Db.withCodes]
  revert hsame
  generalize s.deliveryCodes.get x.id = c
  generalize codes.get x.id = c'
  intro hsame
  cases hsame with
  | none =>
    cases x.driverAcceptedAt with
    | none => exact haccept
    | some _ => exact haccept
  | some _ =>
    cases x.driverAcceptedAt with
    | none => exact haccept
    | some _ => exact .ret rfl

/-- The row of an attempt has the submitted code, not the right one. -/
theorem alike_insertCodeAttempt (a : DeliveryCodeAttempt) :
    Unaware sha256 submitted placed (insertCodeAttempt a) :=
  blind_insertRow (fun _ _ => rfl) (sameButCodes_write (fun _ _ => rfl) fun _ => rfl)

/-- An `UPDATE` of a code that keeps apart what was apart. -/
theorem unaware_updateCode {f : DeliveryCode → DeliveryCode}
    (hid : ∀ c, (f c).orderId = c.orderId)
    (hf : ∀ g (c c' : DeliveryCode), CodeAlike sha256 g c c' → CodeAlike sha256 g (f c) (f c')) :
    Unaware sha256 submitted placed (updateCode o f) :=
  .updateRow fun _ _ => sameButCodes_modifyCode hid hf

/-- A submitted code meets the same fate in both. -/
theorem CodeAlike.check {g : String} {submitted : String → Prop}
    (h : CodeAlike sha256 submitted c c') (hg : submitted g) :
    checkCode sha256 c' g = checkCode sha256 c g := by
  have hlocked : c'.locked = c.locked := by rw [h.same]
  have hiff := h.untold g hg
  simp only [checkCode, hlocked, ne_eq, hiff]

/-- A wrong code is refused on both servers, with the same error. -/
theorem unaware_refuseCode {order : Order} {g : String} (hc : CodeAlike sha256 (submitted o) c c') :
    (refuseCode env caller order c g).Alike (SameButCodes sha256 submitted placed) Eq
      (refuseCode env caller order c' g) := by
  have hused : c'.attemptsUsed = c.attemptsUsed := by rw [hc.same]
  unfold refuseCode
  rw [hused]
  refine Blind.ite ?_ ?_
  · exact .bind (unaware_updateOrder orderEdit_lockCode _) fun _ =>
      .bind (unaware_updateCode (fun _ => rfl) fun _ _ _ h => ⟨by rw [h.same]; rfl, h.untold⟩)
        fun _ => .bind (alike_insertCodeAttempt _) fun _ => .raise _
  · exact .bind (unaware_updateCode (fun _ => rfl) fun _ _ _ h => ⟨by rw [h.same]; rfl, h.untold⟩)
        fun _ => .bind (alike_insertCodeAttempt _) fun _ => .raise _

/-- The delivery by code, once the code is found right. -/
theorem unaware_deliver {order : Order} {g : String} :
    Unaware sha256 submitted placed (deliver env caller order g) :=
  blind_read (fun _ _ => rfl) fun _ => .bind (unaware_archiveMessages _ _) fun _ =>
    .bind (unaware_updateOrder orderEdit_deliverByCode _) fun _ =>
    .bind (unaware_updateCode (fun _ => rfl) fun _ _ _ h => ⟨by rw [h.same]; rfl, h.untold⟩)
      fun _ => .bind (alike_insertCodeAttempt _) fun _ => .pure _

/-- `complete_delivery` with a submitted code, which both servers find right or both wrong. -/
theorem unaware_completeDelivery {g : String} (hg : submitted o g) :
    Unaware sha256 submitted placed (completeDelivery sha256 env caller o g) := by
  refine Alike.bind (Blind.raiseIf _ _) fun _ _ _ => .bind alike_getOrderOr404 fun _ x hx => ?_
  obtain ⟨rfl, hid, -⟩ := hx
  refine .read_bind (SameButCodes.induct fun s codes hcodes _ => ?_)
  have hsame := hcodes x.id
  rw [hid] at hsame
  change Alike _ _ (getOrRaise (s.deliveryCodes.get x.id) _ >>= _)
    (getOrRaise (codes.get x.id) _ >>= _)
  rw [hid]
  revert hsame
  generalize s.deliveryCodes.get o = c
  generalize codes.get o = c'
  intro hsame
  cases hsame with
  | none => exact .raise _
  | some hc =>
    simp only [getOrRaise, bind_eq, ret_bind, hc.check hg]
    split
    · exact .bind (alike_insertCodeAttempt _) fun _ _ _ => .raise _
    · exact unaware_refuseCode hc
    · exact unaware_deliver

/-- The one request whose answer depends on the code, if its caller may have it. -/
theorem alike_customerCode :
    (DeliveryFlow.customerCode caller o).Alike (SameButCodes sha256 submitted placed)
      (fun r r' => (caller.role = .admin ∨ placed o caller.id) ∧ r' = { r with code := r'.code })
      (DeliveryFlow.customerCode caller o) := by
  refine .bind (T := fun c c' => (caller.role = .admin ∨ placed o caller.id) ∧
    c' = { c with codePlain := c'.codePlain, codeHash := c'.codeHash }) ?_ fun c c' hc => ?_
  · refine .bind alike_getOrderOr404 fun _ x hx => ?_
    obtain ⟨rfl, hid, hplaced⟩ := hx
    by_cases hcaller : x.customerId ≠ caller.id ∧ caller.role ≠ .admin
    · rw [raiseIf_of hcaller]
      exact .raise _
    · rw [raiseIf_of_not hcaller]
      have hentitled : caller.role = .admin ∨ placed o caller.id := by
        by_cases hadmin : caller.role = .admin
        · exact .inl hadmin
        · refine .inr ?_
          have hcustomer : x.customerId = caller.id := by
            by_contra hne
            exact hcaller ⟨hne, hadmin⟩
          rwa [hcustomer] at hplaced
      refine .read_bind (SameButCodes.induct fun s codes hcodes _ => ?_)
      have hsame := hcodes x.id
      change Alike _ _ (getOrRaise (s.deliveryCodes.get x.id) _ >>= _)
        (getOrRaise (codes.get x.id) _ >>= _)
      revert hsame
      generalize s.deliveryCodes.get x.id = c
      generalize codes.get x.id = c'
      intro hsame
      cases hsame with
      | none => exact .raise _
      | some hc =>
        simp only [getOrRaise, bind_eq, ret_bind]
        exact .bind (Blind.raiseIf _ _) fun _ _ _ => .ret ⟨hentitled, hc.same⟩
  · obtain ⟨hentitled, hsame⟩ := hc
    refine .ret ⟨hentitled, ?_⟩
    rw [hsame]

end DeliveryFlow

/-! ### Two servers -/

section Servers

variable {sha256 : String → String} {submitted : Id → String → Prop} {placed : Id → Id → Prop}

/-- The caller of the request may see the code of an order: an administrator, or the customer who
placed the order. -/
def FlowRequest.MaySeeCode (placed : Id → Id → Prop) (q : FlowRequest) : Prop :=
  ∃ caller o, q = .customerCode caller o ∧ (caller.role = .admin ∨ placed o caller.id)

/-- Two answers to the request are the same, but for the text of a code that its caller may see. -/
def FlowRequest.AnsweredAlike (placed : Id → Id → Prop) (q : FlowRequest) (r r' : FlowReply) :
    Prop :=
  r' = r ∨ q.MaySeeCode placed ∧ r'.withoutCode = r.withoutCode

/-- An answer that does not depend on the codes. -/
theorem answered_of_unaware {α : Type} {q : FlowRequest} {p : Tx α} (f : α → FlowReply)
    (h : Unaware sha256 submitted placed p) :
    (do let a ← p; return f a : Tx FlowReply).Alike (SameButCodes sha256 submitted placed)
      (q.AnsweredAlike placed) (do let a ← p; return f a : Tx FlowReply) :=
  .bind h fun _ _ heq => .ret (.inl (by rw [heq]))

section Draws

variable (env : Env) (n : Fin 1000000)

/-- The items do not depend on the draw of the code. -/
theorem insertItems_redraw (o : Id) (i : ℕ) (lines : List (Product × ℤ)) :
    insertItems { env with randbelow := n } o i lines = insertItems env o i lines := by
  induction lines generalizing i with
  | nil => rfl
  | cons line lines ih =>
    simp only [insertItems, ih]
    rfl

/-- Neither does the automatic completion. -/
theorem autoComplete_redraw (now : Time) (i : ℕ) (orders : List Order) :
    autoComplete { env with randbelow := n } now i orders = autoComplete env now i orders := by
  induction orders generalizing i with
  | nil => rfl
  | cons order orders ih =>
    simp only [autoComplete, ih]
    rfl

/-- Neither does the purge. -/
theorem purge_redraw (i : ℕ) (orders : List Order) :
    purge { env with randbelow := n } i orders = purge env i orders := by
  induction orders generalizing i with
  | nil => rfl
  | cons order orders ih =>
    simp only [purge, ih]
    rfl

end Draws

/-- Only an acceptance draws. -/
theorem exec_redraw {op : Op} (hop : ∀ o, op ≠ .driverAccept o) (env : Env) (caller : User)
    (n : Fin 1000000) :
    op.exec sha256 { env with randbelow := n } caller = op.exec sha256 env caller := by
  cases op with
  | driverAccept o => exact absurd rfl (hop o)
  | createOrder items address =>
    simp only [Op.exec, createOrder, insertItems_redraw]
    rfl
  | runPurgeJob =>
    simp only [Op.exec, runPurgeJob, autoComplete_redraw, purge_redraw]
    rfl
  | _ => rfl

/-- Every operation but a driver's acceptance. -/
theorem unaware_exec {op : Op} {env : Env} {caller : User} (hop : ∀ o, op ≠ .driverAccept o)
    (hsubmitted : ∀ o g, op = .completeDelivery o g → submitted o g)
    (hplaced : ∀ items address, op = .createOrder items address → placed (env.uuid4 0) caller.id) :
    Unaware sha256 submitted placed (op.exec sha256 env caller) := by
  cases op with
  | driverAccept o => exact absurd rfl (hop o)
  | createOrder items address =>
    exact .bind (unaware_createOrder (hplaced items address rfl)) fun _ => .pure _
  | acceptOrder o => exact .bind unaware_acceptOrder fun _ => .pure _
  | markPreparing o => exact .bind unaware_markPreparing fun _ => .pure _
  | chooseSelfDelivery o => exact .bind unaware_chooseSelfDelivery fun _ => .pure _
  | requestDriver o => exact .bind unaware_requestDriver fun _ => .pure _
  | assignDriver o d => exact .bind (unaware_assignDriver d) fun _ => .pure _
  | outForDelivery o => exact .bind unaware_outForDelivery fun _ => .pure _
  | markDelivered o => exact .bind unaware_markDelivered fun _ => .pure _
  | completeOrder o => exact .bind unaware_completeOrder fun _ => .pure _
  | cancelOrder o reason => exact .bind (unaware_cancelOrder reason) fun _ => .pure _
  | deleteOrder o => exact .bind unaware_deleteOrder fun _ => .pure _
  | runPurgeJob => exact .bind unaware_runPurgeJob fun _ => .pure _
  | updateRetentionSettings r g =>
    exact .bind (unaware_updateRetentionSettings r g) fun _ => .pure _
  | recordLocation o lat lng => exact .bind (unaware_recordLocation lat lng) fun _ => .pure _
  | getRoute o => exact .bind unaware_getRoute fun _ => .pure _
  | completeDelivery o g =>
    exact .bind (unaware_completeDelivery (hsubmitted o g rfl)) fun _ => .pure _
  | postOrderMessage o ciphertext nonce =>
    exact .bind (unaware_postOrderMessage ciphertext nonce) fun _ => .pure _
  | adminPatchDelivery o d distance duration =>
    exact .bind (unaware_adminPatchDelivery d distance duration) fun _ => .pure _

/-- A request to the services, with another draw. -/
theorem alike_serviceCall {q : Request} {n n' : Fin 1000000}
    (hsubmitted : ∀ o g, (FlowRequest.service (.call q)).Submits o g → submitted o g)
    (hplaced : ∀ o u, (FlowRequest.service (.call q)).Places o u → placed o u)
    (hdrawn : ∀ o, (FlowRequest.service (.call q)).Accepts o → Drawn sha256 (submitted o) n n') :
    (((FlowRequest.service (.call q)).drawing n).exec sha256).Alike
      (SameButCodes sha256 submitted placed)
      ((FlowRequest.service (.call q)).AnsweredAlike placed)
      (((FlowRequest.service (.call q)).drawing n').exec sha256) := by
  obtain ⟨caller, op, env⟩ := q
  refine .bind (T := fun a b => FlowReply.ofService b = FlowReply.ofService a) ?_
    fun _ _ heq => .ret (.inl heq)
  refine .bind (T := fun a b => FlowReply.ofService (.reply b) = FlowReply.ofService (.reply a)) ?_
    fun _ _ heq => .ret heq
  change (op.exec sha256 { env with randbelow := n } caller).Alike _ _
    (op.exec sha256 { env with randbelow := n' } caller)
  by_cases hop : ∃ o, op = .driverAccept o
  · obtain ⟨o, rfl⟩ := hop
    -- the endpoint does not show what the acceptance has drawn
    refine .bind (alike_acceptOrder (n := n') (hdrawn o ⟨caller, env, rfl⟩)) fun a b heq => .ret ?_
    obtain ⟨x, c⟩ := a
    obtain ⟨y, c'⟩ := b
    obtain rfl : y = x := heq
    rfl
  · have hother : ∀ o, op ≠ .driverAccept o := fun o heq => hop ⟨o, heq⟩
    rw [exec_redraw hother env caller n, exec_redraw hother env caller n']
    refine Alike.mono (fun _ _ heq => congrArg (fun r => FlowReply.ofService (.reply r)) heq.symm)
      (unaware_exec hother (fun o g heq => ?_) fun items address heq => ?_)
    · exact hsubmitted o g ⟨caller, env, by rw [heq]⟩
    · exact hplaced _ _ ⟨caller, items, address, env, by rw [heq], rfl, rfl⟩

/-- Every request, with another draw. -/
theorem alike_flowRequest (q : FlowRequest) {n n' : Fin 1000000}
    (hsubmitted : ∀ o g, q.Submits o g → submitted o g)
    (hplaced : ∀ o u, q.Places o u → placed o u)
    (hdrawn : ∀ o, q.Accepts o → Drawn sha256 (submitted o) n n') :
    ((q.drawing n).exec sha256).Alike (SameButCodes sha256 submitted placed)
      (q.AnsweredAlike placed) ((q.drawing n').exec sha256) := by
  cases q with
  | service c =>
    cases c with
    | call q => exact alike_serviceCall hsubmitted hplaced hdrawn
    | report r env =>
      exact answered_of_unaware _ (Blind.bind (unaware_report r) fun _ => .pure _)
    | view caller o =>
        exact answered_of_unaware _ (Blind.bind unaware_getTrackView fun _ => .pure _)
  | listOrders now caller status limit =>
    exact answered_of_unaware _ (unaware_listOrders now status limit)
  | getOrder caller o => exact answered_of_unaware _ unaware_getOrderForCaller
  | customerCode caller o =>
    refine .bind alike_customerCode fun r r' hr => .ret (.inr ⟨⟨caller, o, rfl, hr.1⟩, ?_⟩)
    rw [hr.2]
    rfl
  | listChat caller o => exact answered_of_unaware _ unaware_listChat
  | adminTracking caller o => exact answered_of_unaware _ unaware_adminTracking
  | adminMessages caller o => exact answered_of_unaware _ unaware_adminMessages

end Servers

/-- A text that some request submits for an order. -/
def SubmittedIn {ι : Type} (requests : ι → FlowRequest) (o : Id) (g : String) : Prop :=
  ∃ i, (requests i).Submits o g

/-- The customer of an order, which is in the database or is placed by some request. -/
def PlacedIn {ι : Type} (requests : ι → FlowRequest) (db : Db) (o u : Id) : Prop :=
  (∃ x, db.orders.get o = some x ∧ x.customerId = u) ∨ ∃ i, (requests i).Places o u

/-- **The delivery codes are secret.** Take two servers with the same database but for the codes
in it, whose acceptances draw different codes, such that no text that any request submits for an
order tells its two codes apart. Whatever the requests and their interleaving on the one, the other
can interleave them in the same way. Then it commits the same requests in the same order with the
same answers, but for the text of a code that is shown to the customer who placed the order or to
an administrator; it raises the same errors; and its database is the same but for the codes. -/
theorem delivery_codes_secret (sha256 : String → String) {ι : Type} [DecidableEq ι]
    (requests : ι → FlowRequest) (draws draws' : ι → Fin 1000000) {db db' : Db}
    (hdb : ∃ codes, db' = db.withCodes codes ∧
      CodesAlike sha256 (SubmittedIn requests) db.deliveryCodes codes)
    (hdraws : ∀ i o, (requests i).Accepts o →
      Drawn sha256 (SubmittedIn requests o) (draws i) (draws' i))
    {s : Sys ι Db Key Err FlowReply}
    (hs : Sys.Steps (Sys.init db fun i => ((requests i).drawing (draws i)).exec sha256) s) :
    ∃ t, Sys.Steps (Sys.init db' fun i => ((requests i).drawing (draws' i)).exec sha256) t ∧
      List.Forall₂ (fun x y => x.1 = y.1 ∧
        (requests x.1).AnsweredAlike (PlacedIn requests db) x.2 y.2) s.log t.log ∧
      (∀ i e, t.txn i = .aborted e ↔ s.txn i = .aborted e) ∧
      t.db = s.db.withCodes t.db.deliveryCodes := by
  have hsame : SameButCodes sha256 (SubmittedIn requests) (PlacedIn requests db) db db' :=
    ⟨hdb, fun o x hx => .inl ⟨x, hx, rfl⟩⟩
  have hrequests : ∀ i, (((requests i).drawing (draws i)).exec sha256).Alike
      (SameButCodes sha256 (SubmittedIn requests) (PlacedIn requests db))
      ((requests i).AnsweredAlike (PlacedIn requests db))
      (((requests i).drawing (draws' i)).exec sha256) := fun i =>
    alike_flowRequest (requests i) (fun o g h => ⟨i, h⟩) (fun o u h => .inr ⟨i, h⟩) (hdraws i)
  obtain ⟨t, ht, halike⟩ := hs.alike (Sys.Alike.init hsame hrequests)
  refine ⟨t, ht, halike.log, fun i e => ?_, ?_⟩
  · have hi := halike.txn i
    constructor
    · intro hab
      rw [hab] at hi
      generalize s.txn i = x at hi
      cases hi
      rfl
    · intro hab
      rw [hab] at hi
      generalize t.txn i = x at hi
      cases hi
      rfl
  · obtain ⟨codes, heq, -⟩ := halike.db.same
    rw [heq]
    rfl

namespace Sample

/-- The order on its way, before the driver has accepted it. -/
def beforeAcceptance : Db := (after (World.serve sha256) start (sent.take 6)).db

/-- The driver accepts and guesses a code, and the customer looks it up. -/
def codeRequests : Fin 3 → FlowRequest
  | 0 => .service (.call (chatting 0 driver (.driverAccept 0)))
  | 1 => .customerCode customer 0
  | 2 => .service (.call (chatting 2 driver (.completeDelivery 0 "222222")))

/-- The requests, if the acceptance draws `n`. -/
def codeRun (n : Fin 1000000) (i : Fin 3) : Tx FlowReply :=
  ((codeRequests i).drawing n).exec sha256

/-- The sample requests submit one code. -/
theorem codeRequests_submit {o : Id} {g : String} (h : SubmittedIn codeRequests o g) :
    g = "222222" := by
  obtain ⟨i, caller, env, hi⟩ := h
  match i with
  | 0 => cases hi
  | 1 => cases hi
  | 2 =>
    cases hi
    rfl

end Sample

/-- The customer is shown the code, and the driver has guessed wrong. -/
theorem delivery_codes_secret_guessed :
    ∃ s, Sys.Steps (Sys.init Sample.beforeAcceptance (Sample.codeRun 0)) s ∧
      s.log.map Prod.fst = [0, 1] ∧
      ∃ t, Sys.Steps (Sys.init Sample.beforeAcceptance (Sample.codeRun 111111)) t ∧
        List.Forall₂ (fun x y => x.1 = y.1 ∧ (Sample.codeRequests x.1).AnsweredAlike
          (PlacedIn Sample.codeRequests Sample.beforeAcceptance) x.2 y.2) s.log t.log := by
  obtain ⟨r, hrun⟩ := run_of_session (p := Sample.codeRun 0 0) (s := Sample.beforeAcceptance)
    (by decide +kernel)
  obtain ⟨r', hrun'⟩ := run_of_session (p := Sample.codeRun 0 1)
    (s := ((Sample.codeRun 0 0).session Sample.beforeAcceptance).2) (by decide +kernel)
  obtain ⟨s, hs, -, hlog⟩ := Sys.inTurn_of_run (p := Sample.codeRun 0) (by decide) hrun hrun'
  have hdraws : ∀ (i : Fin 3) o, (Sample.codeRequests i).Accepts o →
      Drawn Sample.sha256 (SubmittedIn Sample.codeRequests o) 0 111111 := by
    intro i o _ g hg
    rw [Sample.codeRequests_submit hg]
    decide +kernel
  have hcodes : ∃ codes, Sample.beforeAcceptance = Sample.beforeAcceptance.withCodes codes ∧
      CodesAlike Sample.sha256 (SubmittedIn Sample.codeRequests)
        Sample.beforeAcceptance.deliveryCodes codes := ⟨_, rfl, .refl _⟩
  obtain ⟨t, ht, hsame, -⟩ := delivery_codes_secret Sample.sha256 Sample.codeRequests (fun _ => 0)
    (fun _ => 111111) hcodes hdraws hs
  exact ⟨s, hs, by rw [hlog]; rfl, t, ht, hsame⟩

end Marketplace
