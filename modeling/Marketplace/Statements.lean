import Marketplace.Database
import Marketplace.Lib.Frame

/-!
# Statements of the services

The SQL statements that the services issue, as steps of a transaction. An `INSERT`
waits for the entry of the unique index it fills and raises `IntegrityError` when
that entry is taken. The ORM writes a changed object column by column, so an
`UPDATE` changes the named columns of the row as it is when its lock is taken.
-/

namespace Marketplace

open Lib Txn

/-! ### Changes of the tables -/

namespace Db

def modifyOrder (db : Db) (id : Id) (f : Order → Order) : Db :=
  { db with orders := db.orders.modify id f }

def addOrder (db : Db) (o : Order) : Db := { db with orders := db.orders.insert o }

def addItem (db : Db) (i : OrderItem) : Db := { db with orderItems := db.orderItems.insert i }

/-- The row of an order goes, and by `ON DELETE CASCADE` every row that refers to it. -/
def removeOrder (db : Db) (id : Id) : Db :=
  { db with
    orders := db.orders.delete fun o => o.id = id
    orderItems := db.orderItems.delete fun i => i.orderId = id
    deliveries := db.deliveries.delete fun d => d.orderId = id
    driverAssignments := db.driverAssignments.delete fun a => a.orderId = id
    deliveryCodes := db.deliveryCodes.delete fun c => c.orderId = id
    deliveryCodeAttempts := db.deliveryCodeAttempts.delete fun a => a.orderId = id
    orderMessages := db.orderMessages.delete fun m => m.orderId = id
    orderTrackingPoints := db.orderTrackingPoints.delete fun p => p.orderId = id }

def modifyDelivery (db : Db) (orderId : Id) (f : Delivery → Delivery) : Db :=
  { db with deliveries := db.deliveries.modify orderId f }

def addDelivery (db : Db) (d : Delivery) : Db := { db with deliveries := db.deliveries.insert d }

def modifyAssignment (db : Db) (id : Id) (f : DriverAssignment → DriverAssignment) : Db :=
  { db with driverAssignments := db.driverAssignments.modify id f }

def addAssignment (db : Db) (a : DriverAssignment) : Db :=
  { db with driverAssignments := db.driverAssignments.insert a }

/-- A row whose order already has a snapshot is left out. -/
def addSnapshot (db : Db) (s : OrderAnalyticsSnapshot) : Db :=
  { db with snapshots := db.snapshots.insert s }

def setSettings (db : Db) (ps : PlatformSettings) : Db := { db with platformSettings := some ps }

def modifyCode (db : Db) (orderId : Id) (f : DeliveryCode → DeliveryCode) : Db :=
  { db with deliveryCodes := db.deliveryCodes.modify orderId f }

def addCode (db : Db) (c : DeliveryCode) : Db :=
  { db with deliveryCodes := db.deliveryCodes.insert c }

def addCodeAttempt (db : Db) (a : DeliveryCodeAttempt) : Db :=
  { db with deliveryCodeAttempts := db.deliveryCodeAttempts.insert a }

def modifyMessage (db : Db) (id : Id) (f : OrderMessage → OrderMessage) : Db :=
  { db with orderMessages := db.orderMessages.modify id f }

def addMessage (db : Db) (m : OrderMessage) : Db :=
  { db with orderMessages := db.orderMessages.insert m }

def addTrackingPoint (db : Db) (p : OrderTrackingPoint) : Db :=
  { db with orderTrackingPoints := db.orderTrackingPoints.insert p }

/-- `UPDATE products SET stock_quantity = …`. -/
def setStock (db : Db) (id : Id) (stock : ℤ) : Db :=
  { db with products := db.products.modify id fun p => { p with stockQuantity := some stock } }

/-- An `UPDATE` of a delivery that is not there changes nothing. -/
theorem modifyDelivery_of_none {db : Db} {orderId : Id} {f : Delivery → Delivery}
    (h : db.deliveries.get orderId = none) : db.modifyDelivery orderId f = db := by
  rw [modifyDelivery, Table.modify_of_get_eq_none h]

/-- The assignments of one order. -/
def assignmentsOf (db : Db) (orderId : Id) : List DriverAssignment :=
  db.driverAssignments.rows.filter fun a => a.orderId = orderId

/-- The items of one order. -/
def itemsOf (db : Db) (orderId : Id) : List OrderItem :=
  db.orderItems.rows.filter fun i => i.orderId = orderId

end Db

/-! ### Columns -/

/-- What an `INTEGER` column holds. -/
def FitsInteger (z : ℤ) : Prop := -2 ^ 31 ≤ z ∧ z < 2 ^ 31

/-- What a `BIGINT` column holds. -/
def FitsBigint (z : ℤ) : Prop := -2 ^ 63 ≤ z ∧ z < 2 ^ 63

instance (z : ℤ) : Decidable (FitsInteger z) := inferInstanceAs (Decidable (_ ∧ _))
instance (z : ℤ) : Decidable (FitsBigint z) := inferInstanceAs (Decidable (_ ∧ _))

/-- The driver's `DataError`: a value is out of the range of its column. -/
def Err.outOfRange : Err := .unexpected "DBAPIError"

/-- These values have an encoding for their columns. -/
def Encodable (integers bigints : List ℤ) : Prop :=
  (∀ z ∈ integers, FitsInteger z) ∧ ∀ z ∈ bigints, FitsBigint z

instance (integers bigints : List ℤ) : Decidable (Encodable integers bigints) :=
  inferInstanceAs (Decidable (_ ∧ _))

/-- The driver encodes the values of a statement for their columns before it sends it. -/
def encode (integers bigints : List ℤ) : Tx Unit :=
  raiseIf (¬Encodable integers bigints) Err.outOfRange

/-! ### Statements -/

section

variable {ρ : Type}

/-- `INSERT` of one row under one unique index. -/
def insertRow (key : Key) (taken : Db → Bool) (constraint : String) (put : Db → Db) : Tx Unit := do
  let db ← acquire key
  raiseIf (taken db = true) (.integrity constraint)
  modify put

/-- `SELECT … WHERE <primary key> FOR UPDATE`: only a row that exists is locked. -/
def selectForUpdate (key : Key) (get : Db → Option ρ) : Tx (Option ρ) := do
  let db ← read
  match get db with
  | none => pure none
  | some _ => do
    let db ← acquire key
    pure (get db)

/-- `scalar_one_or_none()`. -/
def scalarOneOrNone : List ρ → Tx (Option ρ)
  | [] => pure none
  | [r] => pure (some r)
  | _ :: _ :: _ => raise .multipleResults

end

def updateOrder (id : Id) (f : Order → Order) : Tx Unit :=
  updateRow (.order id) fun db => db.modifyOrder id f

def insertOrder (o : Order) : Tx Unit := do
  encode [] [o.subtotalMinor, o.totalMinor]
  insertRow (.order o.id) (fun db => (db.orders.get o.id).isSome) "pk_orders"
    fun db => db.addOrder o

/-- `INSERT` with the CHECK on the quantity. -/
def insertOrderItem (item : OrderItem) : Tx Unit := do
  encode [item.quantity] [item.unitPriceMinorSnapshot]
  raiseIf (item.quantity ≤ 0) (.integrity "ck_order_items_quantity_positive")
  insertRow (.orderItem item.id) (fun db => (db.orderItems.get item.id).isSome) "pk_order_items"
    fun db => db.addItem item

/-- `DELETE FROM orders`. -/
def deleteOrderRow (id : Id) : Tx Unit := updateRow (.order id) fun db => db.removeOrder id

/-- `SELECT … FOR UPDATE SKIP LOCKED`: the rows of `ids` that are not locked by another
transaction and still satisfy `p` in their latest version. -/
def skipLockedOrders (p : Order → Bool) : List Id → Tx (List Order)
  | [] => pure []
  | id :: ids => do
    let db ← tryAcquire (.order id)
    let rest ← skipLockedOrders p ids
    pure (((db.bind fun db => db.orders.get id).filter p).toList ++ rest)

def updateDelivery (orderId : Id) (f : Delivery → Delivery) : Tx Unit :=
  updateRow (.delivery orderId) fun db => db.modifyDelivery orderId f

def insertDelivery (d : Delivery) : Tx Unit :=
  insertRow (.delivery d.orderId) (fun db => (db.deliveries.get d.orderId).isSome)
    "uq_deliveries_order_id" fun db => db.addDelivery d

def updateAssignment (id : Id) (f : DriverAssignment → DriverAssignment) : Tx Unit :=
  updateRow (.driverAssignment id) fun db => db.modifyAssignment id f

def insertAssignment (a : DriverAssignment) : Tx Unit :=
  insertRow (.driverAssignment a.id) (fun db => (db.driverAssignments.get a.id).isSome)
    "pk_driver_assignments" fun db => db.addAssignment a

/-- One row after another of a `SELECT … FOR UPDATE` over assignments. -/
def lockAssignments : List DriverAssignment → Tx (List DriverAssignment)
  | [] => pure []
  | a :: as => do
    let db ← acquire (.driverAssignment a.id)
    let rest ← lockAssignments as
    pure ((db.driverAssignments.get a.id).toList ++ rest)

/-- `INSERT … ON CONFLICT (order_id) DO NOTHING`. -/
def insertSnapshot (s : OrderAnalyticsSnapshot) : Tx Unit :=
  updateRow (.snapshot s.orderId) fun db => db.addSnapshot s

def updateCode (orderId : Id) (f : DeliveryCode → DeliveryCode) : Tx Unit :=
  updateRow (.deliveryCode orderId) fun db => db.modifyCode orderId f

def insertCode (c : DeliveryCode) : Tx Unit :=
  insertRow (.deliveryCode c.orderId) (fun db => (db.deliveryCodes.get c.orderId).isSome)
    "pk_delivery_codes" fun db => db.addCode c

def insertCodeAttempt (a : DeliveryCodeAttempt) : Tx Unit :=
  insertRow (.deliveryCodeAttempt a.id) (fun db => (db.deliveryCodeAttempts.get a.id).isSome)
    "pk_delivery_code_attempts" fun db => db.addCodeAttempt a

def insertMessage (m : OrderMessage) : Tx Unit :=
  insertRow (.orderMessage m.id) (fun db => (db.orderMessages.get m.id).isSome)
    "pk_order_messages" fun db => db.addMessage m

def insertTrackingPoint (p : OrderTrackingPoint) : Tx Unit :=
  insertRow (.orderTrackingPoint p.id) (fun db => (db.orderTrackingPoints.get p.id).isSome)
    "pk_order_tracking_points" fun db => db.addTrackingPoint p

/-- `SET archived_at = … WHERE archived_at IS NULL` on one row. -/
def archive (archivedAt : Time) (m : OrderMessage) : OrderMessage :=
  if m.archivedAt = none then { m with archivedAt := some archivedAt } else m

/-- `UPDATE order_messages SET archived_at = … WHERE … AND archived_at IS NULL`, row by row
over the messages the statement found. -/
def archiveMessages (archivedAt : Time) : List OrderMessage → Tx Unit
  | [] => pure ()
  | m :: ms => do
    updateRow (.orderMessage m.id) fun db => db.modifyMessage m.id (archive archivedAt)
    archiveMessages archivedAt ms

/-- `UPDATE products SET stock_quantity = …`, with the CHECK of the column. -/
def updateStock (id : Id) (stock : ℤ) : Tx Unit := do
  encode [stock] []
  raiseIf (stock < 0) (.integrity "ck_products_stock_quantity_non_negative")
  updateRow (.product id) fun db => db.setStock id stock

/-- One row after another of a `SELECT … FOR UPDATE` over products. -/
def lockProducts : List Id → Tx (List Product)
  | [] => pure []
  | id :: ids => do
    let db ← acquire (.product id)
    let rest ← lockProducts ids
    pure ((db.products.get id).toList ++ rest)

/-! ### What the statements do when nothing else runs -/

section Run

variable {ρ : Type} {db db' : Db} {u : Unit}

/-- An insertion succeeds if its key is not taken. -/
@[simp] theorem run_insertRow_ok {key : Key} {taken : Db → Bool} {constraint : String}
    {put : Db → Db} : (insertRow key taken constraint put).run db = .ok (u, db') ↔
      taken db = false ∧ db' = put db := by
  simp [insertRow]

/-- A locking `SELECT` returns the row and changes nothing. -/
@[simp] theorem run_selectForUpdate_ok {key : Key} {get : Db → Option ρ} {r : Option ρ} :
    (selectForUpdate key get).run db = .ok (r, db') ↔ get db = r ∧ db = db' := by
  simp only [selectForUpdate, bind_eq, run_bind_ok, run_read_ok]
  cases h : get db with
  | none => simp [h]
  | some a => simp [h, and_comm]

/-- A query for one row succeeds with the only row, or with none. -/
@[simp] theorem run_scalarOneOrNone_ok {rows : List ρ} {r : Option ρ} :
    (scalarOneOrNone rows).run db = .ok (r, db') ↔ rows = r.toList ∧ db = db' := by
  rcases rows with _ | ⟨a, _ | ⟨b, rest⟩⟩
  · cases r <;> simp [scalarOneOrNone]
  · cases r with
    | none => simp [scalarOneOrNone]
    | some b => simp [scalarOneOrNone]
  · cases r <;> simp [scalarOneOrNone]

/-- An `UPDATE` of an order always succeeds. -/
@[simp] theorem run_updateOrder_ok {id : Id} {f : Order → Order} :
    (updateOrder id f).run db = .ok (u, db') ↔ db' = db.modifyOrder id f := by
  simp [updateOrder]

/-- The driver encodes values that fit their columns, and no others. -/
@[simp] theorem run_encode_ok {integers bigints : List ℤ} :
    (encode integers bigints).run db = .ok (u, db') ↔
      Encodable integers bigints ∧ db = db' := by
  simp [encode]

/-- An order is inserted if its amounts fit their columns and its identifier is new. -/
@[simp] theorem run_insertOrder_ok {o : Order} : (insertOrder o).run db = .ok (u, db') ↔
    Encodable [] [o.subtotalMinor, o.totalMinor] ∧ db.orders.get o.id = none ∧
      db' = db.addOrder o := by
  simp [insertOrder]

/-- An item is inserted if its numbers fit and it is of at least one piece. -/
@[simp] theorem run_insertOrderItem_ok {i : OrderItem} :
    (insertOrderItem i).run db = .ok (u, db') ↔
      Encodable [i.quantity] [i.unitPriceMinorSnapshot] ∧ 0 < i.quantity ∧
        db.orderItems.get i.id = none ∧ db' = db.addItem i := by
  simp [insertOrderItem]

/-- A `DELETE` of an order takes the rows that hang on it along. -/
@[simp] theorem run_deleteOrderRow_ok {id : Id} :
    (deleteOrderRow id).run db = .ok (u, db') ↔ db' = db.removeOrder id := by
  simp [deleteOrderRow]

/-- Running alone, `SKIP LOCKED` skips no order. -/
@[simp] theorem run_skipLockedOrders_ok {p : Order → Bool} {ids : List Id} {r : List Order} :
    (skipLockedOrders p ids).run db = .ok (r, db') ↔
      (ids.filterMap fun id => db.orders.get id).filter p = r ∧ db = db' := by
  induction ids generalizing r with
  | nil => simp [skipLockedOrders]
  | cons id ids ih =>
    simp only [skipLockedOrders, bind_eq, run_bind_ok, run_tryAcquire_ok, pure_eq, run_ret_ok]
    cases h : db.orders.get id with
    | none => simp [h, ih]
    | some o => by_cases hp : p o = true <;> simp [h, hp, ih, Option.filter, and_comm]

/-- An `UPDATE` of a delivery always succeeds. -/
@[simp] theorem run_updateDelivery_ok {orderId : Id} {f : Delivery → Delivery} :
    (updateDelivery orderId f).run db = .ok (u, db') ↔ db' = db.modifyDelivery orderId f := by
  simp [updateDelivery]

/-- An order gets a delivery if it has none. -/
@[simp] theorem run_insertDelivery_ok {d : Delivery} :
    (insertDelivery d).run db = .ok (u, db') ↔
      db.deliveries.get d.orderId = none ∧ db' = db.addDelivery d := by
  simp [insertDelivery]

/-- An `UPDATE` of an assignment always succeeds. -/
@[simp] theorem run_updateAssignment_ok {id : Id} {f : DriverAssignment → DriverAssignment} :
    (updateAssignment id f).run db = .ok (u, db') ↔ db' = db.modifyAssignment id f := by
  simp [updateAssignment]

/-- An assignment is inserted if its identifier is new. -/
@[simp] theorem run_insertAssignment_ok {a : DriverAssignment} :
    (insertAssignment a).run db = .ok (u, db') ↔
      db.driverAssignments.get a.id = none ∧ db' = db.addAssignment a := by
  simp [insertAssignment]

/-- Under their locks, the assignments are read again. -/
theorem run_lockAssignments_ok {as r : List DriverAssignment} :
    (lockAssignments as).run db = .ok (r, db') ↔
      (as.filterMap fun a => db.driverAssignments.get a.id) = r ∧ db = db' := by
  induction as generalizing r with
  | nil => simp [lockAssignments]
  | cons a as ih =>
    simp only [lockAssignments, bind_eq, run_bind_ok, run_acquire_ok, pure_eq, run_ret_ok]
    cases h : db.driverAssignments.get a.id with
    | none => simp [h, ih]
    | some b => simp [h, ih, and_comm]

/-- Assignments that were just read are locked as they were read. -/
theorem run_lockAssignments_of_mem {as r : List DriverAssignment}
    (has : ∀ a ∈ as, a ∈ db.driverAssignments.rows) :
    (lockAssignments as).run db = .ok (r, db') ↔ as = r ∧ db = db' := by
  have hsame : (as.filterMap fun a => db.driverAssignments.get a.id) = as := by
    rw [List.filterMap_congr fun a ha => Table.mem_rows_iff.mp (has a ha)]
    exact List.filterMap_some
  rw [run_lockAssignments_ok, hsame]

/-- A snapshot is inserted unless its order has one: `ON CONFLICT DO NOTHING`. -/
@[simp] theorem run_insertSnapshot_ok {s : OrderAnalyticsSnapshot} :
    (insertSnapshot s).run db = .ok (u, db') ↔ db' = db.addSnapshot s := by
  simp [insertSnapshot]

/-- An `UPDATE` of a delivery code always succeeds. -/
@[simp] theorem run_updateCode_ok {orderId : Id} {f : DeliveryCode → DeliveryCode} :
    (updateCode orderId f).run db = .ok (u, db') ↔ db' = db.modifyCode orderId f := by
  simp [updateCode]

/-- An order gets a delivery code if it has none. -/
@[simp] theorem run_insertCode_ok {c : DeliveryCode} : (insertCode c).run db = .ok (u, db') ↔
    db.deliveryCodes.get c.orderId = none ∧ db' = db.addCode c := by
  simp [insertCode]

/-- An attempt is inserted if its identifier is new. -/
@[simp] theorem run_insertCodeAttempt_ok {a : DeliveryCodeAttempt} :
    (insertCodeAttempt a).run db = .ok (u, db') ↔
      db.deliveryCodeAttempts.get a.id = none ∧ db' = db.addCodeAttempt a := by
  simp [insertCodeAttempt]

/-- A message is inserted if its identifier is new. -/
@[simp] theorem run_insertMessage_ok {m : OrderMessage} :
    (insertMessage m).run db = .ok (u, db') ↔
      db.orderMessages.get m.id = none ∧ db' = db.addMessage m := by
  simp [insertMessage]

/-- A tracking point is inserted if its identifier is new. -/
@[simp] theorem run_insertTrackingPoint_ok {p : OrderTrackingPoint} :
    (insertTrackingPoint p).run db = .ok (u, db') ↔
      db.orderTrackingPoints.get p.id = none ∧ db' = db.addTrackingPoint p := by
  simp [insertTrackingPoint]

/-- The database after the archiving of `ms`. -/
def Db.archiveAll (db : Db) (archivedAt : Time) (ms : List OrderMessage) : Db :=
  ms.foldl (fun db m => db.modifyMessage m.id (archive archivedAt)) db

/-- Messages are archived one after the other. -/
@[simp] theorem run_archiveMessages_ok {archivedAt : Time} {ms : List OrderMessage} :
    (archiveMessages archivedAt ms).run db = .ok (u, db') ↔ db' = db.archiveAll archivedAt ms := by
  induction ms generalizing db with
  | nil => simp [archiveMessages, Db.archiveAll, eq_comm (a := db)]
  | cons m ms ih =>
    simp only [archiveMessages, bind_eq, run_bind_ok, run_updateRow_ok, ih]
    simp [Db.archiveAll]

end Run

/-! ### What the statements write, and what they do among other transactions -/

section

variable {ρ : Type} {P : Key → (Db → Db) → Prop}

/-- A locking `SELECT` writes nothing. -/
theorem writes_selectForUpdate (key : Key) (get : Db → Option ρ) :
    (selectForUpdate key get).Writes P := by
  refine .bind .read fun db => ?_
  cases get db with
  | none => exact .pure _
  | some r => exact .bind (.acquire key) fun _ => .pure _

/-- A query for one row writes nothing. -/
theorem writes_scalarOneOrNone (rows : List ρ) : (scalarOneOrNone rows).Writes P := by
  rcases rows with _ | ⟨a, _ | ⟨b, rest⟩⟩
  · exact .pure _
  · exact .pure _
  · exact .raise _

/-- An insertion writes its row, under the lock of the key. -/
theorem writes_insertRow {key : Key} {taken : Db → Bool} {constraint : String} {put : Db → Db}
    (hput : P key put) : (insertRow key taken constraint put).Writes P :=
  .checked hput

variable {L : Locking Db Key} {I : Db → Prop} {facts : List (Key × Db)} {w : Db → Db}

/-- After an insertion, the key is locked and was free when the lock was taken. -/
@[simp] theorem wp_insertRow {key : Key} {taken : Db → Bool} {constraint : String} {put : Db → Db}
    {Post : List (Key × Db) → (Db → Db) → Unit → Prop} :
    (insertRow key taken constraint put).wp L I Post facts w ↔
      ∀ s, I s → L.Known facts s → taken (w s) = false → Post ((key, s) :: facts) (put ∘ w) () := by
  simp [insertRow]

/-- After a query for one row, there was at most one. -/
@[simp] theorem wp_scalarOneOrNone {rows : List ρ}
    {Post : List (Key × Db) → (Db → Db) → Option ρ → Prop} :
    (scalarOneOrNone rows).wp L I Post facts w ↔ ∀ r, rows = r.toList → Post facts w r := by
  rcases rows with _ | ⟨a, _ | ⟨b, rest⟩⟩
  · simp [scalarOneOrNone]
  · simp [scalarOneOrNone, Option.forall]
  · simp [scalarOneOrNone, Option.forall]

/-- A row that is found is locked and read again. -/
theorem wp_selectForUpdate_of_read {key : Key} {get : Db → Option ρ}
    {Post : List (Key × Db) → (Db → Db) → Option ρ → Prop}
    (hnone : ∀ s, I s → get (w s) = none → Post facts w none)
    (hsome : ∀ s, I s → L.Known facts s → Post ((key, s) :: facts) w (get (w s))) :
    (selectForUpdate key get).wp L I Post facts w := by
  simp only [selectForUpdate, bind_eq, wp_bind, wp_read]
  intro t ht _
  cases hget : get (w t) with
  | none => exact hnone t ht hget
  | some r => exact hsome

/-- A row that is found is locked; one that is not found is not. -/
theorem wp_selectForUpdate {key : Key} {get : Db → Option ρ}
    {Post : List (Key × Db) → (Db → Db) → Option ρ → Prop} (hnone : Post facts w none)
    (hsome : ∀ s, I s → L.Known facts s → Post ((key, s) :: facts) w (get (w s))) :
    (selectForUpdate key get).wp L I Post facts w :=
  wp_selectForUpdate_of_read (fun _ _ _ => hnone) hsome

end

end Marketplace
