import Marketplace.Order.Effects

/-!
# The life of one order

What the database holds about one order, and what a change of a table does to it.
-/

namespace Marketplace

open Lib OrderService

/-- Everything the database holds about one order that its status depends on. -/
structure Life where
  order : Option Order := none
  items : List OrderItem := []
  delivery : Option Delivery := none
  assignments : List DriverAssignment := []
  snapshot : Option OrderAnalyticsSnapshot := none
  code : Option DeliveryCode := none
deriving DecidableEq

/-- The life of the order `o` in a database. -/
def Db.life (db : Db) (o : Id) : Life :=
  { order := db.orders.get o, items := db.itemsOf o, delivery := db.deliveries.get o,
    assignments := db.assignmentsOf o, snapshot := db.snapshots.get o,
    code := db.deliveryCodes.get o }

namespace Life

/-- The status of the order, while it exists. -/
def status (L : Life) : Option OrderStatus := L.order.map Order.status

/-- What remains of an order that is deleted: the snapshot, which has no foreign key. -/
def bury (L : Life) : Life := { snapshot := L.snapshot }

/-- `INSERT … ON CONFLICT DO NOTHING` of the snapshot. -/
def record (L : Life) (s : OrderAnalyticsSnapshot) : Life :=
  { L with snapshot := L.snapshot.or (some s) }

end Life

/-! ### Lives after a change of the database -/

section Changes

variable {db : Db} {o : Id}

/-- Modifying the order's row changes the order of its life. -/
@[simp] theorem life_modifyOrder_self {f : Order → Order} (hf : ∀ x, (f x).id = x.id) :
    (db.modifyOrder o f).life o = { db.life o with order := (db.life o).order.map f } := by
  simp [Db.life, Db.modifyOrder, Table.get_modify _ _ hf, Db.itemsOf, Db.assignmentsOf]

/-- Modifying another order changes nothing of it. -/
theorem life_modifyOrder_of_ne {f : Order → Order} (hf : ∀ x, (f x).id = x.id) {id : Id}
    (ho : o ≠ id) : (db.modifyOrder id f).life o = db.life o := by
  simp [Db.life, Db.modifyOrder, Table.get_modify _ _ hf, Db.itemsOf, Db.assignmentsOf, ho]

/-- Modifying its delivery changes the delivery of its life. -/
@[simp] theorem life_modifyDelivery_self {f : Delivery → Delivery}
    (hf : ∀ d, (f d).orderId = d.orderId) :
    (db.modifyDelivery o f).life o =
      { db.life o with delivery := (db.life o).delivery.map f } := by
  simp [Db.life, Db.modifyDelivery, Table.get_modify _ _ hf, Db.itemsOf, Db.assignmentsOf]

/-- Modifying the delivery of another order changes nothing of it. -/
theorem life_modifyDelivery_of_ne {f : Delivery → Delivery} (hf : ∀ d, (f d).orderId = d.orderId)
    {id : Id} (ho : o ≠ id) : (db.modifyDelivery id f).life o = db.life o := by
  simp [Db.life, Db.modifyDelivery, Table.get_modify _ _ hf, Db.itemsOf, Db.assignmentsOf, ho]

/-- Modifying its delivery code changes the code of its life. -/
@[simp] theorem life_modifyCode_self {f : DeliveryCode → DeliveryCode}
    (hf : ∀ c, (f c).orderId = c.orderId) :
    (db.modifyCode o f).life o = { db.life o with code := (db.life o).code.map f } := by
  simp [Db.life, Db.modifyCode, Table.get_modify _ _ hf, Db.itemsOf, Db.assignmentsOf]

/-- Modifying the code of another order changes nothing of it. -/
theorem life_modifyCode_of_ne {f : DeliveryCode → DeliveryCode}
    (hf : ∀ c, (f c).orderId = c.orderId) {id : Id} (ho : o ≠ id) :
    (db.modifyCode id f).life o = db.life o := by
  simp [Db.life, Db.modifyCode, Table.get_modify _ _ hf, Db.itemsOf, Db.assignmentsOf, ho]

/-- A new order's life gets its row. -/
theorem life_addOrder {x : Order} (hx : db.orders.get x.id = none) :
    (db.addOrder x).life o =
      if o = x.id then { db.life o with order := some x } else db.life o := by
  by_cases ho : o = x.id
  · simp [Db.life, Db.addOrder, Table.get_insert hx, Db.itemsOf, Db.assignmentsOf, ho]
  · simp [Db.life, Db.addOrder, Table.get_insert hx, Db.itemsOf, Db.assignmentsOf, ho]

/-- A delivery added for the order joins its life. -/
theorem life_addDelivery_self {d : Delivery} (hd : d.orderId = o) :
    (db.addDelivery d).life o =
      { db.life o with delivery := (db.life o).delivery.or (some d) } := by
  simp [Db.life, Db.addDelivery, Table.get_insert_or, Db.itemsOf, Db.assignmentsOf, hd]

/-- A delivery added for another order changes nothing of it. -/
theorem life_addDelivery_of_ne {d : Delivery} {id : Id} (hd : d.orderId = id) (ho : o ≠ id) :
    (db.addDelivery d).life o = db.life o := by
  simp [Db.life, Db.addDelivery, Table.get_insert_or, Db.itemsOf, Db.assignmentsOf, hd, ho]

/-- A code added for the order joins its life. -/
theorem life_addCode_self {c : DeliveryCode} (hc : c.orderId = o) :
    (db.addCode c).life o = { db.life o with code := (db.life o).code.or (some c) } := by
  simp [Db.life, Db.addCode, Table.get_insert_or, Db.itemsOf, Db.assignmentsOf, hc]

/-- A code added for another order changes nothing of it. -/
theorem life_addCode_of_ne {c : DeliveryCode} {id : Id} (hc : c.orderId = id) (ho : o ≠ id) :
    (db.addCode c).life o = db.life o := by
  simp [Db.life, Db.addCode, Table.get_insert_or, Db.itemsOf, Db.assignmentsOf, hc, ho]

/-- A snapshot of the order is recorded in its life. -/
theorem life_addSnapshot_self {s : OrderAnalyticsSnapshot} (hs : s.orderId = o) :
    (db.addSnapshot s).life o = (db.life o).record s := by
  simp [Db.life, Life.record, Db.addSnapshot, Table.get_insert_or, Db.itemsOf, Db.assignmentsOf,
    hs]

/-- A snapshot of another order changes nothing of it. -/
theorem life_addSnapshot_of_ne {s : OrderAnalyticsSnapshot} {id : Id} (hs : s.orderId = id)
    (ho : o ≠ id) : (db.addSnapshot s).life o = db.life o := by
  simp [Db.life, Db.addSnapshot, Table.get_insert_or, Db.itemsOf, Db.assignmentsOf, hs, ho]

/-- An assignment joins the life of its own order. -/
theorem life_addAssignment {a : DriverAssignment} (ha : db.driverAssignments.get a.id = none) :
    (db.addAssignment a).life o =
      if o = a.orderId then { db.life o with assignments := (db.life o).assignments ++ [a] }
      else db.life o := by
  have hrows : (db.addAssignment a).assignmentsOf o =
      if o = a.orderId then db.assignmentsOf o ++ [a] else db.assignmentsOf o := by
    rw [Db.assignmentsOf, Db.addAssignment, Table.rows_insert ha, List.filter_append]
    by_cases ho : o = a.orderId
    · simp [ho, Db.assignmentsOf]
    · have hne : ¬a.orderId = o := fun h => ho h.symm
      simp [ho, hne, Db.assignmentsOf]
  by_cases ho : o = a.orderId
  · subst ho
    rw [if_pos rfl] at hrows
    rw [if_pos rfl]
    simp only [Db.life, hrows]
    rfl
  · rw [if_neg ho] at hrows
    rw [if_neg ho]
    simp only [Db.life, hrows]
    rfl

/-- The assignments of an order after one row of the table has changed. -/
theorem assignmentsOf_modify {id : Id} {f : DriverAssignment → DriverAssignment}
    (hf : ∀ a, (f a).id = a.id ∧ (f a).orderId = a.orderId) :
    (db.modifyAssignment id f).assignmentsOf o =
      (db.assignmentsOf o).map fun a => if a.id = id then f a else a := by
  rw [Db.assignmentsOf, Db.modifyAssignment, Table.rows_modify _ _ fun a => (hf a).1,
    List.filter_map, Db.assignmentsOf]
  congr 1
  refine List.filter_congr fun a _ => ?_
  simp only [Function.comp_apply]
  split
  · rw [(hf a).2]
  · rfl

/-- Modifying an assignment changes it in the life of its own order. -/
theorem life_modifyAssignment {id : Id} {f : DriverAssignment → DriverAssignment}
    (hf : ∀ a, (f a).id = a.id ∧ (f a).orderId = a.orderId) :
    (db.modifyAssignment id f).life o =
      { db.life o with assignments :=
          (db.life o).assignments.map fun a => if a.id = id then f a else a } := by
  simp only [Db.life, assignmentsOf_modify hf]
  rfl

/-- Changing an assignment of one order leaves the lives of the others alone. -/
theorem life_modifyAssignment_of_ne {p : DriverAssignment} {f : DriverAssignment → DriverAssignment}
    (hf : ∀ a, (f a).id = a.id ∧ (f a).orderId = a.orderId) (hp : p ∈ db.driverAssignments.rows)
    (ho : o ≠ p.orderId) : (db.modifyAssignment p.id f).life o = db.life o := by
  rw [life_modifyAssignment hf]
  have hsame : ((db.life o).assignments.map fun a => if a.id = p.id then f a else a) =
      (db.life o).assignments := by
    conv_rhs => rw [← List.map_id (db.life o).assignments]
    refine List.map_congr_left fun a ha => ?_
    obtain ⟨harows, hao⟩ := List.mem_filter.mp ha
    have hne : ¬a.id = p.id := by
      intro hid
      have hap := List.inj_on_of_nodup_map db.driverAssignments.nodup harows hp hid
      exact ho (hap ▸ (of_decide_eq_true hao).symm)
    rw [if_neg hne, id]
  rw [hsame]

/-- Deleting the order cascades to everything but its snapshots. -/
theorem life_removeOrder_self : (db.removeOrder o).life o = (db.life o).bury := by
  have hdel : ∀ {ρ : Type} (l : List ρ) (key : ρ → Id),
      (l.filter fun r => !decide (key r = o)).filter (fun r => key r = o) = [] := by
    intro ρ l key
    rw [List.filter_filter, List.filter_eq_nil_iff]
    intro r _
    by_cases hr : key r = o <;> simp [hr]
  have hget : ∀ {ρ : Type} {key : ρ → Id} (t : Table ρ key),
      (t.delete fun r => key r = o).get o = none := by
    intro ρ key t
    rw [Table.get_delete, Option.filter_eq_none_iff]
    intro r hr
    simp [Table.key_of_get hr]
  simp only [Db.life, Db.removeOrder, Life.bury, Db.itemsOf, Db.assignmentsOf, Table.rows_delete,
    hdel, hget]

/-- Deleting another order changes nothing of it. -/
theorem life_removeOrder_of_ne {id : Id} (ho : o ≠ id) :
    (db.removeOrder id).life o = db.life o := by
  have hdel : ∀ {ρ : Type} (l : List ρ) (key : ρ → Id),
      (l.filter fun r => !decide (key r = id)).filter (fun r => key r = o) =
        l.filter fun r => key r = o := by
    intro ρ l key
    rw [List.filter_filter]
    refine List.filter_congr fun r _ => ?_
    by_cases hr : key r = o
    · simp [hr, ho]
    · simp [hr]
  have hget : ∀ {ρ : Type} {key : ρ → Id} (t : Table ρ key),
      (t.delete fun r => key r = id).get o = t.get o := by
    intro ρ key t
    rw [Table.get_delete]
    cases hr : t.get o with
    | none => rfl
    | some r => simp [Option.filter, Table.key_of_get hr, ho]
  simp only [Db.life, Db.removeOrder, Db.itemsOf, Db.assignmentsOf, Table.rows_delete, hdel, hget]

/-- The addition of items changes no other table. -/
theorem addItems_eq (db : Db) (items : List OrderItem) :
    addItems db items = { db with orderItems := (addItems db items).orderItems } := by
  induction items generalizing db with
  | nil => rfl
  | cons item items ih => exact ih (db.addItem item)

/-- The items join the life of their own order. -/
theorem life_addItems {id : Id} {items : List OrderItem}
    (hrows : (addItems db items).orderItems.rows = db.orderItems.rows ++ items)
    (hitems : ∀ i ∈ items, i.orderId = id) :
    (addItems db items).life o =
      if o = id then { db.life o with items := (db.life o).items ++ items } else db.life o := by
  have hof : (addItems db items).itemsOf o =
      if o = id then db.itemsOf o ++ items else db.itemsOf o := by
    rw [Db.itemsOf, hrows, List.filter_append]
    by_cases ho : o = id
    · have hall : (items.filter fun i => i.orderId = o) = items :=
        List.filter_eq_self.mpr fun i hi => by simp [hitems i hi, ho]
      rw [hall, if_pos ho, Db.itemsOf]
    · have hnil : (items.filter fun i => i.orderId = o) = [] :=
        List.filter_eq_nil_iff.mpr fun i hi => by simp [hitems i hi, Ne.symm ho]
      rw [hnil, if_neg ho, Db.itemsOf, List.append_nil]
  have hlife : (addItems db items).life o =
      { db.life o with items := (addItems db items).itemsOf o } := by
    rw [addItems_eq]
    rfl
  rw [hlife, hof]
  by_cases ho : o = id
  · rw [if_pos ho, if_pos ho]
    rfl
  · rw [if_neg ho, if_neg ho]
    rfl

/-- The settings are no part of an order's life. -/
@[simp] theorem life_setSettings {ps : PlatformSettings} : (db.setSettings ps).life o = db.life o :=
  rfl

/-- The stock is no part of an order's life. -/
@[simp] theorem life_setStock {id : Id} {stock : ℤ} : (db.setStock id stock).life o = db.life o :=
  rfl

/-- The chat is no part of an order's life. -/
@[simp] theorem life_addMessage {m : OrderMessage} : (db.addMessage m).life o = db.life o := rfl

/-- The attempts are no part of an order's life. -/
@[simp] theorem life_addCodeAttempt {a : DeliveryCodeAttempt} :
    (db.addCodeAttempt a).life o = db.life o := rfl

/-- The reported positions are no part of an order's life. -/
@[simp] theorem life_addTrackingPoint {p : OrderTrackingPoint} :
    (db.addTrackingPoint p).life o = db.life o := rfl

/-- Archiving messages changes nothing of it. -/
@[simp] theorem life_archiveAll {archivedAt : Time} {ms : List OrderMessage} :
    (db.archiveAll archivedAt ms).life o = db.life o := by
  induction ms generalizing db with
  | nil => rfl
  | cons m ms ih => exact ih

/-- Taking stock changes nothing of it. -/
@[simp] theorem life_takeStock {lines : List (Product × ℤ)} :
    (takeStock db lines).life o = db.life o := by
  induction lines generalizing db with
  | nil => rfl
  | cons line lines ih =>
    simp only [takeStock, List.foldl_cons]
    cases line.1.stockQuantity with
    | none => exact ih
    | some stock => exact ih

end Changes

end Marketplace
