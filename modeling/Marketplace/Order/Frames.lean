import Marketplace.Order.Serve

/-!
# What the operations write

The kinds of writes of every operation: those about an existing order, those of the
settings, and those that place an order. So no operation but the placing of an order
writes to `products`, and none but the retention settings, a deletion and the purge job
writes to `platform_settings`.
-/

namespace Marketplace

open Lib Txn OrderService DeliveryFlow DeliveryTracking

/-! ### Programs that only read -/

section Reading

variable {P : Key → (Db → Db) → Prop} {caller : User} {orderId : Id}

/-- Locking the products of an order writes nothing. -/
theorem writes_lockProducts (ids : List Id) : (lockProducts ids).Writes P := by
  induction ids with
  | nil => exact .pure _
  | cons id ids ih => exact .bind (.acquire _) fun _ => .bind ih fun _ => .pure _

/-- Locking the assignments of an order writes nothing. -/
theorem writes_lockAssignments (as : List DriverAssignment) : (lockAssignments as).Writes P := by
  induction as with
  | nil => exact .pure _
  | cons a as ih => exact .bind (.acquire _) fun _ => .bind ih fun _ => .pure _

/-- Collecting the orders that nobody holds writes nothing. -/
theorem writes_skipLockedOrders (p : Order → Bool) (ids : List Id) :
    (skipLockedOrders p ids).Writes P := by
  induction ids with
  | nil => exact .pure _
  | cons id ids ih => exact .bind (.tryAcquire _) fun _ => .bind ih fun _ => .pure _

/-- Loading an order again writes nothing. -/
theorem writes_loaded : (loaded orderId).Writes P :=
  .bind (.bind .read fun _ => .pure _) fun _ => .getOrRaise _ _

/-- Locking the order and checking who asks writes nothing. -/
theorem writes_lockOrderOr404 : (lockOrderOr404 orderId caller).Writes P :=
  .bind (writes_selectForUpdate _ _) fun _ => .bind (.getOrRaise _ _) fun _ =>
    .bind (.raiseIf _ _) fun _ => .bind (.raiseIf _ _) fun _ => .bind (.raiseIf _ _) fun _ =>
    .pure _

/-- Reading an order writes nothing. -/
theorem writes_getOrderOr404 : (getOrderOr404 orderId).Writes P :=
  .bind .read fun _ => .bind (.getOrRaise _ _) fun _ => .bind (.raiseIf _ _) fun _ => .pure _

/-- Looking for the caller's profile writes nothing. -/
theorem writes_getCallerSeller : (getCallerSeller caller).Writes P :=
  .bind .read fun _ => .bind (writes_scalarOneOrNone _) fun _ => .getOrRaise _ _

/-- Checking that nobody delivers the order yet writes nothing. -/
theorem writes_ensureFulfillmentOpen : (ensureFulfillmentOpen orderId).Writes P :=
  .bind .read fun _ => .bind (.raiseIf _ _) fun _ => .bind .read fun _ =>
    .bind (writes_scalarOneOrNone _) fun _ => .raiseIf _ _

/-- Looking for a driver writes nothing. -/
theorem writes_findDriver (driverId : Id) : (findDriver driverId).Writes P :=
  .bind .read fun _ => .pure _

/-- Checking who may cancel writes nothing. -/
theorem writes_ensureMayCancel (status : OrderStatus) :
    (ensureMayCancel caller status).Writes P := by
  unfold ensureMayCancel
  cases caller.role with
  | customer => exact .raiseIf _ _
  | seller => exact .raiseIf _ _
  | admin => exact .pure _
  | driver => exact .raise _

/-- Matching products and quantities writes nothing. -/
theorem writes_resolveLines (products : List Product) (qty : List (Id × ℤ)) :
    (resolveLines products qty).Writes P := by
  induction qty with
  | nil => exact .pure _
  | cons entry qty ih => exact .bind (.getOrRaise _ _) fun _ => .bind ih fun _ => .pure _

/-- Checking stock and visibility writes nothing. -/
theorem writes_checkLines (lines : List (Product × ℤ)) : (checkLines lines).Writes P := by
  induction lines with
  | nil => exact .pure _
  | cons line lines ih => exact .bind (.raiseIf _ _) fun _ => .bind (.raiseIf _ _) fun _ => ih

/-- Finding out who writes in a chat writes nothing. -/
theorem writes_chatRole (order : Order) (delivery : Option Delivery) :
    (chatRole caller order delivery).Writes P :=
  .ite (.raise _) (.ite (.pure _) (.ite (.pure _) (.raise _)))

end Reading

/-! ### The helpers among other transactions -/

section Helpers

variable {L : Locking Db Key} {I : Db → Prop} {facts : List (Key × Db)} {w : Db → Db}
  {caller : User} {orderId : Id}

/-- At the end of a transition the order is loaded, whatever it has become. -/
theorem wp_loaded {Post : List (Key × Db) → (Db → Db) → OrderFull → Prop}
    (h : ∀ full, Post facts w full) : (loaded orderId).wp L I Post facts w := by
  simp only [loaded, loadOrderFull, bind_eq, wp_bind, wp_read, pure_eq, wp_ret, wp_getOrRaise]
  exact fun _ _ _ full _ => h full

/-- The caller's profile is some seller. -/
theorem wp_getCallerSeller {Post : List (Key × Db) → (Db → Db) → Seller → Prop}
    (h : ∀ seller, Post facts w seller) : (getCallerSeller caller).wp L I Post facts w := by
  simp only [getCallerSeller, bind_eq, wp_bind, wp_read, wp_scalarOneOrNone, wp_getOrRaise]
  exact fun _ _ _ _ _ seller _ => h seller

/-- A driver is looked for and found or not. -/
theorem wp_findDriver {driverId : Id} {Post : List (Key × Db) → (Db → Db) → Option User → Prop}
    (h : ∀ user, Post facts w user) : (findDriver driverId).wp L I Post facts w := by
  simp only [findDriver, bind_eq, wp_bind, wp_read, pure_eq, wp_ret]
  exact fun _ _ _ => h _

/-- From here on the order is as it was when its lock was taken. -/
theorem wp_lockOrderOr404 {Post : List (Key × Db) → (Db → Db) → Order → Prop}
    (h : ∀ s order, I s → L.Known facts s → Actionable (w s) caller orderId order →
      Post ((.order orderId, s) :: facts) w order) :
    (lockOrderOr404 orderId caller).wp L I Post facts w := by
  simp only [lockOrderOr404, loadOrderLocked, bind_eq, wp_bind]
  refine wp_selectForUpdate (by simp) fun s hI hK => ?_
  simp only [wp_getOrRaise, wp_raiseIf, pure_eq, wp_ret]
  intro order hget hlive hseller hcustomer
  refine h s order hI hK ⟨hget, not_not.mp hlive, fun hrole => ?_, fun hrole => ?_⟩
  · by_contra hne
    exact hseller ⟨hrole, hne⟩
  · by_contra hne
    exact hcustomer ⟨hrole, hne⟩

/-- The two lookups may see two databases. -/
theorem wp_ensureFulfillmentOpen {Post : List (Key × Db) → (Db → Db) → Unit → Prop}
    (h : ∀ s t, I s → L.Known facts s → I t → L.Known facts t →
      (w s).deliveries.get orderId = none →
      (∀ a ∈ (w t).assignmentsOf orderId, a.status ∉ activeAssignmentStatuses) →
      Post facts w ()) :
    (ensureFulfillmentOpen orderId).wp L I Post facts w := by
  simp only [ensureFulfillmentOpen, bind_eq, wp_bind, wp_read, wp_scalarOneOrNone, wp_raiseIf]
  intro s hs hks hdelivery t ht hkt found hfound hnone
  obtain rfl : found = none := Option.not_isSome_iff_eq_none.mp hnone
  refine h s t hs hks ht hkt (Option.not_isSome_iff_eq_none.mp hdelivery) fun a ha hactive => ?_
  rw [Option.toList_none, List.filter_eq_nil_iff] at hfound
  exact hfound a ha (decide_eq_true hactive)

/-- Assignments that no other transaction can have changed are locked as they were read. -/
theorem wp_lockAssignments {as : List DriverAssignment}
    {Post : List (Key × Db) → (Db → Db) → List DriverAssignment → Prop}
    (has : ∀ s, I s → L.Known facts s → ∀ a ∈ as, (w s).driverAssignments.get a.id = some a)
    (h : ∀ facts', facts ⊆ facts' → Post facts' w as) :
    (lockAssignments as).wp L I Post facts w := by
  induction as generalizing facts Post with
  | nil => exact h facts (List.Subset.refl _)
  | cons a as ih =>
    simp only [lockAssignments, bind_eq, wp_bind, wp_acquire]
    intro s hs hks
    have hrest : ∀ t, I t → L.Known ((.driverAssignment a.id, s) :: facts) t →
        ∀ b ∈ as, (w t).driverAssignments.get b.id = some b :=
      fun t ht hkt b hb => has t ht (Locking.known_cons.mp hkt).2 b (List.mem_cons_of_mem a hb)
    refine ih hrest fun facts' hsub => ?_
    simp only [pure_eq, wp_ret, has s hs hks a List.mem_cons_self, Option.toList_some,
      List.singleton_append]
    exact h facts' fun f hf => hsub (List.mem_cons_of_mem _ hf)

/-- One row after another is locked and written. -/
theorem wp_cancelAssignments {as : List DriverAssignment}
    {Post : List (Key × Db) → (Db → Db) → Unit → Prop}
    (h : ∀ facts', facts ⊆ facts' → Post facts' (fun s => cancelAll (w s) as) ()) :
    (cancelAssignments as).wp L I Post facts w := by
  induction as generalizing facts w with
  | nil => exact h facts (List.Subset.refl _)
  | cons a as ih =>
    simp only [cancelAssignments, updateAssignment, bind_eq, wp_bind, wp_updateRow]
    exact fun s _ _ => ih fun facts' hsub => h facts' fun f hf => hsub (List.mem_cons_of_mem _ hf)

/-- The check of who may cancel changes nothing. -/
theorem wp_ensureMayCancel {status : OrderStatus}
    {Post : List (Key × Db) → (Db → Db) → Unit → Prop} (h : Post facts w ()) :
    (ensureMayCancel caller status).wp L I Post facts w := by
  unfold ensureMayCancel
  cases caller.role with
  | customer => exact wp_raiseIf.mpr fun _ => h
  | seller => exact wp_raiseIf.mpr fun _ => h
  | admin => exact h
  | driver => exact wp_raise

end Helpers

/-! ### The kinds of writes -/

/-- What a write about a placed order is. -/
inductive WriteKind
  /-- A change of the order row, which sets its status or leaves it alone. -/
  | order (target : Option OrderStatus)
  | removal | start | deliver | giveTo | moveTo | patch | addDelivery | assign
  | cancelAssignment | addAssignment | snapshot | code | addCode | addAttempt | archive | addMessage
  | trackingPoint | settings
deriving DecidableEq

/-- A change of an order that has been placed, which may set its status: whose it is and what it
costs stay, it is stamped as delivered when it becomes so, and as sent out only then. -/
structure OrderEdit (target : Option OrderStatus) (f : Order → Order) : Prop where
  id : ∀ x, (f x).id = x.id
  customerId : ∀ x, (f x).customerId = x.customerId
  sellerId : ∀ x, (f x).sellerId = x.sellerId
  subtotalMinor : ∀ x, (f x).subtotalMinor = x.subtotalMinor
  totalMinor : ∀ x, (f x).totalMinor = x.totalMinor
  status : ∀ x, (f x).status = target.getD x.status
  deletedAt : ∀ x, (f x).deletedAt = x.deletedAt
  outForDeliveryAt : target ≠ some .outForDelivery →
    ∀ x, (f x).outForDeliveryAt = x.outForDeliveryAt
  deliveredAt : ∀ x, if target = some .delivered then (f x).deliveredAt ≠ none
    else (f x).deliveredAt = x.deliveredAt

/-- The writes about orders that have been placed, of the kinds `K`. -/
inductive OrderWrite (K : List WriteKind) : Key → (Db → Db) → Prop
  | modifyOrder (id) (target f) (hf : OrderEdit target f)
      (h : .order target ∈ K := by decide) :
      OrderWrite K (.order id) fun db => db.modifyOrder id f
  | removeOrder (id) (h : .removal ∈ K := by decide) :
      OrderWrite K (.order id) fun db => db.removeOrder id
  | start (orderId now) (h : .start ∈ K := by decide) :
      OrderWrite K (.delivery orderId) fun db => db.modifyDelivery orderId (Delivery.start now)
  | deliver (orderId now duration) (h : .deliver ∈ K := by decide) :
      OrderWrite K (.delivery orderId) fun db =>
        db.modifyDelivery orderId (Delivery.deliver now duration)
  | giveTo (orderId driver) (h : .giveTo ∈ K := by decide) :
      OrderWrite K (.delivery orderId) fun db => db.modifyDelivery orderId (Delivery.giveTo driver)
  | moveTo (orderId lat lng) (h : .moveTo ∈ K := by decide) :
      OrderWrite K (.delivery orderId) fun db => db.modifyDelivery orderId (Delivery.moveTo lat lng)
  | patch (orderId distance duration) (h : .patch ∈ K := by decide) :
      OrderWrite K (.delivery orderId) fun db =>
        db.modifyDelivery orderId (Delivery.patch distance duration)
  /-- A delivery has no position when it is created. -/
  | addDelivery (d) (hd : d.currentLat = none ∧ d.currentLng = none)
      (h : .addDelivery ∈ K := by decide) :
      OrderWrite K (.delivery d.orderId) fun db => db.addDelivery d
  | assign (id driver admin now) (h : .assign ∈ K := by decide) :
      OrderWrite K (.driverAssignment id) fun db =>
        db.modifyAssignment id (DriverAssignment.assign driver admin now)
  | cancelAssignment (id) (h : .cancelAssignment ∈ K := by decide) :
      OrderWrite K (.driverAssignment id) fun db => db.modifyAssignment id DriverAssignment.cancel
  | addAssignment (a) (h : .addAssignment ∈ K := by decide) :
      OrderWrite K (.driverAssignment a.id) fun db => db.addAssignment a
  | addSnapshot (s) (h : .snapshot ∈ K := by decide) :
      OrderWrite K (.snapshot s.orderId) fun db => db.addSnapshot s
  | modifyCode (orderId f) (h : .code ∈ K := by decide) :
      OrderWrite K (.deliveryCode orderId) fun db => db.modifyCode orderId f
  | addCode (c) (h : .addCode ∈ K := by decide) :
      OrderWrite K (.deliveryCode c.orderId) fun db => db.addCode c
  | addCodeAttempt (a) (h : .addAttempt ∈ K := by decide) :
      OrderWrite K (.deliveryCodeAttempt a.id) fun db => db.addCodeAttempt a
  | archive (id archivedAt) (h : .archive ∈ K := by decide) :
      OrderWrite K (.orderMessage id) fun db => db.modifyMessage id (archive archivedAt)
  | addMessage (m) (h : .addMessage ∈ K := by decide) :
      OrderWrite K (.orderMessage m.id) fun db => db.addMessage m
  | addTrackingPoint (p) (h : .trackingPoint ∈ K := by decide) :
      OrderWrite K (.orderTrackingPoint p.id) fun db => db.addTrackingPoint p

/-- The writes about placed orders and those of the settings, of the kinds `K`. -/
inductive ServiceWrite (K : List WriteKind) : Key → (Db → Db) → Prop
  | order {key f} : OrderWrite K key f → ServiceWrite K key f
  | setSettings (ps) (h : .settings ∈ K := by decide) :
      ServiceWrite K .platformSettings fun db => db.setSettings ps

/-- The writes that place an order. -/
inductive PlaceWrite : Key → (Db → Db) → Prop
  | setStock (id stock) : PlaceWrite (.product id) fun db => db.setStock id stock
  | addOrder (o) : PlaceWrite (.order o.id) fun db => db.addOrder o
  | addItem (i) : PlaceWrite (.orderItem i.id) fun db => db.addItem i

section Edits

variable {now : Time} {reason : Option String}

/-- Accepting keeps the frozen columns and sets the status. -/
theorem orderEdit_accept : OrderEdit (some .accepted) (Order.accept now) :=
  ⟨fun _ => rfl, fun _ => rfl, fun _ => rfl, fun _ => rfl, fun _ => rfl, fun _ => rfl,
    fun _ => rfl, fun _ _ => rfl, fun _ => rfl⟩

/-- Preparing keeps the frozen columns and sets the status. -/
theorem orderEdit_prepare : OrderEdit (some .preparing) (Order.prepare now) :=
  ⟨fun _ => rfl, fun _ => rfl, fun _ => rfl, fun _ => rfl, fun _ => rfl, fun _ => rfl,
    fun _ => rfl, fun _ _ => rfl, fun _ => rfl⟩

/-- Sending out keeps the frozen columns and sets the status. -/
theorem orderEdit_sendOut : OrderEdit (some .outForDelivery) (Order.sendOut now) :=
  ⟨fun _ => rfl, fun _ => rfl, fun _ => rfl, fun _ => rfl, fun _ => rfl, fun _ => rfl,
    fun _ => rfl, fun h => absurd rfl h, fun _ => rfl⟩

/-- Delivering keeps the frozen columns and stamps the delivery. -/
theorem orderEdit_deliver : OrderEdit (some .delivered) (Order.deliver now) :=
  ⟨fun _ => rfl, fun _ => rfl, fun _ => rfl, fun _ => rfl, fun _ => rfl, fun _ => rfl,
    fun _ => rfl, fun _ _ => rfl, fun _ => Option.some_ne_none _⟩

/-- Completing keeps the frozen columns and sets the status. -/
theorem orderEdit_complete : OrderEdit (some .completed) (Order.complete now) :=
  ⟨fun _ => rfl, fun _ => rfl, fun _ => rfl, fun _ => rfl, fun _ => rfl, fun _ => rfl,
    fun _ => rfl, fun _ _ => rfl, fun _ => rfl⟩

/-- Cancelling keeps the frozen columns and sets the status. -/
theorem orderEdit_cancel : OrderEdit (some .cancelled) (Order.cancel now reason) :=
  ⟨fun _ => rfl, fun _ => rfl, fun _ => rfl, fun _ => rfl, fun _ => rfl, fun _ => rfl,
    fun _ => rfl, fun _ _ => rfl, fun _ => rfl⟩

/-- A driver's acceptance keeps the frozen columns and the status. -/
theorem orderEdit_acceptByDriver : OrderEdit none (Order.acceptByDriver now) :=
  ⟨fun _ => rfl, fun _ => rfl, fun _ => rfl, fun _ => rfl, fun _ => rfl, fun _ => rfl,
    fun _ => rfl, fun _ _ => rfl, fun _ => rfl⟩

/-- Locking the code keeps the frozen columns and the status. -/
theorem orderEdit_lockCode : OrderEdit none Order.lockCode :=
  ⟨fun _ => rfl, fun _ => rfl, fun _ => rfl, fun _ => rfl, fun _ => rfl, fun _ => rfl,
    fun _ => rfl, fun _ _ => rfl, fun _ => rfl⟩

/-- A delivery by code keeps the frozen columns and stamps the delivery. -/
theorem orderEdit_deliverByCode : OrderEdit (some .delivered) (Order.deliverByCode now) :=
  ⟨fun _ => rfl, fun _ => rfl, fun _ => rfl, fun _ => rfl, fun _ => rfl, fun _ => rfl,
    fun _ => rfl, fun _ _ => rfl, fun _ => Option.some_ne_none _⟩

end Edits

section Kinds

variable {K : List WriteKind} {key : Key} {f : Db → Db}

/-- No write about an order touches the settings. -/
theorem OrderWrite.platformSettings (h : OrderWrite K key f) (db : Db) :
    (f db).platformSettings = db.platformSettings := by
  cases h <;> rfl

/-- No write of a service about orders touches the products. -/
theorem ServiceWrite.products (h : ServiceWrite K key f) (db : Db) :
    (f db).products = db.products := by
  cases h with
  | order h => cases h <;> rfl
  | setSettings ps => rfl

end Kinds

/-- Placing an order leaves the settings alone. -/
theorem PlaceWrite.platformSettings {key : Key} {f : Db → Db} (h : PlaceWrite key f) (db : Db) :
    (f db).platformSettings = db.platformSettings := by
  cases h <;> rfl

section Operations

variable {sha256 : String → String} {env : Env} {caller : User} {orderId : Id} {K : List WriteKind}

/-- Accepting writes the accepted order. -/
theorem acceptOrder_writes :
    (OrderService.acceptOrder env caller orderId).Writes (OrderWrite [.order (some .accepted)]) :=
  .bind (.raiseIf _ _) fun _ => .bind writes_lockOrderOr404 fun _ => .bind (.raiseIf _ _) fun _ =>
    .bind (.updateRow (.modifyOrder _ _ _ orderEdit_accept (by decide))) fun _ => writes_loaded

/-- Preparing writes the order that is being prepared. -/
theorem markPreparing_writes :
    (markPreparing env caller orderId).Writes (OrderWrite [.order (some .preparing)]) :=
  .bind (.raiseIf _ _) fun _ => .bind writes_lockOrderOr404 fun _ => .bind (.raiseIf _ _) fun _ =>
    .bind (.updateRow (.modifyOrder _ _ _ orderEdit_prepare (by decide))) fun _ => writes_loaded

/-- Choosing to deliver oneself adds a delivery. -/
theorem chooseSelfDelivery_writes :
    (chooseSelfDelivery env caller orderId).Writes (OrderWrite [.addDelivery]) :=
  .bind (.raiseIf _ _) fun _ => .bind writes_lockOrderOr404 fun _ => .bind (.raiseIf _ _) fun _ =>
    .bind writes_ensureFulfillmentOpen fun _ => .bind writes_getCallerSeller fun _ =>
    .bind (writes_insertRow (.addDelivery _ ⟨rfl, rfl⟩ (by decide))) fun _ => writes_loaded

/-- Requesting a driver adds an assignment. -/
theorem requestDriver_writes :
    (requestDriver env caller orderId).Writes (OrderWrite [.addAssignment]) :=
  .bind (.raiseIf _ _) fun _ => .bind writes_lockOrderOr404 fun _ => .bind (.raiseIf _ _) fun _ =>
    .bind writes_ensureFulfillmentOpen fun _ => .bind writes_getCallerSeller fun _ =>
    .bind (writes_insertRow (.addAssignment _ (by decide))) fun _ => writes_loaded

/-- Assigning a driver writes the assignment. -/
theorem assignDriver_writes (driverId : Id) :
    (assignDriver env caller orderId driverId).Writes (OrderWrite [.assign]) :=
  .bind (.raiseIf _ _) fun _ => .bind writes_lockOrderOr404 fun _ => .bind (.raiseIf _ _) fun _ =>
    .bind (writes_findDriver _) fun _ => .bind (.raiseIf _ _) fun _ => .bind .read fun _ =>
    .bind (writes_lockAssignments _) fun _ => .bind (.getOrRaise _ _) fun _ =>
    .bind (.raiseIf _ _) fun _ =>
    .bind (.updateRow (.assign _ _ _ _ (by decide))) fun _ => writes_loaded

/-- A delivery that starts is added or its row is written. -/
theorem startDelivery_writes (order : Order) (delivery : Option Delivery)
    (hadd : .addDelivery ∈ K := by decide) (hstart : .start ∈ K := by decide) :
    (startDelivery env caller order delivery).Writes (OrderWrite K) := by
  cases delivery with
  | none =>
    exact .bind .read fun _ => .bind (writes_scalarOneOrNone _) fun _ =>
      .bind (.getOrRaise _ _) fun _ => .bind (.raiseIf _ _) fun _ => .bind (.raiseIf _ _) fun _ =>
      writes_insertRow (.addDelivery _ ⟨rfl, rfl⟩ hadd)
  | some d =>
    exact .bind (.raiseIf _ _) fun _ => .bind (.raiseIf _ _) fun _ => .bind (.raiseIf _ _) fun _ =>
      .updateRow (.start _ _ hstart)

/-- Sending out writes the order and starts its delivery. -/
theorem outForDelivery_writes :
    (outForDelivery env caller orderId).Writes
      (OrderWrite [.order (some .outForDelivery), .addDelivery, .start]) :=
  .bind (.raiseIf _ _) fun _ => .bind writes_lockOrderOr404 fun _ => .bind (.raiseIf _ _) fun _ =>
    .bind (.raiseIf _ _) fun _ => .bind (writes_selectForUpdate _ _) fun _ =>
    .bind (startDelivery_writes _ _ (by decide) (by decide)) fun _ =>
    .bind (.updateRow (.modifyOrder _ _ _ orderEdit_sendOut (by decide))) fun _ => writes_loaded

/-- Delivering writes the order and its delivery. -/
theorem markDelivered_writes :
    (markDelivered env caller orderId).Writes (OrderWrite [.order (some .delivered), .deliver]) :=
  .bind (.raiseIf _ _) fun _ => .bind writes_lockOrderOr404 fun _ => .bind (.raiseIf _ _) fun _ =>
    .bind (writes_selectForUpdate _ _) fun _ => .bind (.getOrRaise _ _) fun _ =>
    .bind (.raiseIf _ _) fun _ => .bind (.raiseIf _ _) fun _ => .bind (.raiseIf _ _) fun _ =>
    .bind (.updateRow (.modifyOrder _ _ _ orderEdit_deliver (by decide))) fun _ =>
    .bind (.updateRow (.deliver _ _ _ (by decide))) fun _ => writes_loaded

/-- A snapshot is one new row. -/
theorem writeSnapshot_writes (i : ℕ) (order : Order) (h : .snapshot ∈ K := by decide) :
    (writeSnapshot env i order).Writes (OrderWrite K) :=
  .bind .read fun _ => .updateRow (.addSnapshot _ h)

/-- Completing writes the order and records it. -/
theorem completeOrder_writes :
    (completeOrder env caller orderId).Writes (OrderWrite [.order (some .completed), .snapshot]) :=
  .bind (.raiseIf _ _) fun _ => .bind writes_lockOrderOr404 fun _ => .bind (.raiseIf _ _) fun _ =>
    .bind (.updateRow (.modifyOrder _ _ _ orderEdit_complete (by decide))) fun _ =>
    .bind (writeSnapshot_writes _ _ (by decide)) fun _ => writes_loaded

/-- Cancelling the assignments writes each of them. -/
theorem cancelAssignments_writes (as : List DriverAssignment)
    (h : .cancelAssignment ∈ K := by decide) : (cancelAssignments as).Writes (OrderWrite K) := by
  induction as with
  | nil => exact .pure _
  | cons a as ih => exact .bind (.updateRow (.cancelAssignment _ h)) fun _ => ih

/-- Cancelling writes the order and its assignments. -/
theorem cancelOrder_writes (reason : Option String) :
    (cancelOrder env caller orderId reason).Writes
      (OrderWrite [.order (some .cancelled), .cancelAssignment]) :=
  .bind writes_lockOrderOr404 fun _ => .bind (.raiseIf _ _) fun _ =>
    .bind (writes_ensureMayCancel _) fun _ => .bind .read fun _ =>
    .bind (writes_lockAssignments _) fun _ =>
    .bind (.updateRow (.modifyOrder _ _ _ orderEdit_cancel (by decide))) fun _ =>
    .bind (cancelAssignments_writes _ (by decide)) fun _ => writes_loaded

/-- The job completes orders and records them. -/
theorem autoComplete_writes (now : Time) (i : ℕ) (orders : List Order)
    (horder : .order (some .completed) ∈ K := by decide) (hsnap : .snapshot ∈ K := by decide) :
    (autoComplete env now i orders).Writes (OrderWrite K) := by
  induction orders generalizing i with
  | nil => exact .pure _
  | cons x orders ih =>
    exact .ite (ih i) (.bind (.updateRow (.modifyOrder _ _ _ orderEdit_complete horder)) fun _ =>
      .bind (writeSnapshot_writes _ _ hsnap) fun _ => .bind (ih (i + 1)) fun _ => .pure _)

/-- The job records orders and removes them. -/
theorem purge_writes (i : ℕ) (orders : List Order) (hsnap : .snapshot ∈ K := by decide)
    (hremoval : .removal ∈ K := by decide) : (purge env i orders).Writes (OrderWrite K) := by
  induction orders generalizing i with
  | nil => exact .pure _
  | cons x orders ih =>
    have hrest : (deleteOrderRow x.id >>= fun _ => purge env (i + 1) orders >>= fun n =>
        pure (n + 1)).Writes (OrderWrite K) :=
      .bind (.updateRow (.removeOrder _ hremoval)) fun _ => .bind (ih (i + 1)) fun _ => .pure _
    exact .ite (.bind (writeSnapshot_writes _ _ hsnap) fun _ => hrest) hrest

/-- A driver takes a delivery over, or a new one is added. -/
theorem takeDelivery_writes (order : Order) (delivery : Option Delivery)
    (hadd : .addDelivery ∈ K := by decide) (hgive : .giveTo ∈ K := by decide) :
    (takeDelivery env caller order delivery).Writes (OrderWrite K) := by
  cases delivery with
  | none => exact writes_insertRow (.addDelivery _ ⟨rfl, rfl⟩ hadd)
  | some d => exact .updateRow (.giveTo _ _ hgive)

/-- A driver's acceptance writes the order, its delivery and its code. -/
theorem driverAccept_writes :
    (DeliveryFlow.acceptOrder sha256 env caller orderId).Writes
      (OrderWrite [.order none, .addDelivery, .giveTo, .addCode]) := by
  refine .bind (.raiseIf _ _) fun _ => .bind writes_getOrderOr404 fun order =>
    .bind .read fun db => ?_
  split
  · exact .pure _
  · exact .bind .read fun _ =>
      .bind (.updateRow (.modifyOrder _ _ _ orderEdit_acceptByDriver (by decide))) fun _ =>
      .bind (takeDelivery_writes _ _ (by decide) (by decide)) fun _ =>
      .bind (writes_insertRow (.addCode _ (by decide))) fun _ => .pure _

/-- A position is one more tracking point, and the delivery's last one. -/
theorem recordLocation_writes (lat lng : Coordinate) :
    (recordLocation env caller orderId lat lng).Writes (OrderWrite [.trackingPoint, .moveTo]) :=
  .bind (.raiseIf _ _) fun _ => .bind writes_getOrderOr404 fun _ =>
    .bind (writes_insertRow (.addTrackingPoint _ (by decide))) fun _ => .bind .read fun _ =>
    .ite (.bind (.updateRow (.moveTo _ _ _ (by decide))) fun _ => .pure _) (.pure _)

/-- Reading the route writes nothing. -/
theorem getRoute_writes : (getRoute caller orderId).Writes (OrderWrite []) :=
  .bind (.raiseIf _ _) fun _ => .bind writes_getOrderOr404 fun _ => .pure _

/-- Archiving writes the messages of the chat. -/
theorem archiveMessages_writes (archivedAt : Time) (ms : List OrderMessage)
    (h : .archive ∈ K := by decide) : (archiveMessages archivedAt ms).Writes (OrderWrite K) := by
  induction ms with
  | nil => exact .pure _
  | cons m ms ih => exact .bind (.updateRow (.archive _ _ h)) fun _ => ih

/-- A refused code is counted, and locked in the end. -/
theorem refuseCode_writes (order : Order) (code : DeliveryCode) (submitted : String)
    (horder : .order none ∈ K := by decide) (hcode : .code ∈ K := by decide)
    (hattempt : .addAttempt ∈ K := by decide) :
    (refuseCode env caller order code submitted).Writes (OrderWrite K) :=
  .ite (.bind (.updateRow (.modifyOrder _ _ _ orderEdit_lockCode horder)) fun _ =>
      .bind (.updateRow (.modifyCode _ _ hcode)) fun _ =>
      .bind (writes_insertRow (.addCodeAttempt _ hattempt)) fun _ => .raise _)
    (.bind (.updateRow (.modifyCode _ _ hcode)) fun _ =>
      .bind (writes_insertRow (.addCodeAttempt _ hattempt)) fun _ => .raise _)

/-- Submitting a code writes the order, the code, the attempt and the chat. -/
theorem completeDelivery_writes (submitted : String) :
    (completeDelivery sha256 env caller orderId submitted).Writes
      (OrderWrite [.order none, .order (some .delivered), .code, .addAttempt, .archive]) := by
  refine .bind (.raiseIf _ _) fun _ => .bind writes_getOrderOr404 fun order => .bind .read fun db =>
    .bind (.getOrRaise _ _) fun code => ?_
  cases checkCode sha256 code submitted with
  | locked => exact .bind (writes_insertRow (.addCodeAttempt _ (by decide))) fun _ => .raise _
  | wrong => exact refuseCode_writes _ _ _ (by decide) (by decide) (by decide)
  | right =>
    exact .bind .read fun _ => .bind (archiveMessages_writes _ _ (by decide)) fun _ =>
      .bind (.updateRow (.modifyOrder _ _ _ orderEdit_deliverByCode (by decide))) fun _ =>
      .bind (.updateRow (.modifyCode _ _ (by decide))) fun _ =>
      .bind (writes_insertRow (.addCodeAttempt _ (by decide))) fun _ => .pure _

/-- A chat message is one new row. -/
theorem postOrderMessage_writes (ciphertext nonce : String) :
    (postOrderMessage env caller orderId ciphertext nonce).Writes (OrderWrite [.addMessage]) :=
  .bind writes_getOrderOr404 fun _ => .bind (.raiseIf _ _) fun _ => .bind (.raiseIf _ _) fun _ =>
    .bind .read fun _ => .bind (writes_chatRole _ _) fun _ =>
    .bind (writes_insertRow (.addMessage _ (by decide)))
    fun _ => .pure _

/-- A patch may give the delivery to a driver. -/
theorem patchDriver_writes (driverId : Option Id) (h : .giveTo ∈ K := by decide) :
    (patchDriver orderId driverId).Writes (OrderWrite K) := by
  cases driverId with
  | none => exact .pure _
  | some driver =>
    exact .bind (writes_findDriver _) fun _ =>
      .bind (.raiseIf _ _) fun _ => .updateRow (.giveTo _ _ h)

/-- The administrator's patch writes the delivery. -/
theorem adminPatchDelivery_writes (driverId : Option Id) (distance duration : Option ℤ) :
    (adminPatchDelivery caller orderId driverId distance duration).Writes
      (OrderWrite [.giveTo, .patch]) :=
  .bind (.raiseIf _ _) fun _ => .bind (.bind .read fun _ => .pure _) fun _ =>
    .bind (.getOrRaise _ _) fun _ => .bind (writes_selectForUpdate _ _) fun _ =>
    .bind (.raiseIf _ _) fun _ => .bind (patchDriver_writes _ (by decide)) fun _ =>
    .bind (.updateRow (.patch _ _ _ (by decide))) fun _ => .bind .read fun _ => .pure _

/-- A program about orders is a program of a service. -/
theorem writes_service {α : Type} {p : Tx α} (h : p.Writes (OrderWrite K)) :
    p.Writes (ServiceWrite K) :=
  h.mono fun _ _ hf => ServiceWrite.order hf

/-- Reading the settings creates them if they are not there. -/
theorem getRetentionSettings_writes (h : .settings ∈ K := by decide) :
    (getRetentionSettings env).Writes (ServiceWrite K) := by
  refine .bind .read fun db => ?_
  cases db.platformSettings with
  | none => exact .bind (.updateRow (.setSettings _ h)) fun _ => .pure _
  | some ps => exact .pure _

/-- Deleting an order records it first, and removes its row. -/
theorem deleteOrder_writes :
    (deleteOrder env caller orderId).Writes (ServiceWrite [.settings, .snapshot, .removal]) := by
  refine .bind (writes_selectForUpdate _ _) fun _ => .bind (.getOrRaise _ _) fun _ =>
    .bind (.raiseIf _ _) fun _ => .bind (.raiseIf _ _) fun _ => .bind (.raiseIf _ _) fun _ =>
    .bind (.raiseIf _ _) fun _ => .bind (.getOrRaise _ _) fun _ =>
    .bind (getRetentionSettings_writes (by decide)) fun _ => .bind (.raiseIf _ _) fun _ =>
      .ite ?_ ?_
  · exact .bind (writes_service (writeSnapshot_writes _ _ (by decide))) fun _ =>
      .updateRow (.order (.removeOrder _ (by decide)))
  · exact .updateRow (.order (.removeOrder _ (by decide)))

/-- The part of the purge job after the settings have been read. -/
theorem runPurgeJob_rest_writes (p q : Order → Bool)
    (horder : .order (some .completed) ∈ K := by decide)
    (hsnap : .snapshot ∈ K := by decide) (hremoval : .removal ∈ K := by decide) :
    (do
      let db ← read
      let delivered ← skipLockedOrders p ((db.orders.rows.filter p).map Order.id)
      let autoCompleted ← autoComplete env (env.now 0) 0 delivered
      let db ← read
      let terminal ← skipLockedOrders q ((db.orders.rows.filter q).map Order.id)
      let purged ← purge env autoCompleted terminal
      pure { purgedCount := purged, autoCompletedCount := autoCompleted } :
        Tx PurgeResult).Writes (OrderWrite K) :=
  .bind .read fun _ => .bind (writes_skipLockedOrders _ _) fun _ =>
    .bind (autoComplete_writes _ _ _ horder hsnap) fun _ => .bind .read fun _ =>
    .bind (writes_skipLockedOrders _ _) fun _ =>
    .bind (purge_writes _ _ hsnap hremoval) fun _ => .pure _

/-- The job completes, records and removes orders. -/
theorem runPurgeJob_writes :
    (runPurgeJob env).Writes
      (ServiceWrite [.settings, .order (some .completed), .snapshot, .removal]) :=
  .bind (getRetentionSettings_writes (by decide)) fun _ => writes_service
    (runPurgeJob_rest_writes _ _ (by decide) (by decide) (by decide))

/-- Changing the retention writes the settings. -/
theorem updateRetentionSettings_writes (retention grace : Option ℤ) :
    (updateRetentionSettings env caller retention grace).Writes (ServiceWrite [.settings]) :=
  .bind (getRetentionSettings_writes (by decide)) fun _ => .bind (.raiseIf _ _) fun _ =>
    .bind (.raiseIf _ _) fun _ => .bind (.updateRow (.setSettings _ (by decide))) fun _ => .pure _

section Placing

variable {P : Key → (Db → Db) → Prop}
  (hstock : ∀ id stock, P (.product id) fun db => db.setStock id stock)
  (hitem : ∀ i, P (.orderItem i.id) fun db => db.addItem i)

include hstock in
/-- The decrement writes the stock of the products. -/
theorem decrementStock_writes (lines : List (Product × ℤ)) : (decrementStock lines).Writes P := by
  induction lines with
  | nil => exact .pure _
  | cons line lines ih =>
    unfold decrementStock
    cases line.1.stockQuantity with
    | none => exact ih
    | some stock =>
      exact .bind (.bind (.raiseIf _ _) fun _ => .bind (.raiseIf _ _) fun _ =>
        .updateRow (hstock _ _)) fun _ => ih

include hitem in
/-- The items of an order are new rows. -/
theorem insertItems_writes (i : ℕ) (lines : List (Product × ℤ)) :
    (insertItems env orderId i lines).Writes P := by
  induction lines generalizing i with
  | nil => exact .pure _
  | cons line lines ih =>
    exact .bind (.bind (.raiseIf _ _) fun _ => .bind (.raiseIf _ _) fun _ =>
      writes_insertRow (hitem _)) fun _ => ih (i + 1)

include hstock hitem in
/-- Placing an order writes one row of `orders`, under an identifier that it draws. -/
theorem createOrder_writes_of
    (horder : ∀ o, o.id = env.uuid4 0 → P (.order o.id) fun db => db.addOrder o)
    (items : List LineItem) (address : Address) : (createOrder env caller items address).Writes P :=
  .bind (.raiseIf _ _) fun _ => .bind (.raiseIf _ _) fun _ => .bind (.getOrRaise _ _) fun _ =>
    .bind .read fun _ => .bind (writes_lockProducts _) fun _ => .bind (.raiseIf _ _) fun _ =>
    .bind (.raiseIf _ _) fun _ => .bind (writes_resolveLines _ _) fun _ =>
    .bind (writes_checkLines _) fun _ => .bind (decrementStock_writes hstock _) fun _ =>
    .bind (.getOrRaise _ _) fun _ =>
    .bind (.bind (.raiseIf _ _) fun _ => writes_insertRow (horder _ rfl)) fun _ =>
    .bind (insertItems_writes hitem _ _) fun _ => writes_loaded

end Placing

/-- Placing an order writes stock, an order and its items. -/
theorem createOrder_writes (items : List LineItem) (address : Address) :
    (createOrder env caller items address).Writes PlaceWrite :=
  createOrder_writes_of .setStock .addItem (fun o _ => .addOrder o) items address

/-! ### Every operation -/

/-- What the writes of an operation are, the placing of an order apart. -/
def Op.writeKinds : Op → List WriteKind
  | .createOrder .. => []
  | .acceptOrder .. => [.order (some .accepted)]
  | .markPreparing .. => [.order (some .preparing)]
  | .chooseSelfDelivery .. => [.addDelivery]
  | .requestDriver .. => [.addAssignment]
  | .assignDriver .. => [.assign]
  | .outForDelivery .. => [.order (some .outForDelivery), .addDelivery, .start]
  | .markDelivered .. => [.order (some .delivered), .deliver]
  | .completeOrder .. => [.order (some .completed), .snapshot]
  | .cancelOrder .. => [.order (some .cancelled), .cancelAssignment]
  | .deleteOrder .. => [.settings, .snapshot, .removal]
  | .runPurgeJob => [.settings, .order (some .completed), .snapshot, .removal]
  | .updateRetentionSettings .. => [.settings]
  | .driverAccept .. => [.order none, .addDelivery, .giveTo, .addCode]
  | .recordLocation .. => [.trackingPoint, .moveTo]
  | .getRoute .. => []
  | .completeDelivery .. => [.order none, .order (some .delivered), .code, .addAttempt, .archive]
  | .postOrderMessage .. => [.addMessage]
  | .adminPatchDelivery .. => [.giveTo, .patch]

/-- Every operation but the placing of an order. -/
theorem exec_writes {op : Op} (hop : ∀ items address, op ≠ .createOrder items address) :
    (op.exec sha256 env caller).Writes (ServiceWrite op.writeKinds) := by
  cases op with
  | createOrder items address => exact absurd rfl (hop items address)
  | acceptOrder o => exact .bind (writes_service acceptOrder_writes) fun _ => .pure _
  | markPreparing o => exact .bind (writes_service markPreparing_writes) fun _ => .pure _
  | chooseSelfDelivery o => exact .bind (writes_service chooseSelfDelivery_writes) fun _ => .pure _
  | requestDriver o => exact .bind (writes_service requestDriver_writes) fun _ => .pure _
  | assignDriver o d => exact .bind (writes_service (assignDriver_writes d)) fun _ => .pure _
  | outForDelivery o => exact .bind (writes_service outForDelivery_writes) fun _ => .pure _
  | markDelivered o => exact .bind (writes_service markDelivered_writes) fun _ => .pure _
  | completeOrder o => exact .bind (writes_service completeOrder_writes) fun _ => .pure _
  | cancelOrder o reason =>
      exact .bind (writes_service (cancelOrder_writes reason)) fun _ => .pure _
  | deleteOrder o => exact .bind deleteOrder_writes fun _ => .pure _
  | runPurgeJob => exact .bind runPurgeJob_writes fun _ => .pure _
  | updateRetentionSettings r g => exact .bind (updateRetentionSettings_writes r g) fun _ => .pure _
  | driverAccept o => exact .bind (writes_service driverAccept_writes) fun _ => .pure _
  | recordLocation o lat lng =>
    exact .bind (writes_service (recordLocation_writes lat lng)) fun _ => .pure _
  | getRoute o => exact .bind (writes_service getRoute_writes) fun _ => .pure _
  | completeDelivery o submitted =>
    exact .bind (writes_service (completeDelivery_writes submitted)) fun _ => .pure _
  | postOrderMessage o ciphertext nonce =>
    exact .bind (writes_service (postOrderMessage_writes ciphertext nonce)) fun _ => .pure _
  | adminPatchDelivery o driver distance duration =>
    exact .bind (writes_service (adminPatchDelivery_writes driver distance duration)) fun _ =>
      .pure _

/-- The retention setting is at least one day, or not yet written. -/
def RetentionOk (ps : Option PlatformSettings) : Prop := ∀ x, ps = some x → 1 ≤ x.retentionMinDays

variable {db db' : Db}

/-- By default an order is retained for at least a day. -/
theorem one_le_default_retention (t : Time) :
    1 ≤ ({ updatedAt := t } : PlatformSettings).retentionMinDays := by
  change (1 : ℤ) ≤ 30
  omega

/-- The retention in force is at least a day. -/
theorem RetentionOk.inForce (h : RetentionOk db.platformSettings) :
    1 ≤ (db.settingsInForce env).retentionMinDays := by
  unfold Db.settingsInForce
  cases hps : db.platformSettings with
  | none => exact one_le_default_retention _
  | some ps => exact h ps hps

/-- Reading the settings may write the defaults, which are in order. -/
theorem RetentionOk.getRetentionSettings {ps : PlatformSettings}
    (h : RetentionOk db.platformSettings)
    (hrun : (getRetentionSettings env).run db = .ok (ps, db')) :
    RetentionOk db'.platformSettings ∧ 1 ≤ ps.retentionMinDays := by
  rcases getRetentionSettings_ok hrun with ⟨hps, rfl⟩ | ⟨-, rfl, rfl⟩
  · exact ⟨h, h ps hps⟩
  · refine ⟨?_, one_le_default_retention _⟩
    rintro x hx
    obtain rfl := Option.some.inj hx
    exact one_le_default_retention _

/-- No operation writes a retention setting below one day. -/
theorem RetentionOk.of_writes {P : Key → (Db → Db) → Prop} {α : Type} {p : Tx α} {a : α}
    (h : RetentionOk db.platformSettings)
    (hP : ∀ key f, P key f → ∀ s, (f s).platformSettings = s.platformSettings)
    (hp : p.Writes P) (hrun : p.run db = .ok (a, db')) : RetentionOk db'.platformSettings := by
  have hsame : db'.platformSettings = db.platformSettings :=
    hp.run (R := fun s t : Db => t.platformSettings = s.platformSettings) (fun _ => rfl)
      (fun _ _ _ hst htu => htu.trans hst) hP hrun
  rw [hsame]
  exact h

/-- No operation makes the retention shorter than a day. -/
theorem RetentionOk.exec {op : Op} {r : Reply} (h : RetentionOk db.platformSettings)
    (hrun : (op.exec sha256 env caller).run db = .ok (r, db')) :
    RetentionOk db'.platformSettings := by
  have hsame : ∀ {α : Type} {p : Tx α} {f : α → Reply}, p.Writes (OrderWrite op.writeKinds) →
      (p.bind fun a => ret (f a)).run db = .ok (r, db') → RetentionOk db'.platformSettings := by
    intro α p f hp hr
    obtain ⟨_, hr, -⟩ := run_reply_ok.mp hr
    exact h.of_writes (fun _ _ hf => hf.platformSettings) hp hr
  cases op with
  | createOrder items address =>
    obtain ⟨_, hrun, -⟩ := run_reply_ok.mp hrun
    exact h.of_writes (fun _ _ hf => hf.platformSettings) (createOrder_writes items address) hrun
  | acceptOrder o => exact hsame acceptOrder_writes hrun
  | markPreparing o => exact hsame markPreparing_writes hrun
  | chooseSelfDelivery o => exact hsame chooseSelfDelivery_writes hrun
  | requestDriver o => exact hsame requestDriver_writes hrun
  | assignDriver o d => exact hsame (assignDriver_writes d) hrun
  | outForDelivery o => exact hsame outForDelivery_writes hrun
  | markDelivered o => exact hsame markDelivered_writes hrun
  | completeOrder o => exact hsame completeOrder_writes hrun
  | cancelOrder o reason => exact hsame (cancelOrder_writes reason) hrun
  | deleteOrder o =>
    obtain ⟨_, hrun, -⟩ := run_reply_ok.mp hrun
    obtain ⟨x, terminal, ps, t, -, -, -, hps, -, rfl⟩ := deleteOrder_ok hrun
    have ht := (h.getRetentionSettings hps).1
    by_cases hc : x.status = .completed
    · rw [if_pos hc]
      exact ht
    · rw [if_neg hc]
      exact ht
  | runPurgeJob =>
    obtain ⟨_, hrun, -⟩ := run_reply_ok.mp hrun
    obtain ⟨ps, t, hps, hrest⟩ := run_bind_ok.mp hrun
    exact (h.getRetentionSettings hps).1.of_writes (fun _ _ hf => hf.platformSettings)
      (runPurgeJob_rest_writes (K := [.order (some .completed), .snapshot, .removal]) _ _
        (by decide) (by decide) (by decide)) hrest
  | updateRetentionSettings retention grace =>
    obtain ⟨_, hrun, -⟩ := run_reply_ok.mp hrun
    obtain ⟨old, t, hold, rfl, hdays, hvalid⟩ := updateRetentionSettings_ok hrun
    rintro x hx
    obtain rfl := Option.some.inj hx
    rw [hdays]
    cases hret : retention with
    | none => exact (h.getRetentionSettings hold).2
    | some n => exact hvalid n hret
  | driverAccept o => exact hsame driverAccept_writes hrun
  | recordLocation o lat lng => exact hsame (recordLocation_writes lat lng) hrun
  | getRoute o => exact hsame getRoute_writes hrun
  | completeDelivery o submitted => exact hsame (completeDelivery_writes submitted) hrun
  | postOrderMessage o ciphertext nonce =>
      exact hsame (postOrderMessage_writes ciphertext nonce) hrun
  | adminPatchDelivery o driver distance duration =>
    exact hsame (adminPatchDelivery_writes driver distance duration) hrun

/-- A request leaves the retention setting in order. -/
theorem RetentionOk.serve {w : World} {c : Call} (h : RetentionOk w.db.platformSettings) :
    RetentionOk (w.serve sha256 c).db.platformSettings := by
  cases hr : (w.respond sha256 c).1 with
  | error e =>
    rw [serve_of_error hr]
    exact h
  | ok r => exact h.exec (exec_of_ok hr)

end Operations

end Marketplace
