import Marketplace.Lib.Refusal
import Marketplace.Order.Runs

/-!
# Refused requests change nothing

Every operation of the order service makes its checks before its first change: an
application error leaves the session with no change at all, not even one that waits for the
flush. The retention settings are seeded, so that looking them up is no change.
-/

namespace Marketplace

open Lib Txn OrderService Err

/-- An error of `app.core.exceptions`. -/
def Err.IsApp : Err → Prop
  | .app _ => True
  | _ => False

/-- The settings row of the first migration is there. -/
def Db.Seeded (db : Db) : Prop := db.platformSettings ≠ none

instance (db : Db) : Decidable db.Seeded := inferInstanceAs (Decidable (_ ≠ _))

namespace OrderService

/-- `cancel_order` as its session sees it: the changes of the order come before the query for
the assignments, and wait for the flush. -/
def cancelOrderInSession (env : Env) (caller : User) (orderId : Id) (reason : Option String) :
    Tx OrderFull := do
  let order ← lockOrderOr404 orderId caller
  raiseIf (order.status ∈ terminalStatuses ∨ order.status = .delivered)
    (orderInvalidTransition ("Cannot cancel order in state " ++ order.status.quoted ++ "."))
  ensureMayCancel caller order.status
  updateOrder order.id (Order.cancel (env.now 0) reason)
  let db ← read
  let assignments ← lockAssignments
    ((db.assignmentsOf order.id).filter fun a => a.status ∈ activeAssignmentStatuses)
  cancelAssignments (assignments.filter fun a => a.status ∈ activeAssignmentStatuses)
  loaded order.id

end OrderService

section Statements

variable {I : Db → Prop} {ρ : Type} {env : Env} {caller : User} {orderId : Id}

/-- A locking `SELECT` only reads. -/
theorem reads_selectForUpdate (key : Key) (get : Db → Option ρ) :
    (selectForUpdate key get).Reads I := by
  refine .bind .read fun db => ?_
  cases get db with
  | none => exact .pure _
  | some r => exact .bind (.acquire key) fun _ => .pure _

/-- A query for one row only reads. -/
theorem reads_scalarOneOrNone (rows : List ρ) : (scalarOneOrNone rows).Reads I := by
  rcases rows with _ | ⟨a, _ | ⟨b, rest⟩⟩
  · exact .pure _
  · exact .pure _
  · exact .raise _

/-- Locking assignments only reads. -/
theorem reads_lockAssignments (as : List DriverAssignment) : (lockAssignments as).Reads I := by
  induction as with
  | nil => exact .pure _
  | cons a as ih => exact .bind (.acquire _) fun _ => .bind ih fun _ => .pure _

/-- Locking products only reads. -/
theorem reads_lockProducts (ids : List Id) : (lockProducts ids).Reads I := by
  induction ids with
  | nil => exact .pure _
  | cons id ids ih => exact .bind (.acquire _) fun _ => .bind ih fun _ => .pure _

/-- The lines are found by reading. -/
theorem reads_resolveLines (products : List Product) (lines : List (Id × ℤ)) :
    (resolveLines products lines).Reads I := by
  induction lines with
  | nil => exact .pure _
  | cons line lines ih => exact .bind (.getOrRaise _ _) fun _ => .bind ih fun _ => .pure _

/-- The lines are checked by reading. -/
theorem reads_checkLines (lines : List (Product × ℤ)) : (checkLines lines).Reads I := by
  induction lines with
  | nil => exact .pure _
  | cons line lines ih => exact .bind (.raiseIf _ _) fun _ => .bind (.raiseIf _ _) fun _ => ih

/-- The order is locked and checked by reading. -/
theorem reads_lockOrderOr404 : (lockOrderOr404 orderId caller).Reads I :=
  .bind (reads_selectForUpdate _ _) fun _ => .bind (.getOrRaise _ _) fun _ =>
    .bind (.raiseIf _ _) fun _ => .bind (.raiseIf _ _) fun _ => .bind (.raiseIf _ _) fun _ =>
      .pure _

/-- The profile is found by reading. -/
theorem reads_getCallerSeller : (getCallerSeller caller).Reads I :=
  .bind .read fun _ => .bind (reads_scalarOneOrNone _) fun _ => .getOrRaise _ _

/-- The fulfilment is checked by reading. -/
theorem reads_ensureFulfillmentOpen : (ensureFulfillmentOpen orderId).Reads I :=
  .bind .read fun _ => .bind (.raiseIf _ _) fun _ => .bind .read fun _ =>
    .bind (reads_scalarOneOrNone _) fun _ => .raiseIf _ _

/-- The right to cancel is checked by reading. -/
theorem reads_ensureMayCancel (status : OrderStatus) : (ensureMayCancel caller status).Reads I := by
  unfold ensureMayCancel
  cases caller.role with
  | customer => exact .raiseIf _ _
  | seller => exact .raiseIf _ _
  | admin => exact .pure _
  | driver => exact .raise _

/-- Where the settings are seeded, looking them up writes nothing. -/
theorem reads_getRetentionSettings : (getRetentionSettings env).Reads Db.Seeded := by
  intro db hseeded
  obtain ⟨ps, hps⟩ := Option.ne_none_iff_exists'.mp hseeded
  simp only [ret_bind, hps]
  exact .pure _

end Statements

section Settled

variable {env : Env} {orderId : Id} {bad : Err → Prop}

/-- An insertion that fails does so with an error of the database. -/
theorem settled_insertRow {key : Key} {taken : Db → Bool} {constraint : String} {put : Db → Db} :
    (insertRow key taken constraint put).NeverRaises Err.IsApp :=
  .bind (.acquire key) fun _ => .bind (.raiseIf _ not_false) fun _ => .modify put

/-- After the writes, the order is there to be answered with. -/
theorem settled_loaded : (loaded orderId).NeverRaises Err.IsApp :=
  .bind (.bind .read fun _ => .pure _) fun _ => .getOrRaise _ not_false

/-- A snapshot is never refused. -/
theorem neverRaises_writeSnapshot (i : ℕ) (order : Order) :
    (writeSnapshot env i order).NeverRaises bad :=
  .bind .read fun _ => .updateRow _ _

/-- Neither is a lock. -/
theorem neverRaises_lockAssignments (as : List DriverAssignment) :
    (lockAssignments as).NeverRaises bad := by
  induction as with
  | nil => exact .pure _
  | cons a as ih => exact .bind (.acquire _) fun _ => .bind ih fun _ => .pure _

/-- Nor the cancellation of an assignment. -/
theorem neverRaises_cancelAssignments (as : List DriverAssignment) :
    (cancelAssignments as).NeverRaises bad := by
  induction as with
  | nil => exact .pure _
  | cons a as ih => exact .bind (.updateRow _ _) fun _ => ih

/-- The stock is refused by the database, if at all. -/
theorem settled_decrementStock (lines : List (Product × ℤ)) :
    (decrementStock lines).NeverRaises Err.IsApp := by
  induction lines with
  | nil => exact .pure _
  | cons line lines ih =>
    unfold decrementStock
    split
    · exact ih
    · exact .bind (.bind (.raiseIf _ not_false) fun _ => .bind (.raiseIf _ not_false) fun _ =>
        .updateRow _ _) fun _ => ih

/-- So are the items. -/
theorem settled_insertItems (i : ℕ) (lines : List (Product × ℤ)) :
    (insertItems env orderId i lines).NeverRaises Err.IsApp := by
  induction lines generalizing i with
  | nil => exact .pure _
  | cons line lines ih =>
    exact .bind (.bind (.raiseIf _ not_false) fun _ => .bind (.raiseIf _ not_false) fun _ =>
      settled_insertRow) fun _ => ih (i + 1)

end Settled

/-! ### The operations -/

section Operations

variable {env : Env} {caller : User} {orderId : Id}

/-- `create_order` checks everything before it writes. -/
theorem refuses_createOrder (items : List LineItem) (address : Address) :
    (createOrder env caller items address).RefusesFirst Db.Seeded Err.IsApp := by
  refine .checked (.checked (.found fun sellerId => .bind .read fun db => ?_))
  refine .bind (reads_lockProducts _) fun products => .checked (.checked ?_)
  refine .bind (reads_resolveLines _ _) fun lines => .bind (reads_checkLines _) fun _ => ?_
  -- from the first decrement on there are only constraints and assertions
  exact .settled (.bind (settled_decrementStock _) fun _ => .bind (.getOrRaise _ not_false) fun _ =>
    .bind (.bind (.raiseIf _ not_false) fun _ => settled_insertRow) fun _ =>
    .bind (settled_insertItems _ _) fun _ => settled_loaded)

/-- `accept_order` checks first. -/
theorem refuses_acceptOrder :
    (OrderService.acceptOrder env caller orderId).RefusesFirst Db.Seeded Err.IsApp :=
  .checked (.bind reads_lockOrderOr404 fun _ => .checked (.settled
    (.bind (.updateRow _ _) fun _ => settled_loaded)))

/-- `mark_preparing` checks first. -/
theorem refuses_markPreparing :
    (markPreparing env caller orderId).RefusesFirst Db.Seeded Err.IsApp :=
  .checked (.bind reads_lockOrderOr404 fun _ => .checked (.settled
    (.bind (.updateRow _ _) fun _ => settled_loaded)))

/-- `choose_self_delivery` checks first. -/
theorem refuses_chooseSelfDelivery :
    (chooseSelfDelivery env caller orderId).RefusesFirst Db.Seeded Err.IsApp :=
  .checked (.bind reads_lockOrderOr404 fun _ => .checked (.bind reads_ensureFulfillmentOpen fun _ =>
    .bind reads_getCallerSeller fun _ => .settled
    (.bind settled_insertRow fun _ => settled_loaded)))

/-- `request_driver` checks first. -/
theorem refuses_requestDriver :
    (OrderService.requestDriver env caller orderId).RefusesFirst Db.Seeded Err.IsApp :=
  .checked (.bind reads_lockOrderOr404 fun _ => .checked (.bind reads_ensureFulfillmentOpen fun _ =>
    .bind reads_getCallerSeller fun _ => .settled
    (.bind settled_insertRow fun _ => settled_loaded)))

/-- `assign_driver` checks first. -/
theorem refuses_assignDriver (driverId : Id) :
    (assignDriver env caller orderId driverId).RefusesFirst Db.Seeded Err.IsApp :=
  .checked (.bind reads_lockOrderOr404 fun _ => .checked (.bind (.bind .read fun _ => .pure _)
    fun _ => .checked (.bind .read fun _ => .bind (reads_lockAssignments _) fun _ => .found fun _ =>
    .checked (.settled (.bind (.updateRow _ _) fun _ => settled_loaded)))))

/-- The start of a delivery checks first. -/
theorem refuses_startDelivery (order : Order) (delivery : Option Delivery) :
    (startDelivery env caller order delivery).RefusesFirst Db.Seeded Err.IsApp := by
  cases delivery with
  | none =>
    exact .bind .read fun _ => .bind (reads_scalarOneOrNone _) fun _ => .found fun _ =>
      .checked (.checked (.settled settled_insertRow))
  | some d =>
    exact .checked (.checked (.checked (.settled (.updateRow _ _))))

/-- `out_for_delivery` checks first. -/
theorem refuses_outForDelivery :
    (OrderService.outForDelivery env caller orderId).RefusesFirst Db.Seeded Err.IsApp :=
  .checked (.bind reads_lockOrderOr404 fun _ => .checked (.checked
    (.bind (reads_selectForUpdate _ _) fun _ => (refuses_startDelivery _ _).andThen fun _ =>
      .bind (.updateRow _ _) fun _ => settled_loaded)))

/-- `mark_delivered` checks first. -/
theorem refuses_markDelivered :
    (markDelivered env caller orderId).RefusesFirst Db.Seeded Err.IsApp :=
  .checked (.bind reads_lockOrderOr404 fun _ => .checked (.bind (reads_selectForUpdate _ _)
    fun _ => .found fun _ => .checked (.checked (.checked (.settled
    (.bind (.updateRow _ _) fun _ => .bind (.updateRow _ _) fun _ => settled_loaded))))))

/-- `complete_order` checks first. -/
theorem refuses_completeOrder :
    (completeOrder env caller orderId).RefusesFirst Db.Seeded Err.IsApp :=
  .checked (.bind reads_lockOrderOr404 fun _ => .checked (.settled (.bind (.updateRow _ _)
    fun _ => .bind (neverRaises_writeSnapshot _ _) fun _ => settled_loaded)))

/-- The cancellation, whose session goes on after it. -/
theorem refuses_cancelOrderInSession (reason : Option String) :
    (cancelOrderInSession env caller orderId reason).RefusesFirst Db.Seeded Err.IsApp :=
  .bind reads_lockOrderOr404 fun _ => .checked (.bind (reads_ensureMayCancel _) fun _ => .settled
    (.bind (.updateRow _ _) fun _ => .bind .read fun _ => .bind (neverRaises_lockAssignments _)
      fun _ => .bind (neverRaises_cancelAssignments _) fun _ => settled_loaded))

/-- The flush of the changes comes after the query. -/
theorem refuses_cancelOrder (reason : Option String) :
    (cancelOrder env caller orderId reason).RefusesFirst Db.Seeded Err.IsApp :=
  .bind reads_lockOrderOr404 fun _ => .checked (.bind (reads_ensureMayCancel _) fun _ => .settled
    (.bind .read fun _ => .bind (neverRaises_lockAssignments _) fun _ => .bind (.updateRow _ _)
      fun _ => .bind (neverRaises_cancelAssignments _) fun _ => settled_loaded))

/-- `delete_order` writes the settings, if at all, before its last check. -/
theorem refuses_deleteOrder :
    (deleteOrder env caller orderId).RefusesFirst Db.Seeded Err.IsApp := by
  refine .bind (reads_selectForUpdate _ _) fun _ => .found fun order => .checked (.checked
    (.checked (.checked (.found fun _ => .bind reads_getRetentionSettings fun _ => .checked ?_))))
  -- only a completed order gets a snapshot before it goes
  split
  · exact .settled (.bind (neverRaises_writeSnapshot _ _) fun _ => .updateRow _ _)
  · exact .settled (.updateRow _ _)

end Operations

/-- The operations that place an order, move it on and delete it. -/
def Op.moves : Op → Bool
  | .createOrder _ _ | .acceptOrder _ | .markPreparing _ | .chooseSelfDelivery _
  | .requestDriver _ | .assignDriver _ _ | .outForDelivery _ | .markDelivered _
  | .completeOrder _ | .cancelOrder _ _ | .deleteOrder _ => true
  | _ => false

/-- An operation as its session sees it, with every change where the service makes it. -/
def Op.inSession (sha256 : String → String) (op : Op) (env : Env) (caller : User) : Tx Reply :=
  match op with
  | .cancelOrder o reason => do
    return .order (← cancelOrderInSession env caller o reason)
  | _ => op.exec sha256 env caller

/-- Where the changes of the order stand makes no difference to what `cancel_order` does. -/
theorem run_cancelOrderInSession (env : Env) (caller : User) (orderId : Id)
    (reason : Option String) (db : Db) :
    (cancelOrderInSession env caller orderId reason).run db =
      (cancelOrder env caller orderId reason).run db := by
  unfold cancelOrderInSession cancelOrder
  refine run_bind_congr (fun order db => ?_) db
  refine run_bind_congr (fun _ db => ?_) db
  refine run_bind_congr (fun _ db => ?_) db
  have hlock (db : Db) (as : List DriverAssignment) : (lockAssignments as).run db =
      .ok (as.filterMap fun a => db.driverAssignments.get a.id, db) :=
    run_lockAssignments_ok.mpr ⟨rfl, rfl⟩
  have hsame : (db.modifyOrder order.id (Order.cancel (env.now 0) reason)).driverAssignments =
      db.driverAssignments := rfl
  have hof : (db.modifyOrder order.id (Order.cancel (env.now 0) reason)).assignmentsOf order.id =
      db.assignmentsOf order.id := rfl
  simp only [bind_eq, run_bind, updateOrder, Txn.updateRow, Txn.read, run, Except.bind, hlock,
    hsame, hof]

/-- In the session the operations do what they do elsewhere. -/
theorem run_inSession (sha256 : String → String) (op : Op) (env : Env) (caller : User) (db : Db) :
    (op.inSession sha256 env caller).run db = (op.exec sha256 env caller).run db := by
  cases op with
  | cancelOrder o reason =>
    simp only [Op.inSession, Op.exec, bind_eq, run_bind, run_cancelOrderInSession]
  | _ => rfl

section Every

variable {sha256 : String → String} {op : Op} {env : Env} {caller : User}

/-- Every operation on an order, in its session. -/
theorem refuses_inSession (hop : op.moves = true) :
    (op.inSession sha256 env caller).RefusesFirst Db.Seeded Err.IsApp := by
  have hreply {α : Type} {p : Tx α} {f : α → Reply} (hp : p.RefusesFirst Db.Seeded Err.IsApp) :
      (p >>= fun a => pure (f a)).RefusesFirst Db.Seeded Err.IsApp := hp.andThen fun _ => .pure _
  cases op with
  | createOrder items address => exact hreply (refuses_createOrder items address)
  | acceptOrder o => exact hreply refuses_acceptOrder
  | markPreparing o => exact hreply refuses_markPreparing
  | chooseSelfDelivery o => exact hreply refuses_chooseSelfDelivery
  | requestDriver o => exact hreply refuses_requestDriver
  | assignDriver o d => exact hreply (refuses_assignDriver d)
  | outForDelivery o => exact hreply refuses_outForDelivery
  | markDelivered o => exact hreply refuses_markDelivered
  | completeOrder o => exact hreply refuses_completeOrder
  | cancelOrder o reason => exact hreply (refuses_cancelOrderInSession reason)
  | deleteOrder o => exact hreply refuses_deleteOrder
  | _ => simp [Op.moves] at hop

/-- Every operation on an order. -/
theorem refuses_exec (hop : op.moves = true) :
    (op.exec sha256 env caller).RefusesFirst Db.Seeded Err.IsApp := by
  cases op with
  | cancelOrder o reason => exact (refuses_cancelOrder reason).andThen fun _ => .pure _
  | _ => exact @refuses_inSession sha256 _ env caller hop

/-- An application error of an operation leaves the session without any change. -/
theorem refused_unchanged (hop : op.moves = true) {db db' : Db} (hseeded : db.Seeded)
    {e : AppException}
    (h : (op.inSession sha256 env caller).attempt db = (.error (.app e), db')) : db' = db := by
  have happ : (Err.app e).IsApp := trivial
  exact (refuses_inSession hop).attempt hseeded happ h

end Every

/-- The driver may not cancel the order that is on its way. -/
theorem refused_cancel :
    let env : Env :=
      { now := fun _ => 8, transactionNow := 8, uuid4 := fun i => Nat.pair 7 i, randbelow := 0 }
    let cancel := Op.inSession Sample.sha256 (.cancelOrder 0 (some "late")) env Sample.driver
    (cancel.attempt Sample.onItsWay).1 = .error orderNotFound ∧
      (cancel.attempt Sample.onItsWay).2 = Sample.onItsWay := by
  intro env cancel
  have hrefused : (cancel.attempt Sample.onItsWay).1 = .error orderNotFound := by decide +kernel
  have hseeded : Sample.onItsWay.Seeded := by decide +kernel
  exact ⟨hrefused, refused_unchanged rfl hseeded (Prod.ext hrefused rfl)⟩

section Every

/-- No operation takes the settings away. -/
theorem seeded_of_write {K : List WriteKind} {key : Key} {f : Db → Db} (h : ServiceWrite K key f)
    {db : Db} (hseeded : db.Seeded) : (f db).Seeded := by
  cases h with
  | order h =>
    unfold Db.Seeded
    rw [h.platformSettings]
    exact hseeded
  | setSettings ps => exact Option.some_ne_none ps

end Every

/-- Among any other requests, an operation that is about to raise an application error has
changed nothing. -/
theorem refused_among {ι : Type} [DecidableEq ι] (sha256 : String → String) {op : ι → Op}
    {env : ι → Env} {caller : ι → User} {db : Db} (hseeded : db.Seeded)
    {t : Sys ι Db Key Err Reply}
    (h : Sys.Steps (Sys.init db fun i => (op i).exec sha256 (env i) (caller i)) t) {i : ι}
    (hop : (op i).moves = true) {w : Db → Db} {e : AppException}
    (ht : t.txn i = .running w (.raise (.app e))) : w = id := by
  have hsafe : ∀ i, ((op i).exec sha256 (env i) (caller i)).Safe .free Db.Seeded
      fun _ _ _ => True := by
    intro i
    by_cases hcreate : ∃ items address, op i = .createOrder items address
    · obtain ⟨items, address, hop⟩ := hcreate
      have hwrites : ((op i).exec sha256 (env i) (caller i)).Writes PlaceWrite := by
        rw [hop]
        exact .bind (createOrder_writes items address) fun _ => .pure _
      refine hwrites.safe (fun _ => trivial) (fun _ _ _ _ _ => trivial) (fun key f hf s hs => ?_)
        fun _ _ _ _ _ _ => trivial
      refine ⟨?_, trivial⟩
      unfold Db.Seeded
      rw [hf.platformSettings]
      exact hs
    · have hwrites : ((op i).exec sha256 (env i) (caller i)).Writes _ :=
        exec_writes fun items address hop => hcreate ⟨items, address, hop⟩
      exact hwrites.safe (fun _ => trivial) (fun _ _ _ _ _ => trivial)
        (fun key f hf s hs => ⟨seeded_of_write hf hs, trivial⟩) fun _ _ _ _ _ _ => trivial
  refine Sys.Steps.refuses (B := fun i e => (op i).moves = true ∧ e.IsApp) hseeded hsafe
    (fun i => ?_) h ht ⟨hop, trivial⟩
  have hmoves : ∀ e : Err, (op i).moves = true ∧ e.IsApp → e.IsApp ∧
      ((op i).exec sha256 (env i) (caller i)).RefusesFirst Db.Seeded Err.IsApp :=
    fun e he => ⟨he.2, refuses_exec he.1⟩
  exact .of_imp hmoves

end Marketplace
