import Marketplace.App.Step
import Marketplace.Order.Exclusivity
import Marketplace.Order.Masking
import Marketplace.Order.Drivers

/-!
# Who sees an order

The list of orders, the fetch of one order and the tracking role decide separately who may
see an order. They decide the same, provided that no two assignments of an order are in
force, which every request keeps so.
-/

namespace Marketplace

open Lib Txn OrderService DeliveryTracking

/-! ### The three surfaces -/

/-- Who may see an order. -/
def Db.VisibleTo (db : Db) (caller : User) (x : Order) : Prop :=
  match caller.role with
  | .admin => True
  | .seller => x.sellerId = caller.id
  | .customer => x.customerId = caller.id
  | .driver => (db.life x.id).Names caller.id

/-- What the query of `list_orders_for_caller` selects without a status, its order and its limit
apart. -/
def OrderService.matchingOrders (db : Db) (caller : User) : List Order :=
  db.orders.rows.filter fun x => x.deletedAt = none ∧ listedFor db caller x

/-- The three surfaces agree on an order. -/
structure VisibilityAgrees (db : Db) (caller : User) (o : Id) : Prop where
  fetched : (∃ x ∈ matchingOrders db caller, x.id = o) ↔
    ∃ f, (getOrderForCaller caller o).run db = .ok (f, db)
  resolved : (∃ f, (getOrderForCaller caller o).run db = .ok (f, db)) ↔
    ∃ x role, db.orders.get o = some x ∧ x.deletedAt = none ∧
      (resolveRole caller x).run db = .ok (role, db) ∧ role ≠ .none
  resolves : ∀ x, db.orders.get o = some x → ∃ role, (resolveRole caller x).run db = .ok (role, db)

section Surfaces

variable {db : Db} {caller : User} {o : Id} {x : Order}

/-- The list that a caller gets is a first part of what matches, in order. -/
theorem selectOrders_eq (limit : ℤ) : selectOrders db caller none limit =
    ((matchingOrders db caller).mergeSort fun a b => b.placedAt ≤ a.placedAt).take
      (min (max limit 1) 200).toNat := by
  simp [selectOrders, matchingOrders]

/-- The filter of the order list is visibility. -/
theorem listedFor_iff : listedFor db caller x = true ↔ db.VisibleTo caller x := by
  unfold listedFor Db.VisibleTo
  cases caller.role with
  | admin => exact iff_of_true rfl trivial
  | seller => exact decide_eq_true_iff
  | customer => exact decide_eq_true_iff
  | driver => exact decide_eq_true_iff

/-- An order is listed exactly when it is live and visible. -/
theorem matching_iff : (∃ x ∈ matchingOrders db caller, x.id = o) ↔
    ∃ x, db.orders.get o = some x ∧ x.deletedAt = none ∧ db.VisibleTo caller x := by
  constructor
  · rintro ⟨x, hmem, rfl⟩
    obtain ⟨hrow, hlisted⟩ := List.mem_filter.mp hmem
    obtain ⟨hlive, hlisted⟩ := of_decide_eq_true hlisted
    exact ⟨x, Table.mem_rows_iff.mp hrow, hlive, listedFor_iff.mp hlisted⟩
  · rintro ⟨x, hget, hlive, hvisible⟩
    have hid : x.id = o := Table.key_of_get hget
    have hrow : x ∈ db.orders.rows := Table.mem_rows_iff.mpr (hid ▸ hget)
    exact ⟨x, List.mem_filter.mpr ⟨hrow, decide_eq_true ⟨hlive, listedFor_iff.mpr hvisible⟩⟩, hid⟩

/-- The check on one order is visibility. -/
theorem ensureCanView_full : (ensureCanView (full db x) caller).run db = .ok ((), db) ↔
    db.VisibleTo caller x := by
  unfold ensureCanView Db.VisibleTo
  cases caller.role with
  | admin => simp
  | seller =>
    change (raiseIf (x.sellerId ≠ caller.id) _).run db = _ ↔ _
    rw [run_raiseIf_ok, not_not]
    exact and_iff_left rfl
  | customer =>
    change (raiseIf (x.customerId ≠ caller.id) _).run db = _ ↔ _
    rw [run_raiseIf_ok, not_not]
    exact and_iff_left rfl
  | driver =>
    have hnames : (¬((full db x).delivery.bind Delivery.driverId ≠ some caller.id ∧
        ¬∃ a ∈ (full db x).driverAssignments, a.driverId = some caller.id ∧
          a.status ∈ [DriverAssignmentStatus.assigned, .accepted])) ↔
        (db.life x.id).Names caller.id := by
      rw [not_and_or, not_not, not_not]
      exact Iff.rfl
    simp only [run_raiseIf_ok, and_true]
    exact hnames

/-- An order is fetched exactly when it is live and visible. -/
theorem orderFetched_iff : (∃ f, (getOrderForCaller caller o).run db = .ok (f, db)) ↔
    ∃ x, db.orders.get o = some x ∧ x.deletedAt = none ∧ db.VisibleTo caller x := by
  simp only [getOrderForCaller, bind_eq, run_bind_ok, run_loadOrderFull_ok, run_getOrRaise_ok,
    run_raiseIf_ok, pure_eq, run_ret_ok]
  constructor
  · rintro ⟨f, _, _, ⟨hload, rfl⟩, g, _, ⟨rfl, rfl⟩, _, _, ⟨hlive, rfl⟩, _, _, hview, rfl, -⟩
    obtain ⟨x, hget, rfl⟩ := Option.map_eq_some_iff.mp hload
    obtain rfl := ensureCanView_ok hview
    exact ⟨x, hget, not_not.mp hlive, ensureCanView_full.mp hview⟩
  · rintro ⟨x, hget, hlive, hvisible⟩
    have hid : x.id = o := Table.key_of_get hget
    subst hid
    exact ⟨full db x, _, _, ⟨by rw [hget]; rfl, rfl⟩, _, _, ⟨rfl, rfl⟩, (), _,
      ⟨not_not_intro hlive, rfl⟩, (), _, ensureCanView_full.mpr hvisible, rfl, rfl⟩

/-- At most one assignment of any order is in force. -/
def Db.OneAssignment (db : Db) : Prop := ∀ o, (db.activeAssignments o).length ≤ 1

/-- At most one assignment lets a driver drive an order. -/
theorem Db.OneAssignment.driving (h : db.OneAssignment) (o driver : Id) :
    (drivingAssignments db o driver).length ≤ 1 := by
  refine Nat.le_trans (List.Sublist.length_le ?_) (h o)
  refine List.monotone_filter_right _ fun a ha => ?_
  have hdriving := (of_decide_eq_true ha).2
  exact decide_eq_true (drivingStatuses_active hdriving)

/-- The role is resolved, and it is `none` for whoever may not see the order. -/
theorem resolveRole_visible (h : db.OneAssignment) (caller : User) (x : Order) :
    ∃ role, (resolveRole caller x).run db = .ok (role, db) ∧
      (role ≠ .none ↔ db.VisibleTo caller x) := by
  have hplain : ∀ role, (resolveRoleLoading caller x).run db = .ok ((role, none), db) →
      (resolveRole caller x).run db = .ok (role, db) := fun role hrun =>
    resolveRole_ok.mpr ⟨none, hrun⟩
  unfold Db.VisibleTo
  cases hrole : caller.role with
  | admin =>
    refine ⟨.admin, hplain _ ?_, by simp⟩
    simp [resolveRoleLoading, hrole, run]
  | seller =>
    by_cases hseller : x.sellerId = caller.id
    · refine ⟨.seller, hplain _ ?_, by simp [hseller]⟩
      simp [resolveRoleLoading, hrole, hseller, run]
    · refine ⟨.none, hplain _ ?_, by simp [hseller]⟩
      simp [resolveRoleLoading, hrole, hseller, run]
  | customer =>
    by_cases hcustomer : x.customerId = caller.id
    · refine ⟨.customer, hplain _ ?_, by simp [hcustomer]⟩
      simp [resolveRoleLoading, hrole, hcustomer, run]
    · refine ⟨.none, hplain _ ?_, by simp [hcustomer]⟩
      simp [resolveRoleLoading, hrole, hcustomer, run]
  | driver =>
    by_cases hnames : (db.life x.id).Names caller.id
    · exact ⟨.driver, resolveRole_of_names hrole (h.driving _ _) hnames, by simp [hnames]⟩
    · exact ⟨.none, resolveRole_of_not_names hrole hnames, by simp [hnames]⟩

/-- With at most one assignment in force the three surfaces agree. -/
theorem Db.OneAssignment.agrees (h : db.OneAssignment) (caller : User) (o : Id) :
    VisibilityAgrees db caller o where
  fetched := matching_iff.trans orderFetched_iff.symm
  resolved := by
    rw [orderFetched_iff]
    constructor
    · rintro ⟨x, hget, hlive, hvisible⟩
      obtain ⟨role, hrun, hiff⟩ := resolveRole_visible h caller x
      exact ⟨x, role, hget, hlive, hrun, hiff.mpr hvisible⟩
    · rintro ⟨x, role, hget, hlive, hrun, hrole⟩
      obtain ⟨role', hrun', hiff⟩ := resolveRole_visible h caller x
      have hsame : role = role' := by
        rw [hrun] at hrun'
        injection hrun' with heq
        injection heq
      exact ⟨x, hget, hlive, hiff.mp (hsame ▸ hrole)⟩
  resolves x _ := by
    obtain ⟨role, hrun, -⟩ := resolveRole_visible h caller x
    exact ⟨role, hrun⟩

end Surfaces

/-! ### One assignment in force -/

/-- The assignments of an order, as a fulfilment without a delivery. -/
def Db.assigned (db : Db) (o : Id) : Fulfilment := { assignments := db.assignmentsOf o }

/-- The lock on an order protects its assignments. -/
def assignmentLocking : Locking Db Key where
  agree key s t :=
    match key with
    | .order o => t.assignmentsOf o = s.assignmentsOf o
    | _ => True
  refl key s := by
    cases key with
    | _ => trivial
  trans {key s t u} hst htu := by
    cases key with
    | order o => exact Eq.trans htu hst
    | _ => trivial

/-- A write that leaves assignments alone, or removes those of an order whose row it holds. -/
def Unassigning (key : Key) (f : Db → Db) : Prop :=
  ∀ db o, (f db).assignmentsOf o = db.assignmentsOf o ∨
    (key = .order o ∧ (f db).assignmentsOf o = [])

/-- The kinds of writes that are about assignments. -/
def assigningKinds : List WriteKind := [.assign, .cancelAssignment, .addAssignment]

section Unassigning

variable {db : Db} {key : Key} {f : Db → Db} {K : List WriteKind}

/-- A write that leaves the assignments alone assigns nobody. -/
theorem unassigning_of_same (h : ∀ db, (f db).driverAssignments = db.driverAssignments) :
    Unassigning key f := by
  intro db o
  left
  rw [Db.assignmentsOf, h, Db.assignmentsOf]

/-- The writes on orders but those on assignments assign nobody. -/
theorem OrderWrite.unassigning (hK : ∀ k ∈ K, k ∉ assigningKinds) (h : OrderWrite K key f) :
    Unassigning key f := by
  cases h with
  | removeOrder id h =>
    intro db o
    by_cases ho : o = id
    · subst ho
      right
      exact ⟨rfl, congrArg Life.assignments (life_removeOrder_self : (db.removeOrder o).life o = _)⟩
    · left
      exact congrArg Life.assignments (life_removeOrder_of_ne ho)
  | assign id driver admin now h => exact absurd (hK _ h) (by decide)
  | cancelAssignment id h => exact absurd (hK _ h) (by decide)
  | addAssignment a h => exact absurd (hK _ h) (by decide)
  | _ => exact unassigning_of_same fun _ => rfl

/-- The writes of the services but those on assignments assign nobody. -/
theorem ServiceWrite.unassigning (hK : ∀ k ∈ K, k ∉ assigningKinds) (h : ServiceWrite K key f) :
    Unassigning key f := by
  cases h with
  | order h => exact h.unassigning hK
  | setSettings ps => exact unassigning_of_same fun _ => rfl

/-- What assigns nobody keeps at most one active assignment. -/
theorem Unassigning.oneAssignment (h : Unassigning key f) (hdb : db.OneAssignment) :
    (f db).OneAssignment := by
  intro o
  unfold Db.activeAssignments
  rcases h db o with hsame | ⟨-, hgone⟩
  · rw [hsame]
    exact hdb o
  · rw [hgone]
    exact Nat.zero_le 1

/-- What assigns nobody leaves the rows under the other locks alone. -/
theorem Unassigning.frame {key' : Key} (h : Unassigning key f) (hne : key' ≠ key) :
    assignmentLocking.agree key' db (f db) := by
  cases key' with
  | order o =>
    rcases h db o with hsame | ⟨hkey, -⟩
    · exact hsame
    · exact absurd hkey.symm hne
  | _ => trivial

/-- A program that leaves assignments alone, or removes them with their order. -/
theorem safe_of_unassigning {α : Type} {P : Key → (Db → Db) → Prop} {p : Tx α} (h : p.Writes P)
    (hP : ∀ key f, P key f → Unassigning key f) :
    p.Safe assignmentLocking Db.OneAssignment fun _ _ _ => True :=
  h.safe (R := fun _ _ => True) (fun _ => trivial) (fun _ _ _ _ _ => trivial)
    (fun _ _ hf _ hdb => ⟨(hP _ _ hf).oneAssignment hdb, trivial⟩)
    fun _ _ hf _ _ hne => (hP _ _ hf).frame hne

end Unassigning

/-- A change of the assignments of one order that leaves at most one in force. -/
structure Reassigned (o : Id) (s t : Db) : Prop where
  other : ∀ o', o' ≠ o → t.assignmentsOf o' = s.assignmentsOf o'
  exclusive : (t.assigned o).Exclusive

section Reassigning

variable {db : Db} {o : Id} {env : Env} {caller : User} {orderId : Id}

/-- The lock on the order has been held since `s₀`. -/
theorem commitOk_of_reassigned {α : Type} {facts : List (Key × Db)} {w : Db → Db} {a : α} {s₀ : Db}
    (hmem : (Key.order o, s₀) ∈ facts)
    (h : ∀ s, s.OneAssignment → s.assignmentsOf o = s₀.assignmentsOf o → Reassigned o s (w s)) :
    CommitOk assignmentLocking Db.OneAssignment (fun (_ : α) _ _ => True) facts w a := by
  intro s hs hknown
  have hnew := h s hs (hknown _ hmem)
  refine ⟨fun o' => ?_, trivial, fun key hkey => ?_⟩
  · by_cases ho : o' = o
    · subst ho
      exact hnew.exclusive.single
    · unfold Db.activeAssignments
      rw [hnew.other o' ho]
      exact hs o'
  · cases key with
    | order o' =>
      refine hnew.other o' fun heq => hkey _ hmem ?_
      rw [heq]
    | _ => trivial

/-- A first active assignment is a reassignment of its order. -/
theorem reassigned_addAssignment {a : DriverAssignment} (ha : a.orderId = o)
    (hactive : (db.assigned o).active = []) : Reassigned o db (db.addAssignment a) := by
  by_cases hfresh : db.driverAssignments.get a.id = none
  · refine ⟨fun o' ho' => ?_, ?_⟩
    · have hlife : (db.addAssignment a).life o' = db.life o' := by
        rw [life_addAssignment hfresh, if_neg (ha ▸ ho')]
      exact congrArg Life.assignments hlife
    · have hlife := life_addAssignment (o := a.orderId) hfresh
      rw [if_pos rfl, ha] at hlife
      have hrows : (db.addAssignment a).assignmentsOf o = db.assignmentsOf o ++ [a] :=
        congrArg Life.assignments hlife
      rw [Db.assigned, hrows]
      exact Fulfilment.exclusive_request (F := db.assigned o) rfl hactive a
  · -- the insertion gives way to the row that is there
    have hsame : db.addAssignment a = db := by
      rw [Db.addAssignment, Table.insert_of_mem hfresh]
    rw [hsame]
    exact ⟨fun _ _ => rfl, Fulfilment.exclusive_of_active_eq_nil hactive⟩

/-- Assigning another driver on the active row is a reassignment of its order. -/
theorem reassigned_assign (hdb : db.OneAssignment) {p : DriverAssignment}
    (hp : p ∈ (db.assigned o).active) (driver admin : Id) (now : Time) :
    Reassigned o db (db.modifyAssignment p.id (DriverAssignment.assign driver admin now)) := by
  have hkeys := DriverAssignment.assign_keys driver admin now
  obtain ⟨hmem, -⟩ := List.mem_filter.mp hp
  obtain ⟨hrow, hof⟩ := List.mem_filter.mp hmem
  have hpo : p.orderId = o := of_decide_eq_true hof
  refine ⟨fun o' ho' => ?_, ?_⟩
  · exact congrArg Life.assignments (life_modifyAssignment_of_ne hkeys hrow (hpo.symm ▸ ho'))
  · have hlife : (db.modifyAssignment p.id (DriverAssignment.assign driver admin now)).life o = _ :=
      life_modifyAssignment hkeys
    have hrows := congrArg Life.assignments hlife
    have hids : ((db.assignmentsOf o).map DriverAssignment.id).Nodup :=
      db.driverAssignments.nodup.sublist (List.filter_sublist.map _)
    have hold : (db.assigned o).Exclusive := ⟨nofun, hdb o⟩
    have hnew := hold.assign hp hids driver admin now
    rw [Db.assigned, show (db.modifyAssignment p.id _).assignmentsOf o = _ from hrows]
    exact hnew

/-- Cancelling the active assignments is a reassignment of the order. -/
theorem reassigned_cancel : Reassigned o db (cancelAll db (db.activeAssignments o)) where
  other _ ho := congrArg Life.assignments (life_cancelActive_of_ne ho)
  exclusive := by
    have hlife : (cancelAll db (db.activeAssignments o)).life o = _ := life_cancelActive_self
    have hrows := congrArg Life.assignments hlife
    rw [Db.assigned, show (cancelAll db (db.activeAssignments o)).assignmentsOf o = _ from hrows]
    exact Fulfilment.exclusive_cancel (db.assigned o)

/-- Without a row in an active status nobody is assigned. -/
theorem assigned_active_eq_nil (h : ∀ a ∈ db.assignmentsOf o, a.status ∉ activeAssignmentStatuses) :
    (db.assigned o).active = [] :=
  List.filter_eq_nil_iff.mpr fun a ha => by simpa using h a ha

/-- Requesting a driver keeps at most one active assignment. -/
theorem requestDriver_keepsOne :
    (requestDriver env caller orderId).Safe assignmentLocking Db.OneAssignment
      fun _ _ _ => True := by
  unfold Safe requestDriver
  simp only [bind_eq, wp_bind, wp_raiseIf]
  intro _
  refine wp_lockOrderOr404 fun s₀ x _ _ hact => ?_
  have hid := hact.id_eq
  subst hid
  intro _
  refine wp_ensureFulfillmentOpen fun s t _ _ _ ht _ hopen => wp_getCallerSeller fun seller => ?_
  simp only [insertAssignment, wp_insertRow]
  refine fun u _ _ _ => wp_loaded fun full => ?_
  refine commitOk_of_reassigned (List.mem_cons_of_mem _ List.mem_cons_self) fun v _ hv => ?_
  have hactive : (v.assigned x.id).active = [] := by
    rw [Db.assigned, hv, ← show t.assignmentsOf x.id = s₀.assignmentsOf x.id from
      ht _ List.mem_cons_self]
    exact assigned_active_eq_nil hopen
  exact reassigned_addAssignment rfl hactive

/-- Assignments of an order whose lock is held are rows of every database until the commit. -/
theorem get_assignment_of_known {facts : List (Key × Db)} {s t s₀ : Db}
    (hmem : (Key.order o, s₀) ∈ facts) (hs : assignmentLocking.Known facts s)
    (ht : assignmentLocking.Known facts t) {a : DriverAssignment} (ha : a ∈ s.assignmentsOf o) :
    t.driverAssignments.get a.id = some a := by
  have hof : t.assignmentsOf o = s.assignmentsOf o := (ht _ hmem).trans (hs _ hmem).symm
  rw [← hof] at ha
  exact Table.mem_rows_iff.mp (List.mem_filter.mp ha).1

/-- Assigning a driver keeps at most one active assignment. -/
theorem assignDriver_keepsOne (driverId : Id) :
    (assignDriver env caller orderId driverId).Safe assignmentLocking Db.OneAssignment
      fun _ _ _ => True := by
  unfold Safe assignDriver
  simp only [bind_eq, wp_bind, wp_raiseIf]
  intro _
  refine wp_lockOrderOr404 fun s₀ x _ _ hact => ?_
  have hid := hact.id_eq
  subst hid
  intro _
  refine wp_findDriver fun user _ => ?_
  simp only [wp_read]
  intro s _ hs
  refine wp_lockAssignments (fun t _ ht a ha => ?_) fun facts hsub => ?_
  · have hmem := (List.mergeSort_perm _ _).mem_iff.mp ha
    exact get_assignment_of_known List.mem_cons_self hs ht hmem
  simp only [wp_getOrRaise, updateAssignment, wp_updateRow]
  intro p hhead _ t _ _
  refine wp_loaded fun full => commitOk_of_reassigned
    (List.mem_cons_of_mem _ (hsub List.mem_cons_self)) fun v hv hsame => ?_
  have hp : p ∈ (v.assigned x.id).active := by
    rw [Db.assigned, hsame, ← show s.assignmentsOf x.id = s₀.assignmentsOf x.id from
      hs _ List.mem_cons_self]
    have hmem := List.mem_of_mem_head? hhead
    simp only [List.mem_filter, (List.mergeSort_perm _ _).mem_iff] at hmem
    exact List.mem_filter.mpr hmem
  exact reassigned_assign hv hp _ _ _

/-- Cancelling an order keeps at most one active assignment. -/
theorem cancelOrder_keepsOne (reason : Option String) :
    (cancelOrder env caller orderId reason).Safe assignmentLocking Db.OneAssignment
      fun _ _ _ => True := by
  unfold Safe cancelOrder
  simp only [bind_eq, wp_bind]
  refine wp_lockOrderOr404 fun s₀ x _ _ hact => ?_
  have hid := hact.id_eq
  subst hid
  simp only [wp_raiseIf]
  refine fun _ => wp_ensureMayCancel ?_
  simp only [wp_read]
  intro s _ hs
  refine wp_lockAssignments (fun t _ ht a ha => ?_) fun facts hsub => ?_
  · exact get_assignment_of_known List.mem_cons_self hs ht (List.mem_filter.mp ha).1
  simp only [updateOrder, wp_updateRow]
  refine fun t _ _ => wp_cancelAssignments fun facts' hsub' => wp_loaded fun full => ?_
  refine commitOk_of_reassigned (hsub' (List.mem_cons_of_mem _ (hsub List.mem_cons_self)))
    fun v hv hsame => ?_
  -- what was in force when it was read is in force at the commit
  have hactive : ((s.assignmentsOf x.id).filter fun a => a.status ∈ activeAssignmentStatuses).filter
      (fun a => a.status ∈ activeAssignmentStatuses) =
      (v.modifyOrder x.id (Order.cancel (env.now 0) reason)).activeAssignments x.id := by
    have hof : v.assignmentsOf x.id = s.assignmentsOf x.id :=
      hsame.trans (show s.assignmentsOf x.id = s₀.assignmentsOf x.id from
        hs _ List.mem_cons_self).symm
    rw [List.filter_filter]
    simp only [Bool.and_self]
    rw [← hof]
    rfl
  simp only [Function.comp_apply, id_eq] at hactive ⊢
  rw [hactive]
  have hcancel : Reassigned x.id (v.modifyOrder x.id (Order.cancel (env.now 0) reason)) _ :=
    reassigned_cancel
  exact ⟨hcancel.other, hcancel.exclusive⟩

end Reassigning

/-! ### Every request -/

section Requests

variable {sec : Security} {sha256 lower : String → String} {env : Env} {caller : User}

/-- Every order operation keeps at most one active assignment. -/
theorem Op.exec_keepsOne (op : Op) :
    (op.exec sha256 env caller).Safe assignmentLocking Db.OneAssignment fun _ _ _ => True := by
  have hother : ∀ {op : Op}, (∀ k ∈ op.writeKinds, k ∉ assigningKinds) →
      (∀ items address, op ≠ .createOrder items address) →
      (op.exec sha256 env caller).Safe assignmentLocking Db.OneAssignment fun _ _ _ => True :=
    fun hkinds hne => safe_of_unassigning (exec_writes hne) fun _ _ hf => hf.unassigning hkinds
  cases op with
  | createOrder items address =>
    refine Safe.map (safe_of_unassigning (createOrder_writes items address) fun _ _ hf => ?_)
    cases hf <;> exact unassigning_of_same fun _ => rfl
  | requestDriver o => exact requestDriver_keepsOne.map
  | assignDriver o driver => exact (assignDriver_keepsOne driver).map
  | cancelOrder o reason => exact (cancelOrder_keepsOne reason).map
  | _ => exact hother (by simp [Op.writeKinds, assigningKinds]) (by simp)

/-- Every request of the backend keeps at most one active assignment. -/
theorem appExec_keepsOne (q : AppRequest) :
    (q.exec sec lower).Safe assignmentLocking Db.OneAssignment fun _ _ _ => True := by
  have hside : ∀ {p : Tx AppReply}, p.Writes SideWrite →
      p.Safe assignmentLocking Db.OneAssignment fun _ _ _ => True :=
    fun h => safe_of_unassigning h fun _ _ hf => unassigning_of_same fun db =>
      (hf.orders db).driverAssignments
  cases q with
  | service c =>
    have hservice : (c.exec sec.sha256).Safe assignmentLocking Db.OneAssignment
        fun _ _ _ => True := by
      cases c with
      | call q =>
        have h : (q.op.exec sec.sha256 q.env q.caller).Safe assignmentLocking Db.OneAssignment
            fun _ _ _ => True := Op.exec_keepsOne q.op
        unfold Safe at h ⊢
        exact wp_bind.mpr (wp_mono (fun _ _ _ hok => hok) h)
      | report r env =>
        have hwrites : ((ServiceCall.report r env).exec sec.sha256).Writes fun _ f =>
            ∀ db : Db, (f db).driverAssignments = db.driverAssignments :=
          .bind (postLocation_writes (fun _ _ _ => rfl) r) fun _ => .pure _
        exact safe_of_unassigning hwrites fun _ _ hf => unassigning_of_same hf
      | view caller o =>
        exact safe_of_unassigning (P := fun _ _ => False) 
          (.bind getTrackView_writes fun _ => .pure _)
          fun _ _ hf => hf.elim
    unfold Safe at hservice ⊢
    exact wp_bind.mpr (wp_mono (fun _ _ _ hok => hok) hservice)
  | auth q => exact hside (.bind ((authExec_changes q).mono fun _ _ h => .auth h) fun _ => .pure _)
  | catalog q =>
    exact hside (.bind ((catalogExec_writes lower q.op).mono fun _ _ h => .catalog h)
      fun _ => .pure _)
  | messaging q =>
    exact hside (.bind ((messagingExec_writes q).mono fun _ _ h => .messaging h) fun _ => .pure _)
  | keys q => exact hside (.bind ((keyExec_writes q).mono fun _ _ h => .keys h) fun _ => .pure _)

end Requests

/-- **Order visibility agrees.** In every database that requests to the services reach, in every
interleaving, the list, the fetch and the tracking role decide the same for every caller and
order. -/
theorem order_visibility (sec : Security) (lower : String → String) {ι : Type} [DecidableEq ι]
    (requests : ι → AppRequest) {db : Db} (hdb : db.OneAssignment)
    {s : Sys ι Db Key Err AppReply}
    (hs : Sys.Steps (Sys.init db fun i => (requests i).exec sec lower) s) (caller : User) (o : Id) :
    VisibilityAgrees s.db caller o := by
  have hsafe : ∀ i, ((requests i).exec sec lower).Safe assignmentLocking Db.OneAssignment
      fun _ _ _ => True := fun i => appExec_keepsOne (requests i)
  have hone : s.db.OneAssignment := (hs.sound (Sys.sound_init hdb hsafe)).db
  exact hone.agrees caller o

namespace Sample

/-- A request of the order service at a given time. -/
def ordering (caller : User) (op : Op) (time : ℕ) : AppRequest :=
  .service (.call { caller, op,
                    env := { now := fun _ => time, transactionNow := time, randbelow := 0,
                             uuid4 := fun i => Nat.pair time i } })

/-- The order gets a driver, who sets out. -/
def dispatching : Fin 4 → AppRequest
  | 0 => ordering seller (.requestDriver 0) 3
  | 1 => ordering admin (.assignDriver 0 3) 4
  | 2 => ordering seller (.markPreparing 0) 5
  | 3 => ordering driver (.outForDelivery 0) 6

end Sample

/-- Once the driver has set out, the three surfaces decide the same for everybody. -/
theorem order_visibility_requested :
    ∃ s, Sys.Steps (Sys.init Sample.acceptedOrder fun i =>
        (Sample.dispatching i).exec Sample.security id) s ∧
      s.log.map Prod.fst = [0, 1, 2, 3] ∧ (∀ caller o, VisibilityAgrees s.db caller o) := by
  have hserial : (Sys.serial (fun i => (Sample.dispatching i).exec Sample.security id)
      Sample.acceptedOrder [0, 1, 2, 3]).isSome = true := by decide +kernel
  obtain ⟨db, hdb⟩ := Option.isSome_iff_exists.mp hserial
  obtain ⟨t, ht, -, hlog, -⟩ := Sys.steps_of_serial (by decide)
    (s := Sys.init Sample.acceptedOrder fun i => (Sample.dispatching i).exec Sample.security id)
    (fun _ => rfl) (fun _ _ => rfl) hdb
  have hone : Sample.acceptedOrder.OneAssignment := by
    intro o
    have hnone : Sample.acceptedOrder.driverAssignments.rows = [] := by decide +kernel
    rw [Db.activeAssignments, Db.assignmentsOf, hnone]
    exact Nat.zero_le 1
  exact ⟨t, ht, hlog, order_visibility Sample.security id Sample.dispatching hone ht⟩

end Marketplace
