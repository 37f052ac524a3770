import Marketplace.Order.Tracking

/-!
# Runs with reports of positions

The requests about orders are the calls of `Op` and the reports of `post_location`. A
report that returns changes the position of one delivery, of an order that is out for
delivery, for a caller with an internal role; everything else stays. Roles and views are
read off the life of the order.
-/

namespace Marketplace

open Lib Txn OrderService DeliveryFlow DeliveryTracking

/-- A report of a position, and what the clock gives it. -/
structure Report where
  caller : User
  orderId : Id
  lat : Coordinate
  lng : Coordinate
  etaSeconds : Option ℤ := none
  distanceMeters : Option ℤ := none
  now : ℕ → Time
  transactionNow : Time

/-- A request about orders. -/
inductive ServiceRequest
  | call (c : Call)
  | report (r : Report)

section

variable (sha256 : String → String)

/-- The surroundings of a report, which draws nothing. -/
def World.reportEnv (w : World) (r : Report) : Env :=
  { now := r.now, transactionNow := r.transactionNow, uuid4 := fun i => Nat.pair w.served i,
    randbelow := 0 }

/-- The transaction that serves a report. -/
def Report.exec (r : Report) (env : Env) : Tx (Order × Delivery) :=
  postLocation env r.caller r.orderId r.lat r.lng r.etaSeconds r.distanceMeters

/-- A report, in its own session. -/
def World.answer (w : World) (r : Report) : Except Err (Order × Delivery) × Db :=
  (r.exec (w.reportEnv r)).session w.db

/-- The server after the next request. -/
def World.handle (w : World) : ServiceRequest → World
  | .call c => w.serve sha256 c
  | .report r => { db := (w.answer r).2, served := w.served + 1 }

end

/-! ### Roles and views -/

/-- The records of an order name this driver: the delivery row, or an assignment in force. -/
def Life.Names (L : Life) (driver : Id) : Prop :=
  L.delivery.bind Delivery.driverId = some driver ∨
    ∃ a ∈ L.assignments, a.driverId = some driver ∧ a.status ∈ drivingStatuses

section Reads

variable {db db' : Db} {user : User} {order : Order} {o : Id}

/-- The row that `resolve_role` has loaded is the delivery row of the order. -/
theorem resolveRoleLoading_ok {role : TrackingRole} {loaded : Option Delivery}
    (h : (resolveRoleLoading user order).run db = .ok ((role, loaded), db')) :
    db' = db ∧ (loaded = none ∨ loaded = db.deliveries.get order.id) := by
  simp only [resolveRoleLoading, resolveDriver, loadDelivery, run_ite_ok, pure_eq, bind_eq,
    run_bind_ok, run_read_ok, run_ret_ok, run_scalarOneOrNone_ok, Prod.mk.injEq] at h
  grind

/-- The delivery that the role look-up loads is the row of the table. -/
theorem asLoaded_of_run {role : TrackingRole} {loaded : Option Delivery}
    (h : (resolveRoleLoading user order).run db = .ok ((role, loaded), db')) :
    asLoaded loaded (db.deliveries.get order.id) = db.deliveries.get order.id := by
  rcases (resolveRoleLoading_ok h).2 with rfl | rfl
  · rfl
  · cases db.deliveries.get order.id with
    | none => rfl
    | some d => simp [asLoaded]

/-- The role resolved with the delivery loaded is the role resolved. -/
theorem resolveRole_ok {role : TrackingRole} :
    (resolveRole user order).run db = .ok (role, db') ↔
      ∃ loaded, (resolveRoleLoading user order).run db = .ok ((role, loaded), db') := by
  simp only [resolveRole, bind_eq, run_bind_ok, pure_eq, run_ret_ok]
  constructor
  · rintro ⟨⟨r, loaded⟩, t, hrun, rfl, rfl⟩
    exact ⟨loaded, hrun⟩
  · rintro ⟨loaded, hrun⟩
    exact ⟨_, _, hrun, rfl, rfl⟩

/-- The driving assignments of a driver, by membership. -/
theorem mem_drivingAssignments {driver : Id} {a : DriverAssignment} :
    a ∈ drivingAssignments db o driver ↔
      a ∈ (db.life o).assignments ∧ a.driverId = some driver ∧ a.status ∈ drivingStatuses := by
  simp only [drivingAssignments, List.mem_filter, decide_eq_true_eq]
  exact Iff.rfl

/-- What a driver resolves to, in terms of the two queries. -/
theorem resolveRole_driver (hrole : user.role = .driver) {role : TrackingRole} :
    (resolveRole user order).run db = .ok (role, db') ↔
      db' = db ∧
        if (db.life order.id).delivery.bind Delivery.driverId = some user.id then role = .driver
        else ∃ a, drivingAssignments db order.id user.id = Option.toList a ∧
          role = if a.isSome then .driver else .none := by
  rw [resolveRole_ok]
  simp only [resolveRoleLoading, hrole, reduceCtorEq, false_and, if_false, if_true, resolveDriver,
    loadDelivery, bind_eq, run_bind_ok, run_read_ok, pure_eq, run_ret_ok, run_ite_ok,
    run_scalarOneOrNone_ok, Prod.mk.injEq]
  change _ ↔ db' = db ∧ if (db.deliveries.get order.id).bind Delivery.driverId = some user.id then
    role = .driver else _
  split
  · next hd => grind
  · next hd => grind

/-- A driver who resolves to `driver` is named by the records. -/
theorem names_of_resolveRole (hrole : user.role = .driver)
    (h : (resolveRole user order).run db = .ok (.driver, db')) :
    (db.life order.id).Names user.id := by
  obtain ⟨-, h⟩ := (resolveRole_driver hrole).mp h
  split at h
  · next hd => exact .inl hd
  · obtain ⟨a, hrows, hrole⟩ := h
    cases a with
    | none => cases hrole
    | some a =>
      have ha : a ∈ drivingAssignments db order.id user.id := by simp [hrows]
      exact .inr ⟨a, mem_drivingAssignments.mp ha⟩

/-- A driver whom the records name resolves to `driver`, if no two assignments in force do. -/
theorem resolveRole_of_names (hrole : user.role = .driver)
    (hone : (drivingAssignments db order.id user.id).length ≤ 1)
    (h : (db.life order.id).Names user.id) :
    (resolveRole user order).run db = .ok (.driver, db) := by
  rw [resolveRole_driver hrole]
  refine ⟨rfl, ?_⟩
  split
  · rfl
  · next hd =>
    obtain ⟨a, ha⟩ := h.resolve_left hd
    have hmem := mem_drivingAssignments.mpr ha
    obtain ⟨b, hb⟩ := List.length_eq_one_iff.mp
      (Nat.le_antisymm hone (List.length_pos_of_mem hmem))
    exact ⟨some b, hb, rfl⟩

/-- A driver whom the records do not name resolves to `none`. -/
theorem resolveRole_of_not_names (hrole : user.role = .driver)
    (h : ¬(db.life order.id).Names user.id) :
    (resolveRole user order).run db = .ok (.none, db) := by
  rw [resolveRole_driver hrole, if_neg fun hd => h (.inl hd)]
  refine ⟨rfl, none, List.eq_nil_iff_forall_not_mem.mpr fun a ha => ?_, rfl⟩
  exact h (.inr ⟨a, mem_drivingAssignments.mp ha⟩)

/-- The view of a caller comes from the order row and the delivery row. -/
theorem getTrackView_ok {v : TrackView} (h : (getTrackView user o).run db = .ok (v, db')) :
    db' = db ∧ ∃ x, db.orders.get o = some x ∧
      (v = .customer (buildCustomerView x (db.deliveries.get o)) ∨
        ∃ d, db.deliveries.get o = some d ∧ v = .internal (buildInternalView x d)) := by
  simp only [getTrackView, loadOrder, loadDelivery, bind_eq, run_bind_ok, run_read_ok, pure_eq,
    run_ret_ok, run_getOrRaise_ok, run_raiseIf_ok] at h
  obtain ⟨_, _, ⟨_, _, ⟨rfl, rfl⟩, rfl, rfl⟩, x, _, ⟨hx, rfl⟩, ⟨role, loaded⟩, t, hrole, _, _,
    ⟨-, rfl⟩, _, _, ⟨_, _, ⟨rfl, rfl⟩, rfl, rfl⟩, hview⟩ := h
  obtain ⟨hget, -⟩ := Option.filter_eq_some_iff.mp hx
  have hid : x.id = o := Table.key_of_get hget
  subst hid
  obtain ⟨rfl, -⟩ := resolveRoleLoading_ok hrole
  rw [asLoaded_of_run hrole] at hview
  simp only [viewFor, run_ite_ok, pure_eq, run_ret_ok, bind_eq, run_bind_ok,
    run_getOrRaise_ok] at hview
  rcases hview with ⟨-, rfl, rfl⟩ | ⟨-, d, _, ⟨hd, rfl⟩, rfl, rfl⟩
  · exact ⟨rfl, x, hget, .inl rfl⟩
  · exact ⟨rfl, x, hget, .inr ⟨d, hd, rfl⟩⟩

/-- A report that returns has found the order out for delivery and the caller internal to it. -/
theorem postLocation_ok {env : Env} {lat lng : Coordinate} {eta distance : Option ℤ}
    {r : Order × Delivery}
    (h : (postLocation env user o lat lng eta distance).run db = .ok (r, db')) :
    ∃ x d role, db.orders.get o = some x ∧ x.deletedAt = none ∧ x.status = .outForDelivery ∧
      (resolveRole user x).run db = .ok (role, db) ∧ isInternalRole role = true ∧
      db.deliveries.get o = some d ∧ d.status ≠ .delivered ∧
      r = (x, d.report lat lng (env.now 0) eta (farthest d distance)) ∧
      db' = db.modifyDelivery o
        (Delivery.report lat lng (env.now 0) eta (farthest d distance)) := by
  simp only [postLocation, loadOrder, bind_eq, run_bind_ok, run_read_ok, pure_eq, run_ret_ok,
    run_getOrRaise_ok, run_raiseIf_ok, run_selectForUpdate_ok, run_updateDelivery_ok] at h
  obtain ⟨_, _, ⟨_, _, ⟨rfl, rfl⟩, rfl, rfl⟩, x, _, ⟨hx, rfl⟩, ⟨role, loaded⟩, t, hrole, _, _,
    ⟨-, rfl⟩, _, _, ⟨hinternal, rfl⟩, _, _, ⟨hstatus, rfl⟩, _, _, ⟨rfl, rfl⟩, d, _, ⟨hd, rfl⟩, _, _,
    ⟨hnot, rfl⟩, _, _, rfl, rfl, rfl⟩ := h
  obtain ⟨hget, hlive⟩ := Option.filter_eq_some_iff.mp hx
  have hid : x.id = o := Table.key_of_get hget
  subst hid
  obtain ⟨rfl, -⟩ := resolveRoleLoading_ok hrole
  rw [asLoaded_of_run hrole] at hd
  refine ⟨x, d, role, hget, by simpa using hlive, not_not.mp hstatus,
    resolveRole_ok.mpr ⟨loaded, hrole⟩, ?_, hd, hnot, rfl, rfl⟩
  revert hinternal
  cases role <;> simp [isInternalRole]

end Reads

/-! ### Requests in the life of an order -/

/-- What a report does in the life of an order. -/
inductive Reported (r : Report) (o : Id) (L : Life) : Life → Prop
  | stay : Reported r o L L
  | report {x d distance} : r.orderId = o → L.order = some x → x.deletedAt = none →
      x.status = .outForDelivery → L.delivery = some d → d.status ≠ .delivered →
      Reported r o L
        { L with delivery := some (d.report r.lat r.lng (r.now 0) r.etaSeconds distance) }

section Requests

variable {sha256 : String → String} {w : World} {o : Id}

/-- An answered report changes the order's life as a report does. -/
theorem answer_reported (w : World) (r : Report) (o : Id) :
    Reported r o (w.db.life o) ((w.answer r).2.life o) := by
  cases hr : (w.answer r).1 with
  | error e =>
    have hsame : (w.answer r).2 = w.db := session_error hr
    rw [hsame]
    exact .stay
  | ok a =>
    obtain ⟨x, d, role, hget, hlive, hstatus, -, -, hd, hnot, -, hdb⟩ :=
      postLocation_ok (session_ok hr)
    have hdb' : (w.answer r).2 = _ := hdb
    rw [hdb']
    by_cases ho : o = r.orderId
    · subst ho
      have hlife : (w.db.life r.orderId).delivery = some d := hd
      rw [life_modifyDelivery_self (Delivery.report_orderId _ _ _ _ _), hlife]
      exact .report rfl hget hlive hstatus hd hnot
    · rw [life_modifyDelivery_of_ne (Delivery.report_orderId _ _ _ _ _) ho]
      exact .stay

/-- A report leaves the row of every order, and no life becomes empty or ceases to be. -/
theorem Reported.order {r : Report} {L L' : Life} (h : Reported r o L L') : L'.order = L.order := by
  cases h with
  | stay => rfl
  | report => rfl

/-- A report on nothing changes nothing. -/
theorem Reported.empty {r : Report} {L' : Life} (h : Reported r o {} L') : L' = {} := by
  cases h with
  | stay => rfl
  | report _ hx => cases hx

/-- A report leaves the settings alone. -/
theorem answer_settings (w : World) (r : Report) :
    (w.answer r).2.platformSettings = w.db.platformSettings := by
  cases hr : (w.answer r).1 with
  | error e => exact congrArg Db.platformSettings (session_error hr)
  | ok a =>
    obtain ⟨x, d, role, -, -, -, -, -, -, -, -, hdb⟩ := postLocation_ok (session_ok hr)
    have hdb' : (w.answer r).2 = w.db.modifyDelivery r.orderId _ := hdb
    rw [hdb']
    rfl

/-- Every request keeps the world ready. -/
theorem World.Ready.handle (h : w.Ready) (q : ServiceRequest) : (w.handle sha256 q).Ready := by
  cases q with
  | call c => exact h.serve c
  | report r =>
    refine ⟨fun o ho => ?_, ?_⟩
    · have hdrawn : w.Drawn o := by
        refine h.drawn o fun hempty => ho ?_
        have hreported := answer_reported w r o
        rw [hempty] at hreported
        exact hreported.empty
      obtain ⟨n, hn, rfl⟩ := hdrawn
      have hlt : n < w.served + 1 := by omega
      exact ⟨n, hlt, rfl⟩
    · have hsame := answer_settings w r
      have hret := h.retention
      rw [← hsame] at hret
      exact hret

end Requests

end Marketplace
