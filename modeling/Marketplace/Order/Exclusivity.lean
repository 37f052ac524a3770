import Marketplace.Lib.Errors
import Marketplace.Order.Stock
import Marketplace.Order.Refusal

/-!
# One fulfilment for each order

An order is delivered by its seller or by one driver, never both. No constraint of the
schema says so: every operation of the order service that creates, fills or retires an
assignment, or creates a delivery, looks for the other kind first, under the lock on the
order row. This file proves that the lock is enough, in every interleaving, and that the
lookups that expect at most one row find at most one.
-/

namespace Marketplace

open Lib Txn OrderService

/-! ### Fulfilment -/

/-- How an order is to reach its customer. -/
structure Fulfilment where
  /-- The driver of the delivery row, when there is a row: `some none` is the seller's own. -/
  delivery : Option (Option Id) := none
  assignments : List DriverAssignment := []

/-- How the order `o` is to reach its customer. -/
def Life.fulfilment (L : Life) : Fulfilment where
  delivery := L.delivery.map Delivery.driverId
  assignments := L.assignments

/-- How the order `o` is to reach its customer. -/
def Db.fulfilment (db : Db) (o : Id) : Fulfilment := (db.life o).fulfilment

/-- An assigned driver counts. -/
theorem DriverAssignment.assign_active (a : DriverAssignment) (driver admin : Id) (now : Time) :
    (a.assign driver admin now).status ∈ activeAssignmentStatuses := by
  change DriverAssignmentStatus.assigned ∈ activeAssignmentStatuses
  decide

/-- A cancelled assignment does not. -/
theorem DriverAssignment.cancel_not_active (a : DriverAssignment) :
    a.cancel.status ∉ activeAssignmentStatuses := by
  change DriverAssignmentStatus.cancelled ∉ activeAssignmentStatuses
  decide

namespace Fulfilment

/-- The assignments in force. -/
def active (F : Fulfilment) : List DriverAssignment :=
  F.assignments.filter fun a => a.status ∈ activeAssignmentStatuses

/-- The seller delivers or an assignment is in force, not both, and no two assignments are. -/
structure Exclusive (F : Fulfilment) : Prop where
  self : F.delivery = some none → F.active = []
  single : F.active.length ≤ 1

/-- Without an assignment in force everything goes. -/
theorem exclusive_of_active_eq_nil {F : Fulfilment} (h : F.active = []) : F.Exclusive where
  self _ := h
  single := by
    rw [h]
    exact Nat.zero_le 1

/-- A request for a driver, when nothing has been chosen. -/
theorem exclusive_request {F : Fulfilment} (hdelivery : F.delivery = none)
    (hactive : F.active = []) (a : DriverAssignment) :
    Exclusive { F with assignments := F.assignments ++ [a] } where
  self hself := by
    rw [show F.delivery = some none from hself] at hdelivery
    cases hdelivery
  single := by
    have hone : active { F with assignments := F.assignments ++ [a] } =
        F.active ++ [a].filter fun a => a.status ∈ activeAssignmentStatuses := List.filter_append ..
    rw [hone, hactive, List.nil_append]
    exact List.length_filter_le _ _

/-- A delivery for a driver leaves room for an assignment. -/
theorem Exclusive.give {F : Fulfilment} (h : F.Exclusive) {driver : Option Id}
    (hdriver : driver ≠ none) :
    Exclusive { F with delivery := F.delivery.or (some driver) } where
  self hself := by
    have hor : F.delivery.or (some driver) = some none := hself
    cases hd : F.delivery with
    | none =>
      rw [hd, Option.none_or] at hor
      exact absurd (Option.some.inj hor) hdriver
    | some d =>
      rw [hd, Option.some_or] at hor
      exact h.self (hd.trans hor)
  single := h.single

/-- Giving an assignment in force to a driver keeps it in force and puts no other in force. -/
theorem Exclusive.assign {F : Fulfilment} (h : F.Exclusive) {p : DriverAssignment}
    (hp : p ∈ F.active) (hids : (F.assignments.map DriverAssignment.id).Nodup)
    (driver admin : Id) (now : Time) :
    Exclusive { F with assignments := F.assignments.map fun a =>
      if a.id = p.id then a.assign driver admin now else a } := by
  obtain ⟨hmem, hstatus⟩ := List.mem_filter.mp hp
  -- what is in force before is in force after, and nothing else
  have hsame : ∀ a ∈ F.assignments,
      ((if a.id = p.id then a.assign driver admin now else a).status ∈ activeAssignmentStatuses ↔
        a.status ∈ activeAssignmentStatuses) := by
    intro a ha
    by_cases hid : a.id = p.id
    · obtain rfl := List.inj_on_of_nodup_map hids ha hmem hid
      rw [if_pos rfl]
      exact iff_of_true (a.assign_active _ _ _) (of_decide_eq_true hstatus)
    · rw [if_neg hid]
  have hactive : active { F with assignments := F.assignments.map fun a =>
      if a.id = p.id then a.assign driver admin now else a } =
      F.active.map fun a => if a.id = p.id then a.assign driver admin now else a := by
    rw [active, active, List.filter_map]
    congr 1
    refine List.filter_congr fun a ha => ?_
    simp only [Function.comp_apply, hsame a ha]
  refine ⟨fun hself => ?_, ?_⟩
  · rw [h.self hself] at hp
    cases hp
  · rw [hactive, List.length_map]
    exact h.single

/-- Cancelling what is in force leaves nothing in force. -/
theorem exclusive_cancel (F : Fulfilment) :
    Exclusive { F with assignments := F.assignments.map fun a =>
      if a.status ∈ activeAssignmentStatuses then a.cancel else a } := by
  refine exclusive_of_active_eq_nil (List.filter_eq_nil_iff.mpr fun a ha => ?_)
  obtain ⟨b, -, rfl⟩ := List.mem_map.mp ha
  by_cases hb : b.status ∈ activeAssignmentStatuses
  · simp [hb, b.cancel_not_active]
  · simp [hb]

end Fulfilment

/-! ### The invariant and the locks -/

/-- The fulfilment of every order is exclusive, and the schema's key of the sellers holds. -/
structure Exclusivity (db : Db) : Prop where
  /-- `uq_sellers_user_id`. -/
  sellers : (db.sellers.rows.map Seller.userId).Nodup
  orders : ∀ o, (db.fulfilment o).Exclusive

/-- The lock on an order protects its fulfilment. -/
def fulfilmentLocking : Locking Db Key where
  agree key s t :=
    match key with
    | .order o => t.fulfilment o = s.fulfilment o
    | _ => True
  refl key s := by
    cases key with
    | _ => trivial
  trans {key s t u} hst htu := by
    cases key with
    | order o => exact Eq.trans htu hst
    | _ => trivial

/-- A write that leaves every fulfilment alone, or removes that of an order whose row it holds. -/
def Quiet (key : Key) (f : Db → Db) : Prop :=
  ∀ db, (f db).sellers = db.sellers ∧ ∀ o, (f db).fulfilment o = db.fulfilment o ∨
    (key = .order o ∧ (f db).fulfilment o = {})

/-- The kinds of writes that are not quiet. -/
def fulfilmentKinds : List WriteKind :=
  [.giveTo, .addDelivery, .assign, .cancelAssignment, .addAssignment]

section Quiet

variable {db : Db} {o : Id} {key : Key} {f : Db → Db} {K : List WriteKind}

/-- A change of a delivery row that keeps its driver. -/
theorem fulfilment_modifyDelivery {id : Id} {f : Delivery → Delivery}
    (hkey : ∀ d, (f d).orderId = d.orderId) (hdriver : ∀ d, (f d).driverId = d.driverId) :
    (db.modifyDelivery id f).fulfilment o = db.fulfilment o := by
  unfold Db.fulfilment
  by_cases ho : o = id
  · subst ho
    rw [life_modifyDelivery_self hkey]
    simp only [Life.fulfilment, Option.map_map]
    congr 2
    funext d
    exact hdriver d
  · rw [life_modifyDelivery_of_ne hkey ho]

/-- Most writes to orders leave the fulfilment alone. -/
theorem OrderWrite.quiet (hK : ∀ k ∈ K, k ∉ fulfilmentKinds) (h : OrderWrite K key f) :
    Quiet key f := by
  intro db
  cases h with
  | removeOrder id h =>
    refine ⟨rfl, fun o => ?_⟩
    unfold Db.fulfilment
    by_cases ho : o = id
    · subst ho
      rw [life_removeOrder_self]
      exact .inr ⟨rfl, rfl⟩
    · rw [life_removeOrder_of_ne ho]
      exact .inl rfl
  | start id now h =>
    exact ⟨rfl, fun o => .inl (fulfilment_modifyDelivery (Delivery.start_orderId now) fun _ => rfl)⟩
  | deliver id now duration h =>
    exact ⟨rfl, fun o => .inl (fulfilment_modifyDelivery
      (fun d => Delivery.deliver_orderId now d duration) fun _ => rfl)⟩
  | moveTo id lat lng h =>
    exact ⟨rfl, fun o => .inl (fulfilment_modifyDelivery
      (fun d => Delivery.moveTo_orderId d lat lng) fun _ => rfl)⟩
  | patch id distance duration h =>
    exact ⟨rfl, fun o => .inl (fulfilment_modifyDelivery
      (fun d => Delivery.patch_orderId d distance duration) fun _ => rfl)⟩
  | giveTo id driver h => exact absurd (by decide) (hK _ h)
  | addDelivery d hd h => exact absurd (by decide) (hK _ h)
  | assign id driver admin now h => exact absurd (by decide) (hK _ h)
  | cancelAssignment id h => exact absurd (by decide) (hK _ h)
  | addAssignment a h => exact absurd (by decide) (hK _ h)
  | _ => exact ⟨rfl, fun o => .inl rfl⟩

/-- So do most writes of the three services. -/
theorem ServiceWrite.quiet (hK : ∀ k ∈ K, k ∉ fulfilmentKinds) (h : ServiceWrite K key f) :
    Quiet key f := by
  cases h with
  | order h => exact h.quiet hK
  | setSettings ps => exact fun db => ⟨rfl, fun o => .inl rfl⟩

/-- So does a placement, whose order has no fulfilment yet. -/
theorem PlaceWrite.quiet (h : PlaceWrite key f) : Quiet key f := by
  intro db
  cases h with
  | _ => exact ⟨rfl, fun o => .inl rfl⟩

/-- A quiet write keeps the exclusivity. -/
theorem Quiet.exclusivity (h : Quiet key f) (hdb : Exclusivity db) : Exclusivity (f db) where
  sellers := by
    rw [(h db).1]
    exact hdb.sellers
  orders o := by
    rcases (h db).2 o with hsame | ⟨-, hgone⟩
    · rw [hsame]
      exact hdb.orders o
    · rw [hgone]
      exact Fulfilment.exclusive_of_active_eq_nil rfl

/-- A quiet write respects the locks of the other orders. -/
theorem Quiet.frame {key' : Key} (h : Quiet key f) (hne : key' ≠ key) :
    fulfilmentLocking.agree key' db (f db) := by
  cases key' with
  | order o =>
    rcases (h db).2 o with hsame | ⟨hkey, -⟩
    · exact hsame
    · exact absurd hkey.symm hne
  | _ => trivial

/-- A program with quiet writes keeps fulfilments exclusive in every interleaving. -/
theorem safe_of_quiet {α : Type} {P : Key → (Db → Db) → Prop} {p : Tx α}
    (h : p.Writes P) (hP : ∀ key f, P key f → Quiet key f) :
    p.Safe fulfilmentLocking Exclusivity fun _ _ _ => True :=
  h.safe (R := fun _ _ => True) (fun _ => trivial) (fun _ _ _ _ _ => trivial)
    (fun _ _ hf _ hdb => ⟨(hP _ _ hf).exclusivity hdb, trivial⟩)
    fun _ _ hf _ _ hne => (hP _ _ hf).frame hne

end Quiet

/-! ### The operations that choose, fill or retire a fulfilment -/

/-- A change of the fulfilment of one order that leaves it exclusive. -/
structure Rearranged (o : Id) (s t : Db) : Prop where
  sellers : t.sellers = s.sellers
  other : ∀ o', o' ≠ o → t.fulfilment o' = s.fulfilment o'
  exclusive : (t.fulfilment o).Exclusive

section Rearranging

variable {db : Db} {o : Id}

/-- The fulfilment of an order is a part of its life. -/
theorem fulfilment_of_life {db' : Db} (h : db'.life o = db.life o) :
    db'.fulfilment o = db.fulfilment o :=
  congrArg Life.fulfilment h

/-- The lock on the order has been held since `s₀`. -/
theorem commitOk_of_rearranged {α : Type} {facts : List (Key × Db)} {w : Db → Db} {a : α} {s₀ : Db}
    (hmem : (Key.order o, s₀) ∈ facts)
    (h : ∀ s, Exclusivity s → s.fulfilment o = s₀.fulfilment o → Rearranged o s (w s)) :
    CommitOk fulfilmentLocking Exclusivity (fun (_ : α) _ _ => True) facts w a := by
  intro s hs hknown
  have hnew := h s hs (hknown _ hmem)
  refine ⟨⟨?_, fun o' => ?_⟩, trivial, fun key hkey => ?_⟩
  · rw [hnew.sellers]
    exact hs.sellers
  · by_cases ho : o' = o
    · subst ho
      exact hnew.exclusive
    · rw [hnew.other o' ho]
      exact hs.orders o'
  · cases key with
    | order o' =>
      refine hnew.other o' fun heq => hkey _ hmem ?_
      rw [heq]
    | _ => trivial

/-- A new delivery row enters the fulfilment of its order. -/
theorem fulfilment_addDelivery_self {d : Delivery} (hd : d.orderId = o) :
    (db.addDelivery d).fulfilment o =
      { db.fulfilment o with delivery := (db.fulfilment o).delivery.or (some d.driverId) } := by
  unfold Db.fulfilment
  rw [life_addDelivery_self hd]
  simp only [Life.fulfilment]
  cases (db.life o).delivery with
  | none => rfl
  | some d' => rfl

/-- A new delivery row, if what there is goes with it. -/
theorem rearranged_addDelivery {d : Delivery} (hd : d.orderId = o)
    (h : Fulfilment.Exclusive
      { db.fulfilment o with delivery := (db.fulfilment o).delivery.or (some d.driverId) }) :
    Rearranged o db (db.addDelivery d) where
  sellers := rfl
  other _ ho := fulfilment_of_life (life_addDelivery_of_ne hd ho)
  exclusive := by
    rw [fulfilment_addDelivery_self hd]
    exact h

/-- A new assignment, when nothing has been chosen. -/
theorem rearranged_addAssignment {a : DriverAssignment} (ha : a.orderId = o)
    (hdelivery : (db.fulfilment o).delivery = none) (hactive : (db.fulfilment o).active = []) :
    Rearranged o db (db.addAssignment a) := by
  by_cases hfresh : db.driverAssignments.get a.id = none
  · refine ⟨rfl, fun o' ho' => fulfilment_of_life ?_, ?_⟩
    · rw [life_addAssignment hfresh, if_neg (ha ▸ ho')]
    · unfold Db.fulfilment
      rw [life_addAssignment hfresh, if_pos ha.symm]
      exact Fulfilment.exclusive_request hdelivery hactive a
  · -- the insertion gives way to the row that is there
    have hsame : db.addAssignment a = db := by
      rw [Db.addAssignment, Table.insert_of_mem hfresh]
    rw [hsame]
    exact ⟨rfl, fun _ _ => rfl, Fulfilment.exclusive_of_active_eq_nil hactive⟩

/-- An assignment in force goes to a driver. -/
theorem rearranged_assign (hdb : Exclusivity db) {p : DriverAssignment}
    (hp : p ∈ (db.fulfilment o).active) (driver admin : Id) (now : Time) :
    Rearranged o db (db.modifyAssignment p.id (DriverAssignment.assign driver admin now)) := by
  have hkeys := DriverAssignment.assign_keys driver admin now
  obtain ⟨hmem, -⟩ := List.mem_filter.mp hp
  obtain ⟨hrow, hof⟩ := List.mem_filter.mp hmem
  have hpo : p.orderId = o := of_decide_eq_true hof
  refine ⟨rfl, fun o' ho' => fulfilment_of_life ?_, ?_⟩
  · exact life_modifyAssignment_of_ne hkeys hrow (hpo.symm ▸ ho')
  · unfold Db.fulfilment
    rw [life_modifyAssignment hkeys]
    have hids : ((db.life o).assignments.map DriverAssignment.id).Nodup :=
      db.driverAssignments.nodup.sublist (List.filter_sublist.map _)
    exact (hdb.orders o).assign hp hids driver admin now

/-- Everything in force is cancelled. -/
theorem rearranged_cancel : Rearranged o db (cancelAll db (db.activeAssignments o)) where
  sellers := by
    have hsame : ∀ (as : List DriverAssignment) (db : Db),
        (cancelAll db as).sellers = db.sellers := by
      intro as
      induction as with
      | nil => exact fun _ => rfl
      | cons a as ih => exact fun db => ih (db.modifyAssignment a.id DriverAssignment.cancel)
    exact hsame _ _
  other _ ho := fulfilment_of_life (life_cancelActive_of_ne ho)
  exclusive := by
    unfold Db.fulfilment
    rw [life_cancelActive_self]
    exact Fulfilment.exclusive_cancel (db.fulfilment o)

/-- A change of the order row besides. -/
theorem Rearranged.modifyOrder {db' : Db} (h : Rearranged o db db') (id : Id) (f : Order → Order) :
    Rearranged o db (db'.modifyOrder id f) :=
  ⟨h.sellers, h.other, h.exclusive⟩

end Rearranging

section Operations

variable {env : Env} {caller : User} {orderId : Id}

/-- An open fulfilment has no active assignment. -/
theorem active_eq_nil_of_open {db : Db} {o : Id}
    (h : ∀ a ∈ db.assignmentsOf o, a.status ∉ activeAssignmentStatuses) :
    (db.fulfilment o).active = [] :=
  List.filter_eq_nil_iff.mpr fun a ha => by simpa using h a ha

/-- The seller delivers only while nobody else does. -/
theorem chooseSelfDelivery_keepsExclusivity :
    (chooseSelfDelivery env caller orderId).Safe fulfilmentLocking Exclusivity
      fun _ _ _ => True := by
  unfold Safe chooseSelfDelivery
  simp only [bind_eq, wp_bind, wp_raiseIf]
  intro _
  refine wp_lockOrderOr404 fun s₀ x _ _ hact => ?_
  have hid := hact.id_eq
  subst hid
  intro _
  refine wp_ensureFulfillmentOpen fun s t _ _ _ ht _ hopen => wp_getCallerSeller fun seller => ?_
  simp only [insertDelivery, wp_insertRow]
  refine fun u _ _ _ => wp_loaded fun full => ?_
  refine commitOk_of_rearranged (List.mem_cons_of_mem _ List.mem_cons_self) fun v _ hv => ?_
  -- nothing is in force when the row is inserted, nor at the commit
  have hactive : (v.fulfilment x.id).active = [] := by
    rw [hv, ← ht _ List.mem_cons_self]
    exact active_eq_nil_of_open hopen
  exact rearranged_addDelivery rfl (Fulfilment.exclusive_of_active_eq_nil hactive)

/-- A driver is asked for only while nobody delivers. -/
theorem requestDriver_keepsExclusivity :
    (requestDriver env caller orderId).Safe fulfilmentLocking Exclusivity fun _ _ _ => True := by
  unfold Safe requestDriver
  simp only [bind_eq, wp_bind, wp_raiseIf]
  intro _
  refine wp_lockOrderOr404 fun s₀ x _ _ hact => ?_
  have hid := hact.id_eq
  subst hid
  intro _
  refine wp_ensureFulfillmentOpen fun s t _ hs _ ht hnone hopen =>
    wp_getCallerSeller fun seller => ?_
  simp only [insertAssignment, wp_insertRow]
  refine fun u _ _ _ => wp_loaded fun full => ?_
  refine commitOk_of_rearranged (List.mem_cons_of_mem _ List.mem_cons_self) fun v _ hv => ?_
  have hdelivery : (v.fulfilment x.id).delivery = none := by
    rw [hv, ← hs _ List.mem_cons_self]
    exact Option.map_eq_none_iff.mpr hnone
  have hactive : (v.fulfilment x.id).active = [] := by
    rw [hv, ← ht _ List.mem_cons_self]
    exact active_eq_nil_of_open hopen
  exact rearranged_addAssignment rfl hdelivery hactive

/-- Assignments of an order whose lock is held are rows of every database until the commit. -/
theorem get_of_known {facts : List (Key × Db)} {o : Id} {s t : Db} {s₀ : Db}
    (hmem : (Key.order o, s₀) ∈ facts) (hs : fulfilmentLocking.Known facts s)
    (ht : fulfilmentLocking.Known facts t) {a : DriverAssignment} (ha : a ∈ s.assignmentsOf o) :
    t.driverAssignments.get a.id = some a := by
  have hsame : t.fulfilment o = s.fulfilment o := (ht _ hmem).trans (hs _ hmem).symm
  have hof : t.assignmentsOf o = s.assignmentsOf o := congrArg Fulfilment.assignments hsame
  rw [← hof] at ha
  exact Table.mem_rows_iff.mp (List.mem_filter.mp ha).1

/-- An assignment takes the place of the request. -/
theorem assignDriver_keepsExclusivity (driverId : Id) :
    (assignDriver env caller orderId driverId).Safe fulfilmentLocking Exclusivity
      fun _ _ _ => True := by
  unfold Safe assignDriver
  simp only [bind_eq, wp_bind, wp_raiseIf]
  intro _
  refine wp_lockOrderOr404 fun s₀ x _ _ hact => ?_
  have hid := hact.id_eq
  subst hid
  intro _
  refine wp_findDriver fun user _ => ?_
  simp only [wp_read]
  intro s _ hs
  refine wp_lockAssignments (fun t _ ht a ha => ?_) fun facts hsub => ?_
  · have hmem := (List.mergeSort_perm _ _).mem_iff.mp ha
    exact get_of_known List.mem_cons_self hs ht hmem
  simp only [wp_getOrRaise, updateAssignment, wp_updateRow]
  intro p hhead _ t _ _
  refine wp_loaded fun full => commitOk_of_rearranged
    (List.mem_cons_of_mem _ (hsub List.mem_cons_self)) fun v hv hsame => ?_
  have hp : p ∈ (v.fulfilment x.id).active := by
    rw [hsame, ← hs _ List.mem_cons_self]
    have hmem := List.mem_of_mem_head? hhead
    simp only [List.mem_filter, (List.mergeSort_perm _ _).mem_iff] at hmem
    exact List.mem_filter.mpr hmem
  exact rearranged_assign hv hp _ _ _

/-- A delivery that is started is a driver's, or is the one that is there. -/
theorem wp_startDelivery {x : Order} {delivery : Option Delivery} {facts : List (Key × Db)}
    {Post : List (Key × Db) → (Db → Db) → Unit → Prop}
    (h : ∀ facts' w, facts ⊆ facts' → (∀ v, Exclusivity v → Rearranged x.id v (w v)) →
      Post facts' w ()) :
    (startDelivery env caller x delivery).wp fulfilmentLocking Exclusivity Post facts id := by
  cases delivery with
  | none =>
    simp only [startDelivery, bind_eq, wp_bind, wp_read, wp_scalarOneOrNone, wp_getOrRaise,
      wp_raiseIf, insertDelivery, wp_insertRow]
    rintro s _ _ found hfound a rfl _ _ t _ _ _
    have ha : a ∈ (s.assignmentsOf x.id).filter fun a =>
        a.status ∈ [DriverAssignmentStatus.assigned, .accepted] ∧ a.driverId ≠ none := by
      rw [id_eq] at hfound
      rw [hfound]
      exact List.mem_singleton.mpr rfl
    have hdriver : a.driverId ≠ none := (of_decide_eq_true (List.mem_filter.mp ha).2).2
    exact h _ _ (List.subset_cons_self _ _) fun v hv =>
      rearranged_addDelivery rfl ((hv.orders x.id).give hdriver)
  | some d =>
    simp only [startDelivery, bind_eq, wp_bind, wp_raiseIf, updateDelivery, wp_updateRow]
    refine fun _ _ _ t _ _ => h _ _ (List.subset_cons_self _ _) fun v hv => ?_
    have hsame : ∀ o, (v.modifyDelivery x.id (Delivery.start (env.now 0))).fulfilment o =
        v.fulfilment o :=
      fun o => fulfilment_modifyDelivery (Delivery.start_orderId _) fun _ => rfl
    exact ⟨rfl, fun o _ => hsame o, (hsame x.id).symm ▸ hv.orders x.id⟩

/-- Setting out changes no party. -/
theorem outForDelivery_keepsExclusivity :
    (outForDelivery env caller orderId).Safe fulfilmentLocking Exclusivity fun _ _ _ => True := by
  unfold Safe outForDelivery
  simp only [bind_eq, wp_bind, wp_raiseIf]
  intro _
  refine wp_lockOrderOr404 fun s₀ x _ _ hact => ?_
  have hid := hact.id_eq
  subst hid
  intro _ _
  have hstart : ∀ (delivery : Option Delivery) (facts : List (Key × Db)),
      (Key.order x.id, s₀) ∈ facts →
      (startDelivery env caller x delivery).wp fulfilmentLocking Exclusivity
        (fun facts w _ => (updateOrder x.id (Order.sendOut (env.now 1))).wp fulfilmentLocking
          Exclusivity (fun facts w _ => (loaded x.id).wp fulfilmentLocking Exclusivity
            (CommitOk fulfilmentLocking Exclusivity fun _ _ _ => True) facts w) facts w)
        facts id := by
    intro delivery facts hmem
    refine wp_startDelivery fun facts' w hsub hw => ?_
    simp only [updateOrder, wp_updateRow]
    exact fun t _ _ => wp_loaded fun full => commitOk_of_rearranged
      (List.mem_cons_of_mem _ (hsub hmem)) fun v hv _ => (hw v hv).modifyOrder _ _
  exact wp_selectForUpdate (hstart none _ List.mem_cons_self) fun s _ _ =>
    hstart _ _ (List.mem_cons_of_mem _ List.mem_cons_self)

/-- A cancellation ends the assignments. -/
theorem cancelOrder_keepsExclusivity (reason : Option String) :
    (cancelOrder env caller orderId reason).Safe fulfilmentLocking Exclusivity
      fun _ _ _ => True := by
  unfold Safe cancelOrder
  simp only [bind_eq, wp_bind]
  refine wp_lockOrderOr404 fun s₀ x _ _ hact => ?_
  have hid := hact.id_eq
  subst hid
  simp only [wp_raiseIf]
  refine fun _ => wp_ensureMayCancel ?_
  simp only [wp_read]
  intro s _ hs
  refine wp_lockAssignments (fun t _ ht a ha => ?_) fun facts hsub => ?_
  · exact get_of_known List.mem_cons_self hs ht (List.mem_filter.mp ha).1
  simp only [updateOrder, wp_updateRow]
  refine fun t _ _ => wp_cancelAssignments fun facts' hsub' => wp_loaded fun full => ?_
  refine commitOk_of_rearranged (hsub' (List.mem_cons_of_mem _ (hsub List.mem_cons_self)))
    fun v hv hsame => ?_
  -- what was in force when it was read is in force at the commit
  have hactive : ((s.assignmentsOf x.id).filter fun a => a.status ∈ activeAssignmentStatuses).filter
      (fun a => a.status ∈ activeAssignmentStatuses) =
      (v.modifyOrder x.id (Order.cancel (env.now 0) reason)).activeAssignments x.id := by
    have hof : v.assignmentsOf x.id = s.assignmentsOf x.id :=
      congrArg Fulfilment.assignments (hsame.trans (hs _ List.mem_cons_self).symm)
    rw [List.filter_filter]
    simp only [Bool.and_self]
    rw [← hof]
    rfl
  simp only [Function.comp_apply, id_eq] at hactive ⊢
  rw [hactive]
  have hcancel : Rearranged x.id (v.modifyOrder x.id (Order.cancel (env.now 0) reason)) _ :=
    rearranged_cancel
  exact ⟨hcancel.sellers, hcancel.other, hcancel.exclusive⟩

end Operations

/-! ### Lookups that expect at most one row -/

/-- The error of a lookup that expects at most one row and finds two. -/
def Err.Multiple (e : Err) : Prop := e = .multipleResults

/-- The errors of the lookups of one row: that there are two, or that the caller has no profile,
with statuses that no other check of these operations answers with. -/
def Err.isLookup : Err → Bool
  | .multipleResults => true
  | .app e => e.httpStatus = 400 ∨ e.httpStatus = 403
  | _ => false

/-- Errors that only lookups raise. -/
structure Err.OfLookups (bad : Err → Prop) : Prop where
  isLookup : ∀ e, bad e → e.isLookup = true

/-- No error but that of a lookup is bad. -/
theorem Err.OfLookups.other {bad : Err → Prop} (hbad : OfLookups bad) {e : Err}
    (he : e.isLookup = false) : ¬bad e := fun h => by simp [hbad.isLookup e h] at he

/-- Finding two rows is an error of a lookup. -/
theorem Err.ofLookups_multiple : OfLookups Err.Multiple := ⟨by rintro e rfl; rfl⟩

section Lookups

variable {env : Env} {caller : User} {orderId : Id} {L : Locking Db Key} {I : Db → Prop}
  {facts : List (Key × Db)} {w : Db → Db} {bad : Err → Prop}

/-- A query for one row that finds at most one. -/
theorem avoids_scalarOneOrNone {ρ : Type} {rows : List ρ} (h : rows.length ≤ 1) :
    (scalarOneOrNone rows).Avoids L I Err.Multiple facts w := by
  rcases rows with _ | ⟨a, _ | ⟨b, rest⟩⟩
  · trivial
  · trivial
  · simp at h

/-- A locking `SELECT` by key raises nothing. -/
theorem neverRaises_selectForUpdate {ρ : Type} (key : Key) (get : Db → Option ρ) :
    (selectForUpdate key get).NeverRaises bad := by
  refine .bind .read fun db => ?_
  cases get db with
  | none => exact .pure _
  | some r => exact .bind (.acquire key) fun _ => .pure _

/-- An insertion fails for its constraint only. -/
theorem neverRaises_insertRow (hbad : Err.OfLookups bad) {key : Key} {taken : Db → Bool}
    {constraint : String} {put : Db → Db} :
    (insertRow key taken constraint put).NeverRaises bad :=
  .bind (.acquire key) fun _ => .bind (.raiseIf _ (hbad.other rfl)) fun _ => .modify put

/-- A missing order is another error. -/
theorem neverRaises_loaded (hbad : Err.OfLookups bad) : (loaded orderId).NeverRaises bad :=
  .bind (.bind .read fun _ => .pure _) fun _ => .getOrRaise _ (hbad.other rfl)

/-- So are those of the check of the caller. -/
theorem neverRaises_lockOrderOr404 (hbad : Err.OfLookups bad) :
    (lockOrderOr404 orderId caller).NeverRaises bad :=
  .bind (neverRaises_selectForUpdate _ _) fun _ => .bind (.getOrRaise _ (hbad.other rfl)) fun _ =>
    .bind (.raiseIf _ (hbad.other rfl)) fun _ => .bind (.raiseIf _ (hbad.other rfl)) fun _ =>
    .bind (.raiseIf _ (hbad.other rfl)) fun _ => .pure _

/-- So is a cancellation that is not allowed. -/
theorem neverRaises_ensureMayCancel (hbad : Err.OfLookups bad) (status : OrderStatus) :
    (ensureMayCancel caller status).NeverRaises bad := by
  unfold ensureMayCancel
  cases caller.role with
  | customer => exact .raiseIf _ (hbad.other rfl)
  | seller => exact .raiseIf _ (hbad.other rfl)
  | admin => exact .pure _
  | driver => exact .raise (hbad.other rfl)

/-- The settings are always found. -/
theorem neverRaises_getRetentionSettings :
    (getRetentionSettings env).NeverRaises bad := by
  refine .bind .read fun db => ?_
  cases db.platformSettings with
  | none => exact .bind (.updateRow _ _) fun _ => .pure _
  | some ps => exact .pure _

/-- Locked orders are skipped, not waited for. -/
theorem neverRaises_skipLockedOrders (p : Order → Bool) (ids : List Id) :
    (skipLockedOrders p ids).NeverRaises bad := by
  induction ids with
  | nil => exact .pure _
  | cons id ids ih => exact .bind (.tryAcquire _) fun _ => .bind ih fun _ => .pure _

/-- The automatic completion raises nothing. -/
theorem neverRaises_autoComplete (now : Time) (i : ℕ) (orders : List Order) :
    (autoComplete env now i orders).NeverRaises bad := by
  induction orders generalizing i with
  | nil => exact .pure _
  | cons x orders ih =>
    unfold autoComplete
    split
    · exact ih i
    · exact .bind (.updateRow _ _) fun _ => .bind (neverRaises_writeSnapshot _ _) fun _ =>
        .bind (ih (i + 1)) fun _ => .pure _

/-- Neither does the purge. -/
theorem neverRaises_purge (i : ℕ) (orders : List Order) :
    (purge env i orders).NeverRaises bad := by
  induction orders generalizing i with
  | nil => exact .pure _
  | cons x orders ih =>
    have hrest : (deleteOrderRow x.id >>= fun _ => purge env (i + 1) orders >>= fun n =>
        pure (n + 1)).NeverRaises bad :=
      .bind (.updateRow _ _) fun _ => .bind (ih (i + 1)) fun _ => .pure _
    unfold purge
    split
    · exact .bind (neverRaises_writeSnapshot _ _) fun _ => hrest
    · exact hrest

/-- Missing products are left out here. -/
theorem neverRaises_lockProducts (ids : List Id) :
    (lockProducts ids).NeverRaises bad := by
  induction ids with
  | nil => exact .pure _
  | cons id ids ih => exact .bind (.acquire _) fun _ => .bind ih fun _ => .pure _

/-- A missing product is another error. -/
theorem neverRaises_resolveLines (hbad : Err.OfLookups bad) (products : List Product)
    (qty : List (Id × ℤ)) :
    (resolveLines products qty).NeverRaises bad := by
  induction qty with
  | nil => exact .pure _
  | cons entry qty ih =>
    exact .bind (.getOrRaise _ (hbad.other rfl)) fun _ => .bind ih fun _ => .pure _

/-- So is a product that is out of stock. -/
theorem neverRaises_checkLines (hbad : Err.OfLookups bad) (lines : List (Product × ℤ)) :
    (checkLines lines).NeverRaises bad := by
  induction lines with
  | nil => exact .pure _
  | cons line lines ih =>
    exact .bind (.raiseIf _ (hbad.other rfl)) fun _ =>
      .bind (.raiseIf _ (hbad.other rfl)) fun _ => ih

/-- The stock fails for its column only. -/
theorem neverRaises_decrementStock (hbad : Err.OfLookups bad) (lines : List (Product × ℤ)) :
    (decrementStock lines).NeverRaises bad := by
  induction lines with
  | nil => exact .pure _
  | cons line lines ih =>
    unfold decrementStock
    cases line.1.stockQuantity with
    | none => exact ih
    | some stock =>
      exact .bind (.bind (.raiseIf _ (hbad.other rfl)) fun _ =>
        .bind (.raiseIf _ (hbad.other rfl)) fun _ => .updateRow _ _) fun _ => ih

/-- The items fail for their columns only. -/
theorem neverRaises_insertItems (hbad : Err.OfLookups bad) (i : ℕ) (lines : List (Product × ℤ)) :
    (insertItems env orderId i lines).NeverRaises bad := by
  induction lines generalizing i with
  | nil => exact .pure _
  | cons line lines ih =>
    exact .bind (.bind (.raiseIf _ (hbad.other rfl)) fun _ =>
      .bind (.raiseIf _ (hbad.other rfl)) fun _ => neverRaises_insertRow hbad) fun _ => ih (i + 1)

/-- At most one row of a list has a given value of a key. -/
theorem length_filter_le_one {ρ κ : Type} {rows : List ρ} {key : ρ → κ} {k : κ} {p : ρ → Bool}
    (hkeys : (rows.map key).Nodup) (hp : ∀ r, p r = true → key r = k) :
    (rows.filter p).length ≤ 1 := by
  have hsub : ((rows.filter p).map key).Nodup := hkeys.sublist (List.filter_sublist.map _)
  have hmem : ∀ r ∈ rows.filter p, key r = k := fun r hr => hp r (List.mem_filter.mp hr).2
  rcases hrows : rows.filter p with _ | ⟨a, _ | ⟨b, rest⟩⟩
  · simp
  · simp
  · rw [hrows] at hsub hmem
    have ha := hmem a (by simp)
    have hb := hmem b (by simp)
    simp [ha, hb] at hsub

/-- `sellers.user_id` is unique. -/
theorem avoids_getCallerSeller :
    (getCallerSeller caller).Avoids L Exclusivity Err.Multiple facts id := by
  simp only [getCallerSeller, bind_eq, avoids_bind, wp_read]
  refine ⟨avoids_read, fun s hs _ => ⟨avoids_scalarOneOrNone ?_, ?_⟩⟩
  · exact length_filter_le_one hs.sellers fun r hr => (of_decide_eq_true hr).1
  · refine wp_of_forall fun _ _ _ => avoids_getOrRaise.mpr fun _ h => ?_
    cases h

/-- No two assignments of an order are in force. -/
theorem avoids_ensureFulfillmentOpen :
    (ensureFulfillmentOpen orderId).Avoids L Exclusivity Err.Multiple facts id := by
  simp only [ensureFulfillmentOpen, bind_eq, avoids_bind, wp_read, wp_raiseIf]
  refine ⟨avoids_read, fun s _ _ => ⟨avoids_raiseIf.mpr (fun _ h => nomatch h), fun _ =>
    ⟨avoids_read, fun t ht _ => ⟨avoids_scalarOneOrNone (ht.orders orderId).single, ?_⟩⟩⟩⟩
  exact wp_of_forall fun _ _ _ => avoids_raiseIf.mpr fun _ h => nomatch h

/-- The assignments with a driver are in force. -/
theorem avoids_startDelivery {x : Order} {delivery : Option Delivery} :
    (startDelivery env caller x delivery).Avoids L Exclusivity Err.Multiple facts id := by
  cases delivery with
  | none =>
    refine avoids_bind.mpr ⟨avoids_read, fun s hs _ =>
      avoids_bind.mpr ⟨avoids_scalarOneOrNone ?_, wp_of_forall fun facts w found => ?_⟩⟩
    · refine le_trans (List.Sublist.length_le ?_) (hs.orders x.id).single
      refine List.monotone_filter_right _ fun a ha => ?_
      have hassigned := (of_decide_eq_true ha).1
      refine decide_eq_true ?_
      simp only [List.mem_cons, List.not_mem_nil, or_false] at hassigned
      rcases hassigned with h | h
      · rw [h]
        decide
      · rw [h]
        decide
    · have hrest : ∀ a : DriverAssignment, ((do
          raiseIf (caller.role = .driver ∧ some caller.id ≠ a.driverId) Err.orderNotFound
          raiseIf (caller.role = .seller ∧ caller.id ≠ x.sellerId) Err.orderNotFound
          insertDelivery
            { id := env.uuid4 0, orderId := x.id, driverId := a.driverId,
              sellerId := x.sellerId, status := .inTransit, startedAt := some (env.now 0) } :
            Tx Unit)).NeverRaises Err.Multiple :=
        fun a => .bind (.raiseIf _ nofun) fun _ => .bind (.raiseIf _ nofun) fun _ =>
          neverRaises_insertRow Err.ofLookups_multiple
      exact NeverRaises.bind (.getOrRaise _ nofun) hrest L Exclusivity facts w
  | some d =>
    have hsome : (startDelivery env caller x (some d)).NeverRaises Err.Multiple :=
      .bind (.raiseIf _ nofun) fun _ => .bind (.raiseIf _ nofun) fun _ =>
        .bind (.raiseIf _ nofun) fun _ => .updateRow _ _
    exact hsome L Exclusivity facts id

end Lookups

/-! ### Every operation of the order service -/

/-- The operations of `order_service.py` that take a caller's request, and its purge job. -/
def Op.ofOrderService : Op → Bool
  | .driverAccept .. | .recordLocation .. | .getRoute .. | .completeDelivery ..
  | .postOrderMessage .. | .adminPatchDelivery .. => false
  | _ => true

section Operations

variable {sha256 : String → String} {env : Env} {caller : User}

/-- Every operation of the order service keeps the exclusivity. -/
theorem exec_keepsExclusivity {op : Op} (hop : op.ofOrderService = true) :
    (op.exec sha256 env caller).Safe fulfilmentLocking Exclusivity fun _ _ _ => True := by
  have hquiet : ∀ {op : Op}, (∀ k ∈ op.writeKinds, k ∉ fulfilmentKinds) →
      (∀ items address, op ≠ .createOrder items address) →
      (op.exec sha256 env caller).Safe fulfilmentLocking Exclusivity fun _ _ _ => True :=
    fun hkinds hne => safe_of_quiet (exec_writes hne) fun _ _ hf => hf.quiet hkinds
  cases op with
  | createOrder items address =>
    exact (safe_of_quiet (createOrder_writes items address) fun _ _ hf => hf.quiet).map
  | acceptOrder o => exact hquiet (by simp [Op.writeKinds, fulfilmentKinds]) (by simp)
  | markPreparing o => exact hquiet (by simp [Op.writeKinds, fulfilmentKinds]) (by simp)
  | chooseSelfDelivery o => exact chooseSelfDelivery_keepsExclusivity.map
  | requestDriver o => exact requestDriver_keepsExclusivity.map
  | assignDriver o driver => exact (assignDriver_keepsExclusivity driver).map
  | outForDelivery o => exact outForDelivery_keepsExclusivity.map
  | markDelivered o => exact hquiet (by simp [Op.writeKinds, fulfilmentKinds]) (by simp)
  | completeOrder o => exact hquiet (by simp [Op.writeKinds, fulfilmentKinds]) (by simp)
  | cancelOrder o reason => exact (cancelOrder_keepsExclusivity reason).map
  | deleteOrder o => exact hquiet (by simp [Op.writeKinds, fulfilmentKinds]) (by simp)
  | runPurgeJob => exact hquiet (by simp [Op.writeKinds, fulfilmentKinds]) (by simp)
  | updateRetentionSettings r g => exact hquiet (by simp [Op.writeKinds, fulfilmentKinds]) (by simp)
  | _ => cases hop

/-- An operation avoids the errors of lookups if the lookups do that it makes. -/
theorem exec_avoids_of_lookups {L : Locking Db Key} {I : Db → Prop} {bad : Err → Prop} {op : Op}
    (hop : op.ofOrderService = true) (hbad : Err.OfLookups bad)
    (hcaller : ∀ facts, (getCallerSeller caller).Avoids L I bad facts id)
    (hopen : ∀ o facts, (ensureFulfillmentOpen o).Avoids L I bad facts id)
    (hstart : ∀ x delivery facts, (startDelivery env caller x delivery).Avoids L I bad facts id) :
    (op.exec sha256 env caller).Avoids L I bad [] id := by
  have hreply : ∀ {α : Type} {p : Tx α} {f : α → Reply}, p.Avoids L I bad [] id →
      (p.bind fun a => ret (f a)).Avoids L I bad [] id :=
    fun hp => avoids_bind.mpr ⟨hp, wp_of_forall fun _ _ _ => trivial⟩
  have hnever : ∀ {α : Type} {p : Tx α}, p.NeverRaises bad → p.Avoids L I bad [] id :=
    fun hp => hp _ _ _ _
  -- the checks before the lookups keep nothing pending
  have hchoose : ∀ {o : Id} {α : Type} {c : Order → Prop} [∀ x, Decidable (c x)] {e : Order → Err}
      {f : Order → Seller → Tx α}, (∀ x, ¬bad (e x)) →
      (∀ x seller, (f x seller).NeverRaises bad) →
      (do
        raiseIf (caller.role ≠ .seller) Err.orderNotFound
        let x ← lockOrderOr404 o caller
        raiseIf (c x) (e x)
        ensureFulfillmentOpen x.id
        let seller ← getCallerSeller caller
        f x seller : Tx α).Avoids L I bad [] id := by
    intro o α c _ e f he hf
    refine avoids_bind.mpr
      ⟨avoids_raiseIf.mpr (fun _ => hbad.other rfl), wp_raiseIf.mpr fun _ => ?_⟩
    refine avoids_bind.mpr
      ⟨neverRaises_lockOrderOr404 hbad _ _ _ _, wp_lockOrderOr404 fun _ x _ _ _ => ?_⟩
    refine avoids_bind.mpr ⟨avoids_raiseIf.mpr fun _ => he x, wp_raiseIf.mpr fun _ => ?_⟩
    refine avoids_bind.mpr ⟨hopen _ _, wp_ensureFulfillmentOpen fun _ _ _ _ _ _ _ _ => ?_⟩
    exact avoids_bind.mpr ⟨hcaller _, wp_getCallerSeller fun seller => hf x seller _ _ _ _⟩
  cases op with
  | createOrder items address =>
    exact hreply (hnever (.bind (.raiseIf _ (hbad.other rfl)) fun _ =>
      .bind (.raiseIf _ (hbad.other rfl)) fun _ =>
      .bind (.getOrRaise _ (hbad.other rfl)) fun _ => .bind .read fun _ =>
      .bind (neverRaises_lockProducts _) fun _ => .bind (.raiseIf _ (hbad.other rfl)) fun _ =>
      .bind (.raiseIf _ (hbad.other rfl)) fun _ =>
      .bind (neverRaises_resolveLines hbad _ _) fun _ =>
      .bind (neverRaises_checkLines hbad _) fun _ =>
      .bind (neverRaises_decrementStock hbad _) fun _ =>
      .bind (.getOrRaise _ (hbad.other rfl)) fun _ =>
      .bind (.bind (.raiseIf _ (hbad.other rfl)) fun _ => neverRaises_insertRow hbad) fun _ =>
      .bind (neverRaises_insertItems hbad _ _) fun _ => neverRaises_loaded hbad))
  | acceptOrder o =>
    exact hreply (hnever (.bind (.raiseIf _ (hbad.other rfl)) fun _ =>
      .bind (neverRaises_lockOrderOr404 hbad) fun _ =>
      .bind (.raiseIf _ (hbad.other rfl)) fun _ => .bind (.updateRow _ _) fun _ =>
      neverRaises_loaded hbad))
  | markPreparing o =>
    exact hreply (hnever (.bind (.raiseIf _ (hbad.other rfl)) fun _ =>
      .bind (neverRaises_lockOrderOr404 hbad) fun _ =>
      .bind (.raiseIf _ (hbad.other rfl)) fun _ => .bind (.updateRow _ _) fun _ =>
      neverRaises_loaded hbad))
  | chooseSelfDelivery o =>
    exact hreply (hchoose (fun _ => hbad.other rfl) fun _ _ =>
      .bind (neverRaises_insertRow hbad) fun _ => neverRaises_loaded hbad)
  | requestDriver o =>
    exact hreply (hchoose (fun _ => hbad.other rfl) fun _ _ =>
      .bind (neverRaises_insertRow hbad) fun _ => neverRaises_loaded hbad)
  | assignDriver o driver =>
    exact hreply (hnever (.bind (.raiseIf _ (hbad.other rfl)) fun _ =>
      .bind (neverRaises_lockOrderOr404 hbad) fun _ =>
      .bind (.raiseIf _ (hbad.other rfl)) fun _ => .bind (.bind .read fun _ => .pure _) fun _ =>
      .bind (.raiseIf _ (hbad.other rfl)) fun _ => .bind .read fun _ =>
      .bind (neverRaises_lockAssignments _) fun _ => .bind (.getOrRaise _ (hbad.other rfl)) fun _ =>
      .bind (.raiseIf _ (hbad.other rfl)) fun _ => .bind (.updateRow _ _) fun _ =>
      neverRaises_loaded hbad))
  | outForDelivery o =>
    refine hreply (avoids_bind.mpr
      ⟨avoids_raiseIf.mpr (fun _ => hbad.other rfl), wp_raiseIf.mpr fun _ => ?_⟩)
    refine avoids_bind.mpr
      ⟨neverRaises_lockOrderOr404 hbad _ _ _ _, wp_lockOrderOr404 fun _ x _ _ _ => ?_⟩
    refine avoids_bind.mpr
      ⟨avoids_raiseIf.mpr (fun _ => hbad.other rfl), wp_raiseIf.mpr fun _ => ?_⟩
    refine avoids_bind.mpr
      ⟨avoids_raiseIf.mpr (fun _ => hbad.other rfl), wp_raiseIf.mpr fun _ => ?_⟩
    have hsent : ∀ (delivery : Option Delivery) (facts : List (Key × Db)),
        (do
          startDelivery env caller x delivery
          updateOrder x.id (Order.sendOut (env.now 1))
          loaded x.id : Tx OrderFull).Avoids L I bad facts id :=
      fun delivery facts => avoids_bind.mpr ⟨hstart x delivery facts, wp_of_forall fun _ _ _ =>
        NeverRaises.bind (.updateRow _ _) (fun _ => neverRaises_loaded hbad) _ _ _ _⟩
    exact avoids_bind.mpr ⟨neverRaises_selectForUpdate _ _ _ _ _ _,
      wp_selectForUpdate (hsent none _) fun s _ _ => hsent _ _⟩
  | markDelivered o =>
    exact hreply (hnever (.bind (.raiseIf _ (hbad.other rfl)) fun _ =>
      .bind (neverRaises_lockOrderOr404 hbad) fun _ =>
      .bind (.raiseIf _ (hbad.other rfl)) fun _ => .bind (neverRaises_selectForUpdate _ _) fun _ =>
      .bind (.getOrRaise _ (hbad.other rfl)) fun _ => .bind (.raiseIf _ (hbad.other rfl)) fun _ =>
      .bind (.raiseIf _ (hbad.other rfl)) fun _ =>
      .bind (.raiseIf _ (hbad.other rfl)) fun _ => .bind (.updateRow _ _) fun _ =>
      .bind (.updateRow _ _) fun _ => neverRaises_loaded hbad))
  | completeOrder o =>
    exact hreply (hnever (.bind (.raiseIf _ (hbad.other rfl)) fun _ =>
      .bind (neverRaises_lockOrderOr404 hbad) fun _ =>
      .bind (.raiseIf _ (hbad.other rfl)) fun _ => .bind (.updateRow _ _) fun _ =>
      .bind (neverRaises_writeSnapshot _ _) fun _ => neverRaises_loaded hbad))
  | cancelOrder o reason =>
    exact hreply (hnever (.bind (neverRaises_lockOrderOr404 hbad) fun _ =>
      .bind (.raiseIf _ (hbad.other rfl)) fun _ =>
      .bind (neverRaises_ensureMayCancel hbad _) fun _ => .bind .read fun _ =>
      .bind (neverRaises_lockAssignments _) fun _ => .bind (.updateRow _ _) fun _ =>
      .bind (neverRaises_cancelAssignments _) fun _ => neverRaises_loaded hbad))
  | deleteOrder o =>
    refine hreply (hnever (.bind (neverRaises_selectForUpdate _ _) fun _ =>
      .bind (.getOrRaise _ (hbad.other rfl)) fun x => .bind (.raiseIf _ (hbad.other rfl)) fun _ =>
      .bind (.raiseIf _ (hbad.other rfl)) fun _ =>
      .bind (.raiseIf _ (hbad.other rfl)) fun _ => .bind (.raiseIf _ (hbad.other rfl)) fun _ =>
      .bind (.getOrRaise _ (hbad.other rfl)) fun _ =>
      .bind neverRaises_getRetentionSettings fun _ =>
      .bind (.raiseIf _ (hbad.other rfl)) fun _ => ?_))
    by_cases hc : x.status = .completed
    · rw [if_pos hc]
      exact .bind (neverRaises_writeSnapshot _ _) fun _ => .updateRow _ _
    · rw [if_neg hc]
      exact .updateRow _ _
  | runPurgeJob =>
    exact hreply (hnever (.bind neverRaises_getRetentionSettings fun _ => .bind .read fun _ =>
      .bind (neverRaises_skipLockedOrders _ _) fun _ =>
      .bind (neverRaises_autoComplete _ _ _) fun _ =>
      .bind .read fun _ => .bind (neverRaises_skipLockedOrders _ _) fun _ =>
      .bind (neverRaises_purge _ _) fun _ => .pure _))
  | updateRetentionSettings r g =>
    exact hreply (hnever (.bind neverRaises_getRetentionSettings fun _ =>
      .bind (.raiseIf _ (hbad.other rfl)) fun _ =>
      .bind (.raiseIf _ (hbad.other rfl)) fun _ => .bind (.updateRow _ _) fun _ =>
      .pure _))
  | _ => cases hop

/-- In an exclusive database no operation's lookup finds two rows. -/
theorem exec_avoids {op : Op} (hop : op.ofOrderService = true) :
    (op.exec sha256 env caller).Avoids fulfilmentLocking Exclusivity Err.Multiple [] id :=
  exec_avoids_of_lookups hop Err.ofLookups_multiple (fun _ => avoids_getCallerSeller)
    (fun _ _ => avoids_ensureFulfillmentOpen) fun _ _ _ => avoids_startDelivery

end Operations

/-! ### In every interleaving -/

/-- What holds of a state of the server that runs operations of the order service. -/
structure FulfilledOnce {ι : Type} (s : Sys ι Db Key Err Reply) : Prop where
  /-- Where the seller delivers, no assignment is in force. -/
  self : ∀ o d, s.db.deliveries.get o = some d → d.driverId = none →
    ∀ a ∈ s.db.assignmentsOf o, a.status ∉ activeAssignmentStatuses
  single : ∀ o, (s.db.activeAssignments o).length ≤ 1
  /-- No lookup that expects at most one row has found two. -/
  lookups : ∀ i, s.txn i ≠ .aborted (some .multipleResults)

/-- **Fulfilment is exclusive.** In every interleaving of operations of the order service, no
order has both its seller's own delivery and an assignment in force, none has two assignments in
force, and no operation fails because a lookup finds two rows. -/
theorem fulfilment_exclusive (sha256 : String → String) {ι : Type} [DecidableEq ι]
    (requests : ι → Request) (hops : ∀ i, (requests i).op.ofOrderService = true) {db : Db}
    (hdb : Exclusivity db) {s : Sys ι Db Key Err Reply}
    (hs : Sys.Steps (Sys.init db fun i => (requests i).exec sha256) s) : FulfilledOnce s := by
  have hsafe : ∀ i, ((requests i).exec sha256).Safe fulfilmentLocking Exclusivity
      fun _ _ _ => True := fun i => exec_keepsExclusivity (hops i)
  have hI : Exclusivity s.db := (hs.sound (Sys.sound_init hdb hsafe)).db
  refine ⟨fun o d hd hself a ha hactive => ?_, fun o => (hI.orders o).single, fun i hi => ?_⟩
  · have hnone : (s.db.fulfilment o).delivery = some none := by
      rw [← hself]
      exact congrArg (Option.map Delivery.driverId) hd
    have hmem : a ∈ (s.db.fulfilment o).active := List.mem_filter.mpr ⟨ha, decide_eq_true hactive⟩
    rw [(hI.orders o).self hnone] at hmem
    cases hmem
  · exact hs.avoids hdb hsafe (fun i => exec_avoids (hops i)) hi rfl

/-- A database without deliveries and assignments. -/
theorem exclusivity_of_empty {db : Db} (hsellers : (db.sellers.rows.map Seller.userId).Nodup)
    (hrows : db.driverAssignments.rows = []) : Exclusivity db where
  sellers := hsellers
  orders o := by
    refine Fulfilment.exclusive_of_active_eq_nil ?_
    have hnone : (db.fulfilment o).assignments = [] := by
      change db.driverAssignments.rows.filter _ = []
      rw [hrows, List.filter_nil]
    rw [Fulfilment.active, hnone, List.filter_nil]

namespace Sample

/-- The sample order, accepted by its seller. -/
def acceptedOrder : Db :=
  (after (World.serve sha256) start [place, request seller (.acceptOrder 0) 2]).db

/-- The seller chooses to deliver and asks for a driver at the same time. -/
def choices (driver : Bool) : Request where
  caller := seller
  op := if driver then .requestDriver 0 else .chooseSelfDelivery 0
  env := { now := fun _ => 3, transactionNow := 3, randbelow := 0,
           uuid4 := fun i => Nat.pair (if driver then 3 else 2) i }

end Sample

/-- The seller's own delivery commits, and the invariant holds. -/
theorem fulfilment_exclusive_self :
    ∃ s, Sys.Steps
        (Sys.init Sample.acceptedOrder fun i => (Sample.choices i).exec Sample.sha256) s ∧
      s.log.map Prod.fst = [false] ∧ FulfilledOnce s := by
  obtain ⟨r, hrun⟩ := run_of_session (p := (Sample.choices false).exec Sample.sha256)
    (s := Sample.acceptedOrder) (by decide +kernel)
  obtain ⟨t, ht⟩ := Sys.runsTo_of_run (s := Sys.init Sample.acceptedOrder fun i =>
    (Sample.choices i).exec Sample.sha256) (i := false) rfl (fun _ => .inl rfl) hrun
  have hops : ∀ i, (Sample.choices i).op.ofOrderService = true := by decide
  have hdb : Exclusivity Sample.acceptedOrder :=
    exclusivity_of_empty (by decide +kernel) (by decide +kernel)
  refine ⟨t, ht.steps, ?_, fulfilment_exclusive Sample.sha256 Sample.choices hops hdb ht.steps⟩
  rw [ht.log]
  rfl

end Marketplace
