import Marketplace.Lib.Rely
import Marketplace.Order.Requests
import Marketplace.Order.Stock

/-!
# When a position may be written

Two services accept reports of positions. `post_location` checks the status of the order
and the role of the caller on rows it does not lock, and `record_location` checks neither.
In any interleaving a position changes only while the order is out for delivery, for a
caller with an internal role, as long as what a report has seen or must see stays true.
-/

namespace Marketplace

open Lib Txn OrderService DeliveryFlow DeliveryTracking

/-! ### Positions and the gate -/

/-- The position in the delivery row of an order. -/
def Db.positionOf (db : Db) (o : Id) : Option (Option Coordinate × Option Coordinate) :=
  (db.deliveries.get o).map fun d => (d.currentLat, d.currentLng)

/-- The delivery row of the order has another position. -/
def Relocated (o : Id) (s t : Db) : Prop :=
  ∃ p p', s.positionOf o = some p ∧ t.positionOf o = some p' ∧ p' ≠ p

/-- The order is out for delivery. -/
def Db.OutForDelivery (db : Db) (o : Id) : Prop :=
  ∃ x, db.orders.get o = some x ∧ x.status = .outForDelivery

/-- The user resolves to an internal role of the order. -/
def Db.ResolvesInternal (db : Db) (user : User) (o : Id) : Prop :=
  ∃ x role, db.orders.get o = some x ∧ (resolveRole user x).run db = .ok (role, db) ∧
    isInternalRole role = true

/-- The user may write the position of the order. -/
structure GateOpen (user : User) (o : Id) (db : Db) : Prop where
  status : db.OutForDelivery o
  role : db.ResolvesInternal user o

/-- What opens the gate is still there. -/
structure StaysOpen (user : User) (o : Id) (s t : Db) : Prop where
  status : s.OutForDelivery o → t.OutForDelivery o
  role : s.ResolvesInternal user o → t.ResolvesInternal user o

/-- A gate stays open in an unchanged state. -/
theorem StaysOpen.rfl {user : User} {o : Id} {s : Db} : StaysOpen user o s s := ⟨id, id⟩

/-- A gate that stays open twice stays open. -/
theorem StaysOpen.trans {user : User} {o : Id} {s t u : Db} (hst : StaysOpen user o s t)
    (htu : StaysOpen user o t u) : StaysOpen user o s u :=
  ⟨fun h => htu.status (hst.status h), fun h => htu.role (hst.role h)⟩

/-- An open gate that stays open is open later. -/
theorem GateOpen.stays {user : User} {o : Id} {s t : Db} (h : GateOpen user o s)
    (hst : StaysOpen user o s t) : GateOpen user o t :=
  ⟨hst.status h.status, hst.role h.role⟩

/-! ### The requests of the three services -/

/-- A request of the order, delivery flow and delivery tracking services. -/
inductive ServiceCall
  | call (q : Request)
  | report (r : Report) (env : Env)
  | view (caller : User) (orderId : Id)

/-- What it returns. -/
inductive ServiceReply
  | reply (r : Reply)
  | reported (order : Order) (delivery : Delivery)
  | view (v : TrackView)

namespace ServiceCall

/-- The transaction that serves it. -/
def exec (sha256 : String → String) : ServiceCall → Tx ServiceReply
  | .call q => do return .reply (← q.exec sha256)
  | .report r env => do
    let (order, delivery) ← r.exec env
    return .reported order delivery
  | .view caller o => do return .view (← getTrackView caller o)

/-- Who calls `record_location`, for which order. -/
def records : ServiceCall → Option (User × Id)
  | .call q =>
    match q.op with
    | .recordLocation o _ _ => some (q.caller, o)
    | _ => none
  | _ => none

/-- Who reports a position, for which order. -/
def locates : ServiceCall → Option (User × Id)
  | .report r _ => some (r.caller, r.orderId)
  | c => c.records

/-- A `record_location` that passes its own checks finds the gate open. -/
def BeginsOpen (c : ServiceCall) (db : Db) : Prop :=
  ∀ user o, c.records = some (user, o) → user.role ∈ [UserRole.driver, .seller, .admin] →
    (∃ x, db.orders.get o = some x ∧ x.deletedAt = none) → GateOpen user o db

/-- The gate of a report stays open. -/
def KeptOpen (c : ServiceCall) (s t : Db) : Prop :=
  ∀ user o, c.locates = some (user, o) → StaysOpen user o s t

/-- A position is changed by a report only, and through an open gate. -/
def Gated (c : ServiceCall) (s t : Db) : Prop :=
  ∀ o, Relocated o s t → ∃ user, c.locates = some (user, o) ∧ GateOpen user o s

end ServiceCall

/-- `record_location` begins only where the gate is open, and no commit closes the gate of
another report that is under way. -/
def GateKept {ι : Type} [DecidableEq ι] (sha256 : String → String) (calls : ι → ServiceCall) :
    Sys ι Db Key Err ServiceReply → ι → Sys ι Db Key Err ServiceReply → Prop :=
  Sys.Undisturbed (fun i => (calls i).exec sha256) (fun i => (calls i).BeginsOpen)
    fun i => (calls i).KeptOpen

/-! ### What each write does to positions -/

section Writes

variable {db : Db} {o : Id} {K : List WriteKind} {key : Key} {f : Db → Db}

/-- An edit that leaves the coordinates alone leaves the position alone. -/
theorem positionOf_modifyDelivery (id : Id) {g : Delivery → Delivery}
    (hid : ∀ d, (g d).orderId = d.orderId)
    (hg : ∀ d, (g d).currentLat = d.currentLat ∧ (g d).currentLng = d.currentLng) :
    (db.modifyDelivery id g).positionOf o = db.positionOf o := by
  simp only [Db.positionOf, Db.modifyDelivery, Table.get_modify _ _ hid]
  by_cases ho : o = id
  · rw [if_pos ho]
    cases db.deliveries.get o with
    | none => rfl
    | some d => simp [hg]
  · rw [if_neg ho]

/-- An edit of another delivery leaves the position alone. -/
theorem positionOf_modifyDelivery_of_ne {id : Id} {g : Delivery → Delivery}
    (hid : ∀ d, (g d).orderId = d.orderId) (ho : o ≠ id) :
    (db.modifyDelivery id g).positionOf o = db.positionOf o := by
  simp only [Db.positionOf, Db.modifyDelivery, Table.get_modify _ _ hid, if_neg ho]

/-- No write but `moveTo` changes a position: a row may come or go. -/
theorem OrderWrite.positionOf (h : OrderWrite K key f) (hK : .moveTo ∉ K) (db : Db) (o : Id) :
    (f db).positionOf o = db.positionOf o ∨
      (.addDelivery ∈ K ∧ db.positionOf o = none) ∨
      (.removal ∈ K ∧ (f db).positionOf o = none) := by
  cases h with
  | moveTo _ _ _ hmem => exact absurd hmem hK
  | start orderId now => exact .inl (positionOf_modifyDelivery _ (fun _ => rfl) fun _ => ⟨rfl, rfl⟩)
  | deliver orderId now duration =>
    exact .inl (positionOf_modifyDelivery _ (fun _ => rfl) fun _ => ⟨rfl, rfl⟩)
  | giveTo orderId driver =>
    exact .inl (positionOf_modifyDelivery _ (fun _ => rfl) fun _ => ⟨rfl, rfl⟩)
  | patch orderId distance duration =>
    exact .inl (positionOf_modifyDelivery _ (fun _ => rfl) fun _ => ⟨rfl, rfl⟩)
  | addDelivery d hd hmem =>
    by_cases ho : o = d.orderId
    · cases hrow : db.deliveries.get o with
      | none => exact .inr (.inl ⟨hmem, by simp [Db.positionOf, hrow]⟩)
      | some e =>
        -- the row that is there stays
        have hsame : db.addDelivery d = db := by
          have hpresent : db.deliveries.get d.orderId ≠ none := by
            rw [← ho, hrow]
            exact Option.some_ne_none e
          simp only [Db.addDelivery, Table.insert_of_mem hpresent]
        exact .inl (congrArg (fun v => v.positionOf o) hsame)
    · left
      simp only [Db.positionOf, Db.addDelivery, Table.get_insert_of_ne _ ho]
  | removeOrder id hmem =>
    by_cases ho : o = id
    · refine .inr (.inr ⟨hmem, ?_⟩)
      simp only [Db.positionOf, Db.removeOrder, Table.get_delete, Option.map_eq_none_iff,
        Option.filter_eq_none_iff]
      intro d hd
      simp [Table.key_of_get hd, ho]
    · left
      simp only [Db.positionOf, Db.removeOrder, Table.get_delete]
      cases hrow : db.deliveries.get o with
      | none => rfl
      | some d =>
        have hne : d.orderId ≠ id := by rwa [Table.key_of_get hrow]
        simp [hne]
  | _ => exact .inl rfl

/-- A write that is no report leaves the position, unless the row comes or goes. -/
theorem ServiceWrite.positionOf (h : ServiceWrite K key f) (hK : .moveTo ∉ K) (db : Db) (o : Id) :
    (f db).positionOf o = db.positionOf o ∨
      (.addDelivery ∈ K ∧ db.positionOf o = none) ∨
      (.removal ∈ K ∧ (f db).positionOf o = none) := by
  cases h with
  | order h => exact h.positionOf hK db o
  | setSettings ps => exact .inl rfl

/-- No position is lost or replaced. -/
def PositionsStay (s t : Db) : Prop := ∀ o, s.positionOf o ≠ none → t.positionOf o = s.positionOf o

/-- No row comes, and no position is replaced. -/
def PositionsGo (s t : Db) : Prop := ∀ o, t.positionOf o = none ∨ t.positionOf o = s.positionOf o

/-- Where positions stay none is moved. -/
theorem PositionsStay.not_relocated {s t : Db} (h : PositionsStay s t) : ¬Relocated o s t := by
  rintro ⟨p, p', hp, hp', hne⟩
  rw [h o (by simp [hp]), hp] at hp'
  exact hne (Option.some.inj hp').symm

/-- Where positions can only go none is moved. -/
theorem PositionsGo.not_relocated {s t : Db} (h : PositionsGo s t) : ¬Relocated o s t := by
  rintro ⟨p, p', hp, hp', hne⟩
  rcases h o with hnone | hsame
  · rw [hp'] at hnone
    cases hnone
  · rw [hsame, hp] at hp'
    exact hne (Option.some.inj hp').symm

end Writes

/-! ### One request among the others -/

section Requests

variable {sha256 : String → String} {c : ServiceCall} {R : Db → Db → Prop} {S K : Db → Prop}
  {facts : List (Key × Db)} {w : Db → Db}

/-- The condition for a request to end well. -/
abbrev GatedOk (c : ServiceCall) (K : Db → Prop) (facts : List (Key × Db)) (w : Db → Db)
    (r : ServiceReply) : Prop :=
  RelyOk .free (fun _ => True) (fun (_ : ServiceReply) => c.Gated) K facts w r

/-- A program whose writes change no position needs no gate. -/
theorem gated_of_writes {p : Tx ServiceReply} {P : Key → (Db → Db) → Prop} {E : Db → Db → Prop}
    (hrefl : ∀ s, E s s) (htrans : ∀ s t u, E s t → E t u → E s u)
    (hP : ∀ key f, P key f → ∀ s, E s (f s)) (hE : ∀ s t o, E s t → ¬Relocated o s t)
    (hwrites : p.Writes P) :
    p.wprFrom .free (fun _ => True) R S (RelyOk .free (fun _ => True) fun _ => c.Gated) := by
  refine wprFrom_of_wpr (fun _ _ _ _ _ hK h => h.of_imp hK) (wpr_mono ?_ (wpr_of_writes (L := .free)
    htrans hP (fun _ _ _ _ _ _ => trivial) (hwrites _) hrefl fun _ _ _ => trivial))
  rintro K facts w r ⟨hw, -⟩ s - - -
  exact ⟨trivial, fun o hmoved => absurd hmoved (hE _ _ _ (hw s)), fun _ _ => trivial⟩

/-- An operation whose writes are of these kinds changes no position. -/
theorem gated_of_kinds {p : Tx ServiceReply} {kinds : List WriteKind}
    (hwrites : p.Writes (ServiceWrite kinds)) (hmove : .moveTo ∉ kinds)
    (hkinds : .removal ∉ kinds ∨ .addDelivery ∉ kinds) :
    p.wprFrom .free (fun _ => True) R S (RelyOk .free (fun _ => True) fun _ => c.Gated) := by
  rcases hkinds with hstay | hgo
  · refine gated_of_writes (E := PositionsStay) (fun s o _ => rfl)
      (fun s t u hst htu o ho => ?_) (fun key f hf s o ho => ?_)
      (fun s t o h => h.not_relocated) hwrites
    · have ht := hst o ho
      rw [htu o (ht ▸ ho), ht]
    · rcases hf.positionOf hmove s o with hsame | ⟨-, hnone⟩ | ⟨hmem, -⟩
      · exact hsame
      · exact absurd hnone ho
      · exact absurd hmem hstay
  · refine gated_of_writes (E := PositionsGo) (fun s o => .inr rfl) (fun s t u hst htu o => ?_)
      (fun key f hf s o => ?_) (fun s t o h => h.not_relocated) hwrites
    · rcases htu o with hnone | hsame
      · exact .inl hnone
      · rw [hsame]
        exact hst o
    · rcases hf.positionOf hmove s o with hsame | ⟨hmem, -⟩ | ⟨-, hnone⟩
      · exact .inr hsame
      · exact absurd hmem hgo
      · exact .inl hnone

/-- No operation but `record_location` moves a delivery, and none both adds and removes one. -/
theorem writeKinds_of_ne_recordLocation {op : Op}
    (h : ∀ o lat lng, op ≠ .recordLocation o lat lng) :
    .moveTo ∉ op.writeKinds ∧ (.removal ∉ op.writeKinds ∨ .addDelivery ∉ op.writeKinds) := by
  cases op with
  | recordLocation o lat lng => exact absurd rfl (h o lat lng)
  | _ => simp [Op.writeKinds]

/-- No operation of `Op` but `record_location` changes a position. -/
theorem call_gated {q : Request} (hq : ∀ o lat lng, q.op ≠ .recordLocation o lat lng) :
    ((ServiceCall.call q).exec sha256).wprFrom .free (fun _ => True) R S
      (RelyOk .free (fun _ => True) fun _ => c.Gated) := by
  by_cases hop : ∀ items address, q.op ≠ .createOrder items address
  · have hwrites : ((ServiceCall.call q).exec sha256).Writes (ServiceWrite q.op.writeKinds) :=
      .bind (exec_writes hop) fun _ => .pure _
    obtain ⟨hmove, hkinds⟩ := writeKinds_of_ne_recordLocation hq
    exact gated_of_kinds hwrites hmove hkinds
  · simp only [not_forall, not_not] at hop
    obtain ⟨items, address, hop⟩ := hop
    have hplace : (q.exec sha256).Writes PlaceWrite := by
      rw [Request.exec, hop]
      exact .bind (createOrder_writes _ _) fun _ => .pure _
    have hwrites : ((ServiceCall.call q).exec sha256).Writes PlaceWrite :=
      .bind hplace fun _ => .pure _
    refine gated_of_writes (E := PositionsStay) (fun s o _ => rfl) (fun s t u hst htu o ho => ?_)
      (fun key f hf s o _ => ?_) (fun s t o h => h.not_relocated) hwrites
    · have ht := hst o ho
      rw [htu o (ht ▸ ho), ht]
    · cases hf <;> rfl

/-! ### Reports among the others -/

section Rules

variable {user : User} {order : Order} {I : Db → Prop} {L : Locking Db Key}

/-- The rule of `scalar_one_or_none`. -/
@[simp] theorem wpr_scalarOneOrNone {ρ : Type} {rows : List ρ}
    {Post : (Db → Prop) → List (Key × Db) → (Db → Db) → Option ρ → Prop} :
    (scalarOneOrNone rows).wpr L I R Post K facts w ↔
      ∀ r, rows = r.toList → Post K facts w r := by
  rcases rows with _ | ⟨a, _ | ⟨b, rest⟩⟩
  · simp [scalarOneOrNone]
  · simp [scalarOneOrNone, Option.forall]
  · simp [scalarOneOrNone, Option.forall]

/-- Who is internal is so by the order row alone, or by the records of a database that the
session has seen. -/
theorem wpr_resolveRoleLoading
    {Post : (Db → Prop) → List (Key × Db) → (Db → Db) → TrackingRole × Option Delivery → Prop}
    (h : ∀ K' role loaded, (∀ t, K' t → K t) →
      (isInternalRole role = true → (∀ t, (resolveRole user order).run t = .ok (role, t)) ∨
        ∃ s, K s ∧ (∀ x : Order, x.id = order.id → (resolveRole user x).run s = .ok (role, s)) ∧
          ∀ t, K' t → R s t) → Post K' facts id (role, loaded)) :
    (resolveRoleLoading user order).wpr L I R Post K facts id := by
  simp only [resolveRoleLoading, resolveDriver, loadDelivery, bind_eq, wpr_bind, wpr_read, wpr_ite,
    pure_eq, wpr_ret, wpr_scalarOneOrNone, id_eq]
  refine ⟨fun hadmin => ?_, fun hadmin => ⟨fun hseller => ?_, fun hseller =>
    ⟨fun hcustomer => ?_, fun hcustomer => ⟨fun hdriver s _ hs _ => ⟨fun hmine => ?_,
      fun hmine s' _ hs' _ found hfound => ?_⟩, fun _ => ?_⟩⟩⟩⟩
  · refine h _ _ _ (fun _ ht => ht) fun _ => .inl fun t => resolveRole_ok.mpr ⟨none, ?_⟩
    simp [resolveRoleLoading, hadmin, run]
  · refine h _ _ _ (fun _ ht => ht) fun _ => .inl fun t => resolveRole_ok.mpr ⟨none, ?_⟩
    simp [resolveRoleLoading, hseller, run]
  · exact h _ _ _ (fun _ ht => ht) fun hrole => absurd hrole (by decide)
  · refine h _ _ _ (fun _ ht => ht.1) fun _ => .inr ⟨s, hs, fun x hx => ?_, fun t ht => ht.2⟩
    have hnamed : (s.life order.id).delivery.bind Delivery.driverId = some user.id := hmine
    rw [resolveRole_driver hdriver, hx, if_pos hnamed]
    exact ⟨rfl, rfl⟩
  · cases found with
    | none => exact h _ _ _ (fun _ ht => ht.1.1) fun hrole => absurd hrole (by decide)
    | some a =>
      refine h _ _ _ (fun _ ht => ht.1.1) fun _ =>
        .inr ⟨s', hs'.1, fun x hx => ?_, fun t ht => ht.2⟩
      rw [resolveRole_driver hdriver, hx]
      split
      · exact ⟨rfl, rfl⟩
      · exact ⟨rfl, some a, hfound, rfl⟩
  · exact h _ _ _ (fun _ ht => ht) fun hrole => absurd hrole (by decide)

/-- A row that is found is locked and read again. -/
theorem wpr_selectForUpdate {ρ : Type} {key : Key} {get : Db → Option ρ}
    {Post : (Db → Prop) → List (Key × Db) → (Db → Db) → Option ρ → Prop}
    (h : ∀ K' facts' found, (∀ t, K' t → K t) → Post K' facts' w found) :
    (selectForUpdate key get).wpr L I R Post K facts w := by
  simp only [selectForUpdate, bind_eq, wpr_bind, wpr_read]
  intro t _ _ _
  cases get (w t) with
  | none => exact h _ _ _ fun _ ht => ht.1
  | some r => exact fun s _ _ _ => h _ _ _ fun _ ht => ht.1.1

end Rules

/-- A position written through a gate that is open at the commit. -/
theorem gatedOk_of_open {user : User} {o : Id} {r : ServiceReply}
    (hlocates : c.locates = some (user, o)) (hopen : ∀ s, K s → GateOpen user o s)
    (hothers : ∀ s o', o' ≠ o → (w s).positionOf o' = s.positionOf o') :
    GatedOk c K facts w r := by
  rintro s - hs -
  refine ⟨trivial, ?_, fun _ _ => trivial⟩
  rintro o' ⟨p, p', hp, hp', hne⟩
  by_cases ho : o' = o
  · subst ho
    exact ⟨user, hlocates, hopen s hs⟩
  · rw [hothers s o' ho, hp] at hp'
    exact absurd (Option.some.inj hp').symm hne

/-- A report of `post_location` passes an open gate. -/
theorem report_gated (r : Report) (env : Env) :
    ((ServiceCall.report r env).exec sha256).wprFrom .free (fun _ => True)
      (ServiceCall.report r env).KeptOpen S
      (RelyOk .free (fun _ => True) fun _ => (ServiceCall.report r env).Gated) := by
  simp only [ServiceCall.exec, Report.exec, postLocation, loadOrder, bind_eq, pure_eq, bind_assoc,
    ret_bind]
  refine wprFrom_read fun s₀ _ _ => ?_
  simp only [wpr_bind, wpr_getOrRaise]
  intro x hx
  obtain ⟨hget, -⟩ := Option.filter_eq_some_iff.mp hx
  refine wpr_resolveRoleLoading fun K₁ role loaded hK₁ hrole => ?_
  simp only [wpr_raiseIf]
  intro hnone hinternal hstatus
  have hid : x.id = r.orderId := Table.key_of_get hget
  rw [hid] at hrole ⊢
  have hopen : ∀ t, K₁ t → GateOpen r.caller r.orderId t := by
    intro t ht
    have hsent : s₀.OutForDelivery r.orderId := ⟨x, hget, not_not.mp hstatus⟩
    have hrole' : isInternalRole role = true := by
      revert hinternal
      cases role <;> simp [isInternalRole]
    rcases hrole hrole' with hrow | ⟨s, hs, hrecords, hst⟩
    · have hopen₀ : GateOpen r.caller r.orderId s₀ := ⟨hsent, x, role, hget, hrow s₀, hrole'⟩
      exact hopen₀.stays (hK₁ t ht _ _ rfl)
    · obtain ⟨y, hy, hy'⟩ := (hs _ _ rfl).status hsent
      have hopen₁ : GateOpen r.caller r.orderId s :=
        ⟨⟨y, hy, hy'⟩, y, role, hy, hrecords y (Table.key_of_get hy), hrole'⟩
      exact hopen₁.stays (hst t ht _ _ rfl)
  refine wpr_selectForUpdate fun K₂ facts₂ found hK₂ => ?_
  simp only [updateDelivery, wpr_updateRow, wpr_ret]
  intro d hd hdelivered s₂ _ hs₂ _
  refine gatedOk_of_open rfl (fun t ht => hopen t (hK₂ t ht.1)) fun s o' ho => ?_
  exact positionOf_modifyDelivery_of_ne (Delivery.report_orderId _ _ _ _ _) ho

/-- A report of `record_location` passes the gate that was open when it began. -/
theorem record_gated {q : Request} {o : Id} {lat lng : Coordinate}
    (hq : q.op = .recordLocation o lat lng) :
    ((ServiceCall.call q).exec sha256).wprFrom .free (fun _ => True) (ServiceCall.call q).KeptOpen
      (ServiceCall.call q).BeginsOpen
      (RelyOk .free (fun _ => True) fun _ => (ServiceCall.call q).Gated) := by
  have hrecords : (ServiceCall.call q).records = some (q.caller, o) := by
    simp only [ServiceCall.records, hq]
  simp only [ServiceCall.exec, Request.exec, hq, Op.exec, recordLocation, getOrderOr404, bind_eq,
    pure_eq, bind_assoc, ret_bind]
  by_cases hrole : q.caller.role ∈ [UserRole.driver, .seller, .admin]
  · rw [raiseIf_of_not (not_not_intro hrole), ret_bind]
    refine wprFrom_read fun s₀ _ hbegins => ?_
    simp only [wpr_bind, wpr_getOrRaise, wpr_raiseIf]
    intro x hget hlive
    have hid : x.id = o := Table.key_of_get hget
    have hopen₀ : GateOpen q.caller o s₀ :=
      hbegins _ _ hrecords hrole ⟨x, hget, not_not.mp hlive⟩
    have hopen : ∀ t, (ServiceCall.call q).KeptOpen s₀ t → GateOpen q.caller o t :=
      fun t ht => hopen₀.stays (ht _ _ hrecords)
    simp only [hid, insertTrackingPoint, insertRow, bind_eq, wpr_bind, wpr_acquire, wpr_raiseIf,
      wpr_modify, wpr_read, wpr_ite, updateDelivery, wpr_updateRow, wpr_ret]
    intro s₁ _ _ _ _ s₂ _ _ _
    constructor
    · intro _ s₃ _ _ _
      refine gatedOk_of_open hrecords (fun t ht => hopen t ht.1.1.1) fun s o' ho => ?_
      exact positionOf_modifyDelivery_of_ne (Delivery.moveTo_orderId · lat lng) ho
    · intro _
      exact gatedOk_of_open hrecords (fun t ht => hopen t ht.1.1) fun s o' ho => rfl
  · rw [raiseIf_of hrole, raise_bind]
    trivial

/-- Resolving the role writes nothing. -/
theorem resolveRoleLoading_writes {P : Key → (Db → Db) → Prop} {user : User} {order : Order} :
    (resolveRoleLoading user order).Writes P := by
  refine .ite (.pure _) (.ite (.pure _) (.ite (.pure _) (.ite ?_ (.pure _))))
  refine .bind (.bind .read fun _ => .pure _) fun _ => .ite (.pure _) ?_
  exact .bind .read fun _ => .bind (writes_scalarOneOrNone _) fun _ => .pure _

/-- Reading the tracking view writes nothing. -/
theorem getTrackView_writes {P : Key → (Db → Db) → Prop} {user : User} {o : Id} :
    (getTrackView user o).Writes P := by
  refine .bind (.bind .read fun _ => .pure _) fun _ => .bind (.getOrRaise _ _) fun x => ?_
  refine .bind resolveRoleLoading_writes fun _ => .bind (.raiseIf _ _) fun _ =>
    .bind (.bind .read fun _ => .pure _) fun _ => ?_
  exact .ite (.pure _) (.bind (.getOrRaise _ _) fun _ => .pure _)

/-- Every request passes an open gate, if it changes a position. -/
theorem exec_gated (sha256 : String → String) (c : ServiceCall) :
    (c.exec sha256).wprFrom .free (fun _ => True) c.KeptOpen c.BeginsOpen
      (RelyOk .free (fun _ => True) fun _ => c.Gated) := by
  cases c with
  | call q =>
    by_cases hq : ∀ o lat lng, q.op ≠ .recordLocation o lat lng
    · exact call_gated hq
    · simp only [not_forall, not_not] at hq
      obtain ⟨o, lat, lng, hq⟩ := hq
      exact record_gated hq
  | report r env => exact report_gated r env
  | view caller o =>
    have hwrites : ((ServiceCall.view caller o).exec sha256).Writes (ServiceWrite []) :=
      .bind getTrackView_writes fun _ => .pure _
    exact gated_of_kinds hwrites (by decide) (by decide)

end Requests

/-- **Location gating.** In every interleaving in which `record_location` begins only through an
open gate and no gate of a report under way is closed, a position changes only with the commit of
a report, at a moment when the order is out for delivery and the caller resolves to an internal
role of it. -/
theorem positions_gated (sha256 : String → String) {ι : Type} [DecidableEq ι]
    (calls : ι → ServiceCall) {db : Db} {s t : Sys ι Db Key Err ServiceReply} {i : ι} {o : Id}
    (h : Sys.StepsIf (GateKept sha256 calls) (Sys.init db fun i => (calls i).exec sha256) s)
    (hst : Sys.Step i s t) (hmoved : Relocated o s.db t.db) :
    ∃ user, (calls i).locates = some (user, o) ∧ GateOpen user o s.db := by
  have hholds := h.holds_relies (L := .free) (I := fun _ => True)
    (Q := fun i (_ : ServiceReply) => (calls i).Gated)
    (fun i s _ _ _ => StaysOpen.rfl)
    (fun i s t u hst htu user o hloc => (hst user o hloc).trans (htu user o hloc))
    (fun i => exec_gated sha256 (calls i)) trivial fun i s t _ hkept _ _ => hkept
  have hsame : s.db = t.db → False := by
    intro heq
    obtain ⟨p, p', hp, hp', hne⟩ := hmoved
    rw [heq, hp'] at hp
    exact hne (Option.some.inj hp)
  cases hst with
  | commit hi =>
    exact (hholds.relies_commit (fun i => exec_gated sha256 (calls i)) hi).2.1 o hmoved
  | _ => exact (hsame rfl).elim

/-- The driver whom the delivery row names finds the gate open. -/
theorem gateOpen_of_named {db : Db} {user : User} {o : Id}
    (hstatus : (db.orders.get o).map Order.status = some .outForDelivery)
    (hrole : user.role = .driver)
    (hnamed : (db.life o).delivery.bind Delivery.driverId = some user.id) : GateOpen user o db := by
  obtain ⟨x, hx, hx'⟩ := Option.map_eq_some_iff.mp hstatus
  refine ⟨⟨x, hx, hx'⟩, x, .driver, hx, (resolveRole_driver hrole).mpr ⟨rfl, ?_⟩, rfl⟩
  have hid : x.id = o := Table.key_of_get hx
  rw [hid, if_pos hnamed]

/-- An order with another status is not out for delivery. -/
theorem not_outForDelivery {db : Db} {o : Id}
    (h : (db.orders.get o).map Order.status ≠ some .outForDelivery) : ¬db.OutForDelivery o := by
  rintro ⟨x, hx, hx'⟩
  exact h (by rw [hx, Option.map_some, hx'])

namespace Sample

/-- The driver reports a position. -/
def located : ServiceCall :=
  .report { caller := driver, orderId := 0, lat := 1, lng := 2, now := fun _ => 8,
            transactionNow := 8 }
    { now := fun _ => 8, transactionNow := 8, uuid4 := fun k => Nat.pair 10 k, randbelow := 0 }

/-- Another driver reports a position by `record_location`. -/
def recorded : ServiceCall :=
  .call { caller := otherDriver, op := .recordLocation 0 3 4,
          env := { now := fun _ => 9, transactionNow := 9, uuid4 := fun k => Nat.pair 11 k,
                   randbelow := 0 } }

/-- The driver completes the delivery. -/
def completing : ServiceCall :=
  .call { caller := driver, op := .completeDelivery 0 "000000",
          env := { now := fun _ => 8, transactionNow := 8, uuid4 := fun k => Nat.pair 12 k,
                   randbelow := 0 } }

/-- The delivered order. -/
def afterCompletion : Db := ((completing.exec sha256).session onItsWay).2

/-- The driver records a position by `record_location`. -/
def recordedByDriver : ServiceCall :=
  .call { caller := driver, op := .recordLocation 0 3 4,
          env := { now := fun _ => 7, transactionNow := 7, uuid4 := fun k => Nat.pair 13 k,
                   randbelow := 0 } }

/-- The order on its way, after that. -/
def afterRecording : Db := ((recordedByDriver.exec sha256).session onItsWay).2

/-- The driver's report and the recorded position at the same time. -/
def together (i : Bool) : ServiceCall := if i then located else recordedByDriver

/-- The driver's report and the completion at the same time. -/
def raced (i : Bool) : Tx ServiceReply := (if i then located else completing).exec sha256

end Sample

/-- While the driver's report is under way, a position that the driver has recorded is committed,
and the gate stays open. -/
theorem positions_gated_driver :
    ∃ s t, Sys.StepsIf (GateKept Sample.sha256 Sample.together)
        (Sys.init Sample.onItsWay fun i => (Sample.together i).exec Sample.sha256) s ∧
      Sys.Step true s t ∧ s.db.positionOf 0 = some (some 3, some 4) ∧ Relocated 0 s.db t.db ∧
      ∃ user, (Sample.together true).locates = some (user, 0) ∧ GateOpen user 0 s.db := by
  have hreads : ((Sample.together true).exec Sample.sha256).selects Sample.onItsWay 2 = true := by
    decide +kernel
  obtain ⟨r, hrun⟩ := run_of_session (p := (Sample.together false).exec Sample.sha256)
    (s := Sample.onItsWay) (by decide +kernel)
  obtain ⟨r', hrun'⟩ := run_of_session
    (p := ((Sample.together true).exec Sample.sha256).afterSelects Sample.onItsWay 2)
    (s := Sample.afterRecording) (by decide +kernel)
  have hopen : GateOpen Sample.driver 0 Sample.onItsWay :=
    gateOpen_of_named (by decide +kernel) rfl (by decide +kernel)
  have hopen' : GateOpen Sample.driver 0 Sample.afterRecording :=
    gateOpen_of_named (by decide +kernel) rfl (by decide +kernel)
  have hbegins : (Sample.together false).BeginsOpen Sample.onItsWay := by
    rintro user o hrecords - -
    cases hrecords
    exact hopen
  have hkept : (Sample.together true).KeptOpen Sample.onItsWay Sample.afterRecording := by
    rintro user o hlocates
    cases hlocates
    exact ⟨fun _ => hopen'.status, fun _ => hopen'.role⟩
  have hfree : ∀ db, (Sample.together true).BeginsOpen db := by
    rintro db user o hrecords
    cases hrecords
  obtain ⟨s, t, hs, hst, hdb, hdb', -⟩ := Sys.undisturbed_overtaken
    (p := fun i => (Sample.together i).exec Sample.sha256)
    (S := fun i => (Sample.together i).BeginsOpen) (R := fun i => (Sample.together i).KeptOpen)
    (i := true) (j := false) (by decide) (fun _ _ _ _ _ => .rfl) (hfree _) (hfree _) hbegins hkept
    hreads hrun hrun'
  have hposition : s.db.positionOf 0 = some (some 3, some 4) := by
    rw [hdb]
    decide +kernel
  have hmoved : Relocated 0 s.db t.db := by
    rw [hdb']
    exact ⟨_, (some 1, some 2), hposition, by decide +kernel, by decide⟩
  exact ⟨s, t, hs, hst, hposition, hmoved,
    positions_gated Sample.sha256 Sample.together hs hst hmoved⟩

/-- A driver who has nothing to do with the order moves its position after it was delivered, and so
does a report that has checked the status before. -/
theorem positions_ungated :
    (∃ s t, Sys.Steps (Sys.init Sample.afterCompletion fun _ : Unit =>
        Sample.recorded.exec Sample.sha256) s ∧
      Sys.Step () s t ∧ Relocated 0 s.db t.db ∧ ¬s.db.OutForDelivery 0) ∧
    ∃ s t, Sys.Steps (Sys.init Sample.onItsWay Sample.raced) s ∧
      Sys.Step true s t ∧ Relocated 0 s.db t.db ∧ ¬s.db.OutForDelivery 0 := by
  constructor
  · obtain ⟨r, hrun⟩ := run_of_session (p := Sample.recorded.exec Sample.sha256)
      (s := Sample.afterCompletion) (by decide +kernel)
    obtain ⟨s, hs⟩ := Sys.atCommit_of_run (s := Sys.init Sample.afterCompletion fun _ : Unit =>
      Sample.recorded.exec Sample.sha256) (i := ()) rfl (fun _ => .inl rfl) hrun
    obtain ⟨t, hst, ht⟩ := hs.runsTo
    refine ⟨s, t, hs.steps, hst, ?_, ?_⟩
    · rw [hs.db, ht.db]
      exact ⟨(none, none), (some 3, some 4), by decide +kernel, by decide +kernel, by decide⟩
    · rw [hs.db]
      exact not_outForDelivery (by decide +kernel)
  · have hreads : (Sample.raced true).selects Sample.onItsWay 2 = true := by decide +kernel
    obtain ⟨r, hrun⟩ := run_of_session (p := Sample.raced false) (s := Sample.onItsWay)
      (by decide +kernel)
    obtain ⟨r', hrun'⟩ := run_of_session
      (p := (Sample.raced true).afterSelects Sample.onItsWay 2)
      (s := ((Sample.raced false).session Sample.onItsWay).2) (by decide +kernel)
    obtain ⟨s, t, hs, hst, hdb, hdb', -⟩ :=
      Sys.overtaken_of_run (i := true) (j := false) (by decide) hreads hrun hrun'
    refine ⟨s, t, hs, hst, ?_, ?_⟩
    · rw [hdb, hdb']
      exact ⟨(none, none), (some 1, some 2), by decide +kernel, by decide +kernel, by decide⟩
    · rw [hdb]
      exact not_outForDelivery (by decide +kernel)

end Marketplace
