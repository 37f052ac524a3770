import Marketplace.Order.Requests

/-!
# One driver for each order

`resolve_role` takes a user for the driver of an order if the delivery row names this user
or an assignment in force does. Three requests write a driver, each to one of the two
places. The places name one driver in every run in which such a request finds the driver
it writes, or nobody, in the place that it leaves alone.
-/

namespace Marketplace

open Lib Txn OrderService DeliveryFlow DeliveryTracking

/-! ### Who is named -/

/-- An assignment in force names this driver. -/
def Life.Assigns (L : Life) (driver : Id) : Prop :=
  ∃ a ∈ L.assignments, a.driverId = some driver ∧ a.status ∈ drivingStatuses

/-- The order to which a request hands a driver, and that driver. -/
def Op.handsTo (caller : User) : Op → Option (Id × Id)
  | assignDriver o driver => some (o, driver)
  | adminPatchDelivery o (some driver) _ _ => some (o, driver)
  | driverAccept o => some (o, caller.id)
  | _ => none

/-- The drivers that a request which hands one over leaves in the other place. -/
def Op.Leaves (op : Op) (L : Life) (driver : Id) : Prop :=
  match op with
  | .assignDriver _ _ => L.delivery.bind Delivery.driverId = some driver
  | _ => L.Assigns driver

/-- The request gets past the checks that its operation makes before it hands over the driver. -/
def Op.MayHand (op : Op) (db : Db) (caller : User) (o driver : Id) : Prop :=
  (∃ x, db.orders.get o = some x ∧ x.deletedAt = none ∧
    match op with
    | .assignDriver _ _ => x.status = .accepted ∨ x.status = .preparing
    | _ => True) ∧
    match op with
    | .assignDriver _ _ => caller.role = .admin ∧ ActiveDriver db driver ∧
      (∃ a ∈ db.assignmentsOf o, a.status ∈ activeAssignmentStatuses) ∧
      ∀ a ∈ db.assignmentsOf o, a.status ∈ activeAssignmentStatuses → a.driverId = none
    | .adminPatchDelivery _ _ _ _ => caller.role = .admin ∧ ActiveDriver db driver ∧
      db.deliveries.get o ≠ none
    | .driverAccept _ => caller.role = .driver ∧ db.deliveryCodes.get o = none
    | _ => False

/-- A request that hands an order to a driver leaves no other driver on record. -/
def World.HandsOver (w : World) : ServiceRequest → Prop
  | .call c => ∀ o driver, c.op.handsTo c.caller = some (o, driver) →
      c.op.MayHand w.db c.caller o driver →
      ∀ other, c.op.Leaves (w.db.life o) other → other = driver
  | .report _ => True

/-- The drivers of an order, after a request. -/
structure World.OneDriver (sha256 : String → String) (w : World) (q : ServiceRequest) : Prop where
  single : ∀ o x u v db db', (w.handle sha256 q).db.orders.get o = some x →
    u.role = .driver → v.role = .driver →
    (resolveRole u x).run (w.handle sha256 q).db = .ok (.driver, db) →
    (resolveRole v x).run (w.handle sha256 q).db = .ok (.driver, db') → u.id = v.id
  replaced : ∀ c o driver distance duration r, q = .call c →
    c.op = .adminPatchDelivery o (some driver) distance duration →
    (w.respond sha256 c).1 = .ok r →
    ∀ x x' u db, w.db.orders.get o = some x → (w.handle sha256 q).db.orders.get o = some x' →
      u.role = .driver → u.id ≠ driver → (resolveRole u x).run w.db = .ok (.driver, db) →
      (resolveRole u x').run (w.handle sha256 q).db = .ok (.none, (w.handle sha256 q).db)

/-! ### The records of one order -/

section Moves

variable {sha256 : String → String} {ps : PlatformSettings} {env : Env} {caller : User} {o : Id}
  {op : Op} {L L' : Life} {driver other : Id}

/-- A driving assignment is active. -/
theorem drivingStatuses_active {s : DriverAssignmentStatus} (hs : s ∈ drivingStatuses) :
    s ∈ activeAssignmentStatuses := by
  revert s
  decide

/-- Where nobody waits for a driver or drives, nobody is assigned. -/
theorem Life.not_assigns (h : ∀ a ∈ L.assignments, a.status ∉ activeAssignmentStatuses) :
    ¬L.Assigns driver := by
  rintro ⟨a, ha, -, hs⟩
  exact h a ha (drivingStatuses_active hs)

/-- A move names only drivers who were named before or the one it hands the order to. -/
theorem Move.names (h : Move sha256 ps env caller o op L L') (hn : L'.Names other) :
    L.Names other ∨ op.handsTo caller = some (o, other) := by
  cases h with
  | chooseSelfDelivery =>
    rcases hn with hd | ha
    · cases hd
    · exact .inl (.inr ha)
  | requestDriver =>
    rcases hn with hd | ⟨a, ha, hdriver, hs⟩
    · exact .inl (.inl hd)
    · rcases List.mem_append.mp ha with hold | hnew
      · exact .inl (.inr ⟨a, hold, hdriver, hs⟩)
      · obtain rfl := List.mem_singleton.mp hnew
        cases hdriver
  | @assignDriver _ _ p driver =>
    rcases hn with hd | ⟨a, ha, hdriver, hs⟩
    · exact .inl (.inl hd)
    · obtain ⟨b, hb, rfl⟩ := List.mem_map.mp ha
      by_cases hid : b.id = p.id
      · rw [if_pos hid] at hdriver
        obtain rfl := Option.some.inj hdriver
        exact .inr rfl
      · rw [if_neg hid] at hdriver hs
        exact .inl (.inr ⟨b, hb, hdriver, hs⟩)
  | sendOutNew _ _ _ _ ha hassigned =>
    rcases hn with hd | ha'
    · refine .inl (.inr ⟨_, ha, hd, ?_⟩)
      rcases hassigned with hs | hs
      · exact hs ▸ by decide
      · exact hs ▸ by decide
    · exact .inl (.inr ha')
  | @sendOut _ _ d _ _ _ hd =>
    refine .inl (hn.imp (fun hd' => ?_) id)
    rw [hd]
    exact hd'
  | @deliver _ _ d _ _ _ hd =>
    refine .inl (hn.imp (fun hd' => ?_) id)
    rw [hd]
    exact hd'
  | cancel =>
    rcases hn with hd | ⟨a, ha, hdriver, hs⟩
    · exact .inl (.inl hd)
    · obtain ⟨b, hb, rfl⟩ := List.mem_map.mp ha
      split at hs
      · cases hs with
        | tail _ hs => cases hs with
          | tail _ hs => cases hs
      · next hinactive =>
        rw [if_neg hinactive] at hdriver
        exact .inl (.inr ⟨b, hb, hdriver, hs⟩)
  | delete =>
    rcases hn with hd | ⟨a, ha, -⟩
    · cases hd
    · cases ha
  | purge =>
    rcases hn with hd | ⟨a, ha, -⟩
    · cases hd
    · cases ha
  | driverAccept =>
    rcases hn with hd | ha
    · obtain rfl := Option.some.inj ((takenDelivery_driverId _ _ _ _).symm.trans hd)
      exact .inr rfl
    · exact .inl (.inr ha)
  | recordLocation =>
    refine .inl (hn.imp (fun hd => ?_) id)
    cases hdel : L.delivery with
    | none => simp [hdel] at hd
    | some d =>
      simp only [hdel, Option.map_some, Option.bind_some] at hd
      exact hd
  | @patchDelivery _ _ d given _ _ _ _ hd =>
    rcases hn with hd' | ha
    · cases given with
      | none =>
        refine .inl (.inl ?_)
        rw [hd]
        exact hd'
      | some given =>
        obtain rfl := Option.some.inj hd'
        exact .inr rfl
    · exact .inl (.inr ha)
  | _ => exact .inl hn

/-- A move that hands an order to a driver names this driver and those whom it leaves. -/
theorem Move.names_of_handsTo (h : Move sha256 ps env caller o op L L') (hmoved : L' ≠ L)
    (hto : op.handsTo caller = some (o, driver)) (hn : L'.Names other) :
    op.Leaves L other ∨ other = driver := by
  cases h with
  | stay => exact absurd rfl hmoved
  | @assignDriver _ _ p given _ _ _ _ _ _ hfree =>
    obtain ⟨-, rfl⟩ := Prod.mk.inj (Option.some.inj hto)
    rcases hn with hd | ⟨a, ha, hdriver, hs⟩
    · exact .inl hd
    · obtain ⟨b, hb, rfl⟩ := List.mem_map.mp ha
      by_cases hid : b.id = p.id
      · rw [if_pos hid] at hdriver
        exact .inr (Option.some.inj hdriver).symm
      · rw [if_neg hid] at hdriver hs
        rw [hfree b hb (drivingStatuses_active hs)] at hdriver
        cases hdriver
  | driverAccept =>
    obtain ⟨-, rfl⟩ := Prod.mk.inj (Option.some.inj hto)
    rcases hn with hd | ha
    · exact .inr (Option.some.inj ((takenDelivery_driverId _ _ _ _).symm.trans hd)).symm
    · exact .inl ha
  | @patchDelivery _ _ d given _ _ _ _ hd =>
    cases given with
    | none => cases hto
    | some given =>
      obtain ⟨-, rfl⟩ := Prod.mk.inj (Option.some.inj hto)
      rcases hn with hd' | ha
      · exact .inr (Option.some.inj hd').symm
      · exact .inl ha
  | _ => cases hto

/-- A report names no new driver. -/
theorem Reported.names {r : Report} (h : Reported r o L L') (hn : L'.Names other) :
    L.Names other := by
  cases h with
  | stay => exact hn
  | report _ _ _ _ hd =>
    refine hn.imp (fun hd' => ?_) id
    rw [hd]
    exact hd'

end Moves

/-! ### Runs -/

section Runs

variable {sha256 : String → String} {w : World} {c : Call} {q : ServiceRequest} {o driver : Id}

/-- A request that changes an order while handing it to a driver has got past its checks. -/
theorem mayHand_of_ok {r : Reply} (hto : c.op.handsTo c.caller = some (o, driver))
    (hr : (w.respond sha256 c).1 = .ok r) (hmoved : (w.serve sha256 c).db.life o ≠ w.db.life o) :
    c.op.MayHand w.db c.caller o driver := by
  have hrun := exec_of_ok hr
  cases hc : c.op with
  | assignDriver o' driver' =>
    rw [hc] at hto hrun
    obtain ⟨rfl, rfl⟩ := Prod.mk.inj (Option.some.inj hto)
    obtain ⟨_, hrun, -⟩ := run_reply_ok.mp hrun
    obtain ⟨x, p, hact, hrole, hstatus, hdriver, hp, hactive, hfree, -⟩ :=
      OrderService.assignDriver_ok hrun
    exact ⟨⟨x, hact.found, hact.live, hstatus⟩, hrole, hdriver, ⟨p, hp, hactive⟩, hfree⟩
  | adminPatchDelivery o' given distance duration =>
    rw [hc] at hto hrun
    cases given with
    | none => cases hto
    | some given =>
      obtain ⟨rfl, rfl⟩ := Prod.mk.inj (Option.some.inj hto)
      obtain ⟨_, hrun, -⟩ := run_reply_ok.mp hrun
      obtain ⟨hrole, x, d, hget, hlive, hd, -⟩ := adminPatchDelivery_ok hrun
      exact ⟨⟨x, hget, hlive, trivial⟩, hrole, adminPatchDelivery_driver hrun, by simp [hd]⟩
  | driverAccept o' =>
    rw [hc] at hto hrun
    obtain ⟨rfl, rfl⟩ := Prod.mk.inj (Option.some.inj hto)
    obtain ⟨_, hrun, -⟩ := run_reply_ok.mp hrun
    obtain ⟨hrole, x, hget, hlive, ⟨-, -, hsame⟩ | ⟨hcode, -⟩⟩ := DeliveryFlow.acceptOrder_ok hrun
    · exact absurd (congrArg (Db.life · o') hsame) hmoved
    · exact ⟨⟨x, hget, hlive, trivial⟩, hrole, hcode⟩
  | _ =>
    rw [hc] at hto
    cases hto

/-- The records of an order name at most one driver. -/
def Life.OneDriver (L : Life) : Prop := ∀ d e, L.Names d → L.Names e → d = e

/-- After a request that hands the order to a driver no other driver is named. -/
theorem names_after_handsTo (h : w.Ready) (hc : w.HandsOver (.call c))
    (hto : c.op.handsTo c.caller = some (o, driver))
    (hmoved : (w.serve sha256 c).db.life o ≠ w.db.life o) {other : Id}
    (hn : ((w.serve sha256 c).db.life o).Names other) : other = driver := by
  cases hr : (w.respond sha256 c).1 with
  | error e => exact absurd (congrArg (Db.life · o) (serve_of_error hr)) hmoved
  | ok r =>
    have hmay := mayHand_of_ok hto hr hmoved
    rcases (h.moves sha256 c o).names_of_handsTo hmoved hto hn with hleft | rfl
    · exact hc o driver hto hmay other hleft
    · rfl

/-- A call that hands the order over keeps it with one driver. -/
theorem Life.OneDriver.serve {w : World} (h : w.Ready) (hc : w.HandsOver (.call c))
    (hone : (w.db.life o).OneDriver) : ((w.serve sha256 c).db.life o).OneDriver := by
  by_cases hmoved : (w.serve sha256 c).db.life o = w.db.life o
  · rw [hmoved]
    exact hone
  · by_cases hto : ∃ driver, c.op.handsTo c.caller = some (o, driver)
    · obtain ⟨driver, hto⟩ := hto
      intro d e hd he
      rw [names_after_handsTo h hc hto hmoved hd, names_after_handsTo h hc hto hmoved he]
    · rw [not_exists] at hto
      intro d e hd he
      exact hone d e (((h.moves sha256 c o).names hd).resolve_right (hto d))
        (((h.moves sha256 c o).names he).resolve_right (hto e))

/-- What holds between any two requests. -/
structure World.Driven (w : World) : Prop where
  ready : w.Ready
  one : ∀ o, (w.db.life o).OneDriver

/-- A request that hands the order over keeps every order with one driver. -/
theorem World.Driven.handle (h : w.Driven) (hq : w.HandsOver q) :
    (w.handle sha256 q).Driven where
  ready := h.ready.handle q
  one o := by
    cases q with
    | call c => exact (h.one o).serve h.ready hq
    | report r =>
      intro d e hd he
      exact h.one o d e ((answer_reported w r o).names hd) ((answer_reported w r o).names he)

/-- A patch that names a driver leaves this driver on the delivery row. -/
theorem names_after_patch {distance duration : Option ℤ} {r : Reply}
    (hop : c.op = .adminPatchDelivery o (some driver) distance duration)
    (hr : (w.respond sha256 c).1 = .ok r) : ((w.serve sha256 c).db.life o).Names driver := by
  have hrun := exec_of_ok hr
  rw [hop] at hrun
  obtain ⟨_, hrun, -⟩ := run_reply_ok.mp hrun
  obtain ⟨-, x, d, -, -, hd, hdb⟩ := adminPatchDelivery_ok hrun
  have hdelivery : (w.db.life o).delivery = some d := hd
  left
  rw [hdb, patchedDriver, life_modifyDelivery_self (fun d => Delivery.patch_orderId d _ _),
    life_modifyDelivery_self (Delivery.giveTo_orderId · driver), hdelivery]
  rfl

/-- In such a world every request finds one driver at most. -/
theorem World.Driven.oneDriver (h : w.Driven) (hq : w.HandsOver q) : w.OneDriver sha256 q where
  single o x u v db db' hx hu hv hresolves hresolves' := by
    have hid : x.id = o := Table.key_of_get hx
    exact (h.handle hq).one x.id u.id v.id (names_of_resolveRole hu hresolves)
      (names_of_resolveRole hv hresolves')
  replaced c o driver distance duration r hcall hop hr x x' u db hx hx' hu hne _ := by
    subst hcall
    have hid : x'.id = o := Table.key_of_get hx'
    subst hid
    exact resolveRole_of_not_names hu fun hn =>
      hne ((h.handle hq).one x'.id u.id driver hn (names_after_patch hop hr))

/-- **One driver for each order.** In every run in which a request that hands an order to a driver
leaves no other driver on record, no two drivers resolve to `driver` for one order, and a driver
whom an administrator replaces resolves to `none`. -/
theorem one_driver (sha256 : String → String) (hw : w.Initial) {requests : List ServiceRequest}
    (hrequests : EachStep (World.handle sha256) World.HandsOver w requests) :
    EachStep (World.handle sha256) (World.OneDriver sha256) w requests := by
  have hstart : w.Driven := by
    refine ⟨hw.ready, fun o d e hd => ?_⟩
    rw [hw.noOrder o] at hd
    rcases hd with hd | ⟨a, ha, -⟩
    · cases hd
    · cases ha
  exact hrequests.guarantee (I := World.Driven) (fun w q h hq => h.handle hq)
    (fun w q h hq => h.oneDriver hq) hstart

/-- Two drivers on record are one, if no driver has two assignments in force. -/
theorem World.OneDriver.eq_of_names (h : w.OneDriver sha256 q)
    (hfound : ((w.handle sha256 q).db.orders.get o).isSome = true) {d e : Id}
    (hd : ((w.handle sha256 q).db.life o).Names d) (he : ((w.handle sha256 q).db.life o).Names e)
    (hone : ((w.handle sha256 q).db.assignmentsOf o).length ≤ 1) : d = e := by
  obtain ⟨x, hx⟩ := Option.isSome_iff_exists.mp hfound
  have hid : x.id = o := Table.key_of_get hx
  subst hid
  have hlength : ∀ i, (drivingAssignments (w.handle sha256 q).db x.id i).length ≤ 1 :=
    fun i => (List.length_filter_le _ _).trans hone
  exact h.single x.id x { id := d, role := .driver } { id := e, role := .driver } _ _ hx rfl rfl
    (resolveRole_of_names rfl (hlength d) hd) (resolveRole_of_names rfl (hlength e) he)

/-- A request that hands nothing over. -/
theorem handsOver_of_none (hnone : c.op.handsTo c.caller = none) : w.HandsOver (.call c) := by
  intro o driver hto
  rw [hnone] at hto
  cases hto

end Runs

/-- The administrator gives an order that its seller delivers to one driver and then to another. -/
theorem one_driver_patched :
    EachStep (World.handle Sample.sha256) (World.OneDriver Sample.sha256) Sample.start
      ([Sample.place, Sample.request Sample.seller (.acceptOrder 0) 2,
        Sample.request Sample.seller (.chooseSelfDelivery 0) 3,
        Sample.request Sample.admin (.adminPatchDelivery 0 (some 3) none none) 4,
        Sample.request Sample.admin (.adminPatchDelivery 0 (some 4) none none) 5].map
          ServiceRequest.call) := by
  refine one_driver Sample.sha256 Sample.start_initial ⟨handsOver_of_none rfl,
    handsOver_of_none rfl, handsOver_of_none rfl, ?_, ?_, trivial⟩
  · rintro o driver hto - other ⟨a, ha, -⟩
    obtain ⟨rfl, rfl⟩ := Prod.mk.inj (Option.some.inj hto)
    refine absurd (List.length_pos_of_mem ha) ?_
    decide +kernel
  · rintro o driver hto - other ⟨a, ha, -⟩
    obtain ⟨rfl, rfl⟩ := Prod.mk.inj (Option.some.inj hto)
    refine absurd (List.length_pos_of_mem ha) ?_
    decide +kernel

/-- The administrator gives an order that is on its way with one driver to another: both are its
drivers, one by the assignment and one by the delivery row. -/
theorem replaced_driver_stays :
    Sample.start.Initial ∧
      ¬EachStep (World.handle Sample.sha256) (World.OneDriver Sample.sha256) Sample.start
        ((Sample.sent ++
          [Sample.request Sample.admin (.adminPatchDelivery 0 (some 4) none none) 8]).map
            ServiceRequest.call) := by
  refine ⟨Sample.start_initial, fun h => ?_⟩
  obtain ⟨-, -, -, -, -, -, -, hlast, -⟩ := h
  have heq : Sample.driver.id = Sample.otherDriver.id := by
    refine hlast.eq_of_names (o := 0) (by decide +kernel) (.inr ?_) (.inl ?_) ?_
    · decide +kernel
    · decide +kernel
    · decide +kernel
  revert heq
  decide

end Marketplace
