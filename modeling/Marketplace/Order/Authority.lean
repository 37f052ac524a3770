import Marketplace.Order.Runs

/-!
# The authority of a driver

An administrator assigns the driver of an order, and the database records it twice: in
the order's driver assignment and, once the order has a delivery row, in that row. The
delivery flow looks at neither. This file shows what holds in the runs in which its
requests come only from the recorded driver of an active order: the records then name
the driver the administrator has assigned, so nobody else acts on the order, and only an
administrator changes the driver of a delivery row.
-/

namespace Marketplace

open Lib OrderService DeliveryFlow DeliveryTracking

/-! ### Who acts -/

/-- The order a driver's request of the delivery flow would change. -/
def Op.flowOrder : Op → Option Id
  | driverAccept o | recordLocation o _ _ | completeDelivery o _ => some o
  | _ => none

/-- The order to which a request gives a driver, and that driver. -/
def Op.givenDriver : Op → Option (Id × Id)
  | assignDriver o driver => some (o, driver)
  | adminPatchDelivery o (some driver) _ _ => some (o, driver)
  | _ => none

/-- The driver the database records for an order: the one on its delivery row or, while there
is no such row, the one its driver assignment in force names. -/
inductive RecordedDriver (L : Life) (driver : Id) : Prop
  | delivery {d} : L.delivery = some d → d.driverId = some driver → RecordedDriver L driver
  | assignment {a} : L.delivery = none → a ∈ L.assignments →
      a.status ∈ activeAssignmentStatuses →
      (∀ b ∈ L.assignments, b.status ∈ activeAssignmentStatuses → b.driverId = some driver) →
      RecordedDriver L driver

/-- The request gets past all the checks that the delivery flow makes on its way to the order:
the role, the order row and the code. -/
def PassesChecks (sha256 : String → String) (caller : User) (o : Id) (op : Op) (L : Life) : Prop :=
  (∃ x, L.order = some x ∧ x.deletedAt = none) ∧
    match op with
    | .driverAccept orderId => orderId = o ∧ caller.role = .driver ∧ L.code = none
    | .recordLocation orderId _ _ =>
      orderId = o ∧ caller.role ∈ [UserRole.driver, .seller, .admin]
    | .getRoute orderId => orderId = o ∧ caller.role = .driver
    | .completeDelivery orderId submitted => orderId = o ∧ caller.role = .driver ∧
      ∃ c, L.code = some c ∧ checkCode sha256 c submitted = .right
    | _ => False

/-- The order is in one of `ACTIVE_STATUSES`. -/
def Life.Active (L : Life) : Prop := ∃ x, L.order = some x ∧ x.status ∈ activeStatuses

/-- A request of the delivery flow that passes the checks is the recorded driver's, on an active
order. -/
def World.ByRecordedDriver (sha256 : String → String) (w : World) (c : Call) : Prop :=
  ∀ o, PassesChecks sha256 c.caller o c.op (w.db.life o) →
    RecordedDriver (w.db.life o) c.caller.id ∧ (w.db.life o).Active

/-- The memory of a run: the driver whom an administrator has last given each order. -/
def World.noteAssigned (sha256 : String → String) (assigned : Id → Option Id) (w : World)
    (c : Call) : Id → Option Id :=
  match c.op.givenDriver, (w.respond sha256 c).1 with
  | some (o, driver), .ok _ => Function.update assigned o (some driver)
  | _, _ => assigned

/-- The authority of drivers, over one request. -/
structure World.AuthorityHeld (sha256 : String → String) (assigned : Id → Option Id) (w : World)
    (c : Call) : Prop where
  changes : ∀ o, c.op.flowOrder = some o → (w.serve sha256 c).db ≠ w.db →
    assigned o = some c.caller.id ∧ (w.db.life o).Active
  route : ∀ o r, c.op = .getRoute o → (w.respond sha256 c).1 = .ok r → c.caller.role ≠ .admin →
    assigned o = some c.caller.id ∧ (w.db.life o).Active
  driver : ∀ o d d', w.db.deliveries.get o = some d →
    (w.serve sha256 c).db.deliveries.get o = some d' →
    (∀ driver distance duration, c.op ≠ .adminPatchDelivery o (some driver) distance duration) →
    d'.driverId = d.driverId

/-! ### The two records of one order -/

/-- The statuses in which a driver can be assigned, now or later. -/
def assignableStatuses : List OrderStatus := [.pending, .accepted, .preparing]

/-- The records of an order name nobody but the assigned driver, and an order that has a delivery
row waits for no assignment. -/
structure Life.Authority (L : Life) (assigned : Option Id) : Prop where
  delivery : ∀ d driver, L.delivery = some d → d.driverId = some driver → assigned = some driver
  assignment : L.delivery = none → ∀ a ∈ L.assignments, a.status ∈ activeAssignmentStatuses →
    ∀ driver, a.driverId = some driver → assigned = some driver
  settled : L.delivery ≠ none → ∀ x, L.order = some x → x.status ∈ assignableStatuses →
    ∀ a ∈ L.assignments, a.status ∈ activeAssignmentStatuses → a.driverId ≠ none

/-- A cancelled assignment is not active. -/
theorem cancelled_not_active : DriverAssignmentStatus.cancelled ∉ activeAssignmentStatuses := by
  decide

section Moves

variable {sha256 : String → String} {ps : PlatformSettings} {env : Env} {caller : User} {o : Id}
  {op : Op} {L L' : Life} {assigned : Option Id}

/-- A recorded driver is the one last given the order. -/
theorem Life.Authority.recorded (h : L.Authority assigned) {driver : Id}
    (hr : RecordedDriver L driver) : assigned = some driver := by
  cases hr with
  | delivery hd hdriver => exact h.delivery _ _ hd hdriver
  | assignment hnone ha hactive hall => exact h.assignment hnone _ ha hactive _ (hall _ ha hactive)

/-- A life without rows agrees with any authority. -/
theorem Life.authority_of_empty (assigned : Option Id) : ({} : Life).Authority assigned where
  delivery d _ hd := by cases hd
  assignment _ a ha := by cases ha
  settled _ x hx := by cases hx

/-- A change of the order row out of the assignable statuses. -/
theorem Life.Authority.leave (h : L.Authority assigned) {x : Order} (s : OrderStatus)
    (hx : x.status = s) (hs : s ∉ assignableStatuses) :
    Life.Authority { L with order := some x } assigned where
  delivery := h.delivery
  assignment := h.assignment
  settled _ y hy hy' := by
    obtain rfl := Option.some.inj hy
    exact absurd (hx ▸ hy') hs

/-- A change of the order row within the assignable statuses. -/
theorem Life.Authority.remain (h : L.Authority assigned) {x y : Order} (hx : L.order = some x)
    (hs : y.status ∈ assignableStatuses → x.status ∈ assignableStatuses) :
    Life.Authority { L with order := some y } assigned where
  delivery := h.delivery
  assignment := h.assignment
  settled hd z hz hz' := by
    obtain rfl := Option.some.inj hz
    exact h.settled hd x hx (hs hz')

/-- A change of the delivery row that keeps its driver. -/
theorem Life.Authority.redeliver (h : L.Authority assigned) {d d' : Delivery}
    (hd : L.delivery = some d) (hdriver : d'.driverId = d.driverId) :
    Life.Authority { L with delivery := some d' } assigned where
  delivery e driver he hdr := by
    obtain rfl := Option.some.inj he
    exact h.delivery d driver hd (hdriver ▸ hdr)
  assignment hnone := by cases hnone
  settled _ := h.settled (by simp [hd])

/-- A snapshot changes no authority. -/
theorem Life.Authority.record (h : L.Authority assigned) (s : OrderAnalyticsSnapshot) :
    (L.record s).Authority assigned :=
  ⟨h.delivery, h.assignment, h.settled⟩

/-- A deleted order agrees with any authority. -/
theorem Life.authority_bury (L : Life) (assigned : Option Id) : L.bury.Authority assigned where
  delivery d _ hd := by cases hd
  assignment _ a ha := by cases ha
  settled _ x hx := by cases hx

/-- Every move keeps the records in agreement with the assigned driver, if the delivery flow's
acceptances are the recorded driver's. The administrator's own moves are treated apart. -/
theorem Move.authority (h : Move sha256 ps env caller o op L L')
    (hnew : o = env.uuid4 0 → L = {})
    (hflow : PassesChecks sha256 caller o op L → RecordedDriver L caller.id)
    (hgiven : ∀ driver, op.givenDriver ≠ some (o, driver))
    (hL : L.Authority assigned) : L'.Authority assigned := by
  cases h with
  | stay => exact hL
  | create ho =>
    obtain rfl := hnew ho
    exact ⟨fun d _ hd => (by cases hd), fun _ a ha => (by cases ha), fun hne => absurd rfl hne⟩
  | accept hx _ hs => exact hL.remain hx fun _ => hs ▸ by decide
  | prepare hx _ hs => exact hL.remain hx fun _ => hs ▸ by decide
  | chooseSelfDelivery _ _ _ _ hnone =>
    refine ⟨fun d driver hd hdriver => ?_, fun hn => (by cases hn),
      fun _ _ _ _ a ha hactive => absurd hactive (hnone a ha)⟩
    obtain rfl := Option.some.inj hd
    cases hdriver
  | requestDriver _ _ _ hd hnone =>
    refine ⟨hL.delivery, fun _ a ha hactive driver hdriver => ?_, fun hne => absurd hd hne⟩
    rcases List.mem_append.mp ha with hold | hnew
    · exact absurd hactive (hnone a hold)
    · obtain rfl := List.mem_singleton.mp hnew
      cases hdriver
  | assignDriver => exact absurd rfl (hgiven _)
  | sendOutNew hx _ _ hnone ha hassigned _ =>
    refine ⟨fun d driver hd hdriver => ?_, fun hn => (by cases hn), fun _ y hy hs => ?_⟩
    · obtain rfl := Option.some.inj hd
      refine hL.assignment hnone _ ha ?_ driver hdriver
      rcases hassigned with hs | hs
      · exact hs ▸ by decide
      · exact hs ▸ by decide
    · obtain rfl := Option.some.inj hy
      exact absurd hs (by simp [Order.sendOut, assignableStatuses])
  | @sendOut _ x d _ _ _ hd =>
    have hstarted : Life.Authority { L with delivery := some (d.start (env.now 0)) } assigned :=
      hL.redeliver hd rfl
    exact hstarted.leave .outForDelivery rfl (by decide)
  | @deliver _ x d _ _ _ hd =>
    have hdelivered : Life.Authority
        { L with delivery := some (d.deliver (env.now 0) (stampDuration (env.now 0) d)) }
        assigned :=
      hL.redeliver hd rfl
    exact hdelivered.leave .delivered rfl (by decide)
  | complete => exact Life.Authority.record (hL.leave .completed rfl (by decide)) _
  | autoComplete => exact Life.Authority.record (hL.leave .completed rfl (by decide)) _
  | cancel =>
    refine ⟨hL.delivery, fun _ a ha hactive => ?_, fun _ y hy hs => ?_⟩
    · obtain ⟨b, hb, rfl⟩ := List.mem_map.mp ha
      by_cases hb' : b.status ∈ activeAssignmentStatuses
      · rw [if_pos hb'] at hactive
        exact absurd hactive cancelled_not_active
      · rw [if_neg hb'] at hactive
        exact absurd hactive hb'
    · obtain rfl := Option.some.inj hy
      exact absurd hs (by simp [Order.cancel, assignableStatuses])
  | delete => exact Life.authority_bury _ _
  | purge => exact Life.authority_bury _ _
  | @driverAccept _ x hx hlive hrole hcode =>
    have hrecorded := hflow ⟨⟨x, hx, hlive⟩, rfl, hrole, hcode⟩
    have hassigned := hL.recorded hrecorded
    refine ⟨fun d driver hd hdriver => ?_, fun hn => (by cases hn),
      fun _ y hy hs a ha hactive => ?_⟩
    · obtain rfl := Option.some.inj hd
      have hcaller : (takenDelivery env caller x L.delivery).driverId = some caller.id := by
        cases L.delivery with
        | none => rfl
        | some e => rfl
      rw [hassigned, ← hdriver, hcaller]
    · obtain rfl := Option.some.inj hy
      cases hrecorded with
      | delivery hd _ => exact hL.settled (by simp [hd]) x hx hs a ha hactive
      | assignment _ _ _ hall => simp [hall a ha hactive]
  | @recordLocation _ x lat lng =>
    cases hd : L.delivery with
    | none =>
      refine ⟨fun d _ hd' => (by cases hd'), fun _ => hL.assignment hd, fun hne => absurd rfl hne⟩
    | some d => exact hL.redeliver hd rfl
  | @completeDelivery _ x _ _ hx =>
    have h := Life.Authority.leave (x := x.deliverByCode (env.now 0)) hL .delivered rfl
      (by decide)
    exact ⟨h.delivery, h.assignment, h.settled⟩
  | @patchDelivery _ x d driver distance duration _ _ hd =>
    cases driver with
    | none => exact hL.redeliver hd rfl
    | some driver => exact absurd rfl (hgiven driver)

/-- A move that is not the administrator's patch keeps the driver of the delivery row, if the
delivery flow's acceptances are the recorded driver's. -/
theorem Move.delivery_driver (h : Move sha256 ps env caller o op L L')
    (hnew : o = env.uuid4 0 → L = {})
    (hflow : PassesChecks sha256 caller o op L → RecordedDriver L caller.id)
    (hpatch : ∀ driver distance duration,
      op ≠ .adminPatchDelivery o (some driver) distance duration)
    {d d' : Delivery} (hd : L.delivery = some d) (hd' : L'.delivery = some d') :
    d'.driverId = d.driverId := by
  have hsame : some d' = L.delivery → d'.driverId = d.driverId := by
    intro heq
    obtain rfl := Option.some.inj (heq.trans hd)
    rfl
  cases h with
  | create ho =>
    rw [hnew ho] at hd
    cases hd
  | chooseSelfDelivery _ _ _ hnone =>
    rw [hnone] at hd
    cases hd
  | sendOutNew _ _ _ hnone =>
    rw [hnone] at hd
    cases hd
  | sendOut _ _ _ hold =>
    obtain rfl := Option.some.inj (hold.symm.trans hd)
    obtain rfl := Option.some.inj hd'
    rfl
  | deliver _ _ _ hold =>
    obtain rfl := Option.some.inj (hold.symm.trans hd)
    obtain rfl := Option.some.inj hd'
    rfl
  | delete => cases hd'
  | purge => cases hd'
  | @driverAccept _ x hx hlive hrole hcode =>
    obtain rfl := Option.some.inj hd'
    cases hflow ⟨⟨x, hx, hlive⟩, rfl, hrole, hcode⟩ with
    | delivery hold hdriver =>
      obtain rfl := Option.some.inj (hold.symm.trans hd)
      rw [hd, hdriver]
      rfl
    | assignment hnone =>
      rw [hnone] at hd
      cases hd
  | recordLocation =>
    obtain ⟨e, hold, rfl⟩ := Option.map_eq_some_iff.mp hd'
    obtain rfl := Option.some.inj (hold.symm.trans hd)
    rfl
  | @patchDelivery _ _ e driver distance duration _ _ hold =>
    obtain rfl := Option.some.inj (hold.symm.trans hd)
    obtain rfl := Option.some.inj hd'
    cases driver with
    | none => rfl
    | some driver => exact absurd rfl (hpatch driver distance duration)
  | _ => exact hsame hd'.symm

end Moves

/-! ### The administrator's own requests -/

section Administrator

variable {sha256 : String → String} {w : World} {c : Call} {o driver : Id} {r : Reply}
  {assigned : Id → Option Id}

/-- An assignment that succeeds leaves the driver it names as the only one on record. -/
theorem authority_assignDriver (h : (w.db.life o).Authority (assigned o))
    (hop : c.op = .assignDriver o driver) (hr : (w.respond sha256 c).1 = .ok r) :
    ((w.serve sha256 c).db.life o).Authority (some driver) := by
  have hrun := exec_of_ok hr
  rw [hop] at hrun
  obtain ⟨_, hrun, -⟩ := run_reply_ok.mp hrun
  obtain ⟨x, p, hact, -, hstatus, -, hp, hactive, hfree, hdb⟩ := OrderService.assignDriver_ok hrun
  have hx : (w.db.life o).order = some x := hact.found
  have hassignable : x.status ∈ assignableStatuses := by
    rcases hstatus with hs | hs
    · exact hs ▸ by decide
    · exact hs ▸ by decide
  -- the request still waits for its driver, so there is no delivery row
  have hnone : (w.db.life o).delivery = none := by
    by_contra hne
    exact h.settled hne x hx hassignable p hp hactive (hfree p hp hactive)
  rw [hdb, life_modifyAssignment (DriverAssignment.assign_keys _ _ _)]
  refine ⟨fun d e hd => ?_, fun _ a ha hactive' e hdriver => ?_, fun hne => absurd hnone hne⟩
  · rw [hnone] at hd
    cases hd
  · obtain ⟨b, hb, rfl⟩ := List.mem_map.mp ha
    by_cases hid : b.id = p.id
    · rw [if_pos hid] at hdriver
      exact hdriver
    · rw [if_neg hid] at hactive' hdriver
      rw [hfree b hb hactive'] at hdriver
      cases hdriver

/-- A patch that names a driver leaves that driver on the delivery row. -/
theorem authority_patchDriver {distance duration : Option ℤ}
    (h : (w.db.life o).Authority (assigned o))
    (hop : c.op = .adminPatchDelivery o (some driver) distance duration)
    (hr : (w.respond sha256 c).1 = .ok r) :
    ((w.serve sha256 c).db.life o).Authority (some driver) := by
  have hrun := exec_of_ok hr
  rw [hop] at hrun
  obtain ⟨_, hrun, -⟩ := run_reply_ok.mp hrun
  obtain ⟨-, x, d, -, -, hd, hdb⟩ := adminPatchDelivery_ok hrun
  have hdelivery : (w.db.life o).delivery = some d := hd
  rw [hdb, patchedDriver, life_modifyDelivery_self (fun d => Delivery.patch_orderId d _ _),
    life_modifyDelivery_self (Delivery.giveTo_orderId · driver), hdelivery]
  refine ⟨fun e driver' he hdriver => ?_, fun hnone => ?_, fun _ => h.settled (by simp [hdelivery])⟩
  · obtain rfl := Option.some.inj he
    exact hdriver
  · cases hnone

/-- A call that gives the order to a driver gives that driver the authority. -/
theorem authority_given (h : (w.db.life o).Authority (assigned o))
    (hop : c.op.givenDriver = some (o, driver)) (hr : (w.respond sha256 c).1 = .ok r) :
    ((w.serve sha256 c).db.life o).Authority (some driver) := by
  cases hc : c.op with
  | assignDriver o' driver' =>
    rw [hc] at hop
    obtain ⟨rfl, rfl⟩ := Prod.mk.inj (Option.some.inj hop)
    exact authority_assignDriver h hc hr
  | adminPatchDelivery o' given distance duration =>
    rw [hc] at hop
    cases given with
    | none => cases hop
    | some driver' =>
      obtain ⟨rfl, rfl⟩ := Prod.mk.inj (Option.some.inj hop)
      exact authority_patchDriver h hc hr
  | _ =>
    rw [hc] at hop
    cases hop

end Administrator

/-! ### Runs -/

section Runs

variable {sha256 : String → String} {w : World} {c : Call} {o : Id} {assigned : Id → Option Id}

/-- What holds between any two requests of a run with its memory. -/
structure World.Authorised (s : World × (Id → Option Id)) : Prop where
  ready : s.1.Ready
  authority : ∀ o, (s.1.db.life o).Authority (s.2 o)

/-- The initial world gives nobody authority. -/
theorem World.Initial.authorised (h : w.Initial) : World.Authorised (w, fun _ => none) where
  ready := h.ready
  authority o := by
    rw [h.noOrder o]
    exact Life.authority_of_empty none

/-- An order whose identifier the next request draws has no row yet. -/
theorem World.Ready.empty_of_drawn (h : w.Ready) (ho : o = (w.env c).uuid4 0) :
    w.db.life o = {} := by
  by_contra hne
  exact (h.drawn o hne).ne_uuid4 ho

/-- A request leaves the memory of an order alone, unless it gives this order a driver. -/
theorem noteAssigned_of_ne (hgiven : ∀ driver, c.op.givenDriver ≠ some (o, driver)) :
    w.noteAssigned sha256 assigned c o = assigned o := by
  cases hop : c.op.givenDriver with
  | none => simp only [World.noteAssigned, hop]
  | some given =>
    have hne : o ≠ given.1 := by
      rintro rfl
      exact hgiven given.2 hop
    cases hr : (w.respond sha256 c).1 with
    | error e => simp only [World.noteAssigned, hop, hr]
    | ok r => simp only [World.noteAssigned, hop, hr, Function.update_of_ne hne]

/-- A refused call notes nobody. -/
theorem noteAssigned_of_error {e : Err} (hr : (w.respond sha256 c).1 = .error e) :
    w.noteAssigned sha256 assigned c = assigned := by
  cases hop : c.op.givenDriver <;> simp only [World.noteAssigned, hop, hr]

/-- A call that gives the order notes its driver. -/
theorem noteAssigned_of_given {driver : Id} {r : Reply}
    (hop : c.op.givenDriver = some (o, driver)) (hr : (w.respond sha256 c).1 = .ok r) :
    w.noteAssigned sha256 assigned c o = some driver := by
  simp only [World.noteAssigned, hop, hr, Function.update_self]

/-- A call by the recorded driver keeps the authority with whom it was given. -/
theorem World.Authorised.serve {s : World × (Id → Option Id)} (h : World.Authorised s) (c : Call)
    (hc : s.1.ByRecordedDriver sha256 c) :
    World.Authorised (withMemory (World.serve sha256) (World.noteAssigned sha256) s c) where
  ready := h.ready.serve c
  authority o := by
    have ho := h.authority o
    dsimp only [withMemory]
    cases hr : (s.1.respond sha256 c).1 with
    | error e =>
      rw [serve_of_error hr, noteAssigned_of_error hr]
      exact ho
    | ok r =>
      by_cases hgiven : ∃ driver, c.op.givenDriver = some (o, driver)
      · obtain ⟨driver, hop⟩ := hgiven
        rw [noteAssigned_of_given hop hr]
        exact authority_given ho hop hr
      · rw [not_exists] at hgiven
        rw [noteAssigned_of_ne hgiven]
        exact (h.ready.moves sha256 c o).authority h.ready.empty_of_drawn
          (fun hpass => (hc o hpass).1) hgiven ho

/-- A request of the delivery flow that changes the database has got past the checks. -/
theorem passesChecks_of_change (hop : c.op.flowOrder = some o)
    (hchange : (w.serve sha256 c).db ≠ w.db) :
    PassesChecks sha256 c.caller o c.op (w.db.life o) := by
  cases hr : (w.respond sha256 c).1 with
  | error e => exact absurd (serve_of_error hr) hchange
  | ok r =>
    have hrun := exec_of_ok hr
    cases hc : c.op with
    | driverAccept o' =>
      rw [hc] at hop hrun
      obtain rfl := Option.some.inj hop
      obtain ⟨_, hrun, -⟩ := run_reply_ok.mp hrun
      obtain ⟨hrole, x, hget, hlive, hstays | ⟨hcode, -⟩⟩ := acceptOrder_ok hrun
      · exact absurd hstays.2.2 hchange
      · exact ⟨⟨x, hget, hlive⟩, rfl, hrole, hcode⟩
    | recordLocation o' lat lng =>
      rw [hc] at hop hrun
      obtain rfl := Option.some.inj hop
      obtain ⟨_, hrun, -⟩ := run_reply_ok.mp hrun
      obtain ⟨hrole, x, hget, hlive, -⟩ := recordLocation_ok hrun
      exact ⟨⟨x, hget, hlive⟩, rfl, hrole⟩
    | completeDelivery o' submitted =>
      rw [hc] at hop hrun
      obtain rfl := Option.some.inj hop
      obtain ⟨_, hrun, -⟩ := run_reply_ok.mp hrun
      obtain ⟨hrole, x, code, hget, hlive, hcode, hright, -⟩ := completeDelivery_ok hrun
      exact ⟨⟨x, hget, hlive⟩, rfl, hrole, code, hcode, hright⟩
    | _ =>
      rw [hc] at hop
      cases hop

/-- A route is read by an administrator or by a caller who has got past the checks. -/
theorem passesChecks_of_route {r : Reply} (hop : c.op = .getRoute o)
    (hr : (w.respond sha256 c).1 = .ok r) (hrole : c.caller.role ≠ .admin) :
    PassesChecks sha256 c.caller o c.op (w.db.life o) := by
  have hrun := exec_of_ok hr
  rw [hop] at hrun
  obtain ⟨_, hrun, -⟩ := run_reply_ok.mp hrun
  obtain ⟨hmay, -, x, hget, hlive⟩ := getRoute_ok hrun
  rw [hop]
  refine ⟨⟨x, hget, hlive⟩, rfl, ?_⟩
  simpa [hrole] using hmay

/-- A call that is answered was made with authority. -/
theorem World.Authorised.authorityHeld {s : World × (Id → Option Id)} (h : World.Authorised s)
    {c : Call} (hc : s.1.ByRecordedDriver sha256 c) : s.1.AuthorityHeld sha256 s.2 c where
  changes o hop hchange := by
    obtain ⟨hrecorded, hactive⟩ := hc o (passesChecks_of_change hop hchange)
    exact ⟨(h.authority o).recorded hrecorded, hactive⟩
  route o r hop hr hrole := by
    obtain ⟨hrecorded, hactive⟩ := hc o (passesChecks_of_route hop hr hrole)
    exact ⟨(h.authority o).recorded hrecorded, hactive⟩
  driver o d d' hd hd' hpatch :=
    (h.ready.moves sha256 c o).delivery_driver h.ready.empty_of_drawn
      (fun hpass => (hc o hpass).1) hpatch hd hd'

/-- **The authority of drivers.** In every run whose accepted requests of the delivery flow are
the recorded driver's, on active orders, the flow changes an order and shows its destination only
for the driver an administrator has assigned, and drivers are set by administrators alone. -/
theorem driver_authority (sha256 : String → String) {w : World} (hw : w.Initial)
    {calls : List Call}
    (hcalls : EachStep (World.serve sha256) (World.ByRecordedDriver sha256) w calls) :
    EachStep (withMemory (World.serve sha256) (World.noteAssigned sha256))
      (fun s c => s.1.AuthorityHeld sha256 s.2 c) (w, fun _ => none) calls := by
  have hremembered := (eachStep_withMemory (s := (w, fun _ => none))
    (World.noteAssigned sha256)).mpr hcalls
  exact hremembered.guarantee (I := World.Authorised) (fun s c h hc => h.serve c hc)
    (fun s c h hc => h.authorityHeld hc) hw.authorised

/-- The driver on the delivery row of an active order is its recorded driver. -/
theorem recorded_and_active {driver : Id}
    (hd : ((w.db.deliveries.get o).any fun d => d.driverId = some driver) = true)
    (hx : ((w.db.orders.get o).any fun x => x.status ∈ activeStatuses) = true) :
    RecordedDriver (w.db.life o) driver ∧ (w.db.life o).Active := by
  simp only [Option.any_eq_true, decide_eq_true_eq] at hd hx
  obtain ⟨d, hget, hdriver⟩ := hd
  exact ⟨.delivery hget hdriver, hx⟩

end Runs

/-- The driver of an order that is on its way reports a position and delivers it. -/
theorem driver_authority_sent :
    EachStep (withMemory (World.serve Sample.sha256) (World.noteAssigned Sample.sha256))
      (fun s c => s.1.AuthorityHeld Sample.sha256 s.2 c) (Sample.start, fun _ => none)
      (Sample.sent ++ [Sample.request Sample.driver (.recordLocation 0 1 2) 8,
        Sample.request Sample.driver (.completeDelivery 0 "000000") 9]) := by
  refine driver_authority Sample.sha256 Sample.start_initial
    ⟨fun _ h => h.2.elim, fun _ h => h.2.elim, fun _ h => h.2.elim, fun _ h => h.2.elim,
      fun _ h => h.2.elim, fun _ h => h.2.elim, ?_, ?_, ?_, trivial⟩
  · rintro o ⟨-, rfl, -⟩
    exact recorded_and_active (by decide +kernel) (by decide +kernel)
  · rintro o ⟨-, rfl, -⟩
    exact recorded_and_active (by decide +kernel) (by decide +kernel)
  · rintro o ⟨-, rfl, -⟩
    exact recorded_and_active (by decide +kernel) (by decide +kernel)

/-- A driver whom nobody has assigned accepts an order that its seller delivers. -/
theorem self_delivery_gains_driver :
    Sample.start.Initial ∧
      ¬EachStep (withMemory (World.serve Sample.sha256) (World.noteAssigned Sample.sha256))
        (fun s c => s.1.AuthorityHeld Sample.sha256 s.2 c) (Sample.start, fun _ => none)
        [Sample.place, Sample.request Sample.seller (.acceptOrder 0) 2,
          Sample.request Sample.seller (.chooseSelfDelivery 0) 3,
          Sample.request Sample.driver (.driverAccept 0) 4] ∧
      ((after (World.serve Sample.sha256) Sample.start
        [Sample.place, Sample.request Sample.seller (.acceptOrder 0) 2,
          Sample.request Sample.seller (.chooseSelfDelivery 0) 3,
          Sample.request Sample.driver (.driverAccept 0) 4]).db.deliveries.get 0).bind
        Delivery.driverId = some Sample.driver.id := by
  refine ⟨Sample.start_initial, fun h => ?_, by decide +kernel⟩
  obtain ⟨-, -, -, hlast, -⟩ := h
  have hassigned := (hlast.changes 0 rfl (by decide +kernel)).1
  revert hassigned
  decide +kernel

end Marketplace
