import Marketplace.Order.Exclusivity
import Marketplace.Order.Lifecycle
import Marketplace.Realtime.Gateway

/-!
# The status that tracking shows

The customer's view takes its status from the order row until there is a delivery row, and from
the delivery row from then on. The two rows tell the same stage of the order only while a
delivery is created together with the departure and the order is neither completed nor cancelled
after it.
-/

namespace Marketplace

open Lib Txn OrderService DeliveryTracking

/-! ### Stages -/

/-- `TrackingDeliveryStatus` of the client. -/
inductive TrackingDeliveryStatus
  | pending | accepted | preparing | outForDelivery | delivered | completed | cancelled
deriving DecidableEq, Repr

/-- `parseStatus` of the client. -/
def parseStatus : String → TrackingDeliveryStatus
  | "pending" => .pending
  | "accepted" => .accepted
  | "preparing" => .preparing
  | "out_for_delivery" => .outForDelivery
  | "delivered" => .delivered
  | "completed" => .completed
  | "cancelled" => .cancelled
  | _ => .pending

/-- The stage that a status denotes, with `in_transit`, which `parseStatus` does not know, read as
`out_for_delivery`. -/
def stage (status : String) : TrackingDeliveryStatus :=
  if status = "in_transit" then .outForDelivery else parseStatus status

/-- How far an order has come. -/
def TrackingDeliveryStatus.progress : TrackingDeliveryStatus → ℕ
  | pending => 0
  | accepted => 1
  | preparing => 2
  | outForDelivery => 3
  | delivered => 4
  | completed => 5
  | cancelled => 6

/-- Along the state diagram an order goes forward. -/
theorem progress_of_edge {s t : OrderStatus} (h : s.Edge t) :
    (stage s.label).progress ≤ (stage t.label).progress := by
  cases h with
  | cancel hs =>
    cases s with
    | _ => decide
  | _ => decide

/-! ### The events -/

/-- The status that an event announces. -/
def Event.status (e : Event) : Option String :=
  match e.lookup "status" with
  | some (.text s) => some s
  | _ => none

/-- The `delivery.status` event that the endpoint of a request broadcasts after it has been
served. -/
def World.statusSent (sha256 : String → String) (w : World) (c : Call) : Option Event :=
  match c.op, (w.respond sha256 c).1 with
  | .outForDelivery _, .ok (.order full) =>
    some (statusEvent full.order.id "out_for_delivery" (full.delivery.bind Delivery.startedAt) none)
  | .markDelivered _, .ok (.order full) =>
    some (statusEvent full.order.id "delivered" none full.order.deliveredAt)
  | _, _ => none

/-- The last `delivery.status` event of every order. -/
abbrev LastEvents := Id → Option Event

/-- The last events after a request. -/
def noteEvent (sha256 : String → String) (last : LastEvents) (w : World) (c : Call) : LastEvents :=
  fun o =>
    match w.statusSent sha256 c with
    | some e => if e.lookup "order_id" = some (.id o) then some e else last o
    | none => last o

/-- The server and the last events, after a request. -/
def World.tracked (sha256 : String → String) : World × LastEvents → Call → World × LastEvents :=
  withMemory (World.serve sha256) (noteEvent sha256)

/-! ### The claim -/

/-- The request gets past the checks of an operation after which the two rows of the order tell
different stages. -/
def World.Misleads (w : World) (c : Call) (o : Id) : Prop :=
  match c.op with
  | .chooseSelfDelivery o' => o' = o ∧ c.caller.role = .seller ∧ FulfillmentOpen w.db o ∧
      (∃ x, Actionable w.db c.caller o x ∧ (x.status = .accepted ∨ x.status = .preparing)) ∧
      ∃ s, (getCallerSeller c.caller).run w.db = .ok (s, w.db)
  | .completeOrder o' => o' = o ∧ c.caller.role = .customer ∧
      ∃ x, Actionable w.db c.caller o x ∧ x.status = .delivered
  | .cancelOrder o' _ => o' = o ∧ c.caller.role = .admin ∧
      ∃ x, Actionable w.db c.caller o x ∧ x.status = .outForDelivery
  | .runPurgeJob => ∃ x, w.db.orders.get o = some x ∧
      awaitsAutoComplete (c.now 0 - hours (w.settings c).orderAutoCompleteGraceHours) x = true
  | _ => False

/-- What tracking tells of an order, before and after a request. -/
structure TrackingFaithful (sha256 : String → String) (s : World × LastEvents) (c : Call) :
    Prop where
  viewed : ∀ o x user v db, (World.tracked sha256 s c).1.db.orders.get o = some x →
    (getTrackView user o).run (World.tracked sha256 s c).1.db = .ok (v, db) →
    stage v.status = stage x.status.label
  announced : ∀ o x e, (World.tracked sha256 s c).1.db.orders.get o = some x →
    (World.tracked sha256 s c).2 o = some e →
    ∃ t, e.status = some t ∧ stage t = stage x.status.label
  forward : ∀ o user v v' db db', (getTrackView user o).run s.1.db = .ok (v, db) →
    (getTrackView user o).run (World.tracked sha256 s c).1.db = .ok (v', db') →
    (stage v.status).progress ≤ (stage v'.status).progress
  cancelled : ∀ o x user v db, (World.tracked sha256 s c).1.db.orders.get o = some x →
    x.status = .cancelled →
    (getTrackView user o).run (World.tracked sha256 s c).1.db = .ok (v, db) →
    stage v.status ≠ .outForDelivery

/-! ### The two rows of an order -/

/-- The rows of an order and its last event tell one stage. -/
inductive Matched (L : Life) (e : Option Event) (x : Order) : Prop
  /-- The order has not been on its way. -/
  | before (hdelivery : L.delivery = none) (hevent : e = none)
  | onItsWay (d : Delivery) (hdelivery : L.delivery = some d) (hd : d.status = .inTransit)
    (hx : x.status = .outForDelivery) (hevent : e.bind Event.status = some "out_for_delivery")
  | delivered (d : Delivery) (hdelivery : L.delivery = some d) (hd : d.status = .delivered)
    (hx : x.status = .delivered) (hevent : e.bind Event.status = some "delivered")

namespace Matched

variable {L L' : Life} {e : Option Event} {x x' : Order}

/-- An order that is neither on its way nor delivered has no delivery and no event. -/
theorem before_of_status (h : Matched L e x) (hway : x.status ≠ .outForDelivery)
    (hdelivered : x.status ≠ .delivered) : L.delivery = none ∧ e = none := by
  cases h with
  | before hdelivery hevent => exact ⟨hdelivery, hevent⟩
  | onItsWay _ _ _ hx => exact absurd hx hway
  | delivered _ _ _ hx => exact absurd hx hdelivered

/-- A change of the order row before its departure. -/
theorem step_before (h : Matched L e x) (hway : x.status ≠ .outForDelivery)
    (hdelivered : x.status ≠ .delivered) (hsame : L'.delivery = L.delivery) : Matched L' e x' := by
  obtain ⟨hdelivery, hevent⟩ := h.before_of_status hway hdelivered
  exact .before (hsame.trans hdelivery) hevent

/-- A change of other rows. -/
theorem congr (h : Matched L e x) (hsame : L'.delivery = L.delivery) : Matched L' e x := by
  cases h with
  | before hdelivery hevent => exact .before (hsame.trans hdelivery) hevent
  | onItsWay d hdelivery hd hx hevent => exact .onItsWay d (hsame.trans hdelivery) hd hx hevent
  | delivered d hdelivery hd hx hevent => exact .delivered d (hsame.trans hdelivery) hd hx hevent

/-- The view of a matched order. -/
theorem stage_view {db : Db} {o : Id} (h : Matched (db.life o) e x)
    (hx : db.orders.get o = some x) {user : User} {v : TrackView} {db' : Db}
    (hv : (getTrackView user o).run db = .ok (v, db')) : stage v.status = stage x.status.label := by
  obtain ⟨-, y, hy, hview⟩ := getTrackView_ok hv
  obtain rfl := Option.some.inj (hx.symm.trans hy)
  have hstatus : v.status = (db.deliveries.get o).elim x.status.label fun d => d.status.label := by
    rcases hview with rfl | ⟨d, hd, rfl⟩
    · rfl
    · rw [hd]
      rfl
  have hlife : (db.life o).delivery = db.deliveries.get o := rfl
  rw [hstatus]
  cases h with
  | before hdelivery _ =>
    rw [← hlife, hdelivery]
    rfl
  | onItsWay d hdelivery hd hx _ =>
    rw [← hlife, hdelivery, hx, Option.elim_some, hd]
    decide
  | delivered d hdelivery hd hx _ =>
    rw [← hlife, hdelivery, hx, Option.elim_some, hd]
    decide

/-- The event of a matched order. -/
theorem stage_event {event : Event} (h : Matched L (some event) x) :
    ∃ t, event.status = some t ∧ stage t = stage x.status.label := by
  cases h with
  | before _ hevent => cases hevent
  | onItsWay _ _ _ hx hevent => exact ⟨_, hevent, by rw [hx]; decide⟩
  | delivered _ _ _ hx hevent => exact ⟨_, hevent, by rw [hx]; decide⟩

end Matched

/-! ### One request -/

section Operations

variable {env : Env} {caller : User} {o : Id} {db db' : Db} {full : OrderFull}

/-- A change of the order row that gives it a status. -/
theorem status_modifyOrder {f : Order → Order} {s : OrderStatus} {y : Order}
    (hf : ∀ x, (f x).id = x.id) (hs : ∀ x, (f x).status = s)
    (hy : (db.modifyOrder o f).orders.get o = some y) : y.status = s := by
  have hlife : ((db.modifyOrder o f).life o).order = some y := hy
  rw [life_modifyOrder_self hf] at hlife
  obtain ⟨x, -, rfl⟩ := Option.map_eq_some_iff.mp hlife
  exact hs x

/-- An order that departs was in preparation and is now on its way. -/
theorem outForDelivery_departs (h : (outForDelivery env caller o).run db = .ok (full, db')) :
    full.order.id = o ∧ (∃ x, db.orders.get o = some x ∧ x.status = .preparing) ∧
      ∃ y, db'.orders.get o = some y ∧ y.status = .outForDelivery := by
  simp only [outForDelivery, bind_eq, run_bind_ok, run_raiseIf_ok, run_lockOrderOr404_ok,
    run_selectForUpdate_ok, run_updateOrder_ok, run_loaded_ok] at h
  obtain ⟨_, _, ⟨_, rfl⟩, order, _, ⟨hact, rfl⟩, _, _, ⟨_, rfl⟩, _, _, ⟨hstatus, rfl⟩, _, _,
    ⟨rfl, rfl⟩, u, t, -, _, _, rfl, ⟨y, hy, rfl⟩, rfl⟩ := h
  have hid := hact.id_eq
  subst hid
  refine ⟨Table.key_of_get hy, ⟨order, hact.found, not_not.mp hstatus⟩, y, hy, ?_⟩
  exact status_modifyOrder (Order.sendOut_id _) (fun _ => rfl) hy

/-- An order that is handed over was on its way and is now delivered. -/
theorem markDelivered_arrives (h : (markDelivered env caller o).run db = .ok (full, db')) :
    full.order.id = o ∧ (∃ x, db.orders.get o = some x ∧ x.status = .outForDelivery) ∧
      ∃ y, db'.orders.get o = some y ∧ y.status = .delivered := by
  simp only [markDelivered, bind_eq, run_bind_ok, run_raiseIf_ok, run_lockOrderOr404_ok,
    run_selectForUpdate_ok, run_getOrRaise_ok, run_updateOrder_ok, run_updateDelivery_ok,
    run_loaded_ok] at h
  obtain ⟨_, _, ⟨_, rfl⟩, order, _, ⟨hact, rfl⟩, _, _, ⟨hstatus, rfl⟩, _, _, ⟨rfl, rfl⟩, delivery,
    _, ⟨-, rfl⟩, _, _, ⟨_, rfl⟩, _, _, ⟨_, rfl⟩, _, _, ⟨_, rfl⟩, _, _, rfl, _, _, rfl,
    ⟨y, hy, rfl⟩, rfl⟩ := h
  have hid := hact.id_eq
  subst hid
  refine ⟨Table.key_of_get hy, ⟨order, hact.found, not_not.mp hstatus⟩, y, hy, ?_⟩
  exact status_modifyOrder (Order.deliver_id _) (fun _ => rfl) hy

/-- Only an administrator cancels an order on its way. -/
theorem cancelOrder_onItsWay {reason : Option String}
    (h : (cancelOrder env caller o reason).run db = .ok (full, db')) :
    ∃ x, Actionable db caller o x ∧ (x.status = .outForDelivery → caller.role = .admin) := by
  simp only [cancelOrder, bind_eq, run_bind_ok, run_raiseIf_ok, run_lockOrderOr404_ok] at h
  obtain ⟨x, _, ⟨hact, rfl⟩, _, _, ⟨-, rfl⟩, _, _, hmay, -⟩ := h
  refine ⟨x, hact, fun hstatus => ?_⟩
  unfold ensureMayCancel at hmay
  cases hrole : caller.role with
  | admin => rfl
  | _ => simp [hrole, hstatus] at hmay

/-- Only a customer completes an order. -/
theorem completeOrder_customer (h : (completeOrder env caller o).run db = .ok (full, db')) :
    caller.role = .customer := by
  simp only [completeOrder, bind_eq, run_bind_ok, run_raiseIf_ok] at h
  obtain ⟨_, _, ⟨hrole, -⟩, -⟩ := h
  exact not_not.mp hrole

/-- Only a seller with a profile chooses self-delivery. -/
theorem chooseSelfDelivery_profile
    (h : (chooseSelfDelivery env caller o).run db = .ok (full, db')) :
    ∃ s, (getCallerSeller caller).run db = .ok (s, db) := by
  simp only [chooseSelfDelivery, bind_eq, run_bind_ok, run_raiseIf_ok, run_lockOrderOr404_ok,
    run_ensureFulfillmentOpen_ok] at h
  obtain ⟨_, _, ⟨-, rfl⟩, _, _, ⟨-, rfl⟩, _, _, ⟨-, rfl⟩, _, _, ⟨-, rfl⟩, seller, t, hseller, -⟩ :=
    h
  have hdb := getCallerSeller_ok hseller
  subst hdb
  exact ⟨seller, hseller⟩

end Operations

section Requests

variable {sha256 : String → String} {w : World} {c : Call} {o : Id} {last : LastEvents}

/-- An event is sent when an order has departed or has been handed over. -/
theorem statusSent_some {e : Event} (h : w.statusSent sha256 c = some e) :
    ∃ o full, e.lookup "order_id" = some (.id o) ∧
      ((c.op = .outForDelivery o ∧ e.status = some "out_for_delivery" ∧
          (outForDelivery (w.env c) c.caller o).run w.db = .ok (full, (w.serve sha256 c).db)) ∨
        (c.op = .markDelivered o ∧ e.status = some "delivered" ∧
          (markDelivered (w.env c) c.caller o).run w.db = .ok (full, (w.serve sha256 c).db))) := by
  unfold World.statusSent at h
  split at h
  · next o full hop hr =>
    obtain rfl := Option.some.inj h
    have hrun := exec_of_ok hr
    rw [hop] at hrun
    obtain ⟨full', hrun', hfull⟩ := run_reply_ok.mp hrun
    obtain rfl := Reply.order.inj hfull
    obtain ⟨hid, -⟩ := outForDelivery_departs hrun'
    refine ⟨o, full', ?_, .inl ⟨hop, rfl, hrun'⟩⟩
    rw [hid]
    rfl
  · next o full hop hr =>
    obtain rfl := Option.some.inj h
    have hrun := exec_of_ok hr
    rw [hop] at hrun
    obtain ⟨full', hrun', hfull⟩ := run_reply_ok.mp hrun
    obtain rfl := Reply.order.inj hfull
    obtain ⟨hid, -⟩ := markDelivered_arrives hrun'
    refine ⟨o, full', ?_, .inr ⟨hop, rfl, hrun'⟩⟩
    rw [hid]
    rfl
  · cases h

/-- A departure or a delivery that is not announced has failed. -/
theorem error_of_silent (h : w.statusSent sha256 c = none)
    (hop : c.op = .outForDelivery o ∨ c.op = .markDelivered o) :
    ∃ e, (w.respond sha256 c).1 = .error e := by
  cases hr : (w.respond sha256 c).1 with
  | error e => exact ⟨e, rfl⟩
  | ok r =>
    have hrun := exec_of_ok hr
    unfold World.statusSent at h
    rcases hop with hop | hop
    · rw [hop] at hrun
      obtain ⟨full, -, rfl⟩ := run_reply_ok.mp hrun
      rw [hop, hr] at h
      cases h
    · rw [hop] at hrun
      obtain ⟨full, -, rfl⟩ := run_reply_ok.mp hrun
      rw [hop, hr] at h
      cases h

/-- Only a departure or a delivery of the order itself changes its last event. -/
theorem noteEvent_same (h : ∀ e, w.statusSent sha256 c = some e → c.op ≠ .outForDelivery o ∧
    c.op ≠ .markDelivered o) : noteEvent sha256 last w c o = last o := by
  unfold noteEvent
  cases hsent : w.statusSent sha256 c with
  | none => rfl
  | some e =>
    obtain ⟨hout, hdelivered⟩ := h e hsent
    obtain ⟨o', full, hid, hcase⟩ := statusSent_some hsent
    have hne : o' ≠ o := by
      rintro rfl
      rcases hcase with ⟨hop, -⟩ | ⟨hop, -⟩
      · exact hout hop
      · exact hdelivered hop
    refine if_neg fun heq => hne ?_
    rw [hid] at heq
    exact Value.id.inj (Option.some.inj heq)

/-- The event of the order that the request is about. -/
theorem noteEvent_self {e : Event} (h : w.statusSent sha256 c = some e)
    (hid : e.lookup "order_id" = some (.id o)) : noteEvent sha256 last w c o = some e := by
  unfold noteEvent
  rw [h]
  exact if_pos hid

/-- A request that changes an order misleads nobody about it. -/
theorem not_ok_of_misleads {r : Reply} (hr : (w.respond sha256 c).1 = .ok r)
    (hc : ¬w.Misleads c o) :
    c.op ≠ .chooseSelfDelivery o ∧ c.op ≠ .completeOrder o ∧
      ∀ reason x, c.op = .cancelOrder o reason → w.db.orders.get o = some x →
        x.status ≠ .outForDelivery := by
  have hrun := exec_of_ok hr
  refine ⟨fun hop => hc ?_, fun hop => hc ?_, fun reason x hop hx hstatus => hc ?_⟩
  · rw [hop] at hrun
    obtain ⟨_, hrun, -⟩ := run_reply_ok.mp hrun
    obtain ⟨x, -, hact, hrole, hstatus, hopen, -⟩ := chooseSelfDelivery_ok hrun
    unfold World.Misleads
    rw [hop]
    exact ⟨rfl, hrole, hopen, ⟨x, hact, hstatus⟩, chooseSelfDelivery_profile hrun⟩
  · rw [hop] at hrun
    obtain ⟨_, hrun, -⟩ := run_reply_ok.mp hrun
    obtain ⟨x, hact, hstatus, -⟩ := completeOrder_ok hrun
    unfold World.Misleads
    rw [hop]
    exact ⟨rfl, completeOrder_customer hrun, x, hact, hstatus⟩
  · rw [hop] at hrun
    obtain ⟨_, hrun, -⟩ := run_reply_ok.mp hrun
    obtain ⟨y, hact, hadmin⟩ := cancelOrder_onItsWay hrun
    obtain rfl := Option.some.inj (hact.found.symm.trans hx)
    unfold World.Misleads
    rw [hop]
    exact ⟨rfl, hadmin hstatus, y, hact, hstatus⟩

/-- A move that sends no event keeps the rows of an order together. -/
theorem Move.matched {ps : PlatformSettings} {env : Env} {caller : User} {op : Op} {L L' : Life}
    {e : Option Event} (h : Move sha256 ps env caller o op L L') (hop : op.ofOrderService = true)
    (hevent : op ≠ .outForDelivery o ∧ op ≠ .markDelivered o)
    (hquiet : op ≠ .chooseSelfDelivery o ∧ op ≠ .completeOrder o)
    (hcancel : ∀ reason x, op = .cancelOrder o reason → L.order = some x →
      x.status ≠ .outForDelivery)
    (hpurge : ∀ x, op = .runPurgeJob → L.order = some x →
      awaitsAutoComplete (env.now 0 - hours ps.orderAutoCompleteGraceHours) x = false)
    (hnew : o = env.uuid4 0 → L.delivery = none ∧ e = none)
    (hL : ∀ x, L.order = some x → Matched L e x) : ∀ x, L'.order = some x → Matched L' e x := by
  obtain ⟨hout, hdelivered⟩ := hevent
  obtain ⟨hself, hcomplete⟩ := hquiet
  intro x' hx'
  cases h with
  | stay => exact hL x' hx'
  | create hid =>
    obtain ⟨hdelivery, rfl⟩ := hnew hid
    exact .before hdelivery rfl
  | accept hx _ hs => exact (hL _ hx).step_before (by simp [hs]) (by simp [hs]) rfl
  | prepare hx _ hs => exact (hL _ hx).step_before (by simp [hs]) (by simp [hs]) rfl
  | requestDriver hx => exact (hL _ hx').congr rfl
  | assignDriver hx => exact (hL _ hx').congr rfl
  | @cancel _ x reason hx _ hs =>
    have hdelivered : x.status ≠ .delivered := by
      intro heq
      rw [heq] at hs
      revert hs
      decide
    exact (hL _ hx).step_before (hcancel reason x rfl hx) hdelivered rfl
  | delete => cases hx'
  | purge => cases hx'
  | autoComplete hx hlive hs hdue =>
    obtain ⟨t, ht, hle⟩ := hdue
    have hawaits := hpurge _ rfl hx
    simp [awaitsAutoComplete, hs, hlive, ht, hle] at hawaits
  | chooseSelfDelivery => exact absurd rfl hself
  | complete => exact absurd rfl hcomplete
  | sendOutNew => exact absurd rfl hout
  | sendOut => exact absurd rfl hout
  | deliver => exact absurd rfl hdelivered
  | _ => cases hop

/-- A departure that is announced. -/
theorem Move.departs {ps : PlatformSettings} {env : Env} {caller : User} {L L' : Life} {x y : Order}
    {e : Option Event} (h : Move sha256 ps env caller o (.outForDelivery o) L L')
    (hx : L.order = some x) (hstatus : x.status = .preparing) (hy : L'.order = some y)
    (hway : y.status = .outForDelivery) (he : e.bind Event.status = some "out_for_delivery") :
    Matched L' e y := by
  cases h with
  | stay =>
    obtain rfl := Option.some.inj (hx.symm.trans hy)
    rw [hstatus] at hway
    cases hway
  | sendOutNew => exact .onItsWay _ rfl rfl hway he
  | sendOut => exact .onItsWay _ rfl rfl hway he

/-- A delivery that is announced. -/
theorem Move.arrives {ps : PlatformSettings} {env : Env} {caller : User} {L L' : Life} {x y : Order}
    {e : Option Event} (h : Move sha256 ps env caller o (.markDelivered o) L L')
    (hx : L.order = some x) (hstatus : x.status = .outForDelivery) (hy : L'.order = some y)
    (hdelivered : y.status = .delivered) (he : e.bind Event.status = some "delivered") :
    Matched L' e y := by
  cases h with
  | stay =>
    obtain rfl := Option.some.inj (hx.symm.trans hy)
    rw [hstatus] at hdelivered
    cases hdelivered
  | deliver => exact .delivered _ rfl rfl hdelivered he

end Requests

/-! ### Runs -/

/-- What holds between any two requests. -/
structure Watching (s : World × LastEvents) : Prop where
  ready : s.1.Ready
  silent : ∀ o, ¬s.1.Drawn o → s.2 o = none
  matched : ∀ o x, (s.1.db.life o).order = some x → Matched (s.1.db.life o) (s.2 o) x

section Runs

variable {sha256 : String → String} {s : World × LastEvents} {c : Call} {o : Id}

/-- The order that a request announces has an identifier that has been drawn. -/
theorem Watching.drawn (h : Watching s) {x : Order} (hx : s.1.db.orders.get o = some x) :
    s.1.Drawn o := by
  refine h.ready.drawn o fun hnone => ?_
  have hlife : (s.1.db.life o).order = some x := hx
  rw [hnone] at hlife
  cases hlife

/-- The rows of an order after a request that announces nothing of it. -/
theorem Watching.matched_quiet (h : Watching s) (hop : c.op.ofOrderService = true)
    (hc : ¬s.1.Misleads c o) (hevent : c.op ≠ .outForDelivery o ∧ c.op ≠ .markDelivered o) :
    ∀ x, ((s.1.serve sha256 c).db.life o).order = some x →
      Matched ((s.1.serve sha256 c).db.life o) (s.2 o) x := by
  cases hr : (s.1.respond sha256 c).1 with
  | error e =>
    rw [serve_of_error hr]
    exact h.matched o
  | ok r =>
    obtain ⟨hself, hcomplete, hcancel⟩ := not_ok_of_misleads hr hc
    refine (h.ready.moves sha256 c o).matched hop hevent ⟨hself, hcomplete⟩ hcancel ?_ ?_
      (h.matched o)
    · intro x hjob hx
      by_contra hawaits
      refine hc ?_
      unfold World.Misleads
      rw [hjob]
      exact ⟨x, hx, Bool.eq_true_of_not_eq_false hawaits⟩
    · intro hid
      have hnot : ¬s.1.Drawn o := fun hdrawn => hdrawn.ne_uuid4 hid
      have hlife : s.1.db.life o = {} := not_not.mp fun hne => hnot (h.ready.drawn o hne)
      rw [hlife]
      exact ⟨rfl, h.silent o hnot⟩

/-- A call that does not mislead keeps the watcher informed. -/
theorem Watching.tracked (h : Watching s) (hop : c.op.ofOrderService = true)
    (hc : ∀ o, ¬s.1.Misleads c o) : Watching (World.tracked sha256 s c) where
  ready := h.ready.serve c
  silent o ho := by
    have hbefore : ¬s.1.Drawn o := fun hdrawn => ho hdrawn.serve
    have hsame : noteEvent sha256 s.2 s.1 c o = s.2 o := by
      refine noteEvent_same fun e hsent => ?_
      obtain ⟨o', full, -, hcase⟩ := statusSent_some hsent
      have hdrawn : s.1.Drawn o' := by
        rcases hcase with ⟨-, -, hrun⟩ | ⟨-, -, hrun⟩
        · obtain ⟨-, ⟨x, hx, -⟩, -⟩ := outForDelivery_departs hrun
          exact h.drawn hx
        · obtain ⟨-, ⟨x, hx, -⟩, -⟩ := markDelivered_arrives hrun
          exact h.drawn hx
      rcases hcase with ⟨hop', -⟩ | ⟨hop', -⟩
      · refine ⟨fun heq => hbefore ?_, fun heq => by simp [hop'] at heq⟩
        obtain rfl := Op.outForDelivery.inj (hop'.symm.trans heq)
        exact hdrawn
      · refine ⟨fun heq => by simp [hop'] at heq, fun heq => hbefore ?_⟩
        obtain rfl := Op.markDelivered.inj (hop'.symm.trans heq)
        exact hdrawn
    exact hsame.trans (h.silent o hbefore)
  matched o := by
    change ∀ x, ((s.1.serve sha256 c).db.life o).order = some x →
      Matched ((s.1.serve sha256 c).db.life o) (noteEvent sha256 s.2 s.1 c o) x
    by_cases habout : c.op = .outForDelivery o ∨ c.op = .markDelivered o
    · cases hsent : s.1.statusSent sha256 c with
      | none =>
        obtain ⟨e, hr⟩ := error_of_silent hsent habout
        rw [noteEvent_same (by simp [hsent]), serve_of_error hr]
        exact h.matched o
      | some e =>
        obtain ⟨o', full, hid, hcase⟩ := statusSent_some hsent
        have hmove := h.ready.moves sha256 c o
        rcases hcase with ⟨hop', he, hrun⟩ | ⟨hop', he, hrun⟩
        · obtain rfl : o' = o := by simpa [hop'] using habout
          obtain ⟨-, ⟨x, hx, hstatus⟩, z, hz, hway⟩ := outForDelivery_departs hrun
          intro y hy
          obtain rfl := Option.some.inj (hz.symm.trans hy)
          rw [noteEvent_self hsent hid]
          rw [hop'] at hmove
          exact hmove.departs hx hstatus hz hway he
        · obtain rfl : o' = o := by simpa [hop'] using habout
          obtain ⟨-, ⟨x, hx, hstatus⟩, z, hz, hdelivered⟩ := markDelivered_arrives hrun
          intro y hy
          obtain rfl := Option.some.inj (hz.symm.trans hy)
          rw [noteEvent_self hsent hid]
          rw [hop'] at hmove
          exact hmove.arrives hx hstatus hz hdelivered he
    · rw [not_or] at habout
      rw [noteEvent_same fun _ _ => habout]
      exact h.matched_quiet hop (hc o) habout

/-- What tracking tells in a watched state. -/
theorem Watching.faithful (h : Watching s) (h' : Watching (World.tracked sha256 s c))
    (hop : c.op.ofOrderService = true) : TrackingFaithful sha256 s c where
  viewed o x user v db hx hv := (h'.matched o x hx).stage_view hx hv
  announced o x e hx he := by
    have hmatched := h'.matched o x hx
    rw [he] at hmatched
    exact hmatched.stage_event
  forward o user v v' db db' hv hv' := by
    obtain ⟨-, x, hx, -⟩ := getTrackView_ok hv
    obtain ⟨-, y, hy, -⟩ := getTrackView_ok hv'
    rw [(h.matched o x hx).stage_view hx hv, (h'.matched o y hy).stage_view hy hv']
    have hstep := (h.ready.moves sha256 c o).statusStep (by
      intro submitted _ _ hcode
      rw [hcode] at hop
      cases hop)
    have hx' : (s.1.db.life o).status = some x.status := congrArg (Option.map Order.status) hx
    have hy' : ((s.1.serve sha256 c).db.life o).status = some y.status :=
      congrArg (Option.map Order.status) hy
    rw [hx', hy'] at hstep
    generalize y.status = t at hstep
    cases hstep with
    | stay => exact le_refl _
    | edge he => exact progress_of_edge he
  cancelled o x user v db hx hstatus hv := by
    rw [(h'.matched o x hx).stage_view hx hv, hstatus]
    decide

/-- **Tracking is faithful.** In every run of operations of the order service in which nobody
chooses to deliver an order, completes it or cancels it on its way, the view and the last event
tell the stage of the order, and no stage is shown after a later one. -/
theorem tracking_faithful (sha256 : String → String) {w : World} (hw : w.Initial)
    {calls : List Call} (hops : ∀ c ∈ calls, c.op.ofOrderService = true)
    (hcalls : EachStep (World.serve sha256) (fun w c => ∀ o, ¬w.Misleads c o) w calls) :
    EachStep (World.tracked sha256) (TrackingFaithful sha256) (w, fun _ => none) calls := by
  have hstart : Watching (w, fun _ => none) := by
    refine ⟨hw.ready, fun _ _ => rfl, fun o x hx => ?_⟩
    rw [hw.noOrder o] at hx
    cases hx
  have hmisleads : EachStep (World.tracked sha256) (fun s c => ∀ o, ¬s.1.Misleads c o)
      (w, fun _ => none) calls :=
    (eachStep_withMemory (noteEvent sha256) (s := (w, fun _ => none))).mpr hcalls
  have hboth : EachStep (World.tracked sha256)
      (fun s c => c.op.ofOrderService = true ∧ ∀ o, ¬s.1.Misleads c o)
      (w, fun _ => none) calls := by
    rw [eachStep_iff] at hmisleads ⊢
    intro first c rest heq
    exact ⟨hops c (by simp [heq]), hmisleads first c rest heq⟩
  exact hboth.guarantee (I := Watching) (fun s c h hc => h.tracked hc.1 hc.2)
    (fun s c h hc => h.faithful (h.tracked hc.1 hc.2) hc.1) hstart

end Runs

namespace Sample

/-- The order is accepted, given to a driver, prepared, sent out and handed over. -/
def handedOver : List Call := sent.take 6 ++ [request driver (.markDelivered 0) 8]

/-- The seller chooses to deliver the accepted order. -/
def chosen : List Call :=
  [place, request seller (.acceptOrder 0) 2, request seller (.chooseSelfDelivery 0) 3]

/-- The sample order that its seller delivers. -/
def chosenDb : Db := (after (World.serve sha256) start chosen).db

end Sample

/-- A driver delivers the order. -/
theorem tracking_faithful_delivered :
    EachStep (World.tracked Sample.sha256) (TrackingFaithful Sample.sha256)
      (Sample.start, fun _ => none) Sample.handedOver :=
  tracking_faithful Sample.sha256 Sample.start_initial (by decide)
    ⟨fun _ h => h, fun _ h => h, fun _ h => h, fun _ h => h, fun _ h => h, fun _ h => h,
      fun _ h => h, trivial⟩

/-- Once the seller has chosen to deliver an accepted order, the customer sees it as pending. -/
theorem chosen_order_goes_back :
    Sample.start.Initial ∧ (∀ c ∈ Sample.chosen, c.op.ofOrderService = true) ∧
      ¬EachStep (World.tracked Sample.sha256) (TrackingFaithful Sample.sha256)
        (Sample.start, fun _ => none) Sample.chosen := by
  refine ⟨Sample.start_initial, by decide, fun h => ?_⟩
  obtain ⟨-, -, hlast, -⟩ := h
  have horder : ∃ x, Sample.chosenDb.orders.get 0 = some x ∧ x.status = .accepted := by
    decide +kernel
  have hdelivery : (Sample.chosenDb.deliveries.get 0).map Delivery.status = some .pending := by
    decide +kernel
  obtain ⟨x, hx, hstatus⟩ := horder
  obtain ⟨v, hv⟩ := run_of_session (p := getTrackView Sample.customer 0) (s := Sample.chosenDb)
    (by decide +kernel)
  have hstage := hlast.viewed 0 x Sample.customer v _ hx hv
  obtain ⟨d, hd, hpending⟩ := Option.map_eq_some_iff.mp hdelivery
  obtain ⟨-, y, -, hview⟩ := getTrackView_ok hv
  have hshown : v.status = "pending" := by
    rcases hview with rfl | ⟨e, he, rfl⟩
    · simp [TrackView.status, buildCustomerView, hd, hpending, DeliveryStatus.label]
    · obtain rfl := Option.some.inj (hd.symm.trans he)
      simp [TrackView.status, buildInternalView, hpending, DeliveryStatus.label]
  rw [hshown, hstatus] at hstage
  revert hstage
  decide

end Marketplace
