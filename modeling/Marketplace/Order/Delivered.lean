import Marketplace.Order.Requests
import Marketplace.Order.Response

/-!
# The two ways to be delivered

An order is delivered by `mark_delivered`, which stamps the order row and the delivery row,
or by `complete_delivery`, which stamps the order row alone. The rows therefore agree in
every run in which a right code only meets a delivery row that is stamped already, at the
same instant; and then no view of a delivered or completed order is in transit.
-/

namespace Marketplace

open Lib Txn OrderService DeliveryFlow DeliveryTracking

/-- The statuses of an order that has been delivered. -/
def deliveredStatuses : List OrderStatus := [.delivered, .completed]

/-- The delivery row says what the row of a delivered order says. -/
structure DeliveredLike (x : Order) (d : Delivery) : Prop where
  status : d.status = .delivered
  deliveredAt : ∃ t, x.deliveredAt = some t ∧ d.deliveredAt = some t
  duration : d.durationSeconds ≠ none

/-- The two rows of every delivered order agree, and what a caller reads of them is delivered. -/
structure Db.DeliveriesAgree (db : Db) : Prop where
  rows : ∀ o x, db.orders.get o = some x → x.status ∈ deliveredStatuses →
    ∃ d, db.deliveries.get o = some d ∧ DeliveredLike x d
  track : ∀ o x user v db', db.orders.get o = some x → x.status ∈ deliveredStatuses →
    (getTrackView user o).run db = .ok (v, db') → v.status = DeliveryStatus.delivered.label
  response : ∀ o f db', (loadOrderFull o).run db = .ok (some f, db') →
    f.order.status ∈ deliveredStatuses →
    (orderToResponse f).delivery.map DeliveryOut.status = some .delivered

/-- A right code meets a delivery row that is delivered at the instant the code stamps. -/
def World.CompletesDelivered (sha256 : String → String) (w : World) : ServiceRequest → Prop
  | .call c => ∀ o x code submitted, c.op = .completeDelivery o submitted →
      c.caller.role = .driver → w.db.orders.get o = some x → x.deletedAt = none →
      w.db.deliveryCodes.get o = some code → checkCode sha256 code submitted = .right →
      ∃ d, w.db.deliveries.get o = some d ∧ DeliveredLike (x.deliverByCode (c.now 0)) d
  | .report _ => True

/-! ### The rows of one order -/

/-- The rows of one order on its way and after it. -/
structure Life.Delivering (L : Life) : Prop where
  started : ∀ x, L.order = some x → x.status = .outForDelivery →
    ∃ d, L.delivery = some d ∧ d.startedAt ≠ none
  delivered : ∀ x, L.order = some x → x.status ∈ deliveredStatuses →
    ∃ d, L.delivery = some d ∧ DeliveredLike x d

/-- A change of a delivery row that keeps what the order's row agrees with. -/
structure Delivery.Keeps (d d' : Delivery) : Prop where
  status : d'.status = d.status
  startedAt : d'.startedAt = d.startedAt
  deliveredAt : d'.deliveredAt = d.deliveredAt
  duration : d.durationSeconds ≠ none → d'.durationSeconds ≠ none

namespace Delivery.Keeps

variable (d : Delivery)

/-- Giving a delivery to a driver keeps its stamps. -/
theorem giveTo (driver : Id) : d.Keeps (d.giveTo driver) := ⟨rfl, rfl, rfl, fun h => h⟩

/-- A position keeps the stamps of the delivery. -/
theorem moveTo (lat lng : Coordinate) : d.Keeps (d.moveTo lat lng) := ⟨rfl, rfl, rfl, fun h => h⟩

/-- A report keeps the stamps of the delivery. -/
theorem report (lat lng : Coordinate) (now : Time) (eta distance : Option ℤ) :
    d.Keeps (d.report lat lng now eta distance) := ⟨rfl, rfl, rfl, fun h => h⟩

/-- An administrator's patch keeps the stamps of the delivery. -/
theorem patch (driver : Option Id) (distance duration : Option ℤ) :
    d.Keeps ((driver.elim d fun i => d.giveTo i).patch distance duration) := by
  have hdriver : d.Keeps (driver.elim d fun i => d.giveTo i) := by
    cases driver with
    | none => exact ⟨rfl, rfl, rfl, fun h => h⟩
    | some driver => exact .giveTo d driver
  refine ⟨hdriver.status, hdriver.startedAt, hdriver.deliveredAt, fun hne => ?_⟩
  have hold := hdriver.duration hne
  cases duration with
  | none => exact hold
  | some n => simp [Delivery.patch]

end Delivery.Keeps

section Moves

variable {sha256 : String → String} {ps : PlatformSettings} {env : Env} {caller : User} {o : Id}
  {op : Op} {L L' : Life}

/-- A change of the delivery row that keeps its part of the agreement. -/
theorem Life.Delivering.redeliver (h : L.Delivering) {d d' : Delivery} (hd : L.delivery = some d)
    (hkeeps : d.Keeps d') : Life.Delivering { L with delivery := some d' } where
  started x hx hs := by
    obtain ⟨e, he, hstarted⟩ := h.started x hx hs
    obtain rfl := Option.some.inj (hd.symm.trans he)
    exact ⟨d', rfl, hkeeps.startedAt ▸ hstarted⟩
  delivered x hx hs := by
    obtain ⟨e, he, hlike⟩ := h.delivered x hx hs
    obtain rfl := Option.some.inj (hd.symm.trans he)
    exact ⟨d', rfl, hkeeps.status ▸ hlike.status, hkeeps.deliveredAt ▸ hlike.deliveredAt,
      hkeeps.duration hlike.duration⟩

/-- An order that is neither on its way nor delivered asks nothing of its delivery row. -/
theorem Life.delivering_of_status {x : Order} (hx : L.order = some x)
    (hs : x.status ∉ OrderStatus.outForDelivery :: deliveredStatuses) : L.Delivering where
  started y hy hy' := by
    obtain rfl := Option.some.inj (hx.symm.trans hy)
    exact absurd (hy' ▸ List.mem_cons_self) hs
  delivered y hy hy' := by
    obtain rfl := Option.some.inj (hx.symm.trans hy)
    exact absurd (List.mem_cons_of_mem _ hy') hs

/-- Without an order nothing is owed of the delivery. -/
theorem Life.delivering_of_none (hnone : L.order = none) : L.Delivering where
  started x hx := by simp [hnone] at hx
  delivered x hx := by simp [hnone] at hx

/-- The completion of a delivered order. -/
theorem Life.Delivering.complete (h : L.Delivering) {x : Order} {s : OrderAnalyticsSnapshot}
    {now : Time} (hx : L.order = some x) (hs : x.status = .delivered) :
    (Life.record { L with order := some (x.complete now) } s).Delivering where
  started y hy hy' := by
    obtain rfl := Option.some.inj hy
    cases hy'
  delivered y hy _ := by
    obtain rfl := Option.some.inj hy
    obtain ⟨d, hd, hlike⟩ := h.delivered x hx (hs ▸ by decide)
    exact ⟨d, hd, hlike.status, hlike.deliveredAt, hlike.duration⟩

/-- A delivery that has started has a duration when it is delivered. -/
theorem stampDuration_ne_none {now : Time} {d : Delivery} (h : d.startedAt ≠ none) :
    stampDuration now d ≠ none := by
  obtain ⟨started, hstarted⟩ := Option.ne_none_iff_exists'.mp h
  unfold stampDuration
  rw [hstarted]
  cases d.durationSeconds with
  | none => simp
  | some n => simp

/-- The right code leaves rows that agree exactly when the delivery row was stamped before. -/
theorem agrees_after_code {x : Order} {now : Time} :
    (∀ y, some (x.deliverByCode now) = some y → y.status ∈ deliveredStatuses →
      ∃ d, L.delivery = some d ∧ DeliveredLike y d) ↔
      ∃ d, L.delivery = some d ∧ DeliveredLike (x.deliverByCode now) d := by
  constructor
  · intro h
    exact h _ rfl List.mem_cons_self
  · rintro h y hy -
    obtain rfl := Option.some.inj hy
    exact h

/-- Every move keeps the two rows in agreement, if the right code meets a stamped delivery. -/
theorem Move.delivering (h : Move sha256 ps env caller o op L L')
    (hcode : ∀ x code submitted, op = .completeDelivery o submitted → caller.role = .driver →
      L.order = some x → x.deletedAt = none → L.code = some code →
      checkCode sha256 code submitted = .right →
      ∃ d, L.delivery = some d ∧ DeliveredLike (x.deliverByCode (env.now 0)) d)
    (hL : L.Delivering) : L'.Delivering := by
  cases h with
  | stay => exact hL
  | create => exact Life.delivering_of_status rfl (by simp [newOrder, deliveredStatuses])
  | accept => exact Life.delivering_of_status rfl (by simp [Order.accept, deliveredStatuses])
  | prepare => exact Life.delivering_of_status rfl (by simp [Order.prepare, deliveredStatuses])
  | cancel => exact Life.delivering_of_status rfl (by simp [Order.cancel, deliveredStatuses])
  | chooseSelfDelivery hx _ hs =>
    refine Life.delivering_of_status hx ?_
    rcases hs with hs | hs
    · simp [hs, deliveredStatuses]
    · simp [hs, deliveredStatuses]
  | requestDriver => exact ⟨hL.started, hL.delivered⟩
  | assignDriver => exact ⟨hL.started, hL.delivered⟩
  | sendOutNew =>
    refine ⟨fun y hy _ => ⟨_, rfl, by simp⟩, fun y hy hs => ?_⟩
    obtain rfl := Option.some.inj hy
    exact absurd hs (by simp [Order.sendOut, deliveredStatuses])
  | sendOut =>
    refine ⟨fun y hy _ => ⟨_, rfl, by simp [Delivery.start]⟩, fun y hy hs => ?_⟩
    obtain rfl := Option.some.inj hy
    exact absurd hs (by simp [Order.sendOut, deliveredStatuses])
  | @deliver _ x d hx _ hs hd =>
    obtain ⟨e, he, hstarted⟩ := hL.started x hx hs
    obtain rfl := Option.some.inj (hd.symm.trans he)
    refine ⟨fun y hy hy' => ?_, fun y hy _ => ?_⟩
    · obtain rfl := Option.some.inj hy
      cases hy'
    · obtain rfl := Option.some.inj hy
      exact ⟨_, rfl, rfl, ⟨_, rfl, rfl⟩, stampDuration_ne_none hstarted⟩
  | complete hx _ hs => exact hL.complete hx hs
  | autoComplete hx _ hs => exact hL.complete hx hs
  | delete => exact Life.delivering_of_none rfl
  | purge => exact Life.delivering_of_none rfl
  | @driverAccept _ x hx =>
    -- the row of an order on its way or after it is there, and only changes hands
    have hgiven : ∀ {d}, L.delivery = some d →
        (takenDelivery env caller x L.delivery) = d.giveTo caller.id := by
      intro d hd
      rw [hd]
      rfl
    refine ⟨fun y hy hs => ?_, fun y hy hs => ?_⟩
    · obtain rfl := Option.some.inj hy
      obtain ⟨d, hd, hstarted⟩ := hL.started x hx hs
      exact ⟨_, rfl, by rw [hgiven hd]; exact hstarted⟩
    · obtain rfl := Option.some.inj hy
      obtain ⟨d, hd, hlike⟩ := hL.delivered x hx hs
      refine ⟨_, rfl, ?_⟩
      rw [hgiven hd]
      exact ⟨hlike.status, hlike.deliveredAt, hlike.duration⟩
  | recordLocation =>
    cases hd : L.delivery with
    | none =>
      refine ⟨fun x hx hs => ?_, fun x hx hs => ?_⟩
      · obtain ⟨d, he, -⟩ := hL.started x hx hs
        simp [hd] at he
      · obtain ⟨d, he, -⟩ := hL.delivered x hx hs
        simp [hd] at he
    | some d => exact hL.redeliver hd (.moveTo d _ _)
  | @completeDelivery _ x code submitted hx hlive hrole hc hright =>
    refine ⟨fun y hy hs => ?_, ?_⟩
    · obtain rfl := Option.some.inj hy
      cases hs
    · exact agrees_after_code.mpr (hcode x code submitted rfl hrole hx hlive hc hright)
  | patchDelivery _ _ hd => exact hL.redeliver hd (.patch _ _ _ _)

/-- A report keeps the delivery in agreement. -/
theorem Reported.delivering {r : Report} (h : Reported r o L L') (hL : L.Delivering) :
    L'.Delivering := by
  cases h with
  | stay => exact hL
  | report _ _ _ _ hd => exact hL.redeliver hd (.report _ _ _ _ _ _)

end Moves

/-! ### Runs -/

section Runs

variable {sha256 : String → String} {w : World} {q : ServiceRequest} {db : Db}

/-- What agrees in the rows agrees in everything that is read from them. -/
theorem Db.deliveriesAgree (h : ∀ o, (db.life o).Delivering) : db.DeliveriesAgree where
  rows o x hx hs := (h o).delivered x hx hs
  track o x user v db' hx hs hv := by
    obtain ⟨d, hd, hlike⟩ := (h o).delivered x hx hs
    obtain ⟨-, y, hy, hview⟩ := getTrackView_ok hv
    have hget : db.deliveries.get o = some d := hd
    rw [hget] at hview
    rcases hview with rfl | ⟨e, he, rfl⟩
    · simp [TrackView.status, buildCustomerView, hlike.status]
    · obtain rfl := Option.some.inj he
      simp [TrackView.status, buildInternalView, hlike.status]
  response o f db' hf hs := by
    simp only [loadOrderFull, bind_eq, run_bind_ok, run_read_ok, pure_eq, run_ret_ok] at hf
    obtain ⟨_, _, ⟨rfl, rfl⟩, hf, rfl⟩ := hf
    obtain ⟨x, hx, rfl⟩ := Option.map_eq_some_iff.mp hf
    obtain ⟨d, hd, hlike⟩ := (h o).delivered x hx hs
    have hget : db.deliveries.get o = some d := hd
    simp [orderToResponse, hget, hlike.status]

/-- The delivery of a delivered order is delivered. -/
theorem Db.DeliveriesAgree.status_of_delivered (h : db.DeliveriesAgree) {o : Id}
    (hs : (db.orders.get o).map Order.status = some .delivered) :
    (db.deliveries.get o).map Delivery.status = some .delivered := by
  obtain ⟨x, hx, hstatus⟩ := Option.map_eq_some_iff.mp hs
  obtain ⟨d, hd, hlike⟩ := h.rows o x hx (hstatus ▸ List.mem_cons_self)
  rw [hd, Option.map_some, hlike.status]

/-- What holds between any two requests. -/
structure World.Delivering (w : World) : Prop where
  ready : w.Ready
  rows : ∀ o, (w.db.life o).Delivering

/-- A request that completes delivered orders only keeps the deliveries in agreement. -/
theorem World.Delivering.handle (h : w.Delivering) (hq : w.CompletesDelivered sha256 q) :
    (w.handle sha256 q).Delivering where
  ready := h.ready.handle q
  rows o := by
    cases q with
    | call c =>
      exact (h.ready.moves sha256 c o).delivering
        (fun x code submitted hop hrole hx hlive hc hright =>
          hq o x code submitted hop hrole hx hlive hc hright) (h.rows o)
    | report r => exact (answer_reported w r o).delivering (h.rows o)

/-- **The two delivery paths.** In every run in which a right code only meets a delivery row that
is stamped at the same instant, the rows of every delivered order agree after every request, and
neither the tracking view nor the order response of it is in transit. -/
theorem deliveries_agree (sha256 : String → String) (hw : w.Initial)
    {requests : List ServiceRequest}
    (hrequests : EachStep (World.handle sha256) (World.CompletesDelivered sha256) w requests) :
    EachStep (World.handle sha256) (fun w q => (w.handle sha256 q).db.DeliveriesAgree) w
      requests := by
  have hstart : w.Delivering :=
    ⟨hw.ready, fun o => Life.delivering_of_none (by rw [hw.noOrder o])⟩
  exact hrequests.guarantee (I := World.Delivering) (fun w q h hq => h.handle hq)
    (fun w q h hq => Db.deliveriesAgree (h.handle hq).rows) hstart

end Runs

namespace Sample

/-- Calls as requests. -/
def calls (cs : List Call) : List ServiceRequest := cs.map .call

end Sample

/-- The driver marks the order as delivered, and its customer completes it. -/
theorem deliveries_agree_marked :
    EachStep (World.handle Sample.sha256)
      (fun w q => (w.handle Sample.sha256 q).db.DeliveriesAgree) Sample.start
      (Sample.calls (Sample.sent ++ [Sample.request Sample.driver (.markDelivered 0) 8,
        Sample.request Sample.customer (.completeOrder 0) 9])) := by
  refine deliveries_agree Sample.sha256 Sample.start_initial ?_
  rw [eachStep_iff]
  intro first q rest heq
  have hq : q ∈ Sample.calls (Sample.sent ++ [Sample.request Sample.driver (.markDelivered 0) 8,
      Sample.request Sample.customer (.completeOrder 0) 9]) := by simp [heq]
  simp only [Sample.calls, Sample.sent, Sample.place, Sample.request, List.cons_append,
    List.nil_append, List.map_cons, List.map_nil, List.mem_cons, List.not_mem_nil, or_false] at hq
  rcases hq with rfl | rfl | rfl | rfl | rfl | rfl | rfl | rfl | rfl
  all_goals exact fun o x code submitted hop => by cases hop

/-- The driver completes the order with the customer's code: its delivery is still in transit. -/
theorem code_leaves_transit :
    Sample.start.Initial ∧
      ¬EachStep (World.handle Sample.sha256)
        (fun w q => (w.handle Sample.sha256 q).db.DeliveriesAgree) Sample.start
        (Sample.calls (Sample.sent ++
          [Sample.request Sample.driver (.completeDelivery 0 "000000") 8])) := by
  refine ⟨Sample.start_initial, fun h => ?_⟩
  obtain ⟨-, -, -, -, -, -, -, hlast, -⟩ := h
  have hstatus := hlast.status_of_delivered (o := 0) (by decide +kernel)
  revert hstatus
  decide +kernel

end Marketplace
