import Marketplace.Order.Response
import Marketplace.Order.Runs

/-!
# Masking

`GET /orders` hides a delivered order from its customer for half an hour and masks it from
then on, and it strips the orders of a seller after a week. This file compares the other
endpoints of the orders router with the list, and two lists over databases that differ in
what the list masks.
-/

namespace Marketplace

open Lib Txn OrderService OrdersRouter

/-! ### What the list does with an order -/

/-- The list leaves the order out. -/
def HiddenFrom (now : Time) (caller : User) (o : Order) : Prop :=
  caller.role = .customer ∧ isCustomerHidden now o = true

/-- The list shows the order without its details. -/
def MaskedFor (now : Time) (caller : User) (o : Order) : Prop :=
  (caller.role = .customer ∧ isCustomerMasked now o = true) ∨
    (caller.role = .seller ∧ isSellerStripped now o = true)

/-- The list renders the order as every other endpoint does. -/
def PlainFor (now : Time) (caller : User) (o : Order) : Prop :=
  ¬HiddenFrom now caller o ∧ ¬MaskedFor now caller o

instance (now : Time) (caller : User) (o : Order) : Decidable (HiddenFrom now caller o) :=
  inferInstanceAs (Decidable (_ ∧ _))

instance (now : Time) (caller : User) (o : Order) : Decidable (MaskedFor now caller o) :=
  inferInstanceAs (Decidable (_ ∨ _))

instance (now : Time) (caller : User) (o : Order) : Decidable (PlainFor now caller o) :=
  inferInstanceAs (Decidable (_ ∧ _))

/-- A response without any of the fields that the masks leave out. -/
structure OrderResponse.Masked (r : OrderResponse) : Prop where
  status : r.status = "hidden"
  subtotalMinor : r.subtotalMinor = r.totalMinor
  deliveryAddress : r.deliveryAddress = none
  acceptedAt : r.acceptedAt = none
  preparingAt : r.preparingAt = none
  outForDeliveryAt : r.outForDeliveryAt = none
  deliveredAt : r.deliveredAt = none
  completedAt : r.completedAt = none
  cancelledAt : r.cancelledAt = none
  cancellationReason : r.cancellationReason = none
  items : r.items = []
  delivery : r.delivery = none
  driverAssignment : r.driverAssignment = none

/-- The response reveals to the caller nothing of the order that the list would hide or mask. -/
structure RevealsNoMore (now : Time) (caller : User) (o : Order) (r : OrderResponse) : Prop where
  hidden : ¬HiddenFrom now caller o
  masked : MaskedFor now caller o → r.Masked

section Render

variable {now : Time} {caller : User} {f : OrderFull} {r : OrderResponse}

/-- The masked answer is masked. -/
theorem masked_maskOrderResponse (o : Order) : (maskOrderResponse o).Masked :=
  ⟨rfl, rfl, rfl, rfl, rfl, rfl, rfl, rfl, rfl, rfl, rfl, rfl, rfl⟩

/-- No status is called hidden. -/
theorem label_ne_hidden (s : OrderStatus) : s.label ≠ "hidden" := by
  cases s <;> decide

/-- The plain answer is not masked. -/
theorem not_masked_render (f : OrderFull) : ¬(render f).Masked :=
  fun h => label_ne_hidden f.order.status h.status

/-- A full rendering is right exactly when the list renders the order in full. -/
theorem revealsNoMore_render :
    RevealsNoMore now caller f.order (render f) ↔ PlainFor now caller f.order :=
  ⟨fun h => ⟨h.hidden, fun hmask => not_masked_render f (h.masked hmask)⟩,
    fun h => ⟨h.1, fun hmask => absurd hmask h.2⟩⟩

/-- An order of a list is masked or plain, unless it is hidden. -/
theorem renderListed_cases (h : renderListed now caller f = some r) :
    ¬HiddenFrom now caller f.order ∧
      ((MaskedFor now caller f.order ∧ r = maskOrderResponse f.order) ∨
        (¬MaskedFor now caller f.order ∧ r = render f)) := by
  unfold renderListed at h
  split at h
  · cases h
  · next hhidden =>
    refine ⟨hhidden, ?_⟩
    split at h
    · next hmask => exact .inl ⟨.inl hmask, (Option.some.inj h).symm⟩
    · next hcustomer =>
      split at h
      · next hmask => exact .inl ⟨.inr hmask, (Option.some.inj h).symm⟩
      · next hseller =>
        refine .inr ⟨fun hmask => ?_, (Option.some.inj h).symm⟩
        exact hmask.elim hcustomer hseller

/-- The list itself reveals no more than the list. -/
theorem revealsNoMore_renderListed (h : renderListed now caller f = some r) :
    RevealsNoMore now caller f.order r := by
  obtain ⟨hhidden, ⟨-, rfl⟩ | ⟨hmask, rfl⟩⟩ := renderListed_cases h
  · exact ⟨hhidden, fun _ => masked_maskOrderResponse f.order⟩
  · exact ⟨hhidden, fun h => absurd h hmask⟩

/-- It keeps its identifier. -/
theorem renderListed_id (h : renderListed now caller f = some r) : r.id = f.order.id := by
  obtain ⟨-, ⟨-, rfl⟩ | ⟨-, rfl⟩⟩ := renderListed_cases h
  · rfl
  · rfl

end Render

/-! ### The other endpoints -/

/-- The order a transition returns is the order as the database has it. -/
def Loaded (orderId : Id) (f : OrderFull) (db : Db) : Prop :=
  ∃ x, db.orders.get orderId = some x ∧ f = full db x

section Endpoints

variable {env : Env} {caller : User} {orderId : Id} {α : Type}

/-- The answer about an order is the order as it is. -/
theorem ensures_loaded : (loaded orderId).Ensures (Loaded orderId) := by
  intro db f db' h
  obtain ⟨⟨x, hx, rfl⟩, rfl⟩ := run_loaded_ok.mp h
  exact ⟨x, hx, rfl⟩

/-- What follows the lookup of an order has an order with that identifier. -/
theorem ensures_lockOrder {Q : α → Db → Prop} {k : Order → Tx α}
    (h : ∀ order, order.id = orderId → (k order).Ensures Q) :
    (lockOrderOr404 orderId caller >>= k).Ensures Q := by
  intro db a db' hrun
  obtain ⟨order, t, hlock, hk⟩ := run_bind_ok.mp hrun
  obtain ⟨hact, rfl⟩ := run_lockOrderOr404_ok.mp hlock
  exact h order hact.id_eq _ _ _ hk

/-- `create_order` answers with the new order. -/
theorem createOrder_loaded (items : List LineItem) (address : Address) :
    (createOrder env caller items address).Ensures (Loaded (env.uuid4 0)) :=
  .bind fun _ => .bind fun _ => .bind fun _ => .bind fun _ => .bind fun _ => .bind fun _ =>
    .bind fun _ => .bind fun _ => .bind fun _ => .bind fun _ => .bind fun _ => .bind fun _ =>
    .bind fun _ => ensures_loaded

/-- `accept_order` answers with the order. -/
theorem acceptOrder_loaded : (acceptOrder env caller orderId).Ensures (Loaded orderId) :=
  .bind fun _ => ensures_lockOrder fun _ hid => .bind fun _ => .bind fun _ =>
    hid ▸ ensures_loaded

/-- `mark_preparing` answers with the order. -/
theorem markPreparing_loaded : (markPreparing env caller orderId).Ensures (Loaded orderId) :=
  .bind fun _ => ensures_lockOrder fun _ hid => .bind fun _ => .bind fun _ =>
    hid ▸ ensures_loaded

/-- `choose_self_delivery` answers with the order. -/
theorem chooseSelfDelivery_loaded :
    (chooseSelfDelivery env caller orderId).Ensures (Loaded orderId) :=
  .bind fun _ => ensures_lockOrder fun _ hid => .bind fun _ => .bind fun _ => .bind fun _ =>
    .bind fun _ => hid ▸ ensures_loaded

/-- `request_driver` answers with the order. -/
theorem requestDriver_loaded : (requestDriver env caller orderId).Ensures (Loaded orderId) :=
  .bind fun _ => ensures_lockOrder fun _ hid => .bind fun _ => .bind fun _ => .bind fun _ =>
    .bind fun _ => hid ▸ ensures_loaded

/-- `out_for_delivery` answers with the order. -/
theorem outForDelivery_loaded : (outForDelivery env caller orderId).Ensures (Loaded orderId) :=
  .bind fun _ => ensures_lockOrder fun _ hid => .bind fun _ => .bind fun _ => .bind fun _ =>
    .bind fun _ => .bind fun _ => hid ▸ ensures_loaded

/-- `mark_delivered` answers with the order. -/
theorem markDelivered_loaded : (markDelivered env caller orderId).Ensures (Loaded orderId) :=
  .bind fun _ => ensures_lockOrder fun _ hid => .bind fun _ => .bind fun _ => .bind fun _ =>
    .bind fun _ => .bind fun _ => .bind fun _ => .bind fun _ => .bind fun _ => hid ▸ ensures_loaded

/-- `complete_order` answers with the order. -/
theorem completeOrder_loaded : (completeOrder env caller orderId).Ensures (Loaded orderId) :=
  .bind fun _ => ensures_lockOrder fun _ hid => .bind fun _ => .bind fun _ => .bind fun _ =>
    hid ▸ ensures_loaded

/-- `cancel_order` answers with the order. -/
theorem cancelOrder_loaded (reason : Option String) :
    (cancelOrder env caller orderId reason).Ensures (Loaded orderId) :=
  ensures_lockOrder fun _ hid => .bind fun _ => .bind fun _ => .bind fun _ => .bind fun _ =>
    .bind fun _ => .bind fun _ => hid ▸ ensures_loaded

/-- The order with what belongs to it, if it is there. -/
theorem run_loadOrderFull_ok {db db' : Db} {f : Option OrderFull} :
    (loadOrderFull orderId).run db = .ok (f, db') ↔
      (db.orders.get orderId).map (full db) = f ∧ db = db' := by
  simp only [loadOrderFull, bind_eq, run_bind_ok, run_read_ok, pure_eq, run_ret_ok]
  cases h : db.orders.get orderId with
  | none => simp [h]
  | some x => simp [h, full, Table.key_of_get h]

/-- The check of the viewer writes nothing. -/
theorem ensureCanView_ok {f : OrderFull} {db db' : Db} {u : Unit}
    (h : (ensureCanView f caller).run db = .ok (u, db')) : db = db' := by
  unfold ensureCanView at h
  cases hrole : caller.role with
  | admin => simp_all
  | seller => simp_all
  | customer => simp_all
  | driver =>
    rw [hrole] at h
    exact (run_raiseIf_ok.mp h).2

/-- `get_order_for_caller` answers with the order and writes nothing. -/
theorem getOrderForCaller_ok {db db' : Db} {f : OrderFull}
    (h : (getOrderForCaller caller orderId).run db = .ok (f, db')) :
    db' = db ∧ Loaded orderId f db := by
  simp only [getOrderForCaller, bind_eq, run_bind_ok, run_loadOrderFull_ok, run_getOrRaise_ok,
    run_raiseIf_ok, pure_eq, run_ret_ok] at h
  obtain ⟨_, _, ⟨hload, rfl⟩, g, _, ⟨rfl, rfl⟩, _, _, ⟨-, rfl⟩, _, _, hview, rfl, rfl⟩ := h
  obtain ⟨x, hx, rfl⟩ := Option.map_eq_some_iff.mp hload
  obtain rfl := ensureCanView_ok hview
  exact ⟨rfl, x, hx, rfl⟩

/-- The windows of an order depend on four of its columns, two of them only for a customer. -/
theorem plainFor_congr {now : Time} {x y : Order} (hplaced : x.placedAt = y.placedAt)
    (huntil : x.sellerFullVisibleUntil = y.sellerFullVisibleUntil)
    (hdelivered : caller.role = .customer →
      x.deliveredAt = y.deliveredAt ∧ x.customerVisibleAfter = y.customerVisibleAfter) :
    PlainFor now caller x ↔ PlainFor now caller y := by
  have hstripped : isSellerStripped now x = isSellerStripped now y := by
    rw [isSellerStripped, isSellerStripped, hplaced, huntil]
  by_cases hrole : caller.role = .customer
  · obtain ⟨hat, hafter⟩ := hdelivered hrole
    have huntil' : hiddenUntil x = hiddenUntil y := by
      funext deliveredAt
      rw [hiddenUntil, hiddenUntil, hafter]
    have hhidden : isCustomerHidden now x = isCustomerHidden now y := by
      rw [isCustomerHidden, isCustomerHidden, hat, huntil']
    have hmasked : isCustomerMasked now x = isCustomerMasked now y := by
      rw [isCustomerMasked, isCustomerMasked, hat, huntil']
    rw [PlainFor, PlainFor, HiddenFrom, HiddenFrom, MaskedFor, MaskedFor, hhidden, hmasked,
      hstripped]
  · simp [PlainFor, HiddenFrom, MaskedFor, hstripped, hrole]

/-- No move but a delivery changes how the list treats the order. -/
theorem Move.plainFor_iff {sha256 : String → String} {ps : PlatformSettings} {op : Op} {o : Id}
    {L L' : Life} {x y : Order} {now : Time} (h : Move sha256 ps env caller o op L L')
    (hop : caller.role = .customer → op ≠ .markDelivered o) (hy : L.order = some y)
    (hx : L'.order = some x) : PlainFor now caller x ↔ PlainFor now caller y := by
  cases h with
  | stay =>
    obtain rfl := Option.some.inj (hy.symm.trans hx)
    exact Iff.rfl
  | create _ hnone => exact absurd (hnone.symm.trans hy) (by simp)
  | delete hz =>
    simp only [Life.bury] at hx
    cases hx
  | purge hz =>
    simp only [Life.bury] at hx
    cases hx
  | deliver hz =>
    obtain rfl := Option.some.inj (hz.symm.trans hy)
    obtain rfl := Option.some.inj hx
    exact plainFor_congr rfl rfl fun hrole => absurd rfl (hop hrole)
  | completeDelivery hz _ hrole =>
    obtain rfl := Option.some.inj (hz.symm.trans hy)
    obtain rfl := Option.some.inj hx
    exact plainFor_congr rfl rfl fun hcustomer => absurd (hrole.symm.trans hcustomer) (by decide)
  | chooseSelfDelivery hz | requestDriver hz | assignDriver hz | recordLocation hz
  | patchDelivery hz =>
    obtain rfl := Option.some.inj (hy.symm.trans hx)
    exact Iff.rfl
  | accept hz | prepare hz | sendOutNew hz | sendOut hz | complete hz | cancel hz
  | autoComplete hz | driverAccept hz =>
    obtain rfl := Option.some.inj (hz.symm.trans hy)
    obtain rfl := Option.some.inj hx
    exact plainFor_congr rfl rfl fun _ => ⟨rfl, rfl⟩

/-- An order that no move has created was there before. -/
theorem Move.found {sha256 : String → String} {ps : PlatformSettings} {op : Op} {o : Id}
    {L L' : Life} {x : Order} (h : Move sha256 ps env caller o op L L')
    (hop : ∀ items address, op ≠ .createOrder items address) (hx : L'.order = some x) :
    ∃ y, L.order = some y := by
  cases h with
  | stay => exact ⟨x, hx⟩
  | create => exact absurd rfl (hop _ _)
  | accept hy | prepare hy | chooseSelfDelivery hy | requestDriver hy | assignDriver hy
  | sendOutNew hy | sendOut hy | deliver hy | complete hy | cancel hy | delete hy
  | autoComplete hy | purge hy | driverAccept hy | recordLocation hy | completeDelivery hy
  | patchDelivery hy => exact ⟨_, hy⟩

/-- The rendered result of an endpoint that returns one order. -/
theorem rendered_ok {p : Tx OrderFull} {db db' : Db} {rs : List OrderResponse} {o : Id}
    (hp : p.Ensures (Loaded o)) (h : (OrdersRequest.rendered p).run db = .ok (rs, db')) :
    ∃ x, p.run db = .ok (full db' x, db') ∧ db'.orders.get o = some x ∧
      rs = [render (full db' x)] := by
  obtain ⟨f, t, hf, hret⟩ := run_bind_ok.mp h
  obtain ⟨rfl, rfl⟩ := run_ret_ok.mp hret
  obtain ⟨x, hx, rfl⟩ := hp _ _ _ hf
  exact ⟨x, hf, hx, rfl⟩

/-- A transition renders the order as its row stands, whose windows are those of the row before. -/
theorem revealsNoMore_transition (op : Op) {p : Tx OrderFull} {db db' : Db}
    {rs : List OrderResponse} {r : OrderResponse} {o : Id} {now : Time} (hp : p.Ensures (Loaded o))
    (hop : op.exec id env caller = p.bind fun f => ret (.order f)) (hpurge : op ≠ .runPurgeJob)
    (hcreate : ∀ items address, op ≠ .createOrder items address)
    (hrole : caller.role = .customer → op ≠ .markDelivered o)
    (h : (OrdersRequest.rendered p).run db = .ok (rs, db')) (hr : r ∈ rs) :
    ∃ x, db'.orders.get r.id = some x ∧ (RevealsNoMore now caller x r ↔
      ∀ y, db.orders.get o = some y → PlainFor now caller y) := by
  obtain ⟨x, hrun, hx, rfl⟩ := rendered_ok hp h
  obtain rfl := List.mem_singleton.mp hr
  have hid : x.id = o := Table.key_of_get hx
  subst hid
  refine ⟨x, hx, (revealsNoMore_render (f := full db' x)).trans ?_⟩
  change PlainFor now caller x ↔ _
  have hmove : Move id (db.settingsInForce env) env caller x.id op (db.life x.id)
      (db'.life x.id) := by
    have hexec : (op.exec id env caller).run db = .ok (.order (full db' x), db') := by
      rw [hop]
      exact run_reply_ok.mpr ⟨_, hrun, rfl⟩
    exact move_of_ok hexec hpurge
  obtain ⟨y, hy⟩ := hmove.found hcreate hx
  rw [hmove.plainFor_iff hrole hy hx]
  constructor
  · intro hplain z hz
    obtain rfl := Option.some.inj (hz.symm.trans hy)
    exact hplain
  · exact fun hall => hall y hy

/-- An order just placed is shown in full to its customer. -/
theorem plainFor_created {db db' : Db} {items : List LineItem} {address : Address} {x : Order}
    {now : Time} (h : (createOrder env caller items address).run db = .ok (full db' x, db'))
    (hx : db'.orders.get (env.uuid4 0) = some x) : PlainFor now caller x := by
  have hmove : Move id (db.settingsInForce env) env caller (env.uuid4 0)
      (.createOrder items address) (db.life (env.uuid4 0)) (db'.life (env.uuid4 0)) :=
    createOrder_moves h
  obtain ⟨lines, seller, store, hrole, -, -, -, -, hfresh, -, -⟩ := createOrder_ok h
  have hnone : (db.life (env.uuid4 0)).order = none := by
    have hlife : (takeStock db lines).life (env.uuid4 0) = db.life (env.uuid4 0) := life_takeStock
    rw [← hlife]
    exact hfresh
  have hnew : (db'.life (env.uuid4 0)).order = some x := hx
  generalize db.life (env.uuid4 0) = L at hmove hnone
  generalize db'.life (env.uuid4 0) = L' at hmove hnew
  cases hmove with
  | stay => exact absurd (hnone.symm.trans hnew) (by simp)
  | create =>
    obtain rfl := Option.some.inj hnew
    refine ⟨fun hhidden => ?_, fun hmasked => ?_⟩
    · exact absurd hhidden.2 (by simp [isCustomerHidden, newOrder])
    · rcases hmasked with ⟨-, hm⟩ | ⟨hseller, -⟩
      · exact absurd hm (by simp [isCustomerMasked, newOrder])
      · exact absurd (hrole.symm.trans hseller) (by decide)

/-- The filter is read without a write. -/
theorem statusFilter_ok {db db' : Db} {status : Option String} {filter : Option OrderStatus}
    (h : (statusFilter status).run db = .ok (filter, db')) : db = db' := by
  cases status with
  | none => exact (run_ret_ok.mp h).2
  | some label =>
    simp only [statusFilter, bind_eq, run_bind_ok, run_getOrRaise_ok, pure_eq, run_ret_ok] at h
    obtain ⟨_, _, ⟨-, rfl⟩, -, rfl⟩ := h
    rfl

/-- A listed order is in the table. -/
theorem mem_selectOrders {db : Db} {status : Option OrderStatus} {limit : ℤ} {x : Order}
    (h : x ∈ selectOrders db caller status limit) : x ∈ db.orders.rows :=
  (List.mem_filter.mp ((List.mergeSort_perm _ _).mem_iff.mp (List.mem_of_mem_take h))).1

/-- An entry of the list is an order of the database, shown as the list shows it. -/
theorem listOrders_mem {db db' : Db} {rs : List OrderResponse} {r : OrderResponse} {now : Time}
    {status : Option String} {limit : ℤ}
    (h : (listOrders now caller status limit).run db = .ok (rs, db')) (hr : r ∈ rs) :
    db' = db ∧ ∃ x, db.orders.get r.id = some x ∧ renderListed now caller (full db x) = some r := by
  simp only [listOrders, listOrdersForCaller, bind_eq, run_bind_ok, run_read_ok, pure_eq,
    run_ret_ok] at h
  obtain ⟨_, _, ⟨filter, _, hfilter, _, _, ⟨rfl, rfl⟩, rfl, rfl⟩, rfl, rfl⟩ := h
  obtain rfl := statusFilter_ok hfilter
  obtain ⟨f, hf, hrender⟩ := List.mem_filterMap.mp hr
  obtain ⟨x, hx, rfl⟩ := List.mem_map.mp hf
  refine ⟨rfl, x, ?_, hrender⟩
  rw [renderListed_id hrender]
  exact Table.mem_rows_iff.mp (mem_selectOrders hx)

end Endpoints

section

variable {env : Env} {now : Time} {caller : User} {req : OrdersRequest} {db db' : Db}
  {rs : List OrderResponse} {r : OrderResponse}

/-- **Masking agreement.** A response of the orders router that contains an order reveals to its
caller no more of it than the list would exactly when the request names no order, as the list
and the placing of an order do, or names one that the list would show in full. -/
theorem masking_agreement (h : (req.exec env now caller).run db = .ok (rs, db')) (hr : r ∈ rs) :
    ∃ x, db'.orders.get r.id = some x ∧ (RevealsNoMore now caller x r ↔
      ∀ o, req.orderId = some o → ∀ y, db.orders.get o = some y → PlainFor now caller y) := by
  have hnames : ∀ (o : Id) (P : Order → Prop), (∀ o', some o = some o' → ∀ y,
      db.orders.get o' = some y → P y) ↔ ∀ y, db.orders.get o = some y → P y := by
    intro o P
    exact ⟨fun hall => hall o rfl, fun hall o' ho' => Option.some.inj ho' ▸ hall⟩
  cases req with
  | create items address =>
    obtain ⟨x, hrun, hx, rfl⟩ := rendered_ok (createOrder_loaded items address) h
    obtain rfl := List.mem_singleton.mp hr
    have hid : x.id = env.uuid4 0 := Table.key_of_get hx
    rw [← hid] at hx
    refine ⟨x, hx, (revealsNoMore_render (f := full db' x)).trans ?_⟩
    exact ⟨fun _ _ ho => (by cases ho), fun _ => plainFor_created hrun (hid ▸ hx)⟩
  | list status limit =>
    obtain ⟨rfl, x, hx, hrender⟩ := listOrders_mem h hr
    exact ⟨x, hx, fun _ _ ho => (by cases ho), fun _ => revealsNoMore_renderListed hrender⟩
  | get o =>
    obtain ⟨f, t, hget, hret⟩ := run_bind_ok.mp h
    obtain ⟨rfl, rfl⟩ := run_ret_ok.mp hret
    obtain rfl := List.mem_singleton.mp hr
    obtain ⟨rfl, x, hx, rfl⟩ := getOrderForCaller_ok hget
    have hid : x.id = o := Table.key_of_get hx
    subst hid
    refine ⟨x, hx, (revealsNoMore_render (f := full t x)).trans ?_⟩
    simp only [OrdersRequest.orderId, hnames]
    constructor
    · intro hplain y hy
      obtain rfl := Option.some.inj (hy.symm.trans hx)
      exact hplain
    · exact fun hall => hall x hx
  | accept o =>
    simp only [OrdersRequest.orderId, hnames]
    exact revealsNoMore_transition (.acceptOrder o) acceptOrder_loaded
      rfl (by simp) (by simp) (by simp) h hr
  | preparing o =>
    simp only [OrdersRequest.orderId, hnames]
    exact revealsNoMore_transition (.markPreparing o) markPreparing_loaded
      rfl (by simp) (by simp) (by simp) h hr
  | selfDeliver o =>
    simp only [OrdersRequest.orderId, hnames]
    exact revealsNoMore_transition (.chooseSelfDelivery o) chooseSelfDelivery_loaded
      rfl (by simp) (by simp) (by simp) h hr
  | requestDriver o =>
    simp only [OrdersRequest.orderId, hnames]
    exact revealsNoMore_transition (.requestDriver o) requestDriver_loaded
      rfl (by simp) (by simp) (by simp) h hr
  | outForDelivery o =>
    simp only [OrdersRequest.orderId, hnames]
    exact revealsNoMore_transition (.outForDelivery o) outForDelivery_loaded
      rfl (by simp) (by simp) (by simp) h hr
  | delivered o =>
    simp only [OrdersRequest.orderId, hnames]
    refine revealsNoMore_transition (.markDelivered o) markDelivered_loaded rfl (by simp) (by simp)
      ?_ h hr
    -- a customer cannot make this transition
    intro hcustomer
    obtain ⟨f, t, hf, -⟩ := run_bind_ok.mp h
    obtain ⟨_, _, hrole, -⟩ := run_bind_ok.mp hf
    have hmay := (run_raiseIf_ok.mp hrole).1
    rw [hcustomer] at hmay
    exact absurd (by decide) hmay
  | complete o =>
    simp only [OrdersRequest.orderId, hnames]
    exact revealsNoMore_transition (.completeOrder o) completeOrder_loaded
      rfl (by simp) (by simp) (by simp) h hr
  | cancel o reason =>
    simp only [OrdersRequest.orderId, hnames]
    exact revealsNoMore_transition (.cancelOrder o reason) (cancelOrder_loaded reason)
      rfl (by simp) (by simp) (by simp) h
      hr

end

namespace Sample

/-- The database with the order delivered at the time `8`. -/
def delivered : Db :=
  (after (World.serve sha256) start (sent ++ [request driver (.markDelivered 0) 8])).db

/-- The surroundings of a request that reads. -/
def quiet : Env := { now := fun _ => 9, transactionNow := 9, uuid4 := id, randbelow := 0 }

end Sample

/-- A seller reads a delivered order by its identifier. -/
theorem masking_agreement_get : ∃ rs r x,
    ((OrdersRequest.get 0).exec Sample.quiet 9 Sample.seller).run Sample.delivered =
      .ok (rs, Sample.delivered) ∧ r ∈ rs ∧ Sample.delivered.orders.get r.id = some x ∧
      (RevealsNoMore 9 Sample.seller x r ↔
        ∀ o, some 0 = some o → ∀ y, Sample.delivered.orders.get o = some y →
          PlainFor 9 Sample.seller y) := by
  obtain ⟨rs, hrun⟩ := run_of_session
    (p := (OrdersRequest.get 0).exec Sample.quiet 9 Sample.seller) (s := Sample.delivered)
    (by decide +kernel)
  obtain ⟨f, t, hget, hret⟩ := run_bind_ok.mp hrun
  obtain ⟨rfl, heq⟩ := run_ret_ok.mp hret
  obtain ⟨rfl, -⟩ := getOrderForCaller_ok hget
  rw [← heq] at hrun
  obtain ⟨x, hx, hiff⟩ := masking_agreement hrun List.mem_cons_self
  exact ⟨_, _, x, hrun, List.mem_cons_self, hx, hiff⟩

/-- A minute after the delivery the list hides the order from its customer, and `GET
/orders/{id}` shows it in full. -/
theorem hidden_order_shown : ∃ r x,
    ((OrdersRequest.get 0).exec Sample.quiet 9 Sample.customer).run Sample.delivered =
      .ok ([r], Sample.delivered) ∧ Sample.delivered.orders.get r.id = some x ∧
      HiddenFrom 9 Sample.customer x ∧ ¬RevealsNoMore 9 Sample.customer x r := by
  obtain ⟨rs, hrun⟩ := run_of_session
    (p := (OrdersRequest.get 0).exec Sample.quiet 9 Sample.customer) (s := Sample.delivered)
    (by decide +kernel)
  obtain ⟨f, t, hget, hret⟩ := run_bind_ok.mp hrun
  obtain ⟨rfl, heq⟩ := run_ret_ok.mp hret
  obtain ⟨rfl, x, hx, rfl⟩ := getOrderForCaller_ok hget
  rw [← heq] at hrun
  have hid : x.id = 0 := Table.key_of_get hx
  have hhidden : (Sample.delivered.orders.get 0).any (isCustomerHidden 9) = true := by
    decide +kernel
  rw [hx] at hhidden
  refine ⟨_, x, hrun, ?_, ⟨rfl, hhidden⟩, fun h => h.hidden ⟨rfl, hhidden⟩⟩
  rw [← hid] at hx
  exact hx

/-! ### Two lists -/

/-- What the list and its query without a status filter look at in an order: whether it is
selected, when it was placed, and the entry it becomes. -/
structure Listing where
  selected : Bool
  placedAt : Time
  entry : Option OrderResponse

/-- The listing of an order. -/
def listing (now : Time) (caller : User) (db : Db) (o : Order) : Listing :=
  { selected := o.deletedAt = none ∧ listedFor db caller o, placedAt := o.placedAt,
    entry := renderListed now caller (full db o) }

/-- Two versions of an order that the list hides or masks: they may differ in the status, the
address, the cancellation reason and the stage timestamps. -/
structure SameOutside (now : Time) (caller : User) (x y : Order) : Prop where
  id : y.id = x.id
  customerId : y.customerId = x.customerId
  sellerId : y.sellerId = x.sellerId
  storeId : y.storeId = x.storeId
  subtotalMinor : y.subtotalMinor = x.subtotalMinor
  totalMinor : y.totalMinor = x.totalMinor
  placedAt : y.placedAt = x.placedAt
  deletedAt : y.deletedAt = x.deletedAt
  customerVisibleAfter : y.customerVisibleAfter = x.customerVisibleAfter
  sellerFullVisibleUntil : y.sellerFullVisibleUntil = x.sellerFullVisibleUntil
  hidden : HiddenFrom now caller y ↔ HiddenFrom now caller x
  masked : MaskedFor now caller y ↔ MaskedFor now caller x

/-- Two databases that differ only in what the list hides or masks for the caller. -/
structure DifferInside (now : Time) (caller : User) (s t : Db) : Prop where
  orders : List.Forall₂ (fun x y => x = y ∨
    (¬PlainFor now caller x ∧ SameOutside now caller x y)) s.orders.rows t.orders.rows
  items : ∀ x ∈ s.orders.rows, PlainFor now caller x → t.itemsOf x.id = s.itemsOf x.id
  deliveries : ∀ x ∈ s.orders.rows, PlainFor now caller x →
    t.deliveries.get x.id = s.deliveries.get x.id
  assignments : ∀ x ∈ s.orders.rows, PlainFor now caller x →
    t.assignmentsOf x.id = s.assignmentsOf x.id
  rest : t = { s with orders := t.orders, orderItems := t.orderItems,
                      deliveries := t.deliveries, driverAssignments := t.driverAssignments }

/-- What `GET /orders` responds. -/
def listResponse (now : Time) (caller : User) (status : Option String) (limit : ℤ) (db : Db) :
    Except Err (List OrderResponse) :=
  ((listOrders now caller status limit).session db).1

section Lists

variable {now : Time} {caller : User} {s t : Db} {x y : Order}

/-- What a list shows of such an order does not depend on the order. -/
theorem renderListed_of_not_plain (f : OrderFull) (h : ¬PlainFor now caller f.order) :
    renderListed now caller f =
      if caller.role = .customer ∧ isCustomerHidden now f.order = true then none
      else some (maskOrderResponse f.order) := by
  unfold renderListed
  by_cases hhidden : caller.role = .customer ∧ isCustomerHidden now f.order = true
  · rw [if_pos hhidden, if_pos hhidden]
  · rw [if_neg hhidden, if_neg hhidden]
    by_cases hcustomer : caller.role = .customer ∧ isCustomerMasked now f.order = true
    · rw [if_pos hcustomer]
      rfl
    · rw [if_neg hcustomer, if_pos ?_]
      · rfl
      · by_contra hseller
        exact h ⟨hhidden, fun hm => hm.elim hcustomer hseller⟩

/-- The query selects the orders of a customer or a seller by their row. -/
theorem listedFor_congr (hrole : caller.role = .customer ∨ caller.role = .seller)
    (hcustomer : y.customerId = x.customerId) (hseller : y.sellerId = x.sellerId) :
    listedFor t caller y = listedFor s caller x := by
  rcases hrole with hrole | hrole
  · simp only [listedFor, hrole, hcustomer]
  · simp only [listedFor, hrole, hseller]

/-- The list cannot tell the two versions of a hidden or masked order apart. -/
theorem listing_sameOutside (hrole : caller.role = .customer ∨ caller.role = .seller)
    (hplain : ¬PlainFor now caller x) (h : SameOutside now caller x y) :
    listing now caller t y = listing now caller s x := by
  have hplain' : ¬PlainFor now caller y := by
    rw [PlainFor, h.hidden, h.masked]
    exact hplain
  have hmask : maskOrderResponse y = maskOrderResponse x := by
    simp only [maskOrderResponse, h.id, h.customerId, h.sellerId, h.storeId, h.totalMinor,
      h.placedAt]
  have hentry : renderListed now caller (full t y) = renderListed now caller (full s x) := by
    rw [renderListed_of_not_plain (full t y) hplain', renderListed_of_not_plain (full s x) hplain]
    change (if HiddenFrom now caller y then none else some (maskOrderResponse y)) =
      if HiddenFrom now caller x then none else some (maskOrderResponse x)
    rw [hmask]
    exact if_congr h.hidden rfl rfl
  rw [listing, listing, hentry, h.placedAt, h.deletedAt,
    listedFor_congr hrole h.customerId h.sellerId]

/-- Databases that differ inside such orders are listed alike. -/
theorem DifferInside.listings (h : DifferInside now caller s t)
    (hrole : caller.role = .customer ∨ caller.role = .seller) :
    t.orders.rows.map (listing now caller t) = s.orders.rows.map (listing now caller s) := by
  have hrows := h.orders
  have hfull : ∀ x ∈ s.orders.rows, PlainFor now caller x → full t x = full s x := by
    intro x hx hplain
    rw [full, full, h.items x hx hplain, h.deliveries x hx hplain, h.assignments x hx hplain]
  generalize s.orders.rows = xs at hrows hfull
  generalize t.orders.rows = ys at hrows
  induction hrows with
  | nil => rfl
  | @cons x y xs ys hxy _ ih =>
    rw [List.map_cons, List.map_cons, ih fun z hz => hfull z (List.mem_cons_of_mem x hz)]
    congr 1
    by_cases hplain : PlainFor now caller x
    · obtain rfl := hxy.resolve_right fun hne => hne.1 hplain
      rw [listing, hfull x List.mem_cons_self hplain, listedFor_congr hrole rfl rfl, listing]
    · rcases hxy with rfl | ⟨-, hsame⟩
      · exact listing_sameOutside hrole hplain
          ⟨rfl, rfl, rfl, rfl, rfl, rfl, rfl, rfl, rfl, rfl, Iff.rfl, Iff.rfl⟩
      · exact listing_sameOutside hrole hplain hsame

/-- The rows of the query without a status filter, in terms of their listings. -/
def listed (limit : ℤ) (ls : List Listing) : List Listing :=
  ((ls.filter Listing.selected).mergeSort fun a b => b.placedAt ≤ a.placedAt).take
    (min (max limit 1) 200).toNat

/-- The list is made from the listings of all rows. -/
theorem map_selectOrders (db : Db) (limit : ℤ) :
    (selectOrders db caller none limit).map (listing now caller db) =
      listed limit (db.orders.rows.map (listing now caller db)) := by
  have hsort : ∀ xs : List Order,
      (xs.mergeSort fun a b => b.placedAt ≤ a.placedAt).map (listing now caller db) =
        (xs.map (listing now caller db)).mergeSort fun a b => b.placedAt ≤ a.placedAt :=
    fun xs => List.map_mergeSort fun _ _ _ _ => rfl
  have hfilter : (db.orders.rows.filter fun o => o.deletedAt = none ∧
      ((none : Option OrderStatus).all fun s => o.status = s) = true ∧
        listedFor db caller o = true) =
      db.orders.rows.filter (Listing.selected ∘ listing now caller db) := by
    refine List.filter_congr fun x _ => ?_
    simp [listing]
  rw [selectOrders, listed, List.map_take, hsort, List.filter_map, hfilter]

/-- Without a status filter the response is a function of the listings. -/
theorem listResponse_none (db : Db) (limit : ℤ) : listResponse now caller none limit db =
    .ok ((listed limit (db.orders.rows.map (listing now caller db))).filterMap Listing.entry) := by
  have hrun : listResponse now caller none limit db = .ok
      (((selectOrders db caller none limit).map (full db)).filterMap (renderListed now caller)) :=
    rfl
  rw [hrun, ← map_selectOrders, List.filterMap_map, List.filterMap_map]
  rfl

/-- A status filter that is no label is refused. -/
theorem listResponse_of_no_label {label : String} (h : OrderStatus.ofLabel label = none) (db : Db)
    (limit : ℤ) : listResponse now caller (some label) limit db =
      .error (.unexpected "DBAPIError") := by
  have hrun : (listOrders now caller (some label) limit).run db =
      .error (.unexpected "DBAPIError") := by
    simp [listOrders, listOrdersForCaller, statusFilter, run_bind, getOrRaise, h, run]
    rfl
  rw [listResponse, session, hrun]

/-! ### A filter by status -/

/-- An order of the seller `1` that the list strips, in the given status. -/
def strippedOrder (status : OrderStatus) : Order :=
  { id := 0, customerId := 2, sellerId := 1, storeId := 3, status, subtotalMinor := 5,
    totalMinor := 5, deliveryAddress := {}, placedAt := 0, sellerFullVisibleUntil := some (days 7) }

/-- A database with one order, which the list strips. -/
def stripped (status : OrderStatus) : Db :=
  { orders := (∅ : Table Order Order.id).insert (strippedOrder status) }

/-- The seller of that order. -/
def strippedSeller : User := { id := 1, role := .seller }

/-- The sample database has one order. -/
theorem rows_stripped (status : OrderStatus) :
    (stripped status).orders.rows = [strippedOrder status] := rfl

/-- It is not plain for the sample seller. -/
theorem strippedOrder_not_plain (status : OrderStatus) :
    ¬PlainFor (days 7) strippedSeller (strippedOrder status) :=
  fun h => h.2 (.inr ⟨rfl, by simp [isSellerStripped, strippedOrder]⟩)

/-- Two of them differ inside that order alone. -/
theorem differInside_stripped (status status' : OrderStatus) :
    DifferInside (days 7) strippedSeller (stripped status) (stripped status') where
  orders := by
    rw [rows_stripped, rows_stripped]
    refine .cons (.inr ⟨strippedOrder_not_plain status, ?_⟩) .nil
    exact ⟨rfl, rfl, rfl, rfl, rfl, rfl, rfl, rfl, rfl, rfl, Iff.rfl, Iff.rfl⟩
  items _ _ _ := rfl
  deliveries _ _ _ := rfl
  assignments _ _ _ := rfl
  rest := rfl

/-- The filter sees the status that the list masks. -/
theorem listResponse_stripped {label : String} {filter : OrderStatus}
    (h : OrderStatus.ofLabel label = some filter) (limit : ℤ) (status : OrderStatus) :
    listResponse (days 7) strippedSeller (some label) limit (stripped status) =
      .ok (if status = filter then [maskOrderResponse (strippedOrder status)] else []) := by
  have hrun : listResponse (days 7) strippedSeller (some label) limit (stripped status) =
      .ok (((selectOrders (stripped status) strippedSeller (some filter) limit).map
        (full (stripped status))).filterMap (renderListed (days 7) strippedSeller)) := by
    simp only [listResponse, listOrders, listOrdersForCaller, statusFilter, h, getOrRaise]
    rfl
  have hselect : selectOrders (stripped status) strippedSeller (some filter) limit =
      if status = filter then [strippedOrder status] else [] := by
    obtain ⟨n, hn⟩ : ∃ n, (min (max limit 1) 200).toNat = n + 1 :=
      ⟨(min (max limit 1) 200).toNat - 1, by omega⟩
    rw [selectOrders, rows_stripped, hn]
    by_cases hs : status = filter
    · simp [hs, strippedOrder, listedFor, strippedSeller]
    · simp [hs, strippedOrder]
  have hmask :
      renderListed (days 7) strippedSeller (full (stripped status) (strippedOrder status)) =
      some (maskOrderResponse (strippedOrder status)) :=
    renderListed_of_not_plain _ (strippedOrder_not_plain status)
  rw [hrun, hselect]
  by_cases hs : status = filter
  · rw [if_pos hs, if_pos hs, List.map_singleton, List.filterMap_cons, hmask, List.filterMap_nil]
  · rw [if_neg hs, if_neg hs, List.map_nil, List.filterMap_nil]

/-- There is another status. -/
theorem exists_ne_status (status : OrderStatus) : ∃ status', status' ≠ status := by
  cases status with
  | pending => exact ⟨.accepted, by decide⟩
  | _ => exact ⟨.pending, by decide⟩

/-- **Noninterference of the list.** What the list hides or masks for a customer or a seller has no
influence on its response exactly when the response is not filtered by a status. -/
theorem masked_lists_agree (status : Option String) (limit : ℤ) :
    (∀ (now : Time) (caller : User) (s t : Db),
      caller.role = .customer ∨ caller.role = .seller → DifferInside now caller s t →
      listResponse now caller status limit s = listResponse now caller status limit t) ↔
    status.bind OrderStatus.ofLabel = none := by
  constructor
  · intro hsame
    by_contra hne
    obtain ⟨filter, hfilter⟩ := Option.ne_none_iff_exists'.mp hne
    obtain ⟨label, rfl, hlabel⟩ := Option.bind_eq_some_iff.mp hfilter
    obtain ⟨other, hother⟩ := exists_ne_status filter
    have heq := hsame (days 7) strippedSeller _ _ (.inr rfl) (differInside_stripped filter other)
    rw [listResponse_stripped hlabel, listResponse_stripped hlabel, if_pos rfl,
      if_neg hother] at heq
    cases heq
  · intro hnone now caller s t hrole h
    cases status with
    | none => rw [listResponse_none, listResponse_none, h.listings hrole]
    | some label => rw [listResponse_of_no_label hnone, listResponse_of_no_label hnone]

/-- Stripped orders that differ in nothing but their status, one completed and one cancelled. -/
theorem masked_status_filtered :
    DifferInside (days 7) strippedSeller (stripped .completed) (stripped .cancelled) ∧
      listResponse (days 7) strippedSeller (some "completed") 50 (stripped .completed) ≠
        listResponse (days 7) strippedSeller (some "completed") 50 (stripped .cancelled) := by
  refine ⟨differInside_stripped _ _, ?_⟩
  have hlabel : OrderStatus.ofLabel "completed" = some .completed := by decide
  rw [listResponse_stripped hlabel, listResponse_stripped hlabel, if_pos rfl,
    if_neg (by decide)]
  exact fun h => by cases h

end Lists

end Marketplace
