import Marketplace.Order.Runs

/-!
# The order, its timestamps and its delivery row

The order service writes the status of an order, six timestamps and the delivery row in
a dozen operations. In every state its operations can reach they agree: the timestamps
say which stages the order has passed, and the delivery row is started, in transit and
delivered when the order is.
-/

namespace Marketplace

open Lib OrderService

/-! ### Stages -/

/-- The number of stages that an order has passed, unless it is cancelled. -/
def OrderStatus.stage : OrderStatus → ℕ
  | pending => 0
  | accepted => 1
  | preparing => 2
  | outForDelivery => 3
  | delivered => 4
  | completed => 5
  | cancelled => 0

/-- The timestamp of each of the five stages. -/
def Order.stamp (x : Order) : ℕ → Option Time
  | 0 => x.acceptedAt
  | 1 => x.preparingAt
  | 2 => x.outForDeliveryAt
  | 3 => x.deliveredAt
  | 4 => x.completedAt
  | _ => none

/-- A timestamp is set exactly for the stages that the status has passed. -/
def Order.StagesSet (x : Order) : Prop := ∀ i < 5, x.stamp i ≠ none ↔ i < x.status.stage

/-- The timestamps that are set do not decrease from stage to stage. -/
def Order.StagesOrdered (x : Order) : Prop :=
  ∀ i j s t, i ≤ j → x.stamp i = some s → x.stamp j = some t → s ≤ t

/-- The order agrees with its timestamps and its delivery row. -/
structure Order.Coherent (x : Order) (delivery : Option Delivery) : Prop where
  stages : x.status ≠ .cancelled → x.StagesSet
  cancelled : x.cancelledAt ≠ none ↔ x.status = .cancelled
  started : x.status ≠ .cancelled → ((∃ d, delivery = some d ∧ d.startedAt ≠ none) ↔
    x.status = .outForDelivery ∨ x.status = .delivered ∨ x.status = .completed)
  inTransit : x.status ≠ .cancelled → ∀ d, delivery = some d → d.startedAt ≠ none →
    (d.status = .inTransit ↔ x.status = .outForDelivery)
  delivered : x.status ≠ .cancelled → ∀ d, delivery = some d → d.startedAt ≠ none →
    x.status ≠ .outForDelivery → d.status = .delivered ∧ d.deliveredAt = x.deliveredAt

/-- The operations of the order service. -/
def Op.isOrderService : Op → Bool
  | driverAccept _ | recordLocation _ _ _ | getRoute _ | completeDelivery _ _
  | postOrderMessage _ _ _ | adminPatchDelivery _ _ _ _ => false
  | _ => true

/-- The clock readings do not decrease from one request of a run to a later one. -/
def ClockOrdered (calls : List Call) : Prop :=
  calls.Pairwise fun c c' => ∀ i j, c.now i ≤ c'.now j

section Stages

variable {x y : Order} {now : Time}

/-- `y` is `x` one stage further on. -/
structure Order.Passes (x y : Order) (now : Time) : Prop where
  stage : y.status.stage = x.status.stage + 1
  before : x.status ≠ .cancelled
  after : y.status ≠ .cancelled
  stamp : ∀ i, y.stamp i = if i = x.status.stage then some now else x.stamp i
  cancelledAt : y.cancelledAt = x.cancelledAt

/-- Accepting passes from pending to accepted. -/
theorem Order.passes_accept (hs : x.status = .pending) : x.Passes (x.accept now) now where
  stage := by rw [hs]; rfl
  before := by simp [hs]
  after := by simp [Order.accept]
  stamp i := by
    rw [hs]
    rcases i with _ | _ | _ | _ | _ | i <;> rfl
  cancelledAt := rfl

/-- Preparing passes from accepted to preparing. -/
theorem Order.passes_prepare (hs : x.status = .accepted) : x.Passes (x.prepare now) now where
  stage := by rw [hs]; rfl
  before := by simp [hs]
  after := by simp [Order.prepare]
  stamp i := by
    rw [hs]
    rcases i with _ | _ | _ | _ | _ | i <;> rfl
  cancelledAt := rfl

/-- Sending out passes from preparing to out for delivery. -/
theorem Order.passes_sendOut (hs : x.status = .preparing) : x.Passes (x.sendOut now) now where
  stage := by rw [hs]; rfl
  before := by simp [hs]
  after := by simp [Order.sendOut]
  stamp i := by
    rw [hs]
    rcases i with _ | _ | _ | _ | _ | i <;> rfl
  cancelledAt := rfl

/-- Delivering passes from out for delivery to delivered. -/
theorem Order.passes_deliver (hs : x.status = .outForDelivery) :
    x.Passes (x.deliver now) now where
  stage := by rw [hs]; rfl
  before := by simp [hs]
  after := by simp [Order.deliver]
  stamp i := by
    rw [hs]
    rcases i with _ | _ | _ | _ | _ | i <;> rfl
  cancelledAt := rfl

/-- Completing passes from delivered to completed. -/
theorem Order.passes_complete (hs : x.status = .delivered) : x.Passes (x.complete now) now where
  stage := by rw [hs]; rfl
  before := by simp [hs]
  after := by simp [Order.complete]
  stamp i := by
    rw [hs]
    rcases i with _ | _ | _ | _ | _ | i <;> rfl
  cancelledAt := rfl

/-- A pass along the stages stamps the stage that it enters. -/
theorem Order.Passes.stagesSet (h : x.Passes y now) (hx : x.StagesSet) : y.StagesSet := by
  intro i hi
  rw [h.stamp, h.stage]
  by_cases heq : i = x.status.stage
  · rw [if_pos heq]
    have hlt : i < x.status.stage + 1 := by omega
    simp [hlt]
  · rw [if_neg heq, hx i hi]
    omega

/-- A stage passed after all the earlier ones keeps the timestamps in order. -/
theorem Order.Passes.stagesOrdered (h : x.Passes y now) (hset : x.StagesSet)
    (hx : x.StagesOrdered) (hnow : ∀ i t, x.stamp i = some t → t ≤ now) : y.StagesOrdered := by
  have hlater : ∀ j, x.status.stage < j → x.stamp j = none := by
    intro j hj
    by_cases hlt : j < 5
    · by_contra hne
      have := (hset j hlt).mp hne
      omega
    · obtain ⟨k, rfl⟩ := Nat.exists_eq_add_of_le (Nat.not_lt.mp hlt)
      rw [Nat.add_comm]
      rfl
  intro i j s t hij hs ht
  rw [h.stamp] at hs ht
  by_cases hj : j = x.status.stage
  · rw [if_pos hj] at ht
    obtain rfl := Option.some.inj ht
    by_cases hi : i = x.status.stage
    · rw [if_pos hi] at hs
      exact (Option.some.inj hs).ge
    · rw [if_neg hi] at hs
      exact hnow i s hs
  · rw [if_neg hj] at ht
    by_cases hi : i = x.status.stage
    · have hlt : x.status.stage < j := by omega
      rw [hlater j hlt] at ht
      cases ht
    · rw [if_neg hi] at hs
      exact hx i j s t hij hs ht

/-! ### What a move does to the order row -/

/-- The order service leaves an order row alone, passes its next stage or cancels it. -/
inductive OrderStep (env : Env) : Option Order → Order → Prop
  | placed {y : Order} : y.status = .pending → y.cancelledAt = none → (∀ i, y.stamp i = none) →
      OrderStep env none y
  | same (x : Order) : OrderStep env (some x) x
  | passes {x y : Order} (i : ℕ) : x.Passes y (env.now i) → OrderStep env (some x) y
  | cancels {x y : Order} :
      y.status = .cancelled → y.cancelledAt ≠ none → (∀ i, y.stamp i = x.stamp i) →
      OrderStep env (some x) y

/-- The timestamps of an order up to now. -/
def Order.Before (t : Time) (x : Order) : Prop := ∀ i s, x.stamp i = some s → s ≤ t

/-- The part of coherence that concerns the order row alone. -/
structure Order.Tidy (x : Order) : Prop where
  stages : x.status ≠ .cancelled → x.StagesSet
  cancelled : x.cancelledAt ≠ none ↔ x.status = .cancelled

namespace OrderStep

variable {env : Env} {r : Option Order}

/-- A step of the order service keeps the row tidy. -/
theorem tidy (h : OrderStep env r y) (hr : ∀ x, r = some x → x.Tidy) : y.Tidy := by
  cases h with
  | placed hs hc hstamp =>
    refine ⟨fun _ i _ => ?_, ?_⟩
    · rw [hstamp, hs]
      simp [OrderStatus.stage]
    · simp [hs, hc]
  | same => exact hr y rfl
  | @passes x _ i hp =>
    have hx := hr x rfl
    refine ⟨fun _ => hp.stagesSet (hx.stages hp.before), ?_⟩
    rw [hp.cancelledAt, hx.cancelled]
    exact iff_of_false hp.before hp.after
  | cancels hs hc => exact ⟨fun hne => absurd hs hne, iff_of_true hc hs⟩

/-- A step of the order service keeps the stamps in order when the clock runs forward. -/
theorem stagesOrdered (h : OrderStep env r y) (hr : ∀ x, r = some x → x.Tidy)
    (hordered : ∀ x, r = some x → x.StagesOrdered)
    (hbefore : ∀ x, r = some x → ∀ i, x.Before (env.now i)) : y.StagesOrdered := by
  cases h with
  | placed _ _ hstamp =>
    intro i j s t _ hs
    rw [hstamp] at hs
    cases hs
  | same => exact hordered y rfl
  | @passes x _ i hp =>
    exact hp.stagesOrdered ((hr x rfl).stages hp.before) (hordered x rfl) (hbefore x rfl i)
  | @cancels x _ _ _ hstamp =>
    intro i j s t hij hs ht
    rw [hstamp] at hs ht
    exact hordered x rfl i j s t hij hs ht

/-- A step of the order service stamps nothing later than its own clock. -/
theorem before (h : OrderStep env r y) {t : Time} (hr : ∀ x, r = some x → x.Before t)
    (hnow : ∀ i, env.now i ≤ t) : y.Before t := by
  cases h with
  | placed _ _ hstamp =>
    intro i s hs
    rw [hstamp] at hs
    cases hs
  | same => exact hr y rfl
  | @passes x _ i hp =>
    intro j s hs
    rw [hp.stamp] at hs
    by_cases hj : j = x.status.stage
    · rw [if_pos hj] at hs
      exact Option.some.inj hs ▸ hnow i
    · rw [if_neg hj] at hs
      exact hr x rfl j s hs
  | @cancels x _ _ _ hstamp =>
    intro i s hs
    rw [hstamp] at hs
    exact hr x rfl i s hs

end OrderStep

end Stages

/-! ### The order row and the delivery row -/

/-- What the status of an order says about its delivery row. -/
def Order.Agrees (x : Order) (delivery : Option Delivery) : Prop :=
  match x.status with
  | .pending | .accepted | .preparing => ∀ d, delivery = some d → d.startedAt = none
  | .outForDelivery => ∃ d, delivery = some d ∧ d.startedAt ≠ none ∧ d.status = .inTransit
  | .delivered | .completed => ∃ d, delivery = some d ∧ d.startedAt ≠ none ∧
      d.status = .delivered ∧ d.deliveredAt = x.deliveredAt
  | .cancelled => True

section Agreement

variable {x : Order} {delivery : Option Delivery}

/-- Before it goes out, an order has no started delivery. -/
theorem Order.agrees_early (hs : x.status = .pending ∨ x.status = .accepted ∨ x.status = .preparing)
    (h : ∀ d, delivery = some d → d.startedAt = none) : x.Agrees delivery := by
  unfold Order.Agrees
  rcases hs with hs | hs | hs
  · rw [hs]
    exact h
  · rw [hs]
    exact h
  · rw [hs]
    exact h

/-- The delivery of an early order has not started. -/
theorem Order.Agrees.early (h : x.Agrees delivery)
    (hs : x.status = .pending ∨ x.status = .accepted ∨ x.status = .preparing) :
    ∀ d, delivery = some d → d.startedAt = none := by
  unfold Order.Agrees at h
  rcases hs with hs | hs | hs
  · rwa [hs] at h
  · rwa [hs] at h
  · rwa [hs] at h

/-- An order out for delivery has a delivery in transit. -/
theorem Order.Agrees.outForDelivery (h : x.Agrees delivery) (hs : x.status = .outForDelivery) :
    ∃ d, delivery = some d ∧ d.startedAt ≠ none ∧ d.status = .inTransit := by
  unfold Order.Agrees at h
  rwa [hs] at h

/-- A delivered order has a delivery with the same stamp. -/
theorem Order.Agrees.late (h : x.Agrees delivery)
    (hs : x.status = .delivered ∨ x.status = .completed) :
    ∃ d, delivery = some d ∧ d.startedAt ≠ none ∧ d.status = .delivered ∧
      d.deliveredAt = x.deliveredAt := by
  unfold Order.Agrees at h
  rcases hs with hs | hs
  · rwa [hs] at h
  · rwa [hs] at h

/-- A status is early, out for delivery or late unless it is cancelled. -/
theorem OrderStatus.early_or_late (s : OrderStatus) (hne : s ≠ .cancelled) :
    (s = .pending ∨ s = .accepted ∨ s = .preparing) ∨ s = .outForDelivery ∨
      (s = .delivered ∨ s = .completed) := by
  cases s with
  | cancelled => exact absurd rfl hne
  | _ => decide

/-- The coherence of an order with its delivery row, from what each status says about it. -/
theorem Order.Tidy.coherent (htidy : x.Tidy) (h : x.Agrees delivery) : x.Coherent delivery where
  stages := htidy.stages
  cancelled := htidy.cancelled
  started hne := by
    rcases x.status.early_or_late hne with hs | hs | hs
    · refine iff_of_false ?_ (by rcases hs with hs | hs | hs <;> simp [hs])
      rintro ⟨d, hd, hstarted⟩
      exact hstarted (h.early hs d hd)
    · obtain ⟨d, hd, hstarted, -⟩ := h.outForDelivery hs
      exact iff_of_true ⟨d, hd, hstarted⟩ (.inl hs)
    · obtain ⟨d, hd, hstarted, -⟩ := h.late hs
      exact iff_of_true ⟨d, hd, hstarted⟩ (.inr hs)
  inTransit hne d hd hstarted := by
    rcases x.status.early_or_late hne with hs | hs | hs
    · exact absurd (h.early hs d hd) hstarted
    · obtain ⟨d', hd', -, hstatus⟩ := h.outForDelivery hs
      obtain rfl := Option.some.inj (hd.symm.trans hd')
      exact iff_of_true hstatus hs
    · obtain ⟨d', hd', -, hstatus, -⟩ := h.late hs
      obtain rfl := Option.some.inj (hd.symm.trans hd')
      refine iff_of_false (by simp [hstatus]) (by rcases hs with hs | hs <;> simp [hs])
  delivered hne d hd hstarted hnot := by
    rcases x.status.early_or_late hne with hs | hs | hs
    · exact absurd (h.early hs d hd) hstarted
    · exact absurd hs hnot
    · obtain ⟨d', hd', -, hstatus, hat⟩ := h.late hs
      obtain rfl := Option.some.inj (hd.symm.trans hd')
      exact ⟨hstatus, hat⟩

end Agreement

section Moves

variable {sha256 : String → String} {ps : PlatformSettings} {env : Env} {caller : User} {o : Id}
  {op : Op} {L L' : Life} {y : Order}

/-- A move of the order service is a step of its row. -/
theorem Move.orderStep (h : Move sha256 ps env caller o op L L') (hop : op.isOrderService = true)
    (hy : L'.order = some y) : OrderStep env L.order y := by
  cases h with
  | stay => rw [hy]; exact .same y
  | create _ hnone =>
    obtain rfl := Option.some.inj hy
    rw [hnone]
    refine .placed rfl rfl fun i => ?_
    rcases i with _ | _ | _ | _ | _ | i <;> rfl
  | accept hx _ hs =>
    obtain rfl := Option.some.inj hy
    rw [hx]
    exact .passes 0 (Order.passes_accept hs)
  | prepare hx _ hs =>
    obtain rfl := Option.some.inj hy
    rw [hx]
    exact .passes 0 (Order.passes_prepare hs)
  | sendOutNew hx _ hs =>
    obtain rfl := Option.some.inj hy
    rw [hx]
    exact .passes 1 (Order.passes_sendOut hs)
  | sendOut hx _ hs =>
    obtain rfl := Option.some.inj hy
    rw [hx]
    exact .passes 1 (Order.passes_sendOut hs)
  | deliver hx _ hs =>
    obtain rfl := Option.some.inj hy
    rw [hx]
    exact .passes 0 (Order.passes_deliver hs)
  | complete hx _ hs =>
    obtain rfl := Option.some.inj hy
    rw [hx]
    exact .passes 0 (Order.passes_complete hs)
  | autoComplete hx _ hs =>
    obtain rfl := Option.some.inj hy
    rw [hx]
    exact .passes 0 (Order.passes_complete hs)
  | cancel hx =>
    obtain rfl := Option.some.inj hy
    rw [hx]
    refine .cancels rfl (Option.some_ne_none _) fun i => ?_
    rcases i with _ | _ | _ | _ | _ | i <;> rfl
  | delete => cases hy
  | purge => cases hy
  | chooseSelfDelivery =>
    have hsame : L.order = some y := hy
    rw [hsame]
    exact .same y
  | requestDriver =>
    have hsame : L.order = some y := hy
    rw [hsame]
    exact .same y
  | assignDriver =>
    have hsame : L.order = some y := hy
    rw [hsame]
    exact .same y
  | driverAccept => cases hop
  | recordLocation => cases hop
  | completeDelivery => cases hop
  | patchDelivery => cases hop

/-- The delivery row agrees with the order after every move of the order service. -/
theorem Move.agrees (h : Move sha256 ps env caller o op L L') (hop : op.isOrderService = true)
    (hnew : o = env.uuid4 0 → L.delivery = none)
    (hL : ∀ x, L.order = some x → x.Agrees L.delivery) (hy : L'.order = some y) :
    y.Agrees L'.delivery := by
  cases h with
  | stay => exact hL y hy
  | create ho =>
    obtain rfl := Option.some.inj hy
    refine Order.agrees_early (.inl rfl) fun d hd => ?_
    have hnone : L.delivery = some d := hd
    rw [hnew ho] at hnone
    cases hnone
  | accept hx _ hs =>
    obtain rfl := Option.some.inj hy
    exact Order.agrees_early (.inr (.inl rfl)) ((hL _ hx).early (.inl hs))
  | prepare hx _ hs =>
    obtain rfl := Option.some.inj hy
    exact Order.agrees_early (.inr (.inr rfl)) ((hL _ hx).early (.inr (.inl hs)))
  | chooseSelfDelivery hx _ hs =>
    obtain rfl := Option.some.inj (hx.symm.trans hy)
    refine Order.agrees_early (.inr hs) fun d hd => ?_
    obtain rfl := Option.some.inj hd
    rfl
  | requestDriver => exact hL y hy
  | assignDriver => exact hL y hy
  | sendOutNew =>
    obtain rfl := Option.some.inj hy
    exact ⟨_, rfl, Option.some_ne_none _, rfl⟩
  | sendOut =>
    obtain rfl := Option.some.inj hy
    exact ⟨_, rfl, Option.some_ne_none _, rfl⟩
  | deliver hx _ hs hd =>
    obtain rfl := Option.some.inj hy
    obtain ⟨d', hd', hstarted, -⟩ := (hL _ hx).outForDelivery hs
    obtain rfl := Option.some.inj (hd.symm.trans hd')
    exact ⟨_, rfl, hstarted, rfl, rfl⟩
  | complete hx _ hs =>
    obtain rfl := Option.some.inj hy
    exact (hL _ hx).late (.inl hs)
  | autoComplete hx _ hs =>
    obtain rfl := Option.some.inj hy
    exact (hL _ hx).late (.inl hs)
  | cancel =>
    obtain rfl := Option.some.inj hy
    trivial
  | delete => cases hy
  | purge => cases hy
  | driverAccept => cases hop
  | recordLocation => cases hop
  | completeDelivery => cases hop
  | patchDelivery => cases hop

end Moves

/-! ### Runs of the order service -/

section Runs

variable {sha256 : String → String} {w : World} {c : Call}

/-- Every order agrees with its timestamps and its delivery row. -/
structure World.Coherent (w : World) : Prop where
  ready : w.Ready
  tidy : ∀ o x, w.db.orders.get o = some x → x.Tidy
  agrees : ∀ o x, w.db.orders.get o = some x → x.Agrees (w.db.deliveries.get o)

/-- The initial world is coherent. -/
theorem World.Initial.coherent (h : w.Initial) : w.Coherent := by
  have hnone : ∀ o x, w.db.orders.get o ≠ some x := by
    intro o x hx
    have horder : (w.db.life o).order = some x := hx
    rw [h.noOrder] at horder
    cases horder
  exact ⟨h.ready, fun o x hx => absurd hx (hnone o x), fun o x hx => absurd hx (hnone o x)⟩

/-- A call of the order service keeps the world coherent. -/
theorem World.Coherent.serve (h : w.Coherent) (hop : c.op.isOrderService = true) :
    (w.serve sha256 c).Coherent where
  ready := h.ready.serve c
  tidy o _ hy := ((h.ready.moves sha256 c o).orderStep hop hy).tidy (h.tidy o)
  agrees o y hy := by
    refine (h.ready.moves sha256 c o).agrees hop (fun ho => ?_) (h.agrees o) hy
    by_contra hne
    have hdrawn : w.Drawn o := h.ready.drawn o fun hlife => hne (by rw [hlife])
    exact hdrawn.ne_uuid4 ho

/-- Calls of the order service keep the world coherent. -/
theorem World.Coherent.after (sha256 : String → String) {calls : List Call} (h : w.Coherent)
    (hcalls : ∀ c ∈ calls, c.op.isOrderService = true) :
    (after (World.serve sha256) w calls).Coherent := by
  induction calls generalizing w with
  | nil => exact h
  | cons c calls ih =>
    exact ih (h.serve (hcalls c List.mem_cons_self)) fun c' hc' =>
      hcalls c' (List.mem_cons_of_mem c hc')

/-- The timestamps of all orders are in order and before all readings still to come. -/
structure World.OnTime (w : World) (calls : List Call) : Prop where
  ordered : ∀ o x, w.db.orders.get o = some x → x.StagesOrdered
  before : ∀ o x, w.db.orders.get o = some x → ∀ c ∈ calls, ∀ i, x.Before (c.now i)

/-- Calls in the order of the clock never stamp ahead of it. -/
theorem World.OnTime.after {calls : List Call} (hcoherent : w.Coherent) (h : w.OnTime calls)
    (hcalls : ∀ c ∈ calls, c.op.isOrderService = true)
    (hclock : ClockOrdered calls) :
    (after (World.serve sha256) w calls).OnTime [] := by
  induction calls generalizing w with
  | nil => exact h
  | cons c calls ih =>
    obtain ⟨hlater, hrest⟩ := List.pairwise_cons.mp hclock
    have hop := hcalls c List.mem_cons_self
    have hstep : ∀ o y, (w.serve sha256 c).db.orders.get o = some y →
        OrderStep (w.env c) (w.db.orders.get o) y :=
      fun o y hy => (hcoherent.ready.moves sha256 c o).orderStep hop hy
    refine ih (hcoherent.serve hop) ⟨fun o y hy => ?_, fun o y hy c' hc' i => ?_⟩
      (fun c' hc' => hcalls c' (List.mem_cons_of_mem c hc')) hrest
    · exact (hstep o y hy).stagesOrdered (hcoherent.tidy o) (h.ordered o)
        fun x hx => h.before o x hx c List.mem_cons_self
    · exact (hstep o y hy).before (fun x hx => h.before o x hx c' (List.mem_cons_of_mem c hc') i)
        fun j => hlater c' hc' j i

/-- **Coherence.** In every state that a run of the order service reaches, every order agrees
with its timestamps and with its delivery row, of which there is at most one, and the
timestamps are in order if the clock is. -/
theorem order_service_coherent (sha256 : String → String) {w : World} (hw : w.Initial)
    {calls : List Call} (hcalls : ∀ c ∈ calls, c.op.isOrderService = true) {o : Id} {x : Order}
    (hx : (after (World.serve sha256) w calls).db.orders.get o = some x) :
    x.Coherent ((after (World.serve sha256) w calls).db.deliveries.get o) ∧
      ((after (World.serve sha256) w calls).db.deliveries.rows.filter
        fun d => d.orderId = o).length ≤ 1 ∧
      (ClockOrdered calls → x.StagesOrdered) := by
  have hcoherent := hw.coherent.after sha256 hcalls
  refine ⟨(hcoherent.tidy o x hx).coherent (hcoherent.agrees o x hx), Table.filter_key_length _ o,
    fun hclock => ?_⟩
  have hnone : ∀ o x, w.db.orders.get o ≠ some x := by
    intro o x hx
    have horder : (w.db.life o).order = some x := hx
    rw [hw.noOrder] at horder
    cases horder
  have hstart : w.OnTime calls :=
    ⟨fun o x hx => absurd hx (hnone o x), fun o x hx => absurd hx (hnone o x)⟩
  exact (hstart.after hw.coherent hcalls hclock).ordered o x hx

end Runs

/-- The sample order after its driver has delivered it and its customer has confirmed. -/
theorem order_service_coherent_completed :
    let calls := Sample.sent.take 6 ++
      [Sample.request Sample.driver (.markDelivered 0) 8,
        Sample.request Sample.customer (.completeOrder 0) 9]
    ∃ x : Order, x.status = .completed ∧
      x.Coherent ((after (World.serve Sample.sha256) Sample.start calls).db.deliveries.get 0) ∧
      x.StagesOrdered := by
  intro calls
  obtain ⟨x, hx, hstatus⟩ : ∃ x,
      (after (World.serve Sample.sha256) Sample.start calls).db.orders.get 0 = some x ∧
        x.status = .completed := by
    have hsome : (after (World.serve Sample.sha256) Sample.start calls).status 0 =
        some .completed := by decide +kernel
    obtain ⟨x, hx, hs⟩ := Option.map_eq_some_iff.mp hsome
    exact ⟨x, hx, hs⟩
  obtain ⟨hcoherent, -, hordered⟩ := order_service_coherent Sample.sha256 Sample.start_initial
    (by decide +kernel) hx
  refine ⟨x, hstatus, hcoherent, hordered ?_⟩
  simp [calls, ClockOrdered, Sample.sent, Sample.place, Sample.request]

end Marketplace
