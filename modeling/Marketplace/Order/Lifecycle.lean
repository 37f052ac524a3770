import Marketplace.Order.Runs

/-!
# The state diagram of an order

ADR-0012 draws the statuses of an order and the edges between them. Every operation
follows the diagram but one: `complete_delivery` writes `delivered` whatever the status
of the order is, and consumes a code whether or not it has been consumed. The diagram
therefore holds of every run in which this operation meets only orders that it may
deliver, and in such a run no code is consumed twice.
-/

namespace Marketplace

open Lib OrderService DeliveryFlow

/-- The edges of the state diagram of ADR-0012. -/
inductive OrderStatus.Edge : OrderStatus → OrderStatus → Prop
  | accept : Edge .pending .accepted
  | prepare : Edge .accepted .preparing
  | sendOut : Edge .preparing .outForDelivery
  | deliver : Edge .outForDelivery .delivered
  | complete : Edge .delivered .completed
  | cancel {s} : s ∈ activeStatuses → Edge s .cancelled

/-- What the diagram allows to happen to the status of an order, whose row appears when it
is placed and may go when it is terminal. -/
inductive StatusStep : Option OrderStatus → Option OrderStatus → Prop
  | stay (s) : StatusStep s s
  | place : StatusStep none (some .pending)
  | edge {s t} : s.Edge t → StatusStep (some s) (some t)
  | remove {s} : s ∈ terminalStatuses → StatusStep (some s) none

namespace StatusStep

variable {s t : OrderStatus}

/-- No edge leaves a terminal status. -/
theorem eq_of_terminal (h : StatusStep (some s) (some t)) (hs : s ∈ terminalStatuses) : t = s := by
  cases h with
  | stay => rfl
  | edge he =>
    cases he with
    | cancel hactive => revert s; decide
    | _ => contradiction

/-- The only way into `delivered` is from `out_for_delivery`. -/
theorem eq_of_delivered {r : Option OrderStatus} (h : StatusStep r (some .delivered))
    (hr : r ≠ some .delivered) : r = some .outForDelivery := by
  cases h with
  | stay => exact absurd rfl hr
  | edge he =>
    cases he with
    | deliver => rfl

end StatusStep

section Diagram

variable {sha256 : String → String} {ps : PlatformSettings} {env : Env} {caller : User} {o : Id}
  {op : Op} {L L' : Life}

/-- The right code for an order meets it out for delivery, or delivered by hand with the
code unused. -/
def CompletesDeliverable (sha256 : String → String) (caller : User) (o : Id) (op : Op)
    (L : Life) : Prop :=
  ∀ submitted x c, op = .completeDelivery o submitted → caller.role = .driver →
    L.order = some x → x.deletedAt = none → L.code = some c →
    checkCode sha256 c submitted = .right →
    x.status = .outForDelivery ∨ (x.status = .delivered ∧ c.consumedAt = none)

/-- A change of the order row along an edge. -/
theorem statusStep_of_edge {x x' : Order} {t : OrderStatus} (hx : L.order = some x)
    (hx' : L'.order = some x') (ht : x'.status = t) (he : x.status.Edge t) :
    StatusStep L.status L'.status := by
  have hs : L.status = some x.status := by rw [Life.status, hx, Option.map_some]
  have hs' : L'.status = some t := by rw [Life.status, hx', Option.map_some, ht]
  rw [hs, hs']
  exact .edge he

/-- A change of other rows leaves the status alone. -/
theorem statusStep_of_status_eq (h : L'.status = L.status) : StatusStep L.status L'.status :=
  h ▸ .stay _

/-- The removal of the row of a terminal order. -/
theorem statusStep_of_bury {x : Order} {s : OrderAnalyticsSnapshot} {terminal : Time}
    (hx : L.order = some x) (hterm : terminalAt x = some terminal) :
    StatusStep L.status (if x.status = .completed then L.record s else L).bury.status := by
  have hs : L.status = some x.status := by rw [Life.status, hx, Option.map_some]
  have hterminal : x.status ∈ terminalStatuses := by
    unfold terminalAt at hterm
    cases hstatus : x.status with
    | completed => decide
    | cancelled => decide
    | _ => simp [hstatus] at hterm
  rw [hs]
  exact .remove hterminal

/-- Every move follows the diagram, if the codes meet only orders they may deliver. -/
theorem Move.statusStep (h : Move sha256 ps env caller o op L L')
    (hcode : CompletesDeliverable sha256 caller o op L) : StatusStep L.status L'.status := by
  cases h with
  | stay => exact .stay _
  | create _ hnone =>
    have hs : L.status = none := by rw [Life.status, hnone, Option.map_none]
    rw [hs]
    exact .place
  | accept hx _ hs => exact statusStep_of_edge hx rfl rfl (hs ▸ .accept)
  | prepare hx _ hs => exact statusStep_of_edge hx rfl rfl (hs ▸ .prepare)
  | sendOutNew hx _ hs => exact statusStep_of_edge hx rfl rfl (hs ▸ .sendOut)
  | sendOut hx _ hs => exact statusStep_of_edge hx rfl rfl (hs ▸ .sendOut)
  | deliver hx _ hs => exact statusStep_of_edge hx rfl rfl (hs ▸ .deliver)
  | complete hx _ hs => exact statusStep_of_edge hx rfl rfl (hs ▸ .complete)
  | autoComplete hx _ hs => exact statusStep_of_edge hx rfl rfl (hs ▸ .complete)
  | cancel hx _ hs => exact statusStep_of_edge hx rfl rfl (.cancel hs)
  | delete hx _ hterm => exact statusStep_of_bury hx hterm
  | purge hx _ hterm => exact statusStep_of_bury hx hterm
  | driverAccept hx =>
    refine statusStep_of_status_eq ?_
    rw [Life.status, Life.status, hx]
    rfl
  | completeDelivery hx hlive hrole hc hright =>
    rcases hcode _ _ _ rfl hrole hx hlive hc hright with hs | ⟨hs, -⟩
    · exact statusStep_of_edge hx rfl rfl (hs ▸ .deliver)
    · refine statusStep_of_status_eq ?_
      rw [Life.status, Life.status, hx, Option.map_some, Option.map_some, hs]
      rfl
  | chooseSelfDelivery => exact .stay _
  | requestDriver => exact .stay _
  | assignDriver => exact .stay _
  | recordLocation => exact .stay _
  | patchDelivery => exact .stay _

/-- If the order is still there, then it is no longer active and its code is used. -/
def Life.Settled (L : Life) : Prop :=
  ∀ x, L.order = some x → x.status ∉ activeStatuses ∧ ∃ c, L.code = some c ∧ c.consumedAt ≠ none

/-- A settled order stays settled, unless its identifier is drawn again. -/
theorem Move.settled (h : Move sha256 ps env caller o op L L') (ho : o ≠ env.uuid4 0)
    (hL : L.Settled) : L'.Settled := by
  -- a move that needs an active order contradicts the invariant
  have hactive : ∀ {x : Order}, L.order = some x → x.status ∈ activeStatuses → L'.Settled :=
    fun hx hs => absurd hs (hL _ hx).1
  cases h with
  | stay => exact hL
  | create hid => exact absurd hid ho
  | accept hx _ hs => exact hactive hx (hs ▸ by decide)
  | prepare hx _ hs => exact hactive hx (hs ▸ by decide)
  | sendOutNew hx _ hs => exact hactive hx (hs ▸ by decide)
  | sendOut hx _ hs => exact hactive hx (hs ▸ by decide)
  | deliver hx _ hs => exact hactive hx (hs ▸ by decide)
  | cancel hx _ hs => exact hactive hx hs
  | complete hx =>
    rintro y hy
    obtain rfl := Option.some.inj hy
    exact ⟨completed_not_active, (hL _ hx).2⟩
  | autoComplete hx =>
    rintro y hy
    obtain rfl := Option.some.inj hy
    exact ⟨completed_not_active, (hL _ hx).2⟩
  | delete => exact fun y hy => by cases hy
  | purge => exact fun y hy => by cases hy
  | driverAccept hx _ _ hc =>
    obtain ⟨-, c, hsome, -⟩ := hL _ hx
    rw [hc] at hsome
    cases hsome
  | completeDelivery hx _ _ hc _ =>
    rintro y hy
    obtain rfl := Option.some.inj hy
    exact ⟨delivered_not_active, _, rfl, by simp [DeliveryCode.consume]⟩
  | chooseSelfDelivery => exact hL
  | requestDriver => exact hL
  | assignDriver => exact hL
  | recordLocation => exact hL
  | patchDelivery => exact hL

end Diagram

/-! ### Runs that follow the diagram -/

section Runs

variable {sha256 : String → String} {w : World} {c : Call} {o : Id}

/-- A request follows the diagram. -/
structure World.FollowsDiagram (sha256 : String → String) (w : World) (c : Call) : Prop where
  step : ∀ o, StatusStep (w.status o) ((w.serve sha256 c).status o)
  terminal : ∀ o s t, w.status o = some s → s ∈ terminalStatuses →
    (w.serve sha256 c).status o = some t → t = s
  delivered : ∀ o, w.status o ≠ some .delivered → (w.serve sha256 c).status o = some .delivered →
    w.status o = some .outForDelivery

/-- If the request completes an order with the right code, it is one that it may deliver. -/
def World.CompletesDeliverable (sha256 : String → String) (w : World) (c : Call) : Prop :=
  ∀ o, Marketplace.CompletesDeliverable sha256 c.caller o c.op (w.db.life o)

/-- The request consumes the code of the order. -/
def World.consumesCode (sha256 : String → String) (o : Id) (w : World) (c : Call) : Bool :=
  match c.op, (w.respond sha256 c).1 with
  | .completeDelivery orderId _, .ok _ => orderId = o
  | _, _ => false

/-- A call that completes what is deliverable follows the diagram. -/
theorem World.Ready.followsDiagram (h : w.Ready) (hc : w.CompletesDeliverable sha256 c) :
    w.FollowsDiagram sha256 c := by
  have hstep : ∀ o, StatusStep (w.status o) ((w.serve sha256 c).status o) :=
    fun o => (h.moves sha256 c o).statusStep (hc o)
  refine ⟨hstep, ?_, fun o hne heq => ?_⟩
  · intro o s t hs hterm ht
    have hst := hstep o
    rw [hs, ht] at hst
    exact hst.eq_of_terminal hterm
  · have hst := hstep o
    rw [heq] at hst
    exact hst.eq_of_delivered hne

/-- A request that consumes a code finds the order in a status it may deliver and the code
unused, and leaves the order settled. -/
theorem consumesCode_spec (h : w.consumesCode sha256 o c = true)
    (hc : w.CompletesDeliverable sha256 c) :
    (w.db.life o).order ≠ none ∧ ¬(w.db.life o).Settled ∧
      ((w.serve sha256 c).db.life o).Settled := by
  unfold World.consumesCode at h
  split at h
  · next orderId submitted r hop hr =>
    obtain rfl : orderId = o := of_decide_eq_true h
    have hrun := exec_of_ok hr
    rw [hop] at hrun
    obtain ⟨_, hrun, -⟩ := run_reply_ok.mp hrun
    obtain ⟨hrole, x, code, hget, hlive, hcode, hright, hdb⟩ := completeDelivery_ok hrun
    have horder : (w.db.life orderId).order = some x := hget
    refine ⟨by simp [horder], fun hsettled => ?_, ?_⟩
    · obtain ⟨hactive, code', hcode', hused⟩ := hsettled x hget
      obtain rfl : code = code' := Option.some.inj (hcode.symm.trans hcode')
      rcases hc orderId submitted x code hop hrole hget hlive hcode hright with hs | ⟨-, hunused⟩
      · exact hactive (hs ▸ by decide)
      · exact hused hunused
    · have hlife := life_delivered (w.env c) c.caller submitted hget hcode
      rw [hdb, hlife]
      rintro y hy
      obtain rfl := Option.some.inj hy
      exact ⟨delivered_not_active, _, rfl, by simp [DeliveryCode.consume]⟩
  · cases h

/-- The code of the order has been consumed. -/
structure World.Consumed (w : World) (o : Id) : Prop where
  ready : w.Ready
  drawn : w.Drawn o
  settled : (w.db.life o).Settled

/-- A call that consumes the code leaves the code consumed. -/
theorem World.Ready.consumed_serve (h : w.Ready) (hconsumes : w.consumesCode sha256 o c = true)
    (hc : w.CompletesDeliverable sha256 c) : (w.serve sha256 c).Consumed o := by
  obtain ⟨hfound, -, hsettled⟩ := consumesCode_spec hconsumes hc
  refine ⟨h.serve c, World.Drawn.serve (h.drawn o fun hlife => ?_), hsettled⟩
  rw [hlife] at hfound
  exact hfound rfl

/-- A consumed code stays consumed. -/
theorem World.Consumed.serve (h : w.Consumed o) (c : Call) : (w.serve sha256 c).Consumed o where
  ready := h.ready.serve c
  drawn := h.drawn.serve
  settled := (h.ready.moves sha256 c o).settled h.drawn.ne_uuid4 h.settled

/-- **The state diagram.** In every run in which a right code meets only orders that it may
deliver, every request follows the diagram and no code is consumed twice. -/
theorem follows_state_diagram (sha256 : String → String) {w : World} (hw : w.Initial)
    {calls : List Call}
    (hcalls : EachStep (World.serve sha256) (World.CompletesDeliverable sha256) w calls) :
    EachStep (World.serve sha256) (World.FollowsDiagram sha256) w calls ∧
      ∀ o, countSteps (World.serve sha256) (World.consumesCode sha256 o) w calls ≤ 1 := by
  refine ⟨hcalls.guarantee (fun w c h _ => h.serve c) (fun w c h hc => h.followsDiagram hc)
    hw.ready, fun o => ?_⟩
  refine hcalls.count_le_one (I := World.Ready) (J := fun w => w.Consumed o)
    (fun w c h _ _ => h.serve c) (fun w c h hc hconsumes => h.consumed_serve hconsumes hc)
    (fun w c h _ => h.serve c) ?_ hw.ready
  intro w c h hc
  by_contra hconsumes
  exact (consumesCode_spec (Bool.eq_true_of_not_eq_false hconsumes) hc).2.1 h.settled

/-- A completion of an order out for delivery completes what is deliverable. -/
theorem World.completesDeliverable_of_status
    (h : ∀ o submitted, c.op = .completeDelivery o submitted →
      w.status o = some .outForDelivery) : w.CompletesDeliverable sha256 c := by
  intro o submitted x code hop _ hx _ _ _
  have hs := h o submitted hop
  rw [World.status, show w.db.orders.get o = some x from hx, Option.map_some] at hs
  exact .inl (Option.some.inj hs)

end Runs

/-- A driver completes an order that is on its way. -/
theorem follows_state_diagram_sent :
    EachStep (World.serve Sample.sha256) (World.FollowsDiagram Sample.sha256) Sample.start
        (Sample.sent ++ [Sample.request Sample.driver (.completeDelivery 0 "000000") 8]) ∧
      ∀ o, countSteps (World.serve Sample.sha256) (World.consumesCode Sample.sha256 o) Sample.start
        (Sample.sent ++ [Sample.request Sample.driver (.completeDelivery 0 "000000") 8]) ≤ 1 := by
  refine follows_state_diagram Sample.sha256 Sample.start_initial (eachStep_append.mpr ⟨?_, ?_⟩)
  · have hother : ∀ c ∈ Sample.sent, ∀ o submitted, c.op ≠ .completeDelivery o submitted := by
      simp [Sample.sent, Sample.place, Sample.request]
    rw [eachStep_iff]
    intro first c rest heq
    have hc : c ∈ Sample.sent := by simp [heq]
    exact World.completesDeliverable_of_status fun o submitted hop =>
      absurd hop (hother c hc o submitted)
  · refine ⟨World.completesDeliverable_of_status ?_, trivial⟩
    rintro o submitted hop
    obtain ⟨rfl, -⟩ := Op.completeDelivery.inj hop
    decide +kernel

/-- The customer cancels an order that a driver has accepted; the driver completes it all the
same, and then once more. -/
theorem completion_ignores_status :
    Sample.start.Initial ∧
      ¬EachStep (World.serve Sample.sha256) (World.FollowsDiagram Sample.sha256) Sample.start
        [Sample.place, Sample.request Sample.driver (.driverAccept 0) 2,
          Sample.request Sample.customer (.cancelOrder 0 none) 3,
          Sample.request Sample.driver (.completeDelivery 0 "000000") 4] ∧
      countSteps (World.serve Sample.sha256) (World.consumesCode Sample.sha256 0) Sample.start
        [Sample.place, Sample.request Sample.driver (.driverAccept 0) 2,
          Sample.request Sample.customer (.cancelOrder 0 none) 3,
          Sample.request Sample.driver (.completeDelivery 0 "000000") 4,
          Sample.request Sample.driver (.completeDelivery 0 "000000") 5] = 2 := by
  refine ⟨Sample.start_initial, fun h => ?_, by decide +kernel⟩
  obtain ⟨-, -, -, hlast, -⟩ := h
  have hleft := hlast.terminal 0 .cancelled .delivered (by decide +kernel) (by decide)
    (by decide +kernel)
  cases hleft

end Marketplace
