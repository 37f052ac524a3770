import Marketplace.Realtime.Subscribers

/-!
# What the seller's and the driver's client send

The seller's panel offers actions by the status of the order alone, and both clients post an
action under the route of the order. No action that is offered sends an order out, so while only
these clients act no order leaves the statuses before its departure; a choice of the fulfilment
stays on offer after it has been made; and the driver posts an action that has no route.
-/

namespace Marketplace

open Lib Txn OrderService

/-! ### The clients -/

/-- `OrderAction`. -/
structure OrderAction where
  label : String
  action : String
  destructive : Bool := false
deriving DecidableEq, Repr

/-- `orderActionsForStatus`. -/
def orderActionsForStatus : String → List OrderAction
  | "pending" =>
    [{ label := "Accept", action := "accept" },
     { label := "Cancel", action := "cancel", destructive := true }]
  | "accepted" =>
    [{ label := "Start preparing", action := "preparing" },
     { label := "Cancel", action := "cancel", destructive := true }]
  | "preparing" =>
    [{ label := "Self-deliver", action := "self-deliver" },
     { label := "Request a driver", action := "request-driver" }]
  | "out_for_delivery" => [{ label := "Mark delivered", action := "delivered" }]
  | "delivered" => [{ label := "Complete order", action := "complete" }]
  | "self_delivering" => [{ label := "Out for delivery", action := "out-for-delivery" }]
  | _ => []

/-- What `markDelivered` of the driver's client posts. -/
def markDeliveredAction : String := "deliver"

/-- The routes `POST /orders/{order_id}/…` of the orders router, for a request without a body. -/
def orderRoute (action : String) (o : Id) : Option Op :=
  match action with
  | "accept" => some (.acceptOrder o)
  | "preparing" => some (.markPreparing o)
  | "self-deliver" => some (.chooseSelfDelivery o)
  | "request-driver" => some (.requestDriver o)
  | "out-for-delivery" => some (.outForDelivery o)
  | "delivered" => some (.markDelivered o)
  | "complete" => some (.completeOrder o)
  | "cancel" => some (.cancelOrder o none)
  | _ => none

/-- `OrderApi.transition`: a client posts an action of an order. -/
structure Transition where
  caller : User
  orderId : Id
  action : String
  now : ℕ → Time
  transactionNow : Time

/-- The request that a route serves. -/
def Transition.call (p : Transition) (op : Op) : Call where
  caller := p.caller
  op := op
  now := p.now
  transactionNow := p.transactionNow

/-- A request of one of the two clients, or of a customer or an administrator. -/
inductive ClientRequest
  | transition (p : Transition)
  | call (c : Call)

/-- The server after a request of a client. -/
def World.receive (sha256 : String → String) (w : World) : ClientRequest → World
  | .transition p =>
    match orderRoute p.action p.orderId with
    | some op => w.serve sha256 (p.call op)
    | none => w
  | .call c => w.serve sha256 c

/-- The seller's panel offers the action for the status that the order has. -/
def World.Offers (w : World) (p : Transition) : Prop :=
  p.caller.role = .seller ∧ ∃ x, w.db.orders.get p.orderId = some x ∧ x.deletedAt = none ∧
    x.sellerId = p.caller.id ∧
      p.action ∈ (orderActionsForStatus x.status.label).map OrderAction.action

/-- The requests of a run: what is offered to sellers, `markDelivered` of drivers, and anything
that customers and administrators ask. -/
def World.Sends (w : World) : ClientRequest → Prop
  | .transition p => w.Offers p ∨ (p.caller.role = .driver ∧ p.action = markDeliveredAction)
  | .call c => c.caller.role = .customer ∨ c.caller.role = .admin

/-! ### The claim -/

/-- The codes of a forbidden actor, of an invalid transition and of a choice that has been made. -/
def refusalCodes : List String :=
  ["ORDER_NOT_FOUND", "PERMISSION_DENIED", "ORDER_INVALID_TRANSITION", "DELIVERY_ALREADY_STARTED",
   "FULFILLMENT_ALREADY_CHOSEN", "DRIVER_ALREADY_ASSIGNED"]

/-- An answer with such a code. -/
def Err.Refusal : Err → Prop
  | .app e => e.code ∈ refusalCodes
  | _ => False

/-- The server has no route for the action, or answers with a refusal. -/
def World.Refuses (sha256 : String → String) (w : World) (p : Transition) : Prop :=
  match orderRoute p.action p.orderId with
  | some op => ∃ e : Err, (w.respond sha256 (p.call op)).1 = .error e ∧ e.Refusal
  | none => True

/-- The seller is to deliver the order, which has not been delivered. -/
def World.SelfDelivered (w : World) (o : Id) : Prop :=
  ∃ x d, w.db.orders.get o = some x ∧ x.status ∈ activeStatuses ∧
    w.db.deliveries.get o = some d ∧ d.driverId = none

/-- Some sequence of offered actions leads to `delivered`. -/
def World.LeadsToDelivered (sha256 : String → String) (w : World) (o : Id) : Prop :=
  ∃ ps : List Transition,
    EachStep (World.receive sha256) World.Sends w (ps.map ClientRequest.transition) ∧
      (after (World.receive sha256) w (ps.map ClientRequest.transition)).status o = some .delivered

/-- The clients follow the server's state machine in a state and with the next request. -/
structure World.Follows (sha256 : String → String) (w : World) (q : ClientRequest) : Prop where
  accepted : ∀ p, q = .transition p → ¬w.Refuses sha256 p
  delivered : ∀ o, w.SelfDelivered o → w.LeadsToDelivered sha256 o

/-- The driver posts nothing, a fulfilment is chosen only while the choice is open, and no seller
is to deliver an order. -/
structure World.InStep (w : World) (q : ClientRequest) : Prop where
  routed : ∀ p, q = .transition p → p.action ≠ markDeliveredAction
  chosen : ∀ p, q = .transition p → p.action ∈ ["self-deliver", "request-driver"] →
    FulfillmentOpen w.db p.orderId
  assigned : ∀ o, ¬w.SelfDelivered o

/-! ### Statuses before the departure -/

/-- The statuses that are reached while nobody sends an order out. -/
def waitingStatuses : List OrderStatus := [.pending, .accepted, .preparing, .cancelled]

/-- The statuses at which the actions are offered, up to the departure. -/
theorem status_of_offered {s : OrderStatus} (hs : s ∈ waitingStatuses) {action : String}
    (h : action ∈ (orderActionsForStatus s.label).map OrderAction.action) :
    (action = "accept" ∧ s = .pending) ∨ (action = "cancel" ∧ (s = .pending ∨ s = .accepted)) ∨
      (action = "preparing" ∧ s = .accepted) ∨ (action = "self-deliver" ∧ s = .preparing) ∨
        (action = "request-driver" ∧ s = .preparing) := by
  have hall : ∀ s ∈ waitingStatuses,
      ∀ action ∈ (orderActionsForStatus s.label).map OrderAction.action,
        (action = "accept" ∧ s = .pending) ∨
          (action = "cancel" ∧ (s = .pending ∨ s = .accepted)) ∨
            (action = "preparing" ∧ s = .accepted) ∨ (action = "self-deliver" ∧ s = .preparing) ∨
              (action = "request-driver" ∧ s = .preparing) := by
    decide
  exact hall s hs action h

section Moves

variable {sha256 : String → String} {ps : PlatformSettings} {env : Env} {caller : User} {o : Id}
  {op : Op} {L L' : Life}

/-- Only a departure takes an order out of these statuses. -/
theorem Move.waiting (h : Move sha256 ps env caller o op L L') (hrole : caller.role ≠ .driver)
    (hout : op ≠ .outForDelivery o) (hL : ∀ x, L.order = some x → x.status ∈ waitingStatuses) :
    ∀ x, L'.order = some x → x.status ∈ waitingStatuses := by
  have hnever : ∀ {x : Order} {s : OrderStatus}, L.order = some x → x.status = s →
      s ∉ waitingStatuses → False := fun hx hs hnot => hnot (hs ▸ hL _ hx)
  intro x' hx'
  cases h with
  | create =>
    obtain rfl := Option.some.inj hx'
    exact List.mem_cons_self
  | accept =>
    obtain rfl := Option.some.inj hx'
    exact List.mem_cons_of_mem _ List.mem_cons_self
  | prepare =>
    obtain rfl := Option.some.inj hx'
    exact List.mem_cons_of_mem _ (List.mem_cons_of_mem _ List.mem_cons_self)
  | cancel =>
    obtain rfl := Option.some.inj hx'
    simp [Order.cancel, waitingStatuses]
  | driverAccept hx =>
    obtain rfl := Option.some.inj hx'
    have hwaiting := hL _ hx
    exact hwaiting
  | delete => cases hx'
  | purge => cases hx'
  | sendOutNew => exact absurd rfl hout
  | sendOut => exact absurd rfl hout
  | deliver hx _ hs => exact (hnever hx hs (by decide)).elim
  | complete hx _ hs => exact (hnever hx hs (by decide)).elim
  | autoComplete hx _ hs => exact (hnever hx hs (by decide)).elim
  | completeDelivery _ _ hdriver => exact absurd hdriver hrole
  | _ => exact hL x' hx'

end Moves

/-- The server has no route for what the driver posts. -/
theorem orderRoute_markDelivered (o : Id) : orderRoute markDeliveredAction o = none := rfl

/-- Whether the panel offers an action can be read off the order. -/
theorem World.offers_of_any {w : World} {p : Transition} (hrole : p.caller.role = .seller)
    (h : (w.db.orders.get p.orderId).any fun x => x.deletedAt = none ∧ x.sellerId = p.caller.id ∧
      p.action ∈ (orderActionsForStatus x.status.label).map OrderAction.action) : w.Offers p := by
  obtain ⟨x, hx, hoffered⟩ := (Option.any_eq_true _ _).mp h
  exact ⟨hrole, x, hx, of_decide_eq_true hoffered⟩

/-- An active order whose delivery has no driver is self-delivered. -/
theorem World.selfDelivered_of_any {w : World} {o : Id}
    (horder : (w.db.orders.get o).any fun x => x.status ∈ activeStatuses)
    (hdelivery : (w.db.deliveries.get o).any fun d => d.driverId = none) : w.SelfDelivered o := by
  obtain ⟨x, hx, hactive⟩ := (Option.any_eq_true _ _).mp horder
  obtain ⟨d, hd, hdriver⟩ := (Option.any_eq_true _ _).mp hdelivery
  exact ⟨x, d, hx, of_decide_eq_true hactive, hd, of_decide_eq_true hdriver⟩

/-- What holds between any two requests of such a run. -/
structure World.Waiting (w : World) : Prop where
  ready : w.Ready
  waiting : ∀ o x, (w.db.life o).order = some x → x.status ∈ waitingStatuses
  /-- An order has one fulfilment at most. -/
  exclusive : ∀ o, (w.db.life o).fulfilment.Exclusive

section Runs

variable {sha256 : String → String} {w : World} {c : Call} {p : Transition} {q : ClientRequest}
  {o : Id}

/-- Nobody but a seller or a driver sends an order out. -/
theorem outForDelivery_caller {env : Env} {caller : User} {db db' : Db} {full : OrderFull}
    (h : (outForDelivery env caller o).run db = .ok (full, db')) :
    caller.role = .seller ∨ caller.role = .driver := by
  simp only [outForDelivery, bind_eq, run_bind_ok, run_raiseIf_ok] at h
  obtain ⟨_, _, ⟨hrole, -⟩, -⟩ := h
  simpa [or_iff_not_imp_left] using hrole

/-- A call that sends no order out keeps the world waiting. -/
theorem World.Waiting.serve (h : w.Waiting) (hrole : c.caller.role ≠ .driver)
    (hout : c.caller.role = .seller → ∀ o, c.op ≠ .outForDelivery o) :
    (w.serve sha256 c).Waiting := by
  cases hr : (w.respond sha256 c).1 with
  | error e =>
    refine ⟨h.ready.serve c, fun o => ?_, fun o => ?_⟩
    · rw [serve_of_error hr]
      exact h.waiting o
    · rw [serve_of_error hr]
      exact h.exclusive o
  | ok r =>
    have hnot : ∀ o, c.op ≠ .outForDelivery o := by
      intro o hop
      have hrun := exec_of_ok hr
      rw [hop] at hrun
      obtain ⟨_, hrun, -⟩ := run_reply_ok.mp hrun
      rcases outForDelivery_caller hrun with hseller | hdriver
      · exact hout hseller o hop
      · exact hrole hdriver
    exact ⟨h.ready.serve c,
      fun o => (h.ready.moves sha256 c o).waiting hrole (hnot o) (h.waiting o),
      fun o => (h.ready.moves sha256 c o).exclusive (h.exclusive o)⟩

/-- An offered action has a route, which is not that of the departure. -/
theorem route_of_offered {s : OrderStatus} (hs : s ∈ waitingStatuses) {action : String}
    (h : action ∈ (orderActionsForStatus s.label).map OrderAction.action) (o : Id) :
    ∃ op, orderRoute action o = some op ∧ ∀ o', op ≠ .outForDelivery o' := by
  rcases status_of_offered hs h with ⟨rfl, -⟩ | ⟨rfl, -⟩ | ⟨rfl, -⟩ | ⟨rfl, -⟩ | ⟨rfl, -⟩
  · exact ⟨.acceptOrder o, rfl, by simp⟩
  · exact ⟨.cancelOrder o none, rfl, by simp⟩
  · exact ⟨.markPreparing o, rfl, by simp⟩
  · exact ⟨.chooseSelfDelivery o, rfl, by simp⟩
  · exact ⟨.requestDriver o, rfl, by simp⟩

/-- What the clients send keeps the world waiting. -/
theorem World.Waiting.receive (h : w.Waiting) (hq : w.Sends q) : (w.receive sha256 q).Waiting := by
  cases q with
  | transition p =>
    rcases hq with ⟨hrole, x, hx, -, -, hoffered⟩ | ⟨-, haction⟩
    · have hs := h.waiting p.orderId x hx
      obtain ⟨op, hroute, hout⟩ := route_of_offered hs hoffered p.orderId
      have hdriver : (p.call op).caller.role ≠ .driver := by
        change p.caller.role ≠ .driver
        simp [hrole]
      have hserve : (w.serve sha256 (p.call op)).Waiting := h.serve hdriver fun _ => hout
      simpa only [World.receive, hroute] using hserve
    · simpa only [World.receive, haction, orderRoute_markDelivered] using h
  | call c =>
    refine h.serve ?_ fun hseller => ?_
    · rcases hq with hrole | hrole
      · simp [hrole]
      · simp [hrole]
    · rcases hq with hrole | hrole
      · simp [hrole] at hseller
      · simp [hrole] at hseller

/-- While only the clients act no order is delivered. -/
theorem World.Waiting.not_leads (h : w.Waiting) : ¬w.LeadsToDelivered sha256 o := by
  rintro ⟨ps, hsends, hdelivered⟩
  have hend : (after (World.receive sha256) w (ps.map ClientRequest.transition)).Waiting :=
    hsends.invariant (I := World.Waiting) (fun w q hw hq => hw.receive hq) h
  obtain ⟨x, hx, hstatus⟩ := Option.map_eq_some_iff.mp hdelivered
  have hwaiting := hend.waiting o x hx
  rw [hstatus] at hwaiting
  revert hwaiting
  decide

end Runs

/-! ### Answers to the offered actions -/

/-- A refusal is an error of the application. -/
theorem Err.Refusal.isApp {e : Err} (h : e.Refusal) : e.IsApp := by
  cases e with
  | app _ => trivial
  | _ => exact h

section Answers

variable {env : Env} {caller : User} {o : Id} {db : Db} {x : Order} {e : Err}

/-- Loading the order in full refuses nothing. -/
theorem neverRefuses_loaded : (loaded o).NeverRaises Err.Refusal :=
  .mono (fun _ he => he.isApp) settled_loaded

/-- Inserting a row refuses nothing. -/
theorem neverRefuses_insertRow {key : Key} {taken : Db → Bool} {constraint : String}
    {put : Db → Db} : (insertRow key taken constraint put).NeverRaises Err.Refusal :=
  .mono (fun _ he => he.isApp) settled_insertRow

/-- A look-up refuses nothing. -/
theorem neverRefuses_scalarOneOrNone {ρ : Type} (rows : List ρ) :
    (scalarOneOrNone rows).NeverRaises Err.Refusal := by
  rcases rows with _ | ⟨a, _ | ⟨b, rest⟩⟩
  · exact .pure _
  · exact .pure _
  · exact .raise id

/-- Finding the caller's seller row refuses nothing. -/
theorem neverRefuses_getCallerSeller : (getCallerSeller caller).NeverRaises Err.Refusal := by
  have hmissing : ¬Err.sellerProfileMissing.Refusal := by
    simp [Err.sellerProfileMissing, Err.Refusal, refusalCodes]
  exact .bind .read fun _ => .bind (neverRefuses_scalarOneOrNone _) fun _ => .getOrRaise _ hmissing

/-- The order is found and locked for the caller. -/
theorem run_lockOrder (hact : Actionable db caller o x) :
    (lockOrderOr404 o caller).run db = .ok (x, db) :=
  run_lockOrderOr404_ok.mpr ⟨hact, rfl⟩

/-- Accepting a pending order is not refused. -/
theorem acceptOrder_answer (hrole : caller.role = .seller) (hact : Actionable db caller o x)
    (hs : x.status = .pending) (h : (acceptOrder env caller o).run db = .error e) :
    ¬e.Refusal := by
  unfold acceptOrder at h
  rw [raiseIf_of_not (not_not.mpr hrole), bind_eq, ret_bind, bind_eq,
    run_bind_of_ok (run_lockOrder hact), raiseIf_of_not (not_not.mpr hs), bind_eq, ret_bind] at h
  exact (NeverRaises.bind (.updateRow _ _) fun _ => neverRefuses_loaded).run h

/-- Preparing an accepted order is not refused. -/
theorem markPreparing_answer (hrole : caller.role = .seller) (hact : Actionable db caller o x)
    (hs : x.status = .accepted) (h : (markPreparing env caller o).run db = .error e) :
    ¬e.Refusal := by
  unfold markPreparing at h
  rw [raiseIf_of_not (not_not.mpr hrole), bind_eq, ret_bind, bind_eq,
    run_bind_of_ok (run_lockOrder hact), raiseIf_of_not (not_not.mpr hs), bind_eq, ret_bind] at h
  exact (NeverRaises.bind (.updateRow _ _) fun _ => neverRefuses_loaded).run h

/-- Cancelling a pending or accepted order is not refused. -/
theorem cancelOrder_answer {reason : Option String} (hrole : caller.role = .seller)
    (hact : Actionable db caller o x) (hs : x.status = .pending ∨ x.status = .accepted)
    (h : (cancelOrder env caller o reason).run db = .error e) : ¬e.Refusal := by
  have hactive : ¬(x.status ∈ terminalStatuses ∨ x.status = .delivered) := by
    rcases hs with hs | hs
    · rw [hs]
      decide
    · rw [hs]
      decide
  have hmay : ensureMayCancel caller x.status = ret () := by
    unfold ensureMayCancel
    rw [hrole]
    refine raiseIf_of_not (not_not.mpr ?_) _
    rcases hs with hs | hs
    · rw [hs]
      decide
    · rw [hs]
      decide
  unfold cancelOrder at h
  rw [bind_eq, run_bind_of_ok (run_lockOrder hact), raiseIf_of_not hactive, bind_eq, ret_bind, hmay,
    bind_eq, ret_bind] at h
  exact (NeverRaises.bind .read fun _ => .bind (neverRaises_lockAssignments _) fun _ =>
    .bind (.updateRow _ _) fun _ => .bind (neverRaises_cancelAssignments _) fun _ =>
      neverRefuses_loaded).run h

/-- The fulfilment of an order can be chosen as long as the choice is open. -/
theorem run_ensureFulfillmentOpen (hopen : FulfillmentOpen db o) :
    (ensureFulfillmentOpen o).run db = .ok ((), db) :=
  run_ensureFulfillmentOpen_ok.mpr ⟨hopen, rfl⟩

/-- A choice that has been made is refused. -/
theorem run_ensureFulfillmentOpen_of_chosen (hsingle : (db.fulfilment o).Exclusive)
    (hchosen : ¬FulfillmentOpen db o) :
    (ensureFulfillmentOpen o).run db = .error Err.fulfillmentAlreadyChosen := by
  unfold ensureFulfillmentOpen
  cases hdelivery : db.deliveries.get o with
  | some d => simp [hdelivery]
  | none =>
    have hactive : (db.fulfilment o).active ≠ [] := by
      intro hnil
      have hnone := List.filter_eq_nil_iff.mp hnil
      exact hchosen ⟨hdelivery, fun a ha => by simpa using hnone a ha⟩
    have hone : (db.fulfilment o).active.length = 1 := by
      have hpos := List.length_pos_iff.mpr hactive
      have hsingle := hsingle.single
      omega
    obtain ⟨a, ha⟩ := List.length_eq_one_iff.mp hone
    have hrows :
        (db.assignmentsOf o).filter (fun a => a.status ∈ activeAssignmentStatuses) = [a] := ha
    simp [hdelivery, hrows, scalarOneOrNone]

/-- That the fulfilment was already chosen is a refusal. -/
theorem refusal_fulfillmentAlreadyChosen : Err.fulfillmentAlreadyChosen.Refusal := by
  change "FULFILLMENT_ALREADY_CHOSEN" ∈ refusalCodes
  decide

/-- A program that begins with the check of the choice is refused exactly when it is made. -/
theorem ensureFulfillmentOpen_answer {α : Type} {rest : Tx α} (hrest : rest.NeverRaises Err.Refusal)
    (hsingle : (db.fulfilment o).Exclusive) :
    FulfillmentOpen db o ↔
      ∀ e, ((ensureFulfillmentOpen o).bind fun _ => rest).run db = .error e → ¬e.Refusal := by
  constructor
  · intro hopen e h
    rw [run_bind_of_ok (run_ensureFulfillmentOpen hopen)] at h
    exact hrest.run h
  · intro h
    by_contra hchosen
    have herror := run_bind_of_error (f := fun _ => rest)
      (run_ensureFulfillmentOpen_of_chosen hsingle hchosen)
    exact h _ herror refusal_fulfillmentAlreadyChosen

/-- Choosing self-delivery is refused exactly when the fulfilment is no longer open. -/
theorem chooseSelfDelivery_answer (hrole : caller.role = .seller) (hact : Actionable db caller o x)
    (hs : x.status = .preparing) (hsingle : (db.fulfilment o).Exclusive) :
    FulfillmentOpen db o ↔
      ∀ e, (chooseSelfDelivery env caller o).run db = .error e → ¬e.Refusal := by
  have hstatus : ¬x.status ∉ [OrderStatus.accepted, .preparing] := by
    rw [hs]
    decide
  have hid := hact.id_eq
  unfold chooseSelfDelivery
  rw [raiseIf_of_not (not_not.mpr hrole), bind_eq, ret_bind, bind_eq,
    run_bind_of_ok (run_lockOrder hact), raiseIf_of_not hstatus, bind_eq, ret_bind, bind_eq, hid]
  exact ensureFulfillmentOpen_answer (.bind neverRefuses_getCallerSeller fun _ =>
    .bind neverRefuses_insertRow fun _ => neverRefuses_loaded) hsingle

/-- Requesting a driver is refused exactly when the fulfilment is no longer open. -/
theorem requestDriver_answer (hrole : caller.role = .seller) (hact : Actionable db caller o x)
    (hs : x.status = .preparing) (hsingle : (db.fulfilment o).Exclusive) :
    FulfillmentOpen db o ↔ ∀ e, (requestDriver env caller o).run db = .error e → ¬e.Refusal := by
  have hstatus : ¬x.status ∉ [OrderStatus.accepted, .preparing] := by
    rw [hs]
    decide
  have hid := hact.id_eq
  unfold requestDriver
  rw [raiseIf_of_not (not_not.mpr hrole), bind_eq, ret_bind, bind_eq,
    run_bind_of_ok (run_lockOrder hact), raiseIf_of_not hstatus, bind_eq, ret_bind, bind_eq, hid]
  exact ensureFulfillmentOpen_answer (.bind neverRefuses_getCallerSeller fun _ =>
    .bind neverRefuses_insertRow fun _ => neverRefuses_loaded) hsingle

/-- A service function raises what its endpoint answers. -/
theorem run_reply_error {α : Type} {p : Tx α} {f : α → Reply} :
    (p.bind fun a => ret (f a)).run db = .error e ↔ p.run db = .error e := by
  simp

end Answers

/-! ### The clients and the server -/

section Runs

variable {sha256 : String → String} {w : World} {p : Transition} {q : ClientRequest} {o : Id}

/-- An endpoint answers with an error exactly when its program raises it. -/
theorem respond_error_iff {c : Call} {e : Err} :
    (w.respond sha256 c).1 = .error e ↔
      (c.op.exec sha256 (w.env c) c.caller).run w.db = .error e := by
  constructor
  · exact run_of_session_error
  · intro h
    rw [World.respond, session, h]

/-- An offered action is refused when its route answers with a refusal. -/
theorem not_refuses_of_route {op : Op} (hroute : orderRoute p.action p.orderId = some op) :
    ¬w.Refuses sha256 p ↔
      ∀ e, (op.exec sha256 (w.env (p.call op)) p.caller).run w.db = .error e → ¬e.Refusal := by
  rw [World.Refuses, hroute]
  simp only [not_exists, not_and]
  exact forall_congr' fun e => imp_congr_left respond_error_iff

/-- Of the actions that are offered the server refuses a second choice of the fulfilment only. -/
theorem World.Waiting.not_refuses_iff (h : w.Waiting) (hoffers : w.Offers p) :
    ¬w.Refuses sha256 p ↔
      (p.action ∈ ["self-deliver", "request-driver"] → FulfillmentOpen w.db p.orderId) := by
  obtain ⟨hrole, x, hx, hlive, howner, hoffered⟩ := hoffers
  have hact : Actionable w.db p.caller p.orderId x :=
    ⟨hx, hlive, fun _ => howner, fun hcustomer => by simp [hrole] at hcustomer⟩
  have hsingle : (w.db.fulfilment p.orderId).Exclusive := h.exclusive p.orderId
  rcases status_of_offered (h.waiting p.orderId x hx) hoffered with
    ⟨haction, hs⟩ | ⟨haction, hs⟩ | ⟨haction, hs⟩ | ⟨haction, hs⟩ | ⟨haction, hs⟩
  · have hroute : orderRoute p.action p.orderId = some (.acceptOrder p.orderId) := by
      rw [haction]
      rfl
    rw [not_refuses_of_route hroute]
    refine iff_of_true (fun e he => ?_) (by simp [haction])
    exact acceptOrder_answer hrole hact hs (run_reply_error.mp he)
  · have hroute : orderRoute p.action p.orderId = some (.cancelOrder p.orderId none) := by
      rw [haction]
      rfl
    rw [not_refuses_of_route hroute]
    refine iff_of_true (fun e he => ?_) (by simp [haction])
    exact cancelOrder_answer hrole hact hs (run_reply_error.mp he)
  · have hroute : orderRoute p.action p.orderId = some (.markPreparing p.orderId) := by
      rw [haction]
      rfl
    rw [not_refuses_of_route hroute]
    refine iff_of_true (fun e he => ?_) (by simp [haction])
    exact markPreparing_answer hrole hact hs (run_reply_error.mp he)
  · have hroute : orderRoute p.action p.orderId = some (.chooseSelfDelivery p.orderId) := by
      rw [haction]
      rfl
    have hmem : p.action ∈ ["self-deliver", "request-driver"] := by simp [haction]
    rw [not_refuses_of_route hroute, imp_iff_right hmem,
      chooseSelfDelivery_answer hrole hact hs hsingle]
    exact forall_congr' fun e => imp_congr_left run_reply_error
  · have hroute : orderRoute p.action p.orderId = some (.requestDriver p.orderId) := by
      rw [haction]
      rfl
    have hmem : p.action ∈ ["self-deliver", "request-driver"] := by simp [haction]
    rw [not_refuses_of_route hroute, imp_iff_right hmem,
      requestDriver_answer hrole hact hs hsingle]
    exact forall_congr' fun e => imp_congr_left run_reply_error

/-- In a state of such a run and for the next request. -/
theorem World.Waiting.follows_iff (h : w.Waiting) (hq : w.Sends q) :
    w.Follows sha256 q ↔ w.InStep q := by
  constructor
  · intro hfollows
    have hrouted : ∀ p, q = .transition p → p.action ≠ markDeliveredAction := by
      intro p hqp haction
      refine hfollows.accepted p hqp ?_
      rw [World.Refuses, haction, orderRoute_markDelivered]
      trivial
    refine ⟨hrouted, ?_, fun o hself => h.not_leads (hfollows.delivered o hself)⟩
    rintro p rfl hchoice
    have hoffers : w.Offers p := hq.resolve_right fun hdriver => hrouted p rfl hdriver.2
    exact (h.not_refuses_iff hoffers).mp (hfollows.accepted p rfl) hchoice
  · intro hstep
    refine ⟨?_, fun o hself => absurd hself (hstep.assigned o)⟩
    rintro p rfl
    have hoffers : w.Offers p := hq.resolve_right fun hdriver => hstep.routed p rfl hdriver.2
    exact (h.not_refuses_iff hoffers).mpr (hstep.chosen p rfl)

/-- Before the first request there is no order. -/
theorem World.Initial.waiting (h : w.Initial) : w.Waiting where
  ready := h.ready
  waiting o x hx := by
    rw [h.noOrder o] at hx
    cases hx
  exclusive o := by
    rw [h.noOrder o]
    exact Fulfilment.exclusive_of_active_eq_nil rfl

/-- In every run of the two clients among customers and administrators, the clients follow the
server's state machine exactly as long as no driver posts, no choice is made twice and no seller
has an order to deliver. -/
theorem clients_follow_iff {run : List ClientRequest} (hw : w.Initial)
    (hrun : EachStep (World.receive sha256) World.Sends w run) :
    EachStep (World.receive sha256) (fun w q => w.Follows sha256 q ↔ w.InStep q) w run := by
  refine hrun.guarantee (I := World.Waiting) ?_ ?_ hw.waiting
  · exact fun w q hw hq => hw.receive hq
  · exact fun w q hw hq => hw.follows_iff hq

end Runs

namespace Sample

/-- The seller's panel posts an action of the first order. -/
def pressed (action : String) (time : Time) : ClientRequest :=
  .transition
    { caller := seller, orderId := 0, action, now := fun _ => time, transactionNow := time }

/-- The seller prepares the customer's order and chooses a fulfilment. -/
def panelRun (choices : List ClientRequest) : List ClientRequest :=
  [.call place, pressed "accept" 2, pressed "preparing" 3] ++ choices

end Sample

/-- The seller prepares an order and requests a driver. -/
theorem clients_follow_request :
    EachStep (World.receive Sample.sha256) (fun w q => w.Follows Sample.sha256 q ↔ w.InStep q)
      Sample.start (Sample.panelRun [Sample.pressed "request-driver" 4]) := by
  refine clients_follow_iff Sample.start_initial ⟨.inl rfl, ?_, ?_, ?_, trivial⟩
  · exact .inl (World.offers_of_any rfl (by decide +kernel))
  · exact .inl (World.offers_of_any rfl (by decide +kernel))
  · exact .inl (World.offers_of_any rfl (by decide +kernel))

/-- The seller chooses to deliver, presses the same button again and is refused. Nothing that is
offered leads to the delivery of the order. -/
theorem choice_still_offered :
    Sample.start.Initial ∧
      EachStep (World.receive Sample.sha256) World.Sends Sample.start
        (Sample.panelRun [Sample.pressed "self-deliver" 4, Sample.pressed "self-deliver" 5]) ∧
      ¬EachStep (World.receive Sample.sha256)
        (fun w q => ∀ p, q = .transition p → ¬w.Refuses Sample.sha256 p) Sample.start
        (Sample.panelRun [Sample.pressed "self-deliver" 4, Sample.pressed "self-deliver" 5]) ∧
      ¬EachStep (World.receive Sample.sha256)
        (fun w _ => ∀ o, w.SelfDelivered o → w.LeadsToDelivered Sample.sha256 o) Sample.start
        (Sample.panelRun [Sample.pressed "self-deliver" 4, Sample.pressed "self-deliver" 5]) := by
  have hsends : EachStep (World.receive Sample.sha256) World.Sends Sample.start
      (Sample.panelRun [Sample.pressed "self-deliver" 4, Sample.pressed "self-deliver" 5]) := by
    refine ⟨.inl rfl, ?_, ?_, ?_, ?_, trivial⟩
    · exact .inl (World.offers_of_any rfl (by decide +kernel))
    · exact .inl (World.offers_of_any rfl (by decide +kernel))
    · exact .inl (World.offers_of_any rfl (by decide +kernel))
    · exact .inl (World.offers_of_any rfl (by decide +kernel))
  refine ⟨Sample.start_initial, hsends, fun h => ?_, fun h => ?_⟩
  · obtain ⟨-, -, -, -, hlast, -⟩ := h
    exact hlast _ rfl ⟨Err.fulfillmentAlreadyChosen, by decide +kernel,
      refusal_fulfillmentAlreadyChosen⟩
  · obtain ⟨-, -, -, -, hlast, -⟩ := h
    obtain ⟨hplace, haccept, hprepare, hchoose, -⟩ := hsends
    have hfirst : EachStep (World.receive Sample.sha256) World.Sends Sample.start
        (Sample.panelRun [Sample.pressed "self-deliver" 4]) :=
      ⟨hplace, haccept, hprepare, hchoose, trivial⟩
    have hwaiting := hfirst.invariant (I := World.Waiting) (fun w q hw hq => hw.receive hq)
      Sample.start_initial.waiting
    exact hwaiting.not_leads
      (hlast 0 (World.selfDelivered_of_any (by decide +kernel) (by decide +kernel)))

end Marketplace
