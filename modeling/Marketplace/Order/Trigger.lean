import Marketplace.Order.Exclusivity

/-!
# The out-for-delivery trigger

The seller of an order and its driver may both send it out. `out_for_delivery` looks at the
order and at its delivery under the lock on the order row, so of any number of calls one at
most succeeds, and the two stamps that it leaves are written once.
-/

namespace Marketplace

open Lib Txn OrderService

/-! ### What is recorded of the trigger -/

/-- An order and what `out_for_delivery` reads and writes of its delivery. -/
structure Trigger where
  order : Option Order := none
  /-- The driver of the delivery row, when there is a row, and when the delivery was started. -/
  delivery : Option (Option Id × Option Time) := none

/-- The trigger of one order. -/
def Life.trigger (L : Life) : Trigger where
  order := L.order
  delivery := L.delivery.map fun d => (d.driverId, d.startedAt)

/-- The trigger of the order `o`. -/
def Db.trigger (db : Db) (o : Id) : Trigger := (db.life o).trigger

/-- Who may send out an order: its seller, or the driver of its delivery. -/
def MaySendOut (caller : User) (seller : Id) (driver : Option Id) : Prop :=
  (caller.role = .seller ∧ caller.id = seller) ∨ (caller.role = .driver ∧ driver = some caller.id)

namespace Trigger

def startedAt (T : Trigger) : Option Time := T.delivery.bind Prod.snd

/-- A change that sends nothing out: as long as the order is there, its stamps stay, whose it is
and whose its delivery is. -/
structure Kept (T T' : Trigger) : Prop where
  order : ∀ x', T'.order = some x' → ∃ x, T.order = some x ∧ x'.sellerId = x.sellerId ∧
    x'.deletedAt = x.deletedAt ∧ x'.outForDeliveryAt = x.outForDeliveryAt
  startedAt : T'.order ≠ none → T'.startedAt = T.startedAt
  delivery : T'.order ≠ none → ∀ d, T.delivery = some d → T'.delivery = some d

/-- The order is sent out by the caller, who may: the two stamps are written. -/
def Sent (env : Env) (caller : User) (T T' : Trigger) : Prop :=
  ∃ x driver, T.order = some x ∧ x.deletedAt = none ∧ x.outForDeliveryAt = none ∧
    (∀ d, T.delivery = some d → d.1 = driver) ∧ MaySendOut caller x.sellerId driver ∧
    T'.order = some (x.sendOut (env.now 1)) ∧ T'.delivery = some (driver, some (env.now 0))

/-- A trigger is kept as it is. -/
theorem kept_refl (T : Trigger) : T.Kept T where
  order x hx := ⟨x, hx, rfl, rfl, rfl⟩
  startedAt _ := rfl
  delivery _ _ h := h

/-- A trigger kept twice is kept. -/
theorem Kept.trans {T U V : Trigger} (h : T.Kept U) (h' : U.Kept V) : T.Kept V := by
  have hthere : V.order ≠ none → U.order ≠ none := by
    intro hV
    obtain ⟨x, hx⟩ := Option.ne_none_iff_exists'.mp hV
    obtain ⟨y, hy, -⟩ := h'.order x hx
    rw [hy]
    exact Option.some_ne_none y
  refine ⟨fun x hx => ?_, fun hV => ?_, fun hV d hd => ?_⟩
  · obtain ⟨y, hy, hseller, hdeleted, hout⟩ := h'.order x hx
    obtain ⟨z, hz, hseller', hdeleted', hout'⟩ := h.order y hy
    exact ⟨z, hz, hseller.trans hseller', hdeleted.trans hdeleted', hout.trans hout'⟩
  · exact (h'.startedAt hV).trans (h.startedAt (hthere hV))
  · exact h'.delivery hV d (h.delivery (hthere hV) d hd)

/-- An order that goes keeps nothing. -/
theorem kept_of_none {T T' : Trigger} (h : T'.order = none) : T.Kept T' where
  order x hx := by
    rw [h] at hx
    cases hx
  startedAt hne := absurd h hne
  delivery hne := absurd h hne

end Trigger

/-! ### The lock and the writes -/

/-- The lock on an order protects its trigger. -/
def triggerLocking : Locking Db Key where
  agree key s t :=
    match key with
    | .order o => t.trigger o = s.trigger o
    | _ => True
  refl key s := by
    cases key with
    | _ => trivial
  trans {key s t u} hst htu := by
    cases key with
    | order o => exact Eq.trans htu hst
    | _ => trivial

/-- The kinds of writes that send an order out, or choose who delivers it. -/
def triggerKinds : List WriteKind :=
  [.order (some .outForDelivery), .giveTo, .addDelivery, .start]

/-- A write that keeps the trigger of every order, or of every order but the one it has locked. -/
def KeepsTriggers (o : Id) (key : Key) (f : Db → Db) : Prop :=
  ∀ db, (db.trigger o).Kept ((f db).trigger o) ∧
    ∀ o', key ≠ .order o' → (f db).trigger o' = db.trigger o'

section Writes

variable {db : Db} {o : Id} {key : Key} {f : Db → Db} {K : List WriteKind}

/-- The trigger is part of the order's life. -/
theorem trigger_of_life {db' : Db} (h : db'.life o = db.life o) : db'.trigger o = db.trigger o :=
  congrArg Life.trigger h

/-- A write that leaves every trigger alone. -/
theorem keepsTriggers_of_eq (h : ∀ db o', (f db).trigger o' = db.trigger o') :
    KeepsTriggers o key f := by
  refine fun db => ⟨?_, fun o' _ => h db o'⟩
  rw [h db o]
  exact Trigger.kept_refl _

/-- A change of a delivery row that keeps its driver and its stamp. -/
theorem trigger_modifyDelivery {id : Id} {f : Delivery → Delivery}
    (hkey : ∀ d, (f d).orderId = d.orderId) (hdriver : ∀ d, (f d).driverId = d.driverId)
    (hstarted : ∀ d, (f d).startedAt = d.startedAt) :
    (db.modifyDelivery id f).trigger o = db.trigger o := by
  unfold Db.trigger
  by_cases ho : o = id
  · subst ho
    rw [life_modifyDelivery_self hkey]
    simp only [Life.trigger, Option.map_map]
    congr 2
    funext d
    simp only [Function.comp_apply, hdriver, hstarted]
  · rw [life_modifyDelivery_of_ne hkey ho]

/-- Modifying the order's row changes the order of its trigger. -/
theorem trigger_modifyOrder_self {f : Order → Order} (hf : ∀ x, (f x).id = x.id) :
    (db.modifyOrder o f).trigger o =
      { db.trigger o with order := (db.trigger o).order.map f } := by
  unfold Db.trigger
  rw [life_modifyOrder_self hf]
  rfl

/-- A delivery added for the order joins its trigger. -/
theorem trigger_addDelivery_self {d : Delivery} (hd : d.orderId = o) :
    (db.addDelivery d).trigger o =
      { db.trigger o with
        delivery := (db.trigger o).delivery.or (some (d.driverId, d.startedAt)) } := by
  unfold Db.trigger
  rw [life_addDelivery_self hd]
  simp only [Life.trigger]
  cases (db.life o).delivery with
  | none => rfl
  | some d' => rfl

/-- The writes on orders but those that send out keep the triggers. -/
theorem OrderWrite.keepsTriggers (hK : ∀ k ∈ K, k ∉ triggerKinds) (h : OrderWrite K key f) :
    KeepsTriggers o key f := by
  cases h with
  | modifyOrder id target f hf h =>
    refine fun db => ⟨?_, fun o' ho' => ?_⟩
    · by_cases ho : o = id
      · subst ho
        have htarget : target ≠ some .outForDelivery := by
          rintro rfl
          exact hK _ h (by decide)
        rw [trigger_modifyOrder_self hf.id]
        refine ⟨fun x' hx' => ?_, fun _ => rfl, fun _ _ h => h⟩
        obtain ⟨x, hx, rfl⟩ := Option.map_eq_some_iff.mp hx'
        exact ⟨x, hx, hf.sellerId x, hf.deletedAt x, hf.outForDeliveryAt htarget x⟩
      · rw [trigger_of_life (life_modifyOrder_of_ne hf.id ho)]
        exact Trigger.kept_refl _
    · have hne : o' ≠ id := fun heq => ho' (congrArg Key.order heq.symm)
      exact trigger_of_life (life_modifyOrder_of_ne hf.id hne)
  | removeOrder id h =>
    refine fun db => ⟨?_, fun o' ho' => ?_⟩
    · by_cases ho : o = id
      · subst ho
        refine Trigger.kept_of_none ?_
        unfold Db.trigger
        rw [life_removeOrder_self]
        rfl
      · rw [trigger_of_life (life_removeOrder_of_ne ho)]
        exact Trigger.kept_refl _
    · have hne : o' ≠ id := fun heq => ho' (congrArg Key.order heq.symm)
      exact trigger_of_life (life_removeOrder_of_ne hne)
  | deliver id now duration h =>
    exact keepsTriggers_of_eq fun db o' => trigger_modifyDelivery
      (fun d => Delivery.deliver_orderId now d duration) (fun _ => rfl) fun _ => rfl
  | moveTo id lat lng h =>
    exact keepsTriggers_of_eq fun db o' => trigger_modifyDelivery
      (fun d => Delivery.moveTo_orderId d lat lng) (fun _ => rfl) fun _ => rfl
  | patch id distance duration h =>
    exact keepsTriggers_of_eq fun db o' => trigger_modifyDelivery
      (fun d => Delivery.patch_orderId d distance duration) (fun _ => rfl) fun _ => rfl
  | start id now h => exact absurd (by decide) (hK _ h)
  | giveTo id driver h => exact absurd (by decide) (hK _ h)
  | addDelivery d hd h => exact absurd (by decide) (hK _ h)
  | _ => exact keepsTriggers_of_eq fun _ _ => rfl

/-- The writes of the services but those that send out keep the triggers. -/
theorem ServiceWrite.keepsTriggers (hK : ∀ k ∈ K, k ∉ triggerKinds) (h : ServiceWrite K key f) :
    KeepsTriggers o key f := by
  cases h with
  | order h => exact h.keepsTriggers hK
  | setSettings ps => exact keepsTriggers_of_eq fun _ _ => rfl

/-- A new order is no other order. -/
theorem keepsTriggers_addOrder {x : Order} (hx : x.id ≠ o) :
    KeepsTriggers o (.order x.id) fun db => db.addOrder x := by
  have hother : ∀ (db : Db) o', o' ≠ x.id → (db.addOrder x).trigger o' = db.trigger o' := by
    intro db o' ho'
    have hget : (db.addOrder x).orders.get o' = db.orders.get o' := by
      rw [Db.addOrder, Table.get_insert_of_ne _ ho']
    simp only [Db.trigger, Life.trigger, Db.life, hget]
    rfl
  refine fun db => ⟨?_, fun o' ho' => hother db o' fun heq => ho' (congrArg Key.order heq.symm)⟩
  rw [hother db o hx.symm]
  exact Trigger.kept_refl _

/-- A program whose writes keep the triggers keeps them in every interleaving. -/
theorem safe_of_keepsTriggers {α : Type} {P : Key → (Db → Db) → Prop} {p : Tx α}
    (h : p.Writes P) (hP : ∀ key f, P key f → KeepsTriggers o key f) :
    p.Safe triggerLocking (fun _ => True) fun _ s t => (s.trigger o).Kept (t.trigger o) := by
  refine h.safe (R := fun s t : Db => (s.trigger o).Kept (t.trigger o))
    (fun s => Trigger.kept_refl _) (fun _ _ _ hst htu => hst.trans htu)
    (fun key f hf s _ => ⟨trivial, (hP key f hf s).1⟩) fun key f hf s key' hne => ?_
  cases key' with
  | order o' => exact (hP key f hf s).2 o' hne.symm
  | _ => trivial

end Writes

section Operations

variable {o : Id} {env : Env} {caller : User} {orderId : Id}

/-- The lock on the order has been held since `s₀`, and only its own trigger changes. -/
theorem commitOk_of_trigger {α : Type} {facts : List (Key × Db)} {w : Db → Db} {a : α} {s₀ : Db}
    {Q : α → Db → Db → Prop} (hmem : (Key.order orderId, s₀) ∈ facts)
    (hother : ∀ s o', o' ≠ orderId → (w s).trigger o' = s.trigger o')
    (hQ : ∀ s, s.trigger orderId = s₀.trigger orderId → Q a s (w s)) :
    CommitOk triggerLocking (fun _ => True) Q facts w a := by
  intro s _ hknown
  refine ⟨trivial, hQ s (hknown _ hmem), fun key hkey => ?_⟩
  cases key with
  | order o' =>
    refine hother s o' fun heq => hkey _ hmem ?_
    rw [heq]
  | _ => trivial

/-- Choosing self-delivery keeps the trigger. -/
theorem chooseSelfDelivery_keepsTriggers :
    (chooseSelfDelivery env caller orderId).Safe triggerLocking (fun _ => True)
      fun _ s t => (s.trigger o).Kept (t.trigger o) := by
  unfold Safe chooseSelfDelivery
  simp only [bind_eq, wp_bind, wp_raiseIf]
  intro _
  refine wp_lockOrderOr404 fun s₀ x _ _ hact => ?_
  have hid := hact.id_eq
  subst hid
  intro _
  refine wp_ensureFulfillmentOpen fun s t _ _ _ _ _ _ => wp_getCallerSeller fun seller => ?_
  simp only [insertDelivery, wp_insertRow]
  refine fun u _ _ _ => wp_loaded fun full => ?_
  refine commitOk_of_trigger (List.mem_cons_of_mem _ List.mem_cons_self) (fun v o' ho' => ?_)
    fun v _ => ?_
  · exact trigger_of_life (life_addDelivery_of_ne rfl ho')
  · simp only [Function.comp_apply, id_eq]
    by_cases ho : o = x.id
    · subst ho
      rw [trigger_addDelivery_self rfl]
      -- the new row has no stamp, and an old row would stay
      refine ⟨fun y hy => ⟨y, hy, rfl, rfl, rfl⟩, fun _ => ?_, fun _ d hd => ?_⟩
      · unfold Trigger.startedAt
        cases (v.trigger x.id).delivery with
        | none => rfl
        | some d => rfl
      · rw [hd, Option.some_or]
    · rw [trigger_of_life (life_addDelivery_of_ne rfl ho)]
      exact Trigger.kept_refl _

/-- A delivery is started for a caller who may send the order out. -/
theorem wp_startDelivery_trigger {x : Order} {delivery : Option Delivery} {s₀ : Db}
    {facts : List (Key × Db)} {Post : List (Key × Db) → (Db → Db) → Unit → Prop}
    (hrole : caller.role ∈ [UserRole.seller, .driver]) (hmem : (Key.order x.id, s₀) ∈ facts)
    (hdelivery : ∀ d, delivery = some d →
      (s₀.trigger x.id).delivery = some (d.driverId, d.startedAt))
    (h : ∀ facts' w driver, facts ⊆ facts' →
      (∀ d, (s₀.trigger x.id).delivery = some d → d.1 = driver) →
      MaySendOut caller x.sellerId driver →
      (∀ v, v.trigger x.id = s₀.trigger x.id → (w v).trigger x.id =
        { s₀.trigger x.id with delivery := some (driver, some (env.now 0)) }) →
      (∀ v o', o' ≠ x.id → (w v).trigger o' = v.trigger o') → Post facts' w ()) :
    (startDelivery env caller x delivery).wp triggerLocking (fun _ => True) Post facts id := by
  have hmay : ∀ driver, ¬(caller.role = .driver ∧ some caller.id ≠ driver) →
      ¬(caller.role = .seller ∧ caller.id ≠ x.sellerId) → MaySendOut caller x.sellerId driver := by
    intro driver hdriver hseller
    rcases List.mem_cons.mp hrole with hr | hr
    · exact .inl ⟨hr, not_not.mp fun hne => hseller ⟨hr, hne⟩⟩
    · have hr : caller.role = .driver := List.mem_singleton.mp hr
      exact .inr ⟨hr, (not_not.mp fun hne => hdriver ⟨hr, hne⟩).symm⟩
  cases delivery with
  | none =>
    simp only [startDelivery, bind_eq, wp_bind, wp_read, wp_scalarOneOrNone, wp_getOrRaise,
      wp_raiseIf, insertDelivery, wp_insertRow]
    rintro s _ _ found hfound a rfl hdriver hseller t _ ht hfree
    have hnone : (s₀.trigger x.id).delivery = none := by
      rw [← ht _ hmem]
      have hget : t.deliveries.get x.id = none :=
        Option.isNone_iff_eq_none.mp (Option.isSome_eq_false_iff.mp hfree)
      exact congrArg (Option.map fun d : Delivery => (d.driverId, d.startedAt)) hget
    refine h _ _ a.driverId (List.subset_cons_self _ _) (fun d hd => ?_) (hmay _ hdriver hseller)
      (fun v hv => ?_) fun v o' ho' => trigger_of_life (life_addDelivery_of_ne rfl ho')
    · rw [hnone] at hd
      cases hd
    · simp only [Function.comp_apply, id_eq]
      rw [trigger_addDelivery_self rfl, hv, hnone, Option.none_or]
  | some d =>
    simp only [startDelivery, bind_eq, wp_bind, wp_raiseIf, updateDelivery, wp_updateRow]
    intro hself hdriver hseller t _ _
    have hthere := hdelivery d rfl
    have hmay' : MaySendOut caller x.sellerId d.driverId := by
      cases hd : d.driverId with
      | none =>
        simp only [hd, true_and, not_or, not_not] at hself
        exact .inl hself
      | some driver =>
        simp only [hd, ne_eq, reduceCtorEq, not_false_eq_true, true_and] at hdriver hseller
        exact hmay _ hdriver hseller
    refine h _ _ d.driverId (List.subset_cons_self _ _) (fun e he => ?_) hmay' (fun v hv => ?_)
      fun v o' ho' => trigger_of_life (life_modifyDelivery_of_ne (Delivery.start_orderId _) ho')
    · rw [hthere] at he
      obtain rfl := Option.some.inj he
      rfl
    · have hrow : (v.trigger x.id).delivery = some (d.driverId, d.startedAt) := by
        rw [hv]
        exact hthere
      obtain ⟨e, he, hfields⟩ := Option.map_eq_some_iff.mp hrow
      obtain ⟨hd, -⟩ := Prod.mk.inj hfields
      have hstart : (v.modifyDelivery x.id (Delivery.start (env.now 0))).trigger x.id =
          { v.trigger x.id with delivery := some (e.driverId, some (env.now 0)) } := by
        unfold Db.trigger
        rw [life_modifyDelivery_self (Delivery.start_orderId _)]
        simp only [Life.trigger, he, Option.map_some]
        rfl
      change (v.modifyDelivery x.id (Delivery.start (env.now 0))).trigger x.id = _
      rw [hstart, hv, hd]

/-- What the commit of `out_for_delivery` does to the trigger of an order. -/
theorem outForDelivery_sends :
    (outForDelivery env caller orderId).Safe triggerLocking (fun _ => True) fun _ s t =>
      (orderId = o → (s.trigger o).Sent env caller (t.trigger o)) ∧
        (orderId ≠ o → t.trigger o = s.trigger o) := by
  unfold Safe outForDelivery
  simp only [bind_eq, wp_bind, wp_raiseIf, not_not]
  intro hrole
  refine wp_lockOrderOr404 fun s₀ x _ _ hact => ?_
  have hid := hact.id_eq
  subst hid
  intro hstarted _
  have hout : x.outForDeliveryAt = none := not_not.mp fun hne => hstarted (.inr hne)
  have horder : (s₀.trigger x.id).order = some x := hact.found
  have hstart : ∀ (delivery : Option Delivery) (facts : List (Key × Db)),
      (Key.order x.id, s₀) ∈ facts →
      (∀ d, delivery = some d → (s₀.trigger x.id).delivery = some (d.driverId, d.startedAt)) →
      (startDelivery env caller x delivery).wp triggerLocking (fun _ => True)
        (fun facts w _ => (updateOrder x.id (Order.sendOut (env.now 1))).wp triggerLocking
          (fun _ => True) (fun facts w _ => (loaded x.id).wp triggerLocking (fun _ => True)
            (CommitOk triggerLocking (fun _ => True) fun _ s t =>
              (x.id = o → (s.trigger o).Sent env caller (t.trigger o)) ∧
                (x.id ≠ o → t.trigger o = s.trigger o)) facts w) facts w) facts id := by
    intro delivery facts hmem hdelivery
    refine wp_startDelivery_trigger hrole hmem hdelivery fun facts' w driver hsub hdriver hmay hself
      hother => ?_
    simp only [updateOrder, wp_updateRow]
    have hother' : ∀ v o', o' ≠ x.id →
        ((w v).modifyOrder x.id (Order.sendOut (env.now 1))).trigger o' = v.trigger o' :=
      fun v o' ho' => (trigger_of_life (life_modifyOrder_of_ne (Order.sendOut_id _) ho')).trans
        (hother v o' ho')
    refine fun t _ _ => wp_loaded fun full => commitOk_of_trigger
      (List.mem_cons_of_mem _ (hsub hmem)) hother' fun v hv => ⟨?_, fun ho => ?_⟩
    · rintro rfl
      refine ⟨x, driver, ?_, hact.live, hout, fun d hd => ?_, hmay, ?_, ?_⟩
      · rw [hv]
        exact horder
      · rw [hv] at hd
        exact hdriver d hd
      · rw [Function.comp_apply, trigger_modifyOrder_self (Order.sendOut_id _), hself v hv, horder]
        rfl
      · rw [Function.comp_apply, trigger_modifyOrder_self (Order.sendOut_id _), hself v hv]
    · exact hother' v o (Ne.symm ho)
  have hnone : ∀ d, (none : Option Delivery) = some d →
      (s₀.trigger x.id).delivery = some (d.driverId, d.startedAt) := fun _ h => nomatch h
  refine wp_selectForUpdate (hstart none _ List.mem_cons_self hnone) fun s _ hs => ?_
  have hsame : s.trigger x.id = s₀.trigger x.id := hs _ List.mem_cons_self
  refine hstart _ _ (List.mem_cons_of_mem _ List.mem_cons_self) fun d hd => ?_
  have hget : s.deliveries.get x.id = some d := hd
  rw [← hsame, Db.trigger, Life.trigger, Db.life]
  simp only [hget, Option.map_some]

end Operations

/-! ### Every operation of the order service -/

/-- What the commit of a request does to the trigger of the order `o`. -/
def Request.triggers (q : Request) (o : Id) (s t : Db) : Prop :=
  if q.op = .outForDelivery o then (s.trigger o).Sent q.env q.caller (t.trigger o)
  else (s.trigger o).Kept (t.trigger o)

section Requests

variable {sha256 : String → String} {o : Id} {q : Request}

/-- Sending an order out triggers that order alone. -/
theorem triggers_of_sends {o' : Id} {s t : Db} (hop : q.op = .outForDelivery o')
    (hself : o' = o → (s.trigger o).Sent q.env q.caller (t.trigger o))
    (hother : o' ≠ o → t.trigger o = s.trigger o) : q.triggers o s t := by
  unfold Request.triggers
  by_cases ho : o' = o
  · rw [if_pos (hop.trans (congrArg Op.outForDelivery ho))]
    exact hself ho
  · rw [if_neg fun heq => ho (Op.outForDelivery.inj (hop.symm.trans heq)), hother ho]
    exact Trigger.kept_refl _

/-- Every request of the order service has its effect on the trigger at its commit. -/
theorem exec_triggers (hop : q.op.ofOrderService = true)
    (hnew : ∀ items address, q.op = .createOrder items address → q.env.uuid4 0 ≠ o) :
    (q.exec sha256).Safe triggerLocking (fun _ => True) fun _ => q.triggers o := by
  obtain ⟨caller, op, env⟩ := q
  -- a program that keeps the triggers, and is not `out_for_delivery`
  have hkept : ∀ {op : Op} {p : Tx Reply}, (∀ o', op ≠ .outForDelivery o') →
      (p.Safe triggerLocking (fun _ => True) fun _ s t => (s.trigger o).Kept (t.trigger o)) →
      p.Safe triggerLocking (fun _ => True) fun _ => Request.triggers ⟨caller, op, env⟩ o := by
    intro op p hne hp
    have heffect : Request.triggers ⟨caller, op, env⟩ o =
        fun s t => (s.trigger o).Kept (t.trigger o) := by
      funext s t
      exact if_neg (hne o)
    rw [heffect]
    exact hp
  have hquiet : ∀ {op : Op}, (∀ k ∈ op.writeKinds, k ∉ triggerKinds) →
      (∀ items address, op ≠ .createOrder items address) →
      (op.exec sha256 env caller).Safe triggerLocking (fun _ => True) fun _ s t =>
        (s.trigger o).Kept (t.trigger o) :=
    fun hkinds hne => safe_of_keepsTriggers (exec_writes hne) fun _ _ hf => hf.keepsTriggers hkinds
  cases op with
  | createOrder items address =>
    have hid : env.uuid4 0 ≠ o := hnew items address rfl
    refine hkept (by simp)
      (Safe.map (safe_of_keepsTriggers (P := fun key f => KeepsTriggers o key f)
      (createOrder_writes_of (fun _ _ => ?_) (fun _ => ?_) (fun x hx => ?_) items address)
      fun _ _ hf => hf))
    · exact keepsTriggers_of_eq fun _ _ => rfl
    · exact keepsTriggers_of_eq fun _ _ => rfl
    · exact keepsTriggers_addOrder (hx ▸ hid)
  | acceptOrder o' =>
      exact hkept (by simp) (hquiet (by simp [Op.writeKinds, triggerKinds]) (by simp))
  | markPreparing o' =>
      exact hkept (by simp) (hquiet (by simp [Op.writeKinds, triggerKinds]) (by simp))
  | chooseSelfDelivery o' => exact hkept (by simp) chooseSelfDelivery_keepsTriggers.map
  | requestDriver o' =>
      exact hkept (by simp) (hquiet (by simp [Op.writeKinds, triggerKinds]) (by simp))
  | assignDriver o' driver =>
      exact hkept (by simp) (hquiet (by simp [Op.writeKinds, triggerKinds]) (by simp))
  | outForDelivery o' =>
    have hsent : (OrderService.outForDelivery env caller o').Safe triggerLocking (fun _ => True)
        fun _ => Request.triggers ⟨caller, .outForDelivery o', env⟩ o := by
      refine wp_mono (fun _ w a hok s hs hknown => ?_) (outForDelivery_sends (o := o))
      obtain ⟨hI, ⟨hself, hother⟩, hframe⟩ := hok s hs hknown
      exact ⟨hI, triggers_of_sends rfl hself hother, hframe⟩
    exact hsent.map
  | markDelivered o' =>
      exact hkept (by simp) (hquiet (by simp [Op.writeKinds, triggerKinds]) (by simp))
  | completeOrder o' =>
      exact hkept (by simp) (hquiet (by simp [Op.writeKinds, triggerKinds]) (by simp))
  | cancelOrder o' reason =>
      exact hkept (by simp) (hquiet (by simp [Op.writeKinds, triggerKinds]) (by simp))
  | deleteOrder o' =>
      exact hkept (by simp) (hquiet (by simp [Op.writeKinds, triggerKinds]) (by simp))
  | runPurgeJob => exact hkept (by simp) (hquiet (by simp [Op.writeKinds, triggerKinds]) (by simp))
  | updateRetentionSettings r g =>
      exact hkept (by simp) (hquiet (by simp [Op.writeKinds, triggerKinds]) (by simp))
  | _ => cases hop

end Requests

/-! ### What a refused call has seen -/

/-- The error is one of these and nothing is pending, or the order has been locked before it was
sent out. -/
def RefusedAs (o : Id) (errors : Err → Prop) (facts : List (Key × Db)) (w : Db → Db) (e : Err) :
    Prop :=
  (w = id ∧ errors e) ∨ ∃ s x, (Key.order o, s) ∈ facts ∧ s.orders.get o = some x ∧
    x.outForDeliveryAt = none

section Refusals

variable {sha256 : String → String} {env : Env} {caller : User} {o : Id} {L : Locking Db Key}
  {I : Db → Prop} {errors : Err → Prop}

/-- The rule of `SELECT … FOR UPDATE` for the errors. -/
theorem wpe_selectForUpdate {ρ : Type} {key : Key} {get : Db → Option ρ}
    {B : List (Key × Db) → (Db → Db) → Err → Prop} {facts : List (Key × Db)} {w : Db → Db} :
    (selectForUpdate key get).wpe L I B facts w := by
  refine wpe_bind.mpr ⟨fun _ _ _ => trivial, wp_read.mpr fun s _ _ => ?_⟩
  cases get (w s) with
  | none => trivial
  | some r => exact fun _ _ _ => trivial

/-- An order that the caller may see is found. -/
theorem lockOrderOr404_refuses (hcustomer : caller.role ≠ .customer)
    (hfound : errors Err.orderNotFound ∨ ∀ s, I s → ∃ x, s.orders.get o = some x ∧
      x.deletedAt = none ∧ (caller.role = .seller → x.sellerId = caller.id)) :
    (lockOrderOr404 o caller).wpe L I (RefusedAs o errors) [] id := by
  have hmissing : ∀ {c : Prop} {facts : List (Key × Db)} {s : Db}, I s →
      (∀ x, s.orders.get o = some x → x.deletedAt = none →
        (caller.role = .seller → x.sellerId = caller.id) → ¬c) → c →
      RefusedAs o errors facts id Err.orderNotFound := by
    intro c facts s hs hno hc
    rcases hfound with hok | hthere
    · exact .inl ⟨rfl, hok⟩
    · obtain ⟨x, hx, hlive, hseller⟩ := hthere s hs
      exact absurd hc (hno x hx hlive hseller)
  refine wpe_bind.mpr ⟨wpe_selectForUpdate, ?_⟩
  refine wp_selectForUpdate_of_read (fun s hs hnone => ?_) fun s hs _ => ?_
  · refine wpe_bind.mpr ⟨wpe_getOrRaise.mpr (hmissing hs fun x hx _ _ _ => ?_),
      wp_getOrRaise.mpr fun _ h => nomatch h⟩
    rw [id_eq, hx] at hnone
    cases hnone
  · simp only [wpe_bind, wpe_getOrRaise, wp_getOrRaise, wpe_raiseIf, wp_raiseIf, bind_eq, id_eq]
    refine ⟨hmissing hs fun x hx _ _ hnone => ?_,
      fun x hget => ⟨?_, fun _ => ⟨?_, fun _ => ⟨?_, ?_⟩⟩⟩⟩
    · rw [hx] at hnone
      cases hnone
    · refine hmissing hs fun y hy hlive _ hdeleted => hdeleted ?_
      obtain rfl := Option.some.inj (hy.symm.trans hget)
      exact hlive
    · refine hmissing hs fun y hy _ hseller hne => hne.2 ?_
      obtain rfl := Option.some.inj (hy.symm.trans hget)
      exact hseller hne.1
    · exact fun hc => absurd hc.1 hcustomer
    · exact fun _ => trivial

/-- A seller or driver is told that the order is on its way, or that it is not there. -/
theorem outForDelivery_refuses (hrole : caller.role ∈ [UserRole.seller, .driver])
    (hstarted : errors Err.deliveryAlreadyStarted)
    (hfound : errors Err.orderNotFound ∨ ∀ s, I s → ∃ x, s.orders.get o = some x ∧
      x.deletedAt = none ∧ (caller.role = .seller → x.sellerId = caller.id)) :
    (outForDelivery env caller o).wpe L I (RefusedAs o errors) [] id := by
  have hcustomer : caller.role ≠ .customer := by
    intro hc
    rw [hc] at hrole
    exact absurd hrole (by decide)
  unfold outForDelivery
  refine wpe_bind.mpr ⟨wpe_raiseIf.mpr fun h => absurd hrole h, wp_raiseIf.mpr fun _ => ?_⟩
  refine wpe_bind.mpr ⟨lockOrderOr404_refuses hcustomer hfound, ?_⟩
  refine wp_lockOrderOr404 fun s x _ _ hact => ?_
  refine wpe_bind.mpr ⟨wpe_raiseIf.mpr fun _ => .inl ⟨rfl, hstarted⟩, wp_raiseIf.mpr fun hnot => ?_⟩
  -- from here on the lock shows an order that has not been sent out
  have hout : x.outForDeliveryAt = none := not_not.mp fun hne => hnot (.inr hne)
  exact wpe_of_held (f := (.order o, s)) (fun facts w e hmem => .inr ⟨s, x, hmem, hact.found, hout⟩)
    List.mem_cons_self

end Refusals

/-! ### In every interleaving -/

section Interleaving

variable {ι : Type} (requests : ι → Request) (o : Id)

/-- Request `i` is a call of `out_for_delivery` on the order `o`. -/
def Triggers (i : ι) : Prop := (requests i).op = .outForDelivery o

instance (i : ι) : Decidable (Triggers requests o i) := inferInstanceAs (Decidable (_ = _))

/-- The order `o` is on its way by request `i`. -/
structure StampedBy (i : ι) (x : Order) (delivery : Option (Option Id × Option Time)) : Prop where
  outForDeliveryAt : x.outForDeliveryAt = some ((requests i).env.now 1)
  delivery : ∃ driver, delivery = some (driver, some ((requests i).env.now 0)) ∧
    MaySendOut (requests i).caller x.sellerId driver

/-- What the log says about the trigger `T` of the order, which was `T₀` at the start. -/
structure Marked (T₀ : Trigger) (log : List (ι × Reply)) (T : Trigger) : Prop where
  single : (log.filter fun e => Triggers requests o e.1).length ≤ 1
  before : (∀ e ∈ log, ¬Triggers requests o e.1) → T₀.Kept T
  after : ∀ e ∈ log, Triggers requests o e.1 → ∀ x, T.order = some x →
    x.deletedAt = none ∧ StampedBy requests e.1 x T.delivery
  order : ∀ x, T.order = some x → ∃ x₀, T₀.order = some x₀ ∧ x.sellerId = x₀.sellerId

variable {requests o}

/-- What is sent out is an order that was not sent out before. -/
theorem Trigger.sent_order {env : Env} {caller : User} {T T' : Trigger} (h : T.Sent env caller T') :
    ∃ x, T.order = some x ∧ x.outForDeliveryAt = none := by
  obtain ⟨x, driver, hx, -, hout, -⟩ := h
  exact ⟨x, hx, hout⟩

/-- An order that has been sent out is not sent out again. -/
theorem Marked.not_sent {T₀ T T' : Trigger} {log : List (ι × Reply)} {env : Env} {caller : User}
    (h : Marked requests o T₀ log T) (hsent : T.Sent env caller T') {e : ι × Reply} (he : e ∈ log) :
    ¬Triggers requests o e.1 := by
  intro hcall
  obtain ⟨x, hx, hout⟩ := Trigger.sent_order hsent
  have hstamp := (h.after e he hcall x hx).2.outForDeliveryAt
  rw [hout] at hstamp
  cases hstamp

/-- One more commit keeps the trigger as the log marks it. -/
theorem Marked.snoc {T₀ : Trigger} {log : List (ι × Reply)} {s t : Db} {i : ι} {r : Reply}
    (h : Marked requests o T₀ log (s.trigger o)) (hcommit : (requests i).triggers o s t) :
    Marked requests o T₀ (log ++ [(i, r)]) (t.trigger o) := by
  have hmem : ∀ {e}, e ∈ log ++ [(i, r)] → e ∈ log ∨ e = (i, r) := fun he =>
    (List.mem_append.mp he).imp_right List.mem_singleton.mp
  unfold Request.triggers at hcommit
  by_cases hi : (requests i).op = .outForDelivery o
  · rw [if_pos hi] at hcommit
    have hnew : ∀ e ∈ log, ¬Triggers requests o e.1 := fun e he => h.not_sent hcommit he
    obtain ⟨x, driver, hx, hlive, hout, -, hmay, horder, hdelivery⟩ := hcommit
    refine ⟨?_, fun hno => absurd hi (hno (i, r) (by simp)), fun e he hcall y hy => ?_,
      fun y hy => ?_⟩
    · have hnil : (log.filter fun e => Triggers requests o e.1) = [] :=
        List.filter_eq_nil_iff.mpr fun e he => by simpa using hnew e he
      rw [List.filter_append, hnil, List.nil_append]
      exact List.length_filter_le _ _
    · obtain rfl := Option.some.inj (horder.symm.trans hy)
      rcases hmem he with hold | rfl
      · exact absurd hcall (hnew e hold)
      · exact ⟨hlive, rfl, driver, hdelivery, hmay⟩
    · obtain rfl := Option.some.inj (horder.symm.trans hy)
      exact h.order x hx
  · rw [if_neg hi] at hcommit
    refine ⟨?_, fun hno => ?_, fun e he hcall y hy => ?_, fun y hy => ?_⟩
    · have hnil : ([(i, r)].filter fun e => Triggers requests o e.1) = [] :=
        List.filter_eq_nil_iff.mpr fun e he => by
          rw [List.mem_singleton.mp he]
          exact fun hcall => hi (of_decide_eq_true hcall)
      rw [List.filter_append, hnil, List.append_nil]
      exact h.single
    · exact (h.before fun e he => hno e (List.mem_append_left _ he)).trans hcommit
    · obtain ⟨x, hx, hseller, hdeleted, hout⟩ := hcommit.order y hy
      have hthere : (t.trigger o).order ≠ none := by
        rw [hy]
        exact Option.some_ne_none y
      rcases hmem he with hold | rfl
      · obtain ⟨hlive, hstamp, driver, hdriver, hmay⟩ := h.after e hold hcall x hx
        refine ⟨hdeleted.trans hlive, hout.trans hstamp, driver,
          hcommit.delivery hthere _ hdriver, ?_⟩
        rw [hseller]
        exact hmay
      · exact absurd hcall hi
    · obtain ⟨x, hx, hseller, -⟩ := hcommit.order y hy
      obtain ⟨x₀, hx₀, hsame⟩ := h.order x hx
      exact ⟨x₀, hx₀, hseller.trans hsame⟩

/-- After the commits the trigger is as the log marks it. -/
theorem marked_of_commits {db t : Db} {log : List (ι × Reply)}
    (h : Sys.Commits (fun i _ => (requests i).triggers o) db log t) :
    Marked requests o (db.trigger o) log (t.trigger o) := by
  induction h with
  | nil =>
    refine ⟨Nat.zero_le 1, fun _ => Trigger.kept_refl _, fun e he => ?_, fun x hx => ⟨x, hx, rfl⟩⟩
    cases he
  | snoc i r _ hcommit ih => exact ih.snoc hcommit

variable (requests o)

/-- Request `i` calls `out_for_delivery` as the seller `seller` of the order, or as some driver. -/
def CallsAs (seller : Id) (i : ι) : Prop :=
  Triggers requests o i ∧
    ((requests i).caller.role = .seller ∧ (requests i).caller.id = seller ∨
      (requests i).caller.role = .driver)

/-- What holds of the order `o` in a state of the server that was started with `db`. -/
structure FirstCallerWins [DecidableEq ι] (db : Db) (t : Sys ι Db Key Err Reply) : Prop where
  single : (t.log.filter fun e => Triggers requests o e.1).length ≤ 1
  /-- Before a call succeeds the two stamps are what they were at the start. -/
  before : (∀ e ∈ t.log, ¬Triggers requests o e.1) → ∀ x, t.db.orders.get o = some x →
    ((db.orders.get o).bind Order.outForDeliveryAt = x.outForDeliveryAt ∧
      (t.db.deliveries.get o).bind Delivery.startedAt =
        (db.deliveries.get o).bind Delivery.startedAt)
  /-- From then on they are those of the call, while the order is there. -/
  stamped : ∀ e ∈ t.log, Triggers requests o e.1 → ∀ x, t.db.orders.get o = some x →
    x.outForDeliveryAt = some ((requests e.1).env.now 1) ∧
      ∃ d, t.db.deliveries.get o = some d ∧ d.startedAt = some ((requests e.1).env.now 0)
  /-- The call was the seller's or the driver's, and the seller's where the seller delivers. -/
  winner : ∀ e ∈ t.log, Triggers requests o e.1 → ∀ x d, t.db.orders.get o = some x →
    t.db.deliveries.get o = some d → MaySendOut (requests e.1).caller x.sellerId d.driverId ∧
      (d.driverId = none →
        (requests e.1).caller.role = .seller ∧ (requests e.1).caller.id = x.sellerId)
  /-- A call that ends after it has changed nothing, and fails because the order is on its way, or
  because the order has been deleted. -/
  later : (∃ e ∈ t.log, Triggers requests o e.1) → ∀ x₀, db.orders.get o = some x₀ →
    ∀ i t', CallsAs requests o x₀.sellerId i → Sys.Step i t t' →
      (∀ r, t'.txn i ≠ .committed r) ∧ ∀ e, t'.txn i = .aborted (some e) →
        t.txn i = .running id (.raise e) ∧ t'.db = t.db ∧
          (e = Err.deliveryAlreadyStarted ∨ (e = Err.orderNotFound ∧ t.db.orders.get o = none))

/-- The order is there, for its seller and for the drivers. -/
def Visible (seller : Id) (s : Db) : Prop :=
  ∃ x, s.orders.get o = some x ∧ x.deletedAt = none ∧ x.sellerId = seller

variable {requests o}

/-- An order that is visible was so before. -/
theorem visible_of_triggers {q : Request} {seller : Id} {s t : Db} (h : q.triggers o s t)
    (ht : Visible o seller t) : Visible o seller s := by
  obtain ⟨y, hy, hlive, hseller⟩ := ht
  unfold Request.triggers at h
  split at h
  · obtain ⟨x, driver, hx, hlive', -, -, -, horder, -⟩ := h
    obtain rfl := Option.some.inj (horder.symm.trans hy)
    exact ⟨x, hx, hlive', hseller⟩
  · obtain ⟨x, hx, hsame, hdeleted, -⟩ := h.order y hy
    exact ⟨x, hx, hdeleted.symm.trans hlive, hsame.symm.trans hseller⟩

variable [DecidableEq ι] {sha256 : String → String} {db : Db} {t : Sys ι Db Key Err Reply}

/-- What a call sees that is refused after another one has succeeded. -/
theorem refused_of_marked
    (hsafe : ∀ i, ((requests i).exec sha256).Safe triggerLocking (fun _ => True)
      fun _ => (requests i).triggers o)
    (ht : Sys.Steps (Sys.init db fun i => (requests i).exec sha256) t)
    (hmarked : Marked requests o (db.trigger o) t.log (t.db.trigger o))
    (hwon : ∃ e ∈ t.log, Triggers requests o e.1) {x₀ : Order} (hx₀ : db.orders.get o = some x₀)
    {i : ι} (hi : CallsAs requests o x₀.sellerId i) {w : Db → Db} {e : Err}
    (hraise : t.txn i = .running w (.raise e)) :
    w = id ∧ (e = Err.deliveryAlreadyStarted ∨
      (e = Err.orderNotFound ∧ t.db.orders.get o = none)) := by
  obtain ⟨call, hcall, htrig⟩ := hwon
  -- a call that has locked the order before it was sent out still holds the lock
  have hnotHeld : ∀ {errors : Err → Prop} {facts : List (Key × Db)},
      triggerLocking.Known facts t.db → RefusedAs o errors facts w e → w = id ∧ errors e := by
    intro errors facts hknown hrefused
    rcases hrefused with hok | ⟨s, x, hmem, hx, hout⟩
    · exact hok
    · have hsame : t.db.trigger o = s.trigger o := hknown _ hmem
      have hget : (t.db.trigger o).order = some x := by
        rw [hsame]
        exact hx
      have hstamp := (hmarked.after call hcall htrig x hget).2.outForDeliveryAt
      rw [hout] at hstamp
      cases hstamp
  have hexec : ∀ {I : Db → Prop} {errors : Err → Prop} {j : ι},
      CallsAs requests o x₀.sellerId j → errors Err.deliveryAlreadyStarted →
      (errors Err.orderNotFound ∨ ∀ s, I s → Visible o x₀.sellerId s) →
      ((requests j).exec sha256).wpe triggerLocking I (RefusedAs o errors) [] id := by
    rintro I errors j ⟨hop, hparty⟩ hstarted hfound
    have hop' : (requests j).op = .outForDelivery o := hop
    have hrole : (requests j).caller.role ∈ [UserRole.seller, .driver] := by
      rcases hparty with ⟨hr, -⟩ | hr
      · simp [hr]
      · simp [hr]
    have hcall : (OrderService.outForDelivery (requests j).env (requests j).caller o).wpe
        triggerLocking I (RefusedAs o errors) [] id := by
      refine outForDelivery_refuses hrole hstarted (hfound.imp_right fun hthere s hs => ?_)
      obtain ⟨x, hx, hlive, hseller⟩ := hthere s hs
      refine ⟨x, hx, hlive, fun hr => ?_⟩
      rcases hparty with ⟨-, hid⟩ | hdriver
      · rw [hseller, hid]
      · rw [hr] at hdriver
        cases hdriver
    unfold Request.exec
    rw [hop']
    exact wpe_bind.mpr ⟨hcall, wp_of_forall fun _ _ _ => trivial⟩
  have hblame : ∀ {J : Db → Prop} {E : Err → Prop},
      (∀ q s t, Request.triggers q o s t → J t → J s) → J t.db →
      E Err.deliveryAlreadyStarted →
      (E Err.orderNotFound ∨ ∀ s, J s → Visible o x₀.sellerId s) → w = id ∧ E e := by
    intro J E hback hJ hstarted hfound
    have hall : ∀ j, ((requests j).exec sha256).wpe triggerLocking (fun s => True ∧ J s)
        (fun facts w e => CallsAs requests o x₀.sellerId j → RefusedAs o E facts w e) [] id := by
      intro j
      by_cases hj : CallsAs requests o x₀.sellerId j
      · exact wpe_mono (fun _ _ _ h _ => h) (hexec hj hstarted
          (hfound.imp_right fun hthere s hs => hthere s hs.2))
      · exact wpe_of_forall fun _ _ _ h => absurd h hj
    obtain ⟨facts, hknown, hB⟩ := Sys.Steps.blames trivial hsafe
      (fun j _ s t => hback (requests j) s t) hall ht hJ hraise
    exact hnotHeld hknown (hB hi)
  have hboth : w = id ∧ (e = Err.deliveryAlreadyStarted ∨ e = Err.orderNotFound) :=
    hblame (J := fun _ => True) (E := fun e => e = Err.deliveryAlreadyStarted ∨
      e = Err.orderNotFound) (fun _ _ _ _ _ => trivial) trivial (.inl rfl) (.inl (.inr rfl))
  obtain ⟨hw, herror⟩ := hboth
  refine ⟨hw, herror.imp_right fun hnotFound => ⟨hnotFound, ?_⟩⟩
  -- while the order is there it is visible, and then it is found
  cases hget : t.db.orders.get o with
  | none => rfl
  | some x =>
    obtain ⟨hlive, -⟩ := hmarked.after call hcall htrig x hget
    obtain ⟨y, hy, hseller⟩ := hmarked.order x hget
    obtain rfl := Option.some.inj (hx₀.symm.trans hy)
    have hvisible : Visible o x₀.sellerId t.db := ⟨x, hget, hlive, hseller⟩
    obtain ⟨-, rfl⟩ := hblame (J := Visible o x₀.sellerId)
      (E := fun e => e = Err.deliveryAlreadyStarted) (fun _ _ _ h => visible_of_triggers h)
      hvisible rfl (.inr fun _ h => h)
    cases hnotFound

/-- **The first caller wins.** In every interleaving of operations of the order service, at most
one call of `out_for_delivery` on an order succeeds, the seller's or the driver's; it alone writes
the two stamps, and every later call fails and changes nothing. -/
theorem first_caller_wins (sha256 : String → String)
    (hops : ∀ i, (requests i).op.ofOrderService = true)
    (hnew : ∀ i items address, (requests i).op = .createOrder items address →
      (requests i).env.uuid4 0 ≠ o)
    (ht : Sys.Steps (Sys.init db fun i => (requests i).exec sha256) t) :
    FirstCallerWins requests o db t := by
  have hsafe : ∀ i, ((requests i).exec sha256).Safe triggerLocking (fun _ => True)
      fun _ => (requests i).triggers o := fun i => exec_triggers (hops i) (hnew i)
  have hmarked : Marked requests o (db.trigger o) t.log (t.db.trigger o) :=
    marked_of_commits (ht.commits trivial hsafe)
  have hsound := ht.sound (Sys.sound_init trivial hsafe)
  have hdelivery : ∀ {s : Db} {driver : Option Id} {at' : Option Time},
      (s.trigger o).delivery = some (driver, at') →
      ∃ d, s.deliveries.get o = some d ∧ d.driverId = driver ∧ d.startedAt = at' := by
    intro s driver at' h
    obtain ⟨d, hd, hfields⟩ := Option.map_eq_some_iff.mp h
    obtain ⟨hdriver, hat⟩ := Prod.mk.inj hfields
    exact ⟨d, hd, hdriver, hat⟩
  have hstarted : ∀ s : Db,
      (s.trigger o).startedAt = (s.deliveries.get o).bind Delivery.startedAt :=
    fun s => Option.bind_map ..
  refine ⟨hmarked.single, fun hno x hx => ?_, fun e he hcall x hx => ?_,
    fun e he hcall x d hx hd => ?_, fun hwon x₀ hx₀ i t' hi hst => ⟨fun r hr => ?_, fun e he => ?_⟩⟩
  · have hkept := hmarked.before hno
    obtain ⟨x₀, hx₀, -, -, hout⟩ := hkept.order x hx
    have hthere : (t.db.trigger o).order ≠ none := by
      rw [show (t.db.trigger o).order = some x from hx]
      exact Option.some_ne_none x
    have hget : db.orders.get o = some x₀ := hx₀
    refine ⟨?_, ?_⟩
    · rw [hget, Option.bind_some, hout]
    · rw [← hstarted, ← hstarted]
      exact hkept.startedAt hthere
  · obtain ⟨-, hstamp, driver, hdriver, -⟩ := hmarked.after e he hcall x hx
    obtain ⟨d, hd, -, hat⟩ := hdelivery hdriver
    exact ⟨hstamp, d, hd, hat⟩
  · obtain ⟨-, -, driver, hdriver, hmay⟩ := hmarked.after e he hcall x hx
    obtain ⟨d', hd', rfl, -⟩ := hdelivery hdriver
    obtain rfl := Option.some.inj (hd.symm.trans hd')
    refine ⟨hmay, fun hself => ?_⟩
    rcases hmay with hseller | ⟨-, hdriver⟩
    · exact hseller
    · rw [hself] at hdriver
      cases hdriver
  · obtain ⟨call, hcall, htrig⟩ := hwon
    have hsent := hsound.committed hst hr
    have hop : (requests i).op = .outForDelivery o := hi.1
    unfold Request.triggers at hsent
    rw [if_pos hop] at hsent
    exact hmarked.not_sent hsent hcall htrig
  · cases hst with
    | @raise w e' hraise =>
      obtain rfl : e' = e := by simpa [Sys.abort] using he
      obtain ⟨rfl, herror⟩ := refused_of_marked hsafe ht hmarked hwon hx₀ hi hraise
      exact ⟨hraise, rfl, herror⟩
    | kill _ => simp [Sys.abort] at he
    | commit _ => simp [Sys.commit] at he
    | _ => simp [Sys.goto] at he

end Interleaving

namespace Sample

/-- The sample order in preparation, with a driver the administrator has assigned. -/
def readyOrder : Db := (after (World.serve sha256) start (sent.take 5)).db

/-- The `n`-th request, at a given time. -/
def asking (n : ℕ) (caller : User) (op : Op) (time : Time) : Request where
  caller := caller
  op := op
  env := { now := fun _ => time, transactionNow := time, randbelow := 0, uuid4 := Nat.pair n }

/-- The driver and the seller send the order out at the same time. -/
def senders (second : Bool) : Request :=
  if second then asking 8 seller (.outForDelivery 0) 9 else asking 7 driver (.outForDelivery 0) 8

/-- The driver sends the order out, the administrator cancels it and deletes it when the retention
period has elapsed, and the seller asks to send it out. -/
def sentAndDeleted : Fin 4 → Request
  | 0 => asking 7 driver (.outForDelivery 0) 8
  | 1 => asking 8 admin (.cancelOrder 0 none) 9
  | 2 => asking 9 admin (.deleteOrder 0) (days 40)
  | 3 => asking 10 seller (.outForDelivery 0) (days 41)

end Sample

/-- The driver is first. -/
theorem first_caller_wins_driver :
    ∃ t, Sys.Steps (Sys.init Sample.readyOrder fun i => (Sample.senders i).exec Sample.sha256) t ∧
      t.log.map Prod.fst = [false] ∧ FirstCallerWins Sample.senders 0 Sample.readyOrder t := by
  obtain ⟨r, hrun⟩ := run_of_session (p := (Sample.senders false).exec Sample.sha256)
    (s := Sample.readyOrder) (by decide +kernel)
  obtain ⟨t, ht⟩ := Sys.runsTo_of_run (s := Sys.init Sample.readyOrder fun i =>
    (Sample.senders i).exec Sample.sha256) (i := false) rfl (fun _ => .inl rfl) hrun
  have hops : ∀ i, (Sample.senders i).op.ofOrderService = true := by decide
  have hnew : ∀ i items address, (Sample.senders i).op = .createOrder items address →
      (Sample.senders i).env.uuid4 0 ≠ 0 := by
    intro i items address h
    cases i with
    | _ => cases h
  refine ⟨t, ht.steps, ?_, first_caller_wins Sample.sha256 hops hnew ht.steps⟩
  rw [ht.log]
  rfl

/-- Once the order has been deleted, its seller is told that it is not there. -/
theorem deleted_not_started : ¬∀ t u e,
    Sys.Steps (Sys.init Sample.readyOrder fun i => (Sample.sentAndDeleted i).exec Sample.sha256) t →
    (∃ c ∈ t.log, Triggers Sample.sentAndDeleted 0 c.1) → Sys.Steps t u →
    CallsAs Sample.sentAndDeleted 0 Sample.seller.id 3 →
    t.txn 3 = .running id ((Sample.sentAndDeleted 3).exec Sample.sha256) →
    u.txn 3 = .aborted (some e) → e = Err.deliveryAlreadyStarted := by
  intro h
  have hserial : (Sys.serial (fun i => (Sample.sentAndDeleted i).exec Sample.sha256)
      Sample.readyOrder [0, 1, 2]).isSome = true := by decide +kernel
  obtain ⟨db, hdb⟩ := Option.isSome_iff_exists.mp hserial
  obtain ⟨t, ht, hlast, hlog, howner, hother⟩ := Sys.steps_of_serial (by decide)
    (s := Sys.init Sample.readyOrder fun i => (Sample.sentAndDeleted i).exec Sample.sha256)
    (fun _ => rfl) (fun _ _ => rfl) hdb
  have hbegin : t.txn 3 = .running id ((Sample.sentAndDeleted 3).exec Sample.sha256) :=
    hother 3 (by decide)
  have hrefused : (Sys.serial (fun i => (Sample.sentAndDeleted i).exec Sample.sha256)
      Sample.readyOrder [0, 1, 2]).map (fun db =>
        (((Sample.sentAndDeleted 3).exec Sample.sha256).session db).1) =
      some (.error Err.orderNotFound) := by decide +kernel
  rw [hdb, Option.map_some, ← hlast] at hrefused
  obtain ⟨u, hu, hend, -, -⟩ := Sys.raises_of_run hbegin (fun key => .inl (howner key))
    (run_of_session_error (Option.some.inj hrefused))
  have hfirst : (0 : Fin 4) ∈ t.log.map Prod.fst := by
    rw [hlog]
    decide
  obtain ⟨c, hc, hc0⟩ := List.mem_map.mp hfirst
  have hcall : Triggers Sample.sentAndDeleted 0 c.1 := by
    rw [hc0]
    rfl
  have hsame := h t u Err.orderNotFound ht ⟨c, hc, hcall⟩ hu ⟨rfl, .inl ⟨rfl, rfl⟩⟩ hbegin hend
  cases hsame

end Marketplace
