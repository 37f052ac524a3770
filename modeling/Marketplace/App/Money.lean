import Marketplace.App.Step
import Marketplace.Lib.Settle
import Marketplace.Order.Money

/-!
# What orders cost, in every run

Requests to any of the services run at once. The bill of an order is made by the request that
places it, of the prices whose locks that request holds when it commits, and stays as it is
until the order is deleted, whatever becomes of the products. The snapshot of an order agrees
with its bill, since identifiers are drawn afresh.
-/

namespace Marketplace

open Lib Txn OrderService

/-! ### The effects of requests -/

/-- No bill and no snapshot changes. -/
structure MoneyKept (s t : Db) : Prop where
  bills : ∀ o, t.bill o = s.bill o
  snapshots : t.snapshots = s.snapshots

/-- Money that is kept is a step of it. -/
theorem MoneyKept.step {s t : Db} (h : MoneyKept s t) : MoneyStep s t where
  bills o := .inl (h.bills o)
  recorded o x hx := by rwa [h.snapshots]
  records o x hx := by
    rw [h.snapshots] at hx
    exact .inl hx

/-- The same orders have the same bills. -/
theorem SameOrders.moneyKept {s t : Db} (h : SameOrders s t) : MoneyKept s t where
  bills o := by rw [Db.bill, Db.bill, Db.itemsOf, Db.itemsOf, h.orders, h.orderItems]
  snapshots := h.snapshots

/-- Nothing has changed. -/
theorem SameOrders.refl (s : Db) : SameOrders s s := ⟨rfl, rfl, rfl, rfl, rfl⟩

/-- What two changes leave, both leave together. -/
theorem SameOrders.trans {s t u : Db} (h : SameOrders s t) (h' : SameOrders t u) :
    SameOrders s u where
  orders := h'.orders.trans h.orders
  orderItems := h'.orderItems.trans h.orderItems
  deliveries := h'.deliveries.trans h.deliveries
  driverAssignments := h'.driverAssignments.trans h.driverAssignments
  snapshots := h'.snapshots.trans h.snapshots

/-- The order that a request places. -/
def Op.places (env : Env) : Op → Option Id
  | .createOrder .. => some (env.uuid4 0)
  | _ => none

/-- The order that a request places. -/
def AppRequest.places : AppRequest → Option Id
  | .service (.call q) => q.op.places q.env
  | _ => none

/-- What the commit of a request does to bills and snapshots. -/
structure AppRequest.MoneyEffect (q : AppRequest) (s t : Db) : Prop where
  places : ∀ o, q.places = some o → OrderPlaced o s t
  stays : q.places = none → MoneyStep s t
  /-- A request to the services that are not about orders. -/
  side : (∀ c, q ≠ .service c) → MoneyKept s t

/-- What a request has locked and changed when it commits. -/
def AppRequest.MoneyPost (q : AppRequest) (facts : List (Key × Db)) (w : Db → Db)
    (r : AppReply) : Prop :=
  CommitOk moneyLocking Db.BillsOk (fun _ => q.MoneyEffect) facts w r ∧
    ∀ o, q.places = some o → FrozenPrices o facts w

section Requests

variable {sec : Security} {lower : String → String}

/-- Writes of the services that are not about orders touch no bill. -/
theorem SideWrite.agree {key key' : Key} {f : Db → Db} (h : SideWrite key f) (db : Db)
    (hne : key' ≠ key) : moneyLocking.agree key' db (f db) := by
  have horders := h.orders db
  refine ⟨?_, ?_⟩
  · cases key' with
    | product id =>
      cases h with
      | auth h =>
        cases h with
        | quiet h => cases h <;> rfl
        | _ => rfl
      | catalog h =>
        cases h with
        | addProduct p => exact Table.get_insert_of_ne _ fun heq => hne (congrArg Key.product heq)
        | product id' f hf =>
          exact Table.get_modify_of_ne _ (fun heq => hne (congrArg Key.product heq)) _
        | _ => rfl
      | messaging h =>
        cases h with
        | chat h => cases h <;> rfl
        | _ => rfl
      | keys h => cases h <;> rfl
    | order id => exact congrArg (fun t => t.get id) horders.orders
    | orderItem id =>
      exact fun hnone => (congrArg (fun t => t.get id) horders.orderItems).trans hnone
    | _ => trivial
  · cases key' with
    | order o => exact horders.moneyKept.bills o
    | _ => trivial

/-- Every request of the services that are not about orders. -/
theorem money_of_side {α : Type} {p : Tx α} (h : p.Writes SideWrite) :
    p.Safe moneyLocking Db.BillsOk fun _ s t => MoneyKept s t := by
  have hsafe : p.Safe moneyLocking Db.BillsOk fun _ s t => SameOrders s t :=
    h.safe SameOrders.refl (fun _ _ _ => SameOrders.trans)
      (fun _ f hf s hs => ⟨(hf.orders s).moneyKept.step.billsOk hs, hf.orders s⟩)
      fun _ f hf s _ hne => hf.agree s hne
  refine wp_mono (fun facts w a hok s hs hK => ?_) hsafe
  obtain ⟨hI, hsame, hframe⟩ := hok s hs hK
  exact ⟨hI, hsame.moneyKept, hframe⟩

/-- Every request about orders that places none. -/
theorem money_of_service {sha256 : String → String} {c : ServiceCall}
    (hc : (AppRequest.service c).places = none) :
    (c.exec sha256).Safe moneyLocking Db.BillsOk fun _ s t => MoneyStep s t := by
  cases c with
  | call q =>
    have hop : ∀ items address, q.op ≠ .createOrder items address := by
      intro items address hop
      rw [AppRequest.places, hop] at hc
      cases hc
    have h : (q.op.exec sha256 q.env q.caller).Safe moneyLocking Db.BillsOk
        fun _ s t => MoneyStep s t := exec_money sha256 hop
    unfold Safe at h ⊢
    exact wp_bind.mpr (wp_mono (fun _ _ _ hok => hok) h)
  | report r env =>
    have hwrites : ((ServiceCall.report r env).exec sha256).Writes fun _ f =>
        ∃ o g, f = fun db : Db => db.modifyDelivery o g :=
      .bind (postLocation_writes (fun o g => ⟨o, g, rfl⟩) r) fun _ => .pure _
    refine safe_of_moneyQuiet hwrites ?_
    rintro key _ ⟨o, g, rfl⟩
    exact .of_same (fun _ => rfl) (fun _ => rfl) (fun _ _ _ => rfl) fun _ => rfl
  | view caller o =>
    exact safe_of_moneyQuiet (P := fun _ _ => False) (.bind getTrackView_writes fun _ => .pure _)
      fun _ _ hf => hf.elim

/-- A commit of a request that places no order. -/
theorem moneyPost_of_commitOk {α : Type} {q : AppRequest} (hnone : q.places = none)
    {R : Db → Db → Prop} (hstep : ∀ s t, R s t → MoneyStep s t)
    (hside : (∀ c, q ≠ .service c) → ∀ s t, R s t → MoneyKept s t) {facts : List (Key × Db)}
    {w : Db → Db} {a : α}
    (h : CommitOk moneyLocking Db.BillsOk (fun _ s t => R s t) facts w a) (r : AppReply) :
    q.MoneyPost facts w r := by
  refine ⟨fun s hs hK => ?_, fun o ho => ?_⟩
  · obtain ⟨hI, hR, hframe⟩ := h s hs hK
    refine ⟨hI, ⟨fun o ho => ?_, fun _ => hstep s _ hR, fun hq => hside hq s _ hR⟩, hframe⟩
    rw [hnone] at ho
    cases ho
  · rw [hnone] at ho
    cases ho

/-- A request that places an order. -/
theorem money_of_createOrder {sha256 : String → String} {env : Env} {caller : User}
    (items : List LineItem) (address : Address) :
    ((ServiceCall.call ⟨caller, .createOrder items address, env⟩).exec sha256).wp moneyLocking
      Db.BillsOk (fun facts w r =>
        (AppRequest.service (.call ⟨caller, .createOrder items address, env⟩)).MoneyPost facts w
          (.service r)) [] id := by
  simp only [ServiceCall.exec, Request.exec, Op.exec, bind_eq, wp_bind, pure_eq, wp_ret]
  refine wp_mono (fun facts w full hok => ?_) (createOrder_money env caller items address)
  obtain ⟨hok, hfrozen⟩ := hok
  refine ⟨fun s hs hK => ?_, fun o ho => ?_⟩
  · obtain ⟨hI, hplaced, hframe⟩ := hok s hs hK
    refine ⟨hI, ⟨fun o ho => ?_, fun h => (by cases h), fun hq => absurd rfl (hq _)⟩, hframe⟩
    obtain rfl : env.uuid4 0 = o := Option.some.inj ho
    exact hplaced
  · obtain rfl : env.uuid4 0 = o := Option.some.inj ho
    exact hfrozen

/-- A request that places an order is known by what it asks for. -/
theorem AppRequest.eq_createOrder {q : AppRequest} (h : q.places ≠ none) :
    ∃ caller items address env,
      q = .service (.call ⟨caller, .createOrder items address, env⟩) := by
  cases q with
  | service c =>
    cases c with
    | call q =>
      obtain ⟨caller, op, env⟩ := q
      cases op with
      | createOrder items address => exact ⟨caller, items, address, env, rfl⟩
      | _ => exact absurd rfl h
    | _ => exact absurd rfl h
  | _ => exact absurd rfl h

/-- Every request. -/
theorem appExec_money (q : AppRequest) :
    (q.exec sec lower).wp moneyLocking Db.BillsOk q.MoneyPost [] id := by
  by_cases hnone : q.places = none
  · have hside : (q.exec sec lower).Writes SideWrite →
        (q.exec sec lower).wp moneyLocking Db.BillsOk q.MoneyPost [] id := fun hwrites =>
      wp_mono (fun _ _ r hok => moneyPost_of_commitOk hnone (fun _ _ h => MoneyKept.step h)
        (fun _ _ _ h => h) hok r) (money_of_side hwrites)
    cases q with
    | service c =>
      unfold AppRequest.exec
      refine wp_bind.mpr (wp_mono (fun _ _ r hok => ?_) (money_of_service hnone))
      exact moneyPost_of_commitOk hnone (fun _ _ h => h) (fun hq => absurd rfl (hq c)) hok _
    | auth q =>
      exact hside (.bind ((authExec_changes q).mono fun _ _ h => .auth h) fun _ => .pure _)
    | catalog q =>
      exact hside (.bind ((catalogExec_writes lower q.op).mono fun _ _ h => .catalog h)
        fun _ => .pure _)
    | messaging q =>
      exact hside (.bind ((messagingExec_writes q).mono fun _ _ h => .messaging h)
        fun _ => .pure _)
    | keys q => exact hside (.bind ((keyExec_writes q).mono fun _ _ h => .keys h) fun _ => .pure _)
  · obtain ⟨caller, items, address, env, rfl⟩ := AppRequest.eq_createOrder hnone
    unfold AppRequest.exec
    exact wp_bind.mpr (wp_mono (fun _ _ _ hpost => hpost) (money_of_createOrder items address))

end Requests

/-! ### Orders that are known -/

/-- The order is there, or its snapshot is. -/
def Db.Knows (db : Db) (o : Id) : Prop := (db.bill o).totals ≠ none ∨ db.snapshots.get o ≠ none

section Known

variable {s t : Db} {o o' : Id}

/-- No order becomes known but by being placed. -/
theorem MoneyStep.knows (h : MoneyStep s t) (ht : t.Knows o) : s.Knows o := by
  rcases ht with hplaced | hrecorded
  · rcases h.bills o with hbill | hbill
    · exact .inl (hbill ▸ hplaced)
    · rw [hbill] at hplaced
      exact absurd rfl hplaced
  · obtain ⟨x, hx⟩ := Option.ne_none_iff_exists'.mp hrecorded
    rcases h.records o x hx with hold | ⟨hplaced, -⟩
    · right
      rw [hold]
      exact Option.some_ne_none x
    · exact .inl hplaced

/-- The only order a placement adds is its own. -/
theorem OrderPlaced.knows (h : OrderPlaced o s t) (ht : t.Knows o') : s.Knows o' ∨ o' = o := by
  by_cases ho : o' = o
  · exact .inr ho
  · left
    unfold Db.Knows at ht ⊢
    rwa [h.others o' ho, h.snapshots] at ht

/-- An order that was not known has no snapshot to agree with. -/
theorem OrderPlaced.money (h : OrderPlaced o s t) (hs : s.Money) (ht : t.BillsOk)
    (hnew : ¬s.Knows o) : t.Money where
  bills := ht
  snapshots o' x hx := by
    rw [h.snapshots] at hx
    by_cases ho : o' = o
    · subst ho
      refine absurd (.inr ?_) hnew
      rw [hx]
      exact Option.some_ne_none x
    · rw [h.others o' ho]
      exact hs.snapshots o' x hx

/-- A request adds no order but the one it places. -/
theorem AppRequest.MoneyEffect.knows {q : AppRequest} (h : q.MoneyEffect s t) (ht : t.Knows o) :
    s.Knows o ∨ q.places = some o := by
  cases hq : q.places with
  | none => exact .inl ((h.stays hq).knows ht)
  | some o' =>
    rcases (h.places o' hq).knows ht with hold | rfl
    · exact .inl hold
    · exact .inr rfl

/-- A bill stays as it is, or goes with its order. -/
theorem AppRequest.MoneyEffect.bill {q : AppRequest} (h : q.MoneyEffect s t)
    (hs : (s.bill o).totals ≠ none) : t.bill o = s.bill o ∨ t.bill o = {} := by
  cases hq : q.places with
  | none => exact (h.stays hq).bills o
  | some o' =>
    have hplaced := h.places o' hq
    by_cases ho : o = o'
    · subst ho
      exact absurd hplaced.fresh hs
    · exact .inl (hplaced.others o ho)

/-- A snapshot that is there stays as it is. -/
theorem AppRequest.MoneyEffect.recorded {q : AppRequest} (h : q.MoneyEffect s t)
    {x : OrderAnalyticsSnapshot} (hx : s.snapshots.get o = some x) :
    t.snapshots.get o = some x := by
  cases hq : q.places with
  | none => exact (h.stays hq).recorded o x hx
  | some o' => rwa [(h.places o' hq).snapshots]

end Known

/-! ### Every run -/

section Runs

variable {ι : Type} [DecidableEq ι] {sec : Security} {lower : String → String}
  {requests : ι → AppRequest} {db : Db} {s t : Sys ι Db Key Err AppReply} {i : ι} {o : Id}

/-- `uuid4` draws the identifiers of orders afresh. -/
structure FreshOrders (requests : ι → AppRequest) (db : Db) : Prop where
  unused : ∀ i o, (requests i).places = some o → ¬db.Knows o
  distinct : ∀ i j o, (requests i).places = some o → (requests j).places = some o → i = j

/-- The items carry the prices of their products, whose locks transaction `i` holds. -/
def PricedBy (i : ι) (s : Sys ι Db Key Err AppReply) (b : Bill) : Prop :=
  ∀ item ∈ b.items, ∃ p, item.productId = some p.id ∧ s.owner (.product p.id) = some i ∧
    s.db.products.get p.id = some p ∧ item.unitPriceMinorSnapshot = p.priceMinor

/-- Where the bill of an order comes from: the database at the start, or the commit that placed
the order under the locks of its products. -/
def BillOrigin (sec : Security) (lower : String → String) (requests : ι → AppRequest) (db : Db)
    (t : Sys ι Db Key Err AppReply) (o : Id) : Prop :=
  t.db.bill o = db.bill o ∨ ∃ i u v, (requests i).places = some o ∧
    Sys.Steps (Sys.init db fun i => (requests i).exec sec lower) u ∧ Sys.Step i u v ∧
    Sys.Steps v t ∧ t.db.bill o = v.db.bill o ∧ PricedBy i u (t.db.bill o)

/-- What the invariant of the run says of the transactions. -/
abbrev MoneyHolds (requests : ι → AppRequest) (s : Sys ι Db Key Err AppReply) : Prop :=
  Sys.Holds moneyLocking Db.BillsOk
    (fun i => Sys.ensures moneyLocking Db.BillsOk (requests i).MoneyPost) s

/-- The invariant holds in every interleaving. -/
theorem moneyHolds_of_steps (hdb : db.BillsOk)
    (hs : Sys.Steps (Sys.init db fun i => (requests i).exec sec lower) s) :
    MoneyHolds requests s :=
  hs.ensures (Q := fun i _ => (requests i).MoneyEffect) (fun _ _ _ _ hpost => hpost.1)
    (Sys.holds_init hdb fun i => appExec_money (requests i))

/-- A statement that changes the database is a commit with its effect. -/
theorem MoneyHolds.step (h : MoneyHolds requests s) (hst : Sys.Step i s t) :
    t.db = s.db ∨ ((∃ w r, s.txn i = .running w (.ret r)) ∧
      (requests i).MoneyEffect s.db t.db ∧ t.db.BillsOk ∧
      ∀ o, (requests i).places = some o → PricedBy i s (t.db.bill o)) := by
  cases hst with
  | @commit w r hi =>
    right
    obtain ⟨facts, hheld, hknown, hok, hfrozen⟩ := h.txn i w _ hi
    obtain ⟨hI, heffect, -⟩ := hok s.db h.db hknown
    refine ⟨⟨w, r, hi⟩, heffect, hI, fun o ho item hitem => ?_⟩
    obtain ⟨p, hproduct, ⟨t, hmem⟩, hget, hprice⟩ :=
      hfrozen o ho s.db h.db hknown item hitem
    exact ⟨p, hproduct, hheld _ hmem, hget, hprice⟩
  | _ => exact .inl rfl

/-- A known order was known at the start, or a committed request has placed it. -/
theorem knows_origin (hdb : db.BillsOk)
    (hs : Sys.Steps (Sys.init db fun i => (requests i).exec sec lower) s) (ho : s.db.Knows o) :
    db.Knows o ∨ ∃ e ∈ s.log, (requests e.1).places = some o := by
  have hsafe : ∀ i, ((requests i).exec sec lower).Safe moneyLocking Db.BillsOk
      fun _ => (requests i).MoneyEffect := fun i =>
    wp_mono (fun _ _ _ hpost => hpost.1) (appExec_money (requests i))
  exact Sys.Commits.origin (T := Db.Knows) (N := fun i o => (requests i).places = some o)
    (fun _ _ _ _ _ heffect ht => heffect.knows ht) (hs.commits hdb hsafe) ho

/-- What has committed is in the log. -/
theorem logged_of_steps (hs : Sys.Steps (Sys.init db fun i => (requests i).exec sec lower) s) :
    Sys.Logged s :=
  hs.preserve (fun hst h => h.step hst) fun _ _ hlog => absurd hlog List.not_mem_nil

/-- An order that is about to be placed is not known. -/
theorem not_knows_of_running (hdb : db.BillsOk) (hfresh : FreshOrders requests db)
    (hs : Sys.Steps (Sys.init db fun i => (requests i).exec sec lower) s)
    (ho : (requests i).places = some o) {w : Db → Db} {p : Tx AppReply}
    (hi : s.txn i = .running w p) : ¬s.db.Knows o := by
  intro hknown
  rcases knows_origin hdb hs hknown with hold | ⟨e, he, hplaces⟩
  · exact hfresh.unused i o ho hold
  · obtain rfl : e.1 = i := hfresh.distinct _ _ o hplaces ho
    have hended := logged_of_steps hs e.1 e.2 he
    rw [hi] at hended
    cases hended

/-- In every state the orders cost what their items add up to, and the snapshots agree. -/
theorem money_of_steps (hdb : db.Money) (hfresh : FreshOrders requests db)
    (hs : Sys.Steps (Sys.init db fun i => (requests i).exec sec lower) s) : s.db.Money := by
  induction hs with
  | refl => exact hdb
  | @tail s t i hs hst ih =>
    rcases (moneyHolds_of_steps hdb.bills hs).step hst with
      hsame | ⟨⟨w, r, hi⟩, heffect, hok, -⟩
    · rw [hsame]
      exact ih
    · cases hq : (requests i).places with
      | none => exact (heffect.stays hq).money ih
      | some o =>
        exact (heffect.places o hq).money ih hok
          (not_knows_of_running hdb.bills hfresh hs hq hi)

/-- A bill has been there from the start, or was made under the locks of its products. -/
theorem billOrigin_of_steps (hdb : db.BillsOk)
    (hs : Sys.Steps (Sys.init db fun i => (requests i).exec sec lower) s)
    (ho : (s.db.bill o).totals ≠ none) : BillOrigin sec lower requests db s o := by
  induction hs with
  | refl => exact .inl rfl
  | @tail s t i hs hst ih =>
    have hkeep : t.db.bill o = s.db.bill o → BillOrigin sec lower requests db t o := by
      intro hbill
      rcases ih (hbill ▸ ho) with hold | ⟨j, u, v, hj, hu, huv, hvs, hsame, hpriced⟩
      · exact .inl (hbill.trans hold)
      · exact .inr ⟨j, u, v, hj, hu, huv, hvs.tail i hst, hbill.trans hsame, hbill ▸ hpriced⟩
    rcases (moneyHolds_of_steps hdb hs).step hst with hsame | ⟨-, heffect, -, hpriced⟩
    · exact hkeep (by rw [hsame])
    · cases hq : (requests i).places with
      | none =>
        rcases (heffect.stays hq).bills o with hbill | hbill
        · exact hkeep hbill
        · rw [hbill] at ho
          exact absurd rfl ho
      | some o' =>
        by_cases hoo : o = o'
        · subst hoo
          exact .inr ⟨i, s, t, hq, hs, hst, .refl t, rfl, hpriced o hq⟩
        · exact hkeep ((heffect.places o' hq).others o hoo)

/-- What holds of money in a state of the server. -/
structure OrderMoney (sec : Security) (lower : String → String) (requests : ι → AppRequest)
    (db : Db) (s : Sys ι Db Key Err AppReply) : Prop where
  money : s.db.Money
  priced : ∀ o, (s.db.bill o).totals ≠ none → BillOrigin sec lower requests db s o
  /-- The bill of an order stays, or goes with the order. -/
  stays : ∀ i t, Sys.Step i s t → ∀ o, (s.db.bill o).totals ≠ none →
    t.db.bill o = s.db.bill o ∨ t.db.bill o = {}
  recorded : ∀ i t, Sys.Step i s t → ∀ o x, s.db.snapshots.get o = some x →
    t.db.snapshots.get o = some x
  /-- No request about products changes a bill or a snapshot. -/
  catalog : ∀ i t q, Sys.Step i s t → requests i = .catalog q → MoneyKept s.db t.db

end Runs

/-- **Order money.** In every interleaving of requests to the services, every order has items,
each of another product, at the prices in force when it was placed under the locks of its
products, and costs what they add up to; its snapshot agrees; and none of this changes while the
order is there, whatever becomes of the products. -/
theorem order_money (sec : Security) (lower : String → String) {ι : Type} [DecidableEq ι]
    (requests : ι → AppRequest) {db : Db} (hdb : db.Money) (hfresh : FreshOrders requests db)
    {s : Sys ι Db Key Err AppReply}
    (hs : Sys.Steps (Sys.init db fun i => (requests i).exec sec lower) s) :
    OrderMoney sec lower requests db s := by
  have hholds := moneyHolds_of_steps hdb.bills hs
  refine ⟨money_of_steps hdb hfresh hs, fun o ho => billOrigin_of_steps hdb.bills hs ho, ?_, ?_, ?_⟩
  · intro i t hst o ho
    rcases hholds.step hst with hsame | ⟨-, heffect, -⟩
    · rw [hsame]
      exact .inl rfl
    · exact heffect.bill ho
  · intro i t hst o x hx
    rcases hholds.step hst with hsame | ⟨-, heffect, -⟩
    · rwa [hsame]
    · exact heffect.recorded hx
  · intro i t q hst hq
    rcases hholds.step hst with hsame | ⟨-, heffect, -⟩
    · rw [hsame]
      exact ⟨fun _ => rfl, rfl⟩
    · refine heffect.side fun c hc => ?_
      rw [hq] at hc
      cases hc

namespace Sample

/-- The customer orders, and the seller raises the price. -/
def purchases (second : Bool) : AppRequest :=
  if second then
    .catalog
      { caller := seller, op := .updateProduct 6 { priceMinor := some 900 } none
        env := { now := fun _ => 2, transactionNow := 2, randbelow := 0,
                 uuid4 := fun i => Nat.pair 1 i } }
  else .service (.call (orders false))

/-- The sample server owes nothing. -/
theorem start_money : start.db.Money where
  bills _ := Bill.ok_empty
  snapshots _ _ h := nomatch h

/-- The sample purchases draw new identifiers. -/
theorem purchases_fresh : FreshOrders purchases start.db where
  unused i o _ hknown := by
    rcases hknown with h | h
    · exact h rfl
    · exact h rfl
  distinct i j o hi hj := by
    cases i with
    | true => cases hi
    | false =>
      cases j with
      | true => cases hj
      | false => rfl

end Sample

/-- The price is raised after the order has been placed, which still costs two units at the old
one. -/
theorem order_money_repriced :
    ∃ s, Sys.Steps (Sys.init Sample.start.db fun i =>
        (Sample.purchases i).exec Sample.security id) s ∧
      (s.db.products.get 6).map Product.priceMinor = some 900 ∧
      (s.db.bill 0).totals = some (500, 500) ∧
      OrderMoney Sample.security id Sample.purchases Sample.start.db s := by
  obtain ⟨r, hrun⟩ := run_of_session (p := (Sample.purchases false).exec Sample.security id)
    (s := Sample.start.db) (by decide +kernel)
  obtain ⟨r', hrun'⟩ := run_of_session (p := (Sample.purchases true).exec Sample.security id)
    (s := (((Sample.purchases false).exec Sample.security id).session Sample.start.db).2)
    (by decide +kernel)
  obtain ⟨t, ht, hdb, -⟩ := Sys.inTurn_of_run (p := fun i =>
    (Sample.purchases i).exec Sample.security id) (by decide : false ≠ true) hrun hrun'
  refine ⟨t, ht, ?_, ?_, order_money Sample.security id Sample.purchases Sample.start_money
    Sample.purchases_fresh ht⟩
  · rw [hdb]
    decide +kernel
  · rw [hdb]
    decide +kernel

end Marketplace
