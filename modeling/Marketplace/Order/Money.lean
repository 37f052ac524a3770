import Marketplace.Order.Stock

/-!
# What orders cost

`create_order` merges the lines of one product and freezes the prices it has read under the
locks of the products. From then on nothing changes the items of an order or its totals, and
the snapshot of an order that completes carries them.
-/

namespace Marketplace

open Lib Txn OrderService

/-! ### Bills -/

/-- What an order costs: its subtotal and its total, while it exists, and its items. -/
structure Bill where
  totals : Option (ℤ × ℤ) := none
  items : List OrderItem := []

/-- The bill of the order `o` in a database. -/
def Db.bill (db : Db) (o : Id) : Bill :=
  { totals := (db.orders.get o).map fun x => (x.subtotalMinor, x.totalMinor)
    items := db.itemsOf o }

namespace Bill

/-- `SUM(quantity)`. -/
def quantity (b : Bill) : ℤ := (b.items.map OrderItem.quantity).sum

/-- The sum of the frozen prices. -/
def price (b : Bill) : ℤ := (b.items.map fun i => i.unitPriceMinorSnapshot * i.quantity).sum

/-- Items belong to an order; an order has items, each of another product, and costs what they
add up to. -/
structure Ok (b : Bill) : Prop where
  placed : b.totals = none → b.items = []
  nonempty : b.totals ≠ none → b.items ≠ []
  products : (b.items.map OrderItem.productId).Nodup
  totals : ∀ subtotal total, b.totals = some (subtotal, total) →
    subtotal = b.price ∧ total = b.price

/-- The snapshot carries the totals and the quantity of the order, while it exists. -/
def Records (b : Bill) (s : OrderAnalyticsSnapshot) : Prop :=
  ∀ subtotal total, b.totals = some (subtotal, total) →
    s.subtotalMinor = subtotal ∧ s.totalMinor = total ∧ s.itemCount = b.quantity

/-- A bill without an order is right. -/
theorem ok_empty : Ok {} where
  placed _ := rfl
  nonempty h := absurd rfl h
  products := List.nodup_nil
  totals _ _ h := nomatch h

/-- A bill without an order records any snapshot. -/
theorem records_empty (s : OrderAnalyticsSnapshot) : Records {} s := fun _ _ h => nomatch h

end Bill

/-- Every order costs what its items add up to. -/
def Db.BillsOk (db : Db) : Prop := ∀ o, (db.bill o).Ok

/-- Every order costs what its items add up to, and the snapshots agree. -/
structure Db.Money (db : Db) : Prop where
  bills : db.BillsOk
  snapshots : ∀ o s, db.snapshots.get o = some s → (db.bill o).Records s

/-- Bills stay, or go with their orders, and snapshots stay; a new one is of an order that was
there, and agrees with it. -/
structure MoneyStep (s t : Db) : Prop where
  bills : ∀ o, t.bill o = s.bill o ∨ t.bill o = {}
  recorded : ∀ o x, s.snapshots.get o = some x → t.snapshots.get o = some x
  records : ∀ o x, t.snapshots.get o = some x →
    s.snapshots.get o = some x ∨ ((s.bill o).totals ≠ none ∧ (t.bill o).Records x)

namespace MoneyStep

variable {s t u : Db}

/-- A state is a money step from itself. -/
theorem refl (s : Db) : MoneyStep s s := ⟨fun _ => .inl rfl, fun _ _ h => h, fun _ _ h => .inl h⟩

/-- Two money steps make one. -/
theorem trans (hst : MoneyStep s t) (htu : MoneyStep t u) : MoneyStep s u where
  bills o := by
    rcases htu.bills o with h | h
    · rw [h]
      exact hst.bills o
    · exact .inr h
  recorded o x h := htu.recorded o x (hst.recorded o x h)
  records o x h := by
    rcases htu.records o x h with hx | ⟨hplaced, hx⟩
    · rcases hst.records o x hx with hx | ⟨hplaced, hx⟩
      · exact .inl hx
      · rcases htu.bills o with hbill | hbill
        · exact .inr ⟨hplaced, hbill ▸ hx⟩
        · exact .inr ⟨hplaced, hbill ▸ Bill.records_empty x⟩
    · rcases hst.bills o with hbill | hbill
      · exact .inr ⟨hbill ▸ hplaced, hx⟩
      · rw [hbill] at hplaced
        exact absurd rfl hplaced

/-- A money step keeps the bills right. -/
theorem billsOk (h : MoneyStep s t) (hs : s.BillsOk) : t.BillsOk := by
  intro o
  rcases h.bills o with hbill | hbill
  · rw [hbill]
    exact hs o
  · rw [hbill]
    exact Bill.ok_empty

/-- A money step keeps the money right. -/
theorem money (h : MoneyStep s t) (hs : s.Money) : t.Money where
  bills := h.billsOk hs.bills
  snapshots o x hx := by
    rcases h.records o x hx with hold | ⟨-, hnew⟩
    · rcases h.bills o with hbill | hbill
      · rw [hbill]
        exact hs.snapshots o x hold
      · rw [hbill]
        exact Bill.records_empty x
    · exact hnew

end MoneyStep

/-- The lock on an order protects its bill too. -/
def moneyLocking : Locking Db Key where
  agree key s t := stockLocking.agree key s t ∧
    match key with
    | .order o => t.bill o = s.bill o
    | _ => True
  refl key s := by
    refine ⟨stockLocking.refl key s, ?_⟩
    cases key with
    | _ => trivial
  trans {key s t u} hst htu := by
    refine ⟨stockLocking.trans hst.1 htu.1, ?_⟩
    cases key with
    | order o => exact Eq.trans htu.2 hst.2
    | _ => trivial

/-- The rows known under the money locks are known under the stock locks. -/
theorem moneyLocking_known {facts : List (Key × Db)} {s : Db} (h : moneyLocking.Known facts s) :
    stockLocking.Known facts s := fun f hf => (h f hf).1

/-! ### Writes that leave bills alone -/

/-- A write that records nothing, and changes the bill of no order but one whose row it holds and
removes. -/
structure MoneyQuiet (key : Key) (f : Db → Db) : Prop where
  bills : ∀ db o, (f db).bill o = db.bill o ∨ (key = .order o ∧ (f db).bill o = {})
  snapshots : ∀ db, (f db).snapshots = db.snapshots
  frame : ∀ db key', key' ≠ key → stockLocking.agree key' db (f db)

namespace MoneyQuiet

variable {key key' : Key} {f : Db → Db}

/-- A quiet write is a money step. -/
theorem step (h : MoneyQuiet key f) (db : Db) : MoneyStep db (f db) where
  bills o := (h.bills db o).imp id And.right
  recorded o x hx := by rwa [h.snapshots]
  records o x hx := by
    rw [h.snapshots] at hx
    exact .inl hx

/-- A quiet write under one lock leaves the bills of the others alone. -/
theorem agree (h : MoneyQuiet key f) (db : Db) (hne : key' ≠ key) :
    moneyLocking.agree key' db (f db) := by
  refine ⟨h.frame db key' hne, ?_⟩
  cases key' with
  | order o => exact (h.bills db o).resolve_right fun heq => hne heq.1.symm
  | _ => trivial

/-- Writes to other tables. -/
theorem of_same (horders : ∀ db, (f db).orders = db.orders)
    (hitems : ∀ db, (f db).orderItems = db.orderItems)
    (hproducts : ∀ db, ∀ id, key ≠ .product id →
      (f db).products.get id = db.products.get id)
    (hsnapshots : ∀ db, (f db).snapshots = db.snapshots) : MoneyQuiet key f where
  bills db o := .inl (by rw [Db.bill, Db.bill, Db.itemsOf, Db.itemsOf, horders, hitems])
  snapshots := hsnapshots
  frame db key' hne := by
    cases key' with
    | product id => exact hproducts db id hne.symm
    | order id => exact congrArg (fun t => t.get id) (horders db)
    | orderItem id => exact fun hnone => (congrArg (fun t => t.get id) (hitems db)).trans hnone
    | _ => trivial

end MoneyQuiet

section Writes

variable {K : List WriteKind} {key : Key} {f : Db → Db} {db : Db} {o : Id}

/-- An edit of the order's stages leaves its bill alone. -/
theorem bill_modifyOrder (id : Id) {target : Option OrderStatus} {f : Order → Order}
    (hf : OrderEdit target f) :
    (db.modifyOrder id f).bill o = db.bill o := by
  have hget : (db.modifyOrder id f).orders.get o = _ := Table.get_modify db.orders id hf.id o
  have htotals : ((db.modifyOrder id f).orders.get o).map
      (fun x => (x.subtotalMinor, x.totalMinor)) =
      (db.orders.get o).map fun x => (x.subtotalMinor, x.totalMinor) := by
    rw [hget]
    split
    · rw [Option.map_map]
      congr 1
      funext x
      exact Prod.ext (hf.subtotalMinor x) (hf.totalMinor x)
    · rfl
  rw [Db.bill, htotals]
  rfl

/-- A deleted order has an empty bill. -/
theorem bill_removeOrder_self : (db.removeOrder o).bill o = {} := by
  have hlife : (db.removeOrder o).life o = (db.life o).bury := life_removeOrder_self
  have horder : (db.removeOrder o).orders.get o = none := congrArg Life.order hlife
  have hitems : (db.removeOrder o).itemsOf o = [] := congrArg Life.items hlife
  rw [Db.bill, horder, hitems]
  rfl

/-- Deleting another order leaves the bill alone. -/
theorem bill_removeOrder_of_ne {id : Id} (h : o ≠ id) : (db.removeOrder id).bill o = db.bill o := by
  have hlife : (db.removeOrder id).life o = db.life o := life_removeOrder_of_ne h
  have horder : (db.removeOrder id).orders.get o = db.orders.get o := congrArg Life.order hlife
  have hitems : (db.removeOrder id).itemsOf o = db.itemsOf o := congrArg Life.items hlife
  rw [Db.bill, Db.bill, horder, hitems]

/-- The writes on orders but the snapshot are quiet about money. -/
theorem OrderWrite.moneyQuiet (hK : .snapshot ∉ K) (h : OrderWrite K key f) :
    MoneyQuiet key f := by
  have hframe : ∀ db key', key' ≠ key → stockLocking.agree key' db (f db) := fun db _ hne =>
    (ServiceWrite.order h).frame db hne
  cases h with
  | modifyOrder id target f hf h =>
      exact ⟨fun db o => .inl (bill_modifyOrder id hf), fun _ => rfl, hframe⟩
  | removeOrder id h =>
    refine ⟨fun db o => ?_, fun _ => rfl, hframe⟩
    by_cases ho : o = id
    · subst ho
      exact .inr ⟨rfl, bill_removeOrder_self⟩
    · exact .inl (bill_removeOrder_of_ne ho)
  | addSnapshot s h => exact absurd h hK
  | _ => exact ⟨fun db o => .inl rfl, fun _ => rfl, hframe⟩

/-- The writes of the services but the snapshot are quiet about money. -/
theorem ServiceWrite.moneyQuiet (hK : .snapshot ∉ K) (h : ServiceWrite K key f) :
    MoneyQuiet key f := by
  cases h with
  | order h => exact h.moneyQuiet hK
  | setSettings ps =>
    exact .of_same (fun _ => rfl) (fun _ => rfl) (fun _ _ _ => rfl) fun _ => rfl

end Writes

/-! ### Pending changes -/

/-- The pending changes treat bills well and touch only what is locked. -/
structure MoneyPending (facts : List (Key × Db)) (w : Db → Db) : Prop where
  step : ∀ s, moneyLocking.Known facts s → MoneyStep s (w s)
  frame : ∀ s key, (∀ f ∈ facts, f.1 ≠ key) → moneyLocking.agree key s (w s)

namespace MoneyPending

variable {facts facts' : List (Key × Db)} {w f : Db → Db} {key : Key}

/-- Nothing is pending at first. -/
theorem nil : MoneyPending [] id :=
  ⟨fun s _ => .refl s, fun s key _ => moneyLocking.refl key s⟩

/-- What is pending under fewer facts is pending under more. -/
theorem mono (h : MoneyPending facts w) (hsub : facts ⊆ facts') : MoneyPending facts' w where
  step s hs := h.step s fun fact hfact => hs fact (hsub hfact)
  frame s key hkey := h.frame s key fun fact hfact => hkey fact (hsub hfact)

/-- One more write, to a locked row. -/
theorem write (h : MoneyPending facts w) {s₀ : Db} (hmem : (key, s₀) ∈ facts)
    (hstep : ∀ s, moneyLocking.Known facts s → MoneyStep (w s) (f (w s)))
    (hframe : ∀ s key', key' ≠ key → moneyLocking.agree key' s (f s)) :
    MoneyPending facts (f ∘ w) where
  step s hs := (h.step s hs).trans (hstep s hs)
  frame s key' hkey := moneyLocking.trans (h.frame s key' hkey)
    (hframe (w s) key' fun heq => hkey _ hmem heq.symm)

/-- A quiet write joins the pending ones. -/
theorem quiet (h : MoneyPending facts w) (s₀ : Db) (hf : MoneyQuiet key f) :
    MoneyPending ((key, s₀) :: facts) (f ∘ w) :=
  (h.mono (List.subset_cons_self _ _)).write List.mem_cons_self (fun s _ => hf.step (w s))
    fun s _ hne => hf.agree s hne

/-- Nothing but the snapshot of an order changes. -/
theorem agree_addSnapshot (s : Db) (x : OrderAnalyticsSnapshot) (key : Key) :
    moneyLocking.agree key s (s.addSnapshot x) := by
  refine ⟨?_, ?_⟩
  · cases key with
    | orderItem id => exact fun hnone => hnone
    | _ => first | rfl | trivial
  · cases key with
    | order o => exact rfl
    | _ => trivial

/-- Quiet writes commit as a money step. -/
theorem commitOk {α : Type} (h : MoneyPending facts w) (a : α) :
    CommitOk moneyLocking Db.BillsOk (fun _ s t => MoneyStep s t) facts w a := fun s hs hK =>
  ⟨(h.step s hK).billsOk hs, h.step s hK, h.frame s⟩

end MoneyPending

/-! ### Programs that record nothing -/

/-- A program whose writes leave bills alone. -/
theorem safe_of_moneyQuiet {α : Type} {P : Key → (Db → Db) → Prop} {p : Tx α} (h : p.Writes P)
    (hP : ∀ key f, P key f → MoneyQuiet key f) :
    p.Safe moneyLocking Db.BillsOk fun _ s t => MoneyStep s t :=
  h.safe MoneyStep.refl (fun _ _ _ => MoneyStep.trans)
    (fun key f hf s hs => ⟨((hP key f hf).step s).billsOk hs, (hP key f hf).step s⟩)
    fun key f hf s _ hne => (hP key f hf).agree s hne

/-! ### Programs that record orders -/

section Recording

variable {env : Env} {caller : User} {orderId : Id} {facts facts' : List (Key × Db)}
  {w : Db → Db} {x : Order} {s t : Db}

/-- The totals on the bill are those of the order's row. -/
theorem totals_of_get (h : s.orders.get x.id = some x) :
    (s.bill x.id).totals = some (x.subtotalMinor, x.totalMinor) := by
  rw [Db.bill, h, Option.map_some]

/-- The order is locked, and cost this when its lock was taken. -/
def LockedOrder (facts : List (Key × Db)) (x : Order) : Prop :=
  ∃ s, (Key.order x.id, s) ∈ facts ∧
    (s.bill x.id).totals = some (x.subtotalMinor, x.totalMinor)

/-- An order known from fewer facts is known from more. -/
theorem LockedOrder.mono (h : LockedOrder facts x) (hsub : facts ⊆ facts') :
    LockedOrder facts' x := by
  obtain ⟨s, hmem, htotals⟩ := h
  exact ⟨s, hsub hmem, htotals⟩

/-- An order whose lock is held costs what it cost. -/
theorem LockedOrder.bill_eq (h : LockedOrder facts x) (hs : moneyLocking.Known facts s)
    (ht : moneyLocking.Known facts t) : t.bill x.id = s.bill x.id := by
  obtain ⟨u, hmem, -⟩ := h
  have hsu : s.bill x.id = u.bill x.id := (hs _ hmem).2
  have htu : t.bill x.id = u.bill x.id := (ht _ hmem).2
  exact htu.trans hsu.symm

/-- The totals of a locked order are still those of its row. -/
theorem LockedOrder.totals (h : LockedOrder facts x) (hs : moneyLocking.Known facts s) :
    (s.bill x.id).totals = some (x.subtotalMinor, x.totalMinor) := by
  obtain ⟨u, hmem, htotals⟩ := h
  have hsu : s.bill x.id = u.bill x.id := (hs _ hmem).2
  rw [hsu]
  exact htotals

/-- A snapshot once recorded is kept. -/
theorem get_addSnapshot {r y : OrderAnalyticsSnapshot} {o : Id}
    (h : s.snapshots.get o = some y) : (s.addSnapshot r).snapshots.get o = some y := by
  have hget : (s.addSnapshot r).snapshots.get o = _ := Table.get_insert_or s.snapshots r o
  rw [hget, h, Option.some_or, ite_self]

/-- What is found after a snapshot has been added is that snapshot, or was there. -/
theorem get_of_addSnapshot {r y : OrderAnalyticsSnapshot} {o : Id}
    (h : (s.addSnapshot r).snapshots.get o = some y) :
    (y = r ∧ o = r.orderId) ∨ s.snapshots.get o = some y := by
  have hkey : y.orderId = o := Table.key_of_get h
  rcases Table.get_of_insert (t := s.snapshots) h with rfl | hold
  · exact .inl ⟨rfl, hkey.symm⟩
  · exact .inr hold

/-- The row that `_write_snapshot` inserts agrees with the order. -/
theorem records_snapshotRow {i : ℕ}
    (h : (s.bill x.id).totals = some (x.subtotalMinor, x.totalMinor)) :
    (s.bill x.id).Records (snapshotRow s env i x) := by
  intro subtotal total htotals
  rw [h] at htotals
  obtain ⟨rfl, rfl⟩ := Prod.mk.inj (Option.some.inj htotals)
  exact ⟨rfl, rfl, rfl⟩

/-- The pending changes have changed no bill yet. -/
structure Recording (facts : List (Key × Db)) (w : Db → Db) : Prop extends
    MoneyPending facts w where
  keeps : ∀ s o, (w s).bill o = s.bill o

namespace Recording

/-- Nothing is recorded at first. -/
theorem nil : Recording [] id := ⟨.nil, fun _ _ => rfl⟩

/-- What is recorded under fewer facts is recorded under more. -/
theorem mono (h : Recording facts w) (hsub : facts ⊆ facts') : Recording facts' w :=
  ⟨h.toMoneyPending.mono hsub, h.keeps⟩

/-- One more lock. -/
theorem cons (h : Recording facts w) (fact : Key × Db) : Recording (fact :: facts) w :=
  h.mono (List.subset_cons_self _ _)

/-- One more change of an order. -/
theorem modifyOrder (h : Recording facts w) (s : Db) {id : Id} {target : Option OrderStatus}
    {f : Order → Order} (hf : OrderEdit target f) :
    Recording ((.order id, s) :: facts) ((fun db => db.modifyOrder id f) ∘ w) where
  toMoneyPending := h.toMoneyPending.quiet s
    (OrderWrite.moneyQuiet (K := [.order target]) (by simp)
      (.modifyOrder id target f hf List.mem_cons_self))
  keeps t o := (bill_modifyOrder id hf).trans (h.keeps t o)

/-- The retention settings. -/
theorem setSettings (h : Recording facts w) (s : Db) (ps : PlatformSettings) :
    Recording ((.platformSettings, s) :: facts) ((fun db => db.setSettings ps) ∘ w) where
  toMoneyPending := h.toMoneyPending.quiet s
    (ServiceWrite.moneyQuiet (K := [.settings]) (by decide) (.setSettings ps))
  keeps t o := h.keeps t o

/-- What a transaction reads of an order whose lock it holds. -/
theorem totals (h : Recording facts w) (hx : LockedOrder facts x)
    (hs : moneyLocking.Known facts s) :
    ((w s).bill x.id).totals = some (x.subtotalMinor, x.totalMinor) := by
  rw [h.keeps]
  exact hx.totals hs

/-- An order that is found under its lock. -/
theorem lockedOrder (h : Recording facts w) (hget : (w s).orders.get x.id = some x) :
    LockedOrder ((.order x.id, s) :: facts) x := by
  refine ⟨s, List.mem_cons_self, ?_⟩
  rw [← h.keeps]
  exact totals_of_get hget

/-- The snapshot of an order whose lock is held. -/
theorem record (h : Recording facts w) (hx : LockedOrder facts x) (s₀ : Db)
    (hs : moneyLocking.Known facts s) (i : ℕ) :
    Recording ((.snapshot x.id, s₀) :: facts)
      ((fun db => db.addSnapshot (snapshotRow (w s) env i x)) ∘ w) where
  step t ht := by
    have ht' : moneyLocking.Known facts t := (Locking.known_cons.mp ht).2
    have hbill : (w t).bill x.id = (w s).bill x.id := by
      rw [h.keeps, h.keeps]
      exact hx.bill_eq hs ht'
    have hadd : MoneyStep (w t) ((w t).addSnapshot (snapshotRow (w s) env i x)) := by
      refine ⟨fun o => .inl rfl, fun o y hy => get_addSnapshot hy, fun o y hy => ?_⟩
      rcases get_of_addSnapshot hy with ⟨rfl, rfl⟩ | hold
      · refine .inr ⟨?_, ?_⟩
        · change ((w t).bill x.id).totals ≠ none
          rw [h.totals hx ht']
          exact Option.some_ne_none _
        · change ((w t).bill x.id).Records _
          rw [hbill]
          exact records_snapshotRow (h.totals hx hs)
      · exact .inl hold
    exact (h.step t ht').trans hadd
  frame t key hkey := by
    have hkey' : ∀ f ∈ facts, f.1 ≠ key := fun f hf => hkey f (List.mem_cons_of_mem _ hf)
    exact moneyLocking.trans (h.frame t key hkey') (MoneyPending.agree_addSnapshot _ _ _)
  keeps t o := h.keeps t o

end Recording

/-- An order whose lock is held is recorded once more before its row goes. -/
theorem MoneyPending.bury (h : MoneyPending facts w) (hx : LockedOrder facts x)
    {r : OrderAnalyticsSnapshot} (hr : r.orderId = x.id) (hsub : facts ⊆ facts') :
    MoneyPending facts' ((fun db => (db.addSnapshot r).removeOrder x.id) ∘ w) where
  step t ht := by
    have ht' : moneyLocking.Known facts t := fun f hf => ht f (hsub hf)
    have hother : ∀ o, o ≠ x.id → (((w t).addSnapshot r).removeOrder x.id).bill o = (w t).bill o :=
      fun o ho => bill_removeOrder_of_ne ho
    have hself : (((w t).addSnapshot r).removeOrder x.id).bill x.id = {} := bill_removeOrder_self
    refine ⟨fun o => ?_, fun o y hy => ?_, fun o y hy => ?_⟩
    · by_cases ho : o = x.id
      · subst ho
        exact .inr hself
      · have hstep := (h.step t ht').bills o
        rw [← hother o ho] at hstep
        exact hstep
    · exact get_addSnapshot (s := w t) ((h.step t ht').recorded o y hy)
    · rcases get_of_addSnapshot (s := w t) hy with ⟨rfl, rfl⟩ | hold
      · refine .inr ⟨?_, ?_⟩
        · rw [hr, hx.totals ht']
          exact Option.some_ne_none _
        · rw [hr, Function.comp_apply, hself]
          exact Bill.records_empty _
      · refine ((h.step t ht').records o y hold).imp id fun hnew => ⟨hnew.1, ?_⟩
        by_cases ho : o = x.id
        · subst ho
          rw [Function.comp_apply, hself]
          exact Bill.records_empty _
        · rw [Function.comp_apply, hother o ho]
          exact hnew.2
  frame t key hkey := by
    obtain ⟨s, hmem, -⟩ := hx
    have hne : key ≠ .order x.id := fun heq => hkey _ (hsub hmem) heq.symm
    have hremove : moneyLocking.agree key ((w t).addSnapshot r) _ :=
      (OrderWrite.moneyQuiet (K := [.removal]) (by decide) (.removeOrder x.id)).agree _ hne
    exact moneyLocking.trans
      (moneyLocking.trans (h.frame t key fun f hf => hkey f (hsub hf))
        (MoneyPending.agree_addSnapshot _ r key)) hremove

end Recording

/-! ### The operations that record orders -/

section Operations

variable {env : Env} {caller : User} {orderId : Id} {facts facts' : List (Key × Db)}
  {w : Db → Db} {I : Db → Prop}

/-- Writing a snapshot locks its row and adds it when the order has none. -/
theorem wp_writeSnapshot {i : ℕ} {x : Order} {Post : List (Key × Db) → (Db → Db) → Unit → Prop}
    (h : ∀ s s₀, moneyLocking.Known facts s → Post ((.snapshot x.id, s₀) :: facts)
      ((fun db => db.addSnapshot (snapshotRow (w s) env i x)) ∘ w) ()) :
    (writeSnapshot env i x).wp moneyLocking I Post facts w := by
  simp only [writeSnapshot, insertSnapshot, bind_eq, wp_bind, wp_read, wp_updateRow]
  exact fun s _ hs s₀ _ _ => h s s₀ hs

/-- The settings are read, or created. -/
theorem wp_getRetentionSettings (hw : Recording facts w)
    {Post : List (Key × Db) → (Db → Db) → PlatformSettings → Prop}
    (h : ∀ facts' w' ps, facts ⊆ facts' → Recording facts' w' → Post facts' w' ps) :
    (getRetentionSettings env).wp moneyLocking I Post facts w := by
  simp only [getRetentionSettings, bind_eq, wp_bind, wp_read]
  intro s _ _
  cases (w s).platformSettings with
  | some ps => exact h facts w ps (List.Subset.refl _) hw
  | none =>
    simp only [wp_bind, wp_updateRow]
    exact fun t _ _ => h _ _ _ (List.subset_cons_self _ _) (hw.setSettings t _)

/-- The orders that are found are locked. -/
theorem wp_skipLockedOrders (hw : Recording facts w) {p : Order → Bool} {ids : List Id}
    {Post : List (Key × Db) → (Db → Db) → List Order → Prop}
    (h : ∀ facts' orders, facts ⊆ facts' → (∀ x ∈ orders, LockedOrder facts' x) →
      Post facts' w orders) :
    (skipLockedOrders p ids).wp moneyLocking I Post facts w := by
  induction ids generalizing facts Post with
  | nil => exact h facts [] (List.Subset.refl _) fun x hx => absurd hx List.not_mem_nil
  | cons id ids ih =>
    simp only [skipLockedOrders, bind_eq, wp_bind, tryAcquire, Txn.wp]
    refine ⟨fun s _ _ => ?_, ?_⟩
    · refine ih (hw.cons _) fun facts' orders hsub hlocked => h facts' _ ?_ fun x hx => ?_
      · exact fun fact hfact => hsub (List.mem_cons_of_mem _ hfact)
      · rcases List.mem_append.mp hx with hfound | hx
        · have hget : (w s).orders.get id = some x := by
            exact (Option.filter_eq_some_iff.mp (Option.mem_toList.mp hfound)).1
          obtain rfl : x.id = id := Table.key_of_get hget
          exact (hw.lockedOrder hget).mono hsub
        · exact hlocked x hx
    · exact ih hw fun facts' orders hsub hlocked => h facts' orders hsub hlocked

/-- The automatic completion records a snapshot for each order that it completes. -/
theorem wp_autoComplete {now : Time} {i : ℕ} {orders : List Order} (hw : Recording facts w)
    (horders : ∀ x ∈ orders, LockedOrder facts x)
    {Post : List (Key × Db) → (Db → Db) → ℕ → Prop}
    (h : ∀ facts' w' n, facts ⊆ facts' → Recording facts' w' → Post facts' w' n) :
    (autoComplete env now i orders).wp moneyLocking I Post facts w := by
  induction orders generalizing facts w i Post with
  | nil => exact h facts w 0 (List.Subset.refl _) hw
  | cons x orders ih =>
    simp only [autoComplete, wp_ite]
    refine ⟨fun _ => ?_, fun _ => ?_⟩
    · exact ih hw (fun y hy => horders y (List.mem_cons_of_mem _ hy)) h
    · simp only [updateOrder, bind_eq, wp_bind, wp_updateRow]
      intro s _ _
      refine wp_writeSnapshot fun t t₀ ht => ?_
      have hx : LockedOrder ((.order x.id, s) :: facts) (x.complete now) :=
        (horders x List.mem_cons_self).mono (List.subset_cons_self _ _)
      have hedit : OrderEdit (some .completed) (Order.complete now) := orderEdit_complete
      have hsub : facts ⊆ (.snapshot (x.complete now).id, t₀) :: (.order x.id, s) :: facts :=
        fun fact hfact => List.mem_cons_of_mem _ (List.mem_cons_of_mem _ hfact)
      refine ih ((hw.modifyOrder s hedit).record hx t₀ ht i)
        (fun y hy => (horders y (List.mem_cons_of_mem _ hy)).mono hsub) ?_
      exact fun facts' w' n hsub' hw' => h facts' w' (n + 1) (fun _ hf => hsub' (hsub hf)) hw'

/-- The purge deletes orders and touches no bill besides. -/
theorem wp_purge {i : ℕ} {orders : List Order} (hw : MoneyPending facts w)
    (horders : ∀ x ∈ orders, LockedOrder facts x)
    {Post : List (Key × Db) → (Db → Db) → ℕ → Prop}
    (h : ∀ facts' w' n, MoneyPending facts' w' → Post facts' w' n) :
    (purge env i orders).wp moneyLocking I Post facts w := by
  induction orders generalizing facts w i Post with
  | nil => exact h facts w 0 hw
  | cons x orders ih =>
    have hrest : ∀ {facts' : List (Key × Db)}, facts ⊆ facts' →
        ∀ y ∈ orders, LockedOrder facts' y := fun hsub y hy =>
      (horders y (List.mem_cons_of_mem _ hy)).mono hsub
    simp only [purge, bind_eq, wp_bind, wp_ite, deleteOrderRow, wp_updateRow]
    refine ⟨fun _ => wp_writeSnapshot fun t t₀ _ u _ _ => ?_, fun _ => ?_⟩
    · have hsub : facts ⊆ (.order x.id, u) :: (.snapshot x.id, t₀) :: facts :=
        fun fact hfact => List.mem_cons_of_mem _ (List.mem_cons_of_mem _ hfact)
      have hnext := hw.bury (horders x List.mem_cons_self)
        (r := snapshotRow (w t) env i x) rfl hsub
      exact ih hnext (hrest hsub) fun facts' w' n hw' => h facts' w' (n + 1) hw'
    · intro u _ _
      have hnext := hw.quiet u
        (OrderWrite.moneyQuiet (K := [.removal]) (by decide) (.removeOrder x.id))
      exact ih hnext (hrest (List.subset_cons_self _ _)) fun facts' w' n hw' =>
        h facts' w' (n + 1) hw'

/-- Completing an order is a money step. -/
theorem completeOrder_money : (completeOrder env caller orderId).Safe moneyLocking Db.BillsOk
    fun _ s t => MoneyStep s t := by
  unfold Safe completeOrder
  simp only [bind_eq, wp_bind, wp_raiseIf]
  refine fun _ => wp_lockOrderOr404 fun s x _ _ hact => ?_
  obtain rfl := hact.id_eq
  simp only [updateOrder, wp_updateRow]
  intro _ t _ _
  have hx : LockedOrder ((.order x.id, t) :: [(.order x.id, s)]) (x.complete (env.now 0)) :=
    (Recording.nil.lockedOrder hact.found).mono (List.subset_cons_self _ _)
  refine wp_writeSnapshot fun u u₀ hu => wp_loaded fun full => ?_
  have hedit : OrderEdit (some .completed) (Order.complete (env.now 0)) := orderEdit_complete
  have hmodify : Recording [(.order x.id, t), (.order x.id, s)]
      ((fun db => db.modifyOrder x.id (Order.complete (env.now 0))) ∘ id) :=
    (Recording.nil.cons (.order x.id, s)).modifyOrder t hedit
  exact (hmodify.record hx u₀ hu 0).commitOk full

/-- Deleting an order is a money step. -/
theorem deleteOrder_money : (deleteOrder env caller orderId).Safe moneyLocking Db.BillsOk
    fun _ s t => MoneyStep s t := by
  unfold Safe deleteOrder loadOrderLocked
  simp only [bind_eq, wp_bind]
  refine wp_selectForUpdate (by simp) fun s _ _ => ?_
  simp only [wp_getOrRaise, wp_raiseIf]
  intro x hget _ _ _ _ _ _
  obtain rfl : x.id = orderId := Table.key_of_get hget
  have hx := Recording.nil.lockedOrder (s := s) hget
  refine wp_getRetentionSettings (Recording.nil.cons _) fun facts w ps hsub hw _ => ?_
  simp only [wp_ite, deleteOrderRow, wp_bind, wp_updateRow]
  refine ⟨fun _ => wp_writeSnapshot fun t t₀ _ u _ _ => ?_, fun _ u _ _ => ?_⟩
  · have hbury := hw.bury (hx.mono hsub) (r := snapshotRow (w t) env 0 x) rfl
      (fun fact hfact => List.mem_cons_of_mem (.order x.id, u)
        (List.mem_cons_of_mem (.snapshot x.id, t₀) hfact))
    exact hbury.commitOk ()
  · have hremove := hw.quiet u
      (OrderWrite.moneyQuiet (K := [.removal]) (by decide) (.removeOrder x.id))
    exact hremove.commitOk ()

/-- The purge job is a money step. -/
theorem runPurgeJob_money : (runPurgeJob env).Safe moneyLocking Db.BillsOk
    fun _ s t => MoneyStep s t := by
  unfold Safe runPurgeJob
  simp only [bind_eq, wp_bind]
  refine wp_getRetentionSettings Recording.nil fun facts w ps _ hw => ?_
  simp only [wp_read]
  intro s _ _
  refine wp_skipLockedOrders hw fun facts orders hsub horders => ?_
  refine wp_autoComplete (hw.mono hsub) horders fun facts w n _ hw => ?_
  intro t _ _
  refine wp_skipLockedOrders hw fun facts orders hsub horders => ?_
  exact wp_purge (hw.mono hsub).toMoneyPending horders fun facts w m hw => hw.commitOk _

/-- No operation but the placing of an order makes a bill. -/
theorem exec_money (sha256 : String → String) {op : Op}
    (hop : ∀ items address, op ≠ .createOrder items address) :
    (op.exec sha256 env caller).Safe moneyLocking Db.BillsOk fun _ s t => MoneyStep s t := by
  have hquiet : ∀ {op : Op}, .snapshot ∉ op.writeKinds →
      (∀ items address, op ≠ .createOrder items address) →
      (op.exec sha256 env caller).Safe moneyLocking Db.BillsOk fun _ s t => MoneyStep s t :=
    fun hkinds hne => safe_of_moneyQuiet (exec_writes hne) fun _ _ hf => hf.moneyQuiet hkinds
  cases op with
  | createOrder items address => exact absurd rfl (hop items address)
  | completeOrder o => exact completeOrder_money.map
  | deleteOrder o => exact deleteOrder_money.map
  | runPurgeJob => exact runPurgeJob_money.map
  | _ =>
    refine hquiet ?_ hop
    simp only [Op.writeKinds]
    decide

end Operations

/-! ### Placing an order -/

section Lines

variable {env : Env} {orderId : Id} {i : ℕ} {lines : List (Product × ℤ)}

/-- An item is frozen from a line. -/
theorem line_of_mem_newItems {item : OrderItem} (h : item ∈ newItems env orderId i lines) :
    ∃ l ∈ lines, item.productId = some l.1.id ∧ item.unitPriceMinorSnapshot = l.1.priceMinor := by
  induction lines generalizing i with
  | nil => exact absurd h List.not_mem_nil
  | cons line lines ih =>
    rcases List.mem_cons.mp h with rfl | h
    · exact ⟨line, List.mem_cons_self, rfl, rfl⟩
    · obtain ⟨l, hl, hitem⟩ := ih h
      exact ⟨l, List.mem_cons_of_mem _ hl, hitem⟩

/-- The items have the products of the lines. -/
theorem products_newItems : (newItems env orderId i lines).map OrderItem.productId =
    ((linePairs lines).map Prod.fst).map some := by
  induction lines generalizing i with
  | nil => rfl
  | cons line lines ih => exact congrArg (some line.1.id :: ·) ih

/-- The frozen prices add up to the subtotal. -/
theorem price_newItems : ((newItems env orderId i lines).map fun item =>
    item.unitPriceMinorSnapshot * item.quantity).sum = subtotal lines := by
  induction lines generalizing i with
  | nil => rfl
  | cons line lines ih =>
    have hcons : subtotal (line :: lines) = line.1.priceMinor * line.2 + subtotal lines :=
      List.sum_cons
    rw [newItems, List.map_cons, List.sum_cons, ih, hcons]
    rfl

/-- A line added leaves the list with a pair. -/
theorem addQuantity_ne_nil (pairs : List (Id × ℤ)) (item : LineItem) :
    addQuantity pairs item ≠ [] := by
  cases pairs with
  | nil => exact List.cons_ne_nil _ _
  | cons pair pairs =>
    unfold addQuantity
    split
    · exact List.cons_ne_nil _ _
    · exact List.cons_ne_nil _ _

/-- Merging leaves a line. -/
theorem qtyById_ne_nil {items : List LineItem} (h : items ≠ []) : qtyById items ≠ [] := by
  have hlast := List.dropLast_append_getLast h
  rw [qtyById, ← hlast, List.foldl_append]
  exact addQuantity_ne_nil _ _

end Lines

/-- An order is placed under a fresh identifier; everything else about money stays. -/
structure OrderPlaced (o : Id) (s t : Db) : Prop where
  fresh : (s.bill o).totals = none
  placed : (t.bill o).totals ≠ none
  others : ∀ o', o' ≠ o → t.bill o' = s.bill o'
  snapshots : t.snapshots = s.snapshots

/-- The items of the order carry the prices of their products, whose rows are locked. -/
def FrozenPrices (o : Id) (facts : List (Key × Db)) (w : Db → Db) : Prop :=
  ∀ s, s.BillsOk → moneyLocking.Known facts s → ∀ item ∈ ((w s).bill o).items,
    ∃ p, item.productId = some p.id ∧ (∃ t, (Key.product p.id, t) ∈ facts) ∧
      s.products.get p.id = some p ∧ item.unitPriceMinorSnapshot = p.priceMinor

namespace Placing

variable {env : Env} {caller : User} {facts : List (Key × Db)} {items : List LineItem}
  {lines : List (Product × ℤ)} {order : Order} {rows : List OrderItem} {s : Db} {o : Id}

/-- The pending order adds its own items and no others. -/
theorem itemsOf_pending_of (h : Placing facts items lines order rows)
    (hs : stockLocking.Known facts s) : (pending lines order rows s).itemsOf o =
      s.itemsOf o ++ rows.filter fun i => i.orderId = o := by
  have hrows : (pending lines order rows s).orderItems.rows = s.orderItems.rows ++ rows :=
    h.appends.rows s hs
  rw [Db.itemsOf, hrows, List.filter_append]
  rfl

/-- The bill of the new order. -/
theorem bill_pending_self (h : Placing facts items lines order rows) (hI : s.BillsOk)
    (hs : stockLocking.Known facts s) : (pending lines order rows s).bill order.id =
      { totals := some (order.subtotalMinor, order.totalMinor), items := rows } := by
  have hnone : (s.bill order.id).totals = none := by
    rw [Db.bill, h.order_free hs]
    rfl
  have hitems : s.itemsOf order.id = [] := (hI order.id).placed hnone
  have hall : (rows.filter fun i => i.orderId = order.id) = rows :=
    List.filter_eq_self.mpr fun i hi => decide_eq_true (h.ofOrder i hi)
  have horder : (pending lines order rows s).orders.get order.id = some order := by
    rw [pending_orders, Table.get_insert (h.order_free hs), if_pos rfl]
  rw [Db.bill, horder, h.itemsOf_pending_of hs, hitems, hall]
  rfl

/-- The pending order leaves the other bills alone. -/
theorem bill_pending_of_ne (h : Placing facts items lines order rows)
    (hs : stockLocking.Known facts s) (ho : o ≠ order.id) :
    (pending lines order rows s).bill o = s.bill o := by
  have hnone : (rows.filter fun i => i.orderId = o) = [] := by
    refine List.filter_eq_nil_iff.mpr fun i hi heq => ho ?_
    rw [← h.ofOrder i hi]
    exact (of_decide_eq_true heq).symm
  have horder : (pending lines order rows s).orders.get o = s.orders.get o := by
    rw [pending_orders, Table.get_insert_of_ne _ ho]
  rw [Db.bill, Db.bill, horder, h.itemsOf_pending_of hs, hnone, List.append_nil]

/-- The pending order records no snapshot. -/
theorem pending_snapshots : (pending lines order rows s).snapshots = s.snapshots := by
  rw [pending, addItems_eq, takeStock_eq]
  rfl

/-- Committing the pending order places it with a right bill. -/
theorem orderPlaced (h : Placing facts items lines order rows) (hI : s.BillsOk)
    (hs : stockLocking.Known facts s) :
    OrderPlaced order.id s (pending lines order rows s) where
  fresh := by
    rw [Db.bill, h.order_free hs]
    rfl
  placed := by
    rw [h.bill_pending_self hI hs]
    exact Option.some_ne_none _
  others o ho := h.bill_pending_of_ne hs ho
  snapshots := pending_snapshots

/-- The new order costs what its items add up to. -/
theorem bill_ok {seller storeId : Id} {address : Address}
    (h : Placing facts items lines (newOrder env caller seller storeId address lines)
      (newItems env (env.uuid4 0) 1 lines)) (hitems : items ≠ []) :
    Bill.Ok { totals := some (subtotal lines, subtotal lines)
              items := newItems env (env.uuid4 0) 1 lines } where
  placed hnone := absurd hnone (Option.some_ne_none _)
  nonempty _ hnil := by
    have hproducts : (newItems env (env.uuid4 0) 1 lines).map OrderItem.productId = _ :=
      products_newItems
    have hpairs : linePairs lines ≠ [] := h.pairs ▸ qtyById_ne_nil hitems
    change newItems env (env.uuid4 0) 1 lines = [] at hnil
    rw [hnil, List.map_nil, eq_comm, List.map_eq_nil_iff, List.map_eq_nil_iff] at hproducts
    exact hpairs hproducts
  products := by
    change ((newItems env (env.uuid4 0) 1 lines).map OrderItem.productId).Nodup
    rw [products_newItems, h.pairs]
    exact (nodup_keys_qtyById items).map (Option.some_injective Id)
  totals sub total htotals := by
    obtain ⟨rfl, rfl⟩ := Prod.mk.inj (Option.some.inj htotals)
    have hprice :
        Bill.price ⟨some (subtotal lines, subtotal lines), newItems env (env.uuid4 0) 1 lines⟩ =
      subtotal lines := price_newItems
    exact ⟨hprice.symm, hprice.symm⟩

end Placing

/-- `create_order` makes a bill of the prices it has locked. -/
theorem createOrder_money (env : Env) (caller : User) (items : List LineItem) (address : Address) :
    (createOrder env caller items address).wp moneyLocking Db.BillsOk
      (fun facts w full => CommitOk moneyLocking Db.BillsOk (fun _ => OrderPlaced (env.uuid4 0))
          facts w full ∧ FrozenPrices (env.uuid4 0) facts w) [] id := by
  refine wp_createOrder (fun _ _ hs => moneyLocking_known hs)
    fun facts lines seller storeId full u hitems hplacing _ _ _ => ⟨fun s hI hs => ?_, ?_⟩
  · have hs' := moneyLocking_known hs
    have hself := hplacing.bill_pending_self hI hs'
    refine ⟨fun o => ?_, hplacing.orderPlaced hI hs', fun key hkey => ⟨?_, ?_⟩⟩
    · by_cases ho : o = env.uuid4 0
      · subst ho
        exact hself ▸ hplacing.bill_ok hitems
      · rw [hplacing.bill_pending_of_ne hs' ho]
        exact hI o
    · exact hplacing.frame_pending hs' hkey
    · cases key with
      | order o =>
        refine hplacing.bill_pending_of_ne hs' fun ho => ?_
        obtain ⟨t, hmem, -⟩ := hplacing.free
        exact hkey _ hmem (congrArg Key.order ho.symm)
      | _ => trivial
  · intro s hI hs item hitem
    have hs' := moneyLocking_known hs
    have hself := hplacing.bill_pending_self hI hs'
    change item ∈ ((Placing.pending lines _ _ s).bill (newOrder env caller seller storeId address
      lines).id).items at hitem
    rw [hself] at hitem
    obtain ⟨l, hl, hproduct, hprice⟩ := line_of_mem_newItems hitem
    obtain ⟨t, hmem, hget⟩ := hplacing.locked l hl
    exact ⟨l.1, hproduct, ⟨t, hmem⟩, LockedRow.found ⟨t, hmem, hget⟩ (productLocking_known hs'),
      hprice⟩

end Marketplace
