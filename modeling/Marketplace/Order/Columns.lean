import Mathlib.Algebra.Order.BigOperators.Group.List
import Mathlib.Data.List.Dedup
import Mathlib.Tactic.Ring
import Marketplace.Lib.Errors
import Marketplace.Order.Stock

/-!
# The columns of an order

`create_order` merges the lines of one product, multiplies each quantity by a price and
writes the sum. The schema of an order bounds the quantities and the number of lines, and
the products bound the prices by nothing but their column, so a merged quantity always fits
its column and a sum does exactly when the prices allow.
-/

namespace Marketplace

open Lib Txn OrderService Err

/-- What the schemas of `CreateOrderRequest` and `OrderLineItemIn` admit. -/
structure OrderAdmitted (items : List LineItem) : Prop where
  minLength : 1 ≤ items.length
  maxLength : items.length ≤ 100
  quantity : ∀ item ∈ items, 0 < item.quantity ∧ item.quantity ≤ 10000

/-- A product that the product API admits and whose columns hold it. -/
structure Product.Stored (p : Product) : Prop where
  price : 0 < p.priceMinor
  priceFits : FitsBigint p.priceMinor
  stock : ∀ n, p.stockQuantity = some n → 0 ≤ n ∧ FitsInteger n

/-- Every product is such a product. -/
def Db.ProductsStored (db : Db) : Prop := ∀ pid p, db.products.get pid = some p → p.Stored

/-! ### Quantities -/

section Quantities

variable {items : List LineItem} {pid : Id}

/-- Positive lines request no negative quantity. -/
theorem requested_nonneg (h : ∀ item ∈ items, 0 < item.quantity) : 0 ≤ requested items pid := by
  induction items with
  | nil => exact Int.le_refl _
  | cons item items ih =>
    have hitem := h item List.mem_cons_self
    have hrest := ih fun i hi => h i (List.mem_cons_of_mem _ hi)
    rw [requested_cons]
    split <;> omega

/-- Lines within a bound request at most the bound for each line. -/
theorem requested_le {bound : ℤ} (hpos : 0 ≤ bound) (h : ∀ item ∈ items, item.quantity ≤ bound) :
    requested items pid ≤ bound * items.length := by
  induction items with
  | nil => simp [requested]
  | cons item items ih =>
    have hitem := h item List.mem_cons_self
    have hrest := ih fun i hi => h i (List.mem_cons_of_mem _ hi)
    have hlength : bound * ((item :: items).length : ℤ) = bound * items.length + bound := by
      rw [List.length_cons, Int.natCast_succ, mul_add, mul_one]
    rw [requested_cons, hlength]
    split <;> omega

/-- A line of the merged request has the quantity that the request asks for. -/
theorem quantity_of_mem_qtyById {pair : Id × ℤ} (h : pair ∈ qtyById items) :
    pair.2 = requested items pair.1 := by
  rw [← quantityOf_qtyById, quantityOf_of_mem (nodup_keys_qtyById items) h]

/-- The merged keys are the products of the lines. -/
theorem mem_keys_qtyById : pid ∈ (qtyById items).map Prod.fst ↔
    ∃ item ∈ items, item.productId = pid := by
  suffices hfold : ∀ pairs : List (Id × ℤ), pid ∈ (items.foldl addQuantity pairs).map Prod.fst ↔
      pid ∈ pairs.map Prod.fst ∨ ∃ item ∈ items, item.productId = pid by
    exact (hfold []).trans (by simp)
  induction items with
  | nil => simp
  | cons item items ih =>
    intro pairs
    rw [List.foldl_cons, ih, mem_keys_addQuantity, or_assoc]
    simp [eq_comm]

/-- A merged quantity is at most a million. -/
theorem OrderAdmitted.quantity_bounds (h : OrderAdmitted items) (pid : Id) :
    0 ≤ requested items pid ∧ requested items pid ≤ 1000000 := by
  have hlow : 0 ≤ requested items pid := requested_nonneg fun item hi => (h.quantity item hi).1
  have hhigh : requested items pid ≤ 10000 * items.length :=
    requested_le (by omega) fun item hi => (h.quantity item hi).2
  have hlength := h.maxLength
  constructor <;> omega

/-- The merged quantity of an admitted order fits an `integer` column. -/
theorem OrderAdmitted.fits (h : OrderAdmitted items) (pid : Id) :
    FitsInteger (requested items pid) := by
  have hbounds := h.quantity_bounds pid
  unfold FitsInteger
  omega

end Quantities

/-! ### Totals -/

section Totals

variable {db : Db} {items : List LineItem}

/-- The price of a product, if it is there. -/
def priceOf (db : Db) (pid : Id) : ℤ := ((db.products.get pid).map Product.priceMinor).getD 0

/-- What the lines of a request cost, one by one. -/
def requestTotal (db : Db) (items : List LineItem) : ℤ :=
  (items.map fun item => priceOf db item.productId * item.quantity).sum

/-- The merged lines of a request, with the products that are there. -/
def mergedLines (db : Db) (items : List LineItem) : List (Product × ℤ) :=
  (qtyById items).filterMap fun pair => (db.products.get pair.1).map fun p => (p, pair.2)

/-- What a list of pairs costs. -/
def pairsTotal (db : Db) (pairs : List (Id × ℤ)) : ℤ :=
  (pairs.map fun pair => priceOf db pair.1 * pair.2).sum

/-- Adding a line adds its price to the total. -/
theorem pairsTotal_addQuantity (pairs : List (Id × ℤ)) (item : LineItem) :
    pairsTotal db (addQuantity pairs item) =
      pairsTotal db pairs + priceOf db item.productId * item.quantity := by
  induction pairs with
  | nil => simp [pairsTotal, addQuantity]
  | cons pair pairs ih =>
    by_cases h : pair.1 = item.productId
    · simp only [pairsTotal, addQuantity, h, if_true, List.map_cons, List.sum_cons]
      ring
    · simp only [pairsTotal, addQuantity, h, if_false, List.map_cons, List.sum_cons] at ih ⊢
      rw [ih]
      ring

/-- Merging keeps what a request costs. -/
theorem pairsTotal_qtyById : pairsTotal db (qtyById items) = requestTotal db items := by
  suffices hfold : ∀ pairs : List (Id × ℤ),
      pairsTotal db (items.foldl addQuantity pairs) =
        pairsTotal db pairs + requestTotal db items from
    (hfold []).trans (Int.zero_add _)
  induction items with
  | nil => exact fun pairs => (Int.add_zero _).symm
  | cons item items ih =>
    intro pairs
    rw [List.foldl_cons, ih, pairsTotal_addQuantity]
    simp only [requestTotal, List.map_cons, List.sum_cons]
    ring

/-- The subtotal is what the lines of the request cost. -/
theorem subtotal_mergedLines : subtotal (mergedLines db items) = requestTotal db items := by
  rw [← pairsTotal_qtyById]
  unfold mergedLines
  induction qtyById items with
  | nil => rfl
  | cons pair pairs ih =>
    simp only [subtotal, pairsTotal, List.map_cons, List.sum_cons] at ih ⊢
    rw [← ih]
    cases h : db.products.get pair.1 with
    | none => simp [priceOf, h]
    | some p => simp [priceOf, h]

/-- The total of an admitted order is not negative. -/
theorem requestTotal_nonneg (hdb : db.ProductsStored) (h : OrderAdmitted items) :
    0 ≤ requestTotal db items := by
  refine List.sum_nonneg fun cost hcost => ?_
  obtain ⟨item, hitem, rfl⟩ := List.mem_map.mp hcost
  have hquantity := (h.quantity item hitem).1
  have hprice : 0 ≤ priceOf db item.productId := by
    unfold priceOf
    cases hp : db.products.get item.productId with
    | none => exact Int.le_refl _
    | some p => exact Int.le_of_lt (hdb _ p hp).price
  exact Int.mul_nonneg hprice (Int.le_of_lt hquantity)

end Totals

/-! ### The flush -/

section Flush

variable {env : Env} {db db' : Db} {customer : User} {items : List LineItem} {address : Address}
  {lines : List (Product × ℤ)}

/-- What `create_order` checks before it writes. -/
structure Placeable (db : Db) (customer : User) (items : List LineItem) : Prop where
  role : customer.role = .customer
  visible : ∃ seller, customer.referringSellerId = some seller ∧ ∀ item ∈ items,
    ∃ p, db.products.get item.productId = some p ∧ p.sellerId = seller ∧ p.deletedAt = none ∧
      p.isActive = true ∧
      ∀ stock, p.stockQuantity = some stock → requested items item.productId ≤ stock

/-- The error of a value out of the range of its column. -/
def Err.IsOutOfRange (e : Err) : Prop := e = outOfRange

instance : DecidablePred Err.IsOutOfRange := fun e => inferInstanceAs (Decidable (e = outOfRange))

/-- Values within their columns raise no range error. -/
theorem neverRaises_encode {integers bigints : List ℤ} (h : Encodable integers bigints) :
    (encode integers bigints).NeverRaises Err.IsOutOfRange := by
  rw [encode, raiseIf_of_not (not_not_intro h)]
  exact .pure _

/-- A line whose quantity, price and remaining stock fit their columns. -/
structure LineFits (line : Product × ℤ) : Prop where
  row : Encodable [line.2] [line.1.priceMinor]
  stock : ∀ n, line.1.stockQuantity = some n → 0 ≤ n - line.2 ∧ FitsInteger (n - line.2)

/-- The stock update raises no range error when the lines fit. -/
theorem decrementStock_inRange (h : ∀ line ∈ lines, LineFits line) :
    (decrementStock lines).NeverRaises Err.IsOutOfRange := by
  induction lines with
  | nil => exact .pure _
  | cons line lines ih =>
    have hrest := ih fun l hl => h l (List.mem_cons_of_mem _ hl)
    unfold decrementStock
    cases hstock : line.1.stockQuantity with
    | none => exact hrest
    | some n =>
      have hfits := ((h line List.mem_cons_self).stock n hstock).2
      have hencodes : Encodable [n - line.2] [] := by simpa [Encodable] using hfits
      exact .bind (.bind (neverRaises_encode hencodes) fun _ =>
        .bind (.raiseIf _ fun h => by cases h) fun _ => .updateRow _ _) fun _ => hrest

/-- Taking the stock of such lines succeeds. -/
theorem run_decrementStock (h : ∀ line ∈ lines, LineFits line) :
    ∃ db', (decrementStock lines).run db = .ok ((), db') := by
  induction lines generalizing db with
  | nil => exact ⟨db, rfl⟩
  | cons line lines ih =>
    have hrest := fun l hl => h l (List.mem_cons_of_mem _ hl)
    unfold decrementStock
    cases hstock : line.1.stockQuantity with
    | none => exact ih hrest
    | some n =>
      obtain ⟨hpos, hfits⟩ := (h line List.mem_cons_self).stock n hstock
      have hencodes : Encodable [n - line.2] [] := by simpa [Encodable] using hfits
      obtain ⟨db', hrun⟩ := @ih (db.setStock line.1.id (n - line.2)) hrest
      have hstep : (updateStock line.1.id (n - line.2)).run db =
          .ok ((), db.setStock line.1.id (n - line.2)) := by
        simpa [updateStock, hencodes] using hpos
      exact ⟨db', (run_bind_of_ok hstep).trans hrun⟩

/-- The item rows raise no range error when the lines fit. -/
theorem insertItems_inRange (orderId : Id) (i : ℕ) (h : ∀ line ∈ lines, LineFits line) :
    (insertItems env orderId i lines).NeverRaises Err.IsOutOfRange := by
  induction lines generalizing i with
  | nil => exact .pure _
  | cons line lines ih =>
    have hrest := ih (i + 1) fun l hl => h l (List.mem_cons_of_mem _ hl)
    refine .bind (.bind (neverRaises_encode (h line List.mem_cons_self).row) fun _ => ?_)
      fun _ => hrest
    exact .bind (.raiseIf _ nofun) fun _ => .bind (.acquire _) fun _ =>
      .bind (.raiseIf _ nofun) fun _ => .modify _

/-- The lines of products that are there, in good standing and in stock. -/
theorem run_checkLines_ok {u : Unit} : (checkLines lines).run db = .ok (u, db') ↔
    db = db' ∧ ∀ line ∈ lines, line.1.deletedAt = none ∧ line.1.isActive = true ∧
      ∀ stock, line.1.stockQuantity = some stock → line.2 ≤ stock := by
  induction lines with
  | nil => simp [checkLines]
  | cons line lines ih =>
    simp only [checkLines, bind_eq, run_bind_ok, run_raiseIf_ok, List.forall_mem_cons]
    constructor
    · rintro ⟨_, _, ⟨hvisible, rfl⟩, _, _, ⟨hstock, rfl⟩, hrest⟩
      obtain ⟨rfl, hall⟩ := ih.mp hrest
      rw [not_or, not_ne_iff, Bool.not_eq_false] at hvisible
      refine ⟨rfl, ⟨hvisible.1, hvisible.2, fun stock hsome => ?_⟩, hall⟩
      simpa [hsome] using hstock
    · rintro ⟨rfl, ⟨hdeleted, hactive, hstock⟩, hall⟩
      refine ⟨(), db, ⟨by simp [hdeleted, hactive], rfl⟩, (), db, ⟨?_, rfl⟩, ih.mpr ⟨rfl, hall⟩⟩
      cases hsome : line.1.stockQuantity with
      | none => simp
      | some stock => simpa using hstock stock hsome

/-- Resolving the lines raises no range error. -/
theorem resolveLines_inRange (products : List Product) (qty : List (Id × ℤ)) :
    (resolveLines products qty).NeverRaises Err.IsOutOfRange := by
  induction qty with
  | nil => exact .pure _
  | cons pair qty ih => exact .bind (.getOrRaise _ (by decide)) fun _ => .bind ih fun _ => .pure _

/-- Checking the lines raises no range error. -/
theorem checkLines_inRange (lines : List (Product × ℤ)) :
    (checkLines lines).NeverRaises Err.IsOutOfRange := by
  induction lines with
  | nil => exact .pure _
  | cons line lines ih =>
    exact .bind (.raiseIf _ nofun) fun _ => .bind (.raiseIf _ nofun) fun _ => ih

/-- The ids to lock are the products of the lines. -/
theorem mem_productIds {pid : Id} :
    pid ∈ productIds items ↔ ∃ item ∈ items, item.productId = pid := by
  unfold productIds
  rw [List.mem_mergeSort, List.mem_dedup, List.mem_map]

/-- The rows that `create_order` locks. -/
def lockedProducts (db : Db) (items : List LineItem) : List Product :=
  (productIds items).filterMap fun id => db.products.get id

/-- A locked product is a row of the table that the request names. -/
theorem mem_lockedProducts {p : Product} (h : p ∈ lockedProducts db items) :
    db.products.get p.id = some p ∧ p.id ∈ productIds items := by
  obtain ⟨pid, hpid, hget⟩ := List.mem_filterMap.mp h
  obtain rfl := Table.key_of_get hget
  exact ⟨hget, hpid⟩

/-- Locking the products returns their rows and writes nothing. -/
theorem run_lockProducts :
    (lockProducts ((productIds items).filter fun id => (db.products.get id).isSome)).run db =
      .ok (lockedProducts db items, db) := by
  refine run_lockProducts_ok.mpr ⟨?_, rfl⟩
  rw [List.filterMap_filter]
  refine List.filterMap_congr fun pid _ => ?_
  cases db.products.get pid with
  | none => simp
  | some p => simp

/-- All the products of the lines are one seller's. -/
theorem oneSeller_iff {products : List Product} {seller : Id} :
    ¬((products.map Product.sellerId).dedup.length ≠ 1 ∨ seller ∉ products.map Product.sellerId) ↔
      products ≠ [] ∧ ∀ p ∈ products, p.sellerId = seller := by
  rw [not_or, not_ne_iff, not_not]
  constructor
  · rintro ⟨hone, hmem⟩
    obtain ⟨only, honly⟩ := List.length_eq_one_iff.mp hone
    have hall : ∀ id ∈ products.map Product.sellerId, id = only := by
      intro id hid
      rw [← List.mem_dedup, honly] at hid
      exact List.mem_singleton.mp hid
    obtain rfl := hall seller hmem
    refine ⟨?_, fun p hp => hall _ (List.mem_map_of_mem hp)⟩
    rintro rfl
    cases hmem
  · rintro ⟨hne, hall⟩
    have hreplicate : products.map Product.sellerId = List.replicate products.length seller := by
      refine List.eq_replicate_iff.mpr ⟨List.length_map _, fun id hid => ?_⟩
      obtain ⟨p, hp, rfl⟩ := List.mem_map.mp hid
      exact hall p hp
    have hlength : products.length ≠ 0 := fun h => hne (List.eq_nil_of_length_eq_zero h)
    rw [hreplicate, List.replicate_dedup hlength]
    exact ⟨rfl, List.mem_replicate.mpr ⟨hlength, rfl⟩⟩

/-- Every line finds the locked row of its product. -/
theorem run_resolveLines {products : List Product} {qty : List (Id × ℤ)}
    (h : ∀ pair ∈ qty, ∃ p ∈ products, p.id = pair.1)
    (hrows : ∀ p ∈ products, db.products.get p.id = some p) :
    (resolveLines products qty).run db' =
      .ok (qty.filterMap fun pair => (db.products.get pair.1).map fun p => (p, pair.2), db') := by
  induction qty with
  | nil => rfl
  | cons pair qty ih =>
    obtain ⟨p, hp, hid⟩ := h pair List.mem_cons_self
    have hsome : (products.find? fun p => p.id = pair.1).isSome = true :=
      List.find?_isSome.mpr ⟨p, hp, by simpa using hid⟩
    obtain ⟨x, hfind⟩ := Option.isSome_iff_exists.mp hsome
    have hx : x.id = pair.1 := by simpa using List.find?_some hfind
    have hget : db.products.get pair.1 = some x := hx ▸ hrows x (List.mem_of_find?_eq_some hfind)
    have hrest := ih fun pair hpair => h pair (List.mem_cons_of_mem _ hpair)
    have hstep : (getOrRaise (products.find? fun p => p.id = pair.1) (.unexpected "KeyError") :
        Tx Product).run db' = .ok (x, db') := run_getOrRaise_ok.mpr ⟨hfind, rfl⟩
    rw [resolveLines, bind_eq, run_bind_of_ok hstep, bind_eq, run_bind_of_ok hrest]
    simp [hget]

/-- The lines that `create_order` resolves. -/
theorem eq_mergedLines (hpairs : lines.map (fun l => (l.1.id, l.2)) = qtyById items)
    (hrows : ∀ l ∈ lines, db.products.get l.1.id = some l.1) : lines = mergedLines db items := by
  unfold mergedLines
  rw [← hpairs, List.filterMap_map]
  have hsome : ∀ l ∈ lines, ((fun pair => (db.products.get pair.1).map fun p => (p, pair.2)) ∘
      fun l : Product × ℤ => (l.1.id, l.2)) l = some l := by
    intro l hl
    simp [hrows l hl]
  rw [List.filterMap_congr hsome, List.filterMap_some]

/-- A line of the merged request. -/
theorem mem_mergedLines {line : Product × ℤ} : line ∈ mergedLines db items ↔
    ∃ item ∈ items, db.products.get item.productId = some line.1 ∧
      line.2 = requested items item.productId := by
  constructor
  · intro hline
    obtain ⟨pair, hpair, hmap⟩ := List.mem_filterMap.mp hline
    obtain ⟨p, hget, rfl⟩ := Option.map_eq_some_iff.mp hmap
    obtain ⟨item, hitem, hid⟩ := mem_keys_qtyById.mp (List.mem_map_of_mem hpair)
    rw [← hid] at hget
    exact ⟨item, hitem, hget, hid ▸ quantity_of_mem_qtyById hpair⟩
  · rintro ⟨item, hitem, hget, hquantity⟩
    obtain ⟨pair, hpair, hid⟩ := List.mem_map.mp (mem_keys_qtyById.mpr ⟨item, hitem, rfl⟩)
    refine List.mem_filterMap.mpr ⟨pair, hpair, Option.map_eq_some_iff.mpr ⟨line.1, ?_, ?_⟩⟩
    · rw [hid, hget]
    · rw [quantity_of_mem_qtyById hpair, hid, ← hquantity]

/-- The merged lines of stored products that are in stock fit their columns. -/
theorem lineFits_of_mem (hdb : db.ProductsStored) (hitems : OrderAdmitted items)
    (hstock : ∀ line ∈ mergedLines db items, ∀ stock, line.1.stockQuantity = some stock →
      line.2 ≤ stock) : ∀ line ∈ mergedLines db items, LineFits line := by
  intro line hline
  obtain ⟨item, -, hget, hquantity⟩ := mem_mergedLines.mp hline
  have hbounds := hitems.quantity_bounds item.productId
  have hfits := hitems.fits item.productId
  have hstored := hdb _ _ hget
  rw [← hquantity] at hbounds hfits
  refine ⟨⟨by simpa using hfits, by simpa using hstored.priceFits⟩, fun n hn => ?_⟩
  obtain ⟨-, hlow, hhigh⟩ := hstored.stock n hn
  have hle := hstock _ hline n hn
  unfold FitsInteger
  constructor <;> omega

/-- The checks pass when they have found all they look for. -/
theorem placeable_of_found {seller : Id} (hrole : customer.role = .customer)
    (hseller : customer.referringSellerId = some seller)
    (hlength : (lockedProducts db items).length = (productIds items).length)
    (hsame : ∀ p ∈ lockedProducts db items, p.sellerId = seller)
    (hchecks : ∀ line ∈ mergedLines db items, line.1.deletedAt = none ∧ line.1.isActive = true ∧
      ∀ stock, line.1.stockQuantity = some stock → line.2 ≤ stock) :
    Placeable db customer items where
  role := hrole
  visible := by
    refine ⟨seller, hseller, fun item hitem => ?_⟩
    have hid : item.productId ∈ productIds items := mem_productIds.mpr ⟨item, hitem, rfl⟩
    have hfound := List.filterMap_length_eq_length.mp hlength _ hid
    obtain ⟨p, hget⟩ := Option.isSome_iff_exists.mp hfound
    obtain ⟨hdeleted, hactive, hstock⟩ := hchecks (p, requested items item.productId)
      (mem_mergedLines.mpr ⟨item, hitem, hget, rfl⟩)
    have hlocked : p ∈ lockedProducts db items := List.mem_filterMap.mpr ⟨_, hid, hget⟩
    exact ⟨p, hget, hsame p hlocked, hdeleted, hactive, hstock⟩

namespace Placeable

variable (h : Placeable db customer items)

include h

/-- There is one locked row for each product requested. -/
theorem length_lockedProducts :
    (lockedProducts db items).length = (productIds items).length := by
  refine List.filterMap_length_eq_length.mpr fun pid hpid => ?_
  obtain ⟨item, hitem, rfl⟩ := mem_productIds.mp hpid
  obtain ⟨seller, -, hall⟩ := h.visible
  obtain ⟨p, hget, -⟩ := hall item hitem
  exact Option.isSome_iff_exists.mpr ⟨p, hget⟩

/-- A request with a line locks a product. -/
theorem lockedProducts_ne_nil (hitems : items ≠ []) : lockedProducts db items ≠ [] := by
  obtain ⟨item, hitem⟩ := List.exists_mem_of_ne_nil items hitems
  intro hnil
  have hlength := h.length_lockedProducts
  rw [hnil, List.length_nil] at hlength
  have hid : item.productId ∈ productIds items := mem_productIds.mpr ⟨item, hitem, rfl⟩
  rw [List.eq_nil_of_length_eq_zero hlength.symm] at hid
  cases hid

/-- The locked products are all of the customer's own seller. -/
theorem sellerId_eq {seller : Id} (hseller : customer.referringSellerId = some seller) :
    ∀ p ∈ lockedProducts db items, p.sellerId = seller := by
  intro p hp
  obtain ⟨hget, hid⟩ := mem_lockedProducts hp
  obtain ⟨item, hitem, hsame⟩ := mem_productIds.mp hid
  obtain ⟨referring, href, hall⟩ := h.visible
  obtain ⟨x, hx, hxseller, -⟩ := hall item hitem
  rw [hsame, hget] at hx
  obtain rfl := Option.some.inj hx
  exact hxseller.trans (Option.some.inj (href.symm.trans hseller))

/-- The lines resolve to the merged lines of the request. -/
theorem run_resolveLines : (OrderService.resolveLines (lockedProducts db items)
    (qtyById items)).run db = .ok (mergedLines db items, db) := by
  refine Marketplace.run_resolveLines (fun pair hpair => ?_) fun p hp => (mem_lockedProducts hp).1
  obtain ⟨item, hitem, hid⟩ := mem_keys_qtyById.mp (List.mem_map_of_mem hpair)
  obtain ⟨seller, -, hall⟩ := h.visible
  obtain ⟨p, hget, -⟩ := hall item hitem
  have hlocked : p ∈ lockedProducts db items :=
    List.mem_filterMap.mpr ⟨_, mem_productIds.mpr ⟨item, hitem, rfl⟩, hget⟩
  exact ⟨p, hlocked, (Table.key_of_get hget).trans hid⟩

/-- The merged lines pass the checks on the product and its stock. -/
theorem checks : ∀ line ∈ mergedLines db items, line.1.deletedAt = none ∧
    line.1.isActive = true ∧ ∀ stock, line.1.stockQuantity = some stock → line.2 ≤ stock := by
  intro line hline
  obtain ⟨item, hitem, hget, hquantity⟩ := mem_mergedLines.mp hline
  obtain ⟨seller, -, hall⟩ := h.visible
  obtain ⟨p, hp, -, hdeleted, hactive, hstock⟩ := hall item hitem
  obtain rfl := Option.some.inj (hp.symm.trans hget)
  exact ⟨hdeleted, hactive, hquantity ▸ hstock⟩

end Placeable

/-- Placing an order alone fails with a value out of range exactly when every check passes and
the sum does not fit. -/
theorem run_createOrder_outOfRange (hdb : db.ProductsStored) (hitems : OrderAdmitted items) :
    (createOrder env customer items address).run db = .error outOfRange ↔
      Placeable db customer items ∧ ¬FitsBigint (subtotal (mergedLines db items)) := by
  have hbad : Err.IsOutOfRange outOfRange := rfl
  constructor
  · intro h
    unfold createOrder at h
    obtain ⟨_, _, hcustomer, h⟩ := NeverRaises.run_bind (.raiseIf _ nofun) hbad h
    obtain ⟨hrole, rfl⟩ := run_raiseIf_ok.mp hcustomer
    obtain ⟨_, _, hne, h⟩ := NeverRaises.run_bind (.raiseIf _ nofun) hbad h
    obtain ⟨-, rfl⟩ := run_raiseIf_ok.mp hne
    obtain ⟨seller, _, hreferred, h⟩ := NeverRaises.run_bind (.getOrRaise _ nofun) hbad h
    obtain ⟨hseller, rfl⟩ := run_getOrRaise_ok.mp hreferred
    obtain ⟨_, _, hread, h⟩ := NeverRaises.run_bind .read hbad h
    obtain ⟨rfl, rfl⟩ := run_read_ok.mp hread
    rw [bind_eq, run_bind_of_ok run_lockProducts] at h
    obtain ⟨_, _, hfound, h⟩ := NeverRaises.run_bind (.raiseIf _ nofun) hbad h
    obtain ⟨hlength, rfl⟩ := run_raiseIf_ok.mp hfound
    obtain ⟨_, _, hsellers, h⟩ := NeverRaises.run_bind (.raiseIf _ nofun) hbad h
    obtain ⟨honeSeller, rfl⟩ := run_raiseIf_ok.mp hsellers
    obtain ⟨-, hsame⟩ := oneSeller_iff.mp honeSeller
    obtain ⟨lines, _, hlines, h⟩ := (resolveLines_inRange _ _).run_bind hbad h
    obtain ⟨rfl, hpairs, hmem⟩ := resolveLines_ok hlines
    obtain rfl := eq_mergedLines hpairs fun l hl => (mem_lockedProducts (hmem l hl)).1
    obtain ⟨_, _, hchecked, h⟩ := (checkLines_inRange _).run_bind hbad h
    obtain ⟨rfl, hchecks⟩ := run_checkLines_ok.mp hchecked
    have hfits := lineFits_of_mem hdb hitems fun l hl => (hchecks l hl).2.2
    obtain ⟨_, t, -, h⟩ := (decrementStock_inRange hfits).run_bind hbad h
    obtain ⟨first, _, -, h⟩ := NeverRaises.run_bind (.getOrRaise _ (by decide)) hbad h
    refine ⟨placeable_of_found (not_ne_iff.mp hrole) hseller (not_ne_iff.mp hlength) hsame hchecks,
      fun htotal => ?_⟩
    have hencodes : Encodable [] [subtotal (mergedLines db items),
        subtotal (mergedLines db items)] := by simpa [Encodable] using htotal
    revert hbad
    refine NeverRaises.run ?_ h
    refine .bind (.bind (neverRaises_encode hencodes) fun _ => .bind (.acquire _) fun _ =>
      .bind (.raiseIf _ nofun) fun _ => .modify _) fun _ => ?_
    exact .bind (insertItems_inRange _ 1 hfits) fun _ =>
      .bind (.bind .read fun _ => .pure _) fun _ => .getOrRaise _ (by decide)
  · rintro ⟨hpasses, htotal⟩
    have hne : items ≠ [] := List.ne_nil_of_length_pos hitems.minLength
    obtain ⟨seller, hseller, -⟩ := hpasses.visible
    obtain ⟨first, rest, hcons⟩ :=
      List.exists_cons_of_ne_nil (hpasses.lockedProducts_ne_nil hne)
    have hfirst : (lockedProducts db items).head? = some first := by rw [hcons, List.head?_cons]
    have hsellers := oneSeller_iff.mpr
      ⟨hpasses.lockedProducts_ne_nil hne, hpasses.sellerId_eq hseller⟩
    have hfits := lineFits_of_mem hdb hitems fun l hl => (hpasses.checks l hl).2.2
    obtain ⟨t, htake⟩ := @run_decrementStock db _ hfits
    have hnot : ¬Encodable [] [subtotal (mergedLines db items),
        subtotal (mergedLines db items)] := by simpa [Encodable] using htotal
    have hinsert : ∀ order : Order, order.subtotalMinor = subtotal (mergedLines db items) →
        order.totalMinor = subtotal (mergedLines db items) →
        (insertOrder order).run t = .error outOfRange := by
      intro order hsubtotal hsum
      rw [insertOrder, hsubtotal, hsum]
      exact run_bind_of_error (run_raiseIf_error.mpr ⟨hnot, rfl⟩)
    rw [createOrder, bind_eq, run_bind_of_ok (a := ())
        (run_raiseIf_ok.mpr ⟨not_not_intro hpasses.role, rfl⟩),
      bind_eq, run_bind_of_ok (a := ()) (run_raiseIf_ok.mpr ⟨hne, rfl⟩),
      bind_eq, run_bind_of_ok (run_getOrRaise_ok.mpr ⟨hseller, rfl⟩),
      bind_eq, run_bind_of_ok (run_read_ok.mpr ⟨rfl, rfl⟩),
      bind_eq, run_bind_of_ok run_lockProducts,
      bind_eq, run_bind_of_ok (a := ())
        (run_raiseIf_ok.mpr ⟨not_not_intro hpasses.length_lockedProducts, rfl⟩),
      bind_eq, run_bind_of_ok (a := ()) (run_raiseIf_ok.mpr ⟨hsellers, rfl⟩),
      bind_eq, run_bind_of_ok hpasses.run_resolveLines,
      bind_eq, run_bind_of_ok (a := ()) (run_checkLines_ok.mpr ⟨rfl, hpasses.checks⟩),
      bind_eq, run_bind_of_ok htake, bind_eq, run_bind_of_ok (run_getOrRaise_ok.mpr ⟨hfirst, rfl⟩),
      bind_eq]
    exact run_bind_of_error (hinsert _ rfl rfl)

/-- An order request fits its columns: the merged quantities, the totals of an order that passes
every check, and therefore nothing at the flush. -/
structure OrderFits (env : Env) (db : Db) (customer : User) (items : List LineItem)
    (address : Address) : Prop where
  quantities : ∀ pair ∈ qtyById items, FitsInteger pair.2
  totals : Placeable db customer items → ∀ seller store,
    FitsBigint (newOrder env customer seller store address (mergedLines db items)).subtotalMinor ∧
      FitsBigint (newOrder env customer seller store address (mergedLines db items)).totalMinor
  flush : (createOrder env customer items address).run db ≠ .error outOfRange

/-- Over stored products, an admitted request fits its columns exactly when it is refused before
the flush or its lines cost less than `2 ^ 63`. -/
theorem orderFits_iff (env : Env) (db : Db) (customer : User) (items : List LineItem)
    (address : Address) (hdb : db.ProductsStored) (hitems : OrderAdmitted items) :
    OrderFits env db customer items address ↔
      (Placeable db customer items → requestTotal db items < 2 ^ 63) := by
  have hpos := requestTotal_nonneg hdb hitems
  have htotal : FitsBigint (subtotal (mergedLines db items)) ↔ requestTotal db items < 2 ^ 63 := by
    rw [subtotal_mergedLines, FitsBigint]
    constructor
    · exact fun h => h.2
    · exact fun h => ⟨by omega, h⟩
  constructor
  · intro h hpasses
    exact htotal.mp (h.totals hpasses 0 0).1
  · intro h
    refine ⟨fun pair hpair => ?_, fun hpasses _ _ => ?_, fun herror => ?_⟩
    · rw [quantity_of_mem_qtyById hpair]
      exact hitems.fits pair.1
    · exact ⟨htotal.mpr (h hpasses), htotal.mpr (h hpasses)⟩
    · obtain ⟨hpasses, hover⟩ := (run_createOrder_outOfRange hdb hitems).mp herror
      exact hover (htotal.mpr (h hpasses))

end Flush

namespace Sample

/-- The database of the sample server, with its product at this price. -/
def priced (priceMinor : ℤ) : Db :=
  { start.db with products := (∅ : Table Product Product.id).insert { product with priceMinor } }

/-- The sample table holds the one product at the given price. -/
theorem products_priced {priceMinor : ℤ} {pid : Id} {p : Product}
    (h : (priced priceMinor).products.get pid = some p) : p = { product with priceMinor } := by
  have hmem := (Table.get_eq_some_iff.mp h).1
  exact List.mem_singleton.mp hmem

/-- A price within its column makes the sample table one the columns hold. -/
theorem productsStored_priced {priceMinor : ℤ} (hpos : 0 < priceMinor)
    (hfits : FitsBigint priceMinor) : (priced priceMinor).ProductsStored := by
  intro pid p hp
  obtain rfl := products_priced hp
  refine ⟨hpos, hfits, fun n hn => ?_⟩
  obtain rfl := Option.some.inj hn
  decide

/-- Two of the product. -/
def two : List LineItem := [{ productId := 6, quantity := 2 }]

/-- The sample order passes the schema. -/
theorem orderAdmitted_two : OrderAdmitted two where
  minLength := by decide
  maxLength := by decide
  quantity := by decide

/-- The sample customer may place the sample order. -/
theorem placeable_two (priceMinor : ℤ) : Placeable (priced priceMinor) customer two where
  role := rfl
  visible := by
    refine ⟨2, rfl, fun item hitem => ?_⟩
    obtain rfl := List.mem_singleton.mp hitem
    refine ⟨{ product with priceMinor }, rfl, rfl, rfl, rfl, fun stock hstock => ?_⟩
    obtain rfl := Option.some.inj hstock
    decide

/-- What the first draws of a request are. -/
def orderEnv : Env :=
  { now := fun _ => 0, transactionNow := 0, uuid4 := fun i => 10 + i, randbelow := 0 }

end Sample

open Sample in
/-- Two of a product at the sample's own price. -/
theorem orderFits_iff_two : OrderFits orderEnv (priced 250) customer two {} :=
  (orderFits_iff orderEnv (priced 250) customer two {}
    (productsStored_priced (by decide) (by decide)) orderAdmitted_two).mpr fun _ => by decide

open Sample in
/-- Two of a product that costs `2 ^ 62`. -/
theorem order_overflows : ¬∀ (env : Env) (db : Db) (customer : User) (items : List LineItem)
    (address : Address), db.ProductsStored → OrderAdmitted items →
      OrderFits env db customer items address := by
  intro h
  have hfits := h orderEnv (priced (2 ^ 62)) customer two {}
    (productsStored_priced (by decide) (by decide)) orderAdmitted_two
  have htotal := (hfits.totals (placeable_two _) 0 0).1
  rw [newOrder, subtotal_mergedLines] at htotal
  exact absurd htotal (by decide)

end Marketplace
