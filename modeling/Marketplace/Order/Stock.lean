import Marketplace.Order.Runs

/-!
# The conservation of stock

Any number of requests to the order, delivery flow and delivery tracking services run
at once. Whatever the interleaving, the stock of a product is what it was at the start
less what the committed orders have taken, and never negative: `create_order` locks the
rows of all its products, checks every line before it takes from the first, and merges
the lines of one product, and no other operation writes to `products`.
-/

namespace Marketplace

open Lib Txn OrderService

/-! ### Quantities -/

/-- The quantity of a product in a request. -/
def requested (items : List LineItem) (pid : Id) : ℤ :=
  ((items.filter fun item => item.productId = pid).map LineItem.quantity).sum

/-- The quantity of a product in the item rows of an order. -/
def ordered (items : List OrderItem) (pid : Id) : ℤ :=
  ((items.filter fun item => item.productId = some pid).map OrderItem.quantity).sum

/-- The quantity of a product in a list of pairs. -/
def quantityOf (pairs : List (Id × ℤ)) (pid : Id) : ℤ :=
  ((pairs.filter fun pair => pair.1 = pid).map Prod.snd).sum

/-- The quantity of a product in a list with one more pair. -/
theorem quantityOf_cons (pair : Id × ℤ) (pairs : List (Id × ℤ)) (pid : Id) :
    quantityOf (pair :: pairs) pid =
      (if pair.1 = pid then pair.2 else 0) + quantityOf pairs pid := by
  by_cases h : pair.1 = pid
  · simp [quantityOf, h]
  · simp [quantityOf, h]

/-- The quantity requested of a product with one more line. -/
theorem requested_cons (item : LineItem) (items : List LineItem) (pid : Id) :
    requested (item :: items) pid =
      (if item.productId = pid then item.quantity else 0) + requested items pid := by
  by_cases h : item.productId = pid
  · simp [requested, h]
  · simp [requested, h]

/-- A product without a pair has quantity zero. -/
theorem quantityOf_of_not_mem {pairs : List (Id × ℤ)} {pid : Id} (h : pid ∉ pairs.map Prod.fst) :
    quantityOf pairs pid = 0 := by
  have hnil : (pairs.filter fun pair => pair.1 = pid) = [] := by
    refine List.filter_eq_nil_iff.mpr fun pair hpair => ?_
    have hne : pair.1 ≠ pid := fun heq => h (List.mem_map.mpr ⟨pair, hpair, heq⟩)
    simp [hne]
  simp [quantityOf, hnil]

/-- The quantity of a product that is listed once. -/
theorem quantityOf_of_mem {pairs : List (Id × ℤ)} (h : (pairs.map Prod.fst).Nodup)
    {pair : Id × ℤ} (hpair : pair ∈ pairs) : quantityOf pairs pair.1 = pair.2 := by
  induction pairs with
  | nil => cases hpair
  | cons first pairs ih =>
    obtain ⟨hnot, htail⟩ := List.nodup_cons.mp h
    rw [quantityOf_cons]
    rcases List.mem_cons.mp hpair with rfl | hmem
    · rw [if_pos rfl, quantityOf_of_not_mem hnot, Int.add_zero]
    · have hne : first.1 ≠ pair.1 := fun heq => hnot (heq ▸ List.mem_map.mpr ⟨pair, hmem, rfl⟩)
      rw [if_neg hne, ih htail hmem, Int.zero_add]

/-- A line adds its quantity to that of its product. -/
theorem quantityOf_addQuantity (pairs : List (Id × ℤ)) (item : LineItem) (pid : Id) :
    quantityOf (addQuantity pairs item) pid =
      quantityOf pairs pid + if item.productId = pid then item.quantity else 0 := by
  induction pairs with
  | nil =>
    by_cases h : item.productId = pid
    · simp [addQuantity, quantityOf, h]
    · simp [addQuantity, quantityOf, h]
  | cons pair pairs ih =>
    by_cases h : pair.1 = item.productId
    · by_cases hpid : item.productId = pid
      · simp only [addQuantity, h, if_true, quantityOf_cons, hpid]
        omega
      · simp only [addQuantity, h, if_true, quantityOf_cons, hpid, if_false]
        omega
    · simp only [addQuantity, h, if_false, quantityOf_cons, ih]
      omega

/-- Adding a line adds its product to the keys and no other. -/
theorem mem_keys_addQuantity {pairs : List (Id × ℤ)} {item : LineItem} {pid : Id} :
    pid ∈ (addQuantity pairs item).map Prod.fst ↔
      pid ∈ pairs.map Prod.fst ∨ pid = item.productId := by
  induction pairs with
  | nil => simp [addQuantity]
  | cons pair pairs ih =>
    by_cases h : pair.1 = item.productId
    · simp only [addQuantity, h, if_true, List.map_cons, List.mem_cons]
      tauto
    · simp only [addQuantity, h, if_false, List.map_cons, List.mem_cons, ih]
      tauto

/-- Merging keeps each product under one key. -/
theorem nodup_keys_addQuantity {pairs : List (Id × ℤ)} {item : LineItem}
    (h : (pairs.map Prod.fst).Nodup) : ((addQuantity pairs item).map Prod.fst).Nodup := by
  induction pairs with
  | nil => simp [addQuantity]
  | cons pair pairs ih =>
    obtain ⟨hnot, htail⟩ := List.nodup_cons.mp h
    by_cases hp : pair.1 = item.productId
    · simpa only [addQuantity, hp, if_true, List.map_cons] using hp ▸ h
    · simp only [addQuantity, hp, if_false, List.map_cons]
      refine List.nodup_cons.mpr ⟨fun hmem => ?_, ih htail⟩
      rcases mem_keys_addQuantity.mp hmem with hmem | heq
      · exact hnot hmem
      · exact hp heq

/-- Merging keeps the products of the lines apart. -/
theorem nodup_keys_qtyById (items : List LineItem) : ((qtyById items).map Prod.fst).Nodup := by
  suffices hfold : ∀ pairs : List (Id × ℤ), (pairs.map Prod.fst).Nodup →
      ((items.foldl addQuantity pairs).map Prod.fst).Nodup from hfold [] List.nodup_nil
  induction items with
  | nil => exact fun pairs h => h
  | cons item items ih => exact fun pairs h => ih _ (nodup_keys_addQuantity h)

/-- Merging keeps the quantity of every product. -/
theorem quantityOf_qtyById (items : List LineItem) (pid : Id) :
    quantityOf (qtyById items) pid = requested items pid := by
  suffices hfold : ∀ pairs : List (Id × ℤ),
      quantityOf (items.foldl addQuantity pairs) pid =
        quantityOf pairs pid + requested items pid by
    have hnil : quantityOf [] pid = 0 := rfl
    have hmerged := hfold []
    rw [hnil] at hmerged
    exact hmerged.trans (Int.zero_add _)
  induction items with
  | nil => exact fun pairs => (Int.add_zero _).symm
  | cons item items ih =>
    intro pairs
    rw [List.foldl_cons, ih, quantityOf_addQuantity, requested_cons]
    omega

/-- The lines of an order, as pairs of a product's identifier and a quantity. -/
def linePairs (lines : List (Product × ℤ)) : List (Id × ℤ) := lines.map fun l => (l.1.id, l.2)

/-- The item rows of an order hold the quantities of its lines. -/
theorem ordered_newItems (env : Env) (orderId : Id) (i : ℕ) (lines : List (Product × ℤ))
    (pid : Id) : ordered (newItems env orderId i lines) pid = quantityOf (linePairs lines) pid := by
  induction lines generalizing i with
  | nil => rfl
  | cons line lines ih =>
    have hcons : linePairs (line :: lines) = (line.1.id, line.2) :: linePairs lines := rfl
    rw [hcons, quantityOf_cons, ← ih (i + 1)]
    by_cases h : line.1.id = pid
    · simp [ordered, newItems, newItem, h]
    · simp [ordered, newItems, newItem, h]

/-! ### Taking stock -/

/-- The products of the lines are rows of the database, each of one line. -/
structure LinesOf (db : Db) (lines : List (Product × ℤ)) : Prop where
  distinct : ((linePairs lines).map Prod.fst).Nodup
  found : ∀ l ∈ lines, db.products.get l.1.id = some l.1

section Taking

variable {db : Db} {line : Product × ℤ} {lines : List (Product × ℤ)} {pid : Id}

/-- The database once the stock of one line has been taken. -/
def takeLine (db : Db) (line : Product × ℤ) : Db :=
  match line.1.stockQuantity with
  | none => db
  | some stock => db.setStock line.1.id (stock - line.2)

/-- The lines are taken one after another. -/
theorem takeStock_cons : takeStock db (line :: lines) = takeStock (takeLine db line) lines := rfl

/-- Writing a stock changes that product's stock alone. -/
theorem get_setStock (db : Db) (id : Id) (stock : ℤ) (pid : Id) :
    (db.setStock id stock).products.get pid =
      if pid = id then (db.products.get pid).map fun p => { p with stockQuantity := some stock }
      else db.products.get pid :=
  Table.get_modify db.products id (f := fun p => { p with stockQuantity := some stock })
    (fun _ => rfl) pid

/-- A line leaves the other products alone. -/
theorem get_takeLine_of_ne (h : pid ≠ line.1.id) :
    (takeLine db line).products.get pid = db.products.get pid := by
  unfold takeLine
  cases line.1.stockQuantity with
  | none => rfl
  | some stock => exact (get_setStock _ _ _ _).trans (if_neg h)

/-- The product once a quantity has been taken from its stock. -/
def Product.taken (p : Product) (quantity : ℤ) : Product :=
  { p with stockQuantity := p.stockQuantity.map fun stock => stock - quantity }

/-- An order without the product takes nothing. -/
theorem Product.taken_zero (p : Product) : p.taken 0 = p := by
  have hstock : (p.stockQuantity.map fun stock => stock - 0) = p.stockQuantity := by
    cases p.stockQuantity with
    | none => rfl
    | some stock => rw [Option.map_some, Int.sub_zero]
  rw [Product.taken, hstock]

/-- The product of the line loses the quantity of the line. -/
theorem get_takeLine_self (h : db.products.get line.1.id = some line.1) :
    (takeLine db line).products.get line.1.id = some (line.1.taken line.2) := by
  unfold takeLine
  cases hstock : line.1.stockQuantity with
  | none =>
    have htaken : line.1.taken line.2 = line.1 := by
      rw [Product.taken, hstock, Option.map_none, ← hstock]
    rw [htaken]
    exact h
  | some stock =>
    have hget := get_setStock db line.1.id (stock - line.2) line.1.id
    rw [if_pos rfl, h] at hget
    rw [Product.taken, hstock]
    exact hget

/-- A product that is in no line keeps its row. -/
theorem get_takeStock_of_not_mem (h : pid ∉ (linePairs lines).map Prod.fst) :
    (takeStock db lines).products.get pid = db.products.get pid := by
  induction lines generalizing db with
  | nil => rfl
  | cons line lines ih =>
    have hne : pid ≠ line.1.id := fun heq => h (heq ▸ List.mem_cons_self)
    have hrest : pid ∉ (linePairs lines).map Prod.fst := fun hmem =>
      h (List.mem_cons_of_mem _ hmem)
    exact (ih hrest).trans (get_takeLine_of_ne hne)

/-- After the first line is taken, the others are still lines of the state. -/
theorem LinesOf.tail (h : LinesOf db (line :: lines)) : LinesOf (takeLine db line) lines where
  distinct := (List.nodup_cons.mp h.distinct).2
  found l hl := by
    have hne : l.1.id ≠ line.1.id := by
      intro heq
      have hmem : line.1.id ∈ (linePairs lines).map Prod.fst :=
        List.mem_map.mpr ⟨(l.1.id, l.2), List.mem_map.mpr ⟨l, hl, rfl⟩, heq⟩
      exact (List.nodup_cons.mp h.distinct).1 hmem
    rw [get_takeLine_of_ne hne]
    exact h.found l (List.mem_cons_of_mem _ hl)

/-- Every tracked product loses its quantity in the lines, and nothing else changes of it. -/
theorem LinesOf.get_takeStock (h : LinesOf db lines) {p : Product}
    (hp : db.products.get pid = some p) :
    (takeStock db lines).products.get pid = some (p.taken (quantityOf (linePairs lines) pid)) := by
  induction lines generalizing db p with
  | nil =>
    have hnone : quantityOf (linePairs []) pid = 0 := rfl
    rw [hnone, Product.taken_zero]
    exact hp
  | cons line lines ih =>
    have hcons : quantityOf (linePairs (line :: lines)) pid =
        (if line.1.id = pid then line.2 else 0) + quantityOf (linePairs lines) pid :=
      quantityOf_cons _ _ _
    by_cases heq : line.1.id = pid
    · -- the product of the first line, which no other line names
      subst heq
      have hrest : line.1.id ∉ (linePairs lines).map Prod.fst :=
        (List.nodup_cons.mp h.distinct).1
      have hline := h.found line List.mem_cons_self
      obtain rfl : p = line.1 := Option.some.inj (hp.symm.trans hline)
      rw [hcons, if_pos rfl, quantityOf_of_not_mem hrest, Int.add_zero]
      exact (get_takeStock_of_not_mem hrest).trans (get_takeLine_self hline)
    · have hget : (takeLine db line).products.get pid = some p :=
        (get_takeLine_of_ne (Ne.symm heq)).trans hp
      rw [hcons, if_neg heq, Int.zero_add]
      exact ih h.tail hget

/-- No product comes or goes. -/
theorem get_takeStock_eq_none :
    (takeStock db lines).products.get pid = none ↔ db.products.get pid = none := by
  induction lines generalizing db with
  | nil => exact Iff.rfl
  | cons line lines ih =>
    rw [takeStock_cons, ih]
    unfold takeLine
    cases line.1.stockQuantity with
    | none => exact Iff.rfl
    | some stock => exact Table.get_update_eq_none

/-- No line takes more than there is. -/
theorem quantityOf_linePairs_le (h : LinesOf db lines)
    (henough : ∀ l ∈ lines, ∀ stock, l.1.stockQuantity = some stock → l.2 ≤ stock) {p : Product}
    (hp : db.products.get pid = some p) {stock : ℤ} (hstock : p.stockQuantity = some stock)
    (hpos : 0 ≤ stock) : quantityOf (linePairs lines) pid ≤ stock := by
  by_cases hmem : pid ∈ (linePairs lines).map Prod.fst
  · obtain ⟨pair, hpair, rfl⟩ := List.mem_map.mp hmem
    obtain ⟨l, hl, rfl⟩ := List.mem_map.mp hpair
    obtain rfl : p = l.1 := Option.some.inj (hp.symm.trans (h.found l hl))
    rw [quantityOf_of_mem h.distinct hpair]
    exact henough l hl stock hstock
  · rw [quantityOf_of_not_mem hmem]
    exact hpos

/-- Taking the lines writes the products table only. -/
theorem takeStock_eq (db : Db) (lines : List (Product × ℤ)) :
    takeStock db lines = { db with products := (takeStock db lines).products } := by
  induction lines generalizing db with
  | nil => rfl
  | cons line lines ih =>
    rw [takeStock_cons, ih]
    unfold takeLine
    cases line.1.stockQuantity with
    | none => rfl
    | some stock => rfl

end Taking

/-! ### The invariant and the locks -/

/-- What the CHECK on the stock and the foreign key of the items say of a database. -/
structure Stocked (db : Db) : Prop where
  nonNegative : ∀ pid p stock, db.products.get pid = some p → p.stockQuantity = some stock →
    0 ≤ stock
  placed : ∀ item ∈ db.orderItems.rows, db.orders.get item.orderId ≠ none

/-- The rows that placing an order rests on: its products and its order as they were when they
were locked, its items not there until it inserts them. -/
def stockLocking : Locking Db Key where
  agree key s t :=
    match key with
    | .product id => t.products.get id = s.products.get id
    | .order id => t.orders.get id = s.orders.get id
    | .orderItem id => s.orderItems.get id = none → t.orderItems.get id = none
    | _ => True
  refl key s := by
    cases key with
    | orderItem id => exact fun h => h
    | _ => trivial
  trans {key s t u} hst htu := by
    cases key with
    | product id => exact Eq.trans htu hst
    | order id => exact Eq.trans htu hst
    | orderItem id => exact fun h => htu (hst h)
    | _ => trivial

/-- No write of the services drives a stock below zero. -/
theorem ServiceWrite.stocked {K : List WriteKind} {key : Key} {f : Db → Db}
    (h : ServiceWrite K key f) {db : Db}
    (hdb : Stocked db) : Stocked (f db) := by
  have hsame : ∀ {db' : Db}, db'.products = db.products → db'.orders = db.orders →
      db'.orderItems = db.orderItems → Stocked db' := by
    intro db' hproducts horders hitems
    refine ⟨?_, ?_⟩
    · rw [hproducts]
      exact hdb.nonNegative
    · rw [horders, hitems]
      exact hdb.placed
  cases h with
  | setSettings ps => exact hsame rfl rfl rfl
  | order h =>
    cases h with
    | modifyOrder id target f =>
      exact ⟨hdb.nonNegative, fun item hitem hnone =>
        hdb.placed item hitem (Table.get_update_eq_none.mp hnone)⟩
    | removeOrder id =>
      refine ⟨hdb.nonNegative, fun item hitem => ?_⟩
      -- an item that stays is of another order, which stays as well
      obtain ⟨hold, hother⟩ := List.mem_filter.mp hitem
      have hne : item.orderId ≠ id := by simpa using hother
      obtain ⟨x, hx⟩ := Option.ne_none_iff_exists'.mp (hdb.placed item hold)
      have hstays : (db.removeOrder id).orders.get item.orderId = some x := by
        rw [Db.removeOrder, Table.get_delete, hx, Option.filter_some_pos]
        simpa [Table.key_of_get hx] using hne
      rw [hstays]
      exact Option.some_ne_none x
    | _ => exact hsame rfl rfl rfl

/-- A write under one lock leaves the rows of the others as they are. -/
theorem ServiceWrite.frame {K : List WriteKind} {key key' : Key} {f : Db → Db}
    (h : ServiceWrite K key f) (db : Db)
    (hne : key' ≠ key) : stockLocking.agree key' db (f db) := by
  have hsame : ∀ {db' : Db}, db'.products = db.products → db'.orders = db.orders →
      db'.orderItems = db.orderItems → stockLocking.agree key' db db' := by
    intro db' hproducts horders hitems
    cases key' with
    | product id => exact congrArg (fun t => t.get id) hproducts
    | order id => exact congrArg (fun t => t.get id) horders
    | orderItem id => exact fun hnone => hitems ▸ hnone
    | _ => trivial
  cases h with
  | setSettings ps => exact hsame rfl rfl rfl
  | order h =>
    cases h with
    | modifyOrder id target f =>
      cases key' with
      | product id' => rfl
      | order id' => exact Table.get_modify_of_ne _ (fun heq => hne (congrArg Key.order heq)) _
      | orderItem id' => exact fun hnone => hnone
      | _ => trivial
    | removeOrder id =>
      cases key' with
      | product id' => rfl
      | order id' =>
        have hid : id' ≠ id := fun heq => hne (congrArg Key.order heq)
        have hget : (db.removeOrder id).orders.get id' =
            (db.orders.get id').filter fun x => !decide (x.id = id) := Table.get_delete _ _ _
        cases hx : db.orders.get id' with
        | none =>
          rw [hx] at hget
          exact hget.trans hx.symm
        | some x =>
          rw [hx, Option.filter_some_pos (by simp [Table.key_of_get hx, hid])] at hget
          exact hget.trans hx.symm
      | orderItem id' =>
        intro hnone
        have hget : (db.removeOrder id).orderItems.get id' =
            (db.orderItems.get id').filter fun i => !decide (i.orderId = id) :=
          Table.get_delete _ _ _
        rw [hget, hnone]
        rfl
      | _ => trivial
    | _ => exact hsame rfl rfl rfl

/-- No operation but the placing of an order changes `products`, in any interleaving. -/
theorem exec_safe (sha256 : String → String) (env : Env) (caller : User) {op : Op}
    (hop : ∀ items address, op ≠ .createOrder items address) :
    (op.exec sha256 env caller).Safe stockLocking Stocked fun _ s t => t.products = s.products :=
  Writes.safe (R := fun s t : Db => t.products = s.products) (fun _ => rfl)
    (fun _ _ _ hst htu => htu.trans hst)
    (fun _ _ hf db hdb => ⟨hf.stocked hdb, hf.products db⟩)
    (fun _ _ hf db _ hne => hf.frame db hne) (exec_writes hop)

/-! ### Placing an order among other transactions -/

/-- The rows of the products alone. -/
def productLocking : Locking Db Key where
  agree key s t :=
    match key with
    | .product id => t.products.get id = s.products.get id
    | _ => True
  refl key s := by
    cases key with
    | _ => trivial
  trans {key s t u} hst htu := by
    cases key with
    | product id => exact Eq.trans htu hst
    | _ => trivial

/-- What is locked for an order protects its products. -/
theorem productLocking_known {facts : List (Key × Db)} {s : Db} (h : stockLocking.Known facts s) :
    productLocking.Known facts s := by
  intro f hf
  have hagree := h f hf
  obtain ⟨key, t⟩ := f
  cases key with
  | product id => exact hagree
  | _ => trivial

section Placing

variable {env : Env} {caller : User} {α : Type} {L : Locking Db Key} {I : Db → Prop}
  {facts : List (Key × Db)}

/-- The row of the product is locked, and was this when the lock was taken. -/
def LockedRow (facts : List (Key × Db)) (p : Product) : Prop :=
  ∃ s, (Key.product p.id, s) ∈ facts ∧ s.products.get p.id = some p

/-- A row known from fewer facts is known from more. -/
theorem LockedRow.mono {facts' : List (Key × Db)} {p : Product} (h : LockedRow facts p)
    (hsub : facts ⊆ facts') : LockedRow facts' p := by
  obtain ⟨t, hmem, hget⟩ := h
  exact ⟨t, hsub hmem, hget⟩

/-- A locked row is still what it was. -/
theorem LockedRow.found {p : Product} (h : LockedRow facts p) {s : Db}
    (hs : productLocking.Known facts s) : s.products.get p.id = some p := by
  obtain ⟨t, hmem, hget⟩ := h
  have hagree : s.products.get p.id = t.products.get p.id := hs _ hmem
  exact hagree.trans hget

/-- `lockProducts` locks every row it returns. -/
theorem wp_lockProducts {ids : List Id} {Post : List (Key × Db) → (Db → Db) → List Product → Prop}
    (h : ∀ facts' products, facts ⊆ facts' → (∀ p ∈ products, LockedRow facts' p) →
      Post facts' id products) :
    (lockProducts ids).wp L I Post facts id := by
  induction ids generalizing facts Post with
  | nil => exact h facts [] (List.Subset.refl _) (fun p hp => by cases hp)
  | cons pid ids ih =>
    simp only [lockProducts, bind_eq, wp_bind, wp_acquire, pure_eq, wp_ret, id]
    intro s _ _
    refine ih fun facts' products hsub hlocked => h facts' _ (fun f hf => ?_) fun p hp => ?_
    · exact hsub (List.mem_cons_of_mem _ hf)
    · rcases List.mem_append.mp hp with hp | hp
      · have hget : s.products.get pid = some p := by simpa using hp
        have hid := Table.key_of_get hget
        subst hid
        exact ⟨s, hsub List.mem_cons_self, hget⟩
      · exact hlocked p hp

/-- Resolving the lines reads no table. -/
theorem isValue_resolveLines (products : List Product) (qty : List (Id × ℤ)) :
    (resolveLines products qty).IsValue := by
  induction qty with
  | nil => exact .pure _
  | cons entry qty ih => exact .bind (.getOrRaise _ _) fun _ => .bind ih fun _ => .pure _

/-- Checking the lines reads no table. -/
theorem isValue_checkLines (lines : List (Product × ℤ)) : (checkLines lines).IsValue := by
  induction lines with
  | nil => exact .pure _
  | cons line lines ih => exact .bind (.raiseIf _ _) fun _ => .bind (.raiseIf _ _) fun _ => ih

/-- `decrementStock` takes the stock of every line. -/
theorem wp_decrementStock {lines : List (Product × ℤ)} {w : Db → Db}
    {Post : List (Key × Db) → (Db → Db) → Unit → Prop}
    (h : ∀ facts', facts ⊆ facts' → Post facts' (fun s => takeStock (w s) lines) ()) :
    (decrementStock lines).wp L I Post facts w := by
  induction lines generalizing facts w with
  | nil => exact h facts (List.Subset.refl _)
  | cons line lines ih =>
    unfold decrementStock
    cases hstock : line.1.stockQuantity with
    | none =>
      refine ih fun facts' hsub => ?_
      have hline := h facts' hsub
      simp only [takeStock_cons, takeLine, hstock] at hline
      exact hline
    | some stock =>
      simp only [updateStock, encode, bind_eq, wp_bind, wp_raiseIf, wp_updateRow]
      intro _ _ s _ _
      refine ih fun facts' hsub => ?_
      have hline := h facts' fun f hf => hsub (List.mem_cons_of_mem _ hf)
      simp only [takeStock_cons, takeLine, hstock] at hline
      exact hline

/-- The pending changes append some item rows, which are locked. -/
structure Appends (facts : List (Key × Db)) (w : Db → Db) (items : List OrderItem) : Prop where
  rows : ∀ s, stockLocking.Known facts s →
    (w s).orderItems.rows = s.orderItems.rows ++ items
  locked : ∀ item ∈ items, ∃ s, (Key.orderItem item.id, s) ∈ facts

/-- One more item, which is not there when its insertion looks. -/
theorem Appends.addItem {w : Db → Db} {items : List OrderItem} (h : Appends facts w items)
    {item : OrderItem} {s : Db} (hs : stockLocking.Known facts s)
    (hfree : (w s).orderItems.get item.id = none) :
    Appends ((.orderItem item.id, s) :: facts) (fun s => (w s).addItem item) (items ++ [item]) where
  rows t ht := by
    obtain ⟨hitem, ht⟩ := Locking.known_cons.mp ht
    rw [Table.get_eq_none_iff, h.rows s hs, List.map_append, List.mem_append, not_or] at hfree
    have hnew : t.orderItems.get item.id = none := hitem (Table.get_eq_none_iff.mpr hfree.1)
    have hfree' : (w t).orderItems.get item.id = none := by
      rw [Table.get_eq_none_iff, h.rows t ht, List.map_append, List.mem_append, not_or]
      exact ⟨Table.get_eq_none_iff.mp hnew, hfree.2⟩
    rw [Db.addItem, Table.rows_insert hfree', h.rows t ht, List.append_assoc]
  locked i hi := by
    rcases List.mem_append.mp hi with hi | hi
    · obtain ⟨t, ht⟩ := h.locked i hi
      exact ⟨t, List.mem_cons_of_mem _ ht⟩
    · obtain rfl := List.mem_singleton.mp hi
      exact ⟨s, List.mem_cons_self⟩

/-- `insertItems` appends an item row for every line, if `L` protects what the placing of an
order rests on. -/
theorem wp_insertItems (hL : ∀ facts s, L.Known facts s → stockLocking.Known facts s)
    {orderId : Id} {i : ℕ} {lines : List (Product × ℤ)} {w : Db → Db}
    {items : List OrderItem} {Post : List (Key × Db) → (Db → Db) → Unit → Prop}
    (hw : Appends facts w items)
    (h : ∀ facts', facts ⊆ facts' →
      Appends facts' (fun s => addItems (w s) (newItems env orderId i lines))
        (items ++ newItems env orderId i lines) →
      Post facts' (fun s => addItems (w s) (newItems env orderId i lines)) ()) :
    (insertItems env orderId i lines).wp L I Post facts w := by
  induction lines generalizing facts w i items with
  | nil => exact h facts (List.Subset.refl _) (by simpa [newItems, addItems] using hw)
  | cons line lines ih =>
    simp only [insertItems, insertOrderItem, encode, bind_eq, wp_bind, wp_raiseIf, wp_insertRow]
    intro _ _ s _ hs hfree
    have hget : (w s).orderItems.get (newItem env orderId i line).id = none := by
      simpa using hfree
    refine ih (hw.addItem (hL _ _ hs) hget) fun facts' hsub happ => ?_
    rw [List.append_assoc] at happ
    exact h facts' (fun f hf => hsub (List.mem_cons_of_mem _ hf)) happ

/-- The effect of placing an order. -/
structure Placed (items : List LineItem) (full : OrderFull) (s t : Db) : Prop where
  stock : ∀ pid p, s.products.get pid = some p → ∃ p', t.products.get pid = some p' ∧
    p'.stockQuantity = p.stockQuantity.map fun stock => stock - ordered full.orderItems pid
  enough : ∀ pid p stock, s.products.get pid = some p → p.stockQuantity = some stock →
    ordered full.orderItems pid ≤ stock
  ordered : ∀ pid, ordered full.orderItems pid = requested items pid
  rows : t.orderItems.rows = s.orderItems.rows ++ full.orderItems

/-- What placing an order has locked and changed before its commit. -/
structure Placing (facts : List (Key × Db)) (items : List LineItem)
    (lines : List (Product × ℤ)) (order : Order) (rows : List OrderItem) : Prop where
  pairs : linePairs lines = qtyById items
  locked : ∀ l ∈ lines, LockedRow facts l.1
  enough : ∀ l ∈ lines, ∀ stock, l.1.stockQuantity = some stock → l.2 ≤ stock
  free : ∃ t, (Key.order order.id, t) ∈ facts ∧ t.orders.get order.id = none
  ofOrder : ∀ item ∈ rows, item.orderId = order.id
  quantities : ∀ pid, ordered rows pid = quantityOf (linePairs lines) pid
  appends : Appends facts (fun s => addItems ((takeStock s lines).addOrder order) rows) rows

namespace Placing

variable {items : List LineItem} {lines : List (Product × ℤ)} {order : Order}
  {rows : List OrderItem} {s : Db}

/-- The pending changes. -/
def pending (lines : List (Product × ℤ)) (order : Order) (rows : List OrderItem) (s : Db) : Db :=
  addItems ((takeStock s lines).addOrder order) rows

/-- The pending order has taken its lines from the stock. -/
theorem pending_products :
    (pending lines order rows s).products = (takeStock s lines).products := by
  rw [pending, addItems_eq]
  rfl

/-- The pending order is inserted among the orders. -/
theorem pending_orders : (pending lines order rows s).orders = s.orders.insert order := by
  rw [pending, addItems_eq, takeStock_eq]
  rfl

/-- The lines still hold the rows that were locked for them. -/
theorem linesOf (h : Placing facts items lines order rows) (hs : stockLocking.Known facts s) :
    LinesOf s lines where
  distinct := by
    rw [h.pairs]
    exact nodup_keys_qtyById items
  found l hl := (h.locked l hl).found (productLocking_known hs)

/-- The new order's id is still free. -/
theorem order_free (h : Placing facts items lines order rows) (hs : stockLocking.Known facts s) :
    s.orders.get order.id = none := by
  obtain ⟨t, hmem, hnone⟩ := h.free
  have hagree : s.orders.get order.id = t.orders.get order.id := hs _ hmem
  exact hagree.trans hnone

/-- The new order has no items but its own. -/
theorem itemsOf_pending (h : Placing facts items lines order rows) (hI : Stocked s)
    (hs : stockLocking.Known facts s) : (pending lines order rows s).itemsOf order.id = rows := by
  have hnone : (s.orderItems.rows.filter fun i => i.orderId = order.id) = [] := by
    refine List.filter_eq_nil_iff.mpr fun item hitem heq => hI.placed item hitem ?_
    rw [of_decide_eq_true heq]
    exact h.order_free hs
  have hall : (rows.filter fun i => i.orderId = order.id) = rows :=
    List.filter_eq_self.mpr fun i hi => by simp [h.ofOrder i hi]
  have hrows : (pending lines order rows s).orderItems.rows = s.orderItems.rows ++ rows :=
    h.appends.rows s hs
  rw [Db.itemsOf, hrows, List.filter_append, hnone, hall, List.nil_append]

/-- The pending order leaves every stock at zero or above. -/
theorem stocked_pending (h : Placing facts items lines order rows) (hI : Stocked s)
    (hs : stockLocking.Known facts s) : Stocked (pending lines order rows s) where
  nonNegative pid p' stock' hp' hstock' := by
    rw [pending_products] at hp'
    cases hp : s.products.get pid with
    | none =>
      rw [get_takeStock_eq_none.mpr hp] at hp'
      cases hp'
    | some p =>
      obtain rfl := Option.some.inj (((h.linesOf hs).get_takeStock hp).symm.trans hp')
      obtain ⟨stock, hold, rfl⟩ := Option.map_eq_some_iff.mp hstock'
      have hle := quantityOf_linePairs_le (h.linesOf hs) h.enough hp hold
        (hI.nonNegative pid p stock hp hold)
      omega
  placed item hitem := by
    have hrows : (pending lines order rows s).orderItems.rows = s.orderItems.rows ++ rows :=
      h.appends.rows s hs
    rw [hrows] at hitem
    rw [pending_orders, Table.get_insert (h.order_free hs)]
    by_cases hid : item.orderId = order.id
    · rw [if_pos hid]
      exact Option.some_ne_none order
    · rw [if_neg hid]
      rcases List.mem_append.mp hitem with hold | hnew
      · exact hI.placed item hold
      · exact absurd (h.ofOrder item hnew) hid

/-- Committing the pending order is the effect of a placed order. -/
theorem placed_pending (h : Placing facts items lines order rows) (hI : Stocked s)
    (hs : stockLocking.Known facts s) {full : OrderFull} (hfull : full.orderItems = rows) :
    Placed items full s (pending lines order rows s) where
  stock pid p hp := by
    rw [pending_products, hfull, h.quantities]
    exact ⟨_, (h.linesOf hs).get_takeStock hp, rfl⟩
  enough pid p stock hp hstock := by
    rw [hfull, h.quantities]
    exact quantityOf_linePairs_le (h.linesOf hs) h.enough hp hstock
      (hI.nonNegative pid p stock hp hstock)
  ordered pid := by
    rw [hfull, h.quantities, h.pairs, quantityOf_qtyById]
  rows := by
    rw [hfull]
    exact h.appends.rows s hs

/-- The pending order touches the locked rows only. -/
theorem frame_pending (h : Placing facts items lines order rows)
    (hs : stockLocking.Known facts s) {key : Key} (hkey : ∀ f ∈ facts, f.1 ≠ key) :
    stockLocking.agree key s (pending lines order rows s) := by
  cases key with
  | product pid =>
    change (pending lines order rows s).products.get pid = s.products.get pid
    rw [pending_products]
    refine get_takeStock_of_not_mem fun hmem => ?_
    obtain ⟨pair, hpair, rfl⟩ := List.mem_map.mp hmem
    obtain ⟨l, hl, rfl⟩ := List.mem_map.mp hpair
    obtain ⟨t, ht, -⟩ := h.locked l hl
    exact hkey _ ht rfl
  | order id =>
    change (pending lines order rows s).orders.get id = s.orders.get id
    rw [pending_orders]
    refine Table.get_insert_of_ne _ fun heq => ?_
    obtain ⟨t, ht, -⟩ := h.free
    exact hkey _ ht (congrArg Key.order heq.symm)
  | orderItem id =>
    intro hnone
    have hrows : (pending lines order rows s).orderItems.rows = s.orderItems.rows ++ rows :=
      h.appends.rows s hs
    rw [Table.get_eq_none_iff] at hnone ⊢
    rw [hrows, List.map_append, List.mem_append, not_or]
    refine ⟨hnone, fun hmem => ?_⟩
    obtain ⟨item, hitem, rfl⟩ := List.mem_map.mp hmem
    obtain ⟨t, ht⟩ := h.appends.locked item hitem
    exact hkey _ ht rfl
  | _ => trivial

end Placing

/-- `create_order` up to the decrement: it has locked its products and takes what its items ask for,
which is there. -/
theorem wp_takeStock {items : List LineItem} {address : Address}
    {Post : List (Key × Db) → (Db → Db) → OrderFull → Prop}
    (h : ∀ facts products lines seller, items ≠ [] → (∀ l ∈ lines, LockedRow facts l.1) →
      linePairs lines = qtyById items →
      (∀ l ∈ lines, ∀ stock, l.1.stockQuantity = some stock → l.2 ≤ stock) →
      (do
        let firstProduct ← getOrRaise (products : List Product).head? (.unexpected "StopIteration")
        insertOrder (newOrder env caller seller firstProduct.storeId address lines)
        insertItems env (env.uuid4 0) 1 lines
        loaded (env.uuid4 0) : Tx OrderFull).wp L I Post facts (fun s => takeStock s lines)) :
    (createOrder env caller items address).wp L I Post [] id := by
  unfold createOrder
  simp only [bind_eq, wp_bind, wp_raiseIf, wp_getOrRaise, wp_read]
  intro _ hitems seller _ s₀ _ _
  refine wp_lockProducts fun facts products _ hlocked => ?_
  intro _ _
  refine (isValue_resolveLines _ _).wp fun lines hlines => ?_
  obtain ⟨-, hpairs, hmem⟩ := resolveLines_ok (hlines {})
  refine (isValue_checkLines _).wp fun _ hcheck => ?_
  obtain ⟨-, henough⟩ := checkLines_ok (hcheck {})
  refine wp_decrementStock fun facts' hsub => ?_
  have hrest := h facts' products lines seller hitems
    (fun l hl => (hlocked l.1 (hmem l hl)).mono hsub) hpairs henough
  simpa only [bind_eq, wp_bind, wp_getOrRaise, id] using hrest

/-- What `create_order` has locked and changed when it commits, if `L` protects what the placing
of an order rests on. -/
theorem wp_createOrder (hL : ∀ facts s, L.Known facts s → stockLocking.Known facts s)
    {items : List LineItem} {address : Address}
    {Post : List (Key × Db) → (Db → Db) → OrderFull → Prop}
    (h : ∀ facts lines seller storeId full u, items ≠ [] →
      Placing facts items lines (newOrder env caller seller storeId address lines)
        (newItems env (env.uuid4 0) 1 lines) →
      I u → L.Known facts u →
      full.orderItems = (Placing.pending lines (newOrder env caller seller storeId address lines)
        (newItems env (env.uuid4 0) 1 lines) u).itemsOf (env.uuid4 0) →
      Post facts (Placing.pending lines (newOrder env caller seller storeId address lines)
        (newItems env (env.uuid4 0) 1 lines)) full) :
    (createOrder env caller items address).wp L I Post [] id := by
  refine wp_takeStock fun facts' products lines seller hitems hlocked hpairs henough => ?_
  simp only [insertOrder, encode, bind_eq, wp_bind, wp_getOrRaise, wp_raiseIf, wp_insertRow]
  intro first _ _ t _ _ hfree
  have hgone : t.orders.get (env.uuid4 0) = none := by
    rw [takeStock_eq] at hfree
    exact Option.isSome_eq_false_iff.mp hfree |> Option.isNone_iff_eq_none.mp
  have hnone : Appends ((.order (env.uuid4 0), t) :: facts')
      (fun s => (takeStock s lines).addOrder
        (newOrder env caller seller first.storeId address lines)) [] := by
    refine ⟨fun s _ => ?_, fun i hi => by cases hi⟩
    rw [takeStock_eq, List.append_nil]
    rfl
  refine wp_insertItems hL hnone fun facts'' hsub' happ => ?_
  have hplacing : Placing facts'' items lines
      (newOrder env caller seller first.storeId address lines)
      (newItems env (env.uuid4 0) 1 lines) :=
    { pairs := hpairs
      locked := fun l hl =>
        (hlocked l hl).mono fun f hf => hsub' (List.mem_cons_of_mem _ hf)
      enough := henough
      free := ⟨t, hsub' List.mem_cons_self, hgone⟩
      ofOrder := fun item hitem => orderId_of_mem_newItems hitem
      quantities := ordered_newItems env (env.uuid4 0) 1 lines
      appends := happ }
  simp only [loaded, loadOrderFull, bind_eq, wp_bind, wp_read, pure_eq, wp_ret, wp_getOrRaise]
  intro u hu hknown full hfull
  obtain ⟨x, -, rfl⟩ := Option.map_eq_some_iff.mp hfull
  exact h facts'' lines seller first.storeId _ u hitems hplacing hu hknown rfl

/-- `create_order` takes the stock of what it orders, in any interleaving. -/
theorem createOrder_safe (env : Env) (caller : User) (items : List LineItem) (address : Address) :
    (createOrder env caller items address).Safe stockLocking Stocked (Placed items) := by
  refine wp_createOrder (fun _ _ hs => hs)
    fun facts lines seller storeId full u _ hplacing hu hknown hfull => ?_
  have hrows := hfull.trans (hplacing.itemsOf_pending hu hknown)
  intro s hs hknown'
  exact ⟨hplacing.stocked_pending hs hknown', hplacing.placed_pending hs hknown' hrows,
    fun key hkey => hplacing.frame_pending hknown' hkey⟩

end Placing

/-! ### Requests at the same time -/

/-- A request among others that run at the same time. -/
structure Request where
  caller : User
  op : Op
  env : Env

section Interleaving

variable (sha256 : String → String)

/-- The transaction that serves a request. -/
def Request.exec (q : Request) : Tx Reply := q.op.exec sha256 q.env q.caller

/-- What the commit of a request does to stock. -/
def Request.effect (q : Request) (r : Reply) (s t : Db) : Prop :=
  match q.op with
  | .createOrder items _ => ∃ full, r = .order full ∧ Placed items full s t
  | _ => t.products = s.products

/-- What the committed reply to a request has taken of a product. -/
def Request.taken (q : Request) (r : Reply) (pid : Id) : ℤ :=
  match q.op, r with
  | .createOrder _ _, .order full => ordered full.orderItems pid
  | _, _ => 0

/-- Every request is safe under the stock locks and has its effect at the commit. -/
theorem Request.exec_safe (q : Request) :
    (q.exec sha256).Safe stockLocking Stocked (q.effect) := by
  cases hop : q.op with
  | createOrder items address =>
    have hsafe := createOrder_safe q.env q.caller items address
    unfold Request.exec Txn.Safe
    rw [hop]
    simp only [Op.exec, bind_eq, wp_bind]
    refine wp_mono (fun facts w full h => ?_) hsafe
    intro s hs hknown
    obtain ⟨hI, hplaced, hframe⟩ := h s hs hknown
    refine ⟨hI, ?_, hframe⟩
    simp only [Request.effect, hop]
    exact ⟨full, rfl, hplaced⟩
  | _ =>
    have hsafe : (q.op.exec sha256 q.env q.caller).Safe stockLocking Stocked
        fun _ s t => t.products = s.products :=
      Marketplace.exec_safe sha256 q.env q.caller (by simp [hop])
    have heffect : q.effect = fun _ s t => t.products = s.products := by
      funext r s t
      simp only [Request.effect, hop]
    rw [heffect]
    exact hsafe

variable {ι : Type} (requests : ι → Request)

/-- The quantity of a product over the items of the committed orders. -/
def sold (log : List (ι × Reply)) (pid : Id) : ℤ :=
  (log.map fun entry => (requests entry.1).taken entry.2 pid).sum

/-- One more commit. -/
theorem sold_append (log : List (ι × Reply)) (i : ι) (r : Reply) (pid : Id) :
    sold requests (log ++ [(i, r)]) pid = sold requests log pid + (requests i).taken r pid := by
  simp [sold]

/-- The stock after the commits is the initial one less what the orders of the log took. -/
theorem stock_of_commits {db t : Db} {log : List (ι × Reply)} (hdb : Stocked db)
    (h : Sys.Commits (fun i => (requests i).effect) db log t) {pid : Id} {p : Product} {initial : ℤ}
    (hp : db.products.get pid = some p) (hstock : p.stockQuantity = some initial) :
    ∃ p', t.products.get pid = some p' ∧
      p'.stockQuantity = some (initial - sold requests log pid) ∧
      0 ≤ initial - sold requests log pid := by
  induction h with
  | nil =>
    have hpos := hdb.nonNegative pid p initial hp hstock
    have hnone : sold requests [] pid = 0 := rfl
    exact ⟨p, hp, by rw [hstock, hnone, Int.sub_zero], by rw [hnone, Int.sub_zero]; exact hpos⟩
  | @snoc log s t i r _ heffect ih =>
    obtain ⟨q, hq, hqstock, hpos⟩ := ih
    rw [sold_append]
    unfold Request.effect at heffect
    split at heffect
    · next items address hop =>
      obtain ⟨full, rfl, hplaced⟩ := heffect
      have htaken : (requests i).taken (.order full) pid = ordered full.orderItems pid := by
        simp only [Request.taken, hop]
      obtain ⟨q', hq', hq'stock⟩ := hplaced.stock pid q hq
      have hle := hplaced.enough pid q _ hq hqstock
      rw [htaken]
      refine ⟨q', hq', ?_, by omega⟩
      rw [hq'stock, hqstock, Option.map_some, ← Int.sub_sub]
    · next hop =>
      have htaken : (requests i).taken r pid = 0 := by
        unfold Request.taken
        split
        · next items address full hop' => exact absurd hop' (hop items address)
        · rfl
      rw [htaken, heffect, Int.add_zero]
      exact ⟨q, hq, hqstock, hpos⟩

variable [DecidableEq ι]

/-- The conservation of stock in a state of the server. -/
structure StockConserved (db : Db) (s : Sys ι Db Key Err Reply) : Prop where
  stock : ∀ pid p initial, db.products.get pid = some p → p.stockQuantity = some initial →
    ∃ p', s.db.products.get pid = some p' ∧
      p'.stockQuantity = some (initial - sold requests s.log pid) ∧
      0 ≤ initial - sold requests s.log pid
  committed : ∀ i r t items address, Sys.Step i s t → t.txn i = .committed r →
    (requests i).op = .createOrder items address →
    ∃ full, r = .order full ∧ t.db.orderItems.rows = s.db.orderItems.rows ++ full.orderItems ∧
      ∀ pid, ordered full.orderItems pid = requested items pid
  refused : ∀ i e t, Sys.Step i s t → t.txn i = .aborted e → t.db = s.db ∧ t.log = s.log
  noRestock : ∀ i r t, Sys.Step i s t → t.txn i = .committed r →
    (∀ items address, (requests i).op ≠ .createOrder items address) →
    t.db.products = s.db.products

/-- **The conservation of stock.** In every interleaving of any requests, stock is what it was
less what the committed orders have taken, no request that is refused takes any, and no request
puts any back. -/
theorem stock_conserved {db : Db} (hdb : Stocked db) {s : Sys ι Db Key Err Reply}
    (hs : Sys.Steps (Sys.init db fun i => (requests i).exec sha256) s) :
    StockConserved requests db s := by
  have hsafe : ∀ i, ((requests i).exec sha256).Safe stockLocking Stocked ((requests i).effect) :=
    fun i => (requests i).exec_safe sha256
  have hsound := hs.sound (Sys.sound_init hdb hsafe)
  refine ⟨?_, ?_, fun i e t hstep ht => hstep.aborted ht, ?_⟩
  · intro pid p initial hp hstock
    exact stock_of_commits requests hdb (hs.commits hdb hsafe) hp hstock
  · intro i r t items address hstep ht hop
    have heffect := hsound.committed hstep ht
    simp only [Request.effect, hop] at heffect
    obtain ⟨full, rfl, hplaced⟩ := heffect
    exact ⟨full, rfl, hplaced.rows, hplaced.ordered⟩
  · intro i r t hstep ht hop
    have heffect := hsound.committed hstep ht
    unfold Request.effect at heffect
    split at heffect
    · next items address hop' => exact absurd hop' (hop items address)
    · exact heffect

end Interleaving

namespace Sample

/-- Two requests for the same product, the first with two lines of it. -/
def orders (second : Bool) : Request where
  caller := customer
  op := .createOrder
    (if second then [{ productId := 6, quantity := 1 }]
      else [{ productId := 6, quantity := 1 }, { productId := 6, quantity := 1 }]) {}
  env := { now := fun _ => 1, transactionNow := 1, randbelow := 0,
           uuid4 := fun i => Nat.pair (if second then 1 else 0) i }

/-- The sample database has no stock below zero. -/
theorem start_stocked : Stocked start.db where
  nonNegative pid p stock hp hstock := by
    obtain ⟨hmem, -⟩ := Table.get_eq_some_iff.mp hp
    obtain rfl : p = product := List.mem_singleton.mp hmem
    obtain rfl : 3 = stock := Option.some.inj hstock
    omega
  placed item hitem := by cases hitem

end Sample

/-- The two requests commit one after the other and take the last unit. -/
theorem stock_conserved_two :
    ∃ s, Sys.Steps (Sys.init Sample.start.db fun i => (Sample.orders i).exec Sample.sha256) s ∧
      s.log.map Prod.fst = [false, true] ∧
      StockConserved Sample.orders Sample.start.db s := by
  obtain ⟨r, hrun⟩ := run_of_session (p := (Sample.orders false).exec Sample.sha256)
    (s := Sample.start.db) (by decide +kernel)
  obtain ⟨r', hrun'⟩ := run_of_session (p := (Sample.orders true).exec Sample.sha256)
    (s := (((Sample.orders false).exec Sample.sha256).session Sample.start.db).2)
    (by decide +kernel)
  obtain ⟨t, ht, -, hlog⟩ := Sys.inTurn_of_run (p := fun i => (Sample.orders i).exec Sample.sha256)
    (by decide : false ≠ true) hrun hrun'
  refine ⟨t, ht, ?_, stock_conserved Sample.sha256 Sample.orders Sample.start_stocked ht⟩
  rw [hlog]
  rfl

end Marketplace
