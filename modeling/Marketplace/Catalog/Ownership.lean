import Marketplace.App.Step
import Marketplace.Catalog.Visibility
import Marketplace.Order.Stock

/-!
# Who changes the catalog

The services load a row, check who asks, and write the columns that they have assigned. Whatever
else is committed between the check and the write, each column of a product or a store has the
value that it had at the beginning or one that was assigned by a committed request of somebody who
may assign it: the seller itself or an administrator. The stock is also what a customer's order has
left of what it was before, and each order takes its quantity once.
-/

namespace Marketplace

open Lib Txn OrderService

/-! ### Columns -/

/-- A column from one state to another: its value is the old one, or one that is `assigned`. -/
def Written {α : Type} (assigned : α → Prop) (x y : α) : Prop := y = x ∨ assigned y

section Columns

variable {α : Type} {A B : α → Prop} {x y z : α}

/-- A field may stay as it is. -/
theorem Written.refl (x : α) : Written A x x := .inl rfl

/-- Two assignments, one after the other. -/
theorem Written.trans (h : Written A x y) (h' : Written A y z) : Written A x z := by
  rcases h' with rfl | h'
  · exact h
  · exact .inr h'

/-- More assignments allow more values. -/
theorem Written.mono (hAB : ∀ v, A v → B v) (h : Written A x y) : Written B x y :=
  h.imp_right (hAB y)

/-- The ORM leaves out a column whose value has not changed since it was loaded. -/
theorem written_assign [DecidableEq α] {loaded new current : α} (h : new ≠ loaded → A new) :
    Written A current (assign loaded new current) := by
  unfold assign
  split
  · exact .inl rfl
  · next hne => exact .inr (h hne)

/-- A value that is not the default has been given. -/
theorem eq_some_of_getD_ne {v : Option α} {d : α} (h : v.getD d ≠ d) : v = some (v.getD d) := by
  cases v with
  | none => exact absurd rfl h
  | some a => rfl

end Columns

/-! ### What has been done -/

/-- What `update_own_store` assigns; `none` leaves a column alone. -/
structure StorePatch where
  name : Option String := none
  description : Option String := none
  isActive : Option Bool := none
  isPublic : Option Bool := none

/-- What has been done to the catalog. -/
structure Deeds where
  /-- A product has been patched. -/
  patches : Id → ProductPatch → Prop
  /-- A product has been deleted, at a time. -/
  removes : Id → Time → Prop
  /-- A product has been disabled, for a reason and at a time. -/
  disables : Id → String → Time → Prop
  restores : Id → Prop
  /-- An order has been placed, of so much of a product. -/
  sells : Id → ℤ → Prop
  creates : Product → Prop
  /-- A store has been patched. -/
  patchesStore : Id → StorePatch → Prop
  opens : Store → Prop

/-- All that one has done, the other has done as well. -/
structure Deeds.Among (d e : Deeds) : Prop where
  patches : ∀ id q, d.patches id q → e.patches id q
  removes : ∀ id now, d.removes id now → e.removes id now
  disables : ∀ id reason now, d.disables id reason now → e.disables id reason now
  restores : ∀ id, d.restores id → e.restores id
  sells : ∀ id quantity, d.sells id quantity → e.sells id quantity
  creates : ∀ p, d.creates p → e.creates p
  patchesStore : ∀ id q, d.patchesStore id q → e.patchesStore id q
  opens : ∀ x, d.opens x → e.opens x

/-- The stock of a product has become another: it is the old one, one that a patch has set, or what
an order has left of such a one. -/
inductive StockSince (d : Deeds) (id : Id) (stock : Option ℤ) : Option ℤ → Prop
  | refl : StockSince d id stock stock
  | patched {q : ProductPatch} {n : ℤ} (hq : d.patches id q) (hn : q.stockQuantity = some n) :
      StockSince d id stock (some n)
  | sold {n quantity : ℤ} (h : StockSince d id stock (some n)) (hsold : d.sells id quantity)
      (henough : quantity ≤ n) : StockSince d id stock (some (n - quantity))

/-- The product has become another by some of the deeds. -/
structure Product.Since (d : Deeds) (p p' : Product) : Prop where
  id : p'.id = p.id
  sellerId : p'.sellerId = p.sellerId
  storeId : p'.storeId = p.storeId
  createdAt : p'.createdAt = p.createdAt
  name : Written (fun v => ∃ q, d.patches p.id q ∧ q.name.map strip = some v) p.name p'.name
  description : Written (fun v => ∃ q, d.patches p.id q ∧ q.description.map strip = some v)
    p.description p'.description
  priceMinor : Written (fun v => ∃ q, d.patches p.id q ∧ q.priceMinor = some v)
    p.priceMinor p'.priceMinor
  stockQuantity : StockSince d p.id p.stockQuantity p'.stockQuantity
  isActive : Written (fun v => (∃ q, d.patches p.id q ∧ q.isActive = some v) ∨
    v = false ∧ ∃ now, d.removes p.id now) p.isActive p'.isActive
  deletedAt : Written (fun v => ∃ now, d.removes p.id now ∧ v = some now) p.deletedAt p'.deletedAt
  status : Written (fun v => v = .disabled ∧ (∃ reason now, d.disables p.id reason now) ∨
    v = .active ∧ d.restores p.id) p.status p'.status
  disabledAt : Written (fun v => (∃ reason now, d.disables p.id reason now ∧ v = some now) ∨
    v = none ∧ d.restores p.id) p.disabledAt p'.disabledAt
  disabledReason : Written (fun v => (∃ reason now, d.disables p.id reason now ∧ v = some reason) ∨
    v = none ∧ d.restores p.id) p.disabledReason p'.disabledReason

/-- The store has become another by some of the deeds. -/
structure Store.Since (d : Deeds) (x x' : Store) : Prop where
  id : x'.id = x.id
  sellerId : x'.sellerId = x.sellerId
  slug : x'.slug = x.slug
  deletedAt : x'.deletedAt = x.deletedAt
  name : Written (fun v => ∃ q, d.patchesStore x.id q ∧ q.name.map strip = some v) x.name x'.name
  description : Written (fun v => ∃ q, d.patchesStore x.id q ∧ q.description.map strip = some v)
    x.description x'.description
  isActive : Written (fun v => ∃ q, d.patchesStore x.id q ∧ q.isActive = some v)
    x.isActive x'.isActive
  isPublic : Written (fun v => ∃ q, d.patchesStore x.id q ∧ q.isPublic = some v)
    x.isPublic x'.isPublic

/-- The catalog has become another by the deeds: no product and no store has gone, and those that
have come have been created. -/
structure CatalogSince (d : Deeds) (s t : Db) : Prop where
  sellers : ∀ id x, s.sellers.get id = some x →
    ∃ x', t.sellers.get id = some x' ∧ x'.userId = x.userId
  products : ∀ id p, s.products.get id = some p → ∃ p', t.products.get id = some p' ∧ p.Since d p'
  productsNew : ∀ id p', s.products.get id = none → t.products.get id = some p' →
    ∃ p, d.creates p ∧ p.Since d p'
  stores : ∀ id x, s.stores.get id = some x → ∃ x', t.stores.get id = some x' ∧ x.Since d x'
  storesNew : ∀ id x', s.stores.get id = none → t.stores.get id = some x' →
    ∃ x, d.opens x ∧ x.Since d x'

section Since

variable {d e : Deeds} {p p' p'' : Product} {x x' x'' : Store} {s t u : Db}

/-- One change of stock after the other. -/
theorem StockSince.trans {id : Id} {m n k : Option ℤ} (h : StockSince d id m n)
    (h' : StockSince d id n k) : StockSince d id m k := by
  induction h' with
  | refl => exact h
  | patched hq hn => exact .patched hq hn
  | sold _ hsold henough ih => exact .sold ih hsold henough

/-- More deeds allow more changes of stock. -/
theorem StockSince.mono {id : Id} {m n : Option ℤ} (hde : d.Among e) (h : StockSince d id m n) :
    StockSince e id m n := by
  induction h with
  | refl => exact .refl
  | patched hq hn => exact .patched (hde.patches _ _ hq) hn
  | sold _ hsold henough ih => exact .sold ih (hde.sells _ _ hsold) henough

/-- Without any deed a product is as it was. -/
theorem Product.Since.refl (d : Deeds) (p : Product) : p.Since d p where
  id := rfl
  sellerId := rfl
  storeId := rfl
  createdAt := rfl
  name := .refl _
  description := .refl _
  priceMinor := .refl _
  stockQuantity := .refl
  isActive := .refl _
  deletedAt := .refl _
  status := .refl _
  disabledAt := .refl _
  disabledReason := .refl _

/-- One change of a product after the other. -/
theorem Product.Since.trans (h : p.Since d p') (h' : p'.Since d p'') : p.Since d p'' where
  id := h'.id.trans h.id
  sellerId := h'.sellerId.trans h.sellerId
  storeId := h'.storeId.trans h.storeId
  createdAt := h'.createdAt.trans h.createdAt
  name := h.name.trans (h.id ▸ h'.name)
  description := h.description.trans (h.id ▸ h'.description)
  priceMinor := h.priceMinor.trans (h.id ▸ h'.priceMinor)
  stockQuantity := h.stockQuantity.trans (h.id ▸ h'.stockQuantity)
  isActive := h.isActive.trans (h.id ▸ h'.isActive)
  deletedAt := h.deletedAt.trans (h.id ▸ h'.deletedAt)
  status := h.status.trans (h.id ▸ h'.status)
  disabledAt := h.disabledAt.trans (h.id ▸ h'.disabledAt)
  disabledReason := h.disabledReason.trans (h.id ▸ h'.disabledReason)

/-- More deeds allow more changes of a product. -/
theorem Product.Since.mono (hde : d.Among e) (h : p.Since d p') : p.Since e p' where
  id := h.id
  sellerId := h.sellerId
  storeId := h.storeId
  createdAt := h.createdAt
  name := h.name.mono fun _ ⟨q, hq, hv⟩ => ⟨q, hde.patches _ q hq, hv⟩
  description := h.description.mono fun _ ⟨q, hq, hv⟩ => ⟨q, hde.patches _ q hq, hv⟩
  priceMinor := h.priceMinor.mono fun _ ⟨q, hq, hv⟩ => ⟨q, hde.patches _ q hq, hv⟩
  stockQuantity := h.stockQuantity.mono hde
  isActive := h.isActive.mono fun _ hv => hv.imp
    (fun ⟨q, hq, hv⟩ => ⟨q, hde.patches _ q hq, hv⟩)
    fun ⟨hv, now, hnow⟩ => ⟨hv, now, hde.removes _ now hnow⟩
  deletedAt := h.deletedAt.mono fun _ ⟨now, hnow, hv⟩ => ⟨now, hde.removes _ now hnow, hv⟩
  status := h.status.mono fun _ hv => hv.imp
    (fun ⟨hv, reason, now, hnow⟩ => ⟨hv, reason, now, hde.disables _ reason now hnow⟩)
    fun ⟨hv, hrestore⟩ => ⟨hv, hde.restores _ hrestore⟩
  disabledAt := h.disabledAt.mono fun _ hv => hv.imp
    (fun ⟨reason, now, hnow, hv⟩ => ⟨reason, now, hde.disables _ reason now hnow, hv⟩)
    fun ⟨hv, hrestore⟩ => ⟨hv, hde.restores _ hrestore⟩
  disabledReason := h.disabledReason.mono fun _ hv => hv.imp
    (fun ⟨reason, now, hnow, hv⟩ => ⟨reason, now, hde.disables _ reason now hnow, hv⟩)
    fun ⟨hv, hrestore⟩ => ⟨hv, hde.restores _ hrestore⟩

/-- Without any deed a store is as it was. -/
theorem Store.Since.refl (d : Deeds) (x : Store) : x.Since d x where
  id := rfl
  sellerId := rfl
  slug := rfl
  deletedAt := rfl
  name := .refl _
  description := .refl _
  isActive := .refl _
  isPublic := .refl _

/-- One change of a store after the other. -/
theorem Store.Since.trans (h : x.Since d x') (h' : x'.Since d x'') : x.Since d x'' where
  id := h'.id.trans h.id
  sellerId := h'.sellerId.trans h.sellerId
  slug := h'.slug.trans h.slug
  deletedAt := h'.deletedAt.trans h.deletedAt
  name := h.name.trans (h.id ▸ h'.name)
  description := h.description.trans (h.id ▸ h'.description)
  isActive := h.isActive.trans (h.id ▸ h'.isActive)
  isPublic := h.isPublic.trans (h.id ▸ h'.isPublic)

/-- More deeds allow more changes of a store. -/
theorem Store.Since.mono (hde : d.Among e) (h : x.Since d x') : x.Since e x' where
  id := h.id
  sellerId := h.sellerId
  slug := h.slug
  deletedAt := h.deletedAt
  name := h.name.mono fun _ ⟨q, hq, hv⟩ => ⟨q, hde.patchesStore _ q hq, hv⟩
  description := h.description.mono fun _ ⟨q, hq, hv⟩ => ⟨q, hde.patchesStore _ q hq, hv⟩
  isActive := h.isActive.mono fun _ ⟨q, hq, hv⟩ => ⟨q, hde.patchesStore _ q hq, hv⟩
  isPublic := h.isPublic.mono fun _ ⟨q, hq, hv⟩ => ⟨q, hde.patchesStore _ q hq, hv⟩

/-- Without any deed the catalog is as it was. -/
theorem CatalogSince.refl (d : Deeds) (s : Db) : CatalogSince d s s where
  sellers _ x hx := ⟨x, hx, rfl⟩
  products _ p hp := ⟨p, hp, .refl d p⟩
  productsNew _ p hnone hp := by
    rw [hnone] at hp
    cases hp
  stores _ x hx := ⟨x, hx, .refl d x⟩
  storesNew _ x hnone hx := by
    rw [hnone] at hx
    cases hx

/-- One change of the catalog after the other. -/
theorem CatalogSince.trans (h : CatalogSince d s t) (h' : CatalogSince d t u) :
    CatalogSince d s u where
  sellers id x hx := by
    obtain ⟨y, hy, huser⟩ := h.sellers id x hx
    obtain ⟨z, hz, huser'⟩ := h'.sellers id y hy
    exact ⟨z, hz, huser'.trans huser⟩
  products id p hp := by
    obtain ⟨p', hp', hsince⟩ := h.products id p hp
    obtain ⟨p'', hp'', hsince'⟩ := h'.products id p' hp'
    exact ⟨p'', hp'', hsince.trans hsince'⟩
  productsNew id p' hnone hp' := by
    cases hmid : t.products.get id with
    | none => exact h'.productsNew id p' hmid hp'
    | some m =>
      obtain ⟨p, hcreated, hsince⟩ := h.productsNew id m hnone hmid
      obtain ⟨m', hm', hsince'⟩ := h'.products id m hmid
      obtain rfl := Option.some.inj (hp'.symm.trans hm')
      exact ⟨p, hcreated, hsince.trans hsince'⟩
  stores id x hx := by
    obtain ⟨x', hx', hsince⟩ := h.stores id x hx
    obtain ⟨x'', hx'', hsince'⟩ := h'.stores id x' hx'
    exact ⟨x'', hx'', hsince.trans hsince'⟩
  storesNew id x' hnone hx' := by
    cases hmid : t.stores.get id with
    | none => exact h'.storesNew id x' hmid hx'
    | some m =>
      obtain ⟨x, hopened, hsince⟩ := h.storesNew id m hnone hmid
      obtain ⟨m', hm', hsince'⟩ := h'.stores id m hmid
      obtain rfl := Option.some.inj (hx'.symm.trans hm')
      exact ⟨x, hopened, hsince.trans hsince'⟩

/-- More deeds allow more changes of the catalog. -/
theorem CatalogSince.mono (hde : d.Among e) (h : CatalogSince d s t) : CatalogSince e s t where
  sellers := h.sellers
  products id p hp := by
    obtain ⟨p', hp', hsince⟩ := h.products id p hp
    exact ⟨p', hp', hsince.mono hde⟩
  productsNew id p' hnone hp' := by
    obtain ⟨p, hcreated, hsince⟩ := h.productsNew id p' hnone hp'
    exact ⟨p, hde.creates p hcreated, hsince.mono hde⟩
  stores id x hx := by
    obtain ⟨x', hx', hsince⟩ := h.stores id x hx
    exact ⟨x', hx', hsince.mono hde⟩
  storesNew id x' hnone hx' := by
    obtain ⟨x, hopened, hsince⟩ := h.storesNew id x' hnone hx'
    exact ⟨x, hde.opens x hopened, hsince.mono hde⟩

end Since

/-! ### What a request may do -/

/-- The caller has the profile of the seller. -/
def Db.SellerOf (db : Db) (caller : User) (sellerId : Id) : Prop :=
  ∃ seller, db.sellers.get sellerId = some seller ∧ seller.userId = caller.id

/-- The caller is the seller of the product, or an administrator. -/
def Db.MayEdit (db : Db) (caller : User) (productId : Id) : Prop :=
  ∃ p, db.products.get productId = some p ∧
    (caller.role = .admin ∨ caller.role = .seller ∧ db.SellerOf caller p.sellerId)

/-- The caller is the seller of the store. -/
def Db.OwnsStore (db : Db) (caller : User) (storeId : Id) : Prop :=
  ∃ x, db.stores.get storeId = some x ∧ db.SellerOf caller x.sellerId

/-- The product is the one that a request of the seller has created, in a store of its own. -/
def Db.Creates (db : Db) (caller : User) (env : Env) (name : String) (priceMinor : ℤ)
    (description : Option String) (stockQuantity : Option ℤ) (p : Product) : Prop :=
  ∃ seller store : Id, db.SellerOf caller seller ∧
    (∃ x, db.stores.get store = some x ∧ x.sellerId = seller) ∧
    p = ProductService.newProduct env { id := seller, userId := caller.id }
      { id := store, sellerId := seller } name priceMinor description stockQuantity

namespace Deeds

/-- Nothing has been done. -/
def nothing : Deeds where
  patches _ _ := False
  removes _ _ := False
  disables _ _ _ := False
  restores _ := False
  sells _ _ := False
  creates _ := False
  patchesStore _ _ := False
  opens _ := False

/-- Anything may have been done. -/
def anything : Deeds where
  patches _ _ := True
  removes _ _ := True
  disables _ _ _ := True
  restores _ := True
  sells _ _ := True
  creates _ := True
  patchesStore _ _ := True
  opens _ := True

end Deeds

/-- What the request does to the catalog, if its caller may do so. -/
def CatalogRequest.deeds (q : CatalogRequest) (db : Db) : Deeds :=
  match q.op with
  | .updateProduct productId patch _ => { Deeds.nothing with
      patches := fun id patch' => id = productId ∧ patch' = patch ∧ db.MayEdit q.caller productId }
  | .softDeleteProduct productId => { Deeds.nothing with
      removes := fun id now => id = productId ∧ now = q.env.now 0 ∧ db.MayEdit q.caller productId }
  | .disableProduct productId reason => { Deeds.nothing with
      disables := fun id reason' now => id = productId ∧ reason' = reason ∧ now = q.env.now 0 }
  | .restoreProduct productId => { Deeds.nothing with restores := fun id => id = productId }
  | .createProduct name priceMinor description stockQuantity _ _ => { Deeds.nothing with
      creates := db.Creates q.caller q.env name priceMinor description stockQuantity }
  | .updateOwnStore name _ description isActive isPublic => { Deeds.nothing with
      patchesStore := fun id patch =>
        patch = { name, description, isActive, isPublic } ∧ db.OwnsStore q.caller id }
  | .createStore name _ description _ isPublic => { Deeds.nothing with
      opens := fun x => ∃ slug, db.SellerOf q.caller x.sellerId ∧
        x = StoreService.newStore q.env x.sellerId name slug description isPublic }
  | _ => Deeds.nothing

/-- The call places an order, of so much of a product. -/
def ServiceCall.Sells : ServiceCall → Id → ℤ → Prop
  | .call { op := .createOrder items _, .. }, id, quantity => quantity = requested items id
  | _, _, _ => False

/-- What the request does to the catalog, if its caller may do so. -/
def AppRequest.deeds (q : AppRequest) (db : Db) : Deeds :=
  match q with
  | .service c => { Deeds.nothing with sells := c.Sells }
  | .catalog q => q.deeds db
  | _ => Deeds.nothing

/-- What the commit of the request makes of the stock of a product: an order takes its quantity, and
a patch may set another. -/
def AppRequest.StockMove (q : AppRequest) (id : Id) (n m : Option ℤ) : Prop :=
  match q with
  | .service (.call { op := .createOrder items _, .. }) =>
    m = n.map fun stock => stock - requested items id
  | .catalog { op := .updateProduct productId patch _, .. } =>
    m = n ∨ productId = id ∧ m ≠ none ∧ patch.stockQuantity = m
  | _ => m = n

/-- What it makes of the stock of every product. -/
def AppRequest.MovesStock (q : AppRequest) (s t : Db) : Prop :=
  ∀ id p, s.products.get id = some p →
    ∃ p', t.products.get id = some p' ∧ q.StockMove id p.stockQuantity p'.stockQuantity

/-- The stock of a product along the commits of a log. -/
inductive StockAlong {ι : Type} (requests : ι → AppRequest) (id : Id) (n : Option ℤ) :
    List (ι × AppReply) → Option ℤ → Prop
  | nil : StockAlong requests id n [] n
  | snoc {log m k} (e) (h : StockAlong requests id n log m)
      (hmove : (requests e.1).StockMove id m k) : StockAlong requests id n (log ++ [e]) k

section Deeds

variable {d : Deeds} {s t : Db} {caller : User}

/-- Deeds are among themselves. -/
theorem Deeds.Among.refl (d : Deeds) : d.Among d :=
  ⟨fun _ _ h => h, fun _ _ h => h, fun _ _ _ h => h, fun _ h => h, fun _ _ h => h, fun _ h => h,
    fun _ _ h => h, fun _ h => h⟩

/-- Among is transitive. -/
theorem Deeds.Among.trans {e g : Deeds} (h : d.Among e) (h' : e.Among g) : d.Among g :=
  ⟨fun id q hd => h'.patches id q (h.patches id q hd),
    fun id now hd => h'.removes id now (h.removes id now hd),
    fun id r now hd => h'.disables id r now (h.disables id r now hd),
    fun id hd => h'.restores id (h.restores id hd),
    fun id n hd => h'.sells id n (h.sells id n hd),
    fun p hd => h'.creates p (h.creates p hd),
    fun id q hd => h'.patchesStore id q (h.patchesStore id q hd),
    fun x hd => h'.opens x (h.opens x hd)⟩

/-- All deeds are among all that can be done. -/
theorem Deeds.among_anything (d : Deeds) : d.Among .anything :=
  ⟨fun _ _ _ => trivial, fun _ _ _ => trivial, fun _ _ _ _ => trivial, fun _ _ => trivial,
    fun _ _ _ => trivial, fun _ _ => trivial, fun _ _ _ => trivial, fun _ _ => trivial⟩

/-- Nothing is among all deeds. -/
theorem Deeds.nothing_among (d : Deeds) : Deeds.nothing.Among d :=
  ⟨nofun, nofun, nofun, nofun, nofun, nofun, nofun, nofun⟩

/-- Who is a seller stays one. -/
theorem CatalogSince.sellerOf (h : CatalogSince d s t) {sellerId : Id}
    (hs : s.SellerOf caller sellerId) : t.SellerOf caller sellerId := by
  obtain ⟨x, hx, huser⟩ := hs
  obtain ⟨x', hx', huser'⟩ := h.sellers _ x hx
  exact ⟨x', hx', huser'.trans huser⟩

/-- A store stays, and stays with its seller. -/
theorem CatalogSince.storeOf (h : CatalogSince d s t) {store sellerId : Id}
    (hs : ∃ x, s.stores.get store = some x ∧ x.sellerId = sellerId) :
    ∃ x, t.stores.get store = some x ∧ x.sellerId = sellerId := by
  obtain ⟨x, hx, hseller⟩ := hs
  obtain ⟨x', hx', hsince⟩ := h.stores _ x hx
  exact ⟨x', hx', hsince.sellerId.trans hseller⟩

/-- Who may edit a product may do so later. -/
theorem CatalogSince.mayEdit (h : CatalogSince d s t) {productId : Id}
    (hs : s.MayEdit caller productId) : t.MayEdit caller productId := by
  obtain ⟨p, hp, hrole⟩ := hs
  obtain ⟨p', hp', hsince⟩ := h.products _ p hp
  refine ⟨p', hp', hrole.imp_right fun hseller => ⟨hseller.1, ?_⟩⟩
  rw [hsince.sellerId]
  exact h.sellerOf hseller.2

/-- Who owns a store owns it later. -/
theorem CatalogSince.ownsStore (h : CatalogSince d s t) {storeId : Id}
    (hs : s.OwnsStore caller storeId) : t.OwnsStore caller storeId := by
  obtain ⟨x, hx, hseller⟩ := hs
  obtain ⟨x', hx', hsince⟩ := h.stores _ x hx
  refine ⟨x', hx', ?_⟩
  rw [hsince.sellerId]
  exact h.sellerOf hseller

/-- Who may create a product in a store may do so later. -/
theorem CatalogSince.creates (h : CatalogSince d s t) {env : Env} {name : String} {priceMinor : ℤ}
    {description : Option String} {stockQuantity : Option ℤ} {p : Product}
    (hs : s.Creates caller env name priceMinor description stockQuantity p) :
    t.Creates caller env name priceMinor description stockQuantity p := by
  obtain ⟨seller, store, hseller, hstore, hp⟩ := hs
  exact ⟨seller, store, h.sellerOf hseller, h.storeOf hstore, hp⟩

/-- Who may do something may do so later. -/
theorem CatalogSince.deeds (h : CatalogSince d s t) (q : AppRequest) :
    (q.deeds s).Among (q.deeds t) := by
  cases q with
  | catalog q =>
    obtain ⟨caller, op, env⟩ := q
    cases op with
    | updateProduct productId patch images =>
      exact { Deeds.Among.refl _ with
        patches := fun _ _ ⟨hid, hpatch, hmay⟩ => ⟨hid, hpatch, h.mayEdit hmay⟩ }
    | softDeleteProduct productId =>
      exact { Deeds.Among.refl _ with
        removes := fun _ _ ⟨hid, hnow, hmay⟩ => ⟨hid, hnow, h.mayEdit hmay⟩ }
    | createProduct name priceMinor description stockQuantity images storeId =>
      exact { Deeds.Among.refl _ with creates := fun _ hp => h.creates hp }
    | updateOwnStore name city description isActive isPublic =>
      exact { Deeds.Among.refl _ with
        patchesStore := fun _ _ ⟨hpatch, howns⟩ => ⟨hpatch, h.ownsStore howns⟩ }
    | createStore name city description slug isPublic =>
      exact { Deeds.Among.refl _ with
        opens := fun _ ⟨slug, hseller, hx⟩ => ⟨slug, h.sellerOf hseller, hx⟩ }
    | _ => exact .refl _
  | _ => exact .refl _

/-- A request that places no order moves the stock of a product by a patch, if at all. -/
theorem CatalogSince.movesStock {q : AppRequest} (h : CatalogSince (q.deeds s) s t)
    (hq : ∀ id quantity, ¬(q.deeds s).sells id quantity) : q.MovesStock s t := by
  intro id p hp
  obtain ⟨p', hp', hsince⟩ := h.products id p hp
  obtain rfl : p.id = id := Table.key_of_get hp
  refine ⟨p', hp', ?_⟩
  have hstock := hsince.stockQuantity
  generalize p.stockQuantity = n at hstock
  generalize p'.stockQuantity = m at hstock
  cases hstock with
  | refl =>
    unfold AppRequest.StockMove
    split
    · exact absurd rfl (hq p.id _)
    · exact .inl rfl
    · rfl
  | sold _ hsold _ => exact absurd hsold (hq _ _)
  | @patched patch stock hpatch hstock =>
    cases q with
    | catalog q =>
      obtain ⟨caller, op, env⟩ := q
      cases op with
      | updateProduct productId patch' images =>
        obtain ⟨hid, rfl, -⟩ := hpatch
        exact .inr ⟨hid.symm, Option.some_ne_none stock, hstock⟩
      | _ => exact hpatch.elim
    | _ => exact hpatch.elim

end Deeds

/-! ### What the requests write -/

/-- The tables of the catalog are the same. -/
structure SameCatalog (s t : Db) : Prop where
  products : t.products = s.products
  stores : t.stores = s.stores
  sellers : t.sellers = s.sellers

/-- A write that does only such deeds. -/
inductive DeedWrite (d : Deeds) : Key → (Db → Db) → Prop
  | aside {key f} (hf : ∀ s, SameCatalog s (f s)) : DeedWrite d key f
  | city (id city loaded) : DeedWrite d (.seller id) fun db =>
      db.modifySeller id (Seller.setCity city loaded)
  | product (id f) (hid : ∀ p : Product, (f p).id = p.id)
      (hf : ∀ p : Product, p.id = id → p.Since d (f p)) :
      DeedWrite d (.product id) fun db => db.modifyProduct id f
  | addProduct (p) (hp : d.creates p) : DeedWrite d (.product p.id) fun db => db.addProduct p
  | store (id f) (hid : ∀ x : Store, (f x).id = x.id)
      (hf : ∀ x : Store, x.id = id → x.Since d (f x)) :
      DeedWrite d (.store id) fun db => db.modifyStore id f
  | addStore (x) (hx : d.opens x) : DeedWrite d (.store x.id) fun db => db.addStore x

section Writes

variable {d : Deeds} {key : Key} {f : Db → Db}

/-- A catalog that is the same is one after any deeds. -/
theorem SameCatalog.since {s t : Db} (h : SameCatalog s t) (d : Deeds) : CatalogSince d s t where
  sellers _ x hx := ⟨x, by rwa [h.sellers], rfl⟩
  products _ p hp := ⟨p, by rwa [h.products], .refl d p⟩
  productsNew _ p hnone hp := by
    rw [h.products, hnone] at hp
    cases hp
  stores _ x hx := ⟨x, by rwa [h.stores], .refl d x⟩
  storesNew _ x hnone hx := by
    rw [h.stores, hnone] at hx
    cases hx

/-- Each write does what it says. -/
theorem DeedWrite.since (h : DeedWrite d key f) (s : Db) : CatalogSince d s (f s) := by
  have hnot : ∀ {α : Type} {x : α} {o : Option α}, o = none → o ≠ some x := fun ho hx => by
    rw [ho] at hx
    cases hx
  have hsame := CatalogSince.refl d s
  cases h with
  | aside hf => exact (hf s).since d
  | city id city loaded =>
    refine { hsame with sellers := fun id' x hx => ?_ }
    have hget : (s.modifySeller id (Seller.setCity city loaded)).sellers.get id' = _ :=
      Table.get_modify s.sellers id (Seller.setCity_id city loaded) id'
    rw [hx] at hget
    split at hget
    · exact ⟨_, hget, rfl⟩
    · exact ⟨x, hget, rfl⟩
  | product id f hid hf =>
    have hget : ∀ id', (s.modifyProduct id f).products.get id' = _ :=
      fun id' => Table.get_modify s.products id hid id'
    refine { hsame with products := fun id' p hp => ?_, productsNew := fun id' p hnone hp => ?_ }
    · have hnow := hget id'
      rw [hp] at hnow
      split at hnow
      · next heq => exact ⟨f p, hnow, hf p ((Table.key_of_get hp).trans heq)⟩
      · exact ⟨p, hnow, .refl d p⟩
    · have hnow := hget id'
      rw [hnone, Option.map_none, ite_self] at hnow
      exact absurd hp (hnot hnow)
  | addProduct p hp =>
    refine { hsame with products := fun id' x hx => ?_, productsNew := fun id' x hnone hx => ?_ }
    · exact ⟨x, Table.get_insert_of_some hx, .refl d x⟩
    · rcases Table.get_of_insert hx with rfl | hold
      · exact ⟨x, hp, .refl d x⟩
      · exact absurd hold (hnot hnone)
  | store id f hid hf =>
    have hget : ∀ id', (s.modifyStore id f).stores.get id' = _ :=
      fun id' => Table.get_modify s.stores id hid id'
    refine { hsame with stores := fun id' x hx => ?_, storesNew := fun id' x hnone hx => ?_ }
    · have hnow := hget id'
      rw [hx] at hnow
      split at hnow
      · next heq => exact ⟨f x, hnow, hf x ((Table.key_of_get hx).trans heq)⟩
      · exact ⟨x, hnow, .refl d x⟩
    · have hnow := hget id'
      rw [hnone, Option.map_none, ite_self] at hnow
      exact absurd hx (hnot hnow)
  | addStore x hx =>
    refine { hsame with stores := fun id' y hy => ?_, storesNew := fun id' y hnone hy => ?_ }
    · exact ⟨y, Table.get_insert_of_some hy, .refl d y⟩
    · rcases Table.get_of_insert hy with rfl | hold
      · exact ⟨y, hx, .refl d y⟩
      · exact absurd hold (hnot hnone)

/-- Each write holds the row of the product that it changes. -/
theorem DeedWrite.frame (h : DeedWrite d key f) (s : Db) {key' : Key} (hne : key' ≠ key) :
    productLocking.agree key' s (f s) := by
  cases key' with
  | product id' =>
    cases h with
    | aside hf => exact congrArg (fun t => t.get id') (hf s).products
    | product id f hid hf =>
      have hget : (s.modifyProduct id f).products.get id' = _ :=
        Table.get_modify s.products id hid id'
      exact hget.trans (if_neg fun heq => hne (congrArg Key.product heq))
    | addProduct p hp =>
      exact Table.get_insert_of_ne _ fun heq => hne (congrArg Key.product heq)
    | _ => rfl
  | _ => trivial

end Writes

/-! ### Requests that do not edit the catalog -/

section Aside

variable {d : Deeds} {key : Key} {f : Db → Db}

/-- The writes of the order service change no product and no store, but for stock. -/
theorem ServiceWrite.aside {K : List WriteKind} (h : ServiceWrite K key f) :
    DeedWrite d key f := by
  refine .aside fun s => ?_
  cases h with
  | order h => cases h <;> exact ⟨rfl, rfl, rfl⟩
  | setSettings ps => exact ⟨rfl, rfl, rfl⟩

/-- Neither do the writes of the requests about accounts. -/
theorem AuthWrite.aside {A : (User → User) → Prop} (h : AuthWrite A key f) : DeedWrite d key f := by
  refine .aside fun s => ?_
  cases h with
  | quiet h => cases h <;> exact ⟨rfl, rfl, rfl⟩
  | _ => exact ⟨rfl, rfl, rfl⟩

/-- Nor those of the conversations. -/
theorem MessagingWrite.aside (h : MessagingWrite key f) : DeedWrite d key f := by
  refine .aside fun s => ?_
  cases h with
  | chat h => cases h <;> exact ⟨rfl, rfl, rfl⟩
  | _ => exact ⟨rfl, rfl, rfl⟩

/-- Nor those of the keys. -/
theorem KeyWrite.aside (h : KeyWrite key f) : DeedWrite d key f :=
  .aside fun s => by cases h <;> exact ⟨rfl, rfl, rfl⟩

end Aside

/-! ### Requests that edit it -/

section Edits

variable {sha256 lower : String → String} {d : Deeds} {caller : User} {env : Env} {K : Db → Prop}
  {facts : List (Key × Db)} {α : Type}

/-- What a request does to the catalog, whatever the others do meanwhile. -/
abbrev DoneBy (q : AppRequest) : (Db → Prop) → List (Key × Db) → (Db → Db) → α → Prop :=
  RelyOk productLocking (fun _ => True) fun _ s t =>
    CatalogSince .anything s t ∧ CatalogSince (q.deeds s) s t

/-- A program with such writes, once it is known that the caller may do such deeds. -/
theorem wpr_deeds {p : Tx α} {q : AppRequest} (hp : p.Writes (DeedWrite d))
    (hK : ∀ s, K s → d.Among (q.deeds s)) :
    p.wpr productLocking (fun _ => True) (CatalogSince .anything) (DoneBy q) K facts id := by
  have heffect : p.wpr productLocking (fun _ => True) (CatalogSince .anything) _ K facts id :=
    wpr_of_writes (E := CatalogSince d) (fun _ _ _ => CatalogSince.trans) (fun _ _ h => h.since)
      (fun _ _ h s _ hne => h.frame s hne) (hp _) (CatalogSince.refl d)
      fun s key _ => productLocking.refl key s
  refine wpr_mono (fun K' facts w a hpost s _ hs _ => ?_) (wpr_and heffect (wpr_known hK))
  obtain ⟨⟨hsince, hframe⟩, hmay⟩ := hpost
  exact ⟨trivial, ⟨(hsince s).mono d.among_anything, (hsince s).mono (hmay s hs)⟩, hframe s⟩

/-- What a request does to the catalog, and what it makes of the stock. -/
abbrev Moves (q : AppRequest) : (Db → Prop) → List (Key × Db) → (Db → Db) → α → Prop :=
  RelyOk productLocking (fun _ => True) fun _ s t =>
    CatalogSince .anything s t ∧ CatalogSince (q.deeds s) s t ∧ q.MovesStock s t

/-- A request that places no order. -/
theorem wpr_moves {p : Tx α} {q : AppRequest} (hq : ∀ s id quantity, ¬(q.deeds s).sells id quantity)
    (h : p.wpr productLocking (fun _ => True) (CatalogSince .anything) (DoneBy q) K facts id) :
    p.wpr productLocking (fun _ => True) (CatalogSince .anything) (Moves q) K facts id := by
  refine wpr_mono (fun K' facts w a hok s hI hs hknown => ?_) h
  obtain ⟨-, ⟨hany, hsince⟩, hframe⟩ := hok s hI hs hknown
  exact ⟨trivial, ⟨hany, hsince, hsince.movesStock (hq s)⟩, hframe⟩

/-- A program that does nothing to the catalog. -/
theorem wpr_aside {p : Tx α} {q : AppRequest} (hq : ∀ s id quantity, ¬(q.deeds s).sells id quantity)
    (hp : p.Writes (DeedWrite .nothing)) :
    p.wpr productLocking (fun _ => True) (CatalogSince .anything) (Moves q) K facts id :=
  wpr_moves hq (wpr_deeds hp fun _ _ => Deeds.nothing_among _)

variable {Post : (Db → Prop) → List (Key × Db) → (Db → Db) → α → Prop}

/-- The profile that a seller has is its own from then on. -/
theorem wpr_callerSeller {f : Seller → Tx α}
    (h : ∀ (seller : Seller) (K' : Db → Prop), (∀ s, K' s → K s ∧ s.SellerOf caller seller.id) →
      (f seller).wpr productLocking (fun _ => True) (CatalogSince .anything) Post K' facts id) :
    (getCallerSeller caller >>= f).wpr productLocking (fun _ => True) (CatalogSince .anything)
      Post K facts id := by
  simp only [getCallerSeller, bind_eq, wpr_bind, wpr_read, wpr_scalarOneOrNone, wpr_getOrRaise, id]
  rintro s _ hs _ _ hrows seller rfl
  have hmem : seller ∈
      s.sellers.rows.filter fun x => x.userId = caller.id ∧ x.deletedAt = none := by
    rw [hrows]
    exact List.mem_singleton_self seller
  obtain ⟨hrow, huser⟩ := List.mem_filter.mp hmem
  have hseller : s.SellerOf caller seller.id :=
    ⟨seller, Table.mem_rows_iff.mp hrow, (of_decide_eq_true huser).1⟩
  exact h seller _ fun t ht => ⟨ht.1, ht.2.sellerOf hseller⟩

/-- The store of the caller is its own from then on. -/
theorem wpr_callerStore {seller : Seller} {missing : Err} {f : Store → Tx α}
    (h : ∀ (store : Store) (K' : Db → Prop), (∀ s, K' s → K s ∧
        ∃ x, s.stores.get store.id = some x ∧ x.sellerId = seller.id) →
      (f store).wpr productLocking (fun _ => True) (CatalogSince .anything) Post K' facts id) :
    (StoreService.getCallerStore seller missing >>= f).wpr productLocking (fun _ => True)
      (CatalogSince .anything) Post K facts id := by
  simp only [StoreService.getCallerStore, bind_eq, wpr_bind, wpr_read, wpr_scalarOneOrNone,
    wpr_getOrRaise, id]
  rintro s _ hs _ _ hrows store rfl
  have hmem : store ∈ s.storesOf seller.id := by
    rw [hrows]
    exact List.mem_singleton_self store
  obtain ⟨hrow, hown⟩ := List.mem_filter.mp hmem
  exact h store _ fun t ht =>
    ⟨ht.1, ht.2.storeOf ⟨store, Table.mem_rows_iff.mp hrow, (of_decide_eq_true hown).1⟩⟩

/-- Who may edit a product may do so from then on. -/
theorem wpr_mayEdit {product : Product} {f : Unit → Tx α}
    (hK : ∀ s, K s → ∃ p, s.products.get product.id = some p ∧ p.sellerId = product.sellerId)
    (h : ∀ K' : Db → Prop, (∀ s, K' s → s.MayEdit caller product.id) →
      (f ()).wpr productLocking (fun _ => True) (CatalogSince .anything) Post K' facts id) :
    (ProductService.ensureMayEdit caller product >>= f).wpr productLocking (fun _ => True)
      (CatalogSince .anything) Post K facts id := by
  unfold ProductService.ensureMayEdit
  cases hrole : caller.role with
  | admin =>
    refine h K fun s hs => ?_
    obtain ⟨p, hp, -⟩ := hK s hs
    exact ⟨p, hp, .inl hrole⟩
  | seller =>
    rw [bind_eq, bind_eq, bind_assoc]
    refine wpr_callerSeller fun seller K' hK' => wpr_bind.mpr (wpr_raiseIf.mpr fun hown => ?_)
    refine h K' fun s hs => ?_
    obtain ⟨hsK, hseller⟩ := hK' s hs
    obtain ⟨p, hp, hsame⟩ := hK s hsK
    refine ⟨p, hp, .inr ⟨hrole, ?_⟩⟩
    rwa [hsame, Decidable.not_not.mp hown]
  | customer => trivial
  | driver => trivial

/-- What is read of a product is so when it is read. -/
theorem wpr_loadProduct {productId : Id} {f : Option ProductFull → Tx α}
    (h : ∀ s, (f ((s.products.get productId).map fun product =>
        { product, images := s.imagesOf productId })).wpr productLocking (fun _ => True)
      (CatalogSince .anything) Post (fun t => K t ∧ CatalogSince .anything s t) facts id) :
    (ProductService.loadProductWithImages productId >>= f).wpr productLocking (fun _ => True)
      (CatalogSince .anything) Post K facts id :=
  wpr_bind.mpr (wpr_bind.mpr fun s _ _ _ => h s)

/-- Images are no deeds. -/
theorem deeds_insertImages (is : List ProductImage) : (insertImages is).Writes (DeedWrite d) := by
  induction is with
  | nil => exact .pure _
  | cons i is ih =>
    exact .bind (writes_insertRow (.aside fun _ => ⟨rfl, rfl, rfl⟩)) fun _ => ih

/-- Their deletion is none either. -/
theorem deeds_deleteImages (is : List ProductImage) : (deleteImages is).Writes (DeedWrite d) := by
  induction is with
  | nil => exact .pure _
  | cons i is ih => exact .bind (.updateRow (.aside fun _ => ⟨rfl, rfl, rfl⟩)) fun _ => ih

/-- Nor is their replacement. -/
theorem deeds_replaceImages (productId : Id) (old : List ProductImage)
    (images : Option (List ImageSpec)) :
    (ProductService.replaceImages env productId old images).Writes (DeedWrite d) := by
  cases images with
  | none => exact .pure _
  | some images =>
    exact .bind (deeds_deleteImages _) fun _ => .bind (deeds_insertImages _) fun _ => .pure _

/-! ### The changes of a product -/

/-- A patch changes what it gives, whatever has been loaded before. -/
theorem Product.patch_since {q : ProductPatch} {loaded p : Product} (h : d.patches p.id q) :
    p.Since d (Product.patch q loaded p) :=
  { Product.Since.refl d p with
    name := written_assign fun hne => ⟨q, h, eq_some_of_getD_ne hne⟩
    description := written_assign fun hne => ⟨q, h, eq_some_of_getD_ne hne⟩
    priceMinor := written_assign fun hne => ⟨q, h, eq_some_of_getD_ne hne⟩
    isActive := written_assign fun hne => .inl ⟨q, h, eq_some_of_getD_ne hne⟩
    stockQuantity := by
      change StockSince d p.id p.stockQuantity (assign loaded.stockQuantity
        (q.stockQuantity.or loaded.stockQuantity) p.stockQuantity)
      unfold assign
      split
      · exact .refl
      · next hne =>
        cases hstock : q.stockQuantity with
        | none =>
          rw [hstock, Option.none_or] at hne
          exact absurd rfl hne
        | some stock => exact .patched h hstock }

/-- A deletion marks the product as deleted. -/
theorem Product.softDelete_since {now : Time} {loaded p : Product} (h : d.removes p.id now) :
    p.Since d (Product.softDelete now loaded p) :=
  { Product.Since.refl d p with
    isActive := written_assign fun _ => .inr ⟨rfl, now, h⟩
    deletedAt := .inr ⟨now, h, rfl⟩ }

/-- A product is disabled with its reason. -/
theorem Product.disable_since {now : Time} {reason : String} {loaded p : Product}
    (h : d.disables p.id reason now) : p.Since d (Product.disable now reason loaded p) :=
  { Product.Since.refl d p with
    status := written_assign fun _ => .inl ⟨rfl, reason, now, h⟩
    disabledAt := written_assign fun _ => .inl ⟨reason, now, h, rfl⟩
    disabledReason := written_assign fun _ => .inl ⟨reason, now, h, rfl⟩ }

/-- A product is restored. -/
theorem Product.restore_since {loaded p : Product} (h : d.restores p.id) :
    p.Since d (Product.restore loaded p) :=
  { Product.Since.refl d p with
    status := written_assign fun _ => .inr ⟨rfl, h⟩
    disabledAt := written_assign fun _ => .inr ⟨rfl, h⟩
    disabledReason := written_assign fun _ => .inr ⟨rfl, h⟩ }

/-- A patch of a store changes what it gives. -/
theorem Store.patch_since {name description : Option String} {isActive isPublic : Option Bool}
    {loaded x : Store} (h : d.patchesStore x.id { name, description, isActive, isPublic }) :
    x.Since d (Store.patch name description isActive isPublic loaded x) :=
  { Store.Since.refl d x with
    name := written_assign fun hne => ⟨_, h, eq_some_of_getD_ne hne⟩
    description := written_assign fun hne => ⟨_, h, eq_some_of_getD_ne hne⟩
    isActive := written_assign fun hne => ⟨_, h, eq_some_of_getD_ne hne⟩
    isPublic := written_assign fun hne => ⟨_, h, eq_some_of_getD_ne hne⟩ }

/-! ### Every request -/

/-- `create_store` adds a store of the caller. -/
theorem createStore_done (name city : String) (description slug : Option String)
    (isPublic : Bool) :
    (StoreService.createStore lower env caller name city description slug isPublic).wpr
      productLocking (fun _ => True) (CatalogSince .anything)
      (DoneBy (.catalog ⟨caller, .createStore name city description slug isPublic, env⟩))
      K [] id := by
  refine wpr_bind.mpr (wpr_raiseIf.mpr fun _ => wpr_bind.mpr (wpr_raiseIf.mpr fun _ => ?_))
  refine wpr_callerSeller fun seller K' hK' => wpr_deeds (d := { Deeds.nothing with
    opens := fun x => x.sellerId = seller.id ∧
      ∃ slug, x = StoreService.newStore env seller.id name slug description isPublic }) ?_ ?_
  · refine .bind .read fun _ => .bind (writes_scalarOneOrNone _) fun _ => .bind (.raiseIf _ _)
      fun _ => .bind (.updateRow (.city _ _ _)) fun _ => .bind .read fun _ => ?_
    exact .bind (writes_uniqueSlug _ _ _) fun slug =>
      .bind (insertStore_writes (.addStore _ ⟨rfl, slug, rfl⟩)) fun _ => .pure _
  · exact fun s hs => { Deeds.Among.refl _ with
      opens := fun x ⟨hseller, slug, hx⟩ => ⟨slug, hseller ▸ (hK' s hs).2, hseller ▸ hx⟩ }

/-- `update_own_store` patches the store of the caller. -/
theorem updateOwnStore_done (name city description : Option String)
    (isActive isPublic : Option Bool) :
    (StoreService.updateOwnStore caller name city description isActive isPublic).wpr productLocking
      (fun _ => True) (CatalogSince .anything) (DoneBy (.catalog
        ⟨caller, .updateOwnStore name city description isActive isPublic, env⟩)) K [] id := by
  refine wpr_callerSeller fun seller K' hK' => wpr_callerStore fun store K'' hK'' =>
    wpr_deeds (d := { Deeds.nothing with
      patchesStore := fun id q => id = store.id ∧ q = { name, description, isActive, isPublic } })
      ?_ ?_
  · refine .bind (.raiseIf _ _) fun _ => .bind ?_ fun _ => .bind (.updateRow (.store _ _
      (fun _ => rfl) fun x hx => Store.patch_since ⟨hx, rfl⟩)) fun _ => .bind .read fun _ =>
      .getOrRaise _ _
    cases city with
    | none => exact .pure _
    | some city => exact .bind (.raiseIf _ _) fun _ => .updateRow (.city _ _ _)
  · refine fun s hs => { Deeds.Among.refl _ with patchesStore := fun id q ⟨hid, hq⟩ => ⟨hq, ?_⟩ }
    obtain ⟨hs', x, hx, hown⟩ := hK'' s hs
    rw [hid]
    exact ⟨x, hx, hown ▸ (hK' s hs').2⟩

/-- `create_product` adds a product to a store of the caller. -/
theorem createProduct_done (name : String) (priceMinor : ℤ) (description : Option String)
    (stockQuantity : Option ℤ) (images : List ImageSpec) (storeId : Option Id) :
    (ProductService.createProduct env caller name priceMinor description stockQuantity images
      storeId).wpr productLocking (fun _ => True) (CatalogSince .anything) (DoneBy (.catalog
        ⟨caller, .createProduct name priceMinor description stockQuantity images storeId, env⟩))
      K [] id := by
  refine wpr_callerSeller fun seller K' hK' => wpr_callerStore fun store K'' hK'' =>
    wpr_deeds (d := { Deeds.nothing with
      creates := fun p => p =
        ProductService.newProduct env seller store name priceMinor description stockQuantity })
      ?_ ?_
  · exact .bind (.raiseIf _ _) fun _ => .bind (.bind (writes_checkProduct _ _) fun _ =>
      writes_insertRow (.addProduct _ rfl)) fun _ => .bind (deeds_insertImages _) fun _ =>
      .bind (.bind .read fun _ => .pure _) fun _ => .getOrRaise _ _
  · refine fun s hs => { Deeds.Among.refl _ with creates := fun p hp => ?_ }
    obtain ⟨hs', hstore⟩ := hK'' s hs
    exact ⟨seller.id, store.id, (hK' s hs').2, hstore, hp⟩

/-- `update_product` patches a product that the caller may edit. -/
theorem updateProduct_done (productId : Id) (q : ProductPatch)
    (images : Option (List ImageSpec)) :
    (ProductService.updateProduct env caller productId q images).wpr productLocking (fun _ => True)
      (CatalogSince .anything) (DoneBy (.catalog ⟨caller, .updateProduct productId q images, env⟩))
      K [] id := by
  refine wpr_loadProduct fun s => wpr_bind.mpr (wpr_getOrRaise.mpr fun full hfull => ?_)
  obtain ⟨p, hp, rfl⟩ := Option.map_eq_some_iff.mp hfull
  obtain rfl : p.id = productId := Table.key_of_get hp
  refine wpr_bind.mpr (wpr_raiseIf.mpr fun _ => wpr_mayEdit (fun t ht => ?_) fun K' hK' => ?_)
  · obtain ⟨p', hp', hsince⟩ := ht.2.products _ p hp
    exact ⟨p', hp', hsince.sellerId⟩
  · refine wpr_deeds (d := { Deeds.nothing with
      patches := fun id patch => id = p.id ∧ patch = q }) ?_ ?_
    · exact .bind (.bind (writes_checkProduct _ _) fun _ => .updateRow (.product _ _
        (Product.patch_id q p) fun x hx => Product.patch_since ⟨hx, rfl⟩)) fun _ =>
        .bind (deeds_replaceImages _ _ _) fun _ => .pure _
    · exact fun s hs => { Deeds.Among.refl _ with
        patches := fun id patch ⟨hid, hpatch⟩ => ⟨hid, hpatch, hK' s hs⟩ }

/-- `soft_delete_product` deletes a product that the caller may edit. -/
theorem softDeleteProduct_done (productId : Id) :
    (ProductService.softDeleteProduct env caller productId).wpr productLocking (fun _ => True)
      (CatalogSince .anything) (DoneBy (.catalog ⟨caller, .softDeleteProduct productId, env⟩))
      K [] id := by
  refine wpr_bind.mpr fun s _ hs _ => wpr_bind.mpr (wpr_getOrRaise.mpr fun p hp => ?_)
  obtain rfl : p.id = productId := Table.key_of_get hp
  refine wpr_bind.mpr (wpr_raiseIf.mpr fun _ => wpr_mayEdit (fun t ht => ?_) fun K' hK' => ?_)
  · obtain ⟨p', hp', hsince⟩ := ht.2.products _ p hp
    exact ⟨p', hp', hsince.sellerId⟩
  · refine wpr_deeds (d := { Deeds.nothing with
      removes := fun id now => id = p.id ∧ now = env.now 0 }) ?_ ?_
    · exact .updateRow (.product _ _ (Product.softDelete_id _ p) fun x hx =>
        Product.softDelete_since ⟨hx, rfl⟩)
    · exact fun s hs => { Deeds.Among.refl _ with
        removes := fun id now ⟨hid, hnow⟩ => ⟨hid, hnow, hK' s hs⟩ }

/-- The product that a moderator finds. -/
theorem wpr_liveProduct {productId : Id} {f : Product → Tx α}
    (h : ∀ (p : Product) (K' : Db → Prop), p.id = productId →
      (f p).wpr productLocking (fun _ => True) (CatalogSince .anything) Post K' facts id) :
    (AdminService.liveProduct productId >>= f).wpr productLocking (fun _ => True)
      (CatalogSince .anything) Post K facts id :=
  wpr_bind.mpr (wpr_bind.mpr fun _ _ _ _ => wpr_bind.mpr (wpr_getOrRaise.mpr fun p hp =>
    wpr_bind.mpr (wpr_raiseIf.mpr fun _ => h p _ (Table.key_of_get hp))))

/-- `disable_product` of the admin panel. -/
theorem disableProduct_done (productId : Id) (reason : String) :
    (AdminService.disableProduct env productId reason).wpr productLocking (fun _ => True)
      (CatalogSince .anything) (DoneBy (.catalog ⟨caller, .disableProduct productId reason, env⟩))
      K [] id := by
  refine wpr_liveProduct fun p K' hid => wpr_deeds (d := { Deeds.nothing with
    disables := fun id r now => id = productId ∧ r = reason ∧ now = env.now 0 }) ?_ ?_
  · exact .bind (.updateRow (.product _ _ (Product.disable_id _ _ p) fun x hx =>
      Product.disable_since ⟨hx.trans hid, rfl, rfl⟩)) fun _ => writes_refreshProduct _
  · exact fun _ _ => .refl _

/-- `restore_product` of the admin panel. -/
theorem restoreProduct_done (productId : Id) :
    (AdminService.restoreProduct productId).wpr productLocking (fun _ => True)
      (CatalogSince .anything) (DoneBy (.catalog ⟨caller, .restoreProduct productId, env⟩))
      K [] id := by
  refine wpr_liveProduct fun p K' hid => wpr_deeds (d := { Deeds.nothing with
    restores := fun id => id = productId }) ?_ ?_
  · exact .bind (.updateRow (.product _ _ (Product.restore_id p) fun x hx =>
      Product.restore_since (hx.trans hid))) fun _ => writes_refreshProduct _
  · exact fun _ _ => .refl _

/-- The decrement of an order that has locked its products. -/
theorem LinesOf.since {s : Db} {items : List LineItem} {lines : List (Product × ℤ)}
    (h : LinesOf s lines) (hpairs : linePairs lines = qtyById items)
    (henough : ∀ l ∈ lines, ∀ stock, l.1.stockQuantity = some stock → l.2 ≤ stock) :
    CatalogSince { Deeds.nothing with sells := fun id quantity => quantity = requested items id } s
      (takeStock s lines) := by
  rw [takeStock_eq]
  refine { CatalogSince.refl _ s with
    products := fun id p hp => ⟨_, h.get_takeStock hp, ?_⟩
    productsNew := fun id p hnone hp => ?_ }
  · refine { Product.Since.refl _ p with stockQuantity := ?_ }
    obtain rfl : p.id = id := Table.key_of_get hp
    by_cases hmem : p.id ∈ (linePairs lines).map Prod.fst
    · obtain ⟨pair, hpair, hpid⟩ := List.mem_map.mp hmem
      obtain ⟨l, hl, rfl⟩ := List.mem_map.mp hpair
      have hfound : s.products.get p.id = some l.1 := (congrArg s.products.get hpid) ▸ h.found l hl
      obtain rfl : l.1 = p := Option.some.inj (hfound.symm.trans hp)
      have hquantity : quantityOf (linePairs lines) l.1.id = l.2 :=
        quantityOf_of_mem h.distinct hpair
      cases hstock : l.1.stockQuantity with
      | none =>
        rw [Product.taken, hstock]
        exact .refl
      | some n =>
        rw [Product.taken, hstock]
        refine .sold .refl ?_ (hquantity ▸ henough l hl n hstock)
        exact hpairs ▸ quantityOf_qtyById items l.1.id
    · rw [quantityOf_of_not_mem hmem, Product.taken_zero]
      exact .refl
  · rw [get_takeStock_eq_none.mpr hnone] at hp
    cases hp

/-- An order takes what it asks for, whatever the others do to the catalog meanwhile. -/
theorem createOrder_done (items : List LineItem) (address : Address) :
    (createOrder env caller items address).wpr productLocking (fun _ => True)
      (CatalogSince .anything) (Moves (.service (.call ⟨caller, .createOrder items address, env⟩)))
      K [] id := by
  have hplaced : (createOrder env caller items address).wp productLocking (fun _ => True)
      (fun facts w _ => ∀ s, productLocking.Known facts s →
        CatalogSince (AppRequest.deeds (.service
          (.call ⟨caller, .createOrder items address, env⟩)) s) s (w s) ∧
        AppRequest.MovesStock (.service (.call ⟨caller, .createOrder items address, env⟩)) s (w s) ∧
        ∀ key, (∀ f ∈ facts, f.1 ≠ key) → productLocking.agree key s (w s)) [] id := by
    refine wp_takeStock fun facts products lines seller _ hlocked hpairs henough => ?_
    refine wp_mono ?_ (Writes.wp_since (R := SameCatalog) (P := fun _ f => ∀ s, SameCatalog s (f s))
      (fun _ => ⟨rfl, rfl, rfl⟩) ?_ (fun _ _ hf => hf) ?_)
    · rintro facts' w - ⟨hsub, hrest⟩ s hs
      have hlines : LinesOf s lines :=
        ⟨hpairs ▸ nodup_keys_qtyById items, fun l hl => ((hlocked l hl).mono hsub).found hs⟩
      refine ⟨(hlines.since hpairs henough).trans ((hrest s).since _), fun id p hp => ?_,
        fun key hkey => ?_⟩
      · rw [(hrest s).products]
        refine ⟨_, hlines.get_takeStock hp, ?_⟩
        rw [hpairs, quantityOf_qtyById]
        rfl
      cases key with
      | product id =>
        change (w s).products.get id = s.products.get id
        rw [(hrest s).products]
        refine get_takeStock_of_not_mem fun hmem => ?_
        obtain ⟨pair, hpair, rfl⟩ := List.mem_map.mp hmem
        obtain ⟨l, hl, rfl⟩ := List.mem_map.mp hpair
        obtain ⟨t, ht, -⟩ := (hlocked l hl).mono hsub
        exact hkey _ ht rfl
      | _ => trivial
    · exact fun s t u hst htu => ⟨htu.products.trans hst.products, htu.stores.trans hst.stores,
        htu.sellers.trans hst.sellers⟩
    · exact .bind (.getOrRaise _ _) fun _ =>
        .bind (.bind (.raiseIf _ _) fun _ => writes_insertRow fun _ => ⟨rfl, rfl, rfl⟩) fun _ =>
        .bind (insertItems_writes (fun _ _ => ⟨rfl, rfl, rfl⟩) _ _) fun _ => writes_loaded
  refine wpr_mono (fun K' facts w a hpost s _ _ hs => ?_) (wpr_of_wp hplaced)
  obtain ⟨hsince, hmoves, hframe⟩ := hpost s hs
  exact ⟨trivial, ⟨hsince.mono (Deeds.among_anything _), hsince, hmoves⟩, hframe⟩

/-- A request of the order service moves the stock of what it sells. -/
theorem serviceExec_done (c : ServiceCall) :
    (c.exec sha256).wpr productLocking (fun _ => True) (CatalogSince .anything)
      (Moves (.service c)) K [] id := by
  cases c with
  | call q =>
    obtain ⟨caller, op, env⟩ := q
    by_cases hop : ∀ items address, op ≠ .createOrder items address
    · refine wpr_aside (fun s id quantity hsells => ?_)
        (.bind ((exec_writes hop).mono fun _ _ h => h.aside) fun _ => .pure _)
      cases op with
      | createOrder items address => exact hop items address rfl
      | _ => exact hsells.elim
    · simp only [not_forall, not_not] at hop
      obtain ⟨items, address, rfl⟩ := hop
      exact wpr_bind.mpr (wpr_bind.mpr (createOrder_done items address))
  | report r env =>
    exact wpr_aside (fun _ _ _ => id)
      (.bind (postLocation_writes (fun _ _ => .aside fun _ => ⟨rfl, rfl, rfl⟩) r) fun _ => .pure _)
  | view caller o => exact wpr_aside (fun _ _ _ => id) (.bind getTrackView_writes fun _ => .pure _)

/-- A request of the catalog does its deeds. -/
theorem catalogExec_done (q : CatalogRequest) :
    (q.exec lower).wpr productLocking (fun _ => True) (CatalogSince .anything)
      (DoneBy (.catalog q)) K [] id := by
  obtain ⟨caller, op, env⟩ := q
  cases op with
  | createStore name city description slug isPublic =>
    exact wpr_bind.mpr (createStore_done name city description slug isPublic)
  | updateOwnStore name city description isActive isPublic =>
    exact wpr_bind.mpr (updateOwnStore_done name city description isActive isPublic)
  | createProduct name priceMinor description stockQuantity images storeId =>
    exact wpr_bind.mpr
      (createProduct_done name priceMinor description stockQuantity images storeId)
  | updateProduct productId q images => exact wpr_bind.mpr (updateProduct_done productId q images)
  | softDeleteProduct productId => exact wpr_bind.mpr (softDeleteProduct_done productId)
  | disableProduct productId reason => exact wpr_bind.mpr (disableProduct_done productId reason)
  | restoreProduct productId => exact wpr_bind.mpr (restoreProduct_done productId)
  | getOwnStore =>
    exact wpr_deeds (.bind (.bind writes_getCallerSeller fun _ => writes_getCallerStore _ _)
      fun _ => .pure _) fun _ _ => .refl _
  | getStoreForCaller storeId =>
    exact wpr_deeds (.bind (getStoreForCaller_writes storeId) fun _ => .pure _) fun _ _ => .refl _
  | getProductForCaller productId =>
    exact wpr_deeds (.bind (getProductForCaller_writes productId) fun _ => .pure _)
      fun _ _ => .refl _
  | listProductsForCaller storeId sellerId limit =>
    exact wpr_deeds (.bind (listProductsForCaller_writes storeId sellerId limit) fun _ => .pure _)
      fun _ _ => .refl _

/-- What the commit of any request does to the catalog. -/
theorem appExec_done {sec : Security} (q : AppRequest) :
    (q.exec sec lower).wpr productLocking (fun _ => True) (CatalogSince .anything) (Moves q) K []
      id := by
  cases q with
  | service c => exact wpr_bind.mpr (serviceExec_done c)
  | auth q =>
    exact wpr_aside (fun _ _ _ => id)
      (.bind ((authExec_changes q).mono fun _ _ h => h.aside) fun _ => .pure _)
  | catalog q =>
    refine wpr_moves (fun s id quantity hsells => ?_) (wpr_bind.mpr (catalogExec_done q))
    obtain ⟨caller, op, env⟩ := q
    cases op <;> exact hsells
  | messaging q =>
    exact wpr_aside (fun _ _ _ => id)
      (.bind ((messagingExec_writes q).mono fun _ _ h => h.aside) fun _ => .pure _)
  | keys q =>
    exact wpr_aside (fun _ _ _ => id)
      (.bind ((keyExec_writes q).mono fun _ _ h => h.aside) fun _ => .pure _)

end Edits

/-! ### Every interleaving -/

section Runs

variable {ι : Type} {requests : ι → AppRequest} {log : List (ι × AppReply)} {db s t : Db}

/-- What the commits of a log have done, if their callers may do so. -/
def deedsOf (requests : ι → AppRequest) (log : List (ι × AppReply)) (db : Db) : Deeds where
  patches id q := ∃ e ∈ log, ((requests e.1).deeds db).patches id q
  removes id now := ∃ e ∈ log, ((requests e.1).deeds db).removes id now
  disables id reason now := ∃ e ∈ log, ((requests e.1).deeds db).disables id reason now
  restores id := ∃ e ∈ log, ((requests e.1).deeds db).restores id
  sells id quantity := ∃ e ∈ log, ((requests e.1).deeds db).sells id quantity
  creates p := ∃ e ∈ log, ((requests e.1).deeds db).creates p
  patchesStore id q := ∃ e ∈ log, ((requests e.1).deeds db).patchesStore id q
  opens x := ∃ e ∈ log, ((requests e.1).deeds db).opens x

/-- The deeds of a committed request are among those of the run. -/
theorem deeds_among_deedsOf {i : ι} {a : AppReply} (h : (i, a) ∈ log) :
    ((requests i).deeds db).Among (deedsOf requests log db) :=
  ⟨fun _ _ hd => ⟨_, h, hd⟩, fun _ _ hd => ⟨_, h, hd⟩, fun _ _ _ hd => ⟨_, h, hd⟩,
    fun _ hd => ⟨_, h, hd⟩, fun _ _ hd => ⟨_, h, hd⟩, fun _ hd => ⟨_, h, hd⟩,
    fun _ _ hd => ⟨_, h, hd⟩, fun _ hd => ⟨_, h, hd⟩⟩

/-- What has been done remains done, as the log and the database go on. -/
theorem CatalogSince.onward {d : Deeds} (h : CatalogSince d s t) (e : ι × AppReply) :
    (deedsOf requests log s).Among (deedsOf requests (log ++ [e]) t) := by
  have hmem : ∀ {x : ι × AppReply}, x ∈ log → x ∈ log ++ [e] := fun hx => List.mem_append_left _ hx
  have hkept : ∀ i, ((requests i).deeds s).Among ((requests i).deeds t) := fun i =>
    h.deeds (requests i)
  exact ⟨fun id q ⟨x, hx, hd⟩ => ⟨x, hmem hx, (hkept x.1).patches id q hd⟩,
    fun id now ⟨x, hx, hd⟩ => ⟨x, hmem hx, (hkept x.1).removes id now hd⟩,
    fun id r now ⟨x, hx, hd⟩ => ⟨x, hmem hx, (hkept x.1).disables id r now hd⟩,
    fun id ⟨x, hx, hd⟩ => ⟨x, hmem hx, (hkept x.1).restores id hd⟩,
    fun id n ⟨x, hx, hd⟩ => ⟨x, hmem hx, (hkept x.1).sells id n hd⟩,
    fun p ⟨x, hx, hd⟩ => ⟨x, hmem hx, (hkept x.1).creates p hd⟩,
    fun id q ⟨x, hx, hd⟩ => ⟨x, hmem hx, (hkept x.1).patchesStore id q hd⟩,
    fun y ⟨x, hx, hd⟩ => ⟨x, hmem hx, (hkept x.1).opens y hd⟩⟩

/-- The catalog after a run is the first one changed by the deeds of the run. -/
theorem catalog_of_commits (h : Sys.Commits (fun i _ s t =>
      CatalogSince .anything s t ∧ CatalogSince ((requests i).deeds s) s t) db log t) :
    CatalogSince (deedsOf requests log t) db t := by
  induction h with
  | nil => exact .refl _ _
  | @snoc log s t i a _ heffect ih =>
    have hlast : (i, a) ∈ log ++ [(i, a)] := List.mem_append_right log (List.mem_singleton_self _)
    exact (ih.mono (heffect.2.onward (i, a))).trans
      (heffect.2.mono ((heffect.2.deeds (requests i)).trans (deeds_among_deedsOf hlast)))

/-- The stock of a product is what the commits have made of it, one after the other. -/
theorem stockAlong_of_commits
    (h : Sys.Commits (fun i _ s t => (requests i).MovesStock s t) db log t) {id : Id} {p : Product}
    (hp : db.products.get id = some p) :
    ∃ p', t.products.get id = some p' ∧
      StockAlong requests id p.stockQuantity log p'.stockQuantity := by
  induction h with
  | nil => exact ⟨p, hp, .nil⟩
  | @snoc log s t i a _ hmoves ih =>
    obtain ⟨p', hp', halong⟩ := ih
    obtain ⟨p'', hp'', hmove⟩ := hmoves id p' hp'
    exact ⟨p'', hp'', halong.snoc (i, a) hmove⟩

/-- Every product is in a store of its seller. -/
def Db.Housed (db : Db) : Prop :=
  ∀ id p, db.products.get id = some p →
    ∃ x, db.stores.get p.storeId = some x ∧ x.sellerId = p.sellerId

/-- What is created is created in a store of its seller. -/
theorem housed_of_creates {q : AppRequest} {p : Product} (h : (q.deeds t).creates p) :
    ∃ x, t.stores.get p.storeId = some x ∧ x.sellerId = p.sellerId := by
  cases q with
  | catalog q =>
    obtain ⟨caller, op, env⟩ := q
    cases op with
    | createProduct name priceMinor description stockQuantity images storeId =>
      obtain ⟨seller, store, -, hstore, rfl⟩ := h
      exact hstore
    | _ => exact h.elim
  | _ => exact h.elim

/-- Every product stays in a store of its seller. -/
theorem CatalogSince.housed (h : CatalogSince (deedsOf requests log t) s t) (hs : s.Housed) :
    t.Housed := by
  intro id p' hp'
  cases hold : s.products.get id with
  | some p =>
    obtain ⟨x, hx⟩ := hs id p hold
    obtain ⟨p'', hp'', hsince⟩ := h.products id p hold
    obtain rfl := Option.some.inj (hp'.symm.trans hp'')
    rw [hsince.storeId, hsince.sellerId]
    exact h.storeOf ⟨x, hx⟩
  | none =>
    obtain ⟨p, ⟨e, -, hcreated⟩, hsince⟩ := h.productsNew id p' hold hp'
    rw [hsince.storeId, hsince.sellerId]
    exact housed_of_creates hcreated

end Runs

/-- Between any two moments of any interleaving of requests to the server, the catalog has changed
only by what was committed in between, column by column: products by their sellers and by
administrators, their stock also by the quantities of orders, stores by their sellers. Each order
has taken its quantity once. No product and no store has gone, changed its seller or come back after
its deletion, and what has come was created by its seller. Products stay in the stores of their
sellers. -/
theorem catalog_owned {ι : Type} [DecidableEq ι] {sec : Security} {lower : String → String}
    {requests : ι → AppRequest} {db : Db} {s t : Sys ι Db Key Err AppReply}
    (hs : Sys.Steps (Sys.init db fun i => (requests i).exec sec lower) s) (hst : Sys.Steps s t) :
    ∃ log, t.log = s.log ++ log ∧ CatalogSince (deedsOf requests log t.db) s.db t.db ∧
      (∀ id p, s.db.products.get id = some p → ∃ p', t.db.products.get id = some p' ∧
        StockAlong requests id p.stockQuantity log p'.stockQuantity) ∧
      (s.db.Housed → t.db.Housed) := by
  obtain ⟨-, log, hlog, hcommits⟩ := Sys.Steps.relying_since (L := productLocking)
    (I := fun _ => True)
    (Q := fun i _ s t => CatalogSince ((requests i).deeds s) s t ∧ (requests i).MovesStock s t)
    (CatalogSince.refl _) (fun _ _ _ => CatalogSince.trans) (fun i => appExec_done (requests i))
    trivial hs hst
  have hsince := catalog_of_commits (hcommits.mono fun _ _ _ _ h => ⟨h.1, h.2.1⟩)
  have hmoves := hcommits.mono fun _ _ _ _ h => h.2.2
  exact ⟨log, hlog, hsince, fun id p hp => stockAlong_of_commits hmoves hp, hsince.housed⟩

namespace Sample

/-- The seller renames its product while a customer orders two pieces of it. -/
def relabelled : Bool → AppRequest
  | true => .catalog ⟨seller, .updateProduct 6 { name := some "Rye" } none, catalogEnv⟩
  | false => .service (.call ⟨customer, .createOrder [{ productId := 6, quantity := 2 }] {},
      catalogEnv⟩)

end Sample

/-- The order overtakes the renaming, and both are seen in the end. -/
theorem catalog_owned_overtaken : ∃ t log p,
    Sys.Steps (Sys.init Sample.catalog fun i => (Sample.relabelled i).exec Sample.security id) t ∧
    t.log = log ∧ t.db.products.get 6 = some p ∧ p.name = "Rye" ∧ p.stockQuantity = some 1 ∧
    CatalogSince (deedsOf Sample.relabelled log t.db) Sample.catalog t.db ∧
    StockAlong Sample.relabelled 6 (some 3) log p.stockQuantity := by
  have hreads :
      ((Sample.relabelled true).exec Sample.security id).selects Sample.catalog 2 = true := by
    decide +kernel
  obtain ⟨a, hrun⟩ := run_of_session (p := (Sample.relabelled false).exec Sample.security id)
    (s := Sample.catalog) (by decide +kernel)
  obtain ⟨b, hrest⟩ := run_of_session
    (p := ((Sample.relabelled true).exec Sample.security id).afterSelects Sample.catalog 2)
    (s := (((Sample.relabelled false).exec Sample.security id).session Sample.catalog).2)
    (by decide +kernel)
  obtain ⟨s, t, hs, hst, -, hdb, -⟩ := Sys.overtaken_of_run
    (p := fun i => (Sample.relabelled i).exec Sample.security id) (i := true) (j := false)
    (by decide) hreads hrun hrest
  obtain ⟨log, hlog, hsince, hstock, -⟩ := catalog_owned (.refl _) (hs.tail true hst)
  obtain ⟨p, hp, halong⟩ := hstock 6 Sample.product rfl
  have hname : (t.db.products.get 6).map Product.name = some "Rye" := by
    rw [hdb]
    decide +kernel
  have hleft : (t.db.products.get 6).bind Product.stockQuantity = some 1 := by
    rw [hdb]
    decide +kernel
  rw [hp] at hname hleft
  exact ⟨t, log, p, hs.tail true hst, hlog, hp, Option.some.inj hname, hleft, hsince, halong⟩

end Marketplace
