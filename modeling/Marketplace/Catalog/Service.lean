import Mathlib.Data.List.Perm.Subperm
import Marketplace.Order.Service

/-!
# Stores and products

`store_service.py`, `product_service.py` and the moderation of products in
`admin_service.py`. A seller has one store, whose products it lists; what a customer gets
to see of them is decided anew by each query. The ORM updates a loaded row column by
column, and leaves out a column whose value has not changed since it was loaded.
-/

namespace Marketplace

open Lib Txn Err

/-! ### Texts -/

/-- `str.isspace` of one character. -/
def isSpace (c : Char) : Bool :=
  c.toNat ∈ [32, 133, 160, 5760, 8232, 8233, 8239, 8287, 12288] ∨
    (9 ≤ c.toNat ∧ c.toNat ≤ 13) ∨ (28 ≤ c.toNat ∧ c.toNat ≤ 31) ∨
    (8192 ≤ c.toNat ∧ c.toNat ≤ 8202)

/-- The characters without those at either end that satisfy `p`. -/
def stripWith (p : Char → Bool) (cs : List Char) : List Char :=
  (((cs.dropWhile p).reverse).dropWhile p).reverse

/-- `str.strip()`. -/
def strip (s : String) : String := String.ofList (stripWith isSpace s.toList)

/-- A character that a slug keeps. -/
def isSlugChar (c : Char) : Bool :=
  (97 ≤ c.toNat ∧ c.toNat ≤ 122) ∨ (48 ≤ c.toNat ∧ c.toNat ≤ 57)

/-- `_SLUG_RE.sub("-", …)`: one hyphen for each run of other characters. -/
def hyphenate : List Char → Bool → List Char
  | [], _ => []
  | c :: cs, inRun =>
    if isSlugChar c then c :: hyphenate cs false
    else if inRun then hyphenate cs true
    else '-' :: hyphenate cs true

/-- `_slugify`; `lower` is `str.lower`. -/
def slugify (lower : String → String) (value : String) : String :=
  let slug := stripWith (· = '-') (hyphenate (lower value).toList false)
  if slug = [] then "store" else String.ofList slug

/-! ### What the services write -/

/-- A column of an `UPDATE` by the ORM: `current` is its value in the row that is locked,
`loaded` the value that the session has loaded, `new` the value that the service assigns. -/
def assign {α : Type} [DecidableEq α] (loaded new current : α) : α :=
  if new = loaded then current else new

/-- Assigning to the value loaded writes the new one. -/
@[simp] theorem assign_self {α : Type} [DecidableEq α] (loaded new : α) :
    assign loaded new loaded = new := by
  unfold assign
  split
  · next h => exact h.symm
  · rfl

/-- The values that `update_product` assigns; `none` leaves a column alone. -/
structure ProductPatch where
  name : Option String := none
  description : Option String := none
  priceMinor : Option ℤ := none
  stockQuantity : Option ℤ := none
  isActive : Option Bool := none
deriving DecidableEq, Repr

namespace Product

/-- The columns of `update_product`. -/
def patch (q : ProductPatch) (loaded p : Product) : Product :=
  { p with
    name := assign loaded.name ((q.name.map strip).getD loaded.name) p.name
    description := assign loaded.description ((q.description.map strip).getD loaded.description)
      p.description
    priceMinor := assign loaded.priceMinor (q.priceMinor.getD loaded.priceMinor) p.priceMinor
    stockQuantity := assign loaded.stockQuantity (q.stockQuantity.or loaded.stockQuantity)
      p.stockQuantity
    isActive := assign loaded.isActive (q.isActive.getD loaded.isActive) p.isActive }

/-- The columns of `soft_delete_product`. -/
def softDelete (now : Time) (loaded p : Product) : Product :=
  { p with deletedAt := some now, isActive := assign loaded.isActive false p.isActive }

/-- The columns of `disable_product`. -/
def disable (now : Time) (reason : String) (loaded p : Product) : Product :=
  { p with status := assign loaded.status .disabled p.status
           disabledAt := assign loaded.disabledAt (some now) p.disabledAt
           disabledReason := assign loaded.disabledReason (some reason) p.disabledReason }

/-- The columns of `restore_product`. -/
def restore (loaded p : Product) : Product :=
  { p with status := assign loaded.status .active p.status
           disabledAt := assign loaded.disabledAt none p.disabledAt
           disabledReason := assign loaded.disabledReason none p.disabledReason }

variable (q : ProductPatch) (now : Time) (reason : String) (loaded p : Product)

/-- A patch keeps the product's id. -/
@[simp] theorem patch_id : (patch q loaded p).id = p.id := rfl

/-- A soft deletion keeps the product's id. -/
@[simp] theorem softDelete_id : (softDelete now loaded p).id = p.id := rfl

/-- Disabling keeps the product's id. -/
@[simp] theorem disable_id : (disable now reason loaded p).id = p.id := rfl

/-- Restoring keeps the product's id. -/
@[simp] theorem restore_id : (restore loaded p).id = p.id := rfl

end Product

namespace Store

/-- The columns of `update_own_store`. -/
def patch (name description : Option String) (isActive isPublic : Option Bool)
    (loaded s : Store) : Store :=
  { s with name := assign loaded.name ((name.map strip).getD loaded.name) s.name
           description := assign loaded.description
             ((description.map strip).getD loaded.description) s.description
           isActive := assign loaded.isActive (isActive.getD loaded.isActive) s.isActive
           isPublic := assign loaded.isPublic (isPublic.getD loaded.isPublic) s.isPublic }

end Store

/-- `sellers.city`, assigned. -/
def Seller.setCity (city : String) (loaded s : Seller) : Seller :=
  { s with city := assign loaded.city (strip city) s.city }

/-- Setting the city keeps the seller's id. -/
@[simp] theorem Seller.setCity_id (city : String) (loaded s : Seller) :
    (Seller.setCity city loaded s).id = s.id := by
  simp only [Seller.setCity]

/-- Setting the city keeps the seller's user. -/
@[simp] theorem Seller.setCity_userId (city : String) (loaded s : Seller) :
    (Seller.setCity city loaded s).userId = s.userId := by
  simp only [Seller.setCity]

namespace Db

def modifySeller (db : Db) (id : Id) (f : Seller → Seller) : Db :=
  { db with sellers := db.sellers.modify id f }

def addStore (db : Db) (s : Store) : Db := { db with stores := db.stores.insert s }

def modifyStore (db : Db) (id : Id) (f : Store → Store) : Db :=
  { db with stores := db.stores.modify id f }

def addProduct (db : Db) (p : Product) : Db := { db with products := db.products.insert p }

def modifyProduct (db : Db) (id : Id) (f : Product → Product) : Db :=
  { db with products := db.products.modify id f }

def addImage (db : Db) (i : ProductImage) : Db :=
  { db with productImages := db.productImages.insert i }

def removeImage (db : Db) (id : Id) : Db :=
  { db with productImages := db.productImages.delete fun i => i.id = id }

/-- The live store of a seller. -/
def storesOf (db : Db) (sellerId : Id) : List Store :=
  db.stores.rows.filter fun s => s.sellerId = sellerId ∧ s.deletedAt = none

/-- The images of one product. -/
def imagesOf (db : Db) (productId : Id) : List ProductImage :=
  db.productImages.rows.filter fun i => i.productId = productId

end Db

/-! ### Statements -/

def updateSeller (id : Id) (f : Seller → Seller) : Tx Unit :=
  updateRow (.seller id) fun db => db.modifySeller id f

/-- A text does not fit its `VARCHAR(255)` column. -/
@[irreducible] def exceedsVarchar (text : String) : Bool := 255 < text.length

/-- `INSERT INTO stores`, with the handler of its `IntegrityError`. -/
def insertStore (s : Store) : Tx Unit := do
  raiseIf (exceedsVarchar s.name ∨ exceedsVarchar s.slug) Err.outOfRange
  let db ← acquire (.store s.id)
  raiseIf ((db.stores.get s.id).isSome = true) storeAlreadyExists
  let db ← acquire (.storeSeller s.sellerId)
  raiseIf ((db.stores.rows.any fun t => t.sellerId = s.sellerId) = true) storeAlreadyExists
  let db ← acquire (.storeSlug s.slug)
  raiseIf ((db.stores.rows.any fun t => t.slug = s.slug) = true) storeAlreadyExists
  modify fun db => db.addStore s

def updateStore (id : Id) (f : Store → Store) : Tx Unit :=
  updateRow (.store id) fun db => db.modifyStore id f

/-- The column types and the CHECK constraints of `products`, on the values that a statement
writes. -/
def checkProduct (priceMinor : ℤ) (stockQuantity : Option ℤ) : Tx Unit := do
  encode stockQuantity.toList [priceMinor]
  raiseIf (priceMinor ≤ 0) (.integrity "ck_products_price_minor_positive")
  raiseIf ((stockQuantity.any fun stock => stock < 0) = true)
    (.integrity "ck_products_stock_quantity_non_negative")

def insertProduct (p : Product) : Tx Unit := do
  checkProduct p.priceMinor p.stockQuantity
  insertRow (.product p.id) (fun db => (db.products.get p.id).isSome) "pk_products"
    fun db => db.addProduct p

def updateProductRow (id : Id) (f : Product → Product) : Tx Unit :=
  updateRow (.product id) fun db => db.modifyProduct id f

def insertImage (i : ProductImage) : Tx Unit :=
  insertRow (.productImage i.id) (fun db => (db.productImages.get i.id).isSome)
    "pk_product_images" fun db => db.addImage i

/-- The `DELETE` of each image that the session has loaded. -/
def deleteImages : List ProductImage → Tx Unit
  | [] => pure ()
  | i :: is => do
    updateRow (.productImage i.id) fun db => db.removeImage i.id
    deleteImages is

/-- An image of a request: `s3_key` and `display_order`. -/
structure ImageSpec where
  s3Key : String
  displayOrder : ℤ := 0
deriving DecidableEq, Repr

/-- The rows of the images, whose ids are the draws of `uuid4` from the `i`-th on. -/
def newImages (env : Env) (productId : Id) (i : ℕ) (specs : List ImageSpec) :
    List ProductImage :=
  specs.mapIdx fun n spec =>
    { id := env.uuid4 (i + n), productId, s3Key := spec.s3Key, displayOrder := spec.displayOrder }

def insertImages : List ProductImage → Tx Unit
  | [] => pure ()
  | i :: is => do
    insertImage i
    insertImages is

/-! ### The store service -/

namespace StoreService

/-- The candidate of `_unique_slug` after `suffix` refusals. -/
def slugCandidate (base : String) (suffix : ℕ) : String :=
  if suffix = 0 then base else base ++ "-" ++ Nat.repr suffix

/-- The search of the model has run out of turns. -/
def noFreeSlug : Err := .unexpected "no free slug"

/-- The loop of `_unique_slug`, for at most `fuel` turns. -/
def uniqueSlug (base : String) : (fuel suffix : ℕ) → Tx String
  | 0, _ => raise noFreeSlug
  | fuel + 1, suffix => do
    let db ← read
    if db.stores.rows.any fun s => s.slug = slugCandidate base suffix then
      uniqueSlug base fuel (suffix + 1)
    else pure (slugCandidate base suffix)

/-- Different suffixes make different slugs. -/
theorem slugCandidate_injective (base : String) : Function.Injective (slugCandidate base) := by
  have hne : ∀ n : ℕ, base ≠ base ++ "-" ++ Nat.repr n := by
    intro n h
    have hlength := congrArg String.length h
    simp only [String.length_append] at hlength
    have hhyphen : String.length "-" = 1 := by decide
    omega
  intro m n h
  unfold slugCandidate at h
  split at h
  · split at h
    · omega
    · exact absurd h (hne n)
  · split at h
    · exact absurd h.symm (hne m)
    · have hlist := congrArg String.toList h
      simp only [String.toList_append, List.append_cancel_left_eq, Nat.toList_repr] at hlist
      rw [← @Nat.ofDigitChars_ten_toDigits m, hlist, Nat.ofDigitChars_ten_toDigits]

/-- As many candidates as are taken, there are stores. -/
theorem le_of_candidates_taken {stores : List Store} {base : String} {n : ℕ}
    (htaken : ∀ k < n, ∃ s ∈ stores, s.slug = slugCandidate base k) : n ≤ stores.length := by
  have hnodup : ((List.range n).map (slugCandidate base)).Nodup :=
    List.nodup_range.map (slugCandidate_injective base)
  have hsubset : (List.range n).map (slugCandidate base) ⊆ stores.map Store.slug := by
    intro slug hslug
    obtain ⟨k, hk, rfl⟩ := List.mem_map.mp hslug
    obtain ⟨s, hs, hsame⟩ := htaken k (List.mem_range.mp hk)
    exact hsame ▸ List.mem_map_of_mem hs
  have hlength := (List.subperm_of_subset hnodup hsubset).length_le
  simpa only [List.length_map, List.length_range] using hlength

/-- One of the first candidates is free, whatever the stores are. -/
theorem exists_free_slug (stores : List Store) (base : String) :
    ∃ k ≤ stores.length, ∀ s ∈ stores, s.slug ≠ slugCandidate base k := by
  by_contra hall
  push Not at hall
  have hmany : stores.length + 1 ≤ stores.length :=
    le_of_candidates_taken fun k hk => hall k (by omega)
  omega

/-- The search ends at a free slug when one is within its bound. -/
theorem uniqueSlug_of_free {db : Db} {base : String} {k fuel suffix : ℕ} (hk : suffix ≤ k)
    (hfuel : k < suffix + fuel)
    (hfree : ∀ s ∈ db.stores.rows, s.slug ≠ slugCandidate base k) :
    ∃ slug, (uniqueSlug base fuel suffix).run db = .ok (slug, db) ∧
      ∀ s ∈ db.stores.rows, s.slug ≠ slug := by
  induction fuel generalizing suffix with
  | zero => omega
  | succ fuel ih =>
    simp only [uniqueSlug, bind_eq, run_bind_ok, run_read_ok]
    by_cases htaken : (db.stores.rows.any fun s => s.slug = slugCandidate base suffix) = true
    · have hne : k ≠ suffix := by
        rintro rfl
        obtain ⟨s, hs, hsame⟩ := List.any_eq_true.mp htaken
        exact hfree s hs (of_decide_eq_true hsame)
      have hlater : suffix + 1 ≤ k := by omega
      obtain ⟨slug, hrun, hslug⟩ := ih hlater (by omega)
      exact ⟨slug, ⟨db, db, ⟨rfl, rfl⟩, by rw [if_pos htaken]; exact hrun⟩, hslug⟩
    · refine ⟨slugCandidate base suffix, ⟨db, db, ⟨rfl, rfl⟩, ?_⟩, fun s hs hsame => ?_⟩
      · rw [if_neg htaken]
        rfl
      · exact htaken (List.any_eq_true.mpr ⟨s, hs, decide_eq_true hsame⟩)

/-- `_unique_slug` ends, with a slug that no store has. -/
theorem uniqueSlug_run {db : Db} {fuel : ℕ} (hfuel : db.stores.rows.length < fuel) (base : String) :
    ∃ slug, (uniqueSlug base fuel 0).run db = .ok (slug, db) ∧
      ∀ s ∈ db.stores.rows, s.slug ≠ slug := by
  obtain ⟨k, hk, hfree⟩ := exists_free_slug db.stores.rows base
  exact uniqueSlug_of_free (Nat.zero_le k) (by omega) hfree

/-- What `create_store` has `_unique_slug` begin with. -/
def slugBase (lower : String → String) (name : String) : Option String → String
  | some slug => if slug = "" then slugify lower name else lower (strip slug)
  | none => slugify lower name

/-- The store of `create_store`. -/
def newStore (env : Env) (sellerId : Id) (name slug : String) (description : Option String)
    (isPublic : Bool) : Store :=
  { id := env.uuid4 0, sellerId, name := strip name, slug,
    description := strip (description.getD ""), isPublic }

/-- `create_store`; `lower` is `str.lower`. The stores there are now and those that others commit
meanwhile cannot have all the candidates for a slug. -/
def createStore (lower : String → String) (env : Env) (caller : User) (name city : String)
    (description slug : Option String) (isPublic : Bool) : Tx Store := do
  raiseIf (strip city = "") storeCityRequired
  raiseIf (strip name = "") (storeCityRequired "Store name is required.")
  let seller ← OrderService.getCallerSeller caller
  let db ← read
  let existing ← scalarOneOrNone (db.storesOf seller.id)
  raiseIf (existing ≠ none) storeAlreadyExists
  updateSeller seller.id (Seller.setCity city seller)
  let base := slugBase lower name slug
  let db ← read
  let finalSlug ← uniqueSlug base (db.stores.rows.length + 1 + env.storesMeanwhile) 0
  insertStore (newStore env seller.id name finalSlug description isPublic)
  pure (newStore env seller.id name finalSlug description isPublic)

/-- The caller's own store, `STORE_NOT_FOUND` without one. -/
def getCallerStore (seller : Seller) (missing : Err) : Tx Store := do
  let db ← read
  let store ← scalarOneOrNone (db.storesOf seller.id)
  getOrRaise store missing

/-- `get_own_store`. -/
def getOwnStore (caller : User) : Tx Store := do
  let seller ← OrderService.getCallerSeller caller
  getCallerStore seller storeNotFound

/-- The part of `update_own_store` that changes the seller. -/
def updateCity (seller : Seller) : Option String → Tx Unit
  | none => pure ()
  | some city => do
    raiseIf (strip city = "") storeCityRequired
    updateSeller seller.id (Seller.setCity city seller)

/-- `update_own_store`. -/
def updateOwnStore (caller : User) (name city description : Option String)
    (isActive isPublic : Option Bool) : Tx Store := do
  let seller ← OrderService.getCallerSeller caller
  let store ← getCallerStore seller storeNotFound
  raiseIf ((name.any fun name => strip name = "") = true)
    (storeCityRequired "Store name is required.")
  updateCity seller city
  updateStore store.id (Store.patch name description isActive isPublic store)
  let db ← read
  getOrRaise (db.stores.get store.id) (.unexpected "InvalidRequestError")

/-- What `get_store_for_caller` checks of a store and its seller. -/
def ensureMayView (caller : User) (store : Store) (seller : Seller) : Tx Unit :=
  match caller.role with
  | .admin => pure ()
  | .seller => raiseIf (seller.userId ≠ caller.id) storeNotFound
  | .customer => raiseIf (store.isPublic = false ∧ caller.referringSellerId ≠ some seller.id)
      visibilityDenied
  | .driver => raise storeNotFound

/-- `get_store_for_caller`. -/
def getStoreForCaller (caller : User) (storeId : Id) : Tx (Store × Seller) := do
  let db ← read
  let store ← getOrRaise (db.stores.get storeId) storeNotFound
  raiseIf (store.deletedAt ≠ none ∧ caller.role ≠ .admin) storeNotFound
  let db ← read
  let seller ← getOrRaise (db.sellers.get store.sellerId) (.unexpected "NoResultFound")
  ensureMayView caller store seller
  pure (store, seller)

end StoreService

/-! ### The product service -/

/-- A product with its images loaded. -/
structure ProductFull where
  product : Product
  images : List ProductImage
deriving DecidableEq, Repr

namespace ProductService

/-- `_load_product_with_images`. -/
def loadProductWithImages (productId : Id) : Tx (Option ProductFull) := do
  let db ← read
  pure ((db.products.get productId).map fun product =>
    { product, images := db.imagesOf productId })

/-- The product of `create_product`. -/
def newProduct (env : Env) (seller : Seller) (store : Store) (name : String) (priceMinor : ℤ)
    (description : Option String) (stockQuantity : Option ℤ) : Product :=
  { id := env.uuid4 0, sellerId := seller.id, storeId := store.id, name := strip name,
    description := strip (description.getD ""), priceMinor, stockQuantity, isActive := true,
    createdAt := env.transactionNow }

/-- `create_product`. -/
def createProduct (env : Env) (caller : User) (name : String) (priceMinor : ℤ)
    (description : Option String) (stockQuantity : Option ℤ) (images : List ImageSpec)
    (storeId : Option Id) : Tx ProductFull := do
  let seller ← OrderService.getCallerSeller caller
  let store ← StoreService.getCallerStore seller
    (storeNotFound "Seller has no store; create one first.")
  raiseIf (storeId ≠ none ∧ storeId ≠ some store.id) storeNotFound
  insertProduct (newProduct env seller store name priceMinor description stockQuantity)
  insertImages (newImages env (env.uuid4 0) 1 images)
  let loaded ← loadProductWithImages (env.uuid4 0)
  getOrRaise loaded (.unexpected "AssertionError")

/-- The ownership check of `update_product` and `soft_delete_product`. -/
def ensureMayEdit (caller : User) (product : Product) : Tx Unit :=
  match caller.role with
  | .admin => pure ()
  | .seller => do
    let seller ← OrderService.getCallerSeller caller
    raiseIf (product.sellerId ≠ seller.id) productNotFound
  | _ => raise productOwnershipError

/-- `_replace_images`, if the request has images: its statements, and the images that the session
has from then on. -/
def replaceImages (env : Env) (productId : Id) (old : List ProductImage) :
    Option (List ImageSpec) → Tx (List ProductImage)
  | none => pure old
  | some images => do
    deleteImages old
    insertImages (newImages env productId 0 images)
    pure (newImages env productId 0 images)

/-- The `UPDATE` of `update_product`, with the CHECK constraints on what it writes. -/
def updatePatched (q : ProductPatch) (loaded : Product) : Tx Unit := do
  checkProduct (q.priceMinor.getD loaded.priceMinor) (q.stockQuantity.or loaded.stockQuantity)
  updateProductRow loaded.id (Product.patch q loaded)

/-- `update_product`. The session returns the object it has loaded and changed. -/
def updateProduct (env : Env) (caller : User) (productId : Id) (q : ProductPatch)
    (images : Option (List ImageSpec)) : Tx ProductFull := do
  let found ← loadProductWithImages productId
  let full ← getOrRaise found productNotFound
  raiseIf (full.product.deletedAt ≠ none) productNotFound
  ensureMayEdit caller full.product
  updatePatched q full.product
  let images ← replaceImages env full.product.id full.images images
  pure { product := Product.patch q full.product full.product, images }

/-- `soft_delete_product`. -/
def softDeleteProduct (env : Env) (caller : User) (productId : Id) : Tx Unit := do
  let db ← read
  let product ← getOrRaise (db.products.get productId) productNotFound
  raiseIf (product.deletedAt ≠ none) productNotFound
  ensureMayEdit caller product
  updateProductRow product.id (Product.softDelete (env.now 0) product)

/-- `bool(store_pub.scalar_one_or_none())`. -/
def storeIsPublic (db : Db) (storeId : Id) : Bool := (db.stores.get storeId).any Store.isPublic

/-- The visibility check of `get_product_for_caller`. -/
def ensureMaySee (caller : User) (product : Product) : Tx Unit :=
  match caller.role with
  | .admin => pure ()
  | .seller => do
    let seller ← OrderService.getCallerSeller caller
    raiseIf (product.sellerId ≠ seller.id) productNotFound
  | .customer => do
    let db ← read
    raiseIf (storeIsPublic db product.storeId = false ∧
      caller.referringSellerId ≠ some product.sellerId) productNotFound
  | .driver => raise productNotFound

/-- `get_product_for_caller`. -/
def getProductForCaller (caller : User) (productId : Id) : Tx ProductFull := do
  let found ← loadProductWithImages productId
  let full ← getOrRaise found productNotFound
  raiseIf (full.product.deletedAt ≠ none) productNotFound
  ensureMaySee caller full.product
  pure full

/-- The condition of `list_products_for_caller` on a product, for a customer: its store is
joined. -/
def listedForCustomer (db : Db) (caller : User) (product : Product) : Bool :=
  (db.stores.get product.storeId).any fun store =>
    store.deletedAt = none ∧
      (caller.referringSellerId = some product.sellerId ∨ store.isPublic = true)

/-- What the query of `list_products_for_caller` asks of a product by the caller's role; `ownId`
is the seller row of a caller who is a seller. -/
def listedFor (db : Db) (caller : User) (ownId sellerId : Option Id) (product : Product) : Bool :=
  match caller.role with
  | .admin => sellerId.all fun id => product.sellerId = id
  | .seller => ownId = some product.sellerId
  | .customer => listedForCustomer db caller product &&
      sellerId.all fun id => product.sellerId = id
  | .driver => false

/-- The products that the query of `list_products_for_caller` selects, before the limit. -/
def matchingProducts (db : Db) (caller : User) (ownId storeId sellerId : Option Id) :
    List Product :=
  (db.products.rows.filter fun p =>
    p.deletedAt = none ∧ p.isActive = true ∧ (storeId.all fun id => p.storeId = id) ∧
      listedFor db caller ownId sellerId p).mergeSort
    fun a b => b.createdAt ≤ a.createdAt

/-- The seller row of a caller who is a seller. -/
def ownSellerId (caller : User) : Tx (Option Id) :=
  if caller.role = .seller then do
    let seller ← OrderService.getCallerSeller caller
    pure (some seller.id)
  else pure none

/-- `list_products_for_caller`. -/
def listProductsForCaller (caller : User) (storeId sellerId : Option Id) (limit : ℤ) :
    Tx (List ProductFull) := do
  let ownId ← ownSellerId caller
  let db ← read
  let products := (matchingProducts db caller ownId storeId sellerId).take
    (min (max limit 1) 100).toNat
  pure (products.map fun product => { product, images := db.imagesOf product.id })

end ProductService

/-! ### Moderation -/

namespace AdminService

/-- The product of `disable_product` and `restore_product`. -/
def liveProduct (productId : Id) : Tx Product := do
  let db ← read
  let product ← getOrRaise (db.products.get productId) (notFoundError "Product not found.")
  raiseIf (product.deletedAt ≠ none) (notFoundError "Product not found.")
  pure product

/-- `await db.refresh(product)`. -/
def refreshProduct (productId : Id) : Tx Product := do
  let db ← read
  getOrRaise (db.products.get productId) (.unexpected "InvalidRequestError")

/-- `disable_product`. -/
def disableProduct (env : Env) (productId : Id) (reason : String) : Tx Product := do
  let product ← liveProduct productId
  updateProductRow product.id (Product.disable (env.now 0) reason product)
  refreshProduct product.id

/-- `restore_product`. -/
def restoreProduct (productId : Id) : Tx Product := do
  let product ← liveProduct productId
  updateProductRow product.id (Product.restore product)
  refreshProduct product.id

end AdminService

end Marketplace
