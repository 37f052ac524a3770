import Marketplace.Catalog.Service
import Marketplace.Order.Frames

/-!
# Requests about the catalog

One type for every request that the store and product services serve and for the moderation
of products, with the transaction of each and the kinds of its writes.
-/

namespace Marketplace

open Lib Txn Err OrderService

/-- The operations of the store and product services and the moderation of products. -/
inductive CatalogOp
  | createStore (name city : String) (description slug : Option String) (isPublic : Bool)
  | getOwnStore
  | updateOwnStore (name city description : Option String) (isActive isPublic : Option Bool)
  | getStoreForCaller (storeId : Id)
  | createProduct (name : String) (priceMinor : ℤ) (description : Option String)
      (stockQuantity : Option ℤ) (images : List ImageSpec) (storeId : Option Id)
  | updateProduct (productId : Id) (q : ProductPatch) (images : Option (List ImageSpec))
  | softDeleteProduct (productId : Id)
  | getProductForCaller (productId : Id)
  | listProductsForCaller (storeId sellerId : Option Id) (limit : ℤ)
  | disableProduct (productId : Id) (reason : String)
  | restoreProduct (productId : Id)
deriving DecidableEq

/-- What a request about the catalog returns. -/
inductive CatalogReply
  | store (s : Store)
  | storeAndSeller (s : Store) (seller : Seller)
  | product (p : ProductFull)
  | products (ps : List ProductFull)
  | moderated (p : Product)
  | deleted
deriving DecidableEq

/-- A request about the catalog: who calls what, and what it takes from its surroundings. -/
structure CatalogRequest where
  caller : User
  op : CatalogOp
  env : Env

/-- The transaction that serves a request; `lower` is `str.lower`. -/
def CatalogOp.exec (lower : String → String) (op : CatalogOp) (env : Env) (caller : User) :
    Tx CatalogReply :=
  match op with
  | .createStore name city description slug isPublic => do
    return .store (← StoreService.createStore lower env caller name city description slug isPublic)
  | .getOwnStore => do return .store (← StoreService.getOwnStore caller)
  | .updateOwnStore name city description isActive isPublic => do
    return .store (← StoreService.updateOwnStore caller name city description isActive isPublic)
  | .getStoreForCaller storeId => do
    let (store, seller) ← StoreService.getStoreForCaller caller storeId
    return .storeAndSeller store seller
  | .createProduct name priceMinor description stockQuantity images storeId => do
    return .product (← ProductService.createProduct env caller name priceMinor description
      stockQuantity images storeId)
  | .updateProduct productId q images => do
    return .product (← ProductService.updateProduct env caller productId q images)
  | .softDeleteProduct productId => do
    ProductService.softDeleteProduct env caller productId
    return .deleted
  | .getProductForCaller productId => do
    return .product (← ProductService.getProductForCaller caller productId)
  | .listProductsForCaller storeId sellerId limit => do
    return .products (← ProductService.listProductsForCaller caller storeId sellerId limit)
  | .disableProduct productId reason => do
    return .moderated (← AdminService.disableProduct env productId reason)
  | .restoreProduct productId => do
    return .moderated (← AdminService.restoreProduct productId)

/-- The transaction that serves a request. -/
def CatalogRequest.exec (lower : String → String) (q : CatalogRequest) : Tx CatalogReply :=
  q.op.exec lower q.env q.caller

/-! ### The kinds of the writes -/

/-- A change of a product by its seller or by an administrator. -/
structure ProductEdit (f : Product → Product) : Prop where
  id : ∀ p, (f p).id = p.id
  sellerId : ∀ p, (f p).sellerId = p.sellerId
  storeId : ∀ p, (f p).storeId = p.storeId

/-- A change of a store by its seller. -/
structure StoreEdit (f : Store → Store) : Prop where
  id : ∀ s, (f s).id = s.id
  sellerId : ∀ s, (f s).sellerId = s.sellerId
  deletedAt : ∀ s, (f s).deletedAt = s.deletedAt

/-- A write of a request about the catalog. -/
inductive CatalogWrite : Key → (Db → Db) → Prop
  | city (id city loaded) : CatalogWrite (.seller id) fun db =>
      db.modifySeller id (Seller.setCity city loaded)
  | addStore (s) : CatalogWrite (.store s.id) fun db => db.addStore s
  | store (id f) (hf : StoreEdit f) : CatalogWrite (.store id) fun db => db.modifyStore id f
  | addProduct (p) : CatalogWrite (.product p.id) fun db => db.addProduct p
  | product (id f) (hf : ProductEdit f) : CatalogWrite (.product id) fun db =>
      db.modifyProduct id f
  | addImage (i) : CatalogWrite (.productImage i.id) fun db => db.addImage i
  | removeImage (id) : CatalogWrite (.productImage id) fun db => db.removeImage id

section Writes

variable {env : Env} {caller : User} {P : Key → (Db → Db) → Prop}

/-- A patch leaves the product in its store. -/
theorem productEdit_patch (q : ProductPatch) (loaded : Product) :
    ProductEdit (Product.patch q loaded) := ⟨fun _ => rfl, fun _ => rfl, fun _ => rfl⟩

/-- A deletion leaves the product in its store. -/
theorem productEdit_softDelete (now : Time) (loaded : Product) :
    ProductEdit (Product.softDelete now loaded) := ⟨fun _ => rfl, fun _ => rfl, fun _ => rfl⟩

/-- Disabling leaves the product in its store. -/
theorem productEdit_disable (now : Time) (reason : String) (loaded : Product) :
    ProductEdit (Product.disable now reason loaded) := ⟨fun _ => rfl, fun _ => rfl, fun _ => rfl⟩

/-- Restoring leaves the product in its store. -/
theorem productEdit_restore (loaded : Product) : ProductEdit (Product.restore loaded) :=
  ⟨fun _ => rfl, fun _ => rfl, fun _ => rfl⟩

/-- A patch leaves the store to its seller, under its slug. -/
theorem storeEdit_patch (name description : Option String) (isActive isPublic : Option Bool)
    (loaded : Store) : StoreEdit (Store.patch name description isActive isPublic loaded) :=
  ⟨fun _ => rfl, fun _ => rfl, fun _ => rfl⟩

/-- Moving to a city writes the profile. -/
theorem writes_updateSeller (id : Id) (city : String) (loaded : Seller) :
    (updateSeller id (Seller.setCity city loaded)).Writes CatalogWrite :=
  .updateRow (.city id city loaded)

/-- The only write of a product's `UPDATE` is the one to its row. -/
theorem writes_updateProductRow (id : Id) {f : Product → Product} (hf : ProductEdit f) :
    (updateProductRow id f).Writes CatalogWrite := .updateRow (.product id f hf)

/-- Checking a price and a stock writes nothing. -/
theorem writes_checkProduct (priceMinor : ℤ) (stock : Option ℤ) :
    (checkProduct priceMinor stock).Writes P :=
  .bind (.raiseIf _ _) fun _ => .bind (.raiseIf _ _) fun _ => .raiseIf _ _

/-- A product is one new row. -/
theorem writes_insertProduct (p : Product) : (insertProduct p).Writes CatalogWrite :=
  .bind (writes_checkProduct _ _) fun _ => writes_insertRow (.addProduct p)

/-- Images are new rows, one after the other. -/
theorem writes_insertImages (is : List ProductImage) : (insertImages is).Writes CatalogWrite := by
  induction is with
  | nil => exact .pure _
  | cons i is ih => exact .bind (writes_insertRow (.addImage i)) fun _ => ih

/-- Images are deleted one after the other. -/
theorem writes_deleteImages (is : List ProductImage) : (deleteImages is).Writes CatalogWrite := by
  induction is with
  | nil => exact .pure _
  | cons i is ih => exact .bind (.updateRow (.removeImage i.id)) fun _ => ih

/-- The first of the three entries that an insertion of a store looks up is its own row. -/
theorem insertStore_writes {s : Store} (hs : P (.store s.id) fun db => db.addStore s) :
    (insertStore s).Writes P := by
  refine .bind (.raiseIf _ _) fun _ => ?_
  intro held db
  change WritesFrom P (.store s.id :: held) ((raiseIf _ _).bind fun _ => _)
  refine WritesFrom.bind (Writes.raiseIf _ _ _) fun _ held₁ hsub₁ => fun db₁ => ?_
  change WritesFrom P (.storeSeller s.sellerId :: held₁) ((raiseIf _ _).bind fun _ => _)
  refine WritesFrom.bind (Writes.raiseIf _ _ _) fun _ held₂ hsub₂ => fun db₂ => ?_
  change WritesFrom P (.storeSlug s.slug :: held₂) ((raiseIf _ _).bind fun _ => _)
  refine WritesFrom.bind (Writes.raiseIf _ _ _) fun _ held₃ hsub₃ => ?_
  have hrow : Key.store s.id ∈ held₃ :=
    hsub₃ (List.mem_cons_of_mem _ (hsub₂ (List.mem_cons_of_mem _ (hsub₁ List.mem_cons_self))))
  exact ⟨⟨_, hrow, hs⟩, trivial⟩

/-- A store is one new row, under the locks of its seller and its slug. -/
theorem writes_insertStore (s : Store) : (insertStore s).Writes CatalogWrite :=
  insertStore_writes (.addStore s)

/-- Looking for a slug that is free writes nothing. -/
theorem writes_uniqueSlug (base : String) (fuel suffix : ℕ) :
    (StoreService.uniqueSlug base fuel suffix).Writes P := by
  induction fuel generalizing suffix with
  | zero => exact .raise _
  | succ fuel ih => exact .bind .read fun _ => .ite (ih _) (.pure _)

/-- Looking for the caller's store writes nothing. -/
theorem writes_getCallerStore (seller : Seller) (missing : Err) :
    (StoreService.getCallerStore seller missing).Writes P :=
  .bind .read fun _ => .bind (writes_scalarOneOrNone _) fun _ => .getOrRaise _ _

/-- Creating a store writes the profile's city and the store. -/
theorem createStore_writes (lower : String → String) (name city : String)
    (description slug : Option String) (isPublic : Bool) :
    (StoreService.createStore lower env caller name city description slug isPublic).Writes
      CatalogWrite := by
  unfold StoreService.createStore
  refine .bind (.raiseIf _ _) fun _ => .bind (.raiseIf _ _) fun _ => ?_
  refine .bind writes_getCallerSeller fun seller => .bind .read fun _ => ?_
  refine .bind (writes_scalarOneOrNone _) fun _ => .bind (.raiseIf _ _) fun _ => ?_
  refine .bind (writes_updateSeller _ _ _) fun _ => .bind .read fun _ => ?_
  exact (writes_uniqueSlug _ _ _).bind fun _ => (writes_insertStore _).bind fun _ => .pure _

/-- Updating a store writes it, and the profile's city. -/
theorem updateOwnStore_writes (name city description : Option String)
    (isActive isPublic : Option Bool) :
    (StoreService.updateOwnStore caller name city description isActive isPublic).Writes
      CatalogWrite := by
  refine .bind writes_getCallerSeller fun _ => .bind (writes_getCallerStore _ _) fun _ =>
    .bind (.raiseIf _ _) fun _ => .bind ?_ fun _ =>
    .bind (.updateRow (.store _ _ (storeEdit_patch _ _ _ _ _))) fun _ => .bind .read fun _ =>
    .getOrRaise _ _
  cases city with
  | none => exact .pure _
  | some city => exact .bind (.raiseIf _ _) fun _ => writes_updateSeller _ _ _

/-- Showing a store writes nothing. -/
theorem getStoreForCaller_writes (storeId : Id) :
    (StoreService.getStoreForCaller caller storeId).Writes P := by
  refine .bind .read fun _ => .bind (.getOrRaise _ _) fun _ => .bind (.raiseIf _ _) fun _ =>
    .bind .read fun _ => .bind (.getOrRaise _ _) fun _ => .bind ?_ fun _ => .pure _
  unfold StoreService.ensureMayView
  cases caller.role with
  | admin => exact .pure _
  | seller => exact .raiseIf _ _
  | customer => exact .raiseIf _ _
  | driver => exact .raise _

/-- Creating a product writes it and its images. -/
theorem createProduct_writes (name : String) (priceMinor : ℤ) (description : Option String)
    (stockQuantity : Option ℤ) (images : List ImageSpec) (storeId : Option Id) :
    (ProductService.createProduct env caller name priceMinor description stockQuantity images
      storeId).Writes CatalogWrite :=
  .bind writes_getCallerSeller fun _ => .bind (writes_getCallerStore _ _) fun _ =>
    .bind (.raiseIf _ _) fun _ => .bind (writes_insertProduct _) fun _ =>
    .bind (writes_insertImages _) fun _ => .bind (.bind .read fun _ => .pure _) fun _ =>
    .getOrRaise _ _

/-- Checking who may edit writes nothing. -/
theorem writes_ensureMayEdit (product : Product) :
    (ProductService.ensureMayEdit caller product).Writes P := by
  unfold ProductService.ensureMayEdit
  cases caller.role with
  | admin => exact .pure _
  | seller => exact .bind writes_getCallerSeller fun _ => .raiseIf _ _
  | customer => exact .raise _
  | driver => exact .raise _

/-- Updating a product writes it and replaces its images. -/
theorem updateProduct_writes (productId : Id) (q : ProductPatch)
    (images : Option (List ImageSpec)) :
    (ProductService.updateProduct env caller productId q images).Writes CatalogWrite := by
  refine .bind (.bind .read fun _ => .pure _) fun _ => .bind (.getOrRaise _ _) fun full =>
    .bind (.raiseIf _ _) fun _ => .bind (writes_ensureMayEdit _) fun _ =>
    .bind (.bind (writes_checkProduct _ _) fun _ =>
      writes_updateProductRow _ (productEdit_patch _ _)) fun _ => .bind ?_ fun _ => .pure _
  cases images with
  | none => exact .pure _
  | some images =>
    exact .bind (writes_deleteImages _) fun _ => .bind (writes_insertImages _) fun _ => .pure _

/-- Deleting a product writes its row. -/
theorem softDeleteProduct_writes (productId : Id) :
    (ProductService.softDeleteProduct env caller productId).Writes CatalogWrite :=
  .bind .read fun _ => .bind (.getOrRaise _ _) fun _ => .bind (.raiseIf _ _) fun _ =>
    .bind (writes_ensureMayEdit _) fun _ => writes_updateProductRow _ (productEdit_softDelete _ _)

/-- Showing a product writes nothing. -/
theorem getProductForCaller_writes (productId : Id) :
    (ProductService.getProductForCaller caller productId).Writes P := by
  refine .bind (.bind .read fun _ => .pure _) fun _ => .bind (.getOrRaise _ _) fun _ =>
    .bind (.raiseIf _ _) fun _ => .bind ?_ fun _ => .pure _
  unfold ProductService.ensureMaySee
  cases caller.role with
  | admin => exact .pure _
  | seller => exact .bind writes_getCallerSeller fun _ => .raiseIf _ _
  | customer => exact .bind .read fun _ => .raiseIf _ _
  | driver => exact .raise _

/-- Listing products writes nothing. -/
theorem listProductsForCaller_writes (storeId sellerId : Option Id) (limit : ℤ) :
    (ProductService.listProductsForCaller caller storeId sellerId limit).Writes P :=
  .bind (.ite (.bind writes_getCallerSeller fun _ => .pure _) (.pure _)) fun _ =>
    .bind .read fun _ => .pure _

/-- Looking for a product to moderate writes nothing. -/
theorem writes_liveProduct (productId : Id) : (AdminService.liveProduct productId).Writes P :=
  .bind .read fun _ => .bind (.getOrRaise _ _) fun _ => .bind (.raiseIf _ _) fun _ => .pure _

/-- Loading a product again writes nothing. -/
theorem writes_refreshProduct (productId : Id) :
    (AdminService.refreshProduct productId).Writes P :=
  .bind .read fun _ => .getOrRaise _ _

/-- Every request about the catalog. -/
theorem catalogExec_writes (lower : String → String) (op : CatalogOp) :
    (op.exec lower env caller).Writes CatalogWrite := by
  cases op with
  | createStore name city description slug isPublic =>
    exact .bind (createStore_writes lower name city description slug isPublic) fun _ => .pure _
  | getOwnStore =>
    exact .bind (.bind writes_getCallerSeller fun _ => writes_getCallerStore _ _) fun _ => .pure _
  | updateOwnStore name city description isActive isPublic =>
    exact .bind (updateOwnStore_writes name city description isActive isPublic) fun _ => .pure _
  | getStoreForCaller storeId => exact .bind (getStoreForCaller_writes storeId) fun _ => .pure _
  | createProduct name priceMinor description stockQuantity images storeId =>
    exact .bind (createProduct_writes name priceMinor description stockQuantity images storeId)
      fun _ => .pure _
  | updateProduct productId q images =>
    exact .bind (updateProduct_writes productId q images) fun _ => .pure _
  | softDeleteProduct productId =>
    exact .bind (softDeleteProduct_writes productId) fun _ => .pure _
  | getProductForCaller productId =>
    exact .bind (getProductForCaller_writes productId) fun _ => .pure _
  | listProductsForCaller storeId sellerId limit =>
    exact .bind (listProductsForCaller_writes storeId sellerId limit) fun _ => .pure _
  | disableProduct productId reason =>
    exact .bind (.bind (writes_liveProduct _) fun _ => .bind (writes_updateProductRow _
      (productEdit_disable _ _ _)) fun _ => writes_refreshProduct _) fun _ => .pure _
  | restoreProduct productId =>
    exact .bind (.bind (writes_liveProduct _) fun _ => .bind (writes_updateProductRow _
      (productEdit_restore _)) fun _ => writes_refreshProduct _) fun _ => .pure _

end Writes

end Marketplace
