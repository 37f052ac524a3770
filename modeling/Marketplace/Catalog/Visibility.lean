import Mathlib.Data.List.Dedup
import Marketplace.Lib.Errors
import Marketplace.Catalog.Service
import Marketplace.Order.Runs

/-!
# What a customer sees of the catalog

A product is listed, fetched and ordered by three functions, which decide anew each time
whether the customer may see it. They agree on a product that is live, active, not disabled,
in a live store and sold by the seller who referred the customer; and on one that is not
shown at all. On every other product they disagree.
-/

namespace Marketplace

open Lib Txn Err OrderService ProductService

/-! ### The three surfaces -/

/-- The product is among those that `list_products_for_caller` selects. -/
def Listed (db : Db) (customer : User) (productId : Id) : Prop :=
  ∃ p ∈ matchingProducts db customer none none none, p.id = productId

/-- `get_product_for_caller` returns the product. -/
def Fetched (db : Db) (customer : User) (productId : Id) : Prop :=
  ∃ full, (getProductForCaller customer productId).run db = .ok (full, db)

/-- `create_order` does not refuse a line for the product with `ProductNotVisible`. -/
def Orderable (env : Env) (db : Db) (customer : User) (productId : Id) (quantity : ℤ)
    (address : Address) : Prop :=
  (createOrder env customer [{ productId, quantity }] address).run db ≠ .error productNotVisible

/-- The product is disabled, inactive, or in a deleted store. -/
def Product.Withdrawn (db : Db) (p : Product) : Prop :=
  p.status = .disabled ∨ p.isActive = false ∨
    ∃ s, db.stores.get p.storeId = some s ∧ s.deletedAt ≠ none

/-- The three surfaces agree, and show nothing that is withdrawn. -/
structure SurfacesAgree (env : Env) (db : Db) (customer : User) (productId : Id) (quantity : ℤ)
    (address : Address) : Prop where
  listed_iff : Listed db customer productId ↔ Fetched db customer productId
  fetched_iff : Fetched db customer productId ↔
    Orderable env db customer productId quantity address
  withdrawn : ∀ p, db.products.get productId = some p → p.Withdrawn db →
    ¬Listed db customer productId ∧ ¬Fetched db customer productId ∧
      ¬Orderable env db customer productId quantity address

/-! ### What each surface asks -/

/-- The store of the product is public. -/
def Product.InPublicStore (db : Db) (p : Product) : Prop :=
  ∃ s, db.stores.get p.storeId = some s ∧ s.isPublic = true

/-- The store of the product is live. -/
def Product.InLiveStore (db : Db) (p : Product) : Prop :=
  ∃ s, db.stores.get p.storeId = some s ∧ s.deletedAt = none

section Surfaces

variable {env : Env} {db : Db} {customer : User} {productId : Id} {quantity : ℤ}
  {address : Address}

/-- When a product is listed for a customer, read off the rows. -/
theorem listed_iff (hrole : customer.role = .customer) : Listed db customer productId ↔
    ∃ p, db.products.get productId = some p ∧ p.deletedAt = none ∧ p.isActive = true ∧
      p.InLiveStore db ∧
      (customer.referringSellerId = some p.sellerId ∨ p.InPublicStore db) := by
  unfold Listed matchingProducts
  simp only [List.mem_mergeSort, List.mem_filter, Option.all_none, true_and, decide_eq_true_eq,
    ProductService.listedFor, hrole, Bool.and_true, listedForCustomer, Option.any_eq_true]
  constructor
  · rintro ⟨p, ⟨hmem, hdeleted, hactive, s, hs, hlive, hsees⟩, rfl⟩
    refine ⟨p, Table.mem_rows_iff.mp hmem, hdeleted, hactive, ⟨s, hs, hlive⟩, ?_⟩
    exact hsees.imp_right fun hpublic => ⟨s, hs, hpublic⟩
  · rintro ⟨p, hget, hdeleted, hactive, ⟨s, hs, hlive⟩, hsees⟩
    have hid : p.id = productId := Table.key_of_get hget
    refine ⟨p, ⟨Table.mem_rows_iff.mpr (hid ▸ hget), hdeleted, hactive, s, hs, hlive, ?_⟩, hid⟩
    refine hsees.imp_right ?_
    rintro ⟨s', hs', hpublic⟩
    rw [hs] at hs'
    exact Option.some.inj hs' ▸ hpublic

/-- When a customer can fetch a product, read off the rows. -/
theorem fetched_iff (hrole : customer.role = .customer) : Fetched db customer productId ↔
    ∃ p, db.products.get productId = some p ∧ p.deletedAt = none ∧
      (customer.referringSellerId = some p.sellerId ∨ p.InPublicStore db) := by
  have hpublic : ∀ p : Product, storeIsPublic db p.storeId = true ↔ p.InPublicStore db := by
    intro p
    simp only [storeIsPublic, Option.any_eq_true, Product.InPublicStore]
  unfold Fetched
  simp only [getProductForCaller, loadProductWithImages, ensureMaySee, hrole, bind_eq, pure_eq,
    run_bind_ok, run_read_ok, run_ret_ok, run_getOrRaise_ok, run_raiseIf_ok]
  constructor
  · rintro ⟨full, found, _, ⟨_, _, ⟨rfl, rfl⟩, rfl, rfl⟩, full, _, ⟨hfound, rfl⟩, _, _,
      ⟨hdeleted, rfl⟩, _, _, ⟨_, _, ⟨rfl, rfl⟩, hsees, -⟩, -, -⟩
    obtain ⟨p, hp, rfl⟩ := Option.map_eq_some_iff.mp hfound
    refine ⟨p, hp, not_not.mp hdeleted, ?_⟩
    by_cases href : customer.referringSellerId = some p.sellerId
    · exact .inl href
    · refine .inr ((hpublic p).mp ?_)
      by_contra hprivate
      exact hsees ⟨Bool.not_eq_true _ ▸ hprivate, href⟩
  · rintro ⟨p, hp, hdeleted, hsees⟩
    refine ⟨_, _, _, ⟨_, _, ⟨rfl, rfl⟩, rfl, rfl⟩, _, _, ⟨by rw [hp]; rfl, rfl⟩, (), _,
      ⟨not_not_intro hdeleted, rfl⟩, (), _, ⟨_, _, ⟨rfl, rfl⟩, ?_, rfl⟩, rfl, rfl⟩
    rintro ⟨hprivate, href⟩
    have hstore := (hpublic p).mpr (hsees.resolve_left href)
    rw [hprivate] at hstore
    cases hstore

/-- The refusal that keeps a product from a customer. -/
def Err.NotVisible (e : Err) : Prop := e = productNotVisible

/-- The stock update raises nothing about the product. -/
theorem decrementStock_visible (lines : List (Product × ℤ)) :
    (decrementStock lines).NeverRaises Err.NotVisible := by
  induction lines with
  | nil => exact .pure _
  | cons line lines ih =>
    unfold decrementStock
    cases line.1.stockQuantity with
    | none => exact ih
    | some stock =>
      have hraise {p : Prop} [Decidable p] {e : Err} (he : ¬Err.NotVisible e) :
          (raiseIf p e : Tx Unit).NeverRaises Err.NotVisible := .raiseIf _ he
      exact .bind (.bind (hraise fun h => by cases h) fun _ =>
        .bind (hraise fun h => by cases h) fun _ => .updateRow _ _) fun _ => ih

/-- The item rows raise nothing about the product. -/
theorem insertItems_visible (orderId : Id) (i : ℕ) (lines : List (Product × ℤ)) :
    (insertItems env orderId i lines).NeverRaises Err.NotVisible := by
  induction lines generalizing i with
  | nil => exact .pure _
  | cons line lines ih =>
    refine .bind (.bind (.raiseIf _ nofun) fun _ => .bind (.raiseIf _ nofun) fun _ => ?_)
      fun _ => ih (i + 1)
    exact .bind (.acquire _) fun _ => .bind (.raiseIf _ nofun) fun _ => .modify _

/-- The part of `create_order` from the checks of the lines on. -/
theorem checked_notVisible {p : Product} (products : List Product) (seller : Id) :
    (do
      checkLines [(p, quantity)]
      decrementStock [(p, quantity)]
      let firstProduct ← getOrRaise products.head? (.unexpected "StopIteration")
      insertOrder (newOrder env customer seller firstProduct.storeId address [(p, quantity)])
      insertItems env (env.uuid4 0) 1 [(p, quantity)]
      loaded (env.uuid4 0) : Tx OrderFull).run db = .error productNotVisible ↔
      p.deletedAt ≠ none ∨ p.isActive = false := by
  have hstock : productOutOfStock ≠ productNotVisible := by decide
  have hplace : (do
      decrementStock [(p, quantity)]
      let firstProduct ← getOrRaise products.head? (.unexpected "StopIteration")
      insertOrder (newOrder env customer seller firstProduct.storeId address [(p, quantity)])
      insertItems env (env.uuid4 0) 1 [(p, quantity)]
      loaded (env.uuid4 0) : Tx OrderFull).NeverRaises Err.NotVisible := by
    refine .bind (decrementStock_visible _) fun _ => .bind (.getOrRaise _ nofun) fun _ => ?_
    refine .bind (.bind (.raiseIf _ nofun) fun _ => .bind (.acquire _) fun _ =>
      .bind (.raiseIf _ nofun) fun _ => .modify _) fun _ => ?_
    refine .bind (insertItems_visible _ 1 _) fun _ => ?_
    exact .bind (.bind .read fun _ => .pure _) fun _ => .getOrRaise _ nofun
  rw [bind_eq, run_bind_error]
  constructor
  · rintro (hchecks | ⟨_, t, -, hrun⟩)
    · simp only [checkLines, bind_eq, run_bind_error, run_raiseIf_error, run_raiseIf_ok, pure_eq,
        run_ret_error, hstock, and_true, and_false, or_false, exists_false] at hchecks
      exact hchecks
    · exact absurd rfl (hplace.run hrun)
  · intro hhidden
    left
    simp only [checkLines, bind_eq, run_bind_error, run_raiseIf_error, and_true]
    exact .inl hhidden

/-- A line is refused for the visibility of its product in these cases. -/
theorem createOrder_notVisible (hrole : customer.role = .customer) :
    (createOrder env customer [{ productId, quantity }] address).run db =
        .error productNotVisible ↔
      ∀ seller p, customer.referringSellerId = some seller →
        db.products.get productId = some p →
        seller ≠ p.sellerId ∨ p.deletedAt ≠ none ∨ p.isActive = false := by
  have hids : productIds [{ productId, quantity }] = [productId] := by
    unfold productIds
    rw [List.map_singleton, List.dedup_eq_self.mpr (List.nodup_singleton _),
      List.mergeSort_singleton]
  have hqty : qtyById [{ productId, quantity }] = [(productId, quantity)] := rfl
  simp only [createOrder, bind_eq, raiseIf_of_not (not_not_intro hrole), ret_bind,
    raiseIf_of_not (List.cons_ne_nil _ _), hids, hqty]
  cases href : customer.referringSellerId with
  | none => simp [getOrRaise, raise_bind, run]
  | some seller =>
    cases hget : db.products.get productId with
    | none => simp [getOrRaise, Txn.read, run, Txn.bind, hget, lockProducts, raiseIf]
    | some p =>
      have hid : p.id = productId := Table.key_of_get hget
      have hfilter : [productId].filter (fun id => (db.products.get id).isSome) = [productId] := by
        simp [hget]
      have hlock : (lockProducts [productId]).run db = .ok ([p], db) := by
        simp [lockProducts, hget]
      have hlines : resolveLines [p] [(productId, quantity)] = ret [(p, quantity)] := by
        simp [resolveLines, hid, getOrRaise, Txn.bind]
      have hsellers : ([p].map Product.sellerId).dedup.length ≠ 1 ∨
          seller ∉ [p].map Product.sellerId ↔ seller ≠ p.sellerId := by
        simp
      change ((lockProducts ([productId].filter _)).bind _).run db = _ ↔ _
      rw [hfilter, run_bind, hlock]
      simp only [Except.bind, List.length_singleton, ne_eq, not_true, raiseIf, if_false, ret_bind,
        hsellers, hlines]
      by_cases hseller : seller = p.sellerId
      · have hchecked := @checked_notVisible env db customer quantity address p [p] seller
        simpa [hseller] using hchecked
      · simp [hseller, raise_bind]

/-- When a customer may order a product, read off the rows. -/
theorem orderable_iff (hrole : customer.role = .customer) :
    Orderable env db customer productId quantity address ↔
      ∃ p, db.products.get productId = some p ∧ p.deletedAt = none ∧ p.isActive = true ∧
        customer.referringSellerId = some p.sellerId := by
  rw [Orderable, Ne, createOrder_notVisible hrole]
  push Not
  constructor
  · rintro ⟨seller, p, href, hget, rfl, hdeleted, hactive⟩
    exact ⟨p, hget, hdeleted, Bool.not_eq_false _ ▸ hactive, href⟩
  · rintro ⟨p, hget, hdeleted, hactive, href⟩
    exact ⟨p.sellerId, p, href, hget, rfl, hdeleted, by simp [hactive]⟩

/-! ### Where they agree -/

/-- No surface may show the product to the customer: it is not there, or it is neither sold by
the seller who referred the customer nor in a public store. -/
def Hidden (db : Db) (customer : User) (productId : Id) : Prop :=
  ∀ p, db.products.get productId = some p → p.deletedAt = none →
    customer.referringSellerId ≠ some p.sellerId ∧ ¬p.InPublicStore db

/-- Every surface may show the product to the customer. -/
structure OnSale (db : Db) (customer : User) (p : Product) : Prop where
  live : p.deletedAt = none
  active : p.isActive = true
  enabled : p.status ≠ .disabled
  store : p.InLiveStore db
  referred : customer.referringSellerId = some p.sellerId

/-- A hidden product cannot be fetched. -/
theorem not_fetched_of_hidden (hrole : customer.role = .customer)
    (h : Hidden db customer productId) : ¬Fetched db customer productId := by
  rw [fetched_iff hrole]
  rintro ⟨p, hp, hlive, hsees⟩
  obtain ⟨href, hprivate⟩ := h p hp hlive
  exact hsees.elim href hprivate

/-- What is listed can be fetched. -/
theorem Listed.fetched (hrole : customer.role = .customer) (h : Listed db customer productId) :
    Fetched db customer productId := by
  obtain ⟨p, hp, hlive, -, -, hsees⟩ := (listed_iff hrole).mp h
  exact (fetched_iff hrole).mpr ⟨p, hp, hlive, hsees⟩

/-- What may be ordered can be fetched. -/
theorem Orderable.fetched (hrole : customer.role = .customer)
    (h : Orderable env db customer productId quantity address) :
    Fetched db customer productId := by
  obtain ⟨p, hp, hlive, -, href⟩ := (orderable_iff hrole).mp h
  exact (fetched_iff hrole).mpr ⟨p, hp, hlive, .inl href⟩

/-- A product in a live store is not in a deleted one. -/
theorem Product.InLiveStore.not_deleted {p : Product} {s : Store} (h : p.InLiveStore db)
    (hs : db.stores.get p.storeId = some s) : s.deletedAt = none := by
  obtain ⟨t, ht, hlive⟩ := h
  rw [hs] at ht
  exact Option.some.inj ht ▸ hlive

/-- A product on sale is not withdrawn. -/
theorem OnSale.not_withdrawn {p : Product} (h : OnSale db customer p) : ¬p.Withdrawn db := by
  rintro (hstatus | hinactive | ⟨s, hs, hdeleted⟩)
  · exact h.enabled hstatus
  · rw [h.active] at hinactive
    cases hinactive
  · exact hdeleted (h.store.not_deleted hs)

end Surfaces

/-- **Where product visibility agrees.** For a customer, the listing, the fetching and the
ordering of a product agree and show nothing withdrawn exactly when the product may be shown by
none of them, or is on sale by the seller who referred the customer. -/
theorem product_visibility (env : Env) (db : Db) (customer : User) (productId : Id)
    (quantity : ℤ) (address : Address) (hrole : customer.role = .customer) :
    SurfacesAgree env db customer productId quantity address ↔
      Hidden db customer productId ∨
        ∃ p, db.products.get productId = some p ∧ OnSale db customer p := by
  constructor
  · intro h
    by_cases hfetched : Fetched db customer productId
    · right
      obtain ⟨p, hp, hlive, hactive, hstore, -⟩ := (listed_iff hrole).mp (h.listed_iff.mpr hfetched)
      obtain ⟨p', hp', -, -, href⟩ := (orderable_iff hrole).mp (h.fetched_iff.mp hfetched)
      rw [hp] at hp'
      obtain rfl := Option.some.inj hp'
      have henabled : p.status ≠ .disabled := by
        intro hstatus
        exact (h.withdrawn p hp (.inl hstatus)).2.1 hfetched
      exact ⟨p, hp, hlive, hactive, henabled, hstore, href⟩
    · left
      intro p hp hlive
      rw [fetched_iff hrole] at hfetched
      push Not at hfetched
      exact hfetched p hp hlive
  · rintro (hhidden | ⟨p, hp, hsale⟩)
    · have hno := not_fetched_of_hidden hrole hhidden
      have hlisted : ¬Listed db customer productId := fun hl => hno (hl.fetched hrole)
      have horder : ¬Orderable env db customer productId quantity address :=
        fun ho => hno (ho.fetched hrole)
      exact ⟨iff_of_false hlisted hno, iff_of_false hno horder,
        fun _ _ _ => ⟨hlisted, hno, horder⟩⟩
    · have hlisted : Listed db customer productId :=
        (listed_iff hrole).mpr ⟨p, hp, hsale.live, hsale.active, hsale.store, .inl hsale.referred⟩
      have horder : Orderable env db customer productId quantity address :=
        (orderable_iff hrole).mpr ⟨p, hp, hsale.live, hsale.active, hsale.referred⟩
      have hfetched := hlisted.fetched hrole
      refine ⟨iff_of_true hlisted hfetched, iff_of_true hfetched horder, fun q hq hwithdrawn => ?_⟩
      rw [hp] at hq
      obtain rfl := Option.some.inj hq
      exact absurd hwithdrawn hsale.not_withdrawn

namespace Sample

/-- The sample server with the store of its seller. -/
def catalog : Db :=
  { start.db with stores := (∅ : Table Store Store.id).insert { id := 7, sellerId := 2 } }

/-- The surroundings of a request at the time `9`. -/
def catalogEnv : Env :=
  { now := fun _ => 9, transactionNow := 9, uuid4 := fun i => Nat.pair 9 i, randbelow := 0 }

/-- The administrator has disabled the product. -/
def moderated : Db := ((AdminService.disableProduct catalogEnv 6 "Counterfeit").session catalog).2

/-- The seller has taken the product off the list. -/
def delisted : Db :=
  ((updateProduct catalogEnv seller 6 { isActive := some false } none).session catalog).2

/-- Everyone may browse the store. -/
def opened : Db :=
  ((StoreService.updateOwnStore seller none none none none (some true)).session catalog).2

/-- A customer whom nobody has referred. -/
def visitor : User := { id := 8, role := .customer }

end Sample

/-- The product on sale is shown by all three. -/
theorem product_visibility_on_sale :
    SurfacesAgree Sample.catalogEnv Sample.catalog Sample.customer 6 1 {} :=
  (product_visibility Sample.catalogEnv Sample.catalog Sample.customer 6 1 {} rfl).mpr
    (.inr ⟨Sample.product, by decide +kernel, rfl, rfl, by decide,
      ⟨{ id := 7, sellerId := 2 }, by decide +kernel, rfl⟩, rfl⟩)

/-- A disabled product is shown all the same; a product that is not listed is fetched; and a
visitor who is shown a product of a public store may not order it. -/
theorem surfaces_disagree :
    ¬SurfacesAgree Sample.catalogEnv Sample.moderated Sample.customer 6 1 {} ∧
      ¬SurfacesAgree Sample.catalogEnv Sample.delisted Sample.customer 6 1 {} ∧
      ¬SurfacesAgree Sample.catalogEnv Sample.opened Sample.visitor 6 1 {} := by
  refine ⟨fun h => ?_, fun h => ?_, fun h => ?_⟩
  · have hp : Sample.moderated.products.get 6 = some
        { Sample.product with status := .disabled, disabledAt := some 9,
                              disabledReason := some "Counterfeit" } := by decide +kernel
    refine (h.withdrawn _ hp (.inl rfl)).2.1 ((fetched_iff rfl).mpr ⟨_, hp, rfl, .inl rfl⟩)
  · have hp : Sample.delisted.products.get 6 = some { Sample.product with isActive := false } := by
      decide +kernel
    have hfetched : Fetched Sample.delisted Sample.customer 6 :=
      (fetched_iff rfl).mpr ⟨_, hp, rfl, .inl rfl⟩
    exact (h.withdrawn _ hp (.inr (.inl rfl))).2.1 hfetched
  · have hp : Sample.opened.products.get 6 = some Sample.product := by decide +kernel
    have hfetched : Fetched Sample.opened Sample.visitor 6 :=
      (fetched_iff rfl).mpr ⟨_, hp, rfl, .inr
        ⟨{ id := 7, sellerId := 2, isPublic := true }, by decide +kernel, rfl⟩⟩
    obtain ⟨p, -, -, -, href⟩ := (orderable_iff rfl).mp (h.fetched_iff.mp hfetched)
    cases href

end Marketplace
