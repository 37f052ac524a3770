import Marketplace.Catalog.Service
import Marketplace.Order.Response
import Marketplace.Wire.Texts

/-!
# Orders and products between server and client

The bodies of the order and product endpoints, and the `fromJson` factories that read them.
The client looks for names that the server does not send: a list is read as empty, and an
item without its name and its price.
-/

namespace Marketplace

open Lib

/-! ### The bodies of the server -/

/-- The label of an assignment status in the database. -/
def DriverAssignmentStatus.label : DriverAssignmentStatus → String
  | requested => "requested"
  | assigned => "assigned"
  | accepted => "accepted"
  | declined => "declined"
  | cancelled => "cancelled"

/-- `Address.model_dump()`. -/
def Address.toJson (a : Address) : Json.Entries :=
  [("line1", .str a.line1), ("line2", .ofOption .str a.line2), ("city", .str a.city),
   ("region", .ofOption .str a.region), ("postal", .ofOption .str a.postal),
   ("country", .str a.country), ("lat", .ofOption .double a.lat),
   ("lng", .ofOption .double a.lng), ("notes", .ofOption .str a.notes)]

section Bodies

variable (texts : TimeTexts)

/-- The body of an `OrderLineItemOut`. -/
def OrderLineItemOut.toJson (i : OrderLineItemOut) : Json.Entries :=
  [("id", uuidJson i.id), ("product_id", .ofOption uuidJson i.productId),
   ("product_name_snapshot", .str i.productNameSnapshot),
   ("unit_price_minor_snapshot", .int i.unitPriceMinorSnapshot), ("quantity", .int i.quantity)]

/-- The body of a `DeliveryOut`. -/
def DeliveryOut.toJson (d : DeliveryOut) : Json.Entries :=
  [("id", uuidJson d.id), ("driver_id", .ofOption uuidJson d.driverId),
   ("seller_id", uuidJson d.sellerId), ("status", .str d.status.label),
   ("started_at", .ofOption texts.json d.startedAt),
   ("delivered_at", .ofOption texts.json d.deliveredAt)]

/-- The body of a `DriverAssignmentOut`. -/
def DriverAssignmentOut.toJson (a : DriverAssignmentOut) : Json.Entries :=
  [("id", uuidJson a.id), ("driver_id", .ofOption uuidJson a.driverId),
   ("status", .str a.status.label), ("requested_at", texts.json a.requestedAt),
   ("assigned_at", .ofOption texts.json a.assignedAt)]

/-- The body of an `OrderResponse`. -/
def OrderResponse.toJson (r : OrderResponse) : Json.Entries :=
  [("id", uuidJson r.id), ("customer_id", uuidJson r.customerId),
   ("seller_id", uuidJson r.sellerId), ("store_id", uuidJson r.storeId),
   ("status", .str r.status), ("subtotal_minor", .int r.subtotalMinor),
   ("total_minor", .int r.totalMinor),
   ("delivery_address", .obj (r.deliveryAddress.elim [] Address.toJson)),
   ("placed_at", texts.json r.placedAt), ("accepted_at", .ofOption texts.json r.acceptedAt),
   ("preparing_at", .ofOption texts.json r.preparingAt),
   ("out_for_delivery_at", .ofOption texts.json r.outForDeliveryAt),
   ("delivered_at", .ofOption texts.json r.deliveredAt),
   ("completed_at", .ofOption texts.json r.completedAt),
   ("cancelled_at", .ofOption texts.json r.cancelledAt),
   ("cancellation_reason", .ofOption .str r.cancellationReason),
   ("items", .arr (r.items.map fun i => .obj i.toJson)),
   ("delivery", .ofOption (fun d => .obj (d.toJson texts)) r.delivery),
   ("driver_assignment", .ofOption (fun a => .obj (a.toJson texts)) r.driverAssignment)]

/-- The body of an `OrderListResponse`. -/
def orderListJson (rs : List OrderResponse) : Json.Entries :=
  [("data", .arr (rs.map fun r => .obj (r.toJson texts)))]

/-- `sorted(images, key=lambda i: i.display_order)`. -/
def sortedImages (images : List ProductImage) : List ProductImage :=
  images.mergeSort fun i j => i.displayOrder ≤ j.displayOrder

/-- The body of `ProductResponse(**product_to_response_dict(product))`. -/
def productToResponse (f : ProductFull) : Json.Entries :=
  [("id", uuidJson f.product.id), ("seller_id", uuidJson f.product.sellerId),
   ("store_id", uuidJson f.product.storeId), ("name", .str f.product.name),
   ("description", .str f.product.description), ("price_minor", .int f.product.priceMinor),
   ("stock_quantity", .ofOption .int f.product.stockQuantity),
   ("is_active", .bool f.product.isActive), ("created_at", texts.json f.product.createdAt),
   ("images", .arr ((sortedImages f.images).map fun i =>
     .obj [("id", uuidJson i.id), ("s3_key", .str i.s3Key),
           ("display_order", .int i.displayOrder)]))]

end Bodies

/-- The body of `ProductListItem(**product_to_list_item_dict(product))`. -/
def productToListItem (f : ProductFull) : Json.Entries :=
  [("id", uuidJson f.product.id), ("seller_id", uuidJson f.product.sellerId),
   ("store_id", uuidJson f.product.storeId), ("name", .str f.product.name),
   ("price_minor", .int f.product.priceMinor),
   ("stock_quantity", .ofOption .int f.product.stockQuantity),
   ("is_active", .bool f.product.isActive),
   ("image_s3_key", .ofOption (fun i => .str i.s3Key) (sortedImages f.images).head?)]

/-- The body of a `ProductListResponse`. -/
def productListJson (products : List ProductFull) : Json.Entries :=
  [("data", .arr (products.map fun f => .obj (productToListItem f))),
   ("pagination", .obj [("next_cursor", .null), ("has_more", .bool false)])]

/-! ### The factories of the client -/

namespace Client

/-- `DeliveryAddress`. -/
structure DeliveryAddress where
  line1 : String
  line2 : Option String := none
  city : String
  region : Option String := none
  postal : Option String := none
  country : String
  notes : Option String := none
deriving DecidableEq, Repr

/-- `DeliveryAddress.fromJson`. -/
def DeliveryAddress.fromJson (json : Json.Entries) : Except Json.ReadError DeliveryAddress := do
  let line1 ← (json.at "line1").asString
  let line2 ← Json.orNull Json.asString (json.at "line2")
  let city ← (json.at "city").asString
  let region ← Json.orNull Json.asString (json.at "region")
  let postal ← Json.orNull Json.asString (json.at "postal")
  let country ← (json.at "country").asString
  let notes ← Json.orNull Json.asString (json.at "notes")
  pure { line1, line2, city, region, postal, country, notes }

/-- `OrderItem`. -/
structure OrderItem where
  productId : String
  name : String
  quantity : ℤ
  unitPriceMinor : ℤ
  lineTotalMinor : ℤ
deriving DecidableEq, Repr

/-- `OrderItem.fromJson`. -/
def OrderItem.fromJson (json : Json.Entries) : Except Json.ReadError OrderItem := do
  let productId ← (json.at "product_id").asString
  let name ← Json.orNull Json.asString (json.at "name")
  let quantity ← (json.at "quantity").asInt
  let unitPriceMinor ← Json.orNull Json.asInt (json.at "unit_price_minor")
  let lineTotalMinor ← Json.orNull Json.asInt (json.at "line_total_minor")
  pure { productId, name := name.getD "", quantity, unitPriceMinor := unitPriceMinor.getD 0,
         lineTotalMinor := lineTotalMinor.getD 0 }

/-- `(json as List? ?? []).map((e) => fromJson(e as Map)).toList()`. -/
def readList {α : Type} (fromJson : Json.Entries → Except Json.ReadError α) (json : Json) :
    Except Json.ReadError (List α) := do
  let elements ← Json.orNull Json.asList json
  (elements.getD []).mapM fun e => do
    let entries ← e.asMap
    fromJson entries

/-- `OrderResponse`. -/
structure OrderResponse where
  id : String
  sellerId : String
  customerId : String
  status : String
  totalMinor : ℤ
  currencyCode : String
  items : List OrderItem
  deliveryAddress : DeliveryAddress
  createdAt : Time
  storeName : Option String
deriving DecidableEq, Repr

/-- The address of an order without one. -/
def noAddress : DeliveryAddress := { line1 := "", city := "", country := "US" }

/-- `OrderResponse.fromJson`; `now` is what `DateTime.now()` gives. -/
def OrderResponse.fromJson (texts : TimeTexts) (now : Time) (json : Json.Entries) :
    Except Json.ReadError OrderResponse := do
  let deliveryAddress ← match json.at "delivery_address" with
    | .obj entries => DeliveryAddress.fromJson entries
    | _ => pure noAddress
  let id ← (json.at "id").asString
  let sellerId ← (json.at "seller_id").asString
  let customerId ← (json.at "customer_id").asString
  let status ← (json.at "status").asString
  let totalMinor ← Json.orNull Json.asInt (json.at "total_minor")
  let currencyCode ← Json.orNull Json.asString (json.at "currency_code")
  let items ← readList OrderItem.fromJson (json.at "items")
  let createdAt ← Json.orNull Json.asString (json.at "created_at")
  let storeName ← Json.orNull Json.asString (json.at "store_name")
  pure { id, sellerId, customerId, status, totalMinor := totalMinor.getD 0,
         currencyCode := currencyCode.getD "USD", items, deliveryAddress,
         createdAt := (texts.tryParse (createdAt.getD "")).getD now, storeName }

/-- `OrderListResponse.fromJson`. -/
def orderListFromJson (texts : TimeTexts) (now : Time) (json : Json.Entries) :
    Except Json.ReadError (List OrderResponse) :=
  readList (OrderResponse.fromJson texts now) (json.at "items")

/-- `ProductImage`. -/
structure ProductImage where
  s3Key : String
  displayOrder : ℤ
deriving DecidableEq, Repr

/-- `ProductImage.fromJson`. -/
def ProductImage.fromJson (json : Json.Entries) : Except Json.ReadError ProductImage := do
  let s3Key ← (json.at "s3_key").asString
  let displayOrder ← Json.orNull Json.asInt (json.at "display_order")
  pure { s3Key, displayOrder := displayOrder.getD 0 }

/-- `ProductResponse`. -/
structure ProductResponse where
  id : String
  storeId : String
  sellerId : String
  name : String
  description : String
  priceMinor : ℤ
  currencyCode : String
  stockQuantity : ℤ
  isActive : Bool
  images : List ProductImage
deriving DecidableEq, Repr

/-- `ProductResponse.fromJson`. -/
def ProductResponse.fromJson (json : Json.Entries) : Except Json.ReadError ProductResponse := do
  let images ← readList ProductImage.fromJson (json.at "images")
  let id ← (json.at "id").asString
  let storeId ← (json.at "store_id").asString
  let sellerId ← (json.at "seller_id").asString
  let name ← (json.at "name").asString
  let description ← Json.orNull Json.asString (json.at "description")
  let priceMinor ← (json.at "price_minor").asInt
  let currencyCode ← Json.orNull Json.asString (json.at "currency_code")
  let stockQuantity ← Json.orNull Json.asInt (json.at "stock_quantity")
  let isActive ← Json.orNull Json.asBool (json.at "is_active")
  pure { id, storeId, sellerId, name, description := description.getD "", priceMinor,
         currencyCode := currencyCode.getD "USD", stockQuantity := stockQuantity.getD 0,
         isActive := isActive.getD true,
         images := images.mergeSort fun a b => a.displayOrder ≤ b.displayOrder }

/-- `ProductListResponse.fromJson`. -/
def productListFromJson (json : Json.Entries) : Except Json.ReadError (List ProductResponse) :=
  readList ProductResponse.fromJson (json.at "items")

end Client

/-! ### What the client preserves -/

/-- An entry of an order keeps its name, its unit price and its quantity. -/
structure ItemPreserved (i : OrderLineItemOut) (d : Client.OrderItem) : Prop where
  name : d.name = i.productNameSnapshot
  unitPriceMinor : d.unitPriceMinor = i.unitPriceMinorSnapshot
  quantity : d.quantity = i.quantity

/-- An order keeps its id, status, total and placement time, and its entries in their order. -/
structure OrderPreserved (r : OrderResponse) (d : Client.OrderResponse) : Prop where
  id : d.id = uuidStr r.id
  status : d.status = r.status
  totalMinor : d.totalMinor = r.totalMinor
  placedAt : d.createdAt = r.placedAt
  items : List.Forall₂ ItemPreserved r.items d.items

/-- A product keeps its id, name, price, state and stock; unlimited stock is no number. -/
structure ProductPreserved (p : Product) (d : Client.ProductResponse) : Prop where
  id : d.id = uuidStr p.id
  name : d.name = p.name
  priceMinor : d.priceMinor = p.priceMinor
  isActive : d.isActive = p.isActive
  stock : p.stockQuantity = some d.stockQuantity

/-- A response of the order and product endpoints. -/
inductive RestResponse
  | order (r : OrderResponse)
  | orders (rs : List OrderResponse)
  | product (f : ProductFull)
  | products (fs : List ProductFull)

namespace RestResponse

variable (texts : TimeTexts) (now : Time)

/-- The client reads the body and preserves each entry. -/
def Agrees : RestResponse → Prop
  | order r => ∃ d, Client.OrderResponse.fromJson texts now (r.toJson texts) = .ok d ∧
      OrderPreserved r d
  | orders rs => ∃ ds, Client.orderListFromJson texts now (orderListJson texts rs) = .ok ds ∧
      List.Forall₂ OrderPreserved rs ds
  | product f => ∃ d, Client.ProductResponse.fromJson (productToResponse texts f) = .ok d ∧
      ProductPreserved f.product d
  | products fs => ∃ ds, Client.productListFromJson (productListJson fs) = .ok ds ∧
      List.Forall₂ (fun f d => ProductPreserved f.product d) fs ds

/-- The defaults of the client happen to be right. A single order is not masked, was placed
at the very time it is read, and its items are of products that exist, without name and
price; a list is empty; a product has a limited stock. -/
def DefaultsFit : RestResponse → Prop
  | order r => r.deliveryAddress ≠ none ∧ r.placedAt = now ∧ ∀ i ∈ r.items,
      i.productId ≠ none ∧ i.productNameSnapshot = "" ∧ i.unitPriceMinorSnapshot = 0
  | orders rs => rs = []
  | product f => f.product.stockQuantity ≠ none
  | products fs => fs = []

end RestResponse

/-- What the client reads for an item. -/
theorem orderItem_fromJson (i : OrderLineItemOut) :
    Client.OrderItem.fromJson i.toJson = match i.productId with
      | none => .error .typeError
      | some productId => .ok { productId := uuidStr productId, name := "",
                                quantity := i.quantity, unitPriceMinor := 0,
                                lineTotalMinor := 0 } := by
  obtain ⟨id, productId, name, price, quantity⟩ := i
  cases productId with
  | none => rfl
  | some productId => rfl

/-- What the client reads for an address. -/
theorem address_fromJson (a : Address) :
    Client.DeliveryAddress.fromJson a.toJson =
      .ok { line1 := a.line1, line2 := a.line2, city := a.city, region := a.region,
            postal := a.postal, country := a.country, notes := a.notes } := by
  obtain ⟨line1, line2, city, region, postal, country, lat, lng, notes⟩ := a
  cases line2 <;> cases region <;> cases postal <;> cases notes <;> rfl

/-- A list of written objects is read object by object. -/
theorem readList_map {α β : Type} (fromJson : Json.Entries → Except Json.ReadError β)
    (toJson : α → Json.Entries) (xs : List α) :
    Client.readList fromJson (.arr (xs.map fun x => .obj (toJson x))) =
      xs.mapM fun x => fromJson (toJson x) :=
  List.mapM_map

/-- What the client reads for an order. -/
theorem orderResponse_fromJson (texts : TimeTexts) (now : Time) (r : OrderResponse) :
    Client.OrderResponse.fromJson texts now (r.toJson texts) = match r.deliveryAddress with
      | none => .error .typeError
      | some a =>
        (r.items.mapM fun i => Client.OrderItem.fromJson i.toJson).map fun items =>
          { id := uuidStr r.id, sellerId := uuidStr r.sellerId,
            customerId := uuidStr r.customerId, status := r.status, totalMinor := r.totalMinor,
            currencyCode := "USD", items,
            deliveryAddress := { line1 := a.line1, line2 := a.line2, city := a.city,
                                 region := a.region, postal := a.postal, country := a.country,
                                 notes := a.notes }
            createdAt := now, storeName := none } := by
  cases haddress : r.deliveryAddress with
  | none =>
    have hjson : (r.toJson texts).at "delivery_address" = .obj [] := by
      simp [OrderResponse.toJson, Json.Entries.at, List.lookup_cons, haddress]
    simp only [Client.OrderResponse.fromJson, hjson]
    rfl
  | some a =>
    have hjson : (r.toJson texts).at "delivery_address" = .obj a.toJson := by
      simp [OrderResponse.toJson, Json.Entries.at, List.lookup_cons, haddress]
    have hitems : Client.readList Client.OrderItem.fromJson ((r.toJson texts).at "items") =
        r.items.mapM fun i => Client.OrderItem.fromJson i.toJson :=
      readList_map Client.OrderItem.fromJson OrderLineItemOut.toJson r.items
    have htime : (texts.tryParse ((none : Option String).getD "")).getD now = now := by
      simp [texts.tryParse_empty]
    simp only [Client.OrderResponse.fromJson, hjson, address_fromJson, hitems]
    cases r.items.mapM fun i => Client.OrderItem.fromJson i.toJson with
    | error e => rfl
    | ok items =>
      refine congrArg Except.ok ?_
      simp only [Client.OrderResponse.mk.injEq, true_and, and_true]
      exact ⟨rfl, rfl, htime⟩

/-- The client reads every single product; it takes unlimited stock for none. -/
theorem productResponse_fromJson (texts : TimeTexts) (f : ProductFull) :
    ∃ images, Client.ProductResponse.fromJson (productToResponse texts f) =
      .ok { id := uuidStr f.product.id, storeId := uuidStr f.product.storeId,
            sellerId := uuidStr f.product.sellerId, name := f.product.name,
            description := f.product.description, priceMinor := f.product.priceMinor,
            currencyCode := "USD", stockQuantity := f.product.stockQuantity.getD 0,
            isActive := f.product.isActive, images } := by
  have himages : Client.readList Client.ProductImage.fromJson
      ((productToResponse texts f).at "images") = .ok ((sortedImages f.images).map fun i =>
        { s3Key := i.s3Key, displayOrder := i.displayOrder }) := by
    have hread := readList_map Client.ProductImage.fromJson
      (fun i : ProductImage => [("id", uuidJson i.id), ("s3_key", .str i.s3Key),
        ("display_order", .int i.displayOrder)]) (sortedImages f.images)
    exact hread.trans List.mapM_pure
  simp only [Client.ProductResponse.fromJson, himages]
  cases hstock : f.product.stockQuantity with
  | none =>
    have hjson : (productToResponse texts f).at "stock_quantity" = .null := by
      simp [productToResponse, Json.Entries.at, List.lookup_cons, hstock]
    simp only [hjson]
    exact ⟨_, rfl⟩
  | some n =>
    have hjson : (productToResponse texts f).at "stock_quantity" = .int n := by
      simp [productToResponse, Json.Entries.at, List.lookup_cons, hstock]
    simp only [hjson]
    exact ⟨_, rfl⟩

/-- The client reads every list as the empty one. -/
theorem orderListFromJson_eq (texts : TimeTexts) (now : Time) (rs : List OrderResponse) :
    Client.orderListFromJson texts now (orderListJson texts rs) = .ok [] := rfl

/-- The product list reads as empty. -/
theorem productListFromJson_eq (fs : List ProductFull) :
    Client.productListFromJson (productListJson fs) = .ok [] := rfl

/-- An item is preserved when it is of a product and the defaults for its name and its price
are right. -/
theorem itemPreserved_iff (i : OrderLineItemOut) :
    (∃ d, Client.OrderItem.fromJson i.toJson = .ok d ∧ ItemPreserved i d) ↔
      i.productId ≠ none ∧ i.productNameSnapshot = "" ∧ i.unitPriceMinorSnapshot = 0 := by
  rw [orderItem_fromJson]
  cases hproduct : i.productId with
  | none => simp
  | some productId =>
    constructor
    · rintro ⟨d, hd, hname, hprice, -⟩
      cases hd
      exact ⟨by simp, hname.symm, hprice.symm⟩
    · rintro ⟨-, hname, hprice⟩
      exact ⟨_, rfl, hname.symm, hprice.symm, rfl⟩

/-- The client reads a response and preserves its entries exactly when its defaults fit. -/
theorem restAgreement (texts : TimeTexts) (now : Time) (response : RestResponse) :
    response.Agrees texts now ↔ response.DefaultsFit now := by
  cases response with
  | order r =>
    simp only [RestResponse.Agrees, RestResponse.DefaultsFit, orderResponse_fromJson]
    cases haddress : r.deliveryAddress with
    | none => simp
    | some a =>
      simp only [← itemPreserved_iff, ← exists_forall₂]
      constructor
      · rintro ⟨d, hd, hpreserved⟩
        cases hread : r.items.mapM fun i => Client.OrderItem.fromJson i.toJson with
        | error e => simp [hread, Except.map] at hd
        | ok items =>
          obtain rfl : _ = d := by simpa [hread, Except.map] using hd
          have hitems : List.Forall₂ ItemPreserved r.items items := hpreserved.items
          refine ⟨by simp, hpreserved.placedAt.symm, items, ?_⟩
          exact (mapM_eq_ok.mp hread).mp (fun _ _ hd hp => ⟨hd, hp⟩) hitems
      · rintro ⟨-, hplaced, items, hitems⟩
        have hread := mapM_eq_ok.mpr (hitems.imp fun _ _ h => h.1)
        have hpreserved := hitems.imp fun _ _ h => h.2
        rw [hread]
        exact ⟨_, rfl, rfl, rfl, rfl, hplaced.symm, hpreserved⟩
  | orders rs =>
    simp only [RestResponse.Agrees, RestResponse.DefaultsFit, orderListFromJson_eq]
    simp
  | product f =>
    obtain ⟨images, himages⟩ := productResponse_fromJson texts f
    simp only [RestResponse.Agrees, RestResponse.DefaultsFit, himages]
    constructor
    · rintro ⟨d, -, -, -, -, -, hstock⟩
      simp [hstock]
    · intro hstock
      obtain ⟨n, hn⟩ := Option.ne_none_iff_exists'.mp hstock
      exact ⟨_, rfl, rfl, rfl, rfl, rfl, by simp [hn]⟩
  | products fs =>
    simp only [RestResponse.Agrees, RestResponse.DefaultsFit, productListFromJson_eq]
    simp

namespace Sample

/-- An accepted order of one item. -/
def oneItem : OrderFull :=
  { order := { id := 10, customerId := 3, sellerId := 2, storeId := 5, status := .accepted,
               subtotalMinor := 1500, totalMinor := 1500,
               deliveryAddress := { line1 := "1 Main St", city := "Springfield", country := "US" }
               placedAt := 0 }
    orderItems := [{ id := 11, orderId := 10, productId := some 7,
                     productNameSnapshot := "Honey", unitPriceMinorSnapshot := 1500,
                     quantity := 1 }]
    delivery := none, driverAssignments := [] }

end Sample

/-- The client loses the order from a list, and its name and price from a single response. -/
theorem oneItem_disagrees :
    ¬(RestResponse.orders [OrderService.orderToResponse Sample.oneItem]).Agrees
        Sample.timeTexts 0 ∧
      ¬(RestResponse.order (OrderService.orderToResponse Sample.oneItem)).Agrees
        Sample.timeTexts 0 := by
  constructor
  · rintro ⟨ds, hds, hpreserved⟩
    rw [orderListFromJson_eq] at hds
    cases hds
    cases hpreserved
  · rintro ⟨d, hd, hpreserved⟩
    rw [orderResponse_fromJson] at hd
    cases hd
    have hitems := hpreserved.items
    cases hitems with
    | cons hitem _ =>
      have hname := hitem.name
      revert hname
      decide

end Marketplace
