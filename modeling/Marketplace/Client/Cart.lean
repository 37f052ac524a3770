import Mathlib.Algebra.Group.Nat.Defs
import Mathlib.Algebra.Ring.Int.Defs
import Marketplace.Lib.Json
import Marketplace.Lib.LinkedMap
import Marketplace.Lib.Run

/-!
# The cart of the client

`cart_store.dart`: a bucket of lines for each seller, held in memory and in the secure storage of
the device. Every call computes the next cart from the one in memory, waits until the storage has
it, and only then publishes it. What is stored is therefore always what is published, but a call
that is issued while another one is waiting does not see what that one is about to publish.
-/

namespace Marketplace

open Lib

/-! ### Carts as JSON -/

/-- `CartLine`. -/
structure CartLine where
  productId : String
  name : String
  unitPriceMinor : ℤ
  quantity : ℤ
  imageKey : Option String := none
  stockQuantity : Option ℤ := none
deriving DecidableEq, Repr

/-- `SellerCart`. -/
structure SellerCart where
  sellerId : String
  storeName : String
  currencyCode : String
  lines : List CartLine
deriving DecidableEq, Repr

/-- `CartState`. -/
structure CartState where
  buckets : LinkedMap String SellerCart
deriving DecidableEq

namespace CartLine

/-- `CartLine.toJson`. -/
def toJson (line : CartLine) : Json.Entries :=
  [("product_id", .str line.productId), ("name", .str line.name),
   ("unit_price_minor", .int line.unitPriceMinor), ("quantity", .int line.quantity)] ++
  (line.imageKey.map fun key => ("image_key", Json.str key)).toList ++
  (line.stockQuantity.map fun n => ("stock_quantity", Json.int n)).toList

/-- `CartLine.fromJson`. -/
def fromJson (json : Json.Entries) : Except Json.ReadError CartLine := do
  let productId ← (json.at "product_id").asString
  let name ← Json.orNull Json.asString (json.at "name")
  let unitPriceMinor ← Json.orNull Json.asInt (json.at "unit_price_minor")
  let quantity ← Json.orNull Json.asInt (json.at "quantity")
  let imageKey ← Json.orNull Json.asString (json.at "image_key")
  let stockQuantity ← Json.orNull Json.asInt (json.at "stock_quantity")
  pure { productId, name := name.getD "", unitPriceMinor := unitPriceMinor.getD 0,
         quantity := quantity.getD 1, imageKey, stockQuantity }

/-- A line is read back as it was written. -/
theorem fromJson_toJson (line : CartLine) : fromJson line.toJson = .ok line := by
  have hproduct : line.toJson.at "product_id" = .str line.productId := rfl
  have hname : line.toJson.at "name" = .str line.name := rfl
  have hprice : line.toJson.at "unit_price_minor" = .int line.unitPriceMinor := rfl
  have hquantity : line.toJson.at "quantity" = .int line.quantity := rfl
  have himage : line.toJson.at "image_key" = .ofOption .str line.imageKey := by
    rcases line with ⟨_, _, _, _, _ | _, _ | _⟩ <;> rfl
  have hstock : line.toJson.at "stock_quantity" = .ofOption .int line.stockQuantity := by
    rcases line with ⟨_, _, _, _, _ | _, _ | _⟩ <;> rfl
  rw [fromJson, hproduct, hname, hprice, hquantity, himage, hstock]
  rcases line with ⟨_, _, _, _, _ | _, _ | _⟩ <;> rfl

end CartLine

namespace SellerCart

/-- `SellerCart.toJson`. -/
def toJson (cart : SellerCart) : Json.Entries :=
  [("seller_id", .str cart.sellerId), ("store_name", .str cart.storeName),
   ("currency_code", .str cart.currencyCode),
   ("lines", .arr (cart.lines.map fun line => .obj line.toJson))]

/-- `SellerCart.fromJson`. -/
def fromJson (json : Json.Entries) : Except Json.ReadError SellerCart := do
  let sellerId ← (json.at "seller_id").asString
  let storeName ← Json.orNull Json.asString (json.at "store_name")
  let currencyCode ← Json.orNull Json.asString (json.at "currency_code")
  let elements ← Json.orNull Json.asList (json.at "lines")
  let lines ← (elements.getD []).mapM fun element => element.asMap >>= CartLine.fromJson
  pure { sellerId, storeName := storeName.getD "", currencyCode := currencyCode.getD "USD", lines }

/-- So is the cart of a seller. -/
theorem fromJson_toJson (cart : SellerCart) : fromJson cart.toJson = .ok cart := by
  have hlines : (cart.lines.map fun line => Json.obj line.toJson).mapM
      (fun element => element.asMap >>= CartLine.fromJson) = .ok cart.lines := by
    rw [mapM_eq_ok, List.forall₂_map_left_iff, List.forall₂_same]
    exact fun line _ => line.fromJson_toJson
  have hseller : cart.toJson.at "seller_id" = .str cart.sellerId := rfl
  have hstore : cart.toJson.at "store_name" = .str cart.storeName := rfl
  have hcurrency : cart.toJson.at "currency_code" = .str cart.currencyCode := rfl
  have helements : cart.toJson.at "lines" =
      .arr (cart.lines.map fun line => .obj line.toJson) := rfl
  simp only [fromJson, hseller, hstore, hcurrency, helements, Json.asString_str, Json.orNull_str,
    Json.orNull_arr, bind, Except.bind, Option.getD_some]
  simp only [bind, Except.bind] at hlines
  rw [hlines]
  rfl

end SellerCart

namespace CartState

/-- `CartState.empty`. -/
def empty : CartState := ⟨.empty⟩

/-- `CartState.toJson`. -/
def toJson (s : CartState) : Json.Entries :=
  [("v", .int 1), ("buckets", .obj (s.buckets.entries.map fun e => (e.1, .obj e.2.toJson)))]

/-- An entry of the map of buckets. -/
def bucketFromJson (e : String × Json) : Except Json.ReadError (String × SellerCart) := do
  let json ← e.2.asMap
  let bucket ← SellerCart.fromJson json
  pure (e.1, bucket)

/-- `CartState.fromJson`. -/
def fromJson (json : Json.Entries) : Except Json.ReadError CartState := do
  let raw ← Json.orNull Json.asMap (json.at "buckets")
  let buckets ← (raw.getD []).mapM bucketFromJson
  pure ⟨LinkedMap.ofEntries buckets⟩

/-- A cart is read back as it was written. -/
theorem fromJson_toJson (s : CartState) : fromJson s.toJson = .ok s := by
  have hbuckets : (s.buckets.entries.map fun e => (e.1, Json.obj e.2.toJson)).mapM bucketFromJson =
      .ok s.buckets.entries := by
    rw [mapM_eq_ok, List.forall₂_map_left_iff, List.forall₂_same]
    intro e _
    simp [bucketFromJson, e.2.fromJson_toJson, bind, Except.bind, pure, Except.pure]
  have hraw : Json.orNull Json.asMap (s.toJson.at "buckets") =
      .ok (some (s.buckets.entries.map fun e => (e.1, Json.obj e.2.toJson))) := rfl
  simp only [fromJson, hraw, bind, Except.bind, Option.getD_some, hbuckets, pure, Except.pure,
    LinkedMap.ofEntries_entries]

/-! ### The calls -/

/-- An integer of the virtual machine. -/
def wrap64 (n : ℤ) : ℤ := n.bmod (2 ^ 64)

/-- The place of a product among the lines. -/
def indexOfProduct (lines : List CartLine) (productId : String) : Option ℕ :=
  lines.findIdx? fun l => l.productId = productId

/-- The lines after `addLine`: a known product gets the quantities added. -/
def addTo (lines : List CartLine) (line : CartLine) : List CartLine :=
  match indexOfProduct lines line.productId with
  | some existingIdx => lines.modify existingIdx fun existing =>
      { existing with quantity := wrap64 (existing.quantity + line.quantity) }
  | none => lines ++ [line]

/-- The lines after `updateQuantity`. -/
def setQuantity (lines : List CartLine) (idx : ℕ) (quantity : ℤ) : List CartLine :=
  if quantity ≤ 0 then lines.eraseIdx idx
  else lines.modify idx fun line => { line with quantity }

variable (current : CartState)

/-- The cart that `addLine` writes. -/
def addLine (sellerId storeName currencyCode : String) (line : CartLine) : CartState :=
  let bucket := (current.buckets.get? sellerId).getD
    { sellerId, storeName, currencyCode, lines := [] }
  ⟨current.buckets.set sellerId { bucket with lines := addTo bucket.lines line, storeName }⟩

/-- The cart that `updateQuantity` writes, unless it returns at once. -/
def updateQuantity (sellerId productId : String) (quantity : ℤ) : Option CartState := do
  let bucket ← current.buckets.get? sellerId
  let idx ← indexOfProduct bucket.lines productId
  let lines := setQuantity bucket.lines idx quantity
  if lines.isEmpty then some ⟨current.buckets.erase sellerId⟩
  else some ⟨current.buckets.set sellerId { bucket with lines }⟩

/-- The cart that `clearBucket` writes. -/
def clearBucket (sellerId : String) : CartState := ⟨current.buckets.erase sellerId⟩

end CartState

/-! ### Well-formed carts -/

/-- The lines of a bucket: a product once at most, and of each something. -/
structure LinesOk (lines : List CartLine) : Prop where
  unique : (lines.map CartLine.productId).Nodup
  positive : ∀ line ∈ lines, 0 < line.quantity

/-- The bucket belongs to the seller, and is not empty. -/
structure SellerCart.BelongsTo (cart : SellerCart) (sellerId : String) : Prop where
  seller : cart.sellerId = sellerId
  lines : LinesOk cart.lines
  nonempty : cart.lines ≠ []

namespace CartState

/-- Every bucket is kept under its seller, and is not empty. -/
def WellFormed (s : CartState) : Prop := ∀ e ∈ s.buckets.entries, e.2.BelongsTo e.1

/-- No quantity that `addLine` computes overflows. -/
def AddFits (s : CartState) (sellerId : String) (line : CartLine) : Prop :=
  ∀ bucket, s.buckets.get? sellerId = some bucket → ∀ existing ∈ bucket.lines,
    existing.productId = line.productId → existing.quantity + line.quantity < 2 ^ 63

end CartState

section WellFormed

variable {lines : List CartLine} {idx : ℕ} {s : CartState} {sellerId : String}

/-- No lines are in order. -/
theorem linesOk_nil : LinesOk [] := ⟨List.nodup_nil, nofun⟩

/-- A new quantity for a line. -/
theorem LinesOk.modify (h : LinesOk lines) {f : CartLine → CartLine} (hidx : idx < lines.length)
    (hproduct : ∀ line, (f line).productId = line.productId)
    (hpositive : 0 < (f lines[idx]).quantity) : LinesOk (lines.modify idx f) := by
  obtain ⟨before, line, rest, hlines, hlength, hmodify⟩ := List.exists_of_modify f hidx
  have hline : lines[idx] = line := by
    simp [hlines, ← hlength]
  rw [hline] at hpositive
  rw [hmodify]
  constructor
  · have hkeys : (before ++ f line :: rest).map CartLine.productId =
        lines.map CartLine.productId := by
      rw [hlines, List.map_append, List.map_append, List.map_cons, List.map_cons, hproduct]
    rw [hkeys]
    exact h.unique
  · intro line' hline'
    rcases List.mem_append.mp hline' with hbefore | hrest
    · exact h.positive line' (hlines ▸ List.mem_append_left _ hbefore)
    · rcases List.mem_cons.mp hrest with rfl | hrest
      · exact hpositive
      · exact h.positive line' (hlines ▸ List.mem_append_right _ (List.mem_cons_of_mem _ hrest))

/-- A line may be removed. -/
theorem LinesOk.eraseIdx (h : LinesOk lines) : LinesOk (lines.eraseIdx idx) :=
  ⟨h.unique.sublist ((List.eraseIdx_sublist ..).map _),
    fun line hline => h.positive line (List.mem_of_mem_eraseIdx hline)⟩

/-- A line of another product may be added. -/
theorem LinesOk.append (h : LinesOk lines) {line : CartLine} (hpositive : 0 < line.quantity)
    (hnew : ∀ existing ∈ lines, existing.productId ≠ line.productId) :
    LinesOk (lines ++ [line]) := by
  constructor
  · rw [List.map_append, List.map_singleton, ← List.concat_eq_append, List.nodup_concat]
    refine ⟨fun hmem => ?_, h.unique⟩
    obtain ⟨existing, hexisting, hsame⟩ := List.mem_map.mp hmem
    exact hnew existing hexisting hsame
  · intro line' hline'
    rcases List.mem_append.mp hline' with hold | hlast
    · exact h.positive line' hold
    · rw [List.mem_singleton.mp hlast]
      exact hpositive

namespace CartState

/-- The index found is that of the product. -/
theorem indexOfProduct_eq_some {productId : String}
    (h : indexOfProduct lines productId = some idx) :
    ∃ hidx : idx < lines.length, lines[idx].productId = productId := by
  obtain ⟨hidx, hsame, -⟩ := List.findIdx?_eq_some_iff_getElem.mp h
  exact ⟨hidx, by simpa using hsame⟩

/-- A positive quantity within 64 bits stays positive. -/
theorem wrap64_pos {n : ℤ} (hpos : 0 < n) (hlt : n < 2 ^ 63) : 0 < wrap64 n := by
  unfold wrap64
  rw [Int.bmod_eq_of_le] <;> omega

/-- A line is added or its quantity is summed up. -/
theorem linesOk_addTo (h : LinesOk lines) {line : CartLine} (hpositive : 0 < line.quantity)
    (hfits : ∀ existing ∈ lines, existing.productId = line.productId →
      existing.quantity + line.quantity < 2 ^ 63) : LinesOk (addTo lines line) := by
  unfold addTo
  split
  · next idx hindex =>
    obtain ⟨hidx, hsame⟩ := indexOfProduct_eq_some hindex
    have hmem : lines[idx] ∈ lines := List.getElem_mem hidx
    have hexisting := h.positive _ hmem
    exact h.modify hidx (fun _ => rfl) (wrap64_pos (by omega) (hfits _ hmem hsame))
  · next hindex =>
    refine h.append hpositive fun existing hexisting => ?_
    have hnot := List.findIdx?_eq_none_iff.mp hindex existing hexisting
    simpa using hnot

/-- There are lines after an addition. -/
theorem addTo_ne_nil {line : CartLine} : addTo lines line ≠ [] := by
  unfold addTo
  split
  · next idx hindex =>
    obtain ⟨hidx, -⟩ := indexOfProduct_eq_some hindex
    rw [Ne, List.modify_eq_nil_iff]
    rintro rfl
    exact absurd hidx (Nat.not_lt_zero _)
  · simp

/-- A quantity is replaced, or its line goes when it is not positive. -/
theorem linesOk_setQuantity (h : LinesOk lines) (hidx : idx < lines.length) {quantity : ℤ} :
    LinesOk (setQuantity lines idx quantity) := by
  unfold setQuantity
  split
  · exact h.eraseIdx
  · next hquantity => exact h.modify hidx (fun _ => rfl) (Int.not_le.mp hquantity)

/-- The empty cart. -/
theorem wellFormed_empty : empty.WellFormed := nofun

/-- A bucket is put under its seller. -/
theorem WellFormed.set (h : s.WellFormed) {bucket : SellerCart}
    (hbucket : bucket.BelongsTo sellerId) : WellFormed ⟨s.buckets.set sellerId bucket⟩ := by
  intro e he
  rcases LinkedMap.eq_or_mem_of_mem_set he with rfl | hold
  · exact hbucket
  · exact h e hold

/-- A seller's lines may be removed. -/
theorem WellFormed.erase (h : s.WellFormed) : WellFormed ⟨s.buckets.erase sellerId⟩ :=
  fun e he => h e (LinkedMap.mem_of_mem_erase he)

/-- The lines of a seller belong to that seller. -/
theorem WellFormed.bucket (h : s.WellFormed) {bucket : SellerCart}
    (hbucket : s.buckets.get? sellerId = some bucket) : bucket.BelongsTo sellerId :=
  h _ (LinkedMap.mem_of_get? hbucket)

/-- A line is added for its seller. -/
theorem WellFormed.addLine (h : s.WellFormed) {storeName currencyCode : String} {line : CartLine}
    (hpositive : 0 < line.quantity) (hfits : s.AddFits sellerId line) :
    (s.addLine sellerId storeName currencyCode line).WellFormed := by
  unfold CartState.addLine
  refine h.set ⟨?_, ?_, addTo_ne_nil⟩
  · cases hbucket : s.buckets.get? sellerId with
    | none => rfl
    | some bucket => exact (h.bucket hbucket).seller
  · cases hbucket : s.buckets.get? sellerId with
    | none => exact linesOk_addTo linesOk_nil hpositive nofun
    | some bucket => exact linesOk_addTo (h.bucket hbucket).lines hpositive (hfits bucket hbucket)

/-- A quantity is changed, and an empty bucket goes. -/
theorem WellFormed.updateQuantity (h : s.WellFormed) {productId : String} {quantity : ℤ}
    {next : CartState} (hnext : s.updateQuantity sellerId productId quantity = some next) :
    next.WellFormed := by
  unfold CartState.updateQuantity at hnext
  obtain ⟨bucket, hbucket, hnext⟩ := Option.bind_eq_some_iff.mp hnext
  obtain ⟨idx, hindex, hnext⟩ := Option.bind_eq_some_iff.mp hnext
  obtain ⟨hidx, -⟩ := indexOfProduct_eq_some hindex
  have hbelongs := h.bucket hbucket
  dsimp only at hnext
  split at hnext
  · obtain rfl := Option.some.inj hnext
    exact h.erase
  · next hlines =>
    obtain rfl := Option.some.inj hnext
    have hnonempty : setQuantity bucket.lines idx quantity ≠ [] := by
      simpa using hlines
    exact h.set ⟨hbelongs.seller, linesOk_setQuantity hbelongs.lines hidx, hnonempty⟩

end CartState

end WellFormed

/-! ### The controller -/

namespace CartController

/-- A mutating call. -/
inductive Call
  | addLine (sellerId storeName currencyCode : String) (line : CartLine)
  | updateQuantity (sellerId productId : String) (quantity : ℤ)
  | removeLine (sellerId productId : String)
  | clearBucket (sellerId : String)
  | clearAll
deriving DecidableEq, Repr

/-- What a call awaits of the storage. -/
inductive StorageOp
  | write (s : CartState)
  | delete
deriving DecidableEq

/-- What the storage holds after the operation, as the value of its JSON text. -/
def StorageOp.stored : StorageOp → Option Json
  | write s => some (.obj s.toJson)
  | delete => none

/-- The state that is published when the operation has returned. -/
def StorageOp.published : StorageOp → CartState
  | write s => s
  | delete => .empty

/-- What a call awaits when it finds the cart `current` in memory. -/
def Call.request (call : Call) (current : CartState) : Option StorageOp :=
  match call with
  | addLine sellerId storeName currencyCode line =>
    some (.write (current.addLine sellerId storeName currencyCode line))
  | updateQuantity sellerId productId quantity =>
    (current.updateQuantity sellerId productId quantity).map .write
  | removeLine sellerId productId => (current.updateQuantity sellerId productId 0).map .write
  | clearBucket sellerId => some (.write (current.clearBucket sellerId))
  | clearAll => some .delete

/-- The cart after a call that runs alone. -/
def Call.apply (current : CartState) (call : Call) : CartState :=
  ((call.request current).map StorageOp.published).getD current

/-- The read of `build`: not done yet, done but not returned yet, or returned. -/
inductive Load
  | reading
  | read (raw : Option Json)
  | loaded

/-- The controller and its storage. -/
structure State where
  /-- What is stored under `cart.v1`. -/
  storage : Option Json
  load : Load := .reading
  /-- `state.value`. -/
  value : Option CartState := none
  /-- The operations that the storage has not done yet. -/
  queued : List StorageOp := []
  /-- The operations that the storage has done, but that have not returned yet. -/
  performed : List StorageOp := []

/-- `build`, on what it has read. -/
def build (raw : Option Json) : CartState :=
  match raw with
  | none => .empty
  | some json =>
    match json.asMap >>= CartState.fromJson with
    | .ok s => s
    | .error _ => .empty

/-- What can happen next: a call, or progress of the read or of one of the operations. -/
inductive Input
  | issue (call : Call)
  | readDone
  | readReturned
  | opDone (i : ℕ)
  | opReturned (i : ℕ)

/-- A call, up to the operation that it awaits. -/
def issue (s : State) (call : Call) : State :=
  match call.request (s.value.getD .empty) with
  | none => s
  | some op => { s with queued := s.queued ++ [op] }

def step (s : State) : Input → State
  | .issue call => issue s call
  | .readDone =>
    match s.load with
    | .reading => { s with load := .read s.storage }
    | _ => s
  | .readReturned =>
    match s.load with
    | .read raw => { s with load := .loaded, value := some (build raw) }
    | _ => s
  | .opDone i =>
    match s.queued[i]? with
    | none => s
    | some op => { s with storage := op.stored, queued := s.queued.eraseIdx i,
                          performed := s.performed ++ [op] }
  | .opReturned i =>
    match s.performed[i]? with
    | none => s
    | some op => { s with value := some op.published, performed := s.performed.eraseIdx i }

/-- The controller at its start. -/
def start (storage : Option Json) : State := { storage }

/-- The load has completed, and no operation is pending. -/
structure State.Settled (s : State) : Prop where
  loaded : s.load = .loaded
  queued : s.queued = []
  performed : s.performed = []

/-- The storage does its operations, and they return, in the order in which they were issued; the
read of `build` is the first. -/
def InOrder (s : State) : Input → Prop
  | .opDone i => i = 0 ∧ s.load ≠ .reading
  | .opReturned i => i = 0 ∧ s.load = .loaded
  | _ => True

/-- The cart in memory, or the one that the load is about to put there. -/
def State.current (s : State) : CartState :=
  match s.load with
  | .reading => build s.storage
  | .read raw => build raw
  | .loaded => s.value.getD .empty

/-- The last of some operations decides what is published. -/
def lastPublished (ops : List StorageOp) (otherwise : CartState) : CartState :=
  (ops.getLast?.map StorageOp.published).getD otherwise

section LastPublished

variable {ops : List StorageOp} {op : StorageOp} {otherwise : CartState}

/-- Nothing has been published yet. -/
@[simp] theorem lastPublished_nil : lastPublished [] otherwise = otherwise := rfl

/-- The last one published counts. -/
@[simp] theorem lastPublished_concat : lastPublished (ops ++ [op]) otherwise = op.published := by
  simp [lastPublished]

/-- The first operation is what the others are published over. -/
theorem lastPublished_cons :
    lastPublished (op :: ops) otherwise = lastPublished ops op.published := by
  rcases List.eq_nil_or_concat ops with rfl | ⟨first, last, rfl⟩
  · rfl
  · rw [List.concat_eq_append, ← List.cons_append, lastPublished_concat, lastPublished_concat]

end LastPublished

/-- Once the load is complete, there is a cart in memory. -/
theorem value_isSome_step {s : State} (h : s.load = .loaded → s.value.isSome) (input : Input) :
    (step s input).load = .loaded → (step s input).value.isSome := by
  cases input with
  | issue call =>
    simp only [step, issue]
    split <;> exact h
  | readDone =>
    simp only [step]
    split
    · exact fun hloaded => nomatch hloaded
    · exact h
  | readReturned =>
    simp only [step]
    split
    · exact fun _ => rfl
    · exact h
  | opDone i =>
    simp only [step]
    split <;> exact h
  | opReturned i =>
    simp only [step]
    split
    · exact h
    · exact fun _ => rfl

/-- A cart that has been loaded has a value. -/
theorem value_isSome (storage : Option Json) (run : List Input) :
    (after step (start storage) run).load = .loaded →
      (after step (start storage) run).value.isSome := by
  have htrue : EachStep step (fun _ _ => True) (start storage) run :=
    eachStep_iff.mpr fun _ _ _ _ => trivial
  exact htrue.invariant (I := fun s => s.load = .loaded → s.value.isSome)
    (fun s input hs _ => value_isSome_step hs input) (fun hloaded => nomatch hloaded)

/-! ### No call is lost when they run one at a time -/

/-- The calls of a run, in the order in which they are issued. -/
def callsOf (run : List Input) : List Call :=
  run.filterMap fun input => match input with
    | .issue call => some call
    | _ => none

/-- Once nothing is pending, the cart in memory is the loaded one after all the calls. -/
def LosesNothing (storage : Option Json) (run : List Input) : Prop :=
  (after step (start storage) run).Settled →
    (after step (start storage) run).value = some ((callsOf run).foldl Call.apply (build storage))

/-- A call that reads the cart is issued when nothing is pending; what is pending is done in
order. -/
def InTurn (s : State) : Input → Prop
  | .issue call => call = .clearAll ∨ s.Settled
  | input => InOrder s input

/-- The cart in memory once everything pending has returned. -/
def State.final (s : State) : CartState := lastPublished (s.performed ++ s.queued) s.current

section InTurn

variable {s : State}

/-- What a settled cart comes to is what it shows. -/
theorem State.Settled.final (h : s.Settled) : s.final = s.value.getD .empty := by
  simp [State.final, State.current, h.loaded, h.queued, h.performed]

/-- A call is applied to the cart that the calls before it come to. -/
theorem final_issue {call : Call} (h : InTurn s (.issue call)) :
    (step s (.issue call)).final = call.apply s.final := by
  rcases h with rfl | hsettled
  · simp [step, issue, Call.request, Call.apply, State.final, ← List.append_assoc]
  · rw [hsettled.final, Call.apply]
    simp only [step, issue]
    cases hrequest : call.request (s.value.getD .empty) with
    | none => exact hsettled.final
    | some op => simp [State.final, ← List.append_assoc]

/-- What a step does to the cart that everything comes to. -/
def applyIssued (cart : CartState) : Input → CartState
  | .issue call => call.apply cart
  | _ => cart

/-- One step applies the call it issues, if any. -/
theorem final_step {input : Input} (h : InTurn s input) :
    (step s input).final = applyIssued s.final input := by
  cases input with
  | issue call => exact final_issue h
  | readDone =>
    simp only [step, applyIssued]
    split
    · next hload => simp [State.final, State.current, hload]
    · rfl
  | readReturned =>
    simp only [step, applyIssued]
    split
    · next raw hload => simp [State.final, State.current, hload]
    · rfl
  | opDone i =>
    obtain ⟨rfl, hload⟩ := h
    rcases s with ⟨storage, load, value, _ | ⟨op, queued⟩, performed⟩
    · rfl
    · cases load with
      | reading => exact absurd rfl hload
      | read raw => simp [step, applyIssued, State.final, State.current]
      | loaded => simp [step, applyIssued, State.final, State.current]
  | opReturned i =>
    obtain ⟨rfl, hload⟩ := h
    rcases s with ⟨storage, load, value, queued, _ | ⟨op, performed⟩⟩
    · rfl
    · obtain rfl : load = .loaded := hload
      simp [step, applyIssued, State.final, State.current, lastPublished_cons]

/-- A run applies its calls in their order. -/
theorem final_after {run : List Input} (h : EachStep step InTurn s run) :
    (after step s run).final = run.foldl applyIssued s.final := by
  induction run generalizing s with
  | nil => rfl
  | cons input run ih => rw [after_cons, ih h.2, final_step h.1, List.foldl_cons]

/-- Other inputs apply nothing. -/
theorem foldl_applyIssued (run : List Input) (cart : CartState) :
    run.foldl applyIssued cart = (callsOf run).foldl Call.apply cart := by
  rw [callsOf, List.foldl_filterMap]
  congr
  funext cart input
  cases input <;> rfl

end InTurn

end CartController

open CartController

/-- The cart loses no call when every call but `clearAll` is issued while nothing is pending, and
the storage works in order. -/
theorem cart_loses_nothing (storage : Option Json) (run : List Input)
    (h : EachStep step InTurn (start storage) run) : LosesNothing storage run := by
  intro hsettled
  have hfinal := final_after h
  rw [hsettled.final, foldl_applyIssued] at hfinal
  obtain ⟨cart, hcart⟩ := Option.isSome_iff_exists.mp (value_isSome storage run hsettled.loaded)
  rw [hcart, Option.getD_some] at hfinal
  rw [hcart, hfinal]
  rfl

namespace Sample

/-- One item of a product. -/
def cartLine (productId : String) : CartLine :=
  { productId, name := "Tea", unitPriceMinor := 500, quantity := 1 }

/-- A product is added to the cart of a seller. -/
def addToCart (productId : String) : Call := .addLine "s1" "Store" "USD" (cartLine productId)

/-- The load, then two calls one after the other. -/
def addedInTurn : List Input :=
  [.readDone, .readReturned, .issue (addToCart "p1"), .opDone 0, .opReturned 0,
   .issue (addToCart "p2"), .opDone 0, .opReturned 0]

/-- The load, then two calls at once. -/
def addedAtOnce : List Input :=
  [.readDone, .readReturned, .issue (addToCart "p1"), .issue (addToCart "p2"), .opDone 0,
   .opReturned 0, .opDone 0, .opReturned 0]

end Sample

/-- Calls that wait for each other are all kept. -/
theorem cart_loses_nothing_inTurn : LosesNothing none Sample.addedInTurn := by
  refine cart_loses_nothing none Sample.addedInTurn ?_
  exact ⟨trivial, trivial, .inr ⟨rfl, rfl, rfl⟩, ⟨rfl, nofun⟩, ⟨rfl, rfl⟩, .inr ⟨rfl, rfl, rfl⟩,
    ⟨rfl, nofun⟩, ⟨rfl, rfl⟩, trivial⟩

/-- Of two products that are added at once, the first one is lost. -/
theorem cart_loses_first : ¬LosesNothing none Sample.addedAtOnce := by
  intro h
  have hvalue := h ⟨rfl, rfl, rfl⟩
  exact absurd hvalue (by decide +kernel)

/-! ### What is stored is what is in memory -/

namespace CartController

/-- A call adds a positive quantity, if any. -/
def Call.Positive : Call → Prop
  | .addLine _ _ _ line => 0 < line.quantity
  | _ => True

/-- No quantity that the call computes overflows. -/
def Call.Fits (current : CartState) : Call → Prop
  | .addLine sellerId _ _ line => current.AddFits sellerId line
  | _ => True

/-- What is asked of a run: the storage works in order, and quantities are positive. -/
def Proper (s : State) : Input → Prop
  | .issue call => call.Positive
  | input => InOrder s input

/-- No sum of quantities reaches `2 ^ 63`. -/
def SumsFit (s : State) : Input → Prop
  | .issue call => call.Fits (s.value.getD .empty)
  | _ => True

/-- What a run leaves in the storage, with any number of runs before it. -/
inductive Stored : Option Json → Prop
  | nothing : Stored none
  | run {storage : Option Json} {run : List Input} (h : Stored storage)
      (hproper : EachStep step Proper (start storage) run)
      (hfit : EachStep step SumsFit (start storage) run) :
      Stored (after step (start storage) run).storage

/-- The cart in memory is well formed and read back as it is written, and the storage has it when
nothing is pending. -/
structure State.Sound (s : State) : Prop where
  wellFormed : ∀ cart, s.value = some cart → cart.WellFormed
  roundTrip : ∀ cart, s.value = some cart → CartState.fromJson cart.toJson = .ok cart
  reload : s.Settled → s.value = some (build s.storage)

/-- What has been published, and what is about to be, is well formed; the storage has what the
operations it has done will publish. -/
structure State.Inv (s : State) : Prop where
  value : ∀ cart, s.value = some cart → cart.WellFormed
  pending : ∀ op ∈ s.performed ++ s.queued, op.published.WellFormed
  raw : ∀ raw, s.load = .read raw → (build raw).WellFormed
  stored : (build s.storage).WellFormed
  reading : s.load = .reading → s.performed = []
  synced : build s.storage = lastPublished s.performed s.current

section Inv

variable {s : State}

/-- What is stored is what is shown after the next start. -/
theorem build_stored (op : StorageOp) : build op.stored = op.published := by
  cases op with
  | write cart => simp [StorageOp.stored, StorageOp.published, build, cart.fromJson_toJson, bind,
      Except.bind]
  | delete => rfl

/-- A call on a well-formed cart publishes one. -/
theorem wellFormed_request {call : Call} {current : CartState} {op : StorageOp}
    (h : current.WellFormed) (hpositive : call.Positive) (hfits : call.Fits current)
    (hop : call.request current = some op) : op.published.WellFormed := by
  cases call with
  | addLine sellerId storeName currencyCode line =>
    obtain rfl := Option.some.inj hop
    exact h.addLine hpositive hfits
  | updateQuantity sellerId productId quantity =>
    obtain ⟨next, hnext, rfl⟩ := Option.map_eq_some_iff.mp hop
    exact h.updateQuantity hnext
  | removeLine sellerId productId =>
    obtain ⟨next, hnext, rfl⟩ := Option.map_eq_some_iff.mp hop
    exact h.updateQuantity hnext
  | clearBucket sellerId =>
    obtain rfl := Option.some.inj hop
    exact h.erase
  | clearAll =>
    obtain rfl := Option.some.inj hop
    exact CartState.wellFormed_empty

/-- The cart that is shown is well formed. -/
theorem State.Inv.current (h : s.Inv) : (s.value.getD .empty).WellFormed := by
  cases hvalue : s.value with
  | none => exact CartState.wellFormed_empty
  | some cart => exact h.value cart hvalue

/-- A call with a positive quantity that fits keeps the invariant. -/
theorem State.Inv.issue (h : s.Inv) {call : Call} (hpositive : call.Positive)
    (hfits : call.Fits (s.value.getD .empty)) : (issue s call).Inv := by
  unfold CartController.issue
  split
  · exact h
  · next op hop =>
    refine { h with pending := ?_ }
    rw [← List.append_assoc]
    exact forall_mem_concat h.pending (wellFormed_request h.current hpositive hfits hop)

/-- Every step keeps it. -/
theorem State.Inv.step {input : Input} (h : s.Inv) (hproper : Proper s input)
    (hfit : SumsFit s input) : (step s input).Inv := by
  cases input with
  | issue call => exact h.issue hproper hfit
  | readDone =>
    simp only [CartController.step]
    split
    · next hload =>
      refine { h with raw := ?_, reading := nofun, synced := ?_ }
      · rintro raw hraw
        obtain rfl := Load.read.inj hraw
        exact h.stored
      · simpa [State.current, hload] using h.synced
    · exact h
  | readReturned =>
    simp only [CartController.step]
    split
    · next raw hload =>
      refine { h with value := ?_, raw := nofun, reading := nofun, synced := ?_ }
      · rintro cart hcart
        obtain rfl := Option.some.inj hcart
        exact h.raw raw hload
      · simpa [State.current, hload] using h.synced
    · exact h
  | opDone i =>
    obtain ⟨rfl, hload⟩ := hproper
    rcases s with ⟨storage, load, value, _ | ⟨op, queued⟩, performed⟩
    · exact h
    · have hop : op.published.WellFormed :=
        h.pending op (List.mem_append_right _ List.mem_cons_self)
      have hpending := h.pending
      refine { h with pending := ?_, stored := ?_, reading := fun hreading => absurd hreading hload,
                      synced := ?_ }
      · simpa [CartController.step] using hpending
      · exact (build_stored op).symm ▸ hop
      · simp [CartController.step, build_stored]
  | opReturned i =>
    obtain ⟨rfl, hload⟩ := hproper
    rcases s with ⟨storage, load, value, queued, _ | ⟨op, performed⟩⟩
    · exact h
    · obtain rfl : load = .loaded := hload
      have hop : op.published.WellFormed := h.pending op List.mem_cons_self
      refine { h with value := ?_, pending := ?_, reading := nofun, synced := ?_ }
      · rintro cart hcart
        obtain rfl := Option.some.inj hcart
        exact hop
      · exact fun op' hop' => h.pending op' (List.mem_cons_of_mem _ hop')
      · simpa [CartController.step, State.current, lastPublished_cons] using h.synced

/-- It holds of a well-formed stored cart. -/
theorem inv_start {storage : Option Json} (h : (build storage).WellFormed) :
    (start storage).Inv where
  value := nofun
  pending := nofun
  raw := nofun
  stored := h
  reading _ := rfl
  synced := rfl

/-- It holds after every run. -/
theorem inv_after {storage : Option Json} (h : (build storage).WellFormed) {run : List Input}
    (hproper : EachStep step Proper (start storage) run)
    (hfit : EachStep step SumsFit (start storage) run) : (after step (start storage) run).Inv :=
  (hproper.and hfit).invariant (fun _ _ hs hstep => hs.step hstep.1 hstep.2) (inv_start h)

/-- What is stored is a well-formed cart. -/
theorem Stored.wellFormed {storage : Option Json} (h : Stored storage) :
    (build storage).WellFormed := by
  induction h with
  | nothing => exact CartState.wellFormed_empty
  | run _ hproper hfit ih => exact (inv_after ih hproper hfit).stored

end Inv

end CartController

/-- Every state of a run from what earlier runs have stored is sound, if no sum of quantities
reaches `2 ^ 63`. -/
theorem cart_sound (storage : Option Json) (hstored : Stored storage) (run : List Input)
    (hproper : EachStep step Proper (start storage) run)
    (hfit : EachStep step SumsFit (start storage) run) :
    (after step (start storage) run).Sound := by
  have hinv := inv_after hstored.wellFormed hproper hfit
  refine ⟨hinv.value, fun cart _ => cart.fromJson_toJson, fun hsettled => ?_⟩
  obtain ⟨cart, hcart⟩ := Option.isSome_iff_exists.mp (value_isSome storage run hsettled.loaded)
  have hsynced := hinv.synced
  rw [hsettled.performed, lastPublished_nil, State.current, hsettled.loaded, hcart] at hsynced
  rw [hcart, hsynced]
  rfl

namespace Sample

/-- A large quantity of a product is added to the cart. -/
def addMany : Call := .addLine "s1" "Store" "USD" { cartLine "p1" with quantity := 2 ^ 62 }

/-- The load, then the same call twice. -/
def addedTwice : List Input :=
  [.readDone, .readReturned, .issue addMany, .opDone 0, .opReturned 0, .issue addMany, .opDone 0,
   .opReturned 0]

end Sample

/-- Two additions at once lose a line, and the cart is sound all the same. -/
theorem cart_sound_atOnce : (after step (start none) Sample.addedAtOnce).Sound := by
  have hnothing : CartState.empty.AddFits "s1" (Sample.cartLine "p1") := nofun
  have hnothing' : CartState.empty.AddFits "s1" (Sample.cartLine "p2") := nofun
  have hpositive (productId : String) : (Sample.addToCart productId).Positive := Int.one_pos
  refine cart_sound none .nothing Sample.addedAtOnce ?_ ?_
  · exact ⟨trivial, trivial, hpositive "p1", hpositive "p2", ⟨rfl, nofun⟩, ⟨rfl, rfl⟩, ⟨rfl, nofun⟩,
      ⟨rfl, rfl⟩, trivial⟩
  · exact ⟨trivial, trivial, hnothing, hnothing', trivial, trivial, trivial, trivial, trivial⟩

/-- The sum of two large quantities is a negative one. -/
theorem cart_overflows : EachStep step Proper (start none) Sample.addedTwice ∧
    ¬(after step (start none) Sample.addedTwice).Sound := by
  have hpositive : Sample.addMany.Positive := by
    change (0 : ℤ) < 2 ^ 62
    omega
  refine ⟨⟨trivial, trivial, hpositive, ⟨rfl, nofun⟩, ⟨rfl, rfl⟩, hpositive, ⟨rfl, nofun⟩,
    ⟨rfl, rfl⟩, trivial⟩, fun hsound => ?_⟩
  have hvalue : (after step (start none) Sample.addedTwice).value = some ⟨LinkedMap.empty.set "s1"
      { sellerId := "s1", storeName := "Store", currencyCode := "USD",
        lines := [{ Sample.cartLine "p1" with quantity := -2 ^ 63 }] }⟩ := by
    decide +kernel
  have hlines := (hsound.wellFormed _ hvalue _ List.mem_cons_self).lines
  exact absurd (hlines.positive _ List.mem_cons_self) (by decide)

end Marketplace
