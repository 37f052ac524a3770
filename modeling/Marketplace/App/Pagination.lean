import Mathlib.Logic.Equiv.Nat
import Marketplace.Lib.Page
import Marketplace.Messaging.Participants

/-!
# Listings a page at a time

The messages of a conversation and the three listings of the admin panel are read with a cursor,
which is the timestamp of the last row shown. A page asks for strictly older rows, so a row is
lost when it has the timestamp of the last row of a full page and is not on that page.
-/

namespace Marketplace

open Lib Txn

/-! ### Cursors -/

/-- `datetime.isoformat` and `datetime.fromisoformat`, which reads back what the former writes. -/
structure IsoFormat where
  isoformat : Time → String
  fromisoformat : String → Option Time
  fromisoformat_isoformat : ∀ t, fromisoformat (isoformat t) = some t
  /-- `ValueError`. -/
  fromisoformat_empty : fromisoformat "" = none

/-- A formatted time is not empty. -/
theorem IsoFormat.isoformat_ne_empty (iso : IsoFormat) (t : Time) : iso.isoformat t ≠ "" := by
  intro h
  have hread := iso.fromisoformat_isoformat t
  rw [h, iso.fromisoformat_empty] at hread
  cases hread

/-- `Query(ge=1, le=bound)`. -/
structure QueryLimit (bound : ℕ) where
  val : ℕ
  ge : 1 ≤ val
  le : val ≤ bound

/-! ### The admin panel -/

namespace AdminService

/-- `VALID_ROLES`. -/
def validRoles : List String := ["admin", "seller", "customer", "driver"]

/-- `VALID_STATUS`. -/
def validStatus : List String := ["active", "suspended"]

/-- The statuses that `list_products` filters by. -/
def validProductStatuses : List String := ["active", "disabled", "out_of_stock"]

/-- `VALID_ORDER_STATUSES`. -/
def validOrderStatuses : List String :=
  ["pending", "accepted", "preparing", "out_for_delivery", "delivered", "completed", "cancelled"]

/-- The label of a user's status in the database. -/
def userStatusLabel : UserStatus → String
  | .active => "active"
  | .suspended => "suspended"

/-- The label of a product's status in the database. -/
def productStatusLabel : ProductStatus → String
  | .active => "active"
  | .disabled => "disabled"
  | .outOfStock => "out_of_stock"

/-- `if value and value in valid: stmt.where(column == value)`. -/
def filterBy (valid : List String) (value : Option String) (column : String) : Bool :=
  value.all fun v => decide (v ∈ valid → column = v)

section Listings

variable (ilike : String → String → Bool) (iso : IsoFormat)

/-- `if q: stmt.where(or_(column.ilike(f"%{q}%"), …))`, for the columns that are searched. -/
def matchesText (q : Option String) (columns : List String) : Bool :=
  q.all fun q => decide (q ≠ "" → ∃ column ∈ columns, ilike ("%" ++ q ++ "%") column = true)

/-- The users that `list_users` selects, its cursor, its order and its limit apart. -/
def matchingUsers (db : Db) (q role status : Option String) : List User :=
  db.users.rows.filter fun u => u.deletedAt = none ∧
    matchesText ilike q [u.email, u.displayName] = true ∧
    filterBy validRoles role u.role.label = true ∧
    filterBy validStatus status (userStatusLabel u.status) = true

/-- The products that `list_products` selects. -/
def matchingProducts (db : Db) (q status : Option String) (sellerId : Option Id) : List Product :=
  db.products.rows.filter fun p => p.deletedAt = none ∧
    matchesText ilike q [p.name] = true ∧
    filterBy validProductStatuses status (productStatusLabel p.status) = true ∧
    sellerId.all (fun id => decide (p.sellerId = id)) = true

/-- The orders that `list_orders` selects. -/
def matchingOrders (db : Db) (status : Option String) : List Order :=
  db.orders.rows.filter fun x => x.deletedAt = none ∧
    filterBy validOrderStatuses status x.status.label = true

/-- `max(1, min(limit, 100))`. -/
def clampLimit (limit : ℤ) : ℕ := (max 1 (min limit 100)).toNat

variable {α : Type} {key : α → Time}

/-- The cursor, the order and the limit that the three listings have in common: one row more than
the page tells whether there is a next one. -/
def fetchPage (order : OrderDesc key) (selected : List α) (cursor : Option String) (limit : ℤ) :
    List α × Option String :=
  let limit := clampLimit limit
  -- An empty cursor and one that does not parse are ignored.
  let ts := (cursor.filter fun c => c ≠ "").bind iso.fromisoformat
  let fetched := (order.sort (olderThan key ts selected)).take (limit + 1)
  let rows := fetched.take limit
  (rows, if limit < fetched.length then rows.getLast?.map fun a => iso.isoformat (key a) else none)

/-- `list_users`. -/
def listUsers (order : OrderDesc User.createdAt) (db : Db) (q role status cursor : Option String)
    (limit : ℤ) : List User × Option String :=
  fetchPage iso order (matchingUsers ilike db q role status) cursor limit

/-- `list_products`. -/
def listProducts (order : OrderDesc Product.createdAt) (db : Db) (q status : Option String)
    (sellerId : Option Id) (cursor : Option String) (limit : ℤ) : List Product × Option String :=
  fetchPage iso order (matchingProducts ilike db q status sellerId) cursor limit

/-- `list_orders`. -/
def listOrders (order : OrderDesc Order.placedAt) (db : Db) (status cursor : Option String)
    (limit : ℤ) : List Order × Option String :=
  fetchPage iso order (matchingOrders db status) cursor limit

end Listings

/-- The clamped page size is positive. -/
theorem clampLimit_pos (limit : ℤ) : 0 < clampLimit limit := by
  unfold clampLimit
  omega

variable {iso : IsoFormat} {α : Type} {key : α → Time} {order : OrderDesc key}

/-- The page at a cursor that an earlier page returned. -/
theorem fetchPage_map (selected : List α) (before : Option Time) (limit : ℤ) :
    fetchPage iso order selected (before.map iso.isoformat) limit =
      ((order.sort (olderThan key before selected)).take (clampLimit limit),
        if clampLimit limit < ((order.sort (olderThan key before selected)).take
            (clampLimit limit + 1)).length then
          ((order.sort (olderThan key before selected)).take (clampLimit limit)).getLast?.map
            fun a => iso.isoformat (key a)
        else none) := by
  have hcursor : ((before.map iso.isoformat).filter fun c => c ≠ "").bind iso.fromisoformat =
      before := by
    cases before with
    | none => rfl
    | some t => simp [Option.filter, iso.isoformat_ne_empty, iso.fromisoformat_isoformat]
  unfold fetchPage
  simp only [hcursor]
  rw [List.take_take, Nat.min_eq_left (Nat.le_succ _)]

/-- The listings show pages of the rows they select. -/
theorem paginates_fetchPage (selected : List α) (limit : ℤ) :
    Paginates order iso.isoformat (clampLimit limit) selected
      fun cursor => some (fetchPage iso order selected cursor limit) := by
  have hpos := clampLimit_pos limit
  refine paginates_of_more (fun sorted =>
    clampLimit limit < (sorted.take (clampLimit limit + 1)).length) (fun before => ?_) ?_ ?_
  · rw [fetchPage_map]
  · intro sorted h
    rw [List.length_take] at h
    omega
  · intro sorted h hnil
    have hzero := congrArg List.length hnil
    rw [List.length_take] at h hzero
    rw [List.length_nil] at hzero
    omega

end AdminService

/-! ### Conversations -/

namespace MessagingService

/-- The messages that `list_messages` selects, its cursor, its order and its limit apart. -/
def matchingMessages (db : Db) (conversationId : Id) : List Message :=
  db.messages.rows.filter fun m => m.conversationId = conversationId ∧ m.deletedAt = none

/-- `list_messages`, with the rows of one instant in the order that the database chooses. -/
def listMessagesBy (order : OrderDesc Message.sentAt) (caller : User) (conversationId : Id)
    (before : Option Time) (limit : ℕ) : Tx (List Message) := do
  let _ ← loadConversationForCaller caller conversationId
  let db ← read
  pure ((order.sort (olderThan Message.sentAt before (matchingMessages db conversationId))).take
    limit)

/-- With ties in the order in which they are stored, this is the service's `list_messages`. -/
theorem listMessagesBy_stable (caller : User) (conversationId : Id) (before : Option Time)
    (limit : ℕ) :
    listMessagesBy (OrderDesc.stable Message.sentAt) caller conversationId before limit =
      listMessages caller conversationId before limit := by
  unfold listMessagesBy listMessages olderThan matchingMessages
  have hfilter : ∀ db : Db, ((db.messages.rows.filter fun m =>
        m.conversationId = conversationId ∧ m.deletedAt = none).filter fun m =>
          before.all fun t => m.sentAt < t) =
      db.messages.rows.filter fun m => m.conversationId = conversationId ∧
        m.deletedAt = none ∧ (before.all fun t => m.sentAt < t) := by
    intro db
    rw [List.filter_filter]
    refine List.filter_congr fun m _ => ?_
    grind
  simp only [hfilter]
  rfl

variable (iso : IsoFormat)

/-- The endpoint `list_messages`, for a caller with a valid token. A cursor that does not parse is
refused with the other parameters of the query; `none` is a refusal. -/
def listMessagesPage (order : OrderDesc Message.sentAt) (db : Db) (caller : User)
    (conversationId : Id) (limit : QueryLimit 200) (cursor : Option String) :
    Option (List Message × Option String) := do
  let before ← match cursor with
    | none => some none
    | some c => (iso.fromisoformat c).map some
  match (listMessagesBy order caller conversationId before limit.val).run db with
  | .error _ => none
  | .ok (rows, _) =>
    some (rows, if rows.length = limit.val then rows.getLast?.map fun m => iso.isoformat m.sentAt
      else none)

/-- The caller may read the conversation. -/
def MayRead (db : Db) (caller : User) (conversationId : Id) : Prop :=
  ∃ conv, (loadConversationForCaller caller conversationId).run db = .ok (conv, db)

variable {iso} {order : OrderDesc Message.sentAt} {db : Db} {caller : User} {conversationId : Id}

/-- The rows that the message list returns to a reader. -/
theorem run_listMessagesBy (h : MayRead db caller conversationId) (before : Option Time)
    (limit : ℕ) :
    (listMessagesBy order caller conversationId before limit).run db =
      .ok ((order.sort (olderThan Message.sentAt before
        (matchingMessages db conversationId))).take limit, db) := by
  obtain ⟨conv, hload⟩ := h
  unfold listMessagesBy
  rw [bind_eq, run_bind_of_ok hload]
  rfl

/-- The endpoint shows pages of the messages it selects. -/
theorem paginates_listMessagesPage (h : MayRead db caller conversationId) (limit : QueryLimit 200) :
    Paginates order iso.isoformat limit.val (matchingMessages db conversationId)
      (listMessagesPage iso order db caller conversationId limit) := by
  have hpos := limit.ge
  refine paginates_of_more (fun sorted => (sorted.take limit.val).length = limit.val)
    (fun before => ?_) ?_ ?_
  · cases before with
    | none => simp [listMessagesPage, run_listMessagesBy h]
    | some t => simp [listMessagesPage, run_listMessagesBy h, iso.fromisoformat_isoformat]
  · intro sorted hnot
    rw [List.length_take] at hnot
    omega
  · intro sorted hfull hnil
    rw [hnil, List.length_nil] at hfull
    omega

end MessagingService

/-! ### Every row, exactly once -/

/-- Following the cursors of a listing to the end shows every row, exactly once and newest first,
if and only if no boundary between two full pages separates two rows of one instant. -/
def CompleteIff {α : Type} (key : α → Time) (limit : ℕ) (rows : List α)
    (page : Option String → Option (List α × Option String)) : Prop :=
  ∃ walked, follow page (rows.length + 1) none = some walked ∧
    (Complete key rows walked ↔ NoTieAtBoundary limit (keysOf key rows))

/-- **When pagination is complete.** The messages of a conversation, and the users, products and
orders of the admin panel, for every table, filter and page size. -/
theorem pagination_complete_iff (iso : IsoFormat) (ilike : String → String → Bool) (db : Db) :
    (∀ order caller conversationId limit, MessagingService.MayRead db caller conversationId →
      CompleteIff Message.sentAt limit.val (MessagingService.matchingMessages db conversationId)
        (MessagingService.listMessagesPage iso order db caller conversationId limit)) ∧
    (∀ order q role status limit,
      CompleteIff User.createdAt (AdminService.clampLimit limit)
        (AdminService.matchingUsers ilike db q role status)
        fun cursor => some (AdminService.listUsers ilike iso order db q role status cursor limit)) ∧
    (∀ order q status sellerId limit,
      CompleteIff Product.createdAt (AdminService.clampLimit limit)
        (AdminService.matchingProducts ilike db q status sellerId)
        fun cursor =>
          some (AdminService.listProducts ilike iso order db q status sellerId cursor limit)) ∧
    ∀ order status limit,
      CompleteIff Order.placedAt (AdminService.clampLimit limit)
        (AdminService.matchingOrders db status)
        fun cursor => some (AdminService.listOrders iso order db status cursor limit) := by
  refine ⟨?_, ?_, ?_, ?_⟩
  · intro order caller conversationId limit hmay
    exact (MessagingService.paginates_listMessagesPage hmay limit).follow_complete limit.ge
  · intro order q role status limit
    exact (AdminService.paginates_fetchPage _ limit).follow_complete
      (AdminService.clampLimit_pos limit)
  · intro order q status sellerId limit
    exact (AdminService.paginates_fetchPage _ limit).follow_complete
      (AdminService.clampLimit_pos limit)
  · intro order status limit
    exact (AdminService.paginates_fetchPage _ limit).follow_complete
      (AdminService.clampLimit_pos limit)

namespace Sample

/-- Texts for instants, written as Python does for the epoch. -/
def epochFormat : IsoFormat where
  isoformat t := String.ofList ("1970-01-01T00:00:00+00:00".toList ++
    List.replicate (Equiv.intEquivNat t) '0')
  fromisoformat s := if s.length < 25 then none else some (Equiv.intEquivNat.symm (s.length - 25))
  fromisoformat_isoformat t := by
    have hepoch : "1970-01-01T00:00:00+00:00".toList.length = 25 := by decide
    rw [String.length_ofList, List.length_append, List.length_replicate, hepoch,
      if_neg (by omega), Nat.add_sub_cancel_left, Equiv.symm_apply_apply]
  fromisoformat_empty := rfl

/-- A message of the conversation of the sample users. -/
def chatMessage (id : Id) (sentAt : Time) : Message :=
  { id, conversationId := 20, senderId := 2, ciphertext := [], nonce := [],
    ephemeralPublicKey := [], sentAt }

/-- That conversation with five messages. -/
def chatted : Db :=
  { written with
    messages := Table.empty |>.insert (chatMessage 31 1) |>.insert (chatMessage 32 2)
      |>.insert (chatMessage 33 3) |>.insert (chatMessage 34 4) |>.insert (chatMessage 35 5) }

/-- Two accounts that one statement created. -/
def twins : Db :=
  { users := Table.empty
      |>.insert { id := 1, role := .customer, createdAt := 0 }
      |>.insert { id := 2, role := .driver, createdAt := 0 } }

end Sample

/-- A conversation with five messages, two to a page: three pages show them all. -/
theorem pagination_complete_iff_three_pages :
    ∃ walked,
      follow (MessagingService.listMessagesPage Sample.epochFormat (OrderDesc.stable Message.sentAt)
        Sample.chatted Sample.buyer 20 ⟨2, by decide, by decide⟩) 6 none = some walked ∧
      Complete Message.sentAt (MessagingService.matchingMessages Sample.chatted 20) walked ∧
      walked.map Message.sentAt = [5, 4, 3, 2, 1] := by
  have hrows : (MessagingService.matchingMessages Sample.chatted 20).length = 5 := by
    decide +kernel
  have hnewest : NewestFirst Message.sentAt
      (MessagingService.matchingMessages Sample.chatted 20).reverse := by
    unfold NewestFirst
    decide +kernel
  have hkeys : keysOf Message.sentAt (MessagingService.matchingMessages Sample.chatted 20) =
      [5, 4, 3, 2, 1] := by
    rw [keysOf_of_perm (List.reverse_perm _) hnewest]
    decide +kernel
  have hties : NoTieAtBoundary 2 ([5, 4, 3, 2, 1] : List Time) := by
    intro k hk hlt
    have hlast : k = 1 ∨ k = 2 := by
      rw [show ([5, 4, 3, 2, 1] : List Time).length = 5 from rfl] at hlt
      omega
    rcases hlast with rfl | rfl
    · decide
    · decide
  obtain ⟨walked, hwalked, hcomplete⟩ :=
    (pagination_complete_iff Sample.epochFormat (fun _ _ => true) Sample.chatted).1
      (OrderDesc.stable Message.sentAt) Sample.buyer 20 ⟨2, by decide, by decide⟩ ⟨_, rfl⟩
  rw [hrows] at hwalked
  have hall := hcomplete.mpr (hkeys ▸ hties)
  exact ⟨walked, hwalked, hall, (keysOf_of_perm hall.perm hall.newestFirst).symm.trans hkeys⟩

/-- The second of two accounts of one instant is on no page of size one. -/
theorem second_account_lost :
    follow (fun cursor => some (AdminService.listUsers (fun _ _ => true) Sample.epochFormat
        (OrderDesc.stable User.createdAt) Sample.twins none none none cursor 1)) 3 none =
      some [{ id := 1, role := .customer, createdAt := 0 }] ∧
    ¬Complete User.createdAt
        (AdminService.matchingUsers (fun _ _ => true) Sample.twins none none none)
        [{ id := 1, role := .customer, createdAt := 0 }] := by
  constructor
  · have hselected : AdminService.matchingUsers (fun _ _ => true) Sample.twins none none none =
        Sample.twins.users.rows := by decide +kernel
    have hsort : (OrderDesc.stable User.createdAt).sort Sample.twins.users.rows =
        Sample.twins.users.rows := by
      apply OrderDesc.stable_of_newestFirst
      unfold NewestFirst
      decide
    have hfirst : AdminService.fetchPage Sample.epochFormat (OrderDesc.stable User.createdAt)
        Sample.twins.users.rows none 1 =
          ([{ id := 1, role := .customer, createdAt := 0 }],
            some (Sample.epochFormat.isoformat 0)) := by
      refine (AdminService.fetchPage_map Sample.twins.users.rows none 1).trans ?_
      rw [olderThan_none, hsort]
      rfl
    have hsecond : AdminService.fetchPage Sample.epochFormat (OrderDesc.stable User.createdAt)
        Sample.twins.users.rows (some (Sample.epochFormat.isoformat 0)) 1 = ([], none) := by
      refine (AdminService.fetchPage_map Sample.twins.users.rows (some 0) 1).trans ?_
      rw [show olderThan User.createdAt (some 0) Sample.twins.users.rows = [] by decide,
        OrderDesc.stable_of_newestFirst List.Pairwise.nil]
      rfl
    unfold AdminService.listUsers
    rw [hselected]
    simp only [follow, hfirst, hsecond]
    rfl
  · intro h
    have hlength := h.perm.length_eq
    revert hlength
    decide +kernel

end Marketplace
