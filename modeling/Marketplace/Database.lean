import Marketplace.Core
import Marketplace.Lib.Table

/-!
# The database

The rows of the tables the services read and write, column by column, and the
database as one record of tables. A table is keyed by the column whose uniqueness
the services rely on: the primary key, or `order_id` where the schema declares it
unique. Columns that no modelled function reads or writes are left out.
-/

namespace Marketplace

open Lib

/-! ### Rows -/

/-- `users`. -/
structure User where
  id : Id
  email : String := ""
  passwordHash : String := ""
  role : UserRole
  displayName : String := ""
  phone : Option String := none
  isActive : Bool := true
  disabledAt : Option Time := none
  status : UserStatus := .active
  suspendedAt : Option Time := none
  suspendedReason : Option String := none
  avatarUrl : Option String := none
  /-- A plain reference to `sellers.id`. -/
  referringSellerId : Option Id := none
  createdAt : Time := 0
  deletedAt : Option Time := none
deriving DecidableEq, Repr

/-- `sellers`. The row's `id` is its user's `id`. -/
structure Seller where
  id : Id
  userId : Id
  displayName : String := ""
  city : String := ""
  countryCode : String := ""
  deletedAt : Option Time := none
deriving DecidableEq, Repr

/-- `stores`. -/
structure Store where
  id : Id
  sellerId : Id
  name : String := ""
  slug : String := ""
  description : String := ""
  isActive : Bool := true
  isPublic : Bool := false
  deletedAt : Option Time := none
deriving DecidableEq, Repr

/-- `products`. -/
structure Product where
  id : Id
  sellerId : Id
  storeId : Id
  name : String := ""
  description : String := ""
  priceMinor : ℤ
  /-- `NULL` is unlimited stock. -/
  stockQuantity : Option ℤ := none
  isActive : Bool := true
  status : ProductStatus := .active
  disabledAt : Option Time := none
  disabledReason : Option String := none
  createdAt : Time := 0
  deletedAt : Option Time := none
deriving DecidableEq, Repr

/-- `product_images`. -/
structure ProductImage where
  id : Id
  productId : Id
  s3Key : String
  displayOrder : ℤ := 0
deriving DecidableEq, Repr

/-- The JSON object in `orders.delivery_address`. -/
structure Address where
  line1 : String := ""
  line2 : Option String := none
  city : String := ""
  region : Option String := none
  postal : Option String := none
  country : String := ""
  lat : Option Coordinate := none
  lng : Option Coordinate := none
  notes : Option String := none
deriving DecidableEq, Repr

/-- `orders`. -/
structure Order where
  id : Id
  customerId : Id
  sellerId : Id
  storeId : Id
  status : OrderStatus
  subtotalMinor : ℤ
  totalMinor : ℤ
  deliveryAddress : Address
  placedAt : Time
  acceptedAt : Option Time := none
  preparingAt : Option Time := none
  outForDeliveryAt : Option Time := none
  deliveredAt : Option Time := none
  completedAt : Option Time := none
  cancelledAt : Option Time := none
  cancellationReason : Option String := none
  driverAcceptedAt : Option Time := none
  customerVisibleAfter : Option Time := none
  sellerFullVisibleUntil : Option Time := none
  deliveryCodeLocked : Bool := false
  deletedAt : Option Time := none
deriving DecidableEq, Repr

/-- `order_items`. -/
structure OrderItem where
  id : Id
  orderId : Id
  productId : Option Id
  productNameSnapshot : String
  unitPriceMinorSnapshot : ℤ
  quantity : ℤ
deriving DecidableEq, Repr

/-- `deliveries`. -/
structure Delivery where
  id : Id
  orderId : Id
  /-- `NULL` when the seller delivers. -/
  driverId : Option Id
  sellerId : Id
  status : DeliveryStatus
  startedAt : Option Time := none
  deliveredAt : Option Time := none
  currentLat : Option Coordinate := none
  currentLng : Option Coordinate := none
  lastLocationAt : Option Time := none
  distanceMeters : Option ℤ := none
  durationSeconds : Option ℤ := none
  currentEtaSeconds : Option ℤ := none
  currentEtaUpdatedAt : Option Time := none
deriving DecidableEq, Repr

/-- `driver_assignments`. -/
structure DriverAssignment where
  id : Id
  orderId : Id
  /-- `NULL` while no driver has been selected. -/
  driverId : Option Id
  status : DriverAssignmentStatus
  requestedBySellerId : Id
  requestedAt : Time
  assignedByAdminId : Option Id := none
  assignedAt : Option Time := none
deriving DecidableEq, Repr

/-- `order_analytics_snapshots`: no foreign keys, so rows survive their orders. -/
structure OrderAnalyticsSnapshot where
  id : Id
  orderId : Id
  sellerId : Id
  storeId : Id
  customerId : Id
  city : String
  itemCount : ℤ
  subtotalMinor : ℤ
  totalMinor : ℤ
  deliveredAt : Time
  deliveryDurationSeconds : Option ℤ
  deliveryDistanceMeters : Option ℤ
deriving DecidableEq, Repr

/-- The single row of `platform_settings`, with the column defaults. -/
structure PlatformSettings where
  retentionMinDays : ℤ := 30
  orderAutoCompleteGraceHours : ℤ := 72
  messageRetentionDays : ℤ := 90
  currencyCode : String := "USD"
  updatedAt : Time
  updatedByUserId : Option Id := none
deriving DecidableEq, Repr

/-- `delivery_codes`. -/
structure DeliveryCode where
  orderId : Id
  codeHash : String
  codePlain : String
  attemptsUsed : ℤ := 0
  locked : Bool := false
  createdAt : Time
  consumedAt : Option Time := none
deriving DecidableEq, Repr

/-- `delivery_code_attempts`. -/
structure DeliveryCodeAttempt where
  id : Id
  orderId : Id
  driverId : Option Id
  submittedCode : String
  success : Bool
  attemptedAt : Time
deriving DecidableEq, Repr

/-- `order_messages`. -/
structure OrderMessage where
  id : Id
  orderId : Id
  senderId : Option Id
  senderRole : SenderRole
  ciphertext : String
  nonce : String
  createdAt : Time
  archivedAt : Option Time := none
deriving DecidableEq, Repr

/-- `order_tracking_points`. -/
structure OrderTrackingPoint where
  id : Id
  orderId : Id
  driverId : Option Id
  lat : Coordinate
  lng : Coordinate
  recordedAt : Time
deriving DecidableEq, Repr

/-- `invite_links`. -/
structure InviteLink where
  id : Id
  issuerId : Id
  type : InviteLinkType
  token : String
  /-- `NULL` for a referral, whose role is chosen at the signup. -/
  roleTarget : Option UserRole := none
  /-- `NULL` is no limit. -/
  maxUses : Option ℤ := none
  usedCount : ℤ := 0
  expiresAt : Option Time := none
  revokedAt : Option Time := none
  createdAt : Time := 0
deriving DecidableEq, Repr

/-- `referrals`. -/
structure Referral where
  id : Id
  referrerId : Id
  referredUserId : Id
  inviteLinkId : Id
deriving DecidableEq, Repr

/-- `refresh_tokens`. -/
structure RefreshToken where
  id : Id
  userId : Id
  tokenHash : String
  deviceLabel : Option String := none
  issuedAt : Time
  lastUsedAt : Option Time := none
  expiresAt : Time
  revokedAt : Option Time := none
deriving DecidableEq, Repr

/-- `conversations`. -/
structure Conversation where
  id : Id
  userAId : Id
  userBId : Id
  createdAt : Time
  lastMessageAt : Option Time := none
deriving DecidableEq, Repr

/-- `messages`. -/
structure Message where
  id : Id
  conversationId : Id
  senderId : Id
  ciphertext : Bytes := []
  nonce : Bytes := []
  ephemeralPublicKey : Bytes := []
  recipientKeyId : Option Id := none
  sentAt : Time
  readAt : Option Time := none
  deletedAt : Option Time := none
deriving DecidableEq, Repr

/-- `user_public_keys`. -/
structure UserPublicKey where
  id : Id
  userId : Id
  /-- 32 raw bytes. -/
  publicKey : Bytes
  keyVersion : ℤ := 1
  status : KeyStatus := .active
  registeredAt : Time
  rotatedAt : Option Time := none
  revokedAt : Option Time := none
  createdAt : Time
deriving DecidableEq, Repr

/-! ### Tables -/

/-- The committed state of the server. -/
structure Db where
  users : Table User User.id := ∅
  sellers : Table Seller Seller.id := ∅
  stores : Table Store Store.id := ∅
  products : Table Product Product.id := ∅
  orders : Table Order Order.id := ∅
  orderItems : Table OrderItem OrderItem.id := ∅
  /-- `uq_deliveries_order_id`: one delivery per order. -/
  deliveries : Table Delivery Delivery.orderId := ∅
  driverAssignments : Table DriverAssignment DriverAssignment.id := ∅
  /-- `uq_order_analytics_snapshots_order_id`: one snapshot per order. -/
  snapshots : Table OrderAnalyticsSnapshot OrderAnalyticsSnapshot.orderId := ∅
  platformSettings : Option PlatformSettings := none
  deliveryCodes : Table DeliveryCode DeliveryCode.orderId := ∅
  deliveryCodeAttempts : Table DeliveryCodeAttempt DeliveryCodeAttempt.id := ∅
  orderMessages : Table OrderMessage OrderMessage.id := ∅
  orderTrackingPoints : Table OrderTrackingPoint OrderTrackingPoint.id := ∅
  inviteLinks : Table InviteLink InviteLink.id := ∅
  referrals : Table Referral Referral.id := ∅
  /-- `uq_refresh_tokens_token_hash`: the services know a token by its hash. -/
  refreshTokens : Table RefreshToken RefreshToken.tokenHash := ∅
  productImages : Table ProductImage ProductImage.id := ∅
  conversations : Table Conversation Conversation.id := ∅
  messages : Table Message Message.id := ∅
  userPublicKeys : Table UserPublicKey UserPublicKey.id := ∅
deriving DecidableEq

/-- A row lock, or the lock an insertion takes on an entry of a unique index. -/
inductive Key
  | user (id : Id)
  | userEmail (email : String)
  | product (id : Id)
  | order (id : Id)
  | orderItem (id : Id)
  | delivery (orderId : Id)
  | driverAssignment (id : Id)
  | snapshot (orderId : Id)
  | platformSettings
  | deliveryCode (orderId : Id)
  | deliveryCodeAttempt (id : Id)
  | orderMessage (id : Id)
  | orderTrackingPoint (id : Id)
  | inviteLink (id : Id)
  | inviteLinkToken (token : String)
  | activeReferral (issuerId : Id)
  | referral (id : Id)
  | referredUser (userId : Id)
  | refreshToken (tokenHash : String)
  | refreshTokenId (id : Id)
  | seller (id : Id)
  | store (id : Id)
  | storeSeller (sellerId : Id)
  | storeSlug (slug : String)
  | productImage (id : Id)
  | conversation (id : Id)
  | conversationPair (userAId userBId : Id)
  | message (id : Id)
  | userPublicKey (id : Id)
  | activePublicKey (userId : Id)
deriving DecidableEq

/-- A transaction of the server. -/
abbrev Tx := Txn Db Key Err

instance neZero_draws : NeZero 1000000 := ⟨by decide⟩

/-- What a request takes from its surroundings: the clock, the database's
transaction time, and the random sources. -/
structure Env where
  /-- The readings of `datetime.now(timezone.utc)`, in the order they are taken. -/
  now : ℕ → Time
  /-- `now()` of the database, the start of the transaction. -/
  transactionNow : Time
  /-- The draws of `uuid.uuid4()` and `gen_random_uuid()`. -/
  uuid4 : ℕ → Id
  /-- `secrets.randbelow(1_000_000)`. -/
  randbelow : Fin 1000000
  /-- A bound on the stores that others commit while the request is served. -/
  storesMeanwhile : ℕ := 0

end Marketplace
