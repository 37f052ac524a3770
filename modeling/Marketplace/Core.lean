import Mathlib.Algebra.GroupWithZero.Nat
import Mathlib.Algebra.Ring.Int.Defs
import Mathlib.Data.List.Infix
import Mathlib.Data.Nat.Basic
import Mathlib.Data.Rat.Defs
import Marketplace.Lib.Concurrency

/-!
# Values, enumerations and application errors

The types every table and every service shares: identifiers, instants and
durations, the native enumerations of the schema, and the exceptions of
`app.core.exceptions` with their status codes, error codes and texts.
-/

namespace Marketplace

/-- A UUID. -/
abbrev Id := ℕ

/-- An instant, in microseconds; the resolution of `datetime` and of `timestamptz`. -/
abbrev Time := ℤ

/-- `bytes`. -/
abbrev Bytes := List UInt8

/-- A latitude or a longitude. -/
abbrev Coordinate := ℚ

/-! ### Durations -/

/-- `timedelta(seconds=n)`. -/
def seconds (n : ℤ) : Time := n * 1000000

/-- `timedelta(minutes=n)`. -/
def minutes (n : ℤ) : Time := seconds (n * 60)

/-- `timedelta(hours=n)`. -/
def hours (n : ℤ) : Time := minutes (n * 60)

/-- `timedelta(days=n)`. -/
def days (n : ℤ) : Time := hours (n * 24)

/-- A positive number of days is a positive duration. -/
theorem days_pos {n : ℤ} (h : 1 ≤ n) : (0 : ℤ) < days n := by
  simp only [days, hours, minutes, seconds]
  omega

/-- `int(delta.total_seconds())`: whole seconds, rounded toward zero. -/
def totalSeconds (delta : Time) : ℤ := delta.tdiv 1000000

/-! ### Enumerations -/

/-- `user_role`. -/
inductive UserRole
  | admin | seller | customer | driver
deriving DecidableEq, Repr

/-- `user_status`. -/
inductive UserStatus
  | active | suspended
deriving DecidableEq, Repr

/-- `product_status`. -/
inductive ProductStatus
  | active | disabled | outOfStock
deriving DecidableEq, Repr

/-- `order_status`. -/
inductive OrderStatus
  | pending | accepted | preparing | outForDelivery | delivered | completed | cancelled
deriving DecidableEq, Repr

/-- `delivery_status`. -/
inductive DeliveryStatus
  | pending | inTransit | delivered | failed
deriving DecidableEq, Repr

/-- `driver_assignment_status`. -/
inductive DriverAssignmentStatus
  | requested | assigned | accepted | declined | cancelled
deriving DecidableEq, Repr

/-- `invite_link_type`. -/
inductive InviteLinkType
  | adminInvite | sellerReferral
deriving DecidableEq, Repr

/-- `user_public_keys.status`, a text column with a CHECK for these three values. -/
inductive KeyStatus
  | active | rotated | revoked
deriving DecidableEq, Repr

/-- `order_messages.sender_role`, a text column with a CHECK for these two values. -/
inductive SenderRole
  | customer | driver
deriving DecidableEq, Repr

/-- The label of an order status in the database. -/
def OrderStatus.label : OrderStatus → String
  | pending => "pending"
  | accepted => "accepted"
  | preparing => "preparing"
  | outForDelivery => "out_for_delivery"
  | delivered => "delivered"
  | completed => "completed"
  | cancelled => "cancelled"

/-- The order status with a label, if there is one. -/
def OrderStatus.ofLabel (label : String) : Option OrderStatus :=
  [OrderStatus.pending, .accepted, .preparing, .outForDelivery, .delivered, .completed,
    .cancelled].find? fun s => s.label = label

/-- The label of a delivery status in the database. -/
def DeliveryStatus.label : DeliveryStatus → String
  | pending => "pending"
  | inTransit => "in_transit"
  | delivered => "delivered"
  | failed => "failed"

/-- `f"{status!r}"`. -/
def OrderStatus.quoted (s : OrderStatus) : String := "'" ++ s.label ++ "'"

/-- The label of a role in the database. -/
def UserRole.label : UserRole → String
  | admin => "admin"
  | seller => "seller"
  | customer => "customer"
  | driver => "driver"

/-- The role with a label, if there is one. -/
def UserRole.ofLabel (label : String) : Option UserRole :=
  [UserRole.admin, .seller, .customer, .driver].find? fun r => r.label = label

/-- A character inside `repr` of a text that is quoted with `quote`. -/
def reprChar (quote c : Char) : String :=
  if c = quote ∨ c.toNat = 92 then "\\" ++ c.toString
  else if c.toNat = 9 then "\\t"
  else if c.toNat = 10 then "\\n"
  else if c.toNat = 13 then "\\r"
  else if c.toNat < 32 ∨ (127 ≤ c.toNat ∧ c.toNat ≤ 160) ∨ c.toNat = 173 then
    "\\x" ++ (if c.toNat < 16 then "0" else "") ++ String.ofList (Nat.toDigits 16 c.toNat)
  else c.toString

/-- `repr` of a text: in apostrophes, unless it has one and no quotation mark. -/
def reprText (s : String) : String :=
  let codes := s.toList.map Char.toNat
  let quote := Char.ofNat (if 39 ∈ codes ∧ 34 ∉ codes then 34 else 39)
  quote.toString ++ String.join (s.toList.map (reprChar quote)) ++ quote.toString

/-- `repr` of an optional text. -/
def reprOption : Option String → String
  | none => "None"
  | some s => reprText s

/-- `ACTIVE_STATUSES`. -/
def activeStatuses : List OrderStatus := [.pending, .accepted, .preparing, .outForDelivery]

/-- A delivered order is not an active one. -/
theorem delivered_not_active : OrderStatus.delivered ∉ activeStatuses := by decide

/-- A completed order is not an active one. -/
theorem completed_not_active : OrderStatus.completed ∉ activeStatuses := by decide

/-- A cancelled order is not an active one. -/
theorem cancelledOrder_not_active : OrderStatus.cancelled ∉ activeStatuses := by decide

/-- `TERMINAL_STATUSES`. -/
def terminalStatuses : List OrderStatus := [.completed, .cancelled]

/-- The statuses of an assignment that is still in force. -/
def activeAssignmentStatuses : List DriverAssignmentStatus := [.requested, .assigned, .accepted]

/-! ### Application errors -/

/-- An `AppException`: what the error envelope is built from. -/
structure AppException where
  httpStatus : ℕ
  code : String
  message : String
  /-- `details={"attempts_remaining": …}`, the only details any service sends. -/
  attemptsRemaining : Option ℤ := none
deriving DecidableEq, Repr

/-- What ends a request other than a return. -/
inductive Err
  /-- An `AppException`. -/
  | app (e : AppException)
  /-- `IntegrityError`: a statement violates the named constraint. -/
  | integrity (constraint : String)
  /-- `HTTPException`. -/
  | http (status : ℕ) (detail : String)
  /-- `MultipleResultsFound`: `scalar_one_or_none` over two rows. -/
  | multipleResults
  /-- An exception the code does not expect. -/
  | unexpected (what : String)
deriving DecidableEq, Repr

namespace Err

def authenticationError (message : String) (code : String := "AUTH_TOKEN_INVALID") : Err :=
  .app { httpStatus := 401, code, message }

def authorizationError (message : String) (code : String := "PERMISSION_DENIED") : Err :=
  .app { httpStatus := 403, code, message }

def notFoundError (message : String) (code : String := "NOT_FOUND") : Err :=
  .app { httpStatus := 404, code, message }

def conflictError (message : String) (code : String := "CONFLICT") : Err :=
  .app { httpStatus := 409, code, message }

def validationError (message : String) (code : String := "VALIDATION_FAILED") : Err :=
  .app { httpStatus := 422, code, message }

def invalidCredentials : Err :=
  authenticationError "Invalid email or password." "AUTH_INVALID_CREDENTIALS"

def tokenExpired : Err := authenticationError "Token has expired." "AUTH_TOKEN_EXPIRED"

def invalidTokenError (message : String := "Token is invalid.") : Err :=
  authenticationError message

def accountSuspended : Err :=
  authorizationError "Your account has been suspended." "AUTH_ACCOUNT_SUSPENDED"

def passwordTooCommon : Err :=
  validationError "Password is too common; please choose a stronger password."
    "PASSWORD_TOO_COMMON"

def inviteInvalid (message : String := "Invite token is invalid.") : Err :=
  .app { httpStatus := 400, code := "INVITE_INVALID", message }

def inviteExpired : Err :=
  .app { httpStatus := 400, code := "INVITE_EXPIRED", message := "Invite token has expired." }

def inviteAlreadyUsed (message : String := "Invite token has already been used.") : Err :=
  .app { httpStatus := 409, code := "INVITE_USED", message }

def inviteRevoked : Err :=
  .app { httpStatus := 400, code := "INVITE_REVOKED", message := "Invite token has been revoked." }

def inviteRoleMismatch (message : String) : Err :=
  .app { httpStatus := 400, code := "INVITE_ROLE_MISMATCH", message }

def emailTaken : Err := conflictError "Email address is already registered." "EMAIL_TAKEN"

def sellerProfileMissing : Err :=
  .app { httpStatus := 400, code := "SELLER_PROFILE_MISSING",
         message := "User does not have a seller profile." }

def visibilityDenied : Err := notFoundError "Resource not found."

def storeAlreadyExists : Err := conflictError "Seller already has a store." "STORE_ALREADY_EXISTS"

def storeCityRequired (message : String := "City is required to create a store.") : Err :=
  validationError message "STORE_CITY_REQUIRED"

def storeNotFound (message : String := "Store not found.") : Err :=
  notFoundError message "STORE_NOT_FOUND"

def productNotFound : Err := notFoundError "Product not found." "PRODUCT_NOT_FOUND"

def productOwnershipError : Err :=
  authorizationError "You do not own this product." "PRODUCT_NOT_OWNED"

def publicKeyNotFound : Err := notFoundError "Public key not found." "PUBLIC_KEY_NOT_FOUND"

def keyOwnershipError : Err := notFoundError "Key not found."

def conversationNotFound : Err :=
  notFoundError "Conversation not found." "CONVERSATION_NOT_FOUND"

def conversationIneligible : Err :=
  notFoundError "Conversation not found." "CONVERSATION_NOT_FOUND"

def messageRetentionInvalid : Err :=
  validationError "message_retention_days must be >= 7." "MESSAGE_RETENTION_INVALID"

def sellerNotFound : Err := notFoundError "Seller not found." "SELLER_NOT_FOUND"

def orderNotFound : Err := notFoundError "Order not found." "ORDER_NOT_FOUND"

def orderInvalidTransition (message : String) : Err :=
  conflictError message "ORDER_INVALID_TRANSITION"

def orderRetentionNotMet
    (message : String := "Order cannot be deleted before the retention period elapses.") : Err :=
  conflictError message "ORDER_RETENTION_NOT_MET"

def deliveryAlreadyStarted : Err :=
  conflictError "Delivery already started." "DELIVERY_ALREADY_STARTED"

def productOutOfStock : Err := conflictError "Product is out of stock." "PRODUCT_OUT_OF_STOCK"

def productNotVisible (message : String := "Product is not available to you.") : Err :=
  notFoundError message "PRODUCT_NOT_VISIBLE"

def driverNotRequested : Err :=
  conflictError "Seller has not requested a driver for this order." "DRIVER_NOT_REQUESTED"

def driverAlreadyAssigned : Err :=
  conflictError "A driver has already been assigned to this order." "DRIVER_ALREADY_ASSIGNED"

def fulfillmentAlreadyChosen : Err :=
  conflictError "Fulfillment mode already chosen for this order." "FULFILLMENT_ALREADY_CHOSEN"

def retentionSettingInvalid (message : String := "retention_min_days must be >= 1.") : Err :=
  validationError message "RETENTION_SETTING_INVALID"

def deliveryCodeLocked (message : String) : Err :=
  .app { httpStatus := 423, code := "DELIVERY_CODE_LOCKED", message }

def deliveryCodeInvalid (message : String) (remaining : ℤ) : Err :=
  .app { httpStatus := 400, code := "DELIVERY_CODE_INVALID", message,
         attemptsRemaining := some remaining }

end Err

end Marketplace
