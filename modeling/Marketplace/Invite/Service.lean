import Marketplace.Statements

/-!
# The invite service

`invite_service.py`: invite links are created, regenerated, revoked and consumed here.
The consumption of a link is the first part of a signup, in whose transaction it runs.
-/

namespace Marketplace

open Lib Txn Err

/-- What a request to the auth and invite services takes from its surroundings. -/
structure AuthEnv extends Env where
  /-- The draws of `secrets.token_urlsafe(32)`. -/
  tokenUrlsafe : ℕ → String
  /-- `secrets.token_hex(16)`. -/
  tokenHex : String
  /-- `hash_password`, with the salt that Argon2 draws. -/
  hashPassword : String → String

/-! ### What the services write -/

namespace InviteLink

def use (usedCount : ℤ) (l : InviteLink) : InviteLink := { l with usedCount }

def revoke (now : Time) (l : InviteLink) : InviteLink := { l with revokedAt := some now }

/-- A row of a bulk `UPDATE … WHERE revoked_at IS NULL`. -/
def revokeIfActive (now : Time) (l : InviteLink) : InviteLink :=
  if l.revokedAt = none then l.revoke now else l

/-- Using a link keeps its id. -/
@[simp] theorem use_id (usedCount : ℤ) (l : InviteLink) : (l.use usedCount).id = l.id := rfl

/-- Revoking a link keeps its id. -/
@[simp] theorem revoke_id (now : Time) (l : InviteLink) : (l.revoke now).id = l.id := rfl

/-- Revoking an active link keeps its id. -/
@[simp] theorem revokeIfActive_id (now : Time) (l : InviteLink) :
    (l.revokeIfActive now).id = l.id := by
  unfold revokeIfActive
  split
  · rfl
  · rfl

/-- An active referral of the issuer, which the partial unique index covers. -/
def ActiveReferral (issuerId : Id) (l : InviteLink) : Prop :=
  l.issuerId = issuerId ∧ l.type = .sellerReferral ∧ l.revokedAt = none

instance (issuerId : Id) (l : InviteLink) : Decidable (l.ActiveReferral issuerId) :=
  inferInstanceAs (Decidable (_ ∧ _ ∧ _))

end InviteLink

namespace Db

def modifyLink (db : Db) (id : Id) (f : InviteLink → InviteLink) : Db :=
  { db with inviteLinks := db.inviteLinks.modify id f }

def addLink (db : Db) (l : InviteLink) : Db := { db with inviteLinks := db.inviteLinks.insert l }

/-- The links of `issuerId` that the partial unique index covers. -/
def activeReferrals (db : Db) (issuerId : Id) : List InviteLink :=
  db.inviteLinks.rows.filter fun l => l.ActiveReferral issuerId

end Db

/-! ### Statements -/

/-- The part of an `INSERT` that looks up one of several unique indexes. -/
def reserve (key : Key) (taken : Db → Bool) (constraint : String) : Tx Unit := do
  let db ← acquire key
  raiseIf (taken db = true) (.integrity constraint)

section

variable {P : Key → (Db → Db) → Prop} {α : Type}

/-- Reserving a unique value writes nothing. -/
theorem writes_reserve (key : Key) (taken : Db → Bool) (constraint : String) :
    (reserve key taken constraint).Writes P :=
  (Writes.acquire key).bind fun _ => Writes.raiseIf _ _

/-- What follows a reserved entry has its lock. -/
theorem writes_reserve_bind {key : Key} {taken : Db → Bool} {constraint : String}
    {f : Unit → Tx α} (hf : ∀ held, key ∈ held → (f ()).WritesFrom P held) :
    (reserve key taken constraint >>= f).Writes P := by
  intro held s
  change WritesFrom P (key :: held) ((raiseIf (taken s = true) _).bind f)
  unfold raiseIf
  split
  · trivial
  · exact hf _ List.mem_cons_self

end

/-- The partial unique index, for a row that it covers. -/
def reserveReferral (l : InviteLink) : Tx Unit :=
  if l.ActiveReferral l.issuerId then
    reserve (.activeReferral l.issuerId) (fun db => db.activeReferrals l.issuerId ≠ [])
      "uq_invite_links_active_seller_referral"
  else pure ()

def insertLink (l : InviteLink) : Tx Unit := do
  reserve (.inviteLink l.id) (fun db => (db.inviteLinks.get l.id).isSome) "pk_invite_links"
  reserve (.inviteLinkToken l.token) (fun db => db.inviteLinks.rows.any fun x => x.token = l.token)
    "uq_invite_links_token"
  reserveReferral l
  modify fun db => db.addLink l

def updateLink (id : Id) (f : InviteLink → InviteLink) : Tx Unit :=
  updateRow (.inviteLink id) fun db => db.modifyLink id f

/-- A bulk `UPDATE invite_links SET revoked_at = … WHERE … AND revoked_at IS NULL`, row by row
over the links the statement found. -/
def revokeLinks (now : Time) : List InviteLink → Tx Unit
  | [] => pure ()
  | l :: ls => do
    updateLink l.id (InviteLink.revokeIfActive now)
    revokeLinks now ls

/-- `SELECT … WHERE token = … FOR UPDATE`. -/
def selectLinkForUpdate (token : String) : Tx (Option InviteLink) := do
  let db ← read
  let found ← scalarOneOrNone (db.inviteLinks.rows.filter fun l => l.token = token)
  match found with
  | none => pure none
  | some l => do
    let db ← acquire (.inviteLink l.id)
    pure ((db.inviteLinks.get l.id).filter fun l => l.token = token)

namespace InviteService

/-- `SELLER_REFERRAL_ROLES`. -/
def sellerReferralRoles : List UserRole := [.customer, .seller]

/-- `_is_expired`. -/
def isExpired (now : Time) (invite : InviteLink) : Bool :=
  invite.expiresAt.any fun expiresAt => expiresAt < now

/-- `_is_used`. -/
def isUsed (invite : InviteLink) : Bool :=
  invite.maxUses.any fun maxUses => maxUses ≤ invite.usedCount

/-- The `sellers` row of a user, `None` without one. -/
def findSeller (userId : Id) : Tx (Option Seller) := do
  let db ← read
  scalarOneOrNone (db.sellers.rows.filter fun s => s.userId = userId ∧ s.deletedAt = none)

/-- `create_admin_invite`. -/
def createAdminInvite (env : AuthEnv) (issuer : User) (roleTarget : String)
    (expiresInHours : ℤ) : Tx InviteLink := do
  raiseIf (issuer.role ≠ .admin) (authorizationError "Only admins can create admin invites.")
  let role ← getOrRaise (UserRole.ofLabel roleTarget)
    (inviteInvalid ("Invalid role_target: " ++ reprText roleTarget))
  let invite : InviteLink :=
    { id := env.uuid4 0, issuerId := issuer.id, type := .adminInvite, token := env.tokenUrlsafe 0,
      roleTarget := some role, maxUses := some 1, usedCount := 0,
      expiresAt := some (env.now 0 + hours expiresInHours), createdAt := env.transactionNow }
  insertLink invite
  pure invite

/-- The row of a new seller referral. -/
def newReferral (env : AuthEnv) (sellerUser : User) : InviteLink :=
  { id := env.uuid4 0, issuerId := sellerUser.id, type := .sellerReferral,
    token := env.tokenUrlsafe 0, roleTarget := none, maxUses := none, usedCount := 0,
    expiresAt := none, createdAt := env.transactionNow }

/-- `get_or_create_seller_referral`. -/
def getOrCreateSellerReferral (env : AuthEnv) (sellerUser : User) : Tx InviteLink := do
  raiseIf (sellerUser.role ∉ [UserRole.seller, .admin])
    (authorizationError "Only sellers or admins can access seller referrals.")
  let seller ← findSeller sellerUser.id
  raiseIf (seller = none) (authorizationError "User does not have a seller profile.")
  let db ← read
  let existing ← scalarOneOrNone (db.activeReferrals sellerUser.id)
  match existing with
  | some existing => pure existing
  | none => do
    insertLink (newReferral env sellerUser)
    pure (newReferral env sellerUser)

/-- `regenerate_seller_referral`. -/
def regenerateSellerReferral (env : AuthEnv) (sellerUser : User) : Tx InviteLink := do
  raiseIf (sellerUser.role ∉ [UserRole.seller, .admin])
    (authorizationError "Only sellers or admins can regenerate referrals.")
  let seller ← findSeller sellerUser.id
  raiseIf (seller = none) (authorizationError "User does not have a seller profile.")
  let db ← read
  revokeLinks (env.now 0) (db.activeReferrals sellerUser.id)
  insertLink (newReferral env sellerUser)
  pure (newReferral env sellerUser)

/-- The permission check of `revoke_invite`. -/
def ensureMayRevoke (user : User) (invite : InviteLink) : Tx Unit :=
  match user.role with
  | .admin => pure ()
  | .seller => raiseIf (invite.issuerId ≠ user.id ∨ invite.type ≠ .sellerReferral)
      (authorizationError "Sellers can only revoke their own referral invites.")
  | _ => raise (authorizationError "Insufficient permissions to revoke invites.")

/-- `revoke_invite`. -/
def revokeInvite (env : AuthEnv) (user : User) (inviteId : Id) : Tx Unit := do
  let db ← read
  let invite ← getOrRaise (db.inviteLinks.get inviteId) (notFoundError "Invite not found.")
  raiseIf (isUsed invite = true) (inviteAlreadyUsed "Cannot revoke a fully-used invite.")
  ensureMayRevoke user invite
  updateLink invite.id (InviteLink.revoke (env.now 0))

/-- The role validation of an administrator's invite. -/
def checkAdminInvite (invite : InviteLink) (chosenRole : Option String) : Tx Unit := do
  raiseIf (chosenRole ≠ none ∧ chosenRole ≠ invite.roleTarget.map UserRole.label)
    (inviteRoleMismatch ("Admin invite grants role=" ++
      reprOption (invite.roleTarget.map UserRole.label) ++ "; you requested " ++
      reprOption chosenRole ++ "."))
  raiseIf (invite.roleTarget = none) (inviteInvalid "Admin invite has no role_target.")

/-- The role validation of a seller's referral, and the checks of its issuer. -/
def checkSellerReferral (invite : InviteLink) (chosenRole : Option String) : Tx Unit := do
  raiseIf (chosenRole ∉ sellerReferralRoles.map fun r => some r.label)
    (inviteRoleMismatch ("Seller referral invites only allow roles: " ++
      "\x7b'customer', 'seller'\x7d. Got " ++ reprOption chosenRole ++ "."))
  let db ← read
  raiseIf ((db.users.get invite.issuerId).all (fun issuer => issuer.role ≠ .seller) = true)
    (inviteInvalid "Seller referral issuer is not a valid seller.")
  let seller ← findSeller invite.issuerId
  raiseIf (seller = none) (inviteInvalid "Seller referral issuer does not have a seller profile.")

/-- The role validation of `consume_invite`. -/
def checkRole (invite : InviteLink) (chosenRole : Option String) : Tx Unit :=
  match invite.type with
  | .adminInvite => checkAdminInvite invite chosenRole
  | .sellerReferral => checkSellerReferral invite chosenRole

/-- `consume_invite`. -/
def consumeInvite (env : AuthEnv) (token : String) (chosenRole : Option String) :
    Tx InviteLink := do
  let found ← selectLinkForUpdate token
  let invite ← getOrRaise found inviteInvalid
  raiseIf (invite.revokedAt ≠ none) inviteRevoked
  raiseIf (isExpired (env.now 0) invite = true) inviteExpired
  raiseIf (isUsed invite = true) inviteAlreadyUsed
  checkRole invite chosenRole
  updateLink invite.id (InviteLink.use (invite.usedCount + 1))
  pure invite

end InviteService

end Marketplace
