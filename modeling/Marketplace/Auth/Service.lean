import Marketplace.Invite.Service

/-!
# The auth service

`auth_service.py`: signup, login, the rotation of refresh tokens and their revocation,
and the changes a user makes to its own account. Every function commits before it
returns, and `refresh` also before it reports a reused token.
-/

namespace Marketplace

open Lib Txn Err InviteService

/-- `AccessTokenPayload`. -/
structure AccessTokenPayload where
  sub : Id
  role : UserRole
  jti : String
  exp : Time
  iat : Time
deriving DecidableEq, Repr

/-- What the services use of `app.core`: hashes, the signed tokens, the password policy and the
settings. -/
structure Security where
  /-- The SHA-256 hex digest of a text. -/
  sha256 : String → String
  /-- `verify_password(password, password_hash)`. -/
  verifyPassword : String → String → Bool
  needsRehash : String → Bool
  isCommonPassword : String → Bool
  /-- `jwt.encode` with the signing key. -/
  encode : AccessTokenPayload → String
  /-- `decode_access_token`, at the time `now`. -/
  decode : (now : Time) → String → Except Err AccessTokenPayload
  /-- The case folding under which `CITEXT` compares. -/
  fold : String → String
  accessTokenExpireMinutes : ℤ := 15
  refreshTokenExpireDays : ℤ := 7

/-! ### What the services write -/

namespace User

def updateMe (displayName phone avatarUrl : Option String) (u : User) : User :=
  { u with displayName := displayName.getD u.displayName, phone := phone.or u.phone,
           avatarUrl := avatarUrl.or u.avatarUrl }

def setPassword (passwordHash : String) (u : User) : User := { u with passwordHash }

def suspend (now : Time) (reason : String) (u : User) : User :=
  { u with status := .suspended, suspendedAt := some now, suspendedReason := some reason }

def unsuspend (u : User) : User :=
  { u with status := .active, suspendedAt := none, suspendedReason := none }

end User

namespace RefreshToken

def revoke (now : Time) (t : RefreshToken) : RefreshToken := { t with revokedAt := some now }

/-- The rotation's change of the presented row. -/
def rotate (now : Time) (t : RefreshToken) : RefreshToken :=
  { t with revokedAt := some now, lastUsedAt := some now }

/-- A row of a bulk `UPDATE … WHERE revoked_at IS NULL`. -/
def revokeIfActive (now : Time) (t : RefreshToken) : RefreshToken :=
  if t.revokedAt = none then t.revoke now else t

variable (now : Time) (t : RefreshToken)

/-- A revoked token keeps its hash. -/
@[simp] theorem revoke_tokenHash : (t.revoke now).tokenHash = t.tokenHash := rfl

/-- A rotated token keeps its hash. -/
@[simp] theorem rotate_tokenHash : (t.rotate now).tokenHash = t.tokenHash := rfl

/-- The bulk revocation leaves the hashes alone. -/
@[simp] theorem revokeIfActive_tokenHash : (t.revokeIfActive now).tokenHash = t.tokenHash := by
  unfold revokeIfActive
  split
  · rfl
  · rfl

end RefreshToken

namespace Db

def addUser (db : Db) (u : User) : Db := { db with users := db.users.insert u }

def modifyUser (db : Db) (id : Id) (f : User → User) : Db :=
  { db with users := db.users.modify id f }

def addReferral (db : Db) (r : Referral) : Db := { db with referrals := db.referrals.insert r }

def addRefreshToken (db : Db) (t : RefreshToken) : Db :=
  { db with refreshTokens := db.refreshTokens.insert t }

def modifyRefreshToken (db : Db) (tokenHash : String) (f : RefreshToken → RefreshToken) : Db :=
  { db with refreshTokens := db.refreshTokens.modify tokenHash f }

/-- The tokens of a user that are not revoked. -/
def activeTokens (db : Db) (userId : Id) : List RefreshToken :=
  db.refreshTokens.rows.filter fun t => t.userId = userId ∧ t.revokedAt = none

end Db

/-! ### Statements -/

def insertUser (sec : Security) (u : User) : Tx Unit := do
  reserve (.user u.id) (fun db => (db.users.get u.id).isSome) "pk_users"
  insertRow (.userEmail (sec.fold u.email))
    (fun db => db.users.rows.any fun v => sec.fold v.email = sec.fold u.email) "uq_users_email"
    fun db => db.addUser u

def updateUser (id : Id) (f : User → User) : Tx Unit :=
  updateRow (.user id) fun db => db.modifyUser id f

def insertReferral (r : Referral) : Tx Unit := do
  reserve (.referral r.id) (fun db => (db.referrals.get r.id).isSome) "pk_referrals"
  insertRow (.referredUser r.referredUserId)
    (fun db => db.referrals.rows.any fun x => x.referredUserId = r.referredUserId)
    "uq_referrals_referred_user_id" fun db => db.addReferral r

def insertRefreshToken (t : RefreshToken) : Tx Unit := do
  reserve (.refreshTokenId t.id) (fun db => db.refreshTokens.rows.any fun x => x.id = t.id)
    "pk_refresh_tokens"
  insertRow (.refreshToken t.tokenHash) (fun db => (db.refreshTokens.get t.tokenHash).isSome)
    "uq_refresh_tokens_token_hash" fun db => db.addRefreshToken t

def updateRefreshToken (tokenHash : String) (f : RefreshToken → RefreshToken) : Tx Unit :=
  updateRow (.refreshToken tokenHash) fun db => db.modifyRefreshToken tokenHash f

/-- A bulk `UPDATE refresh_tokens SET revoked_at = … WHERE … AND revoked_at IS NULL`, row by row
over the tokens the statement found. -/
def revokeTokens (now : Time) : List RefreshToken → Tx Unit
  | [] => pure ()
  | t :: ts => do
    updateRefreshToken t.tokenHash (RefreshToken.revokeIfActive now)
    revokeTokens now ts

namespace AuthService

/-- `UserInSignup`. -/
structure UserInSignup where
  id : Id
  email : String
  role : UserRole
  displayName : String
deriving DecidableEq, Repr

/-- `LoginResponse`. -/
structure LoginResponse where
  user : UserInSignup
  accessToken : String
  refreshToken : String
  expiresIn : ℤ
deriving DecidableEq, Repr

/-- `RefreshResponse`. -/
structure RefreshResponse where
  accessToken : String
  refreshToken : String
  expiresIn : ℤ
deriving DecidableEq, Repr

/-- `SignupRequest`. -/
structure SignupRequest where
  email : String
  password : String
  displayName : String
  phone : Option String := none
  inviteToken : String
  roleChoice : Option String := none
deriving DecidableEq, Repr

variable (sec : Security)

/-- `hash_refresh_token`. -/
def hashRefreshToken (plaintext : String) : String := sec.sha256 plaintext

/-- `create_access_token`, at the time `now`. -/
def createAccessToken (env : AuthEnv) (now : Time) (userId : Id) (role : UserRole) :
    String × Time :=
  let exp := now + minutes sec.accessTokenExpireMinutes
  (sec.encode { sub := userId, role, jti := env.tokenHex, exp, iat := now }, exp)

/-- `_create_refresh_token_row`: the row, whose plaintext is the first draw of `token_urlsafe`.
The clock is read for the expiry and once more for `issued_at`. -/
def createRefreshTokenRow (env : AuthEnv) (id : Id) (expiryNow issuedAt : Time) (userId : Id)
    (deviceLabel : Option String) : RefreshToken :=
  { id, userId, tokenHash := hashRefreshToken sec (env.tokenUrlsafe 0), deviceLabel, issuedAt,
    expiresAt := expiryNow + days sec.refreshTokenExpireDays }

/-- `_build_login_response`. -/
def buildLoginResponse (now : Time) (user : User) (accessToken refreshPlaintext : String)
    (exp : Time) : LoginResponse :=
  { user := { id := user.id, email := user.email, role := user.role,
              displayName := user.displayName }
    accessToken, refreshToken := refreshPlaintext, expiresIn := max 0 (totalSeconds (exp - now)) }

/-! ### Signup -/

/-- The role of the new user. -/
def signupRole (invite : InviteLink) (roleChoice : Option String) : Option UserRole :=
  match invite.type with
  | .adminInvite => invite.roleTarget
  | .sellerReferral => roleChoice.bind UserRole.ofLabel

/-- The row of the new user. -/
def newUser (env : AuthEnv) (req : SignupRequest) (invite : InviteLink) (role : UserRole) : User :=
  { id := env.uuid4 0, email := req.email, passwordHash := env.hashPassword req.password, role,
    displayName := req.displayName, phone := req.phone, isActive := true,
    referringSellerId := match invite.type with
      | .sellerReferral => some invite.issuerId
      | .adminInvite => none
    createdAt := env.transactionNow }

/-- The referral row of a signup. -/
def signupReferral (env : AuthEnv) (invite : InviteLink) : Referral :=
  { id := env.uuid4 1, referrerId := invite.issuerId, referredUserId := env.uuid4 0,
    inviteLinkId := invite.id }

/-- `signup`. -/
def signup (env : AuthEnv) (req : SignupRequest) : Tx LoginResponse := do
  raiseIf (sec.isCommonPassword req.password = true) passwordTooCommon
  let inviteLink ← consumeInvite env req.inviteToken req.roleChoice
  let role ← getOrRaise (signupRole inviteLink req.roleChoice) (.unexpected "LookupError")
  let db ← read
  let existing ← scalarOneOrNone
    (db.users.rows.filter fun u => sec.fold u.email = sec.fold req.email ∧ u.deletedAt = none)
  raiseIf (existing ≠ none) emailTaken
  let user := newUser env req inviteLink role
  insertUser sec user
  insertReferral (signupReferral env inviteLink)
  let (accessToken, exp) := createAccessToken sec env (env.now 1) user.id role
  insertRefreshToken
    (createRefreshTokenRow sec env (env.uuid4 2) (env.now 2) (env.now 3) user.id none)
  pure (buildLoginResponse (env.now 4) user accessToken (env.tokenUrlsafe 0) exp)

/-! ### Login -/

/-- The rehash of `login`. -/
def rehash (env : AuthEnv) (password : String) (user : User) : Tx Unit :=
  if sec.needsRehash user.passwordHash = true then
    updateUser user.id (User.setPassword (env.hashPassword password))
  else pure ()

/-- `login`. -/
def login (env : AuthEnv) (email password : String) (deviceLabel : Option String) :
    Tx LoginResponse := do
  let db ← read
  let found ← scalarOneOrNone
    (db.users.rows.filter fun u => sec.fold u.email = sec.fold email ∧ u.deletedAt = none)
  let user ← getOrRaise (found.filter fun u => sec.verifyPassword password u.passwordHash)
    invalidCredentials
  raiseIf (user.isActive = false) invalidCredentials
  raiseIf (user.status = .suspended) accountSuspended
  rehash sec env password user
  let (accessToken, exp) := createAccessToken sec env (env.now 0) user.id user.role
  insertRefreshToken
    (createRefreshTokenRow sec env (env.uuid4 0) (env.now 1) (env.now 2) user.id deviceLabel)
  pure (buildLoginResponse (env.now 3) user accessToken (env.tokenUrlsafe 0) exp)

/-! ### Refresh tokens -/

/-- `SELECT … WHERE token_hash = … FOR UPDATE`. -/
def selectTokenForUpdate (tokenHash : String) : Tx (Option RefreshToken) :=
  selectForUpdate (.refreshToken tokenHash) fun db => db.refreshTokens.get tokenHash

/-- What `refresh` commits: new tokens, or the revocation of all of the user's, after which it
raises `TokenReused`. -/
inductive RefreshResult
  | rotated (r : RefreshResponse)
  | reused
deriving DecidableEq, Repr

/-- Reuse detection: every token of the user is revoked. -/
def reuseDetected (env : AuthEnv) (row : RefreshToken) : Tx RefreshResult := do
  let db ← read
  revokeTokens (env.now 0) (db.activeTokens row.userId)
  pure .reused

/-- The row of the next refresh token. -/
def successor (env : AuthEnv) (row : RefreshToken) : RefreshToken :=
  { id := env.uuid4 0, userId := row.userId,
    tokenHash := hashRefreshToken sec (env.tokenUrlsafe 0), deviceLabel := row.deviceLabel,
    issuedAt := env.now 0, expiresAt := env.now 0 + days 7 }

/-- The rotation of a token that is not revoked. -/
def rotate (env : AuthEnv) (row : RefreshToken) : Tx RefreshResult := do
  raiseIf (row.expiresAt < env.now 0) tokenExpired
  let db ← read
  let user ← getOrRaise ((db.users.get row.userId).filter fun u => u.deletedAt = none)
    (authenticationError "Authentication required.")
  raiseIf (user.isActive = false ∨ user.disabledAt ≠ none)
    (authenticationError "Authentication required.")
  updateRefreshToken row.tokenHash (RefreshToken.rotate (env.now 0))
  let (accessToken, exp) := createAccessToken sec env (env.now 1) user.id user.role
  insertRefreshToken (successor sec env row)
  pure (.rotated { accessToken, refreshToken := env.tokenUrlsafe 0,
                   expiresIn := max 0 (totalSeconds (exp - env.now 0)) })

/-- `refresh`. -/
def refresh (env : AuthEnv) (plaintextRefresh : String) : Tx RefreshResult := do
  let found ← selectTokenForUpdate (hashRefreshToken sec plaintextRefresh)
  let row ← getOrRaise found (invalidTokenError "Refresh token not found.")
  if row.revokedAt ≠ none then reuseDetected env row else rotate sec env row

/-- `logout`. -/
def logout (env : AuthEnv) (plaintextRefresh : String) : Tx Unit := do
  let db ← read
  match (db.refreshTokens.get (hashRefreshToken sec plaintextRefresh)).filter
      fun t => t.revokedAt = none with
  | none => pure ()
  | some row => updateRefreshToken row.tokenHash (RefreshToken.revoke (env.now 0))

/-- `logout_all`. -/
def logoutAll (env : AuthEnv) (user : User) : Tx Unit := do
  let db ← read
  revokeTokens (env.now 0) (db.activeTokens user.id)

/-! ### The user's own account -/

/-- The user's row, locked: `scalar_one()`. -/
def lockUser (userId : Id) : Tx User := do
  let found ← selectForUpdate (.user userId) fun db => db.users.get userId
  getOrRaise found (.unexpected "NoResultFound")

/-- `update_me`. -/
def updateMe (user : User) (displayName phone avatarUrl : Option String) : Tx User := do
  let fresh ← lockUser user.id
  updateUser fresh.id (User.updateMe displayName phone avatarUrl)
  pure (fresh.updateMe displayName phone avatarUrl)

/-- `change_password`, with the status that the endpoint gives its `ValueError`. -/
def changePassword (env : AuthEnv) (user : User) (currentPassword newPassword : String) :
    Tx Unit := do
  let fresh ← lockUser user.id
  -- The session has loaded `user`: the locking `SELECT` returns that object and does not refresh
  -- its attributes.
  raiseIf (sec.verifyPassword currentPassword user.passwordHash = false)
    (.http 400 "Current password is incorrect")
  updateUser fresh.id (User.setPassword (env.hashPassword newPassword))

end AuthService

end Marketplace
