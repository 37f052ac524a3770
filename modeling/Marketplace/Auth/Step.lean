import Marketplace.Auth.Access

/-!
# Requests about accounts, tokens and invites

One type for every request that the auth, invite and administration services serve and for
the two checks of an access token, with the transaction of each and the kinds of its writes.
-/

namespace Marketplace

open Lib Txn

/-- The operations of the auth and invite services, the suspension of users and the checks of
an access token. -/
inductive AuthOp
  | signup (req : AuthService.SignupRequest)
  | login (email password : String) (deviceLabel : Option String)
  | refresh (plaintextRefresh : String)
  | logout (plaintextRefresh : String)
  | logoutAll (user : User)
  | updateMe (user : User) (displayName phone avatarUrl : Option String)
  | changePassword (user : User) (currentPassword newPassword : String)
  | createAdminInvite (issuer : User) (roleTarget : String) (expiresInHours : ℤ)
  | getOrCreateSellerReferral (sellerUser : User)
  | regenerateSellerReferral (sellerUser : User)
  | revokeInvite (user : User) (inviteId : Id)
  | suspendUser (userId : Id) (reason : String)
  | unsuspendUser (userId : Id)
  /-- `get_current_user`, on which every endpoint with a bearer token depends. -/
  | getCurrentUser (credentials : Option String)
  /-- The authentication of a WebSocket. -/
  | authenticate (token : Option String)
deriving DecidableEq

/-- What a request to these services returns. -/
inductive AuthReply
  | session (r : AuthService.LoginResponse)
  | refreshed (r : AuthService.RefreshResult)
  | invite (l : InviteLink)
  | user (u : User)
  | socket (u : Option User)
  | done
deriving DecidableEq

/-- A request to these services and what it takes from its surroundings. -/
structure AuthRequest where
  op : AuthOp
  env : AuthEnv

section

variable (sec : Security)

/-- The transaction that serves a request. -/
def AuthOp.exec (op : AuthOp) (env : AuthEnv) : Tx AuthReply :=
  match op with
  | .signup req => do return .session (← AuthService.signup sec env req)
  | .login email password deviceLabel => do
    return .session (← AuthService.login sec env email password deviceLabel)
  | .refresh plaintext => do return .refreshed (← AuthService.refresh sec env plaintext)
  | .logout plaintext => do
    AuthService.logout sec env plaintext
    return .done
  | .logoutAll user => do
    AuthService.logoutAll env user
    return .done
  | .updateMe user displayName phone avatarUrl => do
    return .user (← AuthService.updateMe user displayName phone avatarUrl)
  | .changePassword user current new => do
    AuthService.changePassword sec env user current new
    return .done
  | .createAdminInvite issuer roleTarget expiresInHours => do
    return .invite (← InviteService.createAdminInvite env issuer roleTarget expiresInHours)
  | .getOrCreateSellerReferral user => do
    return .invite (← InviteService.getOrCreateSellerReferral env user)
  | .regenerateSellerReferral user => do
    return .invite (← InviteService.regenerateSellerReferral env user)
  | .revokeInvite user inviteId => do
    InviteService.revokeInvite env user inviteId
    return .done
  | .suspendUser userId reason => do return .user (← AdminService.suspendUser env userId reason)
  | .unsuspendUser userId => do return .user (← AdminService.unsuspendUser userId)
  | .getCurrentUser credentials => do return .user (← Deps.getCurrentUser sec env credentials)
  | .authenticate token => do return .socket (← Gateway.authenticate sec env token)

/-- The transaction that serves a request. -/
def AuthRequest.exec (q : AuthRequest) : Tx AuthReply := q.op.exec sec q.env

/-! ### The kinds of the writes -/

/-- A change of an account that keeps what other requests look at, but for the suspension. -/
structure AccountChange (f : User → User) : Prop where
  id : ∀ u, (f u).id = u.id
  role : ∀ u, (f u).role = u.role
  isActive : ∀ u, (f u).isActive = u.isActive
  disabledAt : ∀ u, (f u).disabledAt = u.disabledAt
  deletedAt : ∀ u, (f u).deletedAt = u.deletedAt

/-- A change that a user makes to its own account. -/
structure AccountEdit (f : User → User) : Prop extends AccountChange f where
  status : ∀ u, (f u).status = u.status

/-- A change of a refresh token, which never lifts its revocation. -/
structure TokenChange (f : RefreshToken → RefreshToken) : Prop where
  tokenHash : ∀ t, (f t).tokenHash = t.tokenHash
  userId : ∀ t, (f t).userId = t.userId
  revoked : ∀ t, t.revokedAt ≠ none → (f t).revokedAt ≠ none

/-- A revocation of an invite link. -/
structure LinkChange (f : InviteLink → InviteLink) : Prop where
  same : ∀ l, f l = l ∨ ∃ now, f l = l.revoke now

/-- A write of a request that neither makes a user nor issues an invite link, with the changes
`A` of accounts. -/
inductive QuietWrite (A : (User → User) → Prop) : Key → (Db → Db) → Prop
  | account (id f) (hf : A f) : QuietWrite A (.user id) fun db => db.modifyUser id f
  | addToken (t) : QuietWrite A (.refreshToken t.tokenHash) fun db => db.addRefreshToken t
  | token (h f) (hf : TokenChange f) :
      QuietWrite A (.refreshToken h) fun db => db.modifyRefreshToken h f
  | link (id f) (hf : LinkChange f) : QuietWrite A (.inviteLink id) fun db => db.modifyLink id f

/-- A write of a request that makes no user, with the changes `A` of accounts. -/
inductive InviteWrite (A : (User → User) → Prop) : Key → (Db → Db) → Prop
  | quiet {key f} (hf : QuietWrite A key f) : InviteWrite A key f
  | addLink (l) : InviteWrite A (.inviteLink l.id) fun db => db.addLink l

/-- A write of any request, with the changes `A` of accounts. -/
inductive AuthWrite (A : (User → User) → Prop) : Key → (Db → Db) → Prop
  | quiet {key f} (hf : QuietWrite A key f) : AuthWrite A key f
  | use (id usedCount) : AuthWrite A (.inviteLink id) fun db =>
      db.modifyLink id (InviteLink.use usedCount)
  | addUser (u) : AuthWrite A (.user u.id) fun db => db.addUser u
  | addReferral (r) : AuthWrite A (.referral r.id) fun db => db.addReferral r
  | addLink (l) : AuthWrite A (.inviteLink l.id) fun db => db.addLink l

/-- Editing the profile leaves identity, role and suspension alone. -/
theorem accountEdit_updateMe (displayName phone avatarUrl : Option String) :
    AccountEdit (User.updateMe displayName phone avatarUrl) :=
  ⟨⟨fun _ => rfl, fun _ => rfl, fun _ => rfl, fun _ => rfl, fun _ => rfl⟩, fun _ => rfl⟩

/-- Setting a password leaves identity, role and suspension alone. -/
theorem accountEdit_setPassword (passwordHash : String) :
    AccountEdit (User.setPassword passwordHash) :=
  ⟨⟨fun _ => rfl, fun _ => rfl, fun _ => rfl, fun _ => rfl, fun _ => rfl⟩, fun _ => rfl⟩

/-- A suspension leaves the identity and the role alone. -/
theorem accountChange_suspend (now : Time) (reason : String) :
    AccountChange (User.suspend now reason) :=
  ⟨fun _ => rfl, fun _ => rfl, fun _ => rfl, fun _ => rfl, fun _ => rfl⟩

/-- Lifting a suspension leaves the identity and the role alone. -/
theorem accountChange_unsuspend : AccountChange User.unsuspend :=
  ⟨fun _ => rfl, fun _ => rfl, fun _ => rfl, fun _ => rfl, fun _ => rfl⟩

/-- Revoking keeps the identity of a token and gives no token back. -/
theorem tokenChange_revoke (now : Time) : TokenChange (RefreshToken.revoke now) :=
  ⟨fun _ => rfl, fun _ => rfl, fun _ _ => Option.some_ne_none now⟩

/-- Rotating keeps the identity of a token and gives no token back. -/
theorem tokenChange_rotate (now : Time) : TokenChange (RefreshToken.rotate now) :=
  ⟨fun _ => rfl, fun _ => rfl, fun _ _ => Option.some_ne_none now⟩

/-- The bulk revocation, seen at one token, revokes it or leaves it alone. -/
theorem tokenChange_revokeIfActive (now : Time) :
    TokenChange (RefreshToken.revokeIfActive now) where
  tokenHash := RefreshToken.revokeIfActive_tokenHash now
  userId t := by
    unfold RefreshToken.revokeIfActive
    split
    · rfl
    · rfl
  revoked t ht := by
    rw [RefreshToken.revokeIfActive, if_neg ht]
    exact ht

/-- A revoked link stays the link it was. -/
theorem linkChange_revoke (now : Time) : LinkChange (InviteLink.revoke now) :=
  ⟨fun _ => .inr ⟨now, rfl⟩⟩

/-- A link that is no longer active stays the link it was. -/
theorem linkChange_revokeIfActive (now : Time) : LinkChange (InviteLink.revokeIfActive now) where
  same l := by
    by_cases hl : l.revokedAt = none
    · exact .inr ⟨now, by rw [InviteLink.revokeIfActive, if_pos hl]⟩
    · exact .inl (by rw [InviteLink.revokeIfActive, if_neg hl])

section Writes

variable {A : (User → User) → Prop} {P : Key → (Db → Db) → Prop}

/-- The only write of an account's `UPDATE` is the one to its row. -/
theorem writes_updateUser (id : Id) {f : User → User} (hf : A f) :
    (updateUser id f).Writes (QuietWrite A) := Writes.updateRow (.account id f hf)

/-- The only write of a token's `UPDATE` is the one to its row. -/
theorem writes_updateRefreshToken (h : String) {f : RefreshToken → RefreshToken}
    (hf : TokenChange f) : (updateRefreshToken h f).Writes (QuietWrite A) :=
  Writes.updateRow (.token h f hf)

/-- The only write of a link's `UPDATE` is the one to its row. -/
theorem writes_updateLink (id : Id) {f : InviteLink → InviteLink} (hf : LinkChange f) :
    (updateLink id f).Writes (QuietWrite A) := Writes.updateRow (.link id f hf)

/-- A new token is a write to its own row. -/
theorem writes_insertRefreshToken (t : RefreshToken) :
    (insertRefreshToken t).Writes (QuietWrite A) :=
  (writes_reserve _ _ _).bind fun _ => Writes.checked (.addToken t)

/-- A bulk revocation writes to the rows of the tokens that it has found. -/
theorem writes_revokeTokens (now : Time) (ts : List RefreshToken) :
    (revokeTokens now ts).Writes (QuietWrite A) := by
  induction ts with
  | nil => exact Writes.pure ()
  | cons t ts ih =>
    exact (writes_updateRefreshToken _ (tokenChange_revokeIfActive now)).bind fun _ => ih

/-- A bulk revocation writes to the rows of the links that it has found. -/
theorem writes_revokeLinks (now : Time) (ls : List InviteLink) :
    (revokeLinks now ls).Writes (QuietWrite A) := by
  induction ls with
  | nil => exact Writes.pure ()
  | cons l ls ih => exact (writes_updateLink _ (linkChange_revokeIfActive now)).bind fun _ => ih

/-- An insertion under a lock that is already held. -/
theorem writesFrom_insertRow {held : List Key} {key key' : Key} {taken : Db → Bool}
    {constraint : String} {put : Db → Db} (hkey : key ∈ held) (hput : P key put) :
    (insertRow key' taken constraint put).WritesFrom P held := by
  intro s
  change WritesFrom P (key' :: held) ((raiseIf (taken s = true) _).bind fun _ => modify put)
  unfold raiseIf
  split
  · trivial
  · exact ⟨⟨key, List.mem_cons_of_mem key' hkey, hput⟩, trivial⟩

/-- A new account writes its row, under the lock of its address. -/
theorem writes_insertUser (sec : Security) (u : User) : (insertUser sec u).Writes (AuthWrite A) :=
  writes_reserve_bind fun _ hkey => writesFrom_insertRow hkey (.addUser u)

/-- A new referral writes its row, under the lock of the account it is for. -/
theorem writes_insertReferral (r : Referral) : (insertReferral r).Writes (AuthWrite A) :=
  writes_reserve_bind fun _ hkey => writesFrom_insertRow hkey (.addReferral r)

/-- Reserving the place of an active link writes nothing. -/
theorem writes_reserveReferral (l : InviteLink) : (reserveReferral l).Writes P :=
  Writes.ite (writes_reserve _ _ _) (Writes.pure ())

/-- A new link writes its row, under the lock of its token. -/
theorem writes_insertLink (l : InviteLink) : (insertLink l).Writes (InviteWrite A) := by
  refine writes_reserve_bind fun held hkey =>
    (writes_reserve _ _ _ held).bind fun _ held' hsub => ?_
  refine (writes_reserveReferral l held').bind fun _ held'' hsub' => ?_
  exact ⟨⟨.inviteLink l.id, hsub' (hsub hkey), .addLink l⟩, trivial⟩

end Writes

end

/-! ### A small server -/

namespace Sample

/-- A server whose hashes are the texts themselves and which knows one access token. -/
def security : Security where
  sha256 := id
  verifyPassword password passwordHash := password = passwordHash
  needsRehash _ := false
  isCommonPassword _ := false
  encode _ := "jwt"
  decode _ token :=
    if token = "jwt" then .ok { sub := 1, role := .customer, jti := "jti", exp := 900, iat := 0 }
    else .error (.unexpected "DecodeError")
  fold := id

def account : User :=
  { id := 1, email := "a@example.com", passwordHash := "secret", role := .customer }

/-- A server with one account. -/
def accounts : Db := { users := (∅ : Table User User.id).insert account }

/-- The `n`-th request. -/
def authRequest (n : ℕ) (op : AuthOp) : AuthRequest :=
  { op, env := { now := fun _ => n, transactionNow := n, uuid4 := fun i => 10 * n + i,
                          randbelow := 0, tokenUrlsafe := fun _ => Nat.repr n, tokenHex := "jti",
                          hashPassword := id } }

end Sample

end Marketplace
