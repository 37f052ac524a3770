import Marketplace.Auth.Service

/-!
# Who is let in

The checks of an access token, `get_current_user` of `deps.py` and `_authenticate` of the
WebSocket gateway, and the suspension of a user, of `admin_service.py`.
-/

namespace Marketplace

open Lib Txn Err

namespace Deps

variable (sec : Security)

/-- The decoding of `get_current_user`: an error that is not an `AuthenticationError` is
replaced by one. -/
def decodeBearer (now : Time) (credentials : String) : Tx AccessTokenPayload :=
  match sec.decode now credentials with
  | .ok payload => pure payload
  | .error (.app e) =>
    if e.httpStatus = 401 then raise (.app e) else raise (authenticationError "Token is invalid.")
  | .error _ => raise (authenticationError "Token is invalid.")

/-- `get_current_user`. -/
def getCurrentUser (env : AuthEnv) (credentials : Option String) : Tx User := do
  let credentials ← getOrRaise credentials (authenticationError "Authentication required.")
  let payload ← decodeBearer sec (env.now 0) credentials
  let db ← read
  let user ← getOrRaise ((db.users.get payload.sub).filter fun u => u.deletedAt = none)
    (authenticationError "Authentication required.")
  raiseIf (user.isActive = false ∨ user.disabledAt ≠ none)
    (authenticationError "Authentication required.")
  raiseIf (user.status = .suspended)
    (authenticationError "Account suspended." "AUTH_ACCOUNT_SUSPENDED")
  pure user

end Deps

namespace Gateway

variable (sec : Security)

/-- `_authenticate`, of the token in the query or in the header; `None` closes the socket. -/
def authenticate (env : AuthEnv) (token : Option String) : Tx (Option User) :=
  match token.filter fun token => token ≠ "" with
  | none => pure none
  | some token =>
    match sec.decode (env.now 0) token with
    | .error _ => pure none
    | .ok payload => do
      let db ← read
      pure ((db.users.get payload.sub).filter fun u =>
        u.deletedAt = none ∧ u.isActive = true ∧ u.disabledAt = none)

end Gateway

namespace AdminService

/-- The user of an administrator's request. -/
def findUser (userId : Id) : Tx User := do
  let db ← read
  getOrRaise ((db.users.get userId).filter fun u => u.deletedAt = none)
    (notFoundError "User not found.")

/-- `suspend_user`. -/
def suspendUser (env : AuthEnv) (userId : Id) (reason : String) : Tx User := do
  let user ← findUser userId
  updateUser user.id (User.suspend (env.now 0) reason)
  pure (user.suspend (env.now 0) reason)

/-- `unsuspend_user`. -/
def unsuspendUser (userId : Id) : Tx User := do
  let user ← findUser userId
  updateUser user.id User.unsuspend
  pure user.unsuspend

end AdminService

end Marketplace
