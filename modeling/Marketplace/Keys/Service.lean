import Marketplace.Invite.Service

/-!
# The key registry

`key_service.py`: the registration, rotation and revocation of public keys. A partial unique
index allows a user one active key; the registration of a key rotates the active rows that
its locking read returns and then fills the entry of that index.
-/

namespace Marketplace

open Lib Txn Err

/-! ### What the service writes -/

namespace UserPublicKey

def rotate (now : Time) (k : UserPublicKey) : UserPublicKey :=
  { k with status := .rotated, rotatedAt := some now }

def revoke (now : Time) (k : UserPublicKey) : UserPublicKey :=
  { k with status := .revoked, revokedAt := some now }

/-- An active key of the user, which the partial unique index covers. -/
def ActiveOf (userId : Id) (k : UserPublicKey) : Prop := k.userId = userId ∧ k.status = .active

instance (userId : Id) (k : UserPublicKey) : Decidable (k.ActiveOf userId) :=
  inferInstanceAs (Decidable (_ ∧ _))

variable (now : Time) (k : UserPublicKey)

/-- Rotating a key keeps its id. -/
@[simp] theorem rotate_id : (k.rotate now).id = k.id := rfl

/-- Revoking a key keeps its id. -/
@[simp] theorem revoke_id : (k.revoke now).id = k.id := rfl

end UserPublicKey

namespace Db

def addPublicKey (db : Db) (k : UserPublicKey) : Db :=
  { db with userPublicKeys := db.userPublicKeys.insert k }

def modifyPublicKey (db : Db) (id : Id) (f : UserPublicKey → UserPublicKey) : Db :=
  { db with userPublicKeys := db.userPublicKeys.modify id f }

/-- The active keys of a user. -/
def activeKeys (db : Db) (userId : Id) : List UserPublicKey :=
  db.userPublicKeys.rows.filter fun k => k.ActiveOf userId

end Db

/-! ### Statements -/

def insertPublicKey (k : UserPublicKey) : Tx Unit := do
  encode [k.keyVersion] []
  reserve (.userPublicKey k.id) (fun db => (db.userPublicKeys.get k.id).isSome)
    "pk_user_public_keys"
  insertRow (.activePublicKey k.userId) (fun db => db.activeKeys k.userId ≠ [])
    "uq_user_public_keys_one_active" fun db => db.addPublicKey k

/-- An `UPDATE` that takes a row out of the partial unique index: whoever wants to fill its entry
waits for the end of this transaction. -/
def retireKey (k : UserPublicKey) (f : UserPublicKey → UserPublicKey) : Tx Unit := do
  let _ ← acquire (.activePublicKey k.userId)
  updateRow (.userPublicKey k.id) fun db => db.modifyPublicKey k.id f

/-- One row after another of the `SELECT … FOR UPDATE` over active keys: a row that is no longer
active when its lock is taken is left out. -/
def lockActiveKeys (userId : Id) : List UserPublicKey → Tx (List UserPublicKey)
  | [] => pure []
  | k :: ks => do
    let db ← acquire (.userPublicKey k.id)
    let rest ← lockActiveKeys userId ks
    pure (((db.userPublicKeys.get k.id).filter fun k => k.ActiveOf userId).toList ++ rest)

/-- The `UPDATE` of each key that the session has rotated. -/
def rotateKeys (now : Time) : List UserPublicKey → Tx Unit
  | [] => pure ()
  | k :: ks => do
    retireKey k (UserPublicKey.rotate now)
    rotateKeys now ks

namespace KeyService

/-- The row of a new key. -/
def newKey (env : Env) (user : User) (publicKeyRaw : Bytes) (keyVersion : ℤ) : UserPublicKey :=
  { id := env.uuid4 0, userId := user.id, publicKey := publicKeyRaw, keyVersion,
    status := .active, registeredAt := env.now 0, createdAt := env.now 0 }

/-- `register_key`. -/
def registerKey (env : Env) (user : User) (publicKeyRaw : Bytes) (keyVersion : ℤ) :
    Tx UserPublicKey := do
  let db ← read
  let existing ← lockActiveKeys user.id (db.activeKeys user.id)
  rotateKeys (env.now 0) existing
  insertPublicKey (newKey env user publicKeyRaw keyVersion)
  pure (newKey env user publicKeyRaw keyVersion)

/-- `get_active_key_for_user`. -/
def getActiveKeyForUser (userId : Id) : Tx UserPublicKey := do
  let db ← read
  let row ← scalarOneOrNone (db.activeKeys userId)
  getOrRaise row publicKeyNotFound

/-- `list_keys_for_user`. -/
def listKeysForUser (userId : Id) : Tx (List UserPublicKey) := do
  let db ← read
  pure ((db.userPublicKeys.rows.filter fun k => k.userId = userId).mergeSort
    fun j k => k.createdAt ≤ j.createdAt)

/-- The part of `revoke_key` that changes the row. -/
def setRevoked (env : Env) (row : UserPublicKey) : Tx UserPublicKey :=
  match row.status with
  | .revoked => pure row
  | .active => do
    retireKey row (UserPublicKey.revoke (env.now 0))
    pure (row.revoke (env.now 0))
  | .rotated => do
    updateRow (.userPublicKey row.id)
      fun db => db.modifyPublicKey row.id (UserPublicKey.revoke (env.now 0))
    pure (row.revoke (env.now 0))

/-- `revoke_key`. -/
def revokeKey (env : Env) (caller : User) (keyId : Id) : Tx UserPublicKey := do
  let found ← selectForUpdate (.userPublicKey keyId) fun db => db.userPublicKeys.get keyId
  let row ← getOrRaise found keyOwnershipError
  raiseIf (row.userId ≠ caller.id) keyOwnershipError
  setRevoked env row

end KeyService

/-! ### Requests -/

/-- An operation of the service. -/
inductive KeyOp
  | registerKey (publicKeyRaw : Bytes) (keyVersion : ℤ)
  | getActiveKeyForUser (userId : Id)
  | listKeysForUser
  | revokeKey (keyId : Id)

/-- What an operation returns. -/
inductive KeyReply
  | registered (row : UserPublicKey)
  | active (row : UserPublicKey)
  | listed (rows : List UserPublicKey)
  | revoked (row : UserPublicKey)
  deriving DecidableEq

/-- A call of the service by an authenticated user. -/
structure KeyRequest where
  caller : User
  op : KeyOp
  env : Env

def KeyRequest.exec (q : KeyRequest) : Tx KeyReply :=
  match q.op with
  | .registerKey publicKeyRaw keyVersion => do
    pure (.registered (← KeyService.registerKey q.env q.caller publicKeyRaw keyVersion))
  | .getActiveKeyForUser userId => do
    pure (.active (← KeyService.getActiveKeyForUser userId))
  | .listKeysForUser => do
    pure (.listed (← KeyService.listKeysForUser q.caller.id))
  | .revokeKey keyId => do
    pure (.revoked (← KeyService.revokeKey q.env q.caller keyId))

end Marketplace
