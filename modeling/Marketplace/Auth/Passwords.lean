import Marketplace.Lib.Settle
import Marketplace.Auth.Step

/-!
# Changes of a password

A request to change a password loads its user to authenticate it, and then locks the row. The
session returns the object it has loaded, so the current password is checked against the hash
of the authentication. The changes happen one after the other, each with the password in force
at its turn, provided that no change commits between the load of another one and its commit.
-/

namespace Marketplace

open Lib Txn

/-- A request to `/auth/me/password`. -/
structure PasswordRequest where
  credentials : Option String
  currentPassword : String
  newPassword : String
  env : AuthEnv

namespace PasswordRequest

variable (sec : Security)

/-- The transaction of a request: the endpoint uses the session of its authentication. -/
def exec (q : PasswordRequest) : Tx Unit := do
  let user ← Deps.getCurrentUser sec q.env q.credentials
  AuthService.changePassword sec q.env user q.currentPassword q.newPassword

/-- The token of the request names this user. -/
def ActsFor (q : PasswordRequest) (userId : Id) : Prop :=
  ∃ token payload, q.credentials = some token ∧
    sec.decode (q.env.now 0) token = .ok payload ∧ payload.sub = userId

end PasswordRequest

/-- The hash of a user's password. -/
def Db.passwordHash (db : Db) (userId : Id) : Option String :=
  (db.users.get userId).map User.passwordHash

section

variable {ι : Type} (sec : Security) (requests : ι → PasswordRequest)

/-- Served in this order, each request presents the password in force at its turn. -/
def ServedInTurn : String → List ι → Prop
  | _, [] => True
  | inForce, i :: rest =>
    sec.verifyPassword (requests i).currentPassword inForce = true ∧
      ServedInTurn ((requests i).env.hashPassword (requests i).newPassword) rest

/-- The request for this user has succeeded. -/
def PasswordChanged (userId : Id) (t : Sys ι Db Key Err Unit) (i : ι) : Prop :=
  (requests i).ActsFor sec userId ∧ t.txn i = .committed ()

/-- The successful requests for a user have a serial order. If none of the new passwords is the
old one, only one request with the old one succeeds. -/
structure PasswordsSerial (userId : Id) (inForce : String) (t : Sys ι Db Key Err Unit) : Prop where
  serial : ∃ order : List ι, order.Nodup ∧
    (∀ i, i ∈ order ↔ PasswordChanged sec requests userId t i) ∧
    ServedInTurn sec requests inForce order
  single : ∀ old,
    (∀ i, PasswordChanged sec requests userId t i → sec.verifyPassword old
      ((requests i).env.hashPassword (requests i).newPassword) = false) →
    ∀ i j, PasswordChanged sec requests userId t i → PasswordChanged sec requests userId t j →
      (requests i).currentPassword = old → (requests j).currentPassword = old → i = j

/-- A password that the request presents correctly stays in force. -/
def PasswordKept (q : PasswordRequest) (s t : Db) : Prop :=
  ∀ userId hash, q.ActsFor sec userId → s.passwordHash userId = some hash →
    sec.verifyPassword q.currentPassword hash = true → t.passwordHash userId = some hash

/-- No commit replaces a password that another request for that user has loaded to authenticate
it and presents. -/
def PasswordsKept [DecidableEq ι] (s : Sys ι Db Key Err Unit) (i : ι) (t : Sys ι Db Key Err Unit) :
    Prop :=
  ∀ j, j ≠ i → Sys.UnderWay (fun i => (requests i).exec sec) s j →
    PasswordKept sec (requests j) s.db t.db

/-- What a successful request does. -/
def ChangesPassword (q : PasswordRequest) (s t : Db) : Prop :=
  ∃ userId hash, q.ActsFor sec userId ∧ s.passwordHash userId = some hash ∧
    sec.verifyPassword q.currentPassword hash = true ∧
    t.passwordHash userId = some (q.env.hashPassword q.newPassword) ∧
    ∀ other, other ≠ userId → t.passwordHash other = s.passwordHash other

end

/-! ### One request -/

section Request

variable {sec : Security} {q : PasswordRequest}

/-- A token names one user. -/
theorem PasswordRequest.ActsFor.unique {u v : Id} (hu : q.ActsFor sec u) (hv : q.ActsFor sec v) :
    u = v := by
  obtain ⟨token, payload, hcred, hdecode, rfl⟩ := hu
  obtain ⟨token', payload', hcred', hdecode', rfl⟩ := hv
  rw [hcred, Option.some_inj] at hcred'
  subst hcred'
  rw [hdecode, Except.ok.injEq] at hdecode'
  rw [hdecode']

/-- Setting the password of an account sets no other. -/
theorem passwordHash_setPassword (s : Db) (userId : Id) (hash : String) (other : Id) :
    (s.modifyUser userId (User.setPassword hash)).passwordHash other =
      if other = userId then (s.passwordHash other).map fun _ => hash
      else s.passwordHash other := by
  have hget : (s.modifyUser userId (User.setPassword hash)).users.get other =
      if other = userId then (s.users.get other).map (User.setPassword hash)
      else s.users.get other :=
    Table.get_modify s.users userId (f := User.setPassword hash) (fun _ => rfl) other
  unfold Db.passwordHash
  rw [hget]
  split
  · rw [Option.map_map, Option.map_map]
    rfl
  · rfl

/-- The checks of `get_current_user` on the row it has found. -/
def Deps.loadActive (db : Db) (sub : Id) : Tx User := do
  let user ← getOrRaise ((db.users.get sub).filter fun u => u.deletedAt = none)
    (Err.authenticationError "Authentication required.")
  raiseIf (user.isActive = false ∨ user.disabledAt ≠ none)
    (Err.authenticationError "Authentication required.")
  raiseIf (user.status = .suspended)
    (Err.authenticationError "Account suspended." "AUTH_ACCOUNT_SUSPENDED")
  pure user

/-- `get_current_user` refuses the token, or its first statement loads the user of the token. -/
theorem Deps.getCurrentUser_cases (sec : Security) (env : AuthEnv) (credentials : Option String) :
    (∃ e, Deps.getCurrentUser sec env credentials = raise e) ∨
      ∃ token payload, credentials = some token ∧
        sec.decode (env.now 0) token = .ok payload ∧
        Deps.getCurrentUser sec env credentials =
          Txn.read.bind fun db => Deps.loadActive db payload.sub := by
  cases credentials with
  | none => exact .inl ⟨_, rfl⟩
  | some token =>
    unfold Deps.getCurrentUser Deps.decodeBearer
    rw [show (getOrRaise (some token) (Err.authenticationError "Authentication required.") :
      Tx String) = ret token from rfl, bind_eq, ret_bind]
    cases hdecode : sec.decode (env.now 0) token with
    | error e =>
      cases e with
      | app e =>
        by_cases hstatus : e.httpStatus = 401
        · exact .inl ⟨_, by simp only [hstatus, if_true]; rfl⟩
        · exact .inl ⟨_, by simp only [hstatus, if_false]; rfl⟩
      | _ => exact .inl ⟨_, rfl⟩
    | ok payload => exact .inr ⟨token, payload, rfl, hdecode, rfl⟩

/-- A request that relies on the password it has loaded changes the one in force. -/
theorem PasswordRequest.exec_relies :
    (q.exec sec).wprFrom .free (fun _ => True) (PasswordKept sec q) (fun _ => True)
      (RelyOk .free (fun _ => True) fun _ => ChangesPassword sec q) := by
  unfold PasswordRequest.exec
  rcases Deps.getCurrentUser_cases sec q.env q.credentials with
    ⟨e, hraise⟩ | ⟨token, payload, hcred, hdecode, hload⟩
  · rw [hraise]
    trivial
  · have hacts : q.ActsFor sec payload.sub := ⟨token, payload, hcred, hdecode, rfl⟩
    rw [hload, bind_eq, bind_assoc]
    refine wprFrom_read fun s₀ _ _ => ?_
    simp only [Deps.loadActive, AuthService.changePassword, AuthService.lockUser, selectForUpdate,
      updateUser, bind_eq, pure_eq, wpr_bind, wpr_getOrRaise, wpr_raiseIf, wpr_ret, wpr_read]
    intro user hfound _ _ s₁ _ _ _
    obtain ⟨huser, -⟩ := Option.filter_eq_some_iff.mp hfound
    have hid : user.id = payload.sub := (Table.get_eq_some_iff.mp huser).2
    have hloaded : s₀.passwordHash payload.sub = some user.passwordHash := by
      rw [Db.passwordHash, huser, Option.map_some]
    cases hlocked : s₁.users.get user.id with
    | none => simp [hlocked]
    | some _ =>
      simp only [id_eq, hlocked, wpr_bind, wpr_acquire, wpr_ret, wpr_updateRow]
      intro s₂ _ _ _ fresh hfresh hverify s₃ _ _ _ s _ hs _
      have hfreshId : fresh.id = payload.sub := (Table.get_eq_some_iff.mp hfresh).2.trans hid
      have hkept : s.passwordHash payload.sub = some user.passwordHash :=
        hs.1.1.1 payload.sub _ hacts hloaded (by simpa using hverify)
      refine ⟨trivial, ⟨payload.sub, user.passwordHash, hacts, hkept, by simpa using hverify, ?_,
        fun other hother => ?_⟩, fun _ _ => trivial⟩
      · rw [hfreshId]
        exact (passwordHash_setPassword s _ _ _).trans (by rw [if_pos rfl, hkept, Option.map_some])
      · rw [hfreshId]
        exact (passwordHash_setPassword s _ _ _).trans (if_neg hother)

end Request

/-! ### Every interleaving -/

section Runs

variable {ι : Type} {sec : Security} {requests : ι → PasswordRequest} {userId : Id}

/-- The hash that is in force after the requests have been served. -/
def inForceAfter (requests : ι → PasswordRequest) (inForce : String) (order : List ι) : String :=
  order.foldl (fun _ i => (requests i).env.hashPassword (requests i).newPassword) inForce

/-- One more request is served in turn if it presents the password in force by then. -/
theorem servedInTurn_append {inForce : String} {order : List ι} {i : ι} :
    ServedInTurn sec requests inForce (order ++ [i]) ↔
      ServedInTurn sec requests inForce order ∧
        sec.verifyPassword (requests i).currentPassword (inForceAfter requests inForce order) =
          true := by
  induction order generalizing inForce with
  | nil => simp [ServedInTurn, inForceAfter]
  | cons j order ih =>
    simp only [List.cons_append, ServedInTurn, ih, and_assoc]
    rfl

/-- A request that is served presents the first password or a new one. -/
theorem ServedInTurn.presents {inForce : String} {order : List ι}
    (h : ServedInTurn sec requests inForce order) {i : ι} (hi : i ∈ order) :
    sec.verifyPassword (requests i).currentPassword inForce = true ∨
      ∃ j ∈ order, sec.verifyPassword (requests i).currentPassword
        ((requests j).env.hashPassword (requests j).newPassword) = true := by
  induction order generalizing inForce with
  | nil => cases hi
  | cons j order ih =>
    rcases List.mem_cons.mp hi with rfl | hi
    · exact .inl h.1
    · rcases ih h.2 hi with hnew | ⟨k, hk, hnew⟩
      · exact .inr ⟨j, List.mem_cons_self, hnew⟩
      · exact .inr ⟨k, List.mem_cons_of_mem j hk, hnew⟩

/-- Only the first request presents a password that no request sets. -/
theorem ServedInTurn.single {inForce old : String} {order : List ι}
    (h : ServedInTurn sec requests inForce order)
    (hold : ∀ i ∈ order, sec.verifyPassword old
      ((requests i).env.hashPassword (requests i).newPassword) = false) {i j : ι}
    (hi : i ∈ order) (hj : j ∈ order) (hi' : (requests i).currentPassword = old)
    (hj' : (requests j).currentPassword = old) : i = j := by
  cases order with
  | nil => cases hi
  | cons k order =>
    have hfirst : ∀ l ∈ k :: order, (requests l).currentPassword = old → l = k := by
      intro l hl hl'
      rcases List.mem_cons.mp hl with rfl | hl
      · rfl
      · exfalso
        rcases h.2.presents hl with hnew | ⟨m, hm, hnew⟩
        · rw [hl', hold k List.mem_cons_self] at hnew
          cases hnew
        · rw [hl', hold m (List.mem_cons_of_mem k hm)] at hnew
          cases hnew
    rw [hfirst i hi hi', hfirst j hj hj']

open Classical in
/-- The commits for a user serve its requests in turn. -/
theorem served_of_commits {db t : Db} {log : List (ι × Unit)} {inForce : String}
    (hforce : db.passwordHash userId = some inForce)
    (h : Sys.Commits (fun i _ => ChangesPassword sec (requests i)) db log t) :
    ServedInTurn sec requests inForce
        ((log.map Prod.fst).filter fun i => (requests i).ActsFor sec userId) ∧
      t.passwordHash userId = some (inForceAfter requests inForce
        ((log.map Prod.fst).filter fun i => (requests i).ActsFor sec userId)) := by
  induction h with
  | nil => exact ⟨trivial, hforce⟩
  | @snoc log s t i _ _ hchange ih =>
    obtain ⟨hserved, hafter⟩ := ih
    obtain ⟨user, hash, hacts, hhash, hverify, hnew, hothers⟩ := hchange
    rw [List.map_append, List.filter_append]
    by_cases hi : (requests i).ActsFor sec userId
    · obtain rfl := hacts.unique hi
      rw [hafter, Option.some_inj] at hhash
      subst hhash
      simp only [List.map_cons, List.map_nil, List.filter_cons, hi, decide_true, if_true,
        List.filter_nil]
      refine ⟨servedInTurn_append.mpr ⟨hserved, hverify⟩, ?_⟩
      rw [hnew, inForceAfter, List.foldl_append]
      rfl
    · have hne : userId ≠ user := fun heq => hi (heq ▸ hacts)
      simp only [List.map_cons, List.map_nil, List.filter_cons, hi, decide_false,
        Bool.false_eq_true, if_false, List.filter_nil, List.append_nil]
      exact ⟨hserved, (hothers userId hne).trans hafter⟩

variable [DecidableEq ι]

/-- **Password changes in turn.** In every interleaving in which no commit replaces a password that
another request for that user has loaded and presents, the successful requests for a user have a
serial order in which each presents the password in force at its turn. -/
theorem passwords_serial {db : Db} {t : Sys ι Db Key Err Unit} {inForce : String}
    (hforce : db.passwordHash userId = some inForce)
    (h : Sys.StepsIf (PasswordsKept sec requests)
      (Sys.init db fun i => (requests i).exec sec) t) :
    PasswordsSerial sec requests userId inForce t := by
  have hcommits := (h.commits (L := .free) (I := fun _ => True) (S := fun _ _ => True)
    (R := fun i => PasswordKept sec (requests i))
    (Q := fun i _ => ChangesPassword sec (requests i))
    (fun i s userId hash _ hs _ => hs)
    (fun i s t u hst htu userId hash hacts hs hverify =>
      htu userId hash hacts (hst userId hash hacts hs hverify) hverify)
    (fun i => PasswordRequest.exec_relies) trivial
    fun i s t _ hkept _ _ => ⟨fun _ => trivial, hkept⟩).2
  have hlog := h.steps.logsCommits
  classical
  obtain ⟨hserved, -⟩ := served_of_commits hforce hcommits
  have hmem : ∀ i, i ∈ ((t.log.map Prod.fst).filter fun i => (requests i).ActsFor sec userId) ↔
      PasswordChanged sec requests userId t i := by
    intro i
    rw [List.mem_filter, decide_eq_true_eq, PasswordChanged, and_comm]
    refine and_congr_right fun _ => ⟨fun hi => ?_, fun hi => ?_⟩
    · obtain ⟨⟨_, _⟩, hmem, rfl⟩ := List.mem_map.mp hi
      exact hlog.logged _ _ hmem
    · exact List.mem_map.mpr ⟨(i, ()), hlog.complete i () hi, rfl⟩
  refine ⟨⟨_, hlog.nodup.filter _, hmem, hserved⟩, ?_⟩
  intro old hold i j hi hj hi' hj'
  exact hserved.single (fun k hk => hold k ((hmem k).mp hk)) ((hmem i).mpr hi) ((hmem j).mpr hj)
    hi' hj'

end Runs

namespace Sample

/-- A request for the sample account that presents its password and sets another one. -/
def passwordRequest (newPassword : String) : PasswordRequest :=
  { credentials := some "jwt", currentPassword := "secret", newPassword,
    env := (authRequest 1 (.getCurrentUser none)).env }

/-- Two of them, with different new passwords. -/
def passwordRequests (i : Bool) : PasswordRequest :=
  passwordRequest (if i then "first" else "second")

/-- A change of the password, and a later one that presents the password of the first one. -/
def successive (i : Bool) : PasswordRequest :=
  if i then { passwordRequest "third" with currentPassword := "second" }
  else passwordRequest "second"

def changing (i : Bool) : Tx Unit := (passwordRequests i).exec security

end Sample

/-- One request after the other: the second one presents what the first one has set. -/
theorem passwords_serial_in_turn :
    ∃ t, Sys.Steps (Sys.init Sample.accounts fun i =>
        (Sample.successive i).exec Sample.security) t ∧
      t.log.map Prod.fst = [false, true] ∧
      PasswordsSerial Sample.security Sample.successive 1 "secret" t := by
  have hforce : Sample.accounts.passwordHash 1 = some "secret" := by decide +kernel
  obtain ⟨t, ht, -, hlog⟩ := Sys.stepsIf_init_of_serial
    (C := PasswordsKept Sample.security Sample.successive)
    (fun i => (Sample.successive i).exec Sample.security) Sample.accounts [false, true]
    (fun s i t _ hidle j hj hway => absurd hway (hidle j hj).not_underWay) (by decide)
    (by decide +kernel)
  exact ⟨t, ht.steps, hlog, passwords_serial hforce ht⟩

/-- Two requests present one password, both succeed, and neither order is serial. -/
theorem passwords_not_serial :
    ∃ t, Sys.Steps (Sys.init Sample.accounts Sample.changing) t ∧
      t.txn true = .committed () ∧ t.txn false = .committed () ∧
      ¬PasswordsSerial Sample.security Sample.passwordRequests 1 "secret" t := by
  have hreads : (Sample.changing true).selects Sample.accounts 1 = true := by decide +kernel
  obtain ⟨⟨⟩, hrun⟩ := run_of_session (p := Sample.changing false) (s := Sample.accounts)
    (by decide +kernel)
  obtain ⟨⟨⟩, hrest⟩ := run_of_session (p := (Sample.changing true).afterSelects Sample.accounts 1)
    (s := ((Sample.changing false).session Sample.accounts).2) (by decide +kernel)
  obtain ⟨s, t, hs, hst, -, -, hlog, -⟩ :=
    Sys.overtaken_of_run (i := true) (j := false) (by decide) hreads hrun hrest
  have hsteps := hs.tail true hst
  have hlogged := hsteps.logsCommits.logged
  have htrue : t.txn true = .committed () := hlogged true () (by simp [hlog])
  have hfalse : t.txn false = .committed () := hlogged false () (by simp [hlog])
  refine ⟨t, hsteps, htrue, hfalse, fun h => ?_⟩
  have hacts : ∀ i, (Sample.passwordRequests i).ActsFor Sample.security 1 :=
    fun _ => ⟨"jwt", _, rfl, rfl, rfl⟩
  have hsame := h.single "secret" (fun i _ => by cases i <;> decide) true false
    ⟨hacts true, htrue⟩ ⟨hacts false, hfalse⟩ rfl rfl
  cases hsame

end Marketplace
