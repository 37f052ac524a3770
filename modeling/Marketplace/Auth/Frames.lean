import Marketplace.Auth.Step
import Marketplace.Lib.Frame

/-!
# What the requests about accounts write

Every request writes accounts, refresh tokens, invite links and referrals, and nothing else.
Only the suspension of a user and its lifting change the status of an account.
-/

namespace Marketplace

open Lib Txn InviteService AuthService

section Writes

variable {A : (User → User) → Prop} {P : Key → (Db → Db) → Prop} {sec : Security} {env : AuthEnv}

/-! ### Invites -/

/-- Looking for a seller writes nothing. -/
theorem writes_findSeller (userId : Id) : (findSeller userId).Writes P :=
  .bind .read fun _ => writes_scalarOneOrNone _

/-- Looking for a link, under its lock, writes nothing. -/
theorem writes_selectLinkForUpdate (token : String) : (selectLinkForUpdate token).Writes P := by
  refine .bind .read fun _ => .bind (writes_scalarOneOrNone _) fun found => ?_
  cases found with
  | none => exact .pure none
  | some l => exact .bind (.acquire _) fun _ => .pure _

/-- Checking the chosen role writes nothing. -/
theorem writes_checkRole (invite : InviteLink) (chosenRole : Option String) :
    (checkRole invite chosenRole).Writes P := by
  unfold checkRole
  cases invite.type with
  | adminInvite => exact .bind (.raiseIf _ _) fun _ => .raiseIf _ _
  | sellerReferral =>
    exact .bind (.raiseIf _ _) fun _ => .bind .read fun _ => .bind (.raiseIf _ _) fun _ =>
      .bind (writes_findSeller _) fun _ => .raiseIf _ _

/-- Taking an invite writes to the link and inserts a referral. -/
theorem consumeInvite_writes (token : String) (chosenRole : Option String) :
    (consumeInvite env token chosenRole).Writes (AuthWrite A) := by
  refine .bind (writes_selectLinkForUpdate _) fun _ => .bind (.getOrRaise _ _) fun _ =>
    .bind (.raiseIf _ _) fun _ => .bind (.raiseIf _ _) fun _ => .bind (.raiseIf _ _) fun _ =>
    .bind (writes_checkRole _ _) fun _ => ?_
  exact .bind (.updateRow (.use _ _)) fun _ => .pure _

/-- An administrator's invite is one new link. -/
theorem createAdminInvite_writes (issuer : User) (roleTarget : String) (expiresInHours : ℤ) :
    (createAdminInvite env issuer roleTarget expiresInHours).Writes (InviteWrite A) :=
  .bind (.raiseIf _ _) fun _ => .bind (.getOrRaise _ _) fun _ =>
    .bind (writes_insertLink _) fun _ => .pure _

/-- A seller's referral link is one new link, if there is none. -/
theorem getOrCreateSellerReferral_writes (sellerUser : User) :
    (getOrCreateSellerReferral env sellerUser).Writes (InviteWrite A) := by
  refine .bind (.raiseIf _ _) fun _ => .bind (writes_findSeller _) fun _ =>
    .bind (.raiseIf _ _) fun _ => .bind .read fun _ =>
    .bind (writes_scalarOneOrNone _) fun existing => ?_
  cases existing with
  | none => exact .bind (writes_insertLink _) fun _ => .pure _
  | some l => exact .pure l

/-- What only changes rows makes no links but those it may make. -/
theorem quietly {α : Type} {p : Tx α} (h : p.Writes (QuietWrite A)) : p.Writes (InviteWrite A) :=
  h.mono fun _ _ hf => .quiet hf

/-- Regenerating revokes the old links and inserts a new one. -/
theorem regenerateSellerReferral_writes (sellerUser : User) :
    (regenerateSellerReferral env sellerUser).Writes (InviteWrite A) :=
  .bind (.raiseIf _ _) fun _ => .bind (writes_findSeller _) fun _ => .bind (.raiseIf _ _) fun _ =>
    .bind .read fun _ => .bind (quietly (writes_revokeLinks _ _)) fun _ =>
    .bind (writes_insertLink _) fun _ => .pure _

/-- Checking who may revoke writes nothing. -/
theorem writes_ensureMayRevoke (user : User) (invite : InviteLink) :
    (ensureMayRevoke user invite).Writes P := by
  unfold ensureMayRevoke
  cases user.role with
  | admin => exact .pure ()
  | seller => exact .raiseIf _ _
  | _ => exact .raise _

/-- Revoking writes to the row of the link. -/
theorem revokeInvite_writes (user : User) (inviteId : Id) :
    (revokeInvite env user inviteId).Writes (QuietWrite A) :=
  .bind .read fun _ => .bind (.getOrRaise _ _) fun _ => .bind (.raiseIf _ _) fun _ =>
    .bind (writes_ensureMayRevoke _ _) fun _ => writes_updateLink _ (linkChange_revoke _)

/-! ### Accounts and tokens -/

/-- A signup makes an account with its invite taken, and logs it in. -/
theorem signup_writes (req : SignupRequest) : (signup sec env req).Writes (AuthWrite A) :=
  .bind (.raiseIf _ _) fun _ => .bind (consumeInvite_writes _ _) fun _ =>
    .bind (.getOrRaise _ _) fun _ => .bind .read fun _ => .bind (writes_scalarOneOrNone _) fun _ =>
    .bind (.raiseIf _ _) fun _ => .bind (writes_insertUser _ _) fun _ =>
    .bind (writes_insertReferral _) fun _ =>
    .bind ((writes_insertRefreshToken _).mono fun _ _ hf => .quiet hf) fun _ => .pure _

/-- A login changes the account at most by rehashing, and inserts a token. -/
theorem login_writes (hedit : ∀ f, AccountEdit f → A f) (email password : String)
    (deviceLabel : Option String) :
    (login sec env email password deviceLabel).Writes (QuietWrite A) := by
  refine .bind .read fun _ => .bind (writes_scalarOneOrNone _) fun _ =>
    .bind (.getOrRaise _ _) fun _ => .bind (.raiseIf _ _) fun _ => .bind (.raiseIf _ _) fun _ =>
    .bind ?_ fun _ => .bind (writes_insertRefreshToken _) fun _ => .pure _
  exact .ite (writes_updateUser _ (hedit _ (accountEdit_setPassword _))) (.pure ())

/-- A refresh rotates the presented token, or revokes those of the account. -/
theorem refresh_writes (plaintextRefresh : String) :
    (refresh sec env plaintextRefresh).Writes (QuietWrite A) := by
  refine .bind (writes_selectForUpdate _ _) fun _ => .bind (.getOrRaise _ _) fun _ => .ite ?_ ?_
  · exact .bind .read fun _ => .bind (writes_revokeTokens _ _) fun _ => .pure _
  · exact .bind (.raiseIf _ _) fun _ => .bind .read fun _ => .bind (.getOrRaise _ _) fun _ =>
      .bind (.raiseIf _ _) fun _ =>
      .bind (writes_updateRefreshToken _ (tokenChange_rotate _)) fun _ =>
      .bind (writes_insertRefreshToken _) fun _ => .pure _

/-- A logout revokes the presented token. -/
theorem logout_writes (plaintextRefresh : String) :
    (logout sec env plaintextRefresh).Writes (QuietWrite A) := by
  refine .bind .read fun db => ?_
  split
  · exact .pure ()
  · exact writes_updateRefreshToken _ (tokenChange_revoke _)

/-- A logout everywhere revokes the tokens of the account. -/
theorem logoutAll_writes (user : User) : (logoutAll env user).Writes (QuietWrite A) :=
  .bind .read fun _ => writes_revokeTokens _ _

/-- Locking an account writes nothing. -/
theorem writes_lockUser (userId : Id) : (lockUser userId).Writes P :=
  .bind (writes_selectForUpdate _ _) fun _ => .getOrRaise _ _

/-- Editing the profile writes to the own account. -/
theorem updateMe_writes (hedit : ∀ f, AccountEdit f → A f) (user : User)
    (displayName phone avatarUrl : Option String) :
    (updateMe user displayName phone avatarUrl).Writes (QuietWrite A) :=
  .bind (writes_lockUser _) fun _ =>
    .bind (writes_updateUser _ (hedit _ (accountEdit_updateMe _ _ _))) fun _ => .pure _

/-- A change of password sets it and revokes the tokens. -/
theorem changePassword_writes (hedit : ∀ f, AccountEdit f → A f) (user : User)
    (currentPassword newPassword : String) :
    (changePassword sec env user currentPassword newPassword).Writes (QuietWrite A) :=
  .bind (writes_lockUser _) fun _ => .bind (.raiseIf _ _) fun _ =>
    writes_updateUser _ (hedit _ (accountEdit_setPassword _))

/-- Looking for an account writes nothing. -/
theorem writes_findUser (userId : Id) : (AdminService.findUser userId).Writes P :=
  .bind .read fun _ => .getOrRaise _ _

/-- Authenticating a request writes nothing. -/
theorem getCurrentUser_writes (credentials : Option String) :
    (Deps.getCurrentUser sec env credentials).Writes P := by
  refine .bind (.getOrRaise _ _) fun credentials => .bind ?_ fun _ => .bind .read fun _ =>
    .bind (.getOrRaise _ _) fun _ => .bind (.raiseIf _ _) fun _ => .bind (.raiseIf _ _) fun _ =>
    .pure _
  unfold Deps.decodeBearer
  split
  · exact .pure _
  · exact .ite (.raise _) (.raise _)
  · exact .raise _

/-- Authenticating a socket writes nothing. -/
theorem authenticate_writes (token : Option String) :
    (Gateway.authenticate sec env token).Writes P := by
  unfold Gateway.authenticate
  split
  · exact .pure _
  · split
    · exact .pure _
    · exact .bind .read fun _ => .pure _

/-! ### Every request -/

/-- No request but a signup makes a user. -/
theorem authExec_makes_no_user {op : AuthOp} (hop : ∀ req, op ≠ .signup req)
    (hedit : ∀ f, AccountEdit f → A f)
    (hsuspend : ∀ id reason, op = .suspendUser id reason → ∀ now, A (User.suspend now reason))
    (hunsuspend : ∀ id, op = .unsuspendUser id → A User.unsuspend) :
    (op.exec sec env).Writes (InviteWrite A) := by
  cases op with
  | signup req => exact absurd rfl (hop req)
  | login email password label =>
    exact .bind (quietly (login_writes hedit email password label)) fun _ => .pure _
  | refresh plaintext => exact .bind (quietly (refresh_writes plaintext)) fun _ => .pure _
  | logout plaintext => exact .bind (quietly (logout_writes plaintext)) fun _ => .pure _
  | logoutAll user => exact .bind (quietly (logoutAll_writes user)) fun _ => .pure _
  | updateMe user name phone url =>
    exact .bind (quietly (updateMe_writes hedit user name phone url)) fun _ => .pure _
  | changePassword user current new =>
    exact .bind (quietly (changePassword_writes hedit user current new)) fun _ => .pure _
  | createAdminInvite issuer role expires =>
    exact .bind (createAdminInvite_writes issuer role expires) fun _ => .pure _
  | getOrCreateSellerReferral user =>
    exact .bind (getOrCreateSellerReferral_writes user) fun _ => .pure _
  | regenerateSellerReferral user =>
    exact .bind (regenerateSellerReferral_writes user) fun _ => .pure _
  | revokeInvite user id => exact .bind (quietly (revokeInvite_writes user id)) fun _ => .pure _
  | suspendUser id reason =>
    exact .bind (.bind (writes_findUser id) fun _ =>
      .bind (quietly (writes_updateUser _ (hsuspend id reason rfl _))) fun _ => .pure _) fun _ =>
      .pure _
  | unsuspendUser id =>
    exact .bind (.bind (writes_findUser id) fun _ =>
      .bind (quietly (writes_updateUser _ (hunsuspend id rfl))) fun _ => .pure _) fun _ => .pure _
  | getCurrentUser credentials => exact .bind (getCurrentUser_writes credentials) fun _ => .pure _
  | authenticate token => exact .bind (authenticate_writes token) fun _ => .pure _

/-- The changes of accounts in the writes of a request. -/
theorem authExec_writes {op : AuthOp} (hedit : ∀ f, AccountEdit f → A f)
    (hsuspend : ∀ id reason, op = .suspendUser id reason → ∀ now, A (User.suspend now reason))
    (hunsuspend : ∀ id, op = .unsuspendUser id → A User.unsuspend) :
    (op.exec sec env).Writes (AuthWrite A) := by
  by_cases hop : ∀ req, op ≠ .signup req
  · refine (authExec_makes_no_user hop hedit hsuspend hunsuspend).mono fun _ _ hf => ?_
    cases hf with
    | quiet hf => exact .quiet hf
    | addLink l => exact .addLink l
  · simp only [not_forall, not_not] at hop
    obtain ⟨req, rfl⟩ := hop
    exact .bind (signup_writes req) fun _ => .pure _

end Writes

/-! ### What a signup may rely on -/

/-- The roles that a link may give. -/
def InviteLink.Grants (l : InviteLink) (role : UserRole) : Prop :=
  match l.type with
  | .adminInvite => l.roleTarget = some role
  | .sellerReferral => role ∈ sellerReferralRoles

section Signup

variable {env : AuthEnv} {L : Locking Db Key} {I : Db → Prop} {facts : List (Key × Db)}
  {w : Db → Db}

/-- The checks of the role: a role that follows from the choice is one that the link grants. -/
theorem checkRole_grants {invite : InviteLink} {chosenRole : Option String}
    {Post : List (Key × Db) → (Db → Db) → Unit → Prop}
    (h : (∀ role, signupRole invite chosenRole = some role → invite.Grants role) →
      Post facts w ()) : (checkRole invite chosenRole).wp L I Post facts w := by
  unfold checkRole
  cases htype : invite.type with
  | adminInvite =>
    simp only [checkAdminInvite, bind_eq, wp_bind, wp_raiseIf]
    refine fun _ _ => h fun role hrole => ?_
    simp only [signupRole, htype] at hrole
    simpa only [InviteLink.Grants, htype] using hrole
  | sellerReferral =>
    simp only [checkSellerReferral, findSeller, bind_eq, wp_bind, wp_raiseIf, wp_read,
      wp_scalarOneOrNone]
    refine fun hchosen _ _ _ _ _ _ _ _ _ _ => h fun role hrole => ?_
    have hmem : chosenRole ∈ sellerReferralRoles.map fun r => some r.label :=
      Decidable.not_not.mp hchosen
    obtain ⟨r, hr, rfl⟩ := List.mem_map.mp hmem
    have hlabel : UserRole.ofLabel r.label = some r := by cases r <;> rfl
    simp only [signupRole, htype, Option.bind_some, hlabel, Option.some.injEq] at hrole
    simpa only [InviteLink.Grants, htype, ← hrole] using hr

/-- The invite that a signup consumes is valid when it is locked. -/
theorem consumeInvite_wp {token : String} {chosenRole : Option String}
    {Post : List (Key × Db) → (Db → Db) → InviteLink → Prop}
    (h : ∀ s t : Db, ∀ invite : InviteLink, s.inviteLinks.get invite.id = some invite →
      invite.token = token → invite.revokedAt = none → isExpired (env.now 0) invite = false →
      isUsed invite = false →
      (∀ role, signupRole invite chosenRole = some role → invite.Grants role) →
      Post [(.inviteLink invite.id, t), (.inviteLink invite.id, s)]
        (fun s => s.modifyLink invite.id (InviteLink.use (invite.usedCount + 1))) invite) :
    (consumeInvite env token chosenRole).wp L I Post [] id := by
  simp only [consumeInvite, selectLinkForUpdate, bind_eq, wp_bind, wp_read, wp_scalarOneOrNone]
  intro s _ _ found _
  cases found with
  | none => exact trivial
  | some l =>
    simp only [wp_bind, wp_acquire, pure_eq, wp_ret, wp_getOrRaise, wp_raiseIf]
    intro t _ _ invite hinvite hrevoked hexpired hused
    obtain ⟨hget, htoken⟩ := Option.filter_eq_some_iff.mp hinvite
    have hid : invite.id = l.id := Table.key_of_get hget
    refine checkRole_grants fun hgrants => ?_
    simp only [updateLink, wp_updateRow]
    intro u _ _
    rw [← hid] at hget ⊢
    exact h t u invite hget (of_decide_eq_true htoken) (Decidable.not_not.mp hrevoked)
      (Bool.eq_false_iff.mpr hexpired) (Bool.eq_false_iff.mpr hused) hgrants

/-- An insertion that looks up two unique indexes, and the entries it has locked. -/
theorem insertReserved_wp {put : Db → Db} {key key' : Key} {taken taken' : Db → Bool}
    {name name' : String} {Post : List (Key × Db) → (Db → Db) → Unit → Prop}
    (h : ∀ s t, taken (w s) = false → taken' (w t) = false →
      Post ((key', t) :: (key, s) :: facts) (put ∘ w) ()) :
    (reserve key taken name >>= fun _ => insertRow key' taken' name' put).wp L I Post facts w := by
  simp only [reserve, bind_eq, wp_bind, wp_acquire, wp_raiseIf, wp_insertRow]
  exact fun s _ _ hs t _ _ ht => h s t (Bool.eq_false_iff.mpr hs) ht

end Signup

end Marketplace
