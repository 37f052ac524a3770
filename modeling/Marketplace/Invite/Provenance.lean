import Marketplace.Auth.Passwords
import Marketplace.Invite.Consumption

/-!
# Where accounts come from

There is no registration without an invite, and an invite is created in the name of the user whose
bearer token the request carries. The accounts there were at the beginning therefore vouch for all
that have come since: each was invited by one of them, or by one whom they have invited, and only
administrators ever invite administrators and drivers.
-/

namespace Marketplace

open Lib Txn Err InviteService AuthService

/-! ### The endpoints that create invites -/

namespace Deps

/-- `require_roles`, for the roles in the order of their labels. -/
def requireRoles (sec : Security) (roles : List UserRole) (env : AuthEnv)
    (credentials : Option String) : Tx User := do
  let user ← getCurrentUser sec env credentials
  raiseIf (user.role ∉ roles) (authorizationError
    ("Role " ++ reprText user.role.label ++ " is not authorized for this endpoint. Required: [" ++
      String.intercalate ", " (roles.map fun role => reprText role.label) ++ "]."))
  pure user

end Deps

namespace AdminService

/-- `issue_admin_invite`. -/
def issueAdminInvite (env : AuthEnv) (issuer : User) (roleTarget : String)
    (expiresInDays : ℤ) : Tx InviteLink := do
  let role ← getOrRaise (UserRole.ofLabel roleTarget)
    (notFoundError ("Invalid role_target: " ++ reprText roleTarget))
  let invite : InviteLink :=
    { id := env.uuid4 0, issuerId := issuer.id, type := .adminInvite, token := env.tokenUrlsafe 0,
      roleTarget := some role, maxUses := some 1, usedCount := 0,
      expiresAt := some (env.now 0 + days expiresInDays), createdAt := env.transactionNow }
  insertLink invite
  pure invite

end AdminService

/-- The endpoints that create invites. -/
inductive IssueOp
  | createAdminInvite (roleTarget : String) (expiresInHours : ℤ)
  | issueInvite (roleTarget : String) (expiresInDays : ℤ)
  | getOrCreateSellerReferral
  | regenerateSellerReferral
deriving DecidableEq

namespace IssueOp

/-- The type of the invites of the endpoint. -/
def type : IssueOp → InviteLinkType
  | createAdminInvite .. => .adminInvite
  | issueInvite .. => .adminInvite
  | getOrCreateSellerReferral => .sellerReferral
  | regenerateSellerReferral => .sellerReferral

/-- What the endpoint does for its caller. -/
def serve (env : AuthEnv) (user : User) : IssueOp → Tx InviteLink
  | createAdminInvite roleTarget expiresInHours =>
    InviteService.createAdminInvite env user roleTarget expiresInHours
  | issueInvite roleTarget expiresInDays =>
    AdminService.issueAdminInvite env user roleTarget expiresInDays
  | getOrCreateSellerReferral => InviteService.getOrCreateSellerReferral env user
  | regenerateSellerReferral => InviteService.regenerateSellerReferral env user

end IssueOp

/-- The roles that may create invites of the type: `get_current_admin` and
`get_current_seller_or_admin`. -/
def InviteLinkType.issuers : InviteLinkType → List UserRole
  | .adminInvite => [.admin]
  | .sellerReferral => [.admin, .seller]

/-- What is left of the clock after its first reading. -/
def AuthEnv.later (env : AuthEnv) : AuthEnv := { env with now := fun i => env.now (i + 1) }

/-- A request to one of the endpoints, with its bearer token. -/
structure IssueRequest where
  op : IssueOp
  credentials : Option String
  env : AuthEnv

/-- The transaction that serves it. -/
def IssueRequest.exec (sec : Security) (q : IssueRequest) : Tx InviteLink := do
  let user ← Deps.requireRoles sec q.op.type.issuers q.env q.credentials
  q.op.serve q.env.later user

/-- The request creates an invite in the name of a user that it is given. -/
def AppRequest.Issues : AppRequest → Prop
  | .auth { op := .createAdminInvite .., .. } => True
  | .auth { op := .getOrCreateSellerReferral .., .. } => True
  | .auth { op := .regenerateSellerReferral .., .. } => True
  | _ => False

/-- Any request to the server, where invites are created by the endpoints. -/
inductive RoutedRequest
  | app (q : AppRequest) (hq : ¬q.Issues)
  | issue (q : IssueRequest)

/-- The transaction that serves it. -/
def RoutedRequest.exec (sec : Security) (lower : String → String) : RoutedRequest → Tx AppReply
  | .app q _ => q.exec sec lower
  | .issue q => do return .auth (.invite (← q.exec sec))

/-! ### Who vouches for whom -/

/-- The user exists and may create invites of the type. -/
def Db.MayIssue (db : Db) (type : InviteLinkType) (id : Id) : Prop :=
  ∃ u, db.users.get id = some u ∧ u.role ∈ type.issuers

/-- Every link has been created by such a user. -/
def Db.LinksIssued (db : Db) : Prop :=
  ∀ id l, db.inviteLinks.get id = some l → db.MayIssue l.type l.issuerId

/-- The user has signed up with the link, as the referral rows tell, in a role that it grants. -/
structure Db.InvitedWith (db : Db) (u : User) (l : InviteLink) : Prop where
  link : db.inviteLinks.get l.id = some l
  referral : ∃ r ∈ db.referrals.rows, r.inviteLinkId = l.id ∧ r.referredUserId = u.id
  grants : l.Grants u.role
  issuer : db.MayIssue l.type l.issuerId

/-- The user is one of the founders, or has been invited by somebody for whom they vouch. -/
inductive Db.Vouched (db : Db) (founder : Id → Prop) : Id → Prop
  | founder {id} : founder id → db.Vouched founder id
  | invited {u l} : db.users.get u.id = some u → db.InvitedWith u l →
      db.Vouched founder l.issuerId → db.Vouched founder u.id

/-- What no request takes away: accounts and their roles, links and their terms, referral rows. -/
structure AccountsKept (s t : Db) : Prop where
  users : ∀ id u, s.users.get id = some u → ∃ u', t.users.get id = some u' ∧ u'.role = u.role
  links : ∀ id l, s.inviteLinks.get id = some l →
    ∃ l', t.inviteLinks.get id = some l' ∧ l.Later l'
  referrals : ∀ r ∈ s.referrals.rows, r ∈ t.referrals.rows

/-- The accounts and the links that a commit brings: an account comes with a link that was there,
a link from a user who may create it. -/
structure Arrivals (s t : Db) : Prop where
  users : ∀ id u, s.users.get id = none → t.users.get id = some u →
    ∃ l, s.inviteLinks.get l.id = some l ∧ l.Grants u.role ∧
      ∃ r ∈ t.referrals.rows, r.inviteLinkId = l.id ∧ r.referredUserId = id
  links : ∀ id l, s.inviteLinks.get id = none → t.inviteLinks.get id = some l →
    s.MayIssue l.type l.issuerId

section Chains

variable {s t u : Db} {founder : Id → Prop} {id : Id}

/-- A state keeps its own accounts. -/
theorem AccountsKept.refl (s : Db) : AccountsKept s s where
  users _ u hu := ⟨u, hu, rfl⟩
  links _ l hl := ⟨l, hl, .refl l⟩
  referrals _ hr := hr

/-- Accounts kept twice are kept. -/
theorem AccountsKept.trans (h : AccountsKept s t) (h' : AccountsKept t u) : AccountsKept s u where
  users id x hx := by
    obtain ⟨y, hy, hrole⟩ := h.users id x hx
    obtain ⟨z, hz, hrole'⟩ := h'.users id y hy
    exact ⟨z, hz, hrole'.trans hrole⟩
  links id l hl := by
    obtain ⟨l', hl', hlater⟩ := h.links id l hl
    obtain ⟨l'', hl'', hlater'⟩ := h'.links id l' hl'
    exact ⟨l'', hl'', hlater.trans hlater'⟩
  referrals r hr := h'.referrals r (h.referrals r hr)

/-- Who might issue a link may still issue it. -/
theorem AccountsKept.mayIssue (h : AccountsKept s t) {type : InviteLinkType}
    (hs : s.MayIssue type id) : t.MayIssue type id := by
  obtain ⟨v, hv, hrole⟩ := hs
  obtain ⟨v', hv', hsame⟩ := h.users id v hv
  exact ⟨v', hv', by rwa [hsame]⟩

/-- Nobody is disowned. -/
theorem AccountsKept.vouched (h : AccountsKept s t) (hs : s.Vouched founder id) :
    t.Vouched founder id := by
  induction hs with
  | founder hfounder => exact .founder hfounder
  | @invited v l hv hinvited _ ih =>
    obtain ⟨v', hv', hrole⟩ := h.users _ v hv
    obtain ⟨l', hl', hlater⟩ := h.links _ l hinvited.link
    obtain ⟨r, hr, hlink, hreferred⟩ := hinvited.referral
    have hid : v'.id = v.id := Table.key_of_get hv'
    have hlid : l'.id = l.id := Table.key_of_get hl'
    have htype : l'.type = l.type := hlater.field InviteLink.type fun _ => rfl
    have hissuer : l'.issuerId = l.issuerId := hlater.field InviteLink.issuerId fun _ => rfl
    rw [← hid] at hv' hreferred ⊢
    rw [← hlid] at hl' hlink
    refine .invited (l := l') hv' ⟨hl', ⟨r, h.referrals r hr, hlink, hreferred⟩, ?_, ?_⟩ ?_
    · rw [hrole]
      exact hlater.grants hinvited.grants
    · rw [htype, hissuer]
      exact h.mayIssue hinvited.issuer
    · rwa [hissuer]

/-- New links from users who may issue them keep every link issued so. -/
theorem linksIssued_of_arrivals (h : AccountsKept s t) (hnew : Arrivals s t)
    (hs : s.LinksIssued) : t.LinksIssued := by
  intro id l hl
  cases hold : s.inviteLinks.get id with
  | none => exact h.mayIssue (hnew.links id l hold hl)
  | some k =>
    obtain ⟨l', hl', hlater⟩ := h.links id k hold
    obtain rfl := Option.some.inj (hl.symm.trans hl')
    rw [hlater.field InviteLink.type fun _ => rfl, hlater.field InviteLink.issuerId fun _ => rfl]
    exact h.mayIssue (hs id k hold)

/-- Whoever comes is vouched for by whoever has created the link. -/
theorem vouched_of_arrivals (h : AccountsKept s t) (hnew : Arrivals s t) (hissued : s.LinksIssued)
    (hs : ∀ id u, s.users.get id = some u → s.Vouched founder id) {v : User}
    (hv : t.users.get id = some v) : t.Vouched founder id := by
  cases hold : s.users.get id with
  | some w => exact h.vouched (hs id w hold)
  | none =>
    obtain ⟨l, hl, hgrants, r, hr, hlink, hreferred⟩ := hnew.users id v hold hv
    obtain ⟨l', hl', hlater⟩ := h.links _ l hl
    have hid : v.id = id := Table.key_of_get hv
    have hlid : l'.id = l.id := Table.key_of_get hl'
    have hissuer : l'.issuerId = l.issuerId := hlater.field InviteLink.issuerId fun _ => rfl
    have htype : l'.type = l.type := hlater.field InviteLink.type fun _ => rfl
    obtain ⟨w, hw, hrole⟩ := hissued _ l hl
    rw [← hid] at hv hreferred ⊢
    rw [← hlid] at hl' hlink
    refine .invited (l := l') hv
      ⟨hl', ⟨r, hr, hlink, hreferred⟩, hlater.grants hgrants, ?_⟩ ?_
    · rw [htype, hissuer]
      exact h.mayIssue ⟨w, hw, hrole⟩
    · rw [hissuer]
      exact h.vouched (hs _ w hw)

end Chains

/-! ### What the requests write -/

/-- A write after which there are no accounts and no links that were not there before. -/
structure SettledWrite (key : Key) (f : Db → Db) : Prop where
  safe : InviteSafe key f
  users : ∀ s id, s.users.get id = none → (f s).users.get id = none
  links : ∀ s id, s.inviteLinks.get id = none → (f s).inviteLinks.get id = none

/-- A write of a request that makes no accounts, and links only of the types and issuers that are
`fit`. -/
inductive FitWrite (fit : InviteLinkType → Id → Prop) : Key → (Db → Db) → Prop
  | settled {key f} (h : SettledWrite key f) : FitWrite fit key f
  | issue (l : InviteLink) (hl : l.Unused) (hfit : fit l.type l.issuerId) :
      FitWrite fit (.inviteLink l.id) fun db => db.addLink l

/-- What such a request does. -/
structure FitOnly (fit : InviteLinkType → Id → Prop) (s t : Db) : Prop
    extends AccountsKept s t where
  usersNone : ∀ id, s.users.get id = none → t.users.get id = none
  linksNew : ∀ id l, s.inviteLinks.get id = none → t.inviteLinks.get id = some l →
    fit l.type l.issuerId

section Writes

variable {key : Key} {f : Db → Db} {s t u : Db} {fit : InviteLinkType → Id → Prop}
  {sec : Security} {lower : String → String} {env : AuthEnv}

/-- What keeps the invitations keeps the accounts. -/
theorem InvitesKept.accountsKept (h : InvitesKept s t) : AccountsKept s t where
  users := h.users
  links id l hl := by
    obtain ⟨l', hl', hlater, -⟩ := h.links id l hl
    exact ⟨l', hl', hlater⟩
  referrals r hr := by rwa [h.referrals]

/-- A state adds no link to itself. -/
theorem FitOnly.refl (s : Db) : FitOnly fit s s where
  toAccountsKept := .refl s
  usersNone _ hid := hid
  linksNew id l hid hl := by
    rw [hid] at hl
    cases hl

/-- Two stretches that add fitting links only make one. -/
theorem FitOnly.trans (h : FitOnly fit s t) (h' : FitOnly fit t u) :
    FitOnly fit s u where
  toAccountsKept := h.toAccountsKept.trans h'.toAccountsKept
  usersNone id hid := h'.usersNone id (h.usersNone id hid)
  linksNew id l hid hl := by
    cases hmid : t.inviteLinks.get id with
    | none => exact h'.linksNew id l hmid hl
    | some m =>
      obtain ⟨l', hl', hlater⟩ := h'.links id m hmid
      obtain rfl := Option.some.inj (hl.symm.trans hl')
      rw [hlater.field InviteLink.type fun _ => rfl, hlater.field InviteLink.issuerId fun _ => rfl]
      exact h.linksNew id m hid hmid

/-- A settled write adds no link. -/
theorem SettledWrite.fitOnly (h : SettledWrite key f) (s : Db) :
    FitOnly fit s (f s) where
  toAccountsKept := (h.safe s).1.accountsKept
  usersNone := h.users s
  linksNew id l hid hl := by
    rw [h.links s id hid] at hl
    cases hl

/-- A fitting write adds fitting links only. -/
theorem FitWrite.fitOnly (h : FitWrite fit key f) (s : Db) :
    FitOnly fit s (f s) := by
  cases h with
  | settled h => exact h.fitOnly s
  | issue l hl hfit =>
    refine ⟨(inviteSafe_issue hl s).1.accountsKept, fun _ hid => hid, fun id k hid hk => ?_⟩
    rcases Table.get_of_insert hk with rfl | hold
    · exact hfit
    · rw [hid] at hold
      cases hold

/-- A fitting write under one lock leaves the rows under the others alone. -/
theorem FitWrite.frame (h : FitWrite fit key f) (s : Db) {key' : Key}
    (hne : key' ≠ key) : inviteLocking.agree key' s (f s) := by
  cases h with
  | settled h => exact (h.safe s).2 key' hne
  | issue l hl => exact (inviteSafe_issue hl s).2 key' hne

/-- A safe write that leaves the accounts alone is settled. -/
theorem settled_of_same (hsafe : InviteSafe key f) (h : ∀ s, SameAccounts s (f s)) :
    SettledWrite key f where
  safe := hsafe
  users s id hid := by rwa [(h s).users]
  links s id hid := by rwa [(h s).inviteLinks]

/-- The catalogue's writes are settled. -/
theorem CatalogWrite.settled (h : CatalogWrite key f) : SettledWrite key f := by
  have hsame : ∀ s, (f s).users = s.users ∧ (f s).inviteLinks = s.inviteLinks := fun s => by
    cases h <;> exact ⟨rfl, rfl⟩
  refine ⟨h.inviteSafe, fun s id hid => ?_, fun s id hid => ?_⟩
  · rwa [(hsame s).1]
  · rwa [(hsame s).2]

/-- The account's writes are settled. -/
theorem QuietWrite.settled (h : QuietWrite AccountChange key f) : SettledWrite key f := by
  have hsafe : InviteSafe key f := IssueWrite.inviteSafe (.quiet h)
  cases h with
  | account id f hf =>
    refine ⟨hsafe, fun s id' hid => ?_, fun _ _ hid => hid⟩
    have hget : (s.modifyUser id f).users.get id' = _ := Table.get_modify s.users id hf.id id'
    rw [hget, hid]
    exact ite_self none
  | link id f hf =>
    refine ⟨hsafe, fun _ _ hid => hid, fun s id' hid => ?_⟩
    have hget : (s.modifyLink id f).inviteLinks.get id' = _ :=
      Table.get_modify s.inviteLinks id
        (fun l => (hf.later l).1.field InviteLink.id fun _ => rfl) id'
    rw [hget, hid]
    exact ite_self none
  | addToken t => exact settled_of_same hsafe fun _ => ⟨rfl, rfl, rfl⟩
  | token h f hf => exact settled_of_same hsafe fun _ => ⟨rfl, rfl, rfl⟩

/-- A request about accounts that neither is a signup nor creates an invite. -/
theorem authExec_settled {op : AuthOp} (hsignup : ∀ req, op ≠ .signup req)
    (hop : ¬(AppRequest.auth ⟨op, env⟩).Issues) :
    (op.exec sec env).Writes (QuietWrite AccountChange) := by
  have hedit : ∀ f, AccountEdit f → AccountChange f := fun _ hf => hf.toAccountChange
  cases op with
  | signup req => exact absurd rfl (hsignup req)
  | login email password label =>
    exact .bind (login_writes hedit email password label) fun _ => .pure _
  | refresh plaintext => exact .bind (refresh_writes plaintext) fun _ => .pure _
  | logout plaintext => exact .bind (logout_writes plaintext) fun _ => .pure _
  | logoutAll user => exact .bind (logoutAll_writes user) fun _ => .pure _
  | updateMe user name phone url =>
    exact .bind (updateMe_writes hedit user name phone url) fun _ => .pure _
  | changePassword user current new =>
    exact .bind (changePassword_writes hedit user current new) fun _ => .pure _
  | createAdminInvite => exact absurd trivial hop
  | getOrCreateSellerReferral => exact absurd trivial hop
  | regenerateSellerReferral => exact absurd trivial hop
  | revokeInvite user id => exact .bind (revokeInvite_writes user id) fun _ => .pure _
  | suspendUser id reason =>
    exact .bind (.bind (writes_findUser id) fun _ => .bind
      (writes_updateUser _ (accountChange_suspend _ reason)) fun _ => .pure _) fun _ => .pure _
  | unsuspendUser id =>
    exact .bind (.bind (writes_findUser id) fun _ => .bind
      (writes_updateUser _ accountChange_unsuspend) fun _ => .pure _) fun _ => .pure _
  | getCurrentUser credentials => exact .bind (getCurrentUser_writes credentials) fun _ => .pure _
  | authenticate token => exact .bind (authenticate_writes token) fun _ => .pure _

/-- A request to the services that neither is a signup nor creates an invite. -/
theorem appExec_settled {q : AppRequest} (hsignup : q.signup? = none) (hq : ¬q.Issues) :
    (q.exec sec lower).Writes SettledWrite := by
  cases q with
  | service c =>
    exact .bind ((serviceExec_writes c).mono fun _ _ h => settled_of_same h.inviteSafe h.accounts)
      fun _ => .pure _
  | auth q =>
    obtain ⟨op, env⟩ := q
    have hop : ∀ req, op ≠ .signup req := by
      rintro req rfl
      cases hsignup
    exact .bind ((authExec_settled hop hq).mono fun _ _ h => h.settled) fun _ => .pure _
  | catalog q =>
    exact .bind ((catalogExec_writes lower q.op).mono fun _ _ h => h.settled) fun _ => .pure _
  | messaging q =>
    exact .bind ((messagingExec_writes q).mono fun _ _ h => settled_of_same h.inviteSafe h.accounts)
      fun _ => .pure _
  | keys q =>
    exact .bind ((keyExec_writes q).mono fun _ _ h => settled_of_same h.inviteSafe h.accounts)
      fun _ => .pure _

/-! ### The endpoints -/

/-- Inserting a fitting link writes a fitting link only. -/
theorem writes_issueLink {l : InviteLink} (hl : l.Unused) (hfit : fit l.type l.issuerId) :
    (insertLink l).Writes (FitWrite fit) := by
  refine writes_reserve_bind fun held hkey =>
    (writes_reserve _ _ _ held).bind fun _ held' hsub => ?_
  refine (writes_reserveReferral l held').bind fun _ held'' hsub' => ?_
  exact ⟨⟨.inviteLink l.id, hsub' (hsub hkey), .issue l hl hfit⟩, trivial⟩

/-- An administrator's link is one that an administrator may issue. -/
theorem writes_issueAdminLink (issuer : User) (id : Id) (token : String) (role : UserRole)
    (expiresAt createdAt : Time) (hfit : fit .adminInvite issuer.id) :
    (insertLink { id, issuerId := issuer.id, type := .adminInvite, token, roleTarget := some role,
                  maxUses := some 1, usedCount := 0, expiresAt := some expiresAt,
                  createdAt }).Writes
      (FitWrite fit) := by
  refine writes_issueLink ⟨rfl, fun m hm => ?_⟩ hfit
  obtain rfl := Option.some.inj hm
  decide

/-- An endpoint creates invites of its type, for its caller. -/
theorem serve_writes (op : IssueOp) (user : User) (hfit : fit op.type user.id) :
    (op.serve env user).Writes (FitWrite fit) := by
  cases op with
  | createAdminInvite roleTarget expiresInHours =>
    exact .bind (.raiseIf _ _) fun _ => .bind (.getOrRaise _ _) fun _ =>
      .bind (writes_issueAdminLink user _ _ _ _ _ hfit) fun _ => .pure _
  | issueInvite roleTarget expiresInDays =>
    exact .bind (.getOrRaise _ _) fun _ =>
      .bind (writes_issueAdminLink user _ _ _ _ _ hfit) fun _ =>
      .pure _
  | getOrCreateSellerReferral =>
    have hreferral := writes_issueLink (unused_newReferral env user) hfit
    refine .bind (.raiseIf _ _) fun _ => .bind (writes_findSeller _) fun _ =>
      .bind (.raiseIf _ _) fun _ => .bind .read fun _ =>
      .bind (writes_scalarOneOrNone _) fun existing => ?_
    cases existing with
    | none => exact .bind hreferral fun _ => .pure _
    | some l => exact .pure l
  | regenerateSellerReferral =>
    have hreferral := writes_issueLink (unused_newReferral env user) hfit
    have hrevoke : ∀ ls, (revokeLinks (env.now 0) ls).Writes (FitWrite fit) :=
      fun ls => (writes_revokeLinks (env.now 0) ls).mono fun _ _ h => .settled h.settled
    exact .bind (.raiseIf _ _) fun _ => .bind (writes_findSeller _) fun _ =>
      .bind (.raiseIf _ _) fun _ => .bind .read fun _ => .bind (hrevoke _) fun _ =>
      .bind hreferral fun _ => .pure _

end Writes

/-! ### Every request -/

section Requests

variable {sec : Security} {lower : String → String} {env : AuthEnv} {s t : Db}

/-- A program with such writes brings no accounts, and only links that are fit. -/
theorem wpr_arrivals {α : Type} {fit : InviteLinkType → Id → Prop} {p : Tx α} {K : Db → Prop}
    (hp : p.Writes (FitWrite fit))
    (hK : ∀ s, K s → ∀ type id, fit type id → s.MayIssue type id) :
    p.wpr inviteLocking (fun _ => True) AccountsKept (RelyOk inviteLocking (fun _ => True)
      fun _ s t => AccountsKept s t ∧ Arrivals s t) K [] id := by
  have heffect : p.wpr inviteLocking (fun _ => True) AccountsKept _ K [] id :=
    wpr_of_writes (E := FitOnly fit) (fun _ _ _ => FitOnly.trans) (fun _ _ h => h.fitOnly)
      (fun _ _ h s _ hne => h.frame s hne) (hp []) FitOnly.refl fun s key _ =>
        inviteLocking.refl key s
  refine wpr_mono (fun K' facts w a hpost s _ hs _ => ?_) (wpr_and heffect (wpr_known hK))
  obtain ⟨⟨honly, hframe⟩, hissuer⟩ := hpost
  refine ⟨trivial, ⟨(honly s).toAccountsKept, ?_, ?_⟩, hframe s⟩
  · intro id u hid hu
    rw [(honly s).usersNone id hid] at hu
    cases hu
  · exact fun id l hid hl => hissuer s hs _ _ ((honly s).linksNew id l hid hl)

/-- Of a caller whom an endpoint has let in, it stays true that it has one of the roles. -/
theorem wpr_requireRoles {roles : List UserRole} {credentials : Option String} {K : Db → Prop}
    {facts : List (Key × Db)} {Post : (Db → Prop) → List (Key × Db) → (Db → Db) → User → Prop}
    (h : ∀ (user : User) (K' : Db → Prop),
      (∀ s, K' s → ∃ u, s.users.get user.id = some u ∧ u.role ∈ roles) → Post K' facts id user) :
    (Deps.requireRoles sec roles env credentials).wpr inviteLocking (fun _ => True) AccountsKept
      Post K facts id := by
  unfold Deps.requireRoles
  rcases Deps.getCurrentUser_cases sec env credentials with
    ⟨e, hraise⟩ | ⟨token, payload, -, -, hload⟩
  · rw [hraise]
    trivial
  · simp only [hload, Deps.loadActive, bind_eq, pure_eq, wpr_bind, wpr_read, wpr_getOrRaise,
      wpr_raiseIf, wpr_ret, id]
    intro s _ _ _ user hfound _ _ hrole
    obtain ⟨hget, -⟩ := Option.filter_eq_some_iff.mp hfound
    have hid : user.id = payload.sub := Table.key_of_get hget
    refine h user _ fun t ht => ?_
    obtain ⟨u, hu, hsame⟩ := ht.2.users _ user hget
    exact ⟨u, by rwa [hid], by rw [hsame]; exact Decidable.not_not.mp hrole⟩

/-- An endpoint creates invites in the name of a user who may do so. -/
theorem IssueRequest.exec_arrivals (q : IssueRequest) :
    (q.exec sec).wpr inviteLocking (fun _ => True) AccountsKept
      (RelyOk inviteLocking (fun _ => True) fun _ s t => AccountsKept s t ∧ Arrivals s t)
      (fun _ => True) [] id :=
  wpr_bind.mpr (wpr_requireRoles fun user _ hK => by
    have hwrites : (q.op.serve q.env.later user).Writes
        (FitWrite fun type id => type = q.op.type ∧ id = user.id) :=
      serve_writes q.op user ⟨rfl, rfl⟩
    refine wpr_arrivals hwrites ?_
    rintro s hs _ _ ⟨rfl, rfl⟩
    exact hK s hs)

/-- A signup brings the account of its link. -/
theorem SignedUp.arrivals {req : SignupRequest} {l : InviteLink} {role : UserRole}
    (h : SignedUp req env l role s t) : AccountsKept s t ∧ Arrivals s t := by
  have hnew : signupReferral env l ∈ t.referrals.rows := by
    rw [h.referrals]
    exact List.mem_append_right _ (List.mem_singleton_self _)
  refine ⟨⟨fun id u hu => ⟨u, ?_, rfl⟩, fun id k => h.later, fun r hr => ?_⟩, fun id u hid hu => ?_,
    fun id k hid hk => ?_⟩
  · rw [h.users]
    refine (Table.get_insert_of_ne _ ?_).trans hu
    rintro rfl
    rw [show s.users.get (newUser env req l role).id = none from h.newcomer] at hu
    cases hu
  · rw [h.referrals]
    exact List.mem_append_left _ hr
  · rw [h.users] at hu
    rcases Table.get_of_insert hu with rfl | hold
    · have hid' : (newUser env req l role).id = id := Table.key_of_get hu
      exact ⟨l, h.link, h.grants, _, hnew, rfl, hid'⟩
    · rw [hid] at hold
      cases hold
  · rw [h.get] at hk
    split at hk
    · next heq =>
      rw [heq, h.link] at hid
      cases hid
    · rw [hid] at hk
      cases hk

/-- What the commit of any request brings. -/
theorem RoutedRequest.exec_arrivals (q : RoutedRequest) :
    (q.exec sec lower).wpr inviteLocking (fun _ => True) AccountsKept
      (RelyOk inviteLocking (fun _ => True) fun _ s t => AccountsKept s t ∧ Arrivals s t)
      (fun _ => True) [] id := by
  cases q with
  | issue q => exact wpr_bind.mpr q.exec_arrivals
  | app q hq =>
    cases hsignup : q.signup? with
    | none =>
      have hwrites : (q.exec sec lower).Writes (FitWrite fun _ _ => False) :=
        (appExec_settled hsignup hq).mono fun _ _ h => .settled h
      exact wpr_arrivals hwrites fun _ _ _ _ hfalse => hfalse.elim
    | some signup =>
      have hinvites : (q.exec sec lower).Safe inviteLocking (fun _ => True) fun _ s t =>
          InviteEffect q s t := appExec_invites q
      refine wpr_mono (fun K facts w a hok s _ _ hknown => ?_) (wpr_of_wp hinvites)
      obtain ⟨-, heffect, hframe⟩ := hok s trivial hknown
      simp only [InviteEffect, hsignup] at heffect
      obtain ⟨l, role, heffect⟩ := heffect
      exact ⟨trivial, heffect.arrivals, hframe⟩

end Requests

/-! ### Every interleaving -/

section Runs

variable {db t : Db} {founder : Id → Prop} {id : Id} {u : User}

/-- What the commits of a log have brought. -/
theorem vouched_of_commits {ι : Type} {log : List (ι × AppReply)} (hdb : db.LinksIssued)
    (h : Sys.Commits (fun _ _ s t => AccountsKept s t ∧ Arrivals s t) db log t) :
    AccountsKept db t ∧ t.LinksIssued ∧
      ∀ id u, t.users.get id = some u → t.Vouched (fun id => db.users.get id ≠ none) id := by
  induction h with
  | nil =>
    refine ⟨.refl db, hdb, fun id u hu => .founder ?_⟩
    rw [hu]
    exact Option.some_ne_none u
  | snoc i a _ heffect ih =>
    obtain ⟨hkept, hissued, hvouched⟩ := ih
    exact ⟨hkept.trans heffect.1, linksIssued_of_arrivals heffect.1 heffect.2 hissued,
      fun id u => vouched_of_arrivals heffect.1 heffect.2 hissued hvouched⟩

/-- A link that grants a role which no referral grants is an administrator's. -/
theorem InviteLink.Grants.adminInvite {l : InviteLink} {role : UserRole} (h : l.Grants role)
    (hrole : role ∈ [UserRole.admin, .driver]) : l.type = .adminInvite := by
  unfold InviteLink.Grants at h
  cases htype : l.type with
  | adminInvite => rfl
  | sellerReferral =>
    rw [htype] at h
    have hreferred : role ∈ sellerReferralRoles := h
    have hapart : ∀ r ∈ [UserRole.admin, .driver], r ∉ sellerReferralRoles := by decide
    exact absurd hreferred (hapart role hrole)

/-- The administrator who has created an administrator's invite. -/
theorem Db.InvitedWith.admin {l : InviteLink} (h : t.InvitedWith u l)
    (htype : l.type = .adminInvite) :
    ∃ v, t.users.get l.issuerId = some v ∧ v.role = .admin := by
  obtain ⟨v, hv, hrole⟩ := h.issuer
  rw [htype] at hrole
  exact ⟨v, hv, List.mem_singleton.mp hrole⟩

/-- For an administrator, those vouch who were administrators at the beginning. -/
theorem Db.Vouched.admin (hkept : AccountsKept db t)
    (h : t.Vouched (fun id => db.users.get id ≠ none) id) (hu : t.users.get id = some u)
    (hrole : u.role = .admin) :
    t.Vouched (fun id => ∃ v, db.users.get id = some v ∧ v.role = .admin) id := by
  induction h generalizing u with
  | @founder id hfounder =>
    obtain ⟨v, hv⟩ := Option.ne_none_iff_exists'.mp hfounder
    obtain ⟨v', hv', hsame⟩ := hkept.users id v hv
    obtain rfl := Option.some.inj (hu.symm.trans hv')
    exact .founder ⟨v, hv, hsame.symm.trans hrole⟩
  | @invited v l hv hinvited _ ih =>
    obtain rfl := Option.some.inj (hu.symm.trans hv)
    have htype := hinvited.grants.adminInvite (by simp [hrole])
    obtain ⟨w, hw, hadmin⟩ := hinvited.admin htype
    exact .invited hv hinvited (ih hw hadmin)

end Runs

/-- In every interleaving of requests to the server, every account is one of those there were at
the beginning or has been invited by one that is vouched for in turn, and an administrator or a
driver who has come since has been invited by administrators alone, back to one of the first. -/
theorem accounts_vouched {ι : Type} [DecidableEq ι] {sec : Security} {lower : String → String}
    {requests : ι → RoutedRequest} {db : Db} (hdb : db.LinksIssued) {s : Sys ι Db Key Err AppReply}
    (hs : Sys.Steps (Sys.init db fun i => (requests i).exec sec lower) s) :
    s.db.LinksIssued ∧
    (∀ id u, s.db.users.get id = some u → s.db.Vouched (fun id => db.users.get id ≠ none) id) ∧
    ∀ id u, s.db.users.get id = some u → db.users.get id = none →
      u.role ∈ [UserRole.admin, .driver] → ∃ l, s.db.InvitedWith u l ∧ l.type = .adminInvite ∧
        s.db.Vouched (fun id => ∃ v, db.users.get id = some v ∧ v.role = .admin) l.issuerId := by
  obtain ⟨-, hcommits⟩ := hs.relying (L := inviteLocking) (I := fun _ => True)
    (Q := fun _ _ s t => Arrivals s t) AccountsKept.refl (fun _ _ _ => AccountsKept.trans)
    (fun i => (requests i).exec_arrivals) trivial
  obtain ⟨hkept, hissued, hvouched⟩ := vouched_of_commits hdb hcommits
  refine ⟨hissued, hvouched, fun id u hu hnew hrole => ?_⟩
  cases hvouched id u hu with
  | founder hfounder => exact absurd hnew hfounder
  | @invited v l hv hinvited hissuer =>
    obtain rfl := Option.some.inj (hu.symm.trans hv)
    have htype := hinvited.grants.adminInvite hrole
    obtain ⟨w, hw, hadmin⟩ := hinvited.admin htype
    exact ⟨l, hinvited, htype, hissuer.admin hkept hw hadmin⟩

namespace Sample

/-- A server that knows the access token of the administrator. -/
def adminSecurity : Security :=
  { security with
    decode := fun _ _ => .ok { sub := 5, role := .admin, jti := "jti", exp := 900, iat := 0 } }

/-- The administrator creates an invite, and somebody signs up with it. -/
def recruiting : Bool → RoutedRequest
  | false => .issue { op := .issueInvite "driver" 7, credentials := some "jwt",
                      env := (authRequest 4 (.getCurrentUser none)).env }
  | true => .app (.auth (authRequest 5 (.signup { firstSignup with inviteToken := "4" }))) id

/-- The links of the sample database were issued by users who may. -/
theorem invited_issued : invited.LinksIssued := by
  intro id l hl
  rcases Table.get_of_insert hl with rfl | hl
  · exact ⟨seller, rfl, by decide⟩
  · rcases Table.get_of_insert hl with rfl | hl
    · exact ⟨admin, rfl, by decide⟩
    · simp at hl

end Sample

/-- The invite of the administrator brings a driver, for whom the administrator vouches. -/
theorem accounts_vouched_driver : ∃ s,
    Sys.Steps (Sys.init Sample.invited fun i =>
      (Sample.recruiting i).exec Sample.adminSecurity id) s ∧
    (s.db.users.get 50).map User.role = some .driver ∧
    s.db.Vouched (fun id => Sample.invited.users.get id ≠ none) 50 := by
  obtain ⟨r, hrun⟩ := run_of_session
    (p := (Sample.recruiting false).exec Sample.adminSecurity id) (s := Sample.invited)
    (by decide +kernel)
  obtain ⟨r', hrun'⟩ := run_of_session
    (p := (Sample.recruiting true).exec Sample.adminSecurity id)
    (s := (((Sample.recruiting false).exec Sample.adminSecurity id).session Sample.invited).2)
    (by decide +kernel)
  obtain ⟨s, hs, hdb, -⟩ := Sys.inTurn_of_run
    (p := fun i => (Sample.recruiting i).exec Sample.adminSecurity id) (i := false) (j := true)
    (by decide) hrun hrun'
  have hrole : (s.db.users.get 50).map User.role = some .driver := by
    rw [hdb]
    decide +kernel
  obtain ⟨u, hu, -⟩ := Option.map_eq_some_iff.mp hrole
  exact ⟨s, hs, hrole, (accounts_vouched Sample.invited_issued hs).2.1 50 u hu⟩

end Marketplace
