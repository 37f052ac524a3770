import Marketplace.Invite.Service

/-!
# What the validation of an invite predicts

`validate_invite` looks at the revocation, the expiry and the uses of a link; `consume_invite`
also asks that the link grants a role: an administrator's link has to name one, and the issuer of
a referral has to be a seller with a profile.
-/

namespace Marketplace

open Lib Txn Err

namespace InviteLink

def typeLabel : InviteLinkType → String
  | .adminInvite => "admin_invite"
  | .sellerReferral => "seller_referral"

/-- Not revoked, not expired and not used up. -/
structure Open (now : Time) (l : InviteLink) : Prop where
  unrevoked : l.revokedAt = none
  unexpired : InviteService.isExpired now l = false
  unused : InviteService.isUsed l = false

end InviteLink

namespace InviteService

/-- `ValidateInviteResponse`. -/
structure ValidateInviteResponse where
  type : String
  roleTarget : Option UserRole
  issuerDisplayName : String
  issuerRole : String
  valid : Bool
  alreadyUsed : Bool
  expired : Bool
  revoked : Bool
deriving DecidableEq, Repr

/-- The flags for a token that no link has. -/
def unknownInvite : ValidateInviteResponse :=
  { type := "unknown", roleTarget := none, issuerDisplayName := "", issuerRole := "",
    valid := false, alreadyUsed := false, expired := false, revoked := false }

/-- What `validate_invite` reports of a link that it has found. -/
def inviteReport (now : Time) (invite : InviteLink) (issuer : Option User) :
    ValidateInviteResponse :=
  let expired := isExpired now invite
  let revoked := invite.revokedAt.isSome
  let alreadyUsed := isUsed invite
  { type := InviteLink.typeLabel invite.type, roleTarget := invite.roleTarget,
    issuerDisplayName := issuer.elim "" User.displayName,
    issuerRole := issuer.elim "" fun u => u.role.label,
    valid := !expired && !revoked && !alreadyUsed, alreadyUsed, expired, revoked }

/-- `validate_invite`. -/
def validateInvite (env : AuthEnv) (token : String) : Tx ValidateInviteResponse := do
  let db ← read
  let found ← scalarOneOrNone (db.inviteLinks.rows.filter fun l => l.token = token)
  match found with
  | none => pure unknownInvite
  | some invite => do
    let db ← read
    pure (inviteReport (env.now 0) invite (db.users.get invite.issuerId))

/-! ### The claim -/

section

variable (env : AuthEnv) (db : Db) (token : String)

/-- `validate_invite` reports that the link is valid. -/
def ReportsValid : Prop :=
  ∃ r db', (validateInvite env token).run db = .ok (r, db') ∧ r.valid = true

/-- `consume_invite` succeeds for some choice of a role. -/
def Consumable : Prop :=
  ∃ chosenRole invite db', (consumeInvite env token chosenRole).run db = .ok (invite, db')

end

/-- The issuer of a referral is a seller with one live profile. -/
structure SellerIssued (db : Db) (l : InviteLink) : Prop where
  issuer : ∃ u, db.users.get l.issuerId = some u ∧ u.role = .seller
  profile : ∃ s, (db.sellers.rows.filter fun s => s.userId = l.issuerId ∧ s.deletedAt = none) = [s]

/-- The link grants some role. -/
def GrantsRole (db : Db) (l : InviteLink) : Prop :=
  match l.type with
  | .adminInvite => l.roleTarget ≠ none
  | .sellerReferral => SellerIssued db l

/-! ### Each function -/

section Runs

variable {env : AuthEnv} {db db' : Db} {token : String} {chosenRole : Option String}
  {invite l : InviteLink}

/-- An invitation is reported valid exactly when it is open. -/
theorem valid_inviteReport {now : Time} {issuer : Option User} :
    (inviteReport now l issuer).valid = true ↔ l.Open now := by
  have hrevoked : l.revokedAt.isSome = false ↔ l.revokedAt = none := by
    cases l.revokedAt with
    | none => simp
    | some t => simp
  simp only [inviteReport, Bool.and_eq_true, Bool.not_eq_true', hrevoked]
  constructor
  · rintro ⟨⟨hexpired, hnone⟩, hused⟩
    exact ⟨hnone, hexpired, hused⟩
  · intro h
    exact ⟨⟨h.unexpired, h.unrevoked⟩, h.unused⟩

/-- A valid link is one that is open. -/
theorem reportsValid_iff : ReportsValid env db token ↔
    ∃ l, (db.inviteLinks.rows.filter fun l => l.token = token) = [l] ∧ l.Open (env.now 0) := by
  constructor
  · rintro ⟨r, t, hrun, hvalid⟩
    simp only [validateInvite, bind_eq, run_bind_ok, run_read_ok, run_scalarOneOrNone_ok] at hrun
    obtain ⟨_, _, ⟨rfl, rfl⟩, found, _, ⟨hfound, rfl⟩, hrun⟩ := hrun
    cases found with
    | none =>
      simp only [pure_eq, run_ret_ok] at hrun
      obtain ⟨rfl, -⟩ := hrun
      cases hvalid
    | some l =>
      simp only [run_bind_ok, run_read_ok, pure_eq, run_ret_ok] at hrun
      obtain ⟨_, _, ⟨rfl, rfl⟩, rfl, -⟩ := hrun
      exact ⟨l, hfound, valid_inviteReport.mp hvalid⟩
  · rintro ⟨l, hfound, hopen⟩
    have hone : (db.inviteLinks.rows.filter fun l => l.token = token) = (some l).toList := hfound
    refine ⟨inviteReport (env.now 0) l (db.users.get l.issuerId), db, ?_,
      valid_inviteReport.mpr hopen⟩
    simp only [validateInvite, bind_eq, run_bind_ok, run_read_ok, run_scalarOneOrNone_ok]
    refine ⟨db, db, ⟨rfl, rfl⟩, some l, db, ⟨hone, rfl⟩, ?_⟩
    simp only [run_bind_ok, run_read_ok, pure_eq, run_ret_ok]
    exact ⟨db, db, ⟨rfl, rfl⟩, rfl, rfl⟩

/-- The locking read returns the row that the first statement has found. -/
theorem run_selectLinkForUpdate_ok {found : Option InviteLink} :
    (selectLinkForUpdate token).run db = .ok (found, db') ↔
      (db.inviteLinks.rows.filter fun l => l.token = token) = found.toList ∧ db = db' := by
  simp only [selectLinkForUpdate, bind_eq, run_bind_ok, run_read_ok, run_scalarOneOrNone_ok]
  constructor
  · rintro ⟨_, _, ⟨rfl, rfl⟩, first, _, ⟨hfirst, rfl⟩, hrest⟩
    cases first with
    | none =>
      simp only [pure_eq, run_ret_ok] at hrest
      obtain ⟨rfl, rfl⟩ := hrest
      exact ⟨hfirst, rfl⟩
    | some l =>
      have hmem : l ∈ db.inviteLinks.rows.filter fun l => l.token = token := by
        rw [hfirst]
        exact List.mem_singleton_self l
      obtain ⟨hrow, htoken⟩ := List.mem_filter.mp hmem
      have hget : db.inviteLinks.get l.id = some l := Table.mem_rows_iff.mp hrow
      simp only [run_bind_ok, run_acquire_ok, pure_eq, run_ret_ok] at hrest
      obtain ⟨_, _, ⟨rfl, rfl⟩, rfl, rfl⟩ := hrest
      refine ⟨?_, rfl⟩
      rw [hget, Option.filter_some, if_pos htoken]
      exact hfirst
  · rintro ⟨hfound, rfl⟩
    refine ⟨db, db, ⟨rfl, rfl⟩, found, db, ⟨hfound, rfl⟩, ?_⟩
    cases found with
    | none => simp
    | some l =>
      have hmem : l ∈ db.inviteLinks.rows.filter fun l => l.token = token := by
        rw [hfound]
        exact List.mem_singleton_self l
      obtain ⟨hrow, htoken⟩ := List.mem_filter.mp hmem
      have hget : db.inviteLinks.get l.id = some l := Table.mem_rows_iff.mp hrow
      simp only [run_bind_ok, run_acquire_ok, pure_eq, run_ret_ok]
      refine ⟨db, db, ⟨rfl, rfl⟩, ?_, rfl⟩
      rw [hget, Option.filter_some, if_pos htoken]

/-- The look-up returns the seller row of the user. -/
@[simp] theorem run_findSeller_ok {userId : Id} {seller : Option Seller} :
    (findSeller userId).run db = .ok (seller, db') ↔
      (db.sellers.rows.filter fun s => s.userId = userId ∧ s.deletedAt = none) = seller.toList ∧
        db = db' := by
  simp only [findSeller, bind_eq, run_bind_ok, run_read_ok, run_scalarOneOrNone_ok]
  constructor
  · rintro ⟨_, _, ⟨rfl, rfl⟩, hfound⟩
    exact hfound
  · intro hfound
    exact ⟨db, db, ⟨rfl, rfl⟩, hfound⟩

/-- A referral that passes the role validation has a seller behind it. -/
theorem checkSellerReferral_ok {u : Unit}
    (h : (checkSellerReferral l chosenRole).run db = .ok (u, db')) :
    SellerIssued db l ∧ db = db' := by
  simp only [checkSellerReferral, bind_eq, run_bind_ok, run_raiseIf_ok, run_read_ok,
    run_findSeller_ok] at h
  obtain ⟨_, _, ⟨-, rfl⟩, _, _, ⟨rfl, rfl⟩, _, _, ⟨hissuer, rfl⟩, seller, _, ⟨hseller, rfl⟩, hsome,
    rfl⟩ := h
  refine ⟨⟨?_, ?_⟩, rfl⟩
  · cases hu : db.users.get l.issuerId with
    | none => simp [hu] at hissuer
    | some u => exact ⟨u, rfl, by simpa [hu] using hissuer⟩
  · obtain ⟨s, rfl⟩ := Option.ne_none_iff_exists'.mp hsome
    exact ⟨s, hseller⟩

/-- The role check passes only for a link that grants the role. -/
theorem checkRole_ok {u : Unit} (h : (checkRole l chosenRole).run db = .ok (u, db')) :
    GrantsRole db l ∧ db = db' := by
  unfold checkRole at h
  unfold GrantsRole
  cases htype : l.type with
  | adminInvite =>
    simp only [htype, checkAdminInvite, bind_eq, run_bind_ok, run_raiseIf_ok] at h
    obtain ⟨_, _, ⟨-, rfl⟩, hrole, rfl⟩ := h
    exact ⟨hrole, rfl⟩
  | sellerReferral =>
    simp only [htype] at h
    exact checkSellerReferral_ok h

/-- A link that grants a role passes the role validation for some choice. -/
theorem GrantsRole.checkRole (h : GrantsRole db l) :
    ∃ chosenRole, (checkRole l chosenRole).run db = .ok ((), db) := by
  unfold GrantsRole at h
  unfold InviteService.checkRole
  cases htype : l.type with
  | adminInvite =>
    simp only [htype] at h
    refine ⟨none, ?_⟩
    simp [checkAdminInvite, h]
  | sellerReferral =>
    simp only [htype] at h
    obtain ⟨⟨u, hu, hseller⟩, s, hs⟩ := h
    have hprofile : (db.sellers.rows.filter fun s => s.userId = l.issuerId ∧ s.deletedAt = none) =
        (some s).toList := hs
    have hallowed : ¬some "customer" ∉ sellerReferralRoles.map fun r => some r.label := by decide
    refine ⟨some "customer", ?_⟩
    simp only [checkSellerReferral, bind_eq, run_bind_ok, run_raiseIf_ok, run_read_ok,
      run_findSeller_ok]
    refine ⟨(), db, ⟨hallowed, rfl⟩, db, db, ⟨rfl, rfl⟩, (), db, ⟨?_, rfl⟩, some s, db,
      ⟨hprofile, rfl⟩, by simp, rfl⟩
    simp [hu, hseller]

/-- A link that can be consumed is one that is open and grants a role. -/
theorem consumable_iff : Consumable env db token ↔
    ∃ l, (db.inviteLinks.rows.filter fun l => l.token = token) = [l] ∧ l.Open (env.now 0) ∧
      GrantsRole db l := by
  constructor
  · rintro ⟨chosenRole, invite, db', hrun⟩
    simp only [consumeInvite, bind_eq, run_bind_ok, run_selectLinkForUpdate_ok,
      run_getOrRaise_ok, run_raiseIf_ok] at hrun
    obtain ⟨found, _, ⟨hfound, rfl⟩, l, _, ⟨rfl, rfl⟩, _, _, ⟨hrevoked, rfl⟩, _, _,
      ⟨hexpired, rfl⟩, _, _, ⟨hused, rfl⟩, _, _, hrole, -⟩ := hrun
    have hopen : l.Open (env.now 0) :=
      ⟨not_not.mp hrevoked, Bool.eq_false_iff.mpr hexpired, Bool.eq_false_iff.mpr hused⟩
    exact ⟨l, hfound, hopen, (checkRole_ok hrole).1⟩
  · rintro ⟨l, hfound, hopen, hgrants⟩
    obtain ⟨chosenRole, hrole⟩ := hgrants.checkRole
    have hone : (db.inviteLinks.rows.filter fun l => l.token = token) = (some l).toList := hfound
    refine ⟨chosenRole, l, db.modifyLink l.id (InviteLink.use (l.usedCount + 1)), ?_⟩
    simp only [consumeInvite, bind_eq, run_bind_ok, run_selectLinkForUpdate_ok,
      run_getOrRaise_ok, run_raiseIf_ok]
    refine ⟨some l, db, ⟨hone, rfl⟩, l, db, ⟨rfl, rfl⟩, (), db, ⟨?_, rfl⟩, (), db, ⟨?_, rfl⟩,
      (), db,
      ⟨?_, rfl⟩, (), db, hrole, ?_⟩
    · exact not_not.mpr hopen.unrevoked
    · exact Bool.eq_false_iff.mp hopen.unexpired
    · exact Bool.eq_false_iff.mp hopen.unused
    · simp [updateLink]

end Runs

/-- **The validation of a link predicts its consumption** exactly when a link that is open grants
some role. -/
theorem validation_predicts_iff (env : AuthEnv) (db : Db) (token : String) :
    (ReportsValid env db token ↔ Consumable env db token) ↔
      ∀ l, (db.inviteLinks.rows.filter fun l => l.token = token) = [l] → l.Open (env.now 0) →
        GrantsRole db l := by
  rw [reportsValid_iff, consumable_iff]
  constructor
  · intro hpredicts l hfound hopen
    obtain ⟨l', hfound', -, hgrants⟩ := hpredicts.mp ⟨l, hfound, hopen⟩
    have heq : [l] = [l'] := hfound.symm.trans hfound'
    exact List.singleton_inj.mp heq ▸ hgrants
  · intro hgrants
    constructor
    · rintro ⟨l, hfound, hopen⟩
      exact ⟨l, hfound, hopen, hgrants l hfound hopen⟩
    · rintro ⟨l, hfound, hopen, -⟩
      exact ⟨l, hfound, hopen⟩

end InviteService

namespace Sample

/-- An administrator who also sells, with the referral that `get_or_create_seller_referral` has
made for them. -/
def sellingAdmin : Db :=
  { users := (∅ : Table User User.id).insert { id := 5, role := .admin, displayName := "Root" }
    sellers := (∅ : Table Seller Seller.id).insert { id := 5, userId := 5 }
    inviteLinks := (∅ : Table InviteLink InviteLink.id).insert
      { id := 10, issuerId := 5, type := .sellerReferral, token := "referral" } }

/-- A visitor who opens the link. -/
def visiting : AuthEnv :=
  { now := fun _ => 1, transactionNow := 1, uuid4 := fun i => 20 + i, randbelow := 0,
    tokenUrlsafe := fun _ => "token", tokenHex := "jti", hashPassword := id }

end Sample

/-- The referral of an administrator who sells is reported as valid, and no role choice can use
it. -/
theorem admin_referral_valid :
    InviteService.ReportsValid Sample.visiting Sample.sellingAdmin "referral" ∧
      ¬InviteService.Consumable Sample.visiting Sample.sellingAdmin "referral" := by
  constructor
  · rw [InviteService.reportsValid_iff]
    exact ⟨_, rfl, rfl, rfl, rfl⟩
  · rw [InviteService.consumable_iff]
    rintro ⟨l, hfound, -, hgrants⟩
    have hl := List.singleton_inj.mp hfound
    rw [← hl] at hgrants
    obtain ⟨u, hu, hseller⟩ := InviteService.SellerIssued.issuer hgrants
    obtain rfl := Option.some.inj hu
    cases hseller

end Marketplace
