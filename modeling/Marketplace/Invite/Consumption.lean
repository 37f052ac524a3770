import Marketplace.Seller.Profiles

/-!
# The consumption of invites

A signup locks the link whose token it presents, counts the use and inserts the user and the
referral row in one transaction. Whatever else is served at the same time, the count of a link
is the number of its referral rows and stays within its limit, every referral row belongs to one
committed signup, and a revoked link brings nobody any more.
-/

namespace Marketplace

open Lib Txn InviteService AuthService

/-! ### Links and the users they brought -/

/-- The referral rows of a link. -/
def Db.referralsOf (db : Db) (id : Id) : List Referral :=
  db.referrals.rows.filter fun r => r.inviteLinkId = id

/-- Every use of a link is counted, and within its limit. -/
structure Db.InvitesCounted (db : Db) : Prop where
  /-- The foreign key of `referrals`. -/
  linked : ∀ r ∈ db.referrals.rows, db.inviteLinks.get r.inviteLinkId ≠ none
  counted : ∀ id l, db.inviteLinks.get id = some l → l.usedCount = (db.referralsOf id).length
  bounded : ∀ id l m, db.inviteLinks.get id = some l → l.maxUses = some m → l.usedCount ≤ m

namespace InviteLink

/-- What never changes of a link. -/
def terms (l : InviteLink) : InviteLink := { l with usedCount := 0, revokedAt := none }

/-- Nobody has used the link. -/
structure Unused (l : InviteLink) : Prop where
  usedCount : l.usedCount = 0
  maxUses : ∀ m, l.maxUses = some m → 0 ≤ m

/-- The same link, at a later time. -/
structure Later (l l' : InviteLink) : Prop where
  terms : l'.terms = l.terms
  revoked : l.revokedAt ≠ none → l'.revokedAt ≠ none

/-- A link is the same at once. -/
theorem Later.refl (l : InviteLink) : l.Later l := ⟨rfl, fun h => h⟩

/-- What is later than later is later. -/
theorem Later.trans {l l' l'' : InviteLink} (h : l.Later l') (h' : l'.Later l'') : l.Later l'' :=
  ⟨h'.terms.trans h.terms, fun hrevoked => h'.revoked (h.revoked hrevoked)⟩

/-- A use changes no terms. -/
theorem later_use (l : InviteLink) (n : ℤ) : l.Later (l.use n) := ⟨rfl, fun h => h⟩

/-- What depends on the terms alone never changes. -/
theorem Later.field {α : Type} {l l' : InviteLink} (h : l.Later l') (f : InviteLink → α)
    (hf : ∀ l, f l.terms = f l) : f l' = f l := by rw [← hf l', h.terms, hf l]

/-- A link grants the same roles later. -/
theorem Later.grants {l l' : InviteLink} (h : l.Later l') {role : UserRole} (hl : l.Grants role) :
    l'.Grants role := by
  unfold Grants at hl ⊢
  rw [h.field InviteLink.type fun _ => rfl, h.field InviteLink.roleTarget fun _ => rfl]
  exact hl

/-- It expires at the same time. -/
theorem Later.isExpired {l l' : InviteLink} (h : l.Later l') (now : Time) :
    isExpired now l' = isExpired now l := h.field (InviteService.isExpired now) fun _ => rfl

/-- A signup by it makes the same referral row. -/
theorem Later.signupReferral {l l' : InviteLink} (h : l.Later l') (env : AuthEnv) :
    signupReferral env l' = signupReferral env l :=
  h.field (AuthService.signupReferral env) fun _ => rfl

end InviteLink

/-- A revocation is no use, and nothing takes one back. -/
theorem LinkChange.later {f : InviteLink → InviteLink} (hf : LinkChange f) (l : InviteLink) :
    l.Later (f l) ∧ (f l).usedCount = l.usedCount := by
  rcases hf.same l with h | ⟨now, h⟩
  · rw [h]
    exact ⟨.refl l, rfl⟩
  · rw [h]
    exact ⟨⟨rfl, fun _ => Option.some_ne_none now⟩, rfl⟩

/-- The signup that a request is. -/
def AppRequest.signup? : AppRequest → Option (SignupRequest × AuthEnv)
  | .auth { op := .signup req, env } => some (req, env)
  | _ => none

/-- What a signup leaves: its referral row, of the link whose token it has presented, in time, and
the user it has made, with a role that the link grants. -/
def Recorded (db : Db) (q : SignupRequest × AuthEnv) (r : Referral) : Prop :=
  ∃ l u, db.inviteLinks.get l.id = some l ∧ l.token = q.1.inviteToken ∧
    isExpired (q.2.now 0) l = false ∧ r = signupReferral q.2 l ∧
    db.users.get r.referredUserId = some u ∧ l.Grants u.role

/-! ### What a commit does to the invites -/

/-- The commit of a request that is not a signup. -/
structure InvitesKept (s t : Db) : Prop where
  referrals : t.referrals = s.referrals
  users : ∀ id u, s.users.get id = some u → ∃ u', t.users.get id = some u' ∧ u'.role = u.role
  links : ∀ id l, s.inviteLinks.get id = some l →
    ∃ l', t.inviteLinks.get id = some l' ∧ l.Later l' ∧ l'.usedCount = l.usedCount
  issued : ∀ id l, t.inviteLinks.get id = some l → s.inviteLinks.get id = none → l.Unused

/-- The commit of a signup, with the link `l` as it was just before. -/
structure SignedUp (req : SignupRequest) (env : AuthEnv) (l : InviteLink) (role : UserRole)
    (s t : Db) : Prop where
  link : s.inviteLinks.get l.id = some l
  token : l.token = req.inviteToken
  active : l.revokedAt = none
  inTime : isExpired (env.now 0) l = false
  left : isUsed l = false
  grants : l.Grants role
  links : t.inviteLinks = s.inviteLinks.modify l.id (InviteLink.use (l.usedCount + 1))
  referrals : t.referrals.rows = s.referrals.rows ++ [signupReferral env l]
  newcomer : s.users.get (env.uuid4 0) = none
  users : t.users = s.users.insert (newUser env req l role)

/-- What the commit of a request does to the invites. -/
def InviteEffect (q : AppRequest) (s t : Db) : Prop :=
  match q.signup? with
  | some (req, env) => ∃ l role, SignedUp req env l role s t
  | none => InvitesKept s t

section Effects

variable {s t u : Db} {req : SignupRequest} {env : AuthEnv} {l : InviteLink} {role : UserRole}

/-- Nothing has changed. -/
theorem InvitesKept.refl (s : Db) : InvitesKept s s where
  referrals := rfl
  users _ u hu := ⟨u, hu, rfl⟩
  links _ l hl := ⟨l, hl, .refl l, rfl⟩
  issued _ l hl hnone := by
    rw [hl] at hnone
    cases hnone

/-- What two changes keep, both keep together. -/
theorem InvitesKept.trans (h : InvitesKept s t) (h' : InvitesKept t u) : InvitesKept s u where
  referrals := h'.referrals.trans h.referrals
  users id x hx := by
    obtain ⟨y, hy, hrole⟩ := h.users id x hx
    obtain ⟨z, hz, hrole'⟩ := h'.users id y hy
    exact ⟨z, hz, hrole'.trans hrole⟩
  links id l hl := by
    obtain ⟨l', hl', hlater, hused⟩ := h.links id l hl
    obtain ⟨l'', hl'', hlater', hused'⟩ := h'.links id l' hl'
    exact ⟨l'', hl'', hlater.trans hlater', hused'.trans hused⟩
  issued id l hl hnone := by
    cases hmid : t.inviteLinks.get id with
    | none => exact h'.issued id l hl hmid
    | some m =>
      have hm : m.Unused := h.issued id m hmid hnone
      obtain ⟨l', hl', hlater, hused⟩ := h'.links id m hmid
      obtain rfl := Option.some.inj (hl.symm.trans hl')
      have hmax : l.maxUses = m.maxUses := hlater.field InviteLink.maxUses fun _ => rfl
      exact ⟨hused.trans hm.usedCount, fun n hn => hm.maxUses n (hmax ▸ hn)⟩

/-- A link that some referral names is not a new one. -/
theorem Db.InvitesCounted.referralsOf_absent (h : s.InvitesCounted) {id : Id}
    (hnone : s.inviteLinks.get id = none) : s.referralsOf id = [] := by
  refine List.filter_eq_nil_iff.mpr fun r hr hid => ?_
  exact h.linked r hr (of_decide_eq_true hid ▸ hnone)

/-- Kept invites stay counted. -/
theorem InvitesKept.counted (h : InvitesKept s t) (hs : s.InvitesCounted) : t.InvitesCounted where
  linked r hr := by
    rw [h.referrals] at hr
    obtain ⟨l, hl⟩ := Option.ne_none_iff_exists'.mp (hs.linked r hr)
    obtain ⟨l', hl', -⟩ := h.links _ l hl
    exact Option.ne_none_iff_exists'.mpr ⟨l', hl'⟩
  counted id l hl := by
    have hsame : t.referralsOf id = s.referralsOf id := by
      unfold Db.referralsOf
      rw [h.referrals]
    rw [hsame]
    cases hold : s.inviteLinks.get id with
    | none =>
      rw [(h.issued id l hl hold).usedCount, hs.referralsOf_absent hold]
      rfl
    | some m =>
      obtain ⟨l', hl', -, hused⟩ := h.links id m hold
      obtain rfl := Option.some.inj (hl.symm.trans hl')
      exact hused.trans (hs.counted id m hold)
  bounded id l m hl hmax := by
    cases hold : s.inviteLinks.get id with
    | none =>
      have hunused := h.issued id l hl hold
      rw [hunused.usedCount]
      exact hunused.maxUses m hmax
    | some k =>
      obtain ⟨l', hl', hlater, hused⟩ := h.links id k hold
      obtain rfl := Option.some.inj (hl.symm.trans hl')
      rw [hlater.field InviteLink.maxUses fun _ => rfl] at hmax
      rw [hused]
      exact hs.bounded id k m hold hmax

/-- The links after a signup: the use of one is counted. -/
theorem SignedUp.get (h : SignedUp req env l role s t) (id : Id) :
    t.inviteLinks.get id =
      if id = l.id then some (l.use (l.usedCount + 1)) else s.inviteLinks.get id := by
  rw [h.links, Table.get_modify s.inviteLinks l.id (InviteLink.use_id _) id]
  by_cases hid : id = l.id
  · rw [if_pos hid, if_pos hid, hid, h.link]
    rfl
  · rw [if_neg hid, if_neg hid]

/-- A signup adds one referral row, to its link. -/
theorem SignedUp.referralsOf (h : SignedUp req env l role s t) (id : Id) :
    t.referralsOf id =
      s.referralsOf id ++ if id = l.id then [signupReferral env l] else [] := by
  unfold Db.referralsOf
  rw [h.referrals, List.filter_append]
  by_cases hid : id = l.id
  · simp [hid, signupReferral]
  · simp [hid, signupReferral, Ne.symm hid]

/-- Every link is there after a signup. -/
theorem SignedUp.later (h : SignedUp req env l role s t) {id : Id} {k : InviteLink}
    (hk : s.inviteLinks.get id = some k) :
    ∃ k', t.inviteLinks.get id = some k' ∧ k.Later k' := by
  rw [h.get]
  by_cases hid : id = l.id
  · obtain rfl := Option.some.inj (h.link.symm.trans (hid ▸ hk))
    exact ⟨_, if_pos hid, l.later_use _⟩
  · exact ⟨k, (if_neg hid).trans hk, .refl k⟩

/-- A signup counts its use. -/
theorem SignedUp.counted (h : SignedUp req env l role s t) (hs : s.InvitesCounted) :
    t.InvitesCounted where
  linked r hr := by
    have hold : s.inviteLinks.get r.inviteLinkId ≠ none := by
      rw [h.referrals] at hr
      rcases List.mem_append.mp hr with hr | hr
      · exact hs.linked r hr
      · rw [List.mem_singleton.mp hr]
        change s.inviteLinks.get l.id ≠ none
        rw [h.link]
        exact Option.some_ne_none l
    obtain ⟨k, hk⟩ := Option.ne_none_iff_exists'.mp hold
    obtain ⟨k', hk', -⟩ := h.later hk
    exact Option.ne_none_iff_exists'.mpr ⟨k', hk'⟩
  counted id k hk := by
    rw [h.get] at hk
    rw [h.referralsOf]
    by_cases hid : id = l.id
    · rw [if_pos hid] at hk ⊢
      obtain rfl := Option.some.inj hk
      have hused : l.usedCount = (s.referralsOf l.id).length := hs.counted l.id l h.link
      rw [hid, List.length_append]
      change l.usedCount + 1 = _
      rw [hused]
      rfl
    · rw [if_neg hid] at hk ⊢
      rw [List.append_nil]
      exact hs.counted id k hk
  bounded id k m hk hmax := by
    rw [h.get] at hk
    by_cases hid : id = l.id
    · rw [if_pos hid] at hk
      obtain rfl := Option.some.inj hk
      -- the locked link had a use left
      have hmax' : l.maxUses = some m := hmax
      have hleft := h.left
      rw [isUsed, hmax', Option.any_some, decide_eq_false_iff_not] at hleft
      change l.usedCount + 1 ≤ m
      omega
    · rw [if_neg hid] at hk
      exact hs.bounded id k m hk hmax

end Effects

/-! ### Requests that are not signups -/

/-- The locks that protect invite links, referral rows and users. -/
def inviteLocking : Locking Db Key where
  agree key s t :=
    match key with
    | .inviteLink id => t.inviteLinks.get id = s.inviteLinks.get id
    | .referral id => t.referrals.get id = s.referrals.get id
    | .user id => t.users.get id = s.users.get id
    | _ => True
  refl key s := by
    cases key with
    | _ => trivial
  trans {key s t u} hst htu := by
    cases key with
    | inviteLink id => exact Eq.trans htu hst
    | referral id => exact Eq.trans htu hst
    | user id => exact Eq.trans htu hst
    | _ => trivial

/-- A write that keeps the invites and, but for the row it has locked, the protected rows. -/
def InviteSafe (key : Key) (f : Db → Db) : Prop :=
  ∀ s, InvitesKept s (f s) ∧ ∀ key', key' ≠ key → inviteLocking.agree key' s (f s)

/-- A write of a request about accounts that is not a signup. -/
inductive IssueWrite : Key → (Db → Db) → Prop
  | quiet {key f} (hf : QuietWrite AccountChange key f) : IssueWrite key f
  | issue (l : InviteLink) (hl : l.Unused) : IssueWrite (.inviteLink l.id) fun db => db.addLink l

section Writes

variable {key : Key} {f : Db → Db} {s t : Db} {sec : Security} {lower : String → String}

/-- A change of other tables keeps the invites. -/
theorem InvitesKept.of_same (h : SameAccounts s t) (hreferrals : t.referrals = s.referrals) :
    InvitesKept s t where
  referrals := hreferrals
  users id u hu := ⟨u, by rwa [h.users], rfl⟩
  links id l hl := ⟨l, by rwa [h.inviteLinks], .refl l, rfl⟩
  issued id l hl hnone := by
    rw [h.inviteLinks, hnone] at hl
    cases hl

/-- A change of other tables respects the locks. -/
theorem inviteLocking_of_same (h : SameAccounts s t) (hreferrals : t.referrals = s.referrals)
    (key : Key) : inviteLocking.agree key s t := by
  cases key with
  | inviteLink id => exact congrArg (fun links => links.get id) h.inviteLinks
  | referral id => exact congrArg (fun referrals => referrals.get id) hreferrals
  | user id => exact congrArg (fun users => users.get id) h.users
  | _ => trivial

/-- A write to other tables is safe. -/
theorem inviteSafe_of_same (h : ∀ s, SameAccounts s (f s))
    (hreferrals : ∀ s, (f s).referrals = s.referrals) : InviteSafe key f := fun s =>
  ⟨.of_same (h s) (hreferrals s), fun key' _ => inviteLocking_of_same (h s) (hreferrals s) key'⟩

/-- The writes of the order services are safe. -/
theorem OrderSideWrite.inviteSafe (h : OrderSideWrite key f) : InviteSafe key f := by
  refine inviteSafe_of_same h.accounts fun s => ?_
  cases h with
  | service h =>
    cases h with
    | order h => cases h <;> rfl
    | setSettings ps => rfl
  | place h => cases h <;> rfl
  | report => rfl

/-- So are those of the conversations. -/
theorem MessagingWrite.inviteSafe (h : MessagingWrite key f) : InviteSafe key f := by
  refine inviteSafe_of_same h.accounts fun s => ?_
  cases h with
  | chat h => cases h <;> rfl
  | _ => rfl

/-- So are those of the keys. -/
theorem KeyWrite.inviteSafe (h : KeyWrite key f) : InviteSafe key f :=
  inviteSafe_of_same h.accounts fun s => by cases h <;> rfl

/-- So are those of the catalog. -/
theorem CatalogWrite.inviteSafe (h : CatalogWrite key f) : InviteSafe key f := by
  have hsame : ∀ s, (f s).users = s.users ∧ (f s).inviteLinks = s.inviteLinks ∧
      (f s).referrals = s.referrals := fun s => by cases h <;> exact ⟨rfl, rfl, rfl⟩
  refine fun s => ⟨⟨(hsame s).2.2, fun id u hu => ⟨u, by rwa [(hsame s).1], rfl⟩,
    fun id l hl => ⟨l, by rwa [(hsame s).2.1], .refl l, rfl⟩, fun id l hl hnone => ?_⟩,
    fun key' _ => ?_⟩
  · rw [(hsame s).2.1, hnone] at hl
    cases hl
  · cases key' with
    | inviteLink id => exact congrArg (fun links => links.get id) (hsame s).2.1
    | referral id => exact congrArg (fun referrals => referrals.get id) (hsame s).2.2
    | user id => exact congrArg (fun users => users.get id) (hsame s).1
    | _ => trivial

/-- A changed link respects the locks of the others. -/
theorem inviteLocking_modifyLink {id : Id} (f : InviteLink → InviteLink) {key' : Key}
    (hne : key' ≠ .inviteLink id) : inviteLocking.agree key' s (s.modifyLink id f) := by
  cases key' with
  | inviteLink id' =>
    have hid : id' ≠ id := fun heq => hne (by rw [heq])
    exact Table.get_modify_of_ne s.inviteLinks hid f
  | referral id' => rfl
  | user id' => rfl
  | _ => trivial

/-- The change of an account is safe. -/
theorem inviteSafe_account {id : Id} {f : User → User} (hf : AccountChange f) :
    InviteSafe (.user id) fun db => db.modifyUser id f := by
  refine fun s => ⟨⟨rfl, fun id' u hu => ?_, fun id' l hl => ⟨l, hl, .refl l, rfl⟩,
    fun id' l hl hnone => ?_⟩, fun key' hne => ?_⟩
  · have hget : (s.modifyUser id f).users.get id' = _ := Table.get_modify s.users id hf.id id'
    rw [hu] at hget
    split at hget
    · exact ⟨f u, hget, hf.role u⟩
    · exact ⟨u, hget, rfl⟩
  · change s.inviteLinks.get id' = some l at hl
    rw [hnone] at hl
    cases hl
  · cases key' with
    | user id' =>
      have hid : id' ≠ id := fun heq => hne (by rw [heq])
      exact Table.get_modify_of_ne s.users hid f
    | inviteLink id' => rfl
    | referral id' => rfl
    | _ => trivial

/-- The change of a link that is no use is safe. -/
theorem inviteSafe_link {id : Id} {f : InviteLink → InviteLink} (hf : LinkChange f) :
    InviteSafe (.inviteLink id) fun db => db.modifyLink id f := by
  refine fun s => ⟨⟨rfl, fun id' u hu => ⟨u, hu, rfl⟩, fun id' l hl => ?_,
    fun id' l hl hnone => ?_⟩, fun key' hne => inviteLocking_modifyLink f hne⟩
  · have hget : (s.modifyLink id f).inviteLinks.get id' = _ :=
      Table.get_modify s.inviteLinks id hf.id id'
    rw [hl] at hget
    split at hget
    · exact ⟨f l, hget, hf.later l⟩
    · exact ⟨l, hget, .refl l, rfl⟩
  · have hget : (s.modifyLink id f).inviteLinks.get id' = _ :=
      Table.get_modify s.inviteLinks id hf.id id'
    rw [hnone] at hget
    split at hget
    · rw [hl] at hget
      cases hget
    · rw [hl] at hget
      cases hget

/-- An insertion that finds the id taken changes nothing. -/
theorem inviteSafe_issue {l : InviteLink} (hl : l.Unused) :
    InviteSafe (.inviteLink l.id) fun db => db.addLink l := by
  refine fun s => ⟨⟨rfl, fun id' u hu => ⟨u, hu, rfl⟩, fun id' k hk => ⟨k, ?_, .refl k, rfl⟩,
    fun id' k hk hnone => ?_⟩, fun key' hne => ?_⟩
  · exact Table.get_insert_of_some hk
  · rcases Table.get_of_insert (t := s.inviteLinks) hk with rfl | hold
    · exact hl
    · rw [hnone] at hold
      cases hold
  · cases key' with
    | inviteLink id' => exact Table.get_insert_of_ne _ fun heq => hne (by rw [heq])
    | referral id' => rfl
    | user id' => rfl
    | _ => trivial

/-- Every write of a request that is no signup is safe. -/
theorem IssueWrite.inviteSafe (h : IssueWrite key f) : InviteSafe key f := by
  cases h with
  | issue l hl => exact inviteSafe_issue hl
  | quiet h =>
    cases h with
    | account id f hf => exact inviteSafe_account hf
    | link id f hf => exact inviteSafe_link hf
    | _ => exact inviteSafe_of_same (fun _ => ⟨rfl, rfl, rfl⟩) fun _ => rfl

/-! ### Every such request -/

/-- A new link has no uses to count. -/
theorem writes_insertLink_unused {l : InviteLink} (hl : l.Unused) :
    (insertLink l).Writes IssueWrite := by
  refine writes_reserve_bind fun held hkey =>
    (writes_reserve _ _ _ held).bind fun _ held' hsub => ?_
  refine (writes_reserveReferral l held').bind fun _ held'' hsub' => ?_
  exact ⟨⟨.inviteLink l.id, hsub' (hsub hkey), .issue l hl⟩, trivial⟩

/-- A new referral is unused. -/
theorem unused_newReferral (env : AuthEnv) (user : User) : (newReferral env user).Unused where
  usedCount := rfl
  maxUses m hm := by cases hm

/-- `create_admin_invite` issues an unused link. -/
theorem createAdminInvite_issues {env : AuthEnv} (issuer : User) (roleTarget : String)
    (expiresInHours : ℤ) :
    (createAdminInvite env issuer roleTarget expiresInHours).Writes IssueWrite := by
  refine .bind (.raiseIf _ _) fun _ => .bind (.getOrRaise _ _) fun _ =>
    .bind (writes_insertLink_unused ⟨rfl, fun m hm => ?_⟩) fun _ => .pure _
  obtain rfl := Option.some.inj hm
  decide

/-- `get_or_create_seller_referral` issues an unused link, if any. -/
theorem getOrCreateSellerReferral_issues {env : AuthEnv} (sellerUser : User) :
    (getOrCreateSellerReferral env sellerUser).Writes IssueWrite := by
  refine .bind (.raiseIf _ _) fun _ => .bind (writes_findSeller _) fun _ =>
    .bind (.raiseIf _ _) fun _ => .bind .read fun _ =>
    .bind (writes_scalarOneOrNone _) fun existing => ?_
  cases existing with
  | none =>
      exact .bind (writes_insertLink_unused (unused_newReferral env sellerUser)) fun _ => .pure _
  | some l => exact .pure l

/-- A request that touches no link issues none. -/
theorem quietIssue {α : Type} {p : Tx α} (h : p.Writes (QuietWrite AccountChange)) :
    p.Writes IssueWrite := h.mono fun _ _ hf => .quiet hf

/-- `regenerate_seller_referral` revokes links and issues an unused one. -/
theorem regenerateSellerReferral_issues {env : AuthEnv} (sellerUser : User) :
    (regenerateSellerReferral env sellerUser).Writes IssueWrite :=
  .bind (.raiseIf _ _) fun _ => .bind (writes_findSeller _) fun _ => .bind (.raiseIf _ _) fun _ =>
    .bind .read fun _ => .bind (quietIssue (writes_revokeLinks _ _)) fun _ =>
    .bind (writes_insertLink_unused (unused_newReferral env sellerUser)) fun _ => .pure _

/-- A request about accounts that is not a signup consumes no invite. -/
theorem authExec_issues {op : AuthOp} {env : AuthEnv} (hop : ∀ req, op ≠ .signup req) :
    (op.exec sec env).Writes IssueWrite := by
  have hedit : ∀ f, AccountEdit f → AccountChange f := fun _ hf => hf.toAccountChange
  cases op with
  | signup req => exact absurd rfl (hop req)
  | login email password label =>
    exact .bind (quietIssue (login_writes hedit email password label)) fun _ => .pure _
  | refresh plaintext => exact .bind (quietIssue (refresh_writes plaintext)) fun _ => .pure _
  | logout plaintext => exact .bind (quietIssue (logout_writes plaintext)) fun _ => .pure _
  | logoutAll user => exact .bind (quietIssue (logoutAll_writes user)) fun _ => .pure _
  | updateMe user name phone url =>
    exact .bind (quietIssue (updateMe_writes hedit user name phone url)) fun _ => .pure _
  | changePassword user current new =>
    exact .bind (quietIssue (changePassword_writes hedit user current new)) fun _ => .pure _
  | createAdminInvite issuer role expires =>
    exact .bind (createAdminInvite_issues issuer role expires) fun _ => .pure _
  | getOrCreateSellerReferral user =>
    exact .bind (getOrCreateSellerReferral_issues user) fun _ => .pure _
  | regenerateSellerReferral user =>
    exact .bind (regenerateSellerReferral_issues user) fun _ => .pure _
  | revokeInvite user id => exact .bind (quietIssue (revokeInvite_writes user id)) fun _ => .pure _
  | suspendUser id reason =>
    exact .bind (.bind (writes_findUser id) fun _ => .bind (quietIssue
      (writes_updateUser _ (accountChange_suspend _ reason))) fun _ => .pure _) fun _ => .pure _
  | unsuspendUser id =>
    exact .bind (.bind (writes_findUser id) fun _ => .bind (quietIssue
      (writes_updateUser _ accountChange_unsuspend)) fun _ => .pure _) fun _ => .pure _
  | getCurrentUser credentials => exact .bind (getCurrentUser_writes credentials) fun _ => .pure _
  | authenticate token => exact .bind (authenticate_writes token) fun _ => .pure _

/-- A program of safe writes keeps the invites. -/
theorem safe_of_inviteSafe {α : Type} {P : Key → (Db → Db) → Prop} {p : Tx α} (h : p.Writes P)
    (hP : ∀ key f, P key f → InviteSafe key f) :
    p.Safe inviteLocking (fun _ => True) fun _ s t => InvitesKept s t :=
  h.safe InvitesKept.refl (fun _ _ _ => InvitesKept.trans)
    (fun _ _ hf s _ => ⟨trivial, (hP _ _ hf s).1⟩) fun _ _ hf s => (hP _ _ hf s).2

/-- A request that is not a signup keeps the invites. -/
theorem appExec_keepsInvites (q : AppRequest) (hq : q.signup? = none) :
    (q.exec sec lower).Safe inviteLocking (fun _ => True) fun _ s t => InvitesKept s t := by
  cases q with
  | service c =>
    exact safe_wrap _ (safe_of_inviteSafe (serviceExec_writes c) fun _ _ hf => hf.inviteSafe)
  | auth q =>
    obtain ⟨op, env⟩ := q
    have hop : ∀ req, op ≠ .signup req := by
      rintro req rfl
      cases hq
    have hwrites : (AuthRequest.exec sec ⟨op, env⟩).Writes IssueWrite := authExec_issues hop
    exact safe_wrap _ (safe_of_inviteSafe hwrites fun _ _ hf => hf.inviteSafe)
  | catalog q =>
    exact safe_wrap _ (safe_of_inviteSafe (catalogExec_writes lower q.op) fun _ _ hf =>
      hf.inviteSafe)
  | messaging q =>
    exact safe_wrap _ (safe_of_inviteSafe (messagingExec_writes q) fun _ _ hf => hf.inviteSafe)
  | keys q => exact safe_wrap _ (safe_of_inviteSafe (keyExec_writes q) fun _ _ hf => hf.inviteSafe)

end Writes

/-! ### The signup -/

section Signup

variable {sec : Security} {lower : String → String} {env : AuthEnv}

/-- A signup consumes one use of a valid link, for one new user. -/
theorem signup_signsUp (req : SignupRequest) :
    (AppRequest.exec sec lower (.auth { op := .signup req, env })).Safe inviteLocking
      (fun _ => True) fun _ s t => InviteEffect (.auth { op := .signup req, env }) s t := by
  refine safe_wrap _ (safe_wrap _ ?_)
  unfold Safe signup
  simp only [bind_eq, wp_bind, wp_raiseIf]
  refine fun _ => consumeInvite_wp fun s₀ s₁ l hlink htoken hactive hexpired hused hgrants => ?_
  simp only [wp_getOrRaise, wp_read, wp_scalarOneOrNone]
  intro role hrole _ _ _ _ _ _
  refine insertReserved_wp fun s₂ s₃ huser _ => insertReserved_wp fun s₄ s₅ hreferral _ =>
    insertReserved_wp fun s₆ s₇ _ _ => ?_
  intro s _ hs
  have hget : s.inviteLinks.get l.id = some l :=
    Eq.trans (hs (.inviteLink l.id, s₀) (by simp)) hlink
  have hnewcomer : s.users.get (env.uuid4 0) = none :=
    Eq.trans (hs (.user (env.uuid4 0), s₂) (by simp [newUser]))
      (Option.not_isSome_iff_eq_none.mp (Bool.eq_false_iff.mp huser))
  have hfresh : s.referrals.get (env.uuid4 1) = none :=
    Eq.trans (hs (.referral (env.uuid4 1), s₄) (by simp [signupReferral]))
      (Option.not_isSome_iff_eq_none.mp (Bool.eq_false_iff.mp hreferral))
  refine ⟨trivial, ⟨l, role, ?_⟩, fun key hkey => ?_⟩
  · exact { link := hget, token := htoken, active := hactive, inTime := hexpired, left := hused
            grants := hgrants role hrole, links := rfl, newcomer := hnewcomer, users := rfl
            referrals := Table.rows_insert hfresh }
  · cases key with
    | inviteLink id =>
      have hid : id ≠ l.id := fun heq => hkey (.inviteLink l.id, s₀) (by simp) (by rw [heq])
      exact Table.get_modify_of_ne s.inviteLinks hid _
    | referral id =>
      have hid : id ≠ env.uuid4 1 := fun heq =>
        hkey (.referral (env.uuid4 1), s₄) (by simp [signupReferral]) (by rw [heq])
      exact Table.get_insert_of_ne s.referrals hid
    | user id =>
      have hid : id ≠ env.uuid4 0 := fun heq =>
        hkey (.user (env.uuid4 0), s₂) (by simp [newUser]) (by rw [heq])
      exact Table.get_insert_of_ne s.users hid
    | _ => trivial

/-- What the commit of any request does to the invites. -/
theorem appExec_invites (q : AppRequest) :
    (q.exec sec lower).Safe inviteLocking (fun _ => True) fun _ s t => InviteEffect q s t := by
  cases hq : q.signup? with
  | none =>
    simp only [InviteEffect, hq]
    exact appExec_keepsInvites q hq
  | some signup =>
    have hsignup : q = .auth { op := .signup signup.1, env := signup.2 } := by
      unfold AppRequest.signup? at hq
      split at hq
      · cases hq
        rfl
      · cases hq
    rw [hsignup]
    exact signup_signsUp signup.1

end Signup

/-! ### Every interleaving -/

section Runs

variable {s t : Db} {q : AppRequest} {x : SignupRequest × AuthEnv} {r : Referral}

/-- Every request keeps the uses counted. -/
theorem InviteEffect.counted (h : InviteEffect q s t) (hs : s.InvitesCounted) :
    t.InvitesCounted := by
  unfold InviteEffect at h
  split at h
  · obtain ⟨l, role, h⟩ := h
    exact h.counted hs
  · exact h.counted hs

/-- A link keeps its terms, and its revocation. -/
theorem InviteEffect.later (h : InviteEffect q s t) {id : Id} {k : InviteLink}
    (hk : s.inviteLinks.get id = some k) : ∃ k', t.inviteLinks.get id = some k' ∧ k.Later k' := by
  unfold InviteEffect at h
  split at h
  · obtain ⟨l, role, h⟩ := h
    exact h.later hk
  · obtain ⟨k', hk', hlater, -⟩ := h.links id k hk
    exact ⟨k', hk', hlater⟩

/-- A user keeps its role. -/
theorem InviteEffect.role (h : InviteEffect q s t) {id : Id} {u : User}
    (hu : s.users.get id = some u) : ∃ u', t.users.get id = some u' ∧ u'.role = u.role := by
  unfold InviteEffect at h
  split at h
  · obtain ⟨l, role, h⟩ := h
    refine ⟨u, ?_, rfl⟩
    rw [h.users, Table.get_insert h.newcomer]
    split
    · next heq =>
      rw [heq] at hu
      cases h.newcomer.symm.trans hu
    · exact hu
  · exact h.users id u hu

/-- A signup that is recorded stays so. -/
theorem InviteEffect.recorded (h : InviteEffect q s t) (hr : Recorded s x r) : Recorded t x r := by
  obtain ⟨l, u, hl, htoken, hexpired, hreferral, hu, hgrants⟩ := hr
  obtain ⟨l', hl', hlater⟩ := h.later hl
  obtain ⟨u', hu', hrole⟩ := h.role hu
  have hid : l'.id = l.id := hlater.field InviteLink.id fun _ => rfl
  have htoken' : l'.token = l.token := hlater.field InviteLink.token fun _ => rfl
  refine ⟨l', u', by rwa [hid], htoken'.trans htoken, (hlater.isExpired _).trans hexpired,
    hreferral.trans (hlater.signupReferral x.2).symm, hu', ?_⟩
  rw [hrole]
  exact hlater.grants hgrants

/-- A revoked link brings nobody. -/
theorem InviteEffect.referralsOf (h : InviteEffect q s t) {id : Id} {k : InviteLink}
    (hk : s.inviteLinks.get id = some k) (hrevoked : k.revokedAt ≠ none) :
    t.referralsOf id = s.referralsOf id := by
  unfold InviteEffect at h
  split at h
  · obtain ⟨l, role, h⟩ := h
    have hid : id ≠ l.id := by
      rintro rfl
      obtain rfl := Option.some.inj (hk.symm.trans h.link)
      exact hrevoked h.active
    rw [h.referralsOf, if_neg hid, List.append_nil]
  · unfold Db.referralsOf
    rw [h.referrals]

/-- The signups of a log, in commit order. -/
def signups {ι : Type} (requests : ι → AppRequest) (log : List (ι × AppReply)) :
    List (SignupRequest × AuthEnv) :=
  log.filterMap fun e => (requests e.1).signup?

/-- The signups of a log, with one more entry. -/
theorem signups_snoc {ι : Type} {requests : ι → AppRequest} {log : List (ι × AppReply)} {i : ι}
    {a : AppReply} :
    signups requests (log ++ [(i, a)]) = signups requests log ++ (requests i).signup?.toList := by
  unfold signups
  rw [List.filterMap_append]
  cases hq : (requests i).signup? with
  | none => simp [hq]
  | some x => simp [hq]

/-- The referral rows after one more commit. -/
theorem InviteEffect.referrals (h : InviteEffect q s t) :
    ∃ new, t.referrals.rows = s.referrals.rows ++ new ∧
      List.Forall₂ (Recorded t) q.signup?.toList new := by
  unfold InviteEffect at h
  cases hq : q.signup? with
  | none =>
    rw [hq] at h
    exact ⟨[], by rw [h.referrals, List.append_nil], .nil⟩
  | some x =>
    rw [hq] at h
    obtain ⟨l, role, h⟩ := h
    refine ⟨_, h.referrals, .cons ?_ .nil⟩
    have hlink : t.inviteLinks.get l.id = some (l.use (l.usedCount + 1)) := by
      rw [h.get, if_pos rfl]
    refine ⟨l.use (l.usedCount + 1), newUser x.2 x.1 l role, hlink, h.token, h.inTime, rfl, ?_,
      h.grants⟩
    rw [h.users]
    exact (Table.get_insert h.newcomer _).trans (if_pos rfl)

/-- What the commits of a log have done. -/
theorem invites_of_commits {ι : Type} {requests : ι → AppRequest} {db : Db}
    {log : List (ι × AppReply)} (hdb : db.InvitesCounted)
    (h : Sys.Commits (fun i _ s t => InviteEffect (requests i) s t) db log t) :
    t.InvitesCounted ∧ ∃ new, t.referrals.rows = db.referrals.rows ++ new ∧
      List.Forall₂ (Recorded t) (signups requests log) new := by
  induction h with
  | nil => exact ⟨hdb, [], by rw [List.append_nil], .nil⟩
  | snoc i a _ heffect ih =>
    obtain ⟨hcounted, old, hrows, hold⟩ := ih
    obtain ⟨new, hrows', hnew⟩ := heffect.referrals
    refine ⟨heffect.counted hcounted, old ++ new, by rw [hrows', hrows, List.append_assoc], ?_⟩
    rw [signups_snoc]
    exact List.rel_append (hold.imp fun _ _ => heffect.recorded) hnew

end Runs

/-- In every interleaving of requests to the server, each link's count is the number of its
referral rows and within its limit, the referral rows that have come are those of the committed
signups, one each, and no signup consumes a link after its revocation. -/
theorem invites_exact {ι : Type} [DecidableEq ι] {sec : Security} {lower : String → String}
    {requests : ι → AppRequest} {db : Db} (hdb : db.InvitesCounted)
    {s : Sys ι Db Key Err AppReply}
    (hs : Sys.Steps (Sys.init db fun i => (requests i).exec sec lower) s) :
    s.db.InvitesCounted ∧
    (∃ new, s.db.referrals.rows = db.referrals.rows ++ new ∧
      List.Forall₂ (Recorded s.db) (signups requests s.log) new) ∧
    ∀ t id l, Sys.Steps s t → s.db.inviteLinks.get id = some l → l.revokedAt ≠ none →
      t.db.referralsOf id = s.db.referralsOf id := by
  have hsafe : ∀ i, ((requests i).exec sec lower).Safe inviteLocking (fun _ => True)
      fun _ s t => InviteEffect (requests i) s t := fun i => appExec_invites (requests i)
  obtain ⟨hcounted, hnew⟩ := invites_of_commits hdb (hs.commits trivial hsafe)
  refine ⟨hcounted, hnew, fun t id l hst hl hrevoked => ?_⟩
  have hsound := hs.sound (Sys.sound_init trivial hsafe)
  suffices hboth : Sys.Sound inviteLocking (fun _ => True)
      (fun i _ s t => InviteEffect (requests i) s t) t ∧
      (∃ l', t.db.inviteLinks.get id = some l' ∧ l.Later l') ∧
      t.db.referralsOf id = s.db.referralsOf id from hboth.2.2
  refine hst.preserve (P := fun t => Sys.Sound inviteLocking (fun _ => True)
    (fun i _ s t => InviteEffect (requests i) s t) t ∧
    (∃ l', t.db.inviteLinks.get id = some l' ∧ l.Later l') ∧
    t.db.referralsOf id = s.db.referralsOf id) ?_ ⟨hsound, ⟨l, hl, .refl l⟩, rfl⟩
  rintro i u v huv ⟨hu, ⟨l', hl', hlater⟩, hsame⟩
  refine ⟨hu.step huv, ?_⟩
  cases huv with
  | @commit w a hi =>
    have heffect : InviteEffect (requests i) u.db (w u.db) := (hu.commitOk hi).2.1
    obtain ⟨l'', hl'', hlater'⟩ := heffect.later hl'
    exact ⟨⟨l'', hl'', hlater.trans hlater'⟩,
      (heffect.referralsOf hl' (hlater.revoked hrevoked)).trans hsame⟩
  | _ => exact ⟨⟨l', hl', hlater⟩, hsame⟩

namespace Sample

/-- The sample invites are counted. -/
theorem invited_counted : invited.InvitesCounted where
  linked r hr := by cases hr
  counted id l hl := by
    rcases Table.get_of_insert hl with rfl | hl
    · rfl
    · rcases Table.get_of_insert hl with rfl | hl
      · rfl
      · simp at hl
  bounded id l m hl hm := by
    rcases Table.get_of_insert hl with rfl | hl
    · cases hm
    · rcases Table.get_of_insert hl with rfl | hl
      · obtain rfl := Option.some.inj hm
        decide
      · simp at hl

/-- Two people sign up with the administrator's invite, which is good for one. -/
def racing (i : Fin 2) : AppRequest :=
  .auth (authRequest (i + 1) (.signup { firstSignup with email := Nat.repr i }))

end Sample

/-- Both signups find the invite unused; the one that comes to its lock second is refused. -/
theorem invites_exact_race :
    ∃ t, Sys.Steps (Sys.init Sample.invited fun i => (Sample.racing i).exec Sample.security id) t ∧
      t.txn 0 = .aborted (some (Err.inviteAlreadyUsed)) ∧ t.log.map Prod.fst = [1] ∧
      t.db.InvitesCounted := by
  have hreads : ((Sample.racing 0).exec Sample.security id).selects Sample.invited 1 = true := by
    decide +kernel
  obtain ⟨a, hrun⟩ := run_of_session (p := (Sample.racing 1).exec Sample.security id)
    (s := Sample.invited) (by decide +kernel)
  have hrest := run_of_session_error
    (p := ((Sample.racing 0).exec Sample.security id).afterSelects Sample.invited 1)
    (s := (((Sample.racing 1).exec Sample.security id).session Sample.invited).2)
    (e := Err.inviteAlreadyUsed) rfl
  obtain ⟨t, ht, haborted, -, hlog⟩ := Sys.refused_of_run
    (p := fun i => (Sample.racing i).exec Sample.security id) (i := 0) (j := 1) (by decide)
    hreads hrun hrest
  exact ⟨t, ht, haborted, by rw [hlog]; rfl, (invites_exact Sample.invited_counted ht).1⟩

end Marketplace
