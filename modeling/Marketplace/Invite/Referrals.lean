import Marketplace.Lib.Watch
import Marketplace.Invite.Service

/-!
# The active referral of an issuer

An issuer looks its active referral up and creates one when there is none, or revokes it and
creates another one. A partial unique index lets one active referral of the issuer in, whatever
the interleaving, and nothing lifts a revocation. A call is refused by the index when another
one commits an active referral behind its look-up; if no commit does, every call of the issuer
succeeds, and the calls between two regenerations or revocations return one link.
-/

namespace Marketplace

open Lib Txn InviteService

/-! ### The calls of an issuer -/

/-- What is done to the referrals of an issuer. -/
inductive ReferralOp
  | getOrCreate
  | regenerate
  /-- A call of `revoke_invite` by a user, for any link. -/
  | revoke (user : User) (inviteId : Id)
deriving DecidableEq

/-- The calls that return a link of the issuer. -/
def ReferralOp.ForIssuer : ReferralOp → Prop
  | revoke _ _ => False
  | _ => True

/-- A call, with what it takes from its surroundings. -/
structure ReferralCall where
  op : ReferralOp
  env : AuthEnv

/-- The transaction of a call. -/
def ReferralCall.exec (issuer : User) (c : ReferralCall) : Tx (Option InviteLink) :=
  match c.op with
  | .getOrCreate => do return some (← getOrCreateSellerReferral c.env issuer)
  | .regenerate => do return some (← regenerateSellerReferral c.env issuer)
  | .revoke user inviteId => do
    revokeInvite c.env user inviteId
    return none

/-- The issuer has a seller profile. -/
def HasProfile (issuer : User) (db : Db) : Prop :=
  ∃ seller, (db.sellers.rows.filter fun s => s.userId = issuer.id ∧ s.deletedAt = none) = [seller]

/-- No revocation is lifted. -/
def RevokedStay (s t : Db) : Prop :=
  ∀ id l, s.inviteLinks.get id = some l → l.revokedAt ≠ none →
    ∃ l', t.inviteLinks.get id = some l' ∧ l'.revokedAt ≠ none

/-- No active referral of the issuer is new. -/
def NoNewReferral (issuerId : Id) (s t : Db) : Prop :=
  ∀ l ∈ t.activeReferrals issuerId, ∃ l' ∈ s.activeReferrals issuerId, l'.id = l.id

section

variable {ι : Type} (issuer : User) (calls : ι → ReferralCall)

/-- What a call relies on once it has looked the active referrals up. -/
def ReferralOp.Relies : ReferralOp → Db → Db → Prop
  | getOrCreate, s, t => t.activeReferrals issuer.id = s.activeReferrals issuer.id
  | regenerate, s, t => NoNewReferral issuer.id s t
  | revoke _ _, _, _ => True

/-- The ids and the tokens that the calls draw are those of no stored link and of no other call. -/
structure FreshLinks (db : Db) : Prop where
  unusedId : ∀ i, db.inviteLinks.get ((calls i).env.uuid4 0) = none
  unusedToken : ∀ i, ∀ l ∈ db.inviteLinks.rows, l.token ≠ (calls i).env.tokenUrlsafe 0
  distinctId : ∀ i j, (calls i).env.uuid4 0 = (calls j).env.uuid4 0 → i = j
  distinctToken : ∀ i j, (calls i).env.tokenUrlsafe 0 = (calls j).env.tokenUrlsafe 0 → i = j

/-- No commit changes what another call has found: the active referral, if the call creates one
when there is none, and that no other one is active, if the call revokes it and creates one. -/
def LookupsRespected [DecidableEq ι] (s : Sys ι Db Key Err (Option InviteLink)) (i : ι)
    (t : Sys ι Db Key Err (Option InviteLink)) : Prop :=
  ∀ j, j ≠ i → Sys.PastLookup s j → (calls j).op.Relies issuer s.db t.db

/-- The calls of the issuer in a state of a run. -/
structure ReferralsServed (t : Sys ι Db Key Err (Option InviteLink)) : Prop where
  /-- Only a revocation is ever refused. -/
  succeed : ∀ i e, t.txn i = .aborted (some e) → ¬(calls i).op.ForIssuer
  /-- The calls of `get_or_create` with no other commit between them return one token. -/
  same : ∀ before between rest i j a b,
    t.log = before ++ (i, a) :: between ++ (j, b) :: rest →
    (calls i).op = .getOrCreate → (calls j).op = .getOrCreate →
    (∀ e ∈ between, (calls e.1).op = .getOrCreate) →
    ∃ l, a = some l ∧ b = some l

end

/-! ### Links and the partial unique index -/

section Links

variable {db s t : Db} {issuerId : Id} {l : InviteLink}

/-- The active referrals of an issuer, by membership. -/
theorem mem_activeReferrals : l ∈ db.activeReferrals issuerId ↔
    db.inviteLinks.get l.id = some l ∧ l.ActiveReferral issuerId := by
  rw [Db.activeReferrals, List.mem_filter, Table.mem_rows_iff]
  exact and_congr_right fun _ => decide_eq_true_iff

/-- A new link joins the active referrals of its issuer. -/
theorem activeReferrals_add (hnew : db.inviteLinks.get l.id = none) (issuerId : Id) :
    (db.addLink l).activeReferrals issuerId =
      if l.ActiveReferral issuerId then db.activeReferrals issuerId ++ [l]
      else db.activeReferrals issuerId := by
  unfold Db.activeReferrals Db.addLink
  rw [Table.rows_insert hnew, List.filter_append]
  by_cases hactive : l.ActiveReferral issuerId
  · simp [hactive]
  · simp [hactive]

/-- A state keeps its own links revoked. -/
theorem RevokedStay.refl (s : Db) : RevokedStay s s := fun _ l hl hrevoked => ⟨l, hl, hrevoked⟩

/-- Links that stay revoked twice stay revoked. -/
theorem RevokedStay.trans {u : Db} (hst : RevokedStay s t) (htu : RevokedStay t u) :
    RevokedStay s u := by
  intro id l hl hrevoked
  obtain ⟨l', hl', hrevoked'⟩ := hst id l hl hrevoked
  exact htu id l' hl' hrevoked'

/-- A state has no new referral against itself. -/
theorem NoNewReferral.refl (s : Db) : NoNewReferral issuerId s s := fun l hl => ⟨l, hl, rfl⟩

/-- No new referral twice is none. -/
theorem NoNewReferral.trans {u : Db} (hst : NoNewReferral issuerId s t)
    (htu : NoNewReferral issuerId t u) : NoNewReferral issuerId s u := by
  intro l hl
  obtain ⟨l', hl', hid'⟩ := htu l hl
  obtain ⟨l'', hl'', hid''⟩ := hst l' hl'
  exact ⟨l'', hl'', hid''.trans hid'⟩

/-- The new link is the only row that a call adds. -/
def AddsLink (id : Id) (token : String) (s t : Db) : Prop :=
  ∀ l ∈ t.inviteLinks.rows, (∃ l' ∈ s.inviteLinks.rows, l'.id = l.id ∧ l'.token = l.token) ∨
    (l.id = id ∧ l.token = token)

/-- The changes revoke the links `ids`, and do nothing else. -/
structure RevokesOnly (ids : List Id) (w : Db → Db) : Prop where
  active : ∀ s issuerId l, l ∈ (w s).activeReferrals issuerId ↔
    l ∈ s.activeReferrals issuerId ∧ l.id ∉ ids
  other : ∀ s id, id ∉ ids → (w s).inviteLinks.get id = s.inviteLinks.get id
  none : ∀ s id, (w s).inviteLinks.get id = none ↔ s.inviteLinks.get id = none
  tokens : ∀ s, ∀ l ∈ (w s).inviteLinks.rows,
    ∃ l' ∈ s.inviteLinks.rows, l'.id = l.id ∧ l'.token = l.token
  revoked : ∀ s, RevokedStay s (w s)
  sellers : ∀ s, (w s).sellers = s.sellers

/-- Doing nothing revokes nothing. -/
theorem revokesOnly_id : RevokesOnly [] id where
  active s issuerId l := by simp
  other s id _ := rfl
  none s id := Iff.rfl
  tokens s l hl := ⟨l, hl, rfl, rfl⟩
  revoked s := RevokedStay.refl s
  sellers s := rfl

/-- A change of a link that revokes it. -/
structure Revokes (f : InviteLink → InviteLink) : Prop where
  id : ∀ l, (f l).id = l.id
  token : ∀ l, (f l).token = l.token
  revoked : ∀ l, (f l).revokedAt ≠ none

/-- Revoking a link revokes it. -/
theorem revokes_revoke (now : Time) : Revokes (InviteLink.revoke now) where
  id _ := rfl
  token _ := rfl
  revoked _ := by simp [InviteLink.revoke]

/-- Revoking an active link revokes it. -/
theorem revokes_revokeIfActive (now : Time) : Revokes (InviteLink.revokeIfActive now) where
  id l := InviteLink.revokeIfActive_id now l
  token l := by
    unfold InviteLink.revokeIfActive
    split
    · rfl
    · rfl
  revoked l := by
    unfold InviteLink.revokeIfActive
    split
    · exact (revokes_revoke now).revoked l
    · assumption

/-- The table of links after the revocation of one. -/
theorem get_modifyLink {f : InviteLink → InviteLink} (hf : Revokes f) (s : Db) (id id' : Id) :
    (s.modifyLink id f).inviteLinks.get id' =
      if id' = id then (s.inviteLinks.get id').map f else s.inviteLinks.get id' :=
  Table.get_modify s.inviteLinks id hf.id id'

/-- Revoking one more link still only revokes. -/
theorem RevokesOnly.modify {ids : List Id} {w : Db → Db} (hw : RevokesOnly ids w) (id : Id)
    {f : InviteLink → InviteLink} (hf : Revokes f) :
    RevokesOnly (id :: ids) ((fun db => db.modifyLink id f) ∘ w) where
  active s issuerId l := by
    rw [mem_activeReferrals, Function.comp_apply, get_modifyLink hf, List.mem_cons, not_or]
    by_cases hid : l.id = id
    · rw [if_pos hid]
      refine iff_of_false ?_ fun h => h.2.1 hid
      rintro ⟨hget, hactive⟩
      obtain ⟨l', -, rfl⟩ := Option.map_eq_some_iff.mp hget
      exact hf.revoked l' hactive.2.2
    · rw [if_neg hid, ← mem_activeReferrals, hw.active]
      exact ⟨fun h => ⟨h.1, hid, h.2⟩, fun h => ⟨h.1, h.2.2⟩⟩
  other s id' hid' := by
    rw [List.mem_cons, not_or] at hid'
    rw [Function.comp_apply, get_modifyLink hf, if_neg hid'.1, hw.other s id' hid'.2]
  none s id' := by
    rw [Function.comp_apply, get_modifyLink hf]
    split
    · rw [Option.map_eq_none_iff, hw.none]
    · exact hw.none s id'
  tokens s l hl := by
    have hget := Table.mem_rows_iff.mp hl
    rw [show ((fun db : Db => db.modifyLink id f) ∘ w) s = (w s).modifyLink id f from rfl,
      get_modifyLink hf] at hget
    split at hget
    · obtain ⟨l', hl', rfl⟩ := Option.map_eq_some_iff.mp hget
      obtain ⟨l'', hl'', hid, htoken⟩ := hw.tokens s l' (Table.get_eq_some_iff.mp hl').1
      exact ⟨l'', hl'', hid.trans (hf.id l').symm, htoken.trans (hf.token l').symm⟩
    · exact hw.tokens s l (Table.get_eq_some_iff.mp hget).1
  revoked s := by
    refine (hw.revoked s).trans fun id' l hl hrevoked => ?_
    rw [Function.comp_apply, get_modifyLink hf]
    split
    · exact ⟨f l, by rw [hl]; rfl, hf.revoked l⟩
    · exact ⟨l, hl, hrevoked⟩
  sellers s := hw.sellers s

/-- A revocation leaves no more links active. -/
theorem RevokesOnly.length_le {ids : List Id} {w : Db → Db} (hw : RevokesOnly ids w) (s : Db)
    (issuerId : Id) :
    ((w s).activeReferrals issuerId).length ≤ (s.activeReferrals issuerId).length := by
  have hnodup : ((w s).activeReferrals issuerId).Nodup :=
    (List.Nodup.of_map _ (w s).inviteLinks.nodup).filter _
  have hsub : (w s).activeReferrals issuerId ⊆ s.activeReferrals issuerId :=
    fun l hl => ((hw.active s issuerId l).mp hl).1
  exact hnodup.length_le_of_subset hsub

end Links

/-! ### One call among the others -/

section Program

/-- The row of a link is protected by its lock, and the absence of an active referral by the entry
of the partial unique index: a revocation needs no lock on the index. -/
def referralLocking : Locking Db Key where
  agree
    | .inviteLink id, s, t => t.inviteLinks.get id = s.inviteLinks.get id
    | .activeReferral issuerId, s, t => NoNewReferral issuerId s t
    | _, _, _ => True
  refl key s := by
    cases key with
    | activeReferral issuerId => exact NoNewReferral.refl s
    | _ => trivial
  trans {key s t u} hst htu := by
    cases key with
    | inviteLink id => exact Eq.trans htu hst
    | activeReferral issuerId => exact NoNewReferral.trans hst htu
    | _ => trivial

/-- What the calls find: a profile of the issuer, and at most one active referral. -/
structure IssuerDb (issuer : User) (db : Db) : Prop where
  profile : HasProfile issuer db
  unique : (db.activeReferrals issuer.id).length ≤ 1

/-- The id and the token that a call draws are not taken. -/
structure Unused (env : AuthEnv) (db : Db) : Prop where
  id : db.inviteLinks.get (env.uuid4 0) = none
  token : ∀ l ∈ db.inviteLinks.rows, l.token ≠ env.tokenUrlsafe 0

/-- What a commit does. The link it returns is the active one, if the call has been
`undisturbed`. -/
structure ReferralEffect (issuer : User) (undisturbed : Prop) (c : ReferralCall)
    (a : Option InviteLink) (s t : Db) : Prop where
  revoked : RevokedStay s t
  adds : AddsLink (c.env.uuid4 0) (c.env.tokenUrlsafe 0) s t
  reply : undisturbed → c.op = .getOrCreate → ∃ l, a = some l ∧
    t.activeReferrals issuer.id = [l] ∧
    (s.activeReferrals issuer.id = [] ∨ s.activeReferrals issuer.id = [l])

variable {issuer : User} {c : ReferralCall} {env : AuthEnv} {J : Db → Prop} {R : Db → Db → Prop}
  {B : Err → Prop} {seen : Option Db} {facts : List (Key × Db)} {w : Db → Db}

/-- What a commit of the call keeps, does and leaves alone. -/
abbrev ReferralOk (issuer : User) (R : Db → Db → Prop) (undisturbed : Prop) (c : ReferralCall)
    (seen : Option Db) (facts : List (Key × Db)) (w : Db → Db) (a : Option InviteLink) : Prop :=
  Sys.WatchOk referralLocking (IssuerDb issuer) (Unused c.env) R
    (ReferralEffect issuer undisturbed c) seen facts w a

/-- The new row of a referral is an active one. -/
theorem newReferral_active (env : AuthEnv) (issuer : User) :
    (newReferral env issuer).ActiveReferral issuer.id := ⟨rfl, rfl, rfl⟩

/-- The insertion of a new referral. -/
theorem insertLink_watch {Post : Option Db → List (Key × Db) → (Db → Db) → Unit → Prop}
    (hid : ∀ s, J s → (w s).inviteLinks.get (env.uuid4 0) = none)
    (htoken : ∀ s, J s → ∀ l ∈ (w s).inviteLinks.rows, l.token ≠ env.tokenUrlsafe 0)
    (hfree : ∀ s, J s → (∀ s₀ ∈ seen, R s₀ s) →
      B (.integrity "uq_invite_links_active_seller_referral") →
      (w s).activeReferrals issuer.id = [])
    (hpost : ∀ s₁ s₂ s₃, (w s₃).activeReferrals issuer.id = [] →
      Post seen ((.activeReferral issuer.id, s₃) :: (.inviteLinkToken (env.tokenUrlsafe 0), s₂) ::
        (.inviteLink (env.uuid4 0), s₁) :: facts)
        ((fun db => db.addLink (newReferral env issuer)) ∘ w) ()) :
    (insertLink (newReferral env issuer)).wpWatch referralLocking J R B Post seen facts w := by
  simp only [insertLink, reserve, reserveReferral, bind_eq, wpWatch_bind, wpWatch_acquire,
    wpWatch_raiseIf, wpWatch_modify]
  intro s₁ hs₁ _ _
  refine ⟨fun htaken => ?_, fun _ s₂ hs₂ _ _ => ⟨fun htaken => ?_, fun _ => ?_⟩⟩
  · simp [newReferral, hid s₁ hs₁] at htaken
  · obtain ⟨l, hl, heq⟩ := List.any_eq_true.mp htaken
    exact absurd (of_decide_eq_true heq) (htoken s₂ hs₂ l hl)
  · have hactive : (newReferral env issuer).ActiveReferral (newReferral env issuer).issuerId :=
      newReferral_active env issuer
    rw [if_pos hactive]
    simp only [wpWatch_bind, wpWatch_acquire, wpWatch_raiseIf]
    intro s₃ hs₃ hseen _
    refine ⟨fun htaken hbad => ?_, fun hnot => ?_⟩
    · exact of_decide_eq_true htaken (hfree s₃ hs₃ hseen hbad)
    · have hnone : (w s₃).activeReferrals issuer.id = [] := by
        by_contra hne
        exact hnot (decide_eq_true hne)
      exact hpost s₁ s₂ s₃ hnone

/-- The commit of a new referral, after the revocation of the links `ids`. -/
theorem referralOk_created {undisturbed : Prop} {ids : List Id} {s₃ : Db} {a : Option InviteLink}
    (hw : RevokesOnly ids w) (hlocked : ∀ id ∈ ids, ∃ s, (.inviteLink id, s) ∈ facts)
    (hid : ∃ s, (.inviteLink (c.env.uuid4 0), s) ∈ facts)
    (hentry : (.activeReferral issuer.id, s₃) ∈ facts)
    (hnone : (w s₃).activeReferrals issuer.id = [])
    (hreply : undisturbed → c.op = .getOrCreate → ids = [] ∧ a = some (newReferral c.env issuer)) :
    ReferralOk issuer R undisturbed c seen facts
      ((fun db => db.addLink (newReferral c.env issuer)) ∘ w) a := by
  intro s hI hS _ hknown
  have hkept : NoNewReferral issuer.id s₃ s := hknown _ hentry
  -- whatever is active now has been revoked by this very call
  have hrevoked : (w s).activeReferrals issuer.id = [] := by
    refine List.eq_nil_iff_forall_not_mem.mpr fun l hl => ?_
    obtain ⟨hl, hout⟩ := (hw.active s issuer.id l).mp hl
    obtain ⟨l', hl', hsame⟩ := hkept l hl
    have hmem : l' ∈ (w s₃).activeReferrals issuer.id :=
      (hw.active s₃ issuer.id l').mpr ⟨hl', by rwa [hsame]⟩
    rw [hnone] at hmem
    cases hmem
  have hnew : (w s).inviteLinks.get (newReferral c.env issuer).id = none := (hw.none s _).mpr hS.id
  have hadd : ∀ issuerId, ((w s).addLink (newReferral c.env issuer)).activeReferrals issuerId =
      if issuerId = issuer.id then [newReferral c.env issuer]
      else (w s).activeReferrals issuerId := by
    intro issuerId
    rw [activeReferrals_add hnew]
    by_cases heq : issuerId = issuer.id
    · rw [heq, if_pos (newReferral_active c.env issuer), hrevoked, if_pos rfl, List.nil_append]
    · have hother : ¬(newReferral c.env issuer).ActiveReferral issuerId := fun h => heq h.1.symm
      rw [if_neg hother, if_neg heq]
  have hget : ∀ id, id ≠ c.env.uuid4 0 →
      ((w s).addLink (newReferral c.env issuer)).inviteLinks.get id = (w s).inviteLinks.get id :=
    fun id hne => Table.get_insert_of_ne _ hne
  refine ⟨⟨?_, ?_⟩, ⟨?_, fun l hl => ?_, fun hun hop => ?_⟩, fun key hkey => ?_⟩
  · obtain ⟨seller, hseller⟩ := hI.profile
    exact ⟨seller, by rw [← hseller, ← hw.sellers s]; rfl⟩
  · rw [Function.comp_apply, hadd, if_pos rfl]
    exact le_refl 1
  · refine (hw.revoked s).trans fun id l hl hrevoked => ⟨l, ?_, hrevoked⟩
    rw [Function.comp_apply, hget id, hl]
    rintro rfl
    rw [show (w s).inviteLinks.get (c.env.uuid4 0) = none from hnew] at hl
    cases hl
  · have hrows : ((w s).addLink (newReferral c.env issuer)).inviteLinks.rows =
        (w s).inviteLinks.rows ++ [newReferral c.env issuer] := Table.rows_insert hnew
    rw [Function.comp_apply, hrows] at hl
    rcases List.mem_append.mp hl with hl | hl
    · exact .inl (hw.tokens s l hl)
    · rw [List.mem_singleton.mp hl]
      exact .inr ⟨rfl, rfl⟩
  · obtain ⟨rfl, rfl⟩ := hreply hun hop
    refine ⟨_, rfl, by rw [Function.comp_apply, hadd, if_pos rfl], .inl ?_⟩
    refine List.eq_nil_iff_forall_not_mem.mpr fun l hl => ?_
    have hmem := (hw.active s issuer.id l).mpr ⟨hl, List.not_mem_nil⟩
    rw [hrevoked] at hmem
    cases hmem
  · cases key with
    | inviteLink id =>
      have hout : id ∉ ids := by
        intro hmem
        obtain ⟨s', hs'⟩ := hlocked id hmem
        exact hkey _ hs' rfl
      refine (hget id ?_).trans (hw.other s id hout)
      rintro rfl
      obtain ⟨s', hs'⟩ := hid
      exact hkey _ hs' rfl
    | activeReferral issuerId =>
      have hne : issuerId ≠ issuer.id := by
        rintro rfl
        exact hkey _ hentry rfl
      intro l hl
      rw [Function.comp_apply, hadd, if_neg hne] at hl
      exact ⟨l, ((hw.active s issuerId l).mp hl).1, rfl⟩
    | _ => trivial

/-- The bulk revocation of the links that a statement found. -/
theorem revokeLinks_watch {now : Time} {ls : List InviteLink} {ids : List Id}
    {Post : Option Db → List (Key × Db) → (Db → Db) → Unit → Prop} (hw : RevokesOnly ids w)
    (hlocked : ∀ id ∈ ids, ∃ s, (.inviteLink id, s) ∈ facts)
    (hpost : ∀ ids' facts' w', RevokesOnly ids' w' →
      (∀ id ∈ ids', ∃ s, (.inviteLink id, s) ∈ facts') →
      (∀ id, id ∈ ids' ↔ id ∈ ids ∨ id ∈ ls.map InviteLink.id) → Post seen facts' w' ()) :
    (revokeLinks now ls).wpWatch referralLocking J R B Post seen facts w := by
  induction ls generalizing ids facts w with
  | nil => exact hpost ids facts w hw hlocked fun id => by simp
  | cons l ls ih =>
    simp only [revokeLinks, updateLink, bind_eq, wpWatch_bind, wpWatch_updateRow]
    intro s _ _ _
    refine ih (hw.modify l.id (revokes_revokeIfActive now)) (fun id hmem => ?_) ?_
    · rcases List.mem_cons.mp hmem with rfl | hmem
      · exact ⟨s, List.mem_cons_self⟩
      · obtain ⟨s', hs'⟩ := hlocked id hmem
        exact ⟨s', List.mem_cons_of_mem _ hs'⟩
    · intro ids' facts' w' hw' hlocked' hids
      refine hpost ids' facts' w' hw' hlocked' fun id => ?_
      rw [hids, List.mem_cons, List.map_cons, List.mem_cons]
      tauto

/-- What a statement of a call sees. -/
abbrev CallSees (issuer : User) (env : AuthEnv) (db : Db) : Prop :=
  IssuerDb issuer db ∧ Unused env db

/-- The profile of the issuer is found. -/
theorem findSeller_watch {Post : Option Db → List (Key × Db) → (Db → Db) → Option Seller → Prop}
    (hJ : ∀ s, J s → HasProfile issuer s)
    (hpost : ∀ s seller, J s → Post (some s) facts id (some seller)) :
    (findSeller issuer.id).wpWatch referralLocking J R B Post seen facts id := by
  simp only [findSeller, bind_eq, wpWatch_bind, wpWatch_read, id_eq]
  intro s hs _
  obtain ⟨seller, hseller⟩ := hJ s hs
  rw [hseller]
  exact hpost s seller hs

/-- A link that is returned is the active one, as long as nothing has changed since the look-up. -/
theorem referralOk_found {undisturbed : Prop} {s₁ : Db} {l : InviteLink}
    (hR : ∀ s, R s₁ s → undisturbed → s.activeReferrals issuer.id = s₁.activeReferrals issuer.id)
    (hl : s₁.activeReferrals issuer.id = [l]) :
    ReferralOk issuer R undisturbed c (some s₁) [] id (some l) := by
  intro s hI _ hseen _
  refine ⟨hI, ⟨RevokedStay.refl s, fun l hl => .inl ⟨l, hl, rfl, rfl⟩, fun hun _ => ?_⟩,
    fun key _ => referralLocking.refl key s⟩
  have hsame := (hR s (hseen s₁ rfl) hun).trans hl
  exact ⟨l, rfl, hsame, .inr hsame⟩

/-- `get_or_create_seller_referral` next to other calls. -/
theorem getOrCreate_watch {undisturbed : Prop} (hrole : issuer.role ∈ [UserRole.seller, .admin])
    (hop : c.op = .getOrCreate)
    (hR : ∀ s t, R s t → undisturbed → t.activeReferrals issuer.id = s.activeReferrals issuer.id)
    (hB : ∀ e, B e → undisturbed) :
    (c.exec issuer).wpWatch referralLocking (CallSees issuer c.env) R B
      (ReferralOk issuer R undisturbed c) none [] id := by
  unfold ReferralCall.exec
  rw [hop]
  simp only [getOrCreateSellerReferral, bind_eq, wpWatch_bind, wpWatch_raiseIf]
  refine ⟨fun hnot => absurd hrole hnot, fun _ => ?_⟩
  refine findSeller_watch (fun s hs => hs.1.profile) fun _ seller _ => ?_
  refine ⟨fun hnone => absurd hnone (Option.some_ne_none seller), fun _ => ?_⟩
  simp only [wpWatch_read, id_eq]
  rintro s₁ ⟨hI, -⟩ -
  rcases hfound : s₁.activeReferrals issuer.id with _ | ⟨l, rest⟩
  · simp only [scalarOneOrNone, pure_eq, wpWatch_ret, wpWatch_bind]
    refine insertLink_watch (fun s hs => hs.2.id) (fun s hs => hs.2.token) ?_ ?_
    · intro s _ hseen hbad
      exact (hR s₁ s (hseen s₁ rfl) (hB _ hbad)).trans hfound
    · intro s₂ s₃ s₄ hnone
      exact referralOk_created revokesOnly_id (fun _ hmem => absurd hmem List.not_mem_nil)
        ⟨s₂, by simp⟩ (by simp)
        hnone fun _ _ => ⟨rfl, rfl⟩
  · have hone : rest = [] := by
      have hlength := hI.unique
      rw [hfound, List.length_cons] at hlength
      exact List.eq_nil_of_length_eq_zero (by omega)
    subst hone
    exact referralOk_found (fun s => hR s₁ s) hfound

/-- `regenerate_seller_referral` next to other calls. -/
theorem regenerate_watch {undisturbed : Prop} (hrole : issuer.role ∈ [UserRole.seller, .admin])
    (hop : c.op = .regenerate)
    (hR : ∀ s t, R s t → undisturbed → NoNewReferral issuer.id s t)
    (hB : ∀ e, B e → undisturbed) :
    (c.exec issuer).wpWatch referralLocking (CallSees issuer c.env) R B
      (ReferralOk issuer R undisturbed c) none [] id := by
  unfold ReferralCall.exec
  rw [hop]
  simp only [regenerateSellerReferral, bind_eq, wpWatch_bind, wpWatch_raiseIf]
  refine ⟨fun hnot => absurd hrole hnot, fun _ => ?_⟩
  refine findSeller_watch (fun s hs => hs.1.profile) fun _ seller _ => ?_
  refine ⟨fun hnone => absurd hnone (Option.some_ne_none seller), fun _ => ?_⟩
  simp only [wpWatch_read, id_eq]
  rintro s₁ ⟨hI, -⟩ -
  refine revokeLinks_watch revokesOnly_id (fun _ hmem => absurd hmem List.not_mem_nil) ?_
  intro ids facts w hw hlocked hids
  refine insertLink_watch (fun s hs => (hw.none s _).mpr hs.2.id) (fun s hs l hl => ?_) ?_ ?_
  · obtain ⟨l', hl', -, htoken⟩ := hw.tokens s l hl
    rw [← htoken]
    exact hs.2.token l' hl'
  · intro s _ hseen hbad
    -- every active link was seen by the bulk `UPDATE`, which has revoked it
    refine List.eq_nil_iff_forall_not_mem.mpr fun l hl => ?_
    obtain ⟨hl, hout⟩ := (hw.active s issuer.id l).mp hl
    obtain ⟨l', hl', hsame⟩ := hR s₁ s (hseen s₁ rfl) (hB _ hbad) l hl
    exact hout ((hids l.id).mpr (.inr (List.mem_map.mpr ⟨l', hl', hsame⟩)))
  · intro s₂ s₃ s₄ hnone
    refine referralOk_created hw (fun id hmem => ?_) ⟨s₂, by simp⟩ (by simp) hnone fun _ hget => ?_
    · obtain ⟨s, hs⟩ := hlocked id hmem
      exact ⟨s, by simp [hs]⟩
    · rw [hop] at hget
      cases hget

/-- The check that a user may revoke an invitation lets what is watched stand. -/
theorem ensureMayRevoke_watch {user : User} {invite : InviteLink}
    {Post : Option Db → List (Key × Db) → (Db → Db) → Unit → Prop} (hB : ∀ e, ¬B e)
    (hpost : Post seen facts w ()) :
    (ensureMayRevoke user invite).wpWatch referralLocking J R B Post seen facts w := by
  unfold ensureMayRevoke
  cases user.role with
  | admin => exact hpost
  | seller => exact wpWatch_raiseIf.mpr ⟨fun _ => hB _, fun _ => hpost⟩
  | customer => exact hB _
  | driver => exact hB _

/-- `revoke_invite` next to other calls. -/
theorem revoke_watch {undisturbed : Prop} {user : User} {inviteId : Id}
    (hop : c.op = .revoke user inviteId) (hB : ∀ e, ¬B e) :
    (c.exec issuer).wpWatch referralLocking (CallSees issuer c.env) R B
      (ReferralOk issuer R undisturbed c) none [] id := by
  unfold ReferralCall.exec
  rw [hop]
  simp only [revokeInvite, bind_eq, wpWatch_bind, wpWatch_read, id_eq]
  intro s₀ _ _
  refine wpWatch_getOrRaise (hB _) fun invite hinvite => ?_
  simp only [wpWatch_raiseIf]
  refine ⟨fun _ => hB _, fun _ => ?_⟩
  refine ensureMayRevoke_watch hB ?_
  simp only [updateLink, wpWatch_updateRow, pure_eq, wpWatch_ret]
  intro s₁ _ _ _ s hI _ _ _
  have hw := revokesOnly_id.modify invite.id (revokes_revoke (c.env.now 0))
  refine ⟨⟨hI.profile, ?_⟩, ⟨hw.revoked s, fun l hl => .inl (hw.tokens s l hl), fun _ hget => ?_⟩,
    fun key hkey => ?_⟩
  · exact (hw.length_le s issuer.id).trans hI.unique
  · rw [hop] at hget
    cases hget
  · cases key with
    | inviteLink id =>
      refine hw.other s id ?_
      rw [List.mem_singleton]
      rintro rfl
      exact hkey (_, s₁) (List.mem_singleton_self _) rfl
    | activeReferral issuerId => exact fun l hl => ⟨l, ((hw.active s issuerId l).mp hl).1, rfl⟩
    | _ => trivial

end Program

/-! ### In every interleaving -/

section Interleaving

variable {ι : Type} [DecidableEq ι] {issuer : User} {calls : ι → ReferralCall} {db : Db}

/-- Every call, next to the others, whether the others leave alone what it has found or not. -/
theorem ReferralCall.watch (undisturbed : Prop) (hrole : issuer.role ∈ [UserRole.seller, .admin])
    (c : ReferralCall) :
    (c.exec issuer).wpWatch referralLocking (CallSees issuer c.env)
      (fun s t => undisturbed → c.op.Relies issuer s t) (fun _ => undisturbed ∧ c.op.ForIssuer)
      (ReferralOk issuer (fun s t => undisturbed → c.op.Relies issuer s t) undisturbed c)
      none [] id := by
  cases hop : c.op with
  | getOrCreate => exact getOrCreate_watch hrole hop (fun _ _ hR hun => hR hun) fun _ hB => hB.1
  | regenerate => exact regenerate_watch hrole hop (fun _ _ hR hun => hR hun) fun _ hB => hB.1
  | revoke user inviteId => exact revoke_watch hop fun _ hB => hB.2

/-- Every operation may rely on an unchanged state. -/
theorem ReferralOp.Relies.refl (op : ReferralOp) (s : Db) : op.Relies issuer s s := by
  cases op with
  | getOrCreate => rfl
  | regenerate => exact NoNewReferral.refl s
  | revoke => trivial

/-- What an operation may rely on holds over two stretches. -/
theorem ReferralOp.Relies.trans {op : ReferralOp} {s t u : Db} (hst : op.Relies issuer s t)
    (htu : op.Relies issuer t u) : op.Relies issuer s u := by
  cases op with
  | getOrCreate => exact Eq.trans htu hst
  | regenerate => exact NoNewReferral.trans hst htu
  | revoke => trivial

omit [DecidableEq ι] in
/-- The draws of a call that has not committed are not taken. -/
theorem unused_of_commits (hfresh : FreshLinks calls db) {undisturbed : Prop} {i : ι} {t : Db}
    {log : List (ι × Option InviteLink)}
    (h : Sys.Commits (fun i => ReferralEffect issuer undisturbed (calls i)) db log t)
    (hi : ∀ e ∈ log, e.1 ≠ i) : Unused (calls i).env t := by
  have horigin : ∀ l ∈ t.inviteLinks.rows,
      (∃ l' ∈ db.inviteLinks.rows, l'.id = l.id ∧ l'.token = l.token) ∨
        ∃ e ∈ log, l.id = (calls e.1).env.uuid4 0 ∧ l.token = (calls e.1).env.tokenUrlsafe 0 := by
    intro l hl
    exact h.origin
      (T := fun s (x : Id × String) => ∃ l ∈ s.inviteLinks.rows, l.id = x.1 ∧ l.token = x.2)
      (N := fun i x => x.1 = (calls i).env.uuid4 0 ∧ x.2 = (calls i).env.tokenUrlsafe 0)
      (fun i a s t x hQ hx => by
        obtain ⟨l, hl, hid, htoken⟩ := hx
        rcases hQ.adds l hl with ⟨l', hl', hid', htoken'⟩ | ⟨hid', htoken'⟩
        · exact .inl ⟨l', hl', hid'.trans hid, htoken'.trans htoken⟩
        · exact .inr ⟨hid.symm.trans hid', htoken.symm.trans htoken'⟩) (x := (l.id, l.token))
      ⟨l, hl, rfl, rfl⟩
  constructor
  · by_contra hne
    obtain ⟨l, hl⟩ := Option.ne_none_iff_exists'.mp hne
    obtain ⟨hmem, hid⟩ := Table.get_eq_some_iff.mp hl
    rcases horigin l hmem with ⟨l', hl', hid', -⟩ | ⟨e, he, hid', -⟩
    · have hunused := hfresh.unusedId i
      rw [← hid, ← hid', Table.mem_rows_iff.mp hl'] at hunused
      cases hunused
    · exact hi e he (hfresh.distinctId _ _ (hid'.symm.trans hid))
  · intro l hl htoken
    rcases horigin l hl with ⟨l', hl', -, htoken'⟩ | ⟨e, he, -, htoken'⟩
    · exact hfresh.unusedToken i l' hl' (htoken'.trans htoken)
    · exact hi e he (hfresh.distinctToken _ _ (htoken'.symm.trans htoken))

/-- The id a call is to use is unused while it has not committed. -/
theorem unused_of_step (hfresh : FreshLinks calls db) {undisturbed : Prop} {i : ι}
    {s t : Sys ι Db Key Err (Option InviteLink)} (hst : Sys.Step i s t) (hlogged : Sys.Logged s)
    (hcommits : Sys.Commits (fun i => ReferralEffect issuer undisturbed (calls i)) db s.log s.db) :
    Unused (calls i).env s.db := by
  refine unused_of_commits hfresh hcommits ?_
  rintro ⟨j, a⟩ he rfl
  have hended := hlogged j a he
  cases hst with
  | _ hi =>
    rw [hended] at hi
    cases hi

/-- What holds in every run of the calls, if the `undisturbed` ones respect each other. -/
theorem referrals_watched (undisturbed : Prop) (hrole : issuer.role ∈ [UserRole.seller, .admin])
    (hdb : IssuerDb issuer db) (hfresh : FreshLinks calls db)
    {t : Sys ι Db Key Err (Option InviteLink)}
    (h : Sys.StepsIf (fun s i t => undisturbed → LookupsRespected issuer calls s i t)
      (Sys.init db fun i => (calls i).exec issuer) t) :
    Sys.Watched referralLocking (IssuerDb issuer) (fun i => Unused (calls i).env)
      (fun i s t => undisturbed → (calls i).op.Relies issuer s t)
      (fun i _ => undisturbed ∧ (calls i).op.ForIssuer)
      (fun i => ReferralEffect issuer undisturbed (calls i)) db t := by
  refine h.watches (fun i s _ => .refl _ s) (fun i s t u hst htu hun => (hst hun).trans (htu hun))
    hdb (fun i => (calls i).watch undisturbed hrole) ?_
  intro i s t hst hif _ hlogged hcommits
  exact ⟨unused_of_step hfresh hst hlogged hcommits, fun j hj hpast hun => hif hun j hj hpast⟩

omit [DecidableEq ι] in
/-- The commits of undisturbed calls of `get_or_create` leave the link they return active. -/
theorem replies_of_commits {t : Db} {log : List (ι × Option InviteLink)}
    (h : Sys.Commits (fun i => ReferralEffect issuer True (calls i)) db log t) :
    (∀ before between i a, log = before ++ (i, a) :: between → (calls i).op = .getOrCreate →
      (∀ e ∈ between, (calls e.1).op = .getOrCreate) →
      ∃ l, a = some l ∧ t.activeReferrals issuer.id = [l]) ∧
    ∀ before between rest i j a b, log = before ++ (i, a) :: between ++ (j, b) :: rest →
      (calls i).op = .getOrCreate → (calls j).op = .getOrCreate →
      (∀ e ∈ between, (calls e.1).op = .getOrCreate) → ∃ l, a = some l ∧ b = some l := by
  induction h with
  | nil =>
    constructor
    · intro before between i a hlog
      simp at hlog
    · intro before between rest i j a b hlog
      simp at hlog
  | @snoc log s t k c _ heffect ih =>
    obtain ⟨hactive, hpairs⟩ := ih
    -- a call that finds a link active returns that link
    have hnext : ∀ l, s.activeReferrals issuer.id = [l] → (calls k).op = .getOrCreate →
        c = some l ∧ t.activeReferrals issuer.id = [l] := by
      intro l hl hk
      obtain ⟨l', rfl, ht, hs⟩ := heffect.reply trivial hk
      rcases hs with hs | hs
      · rw [hl] at hs
        cases hs
      · rw [hl] at hs
        obtain rfl := (List.cons.inj hs).1
        exact ⟨rfl, ht⟩
    constructor
    · intro before between i a hlog hi hbetween
      rcases List.eq_nil_or_concat' between with rfl | ⟨between, e, rfl⟩
      · obtain ⟨-, heq⟩ := List.append_inj' hlog rfl
        obtain ⟨rfl, rfl⟩ := Prod.mk.inj (List.cons.inj heq).1
        obtain ⟨l, hl, ht, -⟩ := heffect.reply trivial hi
        exact ⟨l, hl, ht⟩
      · rw [← List.cons_append, ← List.append_assoc] at hlog
        obtain ⟨hinit, hlast⟩ := List.append_inj' hlog rfl
        obtain rfl := (List.cons.inj hlast).1
        obtain ⟨l, ha, hs⟩ := hactive before between i a hinit hi fun e he =>
          hbetween e (List.mem_append_left _ he)
        have hk := hbetween (k, c) (List.mem_append_right _ (List.mem_singleton_self _))
        exact ⟨l, ha, (hnext l hs hk).2⟩
    · intro before between rest i j a b hlog hi hj hbetween
      rcases List.eq_nil_or_concat' rest with rfl | ⟨rest, e, rfl⟩
      · obtain ⟨hinit, hlast⟩ := List.append_inj' hlog rfl
        obtain ⟨rfl, rfl⟩ := Prod.mk.inj (List.cons.inj hlast).1
        obtain ⟨l, ha, hs⟩ := hactive before between i a hinit hi hbetween
        exact ⟨l, ha, (hnext l hs hj).1⟩
      · rw [← List.cons_append, ← List.append_assoc] at hlog
        obtain ⟨hinit, -⟩ := List.append_inj' hlog rfl
        exact hpairs before between rest i j a b hinit hi hj hbetween

end Interleaving

/-- **One active referral.** In every run there is at most one active referral of the issuer, and
no revocation is lifted. In every run in which no commit changes what another call has looked up,
the calls of the issuer succeed, and return one link as long as nothing is regenerated or
revoked. -/
theorem one_active_referral {ι : Type} [DecidableEq ι] {issuer : User}
    {calls : ι → ReferralCall} {db : Db} (hrole : issuer.role ∈ [UserRole.seller, .admin])
    (hprofile : HasProfile issuer db) (hunique : (db.activeReferrals issuer.id).length ≤ 1)
    (hfresh : FreshLinks calls db) :
    (∀ s i t, Sys.Steps (Sys.init db fun i => (calls i).exec issuer) s → Sys.Step i s t →
      (t.db.activeReferrals issuer.id).length ≤ 1 ∧ RevokedStay s.db t.db) ∧
    ∀ t, Sys.StepsIf (LookupsRespected issuer calls)
        (Sys.init db fun i => (calls i).exec issuer) t →
      ReferralsServed calls t := by
  have hdb : IssuerDb issuer db := ⟨hprofile, hunique⟩
  constructor
  · intro s i t hs hst
    have hany : ∀ {u}, Sys.Steps (Sys.init db fun i => (calls i).exec issuer) u →
        Sys.Watched referralLocking (IssuerDb issuer) (fun i => Unused (calls i).env)
          (fun i s t => False → (calls i).op.Relies issuer s t)
          (fun i _ => False ∧ (calls i).op.ForIssuer)
          (fun i => ReferralEffect issuer False (calls i)) db u := fun hu =>
      referrals_watched False hrole hdb hfresh (hu.stepsIf fun _ _ _ hun => hun.elim)
    refine ⟨(hany (hs.tail i hst)).holds.db.unique, ?_⟩
    have hunused := unused_of_step hfresh hst (hany hs).logged (hany hs).commits
    cases hst with
    | commit hi => exact ((hany hs).holds.watches_commit hunused hi).2.1.revoked
    | _ => exact RevokedStay.refl s.db
  · intro t ht
    have hwatched := referrals_watched True hrole hdb hfresh (ht.mono fun _ _ _ hC _ => hC)
    refine ⟨fun i e hi hfor => hwatched.raised i e hi ⟨trivial, hfor⟩, ?_⟩
    exact (replies_of_commits hwatched.commits).2

namespace Sample

def issuer : User := { id := 2, role := .seller }

/-- A server with one seller and no link. -/
def issuing : Db :=
  { users := (∅ : Table User User.id).insert issuer
    sellers := (∅ : Table Seller Seller.id).insert { id := 2, userId := 2 } }

/-- The `i`-th call, with draws of its own. -/
def referralCall (op : ReferralOp) (i : ℕ) : ReferralCall :=
  { op, env := { now := fun _ => i, transactionNow := i, uuid4 := fun _ => 40 + i, randbelow := 0,
                 tokenUrlsafe := fun _ => Nat.repr i, tokenHex := "", hashPassword := id } }

/-- Two calls of `get_or_create`. -/
def referralCalls (i : Fin 2) : ReferralCall := referralCall .getOrCreate i

/-- The sample calls use ids that nothing has. -/
theorem referralCalls_fresh : FreshLinks referralCalls issuing where
  unusedId := by decide
  unusedToken := by decide
  distinctId := by decide
  distinctToken := by decide

/-- The transactions of these calls. -/
def referringTwice (i : Fin 2) : Tx (Option InviteLink) := (referralCalls i).exec issuer

end Sample

/-- Two calls, one after the other. -/
theorem one_active_referral_in_turn :
    ∃ t, Sys.Steps (Sys.init Sample.issuing Sample.referringTwice) t ∧
      t.log.map Prod.fst = [0, 1] ∧ ReferralsServed Sample.referralCalls t := by
  -- the call that waits has not looked anything up, and the one that has ended is not running
  have hrespected : ∀ (s : Sys (Fin 2) Db Key Err (Option InviteLink)) i t, i ∈ [0, 1] →
      (∀ j, j ≠ i → Sys.Idle Sample.referringTwice s j) →
      LookupsRespected Sample.issuer Sample.referralCalls s i t := by
    intro s i t _ hidle j hj hpast
    obtain ⟨w, q, hrunning, hselects⟩ := hpast
    rcases hidle j hj with hwaits | ⟨r, hcommitted⟩
    · rw [hwaits] at hrunning
      cases hrunning
      match j with
      | 0 => exact absurd trivial hselects
      | 1 => exact absurd trivial hselects
    · rw [hcommitted] at hrunning
      cases hrunning
  obtain ⟨t, ht, -, hlog⟩ := Sys.stepsIf_init_of_serial Sample.referringTwice Sample.issuing
    [0, 1] hrespected (by decide) (by decide +kernel)
  have hprofile : HasProfile Sample.issuer Sample.issuing := ⟨{ id := 2, userId := 2 }, by decide⟩
  exact ⟨t, ht.steps, hlog,
    (one_active_referral (by decide) hprofile (by decide) Sample.referralCalls_fresh).2 t ht⟩

/-- Two calls look the referral up in vain at the same time: the index refuses the second one. -/
theorem get_or_create_refused :
    ∃ t, Sys.Steps (Sys.init Sample.issuing Sample.referringTwice) t ∧
      t.txn 0 = .aborted (some (.integrity "uq_invite_links_active_seller_referral")) ∧
      ¬ReferralsServed Sample.referralCalls t := by
  have hreads : (Sample.referringTwice 0).selects Sample.issuing 2 = true := by decide +kernel
  obtain ⟨a, hrun⟩ := run_of_session (p := Sample.referringTwice 1) (s := Sample.issuing)
    (by decide +kernel)
  have hrest := run_of_session_error
    (p := (Sample.referringTwice 0).afterSelects Sample.issuing 2)
    (s := ((Sample.referringTwice 1).session Sample.issuing).2)
    (e := .integrity "uq_invite_links_active_seller_referral") (by decide +kernel)
  obtain ⟨t, ht, haborted, -, -⟩ :=
    Sys.refused_of_run (i := 0) (j := 1) (by decide) hreads hrun hrest
  exact ⟨t, ht, haborted, fun h => h.succeed 0 _ haborted trivial⟩

end Marketplace
