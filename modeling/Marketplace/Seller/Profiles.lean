import Marketplace.App.Step
import Marketplace.Lib.Settle
import Marketplace.Order.Exclusivity

/-!
# The profiles of sellers

The services look up a seller's row in `sellers` by its user and fail without one. No
request inserts such a row, so the users who are sellers keep their profiles, and a signup
that makes a seller makes one without.
-/

namespace Marketplace

open Lib Txn OrderService InviteService AuthService StoreService ProductService

/-! ### Sellers and their profiles -/

/-- The user is a seller. -/
def Db.SellerUser (db : Db) (id : Id) : Prop := ∃ u, db.users.get id = some u ∧ u.role = .seller

/-- The user has a profile, under its own id. -/
def Db.HasProfile (db : Db) (id : Id) : Prop :=
  ∃ x, db.sellers.get id = some x ∧ x.userId = id ∧ x.deletedAt = none

/-- Every seller has a profile. -/
def Db.Profiled (db : Db) : Prop := ∀ id, db.SellerUser id → db.HasProfile id

/-- No profile goes, and nobody becomes a seller. -/
structure SellersKept (s t : Db) : Prop where
  profiles : ∀ id, s.HasProfile id → t.HasProfile id
  sellers : ∀ id, t.SellerUser id → s.SellerUser id

/-- Nothing has changed. -/
theorem SellersKept.refl (s : Db) : SellersKept s s := ⟨fun _ h => h, fun _ h => h⟩

/-- What two changes keep, both keep together. -/
theorem SellersKept.trans {s t u : Db} (hst : SellersKept s t) (htu : SellersKept t u) :
    SellersKept s u :=
  ⟨fun id h => htu.profiles id (hst.profiles id h), fun id h => hst.sellers id (htu.sellers id h)⟩

/-- The request is a signup, and its invite grants the role of a seller. -/
def AppRequest.MakesSeller (q : AppRequest) (db : Db) : Prop :=
  ∃ req env, q = .auth { op := .signup req, env } ∧ ∃ l ∈ db.inviteLinks.rows,
    l.token = req.inviteToken ∧ signupRole l req.roleChoice = some .seller

/-- What a request does to sellers and profiles. -/
structure ProfileEffect (q : AppRequest) (s t : Db) : Prop where
  profiles : ∀ id, s.HasProfile id → t.HasProfile id
  sellers : ∀ id, t.SellerUser id → s.SellerUser id ∨ q.MakesSeller s

/-- The step is not the commit of a signup that makes a seller. -/
def NoSellerMade {ι : Type} (requests : ι → AppRequest) (s : Sys ι Db Key Err AppReply) (i : ι)
    (t : Sys ι Db Key Err AppReply) : Prop :=
  ∀ reply, t.txn i = .committed reply → ¬(requests i).MakesSeller s.db

/-! ### What the writes do -/

/-- The lock on an invite link protects it. -/
def linkLocking : Locking Db Key where
  agree key s t :=
    match key with
    | .inviteLink id => t.inviteLinks.get id = s.inviteLinks.get id
    | _ => True
  refl key s := by
    cases key with
    | _ => trivial
  trans {key s t u} hst htu := by
    cases key with
    | inviteLink id => exact Eq.trans htu hst
    | _ => trivial

section Writes

variable {key : Key} {f : Db → Db} {s t : Db}

/-- A change of other tables keeps the sellers. -/
theorem SellersKept.of_same (husers : t.users = s.users) (hsellers : t.sellers = s.sellers) :
    SellersKept s t where
  profiles id h := by
    rw [Db.HasProfile, hsellers]
    exact h
  sellers id h := by
    rw [Db.SellerUser, husers] at h
    exact h

/-- A change of other tables respects the locks of the links. -/
theorem linkLocking_of_same (h : t.inviteLinks = s.inviteLinks) (key : Key) :
    linkLocking.agree key s t := by
  cases key with
  | inviteLink id => exact congrArg (fun links => links.get id) h
  | _ => trivial

/-- A write that keeps the sellers and, but for the link it has locked, the invites. -/
def SellerSafe (key : Key) (f : Db → Db) : Prop :=
  ∀ s, SellersKept s (f s) ∧ ∀ key', key' ≠ key → linkLocking.agree key' s (f s)

/-- A write to other tables is safe. -/
theorem sellerSafe_of_same (h : ∀ s, SameAccounts s (f s)) : SellerSafe key f := fun s =>
  ⟨.of_same (h s).users (h s).sellers, fun key' _ => linkLocking_of_same (h s).inviteLinks key'⟩

/-- So is every write of the catalog. -/
theorem CatalogWrite.sellerSafe (h : CatalogWrite key f) : SellerSafe key f := by
  cases h with
  | city id city loaded =>
    refine fun s => ⟨⟨fun id' h => ?_, fun _ h => h⟩, fun key' _ => linkLocking_of_same rfl key'⟩
    obtain ⟨x, hx, huser, hlive⟩ := h
    have hkey : ∀ y : Seller, (Seller.setCity city loaded y).id = y.id := fun _ => rfl
    have hget : (s.modifySeller id (Seller.setCity city loaded)).sellers.get id' = _ :=
      Table.get_modify s.sellers id hkey id'
    rw [hx] at hget
    split at hget
    · exact ⟨_, hget, huser, hlive⟩
    · exact ⟨x, hget, huser, hlive⟩
  | _ => exact fun s => ⟨.of_same rfl rfl, fun key' _ => linkLocking_of_same rfl key'⟩

/-- A changed link keeps its identifier. -/
theorem LinkChange.id {f : InviteLink → InviteLink} (hf : LinkChange f) (l : InviteLink) :
    (f l).id = l.id := by
  rcases hf.same l with h | ⟨now, h⟩
  · rw [h]
  · rw [h]
    rfl

/-- A changed link respects the locks of the others. -/
theorem linkLocking_modifyLink {id : Id} {f : InviteLink → InviteLink}
    (hf : ∀ l, (f l).id = l.id) {key' : Key} (hne : key' ≠ .inviteLink id) :
    linkLocking.agree key' s (s.modifyLink id f) := by
  cases key' with
  | inviteLink id' =>
    have hid : id' ≠ id := fun heq => hne (by rw [heq])
    exact (Table.get_modify s.inviteLinks id hf id').trans (if_neg hid)
  | _ => trivial

/-- The writes of the invites and of the other requests about accounts are safe. -/
theorem InviteWrite.sellerSafe (h : InviteWrite AccountChange key f) : SellerSafe key f := by
  cases h with
  | quiet h =>
    cases h with
    | account id f hf =>
      refine fun s => ⟨⟨fun _ h => h, fun id' h => ?_⟩, fun key' _ => linkLocking_of_same rfl key'⟩
      obtain ⟨u, hu, hrole⟩ := h
      have hget : (s.modifyUser id f).users.get id' = _ := Table.get_modify s.users id hf.id id'
      rw [hu] at hget
      split at hget
      · obtain ⟨v, hv, rfl⟩ := Option.map_eq_some_iff.mp hget.symm
        exact ⟨v, hv, (hf.role v).symm.trans hrole⟩
      · exact ⟨u, hget.symm, hrole⟩
    | link id f hf =>
      exact fun s => ⟨.of_same rfl rfl, fun key' hne => linkLocking_modifyLink hf.id hne⟩
    | _ => exact fun s => ⟨.of_same rfl rfl, fun key' _ => linkLocking_of_same rfl key'⟩
  | addLink l =>
    refine fun s => ⟨.of_same rfl rfl, fun key' hne => ?_⟩
    cases key' with
    | inviteLink id => exact Table.get_insert_of_ne _ fun heq => hne (by rw [heq])
    | _ => trivial

/-- A program with such writes keeps the sellers in every interleaving. -/
theorem safe_of_sellerSafe {α : Type} {P : Key → (Db → Db) → Prop} {p : Tx α} (h : p.Writes P)
    (hP : ∀ key f, P key f → SellerSafe key f) :
    p.Safe linkLocking (fun _ => True) fun _ s t => SellersKept s t :=
  h.safe SellersKept.refl (fun _ _ _ => SellersKept.trans)
    (fun _ _ hf s _ => ⟨trivial, (hP _ _ hf s).1⟩) fun _ _ hf s => (hP _ _ hf s).2

end Writes

/-! ### Requests that make no user -/

section Requests

variable {sec : Security} {lower : String → String}

/-- Wrapping what a program returns. -/
theorem safe_wrap {α β : Type} {L : Locking Db Key} {I : Db → Prop} {Q : Db → Db → Prop}
    {p : Tx α} (f : α → β) (h : p.Safe L I fun _ s t => Q s t) :
    (p.bind fun a => ret (f a)).Safe L I fun _ s t => Q s t := by
  unfold Safe at h ⊢
  rw [wp_bind]
  exact wp_mono (fun _ _ _ hok => hok) h

/-- A request keeps the sellers, unless it is a signup. -/
theorem appExec_keepsSellers (q : AppRequest)
    (hq : ∀ req env, q ≠ .auth { op := .signup req, env }) :
    (q.exec sec lower).Safe linkLocking (fun _ => True) fun _ s t => SellersKept s t := by
  cases q with
  | service c =>
    exact safe_wrap _ (safe_of_sellerSafe (serviceExec_writes c) fun _ _ hf =>
      sellerSafe_of_same hf.accounts)
  | auth q =>
    obtain ⟨op, env⟩ := q
    have hop : ∀ req, op ≠ .signup req := fun req heq => hq req env (by rw [heq])
    have hwrites : (AuthRequest.exec sec ⟨op, env⟩).Writes (InviteWrite AccountChange) :=
      authExec_makes_no_user hop (fun _ hf => hf.toAccountChange)
        (fun _ reason _ now => accountChange_suspend now reason) fun _ _ => accountChange_unsuspend
    exact safe_wrap _ (safe_of_sellerSafe hwrites fun _ _ hf => hf.sellerSafe)
  | catalog q =>
    exact safe_wrap _ (safe_of_sellerSafe (catalogExec_writes lower q.op) fun _ _ hf =>
      hf.sellerSafe)
  | messaging q =>
    exact safe_wrap _ (safe_of_sellerSafe (messagingExec_writes q) fun _ _ hf =>
      sellerSafe_of_same hf.accounts)
  | keys q =>
    exact safe_wrap _ (safe_of_sellerSafe (keyExec_writes q) fun _ _ hf =>
      sellerSafe_of_same hf.accounts)

end Requests


/-! ### The signup -/

section Signup

variable {sec : Security} {lower : String → String} {env : AuthEnv}

/-- A signup makes a seller if its invite grants that role. -/
theorem signup_effect (req : SignupRequest) :
    (AppRequest.exec sec lower (.auth { op := .signup req, env })).Safe linkLocking
      (fun _ => True) fun _ s t => ProfileEffect (.auth { op := .signup req, env }) s t := by
  refine safe_wrap _ (safe_wrap _ ?_)
  unfold Safe signup
  simp only [bind_eq, wp_bind, wp_raiseIf]
  refine fun _ => consumeInvite_wp fun s₀ t₀ invite hget htoken _ _ _ _ => ?_
  simp only [wp_getOrRaise, wp_read, wp_scalarOneOrNone]
  intro role hrole _ _ _ _ _ _
  refine insertReserved_wp fun _ _ _ _ => insertReserved_wp fun _ _ _ _ =>
    insertReserved_wp fun _ _ _ _ => ?_
  intro s _ hs
  have hlink : s.inviteLinks.get invite.id = some invite :=
    Eq.trans (hs (.inviteLink invite.id, s₀) (by simp)) hget
  refine ⟨trivial, ⟨fun id h => h, fun id hseller => ?_⟩, fun key hkey => ?_⟩
  · obtain ⟨u, hu, hseller⟩ := hseller
    rcases Table.get_of_insert (t := s.users) hu with rfl | hold
    · refine .inr ⟨req, env, rfl, invite, Table.mem_rows_iff.mpr hlink, htoken, ?_⟩
      rw [hrole]
      exact congrArg some hseller
    · exact .inl ⟨u, hold, hseller⟩
  · have hne : key ≠ .inviteLink invite.id := fun heq =>
      hkey (.inviteLink invite.id, s₀) (by simp) heq.symm
    have hlinks : linkLocking.agree key s
        (s.modifyLink invite.id (InviteLink.use (invite.usedCount + 1))) :=
      linkLocking_modifyLink (InviteLink.use_id _) hne
    exact linkLocking.trans hlinks (linkLocking_of_same rfl key)

end Signup


/-! ### Every request -/

section Runs

variable {sec : Security} {lower : String → String}

/-- What the commit of a request does to sellers and profiles. -/
theorem appExec_profiles (q : AppRequest) :
    (q.exec sec lower).Safe linkLocking (fun _ => True) fun _ s t => ProfileEffect q s t := by
  by_cases hq : ∀ req env, q ≠ .auth { op := .signup req, env }
  · have hkeeps : (q.exec sec lower).Safe linkLocking (fun _ => True) fun _ s t =>
        SellersKept s t := appExec_keepsSellers q hq
    refine wp_mono (fun facts w r hok s hs hK => ?_) hkeeps
    obtain ⟨hI, hkept, hframe⟩ := hok s hs hK
    exact ⟨hI, ⟨hkept.profiles, fun id h => .inl (hkept.sellers id h)⟩, hframe⟩
  · simp only [not_forall, not_not] at hq
    obtain ⟨req, env, rfl⟩ := hq
    exact signup_effect req

variable {ι : Type} [DecidableEq ι] {requests : ι → AppRequest} {db : Db}

/-- A run in which no signup makes a seller keeps the sellers. -/
theorem sellersKept_of_run {s : Sys ι Db Key Err AppReply}
    (hs : Sys.StepsIf (NoSellerMade requests)
      (Sys.init db fun i => (requests i).exec sec lower) s) : SellersKept db s.db := by
  have hsafe : ∀ i, ((requests i).exec sec lower).Safe linkLocking (fun _ => True)
      fun _ s t => ProfileEffect (requests i) s t := fun i => appExec_profiles (requests i)
  suffices hboth : Sys.Sound linkLocking (fun _ => True)
      (fun i _ s t => ProfileEffect (requests i) s t) s ∧ SellersKept db s.db from hboth.2
  refine hs.preserve (P := fun s => Sys.Sound linkLocking (fun _ => True)
    (fun i _ s t => ProfileEffect (requests i) s t) s ∧ SellersKept db s.db) ?_
    ⟨Sys.sound_init trivial hsafe, .refl db⟩
  rintro i s t hst hmade ⟨hsound, hkept⟩
  refine ⟨hsound.step hst, ?_⟩
  cases hst with
  | @commit w reply hi =>
    have heffect : ProfileEffect (requests i) s.db (w s.db) := (hsound.commitOk hi).2.1
    have hnone : ¬(requests i).MakesSeller s.db := hmade reply (by simp [Sys.commit])
    exact hkept.trans ⟨heffect.profiles, fun id hid =>
      (heffect.sellers id hid).resolve_right hnone⟩
  | _ => exact hkept

end Runs

/-! ### Lookups of a profile -/

/-- The errors of a request whose caller has no profile. -/
def Err.MissingProfile (e : Err) : Prop :=
  e = Err.sellerProfileMissing ∨ e = Err.authorizationError "User does not have a seller profile."

instance : DecidablePred Err.MissingProfile := fun e =>
  inferInstanceAs (Decidable (e = Err.sellerProfileMissing ∨ e = _))

/-- Who calls an operation on stores, on products, on orders or on referrals. -/
def AppRequest.sellerCaller : AppRequest → Option User
  | .service (.call q) => some q.caller
  | .catalog q => some q.caller
  | .auth { op := .getOrCreateSellerReferral sellerUser, .. } => some sellerUser
  | .auth { op := .regenerateSellerReferral sellerUser, .. } => some sellerUser
  | .auth { op := .revokeInvite user _, .. } => some user
  | _ => none

section Lookups

variable {L : Locking Db Key} {I : Db → Prop} {facts : List (Key × Db)} {w : Db → Db}
  {sha256 lower : String → String} {sec : Security} {env : Env} {caller : User}

/-- The errors of a missing profile are known by their message. -/
theorem not_missingProfile {e : AppException}
    (h : e.message ≠ "User does not have a seller profile.") : ¬(Err.app e).MissingProfile := by
  rintro (heq | heq)
  · exact h (congrArg AppException.message (Err.app.inj heq))
  · exact h (congrArg AppException.message (Err.app.inj heq))

/-- A missing profile is never what a failing lookup raises by itself. -/
theorem ofLookups_missingProfile : Err.OfLookups Err.MissingProfile where
  isLookup := by
    rintro e (rfl | rfl)
    · rfl
    · rfl

/-- A query for one row fails for two rows only. -/
theorem neverRaises_scalarOneOrNone {ρ : Type} (rows : List ρ) :
    (scalarOneOrNone rows).NeverRaises Err.MissingProfile := by
  rcases rows with _ | ⟨a, _ | ⟨b, rest⟩⟩
  · exact .pure _
  · exact .pure _
  · exact .raise (by decide)

/-- The lookup of a profile that is there. -/
theorem wp_findSeller {userId : Id}
    {Post : List (Key × Db) → (Db → Db) → Option Seller → Prop}
    (hI : ∀ s, I s → s.HasProfile userId) (h : ∀ seller, Post facts id (some seller)) :
    (findSeller userId).wp L I Post facts id := by
  simp only [findSeller, bind_eq, wp_bind, wp_read, wp_scalarOneOrNone]
  intro s hs _ found hfound
  obtain ⟨x, hx, huser, hlive⟩ := hI s hs
  have hmem : x ∈ s.sellers.rows.filter fun y => y.userId = userId ∧ y.deletedAt = none :=
    List.mem_filter.mpr ⟨Table.mem_rows_iff.mpr ((Table.key_of_get hx).symm ▸ hx),
      decide_eq_true ⟨huser, hlive⟩⟩
  cases found with
  | none =>
    change List.filter _ s.sellers.rows = [] at hfound
    rw [hfound] at hmem
    cases hmem
  | some seller => exact h seller

end Lookups


section Operations

variable {L : Locking Db Key} {I : Db → Prop} {facts : List (Key × Db)} {w : Db → Db}
  {sha256 lower : String → String} {sec : Security} {env : Env} {caller : User} {α : Type}

/-- A lookup that finds the profile goes on with it. -/
theorem avoids_findSeller {userId : Id} {f : Option Seller → Tx α}
    (hI : ∀ s, I s → s.HasProfile userId)
    (hf : ∀ seller, (f (some seller)).NeverRaises Err.MissingProfile) :
    (findSeller userId >>= f).Avoids L I Err.MissingProfile facts id := by
  have hlookup : (findSeller userId).NeverRaises Err.MissingProfile :=
    .bind .read fun _ => neverRaises_scalarOneOrNone _
  refine avoids_bind.mpr ⟨hlookup L I facts id, wp_findSeller hI fun seller => ?_⟩
  exact hf seller L I facts id

/-- The profile of a seller who has one is found. -/
theorem avoids_profile (hI : ∀ s, I s → s.HasProfile caller.id) :
    (getCallerSeller caller).Avoids L I Err.MissingProfile facts id := by
  have heq : getCallerSeller caller = findSeller caller.id >>= fun seller =>
      getOrRaise seller Err.sellerProfileMissing := by
    simp only [getCallerSeller, findSeller, bind_eq, bind_assoc]
  rw [heq]
  exact avoids_findSeller hI fun seller => .pure seller

/-- What follows the lookup has to avoid the error by itself. -/
theorem avoids_getCallerSeller_bind {f : Seller → Tx α} (hI : ∀ s, I s → s.HasProfile caller.id)
    (hf : ∀ seller, (f seller).NeverRaises Err.MissingProfile) :
    (getCallerSeller caller >>= f).Avoids L I Err.MissingProfile facts id :=
  NeverRaises.after hf (avoids_profile hI)

/-! ### Stores and products -/

/-- The checks of a product are about price and stock. -/
theorem neverRaises_checkProduct (priceMinor : ℤ) (stock : Option ℤ) :
    (checkProduct priceMinor stock).NeverRaises Err.MissingProfile :=
  .bind (.raiseIf _ (by decide)) fun _ => .bind (.raiseIf _ (by decide)) fun _ =>
    .raiseIf _ (by decide)

/-- Insertions of images fail for their identifiers only. -/
theorem neverRaises_insertImages (is : List ProductImage) :
    (insertImages is).NeverRaises Err.MissingProfile := by
  induction is with
  | nil => exact .pure _
  | cons i is ih =>
    exact .bind (neverRaises_insertRow ofLookups_missingProfile) fun _ => ih

/-- Deletions never fail. -/
theorem neverRaises_deleteImages (is : List ProductImage) :
    (deleteImages is).NeverRaises Err.MissingProfile := by
  induction is with
  | nil => exact .pure _
  | cons i is ih => exact .bind (.updateRow _ _) fun _ => ih

/-- The images of a product are replaced without a look at the seller. -/
theorem neverRaises_replaceImages (productId : Id) (old : List ProductImage)
    (images : Option (List ImageSpec)) :
    (replaceImages env productId old images).NeverRaises Err.MissingProfile := by
  cases images with
  | none => exact .pure _
  | some specs =>
    exact .bind (neverRaises_deleteImages _) fun _ => .bind (neverRaises_insertImages _) fun _ =>
      .pure _

/-- The insertion of a store fails for its keys only. -/
theorem neverRaises_insertStore (s : Store) : (insertStore s).NeverRaises Err.MissingProfile :=
  .bind (.raiseIf _ (by decide)) fun _ => .bind (.acquire _) fun _ =>
    .bind (.raiseIf _ (not_missingProfile (by simp))) fun _ =>
    .bind (.acquire _) fun _ => .bind (.raiseIf _ (not_missingProfile (by simp))) fun _ =>
    .bind (.acquire _) fun _ => .bind (.raiseIf _ (not_missingProfile (by simp))) fun _ => .modify _

/-- The search for a slug looks at stores. -/
theorem neverRaises_uniqueSlug (base : String) (fuel suffix : ℕ) :
    (uniqueSlug base fuel suffix).NeverRaises Err.MissingProfile := by
  induction fuel generalizing suffix with
  | zero => exact .raise (by decide)
  | succ fuel ih =>
    exact .bind .read fun db => .ite (ih _) (.pure _)

/-- A missing store is another error. -/
theorem neverRaises_getCallerStore (seller : Seller) {missing : Err}
    (hmissing : ¬missing.MissingProfile) :
    (getCallerStore seller missing).NeverRaises Err.MissingProfile :=
  .bind .read fun _ => .bind (neverRaises_scalarOneOrNone _) fun _ => .getOrRaise _ hmissing

/-- The city is written to the profile at hand. -/
theorem neverRaises_updateCity (seller : Seller) (city : Option String) :
    (updateCity seller city).NeverRaises Err.MissingProfile := by
  cases city with
  | none => exact .pure _
  | some city => exact .bind (.raiseIf _ (not_missingProfile (by simp))) fun _ => .updateRow _ _

/-- Who may view a store depends on the store and its seller. -/
theorem neverRaises_ensureMayView (store : Store) (seller : Seller) :
    (ensureMayView caller store seller).NeverRaises Err.MissingProfile := by
  unfold ensureMayView
  cases caller.role with
  | admin => exact .pure _
  | seller => exact .raiseIf _ (not_missingProfile (by simp))
  | customer => exact .raiseIf _ (not_missingProfile (by simp))
  | driver => exact .raise (not_missingProfile (by simp))

/-- A missing product is another error. -/
theorem neverRaises_loadProductWithImages (productId : Id) :
    (loadProductWithImages productId).NeverRaises Err.MissingProfile :=
  .bind .read fun _ => .pure _

/-- So is a deleted one. -/
theorem neverRaises_liveProduct (productId : Id) :
    (AdminService.liveProduct productId).NeverRaises Err.MissingProfile :=
  .bind .read fun _ => .bind (.getOrRaise _ (not_missingProfile (by simp))) fun _ =>
    .bind (.raiseIf _ (not_missingProfile (by simp))) fun _ => .pure _

/-- A product is read again. -/
theorem neverRaises_refreshProduct (productId : Id) :
    (AdminService.refreshProduct productId).NeverRaises Err.MissingProfile :=
  .bind .read fun _ => .getOrRaise _ (by decide)

/-- The check of an edit looks the profile up first. -/
theorem avoids_ensureMayEdit {product : Product} {f : Unit → Tx α}
    (hI : ∀ s, I s → s.HasProfile caller.id)
    (hf : ∀ u, (f u).NeverRaises Err.MissingProfile) :
    (ensureMayEdit caller product >>= f).Avoids L I Err.MissingProfile facts id := by
  refine NeverRaises.after hf ?_
  unfold ensureMayEdit
  cases caller.role with
  | admin => exact trivial
  | seller =>
      exact avoids_getCallerSeller_bind hI fun _ => .raiseIf _ (not_missingProfile (by simp))
  | customer => exact avoids_raise.mpr (not_missingProfile (by simp))
  | driver => exact avoids_raise.mpr (not_missingProfile (by simp))

/-- The check of a view looks the profile up, if the caller is a seller. -/
theorem avoids_ensureMaySee {product : Product} {f : Unit → Tx α}
    (hI : ∀ s, I s → s.HasProfile caller.id)
    (hf : ∀ u, (f u).NeverRaises Err.MissingProfile) :
    (ensureMaySee caller product >>= f).Avoids L I Err.MissingProfile facts id := by
  refine NeverRaises.after hf ?_
  unfold ensureMaySee
  cases caller.role with
  | admin => exact trivial
  | seller =>
      exact avoids_getCallerSeller_bind hI fun _ => .raiseIf _ (not_missingProfile (by simp))
  | customer =>
    exact NeverRaises.bind .read (fun _ => .raiseIf _ (not_missingProfile (by simp))) L I facts id
  | driver => exact avoids_raise.mpr (not_missingProfile (by simp))

/-- Wrapping the result of a program raises nothing. -/
theorem avoids_reply {β : Type} {p : Tx α} {f : α → β}
    (hp : p.Avoids L I Err.MissingProfile facts w) :
    (p >>= fun a => pure (f a)).Avoids L I Err.MissingProfile facts w :=
  NeverRaises.after (fun _ => .pure _) hp

/-- `create_store`, by a seller with a profile. -/
theorem avoids_createStore {name city : String} {description slug : Option String} {isPublic : Bool}
    (hI : ∀ s, I s → s.HasProfile caller.id) :
    (createStore lower env caller name city description slug isPublic).Avoids L I
      Err.MissingProfile facts id := by
  have hcity : ¬(Err.storeCityRequired).MissingProfile := not_missingProfile (by simp)
  have hname : ¬(Err.storeCityRequired "Store name is required.").MissingProfile :=
    not_missingProfile (by simp)
  have hexists : ¬Err.storeAlreadyExists.MissingProfile := not_missingProfile (by simp)
  unfold createStore
  apply Avoids.checked hcity
  apply Avoids.checked hname
  apply avoids_getCallerSeller_bind hI
  intro seller
  refine .bind .read fun db => .bind (neverRaises_scalarOneOrNone _) fun existing => ?_
  refine .bind (.raiseIf _ hexists) fun _ => .bind (.updateRow _ _) fun _ => ?_
  refine .bind .read fun db => .bind (neverRaises_uniqueSlug _ _ _) fun finalSlug => ?_
  exact .bind (neverRaises_insertStore _) fun _ => .pure _

/-- `get_own_store`. -/
theorem avoids_getOwnStore (hI : ∀ s, I s → s.HasProfile caller.id) :
    (getOwnStore caller).Avoids L I Err.MissingProfile facts id := by
  have hmissing : ¬(Err.storeNotFound).MissingProfile := not_missingProfile (by simp)
  unfold getOwnStore
  exact avoids_getCallerSeller_bind hI fun seller => neverRaises_getCallerStore seller hmissing

/-- `update_own_store`. -/
theorem avoids_updateOwnStore {name city description : Option String}
    {isActive isPublic : Option Bool} (hI : ∀ s, I s → s.HasProfile caller.id) :
    (updateOwnStore caller name city description isActive isPublic).Avoids L I
      Err.MissingProfile facts id := by
  have hmissing : ¬(Err.storeNotFound).MissingProfile := not_missingProfile (by simp)
  have hname : ¬(Err.storeCityRequired "Store name is required.").MissingProfile :=
    not_missingProfile (by simp)
  unfold updateOwnStore
  refine avoids_getCallerSeller_bind hI fun seller => ?_
  refine .bind (neverRaises_getCallerStore seller hmissing) fun store => ?_
  refine .bind (.raiseIf _ hname) fun _ => .bind (neverRaises_updateCity _ _) fun _ => ?_
  exact .bind (.updateRow _ _) fun _ => .bind .read fun _ => .getOrRaise _ (by decide)

/-- `get_store_for_caller` needs no profile. -/
theorem neverRaises_getStoreForCaller (storeId : Id) :
    (getStoreForCaller caller storeId).NeverRaises Err.MissingProfile := by
  have hmissing : ¬(Err.storeNotFound).MissingProfile := not_missingProfile (by simp)
  unfold getStoreForCaller
  refine .bind .read fun db => .bind (.getOrRaise _ hmissing) fun store => ?_
  refine .bind (.raiseIf _ hmissing) fun _ => .bind .read fun db => ?_
  refine .bind (.getOrRaise _ (by decide)) fun seller => ?_
  exact .bind (neverRaises_ensureMayView store seller) fun _ => .pure _

/-- `create_product`. -/
theorem avoids_createProduct {name : String} {priceMinor : ℤ} {description : Option String}
    {stock : Option ℤ} {images : List ImageSpec} {storeId : Option Id}
    (hI : ∀ s, I s → s.HasProfile caller.id) :
    (createProduct env caller name priceMinor description stock images storeId).Avoids L I
      Err.MissingProfile facts id := by
  have hmissing : ¬(Err.storeNotFound "Seller has no store; create one first.").MissingProfile :=
    not_missingProfile (by simp)
  have hother : ¬(Err.storeNotFound).MissingProfile := not_missingProfile (by simp)
  unfold createProduct
  refine avoids_getCallerSeller_bind hI fun seller => ?_
  refine .bind (neverRaises_getCallerStore seller hmissing) fun store => ?_
  refine .bind (.raiseIf _ hother) fun _ => .bind (.bind (neverRaises_checkProduct _ _) fun _ =>
    neverRaises_insertRow ofLookups_missingProfile) fun _ => ?_
  refine .bind (neverRaises_insertImages _) fun _ => ?_
  exact .bind (neverRaises_loadProductWithImages _) fun _ => .getOrRaise _ (by decide)

/-- `update_product`. -/
theorem avoids_updateProduct {productId : Id} {q : ProductPatch} {images : Option (List ImageSpec)}
    (hI : ∀ s, I s → s.HasProfile caller.id) :
    (updateProduct env caller productId q images).Avoids L I Err.MissingProfile facts id := by
  have hmissing : ¬Err.productNotFound.MissingProfile := not_missingProfile (by simp)
  unfold updateProduct
  intro s _ _
  refine .found hmissing fun full => .checked hmissing (avoids_ensureMayEdit hI fun _ => ?_)
  refine .bind (.bind (neverRaises_checkProduct _ _) fun _ => .updateRow _ _) fun _ => ?_
  exact .bind (neverRaises_replaceImages _ _ _) fun _ => .pure _

/-- `soft_delete_product`. -/
theorem avoids_softDeleteProduct {productId : Id} (hI : ∀ s, I s → s.HasProfile caller.id) :
    (softDeleteProduct env caller productId).Avoids L I Err.MissingProfile facts id := by
  have hmissing : ¬Err.productNotFound.MissingProfile := not_missingProfile (by simp)
  unfold softDeleteProduct
  intro s _ _
  exact .found hmissing fun product => .checked hmissing
    (avoids_ensureMayEdit hI fun _ => .updateRow _ _)

/-- `get_product_for_caller`. -/
theorem avoids_getProductForCaller {productId : Id} (hI : ∀ s, I s → s.HasProfile caller.id) :
    (getProductForCaller caller productId).Avoids L I Err.MissingProfile facts id := by
  have hmissing : ¬Err.productNotFound.MissingProfile := not_missingProfile (by simp)
  unfold getProductForCaller
  intro s _ _
  exact .found hmissing fun full => .checked hmissing (avoids_ensureMaySee hI fun _ => .pure _)

/-- `list_products_for_caller`. -/
theorem avoids_listProductsForCaller {storeId sellerId : Option Id} {limit : ℤ}
    (hI : ∀ s, I s → s.HasProfile caller.id) :
    (listProductsForCaller caller storeId sellerId limit).Avoids L I
      Err.MissingProfile facts id := by
  unfold listProductsForCaller
  refine NeverRaises.after (fun _ => .bind .read fun _ => .pure _) ?_
  unfold ownSellerId
  split
  · exact avoids_getCallerSeller_bind hI fun _ => .pure _
  · trivial

/-- An administrator needs no profile to disable a product. -/
theorem neverRaises_disableProduct (productId : Id) (reason : String) :
    (AdminService.disableProduct env productId reason).NeverRaises Err.MissingProfile :=
  .bind (neverRaises_liveProduct _) fun _ => .bind (.updateRow _ _) fun _ =>
    neverRaises_refreshProduct _

/-- Nor to restore one. -/
theorem neverRaises_restoreProduct (productId : Id) :
    (AdminService.restoreProduct productId).NeverRaises Err.MissingProfile :=
  .bind (neverRaises_liveProduct _) fun _ => .bind (.updateRow _ _) fun _ =>
    neverRaises_refreshProduct _

/-- No operation on the catalog misses the profile of a caller who has one. -/
theorem catalogExec_avoids (op : CatalogOp) (hI : ∀ s, I s → s.HasProfile caller.id) :
    (op.exec lower env caller).Avoids L I Err.MissingProfile facts id := by
  unfold CatalogOp.exec
  cases op with
  | createStore =>
    apply avoids_reply
    apply avoids_createStore hI
  | getOwnStore =>
    apply avoids_reply
    apply avoids_getOwnStore hI
  | updateOwnStore =>
    apply avoids_reply
    apply avoids_updateOwnStore hI
  | getStoreForCaller storeId =>
    apply avoids_reply
    apply neverRaises_getStoreForCaller
  | createProduct =>
    apply avoids_reply
    apply avoids_createProduct hI
  | updateProduct =>
    apply avoids_reply
    apply avoids_updateProduct hI
  | softDeleteProduct =>
    apply avoids_reply
    apply avoids_softDeleteProduct hI
  | getProductForCaller =>
    apply avoids_reply
    apply avoids_getProductForCaller hI
  | listProductsForCaller =>
    apply avoids_reply
    apply avoids_listProductsForCaller hI
  | disableProduct =>
    apply avoids_reply
    apply neverRaises_disableProduct
  | restoreProduct =>
    apply avoids_reply
    apply neverRaises_restoreProduct

/-! ### Orders -/

/-- A closed fulfilment is another error. -/
theorem neverRaises_ensureFulfillmentOpen (orderId : Id) :
    (ensureFulfillmentOpen orderId).NeverRaises Err.MissingProfile :=
  .bind .read fun _ => .bind (.raiseIf _ (not_missingProfile (by simp))) fun _ =>
    .bind .read fun _ =>
    .bind (neverRaises_scalarOneOrNone _) fun _ => .raiseIf _ (not_missingProfile (by simp))

/-- The start of a delivery needs no profile. -/
theorem neverRaises_startDelivery (order : Order) (delivery : Option Delivery) :
    (startDelivery env caller order delivery).NeverRaises Err.MissingProfile := by
  cases delivery with
  | none =>
    exact .bind .read fun _ => .bind (neverRaises_scalarOneOrNone _) fun _ =>
      .bind (.getOrRaise _ (not_missingProfile (by simp))) fun _ =>
        .bind (.raiseIf _ (not_missingProfile (by simp)))
      fun _ => .bind (.raiseIf _ (not_missingProfile (by simp))) fun _ =>
      neverRaises_insertRow ofLookups_missingProfile
  | some d =>
    exact .bind (.raiseIf _ (not_missingProfile (by simp))) fun _ =>
      .bind (.raiseIf _ (not_missingProfile (by simp)))
      fun _ => .bind (.raiseIf _ (not_missingProfile (by simp))) fun _ => .updateRow _ _

/-- A missing order is another error. -/
theorem neverRaises_getOrderOr404 (orderId : Id) :
    (getOrderOr404 orderId).NeverRaises Err.MissingProfile :=
  .bind .read fun _ => .bind (.getOrRaise _ (not_missingProfile (by simp))) fun _ =>
    .bind (.raiseIf _ (not_missingProfile (by simp))) fun _ => .pure _

/-- A driver who accepts needs no profile. -/
theorem neverRaises_accept (order : Order) :
    (DeliveryFlow.accept sha256 env caller order).NeverRaises Err.MissingProfile := by
  have hinsert : ∀ {key taken name put},
      (insertRow key taken name put).NeverRaises Err.MissingProfile :=
    neverRaises_insertRow ofLookups_missingProfile
  refine .bind .read fun db => .bind (.updateRow _ _) fun _ => .bind ?_ fun _ =>
    .bind hinsert fun _ => .pure _
  cases db.deliveries.get order.id with
  | none => exact hinsert
  | some d => exact .updateRow _ _

/-- Messages are archived without a look at the seller. -/
theorem neverRaises_archiveMessages (now : Time) (ms : List OrderMessage) :
    (archiveMessages now ms).NeverRaises Err.MissingProfile := by
  induction ms with
  | nil => exact .pure _
  | cons m ms ih => exact .bind (.updateRow _ _) fun _ => ih

/-- A wrong code is another error. -/
theorem not_missingProfile_codeInvalid (message : String) (remaining : ℤ) :
    ¬(Err.deliveryCodeInvalid message remaining).MissingProfile := by
  simp [Err.MissingProfile, Err.deliveryCodeInvalid, Err.sellerProfileMissing,
    Err.authorizationError]

/-- `complete_delivery` needs no profile. -/
theorem neverRaises_completeDelivery (orderId : Id) (submitted : String) :
    (DeliveryFlow.completeDelivery sha256 env caller orderId submitted).NeverRaises
      Err.MissingProfile := by
  have hinsert : ∀ {key taken name put},
      (insertRow key taken name put).NeverRaises Err.MissingProfile :=
    neverRaises_insertRow ofLookups_missingProfile
  refine .bind (.raiseIf _ (not_missingProfile (by simp))) fun _ =>
    .bind (neverRaises_getOrderOr404 _)
    fun order => .bind .read fun db => .bind (.getOrRaise _ (not_missingProfile (by simp)))
      fun code => ?_
  cases DeliveryFlow.checkCode sha256 code submitted with
  | locked => exact .bind hinsert fun _ => .raise (not_missingProfile (by simp))
  | wrong =>
    exact .ite (.bind (.updateRow _ _) fun _ => .bind (.updateRow _ _) fun _ => .bind hinsert
        fun _ => .raise (not_missingProfile (by simp)))
      (.bind (.updateRow _ _) fun _ => .bind hinsert fun _ =>
        .raise (not_missingProfile_codeInvalid _ _))
  | right =>
    exact .bind .read fun _ => .bind (neverRaises_archiveMessages _ _) fun _ =>
      .bind (.updateRow _ _) fun _ => .bind (.updateRow _ _) fun _ => .bind hinsert fun _ => .pure _

/-- Who may chat depends on the order and its driver. -/
theorem neverRaises_chatRole (order : Order) (delivery : Option Delivery) :
    (DeliveryFlow.chatRole caller order delivery).NeverRaises Err.MissingProfile :=
  .ite (.raise (not_missingProfile (by simp)))
    (.ite (.pure _) (.ite (.pure _) (.raise (not_missingProfile (by simp)))))

/-- The administrator's choice of a driver needs no profile. -/
theorem neverRaises_patchDriver (orderId : Id) (driverId : Option Id) :
    (DeliveryTracking.patchDriver orderId driverId).NeverRaises Err.MissingProfile := by
  cases driverId with
  | none => exact .pure _
  | some driver =>
    exact .bind (.bind .read fun _ => .pure _) fun _ =>
      .bind (.raiseIf _ (not_missingProfile (by simp)))
      fun _ => .updateRow _ _

/-- No operation on orders misses the profile of a caller who has one. -/
theorem orderExec_avoids (op : Op) (hI : ∀ s, I s → s.HasProfile caller.id) :
    (op.exec sha256 env caller).Avoids L I Err.MissingProfile [] id := by
  by_cases hop : op.ofOrderService = true
  · exact exec_avoids_of_lookups hop ofLookups_missingProfile (fun _ => avoids_profile hI)
      (fun o facts => neverRaises_ensureFulfillmentOpen o L I facts id)
      fun x delivery facts => neverRaises_startDelivery x delivery L I facts id
  · -- the delivery flow and the administrator's patch look no profile up
    have hinsert : ∀ {key taken name put},
        (insertRow key taken name put).NeverRaises Err.MissingProfile :=
      neverRaises_insertRow ofLookups_missingProfile
    suffices hnever : (op.exec sha256 env caller).NeverRaises Err.MissingProfile from
      hnever L I [] id
    cases op with
    | driverAccept o =>
      refine .bind (.bind (.raiseIf _ (not_missingProfile (by simp))) fun _ =>
        .bind (neverRaises_getOrderOr404 _) fun order => .bind .read fun db => ?_) fun _ => .pure _
      split
      · exact .pure _
      · exact neverRaises_accept order
    | recordLocation o lat lng =>
      refine .bind (.bind (.raiseIf _ (not_missingProfile (by simp))) fun _ =>
        .bind (neverRaises_getOrderOr404 _) fun order => .bind hinsert fun _ =>
        .bind .read fun db => ?_) fun _ => .pure _
      exact .ite (.bind (.updateRow _ _) fun _ => .pure _) (.pure _)
    | getRoute o =>
      exact .bind (.bind (.raiseIf _ (not_missingProfile (by simp))) fun _ =>
        .bind (neverRaises_getOrderOr404 _) fun order => .pure _) fun _ => .pure _
    | completeDelivery o submitted =>
      exact .bind (neverRaises_completeDelivery o submitted) fun _ => .pure _
    | postOrderMessage o ciphertext nonce =>
      exact .bind (.bind (neverRaises_getOrderOr404 _) fun _ =>
        .bind (.raiseIf _ (not_missingProfile (by simp))) fun _ =>
          .bind (.raiseIf _ (not_missingProfile (by simp)))
        fun _ => .bind .read fun _ => .bind (neverRaises_chatRole _ _) fun _ => .bind hinsert
        fun _ => .pure _) fun _ => .pure _
    | adminPatchDelivery o driver distance duration =>
      exact .bind (.bind (.raiseIf _ (not_missingProfile (by simp))) fun _ =>
        .bind (.bind .read fun _ => .pure _) fun _ =>
          .bind (.getOrRaise _ (not_missingProfile (by simp)))
        fun _ => .bind (neverRaises_selectForUpdate _ _) fun _ =>
        .bind (.raiseIf _ (not_missingProfile (by simp))) fun _ =>
          .bind (neverRaises_patchDriver _ _)
        fun _ => .bind (.updateRow _ _) fun _ => .bind .read fun _ => .pure _) fun _ => .pure _
    | _ => exact absurd rfl hop

/-! ### Referrals -/

variable {env : AuthEnv}

/-- A taken key is another error. -/
theorem neverRaises_reserve (key : Key) (taken : Db → Bool) (constraint : String) :
    (reserve key taken constraint).NeverRaises Err.MissingProfile :=
  .bind (.acquire key) fun _ => .raiseIf _ nofun

/-- The insertion of a link fails for its keys only. -/
theorem neverRaises_insertLink (l : InviteLink) :
    (insertLink l).NeverRaises Err.MissingProfile := by
  refine .bind (neverRaises_reserve _ _ _) fun _ => .bind (neverRaises_reserve _ _ _) fun _ =>
    .bind ?_ fun _ => .modify _
  unfold reserveReferral
  split
  · exact neverRaises_reserve _ _ _
  · exact .pure _

/-- Revocations of links never fail. -/
theorem neverRaises_revokeLinks (now : Time) (ls : List InviteLink) :
    (revokeLinks now ls).NeverRaises Err.MissingProfile := by
  induction ls with
  | nil => exact .pure _
  | cons l ls ih => exact .bind (.updateRow _ _) fun _ => ih

/-- With a profile, what follows the lookup of a referral operation goes on. -/
theorem avoids_referral {f : Unit → Tx α} {e : Err} {sellerUser : User}
    (hI : ∀ s, I s → s.HasProfile sellerUser.id)
    (hf : ∀ u, (f u).NeverRaises Err.MissingProfile) :
    (findSeller sellerUser.id >>= fun seller => raiseIf (seller = none) e >>= f).Avoids L I
      Err.MissingProfile facts id := by
  refine avoids_findSeller hI fun seller => ?_
  rw [raiseIf_of_not (by simp)]
  exact hf ()

/-- `get_or_create_seller_referral`, by a seller with a profile. -/
theorem getOrCreate_avoids {sellerUser : User} (hI : ∀ s, I s → s.HasProfile sellerUser.id) :
    (getOrCreateSellerReferral env sellerUser).Avoids L I Err.MissingProfile facts id := by
  refine .checked (not_missingProfile (by simp)) (avoids_referral hI fun _ => .bind .read fun db =>
    .bind (neverRaises_scalarOneOrNone _) fun existing => ?_)
  cases existing with
  | none => exact .bind (neverRaises_insertLink _) fun _ => .pure _
  | some l => exact .pure _

/-- `regenerate_seller_referral`. -/
theorem regenerate_avoids {sellerUser : User} (hI : ∀ s, I s → s.HasProfile sellerUser.id) :
    (regenerateSellerReferral env sellerUser).Avoids L I Err.MissingProfile facts id :=
  .checked (not_missingProfile (by simp)) (avoids_referral hI fun _ => .bind .read fun _ =>
    .bind (neverRaises_revokeLinks _ _) fun _ => .bind (neverRaises_insertLink _) fun _ => .pure _)

/-- `revoke_invite` needs no profile. -/
theorem neverRaises_revokeInvite (user : User) (inviteId : Id) :
    (revokeInvite env user inviteId).NeverRaises Err.MissingProfile := by
  refine .bind .read fun _ => .bind (.getOrRaise _ (not_missingProfile (by simp))) fun _ =>
    .bind (.raiseIf _ (not_missingProfile (by simp))) fun _ => .bind ?_ fun _ => .updateRow _ _
  unfold ensureMayRevoke
  cases user.role with
  | admin => exact .pure _
  | seller => exact .raiseIf _ (not_missingProfile (by simp))
  | customer => exact .raise (not_missingProfile (by simp))
  | driver => exact .raise (not_missingProfile (by simp))

/-! ### Every operation of a seller -/

/-- Every operation of a seller finds the profile, if there is one. -/
theorem sellerOperation_avoids {q : AppRequest} (hq : q.sellerCaller = some caller)
    (hI : ∀ s, I s → s.HasProfile caller.id) :
    (q.exec sec lower).Avoids L I Err.MissingProfile [] id := by
  cases q with
  | service c =>
    cases c with
    | call q =>
      obtain rfl : q.caller = caller := Option.some.inj hq
      exact NeverRaises.after (fun _ => .pure _)
        (NeverRaises.after (fun _ => .pure _) (orderExec_avoids q.op hI))
    | report r env => cases hq
    | view user o => cases hq
  | auth q =>
    obtain ⟨op, env⟩ := q
    refine NeverRaises.after (fun _ => .pure _) ?_
    cases op with
    | getOrCreateSellerReferral user =>
      obtain rfl : user = caller := Option.some.inj hq
      exact NeverRaises.after (fun _ => .pure _) (getOrCreate_avoids hI)
    | regenerateSellerReferral user =>
      obtain rfl : user = caller := Option.some.inj hq
      exact NeverRaises.after (fun _ => .pure _) (regenerate_avoids hI)
    | revokeInvite user id =>
      exact NeverRaises.after (fun _ => .pure _) (neverRaises_revokeInvite user id L I [] _)
    | _ => cases hq
  | catalog q =>
    obtain rfl : q.caller = caller := Option.some.inj hq
    exact NeverRaises.after (fun _ => .pure _) (catalogExec_avoids q.op hI)
  | messaging q => cases hq
  | keys q => cases hq

end Operations


section Main

variable {ι : Type} [DecidableEq ι] {requests : ι → AppRequest} {db : Db}

/-- **Sellers have profiles.** In every interleaving in which no signup that makes a seller
commits, every seller has a profile, and no operation of a seller has failed for want of one. -/
theorem sellers_have_profiles (sec : Security) (lower : String → String) (hdb : db.Profiled)
    {s : Sys ι Db Key Err AppReply} (hs : Sys.StepsIf (NoSellerMade requests)
      (Sys.init db fun i => (requests i).exec sec lower) s) :
    s.db.Profiled ∧ ∀ i caller e, (requests i).sellerCaller = some caller →
      s.db.SellerUser caller.id → s.txn i = .aborted (some e) → ¬e.MissingProfile := by
  have hkept : SellersKept db s.db := sellersKept_of_run hs
  refine ⟨fun id hid => hkept.profiles id (hdb id (hkept.sellers id hid)), ?_⟩
  intro i caller e hcaller hseller hi hmissing
  -- the sellers of the run are those it began with, whose profiles every commit keeps
  have hsafe : ∀ i, ((requests i).exec sec lower).Safe linkLocking
      (fun t => ∀ id, db.SellerUser id → t.HasProfile id)
      fun _ s t => ProfileEffect (requests i) s t := fun i =>
    (appExec_profiles (requests i)).keep fun _ s t heffect hall id hid =>
      heffect.profiles id (hall id hid)
  have havoids : ∀ i, ((requests i).exec sec lower).Avoids linkLocking
      (fun t => ∀ id, db.SellerUser id → t.HasProfile id)
      (fun e => (∃ caller, (requests i).sellerCaller = some caller ∧ db.SellerUser caller.id) ∧
        e.MissingProfile) [] id := fun i =>
    avoids_of_imp fun e he => by
      obtain ⟨⟨caller, hcaller, hseller⟩, hmissing⟩ := he
      exact ⟨hmissing, sellerOperation_avoids hcaller fun t ht => ht caller.id hseller⟩
  have hstart : ∀ id, db.SellerUser id → db.HasProfile id := hdb
  exact hs.steps.avoids hstart hsafe havoids hi
    ⟨⟨caller, hcaller, hkept.sellers caller.id hseller⟩, hmissing⟩

end Main

/-! ### Two ways of becoming a seller -/

namespace Sample

/-- An administrator's invite of a seller. -/
def adminInvite : InviteLink :=
  { id := 100, issuerId := 5, type := .adminInvite, token := "admin-invite",
    roleTarget := some .seller, maxUses := some 1, usedCount := 0, expiresAt := some 1000 }

/-- The referral of a seller. -/
def sellerReferral : InviteLink :=
  { id := 101, issuerId := 2, type := .sellerReferral, token := "seller-referral",
    roleTarget := none, maxUses := none, usedCount := 0, expiresAt := none }

/-- An administrator, a seller with a profile, and an invite by each. -/
def invited : Db :=
  { users := ((∅ : Table User User.id).insert admin).insert seller
    sellers := (∅ : Table Seller Seller.id).insert { id := 2, userId := 2 }
    inviteLinks := ((∅ : Table InviteLink InviteLink.id).insert adminInvite).insert sellerReferral }

/-- The account that the first signup makes. -/
def joined : User := { id := 10, email := "x@example.com", role := .seller }

def opening : Env :=
  { now := fun _ => 3, transactionNow := 3, uuid4 := fun i => 30 + i, randbelow := 0 }

/-- The signup by the administrator's invite. -/
def firstSignup : SignupRequest :=
  { email := "x@example.com", password := "secret", displayName := "X",
    inviteToken := "admin-invite" }

/-- The signup by the seller's referral. -/
def secondSignup : SignupRequest :=
  { email := "y@example.com", password := "secret", displayName := "Y",
    inviteToken := "seller-referral", roleChoice := some "seller" }

/-- Two people sign up as sellers, one by each invite, and the first opens a store. -/
def joining : Fin 3 → AppRequest
  | 0 => .auth (authRequest 1 (.signup firstSignup))
  | 1 => .auth (authRequest 2 (.signup secondSignup))
  | 2 => .catalog { caller := joined, op := .createStore "X" "Z" none none true, env := opening }

/-- What the two signups leave. -/
def signups : Db :=
  (((joining 1).exec security id).session (((joining 0).exec security id).session invited).2).2

/-- A customer signs up by the referral of the seller who was there before, who asks for that
referral and opens a store. -/
def referring : Fin 3 → AppRequest
  | 0 => .auth (authRequest 2 (.signup { secondSignup with roleChoice := some "customer" }))
  | 1 => .auth (authRequest 4 (.getOrCreateSellerReferral seller))
  | 2 => .catalog { caller := seller, op := .createStore "Y" "Z" none none true, env := opening }

/-- The seller who was there before has a profile. -/
theorem invited_profiled : invited.Profiled := by
  rintro id ⟨u, hu, hrole⟩
  have hid : u.id = id := Table.key_of_get hu
  rcases Table.get_of_insert hu with rfl | hu
  · subst hid
    exact ⟨{ id := 2, userId := 2 }, by decide, rfl, rfl⟩
  · rcases Table.get_of_insert hu with rfl | hu
    · cases hrole
    · simp at hu

end Sample

/-- A customer signs up by the seller's referral, and the seller asks for the referral and opens a
store. -/
theorem sellers_have_profiles_referral :
    ∃ s, Sys.StepsIf (NoSellerMade Sample.referring)
        (Sys.init Sample.invited fun i => (Sample.referring i).exec Sample.security id) s ∧
      s.log.map Prod.fst = [0, 1, 2] ∧ s.db.Profiled := by
  obtain ⟨r, hrun⟩ := run_of_session (p := (Sample.referring 0).exec Sample.security id)
    (s := Sample.invited) (by decide +kernel)
  obtain ⟨s, hs⟩ := Sys.runsTo_of_run (s := Sys.init Sample.invited fun i =>
    (Sample.referring i).exec Sample.security id) (i := 0) rfl (fun _ => .inl rfl) hrun
  -- the referral of the seller makes whom it is told to make
  have hcustomer : ¬(Sample.referring 0).MakesSeller Sample.invited := by
    rintro ⟨req, env, hreq, l, hl, htoken, hrole⟩
    cases hreq
    have hnone : ∀ l ∈ Sample.invited.inviteLinks.rows, l.token = "seller-referral" →
        signupRole l (some "customer") ≠ some .seller := by decide +kernel
    exact hnone l hl htoken hrole
  have hsigned : Sys.StepsIf (NoSellerMade Sample.referring)
      (Sys.init Sample.invited fun i => (Sample.referring i).exec Sample.security id) s :=
    (Sys.StepsIf.refl _).alone (fun v _ _ hv _ _ => hv ▸ hcustomer) hs.alone
  have hserial : (Sys.serial (fun i => (Sample.referring i).exec Sample.security id) s.db
      [1, 2]).isSome = true := by
    rw [hs.db]
    decide +kernel
  obtain ⟨db, hdb⟩ := Option.isSome_iff_exists.mp hserial
  have hidle : ∀ i, Sys.Idle (fun i => (Sample.referring i).exec Sample.security id) s i := by
    intro i
    match i with
    | 0 => exact .inr ⟨_, hs.committed⟩
    | 1 => exact .inl (hs.other 1 (by decide))
    | 2 => exact .inl (hs.other 2 (by decide))
  have hlater : ∀ i, i ∈ [1, 2] →
      s.txn i = .running id ((Sample.referring i).exec Sample.security id) :=
    fun i hi => hs.other i (by rintro rfl; simp at hi)
  have hnone : ∀ (v : Sys (Fin 3) Db Key Err AppReply) i v', i ∈ [1, 2] →
      (∀ j, j ≠ i → Sys.Idle (fun i => (Sample.referring i).exec Sample.security id) v j) →
      NoSellerMade Sample.referring v i v' := by
    rintro v i v' hi - reply - ⟨req, env, hreq, -⟩
    match i with
    | 0 => simp at hi
    | 1 => cases hreq
    | 2 => cases hreq
  obtain ⟨t, ht, -, hlog⟩ := Sys.stepsIf_of_serial hnone (by decide) hs.owner hlater hidle hdb
  have hsteps := hsigned.trans ht
  refine ⟨t, hsteps, ?_,
    (sellers_have_profiles Sample.security id Sample.invited_profiled hsteps).1⟩
  rw [hlog, hs.log]
  rfl

/-- Both signups make a seller without a profile, whose store is refused. -/
theorem seller_without_profile :
    Sample.invited.Profiled ∧ ∃ s,
      Sys.Steps (Sys.init Sample.invited fun i => (Sample.joining i).exec Sample.security id) s ∧
      (∀ id ∈ [10, 20], s.db.SellerUser id ∧ ¬s.db.HasProfile id) ∧
      (Sample.joining 2).sellerCaller = some Sample.joined ∧
      s.txn 2 = .aborted (some Err.sellerProfileMissing) := by
  refine ⟨Sample.invited_profiled, ?_⟩
  obtain ⟨r₁, hrun₁⟩ := run_of_session (p := (Sample.joining 0).exec Sample.security id)
    (s := Sample.invited) (by decide +kernel)
  obtain ⟨s₁, h₁⟩ := Sys.runsTo_of_run (s := Sys.init Sample.invited fun i =>
    (Sample.joining i).exec Sample.security id) (i := 0) rfl (fun _ => .inl rfl) hrun₁
  obtain ⟨r₂, hrun₂⟩ := run_of_session (p := (Sample.joining 1).exec Sample.security id)
    (s := s₁.db) (by rw [h₁.db]; decide +kernel)
  obtain ⟨s₂, h₂⟩ := Sys.runsTo_of_run (i := 1) (h₁.other 1 (by decide))
    (fun key => .inl (h₁.owner key)) hrun₂
  have hdb : s₂.db = Sample.signups := by
    rw [h₂.db, h₁.db]
    rfl
  have hrun₃ : ((Sample.joining 2).exec Sample.security id).run (id s₂.db) =
      .error Err.sellerProfileMissing := by
    rw [hdb]
    exact run_of_session_error rfl
  obtain ⟨s₃, h₃, habort, hdb₃, -⟩ := Sys.raises_of_run (i := 2)
    ((h₂.other 2 (by decide)).trans (h₁.other 2 (by decide))) (fun key => .inl (h₂.owner key)) hrun₃
  refine ⟨s₃, (h₁.steps.trans h₂.steps).trans h₃, fun id hid => ?_, rfl, habort⟩
  rw [hdb₃, hdb]
  have hrole : (Sample.signups.users.get id).map User.role = some .seller := by
    revert id
    decide +kernel
  have hnone : Sample.signups.sellers.get id = none := by
    revert id
    decide +kernel
  obtain ⟨u, hu, hseller⟩ := Option.map_eq_some_iff.mp hrole
  refine ⟨⟨u, hu, hseller⟩, ?_⟩
  rintro ⟨x, hx, -⟩
  rw [hnone] at hx
  cases hx

end Marketplace
