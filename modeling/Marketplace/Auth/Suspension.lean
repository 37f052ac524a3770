import Marketplace.Auth.Frames
import Marketplace.Lib.Run

/-!
# Who is let in while restricted

An account can be suspended, inactive or disabled. Four places look at these flags before
they issue or accept a token: `login`, `refresh`, `get_current_user` and the authentication
of a WebSocket. Only `get_current_user` looks at all three of them.
-/

namespace Marketplace

open Lib Txn AuthService

/-! ### Restrictions -/

/-- What can be wrong with an account. -/
inductive Restriction
  | suspended | inactive | disabled
deriving DecidableEq, Repr

namespace Restriction

/-- The restriction is in force for the account. -/
def On (c : Restriction) (u : User) : Prop :=
  match c with
  | suspended => u.status = .suspended
  | inactive => u.isActive = false
  | disabled => u.disabledAt ≠ none

instance (c : Restriction) (u : User) : Decidable (c.On u) := by
  cases c
  · exact inferInstanceAs (Decidable (u.status = .suspended))
  · exact inferInstanceAs (Decidable (u.isActive = false))
  · exact inferInstanceAs (Decidable (u.disabledAt ≠ none))

/-- It is the only one. -/
def OnlyOn (c : Restriction) (u : User) : Prop := c.On u ∧ ∀ c' : Restriction, c' ≠ c → ¬c'.On u

/-- A user with no restriction but this one, and not this one, is free. -/
theorem free_of_not_onlyOn {c : Restriction} {u : User} (hnot : ¬c.OnlyOn u)
    (hothers : ∀ c' : Restriction, c' ≠ c → ¬c'.On u) (c' : Restriction) : ¬c'.On u := by
  by_cases hc : c' = c
  · subst hc
    exact fun hon => hnot ⟨hon, hothers⟩
  · exact hothers c' hc

end Restriction

/-- The row of the user is there, and restricted. -/
def Db.Restricted (db : Db) (c : Restriction) (userId : Id) : Prop :=
  ∃ u, db.users.get userId = some u ∧ c.On u

/-! ### Runs -/

/-- A request in a session of its own, or a change of a flag that no service makes. -/
inductive AccessEvent
  | request (q : AuthRequest)
  | setActive (userId : Id) (isActive : Bool)
  | setDisabledAt (userId : Id) (disabledAt : Option Time)

namespace User

def setActive (isActive : Bool) (u : User) : User := { u with isActive }

def setDisabledAt (disabledAt : Option Time) (u : User) : User := { u with disabledAt }

end User

namespace AccessEvent

variable (sec : Security)

/-- The committed database after the event. -/
def serve (db : Db) : AccessEvent → Db
  | request q => ((q.exec sec).session db).2
  | setActive userId isActive => db.modifyUser userId (User.setActive isActive)
  | setDisabledAt userId disabledAt => db.modifyUser userId (User.setDisabledAt disabledAt)

/-- The event restricts the user. -/
def Imposes (c : Restriction) (userId : Id) : AccessEvent → Prop
  | request q => c = .suspended ∧ ∃ reason, q.op = .suspendUser userId reason
  | setActive id isActive => c = .inactive ∧ id = userId ∧ isActive = false
  | setDisabledAt id disabledAt => c = .disabled ∧ id = userId ∧ disabledAt ≠ none

/-- The event lifts the restriction of the user. -/
def Lifts (c : Restriction) (userId : Id) : AccessEvent → Prop
  | request q => c = .suspended ∧ q.op = .unsuspendUser userId
  | setActive id isActive => c = .inactive ∧ id = userId ∧ isActive = true
  | setDisabledAt id disabledAt => c = .disabled ∧ id = userId ∧ disabledAt = none

/-- The places that look at two of the flags do not meet a user who is restricted by the third
one only: `login` with the right password, `refresh` with a token, a WebSocket with a token. -/
def FlagsTested (db : Db) : AccessEvent → Prop
  | request q =>
    match q.op with
    | .login email password _ => ∀ u ∈ db.users.rows, sec.fold u.email = sec.fold email →
        u.deletedAt = none → sec.verifyPassword password u.passwordHash = true →
        ¬Restriction.disabled.OnlyOn u
    | .refresh plaintext => ∀ row u,
        db.refreshTokens.get (hashRefreshToken sec plaintext) = some row → row.revokedAt = none →
        db.users.get row.userId = some u → ¬Restriction.suspended.OnlyOn u
    | .authenticate token => ∀ t payload u, token = some t →
        sec.decode (q.env.now 0) t = .ok payload → db.users.get payload.sub = some u →
        ¬Restriction.suspended.OnlyOn u
    | _ => True
  | _ => True

end AccessEvent

/-- The request gives the user tokens, or accepts one. -/
def AuthRequest.LetsIn (sec : Security) (q : AuthRequest) (db : Db) (reply : AuthReply)
    (userId : Id) : Prop :=
  match q.op, reply with
  | .login .., .session r => r.user.id = userId
  | .refresh plaintext, .refreshed (.rotated _) =>
    ∃ row, db.refreshTokens.get (hashRefreshToken sec plaintext) = some row ∧ row.userId = userId
  | .getCurrentUser _, .user u => u.id = userId
  | .authenticate _, .socket (some u) => u.id = userId
  | _, _ => False

/-- From the commit of a restriction until it is lifted, no request lets the user in. -/
def SuspensionEffective (sec : Security) (db : Db) (events : List AccessEvent) : Prop :=
  ∀ before e between q rest c userId,
    events = before ++ e :: (between ++ .request q :: rest) → e.Imposes c userId →
    (after (AccessEvent.serve sec) db (before ++ [e])).Restricted c userId →
    (∀ e' ∈ between, ¬e'.Lifts c userId) →
    ∀ reply, ((q.exec sec).session (after (AccessEvent.serve sec) db (before ++ e :: between))).1
        = .ok reply →
      ¬q.LetsIn sec (after (AccessEvent.serve sec) db (before ++ e :: between)) reply userId

/-! ### What is tested where -/

section Tests

variable {sec : Security} {env : AuthEnv} {db db' : Db}

/-- Whom `login` lets in. -/
theorem login_ok {email password : String} {deviceLabel : Option String} {r : LoginResponse}
    (h : (login sec env email password deviceLabel).run db = .ok (r, db')) :
    ∃ u, db.users.get r.user.id = some u ∧ sec.fold u.email = sec.fold email ∧
      u.deletedAt = none ∧ sec.verifyPassword password u.passwordHash = true ∧
      u.isActive = true ∧ u.status ≠ .suspended := by
  simp only [login, bind_eq, run_bind_ok, run_read_ok, run_scalarOneOrNone_ok, run_getOrRaise_ok,
    run_raiseIf_ok, pure_eq, run_ret_ok] at h
  obtain ⟨_, _, ⟨rfl, rfl⟩, found, _, ⟨hrows, rfl⟩, u, _, ⟨hfound, rfl⟩, _, _, ⟨hactive, rfl⟩, _, _,
    ⟨hstatus, rfl⟩, _, _, -, _, _, -, rfl, -⟩ := h
  obtain ⟨rfl, hpassword⟩ := Option.filter_eq_some_iff.mp hfound
  have hu : u ∈ db.users.rows.filter fun u => sec.fold u.email = sec.fold email ∧
      u.deletedAt = none := by
    rw [hrows]
    exact List.mem_singleton.mpr rfl
  obtain ⟨hrow, htests⟩ := List.mem_filter.mp hu
  obtain ⟨hemail, hlive⟩ := of_decide_eq_true htests
  exact ⟨u, Table.mem_rows_iff.mp hrow, hemail, hlive, hpassword,
    Bool.of_not_eq_false hactive, hstatus⟩

/-- Whom `refresh` gives new tokens. -/
theorem refresh_ok {plaintext : String} {r : RefreshResponse}
    (h : (refresh sec env plaintext).run db = .ok (.rotated r, db')) :
    ∃ row u, db.refreshTokens.get (hashRefreshToken sec plaintext) = some row ∧
      row.revokedAt = none ∧ db.users.get row.userId = some u ∧ u.isActive = true ∧
      u.disabledAt = none := by
  simp only [refresh, selectTokenForUpdate, bind_eq, run_bind_ok, run_selectForUpdate_ok,
    run_getOrRaise_ok, run_ite_ok] at h
  obtain ⟨_, _, ⟨rfl, rfl⟩, row, _, ⟨hrow, rfl⟩, ⟨-, h⟩ | ⟨hrevoked, h⟩⟩ := h
  · simp only [reuseDetected, bind_eq, run_bind_ok, run_read_ok, pure_eq, run_ret_ok] at h
    obtain ⟨_, _, -, _, _, -, hr, -⟩ := h
    cases hr
  · simp only [rotate, bind_eq, run_bind_ok, run_raiseIf_ok, run_read_ok, run_getOrRaise_ok] at h
    obtain ⟨_, _, ⟨-, rfl⟩, _, _, ⟨rfl, rfl⟩, u, _, ⟨hu, rfl⟩, _, _, ⟨hflags, -⟩, -⟩ := h
    obtain ⟨hget, -⟩ := Option.filter_eq_some_iff.mp hu
    rw [not_or, not_not] at hflags
    exact ⟨row, u, hrow, not_not.mp hrevoked, hget, Bool.of_not_eq_false hflags.1, hflags.2⟩

/-- Decoding the bearer token writes nothing. -/
theorem decodeBearer_ok {now : Time} {credentials : String} {payload : AccessTokenPayload}
    (h : (Deps.decodeBearer sec now credentials).run db = .ok (payload, db')) : db = db' := by
  unfold Deps.decodeBearer at h
  split at h
  · exact (run_ret_ok.mp h).2
  · simp at h
  · simp at h

/-- Whom `get_current_user` takes. -/
theorem getCurrentUser_ok {credentials : Option String} {u : User}
    (h : (Deps.getCurrentUser sec env credentials).run db = .ok (u, db')) :
    db.users.get u.id = some u ∧ ∀ c : Restriction, ¬c.On u := by
  simp only [Deps.getCurrentUser, bind_eq, run_bind_ok, run_getOrRaise_ok, run_read_ok,
    run_raiseIf_ok, pure_eq, run_ret_ok] at h
  obtain ⟨_, _, ⟨-, rfl⟩, payload, t, hdecode, _, _, ⟨rfl, rfl⟩, v, _, ⟨hv, rfl⟩, _, _,
    ⟨hflags, rfl⟩,
    _, _, ⟨hstatus, rfl⟩, rfl, rfl⟩ := h
  obtain rfl := decodeBearer_ok hdecode
  obtain ⟨hget, -⟩ := Option.filter_eq_some_iff.mp hv
  rw [← Table.key_of_get hget] at hget
  refine ⟨hget, fun c hc => ?_⟩
  rw [not_or, not_not] at hflags
  cases c with
  | suspended => exact hstatus hc
  | inactive => exact hflags.1 hc
  | disabled => exact hc hflags.2

/-- Whom a WebSocket takes. -/
theorem authenticate_ok {token : Option String} {u : User}
    (h : (Gateway.authenticate sec env token).run db = .ok (some u, db')) :
    ∃ t payload, token = some t ∧ sec.decode (env.now 0) t = .ok payload ∧ payload.sub = u.id ∧
      db.users.get u.id = some u ∧ u.isActive = true ∧ u.disabledAt = none := by
  unfold Gateway.authenticate at h
  split at h
  · simp at h
  · next t ht =>
    obtain ⟨rfl, -⟩ := Option.filter_eq_some_iff.mp ht
    split at h
    · simp at h
    · next payload hdecode =>
      simp only [bind_eq, run_bind_ok, run_read_ok, pure_eq, run_ret_ok] at h
      obtain ⟨_, _, ⟨rfl, rfl⟩, hu, -⟩ := h
      obtain ⟨hget, htests⟩ := Option.filter_eq_some_iff.mp hu
      obtain ⟨-, hactive, hdisabled⟩ := of_decide_eq_true htests
      have hid := Table.key_of_get hget
      rw [← hid] at hget
      exact ⟨t, payload, rfl, hdecode, hid.symm, hget, hactive, hdisabled⟩

/-- An active account that is not disabled is restricted by a suspension at most. -/
theorem free_but_suspended {u : User} (hnot : ¬Restriction.suspended.OnlyOn u)
    (hactive : u.isActive = true) (hdisabled : u.disabledAt = none) (c : Restriction) :
    ¬c.On u := by
  refine Restriction.free_of_not_onlyOn hnot (fun c hc => ?_) c
  cases c with
  | suspended => exact absurd rfl hc
  | inactive => exact fun hinactive => Bool.false_ne_true (hinactive.symm.trans hactive)
  | disabled => exact fun hon => hon hdisabled

/-- A request that lets somebody in has tested all the flags but one, or all of them. -/
theorem LetsIn.flags {q : AuthRequest} {reply : AuthReply} {userId : Id}
    (h : q.LetsIn sec db reply userId) (hrun : (q.exec sec).run db = .ok (reply, db'))
    (htested : (AccessEvent.request q).FlagsTested sec db) :
    ∃ u, db.users.get userId = some u ∧ ∀ c : Restriction, ¬c.On u := by
  obtain ⟨op, env⟩ := q
  cases op with
  | login email password label =>
    obtain ⟨r, t, hr, hret⟩ := run_bind_ok.mp hrun
    obtain ⟨rfl, -⟩ := run_ret_ok.mp hret
    obtain ⟨u, hget, hemail, hlive, hpassword, hactive, hstatus⟩ := login_ok hr
    obtain rfl : r.user.id = userId := h
    have hnot := htested u (Table.mem_rows_iff.mpr (Table.key_of_get hget ▸ hget)) hemail hlive
      hpassword
    refine ⟨u, hget, Restriction.free_of_not_onlyOn hnot fun c hc => ?_⟩
    cases c with
    | suspended => exact hstatus
    | inactive => exact fun hinactive => Bool.false_ne_true (hinactive.symm.trans hactive)
    | disabled => exact absurd rfl hc
  | refresh plaintext =>
    obtain ⟨r, t, hr, hret⟩ := run_bind_ok.mp hrun
    obtain ⟨rfl, -⟩ := run_ret_ok.mp hret
    cases r with
    | reused => exact h.elim
    | rotated r =>
      obtain ⟨row, u, hrow, hrevoked, hget, hactive, hdisabled⟩ := refresh_ok hr
      obtain ⟨row', hrow', rfl⟩ := h
      obtain rfl := Option.some.inj (hrow.symm.trans hrow')
      have hnot := htested row u hrow hrevoked hget
      exact ⟨u, hget, free_but_suspended hnot hactive hdisabled⟩
  | getCurrentUser credentials =>
    obtain ⟨u, t, hu, hret⟩ := run_bind_ok.mp hrun
    obtain ⟨rfl, -⟩ := run_ret_ok.mp hret
    obtain ⟨hget, hfree⟩ := getCurrentUser_ok hu
    obtain rfl : u.id = userId := h
    exact ⟨u, hget, hfree⟩
  | authenticate token =>
    obtain ⟨found, t, hu, hret⟩ := run_bind_ok.mp hrun
    obtain ⟨rfl, -⟩ := run_ret_ok.mp hret
    cases found with
    | none => exact h.elim
    | some u =>
      obtain ⟨t, payload, htoken, hdecode, hsub, hget, hactive, hdisabled⟩ := authenticate_ok hu
      obtain rfl : u.id = userId := h
      have hnot := htested t payload u htoken hdecode (hsub ▸ hget)
      exact ⟨u, hget, free_but_suspended hnot hactive hdisabled⟩
  | _ => simp [AuthRequest.LetsIn] at h

end Tests

/-! ### What keeps a restriction -/

section Keeps

variable {sec : Security} {db : Db} {c : Restriction} {userId : Id}

/-- A change of accounts that keeps the restriction. -/
def KeepsRestriction (c : Restriction) (f : User → User) : Prop :=
  (∀ u, (f u).id = u.id) ∧ ∀ u, c.On u → c.On (f u)

/-- An edit that keeps the restriction keeps the user restricted. -/
theorem Db.Restricted.modifyUser (h : db.Restricted c userId) (id : Id) {f : User → User}
    (hf : KeepsRestriction c f) : (db.modifyUser id f).Restricted c userId := by
  obtain ⟨u, hget, hu⟩ := h
  have hmodify := Table.get_modify db.users id hf.1 userId
  by_cases hid : userId = id
  · rw [if_pos hid, hget, Option.map_some] at hmodify
    exact ⟨f u, hmodify, hf.2 u hu⟩
  · rw [if_neg hid, hget] at hmodify
    exact ⟨u, hmodify, hu⟩

/-- An edit of another user keeps the user restricted. -/
theorem Db.Restricted.modifyUser_of_ne (h : db.Restricted c userId) {id : Id} {f : User → User}
    (hid : ∀ u, (f u).id = u.id) (hne : id ≠ userId) :
    (db.modifyUser id f).Restricted c userId := by
  obtain ⟨u, hget, hu⟩ := h
  have hmodify := Table.get_modify db.users id hid userId
  rw [if_neg hne.symm, hget] at hmodify
  exact ⟨u, hmodify, hu⟩

/-- No write of the auth service lifts the restriction. -/
theorem AuthWrite.restricted {key : Key} {f : Db → Db}
    (hf : AuthWrite (KeepsRestriction c) key f) (h : db.Restricted c userId) :
    (f db).Restricted c userId := by
  cases hf with
  | quiet hq =>
    cases hq with
    | account id g hg => exact h.modifyUser id hg
    | _ => exact h
  | addUser v =>
    obtain ⟨u, hget, hu⟩ := h
    refine ⟨u, ?_, hu⟩
    by_cases hid : userId = v.id
    · have hpresent : db.users.get v.id ≠ none := by
        rw [← hid, hget]
        exact Option.some_ne_none u
      exact (congrArg (fun t => t.get userId) (Table.insert_of_mem hpresent)).trans hget
    · exact (Table.get_insert_of_ne db.users hid).trans hget
  | _ => exact h

/-- An edit of the profile keeps every restriction. -/
theorem AccountEdit.keepsRestriction {f : User → User} (hf : AccountEdit f) :
    KeepsRestriction c f := by
  refine ⟨hf.id, fun u hu => ?_⟩
  cases c with
  | suspended => exact (hf.status u).trans hu
  | inactive => exact (hf.isActive u).trans hu
  | disabled => exact fun hnone => hu ((hf.disabledAt u).symm.trans hnone)

/-- What `unsuspend_user` writes. -/
theorem unsuspendUser_ok {env : AuthEnv} {id : Id} {reply : AuthReply} {db' : Db}
    (h : ((AuthOp.unsuspendUser id).exec sec env).run db = .ok (reply, db')) :
    ∃ f : User → User, (∀ u, (f u).id = u.id) ∧ db' = db.modifyUser id f := by
  simp only [AuthOp.exec, AdminService.unsuspendUser, AdminService.findUser, bind_eq, run_bind_ok,
    run_read_ok, run_getOrRaise_ok, updateUser, run_updateRow_ok, pure_eq, run_ret_ok] at h
  obtain ⟨_, _, ⟨u, _, ⟨_, _, ⟨rfl, rfl⟩, hu, rfl⟩, _, _, rfl, rfl, rfl⟩, -, rfl⟩ := h
  obtain ⟨hget, -⟩ := Option.filter_eq_some_iff.mp hu
  obtain rfl := Table.key_of_get hget
  exact ⟨User.unsuspend, fun _ => rfl, rfl⟩

/-- Only the event that lifts a restriction removes it. -/
theorem Db.Restricted.serve {e : AccessEvent} (h : db.Restricted c userId)
    (hlift : ¬e.Lifts c userId) : (e.serve sec db).Restricted c userId := by
  cases e with
  | setActive id isActive =>
    by_cases hid : id = userId
    · refine h.modifyUser id ⟨fun _ => rfl, fun u hu => ?_⟩
      cases c with
      | inactive => exact Bool.of_not_eq_true fun hactive => hlift ⟨rfl, hid, hactive⟩
      | _ => exact hu
    · exact h.modifyUser_of_ne (fun _ => rfl) hid
  | setDisabledAt id disabledAt =>
    by_cases hid : id = userId
    · refine h.modifyUser id ⟨fun _ => rfl, fun u hu => ?_⟩
      cases c with
      | disabled => exact fun hnone => hlift ⟨rfl, hid, hnone⟩
      | _ => exact hu
    · exact h.modifyUser_of_ne (fun _ => rfl) hid
  | request q =>
    change ((q.exec sec).session db).2.Restricted c userId
    cases hr : ((q.exec sec).session db).1 with
    | error err =>
      rw [session_error hr]
      exact h
    | ok reply =>
      have hrun := session_ok hr
      generalize ((q.exec sec).session db).2 = db' at hrun ⊢
      by_cases hop : c = .suspended ∧ ∃ id, q.op = .unsuspendUser id
      · obtain ⟨rfl, id, hop⟩ := hop
        have hne : id ≠ userId := by
          rintro rfl
          exact hlift ⟨rfl, hop⟩
        rw [AuthRequest.exec, hop] at hrun
        obtain ⟨f, hf, rfl⟩ := unsuspendUser_ok hrun
        exact h.modifyUser_of_ne hf hne
      · have hwrites : (q.exec sec).Writes (AuthWrite (KeepsRestriction c)) := by
          refine authExec_writes (fun f hf => hf.keepsRestriction) (fun _ _ _ now => ?_)
            fun id hid => ?_
          · refine ⟨fun _ => rfl, fun u hu => ?_⟩
            cases c with
            | suspended => rfl
            | _ => exact hu
          · refine ⟨fun _ => rfl, fun u hu => ?_⟩
            cases c with
            | suspended => exact absurd ⟨rfl, id, hid⟩ hop
            | _ => exact hu
        exact hwrites.run (R := fun s t => s.Restricted c userId → t.Restricted c userId)
          (fun _ hs => hs) (fun _ _ _ hst htu hs => htu (hst hs))
          (fun _ _ hf _ hs => hf.restricted hs) hrun h

end Keeps

/-- **Restrictions are effective.** In every run whose logins, refreshes and WebSockets do not meet
a user restricted only by the flag that they do not look at, no request lets a user in from the
commit of a restriction until it is lifted. -/
theorem suspension_effective (sec : Security) (db : Db) (events : List AccessEvent)
    (h : EachStep (AccessEvent.serve sec) (AccessEvent.FlagsTested sec) db events) :
    SuspensionEffective sec db events := by
  rintro before e between q rest c userId rfl - hcommitted hlift reply hreply hlets
  have hkept : (after (AccessEvent.serve sec) db (before ++ e :: between)).Restricted c userId := by
    have hsplit : before ++ e :: between = (before ++ [e]) ++ between := by simp
    rw [hsplit, after_append]
    generalize after (AccessEvent.serve sec) db (before ++ [e]) = db' at hcommitted
    clear hreply hlets h
    induction between generalizing db' with
    | nil => exact hcommitted
    | cons e' between ih =>
      exact ih (fun e'' he'' => hlift e'' (List.mem_cons_of_mem e' he'')) (by simp) _
        (hcommitted.serve (hlift e' List.mem_cons_self))
  have htested := (eachStep_iff.mp h) (before ++ e :: between) (.request q) rest (by simp)
  obtain ⟨u, hget, hfree⟩ := LetsIn.flags hlets (session_ok hreply) htested
  obtain ⟨u', hget', hon⟩ := hkept
  obtain rfl := Option.some.inj (hget.symm.trans hget')
  exact hfree c hon

namespace Sample

/-- The replies of a run to its requests. -/
def authReply (events : List AccessEvent) (q : AuthRequest) : Except Err AuthReply :=
  ((q.exec security).session (after (AccessEvent.serve security) accounts events)).1

def loggingIn : AuthRequest := authRequest 1 (.login "a@example.com" "secret" none)

def suspending : AuthRequest := authRequest 2 (.suspendUser 1 "fraud")

def refreshing : AuthRequest := authRequest 3 (.refresh "1")

def connecting : AuthRequest := authRequest 4 (.authenticate (some "jwt"))

/-- The customer logs in, is suspended and presents the access token. -/
def suspendedRun : List AccessEvent :=
  [.request loggingIn, .request suspending, .request (authRequest 3 (.getCurrentUser (some "jwt")))]

end Sample

/-- A suspended user presents an access token. -/
theorem suspension_effective_bearer :
    SuspensionEffective Sample.security Sample.accounts Sample.suspendedRun := by
  refine suspension_effective Sample.security Sample.accounts Sample.suspendedRun
    ⟨fun u hu _ _ _ hon => ?_, trivial, trivial, trivial⟩
  have hnone : ∀ u ∈ Sample.accounts.users.rows, u.disabledAt = none := by decide +kernel
  exact hon.1 (hnone u hu)

/-- A disabled user logs in; a suspended one refreshes a token, or opens a WebSocket. -/
theorem restricted_user_let_in :
    ¬SuspensionEffective Sample.security Sample.accounts
        [.setDisabledAt 1 (some 0), .request Sample.loggingIn] ∧
      ¬SuspensionEffective Sample.security Sample.accounts
        [.request Sample.loggingIn, .request Sample.suspending, .request Sample.refreshing] ∧
      ¬SuspensionEffective Sample.security Sample.accounts
        [.request Sample.suspending, .request Sample.connecting] := by
  refine ⟨fun h => ?_, fun h => ?_, fun h => ?_⟩
  · have hreply : Sample.authReply [.setDisabledAt 1 (some 0)] Sample.loggingIn =
        .ok (.session { user := { id := 1, email := "a@example.com", role := .customer,
                                  displayName := "" },
                        accessToken := "jwt", refreshToken := "1", expiresIn := 900 }) := by
      decide +kernel
    have hon : ∃ u ∈ (after (AccessEvent.serve Sample.security) Sample.accounts
        [.setDisabledAt 1 (some 0)]).users.get 1, Restriction.disabled.On u := by decide +kernel
    exact h [] (.setDisabledAt 1 (some 0)) [] Sample.loggingIn [] .disabled 1 rfl
      ⟨rfl, rfl, Option.some_ne_none 0⟩ hon (by simp) _ hreply rfl
  · have hreply : Sample.authReply [.request Sample.loggingIn, .request Sample.suspending]
        Sample.refreshing = .ok (.refreshed (.rotated
          { accessToken := "jwt", refreshToken := "3", expiresIn := 900 })) := by decide +kernel
    have hon : ∃ u ∈ (after (AccessEvent.serve Sample.security) Sample.accounts
        [.request Sample.loggingIn, .request Sample.suspending]).users.get 1,
        Restriction.suspended.On u := by decide +kernel
    have howner : ∃ row ∈ (after (AccessEvent.serve Sample.security) Sample.accounts
        [.request Sample.loggingIn, .request Sample.suspending]).refreshTokens.get "1",
        row.userId = 1 := by decide +kernel
    exact h [.request Sample.loggingIn] (.request Sample.suspending) [] Sample.refreshing []
      .suspended 1 rfl ⟨rfl, "fraud", rfl⟩ hon (by simp) _ hreply howner
  · have hreply : Sample.authReply [.request Sample.suspending] Sample.connecting =
        .ok (.socket (some (Sample.account.suspend 2 "fraud"))) := by decide +kernel
    have hon : ∃ u ∈ (after (AccessEvent.serve Sample.security) Sample.accounts
        [.request Sample.suspending]).users.get 1, Restriction.suspended.On u := by decide +kernel
    exact h [] (.request Sample.suspending) [] Sample.connecting [] .suspended 1 rfl
      ⟨rfl, "fraud", rfl⟩ hon (by simp) _ hreply rfl

end Marketplace
