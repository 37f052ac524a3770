import Marketplace.Lib.Since
import Marketplace.Auth.Rotation

/-!
# The revocation of all tokens of a user

`logout_all`, and `refresh` when a revoked token is presented, revoke the tokens of the user
that one `UPDATE` finds. A rotation that commits after the rows have been found leaves a
successor that is not among them. As long as that does not happen, no token of the user is
accepted once the revocation has been committed.
-/

namespace Marketplace

open Lib Txn AuthService

/-! ### Revocations and what they are for -/

/-- The token is there, belongs to the user and is not revoked. -/
def Db.ActiveFor (db : Db) (userId : Id) (tokenHash : String) : Prop :=
  ∃ row, db.refreshTokens.get tokenHash = some row ∧ row.userId = userId ∧ row.revokedAt = none

/-- `refresh`, `logout` or `logout_all`. -/
def AuthOp.OnTokens : AuthOp → Prop
  | .refresh _ => True
  | .logout _ => True
  | .logoutAll _ => True
  | _ => False

section

variable (sec : Security)

/-- A committed request has revoked the tokens of the user: `logout_all`, or a refresh that has
detected the reuse of one of them. -/
def AuthRequest.MassRevokes (q : AuthRequest) (r : AuthReply) (db : Db) (userId : Id) : Prop :=
  (∃ user, q.op = .logoutAll user ∧ user.id = userId) ∨
    ∃ plaintext, q.op = .refresh plaintext ∧ r = .refreshed .reused ∧
      db.TokenOf userId (hashRefreshToken sec plaintext)

/-- A committed request has been given a new token for one of the user. -/
def AuthRequest.Accepted (q : AuthRequest) (r : AuthReply) (db : Db) (userId : Id) : Prop :=
  ∃ h h', q.rotation sec r = some (h, h') ∧ db.TokenOf userId h

/-- A request revokes the tokens of the user, as the database stands: `logout_all`, or a refresh
with one of them that is revoked. -/
def AuthRequest.Revoking (q : AuthRequest) (db : Db) (userId : Id) : Prop :=
  (∃ user, q.op = .logoutAll user ∧ user.id = userId) ∨
    ∃ plaintext row, q.op = .refresh plaintext ∧
      db.refreshTokens.get (hashRefreshToken sec plaintext) = some row ∧ row.userId = userId ∧
      row.revokedAt ≠ none

variable {ι : Type} (calls : ι → AuthRequest)

/-- No token of a user is accepted after a commit that has revoked them all. -/
def RevocationComplete (s : Sys ι Db Key Err AuthReply) : Prop :=
  s.log.Pairwise fun e e' => ∀ u, (calls e.1).MassRevokes sec e.2 s.db u →
    ¬(calls e'.1).Accepted sec e'.2 s.db u

/-- No rotation of a token commits while a revocation of all tokens of its user has found their
rows and has not ended. -/
def NoneEscapes (s : Sys ι Db Key Err AuthReply) (i : ι) (_ : Sys ι Db Key Err AuthReply) : Prop :=
  s.AboutToCommit i → ∀ plaintext u, (calls i).op = .refresh plaintext →
    s.db.ActiveFor u (hashRefreshToken sec plaintext) →
    ∀ j, j ≠ i → s.HasSelected j → ¬(calls j).Revoking sec s.db u

end

/-! ### The bulk update -/

section Bulk

variable {now : Time} {ts : List RefreshToken} {s t : Db} {u : Id} {h : String}

/-- The database after the bulk update of the listed tokens. -/
def Db.revokeAll (db : Db) (now : Time) (ts : List RefreshToken) : Db :=
  ts.foldl (fun db t => db.modifyRefreshToken t.tokenHash (RefreshToken.revokeIfActive now)) db

/-- The tokens are revoked one after another. -/
theorem revokeAll_cons (db : Db) (t : RefreshToken) (ts : List RefreshToken) :
    db.revokeAll now (t :: ts) =
      (db.modifyRefreshToken t.tokenHash (RefreshToken.revokeIfActive now)).revokeAll now ts := rfl

/-- Revoking tokens keeps them. -/
theorem tokensKept_revokeAll (db : Db) : TokensKept db (db.revokeAll now ts) := by
  induction ts generalizing db with
  | nil => exact tokensKept_of_eq rfl
  | cons t ts ih =>
    rw [revokeAll_cons]
    exact (tokensKept_modify db t.tokenHash (tokenChange_revokeIfActive now)).trans (ih _)

/-- A bulk update brings no token. -/
theorem noNewToken_revokeAll (db : Db) : NoNewToken db (db.revokeAll now ts) := by
  induction ts generalizing db with
  | nil => exact fun h hnone => hnone
  | cons t ts ih =>
    rw [revokeAll_cons]
    exact fun h hnone => ih _ h (Table.get_update_eq_none.mpr hnone)

/-- A listed token is revoked, if it is there. -/
theorem tokenRevoked_revokeAll {db : Db} {t row : RefreshToken} (ht : t ∈ ts)
    (hrow : db.refreshTokens.get t.tokenHash = some row) :
    (db.revokeAll now ts).TokenRevoked t.tokenHash := by
  induction ts generalizing db row with
  | nil => cases ht
  | cons t' ts ih =>
    rw [revokeAll_cons]
    rcases List.mem_cons.mp ht with rfl | ht
    · have hrevoked : (db.modifyRefreshToken t.tokenHash
          (RefreshToken.revokeIfActive now)).TokenRevoked t.tokenHash := by
        refine ⟨row.revokeIfActive now,
          Table.get_modify_self (RefreshToken.revokeIfActive_tokenHash now) hrow, ?_⟩
        unfold RefreshToken.revokeIfActive
        split
        · exact Option.some_ne_none now
        · assumption
      exact (tokensKept_revokeAll _).revoked hrevoked
    · obtain ⟨row', hrow', -, -⟩ :=
        tokensKept_modify db t'.tokenHash (tokenChange_revokeIfActive now) _ row hrow
      exact ih ht hrow'

/-- A token that is active now was active before, if it was there. -/
theorem TokensKept.activeFor (hkept : TokensKept s t) (hs : s.refreshTokens.get h ≠ none)
    (ht : t.ActiveFor u h) : s.ActiveFor u h := by
  obtain ⟨row, hrow⟩ := Option.ne_none_iff_exists'.mp hs
  obtain ⟨row', hrow', huser, hrevoked⟩ := hkept h row hrow
  obtain ⟨row'', hrow'', huser', hactive⟩ := ht
  obtain rfl := Option.some.inj (hrow'.symm.trans hrow'')
  exact ⟨row, hrow, huser.symm.trans huser', not_not.mp fun hne => hrevoked hne hactive⟩

/-- A token that was there belongs to whom it belonged to. -/
theorem TokensKept.tokenOf_of_ne_none (hkept : TokensKept s t)
    (hs : s.refreshTokens.get h ≠ none) (h' : t.TokenOf u h) : s.TokenOf u h := by
  obtain ⟨row, hrow⟩ := Option.ne_none_iff_exists'.mp hs
  obtain ⟨row', hrow', huser, -⟩ := hkept h row hrow
  obtain ⟨row'', hrow'', huser'⟩ := h'
  obtain rfl := Option.some.inj (hrow'.symm.trans hrow'')
  exact ⟨row, hrow, huser.symm.trans huser'⟩

/-- The bulk update over the tokens that were active in `seen` leaves no active token, if no
other has become active since. -/
theorem revokeAll_complete {seen : Db} (hnew : ∀ h, s.ActiveFor u h → seen.ActiveFor u h) :
    ¬(s.revokeAll now (seen.activeTokens u)).ActiveFor u h := by
  intro hactive
  have hfound : s.refreshTokens.get h ≠ none := by
    intro hnone
    obtain ⟨row, hrow, -⟩ := hactive
    rw [noNewToken_revokeAll s h hnone] at hrow
    cases hrow
  have hs : s.ActiveFor u h := (tokensKept_revokeAll s).activeFor hfound hactive
  obtain ⟨t, ht, huser, hnone⟩ := hnew h hs
  obtain ⟨row, hrow, -⟩ := hs
  have hhash : t.tokenHash = h := Table.key_of_get ht
  have hmem : t ∈ seen.activeTokens u := by
    refine List.mem_filter.mpr ⟨Table.mem_rows_iff.mpr (by rw [hhash, ht]), ?_⟩
    simp [huser, hnone]
  subst hhash
  obtain ⟨row', hrow', -, hrow''⟩ := hactive
  exact (tokenRevoked_revokeAll hmem hrow).not_active ⟨row', hrow', hrow''⟩

end Bulk

/-! ### One request among the others -/

/-- The tokens that a commit brings, and the one whose reuse it detects. -/
structure NewTokens (sec : Security) (q : AuthRequest) (r : AuthReply) (s t : Db) : Prop where
  /-- A new token is the successor of another one of its user. -/
  created : ∀ k row, s.refreshTokens.get k = none → t.refreshTokens.get k = some row →
    ∃ h, q.rotation sec r = some (h, k) ∧ s.TokenOf row.userId h
  /-- A token that has been reused was there. -/
  reused : ∀ plaintext, q.op = .refresh plaintext → r = .refreshed .reused →
    s.refreshTokens.get (hashRefreshToken sec plaintext) ≠ none

/-- What a commit does to the tokens. -/
structure RevocationEffect (sec : Security) (q : AuthRequest) (r : AuthReply) (s t : Db) : Prop
    extends TokenEffect sec q r s t, NewTokens sec q r s t where
  /-- A revocation of all tokens of a user leaves none of them active. -/
  complete : ∀ u, q.MassRevokes sec r t u → ∀ h, ¬t.ActiveFor u h

/-- What a revocation of all tokens relies on, once it has found their rows: no token of the
user becomes active. -/
structure NothingNew (sec : Security) (q : AuthRequest) (s t : Db) : Prop where
  kept : TokensKept s t
  active : ∀ u, q.Revoking sec s u → ∀ h, t.ActiveFor u h → s.ActiveFor u h

section Programs

variable {sec : Security} {q : AuthRequest} {env : AuthEnv}

/-- A request that revokes all tokens of a user still does when tokens are kept. -/
theorem AuthRequest.Revoking.kept {s t : Db} {u : Id} (h : q.Revoking sec s u)
    (hkept : TokensKept s t) : q.Revoking sec t u := by
  rcases h with hall | ⟨plaintext, row, hop, hrow, huser, hrevoked⟩
  · exact .inl hall
  · obtain ⟨row', hrow', huser', hrevoked'⟩ := hkept _ row hrow
    exact .inr ⟨plaintext, row', hop, hrow', huser'.trans huser, hrevoked' hrevoked⟩

/-- There is nothing new in the same state. -/
theorem NothingNew.refl (s : Db) : NothingNew sec q s s :=
  ⟨tokensKept_of_eq rfl, fun _ _ _ h => h⟩

/-- Nothing new twice is nothing new. -/
theorem NothingNew.trans {s t v : Db} (hst : NothingNew sec q s t) (htv : NothingNew sec q t v) :
    NothingNew sec q s v where
  kept := hst.kept.trans htv.kept
  active u hrevoking h hv := hst.active u hrevoking h (htv.active u (hrevoking.kept hst.kept) h hv)

/-- A row that is found is locked and read again. -/
theorem wpSince_selectForUpdate {ρ : Type} {L : Locking Db Key} {I : Db → Prop} {key : Key}
    {get : Db → Option ρ} {seen : Db} {facts : List (Key × Db)} {w : Db → Db}
    {Post : Db → List (Key × Db) → (Db → Db) → Option ρ → Prop}
    (hnone : ∀ seen', Post seen' facts w none)
    (hsome : ∀ seen' s, I s → L.Known facts s → Post seen' ((key, s) :: facts) w (get (w s))) :
    (selectForUpdate key get).wpSince L I Post seen facts w := by
  simp only [selectForUpdate, bind_eq, wpSince_bind, wpSince_read]
  intro t _ _
  cases get (w t) with
  | none => exact hnone t
  | some r => exact hsome t

/-- The bulk update revokes the tokens one by one. -/
theorem wpSince_revokeTokens {L : Locking Db Key} {I : Db → Prop} {now : Time}
    {ts : List RefreshToken} {seen : Db} {facts : List (Key × Db)} {w : Db → Db}
    {Post : Db → List (Key × Db) → (Db → Db) → Unit → Prop}
    (h : ∀ facts', facts ⊆ facts' → Post seen facts' (fun s => (w s).revokeAll now ts) ()) :
    (revokeTokens now ts).wpSince L I Post seen facts w := by
  induction ts generalizing facts w with
  | nil => exact h facts (List.Subset.refl facts)
  | cons t ts ih =>
    simp only [revokeTokens, updateRefreshToken, bind_eq, wpSince_bind, wpSince_updateRow]
    intro s _ _
    exact ih fun facts' hsub => h facts' fun f hf => hsub (List.mem_cons_of_mem _ hf)

/-- `logout_all` leaves no token of the user active. -/
theorem logoutAll_complete (user : User) {db : Db} :
    (logoutAll env user).wpSince tokenLocking (fun _ => True)
      (fun seen _ w _ => ∀ s, (∀ h, s.ActiveFor user.id h → seen.ActiveFor user.id h) →
        ∀ h, ¬(w s).ActiveFor user.id h) db [] id := by
  simp only [logoutAll, bind_eq, wpSince_bind, wpSince_read]
  intro seen _ _
  exact wpSince_revokeTokens fun _ _ s hnew h => revokeAll_complete hnew

/-- Reuse detection leaves no token of the user active. -/
theorem refresh_complete (plaintext : String) {db : Db} :
    (refresh sec env plaintext).wpSince tokenLocking (fun _ => True)
      (fun seen _ w r => r = .reused → ∃ row, row.revokedAt ≠ none ∧
        seen.refreshTokens.get (hashRefreshToken sec plaintext) = some row ∧
        ∀ s, (∀ h, s.ActiveFor row.userId h → seen.ActiveFor row.userId h) →
          ∀ h, ¬(w s).ActiveFor row.userId h) db [] id := by
  simp only [refresh, selectTokenForUpdate, bind_eq, wpSince_bind]
  refine wpSince_selectForUpdate (fun _ => by simp) fun _ s₀ _ _ => ?_
  simp only [wpSince_getOrRaise, id_eq, wpSince_ite]
  intro row hrow
  refine ⟨fun hrevoked => ?_, fun _ => ?_⟩
  · simp only [reuseDetected, bind_eq, wpSince_bind, wpSince_read, pure_eq, wpSince_ret]
    intro seen _ hknown
    -- the row is locked, so the bulk update sees it as it is
    have hlocked : seen.refreshTokens.get (hashRefreshToken sec plaintext) = some row :=
      (hknown (.refreshToken (hashRefreshToken sec plaintext), s₀) (by simp)).trans hrow
    exact wpSince_revokeTokens fun _ _ _ =>
      ⟨row, hrevoked, hlocked, fun s hnew h => revokeAll_complete hnew⟩
  · refine wpSince_mono (P := fun _ _ _ r => r ≠ .reused) (fun _ _ _ r hr heq => absurd heq hr)
      (wpSince_of_wp ?_)
    simp only [rotate, bind_eq, wp_bind, wp_raiseIf, wp_read, wp_getOrRaise, updateRefreshToken,
      wp_updateRow, insertRefreshToken, reserve, wp_acquire, wp_insertRow, pure_eq, wp_ret]
    intros
    exact RefreshResult.noConfusion

/-- Only a refresh that finds no new token makes one. -/
theorem newTokens_of_noNewToken (hop : ∀ plaintext, q.op ≠ .refresh plaintext) {r : AuthReply}
    {s t : Db} (h : NoNewToken s t) : NewTokens sec q r s t where
  created k row hnone hrow := by
    rw [h k hnone] at hrow
    cases hrow
  reused plaintext heq := absurd heq (hop plaintext)

/-- A request that is not a refresh brings no token. -/
theorem newTokens_of_writes {p : Tx AuthReply} (hop : ∀ plaintext, q.op ≠ .refresh plaintext)
    (hwrites : p.Writes fun _ f => ∀ db, NoNewToken db (f db)) :
    p.wp tokenLocking (fun _ => True)
      (fun facts w r => ∀ s, tokenLocking.Known facts s → NewTokens sec q r s (w s)) [] id := by
  refine wp_mono ?_ (Writes.wp (R := NoNewToken) (w := id) (fun s h hnone => hnone)
    (fun s t u hst htu h hnone => htu h (hst h hnone)) (fun _ _ hf => hf) hwrites
    fun s h hnone => hnone)
  exact fun _ w r hw s _ => newTokens_of_noNewToken hop (hw s)

/-- The tokens that a request brings, whatever runs besides. -/
theorem exec_newTokens (hop : q.op.OnTokens) :
    (q.exec sec).wp tokenLocking (fun _ => True)
      (fun facts w r => ∀ s, tokenLocking.Known facts s → NewTokens sec q r s (w s)) [] id := by
  obtain ⟨op, env⟩ := q
  cases op with
  | refresh plaintext =>
    simp only [AuthRequest.exec, AuthOp.exec, bind_eq, pure_eq, wp_bind, wp_ret]
    refine wp_mono (fun _ w r hr s hknown => ?_) (refresh_wp plaintext)
    have hrow := hr s hknown
    cases r with
    | rotated x =>
      refine ⟨fun k row hnone hk => ?_, fun _ _ heq => by cases heq⟩
      obtain ⟨rfl, howner⟩ := hrow.2.2 k row hnone hk
      exact ⟨_, rfl, howner⟩
    | reused =>
      refine ⟨fun k row hnone hk => ?_, fun plaintext' hop' _ => ?_⟩
      · rw [hrow.2 k hnone] at hk
        cases hk
      · obtain rfl := AuthOp.refresh.inj hop'
        obtain ⟨row, hfound, -⟩ := hrow.1
        rw [hfound]
        exact Option.some_ne_none row
  | logout plaintext =>
    refine newTokens_of_writes (by simp) (.bind (.bind .read fun db => ?_) fun _ => .pure _)
    split
    · exact .pure ()
    · exact .updateRow fun _ h hnone => Table.get_update_eq_none.mpr hnone
  | logoutAll user =>
    exact newTokens_of_writes (by simp)
      (.bind (.bind .read fun _ => noNewToken_revokeTokens _ _) fun _ => .pure _)
  | _ => exact hop.elim

/-- A request that revokes all tokens of a user leaves none of them active, if none has become
active since it found their rows. -/
theorem exec_complete (hop : q.op.OnTokens) {db : Db} :
    (q.exec sec).wpSince tokenLocking (fun _ => True)
      (fun seen _ w r => ∀ s, NothingNew sec q seen s → TokensKept s (w s) →
        (∀ plaintext, q.op = .refresh plaintext → r = .refreshed .reused →
          s.refreshTokens.get (hashRefreshToken sec plaintext) ≠ none) →
        ∀ u, q.MassRevokes sec r (w s) u → ∀ h, ¬(w s).ActiveFor u h) db [] id := by
  obtain ⟨op, env⟩ := q
  cases op with
  | refresh plaintext =>
    simp only [AuthRequest.exec, AuthOp.exec, bind_eq, pure_eq, wpSince_bind, wpSince_ret]
    refine wpSince_mono (fun seen facts w r hr s hnew hkept hreused u hrevokes => ?_)
      (refresh_complete plaintext)
    rcases hrevokes with ⟨user, heq, -⟩ | ⟨plaintext', heq, hreply, howner⟩
    · cases heq
    · obtain rfl := AuthOp.refresh.inj heq
      obtain ⟨row, hrevoked, hseen, hall⟩ := hr (AuthReply.refreshed.inj hreply)
      obtain ⟨row', hrow', huser', -⟩ := hnew.kept _ row hseen
      obtain ⟨row'', hrow'', huser''⟩ := hkept.tokenOf_of_ne_none (hreused _ rfl hreply) howner
      obtain rfl := Option.some.inj (hrow'.symm.trans hrow'')
      obtain rfl : row.userId = u := huser'.symm.trans huser''
      exact hall s (hnew.active _ (.inr ⟨plaintext, row, rfl, hseen, rfl, hrevoked⟩))
  | logout plaintext =>
    refine wpSince_of_forall fun _ _ _ _ _ _ _ _ _ hrevokes => ?_
    rcases hrevokes with ⟨user, heq, -⟩ | ⟨plaintext', heq, -⟩
    · cases heq
    · cases heq
  | logoutAll user =>
    simp only [AuthRequest.exec, AuthOp.exec, bind_eq, pure_eq, wpSince_bind, wpSince_ret]
    refine wpSince_mono (fun seen facts w r hr s hnew _ _ u hrevokes => ?_)
      (logoutAll_complete user)
    rcases hrevokes with ⟨user', heq, rfl⟩ | ⟨plaintext', heq, -⟩
    · obtain rfl := AuthOp.logoutAll.inj heq
      exact hr s (hnew.active _ (.inl ⟨user, rfl, rfl⟩))
    · cases heq
  | _ => exact hop.elim

/-- What a request does to the tokens, if what it relies on is respected. -/
theorem exec_since (hop : q.op.OnTokens) {db : Db} :
    (q.exec sec).wpSince tokenLocking (fun _ => True)
      (Sys.SinceOk tokenLocking (fun _ => True) (NothingNew sec q) (RevocationEffect sec q))
      db [] id := by
  have hall := wpSince_and (wpSince_of_wp (exec_tokenEffect sec q))
    (wpSince_and (wpSince_of_wp (exec_newTokens hop)) (@exec_complete sec q hop db))
  refine wpSince_mono (fun seen facts w r hr s hI hseen hknown => ?_) hall
  obtain ⟨hcommit, hnew, hcomplete⟩ := hr
  obtain ⟨-, heffect, hframe⟩ := hcommit s hI hknown
  have htokens := hnew s hknown
  exact ⟨trivial, ⟨heffect, htokens, hcomplete s hseen heffect.kept htokens.reused⟩, hframe⟩

end Programs

/-! ### In every interleaving -/

section Interleaving

variable {ι : Type} {sec : Security} {calls : ι → AuthRequest} {db : Db}

/-- A token that becomes active is the successor of an active one. -/
theorem RevocationEffect.activeFor {q : AuthRequest} {r : AuthReply} {s t : Db}
    (hr : RevocationEffect sec q r s t) {u : Id} {h : String} (ht : t.ActiveFor u h) :
    s.ActiveFor u h ∨ ∃ h₀, q.rotation sec r = some (h₀, h) ∧ s.ActiveFor u h₀ := by
  by_cases hs : s.refreshTokens.get h = none
  · obtain ⟨row, hrow, rfl, -⟩ := ht
    obtain ⟨h₀, hrotation, row₀, hrow₀, howner⟩ := hr.created h row hs hrow
    obtain ⟨⟨row₁, hrow₁, hactive⟩, -⟩ := hr.rotated h₀ h hrotation
    obtain rfl := Option.some.inj (hrow₀.symm.trans hrow₁)
    exact .inr ⟨h₀, hrotation, row₀, hrow₀, howner, hactive⟩
  · exact .inl (hr.kept.activeFor hs ht)

/-- What has been committed, in terms of any later state of the tokens. -/
structure Revoked (sec : Security) (calls : ι → AuthRequest) (log : List (ι × AuthReply))
    (s later : Db) : Prop where
  complete : log.Pairwise fun e e' => ∀ u, (calls e.1).MassRevokes sec e.2 later u →
    ¬(calls e'.1).Accepted sec e'.2 later u
  inactive : ∀ e ∈ log, ∀ u, (calls e.1).MassRevokes sec e.2 later u → ∀ h, ¬s.ActiveFor u h

/-- A mass revocation seen later was one at its commit. -/
theorem AuthRequest.MassRevokes.before {q : AuthRequest} {r : AuthReply} {s t later : Db} {u : Id}
    (hr : RevocationEffect sec q r s t) (hlater : TokensKept t later)
    (h : q.MassRevokes sec r later u) : q.MassRevokes sec r t u := by
  rcases h with hall | ⟨plaintext, hop, hreply, howner⟩
  · exact .inl hall
  · refine .inr ⟨plaintext, hop, hreply, hlater.tokenOf_of_ne_none ?_ howner⟩
    obtain ⟨row, hrow⟩ := Option.ne_none_iff_exists'.mp (hr.reused plaintext hop hreply)
    obtain ⟨row', hrow', -⟩ := hr.kept _ row hrow
    rw [hrow']
    exact Option.some_ne_none row'

/-- One more commit. -/
theorem Revoked.commit {log : List (ι × AuthReply)} {s t later : Db} {i : ι} {r : AuthReply}
    (h : Revoked sec calls log s later) (hr : RevocationEffect sec (calls i) r s t)
    (hlater : TokensKept t later) : Revoked sec calls (log ++ [(i, r)]) t later where
  complete := by
    rw [List.pairwise_append]
    refine ⟨h.complete, List.pairwise_singleton _ _, fun e he e' he' u hrevokes => ?_⟩
    obtain rfl := List.mem_singleton.mp he'
    rintro ⟨h₀, h', hrotation, howner⟩
    -- the token that is accepted is active, so its user's tokens have not all been revoked
    obtain ⟨⟨row, hrow, hactive⟩, -⟩ := hr.rotated h₀ h' hrotation
    have hs : s.TokenOf u h₀ := (hr.kept.trans hlater).tokenOf_of_ne_none
      (by rw [hrow]; exact Option.some_ne_none row) howner
    obtain ⟨row', hrow', huser⟩ := hs
    obtain rfl := Option.some.inj (hrow.symm.trans hrow')
    exact h.inactive e he u hrevokes h₀ ⟨row, hrow, huser, hactive⟩
  inactive e he u hrevokes h' hactive := by
    rcases List.mem_append.mp he with he | he
    · rcases hr.activeFor hactive with hs | ⟨h₀, -, hs⟩
      · exact h.inactive e he u hrevokes h' hs
      · exact h.inactive e he u hrevokes h₀ hs
    · obtain rfl := List.mem_singleton.mp he
      exact hr.complete u (hrevokes.before hr hlater) h' hactive

/-- What the log says of every later state. -/
theorem revoked_of_commits {log : List (ι × AuthReply)} {t later : Db}
    (h : Sys.Commits (fun i => RevocationEffect sec (calls i)) db log t)
    (hlater : TokensKept t later) : Revoked sec calls log t later := by
  induction h with
  | nil => exact ⟨.nil, fun e he => (List.not_mem_nil he).elim⟩
  | snoc i r _ hr ih => exact (ih (hr.kept.trans hlater)).commit hr hlater

/-- Under the condition no commit disturbs a revocation that has found its rows. -/
theorem NoneEscapes.nothingNew [DecidableEq ι] {s t : Sys ι Db Key Err AuthReply} {i : ι}
    (hst : Sys.Step i s t) (hC : NoneEscapes sec calls s i t)
    (hcommit : ∀ w r, s.txn i = .running w (.ret r) →
      RevocationEffect sec (calls i) r s.db (w s.db)) {j : ι} (hj : j ≠ i)
    (hselected : s.HasSelected j) : NothingNew sec (calls j) s.db t.db := by
  cases hst with
  | @commit w r hi =>
    have hr := hcommit w r hi
    refine ⟨hr.kept, fun u hrevoking h hactive => ?_⟩
    rcases hr.activeFor hactive with hs | ⟨h₀, hrotation, hs⟩
    · exact hs
    · by_cases hop : ∃ plaintext, (calls i).op = .refresh plaintext
      · obtain ⟨plaintext, hop⟩ := hop
        obtain rfl : h₀ = _ := rotation_presented hop hrotation
        exact absurd hrevoking (hC ⟨w, r, hi⟩ plaintext u hop hs j hj hselected)
      · rw [rotation_eq_none fun plaintext heq => hop ⟨plaintext, heq⟩] at hrotation
        cases hrotation
  | _ => exact NothingNew.refl _

end Interleaving

/-- **A revocation of all tokens is complete.** If no rotation of a user's token commits between
the `SELECT` of a revocation of all tokens of the user and its commit, then no token of the user
is accepted after that commit. -/
theorem revocation_complete (sec : Security) {ι : Type} [DecidableEq ι] (calls : ι → AuthRequest)
    (hcalls : ∀ i, (calls i).op.OnTokens) {db : Db} {t : Sys ι Db Key Err AuthReply}
    (h : Sys.StepsIf (NoneEscapes sec calls) (Sys.init db fun i => (calls i).exec sec) t) :
    RevocationComplete sec calls t := by
  have hcommits := h.commits_since (L := tokenLocking) (I := fun _ => True)
    (R := fun i => NothingNew sec (calls i)) (Q := fun i => RevocationEffect sec (calls i))
    (fun _ => NothingNew.refl) (fun _ _ _ _ => NothingNew.trans) trivial
    (fun i => exec_since (hcalls i))
    fun i s t hst hC hcommit j hj hselected => hC.nothingNew hst hcommit hj hselected
  exact (revoked_of_commits hcommits (tokensKept_of_eq rfl)).complete

namespace Sample

/-- `logout_all`, a refresh, and a refresh with the successor. -/
def revocations : Fin 3 → AuthRequest
  | 0 => authRequest 1 (.logoutAll account)
  | 1 => authRequest 2 (.refresh "first")
  | 2 => authRequest 3 (.refresh "2")

/-- The sample requests are requests about tokens. -/
theorem revocations_onTokens (i : Fin 3) : (revocations i).op.OnTokens :=
  match i with
  | 0 => trivial
  | 1 => trivial
  | 2 => trivial

/-- The transactions of these requests. -/
def revoking (i : Fin 3) : Tx AuthReply := (revocations i).exec security

end Sample

/-- A token that is presented after `logout_all` is refused. -/
theorem revocation_complete_refused :
    (∀ i, (Sample.revocations i).op.OnTokens) ∧
    ∃ t, Sys.StepsIf (NoneEscapes Sample.security Sample.revocations)
        (Sys.init Sample.loggedIn Sample.revoking) t ∧
      t.log = [(0, .done), (1, .refreshed .reused)] ∧
      RevocationComplete Sample.security Sample.revocations t := by
  refine ⟨Sample.revocations_onTokens, ?_⟩
  have hrun : (Sample.revoking 0).run Sample.loggedIn =
      .ok (.done, ((Sample.revoking 0).session Sample.loggedIn).2) := session_ok (by decide +kernel)
  have hrun' : (Sample.revoking 1).run ((Sample.revoking 0).session Sample.loggedIn).2 =
      .ok (.refreshed .reused, ((Sample.revoking 1).session
        ((Sample.revoking 0).session Sample.loggedIn).2).2) := session_ok (by decide +kernel)
  obtain ⟨s, hs⟩ := Sys.runsTo_of_run (s := Sys.init Sample.loggedIn Sample.revoking) (i := 0) rfl
    (fun _ => .inl rfl) hrun
  rw [← hs.db] at hrun'
  have hnext : s.txn 1 = .running id (Sample.revoking 1) := hs.other 1 (by decide)
  obtain ⟨t, ht⟩ := Sys.runsTo_of_run hnext (fun key => .inl (hs.owner key)) hrun'
  have hrevoked : Sys.StepsIf (NoneEscapes Sample.security Sample.revocations)
      (Sys.init Sample.loggedIn Sample.revoking) s := by
    refine (Sys.StepsIf.refl _).alone (fun _ _ _ _ _ _ _ hop => ?_) hs.alone
    cases hop
  have hrefused : Sys.StepsIf (NoneEscapes Sample.security Sample.revocations)
      (Sys.init Sample.loggedIn Sample.revoking) t := by
    refine hrevoked.alone (fun v _ hothers _ _ _ _ _ _ j hj hselected => ?_) ht.alone
    obtain ⟨w, q, hrunning, hselects⟩ := hselected
    rw [hothers j hj] at hrunning
    match j with
    | 0 =>
      rw [hs.committed] at hrunning
      cases hrunning
    | 1 => exact absurd rfl hj
    | 2 =>
      rw [hs.other 2 (by decide)] at hrunning
      cases hrunning
      exact absurd trivial hselects
  refine ⟨t, hrefused, ?_, revocation_complete Sample.security Sample.revocations
    Sample.revocations_onTokens hrefused⟩
  rw [ht.log, hs.log]
  rfl

/-- A refresh commits while `logout_all` is under way, and its successor is accepted afterwards. -/
theorem successor_escapes :
    (∀ i, (Sample.revocations i).op.OnTokens) ∧
    ∃ t, Sys.Steps (Sys.init Sample.loggedIn Sample.revoking) t ∧ t.log.map Prod.fst = [1, 0, 2] ∧
      ¬RevocationComplete Sample.security Sample.revocations t := by
  refine ⟨Sample.revocations_onTokens, ?_⟩
  have hreads : (Sample.revoking 0).selects Sample.loggedIn 1 = true := by decide +kernel
  obtain ⟨r, hrun⟩ := run_of_session (p := Sample.revoking 1) (s := Sample.loggedIn)
    (by decide +kernel)
  obtain ⟨r', hrun'⟩ := run_of_session (p := (Sample.revoking 0).afterSelects Sample.loggedIn 1)
    (s := ((Sample.revoking 1).session Sample.loggedIn).2) (by decide +kernel)
  obtain ⟨r'', hrun''⟩ := run_of_session (p := Sample.revoking 2)
    (s := (((Sample.revoking 0).afterSelects Sample.loggedIn 1).session
      ((Sample.revoking 1).session Sample.loggedIn).2).2) (by decide +kernel)
  obtain ⟨s, t, hs, hst, -, hdb, hlog, howner, hother⟩ :=
    Sys.overtaken_of_run (i := 0) (j := 1) (by decide) hreads hrun hrun'
  rw [← hdb] at hrun''
  have hnext : t.txn 2 = .running id (Sample.revoking 2) := hother 2 (by decide) (by decide)
  obtain ⟨u, hu⟩ := Sys.runsTo_of_run hnext (fun key => .inl (howner key)) hrun''
  have hfinal : u.log = [(1, r), (0, r'), (2, r'')] := by
    rw [hu.log, hlog]
    rfl
  have haccepted : (Sample.revocations 2).Accepted Sample.security r'' u.db 1 := by
    have hrotation : ((Sample.revoking 2).session t.db).1.toOption.bind
        ((Sample.revocations 2).rotation Sample.security) = some ("2", "3") := by
      rw [hdb]
      decide +kernel
    rw [session_of_run hrun''] at hrotation
    have howner : ∃ row ∈ u.db.refreshTokens.get "2", row.userId = 1 := by
      rw [hu.db, hdb]
      decide +kernel
    exact ⟨"2", "3", hrotation, howner⟩
  refine ⟨u, (hs.tail 0 hst).trans hu.steps, by rw [hfinal]; rfl, fun hcomplete => ?_⟩
  unfold RevocationComplete at hcomplete
  rw [hfinal, List.pairwise_cons, List.pairwise_cons] at hcomplete
  exact hcomplete.2.1 (2, r'') (List.mem_singleton_self _) 1
    (.inl ⟨Sample.account, rfl, rfl⟩) haccepted

end Marketplace
