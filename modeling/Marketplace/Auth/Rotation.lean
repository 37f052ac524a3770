import Mathlib.Logic.Relation
import Marketplace.Auth.Frames

/-!
# The rotation of refresh tokens

`refresh` takes the row of the presented token `FOR UPDATE`, so that two requests with the
same token are served one after the other, and the second one finds it revoked. A token is
known by its hash; its successor is the token that its rotation has returned.
-/

namespace Marketplace

open Lib Txn AuthService

/-! ### Tokens and their successors -/

/-- The token is there, and revoked. -/
def Db.TokenRevoked (db : Db) (tokenHash : String) : Prop :=
  ∃ row, db.refreshTokens.get tokenHash = some row ∧ row.revokedAt ≠ none

/-- The token is there, and not revoked. -/
def Db.TokenActive (db : Db) (tokenHash : String) : Prop :=
  ∃ row, db.refreshTokens.get tokenHash = some row ∧ row.revokedAt = none

/-- The token is there, and belongs to the user. -/
def Db.TokenOf (db : Db) (userId : Id) (tokenHash : String) : Prop :=
  ∃ row, db.refreshTokens.get tokenHash = some row ∧ row.userId = userId

/-- A revoked token is not active. -/
theorem Db.TokenRevoked.not_active {db : Db} {tokenHash : String} (h : db.TokenRevoked tokenHash) :
    ¬db.TokenActive tokenHash := by
  rintro ⟨row, hrow, hactive⟩
  obtain ⟨row', hrow', hrevoked⟩ := h
  obtain rfl := Option.some.inj (hrow.symm.trans hrow')
  exact hrevoked hactive

/-- The token that a request has rotated, and its successor. -/
def AuthRequest.rotation (sec : Security) (q : AuthRequest) : AuthReply → Option (String × String)
  | .refreshed (.rotated r) =>
    match q.op with
    | .refresh plaintext =>
      some (hashRefreshToken sec plaintext, hashRefreshToken sec r.refreshToken)
    | _ => none
  | _ => none

section

variable {ι : Type} (sec : Security) (calls : ι → AuthRequest)

/-- The rotations among the commits. -/
def rotations (log : List (ι × AuthReply)) : List (String × String) :=
  log.filterMap fun entry => (calls entry.1).rotation sec entry.2

/-- A token has been rotated into another one. -/
def Succeeds (log : List (ι × AuthReply)) (h h' : String) : Prop :=
  (h, h') ∈ rotations sec calls log

/-- The tokens that come from a token by rotation: from the first one of a login, its chain. -/
def Chain (log : List (ι × AuthReply)) : String → String → Prop :=
  Relation.ReflTransGen (Succeeds sec calls log)

/-- What holds of a committed state. -/
structure RotationLinear (s : Sys ι Db Key Err AuthReply) : Prop where
  /-- Each token has at most one successor. -/
  successor : ∀ h, ((rotations sec calls s.log).filter fun r => r.1 = h).length ≤ 1
  /-- Each chain has at most one token that is not revoked. -/
  chain : ∀ root h h', Chain sec calls s.log root h → Chain sec calls s.log root h' →
    s.db.TokenActive h → s.db.TokenActive h' → h = h'

/-- What the next statement of a request keeps. -/
structure RotationKept (q : AuthRequest) (s t : Sys ι Db Key Err AuthReply) : Prop where
  /-- A revoked token stays revoked. -/
  revoked : ∀ h, s.db.TokenRevoked h → t.db.TokenRevoked h
  /-- Presenting a token that has a successor yields no new token. -/
  replayed : ∀ plaintext h', q.op = .refresh plaintext →
    Succeeds sec calls s.log (hashRefreshToken sec plaintext) h' →
    rotations sec calls t.log = rotations sec calls s.log ∧
      ∀ k, s.db.refreshTokens.get k = none → t.db.refreshTokens.get k = none

end

/-! ### What requests do to tokens -/

/-- The tokens stay, and revoked ones stay revoked. -/
def TokensKept (s t : Db) : Prop :=
  ∀ h row, s.refreshTokens.get h = some row → ∃ row', t.refreshTokens.get h = some row' ∧
    row'.userId = row.userId ∧ (row.revokedAt ≠ none → row'.revokedAt ≠ none)

/-- No token comes. -/
def NoNewToken (s t : Db) : Prop :=
  ∀ h, s.refreshTokens.get h = none → t.refreshTokens.get h = none

/-- The same tokens are kept. -/
theorem tokensKept_of_eq {s t : Db} (h : t.refreshTokens = s.refreshTokens) : TokensKept s t :=
  fun k row hrow => ⟨row, by rw [h, hrow], rfl, fun hrevoked => hrevoked⟩

/-- Tokens kept twice are kept. -/
theorem TokensKept.trans {s t u : Db} (hst : TokensKept s t) (htu : TokensKept t u) :
    TokensKept s u := by
  intro h row hrow
  obtain ⟨row', hrow', huser, hrevoked⟩ := hst h row hrow
  obtain ⟨row'', hrow'', huser', hrevoked'⟩ := htu h row' hrow'
  exact ⟨row'', hrow'', huser'.trans huser, fun hr => hrevoked' (hrevoked hr)⟩

/-- A revoked token stays revoked. -/
theorem TokensKept.revoked {s t : Db} (h : TokensKept s t) {k : String} (hk : s.TokenRevoked k) :
    t.TokenRevoked k := by
  obtain ⟨row, hrow, hr⟩ := hk
  obtain ⟨row', hrow', -, hr'⟩ := h k row hrow
  exact ⟨row', hrow', hr' hr⟩

/-- The row of a refresh token is protected by its lock. -/
def tokenLocking : Locking Db Key where
  agree
    | .refreshToken h, s, t => t.refreshTokens.get h = s.refreshTokens.get h
    | _, _, _ => True
  refl key s := by cases key <;> trivial
  trans {key s t u} hst htu := by
    cases key with
    | refreshToken h => exact htu.trans hst
    | _ => trivial

section Writes

variable {A : (User → User) → Prop} {key key' : Key} {f : Db → Db}

/-- A change of one token keeps the tokens. -/
theorem tokensKept_modify (db : Db) (k : String) {g : RefreshToken → RefreshToken}
    (hg : TokenChange g) : TokensKept db (db.modifyRefreshToken k g) := by
  intro h row hrow
  have hmodify := Table.get_modify db.refreshTokens k hg.tokenHash h
  by_cases hk : h = k
  · rw [if_pos hk, hrow] at hmodify
    exact ⟨g row, hmodify, hg.userId row, hg.revoked row⟩
  · rw [if_neg hk, hrow] at hmodify
    exact ⟨row, hmodify, rfl, fun hr => hr⟩

/-- Every write of the auth service keeps the tokens. -/
theorem AuthWrite.tokensKept (hf : AuthWrite A key f) (db : Db) : TokensKept db (f db) := by
  cases hf with
  | quiet hq =>
    cases hq with
    | addToken t =>
      intro h row hrow
      have hinsert := Table.get_insert_or db.refreshTokens t h
      rw [hrow] at hinsert
      refine ⟨row, hinsert.trans ?_, rfl, fun hr => hr⟩
      by_cases hk : h = t.tokenHash
      · rw [if_pos hk, Option.some_or]
      · rw [if_neg hk]
    | token k g hg => exact tokensKept_modify db k hg
    | _ => exact tokensKept_of_eq rfl
  | _ => exact tokensKept_of_eq rfl

/-- A write under one lock leaves the tokens under the others alone. -/
theorem AuthWrite.tokenFrame (hf : AuthWrite A key f) (db : Db) (hne : key' ≠ key) :
    tokenLocking.agree key' db (f db) := by
  cases key' with
  | refreshToken h =>
    cases hf with
    | quiet hq =>
      cases hq with
      | addToken t =>
        have hk : h ≠ t.tokenHash := fun heq => hne (congrArg Key.refreshToken heq)
        exact Table.get_insert_of_ne db.refreshTokens hk
      | token k g hg =>
        have hk : h ≠ k := fun heq => hne (congrArg Key.refreshToken heq)
        exact Table.get_modify_of_ne db.refreshTokens hk g
      | _ => rfl
    | _ => rfl
  | _ => trivial

end Writes

/-! ### One request among the others -/

/-- What a commit does to tokens. -/
structure TokenEffect (sec : Security) (q : AuthRequest) (r : AuthReply) (s t : Db) : Prop where
  kept : TokensKept s t
  rotated : ∀ h h', q.rotation sec r = some (h, h') → s.TokenActive h ∧ t.TokenRevoked h
  replayed : ∀ plaintext, q.op = .refresh plaintext → q.rotation sec r = none → NoNewToken s t

section Programs

variable {sec : Security} {env : AuthEnv}

/-- Revoking tokens makes no new one. -/
theorem noNewToken_revokeTokens (now : Time) (ts : List RefreshToken) :
    (revokeTokens now ts).Writes fun _ f => ∀ db, NoNewToken db (f db) := by
  induction ts with
  | nil => exact .pure ()
  | cons t ts ih =>
    refine .bind (.updateRow fun db h hnone => ?_) fun _ => ih
    have hmodify := Table.get_modify db.refreshTokens t.tokenHash
      (RefreshToken.revokeIfActive_tokenHash now) h
    rw [hnone, Option.map_none, ite_self] at hmodify
    exact hmodify

/-- What `refresh` does to the presented token, whose row it has locked. -/
theorem refresh_wp (plaintext : String) :
    (refresh sec env plaintext).wp tokenLocking (fun _ => True)
      (fun facts w r => ∀ s, tokenLocking.Known facts s →
        match r with
        | .rotated x => s.TokenActive (hashRefreshToken sec plaintext) ∧
            (w s).TokenRevoked (hashRefreshToken sec plaintext) ∧
            ∀ k row', s.refreshTokens.get k = none → (w s).refreshTokens.get k = some row' →
              k = hashRefreshToken sec x.refreshToken ∧
                s.TokenOf row'.userId (hashRefreshToken sec plaintext)
        | .reused => s.TokenRevoked (hashRefreshToken sec plaintext) ∧ NoNewToken s (w s))
      [] id := by
  unfold refresh selectTokenForUpdate
  simp only [bind_eq, wp_bind]
  refine wp_selectForUpdate (by simp) fun s₀ _ _ => ?_
  simp only [wp_getOrRaise, id_eq, wp_ite]
  intro row hrow
  have hhash : row.tokenHash = hashRefreshToken sec plaintext := Table.key_of_get hrow
  refine ⟨fun hrevoked => ?_, fun hactive => ?_⟩
  · simp only [reuseDetected, bind_eq, wp_bind, wp_read, pure_eq, wp_ret]
    intro s₁ _ _
    refine wp_mono ?_ (wp_and (wp_held (List.mem_singleton_self _)) (Writes.wp (R := NoNewToken)
      (fun s h hnone => hnone) (fun s t u hst htu h hnone => htu h (hst h hnone)) (fun _ _ hf => hf)
      (noNewToken_revokeTokens _ _) fun s h hnone => hnone))
    rintro facts w - ⟨hheld, hw⟩ s hknown
    exact ⟨⟨row, (hknown _ hheld).trans hrow, hrevoked⟩, hw s⟩
  · simp only [rotate, bind_eq, wp_bind, wp_raiseIf, wp_read, wp_getOrRaise, updateRefreshToken,
      wp_updateRow, insertRefreshToken, reserve, wp_acquire, wp_insertRow, pure_eq, wp_ret]
    rintro - _ _ _ user - - _ _ _ _ _ _ _ _ _ _ _ s hknown
    -- the row is as it was when the lock was taken
    have hlocked : s.refreshTokens.get (hashRefreshToken sec plaintext) = some row :=
      (hknown (.refreshToken (hashRefreshToken sec plaintext), s₀) (by simp)).trans hrow
    refine ⟨⟨row, hlocked, not_not.mp hactive⟩, ?_, fun k row' hnone hrow' => ?_⟩
    · have hrotated : (s.modifyRefreshToken row.tokenHash
          (RefreshToken.rotate (env.now 0))).TokenRevoked (hashRefreshToken sec plaintext) := by
        rw [hhash]
        exact ⟨_, Table.get_modify_self (RefreshToken.rotate_tokenHash (env.now 0)) hlocked,
          Option.some_ne_none _⟩
      have hadd : TokensKept (s.modifyRefreshToken row.tokenHash (RefreshToken.rotate (env.now 0)))
          ((s.modifyRefreshToken row.tokenHash (RefreshToken.rotate (env.now 0))).addRefreshToken
            (successor sec env row)) :=
        AuthWrite.tokensKept (A := fun _ => True) (.quiet (.addToken (successor sec env row))) _
      exact hadd.revoked hrotated
    · -- the row that was not there is the one inserted
      have hmodify : (s.modifyRefreshToken row.tokenHash
          (RefreshToken.rotate (env.now 0))).refreshTokens.get k = none :=
        Table.get_update_eq_none.mpr hnone
      have hinsert := Table.get_insert_or (s.modifyRefreshToken row.tokenHash
        (RefreshToken.rotate (env.now 0))).refreshTokens (successor sec env row) k
      rw [hmodify, Option.none_or] at hinsert
      have hfound := hinsert.symm.trans hrow'
      by_cases hk : k = (successor sec env row).tokenHash
      · rw [if_pos hk] at hfound
        obtain rfl := Option.some.inj hfound
        exact ⟨hk, row, hlocked, rfl⟩
      · rw [if_neg hk] at hfound
        cases hfound

/-- Only a refresh rotates a token. -/
theorem rotation_eq_none {q : AuthRequest} (hop : ∀ plaintext, q.op ≠ .refresh plaintext)
    (r : AuthReply) : q.rotation sec r = none := by
  unfold AuthRequest.rotation
  split
  · split
    · next plaintext heq => exact absurd heq (hop plaintext)
    · rfl
  · rfl

/-- A rotation replaces the token that was presented. -/
theorem rotation_presented {q : AuthRequest} {plaintext : String} (hop : q.op = .refresh plaintext)
    {r : AuthReply} {p : String × String} (h : q.rotation sec r = some p) :
    p.1 = hashRefreshToken sec plaintext := by
  unfold AuthRequest.rotation at h
  split at h
  · rw [hop] at h
    obtain rfl := Option.some.inj h
    rfl
  · cases h

/-- Every request has its effect on the tokens at its commit. -/
theorem exec_tokenEffect (sec : Security) (q : AuthRequest) :
    (q.exec sec).Safe tokenLocking (fun _ => True) (TokenEffect sec q) := by
  have hwrites : (q.exec sec).Writes (AuthWrite fun _ => True) :=
    authExec_writes (fun _ _ => trivial) (fun _ _ _ _ => trivial) fun _ _ => trivial
  have hkept := hwrites.safe (R := TokensKept) (L := tokenLocking) (I := fun _ => True)
    (fun s => tokensKept_of_eq rfl) (fun _ _ _ => TokensKept.trans)
    (fun _ _ hf s _ => ⟨trivial, hf.tokensKept s⟩) fun _ _ hf s _ hne => hf.tokenFrame s hne
  by_cases hop : ∃ plaintext, q.op = .refresh plaintext
  · obtain ⟨plaintext, hop⟩ := hop
    have hexec : q.exec sec = (refresh sec q.env plaintext).bind fun r => ret (.refreshed r) := by
      rw [AuthRequest.exec, hop]
      rfl
    have hrefresh : (q.exec sec).wp tokenLocking (fun _ => True) (fun facts w r =>
        ∀ s, tokenLocking.Known facts s →
          (∀ h h', q.rotation sec r = some (h, h') → s.TokenActive h ∧ (w s).TokenRevoked h) ∧
            (q.rotation sec r = none → NoNewToken s (w s))) [] id := by
      rw [hexec, wp_bind]
      refine wp_mono (fun facts w r hr s hknown => ?_) (refresh_wp plaintext)
      have hrow := hr s hknown
      cases r with
      | rotated x =>
        have hrotation : q.rotation sec (.refreshed (.rotated x)) =
            some (hashRefreshToken sec plaintext, hashRefreshToken sec x.refreshToken) := by
          simp only [AuthRequest.rotation, hop]
        rw [hrotation]
        refine ⟨fun h h' heq => ?_, fun hnone => (nomatch hnone)⟩
        obtain ⟨rfl, -⟩ := Prod.mk.inj (Option.some.inj heq)
        exact ⟨hrow.1, hrow.2.1⟩
      | reused => exact ⟨fun h h' heq => (nomatch heq), fun _ => hrow.2⟩
    refine wp_mono (fun facts w r hr s hI hknown => ?_) (wp_and hkept hrefresh)
    obtain ⟨-, hkept, hframe⟩ := hr.1 s hI hknown
    obtain ⟨hrotated, hreplayed⟩ := hr.2 s hknown
    exact ⟨trivial, ⟨hkept, hrotated, fun _ _ => hreplayed⟩, hframe⟩
  · have hother : ∀ plaintext, q.op ≠ .refresh plaintext := fun plaintext heq =>
      hop ⟨plaintext, heq⟩
    refine wp_mono (fun facts w r hr s hI hknown => ?_) hkept
    obtain ⟨-, hkept, hframe⟩ := hr s hI hknown
    refine ⟨trivial, ⟨hkept, fun h h' heq => ?_, fun plaintext heq =>
      absurd heq (hother plaintext)⟩,
      hframe⟩
    rw [rotation_eq_none hother] at heq
    cases heq

end Programs

/-! ### In every interleaving -/

section Interleaving

variable {ι : Type} {sec : Security} {calls : ι → AuthRequest} {db : Db}

/-- No token has been rotated twice, and those that have been rotated are revoked. -/
structure Rotated (rs : List (String × String)) (db : Db) : Prop where
  once : (rs.map Prod.fst).Nodup
  revoked : ∀ r ∈ rs, db.TokenRevoked r.1

/-- The rotations of a log are those of its parts. -/
theorem rotations_append (log log' : List (ι × AuthReply)) :
    rotations sec calls (log ++ log') = rotations sec calls log ++ rotations sec calls log' :=
  List.filterMap_append

/-- The rotations of one entry. -/
theorem rotations_singleton (entry : ι × AuthReply) :
    rotations sec calls [entry] = ((calls entry.1).rotation sec entry.2).toList := by
  cases h : (calls entry.1).rotation sec entry.2 with
  | none => simp [rotations, h]
  | some r => simp [rotations, h]

/-- A commit extends the record of rotations. -/
theorem Rotated.commit {rs : List (String × String)} {s t : Db} {q : AuthRequest} {r : AuthReply}
    (h : Rotated rs s) (hr : TokenEffect sec q r s t) :
    Rotated (rs ++ (q.rotation sec r).toList) t := by
  have hold : ∀ p ∈ rs, t.TokenRevoked p.1 := fun p hp => hr.kept.revoked (h.revoked p hp)
  cases hrotation : q.rotation sec r with
  | none =>
    rw [Option.toList_none, List.append_nil]
    exact ⟨h.once, hold⟩
  | some p =>
    obtain ⟨hactive, hrevoked⟩ := hr.rotated p.1 p.2 hrotation
    rw [Option.toList_some]
    constructor
    · rw [List.map_append, List.map_singleton, List.nodup_append']
      refine ⟨h.once, List.nodup_singleton _, fun x hx hx' => ?_⟩
      -- a token that has been rotated before is revoked
      obtain ⟨p', hp', rfl⟩ := List.mem_map.mp hx
      have heq : p'.1 = p.1 := List.mem_singleton.mp hx'
      exact (h.revoked p' hp').not_active (heq ▸ hactive)
    · intro p' hp'
      rcases List.mem_append.mp hp' with hp' | hp'
      · exact hold p' hp'
      · obtain rfl := List.mem_singleton.mp hp'
        exact hrevoked

/-- What the log says of the committed state. -/
theorem rotated_of_commits {t : Db} {log : List (ι × AuthReply)}
    (h : Sys.Commits (fun i => TokenEffect sec (calls i)) db log t) :
    Rotated (rotations sec calls log) t := by
  induction h with
  | nil => exact ⟨List.nodup_nil, fun r hr => (List.not_mem_nil hr).elim⟩
  | snoc i r _ hr ih =>
    rw [rotations_append, rotations_singleton]
    exact ih.commit hr

/-- A token succeeds at most one other. -/
theorem Rotated.rightUnique {log : List (ι × AuthReply)}
    (h : Rotated (rotations sec calls log) db) : Relator.RightUnique (Succeeds sec calls log) := by
  intro k k' k'' hk' hk''
  have heq := List.inj_on_of_nodup_map h.once hk' hk'' rfl
  exact congrArg Prod.snd heq

/-- A token that is not revoked is the last one of its chain. -/
theorem Rotated.last {log : List (ι × AuthReply)} (h : Rotated (rotations sec calls log) db)
    {k k' : String} (hk : db.TokenActive k) (hchain : Chain sec calls log k k') : k = k' := by
  rcases hchain.cases_head with heq | ⟨k'', hnext, -⟩
  · exact heq
  · exact absurd hk (h.revoked _ hnext).not_active

/-- What is rotated in this record is rotated in a line. -/
theorem Rotated.linear {s : Sys ι Db Key Err AuthReply}
    (h : Rotated (rotations sec calls s.log) s.db) : RotationLinear sec calls s where
  successor k := by
    have honce : (((rotations sec calls s.log).filter fun r => r.1 = k).map Prod.fst).Nodup :=
      h.once.sublist (List.filter_sublist.map Prod.fst)
    have hfirst : ∀ r ∈ (rotations sec calls s.log).filter fun r => r.1 = k, r.1 = k :=
      fun r hr => of_decide_eq_true (List.mem_filter.mp hr).2
    generalize (rotations sec calls s.log).filter (fun r => r.1 = k) = rs at honce hfirst
    rcases rs with _ | ⟨a, _ | ⟨b, rs⟩⟩
    · exact Nat.zero_le 1
    · exact Nat.le_refl 1
    · have hsame : a.1 = b.1 := (hfirst a (by simp)).trans (hfirst b (by simp)).symm
      simp [hsame] at honce
  chain root k k' hk hk' hactive hactive' := by
    rcases Relation.ReflTransGen.total_of_right_unique h.rightUnique hk hk' with hchain | hchain
    · exact h.last hactive hchain
    · exact (h.last hactive' hchain).symm

end Interleaving

/-- **Rotation is linear.** In every interleaving of requests, each token has at most one
successor, each chain at most one token that is not revoked, no revocation is lifted, and
presenting a token that has a successor yields no new one. -/
theorem rotation_linear (sec : Security) {ι : Type} [DecidableEq ι] (calls : ι → AuthRequest)
    {db : Db} {s : Sys ι Db Key Err AuthReply}
    (hs : Sys.Steps (Sys.init db fun i => (calls i).exec sec) s) :
    RotationLinear sec calls s ∧
      ∀ i t, Sys.Step i s t → RotationKept sec calls (calls i) s t := by
  have hsafe : ∀ i, ((calls i).exec sec).Safe tokenLocking (fun _ => True)
      (TokenEffect sec (calls i)) := fun i => exec_tokenEffect sec (calls i)
  have hrotated := rotated_of_commits (hs.commits trivial hsafe)
  refine ⟨hrotated.linear, fun i t hst => ?_⟩
  cases hst with
  | @commit w r hi =>
    have heffect := ((hs.sound (Sys.sound_init trivial hsafe)).commitOk hi).2.1
    refine ⟨fun h => heffect.kept.revoked, fun plaintext h' hop hsucc => ?_⟩
    -- the token is revoked by now, so the request has not rotated it
    have hnone : (calls i).rotation sec r = none := by
      refine Option.eq_none_iff_forall_ne_some.mpr fun p hp => ?_
      obtain ⟨hactive, -⟩ := heffect.rotated p.1 p.2 hp
      rw [rotation_presented hop hp] at hactive
      exact (hrotated.revoked _ hsucc).not_active hactive
    refine ⟨?_, heffect.replayed plaintext hop hnone⟩
    change rotations sec calls (s.log ++ [(i, r)]) = _
    rw [rotations_append, rotations_singleton, hnone, Option.toList_none, List.append_nil]
  | _ => exact ⟨fun _ h => h, fun _ _ _ _ => ⟨rfl, fun _ h => h⟩⟩

namespace Sample

/-- The account with a refresh token. -/
def loggedIn : Db :=
  { accounts with
    refreshTokens := (∅ : Table RefreshToken RefreshToken.tokenHash).insert
      { id := 1, userId := 1, tokenHash := "first", issuedAt := 0, expiresAt := 10 } }

/-- Two requests with this token. -/
def refreshes (i : Bool) : AuthRequest := authRequest (if i then 2 else 1) (.refresh "first")

end Sample

/-- One of two requests with the same token has rotated it. -/
theorem rotation_linear_two :
    ∃ s, Sys.Steps (Sys.init Sample.loggedIn fun i => (Sample.refreshes i).exec Sample.security) s ∧
      rotations Sample.security Sample.refreshes s.log = [("first", "1")] ∧
      RotationLinear Sample.security Sample.refreshes s ∧
      ∀ i t, Sys.Step i s t →
        RotationKept Sample.security Sample.refreshes (Sample.refreshes i) s t := by
  obtain ⟨r, hrun⟩ := run_of_session (p := (Sample.refreshes false).exec Sample.security)
    (s := Sample.loggedIn) (by decide +kernel)
  obtain ⟨s, hs⟩ := Sys.runsTo_of_run (s := Sys.init Sample.loggedIn fun i =>
    (Sample.refreshes i).exec Sample.security) (i := false) rfl (fun _ => .inl rfl) hrun
  have hrotation : (Sample.refreshes false).rotation Sample.security r = some ("first", "1") := by
    have hsession : (((Sample.refreshes false).exec Sample.security).session
      Sample.loggedIn).1.toOption.bind
        ((Sample.refreshes false).rotation Sample.security) = some ("first", "1") := by
      decide +kernel
    rw [session_of_run hrun] at hsession
    exact hsession
  refine ⟨s, hs.steps, ?_, rotation_linear Sample.security Sample.refreshes hs.steps⟩
  rw [hs.log]
  change rotations Sample.security Sample.refreshes [(false, r)] = _
  rw [rotations_singleton, hrotation, Option.toList_some]

end Marketplace
