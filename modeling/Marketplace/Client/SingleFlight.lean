import Marketplace.Client.Interceptor

/-!
# One refresh for all requests

Whatever the order of the events, a request is retried at most once and only with the token of a
refresh that has succeeded. That a refresh token is submitted at most once, that the caller gets the
outcome of the retry and that the session is dropped only for a rejected token holds in the runs in
which no refresh begins with a token that has been used, a refresh of the interceptor fails only
because the server rejects its token, and a retry that fails does so like the first attempt.
-/

namespace Marketplace.AuthRepository

open Lib

variable {ι κ : Type}

/-! ### What the operations change -/

section Fields

variable {c : AuthRepository ι κ} {h : Happening ι κ} {r : RequestId ι κ} {phase : RequestPhase}
  {id : RefreshId κ} {state : RefreshPhase}

/-- The log is no part of the session. -/
@[simp] theorem session_note : (c.note h).session = c.session := rfl

/-- The log is no part of the refresh under way. -/
@[simp] theorem refreshing_note : (c.note h).refreshing = c.refreshing := rfl

/-- The log is no part of the requests. -/
@[simp] theorem requests_note : (c.note h).requests = c.requests := rfl

/-- A happening joins the log at its end. -/
@[simp] theorem log_note : (c.note h).log = c.log ++ [h] := rfl

variable [DecidableEq κ]

/-- A refresh's state is no part of the session. -/
@[simp] theorem session_setRefresh : (c.setRefresh id state).session = c.session := rfl

/-- A refresh's state is no part of the requests. -/
@[simp] theorem requests_setRefresh : (c.setRefresh id state).requests = c.requests := rfl

/-- A refresh's state is no part of the log. -/
@[simp] theorem log_setRefresh : (c.setRefresh id state).log = c.log := rfl

variable [DecidableEq ι]

/-- A request's phase is no part of the session. -/
@[simp] theorem session_setRequest : (c.setRequest r phase).session = c.session := rfl

/-- A request's phase is no part of the refresh under way. -/
@[simp] theorem refreshing_setRequest : (c.setRequest r phase).refreshing = c.refreshing := rfl

/-- A request's phase is no part of the log. -/
@[simp] theorem log_setRequest : (c.setRequest r phase).log = c.log := rfl

end Fields

/-! ### What is promised -/

/-- What the log must hold before an entry. Retries are always in order, the rest is as long as the
run is `held` to its condition. -/
def Justified (held : Prop) (before : List (Happening ι κ)) : Happening ι κ → Prop
  | .submitted token => held → .submitted token ∉ before
  | .retried r accessToken => (∀ accessToken', .retried r accessToken' ∉ before) ∧
    ∃ token pair, .refreshAnswered token (.ok pair) ∈ before ∧ pair.accessToken = accessToken
  | .delivered r o => held → (∃ accessToken, .retried r accessToken ∈ before) →
    .retryAnswered r o ∈ before
  | .dropped token => held → ∃ reply, .refreshAnswered token reply ∈ before ∧ reply.Rejects
  | _ => True

/-- Every entry of the log is justified by those before it. -/
def Orderly (held : Prop) (log : List (Happening ι κ)) : Prop :=
  ∀ before h rest, log = before ++ h :: rest → Justified held before h

/-- Each request is retried at most once, with the token of a refresh that has succeeded. -/
abbrev RetriesOrderly (log : List (Happening ι κ)) : Prop := Orderly False log

/-- Besides, each refresh token is submitted at most once, the caller of a retried request gets the
outcome of the retry, and the session is dropped only if the server has rejected its token. -/
abbrev SingleFlight (log : List (Happening ι κ)) : Prop := Orderly True log

/-- The empty log is orderly. -/
theorem orderly_nil {held : Prop} : Orderly held ([] : List (Happening ι κ)) := by
  intro before h rest heq
  simp at heq

/-- A justified happening keeps the log orderly. -/
theorem Orderly.snoc {held : Prop} {log : List (Happening ι κ)} {h : Happening ι κ}
    (hlog : Orderly held log) (hh : Justified held log h) : Orderly held (log ++ [h]) := by
  intro before h' rest heq
  rcases List.eq_nil_or_concat' rest with rfl | ⟨rest, e, rfl⟩
  · obtain ⟨rfl, hlast⟩ := List.append_inj' heq rfl
    obtain ⟨rfl, -⟩ := List.cons.inj hlast
    exact hh
  · rw [← List.cons_append, ← List.append_assoc] at heq
    exact hlog before h' rest (List.append_inj' heq rfl).1

/-! ### The condition -/

/-- The refresh token of the session has been used: a refresh with it is under way or has failed. -/
def Spent (c : AuthRepository ι κ) : Prop :=
  ∃ s, c.session = some s ∧ ((∃ id, c.refreshing id = some (.sent s.refreshToken)) ∨
    ∃ reply, .refreshAnswered s.refreshToken reply ∈ c.log ∧ ∀ pair, reply ≠ .ok pair)

/-- At this event a refresh begins. -/
def Begins (c : AuthRepository ι κ) : Input ι κ → Prop
  | .refresh n => c.refreshing (.repository n) = none
  | .reply r (.error err) => ∃ opts, c.requests r = some (.sent opts) ∧
    c.refreshesFor opts err = true ∧ c.completer = none
  | _ => False

/-- The event does not lead the interceptor astray. -/
structure Smooth (c : AuthRepository ι κ) (i : Input ι κ) : Prop where
  begins : Begins c i → ¬c.Spent
  rejected : ∀ e, i = .refreshReply .interceptor (.error e) → e.statusCode = some 401
  retried : ∀ r opts err e, i = .reply r (.error e) → c.requests r = some (.retried opts err) →
    e = err

/-- Only a refresh that begins and errors can lead the interceptor astray. -/
theorem Smooth.of_quiet {c : AuthRepository ι κ} {i : Input ι κ} (hbegins : ¬Begins c i)
    (hrefresh : ∀ id e, i ≠ .refreshReply id (.error e))
    (hreply : ∀ r e, i ≠ .reply r (.error e)) : Smooth c i where
  begins h := absurd h hbegins
  rejected e h := absurd h (hrefresh .interceptor e)
  retried r _ _ e h := absurd h (hreply r e)

/-- The server issues new refresh tokens only. -/
def Rotates (c : AuthRepository ι κ) : Input ι κ → Prop
  | .refreshReply _ (.ok pair) => .submitted pair.refreshToken ∉ c.log
  | _ => True

/-- The repository with a session and nothing under way. -/
def start (ι κ : Type) (tokens : Tokens) : AuthRepository ι κ := { session := some tokens }

/-! ### The invariant -/

/-- What holds at every moment: the log is orderly, and it tells what the requests and the refreshes
that are under way may do next. -/
structure Sound (held : Prop) (c : AuthRepository ι κ) : Prop where
  orderly : Orderly held c.log
  storing : ∀ id accessToken, c.refreshing id = some (.storing accessToken) →
    ∃ token pair, .refreshAnswered token (.ok pair) ∈ c.log ∧ pair.accessToken = accessToken
  retried : ∀ r accessToken, .retried r accessToken ∈ c.log →
    c.requests r = some .answered ∨ ∃ opts err, c.requests r = some (.retried opts err)
  spent : held → ∀ s, c.session = some s → .submitted s.refreshToken ∈ c.log → c.Spent
  current : held → ∀ id token s, c.refreshing id = some (.sent token) → c.session = some s →
    s.refreshToken = token
  single : held → ∀ id id' token token', c.refreshing id = some (.sent token) →
    c.refreshing id' = some (.sent token') → id = id'
  unsent : ∀ n, c.refreshing (.repository n) ≠ some .ended → c.requests (.me n) = none

section Operations

variable {held : Prop} {c : AuthRepository ι κ}

/-- The start of the app is sound. -/
theorem start_sound (tokens : Tokens) : Sound held (start ι κ tokens) where
  orderly := orderly_nil
  storing _ _ h := nomatch h
  retried _ _ h := nomatch h
  spent _ _ _ h := nomatch h
  current _ _ _ _ h := nomatch h
  single _ _ _ _ _ h := nomatch h
  unsent _ _ := rfl

/-- A spent token stays spent when something is logged. -/
theorem Spent.note (h : c.Spent) (x : Happening ι κ) : (c.note x).Spent := by
  obtain ⟨s, hs, hused⟩ := h
  refine ⟨s, hs, hused.imp_right ?_⟩
  rintro ⟨reply, hreply, hfailed⟩
  exact ⟨reply, List.mem_append_left _ hreply, hfailed⟩

/-- An entry that begins nothing. -/
theorem Sound.note (h : Sound held c) {x : Happening ι κ} (hx : Justified held c.log x)
    (hsubmitted : ∀ token, x ≠ .submitted token)
    (hretried : ∀ r token, x = .retried r token →
      c.requests r = some .answered ∨ ∃ opts err, c.requests r = some (.retried opts err)) :
    Sound held (c.note x) where
  orderly := h.orderly.snoc hx
  storing id accessToken hid := by
    obtain ⟨token, pair, hmem, hpair⟩ := h.storing id accessToken hid
    exact ⟨token, pair, List.mem_append_left _ hmem, hpair⟩
  retried r accessToken hmem := by
    rcases List.mem_append.mp hmem with hmem | hmem
    · exact h.retried r accessToken hmem
    · exact hretried r accessToken (List.mem_singleton.mp hmem).symm
  spent hheld s hs hmem := by
    rcases List.mem_append.mp hmem with hmem | hmem
    · exact (h.spent hheld s hs hmem).note x
    · exact absurd (List.mem_singleton.mp hmem).symm (hsubmitted s.refreshToken)
  current := h.current
  single := h.single
  unsent := h.unsent

/-- A request that is under way belongs to a refresh that has ended. -/
theorem Sound.ended_of_request (h : Sound held c) {r : RequestId ι κ} {phase : RequestPhase}
    (hr : c.requests r = some phase) (n : κ) (hn : r = .me n) :
    c.refreshing (.repository n) = some .ended := by
  subst hn
  by_contra hne
  rw [h.unsent n hne] at hr
  cases hr

/-- A request that has not been retried. -/
theorem Sound.not_retried (h : Sound held c) {r : RequestId ι κ} {phase : RequestPhase}
    (hr : c.requests r = some phase) (hanswered : phase ≠ .answered)
    (hretried : ∀ opts err, phase ≠ .retried opts err) (accessToken : String) :
    .retried r accessToken ∉ c.log := by
  intro hmem
  rcases h.retried r accessToken hmem with hphase | ⟨opts, err, hphase⟩
  · rw [hr] at hphase
    exact hanswered (Option.some.inj hphase)
  · rw [hr] at hphase
    exact hretried opts err (Option.some.inj hphase)

/-- The end of a session keeps the state sound when its refresh was rejected. -/
theorem Sound.fireSessionExpired (h : Sound held c)
    (hrejected : held → ∀ s, c.session = some s →
      ∃ reply, .refreshAnswered s.refreshToken reply ∈ c.log ∧ reply.Rejects) :
    Sound held c.fireSessionExpired := by
  unfold AuthRepository.fireSessionExpired
  split
  · exact h
  · next s hs =>
    have hnone : Sound held { c with session := none } :=
      ⟨h.orderly, h.storing, h.retried, fun _ _ hs => (nomatch hs),
        fun _ _ _ _ _ hs => (nomatch hs), h.single, h.unsent⟩
    exact hnone.note (fun hheld => hrejected hheld s hs) (fun _ => nofun) fun _ _ => nofun

/-- The future that requests await may change. -/
theorem Sound.completer (h : Sound held c) (completer : Option (List (RequestId ι κ))) :
    Sound held { c with completer := completer } :=
  ⟨h.orderly, h.storing, h.retried, h.spent, h.current, h.single, h.unsent⟩

/-- A refresh that waits for the server belongs to the session, and there is no other. -/
theorem Sound.not_sent (h : Sound held c) (hheld : held) (hspent : ¬c.Spent) {s : Tokens}
    (hs : c.session = some s) (id : RefreshId κ) (token : String) :
    c.refreshing id ≠ some (.sent token) := by
  intro hid
  obtain rfl := h.current hheld id token s hid hs
  exact hspent ⟨s, hs, .inl ⟨id, hid⟩⟩

/-- The session is gone after an expiry. -/
theorem session_fireSessionExpired : c.fireSessionExpired.session = none := by
  unfold AuthRepository.fireSessionExpired
  split
  · next hs => exact hs
  · rfl

/-- The end of a session leaves the requests in their phases. -/
theorem requests_fireSessionExpired : c.fireSessionExpired.requests = c.requests := by
  unfold AuthRepository.fireSessionExpired
  split
  · rfl
  · rfl

/-- The end of a session logs no retry. -/
theorem mem_log_fireSessionExpired {r : RequestId ι κ} {accessToken : String} :
    .retried r accessToken ∈ c.fireSessionExpired.log ↔ .retried r accessToken ∈ c.log := by
  unfold AuthRepository.fireSessionExpired
  split
  · exact Iff.rfl
  · simp

section Refreshes

variable [DecidableEq κ]

/-- A refresh comes to another phase than `sent`. -/
theorem Sound.setRefresh (h : Sound held c) {id : RefreshId κ} {phase : RefreshPhase}
    (hsent : ∀ token, phase ≠ .sent token)
    (hstoring : ∀ accessToken, phase = .storing accessToken →
      ∃ token pair, .refreshAnswered token (.ok pair) ∈ c.log ∧ pair.accessToken = accessToken)
    (hfailed : held → ∀ s, c.session = some s → c.refreshing id = some (.sent s.refreshToken) →
      ∃ reply, .refreshAnswered s.refreshToken reply ∈ c.log ∧ ∀ pair, reply ≠ .ok pair)
    (hnot : ∀ n, id = .repository n → c.refreshing id ≠ some .ended) :
    Sound held (c.setRefresh id phase) := by
  have hother : ∀ {id' token}, (c.setRefresh id phase).refreshing id' = some (.sent token) →
      id' ≠ id ∧ c.refreshing id' = some (.sent token) := by
    intro id' token hid'
    simp only [AuthRepository.setRefresh] at hid'
    by_cases heq : id' = id
    · subst heq
      rw [Function.update_self] at hid'
      exact absurd (Option.some.inj hid') (hsent token)
    · rw [Function.update_of_ne heq] at hid'
      exact ⟨heq, hid'⟩
  refine ⟨h.orderly, fun id' accessToken hid' => ?_, h.retried, fun hheld s hs hmem => ?_,
    fun hheld id' token s hid' hs => h.current hheld id' token s (hother hid').2 hs,
    fun hheld id₁ id₂ token₁ token₂ h₁ h₂ =>
      h.single hheld id₁ id₂ token₁ token₂ (hother h₁).2 (hother h₂).2, fun n hn => ?_⟩
  · simp only [AuthRepository.setRefresh] at hid'
    by_cases heq : id' = id
    · subst heq
      rw [Function.update_self] at hid'
      exact hstoring accessToken (Option.some.inj hid')
    · rw [Function.update_of_ne heq] at hid'
      exact h.storing id' accessToken hid'
  · obtain ⟨s', hs', ⟨id', hid'⟩ | hfail⟩ := h.spent hheld s hs hmem
    · obtain rfl := Option.some.inj (hs.symm.trans hs')
      by_cases heq : id' = id
      · subst heq
        exact ⟨s, hs, .inr (hfailed hheld s hs hid')⟩
      · refine ⟨s, hs, .inl ⟨id', ?_⟩⟩
        simp only [AuthRepository.setRefresh]
        rw [Function.update_of_ne heq]
        exact hid'
    · exact ⟨s', hs', .inr hfail⟩
  · by_cases heq : RefreshId.repository n = id
    · exact h.unsent n (by rw [heq]; exact hnot n heq.symm)
    · refine h.unsent n fun hended => hn ?_
      simp only [AuthRepository.setRefresh]
      rw [Function.update_of_ne heq]
      exact hended

/-- The session gets new tokens, while the refresh goes on to store them. -/
theorem Sound.renew (h : Sound held c) {id : RefreshId κ} {token : String} (new : Tokens)
    (hid : c.refreshing id = some (.sent token)) (hnew : .submitted new.refreshToken ∉ c.log)
    (hanswered : ∃ token pair, .refreshAnswered token (.ok pair) ∈ c.log ∧
      pair.accessToken = new.accessToken) :
    Sound held ({ c with session := some new }.setRefresh id (.storing new.accessToken)) := by
  have hself : ({ c with session := some new }.setRefresh id (.storing new.accessToken)).refreshing
      id = some (.storing new.accessToken) := Function.update_self ..
  have hother : ∀ {id'}, id' ≠ id →
      ({ c with session := some new }.setRefresh id (.storing new.accessToken)).refreshing id' =
        c.refreshing id' := fun hne => Function.update_of_ne hne ..
  have hsent : ∀ {id' token'},
      ({ c with session := some new }.setRefresh id (.storing new.accessToken)).refreshing id' =
        some (.sent token') → id' ≠ id ∧ c.refreshing id' = some (.sent token') := by
    intro id' token' hid'
    by_cases heq : id' = id
    · rw [heq, hself] at hid'
      cases hid'
    · rw [hother heq] at hid'
      exact ⟨heq, hid'⟩
  refine ⟨h.orderly, fun id' accessToken hid' => ?_, h.retried, fun _ s hs hmem => ?_,
    fun hheld id' token' s hid' _ => ?_, fun hheld id₁ id₂ token₁ token₂ h₁ h₂ => ?_,
    fun n hn => ?_⟩
  · by_cases heq : id' = id
    · rw [heq, hself] at hid'
      obtain rfl := RefreshPhase.storing.inj (Option.some.inj hid')
      exact hanswered
    · rw [hother heq] at hid'
      exact h.storing id' accessToken hid'
  · obtain rfl := Option.some.inj hs
    exact absurd hmem hnew
  · obtain ⟨hne, hid'⟩ := hsent hid'
    exact absurd (h.single hheld id' id token' token hid' hid) hne
  · exact h.single hheld id₁ id₂ token₁ token₂ (hsent h₁).2 (hsent h₂).2
  · refine h.unsent n fun hended => hn ?_
    have hne : RefreshId.repository n ≠ id := by
      rintro rfl
      rw [hid] at hended
      cases hended
    rw [hother hne]
    exact hended

/-- A refresh begins. -/
theorem Sound.refreshInternal (h : Sound held c) (hspent : held → ¬c.Spent) {id : RefreshId κ}
    (hid : ∀ n, id = .repository n → c.refreshing id = none) :
    Sound held (c.refreshInternal id) := by
  unfold AuthRepository.refreshInternal
  split
  · next hs =>
    refine h.setRefresh (fun _ => nofun) (fun _ => nofun) (fun _ s hs' => ?_) fun n hn => ?_
    · rw [hs] at hs'
      cases hs'
    · rw [hid n hn]
      nofun
  · next s hs =>
    have hself : (c.setRefresh id (.sent s.refreshToken)).refreshing id =
        some (.sent s.refreshToken) := by
      simp only [AuthRepository.setRefresh]
      exact Function.update_self ..
    have hother : ∀ {id'}, id' ≠ id →
        (c.setRefresh id (.sent s.refreshToken)).refreshing id' = c.refreshing id' := by
      intro id' hne
      simp only [AuthRepository.setRefresh]
      exact Function.update_of_ne hne ..
    have hnone : ∀ {id' token}, held → id' ≠ id →
        (c.setRefresh id (.sent s.refreshToken)).refreshing id' ≠ some (.sent token) := by
      intro id' token hheld hne
      rw [hother hne]
      exact h.not_sent hheld (hspent hheld) hs id' token
    refine ⟨h.orderly.snoc fun hheld hmem => hspent hheld (h.spent hheld s hs hmem), ?_, ?_, ?_, ?_,
      ?_, ?_⟩
    · intro id' accessToken hid'
      by_cases heq : id' = id
      · subst heq
        rw [refreshing_note, hself] at hid'
        cases hid'
      · rw [refreshing_note, hother heq] at hid'
        obtain ⟨token, pair, hmem, hpair⟩ := h.storing id' accessToken hid'
        exact ⟨token, pair, List.mem_append_left _ hmem, hpair⟩
    · intro r accessToken hmem
      rcases List.mem_append.mp hmem with hmem | hmem
      · exact h.retried r accessToken hmem
      · exact nomatch List.mem_singleton.mp hmem
    · intro hheld s' hs' _
      obtain rfl := Option.some.inj (hs.symm.trans hs')
      exact ⟨s, hs, .inl ⟨id, hself⟩⟩
    · intro hheld id' token s' hid' hs'
      obtain rfl := Option.some.inj (hs.symm.trans hs')
      by_cases heq : id' = id
      · subst heq
        rw [refreshing_note, hself] at hid'
        exact RefreshPhase.sent.inj (Option.some.inj hid')
      · exact absurd hid' (hnone hheld heq)
    · intro hheld id₁ id₂ token₁ token₂ h₁ h₂
      have heq₁ : id₁ = id := by_contra fun hne => hnone hheld hne h₁
      have heq₂ : id₂ = id := by_contra fun hne => hnone hheld hne h₂
      exact heq₁.trans heq₂.symm
    · intro n hn
      by_cases heq : RefreshId.repository n = id
      · exact h.unsent n (by rw [heq, hid n heq.symm]; nofun)
      · rw [refreshing_note, hother heq] at hn
        exact h.unsent n hn

end Refreshes

variable [DecidableEq ι] [DecidableEq κ]

/-- A request moves on, backwards never. -/
theorem Sound.setRequest (h : Sound held c) {r : RequestId ι κ} {phase : RequestPhase}
    (hphase : ∀ accessToken, .retried r accessToken ∈ c.log →
      phase = .answered ∨ ∃ opts err, phase = .retried opts err)
    (hme : ∀ n, r = .me n → c.refreshing (.repository n) = some .ended) :
    Sound held (c.setRequest r phase) where
  orderly := h.orderly
  storing := h.storing
  retried r' accessToken hmem := by
    simp only [AuthRepository.setRequest]
    by_cases hr : r' = r
    · subst hr
      rw [Function.update_self]
      simpa using hphase accessToken hmem
    · rw [Function.update_of_ne hr]
      exact h.retried r' accessToken hmem
  spent := h.spent
  current := h.current
  single := h.single
  unsent n hn := by
    have hne : RequestId.me n ≠ r := fun heq => hn (hme n heq.symm)
    simp only [AuthRepository.setRequest]
    rw [Function.update_of_ne hne]
    exact h.unsent n hn

/-- An answer handed to its caller keeps the state sound. -/
theorem Sound.deliver (h : Sound held c) {r : RequestId ι κ} {phase : RequestPhase}
    (hr : c.requests r = some phase) {o : Outcome}
    (ho : held → (∃ accessToken, .retried r accessToken ∈ c.log) → .retryAnswered r o ∈ c.log) :
    Sound held (c.deliver r o) :=
  (h.setRequest (fun _ _ => .inl rfl) (h.ended_of_request hr)).note ho (fun _ => nofun)
    fun _ _ => nofun

/-- What a request may count on when the future that it awaits is completed. -/
def Backed (held : Prop) (c : AuthRepository ι κ) : Except RefreshException String → Prop
  | .ok accessToken =>
    ∃ token pair, .refreshAnswered token (.ok pair) ∈ c.log ∧ pair.accessToken = accessToken
  | .error (.authApi _) => held → ∀ s, c.session = some s →
    ∃ reply, .refreshAnswered s.refreshToken reply ∈ c.log ∧ reply.Rejects
  | .error .typeError => True

/-- A request goes on after the completion. -/
theorem Sound.resume (h : Sound held c) {result : Except RefreshException String}
    (hresult : Backed held c result) (r : RequestId ι κ) :
    Sound held (AuthRepository.resume result c r) ∧
      Backed held (AuthRepository.resume result c r) result := by
  unfold AuthRepository.resume
  split
  · next opts err hr =>
    have hnot : ∀ accessToken, .retried r accessToken ∉ c.log :=
      h.not_retried hr nofun fun _ _ => nofun
    match result, hresult with
    | .ok newAccess, ⟨token, pair, hmem, hpair⟩ =>
      constructor
      · refine (h.setRequest (fun _ _ => .inr ⟨_, _, rfl⟩) (h.ended_of_request hr)).note
          ⟨hnot, token, pair, hmem, hpair⟩ (fun _ => nofun) fun r' _ heq => ?_
        obtain ⟨rfl, -⟩ := Happening.retried.inj heq
        exact .inr ⟨_, _, Function.update_self ..⟩
      · exact ⟨token, pair, List.mem_append_left _ hmem, hpair⟩
    | .error (.authApi e), hrejected =>
      constructor
      · have hr' : c.fireSessionExpired.requests r = some (.waiting opts err) := by
          rw [requests_fireSessionExpired, hr]
        refine (h.fireSessionExpired hrejected).deliver hr' fun _ => ?_
        rintro ⟨accessToken, hmem⟩
        exact absurd (mem_log_fireSessionExpired.mp hmem) (hnot accessToken)
      · intro _ s hs
        simp only [AuthRepository.deliver, session_note, session_setRequest,
          session_fireSessionExpired] at hs
        cases hs
    | .error .typeError, _ =>
      exact ⟨h.deliver hr fun _ ⟨accessToken, hmem⟩ => absurd hmem (hnot accessToken), trivial⟩
  · exact ⟨h, hresult⟩

/-- Resuming the waiters one after another keeps the state sound. -/
theorem Sound.foldl_resume {result : Except RefreshException String}
    (waiters : List (RequestId ι κ)) (h : Sound held c) (hresult : Backed held c result) :
    Sound held (waiters.foldl (AuthRepository.resume result) c) := by
  induction waiters generalizing c with
  | nil => exact h
  | cons r waiters ih =>
    obtain ⟨hnext, hbacked⟩ := h.resume hresult r
    exact ih hnext hbacked

/-- A refresh ends. -/
theorem Sound.finish (h : Sound held c) {id : RefreshId κ}
    {result : Except RefreshException String} {phase : RefreshPhase}
    (hphase : c.refreshing id = some phase) (hnot : phase ≠ .ended)
    (hfailed : held → ∀ s, c.session = some s → phase = .sent s.refreshToken →
      ∃ reply, .refreshAnswered s.refreshToken reply ∈ c.log ∧ ∀ pair, reply ≠ .ok pair)
    (hresult : id = .interceptor → Backed held c result) :
    Sound held (c.finish id result) := by
  have hended : Sound held (c.setRefresh id .ended) := by
    refine h.setRefresh (fun _ => nofun) (fun _ => nofun) (fun hheld s hs hid => ?_)
      fun n _ hn => ?_
    · rw [hphase] at hid
      exact hfailed hheld s hs (Option.some.inj hid)
    · rw [hphase] at hn
      exact hnot (Option.some.inj hn)
  unfold AuthRepository.finish
  cases id with
  | interceptor =>
    refine Sound.foldl_resume _ (hended.completer none) ?_
    have hbacked := hresult rfl
    match result, hbacked with
    | .ok _, hbacked => exact hbacked
    | .error (.authApi _), hbacked => exact hbacked
    | .error .typeError, _ => trivial
  | repository n =>
    match result with
    | .error e => exact hended
    | .ok accessToken =>
      -- the request of `getMe` is a new one
      have hnone : c.requests (.me n) = none := by
        refine h.unsent n ?_
        rw [hphase]
        exact fun heq => hnot (Option.some.inj heq)
      refine hended.setRequest (fun accessToken hmem => ?_) fun m hm => ?_
      · have hgone := h.retried (.me n) accessToken hmem
        rw [hnone] at hgone
        simp at hgone
      · obtain rfl := RequestId.me.inj hm
        exact Function.update_self ..

/-- The server answers a refresh. -/
theorem Sound.refreshReply (h : Sound held c) {id : RefreshId κ} {reply : RefreshReply}
    (hrotates : ∀ pair, reply = .ok pair → .submitted pair.refreshToken ∉ c.log)
    (hrejected : held → ∀ e, id = .interceptor → reply = .error e → e.statusCode = some 401) :
    Sound held (c.refreshReply id reply) := by
  unfold AuthRepository.refreshReply
  split
  · next token hid =>
    have hnoted : Sound held (c.note (.refreshAnswered token reply)) :=
      h.note trivial (fun _ => nofun) fun _ _ => nofun
    have hmem : .refreshAnswered token reply ∈ (c.note (.refreshAnswered token reply)).log :=
      List.mem_append_right _ (List.mem_singleton_self _)
    -- the token that has been answered is the one of the session
    have hcurrent : held → ∀ s, c.session = some s → s.refreshToken = token :=
      fun hheld s hs => h.current hheld id token s hid hs
    match reply with
    | .ok pair =>
      cases hs : c.session with
      | none =>
        simp only [AuthApi.refresh, session_note, hs]
        refine hnoted.finish hid nofun (fun _ s hs' => ?_) fun _ => trivial
        rw [session_note, hs] at hs'
        cases hs'
      | some s =>
        simp only [AuthApi.refresh, session_note, hs]
        refine hnoted.renew ⟨pair.accessToken, pair.refreshToken⟩ hid ?_ ⟨token, pair, hmem, rfl⟩
        rw [log_note, List.mem_append, not_or]
        exact ⟨hrotates pair rfl, by simp⟩
    | .malformed =>
      simp only [AuthApi.refresh]
      refine hnoted.finish hid nofun (fun hheld s hs hphase => ?_) fun _ => trivial
      rw [hcurrent hheld s hs]
      exact ⟨.malformed, hmem, fun _ => nofun⟩
    | .error e =>
      simp only [AuthApi.refresh]
      refine hnoted.finish hid nofun (fun hheld s hs hphase => ?_) fun hinterceptor hheld s hs => ?_
      · rw [hcurrent hheld s hs]
        exact ⟨.error e, hmem, fun _ => nofun⟩
      · rw [hcurrent hheld s hs]
        exact ⟨.error e, hmem, hrejected hheld e hinterceptor rfl⟩
  · exact h

/-- `onError` up to its `await`. -/
theorem Sound.onError (h : Sound held c) {r : RequestId ι κ} {opts : RequestOptions}
    {err : DioException} (hr : c.requests r = some (.sent opts))
    (hbegins : held → c.refreshesFor opts err = true → c.completer = none → ¬c.Spent) :
    Sound held (c.onError r opts err) := by
  have hnot := h.not_retried hr nofun fun _ _ => nofun
  unfold AuthRepository.onError
  split
  · next hrefreshes =>
    have hwaits : Sound held (c.setRequest r (.waiting opts err)) :=
      h.setRequest (fun accessToken hmem => absurd hmem (hnot accessToken)) (h.ended_of_request hr)
    unfold AuthRepository.refreshOnce
    split
    · exact hwaits.completer _
    · next hcompleter =>
      refine (hwaits.completer _).refreshInternal (fun hheld => ?_) fun _ => nofun
      exact hbegins hheld hrefreshes hcompleter
  · exact h.deliver hr fun _ ⟨accessToken, hmem⟩ => absurd hmem (hnot accessToken)

/-- Every event keeps the invariant. -/
theorem Sound.step (h : Sound held c) (i : Input ι κ) (hrotates : Rotates c i)
    (hsmooth : held → Smooth c i) : Sound held (c.step i) := by
  cases i with
  | send r opts =>
    simp only [AuthRepository.step]
    split
    · next hnone =>
      refine h.setRequest (fun accessToken hmem => ?_) fun _ => nofun
      have hgone := h.retried (.caller r) accessToken hmem
      rw [hnone] at hgone
      simp at hgone
    · exact h
  | reply r o =>
    simp only [AuthRepository.step]
    split
    · next opts data hr =>
      have hnot := h.not_retried hr nofun fun _ _ => nofun
      exact h.deliver hr fun _ ⟨accessToken, hmem⟩ => absurd hmem (hnot accessToken)
    · next opts err hr =>
      refine h.onError hr fun hheld hrefreshes hcompleter => ?_
      exact (hsmooth hheld).begins ⟨opts, hr, hrefreshes, hcompleter⟩
    · next opts err data hr =>
      have hnoted : Sound held (c.note (.retryAnswered r (.response data))) :=
        h.note trivial (fun _ => nofun) fun _ _ => nofun
      exact hnoted.deliver hr fun _ _ => by simp
    · next opts err e hr =>
      have hnoted : Sound held (c.note (.retryAnswered r (.error e))) :=
        h.note trivial (fun _ => nofun) fun _ _ => nofun
      refine hnoted.deliver hr fun hheld _ => ?_
      rw [(hsmooth hheld).retried r opts err e rfl hr]
      simp
    · exact h
  | refresh n =>
    simp only [AuthRepository.step]
    split
    · next hnone =>
      refine h.refreshInternal (fun hheld => (hsmooth hheld).begins hnone) fun m hm => ?_
      obtain rfl := RefreshId.repository.inj hm
      exact hnone
    · exact h
  | refreshReply id reply =>
    refine h.refreshReply ?_ ?_
    · rintro pair rfl
      exact hrotates
    · rintro hheld e rfl rfl
      exact (hsmooth hheld).rejected e rfl
  | stored id =>
    simp only [AuthRepository.step]
    split
    · next accessToken hid =>
      exact h.finish hid nofun (fun _ _ _ => nofun) fun _ => h.storing id accessToken hid
    · exact h

end Operations

/-- **One refresh for all requests.** In every run each request is retried at most once, with the
token of a refresh that has succeeded. In every run whose events do not lead the interceptor astray,
each refresh token is submitted at most once, the caller of a retried request gets the outcome of
the retry, and the session is dropped only if the server has rejected its token. -/
theorem single_flight [DecidableEq ι] [DecidableEq κ] (tokens : Tokens) (run : List (Input ι κ))
    (hrotates : EachStep step Rotates (start ι κ tokens) run) :
    RetriesOrderly (after step (start ι κ tokens) run).log ∧
      (EachStep step Smooth (start ι κ tokens) run →
        SingleFlight (after step (start ι κ tokens) run).log) := by
  constructor
  · have hsound := hrotates.invariant (I := Sound False)
      (fun c i h hi => h.step i hi fun hheld => hheld.elim) (start_sound tokens)
    exact hsound.orderly
  · intro hsmooth
    have hboth := hrotates.and hsmooth
    have hsound := hboth.invariant (I := Sound True)
      (fun c i h hi => h.step i hi.1 fun _ => hi.2) (start_sound tokens)
    exact hsound.orderly

namespace Sample

/-- A repository with the tokens of a login. -/
def signedIn : AuthRepository ℕ ℕ := start ℕ ℕ { accessToken := "a0", refreshToken := "r0" }

def unauthorized : Outcome := .error { statusCode := some 401 }

/-- Two requests are answered 401, and the refresh succeeds. -/
def bothRetried : List (Input ℕ ℕ) :=
  [.send 0 { path := "/orders" }, .send 1 { path := "/stores/me" },
    .reply (.caller 0) unauthorized, .reply (.caller 1) unauthorized,
    .refreshReply .interceptor (.ok { accessToken := "a1", refreshToken := "r1" }),
    .stored .interceptor, .reply (.caller 1) (.response "store"),
    .reply (.caller 0) (.response "orders")]

/-- `AuthRepository.refresh` is called, and a request is answered 401. -/
def twoRefreshes : List (Input ℕ ℕ) :=
  [.send 0 { path := "/orders" }, .refresh 0, .reply (.caller 0) unauthorized]

/-- The retry fails for another reason than the first attempt. -/
def retryFails : List (Input ℕ ℕ) :=
  [.send 0 { path := "/orders" }, .reply (.caller 0) unauthorized,
    .refreshReply .interceptor (.ok { accessToken := "a1", refreshToken := "r1" }),
    .stored .interceptor, .reply (.caller 0) (.error { statusCode := some 409 })]

/-- The refresh is lost on the way. -/
def refreshLost : List (Input ℕ ℕ) :=
  [.send 0 { path := "/orders" }, .reply (.caller 0) unauthorized,
    .refreshReply .interceptor (.error { network := true })]

end Sample

/-- Two requests share a refresh. -/
theorem single_flight_both :
    RetriesOrderly (after step Sample.signedIn Sample.bothRetried).log ∧
      SingleFlight (after step Sample.signedIn Sample.bothRetried).log := by
  have hrotates : EachStep step Rotates Sample.signedIn Sample.bothRetried := by
    have hnew : .submitted "r1" ∉ (after step Sample.signedIn (Sample.bothRetried.take 4)).log := by
      decide +kernel
    exact ⟨trivial, trivial, trivial, trivial, hnew, trivial, trivial, trivial, trivial⟩
  have hsmooth : EachStep step Smooth Sample.signedIn Sample.bothRetried := by
    refine ⟨.of_quiet id (fun _ _ => nofun) fun _ _ => nofun,
      .of_quiet id (fun _ _ => nofun) fun _ _ => nofun, ⟨fun _ => ?_, fun _ => nofun, ?_⟩,
      ⟨fun hbegins => ?_, fun _ => nofun, ?_⟩, .of_quiet id (fun _ _ => nofun) fun _ _ => nofun,
      .of_quiet id (fun _ _ => nofun) fun _ _ => nofun,
      .of_quiet id (fun _ _ => nofun) fun _ _ => nofun,
      .of_quiet id (fun _ _ => nofun) fun _ _ => nofun, trivial⟩
    · rintro ⟨s, -, ⟨id, hid⟩ | ⟨reply, hmem, -⟩⟩
      · cases hid
      · cases hmem
    · rintro r opts err e heq hr
      obtain ⟨rfl, -⟩ := Input.reply.inj heq
      cases hr
    · obtain ⟨opts, -, -, hnone⟩ := hbegins
      cases hnone
    · rintro r opts err e heq hr
      obtain ⟨rfl, -⟩ := Input.reply.inj heq
      cases hr
  obtain ⟨hretries, hrest⟩ := single_flight { accessToken := "a0", refreshToken := "r0" }
    Sample.bothRetried hrotates
  exact ⟨hretries, hrest hsmooth⟩

/-- A token is submitted twice, the outcome of a retry is lost, and a session is dropped for a
network failure. -/
theorem flight_not_single :
    ¬SingleFlight (after step Sample.signedIn Sample.twoRefreshes).log ∧
      ¬SingleFlight (after step Sample.signedIn Sample.retryFails).log ∧
      ¬SingleFlight (after step Sample.signedIn Sample.refreshLost).log := by
  refine ⟨fun h => ?_, fun h => ?_, fun h => ?_⟩
  · have hlog : (after step Sample.signedIn Sample.twoRefreshes).log =
        [.submitted "r0"] ++ .submitted "r0" :: [] := by
      decide +kernel
    exact h _ _ _ hlog trivial (List.mem_singleton_self _)
  · have hlog : (after step Sample.signedIn Sample.retryFails).log =
        [.submitted "r0", .refreshAnswered "r0" (.ok { accessToken := "a1", refreshToken := "r1" }),
          .retried (.caller 0) "a1", .retryAnswered (.caller 0)
            (.error { statusCode := some 409 })] ++
        .delivered (.caller 0) Sample.unauthorized :: [] := by
      decide +kernel
    have hlost := h _ _ _ hlog trivial ⟨"a1", by simp⟩
    exact absurd hlost (by decide +kernel)
  · have hlog : (after step Sample.signedIn Sample.refreshLost).log =
        [.submitted "r0", .refreshAnswered "r0" (.error { network := true })] ++
        .dropped "r0" :: [.delivered (.caller 0) Sample.unauthorized] := by
      decide +kernel
    obtain ⟨reply, hmem, hrejects⟩ := h _ _ _ hlog trivial
    simp only [List.mem_cons, reduceCtorEq, Happening.refreshAnswered.injEq, true_and,
      List.not_mem_nil, or_false, false_or] at hmem
    subst hmem
    cases hrejects

end Marketplace.AuthRepository
