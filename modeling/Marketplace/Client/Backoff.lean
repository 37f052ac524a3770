import Marketplace.Client.WsClient

/-!
# The delays of the reconnections

The delay after the `k`-th attempt in a row that has failed is to be drawn from the `k`-th entry of
the table. `connect` goes back to the first entry as soon as it has a socket, before the handshake,
and a connection that is lost takes the first entry from the attempts after it.
-/

namespace Marketplace

open Lib

namespace WsClient

/-! ### Outcomes -/

/-- What a step means for the attempts: there is no token, the factory throws, there is a new
socket, its handshake succeeds or fails, or an established connection is lost, or ended for good. -/
inductive Outcome
  | quiet
  | noToken
  | refused (draw : ℕ)
  | opened
  | established
  | handshakeFailed (draw : ℕ)
  | lost (draw : ℕ)
  | ended
deriving DecidableEq, Repr

namespace Outcome

/-- An attempt has failed. -/
def fails : Outcome → Bool
  | noToken | refused _ | handshakeFailed _ => true
  | _ => false

end Outcome

variable (c : WsClient)

/-- The end of a socket. -/
def closing (code draw : ℕ) : Outcome :=
  if c.established then if code = 4401 ∨ code = 1000 then .ended else .lost draw
  else .handshakeFailed draw

/-- The outcome of a step before `dispose`. -/
def outcome : Input → Outcome
  | .token i reply =>
    if c.tasks[i]? = some .token then
      match reply with
      | .thrown | .missing => .noToken
      | .refused draw => .refused draw
      | .opened _ => .opened
    else .quiet
  | .established => if c.sub.isSome then .established else .quiet
  | .closed code draw => if c.sub.isSome then c.closing code draw else .quiet
  | .pongTimeout draw =>
    if c.pongTimer ∧ 2 ≤ c.missedPongs + 1 then c.closing 1006 draw else .quiet
  | _ => .quiet

/-- What the attempts read and write. -/
structure Core where
  channel : Bool
  established : Bool
  attempt : ℕ
  delays : List Delay
deriving DecidableEq, Repr

def core : Core :=
  { channel := c.channel.isSome, established := c.established, attempt := c.attempt,
    delays := c.delays }

/-- `_scheduleReconnect`, once there is no socket any more. -/
def Core.schedule (core : Core) (draw : ℕ) : Core :=
  { core with channel := false, attempt := core.attempt + 1,
              delays := core.delays ++ [nextDelay core.attempt draw] }

/-- What an outcome does to them. -/
def Core.after (core : Core) : Outcome → Core
  | .quiet | .noToken => core
  | .refused draw | .handshakeFailed draw | .lost draw => core.schedule draw
  | .opened => { core with channel := true, established := false, attempt := 0 }
  | .established => { core with established := true }
  | .ended => { core with channel := false }

section Frame

variable {c}

/-- The status announced is no part of the core. -/
@[simp] theorem setStatus_core (s : RealtimeStatus) : (c.setStatus s).core = c.core := by
  unfold setStatus
  split <;> rfl

/-- What is sent is no part of the core. -/
@[simp] theorem send_core (frame : Frame) : (c.send frame).core = c.core := by
  unfold send
  split <;> rfl

/-- Connecting leaves the core alone. -/
@[simp] theorem connect_core : c.connect.core = c.core := by
  unfold connect
  split
  · rfl
  · exact setStatus_core .connecting

/-- Scheduling a reconnection schedules it in the core. -/
theorem scheduleReconnect_core (draw : ℕ) (hchannel : c.channel = none) :
    (c.scheduleReconnect draw).core = c.core.schedule draw := by
  have hcore := c.setStatus_core .reconnecting
  simp only [core, Core.mk.injEq] at hcore
  obtain ⟨hsome, hestablished, hattempt, hdelays⟩ := hcore
  simp only [scheduleReconnect, core, Core.schedule, hsome, hestablished, hattempt, hdelays,
    hchannel]
  rfl

/-- `_onClose` before `dispose`. -/
theorem onClose_core (hdisposed : c.disposed = false) (code draw : ℕ) :
    (c.onClose code draw).core =
      if code = 4401 ∨ code = 1000 then { c.core with channel := false }
      else c.core.schedule draw := by
  unfold onClose
  simp only [hdisposed, Bool.false_eq_true, if_false]
  split
  · rw [setStatus_core]
    rfl
  · rw [setStatus_core]
    rfl
  · next hcode hcode' =>
    rw [scheduleReconnect_core draw rfl, if_neg (not_or.mpr ⟨hcode, hcode'⟩)]
    rfl

/-- Listening opens the channel in the core. -/
theorem listen_core (hopen : c.statusClosed = false) (draw : ℕ) :
    (c.listen draw).core = c.core.after .opened := by
  unfold listen
  simp only [hopen, Bool.false_eq_true, and_false, if_false, setStatus_eq, replaySubscriptions]
  rw [foldl_send c.desired rfl]
  rfl

/-- The end of a socket that was listened to. -/
theorem closing_core {d : WsClient} (hdisposed : d.disposed = false) (code draw : ℕ) :
    (d.onClose (if d.established then code else 1006) draw).core =
      d.core.after (d.closing code draw) := by
  rw [onClose_core hdisposed, closing]
  split
  · split <;> rfl
  · rfl

/-- A step does to the attempts what its outcome says. -/
theorem core_step (h : c.Live) (hdisposed : c.disposed = false) {input : Input}
    (hnot : input ≠ .dispose) : (step c input).core = c.core.after (c.outcome input) := by
  cases input with
  | connect => exact connect_core
  | token i reply =>
    simp only [step, outcome]
    split
    · cases reply with
      | thrown => rfl
      | missing => exact setStatus_core _
      | refused draw =>
        exact onClose_core (c := { c with tasks := c.tasks.eraseIdx i }) hdisposed 1006 draw
      | opened draw =>
        exact listen_core (c := { c with tasks := c.tasks.eraseIdx i }) h.streams.status draw
    · rfl
  | established =>
    simp only [step, outcome]
    split <;> rfl
  | message json =>
    simp only [step, outcome, receive]
    split
    · split <;> rfl
    · rfl
  | closed code draw =>
    simp only [step, outcome]
    split
    · exact closing_core (d := { c with openSockets := c.closeSocket c.sub }) hdisposed code draw
    · rfl
  | heartbeatTick =>
    simp only [step, outcome, tickHeartbeat]
    split
    · split
      · rfl
      · exact send_core .ping
    · rfl
  | pongTimeout draw =>
    simp only [step, outcome, missPong]
    by_cases hpong : c.pongTimer = true
    · simp only [hpong, if_true, true_and]
      split
      · have hclose := closing_core
          (d := { c with pongTimer := false, missedPongs := c.missedPongs + 1 }) hdisposed 1006 draw
        rw [ite_self] at hclose
        exact hclose
      · rfl
    · simp only [hpong, Bool.false_eq_true, if_false, false_and]
      rfl
  | reconnectFires =>
    simp only [step, outcome]
    split
    · exact connect_core
    · rfl
  | subscribe channel =>
    simp only [step, outcome, WsClient.subscribe]
    split
    · exact send_core _
    · rfl
  | unsubscribe channel =>
    simp only [step, outcome, WsClient.unsubscribe]
    split
    · exact send_core _
    · rfl
  | sendTyping conversationId isTyping =>
    simp only [step, outcome, WsClient.sendTyping]
    split
    · rfl
    · exact send_core _
  | dispose => exact absurd rfl hnot
  | resume i =>
    simp only [step, outcome, WsClient.resume]
    split
    · rfl
    · exact setStatus_core .disconnected
    · rfl
    · rfl
    · rfl
    · rfl

end Frame

/-! ### Attempts in a row -/

/-- The `k`-th entry of the table, and the last one from then on. -/
def backoffEntry (k : ℕ) : ℕ := backoffSteps.getD (min k backoffSteps.length - 1) 0

/-- What is remembered of the attempts since a connection was last established. -/
structure Attempts where
  failures : ℕ := 0
  /-- The connection that was established has been lost, and a reconnection has been scheduled. -/
  lost : Bool := false
  /-- The current connection has gone back to the first entry from a later one. -/
  reset : Bool := false
deriving DecidableEq, Repr

/-- What an outcome adds to it. -/
def Attempts.after (attempts : Attempts) (attempt : ℕ) : Outcome → Attempts
  | .noToken | .refused _ | .handshakeFailed _ =>
    { attempts with failures := attempts.failures + 1 }
  | .opened => { attempts with reset := decide (0 < attempt) }
  | .established => {}
  | .lost _ => { attempts with lost := true }
  | .quiet | .ended => attempts

/-- The memory of a run. After `dispose` there are no attempts any more. -/
def noteAttempt (attempts : Attempts) (c : WsClient) (input : Input) : Attempts :=
  if c.disposed then attempts else attempts.after c.attempt (c.outcome input)

/-- The client with its memory. -/
def stepNoted : WsClient × Attempts → Input → WsClient × Attempts := withMemory step noteAttempt

/-- After an attempt that fails a delay is scheduled, from the entry for the number of attempts that
have failed in a row; only a new socket goes back in the table, and its handshake does not fail if
it has. -/
structure BacksOff (s : WsClient × Attempts) (input : Input) : Prop where
  delay : (s.1.outcome input).fails = true →
    ∃ draw, (step s.1 input).delays = s.1.delays ++ [⟨backoffEntry (s.2.failures + 1), draw⟩]
  back : (step s.1 input).attempt < s.1.attempt → s.1.outcome input = .opened
  kept : ∀ draw, s.1.outcome input = .handshakeFailed draw → s.2.reset = false

/-- There is a token for every attempt, an established connection is not lost before an attempt that
fails, and only the first attempt that fails does so in its handshake. -/
def Outcome.Early (attempts : Attempts) : Outcome → Prop
  | .noToken => False
  | .refused _ => attempts.lost = false
  | .handshakeFailed _ => attempts.lost = false ∧ attempts.failures = 0
  | _ => True

/-- A condition on the steps before `dispose`. -/
def BeforeDispose (Φ : WsClient × Attempts → Input → Prop) (s : WsClient × Attempts)
    (input : Input) : Prop :=
  s.1.disposed = false → Φ s input

/-! ### The position in the table -/

section Position

variable {core : Core} {attempts : Attempts} {o : Outcome}

/-- The outcomes that there can be with and without a socket. -/
def Core.Enabled (core : Core) : Outcome → Prop
  | .quiet => True
  | .noToken | .refused _ | .opened => core.channel = false
  | .established => core.channel = true
  | .handshakeFailed _ => core.channel = true ∧ core.established = false
  | .lost _ | .ended => core.channel = true ∧ core.established = true

/-- Where the client is in the table, for what is remembered of the attempts. -/
structure Position (core : Core) (attempts : Attempts) : Prop where
  /-- Without a socket it is where the failures have taken it, or the lost connection has. -/
  waiting : core.channel = false →
    core.attempt = if attempts.lost then 1 else attempts.failures
  opened : core.channel = true → core.attempt = 0
  established : core.channel = true → core.established = true →
    attempts.failures = 0 ∧ attempts.lost = false
  handshake : core.channel = true → core.established = false →
    (attempts.reset = true ↔ attempts.lost = true ∨ 0 < attempts.failures)
  lost : attempts.lost = true → attempts.failures = 0

/-- The next delay is the one for the next failure, where the failures have taken the client. -/
theorem nextDelay_eq (failures draw : ℕ) :
    nextDelay failures draw = ⟨backoffEntry (failures + 1), draw⟩ := by
  have hindex : min failures (backoffSteps.length - 1) =
      min (failures + 1) backoffSteps.length - 1 := by
    have hlength : backoffSteps.length = 7 := rfl
    omega
  rw [nextDelay, backoffEntry, hindex]

/-- An early outcome moves the position of the core on. -/
theorem Position.after (h : Position core attempts) (henabled : core.Enabled o)
    (hearly : o.Early attempts) : Position (core.after o) (attempts.after core.attempt o) := by
  cases o with
  | quiet => exact h
  | noToken => exact hearly.elim
  | refused draw =>
    have hlost : attempts.lost = false := hearly
    have hattempt := h.waiting henabled
    rw [hlost] at hattempt
    refine ⟨fun _ => ?_, nofun, nofun, nofun, fun h => ?_⟩
    · simpa [Core.after, Core.schedule, Attempts.after, hlost] using hattempt
    · simp [Attempts.after, hlost] at h
  | opened =>
    have hattempt := h.waiting henabled
    refine ⟨nofun, fun _ => rfl, nofun, fun _ _ => ?_, h.lost⟩
    simp only [Attempts.after, decide_eq_true_eq, hattempt]
    cases hlost : attempts.lost <;> simp
  | established =>
    have hchannel : core.channel = true := henabled
    refine ⟨fun hnone => ?_, fun _ => h.opened hchannel, fun _ _ => ⟨rfl, rfl⟩, nofun, nofun⟩
    exact absurd (hchannel.symm.trans hnone) nofun
  | handshakeFailed draw =>
    obtain ⟨hlost, hfailures⟩ := hearly
    have hattempt := h.opened henabled.1
    refine ⟨fun _ => ?_, nofun, nofun, nofun, fun h => ?_⟩
    · simp [Core.after, Core.schedule, Attempts.after, hlost, hfailures, hattempt]
    · simp [Attempts.after, hlost] at h
  | lost draw =>
    obtain ⟨hfailures, -⟩ := h.established henabled.1 henabled.2
    have hattempt := h.opened henabled.1
    refine ⟨fun _ => ?_, nofun, nofun, nofun, fun _ => hfailures⟩
    simp [Core.after, Core.schedule, Attempts.after, hattempt]
  | ended =>
    obtain ⟨hfailures, hlost⟩ := h.established henabled.1 henabled.2
    have hattempt := h.opened henabled.1
    refine ⟨fun _ => ?_, nofun, nofun, nofun, h.lost⟩
    simp [Core.after, Attempts.after, hattempt, hfailures, hlost]

/-- What is asked of a step, in terms of its outcome. -/
structure Core.BacksOff (core : Core) (attempts : Attempts) (o : Outcome) : Prop where
  delay : o.fails = true →
    ∃ draw, (core.after o).delays = core.delays ++ [⟨backoffEntry (attempts.failures + 1), draw⟩]
  back : (core.after o).attempt < core.attempt → o = .opened
  kept : ∀ draw, o = .handshakeFailed draw → attempts.reset = false

/-- Where the position is right, it stays right exactly as long as attempts fail early. -/
theorem Position.backsOff_iff (h : Position core attempts) (henabled : core.Enabled o) :
    core.BacksOff attempts o ↔ o.Early attempts := by
  cases o with
  | quiet => exact iff_of_true ⟨nofun, fun h => absurd h (lt_irrefl _), nofun⟩ trivial
  | noToken =>
    refine iff_of_false (fun hright => ?_) id
    obtain ⟨draw, hdelays⟩ := hright.delay rfl
    simp [Core.after] at hdelays
  | refused draw =>
    have hattempt := h.waiting henabled
    constructor
    · intro hright
      obtain ⟨draw', hdelays⟩ := hright.delay rfl
      have hdelay := List.append_cancel_left hdelays
      change attempts.lost = false
      by_contra hlost
      have hlost' : attempts.lost = true := by simpa using hlost
      rw [hlost', if_pos rfl] at hattempt
      rw [hattempt, h.lost hlost'] at hdelay
      have hentry : 2 = 1 := congrArg Delay.s (List.cons.inj hdelay).1
      exact absurd hentry (by decide)
    · intro hlost
      have hlost' : attempts.lost = false := hlost
      rw [hlost'] at hattempt
      have hattempt' : core.attempt = attempts.failures := hattempt
      refine ⟨fun _ => ⟨draw, ?_⟩, fun hback => ?_, nofun⟩
      · rw [← nextDelay_eq, ← hattempt']
        rfl
      · exact absurd hback (by simp [Core.after, Core.schedule])
  | opened => exact iff_of_true ⟨nofun, fun _ => rfl, nofun⟩ trivial
  | established => exact iff_of_true ⟨nofun, fun h => absurd h (lt_irrefl _), nofun⟩ trivial
  | handshakeFailed draw =>
    have hattempt := h.opened henabled.1
    have hreset := h.handshake henabled.1 henabled.2
    constructor
    · intro hright
      have hkept := hright.kept draw rfl
      rw [hkept] at hreset
      have hnot : ¬(attempts.lost = true ∨ 0 < attempts.failures) := fun h => nomatch hreset.mpr h
      obtain ⟨hlost, hfailures⟩ := not_or.mp hnot
      exact ⟨by simpa using hlost, by omega⟩
    · rintro ⟨hlost, hfailures⟩
      refine ⟨fun _ => ⟨draw, ?_⟩, fun hback => ?_, fun _ _ => ?_⟩
      · rw [← nextDelay_eq, hfailures, ← hattempt]
        rfl
      · exact absurd hback (by simp [Core.after, Core.schedule])
      · simpa [hlost, hfailures] using hreset
  | lost draw =>
    refine iff_of_true ⟨nofun, fun hback => ?_, nofun⟩ trivial
    exact absurd hback (by simp [Core.after, Core.schedule])
  | ended => exact iff_of_true ⟨nofun, fun h => absurd h (lt_irrefl _), nofun⟩ trivial

end Position

/-! ### Every run -/

section Runs

variable {c : WsClient} {attempts : Attempts} {input : Input}

/-- A client that is live has the outcomes that its socket allows. -/
theorem Live.enabled (h : c.Live) (input : Input) : c.core.Enabled (c.outcome input) := by
  have hsocket (hsub : c.sub.isSome = true) : c.core.channel = true := by
    rwa [h.sub] at hsub
  have hclosing (hsub : c.sub.isSome = true) (code draw : ℕ) :
      c.core.Enabled (c.closing code draw) := by
    have hchannel := hsocket hsub
    unfold closing
    split
    · next hestablished => split <;> exact ⟨hchannel, hestablished⟩
    · next hestablished => exact ⟨hchannel, by simpa [core] using hestablished⟩
  cases input with
  | token i reply =>
    simp only [outcome]
    split
    · next htask =>
      obtain ⟨-, hstatus⟩ : c.tasks = [.token] ∧ c.status = .connecting := by
        refine h.tasks.resolve_left fun hnil => ?_
        simp [hnil] at htask
      have hnone : c.core.channel = false := by
        simp [core, h.channel_eq_none (show c.status ≠ .connected by simp [hstatus])]
      cases reply <;> exact hnone
    · trivial
  | established =>
    simp only [outcome]
    split
    · next hsub => exact hsocket hsub
    · trivial
  | closed code draw =>
    simp only [outcome]
    split
    · next hsub => exact hclosing hsub code draw
    · trivial
  | pongTimeout draw =>
    simp only [outcome]
    split
    · next hpong =>
      have hsome := h.connected.mpr (h.pong hpong.1)
      exact hclosing (h.sub.symm ▸ hsome) 1006 draw
    · trivial
  | _ => trivial

/-- Before `dispose` the client is live, and its position in the table is right. -/
def Tracked (s : WsClient × Attempts) : Prop :=
  s.1.disposed = false → s.1.Live ∧ Position s.1.core s.2

/-- Every input before the disposal keeps the counter tracked. -/
theorem Tracked.step {s : WsClient × Attempts} (h : Tracked s)
    (hearly : BeforeDispose (fun s input => (s.1.outcome input).Early s.2) s input) :
    Tracked (stepNoted s input) := by
  intro hnot
  by_cases hdispose : input = .dispose
  · subst hdispose
    exact absurd hnot nofun
  · have hdisposed : s.1.disposed = false := (step_disposed hdispose).symm.trans hnot
    obtain ⟨hlive, hposition⟩ := h hdisposed
    refine ⟨hlive.step hdisposed hdispose, ?_⟩
    have hafter := hposition.after (hlive.enabled input) (hearly hdisposed)
    simp only [stepNoted, withMemory, noteAttempt, hdisposed, Bool.false_eq_true, if_false]
    rw [core_step hlive hdisposed hdispose]
    exact hafter

/-- The step backs off as its outcome does. -/
theorem backsOff_iff (hlive : c.Live) (hdisposed : c.disposed = false) :
    BacksOff (c, attempts) input ↔ c.core.BacksOff attempts (c.outcome input) := by
  by_cases hdispose : input = .dispose
  · subst hdispose
    exact iff_of_true ⟨nofun, fun h => absurd h (lt_irrefl _), nofun⟩
      ⟨nofun, fun h => absurd h (lt_irrefl _), nofun⟩
  · have hcore := core_step hlive hdisposed hdispose
    have hdelays := congrArg Core.delays hcore
    have hattempt := congrArg Core.attempt hcore
    constructor
    · intro h
      refine ⟨fun hfails => ?_, fun hback => ?_, h.kept⟩
      · obtain ⟨draw, hdraw⟩ := h.delay hfails
        exact ⟨draw, hdelays.symm.trans hdraw⟩
      · exact h.back (lt_of_eq_of_lt hattempt hback)
    · intro h
      refine ⟨fun hfails => ?_, fun hback => ?_, h.kept⟩
      · obtain ⟨draw, hdraw⟩ := h.delay hfails
        exact ⟨draw, hdelays.trans hdraw⟩
      · exact h.back (lt_of_eq_of_lt hattempt.symm hback)

end Runs

end WsClient

open WsClient

/-- Every delay is the right one, in every run before `dispose`, exactly if every attempt has a
token, no established connection is lost before an attempt that fails, and no attempt but the first
fails in its handshake. -/
theorem backoff_iff (run : List Input) :
    EachStep stepNoted (BeforeDispose BacksOff) ({}, {}) run ↔
      EachStep stepNoted (BeforeDispose fun s input => (s.1.outcome input).Early s.2) ({}, {})
        run := by
  have hstart : Tracked ({}, {}) :=
    fun _ => ⟨live_start, fun _ => rfl, nofun, nofun, nofun, nofun⟩
  refine eachStep_congr (I := Tracked) (fun s input h hearly => h.step hearly) ?_ hstart
  intro s input htracked
  refine forall_congr' fun hdisposed => ?_
  obtain ⟨hlive, hposition⟩ := htracked hdisposed
  exact (backsOff_iff hlive hdisposed).trans (hposition.backsOff_iff (hlive.enabled input))

namespace Sample

/-- The server is down: the handshake fails, and then it fails again. -/
def serverDown : List Input :=
  [.connect, .token 0 (.opened 0), .closed 1006 0, .reconnectFires, .token 0 (.opened 0),
   .closed 1006 0]

end Sample

/-- Both delays are drawn from the first entry. -/
theorem backoff_stays : ¬EachStep stepNoted (BeforeDispose BacksOff) ({}, {}) Sample.serverDown ∧
    (after step {} Sample.serverDown).delays = [⟨1, 0⟩, ⟨1, 0⟩] := by
  refine ⟨fun h => ?_, by decide⟩
  have hlast := h.2.2.2.2.2.1 (by decide)
  obtain ⟨draw, hdelays⟩ := hlast.delay (by decide)
  have hentry : 1 = 2 := congrArg (fun delays => (delays.getD 1 ⟨0, 0⟩).s) hdelays
  exact absurd hentry (by decide)

end Marketplace
