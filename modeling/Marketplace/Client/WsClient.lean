import Marketplace.Lib.Run
import Marketplace.Wire.Realtime

/-!
# The WebSocket client

`ws_client.dart`: one socket at a time, the channels it is meant to be subscribed to, the timers of
the heartbeat and of the reconnection. `connect` waits for a token and `dispose` for the socket
to close; everything else that happens may come in between.
-/

namespace Marketplace

open Lib

/-- `RealtimeStatus`. -/
inductive RealtimeStatus
  | disconnected
  | connecting
  | connected
  | reconnecting
  | unauthorized
deriving DecidableEq, Repr

/-- What the client writes to a socket. -/
inductive Frame
  | subscribe (channel : String)
  | unsubscribe (channel : String)
  | ping
  | typing (conversationId : String) (isTyping : Bool)
deriving DecidableEq, Repr

/-- `_backoffSteps`. -/
def backoffSteps : List ℕ := [1, 2, 4, 8, 16, 30, 60]

/-- A delay that was drawn for an entry of the table: `draw` is the random number. -/
structure Delay where
  s : ℕ
  draw : ℕ
deriving DecidableEq, Repr

/-- The milliseconds of a delay. -/
def Delay.millis (delay : Delay) : ℕ := delay.draw % (delay.s * 1000) + delay.s * 500

/-- `_nextDelay`. -/
def nextDelay (attempt draw : ℕ) : Delay :=
  { s := backoffSteps.getD (min attempt (backoffSteps.length - 1)) 0, draw }

/-- What a call waits for: the token of `connect`; of `dispose` the end of the subscription, of the
socket it has taken, and of the three streams. -/
inductive Task
  | token
  | cancelling (ch : Option ℕ)
  | closing
  | closingEvents
  | closingStatus
  | closingDenied
deriving DecidableEq, Repr

/-- How it goes on after `getToken`: it throws, there is no token, the factory throws, or there is a
new socket. -/
inductive TokenReply
  | thrown
  | missing
  | refused (draw : ℕ)
  | opened (draw : ℕ)
deriving DecidableEq, Repr

/-- The client, and what it has done to the sockets and the streams. -/
structure WsClient where
  status : RealtimeStatus := .disconnected
  disposed : Bool := false
  desired : List String := []
  channel : Option ℕ := none
  /-- The socket whose stream is listened to. -/
  sub : Option ℕ := none
  heartbeatTimer : Bool := false
  pongTimer : Bool := false
  reconnectTimer : Bool := false
  missedPongs : ℕ := 0
  attempt : ℕ := 0
  tasks : List Task := []
  eventsClosed : Bool := false
  statusClosed : Bool := false
  deniedClosed : Bool := false
  /-- The number of sockets that were opened; they are numbered in this order. -/
  opened : ℕ := 0
  openSockets : List ℕ := []
  /-- The handshake of the socket that is listened to has succeeded. -/
  established : Bool := false
  sent : List (ℕ × Frame) := []
  /-- Something was added to a closed stream. -/
  addedToClosed : Bool := false
  /-- The delays of the reconnections, in the order in which they were scheduled. -/
  delays : List Delay := []
deriving DecidableEq, Repr

namespace WsClient

variable (c : WsClient)

/-- `_setStatus`. -/
def setStatus (s : RealtimeStatus) : WsClient :=
  if c.status = s then c
  else { c with status := s, addedToClosed := c.addedToClosed || c.statusClosed }

/-- `_send`. -/
def send (frame : Frame) : WsClient :=
  match c.channel with
  | none => c
  | some id => { c with sent := c.sent ++ [(id, frame)] }

/-- The sockets that are open after one of them is closed. -/
def closeSocket (ch : Option ℕ) : List ℕ :=
  match ch with
  | none => c.openSockets
  | some id => c.openSockets.erase id

/-- `_scheduleReconnect`. -/
def scheduleReconnect (draw : ℕ) : WsClient :=
  let c := c.setStatus .reconnecting
  { c with reconnectTimer := true, attempt := c.attempt + 1,
           delays := c.delays ++ [nextDelay c.attempt draw] }

/-- `_onClose`. -/
def onClose (code draw : ℕ) : WsClient :=
  let c := { c with heartbeatTimer := false, pongTimer := false, channel := none, sub := none,
                    openSockets := c.closeSocket c.channel }
  if c.disposed then c
  else
    match code with
    | 4401 => c.setStatus .unauthorized
    | 1000 => c.setStatus .disconnected
    | _ => c.scheduleReconnect draw

/-- `_replaySubscriptions`. -/
def replaySubscriptions : WsClient :=
  c.desired.foldl (fun c channel => c.send (.subscribe channel)) c

/-- `connect`, up to `await getToken()`. -/
def connect : WsClient :=
  if c.disposed ∨ c.status = .connected ∨ c.status = .connecting then c
  else
    let c := c.setStatus .connecting
    { c with tasks := c.tasks ++ [.token] }

/-- `connect`, once the factory has returned a socket. To report the status throws when the stream
of the status is closed. -/
def listen (draw : ℕ) : WsClient :=
  let c := { c with channel := some c.opened, sub := some c.opened, opened := c.opened + 1,
                    openSockets := c.openSockets ++ [c.opened], established := false,
                    attempt := 0, missedPongs := 0 }
  if c.status ≠ .connected ∧ c.statusClosed then (c.setStatus .connected).onClose 1006 draw
  else
    let c := c.setStatus .connected
    { c with heartbeatTimer := true }.replaySubscriptions

/-- `connect`, after `await getToken()`. -/
def connectWith (reply : TokenReply) : WsClient :=
  match reply with
  | .thrown => c
  | .missing => c.setStatus .unauthorized
  | .refused draw => c.onClose 1006 draw
  | .opened draw => c.listen draw

/-- The channels that are desired after one is added. -/
def desiredWith (channel : String) : List String :=
  if channel ∈ c.desired then c.desired else c.desired ++ [channel]

/-- `subscribe`. -/
def subscribe (channel : String) : WsClient :=
  let c := { c with desired := c.desiredWith channel }
  if c.status = .connected then c.send (.subscribe channel) else c

/-- `unsubscribe`. -/
def unsubscribe (channel : String) : WsClient :=
  let c := { c with desired := c.desired.filter fun x => x ≠ channel }
  if c.status = .connected then c.send (.unsubscribe channel) else c

/-- `sendTyping`. -/
def sendTyping (conversationId : String) (isTyping : Bool) : WsClient :=
  if c.status ≠ .connected then c else c.send (.typing conversationId isTyping)

/-- `dispose`, up to its first `await`. -/
def dispose : WsClient :=
  { c with disposed := true, reconnectTimer := false, heartbeatTimer := false, pongTimer := false,
           desired := [], channel := none, sub := none,
           tasks := c.tasks ++ [.cancelling c.channel] }

/-- `dispose`, from one `await` to the next. -/
def resume (i : ℕ) : WsClient :=
  match c.tasks[i]? with
  | some (.cancelling ch) =>
    { c with openSockets := c.closeSocket ch, tasks := c.tasks.set i .closing }
  | some .closing =>
    let c := c.setStatus .disconnected
    { c with eventsClosed := true, tasks := c.tasks.set i .closingEvents }
  | some .closingEvents => { c with statusClosed := true, tasks := c.tasks.set i .closingStatus }
  | some .closingStatus => { c with deniedClosed := true, tasks := c.tasks.set i .closingDenied }
  | some .closingDenied => { c with tasks := c.tasks.eraseIdx i }
  | _ => c

/-- `_onRaw`: what it does with the message it has read. -/
def receive (json : Json.Entries) : WsClient :=
  match onRaw json with
  | .ok .pong => { c with missedPongs := 0, pongTimer := false }
  | .ok (.denied channel) =>
    { c with desired := c.desired.filter fun x => x ≠ channel,
             addedToClosed := c.addedToClosed || c.deniedClosed }
  | .ok (.event _) => { c with addedToClosed := c.addedToClosed || c.eventsClosed }
  | _ => c

/-- `_tickHeartbeat`. -/
def tickHeartbeat : WsClient :=
  if c.status ≠ .connected then c
  else { c.send .ping with pongTimer := true }

/-- The callback of the pong timer. -/
def missPong (draw : ℕ) : WsClient :=
  let c := { c with pongTimer := false, missedPongs := c.missedPongs + 1 }
  if 2 ≤ c.missedPongs then c.onClose 1006 draw else c

/-- What can happen next. -/
inductive Input
  | connect
  | token (i : ℕ) (reply : TokenReply)
  /-- The handshake succeeds. -/
  | established
  | message (json : Json.Entries)
  /-- The stream of the socket ends, with its close code, or with an error. -/
  | closed (code draw : ℕ)
  | heartbeatTick
  | pongTimeout (draw : ℕ)
  | reconnectFires
  | subscribe (channel : String)
  | unsubscribe (channel : String)
  | sendTyping (conversationId : String) (isTyping : Bool)
  | dispose
  | resume (i : ℕ)

/-- A step. A stream that is not listened to delivers nothing, a timer that is not running does not
fire, and a socket whose handshake has not succeeded has no close code. -/
def step (c : WsClient) : Input → WsClient
  | .connect => c.connect
  | .token i reply =>
    if c.tasks[i]? = some .token then
      { c with tasks := c.tasks.eraseIdx i }.connectWith reply
    else c
  | .established => if c.sub.isSome then { c with established := true } else c
  | .message json => if c.sub.isSome then c.receive json else c
  | .closed code draw =>
    if c.sub.isSome then
      { c with openSockets := c.closeSocket c.sub }.onClose 
        (if c.established then code else 1006) draw
    else c
  | .heartbeatTick => if c.heartbeatTimer then c.tickHeartbeat else c
  | .pongTimeout draw => if c.pongTimer then c.missPong draw else c
  | .reconnectFires =>
    if c.reconnectTimer then { c with reconnectTimer := false }.connect else c
  | .subscribe channel => c.subscribe channel
  | .unsubscribe channel => c.unsubscribe channel
  | .sendTyping conversationId isTyping => c.sendTyping conversationId isTyping
  | .dispose => c.dispose
  | .resume i => c.resume i

/-! ### What is to hold -/

/-- The client is safe: one socket at most, nothing left after `dispose` but the socket that it is
about to close, nothing added to a closed stream, and every channel requested while connected. -/
structure Safe (c : WsClient) : Prop where
  oneSocket : c.openSockets.length ≤ 1
  leftOpen : c.disposed → ∀ id ∈ c.openSockets, Task.cancelling (some id) ∈ c.tasks
  noTimer : c.disposed → c.heartbeatTimer = false ∧ c.pongTimer = false ∧ c.reconnectTimer = false
  quiet : c.addedToClosed = false
  requested : c.status = .connected → ∀ channel ∈ c.desired,
    ∃ id, c.channel = some id ∧ (id, Frame.subscribe channel) ∈ c.sent

/-- No socket is opened after `dispose`. -/
def OpensInTime (c : WsClient) (input : Input) : Prop :=
  c.disposed → (step c input).opened = c.opened

/-- No token comes after `dispose`, nor its absence once that has reported the client as
disconnected; and nobody subscribes before it has. -/
def InTime (c : WsClient) : Input → Prop
  | .token _ (.opened _) => c.disposed = false
  | .token _ .missing => c.eventsClosed = false
  | .subscribe _ => c.disposed → c.status ≠ .connected
  | _ => True

/-! ### Before `dispose` -/

/-- The streams are open, and nothing has been added to a closed one. -/
structure StreamsOpen (c : WsClient) : Prop where
  events : c.eventsClosed = false
  status : c.statusClosed = false
  denied : c.deniedClosed = false
  quiet : c.addedToClosed = false

/-- The client before `dispose`: it has a socket exactly when it reports that it is connected, and
waits for a token only while it reports that it is connecting. -/
structure Live (c : WsClient) : Prop where
  tasks : c.tasks = [] ∨ c.tasks = [.token] ∧ c.status = .connecting
  sockets : c.openSockets = c.channel.toList
  sub : c.sub = c.channel
  connected : c.channel.isSome ↔ c.status = .connected
  pong : c.pongTimer = true → c.status = .connected
  streams : c.StreamsOpen
  requested : ∀ id, c.channel = some id → ∀ channel ∈ c.desired,
    (id, Frame.subscribe channel) ∈ c.sent

section Live

variable {c}

/-- While its stream is open, the status is just set. -/
theorem setStatus_eq (h : c.statusClosed = false) (s : RealtimeStatus) :
    c.setStatus s = { c with status := s } := by
  unfold setStatus
  split
  · next hsame => rw [← hsame]
  · rw [h, Bool.or_false]

/-- A frame on an open channel is sent on that channel. -/
theorem send_eq {id : ℕ} (h : c.channel = some id) (frame : Frame) :
    c.send frame = { c with sent := c.sent ++ [(id, frame)] } := by
  rw [send, h]

/-- The subscriptions are replayed on the current socket, one after another. -/
theorem foldl_send {id : ℕ} (channels : List String) {d : WsClient} (h : d.channel = some id) :
    channels.foldl (fun c channel => c.send (.subscribe channel)) d =
      { d with sent := d.sent ++ channels.map fun channel => (id, Frame.subscribe channel) } := by
  induction channels generalizing d with
  | nil => simp
  | cons channel channels ih =>
    rw [List.foldl_cons, send_eq h]
    refine (ih (d := { d with sent := d.sent ++ [(id, .subscribe channel)] }) h).trans ?_
    simp

/-- Only a connecting client has a connection under way. -/
theorem Live.tasks_eq_nil (h : c.Live) (hstatus : c.status ≠ .connecting) : c.tasks = [] :=
  h.tasks.resolve_right fun hc => hstatus hc.2

/-- Only a connected client has a channel. -/
theorem Live.channel_eq_none (h : c.Live) (hstatus : c.status ≠ .connected) : c.channel = none := by
  rw [← Option.not_isSome_iff_eq_none, h.connected]
  exact hstatus

/-- The socket of a connected client. -/
theorem Live.exists_channel (h : c.Live) (hstatus : c.status = .connected) :
    ∃ id, c.channel = some id :=
  Option.isSome_iff_exists.mp (h.connected.mpr hstatus)

/-- A client that is neither connected nor connecting is live without a socket. -/
theorem Live.idle {d : WsClient} (htasks : d.tasks = []) (hsockets : d.openSockets = [])
    (hchannel : d.channel = none) (hsub : d.sub = none) (hstatus : d.status ≠ .connected)
    (hpong : d.pongTimer = false) (hstreams : d.StreamsOpen) : d.Live where
  tasks := .inl htasks
  sockets := by rw [hsockets, hchannel]; rfl
  sub := by rw [hsub, hchannel]
  connected := by simp [hchannel, hstatus]
  pong h := by simp [hpong] at h
  streams := hstreams
  requested := by simp [hchannel]

/-- `_onClose` leaves a client without a socket. -/
theorem Live.onClose {d : WsClient} (hdisposed : d.disposed = false) (htasks : d.tasks = [])
    (hsockets : d.closeSocket d.channel = []) (hstreams : d.StreamsOpen) (code draw : ℕ) :
    (d.onClose code draw).Live := by
  obtain ⟨hevents, hstatus, hdenied, hquiet⟩ := hstreams
  unfold WsClient.onClose
  simp only [hdisposed, Bool.false_eq_true, if_false, scheduleReconnect, setStatus_eq, hstatus]
  split
  · exact Live.idle htasks hsockets rfl rfl nofun rfl ⟨hevents, rfl, hdenied, hquiet⟩
  · exact Live.idle htasks hsockets rfl rfl nofun rfl ⟨hevents, rfl, hdenied, hquiet⟩
  · exact Live.idle htasks hsockets rfl rfl nofun rfl ⟨hevents, rfl, hdenied, hquiet⟩

/-- Connecting keeps a live client live. -/
theorem Live.connect (h : c.Live) : c.connect.Live := by
  unfold WsClient.connect
  split
  · exact h
  · next hstart =>
    obtain ⟨-, hnot⟩ := not_or.mp hstart
    obtain ⟨hconnected, hconnecting⟩ := not_or.mp hnot
    have htasks := h.tasks_eq_nil hconnecting
    have hchannel := h.channel_eq_none hconnected
    have hstreams := h.streams
    rw [setStatus_eq hstreams.status]
    refine { h with tasks := .inr ⟨?_, rfl⟩, connected := ?_, pong := ?_,
                    streams := ⟨hstreams.events, hstreams.status, hstreams.denied, hstreams.quiet⟩ }
    · simp [htasks]
    · simp [hchannel]
    · exact fun hpong => absurd (h.pong hpong) hconnected

/-- A new socket, with every subscription replayed on it. -/
theorem Live.listen {d : WsClient} (htasks : d.tasks = []) (hsockets : d.openSockets = [])
    (hstreams : d.StreamsOpen) (draw : ℕ) : (d.listen draw).Live := by
  obtain ⟨hevents, hstatus, hdenied, hquiet⟩ := hstreams
  unfold WsClient.listen
  simp only [hstatus, Bool.false_eq_true, and_false, if_false, setStatus_eq,
    WsClient.replaySubscriptions]
  rw [foldl_send d.desired rfl]
  refine { tasks := .inl htasks, sockets := ?_, sub := rfl, connected := ?_, pong := fun _ => rfl,
           streams := ⟨hevents, rfl, hdenied, hquiet⟩, requested := ?_ }
  · simp [hsockets]
  · simp
  · rintro id hid channel hchannel
    obtain rfl := Option.some.inj hid
    exact List.mem_append_right _ (List.mem_map.mpr ⟨channel, hchannel, rfl⟩)

/-- The token comes while the client is connecting. -/
theorem Live.connectWith (h : c.Live) (hdisposed : c.disposed = false) {i : ℕ}
    (htask : c.tasks[i]? = some .token) (reply : TokenReply) :
    ({ c with tasks := c.tasks.eraseIdx i }.connectWith reply).Live := by
  obtain ⟨htasks, hstatus⟩ : c.tasks = [.token] ∧ c.status = .connecting := by
    refine h.tasks.resolve_left fun hnil => ?_
    simp [hnil] at htask
  have hrest : c.tasks.eraseIdx i = [] := by
    rw [htasks] at htask ⊢
    cases i with
    | zero => rfl
    | succ i => simp at htask
  have hchannel : c.channel = none := h.channel_eq_none (by simp [hstatus])
  have hsockets : c.openSockets = [] := by rw [h.sockets, hchannel]; rfl
  have hsub : c.sub = none := h.sub.trans hchannel
  have hpong : c.pongTimer = false := by
    by_contra hpong
    simpa [hstatus] using h.pong (by simpa using hpong)
  obtain ⟨hevents, hopen, hdenied, hquiet⟩ := h.streams
  cases reply with
  | thrown =>
    exact { h with tasks := .inl hrest, streams := ⟨hevents, hopen, hdenied, hquiet⟩ }
  | missing =>
    rw [WsClient.connectWith, setStatus_eq (c := { c with tasks := c.tasks.eraseIdx i }) hopen]
    exact Live.idle hrest hsockets hchannel hsub nofun hpong ⟨hevents, hopen, hdenied, hquiet⟩
  | refused draw =>
    refine Live.onClose (d := { c with tasks := c.tasks.eraseIdx i }) hdisposed hrest ?_
      ⟨hevents, hopen, hdenied, hquiet⟩ 1006 draw
    simp [closeSocket, hchannel, hsockets]
  | opened draw =>
    exact Live.listen (d := { c with tasks := c.tasks.eraseIdx i }) hrest hsockets
      ⟨hevents, hopen, hdenied, hquiet⟩ draw

/-- Subscribing wants the channel besides those already wanted. -/
theorem mem_desiredWith {channel x : String} :
    x ∈ c.desiredWith channel ↔ x ∈ c.desired ∨ x = channel := by
  unfold desiredWith
  split
  · next hmem =>
    refine ⟨.inl, ?_⟩
    rintro (hx | rfl)
    · exact hx
    · exact hmem
  · simp

/-- Subscribing keeps a live client live. -/
theorem Live.subscribe (h : c.Live) (channel : String) : (c.subscribe channel).Live := by
  obtain ⟨hevents, hopen, hdenied, hquiet⟩ := h.streams
  unfold WsClient.subscribe
  dsimp only
  split
  · next hstatus =>
    obtain ⟨id, hid⟩ := h.exists_channel hstatus
    rw [send_eq (c := { c with desired := c.desiredWith channel }) hid]
    refine { h with streams := ⟨hevents, hopen, hdenied, hquiet⟩, requested := ?_ }
    intro id' hid' x hx
    obtain rfl := Option.some.inj (hid.symm.trans hid')
    rcases mem_desiredWith.mp hx with hold | rfl
    · exact List.mem_append_left _ (h.requested id hid x hold)
    · exact List.mem_append_right _ (List.mem_singleton.mpr rfl)
  · next hstatus =>
    have hchannel := h.channel_eq_none hstatus
    exact { h with streams := ⟨hevents, hopen, hdenied, hquiet⟩, requested := by simp [hchannel] }

/-- To write to the socket changes nothing else. -/
theorem Live.send (h : c.Live) (frame : Frame) : (c.send frame).Live := by
  obtain ⟨hevents, hopen, hdenied, hquiet⟩ := h.streams
  cases hchannel : c.channel with
  | none =>
    rw [WsClient.send, hchannel]
    exact h
  | some id =>
    rw [send_eq hchannel]
    exact { h with
      streams := ⟨hevents, hopen, hdenied, hquiet⟩
      requested := fun id' hid' x hx => List.mem_append_left _ (h.requested id' hid' x hx) }

/-- Wanting fewer channels keeps a live client live. -/
theorem Live.without (h : c.Live) (channel : String) :
    Live { c with desired := c.desired.filter fun x => x ≠ channel } := by
  obtain ⟨hevents, hopen, hdenied, hquiet⟩ := h.streams
  exact { h with
    streams := ⟨hevents, hopen, hdenied, hquiet⟩
    requested := fun id hid x hx => h.requested id hid x (List.mem_of_mem_filter hx) }

/-- Unsubscribing keeps a live client live. -/
theorem Live.unsubscribe (h : c.Live) (channel : String) : (c.unsubscribe channel).Live := by
  unfold WsClient.unsubscribe
  dsimp only
  split
  · exact (h.without channel).send _
  · exact h.without channel

/-- A received frame keeps a live client live. -/
theorem Live.receive (h : c.Live) (json : Json.Entries) : (c.receive json).Live := by
  obtain ⟨hevents, hopen, hdenied, hquiet⟩ := h.streams
  unfold WsClient.receive
  split
  · exact { h with pong := nofun, streams := ⟨hevents, hopen, hdenied, hquiet⟩ }
  · next channel _ =>
    have hquiet' : (c.addedToClosed || c.deniedClosed) = c.addedToClosed := by
      rw [hdenied, Bool.or_false]
    rw [hquiet']
    exact h.without channel
  · have hquiet' : (c.addedToClosed || c.eventsClosed) = c.addedToClosed := by
      rw [hevents, Bool.or_false]
    rw [hquiet']
    exact h
  · exact h

/-- Every input but `dispose` keeps a live client live. -/
theorem Live.step (h : c.Live) (hdisposed : c.disposed = false) {input : Input}
    (hnot : input ≠ .dispose) : (step c input).Live := by
  obtain ⟨hevents, hopen, hdenied, hquiet⟩ := h.streams
  cases input with
  | connect => exact h.connect
  | token i reply =>
    simp only [WsClient.step]
    split
    · next htask => exact h.connectWith hdisposed htask reply
    · exact h
  | established =>
    simp only [WsClient.step]
    split
    · exact { h with streams := ⟨hevents, hopen, hdenied, hquiet⟩ }
    · exact h
  | message json =>
    simp only [WsClient.step]
    split
    · exact h.receive json
    · exact h
  | closed code draw =>
    simp only [WsClient.step]
    split
    · next hsub =>
      rw [h.sub, h.connected] at hsub
      have htasks := h.tasks_eq_nil (by simp [hsub])
      obtain ⟨id, hid⟩ := h.exists_channel hsub
      refine Live.onClose (d := { c with openSockets := c.closeSocket c.sub }) hdisposed htasks ?_
        ⟨hevents, hopen, hdenied, hquiet⟩ _ draw
      simp [closeSocket, h.sub, hid, h.sockets]
    · exact h
  | heartbeatTick =>
    simp only [WsClient.step, tickHeartbeat]
    split
    · split
      · exact h
      · next hstatus =>
        have hconnected : c.status = .connected := by simpa using hstatus
        obtain ⟨id, hid⟩ := h.exists_channel hconnected
        rw [send_eq hid]
        exact { h with
          pong := fun _ => hconnected
          streams := ⟨hevents, hopen, hdenied, hquiet⟩
          requested := fun id' hid' x hx => List.mem_append_left _ (h.requested id' hid' x hx) }
    · exact h
  | pongTimeout draw =>
    simp only [WsClient.step, missPong]
    split
    · next hpong =>
      have hconnected := h.pong hpong
      split
      · have htasks := h.tasks_eq_nil (by simp [hconnected])
        obtain ⟨id, hid⟩ := h.exists_channel hconnected
        refine Live.onClose
          (d := { c with pongTimer := false, missedPongs := c.missedPongs + 1 }) hdisposed htasks ?_
          ⟨hevents, hopen, hdenied, hquiet⟩ 1006 draw
        simp [closeSocket, hid, h.sockets]
      · exact { h with pong := nofun, streams := ⟨hevents, hopen, hdenied, hquiet⟩ }
    · exact h
  | reconnectFires =>
    simp only [WsClient.step]
    split
    · refine Live.connect ?_
      exact { h with streams := ⟨hevents, hopen, hdenied, hquiet⟩ }
    · exact h
  | subscribe channel => exact h.subscribe channel
  | unsubscribe channel => exact h.unsubscribe channel
  | sendTyping conversationId isTyping =>
    simp only [WsClient.step, WsClient.sendTyping]
    split
    · exact h
    · exact h.send _
  | dispose => exact absurd rfl hnot
  | resume i =>
    simp only [WsClient.step, resume]
    rcases h.tasks with hnil | ⟨htoken, -⟩
    · simp [hnil, h]
    · rw [htoken]
      cases i with
      | zero => exact h
      | succ i => exact h

/-- A new client is live. -/
theorem live_start : Live {} := Live.idle rfl rfl rfl rfl nofun rfl ⟨rfl, rfl, rfl, rfl⟩

end Live

/-! ### Only `dispose` disposes -/

section Disposed

variable {c}

/-- A new status disposes of nothing. -/
@[simp] theorem setStatus_disposed (s : RealtimeStatus) :
    (c.setStatus s).disposed = c.disposed := by
  unfold setStatus
  split <;> rfl

/-- Sending disposes of nothing. -/
@[simp] theorem send_disposed (frame : Frame) : (c.send frame).disposed = c.disposed := by
  unfold send
  split <;> rfl

/-- The closing of a channel disposes of nothing. -/
@[simp] theorem onClose_disposed (code draw : ℕ) : (c.onClose code draw).disposed = c.disposed := by
  unfold onClose
  dsimp only
  split
  · rfl
  · split <;> simp [scheduleReconnect]

/-- Connecting disposes of nothing. -/
@[simp] theorem connect_disposed : c.connect.disposed = c.disposed := by
  unfold connect
  split
  · rfl
  · simp

/-- Replaying the subscriptions disposes of nothing. -/
@[simp] theorem replaySubscriptions_disposed : c.replaySubscriptions.disposed = c.disposed := by
  have hfold (channels : List String) (d : WsClient) :
      (channels.foldl (fun c channel => c.send (.subscribe channel)) d).disposed = d.disposed := by
    induction channels generalizing d with
    | nil => rfl
    | cons channel channels ih => rw [List.foldl_cons, ih, send_disposed]
  exact hfold c.desired c

/-- The answer about the token disposes of nothing. -/
@[simp] theorem connectWith_disposed (reply : TokenReply) :
    (c.connectWith reply).disposed = c.disposed := by
  cases reply with
  | thrown => rfl
  | missing => simp [connectWith]
  | refused draw => simp [connectWith]
  | opened draw =>
    simp only [connectWith, listen]
    split <;> simp

/-- Only `dispose` disposes of the client. -/
theorem step_disposed {input : Input} (h : input ≠ .dispose) :
    (step c input).disposed = c.disposed := by
  cases input with
  | connect => exact connect_disposed
  | token i reply =>
    simp only [step]
    split <;> simp
  | established =>
    simp only [step]
    split <;> rfl
  | message json =>
    simp only [step, receive]
    split
    · split <;> rfl
    · rfl
  | closed code draw =>
    simp only [step]
    split <;> simp
  | heartbeatTick =>
    simp only [step, tickHeartbeat]
    split
    · split <;> simp
    · rfl
  | pongTimeout draw =>
    simp only [step, missPong]
    split
    · split <;> simp
    · rfl
  | reconnectFires =>
    simp only [step]
    split <;> simp
  | subscribe channel =>
    simp only [step, subscribe]
    split <;> simp
  | unsubscribe channel =>
    simp only [step, unsubscribe]
    split <;> simp
  | sendTyping conversationId isTyping =>
    simp only [step, sendTyping]
    split <;> simp
  | dispose => exact absurd rfl h
  | resume i =>
    simp only [step, resume]
    split <;> simp

end Disposed

/-! ### After `dispose` -/

/-- The client after `dispose`: no timer, no socket but the one that it is about to close, and no
change of the status once the streams are being closed. -/
structure Ended (c : WsClient) : Prop where
  channel : c.channel = none
  sub : c.sub = none
  heartbeat : c.heartbeatTimer = false
  pong : c.pongTimer = false
  reconnect : c.reconnectTimer = false
  sockets : ∀ id ∈ c.openSockets, Task.cancelling (some id) ∈ c.tasks
  oneSocket : c.openSockets.length ≤ 1
  desired : c.status = .connected → c.desired = []
  reported : c.eventsClosed = true → c.status = .disconnected
  closing : Task.closingEvents ∈ c.tasks → c.eventsClosed = true
  order : c.statusClosed = true → c.eventsClosed = true
  quiet : c.addedToClosed = false

section Ended

variable {c} {i : ℕ} {task task' next : Task}

/-- A client that has ended sends nothing. -/
theorem Ended.send_eq_self (h : c.Ended) (frame : Frame) : c.send frame = c := by
  rw [WsClient.send, h.channel]

/-- Until the first stream is closed, the stream of the status is open. -/
theorem Ended.statusClosed_eq_false (h : c.Ended) (hevents : c.eventsClosed = false) :
    c.statusClosed = false := by
  by_contra hstatus
  simpa [hevents] using h.order (by simpa using hstatus)

/-- To report that the client is disconnected adds nothing to a closed stream. -/
theorem Ended.setStatus_disconnected (h : c.Ended) :
    c.setStatus .disconnected = { c with status := .disconnected } := by
  by_cases hevents : c.eventsClosed = true
  · have hstatus := h.reported hevents
    rw [setStatus, if_pos hstatus, ← hstatus]
  · exact setStatus_eq (h.statusClosed_eq_false (by simpa using hevents)) _

/-- A task other than the closing of a socket is done. -/
theorem Ended.erase (h : c.Ended) (hi : c.tasks[i]? = some task)
    (hne : ∀ id, task ≠ .cancelling (some id)) : Ended { c with tasks := c.tasks.eraseIdx i } :=
  { h with
    sockets := fun id hid => mem_eraseIdx_of_ne (h.sockets id hid) hi (hne id)
    closing := fun hmem => h.closing (List.mem_of_mem_eraseIdx hmem) }

/-- Such a task goes on. -/
theorem Ended.set (h : c.Ended) (hi : c.tasks[i]? = some task)
    (hne : ∀ id, task ≠ .cancelling (some id)) (hnext : next ≠ .closingEvents) :
    Ended { c with tasks := c.tasks.set i next } :=
  { h with
    sockets := fun id hid => mem_set_of_ne (h.sockets id hid) hi (hne id)
    closing := fun hmem => h.closing <| (List.mem_or_eq_of_mem_set hmem).resolve_right
      (Ne.symm hnext) }

/-- The socket that `dispose` has taken is closed. -/
theorem Ended.closed {id : ℕ} (h : c.Ended) (hi : c.tasks[i]? = some (.cancelling (some id))) :
    Ended { c with openSockets := c.openSockets.erase id, tasks := c.tasks.set i .closing } := by
  refine { h with
    sockets := fun id' hid' => ?_
    oneSocket := List.erase_sublist.length_le.trans h.oneSocket
    closing := fun hmem => h.closing ((List.mem_or_eq_of_mem_set hmem).resolve_right nofun) }
  have hmem : id' ∈ c.openSockets.erase id := hid'
  refine mem_set_of_ne (h.sockets id' (List.mem_of_mem_erase hmem)) hi ?_
  -- the socket was the only one
  rintro heq
  obtain rfl := Option.some.inj (Task.cancelling.inj heq)
  rcases hsockets : c.openSockets with _ | ⟨x, _ | ⟨y, rest⟩⟩
  · simp [hsockets] at hmem
  · have hold := List.mem_of_mem_erase hmem
    rw [hsockets] at hmem hold
    simp [List.mem_singleton.mp hold] at hmem
  · have hone := h.oneSocket
    simp [hsockets] at hone

/-- A connection that resumes after the end opens no channel. -/
theorem Ended.resume (h : c.Ended) (i : ℕ) :
    (c.resume i).Ended ∧ (c.resume i).opened = c.opened := by
  unfold WsClient.resume
  split
  · next ch hi =>
    refine ⟨?_, rfl⟩
    cases ch with
    | none => exact h.set hi nofun nofun
    | some id => exact h.closed hi
  · next hi =>
    rw [h.setStatus_disconnected]
    refine ⟨?_, rfl⟩
    exact { h with
      sockets := fun id hid => mem_set_of_ne (h.sockets id hid) hi nofun
      desired := nofun
      reported := fun _ => rfl
      closing := fun _ => rfl
      order := fun _ => rfl }
  · next hi =>
    have hevents := h.closing (List.mem_of_getElem? hi)
    have hnext : Ended { c with tasks := c.tasks.set i .closingStatus } := h.set hi nofun nofun
    exact ⟨{ hnext with order := fun _ => hevents }, rfl⟩
  · next hi =>
    have hnext : Ended { c with tasks := c.tasks.set i .closingDenied } := h.set hi nofun nofun
    exact ⟨{ hnext with }, rfl⟩
  · next hi => exact ⟨h.erase hi nofun, rfl⟩
  · exact ⟨h, rfl⟩

/-- A late end of `connect` opens no socket. -/
theorem Ended.connectWith (h : c.Ended) (hdisposed : c.disposed = true) {reply : TokenReply}
    (hi : c.tasks[i]? = some .token) (hreply : InTime c (.token i reply)) :
    ({ c with tasks := c.tasks.eraseIdx i }.connectWith reply).Ended ∧
      ({ c with tasks := c.tasks.eraseIdx i }.connectWith reply).opened = c.opened := by
  have herase : Ended { c with tasks := c.tasks.eraseIdx i } := h.erase hi nofun
  cases reply with
  | thrown => exact ⟨herase, rfl⟩
  | missing =>
    have hevents : c.eventsClosed = false := hreply
    rw [WsClient.connectWith, setStatus_eq (c := { c with tasks := c.tasks.eraseIdx i })
      (h.statusClosed_eq_false hevents)]
    refine ⟨{ herase with desired := nofun, reported := fun hclosed => ?_ }, rfl⟩
    exact absurd hevents (by simpa using hclosed)
  | refused draw =>
    simp only [WsClient.connectWith, WsClient.onClose, hdisposed, if_true]
    refine ⟨{ herase with
      channel := rfl
      sub := rfl
      heartbeat := rfl
      pong := rfl
      sockets := fun id hid => ?_
      oneSocket := ?_ }, trivial⟩
    · exact herase.sockets id (by simpa [closeSocket, h.channel] using hid)
    · simpa [closeSocket, h.channel] using h.oneSocket
  | opened draw =>
    have hnot : c.disposed = false := hreply
    simp [hdisposed] at hnot

/-- In time, a client that has ended stays so and opens no channel. -/
theorem Ended.step (h : c.Ended) (hdisposed : c.disposed = true) {input : Input}
    (htime : InTime c input) : (step c input).Ended ∧ (step c input).opened = c.opened := by
  have hsub : c.sub.isSome = false := by rw [h.sub]; rfl
  cases input with
  | connect => simp [WsClient.step, WsClient.connect, hdisposed, h]
  | token i reply =>
    simp only [WsClient.step]
    split
    · next hi => exact h.connectWith hdisposed hi htime
    · exact ⟨h, rfl⟩
  | established => simp [WsClient.step, hsub, h]
  | message json => simp [WsClient.step, hsub, h]
  | closed code draw => simp [WsClient.step, hsub, h]
  | heartbeatTick => simp [WsClient.step, h.heartbeat, h]
  | pongTimeout draw => simp [WsClient.step, h.pong, h]
  | reconnectFires => simp [WsClient.step, h.reconnect, h]
  | subscribe channel =>
    have hstatus : c.status ≠ .connected := htime hdisposed
    simp only [WsClient.step, WsClient.subscribe, if_neg hstatus]
    exact ⟨{ h with desired := fun hconnected => absurd hconnected hstatus }, trivial⟩
  | unsubscribe channel =>
    have hwithout : Ended { c with desired := c.desired.filter fun x => x ≠ channel } :=
      { h with desired := fun hconnected => by simp [h.desired hconnected] }
    simp only [WsClient.step, WsClient.unsubscribe, hwithout.send_eq_self, ite_self]
    exact ⟨hwithout, trivial⟩
  | sendTyping conversationId isTyping =>
    simp only [WsClient.step, WsClient.sendTyping, h.send_eq_self, ite_self]
    exact ⟨h, trivial⟩
  | dispose =>
    refine ⟨{ h with
      channel := rfl
      sub := rfl
      heartbeat := rfl
      pong := rfl
      reconnect := rfl
      sockets := fun id hid => List.mem_append_left _ (h.sockets id hid)
      desired := fun _ => rfl
      closing := fun hmem => ?_ }, rfl⟩
    rcases List.mem_append.mp hmem with hold | hnew
    · exact h.closing hold
    · exact nomatch List.mem_singleton.mp hnew
  | resume i => exact h.resume i

/-- `dispose` takes the socket, and stops the timers. -/
theorem Live.dispose (h : c.Live) : c.dispose.Ended := by
  obtain ⟨hevents, hopen, hdenied, hquiet⟩ := h.streams
  refine { channel := rfl, sub := rfl, heartbeat := rfl, pong := rfl, reconnect := rfl,
           sockets := fun id hid => ?_, oneSocket := ?_, desired := fun _ => rfl,
           reported := fun hclosed => ?_, closing := fun hmem => ?_, order := fun hclosed => ?_,
           quiet := hquiet }
  · have hmem : id ∈ c.channel.toList := h.sockets ▸ hid
    refine List.mem_append_right _ (List.mem_singleton.mpr ?_)
    rw [Option.mem_toList.mp hmem]
  · change c.openSockets.length ≤ 1
    rw [h.sockets]
    cases c.channel <;> simp
  · have hclosed' : c.eventsClosed = true := hclosed
    simp [hevents] at hclosed'
  · rcases List.mem_append.mp hmem with hold | hnew
    · rcases h.tasks with hnil | ⟨htoken, -⟩
      · simp [hnil] at hold
      · simp [htoken] at hold
    · exact nomatch List.mem_singleton.mp hnew
  · have hclosed' : c.statusClosed = true := hclosed
    simp [hopen] at hclosed'

end Ended

/-! ### Every run -/

/-- The client before and after `dispose`. -/
def Inv (c : WsClient) : Prop := c.disposed = false ∧ c.Live ∨ c.disposed = true ∧ c.Ended

section Runs

variable {c}

/-- Every input in time keeps the invariant. -/
theorem Inv.step (h : c.Inv) {input : Input} (htime : InTime c input) : (step c input).Inv := by
  by_cases hdispose : input = .dispose
  · subst hdispose
    refine .inr ⟨rfl, ?_⟩
    rcases h with ⟨-, hlive⟩ | ⟨hdisposed, hended⟩
    · exact hlive.dispose
    · exact (hended.step hdisposed htime).1
  · rcases h with ⟨hdisposed, hlive⟩ | ⟨hdisposed, hended⟩
    · exact .inl ⟨(step_disposed hdispose).trans hdisposed, hlive.step hdisposed hdispose⟩
    · exact .inr ⟨(step_disposed hdispose).trans hdisposed, (hended.step hdisposed htime).1⟩

/-- The invariant makes the client safe. -/
theorem Inv.safe (h : c.Inv) : c.Safe := by
  rcases h with ⟨hdisposed, hlive⟩ | ⟨-, hended⟩
  · refine ⟨?_, fun h => ?_, fun h => ?_, hlive.streams.quiet,
      fun hconnected channel hchannel => ?_⟩
    · rw [hlive.sockets]
      cases c.channel <;> simp
    · simp [hdisposed] at h
    · simp [hdisposed] at h
    · obtain ⟨id, hid⟩ := hlive.exists_channel hconnected
      exact ⟨id, hid, hlive.requested id hid channel hchannel⟩
  · refine ⟨hended.oneSocket, fun _ => hended.sockets,
      fun _ => ⟨hended.heartbeat, hended.pong, hended.reconnect⟩, hended.quiet,
      fun hconnected channel hchannel => ?_⟩
    simp [hended.desired hconnected] at hchannel

/-- Under the invariant every channel is opened in time. -/
theorem Inv.opensInTime (h : c.Inv) {input : Input} (htime : InTime c input) :
    c.OpensInTime input := by
  intro hdisposed
  rcases h with ⟨hnot, -⟩ | ⟨-, hended⟩
  · simp [hnot] at hdisposed
  · exact (hended.step hdisposed htime).2

end Runs

end WsClient

open WsClient

/-- In every run in which nothing comes too late, the client is safe, and opens no socket after
`dispose`. -/
theorem ws_client_safe (run : List Input) (h : EachStep step InTime {} run) :
    (after step {} run).Safe ∧ EachStep step OpensInTime {} run := by
  have hstart : Inv {} := .inl ⟨rfl, live_start⟩
  have hstep (c : WsClient) (input : Input) (hinv : c.Inv) (htime : InTime c input) :
      (step c input).Inv := hinv.step htime
  exact ⟨(h.invariant hstep hstart).safe,
    h.guarantee hstep (fun _ _ hinv => hinv.opensInTime) hstart⟩

namespace Sample

/-- A connection with one channel, and its end. -/
def connectedOnce : List Input :=
  [.subscribe "conversation:1", .connect, .token 0 (.opened 0), .established, .dispose, .resume 0,
   .resume 0, .resume 0, .resume 0, .resume 0]

/-- The token comes after `dispose`. -/
def disposedEarly : List Input :=
  [.connect, .dispose, .token 0 (.opened 0), .resume 0, .resume 0, .resume 0, .resume 0, .resume 0]

end Sample

/-- A client that connects, is closed once and is disposed of is safe throughout. -/
theorem ws_client_safe_once :
    (after step {} Sample.connectedOnce).Safe ∧ EachStep step OpensInTime {} Sample.connectedOnce :=
  ws_client_safe Sample.connectedOnce
    ⟨nofun, trivial, rfl, trivial, trivial, trivial, trivial, trivial, trivial, trivial, trivial⟩

/-- The socket is opened after `dispose`, and is left open with its timer. -/
theorem ws_client_unsafe : ¬(after step {} Sample.disposedEarly).Safe ∧
    ¬EachStep step OpensInTime {} Sample.disposedEarly := by
  constructor
  · intro h
    have htimer := (h.noTimer (by decide)).1
    exact absurd htimer (by decide)
  · intro h
    have hopened := h.2.2.1 (by decide)
    exact absurd hopened (by decide)

end Marketplace
