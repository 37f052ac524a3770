import Marketplace.Order.Moves

/-!
# Requests are moves

A request that raises changes nothing. One that returns makes a move in the life of
every order; the purge job makes two, one for each of its loops.
-/

namespace Marketplace

open Lib Txn OrderService DeliveryFlow DeliveryTracking

section Serve

variable {sha256 : String → String} {w : World} {c : Call} {o : Id}

/-- The settings a request finds. -/
def World.settings (w : World) (c : Call) : PlatformSettings := w.db.settingsInForce (w.env c)

/-- A request that raises leaves the database as it was. -/
theorem serve_of_error {e : Err} (h : (w.respond sha256 c).1 = .error e) :
    (w.serve sha256 c).db = w.db := session_error h

/-- A request that returns has run to its end. -/
theorem exec_of_ok {r : Reply} (h : (w.respond sha256 c).1 = .ok r) :
    (c.op.exec sha256 (w.env c) c.caller).run w.db = .ok (r, (w.serve sha256 c).db) :=
  session_ok h

/-- What an operation returns is wrapped in a reply. -/
theorem run_reply_ok {α : Type} {p : Tx α} {f : α → Reply} {db db' : Db} {r : Reply} :
    (p.bind fun a => ret (f a)).run db = .ok (r, db') ↔
      ∃ a, p.run db = .ok (a, db') ∧ f a = r := by
  simp only [run_bind_ok, run_ret_ok]
  constructor
  · rintro ⟨a, _, hp, rfl, rfl⟩
    exact ⟨a, hp, rfl⟩
  · rintro ⟨a, hp, rfl⟩
    exact ⟨a, db', hp, rfl, rfl⟩

/-- Every operation but the purge job makes one move in the life of every order. -/
theorem move_of_ok {op : Op} {env : Env} {caller : User} {db db' : Db} {r : Reply}
    (h : (op.exec sha256 env caller).run db = .ok (r, db')) (hop : op ≠ .runPurgeJob) :
    Move sha256 (db.settingsInForce env) env caller o op (db.life o) (db'.life o) := by
  cases op with
  | createOrder items address =>
    obtain ⟨_, hrun, -⟩ := run_reply_ok.mp h
    exact createOrder_moves hrun
  | acceptOrder orderId =>
    obtain ⟨_, hrun, -⟩ := run_reply_ok.mp h
    exact acceptOrder_moves hrun
  | markPreparing orderId =>
    obtain ⟨_, hrun, -⟩ := run_reply_ok.mp h
    exact markPreparing_moves hrun
  | chooseSelfDelivery orderId =>
    obtain ⟨_, hrun, -⟩ := run_reply_ok.mp h
    exact chooseSelfDelivery_moves hrun
  | requestDriver orderId =>
    obtain ⟨_, hrun, -⟩ := run_reply_ok.mp h
    exact requestDriver_moves hrun
  | assignDriver orderId driverId =>
    obtain ⟨_, hrun, -⟩ := run_reply_ok.mp h
    exact assignDriver_moves hrun
  | outForDelivery orderId =>
    obtain ⟨_, hrun, -⟩ := run_reply_ok.mp h
    exact outForDelivery_moves hrun
  | markDelivered orderId =>
    obtain ⟨_, hrun, -⟩ := run_reply_ok.mp h
    exact markDelivered_moves hrun
  | completeOrder orderId =>
    obtain ⟨_, hrun, -⟩ := run_reply_ok.mp h
    exact completeOrder_moves hrun
  | cancelOrder orderId reason =>
    obtain ⟨_, hrun, -⟩ := run_reply_ok.mp h
    exact cancelOrder_moves hrun
  | deleteOrder orderId =>
    obtain ⟨_, hrun, -⟩ := run_reply_ok.mp h
    exact deleteOrder_moves hrun
  | runPurgeJob => exact absurd rfl hop
  | updateRetentionSettings retention grace =>
    obtain ⟨_, hrun, -⟩ := run_reply_ok.mp h
    obtain ⟨old, t, hold, rfl, -⟩ := updateRetentionSettings_ok hrun
    rw [life_setSettings, (getRetentionSettings_inForce hold).2]
    exact .stay
  | driverAccept orderId =>
    obtain ⟨_, hrun, -⟩ := run_reply_ok.mp h
    exact driverAccept_moves hrun
  | recordLocation orderId lat lng =>
    obtain ⟨_, hrun, -⟩ := run_reply_ok.mp h
    exact recordLocation_moves hrun
  | getRoute orderId =>
    obtain ⟨_, hrun, -⟩ := run_reply_ok.mp h
    rw [(getRoute_ok hrun).2.1]
    exact .stay
  | completeDelivery orderId submitted =>
    obtain ⟨_, hrun, -⟩ := run_reply_ok.mp h
    exact completeDelivery_moves hrun
  | postOrderMessage orderId ciphertext nonce =>
    obtain ⟨_, hrun, -⟩ := run_reply_ok.mp h
    rw [postOrderMessage_ok hrun, life_addMessage]
    exact .stay
  | adminPatchDelivery orderId driver distance duration =>
    obtain ⟨_, hrun, -⟩ := run_reply_ok.mp h
    exact adminPatchDelivery_moves hrun

/-- A request that is not the purge job makes one move, which is to stay if it raises. -/
theorem serve_move (hop : c.op ≠ .runPurgeJob) :
    Move sha256 (w.settings c) (w.env c) c.caller o c.op (w.db.life o)
      ((w.serve sha256 c).db.life o) := by
  cases hr : (w.respond sha256 c).1 with
  | error e =>
    rw [serve_of_error hr]
    exact .stay
  | ok r => exact move_of_ok (exec_of_ok hr) hop

/-- The purge job makes two moves. -/
theorem serve_purge (sha256 : String → String) (o : Id) (hop : c.op = .runPurgeJob) :
    ∃ M, Move sha256 (w.settings c) (w.env c) c.caller o .runPurgeJob (w.db.life o) M ∧
      Move sha256 (w.settings c) (w.env c) c.caller o .runPurgeJob M
        ((w.serve sha256 c).db.life o) := by
  cases hr : (w.respond sha256 c).1 with
  | error e =>
    rw [serve_of_error hr]
    exact ⟨_, .stay, .stay⟩
  | ok r =>
    have h := exec_of_ok hr
    rw [hop] at h
    obtain ⟨_, hrun, -⟩ := run_reply_ok.mp h
    exact runPurgeJob_moves hrun

end Serve

end Marketplace
