import Marketplace.Lib.Run
import Marketplace.Order.Frames

/-!
# Runs of the server

A run is a list of requests, each in its own session, from a server that has no order
yet. Two facts hold between any two requests of a run: the identifiers in use have been
drawn before, so no order takes the place of an earlier one, and the retention setting
is at least a day, so the purge job never removes an order it has just completed. With
the second fact every request makes a single move in the life of every order.
-/

namespace Marketplace

open Lib OrderService DeliveryFlow

/-- A server before its first order: no row refers to an order, and the retention
setting is one that the migration or the service has written. -/
structure World.Initial (w : World) : Prop where
  noOrder : ∀ o, w.db.life o = {}
  retention : RetentionOk w.db.platformSettings

/-- The server has drawn this identifier for an order. -/
def World.Drawn (w : World) (o : Id) : Prop := ∃ n < w.served, o = Nat.pair n 0

/-- The status of an order, while its row exists. -/
def World.status (w : World) (o : Id) : Option OrderStatus := (w.db.orders.get o).map Order.status

/-- What holds between any two requests. -/
structure World.Ready (w : World) : Prop where
  drawn : ∀ o, w.db.life o ≠ {} → w.Drawn o
  retention : RetentionOk w.db.platformSettings

/-- The initial world is ready. -/
theorem World.Initial.ready {w : World} (h : w.Initial) : w.Ready where
  drawn o ho := absurd (h.noOrder o) ho
  retention := h.retention

section Runs

variable {sha256 : String → String} {w : World} {c : Call} {o : Id}

/-- An id once drawn stays drawn. -/
theorem World.Drawn.serve (h : w.Drawn o) : (w.serve sha256 c).Drawn o := by
  obtain ⟨n, hn, rfl⟩ := h
  have hlt : n < w.served + 1 := by omega
  exact ⟨n, hlt, rfl⟩

/-- The next request draws an identifier that no earlier request has drawn. -/
theorem World.Drawn.ne_uuid4 (h : w.Drawn o) : o ≠ (w.env c).uuid4 0 := by
  rintro rfl
  obtain ⟨n, hn, heq⟩ := h
  have hpair : Nat.pair w.served 0 = Nat.pair n 0 := heq
  have hserved : w.served = n := (Nat.pair_eq_pair.mp hpair).1
  omega

section Moves

variable {ps : PlatformSettings} {env : Env} {caller : User} {op : Op} {L M L' : Life}

/-- The only move of an order without a row is to be placed, under a new identifier. -/
theorem Move.absent (h : Move sha256 ps env caller o op L L') (hnone : L.order = none) :
    o = env.uuid4 0 ∨ L' = L := by
  cases h with
  | stay => exact .inr rfl
  | create ho => exact .inl ho
  | _ => simp_all

/-- Only one of the two loops of the purge job acts on an order. -/
theorem Move.purge_once (hps : 1 ≤ ps.retentionMinDays)
    (hfirst : Move sha256 ps env caller o .runPurgeJob L M)
    (hsecond : Move sha256 ps env caller o .runPurgeJob M L') : M = L ∨ L' = M := by
  cases hfirst with
  | stay => exact .inl rfl
  | @autoComplete _ x s hx hlive hstatus hat hs =>
    right
    cases hsecond with
    | stay => rfl
    | autoComplete hx' _ hstatus' =>
      obtain rfl := Option.some.inj hx'
      exact absurd hstatus' (by simp [Order.complete])
    | @purge _ x' _ terminal hx' _ hterm hle =>
      -- an order completed now has not been terminal for a day
      obtain rfl := Option.some.inj hx'
      have hnow : env.now 0 = terminal := by simpa [terminalAt, Order.complete] using hterm
      rw [hnow] at hle
      exact absurd hle (Int.not_le.mpr (Int.sub_lt_self terminal (days_pos hps)))
  | purge hx =>
    right
    cases hsecond with
    | stay => rfl
    | autoComplete hx' => exact absurd hx' (by simp [Life.bury])
    | purge hx' => exact absurd hx' (by simp [Life.bury])

end Moves

/-- Every request makes one move in the life of every order. -/
theorem World.Ready.moves (sha256 : String → String) (h : w.Ready) (c : Call) (o : Id) :
    Move sha256 (w.settings c) (w.env c) c.caller o c.op (w.db.life o)
      ((w.serve sha256 c).db.life o) := by
  by_cases hop : c.op = .runPurgeJob
  · obtain ⟨M, hfirst, hsecond⟩ := serve_purge sha256 o hop
    rw [hop]
    rcases hfirst.purge_once h.retention.inForce hsecond with heq | heq
    · exact heq ▸ hsecond
    · exact heq ▸ hfirst
  · exact serve_move hop

/-- Every call keeps the world ready. -/
theorem World.Ready.serve (h : w.Ready) (c : Call) : (w.serve sha256 c).Ready where
  drawn o ho := by
    by_cases hlife : w.db.life o = {}
    · have hnone : (w.db.life o).order = none := by rw [hlife]
      have hid : o = Nat.pair w.served 0 :=
        ((h.moves sha256 c o).absent hnone).resolve_right fun heq => ho (heq.trans hlife)
      have hlt : w.served < w.served + 1 := by omega
      exact ⟨w.served, hlt, hid⟩
    · exact (h.drawn o hlife).serve
  retention := h.retention.serve

/-- An order whose row has gone does not come back. -/
theorem World.Ready.stays_absent (h : w.Ready) (c : Call) (ho : w.Drawn o)
    (hnone : (w.db.life o).order = none) : (w.serve sha256 c).db.life o = w.db.life o :=
  ((h.moves sha256 c o).absent hnone).resolve_left ho.ne_uuid4

/-- Every run of calls keeps the world ready. -/
theorem World.Ready.after (sha256 : String → String) (h : w.Ready) (calls : List Call) :
    (after (World.serve sha256) w calls).Ready := by
  induction calls generalizing w with
  | nil => exact h
  | cons c calls ih => exact ih (h.serve c)

end Runs

/-! ### A small server -/

namespace Sample

/-- The digests of the two codes that the sample requests submit. -/
def sha256 (s : String) : String :=
  if s = "000000" then "91b4d142823f7d20c5f08df69122de43f35f057a988d9619f6d3138485c9a203"
  else if s = "111111" then "bcb15f821479b4d5772bd0ca866c00ad5f926e3580720659cc80d39c9d09802a"
  else ""

def customer : User := { id := 1, role := .customer, referringSellerId := some 2 }

def seller : User := { id := 2, role := .seller }

def driver : User := { id := 3, role := .driver }

def otherDriver : User := { id := 4, role := .driver }

def admin : User := { id := 5, role := .admin }

def product : Product := { id := 6, sellerId := 2, storeId := 7, priceMinor := 250,
                           stockQuantity := some 3 }

/-- A server with one seller, one customer, two drivers and one product. -/
def start : World :=
  { db :=
    { users := ((((∅ : Table User User.id).insert customer).insert seller).insert driver).insert
        otherDriver |>.insert admin
      sellers := (∅ : Table Seller Seller.id).insert { id := 2, userId := 2 }
      products := (∅ : Table Product Product.id).insert product
      platformSettings := some { updatedAt := 0 } } }

/-- The sample world is an initial one. -/
theorem start_initial : start.Initial where
  noOrder _ := rfl
  retention ps h := by
    obtain rfl := Option.some.inj h
    exact one_le_default_retention 0

/-- A request at a given time. -/
def request (caller : User) (op : Op) (time : Time) : Call :=
  { caller, op, now := fun _ => time, transactionNow := time }

/-- The customer's first order, whose identifier is `0`. -/
def place : Call := request customer (.createOrder [{ productId := 6, quantity := 2 }] {}) 1

/-- The order on its way, with a driver the administrator has assigned. -/
def sent : List Call :=
  [place, request seller (.acceptOrder 0) 2, request seller (.requestDriver 0) 3,
   request admin (.assignDriver 0 3) 4, request seller (.markPreparing 0) 5,
   request driver (.outForDelivery 0) 6, request driver (.driverAccept 0) 7]

/-- The sample order on its way. -/
def onItsWay : Db := (after (World.serve sha256) start sent).db

end Sample

end Marketplace
