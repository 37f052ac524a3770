import Marketplace.Order.Service

/-!
# The seller's dashboard

`get_dashboard` of `seller_service.py`. The lifetime figures are read from the snapshot
table, not from the orders, so they do not depend on what has been deleted.
-/

namespace Marketplace

open Lib Txn Err

namespace SellerService

/-- The payload of the dashboard. -/
structure Dashboard where
  sellerId : Id
  lifetimeSalesAmount : ℤ
  lifetimeOrdersCount : ℕ
  activeOrdersCount : ℕ
  currencyCode : String
  lastUpdated : Time
deriving DecidableEq, Repr

/-- `_get_platform_currency`. -/
def getPlatformCurrency : Tx String := do
  let db ← read
  let code := db.platformSettings.map PlatformSettings.currencyCode
  pure (if code = none ∨ code = some "" then "USD" else code.getD "USD")

/-- The seller whose dashboard is asked for: another's only by an administrator. -/
def dashboardSeller (caller : User) : Option Id → Tx Seller
  | none => OrderService.getCallerSeller caller
  | some targetSellerId => do
    raiseIf (caller.role ≠ .admin) visibilityDenied
    let db ← read
    getOrRaise (db.sellers.get targetSellerId) sellerNotFound

/-- `get_dashboard`. -/
def getDashboard (env : Env) (caller : User) (targetSellerId : Option Id) : Tx Dashboard := do
  let seller ← dashboardSeller caller targetSellerId
  let db ← read
  let snapshots := db.snapshots.rows.filter fun s => s.sellerId = seller.id
  let active := db.orders.rows.filter fun o =>
    o.sellerId = seller.id ∧ o.deletedAt = none ∧ o.status ∈ activeStatuses
  let currency ← getPlatformCurrency
  pure { sellerId := seller.id,
         lifetimeSalesAmount := (snapshots.map OrderAnalyticsSnapshot.totalMinor).sum,
         lifetimeOrdersCount := snapshots.length, activeOrdersCount := active.length,
         currencyCode := currency, lastUpdated := env.now 0 }

variable {env : Env} {caller : User} {targetSellerId : Option Id} {db db' : Db}

/-- Finding the dashboard's seller writes nothing. -/
theorem dashboardSeller_ok {seller : Seller}
    (h : (dashboardSeller caller targetSellerId).run db = .ok (seller, db')) : db' = db := by
  cases targetSellerId with
  | none =>
    simp only [dashboardSeller, OrderService.getCallerSeller, bind_eq, run_bind_ok, run_read_ok,
      run_scalarOneOrNone_ok, run_getOrRaise_ok] at h
    obtain ⟨_, _, ⟨rfl, rfl⟩, _, _, ⟨_, rfl⟩, _, rfl⟩ := h
    rfl
  | some target =>
    simp only [dashboardSeller, bind_eq, run_bind_ok, run_raiseIf_ok, run_read_ok,
      run_getOrRaise_ok] at h
    obtain ⟨_, _, ⟨_, rfl⟩, _, _, ⟨rfl, rfl⟩, _, rfl⟩ := h
    rfl

/-- The lifetime figures of a dashboard are those of the seller's snapshots. -/
theorem getDashboard_ok {d : Dashboard}
    (h : (getDashboard env caller targetSellerId).run db = .ok (d, db')) :
    d.lifetimeSalesAmount = ((db.snapshots.rows.filter fun s => s.sellerId = d.sellerId).map
        OrderAnalyticsSnapshot.totalMinor).sum ∧
      d.lifetimeOrdersCount =
        (db.snapshots.rows.filter fun s => s.sellerId = d.sellerId).length := by
  simp only [getDashboard, getPlatformCurrency, bind_eq, run_bind_ok, run_read_ok, pure_eq,
    run_ret_ok] at h
  obtain ⟨seller, _, hseller, _, _, ⟨rfl, rfl⟩, _, _, ⟨_, _, ⟨rfl, rfl⟩, _, rfl⟩, rfl, _⟩ := h
  obtain rfl := dashboardSeller_ok hseller
  exact ⟨rfl, rfl⟩

end SellerService

end Marketplace
