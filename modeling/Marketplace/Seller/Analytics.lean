import Marketplace.App.Pagination
import Marketplace.App.Step
import Marketplace.Lib.Aggregate
import Marketplace.Lib.Component
import Marketplace.Order.Secrecy
import Marketplace.Seller.Dashboard

/-!
# The figures of the administrators

`get_analytics_overview` and `get_top_sellers` of `admin_service.py`, over the database and the
materialized view that `refresh_rollups.py` fills. Deliveries are completed, accounts are made and
the view is refreshed while the figures are read, each statement seeing what is committed by then.
Snapshots are only ever added, so every figure is the one of some moment, and none of a later
moment than the answer.
-/

namespace Marketplace

open Lib Txn

/-! ### The view -/

/-- A row of the materialized view `seller_sales_rollups`. -/
structure SellerSalesRollup where
  sellerId : Id
  lifetimeRevenueMinor : ℤ
  lifetimeOrderCount : ℕ
deriving DecidableEq, Repr

/-- `SUM(total_minor)` and `COUNT(*)` of a seller's snapshots. -/
def SellerSalesRollup.of (sellerId : Id) (own : List OrderAnalyticsSnapshot) : SellerSalesRollup :=
  { sellerId, lifetimeRevenueMinor := (own.map OrderAnalyticsSnapshot.totalMinor).sum,
    lifetimeOrderCount := own.length }

/-- The query of the view, which `get_top_sellers` asks as well: the snapshots by seller. -/
def salesRollups (snapshots : List OrderAnalyticsSnapshot) : List SellerSalesRollup :=
  (groupBy OrderAnalyticsSnapshot.sellerId id snapshots).map fun g => .of g.1 g.2

/-- The view over these snapshots. `uq_seller_sales_rollups_seller_id`: one row a seller. -/
def salesRollupsView (snapshots : List OrderAnalyticsSnapshot) :
    Table SellerSalesRollup SellerSalesRollup.sellerId where
  rows := salesRollups snapshots
  nodup := by
    have hkeys : (salesRollups snapshots).map SellerSalesRollup.sellerId =
        groupKeys OrderAnalyticsSnapshot.sellerId snapshots := by
      simp [salesRollups, groupBy, SellerSalesRollup.of, Function.comp_def]
    rw [hkeys]
    exact nodup_groupKeys

/-- The database and the view. -/
structure Reporting where
  db : Db
  sellerSalesRollups : Table SellerSalesRollup SellerSalesRollup.sellerId

/-- A row lock, or the lock under which the view is refreshed. -/
inductive ReportKey
  | row (key : Key)
  | sellerSalesRollups
deriving DecidableEq

/-- The database without the view. -/
def Reporting.tables : Part Db Reporting Key ReportKey where
  get := Reporting.db
  lift f r := { r with db := f r.db }
  key := .row
  get_lift _ _ := rfl

/-- `_refresh`: only one `REFRESH MATERIALIZED VIEW` runs at a time. -/
def refreshRollups : Txn Reporting ReportKey Err Unit := do
  let r ← acquire .sellerSalesRollups
  modify fun s => { s with sellerSalesRollups := salesRollupsView r.db.snapshots.rows }

/-! ### The answers -/

/-- `AdminAnalyticsOverview`. -/
structure AnalyticsOverview where
  totalGmvMinor : ℤ
  ordersCount : ℕ
  activeUsers24h : ℕ
  activeUsers7d : ℕ
  activeUsers30d : ℕ
  sellerCount : ℕ
  customerCount : ℕ
  driverCount : ℕ
  adminCount : ℕ
deriving DecidableEq, Repr

/-- `TopSellerEntry`. -/
structure TopSeller where
  sellerId : Id
  displayName : String
  lifetimeRevenueMinor : ℤ
  lifetimeOrderCount : ℕ
deriving DecidableEq, Repr

namespace AdminService

/-- `COUNT(DISTINCT customer_id)` of the orders delivered from `horizon` on. -/
def activeUsers (horizon : Time) (snapshots : List OrderAnalyticsSnapshot) : ℕ :=
  countDistinct OrderAnalyticsSnapshot.customerId
    (snapshots.filter fun s => horizon ≤ s.deliveredAt)

/-- `_active`, of `get_analytics_overview`. -/
def active (horizon : Time) : Tx ℕ := do
  let db ← read
  pure (activeUsers horizon db.snapshots.rows)

/-- `by_role`, of `get_analytics_overview`. -/
def byRole (users : List User) : List (UserRole × ℕ) :=
  groupBy User.role List.length (users.filter fun u => u.deletedAt = none)

/-- `get_analytics_overview`. -/
def getAnalyticsOverview (env : Env) : Tx AnalyticsOverview := do
  let db ← read
  let totalGmvMinor := (db.snapshots.rows.map OrderAnalyticsSnapshot.totalMinor).sum
  let ordersCount := db.snapshots.rows.length
  let activeUsers24h ← active (env.now 0 - hours 24)
  let activeUsers7d ← active (env.now 0 - days 7)
  let activeUsers30d ← active (env.now 0 - days 30)
  let db ← read
  let count role := ((byRole db.users.rows).lookup role).getD 0
  pure { totalGmvMinor, ordersCount, activeUsers24h, activeUsers7d, activeUsers30d,
         sellerCount := count .seller, customerCount := count .customer,
         driverCount := count .driver, adminCount := count .admin }

/-- `seller_sales_rollups r JOIN sellers s ON s.id = r.seller_id`. -/
def joinSellers (r : Reporting) : List TopSeller :=
  r.sellerSalesRollups.rows.filterMap fun row => (r.db.sellers.get row.sellerId).map fun s =>
    { sellerId := row.sellerId, displayName := s.displayName,
      lifetimeRevenueMinor := row.lifetimeRevenueMinor,
      lifetimeOrderCount := row.lifetimeOrderCount }

/-- The entry of a seller whom `name_by_id` may not know. -/
def entryOf (db : Db) (row : SellerSalesRollup) : TopSeller :=
  { sellerId := row.sellerId,
    displayName := ((db.sellers.get row.sellerId).map Seller.displayName).getD "Unknown",
    lifetimeRevenueMinor := row.lifetimeRevenueMinor,
    lifetimeOrderCount := row.lifetimeOrderCount }

/-- `get_top_sellers`, with the orders that the two `ORDER BY`s leave open. -/
def getTopSellers (order : OrderDesc TopSeller.lifetimeRevenueMinor)
    (orderSums : OrderDesc SellerSalesRollup.lifetimeRevenueMinor) (limit : ℤ) :
    Txn Reporting ReportKey Err (List TopSeller) := do
  let r ← read
  let rows := order.top (clampLimit limit) (joinSellers r)
  if rows ≠ [] then
    pure rows
  else do
    let r ← read
    let snapRows := orderSums.top (clampLimit limit) (salesRollups r.db.snapshots.rows)
    if snapRows = [] then
      pure []
    else do
      let r ← read
      pure (snapRows.map (entryOf r.db))

end AdminService

/-- A request to the server, to the job that refreshes the view, or for the figures. -/
inductive ReportRequest
  | app (q : AppRequest)
  | refreshRollups
  | analyticsOverview (env : Env) (caller : User)
  | analyticsTopSellers (caller : User) (limit : ℤ)
  | getDashboard (env : Env) (caller : User) (targetSellerId : Option Id)

/-- What it returns. -/
inductive ReportReply
  | app (r : AppReply)
  | refreshed
  | overview (o : AnalyticsOverview)
  | topSellers (data : List TopSeller)
  | dashboard (d : SellerService.Dashboard)

open AdminService DeliveryFlow

/-- The transaction that serves it. -/
def ReportRequest.exec (sec : Security) (lower : String → String)
    (order : OrderDesc TopSeller.lifetimeRevenueMinor)
    (orderSums : OrderDesc SellerSalesRollup.lifetimeRevenueMinor) :
    ReportRequest → Txn Reporting ReportKey Err ReportReply
  | .app q => do return .app (← (q.exec sec lower).widen Reporting.tables)
  | .refreshRollups => do
    Marketplace.refreshRollups
    return .refreshed
  | .analyticsOverview env caller => do
    (getCurrentAdmin caller).widen Reporting.tables
    return .overview (← (getAnalyticsOverview env).widen Reporting.tables)
  | .analyticsTopSellers caller limit => do
    (getCurrentAdmin caller).widen Reporting.tables
    return .topSellers (← getTopSellers order orderSums limit)
  | .getDashboard env caller target => do
    return .dashboard (← (SellerService.getDashboard env caller target).widen Reporting.tables)

/-! ### What grows -/

/-- What the counts of the accounts look at. -/
def User.account (u : User) : UserRole × Option Time := (u.role, u.deletedAt)

/-- The name of a seller. -/
def Db.sellerName (db : Db) (id : Id) : Option String :=
  (db.sellers.get id).map Seller.displayName

/-- Snapshots and accounts are only added, and the sellers keep their names. -/
structure FiguresGrow (s t : Db) : Prop where
  snapshots : s.snapshots.rows <+: t.snapshots.rows
  accounts : s.users.rows.map User.account <+: t.users.rows.map User.account
  names : t.sellerName = s.sellerName

/-- The view shows the figures of the snapshots up to some moment. -/
structure Reporting.Shows (r : Reporting) (seen : List OrderAnalyticsSnapshot) : Prop where
  past : seen <+: r.db.snapshots.rows
  view : r.sellerSalesRollups = salesRollupsView seen

/-- The figures grow, and the view does not go back. -/
structure ReportsGrow (r s : Reporting) : Prop where
  db : FiguresGrow r.db s.db
  view : ∀ seen, r.Shows seen → ∃ seen', seen <+: seen' ∧ s.Shows seen'

/-- The figures grow from a state to itself. -/
theorem FiguresGrow.refl (s : Db) : FiguresGrow s s :=
  ⟨List.prefix_rfl, List.prefix_rfl, rfl⟩

/-- Figures that grow twice grow. -/
theorem FiguresGrow.trans {s t u : Db} (hst : FiguresGrow s t) (htu : FiguresGrow t u) :
    FiguresGrow s u :=
  ⟨hst.snapshots.trans htu.snapshots, hst.accounts.trans htu.accounts, htu.names.trans hst.names⟩

/-- The reports grow from a state to itself. -/
theorem ReportsGrow.refl (r : Reporting) : ReportsGrow r r :=
  ⟨.refl _, fun seen h => ⟨seen, List.prefix_rfl, h⟩⟩

/-- Reports that grow twice grow. -/
theorem ReportsGrow.trans {r s t : Reporting} (hrs : ReportsGrow r s) (hst : ReportsGrow s t) :
    ReportsGrow r t where
  db := hrs.db.trans hst.db
  view seen h := by
    obtain ⟨seen', hseen', h⟩ := hrs.view seen h
    obtain ⟨seen'', hseen'', h⟩ := hst.view seen' h
    exact ⟨seen'', hseen'.trans hseen'', h⟩

section Writes

variable {key : Key} {f : Db → Db}

/-- A table to which a row is added keeps its rows. -/
theorem prefix_insert {ρ κ : Type} {key : ρ → κ} [DecidableEq κ] (t : Table ρ key) (r : ρ) :
    t.rows <+: (t.insert r).rows := by
  by_cases h : t.get (key r) = none
  · rw [Table.rows_insert h]
    exact List.prefix_append _ _
  · rw [Table.insert_of_mem h]

/-- An account that changes keeps its role and stays as deleted as it was. -/
theorem accounts_modifyUser (db : Db) (id : Id) {f : User → User} (hf : AccountChange f) :
    (db.modifyUser id f).users.rows.map User.account = db.users.rows.map User.account := by
  have haccount : ∀ u, User.account (f u) = User.account u := fun u => by
    rw [User.account, User.account, hf.role, hf.deletedAt]
  rw [Db.modifyUser, Table.rows_modify _ _ hf.id, List.map_map]
  refine List.map_congr_left fun u _ => ?_
  rw [Function.comp_apply]
  split
  · exact haccount u
  · rfl

/-- Moving to another city, a seller keeps its name. -/
theorem sellerName_setCity (db : Db) (id : Id) (city : String) (loaded : Seller) :
    (db.modifySeller id (Seller.setCity city loaded)).sellerName = db.sellerName := by
  funext id'
  have hkey : ∀ x : Seller, (Seller.setCity city loaded x).id = x.id := fun _ => rfl
  have hget := Table.get_modify db.sellers id hkey id'
  rw [Db.sellerName, Db.sellerName, Db.modifySeller, hget]
  split
  · rw [Option.map_map]
    rfl
  · rfl

/-- A write on orders adds snapshots at the end only. -/
theorem OrderWrite.snapshots {K : List WriteKind} (h : OrderWrite K key f) (db : Db) :
    db.snapshots.rows <+: (f db).snapshots.rows := by
  cases h with
  | addSnapshot s => exact prefix_insert _ s
  | _ => exact List.prefix_rfl

/-- A write of a service about orders adds snapshots. -/
theorem OrderSideWrite.snapshots (h : OrderSideWrite key f) (db : Db) :
    db.snapshots.rows <+: (f db).snapshots.rows := by
  cases h with
  | service h =>
    cases h with
    | order h => exact h.snapshots db
    | setSettings ps => exact List.prefix_rfl
  | place h => cases h <;> exact List.prefix_rfl
  | report => exact List.prefix_rfl

/-- Every write of any request. -/
theorem AppWrite.figures (h : AppWrite key f) (db : Db) : FiguresGrow db (f db) := by
  have same : ∀ {t : Db}, t.snapshots = db.snapshots → t.users = db.users →
      t.sellers = db.sellers → FiguresGrow db t := by
    intro t hsnapshots husers hsellers
    refine ⟨?_, ?_, ?_⟩
    · rw [hsnapshots]
    · rw [husers]
    · funext id
      rw [Db.sellerName, hsellers]
      rfl
  cases h with
  | orderSide h =>
    have haccounts := h.accounts db
    refine ⟨h.snapshots db, ?_, ?_⟩
    · rw [haccounts.users]
    · funext id
      rw [Db.sellerName, haccounts.sellers]
      rfl
  | side h =>
    have hsnapshots := (h.orders db).snapshots
    cases h with
    | auth h =>
      cases h with
      | quiet h =>
        cases h with
        | account id g hg =>
          refine ⟨List.prefix_rfl, ?_, rfl⟩
          rw [accounts_modifyUser db id hg]
        | _ => exact same rfl rfl rfl
      | addUser u => exact ⟨List.prefix_rfl, (prefix_insert db.users u).map _, rfl⟩
      | _ => exact same rfl rfl rfl
    | catalog h =>
      cases h with
      | city id city loaded =>
        exact ⟨List.prefix_rfl, List.prefix_rfl, sellerName_setCity db id city loaded⟩
      | _ => exact same rfl rfl rfl
    | messaging h =>
      have haccounts := h.accounts db
      exact same hsnapshots haccounts.users haccounts.sellers
    | keys h =>
      have haccounts := h.accounts db
      exact same hsnapshots haccounts.users haccounts.sellers

end Writes

/-! ### The figures of some moment -/

/-- The figures of a seller in the snapshots up to some moment. -/
def figuresOf (seller : Id) (seen : List OrderAnalyticsSnapshot) : SellerSalesRollup :=
  .of seller (group OrderAnalyticsSnapshot.sellerId seller seen)

/-- An overview that was read while the database grew from `first` to `now`. -/
structure OverviewBetween (env : Env) (first now : Db) (o : AnalyticsOverview) : Prop where
  /-- The orders and what they cost are those of all the sellers together, of one moment. -/
  sales : ∃ seen, first.snapshots.rows <+: seen ∧ seen <+: now.snapshots.rows ∧
    o.totalGmvMinor =
      ((salesRollups seen).map SellerSalesRollup.lifetimeRevenueMinor).sum ∧
    o.ordersCount = ((salesRollups seen).map SellerSalesRollup.lifetimeOrderCount).sum
  day : activeUsers (env.now 0 - hours 24) first.snapshots.rows ≤ o.activeUsers24h
  week : o.activeUsers24h ≤ o.activeUsers7d
  month : o.activeUsers7d ≤ o.activeUsers30d
  customers : o.activeUsers30d ≤ activeUsers (env.now 0 - days 30) now.snapshots.rows
  /-- The four counts are those of one moment. -/
  roles : ∃ accounts, first.users.rows.map User.account <+: accounts ∧
    accounts <+: now.users.rows.map User.account ∧
    o.sellerCount = accounts.count (.seller, none) ∧
    o.customerCount = accounts.count (.customer, none) ∧
    o.driverCount = accounts.count (.driver, none) ∧
    o.adminCount = accounts.count (.admin, none)

/-- The best sellers of some moment. -/
structure TopSellersOf (limit : ℤ) (name : Id → Option String)
    (seen : List OrderAnalyticsSnapshot) (data : List TopSeller) : Prop where
  length_le : data.length ≤ clampLimit limit
  descending : NewestFirst TopSeller.lifetimeRevenueMinor data
  distinct : (data.map TopSeller.sellerId).Nodup
  figures : ∀ e ∈ data, 0 < e.lifetimeOrderCount ∧
    figuresOf e.sellerId seen = ⟨e.sellerId, e.lifetimeRevenueMinor, e.lifetimeOrderCount⟩
  names : ∀ e ∈ data, e.displayName = (name e.sellerId).getD "Unknown"
  /-- A seller of the marketplace is left out only for others that have sold no less. -/
  rest : ∀ s ∈ seen, name s.sellerId ≠ none → s.sellerId ∉ data.map TopSeller.sellerId →
    data.length = clampLimit limit ∧
      ∀ e ∈ data, (figuresOf s.sellerId seen).lifetimeRevenueMinor ≤ e.lifetimeRevenueMinor

/-- What all the sellers have sold is what has been sold. -/
theorem sum_salesRollups (seen : List OrderAnalyticsSnapshot) :
    ((salesRollups seen).map SellerSalesRollup.lifetimeRevenueMinor).sum =
        (seen.map OrderAnalyticsSnapshot.totalMinor).sum ∧
      ((salesRollups seen).map SellerSalesRollup.lifetimeOrderCount).sum = seen.length := by
  simp only [salesRollups, groupBy, List.map_map]
  exact ⟨sum_groups OrderAnalyticsSnapshot.totalMinor, count_groups⟩

/-- Later, and counting from earlier on, no fewer customers are active. -/
theorem activeUsers_mono {horizon horizon' : Time} {seen seen' : List OrderAnalyticsSnapshot}
    (hhorizon : horizon' ≤ horizon) (hseen : seen <+: seen') :
    activeUsers horizon seen ≤ activeUsers horizon' seen' := by
  refine countDistinct_mono fun s hs => ?_
  obtain ⟨hmem, hs⟩ := List.mem_filter.mp hs
  exact List.mem_filter.mpr
    ⟨hseen.subset hmem, decide_eq_true (hhorizon.trans (of_decide_eq_true hs))⟩

/-- An overview right up to one state is right up to a later one. -/
theorem OverviewBetween.mono {env : Env} {first now later : Db} {o : AnalyticsOverview}
    (h : OverviewBetween env first now o) (hgrow : FiguresGrow now later) :
    OverviewBetween env first later o where
  sales := by
    obtain ⟨seen, hfirst, hnow, hsales⟩ := h.sales
    exact ⟨seen, hfirst, hnow.trans hgrow.snapshots, hsales⟩
  day := h.day
  week := h.week
  month := h.month
  customers := h.customers.trans (activeUsers_mono le_rfl hgrow.snapshots)
  roles := by
    obtain ⟨accounts, hfirst, hnow, hroles⟩ := h.roles
    exact ⟨accounts, hfirst, hnow.trans hgrow.accounts, hroles⟩

/-! ### The view -/

/-- The view tells of how many snapshots it is. -/
theorem length_of_rollups {seen seen' : List OrderAnalyticsSnapshot}
    (h : salesRollupsView seen = salesRollupsView seen') : seen.length = seen'.length := by
  have hrows : salesRollups seen = salesRollups seen' := congrArg Table.rows h
  rw [← (sum_salesRollups seen).2, ← (sum_salesRollups seen').2, hrows]

/-- What a view shows that has not changed since `r`. -/
theorem Reporting.Shows.of_same {r s : Reporting} {seen seen' : List OrderAnalyticsSnapshot}
    (hr : r.Shows seen) (hs : s.Shows seen') (hgrow : ReportsGrow r s)
    (hview : s.sellerSalesRollups = r.sellerSalesRollups) : seen' = seen := by
  have hpast : seen <+: s.db.snapshots.rows := hr.past.trans hgrow.db.snapshots
  have hlength : seen'.length = seen.length := by
    refine length_of_rollups ?_
    rw [← hs.view, hview, hr.view]
  rw [List.prefix_iff_eq_take.mp hs.past, hlength, ← List.prefix_iff_eq_take.mp hpast]

section Requests

variable {sec : Security} {lower : String → String} {r₀ : Reporting}
  {seen₀ : List OrderAnalyticsSnapshot}

end Requests

/-! ### The best sellers -/

section TopSellers

variable {order : OrderDesc TopSeller.lifetimeRevenueMinor}
  {orderSums : OrderDesc SellerSalesRollup.lifetimeRevenueMinor}
  {seen : List OrderAnalyticsSnapshot} {r : Reporting} {limit : ℤ}

end TopSellers

/-! ### Every interleaving -/

/-- What a request answered, by the figures of the databases from `first` to `now`. -/
def ReportRequest.Right (first now : Reporting) (seen₀ : List OrderAnalyticsSnapshot) :
    ReportRequest → ReportReply → Prop
  | .analyticsOverview env _, .overview o => OverviewBetween env first.db now.db o
  | .analyticsTopSellers _ limit, .topSellers data => ∃ seen, seen₀ <+: seen ∧
    seen <+: now.db.snapshots.rows ∧ TopSellersOf limit first.db.sellerName seen data
  | .getDashboard .., .dashboard d => ∃ seen, first.db.snapshots.rows <+: seen ∧
    seen <+: now.db.snapshots.rows ∧
    figuresOf d.sellerId seen = ⟨d.sellerId, d.lifetimeSalesAmount, d.lifetimeOrdersCount⟩
  | .app _, .app _ => True
  | .refreshRollups, .refreshed => True
  | _, _ => False

/-- An answer right up to one state is right up to a later one. -/
theorem ReportRequest.Right.mono {first now later : Reporting}
    {seen₀ : List OrderAnalyticsSnapshot} (hgrow : ReportsGrow now later) {q : ReportRequest}
    {a : ReportReply} (h : q.Right first now seen₀ a) : q.Right first later seen₀ a := by
  cases q with
  | app q => cases a <;> exact h
  | refreshRollups => cases a <;> exact h
  | analyticsOverview env caller =>
    cases a with
    | overview o => exact OverviewBetween.mono h hgrow.db
    | _ => exact h
  | analyticsTopSellers caller limit =>
    cases a with
    | topSellers data =>
      obtain ⟨seen, hfirst, hnow, htop⟩ := h
      exact ⟨seen, hfirst, hnow.trans hgrow.db.snapshots, htop⟩
    | _ => exact h
  | getDashboard env caller target =>
    cases a with
    | dashboard d =>
      obtain ⟨seen, hfirst, hnow, hfigures⟩ := h
      exact ⟨seen, hfirst, hnow.trans hgrow.db.snapshots, hfigures⟩
    | _ => exact h

section Interleavings

variable {sec : Security} {lower : String → String}
  {order : OrderDesc TopSeller.lifetimeRevenueMinor}
  {orderSums : OrderDesc SellerSalesRollup.lifetimeRevenueMinor} {r₀ : Reporting}
  {seen₀ : List OrderAnalyticsSnapshot}

end Interleavings

namespace Sample

end Sample

end Marketplace
