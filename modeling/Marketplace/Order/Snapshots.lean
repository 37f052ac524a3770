import Mathlib.Algebra.BigOperators.Group.List.Basic
import Mathlib.Data.List.Induction
import Marketplace.Order.Runs
import Marketplace.Seller.Dashboard

/-!
# Sales snapshots

An order is recorded in `order_analytics_snapshots` when it completes, and a deletion
records it once more before its row goes. In every run each order that was ever completed
has exactly one snapshot and every other order has none, snapshots stay as they are, and
a dashboard adds up the orders ever completed.
-/

namespace Marketplace

open Lib Txn OrderService SellerService

/-! ### The snapshot of one order -/

section Moves

variable {sha256 : String → String} {ps : PlatformSettings} {env : Env} {caller : User} {o : Id}
  {op : Op} {L L' : Life}

/-- No move changes a snapshot or takes it away. -/
theorem Move.snapshot (h : Move sha256 ps env caller o op L L') {s : OrderAnalyticsSnapshot}
    (hs : L.snapshot = some s) : L'.snapshot = some s := by
  have hrecord : ∀ s', (L.record s').snapshot = some s := by
    intro s'
    rw [Life.record, hs, Option.some_or]
  cases h with
  | complete => exact hrecord _
  | autoComplete => exact hrecord _
  | @delete _ x s' =>
    by_cases hc : x.status = .completed
    · rw [if_pos hc]
      exact hrecord s'
    · rw [if_neg hc]
      exact hs
  | @purge _ x s' =>
    by_cases hc : x.status = .completed
    · rw [if_pos hc]
      exact hrecord s'
    · rw [if_neg hc]
      exact hs
  | _ => exact hs

/-- A snapshot carries the seller and the total of the order. -/
structure Records (s : OrderAnalyticsSnapshot) (x : Order) : Prop where
  sellerId : s.sellerId = x.sellerId
  totalMinor : s.totalMinor = x.totalMinor

/-- An order without a snapshot that is not completed. -/
structure Life.Unrecorded (L : Life) : Prop where
  snapshot : L.snapshot = none
  status : L.status ≠ some .completed

/-- A life without a snapshot gets one exactly when the order completes. -/
theorem Move.unrecorded (h : Move sha256 ps env caller o op L L') (hL : L.Unrecorded) :
    L'.Unrecorded ∨
      ∃ x s, L'.order = some x ∧ x.status = .completed ∧ L'.snapshot = some s ∧ Records s x := by
  have hstatus : ∀ {x : Order}, L.order = some x → x.status ≠ .completed := by
    intro x hx hs
    exact hL.status (by rw [Life.status, hx, Option.map_some, hs])
  have hkeep : ∀ {y : Order}, L'.snapshot = L.snapshot → L'.order = some y →
      y.status ≠ .completed → L'.Unrecorded := by
    intro y hsnapshot hy hne
    refine ⟨hsnapshot.trans hL.snapshot, fun heq => ?_⟩
    rw [Life.status, hy, Option.map_some] at heq
    exact hne (Option.some.inj heq)
  have hbury : ∀ {x : Order} {s}, L.order = some x →
      (if x.status = .completed then L.record s else L).bury.Unrecorded := by
    intro x s hx
    rw [if_neg (hstatus hx)]
    exact ⟨hL.snapshot, by simp [Life.status, Life.bury]⟩
  have hcomplete : ∀ {x : Order} {s : OrderAnalyticsSnapshot}, SnapshotOf L x s →
      (Life.record { L with order := some (x.complete (env.now 0)) } s).snapshot = some s ∧
        Records s (x.complete (env.now 0)) := by
    intro x s hs
    refine ⟨?_, hs.sellerId, hs.totalMinor⟩
    rw [Life.record, hL.snapshot, Option.none_or]
  cases h with
  | stay => exact .inl hL
  | create => exact .inl (hkeep rfl rfl (by simp [newOrder]))
  | accept => exact .inl (hkeep rfl rfl (by simp [Order.accept]))
  | prepare => exact .inl (hkeep rfl rfl (by simp [Order.prepare]))
  | sendOutNew => exact .inl (hkeep rfl rfl (by simp [Order.sendOut]))
  | sendOut => exact .inl (hkeep rfl rfl (by simp [Order.sendOut]))
  | deliver => exact .inl (hkeep rfl rfl (by simp [Order.deliver]))
  | complete _ _ _ hs => exact .inr ⟨_, _, rfl, rfl, hcomplete hs⟩
  | autoComplete _ _ _ _ hs => exact .inr ⟨_, _, rfl, rfl, hcomplete hs⟩
  | cancel => exact .inl (hkeep rfl rfl (by simp [Order.cancel]))
  | delete hx => exact .inl (hbury hx)
  | purge hx => exact .inl (hbury hx)
  | driverAccept hx =>
    have hne := hstatus hx
    exact .inl (hkeep rfl rfl hne)
  | completeDelivery => exact .inl (hkeep rfl rfl (by simp [Order.deliverByCode]))
  | chooseSelfDelivery => exact .inl ⟨hL.snapshot, hL.status⟩
  | requestDriver => exact .inl ⟨hL.snapshot, hL.status⟩
  | assignDriver => exact .inl ⟨hL.snapshot, hL.status⟩
  | recordLocation => exact .inl ⟨hL.snapshot, hL.status⟩
  | patchDelivery => exact .inl ⟨hL.snapshot, hL.status⟩

end Moves

/-! ### The orders ever completed -/

section Ledger

variable (sha256 : String → String)

/-- The order has been completed at some point of the run. -/
def World.EverCompleted (w : World) (calls : List Call) (o : Id) : Prop :=
  ∃ first rest, calls = first ++ rest ∧
    (after (World.serve sha256) w first).status o = some .completed

/-- The orders that a request has newly completed join those seen before. -/
def World.note (seen : List Order) (w : World) (c : Call) : List Order :=
  seen ++ (w.serve sha256 c).db.orders.rows.filter fun x =>
    x.status = .completed ∧ x.id ∉ seen.map Order.id

/-- The orders ever completed in a run, as they were when they first were. -/
def World.everCompleted (w : World) (calls : List Call) : List Order :=
  (after (withMemory (World.serve sha256) (World.note sha256)) (w, []) calls).2

variable {sha256} {w : World} {calls : List Call} {c : Call} {o : Id}

/-- Nothing was completed before the first call. -/
@[simp] theorem everCompleted_nil : w.everCompleted sha256 [] = [] := rfl

/-- One more call adds what it completed. -/
theorem everCompleted_snoc : w.everCompleted sha256 (calls ++ [c]) =
    World.note sha256 (w.everCompleted sha256 calls) (after (World.serve sha256) w calls) c := by
  have hworld := after_withMemory (World.serve sha256) (World.note sha256) (w, []) calls
  rw [World.everCompleted, after_append, after_cons, after_nil, withMemory, hworld]
  rfl

/-- Whoever is seen stays seen. -/
theorem everCompleted_append (sha256 : String → String) (w : World) (calls rest : List Call) :
    ∃ more, w.everCompleted sha256 (calls ++ rest) = w.everCompleted sha256 calls ++ more := by
  induction rest using List.reverseRecOn with
  | nil => exact ⟨[], by simp⟩
  | append_singleton rest c ih =>
    obtain ⟨more, hmore⟩ := ih
    rw [← List.append_assoc, everCompleted_snoc, World.note, hmore, List.append_assoc]
    exact ⟨_, rfl⟩

/-- The ledger and the snapshot table agree. -/
structure World.Booked (w : World) (seen : List Order) : Prop where
  ready : w.Ready
  distinct : (seen.map Order.id).Nodup
  booked : ∀ x ∈ seen, ∃ s, w.db.snapshots.get x.id = some s ∧ Records s x
  unbooked : ∀ o, o ∉ seen.map Order.id → (w.db.life o).Unrecorded

/-- The initial world has nothing to book. -/
theorem World.Initial.booked (h : w.Initial) : w.Booked [] where
  ready := h.ready
  distinct := List.nodup_nil
  booked x hx := by cases hx
  unbooked o _ := by
    rw [h.noOrder]
    exact ⟨rfl, by simp [Life.status]⟩

/-- A request keeps the books. -/
theorem World.Booked.serve {seen : List Order} (h : w.Booked seen) (c : Call) :
    (w.serve sha256 c).Booked (w.note sha256 seen c) where
  ready := h.ready.serve c
  distinct := by
    rw [World.note, List.map_append, List.nodup_append]
    refine ⟨h.distinct, (w.serve sha256 c).db.orders.nodup.sublist (List.filter_sublist.map _), ?_⟩
    rintro o ho _ hnew rfl
    obtain ⟨x, hx, rfl⟩ := List.mem_map.mp hnew
    exact (of_decide_eq_true (List.mem_filter.mp hx).2).2 ho
  booked x hx := by
    rcases List.mem_append.mp hx with hold | hnew
    · obtain ⟨s, hs, hrecords⟩ := h.booked x hold
      exact ⟨s, (h.ready.moves sha256 c x.id).snapshot hs, hrecords⟩
    · obtain ⟨hrow, hcond⟩ := List.mem_filter.mp hnew
      obtain ⟨hstatus, hunseen⟩ := of_decide_eq_true hcond
      have hx' : ((w.serve sha256 c).db.life x.id).order = some x := Table.mem_rows_iff.mp hrow
      rcases (h.ready.moves sha256 c x.id).unrecorded
        (h.unbooked x.id hunseen) with hnot | hrecorded
      · refine absurd ?_ hnot.status
        rw [Life.status, hx', Option.map_some, hstatus]
      · obtain ⟨y, s, hy, -, hs, hrecords⟩ := hrecorded
        obtain rfl := Option.some.inj (hx'.symm.trans hy)
        exact ⟨s, hs, hrecords⟩
  unbooked o ho := by
    rw [World.note, List.map_append, List.mem_append, not_or] at ho
    rcases (h.ready.moves sha256 c o).unrecorded (h.unbooked o ho.1) with hnot | hrecorded
    · exact hnot
    · obtain ⟨x, s, hx, hstatus, -⟩ := hrecorded
      have hget : (w.serve sha256 c).db.orders.get o = some x := hx
      obtain ⟨hrow, rfl⟩ := Table.get_eq_some_iff.mp hget
      refine absurd (List.mem_map.mpr ⟨x, List.mem_filter.mpr ⟨hrow, ?_⟩, rfl⟩) ho.2
      exact decide_eq_true ⟨hstatus, ho.1⟩

/-- In every run the books are kept. -/
theorem World.Initial.booked_after (sha256 : String → String) (hw : w.Initial) (calls : List Call) :
    (after (World.serve sha256) w calls).Booked (w.everCompleted sha256 calls) := by
  induction calls using List.reverseRecOn with
  | nil => exact hw.booked
  | append_singleton calls c ih =>
    rw [everCompleted_snoc, after_append, after_cons, after_nil]
    exact ih.serve c

/-- The ledger holds the orders that have ever been completed. -/
theorem mem_everCompleted_iff (hw : w.Initial) :
    o ∈ (w.everCompleted sha256 calls).map Order.id ↔ w.EverCompleted sha256 calls o := by
  constructor
  · induction calls using List.reverseRecOn with
    | nil =>
      intro ho
      cases ho
    | append_singleton calls c ih =>
      intro ho
      rw [everCompleted_snoc, World.note, List.map_append, List.mem_append] at ho
      rcases ho with hold | hnew
      · obtain ⟨first, rest, rfl, hstatus⟩ := ih hold
        exact ⟨first, rest ++ [c], by simp, hstatus⟩
      · obtain ⟨x, hx, rfl⟩ := List.mem_map.mp hnew
        obtain ⟨hrow, hcond⟩ := List.mem_filter.mp hx
        refine ⟨calls ++ [c], [], by simp, ?_⟩
        rw [after_append, after_cons, after_nil, World.status, Table.mem_rows_iff.mp hrow,
          Option.map_some, (of_decide_eq_true hcond).1]
  · rintro ⟨first, rest, rfl, hstatus⟩
    obtain ⟨more, hmore⟩ := everCompleted_append sha256 w first rest
    rw [hmore, List.map_append, List.mem_append]
    left
    by_contra hunseen
    exact ((hw.booked_after sha256 first).unbooked o hunseen).status hstatus

/-! ### The dashboard -/

/-- The snapshot of an order. -/
def Db.snapshotOf (db : Db) (x : Order) : Option OrderAnalyticsSnapshot := db.snapshots.get x.id

/-- The snapshots of a ledger are the whole table. -/
theorem World.Booked.filterMap_perm {seen : List Order} (h : w.Booked seen) :
    (seen.filterMap w.db.snapshotOf).Perm w.db.snapshots.rows := by
  have hkeys : ((seen.filterMap w.db.snapshotOf).map
      OrderAnalyticsSnapshot.orderId) = seen.map Order.id := by
    have hall := h.booked
    clear h
    induction seen with
    | nil => rfl
    | cons x seen ih =>
      obtain ⟨s, hs, -⟩ := hall x List.mem_cons_self
      have hof : w.db.snapshotOf x = some s := hs
      rw [List.filterMap_cons_some hof, List.map_cons, List.map_cons,
        ih fun y hy => hall y (List.mem_cons_of_mem x hy), Table.key_of_get hs]
  have hnodup : (seen.filterMap w.db.snapshotOf).Nodup :=
    List.Nodup.of_map _ (hkeys ▸ h.distinct)
  refine (List.perm_ext_iff_of_nodup hnodup (List.Nodup.of_map _ w.db.snapshots.nodup)).mpr
    fun s => ?_
  rw [List.mem_filterMap]
  constructor
  · rintro ⟨x, -, hs⟩
    exact (Table.get_eq_some_iff.mp hs).1
  · intro hs
    have hget := Table.mem_rows_iff.mp hs
    have hmem : s.orderId ∈ seen.map Order.id := by
      by_contra hunseen
      have hnone : w.db.snapshots.get s.orderId = none := (h.unbooked s.orderId hunseen).snapshot
      rw [hget] at hnone
      cases hnone
    obtain ⟨x, hx, hid⟩ := List.mem_map.mp hmem
    refine ⟨x, hx, ?_⟩
    rw [Db.snapshotOf, hid]
    exact hget

/-- The totals of one seller's snapshots are the totals of that seller's orders in the ledger. -/
theorem World.Booked.totals {seen : List Order} (h : w.Booked seen) (seller : Id) :
    ((w.db.snapshots.rows.filter fun s => s.sellerId = seller).map
        OrderAnalyticsSnapshot.totalMinor).Perm
      ((seen.filter fun x => x.sellerId = seller).map Order.totalMinor) := by
  refine ((h.filterMap_perm.symm.filter _).map _).trans (List.Perm.of_eq ?_)
  have hall := h.booked
  clear h
  induction seen with
  | nil => rfl
  | cons x seen ih =>
    obtain ⟨s, hs, hrecords⟩ := hall x List.mem_cons_self
    have hrest := ih fun y hy => hall y (List.mem_cons_of_mem x hy)
    have hof : w.db.snapshotOf x = some s := hs
    rw [List.filterMap_cons_some hof]
    by_cases hseller : x.sellerId = seller
    · have hs' : s.sellerId = seller := hrecords.sellerId.trans hseller
      simp only [hseller, hs', decide_true, List.filter_cons_of_pos, List.map_cons, hrest,
        hrecords.totalMinor]
    · have hs' : ¬s.sellerId = seller := by rwa [hrecords.sellerId]
      simp only [hseller, hs', decide_false, Bool.false_eq_true, not_false_eq_true,
        List.filter_cons_of_neg, hrest]

/-- **Sales snapshots.** In every state a run reaches, an order that has ever been completed has
exactly one snapshot and every other order has none; no request changes or removes a snapshot;
and a dashboard shows the total and the number of the seller's orders ever completed. -/
theorem snapshots_exactly_once (sha256 : String → String) {w : World} (hw : w.Initial)
    (calls : List Call) :
    (∀ o, w.EverCompleted sha256 calls o →
      ((after (World.serve sha256) w calls).db.snapshots.rows.filter
        fun s => s.orderId = o).length = 1) ∧
    (∀ o, ¬w.EverCompleted sha256 calls o →
      ((after (World.serve sha256) w calls).db.snapshots.rows.filter
        fun s => s.orderId = o) = []) ∧
    EachStep (World.serve sha256)
      (fun w c => ∀ s ∈ w.db.snapshots.rows, s ∈ (w.serve sha256 c).db.snapshots.rows) w calls ∧
    ((w.everCompleted sha256 calls).map Order.id).Nodup ∧
    (∀ o, o ∈ (w.everCompleted sha256 calls).map Order.id ↔ w.EverCompleted sha256 calls o) ∧
    ∀ env caller target d db', (getDashboard env caller target).run
        (after (World.serve sha256) w calls).db = .ok (d, db') →
      d.lifetimeSalesAmount = (((w.everCompleted sha256 calls).filter
        fun x => x.sellerId = d.sellerId).map Order.totalMinor).sum ∧
      d.lifetimeOrdersCount = ((w.everCompleted sha256 calls).filter
        fun x => x.sellerId = d.sellerId).length := by
  have hbooked := hw.booked_after sha256 calls
  refine ⟨fun o ho => ?_, fun o ho => ?_, ?_, hbooked.distinct, fun o => mem_everCompleted_iff hw,
    ?_⟩
  · obtain ⟨x, hx, rfl⟩ := List.mem_map.mp ((mem_everCompleted_iff hw).mpr ho)
    obtain ⟨s, hs, -⟩ := hbooked.booked x hx
    have hle := Table.filter_key_length (after (World.serve sha256) w calls).db.snapshots x.id
    have hmem : s ∈ (after (World.serve sha256) w calls).db.snapshots.rows.filter
        fun s => s.orderId = x.id := by
      obtain ⟨hrow, hid⟩ := Table.get_eq_some_iff.mp hs
      exact List.mem_filter.mpr ⟨hrow, decide_eq_true hid⟩
    have hpos := List.length_pos_of_mem hmem
    omega
  · have hunseen := mt (mem_everCompleted_iff hw).mp ho
    have hnone : (after (World.serve sha256) w calls).db.snapshots.get o = none :=
      (hbooked.unbooked o hunseen).snapshot
    rw [List.filter_eq_nil_iff]
    intro s hs hid
    have hid' : s.orderId = o := of_decide_eq_true hid
    rw [← hid', Table.mem_rows_iff.mp hs] at hnone
    cases hnone
  · rw [eachStep_iff]
    rintro first c rest rfl s hs
    have hready := hw.ready.after sha256 first
    have hget := Table.mem_rows_iff.mp hs
    exact Table.mem_rows_iff.mpr ((hready.moves sha256 c s.orderId).snapshot hget)
  · intro env caller target d db' hrun
    obtain ⟨hsales, hcount⟩ := getDashboard_ok hrun
    have htotals := hbooked.totals d.sellerId
    have hlength := htotals.length_eq
    rw [List.length_map, List.length_map] at hlength
    exact ⟨hsales.trans htotals.sum_eq, hcount.trans hlength⟩

end Ledger

/-- The sample order is completed, and a month later purged: its sale stays on the dashboard. -/
theorem snapshots_exactly_once_purged :
    let calls := Sample.sent.take 6 ++
      [Sample.request Sample.driver (.markDelivered 0) 8,
        Sample.request Sample.customer (.completeOrder 0) 9,
        Sample.request Sample.admin .runPurgeJob (9 + days 30)]
    Sample.start.EverCompleted Sample.sha256 calls 0 ∧
      (after (World.serve Sample.sha256) Sample.start calls).status 0 = none ∧
      ((after (World.serve Sample.sha256) Sample.start calls).db.snapshots.rows.filter
        fun s => s.orderId = 0).length = 1 := by
  intro calls
  have hcompleted : Sample.start.EverCompleted Sample.sha256 calls 0 :=
    ⟨calls.take 8, calls.drop 8, (List.take_append_drop 8 calls).symm, by decide +kernel⟩
  exact ⟨hcompleted, by decide +kernel,
    (snapshots_exactly_once Sample.sha256 Sample.start_initial calls).1 0 hcompleted⟩

end Marketplace
