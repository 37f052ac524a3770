import Marketplace.Order.Runs

/-!
# The retention gate

The time gate of an order's row is written twice: `delete_order` checks it on the row it
has locked, and `run_purge_job` puts it into the query for the rows that it removes. This
file says exactly what the job does to every row, and that the two gates are one.
-/

namespace Marketplace

open Lib Txn OrderService

/-- A caller whom `delete_order` lets at the order. -/
def Entitled (caller : User) (x : Order) : Prop :=
  match caller.role with
  | .admin => True
  | .customer => x.customerId = caller.id
  | .seller => x.sellerId = caller.id
  | .driver => False

/-- The gate: the order is terminal, and has been for the retention period. -/
def RetentionElapsed (ps : PlatformSettings) (now : Time) (x : Order) : Prop :=
  ∃ terminal, terminalAt x = some terminal ∧ terminal + days ps.retentionMinDays ≤ now

/-- What the purge job makes of the row of an order. -/
def purged (ps : PlatformSettings) (now : Time) (x : Order) : Option Order :=
  if awaitsAutoComplete (now - hours ps.orderAutoCompleteGraceHours) x then some (x.complete now)
  else if awaitsPurge (now - days ps.retentionMinDays) x then none
  else some x

/-! ### The two formulations of the gate -/

section Gate

variable {ps : PlatformSettings} {env : Env} {now : Time} {x : Order} {caller : User} {o : Id}
  {db db' : Db}

/-- The `WHERE` of the purge query is the gate. -/
theorem awaitsPurge_iff : awaitsPurge (now - days ps.retentionMinDays) x = true ↔
    x.deletedAt = none ∧ RetentionElapsed ps now x := by
  have hle : ∀ t : Time, t ≤ now - days ps.retentionMinDays ↔ t + days ps.retentionMinDays ≤ now :=
    fun _ => ⟨Int.add_le_of_le_sub_right, Int.le_sub_right_of_add_le⟩
  cases hs : x.status with
  | completed => simp [awaitsPurge, RetentionElapsed, terminalAt, terminalStatuses, hs,
      Option.any_eq_true, hle]
  | cancelled => simp [awaitsPurge, RetentionElapsed, terminalAt, terminalStatuses, hs,
      Option.any_eq_true, hle]
  | _ => simp [awaitsPurge, RetentionElapsed, terminalAt, terminalStatuses, hs]

/-- An order that is completed now has not been terminal for a day. -/
theorem awaitsPurge_complete (hps : 1 ≤ ps.retentionMinDays) :
    awaitsPurge (now - days ps.retentionMinDays) (x.complete now) = false := by
  have hpos := days_pos hps
  rw [Bool.eq_false_iff, ne_eq, awaitsPurge_iff]
  rintro ⟨-, terminal, hterm, hle⟩
  have hnow : now = terminal := by simpa [terminalAt, Order.complete] using hterm
  rw [hnow] at hle
  have hlt : (terminal : ℤ) < terminal + days ps.retentionMinDays := Int.lt_add_of_pos_right _ hpos
  exact absurd hle (Int.not_le.mpr hlt)

/-- An order that awaits its completion is not terminal. -/
theorem not_awaitsPurge_of_awaitsAutoComplete {cutoff cutoff' : Time}
    (h : awaitsAutoComplete cutoff x = true) : awaitsPurge cutoff' x = false := by
  simp only [awaitsAutoComplete, decide_eq_true_eq] at h
  simp [awaitsPurge, terminalStatuses, h.1]

/-- The settings of a request that asks for them. -/
theorem getRetentionSettings_run (env : Env) (db : Db) :
    ∃ t, (getRetentionSettings env).run db = .ok (db.settingsInForce env, t) ∧
      t.platformSettings = some (db.settingsInForce env) ∧ t.orders = db.orders := by
  unfold Db.settingsInForce
  cases hps : db.platformSettings with
  | none =>
    refine ⟨db.setSettings { updatedAt := env.transactionNow }, ?_, rfl, rfl⟩
    simp [getRetentionSettings, hps]
  | some ps =>
    refine ⟨db, ?_, hps, rfl⟩
    simp [getRetentionSettings, hps]

/-- The settings in force depend on the surroundings only by the time of a first creation. -/
theorem retentionMinDays_inForce (db : Db) (env env' : Env) :
    (db.settingsInForce env).retentionMinDays = (db.settingsInForce env').retentionMinDays := by
  unfold Db.settingsInForce
  cases db.platformSettings with
  | none => rfl
  | some ps => rfl

/-- `delete_order` succeeds exactly for an entitled caller and beyond the gate. -/
theorem deleteOrder_succeeds_iff :
    (∃ db', (deleteOrder env caller o).run db = .ok ((), db')) ↔
      ∃ x, db.orders.get o = some x ∧ x.deletedAt = none ∧ Entitled caller x ∧
        RetentionElapsed (db.settingsInForce env) (env.now 0) x := by
  constructor
  · rintro ⟨db', h⟩
    obtain ⟨t, hsettings, -, -⟩ := getRetentionSettings_run env db
    simp only [deleteOrder, loadOrderLocked, bind_eq, run_bind_ok, run_selectForUpdate_ok,
      run_getOrRaise_ok, run_raiseIf_ok] at h
    obtain ⟨_, _, ⟨rfl, rfl⟩, x, _, ⟨hget, rfl⟩, _, _, ⟨hlive, rfl⟩, _, _, ⟨hcustomer, rfl⟩, _, _,
      ⟨hseller, rfl⟩, _, _, ⟨hdriver, rfl⟩, terminal, _, ⟨hterm, rfl⟩, ps, _, hps, _, _,
      ⟨hret, rfl⟩, -⟩ := h
    rw [hsettings] at hps
    obtain ⟨rfl, rfl⟩ := Prod.mk.inj (Except.ok.inj hps)
    refine ⟨x, hget, not_not.mp hlive, ?_, terminal, hterm, ?_⟩
    · unfold Entitled
      cases hrole : caller.role <;> simp_all
    · have hle := Int.not_lt.mp hret
      exact Int.add_le_of_le_sub_left hle
  · rintro ⟨x, hget, hlive, hentitled, terminal, hterm, hle⟩
    obtain ⟨t, hsettings, -, -⟩ := getRetentionSettings_run env db
    have hret : days (db.settingsInForce env).retentionMinDays ≤ env.now 0 - terminal :=
      Int.le_sub_left_of_add_le hle
    have hroles : (caller.role = .customer → x.customerId = caller.id) ∧
        (caller.role = .seller → x.sellerId = caller.id) ∧ caller.role ≠ .driver := by
      unfold Entitled at hentitled
      cases hrole : caller.role <;> simp_all
    obtain ⟨hcustomer, hseller, hdriver⟩ := hroles
    by_cases hc : x.status = .completed
    · simpa [deleteOrder, loadOrderLocked, hget, hlive, hdriver, hterm, hsettings, hc,
        writeSnapshot] using ⟨hcustomer, hseller, hret⟩
    · simpa [deleteOrder, loadOrderLocked, hget, hlive, hdriver, hterm, hsettings, hc] using
        ⟨hcustomer, hseller, hret⟩

end Gate

/-! ### What the job does -/

section Job

variable {ps : PlatformSettings} {env : Env} {now : Time} {db db' : Db}

/-- The rows that a query has found, by their identifiers. -/
theorem mem_ids_iff {p : Order → Bool} {o : Id} :
    o ∈ (db.orders.rows.filter p).map Order.id ↔ ∃ x, db.orders.get o = some x ∧ p x = true := by
  simp only [List.mem_map, List.mem_filter]
  constructor
  · rintro ⟨x, ⟨hx, hp⟩, rfl⟩
    exact ⟨x, Table.mem_rows_iff.mp hx, hp⟩
  · rintro ⟨x, hget, hp⟩
    obtain ⟨hx, hid⟩ := Table.get_eq_some_iff.mp hget
    exact ⟨x, ⟨hx, hp⟩, hid⟩

/-- The auto-complete loop completes the orders it is given, each of them once. -/
theorem autoComplete_run {i : ℕ} {orders : List Order} (hrows : RowsOf db orders)
    (hdue : ∀ x ∈ orders, x.status = .delivered) :
    ∃ db', (autoComplete env now i orders).run db = .ok (orders.length, db') ∧
      db'.platformSettings = db.platformSettings ∧
      ∀ o, db'.orders.get o = if o ∈ orders.map Order.id then
        (db.orders.get o).map (Order.complete now) else db.orders.get o := by
  induction orders generalizing db i with
  | nil => exact ⟨db, rfl, rfl, fun o => by simp⟩
  | cons x orders ih =>
    -- the loop goes on over the database with `x` completed and recorded
    have hnext : ∃ t, (∀ {n t'}, (autoComplete env now (i + 1) orders).run t = .ok (n, t') →
          (autoComplete env now i (x :: orders)).run db = .ok (n + 1, t')) ∧
        t.platformSettings = db.platformSettings ∧
        t.orders = db.orders.modify x.id (Order.complete now) ∧
        ∀ o, o ≠ x.id → t.life o = db.life o := by
      refine ⟨(db.modifyOrder x.id (Order.complete now)).addSnapshot (snapshotRow
        (db.modifyOrder x.id (Order.complete now)) env i (x.complete now)), fun hrest => ?_, rfl,
        rfl, fun o ho => ?_⟩
      · have hx := hdue x List.mem_cons_self
        simp [autoComplete, hx, writeSnapshot, hrest]
      · rw [life_addSnapshot_of_ne rfl ho, life_modifyOrder_of_ne (Order.complete_id _) ho]
    obtain ⟨t, hrun, hsettings, horders, hother⟩ := hnext
    obtain ⟨db', hrest, hsettings', hget⟩ := ih (i := i + 1) (hrows.tail hother)
      fun y hy => hdue y (List.mem_cons_of_mem x hy)
    have hnotin : x.id ∉ orders.map Order.id := (List.nodup_cons.mp hrows.distinct).1
    refine ⟨db', hrun hrest, hsettings'.trans hsettings, fun o => ?_⟩
    rw [hget o, horders, Table.get_modify _ _ (Order.complete_id _), List.map_cons]
    by_cases ho : o = x.id
    · subst ho
      rw [if_neg hnotin, if_pos rfl, if_pos List.mem_cons_self]
    · rw [if_neg ho]
      simp [ho]

/-- The purge loop removes the orders it is given. -/
theorem purge_run {i : ℕ} {orders : List Order} :
    ∃ db', (purge env i orders).run db = .ok (orders.length, db') ∧
      db'.platformSettings = db.platformSettings ∧
      ∀ o, db'.orders.get o = if o ∈ orders.map Order.id then none else db.orders.get o := by
  induction orders generalizing db i with
  | nil => exact ⟨db, rfl, rfl, fun o => by simp⟩
  | cons x orders ih =>
    have hnext : ∃ t, (∀ {n t'}, (purge env (i + 1) orders).run t = .ok (n, t') →
          (purge env i (x :: orders)).run db = .ok (n + 1, t')) ∧
        t.platformSettings = db.platformSettings ∧
        t.orders = db.orders.delete fun o => o.id = x.id := by
      by_cases hc : x.status = .completed
      · refine ⟨(db.addSnapshot (snapshotRow db env i x)).removeOrder x.id, fun hrest => ?_, rfl,
          rfl⟩
        simp [purge, hc, writeSnapshot, hrest]
      · refine ⟨db.removeOrder x.id, fun hrest => ?_, rfl, rfl⟩
        simp [purge, hc, hrest]
    obtain ⟨t, hrun, hsettings, horders⟩ := hnext
    obtain ⟨db', hrest, hsettings', hget⟩ := @ih t (i + 1)
    refine ⟨db', hrun hrest, hsettings'.trans hsettings, fun o => ?_⟩
    rw [hget o, horders, Table.get_delete, List.map_cons]
    by_cases ho : o = x.id
    · subst ho
      rw [if_pos List.mem_cons_self]
      split
      · rfl
      · rw [Option.filter_eq_none_iff]
        intro y hy
        simp [Table.key_of_get hy]
    · have hkeep : (db.orders.get o).filter (fun y => !decide (y.id = x.id)) = db.orders.get o := by
        cases hy : db.orders.get o with
        | none => rfl
        | some y => simp [Option.filter, Table.key_of_get hy, ho]
      rw [hkeep]
      simp [ho]

/-- The purge job always returns, and does to every row what `purged` says. -/
theorem runPurgeJob_run (env : Env) (hret : RetentionOk db.platformSettings) :
    ∃ r db', (runPurgeJob env).run db = .ok (r, db') ∧
      db'.platformSettings = some (db.settingsInForce env) ∧
      ∀ o, db'.orders.get o =
        (db.orders.get o).bind (purged (db.settingsInForce env) (env.now 0)) := by
  obtain ⟨t, hsettings, hin, horders⟩ := getRetentionSettings_run env db
  obtain ⟨t', hauto, hsettings', hget'⟩ := @autoComplete_run env (env.now 0) t 0 _
    (rowsOf_filter t (awaitsAutoComplete
      (env.now 0 - hours (db.settingsInForce env).orderAutoCompleteGraceHours))) fun x hx => by
        have hdue := (List.mem_filter.mp hx).2
        simp only [awaitsAutoComplete, decide_eq_true_eq] at hdue
        exact hdue.1
  obtain ⟨db', hpurge, hsettings'', hget⟩ := @purge_run env t'
    (t.orders.rows.filter (awaitsAutoComplete
      (env.now 0 - hours (db.settingsInForce env).orderAutoCompleteGraceHours))).length
    (t'.orders.rows.filter
      (awaitsPurge (env.now 0 - days (db.settingsInForce env).retentionMinDays)))
  rw [← reread_filter t'] at hpurge
  rw [← reread_filter t] at hauto hpurge
  have hrun : ∃ r, (runPurgeJob env).run db = .ok (r, db') := by
    simp only [runPurgeJob, bind_eq, run_bind_ok, run_read_ok, run_skipLockedOrders_ok, pure_eq,
      run_ret_ok]
    exact ⟨_, _, t, hsettings, _, _, ⟨rfl, rfl⟩, _, _, ⟨rfl, rfl⟩, _, t', hauto, _, _, ⟨rfl, rfl⟩,
      _, _, ⟨rfl, rfl⟩, _, db', hpurge, rfl, rfl⟩
  obtain ⟨r, hrun⟩ := hrun
  refine ⟨r, db', hrun, hsettings''.trans (hsettings'.trans hin), fun o => ?_⟩
  have hlate : 1 ≤ (db.settingsInForce env).retentionMinDays := hret.inForce
  rw [hget o]
  simp only [mem_ids_iff, hget', horders]
  cases hx : db.orders.get o with
  | none => simp
  | some x =>
    by_cases hdue : awaitsAutoComplete
        (env.now 0 - hours (db.settingsInForce env).orderAutoCompleteGraceHours) x = true
    · simp [purged, hdue, awaitsPurge_complete hlate]
    · simp [purged, hdue]

/-- What is left of an order by the job is not changed again at the same instant. -/
theorem purged_rest (hps : 1 ≤ ps.retentionMinDays) {x y : Order} (h : purged ps now x = some y) :
    awaitsAutoComplete (now - hours ps.orderAutoCompleteGraceHours) y = false ∧
      awaitsPurge (now - days ps.retentionMinDays) y = false := by
  unfold purged at h
  split at h
  · obtain rfl := Option.some.inj h
    exact ⟨by simp [awaitsAutoComplete, Order.complete], awaitsPurge_complete hps⟩
  · next hauto =>
    split at h
    · cases h
    · next hpurge =>
      obtain rfl := Option.some.inj h
      exact ⟨Bool.eq_false_iff.mpr hauto, Bool.eq_false_iff.mpr hpurge⟩

/-- The job removes a row exactly when it is live and beyond the gate. -/
theorem purged_eq_none_iff {x : Order} :
    purged ps now x = none ↔ x.deletedAt = none ∧ RetentionElapsed ps now x := by
  rw [← awaitsPurge_iff]
  unfold purged
  split
  · next hauto => simp [not_awaitsPurge_of_awaitsAutoComplete hauto]
  · split
    · next hpurge => simp [hpurge]
    · next hpurge => simp [hpurge]

/-- A job that finds nothing to do changes nothing and counts nothing. -/
theorem runPurgeJob_of_rest (hps : db.platformSettings = some ps)
    (hrest : ∀ x ∈ db.orders.rows,
      awaitsAutoComplete (env.now 0 - hours ps.orderAutoCompleteGraceHours) x = false ∧
        awaitsPurge (env.now 0 - days ps.retentionMinDays) x = false) :
    (runPurgeJob env).run db = .ok ({ purgedCount := 0, autoCompletedCount := 0 }, db) := by
  have hauto : db.orders.rows.filter
      (awaitsAutoComplete (env.now 0 - hours ps.orderAutoCompleteGraceHours)) = [] :=
    List.filter_eq_nil_iff.mpr fun x hx => Bool.eq_false_iff.mp (hrest x hx).1
  have hpurge : db.orders.rows.filter
      (awaitsPurge (env.now 0 - days ps.retentionMinDays)) = [] :=
    List.filter_eq_nil_iff.mpr fun x hx => Bool.eq_false_iff.mp (hrest x hx).2
  simp [runPurgeJob, getRetentionSettings, hps, hauto, hpurge, autoComplete, purge]

end Job

/-! ### The gate and the job -/

/-- What the purge job, run at `now`, does to a database. -/
structure RetentionGate (env : Env) (db db' : Db) : Prop where
  /-- The job removes the orders that a caller who is entitled to one could delete. -/
  removes : ∀ o x caller env', db.orders.get o = some x → Entitled caller x →
    env'.now 0 = env.now 0 →
    (db'.orders.get o = none ↔ ∃ t, (deleteOrder env' caller o).run db = .ok ((), t))
  /-- For nobody is that before the retention period of the order has elapsed. -/
  elapsed : ∀ o caller env' t, (deleteOrder env' caller o).run db = .ok ((), t) →
    ∃ x, db.orders.get o = some x ∧ RetentionElapsed (db.settingsInForce env') (env'.now 0) x
  /-- An order that the job completes stays. -/
  keeps : ∀ o x, db.orders.get o = some x →
    awaitsAutoComplete
      (env.now 0 - hours (db.settingsInForce env).orderAutoCompleteGraceHours) x = true →
    db'.orders.get o = some (x.complete (env.now 0))
  /-- The orders are otherwise left alone. -/
  rest : ∀ o, db'.orders.get o = db.orders.get o ∨ db'.orders.get o = none ∨
    ∃ x, db.orders.get o = some x ∧ awaitsAutoComplete
      (env.now 0 - hours (db.settingsInForce env).orderAutoCompleteGraceHours) x = true
  /-- A second run at the same instant changes nothing and counts nothing. -/
  again : ∀ env', env'.now 0 = env.now 0 →
    (runPurgeJob env').run db' = .ok ({ purgedCount := 0, autoCompletedCount := 0 }, db')

/-- **The retention gate.** Under every retention setting of at least a day, which is all that the
schema and the service admit, the purge job returns and removes an order exactly when an entitled
caller could delete it at the same instant. -/
theorem retention_gate (env : Env) (db : Db) (hret : RetentionOk db.platformSettings) :
    ∃ r db', (runPurgeJob env).run db = .ok (r, db') ∧ RetentionGate env db db' := by
  obtain ⟨r, db', hrun, hsettings, hget⟩ := runPurgeJob_run env hret
  have hlate : 1 ≤ (db.settingsInForce env).retentionMinDays := hret.inForce
  refine ⟨r, db', hrun, ?_, ?_, ?_, ?_, ?_⟩
  · intro o x caller env' hx hentitled hnow
    have hsame : ∀ y, RetentionElapsed (db.settingsInForce env') (env'.now 0) y ↔
        RetentionElapsed (db.settingsInForce env) (env.now 0) y := by
      intro y
      simp only [RetentionElapsed, retentionMinDays_inForce db env' env, hnow]
    rw [deleteOrder_succeeds_iff, hget, hx, Option.bind_some, purged_eq_none_iff]
    constructor
    · rintro ⟨hlive, helapsed⟩
      exact ⟨x, rfl, hlive, hentitled, (hsame x).mpr helapsed⟩
    · rintro ⟨y, hy, hlive, -, helapsed⟩
      obtain rfl := Option.some.inj hy
      exact ⟨hlive, (hsame x).mp helapsed⟩
  · intro o caller env' t hdelete
    obtain ⟨x, hx, -, -, helapsed⟩ := deleteOrder_succeeds_iff.mp ⟨t, hdelete⟩
    exact ⟨x, hx, helapsed⟩
  · intro o x hx hauto
    rw [hget, hx, Option.bind_some, purged, if_pos hauto]
  · intro o
    rw [hget]
    cases hx : db.orders.get o with
    | none => exact .inl rfl
    | some x =>
      rw [Option.bind_some, purged]
      split
      · next hauto => exact .inr (.inr ⟨x, rfl, hauto⟩)
      · split
        · exact .inr (.inl rfl)
        · exact .inl rfl
  · intro env' hnow
    refine runPurgeJob_of_rest hsettings fun y hy => ?_
    have hrow := hget y.id
    rw [Table.mem_rows_iff.mp hy] at hrow
    obtain ⟨x, -, hx⟩ := Option.bind_eq_some_iff.mp hrow.symm
    rw [hnow]
    exact purged_rest hlate hx

namespace Sample

/-- The surroundings of the job on the hundredth day. -/
def lateEnv : Env := { now := fun _ => days 100, transactionNow := days 100, uuid4 := id,
                       randbelow := 0 }

/-- The server with an order that has been delivered by hand and completed. -/
def completed : World :=
  after (World.serve sha256) start
    (sent ++ [request driver (.markDelivered 0) 8, request customer (.completeOrder 0) 9])

end Sample

/-- The job on a server with an order that was completed long ago. -/
theorem retention_gate_completed : ∃ r db',
    (runPurgeJob Sample.lateEnv).run Sample.completed.db = .ok (r, db') ∧
      RetentionGate Sample.lateEnv Sample.completed.db db' :=
  retention_gate Sample.lateEnv _ (Sample.start_initial.ready.after Sample.sha256 _).retention

end Marketplace
