import Marketplace.Lib.Settle
import Marketplace.Order.Exclusivity

/-!
# Counting wrong codes among concurrent attempts

`complete_delivery` reads the code row without a lock, adds one to the counter in memory
and writes the sum back. Supposing that a refused attempt is committed, the counter counts
the wrong codes as long as none of them is counted while another wrong code is being
checked.
-/

namespace Marketplace

open Lib Txn DeliveryFlow

/-! ### Attempts whose refusal is committed -/

/-- The error is an `AppException`, so the endpoint has refused the request. -/
def Err.isApp : Err → Bool
  | .app _ => true
  | _ => false

/-- A request to complete the delivery of an order. -/
structure Submission where
  env : Env
  driver : User
  submitted : String

/-- The transaction of a request whose refusal is committed. -/
def Submission.exec (sha256 : String → String) (o : Id) (c : Submission) :
    Tx (Except Err Order) :=
  (completeDelivery sha256 c.env c.driver o c.submitted).settle Err.isApp

/-- The attempt has compared a wrong code with the hash: one of the two refusals that say so. -/
def comparedWrong : Except Err Order → Bool
  | .error (.app e) =>
    e.code = "DELIVERY_CODE_INVALID" ∨ e.message = "Delivery code locked after 3 failed attempts."
  | _ => false

/-! ### The counter -/

/-- The counter and the lock of the code row, and the mark on the order row. -/
def Db.counters (db : Db) (o : Id) : Option (ℤ × Bool) × Option Bool :=
  ((db.deliveryCodes.get o).map fun c => (c.attemptsUsed, c.locked),
   (db.orders.get o).map Order.deliveryCodeLocked)

/-- The hash of the code of the order. -/
def Db.codeHash (db : Db) (o : Id) : Option String :=
  (db.deliveryCodes.get o).map DeliveryCode.codeHash

/-- The three of them after `n` wrong codes. -/
def tally (n : ℕ) : Option (ℤ × Bool) × Option Bool :=
  (some (n, decide (n = 3)), some (decide (n = 3)))

/-- A code that nobody has tried. -/
structure FreshCode (db : Db) (o : Id) (code : DeliveryCode) : Prop where
  found : db.deliveryCodes.get o = some code
  attempts : code.attemptsUsed = 0
  unlocked : code.locked = false
  order : ∃ x, db.orders.get o = some x ∧ x.deliveryCodeLocked = false

/-- The lockout of the order's code in a committed state, and what has been committed by then. -/
def LockoutCounted {ι : Type} (o : Id) (s : Sys ι Db Key Err (Except Err Order)) : Prop :=
  ∃ code x, s.db.deliveryCodes.get o = some code ∧ s.db.orders.get o = some x ∧
    code.attemptsUsed = (s.log.filter fun entry => comparedWrong entry.2).length ∧
    code.attemptsUsed ≤ 3 ∧ (code.locked = true ↔ code.attemptsUsed = 3) ∧
    (x.deliveryCodeLocked = true ↔ code.attemptsUsed = 3)

/-- A driver submits something else than the code. -/
def Submission.IsWrong (sha256 : String → String) (code : DeliveryCode) (c : Submission) : Prop :=
  c.driver.role = .driver ∧ hashCode sha256 c.submitted ≠ code.codeHash

/-- A wrong code that is still counted commits only while no other wrong code is under way. -/
def CountsAlone {ι : Type} (sha256 : String → String) (o : Id) (code : DeliveryCode)
    (calls : ι → Submission) (s : Sys ι Db Key Err (Except Err Order)) (i : ι)
    (_ : Sys ι Db Key Err (Except Err Order)) : Prop :=
  s.AboutToCommit i → (calls i).IsWrong sha256 code →
    (∀ row, s.db.deliveryCodes.get o = some row → row.locked = false) →
    ∀ j, j ≠ i → (calls j).IsWrong sha256 code →
      ¬Sys.UnderWay (fun i => (calls i).exec sha256 o) s j

/-! ### What each write does to the counter -/

section Writes

variable {db : Db} {o : Id} {n : ℕ}

/-- A write that leaves the counter and the hash alone. -/
def KeepsCounter (o : Id) (s t : Db) : Prop :=
  t.counters o = s.counters o ∧ t.codeHash o = s.codeHash o

/-- An edit of the order that leaves the lock flag alone keeps the counter. -/
theorem keepsCounter_modifyOrder (id : Id) {f : Order → Order} (hid : ∀ x, (f x).id = x.id)
    (hf : ∀ x, (f x).deliveryCodeLocked = x.deliveryCodeLocked) :
    KeepsCounter o db (db.modifyOrder id f) := by
  refine ⟨?_, rfl⟩
  simp only [Db.counters, Db.modifyOrder, Table.get_modify _ _ hid]
  by_cases ho : o = id
  · rw [if_pos ho]
    cases db.orders.get o with
    | none => rfl
    | some x => simp [hf]
  · rw [if_neg ho]

/-- Consuming the code keeps the counter. -/
theorem keepsCounter_consume (id : Id) (now : Time) :
    KeepsCounter o db (db.modifyCode id (DeliveryCode.consume now)) := by
  have hget := Table.get_modify db.deliveryCodes id (DeliveryCode.consume_orderId · now) o
  by_cases ho : o = id
  · rw [if_pos ho] at hget
    constructor
    · simp only [Db.counters, Db.modifyCode, hget, Option.map_map]
      rfl
    · simp only [Db.codeHash, Db.modifyCode, hget, Option.map_map]
      rfl
  · rw [if_neg ho] at hget
    constructor
    · simp only [Db.counters, Db.modifyCode, hget]
    · simp only [Db.codeHash, Db.modifyCode, hget]

/-- The counter once a wrong code has been counted. -/
theorem counters_countAttempt (h : db.counters o = tally n) (hn : n + 1 < 3) :
    (db.modifyCode o (DeliveryCode.countAttempt (n + 1))).counters o = tally (n + 1) ∧
      (db.modifyCode o (DeliveryCode.countAttempt (n + 1))).codeHash o = db.codeHash o := by
  have hget := Table.get_modify db.deliveryCodes o (DeliveryCode.countAttempt_orderId · (n + 1)) o
  rw [if_pos rfl] at hget
  simp only [Db.counters, tally, Prod.mk.injEq, Option.map_eq_some_iff] at h
  obtain ⟨⟨c, hc, hused, hlocked⟩, x, hx, hmark⟩ := h
  have hne : n ≠ 3 := by omega
  have hne' : n + 1 ≠ 3 := by omega
  constructor
  · simp only [Db.counters, Db.modifyCode, hget, hc, hx, Option.map_some, tally]
    simp [DeliveryCode.countAttempt, hlocked, hmark, hne, hne']
  · simp only [Db.codeHash, Db.modifyCode, hget, hc, Option.map_some]
    rfl

/-- The counter and the two locks once the third wrong code has been counted. -/
theorem counters_lock (h : db.counters o = tally 2) :
    ((db.modifyOrder o Order.lockCode).modifyCode o (DeliveryCode.lock 3)).counters o = tally 3 ∧
      ((db.modifyOrder o Order.lockCode).modifyCode o (DeliveryCode.lock 3)).codeHash o =
        db.codeHash o := by
  have hget := Table.get_modify db.deliveryCodes o (DeliveryCode.lock_orderId · 3) o
  have horder := Table.get_modify db.orders o Order.lockCode_id o
  rw [if_pos rfl] at hget horder
  simp only [Db.counters, tally, Prod.mk.injEq, Option.map_eq_some_iff] at h
  obtain ⟨⟨c, hc, -⟩, x, hx, -⟩ := h
  constructor
  · simp only [Db.counters, Db.modifyCode, Db.modifyOrder, hget, horder, hc, hx, Option.map_some,
      tally]
    rfl
  · simp only [Db.codeHash, Db.modifyCode, Db.modifyOrder, hget, hc, Option.map_some]
    rfl

end Writes

/-! ### One attempt among the others -/

section Attempt

variable {sha256 : String → String} {o : Id} {code : DeliveryCode} {c : Submission}

/-- The counter is in order, and the hash is that of the code. -/
def Tallied (o : Id) (code : DeliveryCode) (db : Db) : Prop :=
  (∃ n ≤ 3, db.counters o = tally n) ∧ db.codeHash o = some code.codeHash

/-- What an attempt with a wrong code relies on: no other wrong code is counted. -/
def Unmoved (sha256 : String → String) (o : Id) (code : DeliveryCode) (c : Submission)
    (s t : Db) : Prop :=
  c.IsWrong sha256 code → t.counters o = s.counters o

/-- What an attempt does to the counter. -/
structure CountsOne (sha256 : String → String) (o : Id) (code : DeliveryCode) (c : Submission)
    (r : Except Err Order) (s t : Db) : Prop where
  counted : comparedWrong r = true →
    c.IsWrong sha256 code ∧ ∃ n < 3, s.counters o = tally n ∧ t.counters o = tally (n + 1)
  otherwise : comparedWrong r = false → t.counters o = s.counters o

/-- What an attempt ends with that counts nothing. -/
theorem relyOk_of_keeps {K : Db → Prop} {facts : List (Key × Db)} {w : Db → Db}
    {r : Except Err Order} (hw : ∀ s, KeepsCounter o s (w s)) (hr : comparedWrong r = false) :
    RelyOk .free (Tallied o code) (CountsOne sha256 o code c) K facts w r := by
  intro s hI _ _
  obtain ⟨hcounters, hhash⟩ := hw s
  refine ⟨⟨?_, hhash.trans hI.2⟩, ⟨fun h => ?_, fun _ => hcounters⟩, fun _ _ => trivial⟩
  · obtain ⟨n, hn, hs⟩ := hI.1
    exact ⟨n, hn, hcounters.trans hs⟩
  · rw [hr] at h
    cases h

/-- What an attempt ends with that counts one. -/
theorem relyOk_of_counts {K : Db → Prop} {facts : List (Key × Db)} {w : Db → Db}
    {r : Except Err Order} {n : ℕ} (hn : n < 3) (hK : ∀ s, K s → s.counters o = tally n)
    (hw : ∀ s, s.counters o = tally n →
      (w s).counters o = tally (n + 1) ∧ (w s).codeHash o = s.codeHash o)
    (hwrong : c.IsWrong sha256 code) (hr : comparedWrong r = true) :
    RelyOk .free (Tallied o code) (CountsOne sha256 o code c) K facts w r := by
  intro s hI hs _
  have hbefore := hK s hs
  obtain ⟨hafter, hhash⟩ := hw s hbefore
  refine ⟨⟨⟨n + 1, hn, hafter⟩, hhash.trans hI.2⟩, 
    ⟨fun _ => ⟨hwrong, n, hn, hbefore, hafter⟩, fun h => ?_⟩,
    fun _ _ => trivial⟩
  rw [hr] at h
  cases h

/-- An attempt row that cannot be inserted ends the transaction, whatever is kept. -/
theorem wpr_settle_insertCodeAttempt {a : DeliveryCodeAttempt} {R : Db → Db → Prop}
    {I K : Db → Prop} {facts : List (Key × Db)} {w : Db → Db}
    {Post : (Db → Prop) → List (Key × Db) → (Db → Db) → Except Err Unit → Prop}
    (h : ∀ K' facts', (∀ s, K' s → K s) →
      Post K' facts' ((fun db => db.addCodeAttempt a) ∘ w) (.ok ())) :
    ((insertCodeAttempt a).settle Err.isApp).wpr .free I R Post K facts w := by
  simp only [insertCodeAttempt, insertRow, bind_eq, wpr_settle_bind, wpr_settle_acquire,
    wpr_settleRest_ok, wpr_settle_raiseIf, wpr_settle_modify]
  intro s _ _ _
  refine ⟨fun _ => h _ _ fun t ht => ht.1, fun _ hkeep => ?_⟩
  cases hkeep

/-- The refusal of a wrong code counts it, if nobody else does. -/
theorem refuseCode_counts {K : Db → Prop} {facts : List (Key × Db)} {order : Order}
    {row : DeliveryCode} {n : ℕ} {R : Db → Db → Prop} (horder : order.id = o)
    (hwrong : c.IsWrong sha256 code) (hused : row.attemptsUsed = n) (hn : n < 3)
    (hK : ∀ s, K s → s.counters o = tally n) :
    ((refuseCode c.env c.driver order row c.submitted).settle Err.isApp).wpr .free
      (Tallied o code) R (RelyOk .free (Tallied o code) (CountsOne sha256 o code c))
      K facts id := by
  have hthird : row.attemptsUsed + 1 ≥ 3 ↔ n = 2 := by
    rw [hused]
    omega
  unfold refuseCode
  dsimp only
  by_cases htwo : n = 2
  · subst htwo
    have hthree : row.attemptsUsed + 1 = 3 := by
      rw [hused]
      rfl
    rw [if_pos (hthird.mpr rfl)]
    simp only [hthree, horder, updateOrder, updateCode, bind_eq, wpr_settle_bind,
      wpr_settle_updateRow, wpr_settleRest_ok]
    intro s₁ _ _ _ s₂ _ _ _
    refine wpr_settle_insertCodeAttempt fun K' facts' hK' => ?_
    rw [wpr_settleRest_ok, wpr_settle_raise]
    intro _
    exact relyOk_of_counts hn (fun s hs => hK s (hK' s hs).1.1) (fun s hs => counters_lock hs)
      hwrong (by decide)
  · rw [if_neg (mt hthird.mp htwo)]
    simp only [hused, horder, updateCode, bind_eq, wpr_settle_bind, wpr_settle_updateRow,
      wpr_settleRest_ok]
    intro s₁ _ _ _
    refine wpr_settle_insertCodeAttempt fun K' facts' hK' => ?_
    rw [wpr_settleRest_ok, wpr_settle_raise]
    intro _
    refine relyOk_of_counts hn (fun s hs => hK s (hK' s hs).1)
      (fun s hs => counters_countAttempt hs (by omega)) hwrong ?_
    simp [comparedWrong, Err.deliveryCodeInvalid]

/-- The delivery with the right code leaves the counter alone. -/
theorem deliver_keeps {K : Db → Prop} {facts : List (Key × Db)} {order : Order}
    {R : Db → Db → Prop} :
    ((deliver c.env c.driver order c.submitted).settle Err.isApp).wpr .free
      (Tallied o code) R (RelyOk .free (Tallied o code) (CountsOne sha256 o code c))
      K facts id := by
  have hwrites : (deliver c.env c.driver order c.submitted).Writes
      fun _ f => ∀ s, KeepsCounter o s (f s) := by
    have harchive : ∀ ms : List OrderMessage, (archiveMessages (c.env.now 0) ms).Writes
        fun _ f => ∀ s, KeepsCounter o s (f s) := by
      intro ms
      induction ms with
      | nil => exact .pure _
      | cons m ms ih => exact .bind (.updateRow fun _ => ⟨rfl, rfl⟩) fun _ => ih
    exact .bind .read fun _ => .bind (harchive _) fun _ =>
      .bind (.updateRow fun _ => keepsCounter_modifyOrder _ (Order.deliverByCode_id _) fun _ => rfl)
      fun _ => .bind (.updateRow fun _ => keepsCounter_consume _ _) fun _ =>
      .bind (writes_insertRow fun _ => ⟨rfl, rfl⟩) fun _ => .pure _
  have hraises : (deliver c.env c.driver order c.submitted).NeverRaises
      fun e => comparedWrong (.error e) = true := by
    have harchive : ∀ ms : List OrderMessage, (archiveMessages (c.env.now 0) ms).NeverRaises
        fun e => comparedWrong (.error e) = true := by
      intro ms
      induction ms with
      | nil => exact .pure _
      | cons m ms ih => exact .bind (.updateRow _ _) fun _ => ih
    exact .bind .read fun _ => .bind (harchive _) fun _ => .bind (.updateRow _ _) fun _ =>
      .bind (.updateRow _ _) fun _ => .bind (.bind (.acquire _) fun _ =>
      .bind (.raiseIf _ (by decide)) fun _ => .modify _) fun _ => .pure _
  refine wpr_mono ?_ (wpr_settle_of_writes (E := KeepsCounter o) ?_ (fun _ _ hf => hf) hwrites
    hraises fun _ => ⟨rfl, rfl⟩)
  · rintro K' facts' w r ⟨hw, hr⟩
    refine relyOk_of_keeps hw ?_
    cases r with
    | ok x => rfl
    | error e => exact Bool.eq_false_of_not_eq_true (hr e rfl)
  · exact fun s t u hst htu => ⟨htu.1.trans hst.1, htu.2.trans hst.2⟩

/-- The code row that an attempt finds, in terms of the counter. -/
theorem Tallied.row {db : Db} (h : Tallied o code db) {row : DeliveryCode}
    (hrow : db.deliveryCodes.get o = some row) :
    row.codeHash = code.codeHash ∧ ∃ n ≤ 3, db.counters o = tally n ∧ row.attemptsUsed = n ∧
      (row.locked = false → n < 3) := by
  obtain ⟨⟨n, hn, hcounters⟩, hhash⟩ := h
  have hused := congrArg Prod.fst hcounters
  simp only [Db.codeHash, hrow, Option.map_some, Option.some.injEq] at hhash
  simp only [Db.counters, hrow, Option.map_some, tally, Option.some.injEq, Prod.mk.injEq] at hused
  refine ⟨hhash, n, hn, hcounters, hused.1, fun hunlocked => ?_⟩
  rw [hused.2] at hunlocked
  have hne : n ≠ 3 := of_decide_eq_false hunlocked
  omega

/-- A refusal that has compared nothing. -/
theorem relyOk_of_refused {K : Db → Prop} {facts : List (Key × Db)} {e : Err}
    (he : comparedWrong (.error e) = false) :
    RelyOk .free (Tallied o code) (CountsOne sha256 o code c) K facts id (.error e) :=
  relyOk_of_keeps (fun _ => ⟨rfl, rfl⟩) he

/-- A code is wrong when the row is unlocked and the hash differs. -/
theorem checkCode_wrong {row : DeliveryCode} {submitted : String}
    (h : checkCode sha256 row submitted = .wrong) :
    row.locked = false ∧ hashCode sha256 submitted ≠ row.codeHash := by
  unfold checkCode at h
  by_cases hlocked : row.locked = true
  · rw [if_pos hlocked] at h
    cases h
  · by_cases hhash : hashCode sha256 submitted = row.codeHash
    · simp [hlocked, hhash] at h
    · exact ⟨Bool.eq_false_of_not_eq_true hlocked, hhash⟩

/-- The attempt from the check of the code on. -/
theorem check_counts {K : Db → Prop} {facts : List (Key × Db)} {order : Order}
    {row : DeliveryCode} {s : Db} {R : Db → Db → Prop} (hrole : c.driver.role = .driver)
    (horder : order.id = o) (hs : Tallied o code s) (hrow : s.deliveryCodes.get o = some row)
    (hK : ∀ t, K t → Unmoved sha256 o code c s t) :
    (Txn.settle Err.isApp (match checkCode sha256 row c.submitted with
      | .locked => (insertCodeAttempt (attempt c.env c.driver order.id c.submitted false)).bind
          fun _ => raise (Err.deliveryCodeLocked "Delivery code is locked. Contact support.")
      | .wrong => refuseCode c.env c.driver order row c.submitted
      | .right => deliver c.env c.driver order c.submitted)).wpr .free (Tallied o code) R
        (RelyOk .free (Tallied o code) (CountsOne sha256 o code c)) K facts id := by
  obtain ⟨hhash, n, -, hcounters, hused, hunlocked⟩ := hs.row hrow
  cases hcheck : checkCode sha256 row c.submitted with
  | locked =>
    dsimp only
    rw [wpr_settle_bind]
    refine wpr_settle_insertCodeAttempt fun K' facts' _ => ?_
    rw [wpr_settleRest_ok, wpr_settle_raise]
    intro _
    exact relyOk_of_keeps (fun _ => ⟨rfl, rfl⟩) (by decide)
  | wrong =>
    obtain ⟨hlocked, hwrong⟩ := checkCode_wrong hcheck
    rw [hhash] at hwrong
    refine refuseCode_counts horder ⟨hrole, hwrong⟩ hused (hunlocked hlocked) fun t ht => ?_
    exact (hK t ht ⟨hrole, hwrong⟩).trans hcounters
  | right => exact deliver_keeps

/-- An attempt counts one wrong code, or leaves the counter alone. -/
theorem exec_counts (sha256 : String → String) (o : Id) (code : DeliveryCode) (c : Submission) :
    (c.exec sha256 o).wprFrom .free (Tallied o code) (Unmoved sha256 o code c) (fun _ => True)
      (RelyOk .free (Tallied o code) (CountsOne sha256 o code c)) := by
  unfold Submission.exec completeDelivery getOrderOr404
  by_cases hrole : c.driver.role = .driver
  · simp only [raiseIf_of_not (not_not_intro hrole), bind_eq, pure_eq, bind_assoc, ret_bind]
    refine wprFrom_settle_read fun s hs _ => ?_
    rw [wpr_settle_bind, wpr_settle_getOrRaise]
    refine ⟨fun order horder => ?_, fun _ _ => relyOk_of_refused (by decide)⟩
    obtain rfl := Table.key_of_get horder
    rw [wpr_settleRest_ok, wpr_settle_bind, wpr_settle_raiseIf]
    refine ⟨fun _ => ?_, fun _ _ => relyOk_of_refused (by decide)⟩
    rw [wpr_settleRest_ok, wpr_settle_bind, wpr_settle_read]
    intro s₁ hs₁ _ _
    rw [wpr_settleRest_ok, wpr_settle_bind, wpr_settle_getOrRaise]
    refine ⟨fun row hrow => ?_, fun _ _ => relyOk_of_refused (by decide)⟩
    exact check_counts hrole rfl hs₁ hrow fun t ht => ht.2
  · rw [raiseIf_of hrole, bind_eq, raise_bind]
    exact relyOk_of_refused (by decide)

end Attempt

/-! ### The lockout in every interleaving -/

section Lockout

variable {ι : Type} {o : Id} {code : DeliveryCode}

/-- A fresh code has no attempt counted. -/
theorem FreshCode.counters {db : Db} (h : FreshCode db o code) : db.counters o = tally 0 := by
  obtain ⟨x, hx, hmark⟩ := h.order
  simp only [Db.counters, h.found, hx, Option.map_some, h.attempts, h.unlocked, hmark]
  rfl

/-- A fresh code is tallied at zero. -/
theorem FreshCode.tallied {db : Db} (h : FreshCode db o code) : Tallied o code db := by
  refine ⟨⟨0, by omega, h.counters⟩, ?_⟩
  simp only [Db.codeHash, h.found, Option.map_some]

/-- Different counts have different tallies. -/
theorem tally_inj {m n : ℕ} (h : tally m = tally n) : m = n := by
  have hused := congrArg Prod.fst h
  simp only [tally, Option.some.injEq, Prod.mk.injEq] at hused
  omega

/-- The rows behind the counter. -/
theorem lockoutCounted_of_tally {s : Sys ι Db Key Err (Except Err Order)} {n : ℕ} (hn : n ≤ 3)
    (hs : s.db.counters o = tally n)
    (hlog : n = (s.log.filter fun entry => comparedWrong entry.2).length) :
    LockoutCounted o s := by
  simp only [Db.counters, tally, Prod.mk.injEq, Option.map_eq_some_iff] at hs
  obtain ⟨⟨row, hrow, hused, hlocked⟩, x, hx, hmark⟩ := hs
  refine ⟨row, x, hrow, hx, by rw [hused, hlog], ?_, ?_, ?_⟩
  · rw [hused]
    omega
  · rw [hlocked, hused, decide_eq_true_iff]
    omega
  · rw [hmark, hused, decide_eq_true_iff]
    omega

/-- The counter once the log has been committed. -/
theorem counters_of_commits {sha256 : String → String} {calls : ι → Submission} {db t : Db}
    {log : List (ι × Except Err Order)} (hdb : db.counters o = tally 0)
    (h : Sys.Commits (fun i => CountsOne sha256 o code (calls i)) db log t) :
    t.counters o = tally (log.filter fun entry => comparedWrong entry.2).length := by
  induction h with
  | nil => exact hdb
  | @snoc log s t i r _ hr ih =>
    rw [List.filter_append, List.length_append]
    cases hwrong : comparedWrong r with
    | true =>
      obtain ⟨-, n, -, hs, ht⟩ := hr.counted hwrong
      rw [ht, tally_inj (hs.symm.trans ih)]
      simp [hwrong]
    | false =>
      rw [hr.otherwise hwrong, ih]
      simp [hwrong]

/-- Under the condition no statement disturbs an attempt with a wrong code. -/
theorem CountsAlone.undisturbed [DecidableEq ι] {sha256 : String → String}
    {calls : ι → Submission} {s t : Sys ι Db Key Err (Except Err Order)} {i : ι}
    (hst : Sys.Step i s t) (h : CountsAlone sha256 o code calls s i t)
    (hcommit : ∀ w r, s.txn i = .running w (.ret r) →
      CountsOne sha256 o code (calls i) r s.db (w s.db)) :
    Sys.Undisturbed (fun i => (calls i).exec sha256 o) (fun _ _ => True)
      (fun i => Unmoved sha256 o code (calls i)) s i t where
  first _ := trivial
  others j hj hway hwrong := by
    cases hst with
    | @commit w r hi =>
      have hcounts := hcommit w r hi
      cases hr : comparedWrong r with
      | false => exact hcounts.otherwise hr
      | true =>
        obtain ⟨hwrong', n, hn, hs, -⟩ := hcounts.counted hr
        refine absurd hway (h ⟨w, r, hi⟩ hwrong' (fun row hrow => ?_) j hj hwrong)
        -- the counter has not reached three, so the code is not locked
        have hused := congrArg Prod.fst hs
        simp only [Db.counters, hrow, Option.map_some, tally, Option.some.injEq,
          Prod.mk.injEq] at hused
        have hne : n ≠ 3 := by omega
        exact hused.2.trans (decide_eq_false hne)
    | _ => rfl

/-- **Wrong codes are counted.** If the writes of a refused attempt are committed, and no wrong
code is counted while another one is under way, then in every committed state the counter is the
number of wrong codes compared, at most three, and the code is locked from the third on. -/
theorem attempts_counted [DecidableEq ι] (sha256 : String → String) (calls : ι → Submission)
    {db : Db} (hdb : FreshCode db o code) {t : Sys ι Db Key Err (Except Err Order)}
    (h : Sys.StepsIf (CountsAlone sha256 o code calls)
      (Sys.init db fun i => (calls i).exec sha256 o) t) : LockoutCounted o t := by
  have hcommits := h.commits (L := .free) (I := Tallied o code) (S := fun _ _ => True)
    (R := fun i => Unmoved sha256 o code (calls i))
    (Q := fun i => CountsOne sha256 o code (calls i)) (fun _ _ _ => rfl)
    (fun _ _ _ _ hst htu hwrong => (htu hwrong).trans (hst hwrong))
    (fun i => exec_counts sha256 o code (calls i)) hdb.tallied
    fun i s t hst hif _ hcommit => hif.undisturbed hst hcommit
  obtain ⟨⟨⟨n, hn, hn'⟩, -⟩, hlog⟩ := hcommits
  have hcount := counters_of_commits hdb.counters hlog
  exact lockoutCounted_of_tally hn hn' (tally_inj (hn'.symm.trans hcount))

end Lockout

namespace Sample

/-- The driver submits a wrong code in two requests, or a wrong one and then the right one. -/
def submissions (second : String) (i : Bool) : Submission where
  env := { now := fun _ => 8, transactionNow := 8, randbelow := 0,
           uuid4 := fun k => Nat.pair (if i then 11 else 10) k }
  driver := driver
  submitted := if i then second else "111111"

/-- The requests. -/
def attempts (second : String) (i : Bool) : Tx (Except Err Order) :=
  (submissions second i).exec sha256 0

/-- The sample order has a fresh code. -/
theorem onItsWay_fresh : ∃ code, FreshCode onItsWay 0 code ∧ code.codeHash = sha256 "000000" := by
  have hcode : ∃ code ∈ onItsWay.deliveryCodes.get 0, code.attemptsUsed = 0 ∧ code.locked = false ∧
      code.codeHash = sha256 "000000" := by decide +kernel
  have horder : ∃ x ∈ onItsWay.orders.get 0, x.deliveryCodeLocked = false := by decide +kernel
  obtain ⟨code, hfound, hused, hunlocked, hhash⟩ := hcode
  obtain ⟨x, hx, hmark⟩ := horder
  exact ⟨code, ⟨hfound, hused, hunlocked, x, hx, hmark⟩, hhash⟩

/-- An answer of a session that compared wrong is one of its run. -/
theorem comparedWrong_of_session {p : Tx (Except Err Order)} {s s' : Db} {r : Except Err Order}
    (hrun : p.run s = .ok (r, s')) (h : (p.session s).1.toOption.any comparedWrong = true) :
    comparedWrong r = true := by
  rw [session_of_run hrun] at h
  exact h

end Sample

/-- A wrong code is counted while the right one is still to come. -/
theorem attempts_counted_once :
    ∃ t, Sys.Steps (Sys.init Sample.onItsWay (Sample.attempts "000000")) t ∧
      (t.log.filter fun entry => comparedWrong entry.2).length = 1 ∧ LockoutCounted 0 t := by
  obtain ⟨code, hfresh, hhash⟩ := Sample.onItsWay_fresh
  obtain ⟨r, hrun⟩ := run_of_session (p := Sample.attempts "000000" false) (s := Sample.onItsWay)
    (by decide +kernel)
  obtain ⟨t, ht⟩ := Sys.runsTo_of_run (s := Sys.init Sample.onItsWay (Sample.attempts "000000"))
    (i := false) rfl (fun _ => .inl rfl) hrun
  have hwrong : comparedWrong r = true := Sample.comparedWrong_of_session hrun (by decide +kernel)
  refine ⟨t, ht.steps, ?_, ?_⟩
  · rw [ht.log]
    simp [Sys.init, hwrong]
  · refine attempts_counted Sample.sha256 (Sample.submissions "000000") hfresh
      (ht.steps.stepsIf fun s i u _ hi _ j hj hj' => ?_)
    -- only one of the two submissions is wrong
    have honly : ∀ i, (Sample.submissions "000000" i).IsWrong Sample.sha256 code → i = false := by
      rintro (_ | _) hbad
      · rfl
      · exact absurd hhash.symm hbad.2
    exact absurd ((honly j hj').trans (honly i hi).symm) hj

/-- Two wrong codes are compared before either is counted: the counter says one. -/
theorem attempt_lost :
    (∃ code, FreshCode Sample.onItsWay 0 code) ∧
    ∃ t, Sys.Steps (Sys.init Sample.onItsWay (Sample.attempts "111111")) t ∧
      (t.log.filter fun entry => comparedWrong entry.2).length = 2 ∧
      (t.db.deliveryCodes.get 0).map DeliveryCode.attemptsUsed = some 1 ∧
      ¬LockoutCounted 0 t := by
  refine ⟨Sample.onItsWay_fresh.imp fun _ h => h.1, ?_⟩
  -- the first request has read the order and the code row when the second one runs
  have hreads : (Sample.attempts "111111" true).selects Sample.onItsWay 2 = true := by
    decide +kernel
  obtain ⟨r, hrun⟩ := run_of_session (p := Sample.attempts "111111" false) (s := Sample.onItsWay)
    (by decide +kernel)
  obtain ⟨r', hrun'⟩ := run_of_session
    (p := (Sample.attempts "111111" true).afterSelects Sample.onItsWay 2)
    (s := ((Sample.attempts "111111" false).session Sample.onItsWay).2) (by decide +kernel)
  have hwrong : comparedWrong r = true := Sample.comparedWrong_of_session hrun (by decide +kernel)
  have hwrong' : comparedWrong r' = true :=
    Sample.comparedWrong_of_session hrun' (by decide +kernel)
  obtain ⟨s, t, hs, hst, -, hdb, hlog, -⟩ :=
    Sys.overtaken_of_run (i := true) (j := false) (by decide) hreads hrun hrun'
  have hcount : (t.log.filter fun entry => comparedWrong entry.2).length = 2 := by
    rw [hlog]
    simp [hwrong, hwrong']
  have hused : (t.db.deliveryCodes.get 0).map DeliveryCode.attemptsUsed = some 1 := by
    rw [hdb]
    decide +kernel
  refine ⟨t, hs.tail true hst, hcount, hused, ?_⟩
  rintro ⟨code, x, hcode, -, hcounted, -⟩
  rw [hcode, Option.map_some, Option.some.injEq] at hused
  omega

end Marketplace
