import Marketplace.Order.Runs

/-!
# The lockout of a delivery code

`complete_delivery` counts a wrong code, locks the code at the third one and records the
attempt, and then raises, so the session takes all of it back. The lockout therefore
holds of a sequence of completion requests exactly when no request of it is refused at
the code: every one that reaches the code submits the right one, and it is not locked.
-/

namespace Marketplace

open Lib Txn DeliveryFlow

section Lockout

variable {sha256 : String → String} {w : World} {c : Call} {o : Id} {submitted : String}
  {code : DeliveryCode}

/-- The request gets as far as the code of the order. -/
structure World.ReachesCode (w : World) (c : Call) (o : Id) (submitted : String)
    (code : DeliveryCode) : Prop where
  op : c.op = .completeDelivery o submitted
  driver : c.caller.role = .driver
  order : ∃ x, w.db.orders.get o = some x ∧ x.deletedAt = none
  code : w.db.deliveryCodes.get o = some code

/-- The request compares a wrong code with the hash. -/
def World.comparesWrong (sha256 : String → String) (w : World) (c : Call) : Bool :=
  match c.op with
  | .completeDelivery o submitted =>
    c.caller.role = .driver ∧
      ((w.db.orders.get o).any fun x => x.deletedAt = none) = true ∧
      ((w.db.deliveryCodes.get o).any fun code => checkCode sha256 code submitted = .wrong) = true
  | _ => false

/-- The request delivers the order. -/
def World.delivers (sha256 : String → String) (w : World) (c : Call) : Bool :=
  (w.respond sha256 c).1.toBool

/-- The request leaves its audit row. -/
def World.Audited (sha256 : String → String) (w : World) (c : Call) (o : Id)
    (submitted : String) : Prop :=
  ∃ a, (w.serve sha256 c).db.deliveryCodeAttempts.rows = w.db.deliveryCodeAttempts.rows ++ [a] ∧
    a.orderId = o ∧ a.driverId = some c.caller.id ∧ a.submittedCode = submitted

/-- The lockout of the code of one order over a sequence of completion requests. -/
structure World.LocksOut (sha256 : String → String) (o : Id) (w : World) (calls : List Call) :
    Prop where
  atMostThree : countSteps (World.serve sha256) (World.comparesWrong sha256) w calls ≤ 3
  locked : ∀ first rest, calls = first ++ rest →
    3 ≤ countSteps (World.serve sha256) (World.comparesWrong sha256) w first →
    (∃ code, (after (World.serve sha256) w first).db.deliveryCodes.get o = some code ∧
      code.locked = true) ∧
    EachStep (World.serve sha256) (fun w c => w.delivers sha256 c = false)
      (after (World.serve sha256) w first) rest
  audited : EachStep (World.serve sha256)
    (fun w c => ∀ submitted code, w.ReachesCode c o submitted code →
      w.Audited sha256 c o submitted) w calls

/-- If the request reaches the code of the order, it submits the right one and the code is not
locked. -/
def World.SubmitsRight (sha256 : String → String) (o : Id) (w : World) (c : Call) : Prop :=
  ∀ submitted code, w.ReachesCode c o submitted code → checkCode sha256 code submitted = .right

/-- The draws of `uuid4` still to come name no attempt that is already recorded. -/
def World.AttemptsFresh (w : World) : Prop :=
  ∀ n, w.served ≤ n → ∀ i, w.db.deliveryCodeAttempts.get (Nat.pair n i) = none

/-! ### One request -/

/-- A request that is refused at the code leaves the database as it was. -/
theorem serve_of_refused (h : w.ReachesCode c o submitted code)
    (hcheck : checkCode sha256 code submitted ≠ .right) :
    (w.serve sha256 c).db = w.db := by
  cases hr : (w.respond sha256 c).1 with
  | error e => exact serve_of_error hr
  | ok r =>
    have hrun := exec_of_ok hr
    rw [h.op] at hrun
    obtain ⟨_, hrun, -⟩ := run_reply_ok.mp hrun
    obtain ⟨-, -, code', -, -, hcode, hright, -⟩ := completeDelivery_ok hrun
    obtain rfl : code = code' := Option.some.inj (h.code.symm.trans hcode)
    exact absurd hright hcheck

/-- A request with the right code completes the delivery. -/
theorem serve_of_right (h : w.ReachesCode c o submitted code)
    (hcheck : checkCode sha256 code submitted = .right) (hfresh : w.AttemptsFresh) :
    (w.serve sha256 c).db = delivered w.db (w.env c) c.caller o submitted := by
  obtain ⟨x, hget, hlive⟩ := h.order
  have hrun := completeDelivery_right (w.env c) h.driver hget hlive h.code hcheck
    (hfresh w.served (Nat.le_refl _) 0)
  have hexec : (c.op.exec sha256 (w.env c) c.caller).run w.db =
      .ok (.delivered (x.deliverByCode ((w.env c).now 0)),
        delivered w.db (w.env c) c.caller o submitted) := by
    rw [h.op]
    exact run_reply_ok.mpr ⟨_, hrun, rfl⟩
  have hsession := session_of_run hexec
  exact congrArg Prod.snd hsession

/-- The attempts after a completion. -/
theorem delivered_attempts (db : Db) (env : Env) (driver : User) :
    (delivered db env driver o submitted).deliveryCodeAttempts =
      db.deliveryCodeAttempts.insert (attempt env driver o submitted true) := by
  have hsame := archiveAll_attempts db (env.now 0) (db.orderMessages.rows.filter fun m =>
    m.orderId = o ∧ m.archivedAt = none)
  simp only [delivered, Db.addCodeAttempt, Db.modifyCode, Db.modifyOrder, hsame]

/-- A request leaves its audit row exactly when it is not refused at the code. -/
theorem audited_iff (h : w.ReachesCode c o submitted code) (hfresh : w.AttemptsFresh) :
    w.Audited sha256 c o submitted ↔ checkCode sha256 code submitted = .right := by
  constructor
  · rintro ⟨a, hrows, -⟩
    by_contra hcheck
    rw [serve_of_refused h hcheck] at hrows
    have hlength := congrArg List.length hrows
    simp at hlength
  · intro hcheck
    refine ⟨attempt (w.env c) c.caller o submitted true, ?_, rfl, rfl, rfl⟩
    rw [serve_of_right h hcheck hfresh, delivered_attempts]
    exact Table.rows_insert (hfresh w.served (Nat.le_refl _) 0)

/-- The draws still to come stay fresh over a completion request. -/
theorem World.AttemptsFresh.serve (h : w.AttemptsFresh)
    (hop : c.op = .completeDelivery o submitted) :
    (w.serve sha256 c).AttemptsFresh := by
  intro n hn i
  have hle : w.served ≤ n := Nat.le_of_succ_le hn
  cases hr : (w.respond sha256 c).1 with
  | error e =>
    rw [serve_of_error hr]
    exact h n hle i
  | ok r =>
    have hrun := exec_of_ok hr
    rw [hop] at hrun
    obtain ⟨_, hrun, -⟩ := run_reply_ok.mp hrun
    obtain ⟨-, -, -, -, -, -, -, hdb⟩ := completeDelivery_ok hrun
    have hne : Nat.pair n i ≠ (attempt (w.env c) c.caller o submitted true).id := by
      intro heq
      have hpair : Nat.pair n i = Nat.pair w.served 0 := heq
      have hserved : n = w.served := (Nat.pair_eq_pair.mp hpair).1
      have hlt : w.served + 1 ≤ n := hn
      omega
    rw [hdb, delivered_attempts, Table.get_insert_of_ne _ hne]
    exact h n hle i

/-- A request that compares a wrong code reaches the code and is refused there. -/
theorem comparesWrong_spec (h : w.comparesWrong sha256 c = true)
    (hop : c.op = .completeDelivery o submitted) :
    ∃ code, w.ReachesCode c o submitted code ∧ checkCode sha256 code submitted = .wrong := by
  unfold World.comparesWrong at h
  rw [hop] at h
  simp only [Option.any_eq_true, decide_eq_true_eq] at h
  obtain ⟨hrole, horder, code, hcode, hwrong⟩ := h
  exact ⟨code, ⟨hop, hrole, horder, hcode⟩, hwrong⟩

/-! ### A sequence of requests -/

/-- The requests of a sequence complete the order `o`. -/
def CompletionsOf (o : Id) (calls : List Call) : Prop :=
  ∀ c ∈ calls, ∃ submitted, c.op = .completeDelivery o submitted

/-- In a sequence of completion requests the draws stay fresh at every step. -/
theorem eachStep_fresh (sha256 : String → String) {calls : List Call}
    (hcalls : CompletionsOf o calls)
    (hfresh : w.AttemptsFresh) :
    EachStep (World.serve sha256)
      (fun w c => w.AttemptsFresh ∧ ∃ submitted, c.op = .completeDelivery o submitted) w calls := by
  induction calls generalizing w with
  | nil => trivial
  | cons c calls ih =>
    obtain ⟨submitted, hop⟩ := hcalls c List.mem_cons_self
    refine ⟨⟨hfresh, submitted, hop⟩, ih (fun c' hc' => ?_) (hfresh.serve hop)⟩
    exact hcalls c' (List.mem_cons_of_mem _ hc')

/-- The first part of a list of completions is one. -/
theorem CompletionsOf.append {first rest : List Call} (h : CompletionsOf o (first ++ rest)) :
    CompletionsOf o first :=
  fun c hc => h c (List.mem_append_left _ hc)

/-- Nothing is compared in vain while every request submits the right code. -/
theorem countSteps_comparesWrong {calls : List Call} (hcalls : CompletionsOf o calls)
    (hright : EachStep (World.serve sha256) (World.SubmitsRight sha256 o) w calls) :
    countSteps (World.serve sha256) (World.comparesWrong sha256) w calls = 0 := by
  induction calls generalizing w with
  | nil => rfl
  | cons c calls ih =>
    obtain ⟨submitted, hop⟩ := hcalls c List.mem_cons_self
    have hrest := ih (fun c' hc' => hcalls c' (List.mem_cons_of_mem _ hc')) hright.2
    have hnot : w.comparesWrong sha256 c = false := by
      by_contra hwrong
      obtain ⟨code, hreach, hcheck⟩ := comparesWrong_spec (Bool.eq_true_of_not_eq_false hwrong) hop
      have hr := hright.1 submitted code hreach
      rw [hcheck] at hr
      cases hr
    simp [countSteps, hnot, hrest]

/-- **The lockout.** It holds of a sequence of completion requests exactly when every request
that reaches the code submits the right one while the code is not locked. -/
theorem locksOut_iff (sha256 : String → String) (w : World) (o : Id) (calls : List Call)
    (hcalls : CompletionsOf o calls) (hfresh : w.AttemptsFresh) :
    World.LocksOut sha256 o w calls ↔
      EachStep (World.serve sha256) (World.SubmitsRight sha256 o) w calls := by
  have hsteps := eachStep_iff.mp (eachStep_fresh sha256 hcalls hfresh)
  constructor
  · intro hlocks
    rw [eachStep_iff]
    intro first c rest heq submitted code hreach
    have haudited := eachStep_iff.mp hlocks.audited first c rest heq submitted code hreach
    exact (audited_iff hreach (hsteps first c rest heq).1).mp haudited
  · intro hright
    have hzero : ∀ first rest, calls = first ++ rest →
        countSteps (World.serve sha256) (World.comparesWrong sha256) w first = 0 := by
      rintro first rest rfl
      exact countSteps_comparesWrong hcalls.append (eachStep_append.mp hright).1
    refine ⟨?_, ?_, ?_⟩
    · rw [hzero calls [] (List.append_nil calls).symm]
      omega
    · intro first rest heq hthree
      rw [hzero first rest heq] at hthree
      omega
    · rw [eachStep_iff]
      intro first c rest heq submitted code hreach
      have hcheck := eachStep_iff.mp hright first c rest heq submitted code hreach
      exact (audited_iff hreach (hsteps first c rest heq).1).mpr hcheck

end Lockout

namespace Sample

/-- The seller may not submit a code, and two drivers submit the right one. -/
def handedIn : List Call :=
  [request seller (.completeDelivery 0 "111111") 8, request driver (.completeDelivery 0 "000000") 9,
   request otherDriver (.completeDelivery 0 "000000") 10]

end Sample

/-- The seller is refused before the code is looked at, and both drivers leave their audit row. -/
theorem locksOut_iff_right :
    let w := after (World.serve Sample.sha256) Sample.start Sample.sent
    World.LocksOut Sample.sha256 0 w Sample.handedIn ∧
      (after (World.serve Sample.sha256) w Sample.handedIn).db.deliveryCodeAttempts.rows.map
        DeliveryCodeAttempt.driverId = [some 3, some 4] := by
  intro w
  refine ⟨(locksOut_iff Sample.sha256 w 0 Sample.handedIn ?_ ?_).mpr ⟨?_, ?_, ?_, trivial⟩,
    by decide +kernel⟩
  · intro c hc
    simp only [Sample.handedIn, List.mem_cons, List.not_mem_nil, or_false] at hc
    rcases hc with rfl | rfl | rfl <;> exact ⟨_, rfl⟩
  · intro n _ i
    have hempty : w.db.deliveryCodeAttempts = ∅ := by decide +kernel
    rw [hempty]
    rfl
  · intro submitted code hreach
    cases hreach.driver
  · intro submitted code hreach
    cases hreach.op
    have hright : ∀ code ∈ (World.serve Sample.sha256 w (Sample.request Sample.seller
        (.completeDelivery 0 "111111") 8)).db.deliveryCodes.get 0,
        checkCode Sample.sha256 code "000000" = .right := by decide +kernel
    exact hright code hreach.code
  · intro submitted code hreach
    cases hreach.op
    have hright : ∀ code ∈ (after (World.serve Sample.sha256) w
        (Sample.handedIn.take 2)).db.deliveryCodes.get 0,
        checkCode Sample.sha256 code "000000" = .right := by decide +kernel
    exact hright code hreach.code

/-- Four wrong codes are compared, the code is not locked after any of them, the right one then
delivers the order, and only this last request is recorded. -/
theorem wrong_codes_forgotten :
    let w := after (World.serve Sample.sha256) Sample.start Sample.sent
    let wrong := List.replicate 4 (Sample.request Sample.driver (.completeDelivery 0 "111111") 8)
    let right := Sample.request Sample.driver (.completeDelivery 0 "000000") 9
    ¬World.LocksOut Sample.sha256 0 w (wrong ++ [right]) ∧
      countSteps (World.serve Sample.sha256) (World.comparesWrong Sample.sha256) w wrong = 4 ∧
      (after (World.serve Sample.sha256) w wrong).delivers Sample.sha256 right = true ∧
      (after (World.serve Sample.sha256) w (wrong ++ [right])).db.deliveryCodeAttempts.rows.length
        = 1 := by
  intro w wrong right
  refine ⟨fun h => ?_, by decide +kernel, by decide +kernel, by decide +kernel⟩
  have hfour : countSteps (World.serve Sample.sha256) (World.comparesWrong Sample.sha256) w
      (wrong ++ [right]) = 4 := by decide +kernel
  have hthree := h.atMostThree
  omega

end Marketplace
