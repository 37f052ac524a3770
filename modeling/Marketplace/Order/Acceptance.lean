import Marketplace.Lib.Rely
import Marketplace.Order.Runs

/-!
# Who has accepted an order

Any number of drivers call `accept_order`. The unique key of the delivery codes lets one first
acceptance through for each order, and the code it stores is never replaced. A later call is
answered with that code, whoever makes it, so the calls that succeed are those of the driver on
the delivery row as long as no other driver is answered.
-/

namespace Marketplace

open Lib Txn DeliveryFlow

/-- A call of `accept_order`. -/
structure AcceptCall where
  env : Env
  driver : User
  orderId : Id

/-- The program of a call. -/
def AcceptCall.exec (sha256 : String → String) (c : AcceptCall) : Tx (Order × DeliveryCode) :=
  acceptOrder sha256 c.env c.driver c.orderId

/-- The delivery row of the order names this driver. -/
def Db.DeliversTo (db : Db) (o driver : Id) : Prop :=
  ∃ d, db.deliveries.get o = some d ∧ d.driverId = some driver

/-! ### What one call commits -/

/-- The lock on the row of a delivery or of a code protects that row. -/
def acceptLocking : Locking Db Key where
  agree key s t :=
    match key with
    | .delivery o => t.deliveries.get o = s.deliveries.get o
    | .deliveryCode o => t.deliveryCodes.get o = s.deliveryCodes.get o
    | _ => True
  refl key s := by
    cases key with
    | _ => trivial
  trans {key s t u} hst htu := by
    cases key with
    | delivery o => exact Eq.trans htu hst
    | deliveryCode o => exact Eq.trans htu hst
    | _ => trivial

/-- No delivery goes, and no code goes or changes. -/
structure AcceptancesStay (s t : Db) : Prop where
  delivery : ∀ o, s.deliveries.get o ≠ none → t.deliveries.get o ≠ none
  code : ∀ o c, s.deliveryCodes.get o = some c → t.deliveryCodes.get o = some c

/-- A state's acceptances stay in it. -/
theorem AcceptancesStay.refl (s : Db) : AcceptancesStay s s :=
  ⟨fun _ h => h, fun _ _ h => h⟩

/-- Acceptances that stay twice stay. -/
theorem AcceptancesStay.trans {s t u : Db} (h : AcceptancesStay s t) (h' : AcceptancesStay t u) :
    AcceptancesStay s u :=
  ⟨fun o ho => h'.delivery o (h.delivery o ho), fun o c hc => h'.code o c (h.code o c hc)⟩

/-- What a call commits that returns an order and a code. -/
inductive AcceptCall.Accepts (c : AcceptCall) (r : Order × DeliveryCode) (s t : Db) : Prop
  /-- The order had been accepted before, and the call only reads the code. -/
  | answered (hcode : s.deliveryCodes.get c.orderId = some r.2) (hsame : t = s)
  /-- The order is accepted for the caller under a new code. -/
  | created (hnone : s.deliveryCodes.get c.orderId = none)
    (hcode : t.deliveryCodes.get c.orderId = some r.2)
    (hdriver : t.DeliversTo c.orderId c.driver.id)
    (hcodes : ∀ o, o ≠ c.orderId → t.deliveryCodes.get o = s.deliveryCodes.get o)
    (hdeliveries : ∀ o, o ≠ c.orderId → t.deliveries.get o = s.deliveries.get o)

/-- An acceptance leaves the earlier ones in place. -/
theorem AcceptCall.Accepts.stay {c : AcceptCall} {r : Order × DeliveryCode} {s t : Db}
    (h : c.Accepts r s t) : AcceptancesStay s t := by
  cases h with
  | answered _ hsame =>
    rw [hsame]
    exact AcceptancesStay.refl s
  | created hnone _ hdriver hcodes hdeliveries =>
    obtain ⟨d, hd, -⟩ := hdriver
    refine ⟨fun o ho => ?_, fun o c' hc' => ?_⟩
    · by_cases heq : o = c.orderId
      · rw [heq, hd]
        exact Option.some_ne_none d
      · rw [hdeliveries o heq]
        exact ho
    · by_cases heq : o = c.orderId
      · rw [heq, hnone] at hc'
        cases hc'
      · rw [hcodes o heq]
        exact hc'

section Call

variable {sha256 : String → String} {c : AcceptCall} {order : Order}

/-- The rows of an order after it has been accepted for a driver. -/
theorem accepts_created {code : DeliveryCode} {w : Db → Db} {s : Db} (hid : order.id = c.orderId)
    (hcode : code.orderId = order.id) (hfree : s.deliveryCodes.get order.id = none)
    (hcodes : (w s).deliveryCodes = s.deliveryCodes.insert code)
    (hdriver : (w s).DeliversTo order.id c.driver.id)
    (hdeliveries : ∀ o, o ≠ order.id → (w s).deliveries.get o = s.deliveries.get o)
    {r : Order × DeliveryCode} (hr : r.2 = code) : c.Accepts r s (w s) := by
  rw [hid] at hfree hdriver hdeliveries hcode
  refine .created hfree ?_ hdriver (fun o ho => ?_) hdeliveries
  · rw [hcodes, hr, Table.get_insert (by rw [hcode]; exact hfree), if_pos hcode.symm]
  · rw [hcodes]
    exact Table.get_insert_of_ne _ (by rw [hcode]; exact ho)

/-- The first acceptance, from the check for an earlier one on. -/
theorem accept_relies {K : Db → Prop} (hid : order.id = c.orderId) :
    (accept sha256 c.env c.driver order).wpr acceptLocking (fun _ => True) AcceptancesStay
      (RelyOk acceptLocking (fun _ => True) c.Accepts) K [] id := by
  simp only [accept, updateOrder, insertCode, insertRow, bind_eq, pure_eq, wpr_bind, wpr_read,
    wpr_updateRow, id_eq]
  intro s₀ _ _ _ s₁ _ _ _
  cases hdelivery : s₀.deliveries.get order.id with
  | none =>
    simp only [takeDelivery, insertDelivery, insertRow, bind_eq, wpr_bind, wpr_acquire,
      wpr_raiseIf, wpr_modify, wpr_ret]
    intro s₂ _ _ _ hfree s₃ _ _ _ hnew s _ _ hknown
    have hnone : s.deliveries.get order.id = none := by
      rw [hknown (.delivery order.id, s₂) (by simp)]
      simpa [Db.modifyOrder] using hfree
    have hcode : s.deliveryCodes.get order.id = none := by
      rw [hknown (.deliveryCode order.id, s₃) (by simp)]
      simpa [Db.modifyOrder, Db.addDelivery] using hnew
    refine ⟨trivial, accepts_created hid rfl hcode rfl ?_ (fun o ho => ?_) rfl, fun key hkey => ?_⟩
    · exact ⟨_, (Table.get_insert hnone order.id).trans (if_pos rfl), rfl⟩
    · exact Table.get_insert_of_ne _ ho
    · cases key with
      | delivery o =>
        refine Table.get_insert_of_ne _ ?_
        rintro rfl
        exact hkey (.delivery order.id, s₂) (by simp) rfl
      | deliveryCode o =>
        refine Table.get_insert_of_ne _ ?_
        rintro rfl
        exact hkey (.deliveryCode order.id, s₃) (by simp) rfl
      | _ => trivial
  | some d =>
    simp only [takeDelivery, updateDelivery, wpr_updateRow, wpr_acquire, wpr_raiseIf, wpr_modify,
      wpr_ret]
    intro s₂ _ _ _ s₃ _ _ _ hnew s _ hK hknown
    -- the delivery row that was seen is still there
    have hstays : AcceptancesStay s₀ s := hK.1.1.1.2
    have hthere : s.deliveries.get order.id ≠ none := by
      refine hstays.delivery order.id ?_
      rw [hdelivery]
      exact Option.some_ne_none d
    obtain ⟨d', hd'⟩ := Option.ne_none_iff_exists'.mp hthere
    have hcode : s.deliveryCodes.get order.id = none := by
      rw [hknown (.deliveryCode order.id, s₃) (by simp)]
      simpa [Db.modifyOrder, Db.modifyDelivery] using hnew
    refine ⟨trivial, accepts_created hid rfl hcode rfl ?_ (fun o ho => ?_) rfl, fun key hkey => ?_⟩
    · refine ⟨d'.giveTo c.driver.id, ?_, rfl⟩
      exact Table.get_modify_self (Delivery.giveTo_orderId · c.driver.id) hd'
    · exact Table.get_modify_of_ne _ ho _
    · cases key with
      | delivery o =>
        refine Table.get_modify_of_ne _ ?_ _
        rintro rfl
        exact hkey (.delivery order.id, s₂) (by simp) rfl
      | deliveryCode o =>
        refine Table.get_insert_of_ne _ ?_
        rintro rfl
        exact hkey (.deliveryCode order.id, s₃) (by simp) rfl
      | _ => trivial

/-- A call accepts its order once, or is answered with the code of the order. -/
theorem AcceptCall.exec_relies (sha256 : String → String) (c : AcceptCall) :
    (c.exec sha256).wprFrom acceptLocking (fun _ => True) AcceptancesStay (fun _ => True)
      (RelyOk acceptLocking (fun _ => True) c.Accepts) := by
  refine wprFrom_of_wpr (fun _ _ _ _ _ hK => RelyOk.of_imp hK) ?_
  simp only [AcceptCall.exec, acceptOrder, getOrderOr404, bind_eq, pure_eq, wpr_bind, wpr_raiseIf,
    wpr_read, wpr_getOrRaise, wpr_ret, id_eq]
  intro _ s₀ _ _ _ order horder _ s₁ _ _ _
  have hid : order.id = c.orderId := Table.key_of_get horder
  cases haccepted : order.driverAcceptedAt with
  | none => exact accept_relies hid
  | some _ =>
    cases hcode : s₁.deliveryCodes.get order.id with
    | none => exact accept_relies hid
    | some existing =>
      intro s _ hK _
      have hstays : AcceptancesStay s₁ s := hK.2
      have hcode' := hstays.code order.id existing hcode
      rw [hid] at hcode'
      exact ⟨trivial, .answered hcode' rfl, fun key _ => acceptLocking.refl key s⟩

end Call

/-! ### Interleavings -/

section Interleavings

variable {ι : Type} (calls : ι → AcceptCall) (o : Id)

/-- A call that commits once the order has a delivery code is that of the driver on its delivery
row. -/
def AnswersDriver (s : Sys ι Db Key Err (Order × DeliveryCode)) (i : ι)
    (t : Sys ι Db Key Err (Order × DeliveryCode)) : Prop :=
  (∃ r, t.txn i = .committed r) → (calls i).orderId = o → s.db.deliveryCodes.get o ≠ none →
    s.db.DeliversTo o (calls i).driver.id

/-- A call on the order has succeeded. -/
def Accepted (s : Sys ι Db Key Err (Order × DeliveryCode)) (e : ι × Order × DeliveryCode) : Prop :=
  e ∈ s.log ∧ (calls e.1).orderId = o

/-- What holds of an order in a state `t` that is reached from a state `s`. -/
structure SingleWinner [DecidableEq ι] (s t : Sys ι Db Key Err (Order × DeliveryCode)) :
    Prop where
  winner : ∀ e, Accepted calls o t e → t.db.DeliversTo o (calls e.1).driver.id
  /-- All calls that succeed return one code, that of the order. -/
  returned : ∀ e, Accepted calls o t e → t.db.deliveryCodes.get o = some e.2.2
  code : ∀ c, s.db.deliveryCodes.get o = some c → t.db.deliveryCodes.get o = some c
  /-- Whatever a call does once the order has a code, it changes nothing. -/
  repeated : ∀ i u, (calls i).orderId = o → t.db.deliveryCodes.get o ≠ none → Sys.Step i t u →
    u.db = t.db

variable {calls o} [DecidableEq ι] {sha256 : String → String} {db : Db}
  {s t : Sys ι Db Key Err (Order × DeliveryCode)}

/-- What a statement does: only a commit changes the rows and the log. -/
theorem step_accepts (hs : Sys.Steps (Sys.init db fun i => (calls i).exec sha256) s) {i : ι}
    (hst : Sys.Step i s t) :
    (t.db = s.db ∧ t.log = s.log ∧ ∀ r, t.txn i ≠ .committed r) ∨
      ∃ r, t.txn i = .committed r ∧ t.log = s.log ++ [(i, r)] ∧
        (calls i).Accepts r s.db t.db := by
  have hholds : Sys.Holds acceptLocking (fun _ => True) (fun i => Sys.relies acceptLocking
      (fun _ => True) ((calls i).exec sha256) AcceptancesStay (calls i).Accepts) s := by
    refine (hs.stepsIf fun _ _ _ => trivial).holds_relies (C := fun _ _ _ => True)
      (S := fun _ _ => True) (fun _ => AcceptancesStay.refl) (fun _ _ _ _ => AcceptancesStay.trans)
      (fun i => (calls i).exec_relies sha256) trivial
      fun i s t hst _ _ hcommit => ⟨fun _ => trivial, fun j _ _ => ?_⟩
    cases hst with
    | commit hi => exact (hcommit _ _ hi).stay
    | _ => exact AcceptancesStay.refl _
  cases hst with
  | @commit w r hi =>
    obtain ⟨-, haccepts, -⟩ := hholds.relies_commit (fun i => (calls i).exec_relies sha256) hi
    exact .inr ⟨r, by simp [Sys.commit], rfl, haccepts⟩
  | _ => exact .inl ⟨rfl, rfl, by simp [Sys.goto, Sys.abort]⟩

/-- No statement takes a code away or replaces it. -/
theorem code_step (hs : Sys.Steps (Sys.init db fun i => (calls i).exec sha256) s) {i : ι}
    (hst : Sys.Step i s t) : AcceptancesStay s.db t.db := by
  rcases step_accepts hs hst with ⟨hsame, -⟩ | ⟨r, -, -, haccepts⟩
  · rw [hsame]
    exact AcceptancesStay.refl _
  · exact haccepts.stay

/-- The calls on the order that have succeeded were those of the driver on the delivery row, and
returned the code of the order. -/
def Won (calls : ι → AcceptCall) (o : Id) (s : Sys ι Db Key Err (Order × DeliveryCode)) : Prop :=
  ∀ e, Accepted calls o s e →
    s.db.DeliversTo o (calls e.1).driver.id ∧ s.db.deliveryCodes.get o = some e.2.2

/-- A step that answers a driver keeps the winner. -/
theorem Won.step (h : Won calls o s)
    (hs : Sys.Steps (Sys.init db fun i => (calls i).exec sha256) s) {i : ι}
    (hst : Sys.Step i s t) (hC : AnswersDriver calls o s i t) : Won calls o t := by
  rcases step_accepts hs hst with ⟨hdb, hlog, -⟩ | ⟨r, hcommit, hlog, haccepts⟩
  · intro e he
    unfold Accepted at he
    rw [hlog] at he
    rw [hdb]
    exact h e he
  · -- the calls before this one, and then this one
    intro e he
    obtain ⟨hmem, ho⟩ := he
    rw [hlog] at hmem
    rcases List.mem_append.mp hmem with hold | hnew
    · obtain ⟨hdriver, hcode⟩ := h e ⟨hold, ho⟩
      cases haccepts with
      | answered _ hsame =>
        rw [hsame]
        exact ⟨hdriver, hcode⟩
      | created hnone _ _ hcodes hdeliveries =>
        have hne : o ≠ (calls i).orderId := by
          intro heq
          rw [← heq, hcode] at hnone
          cases hnone
        refine ⟨?_, (hcodes o hne).trans hcode⟩
        unfold Db.DeliversTo
        rw [hdeliveries o hne]
        exact hdriver
    · obtain rfl := List.mem_singleton.mp hnew
      subst ho
      cases haccepts with
      | answered hcode hsame =>
        rw [hsame]
        refine ⟨hC ⟨_, hcommit⟩ rfl ?_, hcode⟩
        rw [hcode]
        exact Option.some_ne_none _
      | created _ hcode hdriver _ _ => exact ⟨hdriver, hcode⟩

/-- In every run that answers a driver at most one call has won. -/
theorem won_of_stepsIf (h : Sys.StepsIf (AnswersDriver calls o)
    (Sys.init db fun i => (calls i).exec sha256) t) : Won calls o t := by
  induction h with
  | refl =>
    rintro e ⟨hmem, -⟩
    cases hmem
  | tail i hs hst hC ih => exact ih.step hs.steps hst hC

/-- As long as one driver only calls for an order, it answers this driver. -/
theorem answersDriver_of_same {driver : Id} (hnone : db.deliveryCodes.get o = none)
    (hdriver : ∀ i, (calls i).orderId = o → (calls i).driver.id = driver)
    (ht : Sys.Steps (Sys.init db fun i => (calls i).exec sha256) t) :
    Sys.StepsIf (AnswersDriver calls o) (Sys.init db fun i => (calls i).exec sha256) t := by
  refine ht.stepsIf_of fun {i u v} hu hst _ hi hcode => ?_
  rw [hdriver i hi]
  clear hst
  induction hu with
  | refl => exact absurd hnone hcode
  | tail j hs hst ih =>
    rcases step_accepts hs hst with ⟨hdb, -⟩ | ⟨r, -, -, haccepts⟩
    · rw [hdb] at hcode ⊢
      exact ih hcode
    · cases haccepts with
      | answered _ hsame =>
        rw [hsame] at hcode ⊢
        exact ih hcode
      | created _ _ hnew hcodes hdeliveries =>
        by_cases heq : o = (calls j).orderId
        · rw [heq, ← hdriver j heq.symm]
          exact hnew
        · rw [hcodes o heq] at hcode
          unfold Db.DeliversTo
          rw [hdeliveries o heq]
          exact ih hcode

/-- **Acceptance has a single winner.** In every interleaving of calls of `accept_order` in which
an order that has a code answers only the driver on its delivery row, all calls that succeed are
of that driver, one code is created, and it never changes. -/
theorem single_winner (sha256 : String → String)
    (hs : Sys.StepsIf (AnswersDriver calls o) (Sys.init db fun i => (calls i).exec sha256) s)
    (ht : Sys.StepsIf (AnswersDriver calls o) s t) : SingleWinner calls o s t := by
  have hwon : Won calls o t := won_of_stepsIf (hs.trans ht)
  have hstays : AcceptancesStay s.db t.db := by
    clear hwon
    induction ht with
    | refl => exact AcceptancesStay.refl _
    | tail i hsu hst _ ih => exact ih.trans (code_step (hs.trans hsu).steps hst)
  refine ⟨fun e he => (hwon e he).1, fun e he => (hwon e he).2, hstays.code o, ?_⟩
  intro i u hi hcode hst
  rcases step_accepts (hs.trans ht).steps hst with ⟨hdb, -⟩ | ⟨r, -, -, haccepts⟩
  · exact hdb
  · cases haccepts with
    | answered _ hsame => exact hsame
    | created hnone _ _ _ _ =>
      rw [hi] at hnone
      exact absurd hnone hcode

/-- Where acceptance has a single winner, the last step met the condition. -/
theorem SingleWinner.answersDriver {u : Sys ι Db Key Err (Order × DeliveryCode)}
    (hs : Sys.Steps (Sys.init db fun i => (calls i).exec sha256) s) {i : ι}
    (hst : Sys.Step i s t) (h : SingleWinner calls o u t) : AnswersDriver calls o s i t := by
  rintro ⟨r, hr⟩ ho hcode
  rcases step_accepts hs hst with ⟨-, -, hnever⟩ | ⟨r', -, hlog, haccepts⟩
  · exact absurd hr (hnever r)
  · cases haccepts with
    | answered _ hsame =>
      have hlast := h.winner (i, r') ⟨by rw [hlog]; simp, ho⟩
      rw [hsame] at hlast
      exact hlast
    | created hnone _ _ _ _ =>
      rw [ho] at hnone
      exact absurd hnone hcode

end Interleavings

namespace Sample

/-- The sample order, which its seller has not yet looked at. -/
def placedOrder : Db := (after (World.serve sha256) start [place]).db

/-- A driver accepts the order, and then the same driver or another one does. -/
def acceptances (second : User) (i : Bool) : AcceptCall where
  env := { now := fun _ => 2, transactionNow := 2, randbelow := 0,
           uuid4 := Nat.pair (if i then 8 else 7) }
  driver := if i then second else driver
  orderId := 0

/-- The two calls succeed one after the other. -/
theorem acceptances_run (second : User) (hsecond : second = driver ∨ second = otherDriver) :
    ∃ t a b, Sys.Steps (Sys.init placedOrder fun i => (acceptances second i).exec sha256) t ∧
      t.log = [(false, a), (true, b)] := by
  obtain ⟨a, ha⟩ := run_of_session (p := (acceptances second false).exec sha256)
    (s := placedOrder) (by rcases hsecond with rfl | rfl <;> decide +kernel)
  obtain ⟨b, hb⟩ := run_of_session (p := (acceptances second true).exec sha256)
    (s := (((acceptances second false).exec sha256).session placedOrder).2)
    (by rcases hsecond with rfl | rfl <;> decide +kernel)
  obtain ⟨t, ht, -, hlog⟩ := Sys.inTurn_of_run
    (p := fun i => (acceptances second i).exec sha256) Bool.false_ne_true ha hb
  exact ⟨t, a, b, ht, hlog⟩

end Sample

/-- The driver who has accepted the order accepts it again. -/
theorem single_winner_again :
    ∃ s t a b, Sys.Steps s t ∧ t.log = [(false, a), (true, b)] ∧
      SingleWinner (Sample.acceptances Sample.driver) 0 s t := by
  obtain ⟨t, a, b, ht, hlog⟩ := Sample.acceptances_run Sample.driver (.inl rfl)
  have hnone : Sample.placedOrder.deliveryCodes.get 0 = none := by decide +kernel
  have hdriver : ∀ i, (Sample.acceptances Sample.driver i).orderId = 0 →
      (Sample.acceptances Sample.driver i).driver.id = 3 := by decide
  exact ⟨_, t, a, b, ht, hlog,
    single_winner Sample.sha256 (.refl _) (answersDriver_of_same hnone hdriver ht)⟩

/-- Another driver accepts the order after the first one: both calls succeed. -/
theorem second_driver_answered :
    ¬∀ t, Sys.Steps (Sys.init Sample.placedOrder
        fun i => (Sample.acceptances Sample.otherDriver i).exec Sample.sha256) t →
      SingleWinner (Sample.acceptances Sample.otherDriver) 0 (Sys.init Sample.placedOrder
        fun i => (Sample.acceptances Sample.otherDriver i).exec Sample.sha256) t := by
  intro h
  obtain ⟨t, a, b, ht, hlog⟩ := Sample.acceptances_run Sample.otherDriver (.inr rfl)
  have hwins := h t ht
  obtain ⟨d, hd, hdriver⟩ := hwins.winner (false, a) ⟨by simp [hlog], rfl⟩
  obtain ⟨d', hd', hdriver'⟩ := hwins.winner (true, b) ⟨by simp [hlog], rfl⟩
  obtain rfl := Option.some.inj (hd.symm.trans hd')
  have heq : Sample.driver.id = Sample.otherDriver.id :=
    Option.some.inj (hdriver.symm.trans hdriver')
  revert heq
  decide

end Marketplace
