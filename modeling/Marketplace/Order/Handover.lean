import Marketplace.App.Step
import Marketplace.Order.Secrecy

/-!
# The code that is shown completes the delivery

Every stored hash is that of the text beside it, in whatever order the requests about orders
commit. So the customer can hand the driver the code that `customer_code` shows: the endpoint takes
it, the delivery completes, and from then on the code is shown to nobody.
-/

namespace Marketplace

open Lib Txn OrderService DeliveryFlow DeliveryTracking

/-- What the schema of `complete_delivery` takes: `^\d{6}$`, in ASCII digits. -/
def SixDigits (s : String) : Prop := s.toList.length = 6 ∧ s.toList.all Char.isDigit = true

/-- The codes have been drawn, and each hash is that of its text. -/
def Db.CodesDrawn (sha256 : String → String) (db : Db) : Prop :=
  ∀ o c, db.deliveryCodes.get o = some c →
    c.codeHash = hashCode sha256 c.codePlain ∧ ∃ n, c.codePlain = generateCode n

/-- A generated code has six digits. -/
theorem sixDigits_generateCode (n : Fin 1000000) : SixDigits (generateCode n) := by
  have hlength : (Nat.repr n.val).length ≤ 6 := (Nat.length_repr_le_iff (by decide)).mpr n.isLt
  have hdigits : ∀ c ∈ (Nat.repr n.val).toList, c.isDigit = true := by
    intro c hc
    rw [Nat.repr, String.toList_ofList] at hc
    exact Nat.isDigit_of_mem_toDigits (by decide) (by decide) hc
  constructor
  · simp only [generateCode, String.toList_append, String.toList_ofList, List.length_append,
      List.length_replicate, String.length_toList]
    omega
  · rw [List.all_eq_true]
    intro c hc
    simp only [generateCode, String.toList_append, String.toList_ofList, List.mem_append] at hc
    rcases hc with hzero | hdigit
    · rw [List.eq_of_mem_replicate hzero]
      rfl
    · exact hdigits c hdigit

section Writes

variable {sha256 : String → String} {env : Env} {caller : User} {o : Id} {s : Db}

/-- A write that keeps the codes as they have been drawn. -/
def KeepsDrawn (sha256 : String → String) (_ : Key) (f : Db → Db) : Prop :=
  ∀ s : Db, s.CodesDrawn sha256 → (f s).CodesDrawn sha256

/-- The same codes were drawn the same way. -/
theorem codesDrawn_of_same {t : Db} (h : t.deliveryCodes = s.deliveryCodes)
    (hs : s.CodesDrawn sha256) : t.CodesDrawn sha256 := by
  rw [Db.CodesDrawn, h]
  exact hs

/-- Deleting an order takes codes away only. -/
theorem codesDrawn_removeOrder (hs : s.CodesDrawn sha256) :
    (s.removeOrder o).CodesDrawn sha256 := by
  intro o' c hc
  have hget : (s.removeOrder o).deliveryCodes.get o' = _ := Table.get_delete s.deliveryCodes _ o'
  rw [hget] at hc
  exact hs o' c (Option.filter_eq_some_iff.mp hc).1

/-- A change of the code that leaves its text and its hash alone. -/
theorem codesDrawn_modifyCode {f : DeliveryCode → DeliveryCode}
    (hid : ∀ c, (f c).orderId = c.orderId)
    (hf : ∀ c, (f c).codePlain = c.codePlain ∧ (f c).codeHash = c.codeHash)
    (hs : s.CodesDrawn sha256) : (s.modifyCode o f).CodesDrawn sha256 := by
  intro o' c hc
  have hget : (s.modifyCode o f).deliveryCodes.get o' = _ :=
    Table.get_modify s.deliveryCodes o hid o'
  rw [hget] at hc
  split at hc
  · obtain ⟨c₀, hc₀, rfl⟩ := Option.map_eq_some_iff.mp hc
    rw [(hf c₀).1, (hf c₀).2]
    exact hs o' c₀ hc₀
  · exact hs o' c hc

/-- A code drawn and hashed as it should be keeps them all so. -/
theorem codesDrawn_addCode {c : DeliveryCode} (hc : c.codeHash = hashCode sha256 c.codePlain)
    (hdrawn : ∃ n, c.codePlain = generateCode n) (hs : s.CodesDrawn sha256) :
    (s.addCode c).CodesDrawn sha256 := by
  intro o' c' hc'
  rcases Table.get_of_insert (t := s.deliveryCodes) hc' with rfl | hold
  · exact ⟨hc, hdrawn⟩
  · exact hs o' c' hold

/-- Placing an order writes no code. -/
theorem PlaceWrite.keepsDrawn {key : Key} {f : Db → Db} (h : PlaceWrite key f) :
    KeepsDrawn sha256 key f := by
  intro s hs
  cases h with
  | _ => exact codesDrawn_of_same rfl hs

/-- The writes of the services but those on codes write no code. -/
theorem ServiceWrite.keepsDrawn {K : List WriteKind} {key : Key} {f : Db → Db}
    (h : ServiceWrite K key f) (hcode : .code ∉ K) (hadd : .addCode ∉ K) :
    KeepsDrawn sha256 key f := by
  intro s hs
  cases h with
  | order h =>
    cases h with
    | removeOrder id => exact codesDrawn_removeOrder hs
    | modifyCode o f h => exact absurd h hcode
    | addCode c h => exact absurd h hadd
    | _ => exact codesDrawn_of_same rfl hs
  | setSettings ps => exact codesDrawn_of_same rfl hs

/-- The driver's acceptance writes a code that it drew. -/
theorem driverAccept_keepsDrawn :
    (DeliveryFlow.acceptOrder sha256 env caller o).Writes (KeepsDrawn sha256) := by
  have hkeep : ∀ {key f}, (∀ s : Db, (f s).deliveryCodes = s.deliveryCodes) →
      KeepsDrawn sha256 key f := fun h s hs => codesDrawn_of_same (h s) hs
  refine .bind (.raiseIf _ _) fun _ => .bind writes_getOrderOr404 fun order =>
    .bind .read fun db => ?_
  split
  · exact .pure _
  · refine .bind .read fun db => .bind (.updateRow (hkeep fun _ => rfl)) fun _ => .bind ?_ fun _ =>
      .bind (writes_insertRow fun s hs => codesDrawn_addCode rfl ⟨_, rfl⟩ hs) fun _ => .pure _
    cases db.deliveries.get order.id with
    | none => exact writes_insertRow (hkeep fun _ => rfl)
    | some d => exact .updateRow (hkeep fun _ => rfl)

/-- Archiving messages writes no code. -/
theorem archiveMessages_keepsDrawn (now : Time) (ms : List OrderMessage) :
    (archiveMessages now ms).Writes (KeepsDrawn sha256) := by
  induction ms with
  | nil => exact .pure _
  | cons m ms ih =>
    exact .bind (.updateRow fun s hs => codesDrawn_of_same rfl hs) fun _ => ih

/-- Completing a delivery writes no new code. -/
theorem completeDelivery_keepsDrawn (submitted : String) :
    (completeDelivery sha256 env caller o submitted).Writes (KeepsDrawn sha256) := by
  have hattempt : ∀ a, (insertCodeAttempt a).Writes (KeepsDrawn sha256) := fun a =>
    writes_insertRow fun s hs => codesDrawn_of_same rfl hs
  have horder : ∀ id f, (updateOrder id f).Writes (KeepsDrawn sha256) := fun id f =>
    .updateRow fun s hs => codesDrawn_of_same rfl hs
  refine .bind (.raiseIf _ _) fun _ => .bind writes_getOrderOr404 fun order => .bind .read fun db =>
    .bind (.getOrRaise _ _) fun code => ?_
  cases checkCode sha256 code submitted with
  | locked => exact .bind (hattempt _) fun _ => .raise _
  | wrong =>
    refine .ite (.bind (horder _ _) fun _ => .bind (.updateRow fun s hs => ?_) fun _ =>
      .bind (hattempt _) fun _ => .raise _)
      (.bind (.updateRow fun s hs => ?_) fun _ => .bind (hattempt _) fun _ => .raise _)
    · exact codesDrawn_modifyCode (fun _ => rfl) (fun _ => ⟨rfl, rfl⟩) hs
    · exact codesDrawn_modifyCode (fun _ => rfl) (fun _ => ⟨rfl, rfl⟩) hs
  | right =>
    refine .bind .read fun _ => .bind (archiveMessages_keepsDrawn _ _) fun _ =>
      .bind (horder _ _) fun _ => .bind (.updateRow fun s hs => ?_) fun _ =>
      .bind (hattempt _) fun _ => .pure _
    exact codesDrawn_modifyCode (fun _ => rfl) (fun _ => ⟨rfl, rfl⟩) hs

/-- Every request to the services keeps the codes as they have been drawn. -/
theorem serviceCall_keepsDrawn (c : ServiceCall) :
    (c.exec sha256).Writes (KeepsDrawn sha256) := by
  cases c with
  | call q =>
    obtain ⟨caller, op, env⟩ := q
    refine .bind ?_ fun _ => .pure _
    cases op with
    | createOrder items address =>
      exact .bind ((createOrder_writes _ _).mono fun _ _ h => h.keepsDrawn) fun _ => .pure _
    | driverAccept o => exact .bind driverAccept_keepsDrawn fun _ => .pure _
    | completeDelivery o submitted =>
      exact .bind (completeDelivery_keepsDrawn submitted) fun _ => .pure _
    | _ =>
      exact (exec_writes fun _ _ h => by cases h).mono fun _ _ h =>
        h.keepsDrawn (by simp only [Op.writeKinds]; decide) (by simp only [Op.writeKinds]; decide)
  | report r env =>
    exact .bind (postLocation_writes (fun _ _ s hs => codesDrawn_of_same rfl hs) r) fun _ => .pure _
  | view caller o => exact .bind getTrackView_writes fun _ => .pure _

end Writes

section Shown

variable {sha256 : String → String} {caller : User} {o : Id} {db db' : Db}
  {r : CustomerCodeResponse}

/-- The code is shown of an order that the driver has accepted and not delivered. -/
theorem customerCode_ok (h : (DeliveryFlow.customerCode caller o).run db = .ok (r, db')) :
    ∃ x c, db.orders.get o = some x ∧ x.deletedAt = none ∧ db.deliveryCodes.get o = some c ∧
      x.deliveredAt = none ∧ r.code = c.codePlain ∧ r.locked = c.locked := by
  simp only [DeliveryFlow.customerCode, getDeliveryCodeForCustomer, bind_eq, run_bind_ok,
    run_getOrderOr404_ok, run_raiseIf_ok, run_read_ok, run_getOrRaise_ok, pure_eq, run_ret_ok] at h
  obtain ⟨c, _, ⟨x, _, ⟨⟨hx, hlive⟩, rfl⟩, _, _, ⟨-, rfl⟩, _, _, ⟨rfl, rfl⟩, _, _, ⟨hc, rfl⟩, _, _,
    ⟨hopen, rfl⟩, rfl, rfl⟩, rfl, rfl⟩ := h
  have hid : x.id = o := Table.key_of_get hx
  rw [hid] at hc
  exact ⟨x, _, hx, hlive, hc, by tauto, rfl, rfl⟩

/-- Once it is delivered, the code of an order is shown to nobody. -/
theorem customerCode_not_ok {x : Order} (hx : db.orders.get o = some x)
    (hdelivered : x.deliveredAt ≠ none) {a : CustomerCodeResponse × Db} :
    (DeliveryFlow.customerCode caller o).run db ≠ .ok a := by
  obtain ⟨r, db'⟩ := a
  intro h
  obtain ⟨y, c, hy, -, -, hundelivered, -⟩ := customerCode_ok h
  obtain rfl := Option.some.inj (hx.symm.trans hy)
  exact hdelivered hundelivered

/-- In every state that is reached the codes are as they have been drawn. -/
theorem codesDrawn_of_steps {ι : Type} [DecidableEq ι] {calls : ι → ServiceCall}
    (hdb : db.CodesDrawn sha256) {s : Sys ι Db Key Err ServiceReply}
    (hs : Sys.Steps (Sys.init db fun i => (calls i).exec sha256) s) : s.db.CodesDrawn sha256 := by
  have hsafe : ∀ i, ((calls i).exec sha256).Safe .free (fun db => db.CodesDrawn sha256)
      fun _ _ _ => True := fun i =>
    (serviceCall_keepsDrawn (calls i)).safe (R := fun _ _ => True) (fun _ => trivial)
      (fun _ _ _ _ _ => trivial) (fun _ f hf s hs => ⟨hf s hs, trivial⟩)
      fun _ _ _ _ _ _ => trivial
  exact (hs.sound (Sys.sound_init hdb hsafe)).db

end Shown

/-- **The code that is shown completes the delivery.** In every state that any requests about
orders can lead to, however they interleave: whoever is shown the code of an order is shown six
digits; if the code is not locked, any driver who submits it (with a new identifier for the row of
the attempt) completes the delivery, which archives the chat and hides the code from everybody; and
whatever else completes the delivery in that state has the same hash. -/
theorem shown_code_completes (sha256 : String → String) {ι : Type} [DecidableEq ι]
    (calls : ι → ServiceCall) {db : Db} (hdb : db.CodesDrawn sha256)
    {s : Sys ι Db Key Err ServiceReply}
    (hs : Sys.Steps (Sys.init db fun i => (calls i).exec sha256) s) {caller : User} {o : Id}
    {r : CustomerCodeResponse} {db₁ : Db}
    (hshown : (DeliveryFlow.customerCode caller o).run s.db = .ok (r, db₁)) :
    SixDigits r.code ∧
    (r.locked = false → ∀ driver env, driver.role = .driver →
      s.db.deliveryCodeAttempts.get (env.uuid4 0) = none →
      ∃ x db₂, (completeDelivery sha256 env driver o r.code).run s.db = .ok (x, db₂) ∧
        db₂.orders.get o = some x ∧ x.status = .delivered ∧ x.deliveredAt = some (env.now 0) ∧
        (∀ m ∈ db₂.chat o, m.archivedAt ≠ none) ∧
        ∀ u a, (DeliveryFlow.customerCode u o).run db₂ ≠ .ok a) ∧
    ∀ driver env g a, (completeDelivery sha256 env driver o g).run s.db = .ok a →
      r.locked = false ∧ hashCode sha256 g = hashCode sha256 r.code := by
  obtain ⟨x, c, hx, hlive, hc, -, hcode, hlocked⟩ := customerCode_ok hshown
  obtain ⟨hhash, n, hn⟩ := codesDrawn_of_steps hdb hs o c hc
  refine ⟨?_, fun hunlocked driver env hdriver hfresh => ?_, fun driver env g a hrun => ?_⟩
  · rw [hcode, hn]
    exact sixDigits_generateCode n
  · have hright : checkCode sha256 c r.code = .right := by
      rw [hlocked] at hunlocked
      simp [checkCode, hunlocked, hcode, hhash]
    have horder : s.db.orders.get o ≠ none := by
      rw [hx]
      exact Option.some_ne_none x
    have harchived : ChatArchived o s.db (delivered s.db env driver o r.code) :=
      chatArchived horder fun m hm hnone => ⟨m, hm, rfl, hnone⟩
    have hafter : (delivered s.db env driver o r.code).orders.get o =
        some (x.deliverByCode (env.now 0)) := by
      have hget : (delivered s.db env driver o r.code).orders.get o = _ :=
        Table.get_modify (s.db.archiveAll (env.now 0) (s.db.orderMessages.rows.filter fun m =>
          m.orderId = o ∧ m.archivedAt = none)).orders o (Order.deliverByCode_id (env.now 0)) o
      rw [hget, if_pos rfl, archiveAll_orders, hx]
      rfl
    exact ⟨_, _, completeDelivery_right env hdriver hx hlive hc hright hfresh, hafter, rfl, rfl,
      harchived.archived, fun u a => customerCode_not_ok hafter (Option.some_ne_none _)⟩
  · obtain ⟨y, db₂⟩ := a
    obtain ⟨-, x', c', -, -, hc', hright, -⟩ := completeDelivery_ok hrun
    obtain rfl := Option.some.inj (hc.symm.trans hc')
    unfold checkCode at hright
    split at hright
    · cases hright
    · next hunlocked =>
      split at hright
      · cases hright
      · next heq =>
        rw [hlocked, hcode, ← hhash]
        exact ⟨by simpa using hunlocked, not_not.mp heq⟩

namespace Sample

/-- The driver accepts the order. -/
def acceptedCode : ServiceCall := .call (chatting 0 driver (.driverAccept 0))

end Sample

/-- The customer of the sample order is shown the code that its driver's acceptance has drawn. -/
theorem shown_code_completes_accepted :
    ∃ s, Sys.Steps (Sys.init Sample.beforeAcceptance fun _ : Unit =>
        Sample.acceptedCode.exec Sample.sha256) s ∧
      ∃ r db₁, (DeliveryFlow.customerCode Sample.customer 0).run s.db = .ok (r, db₁) ∧
        SixDigits r.code ∧ r.locked = false := by
  obtain ⟨a, hrun⟩ := run_of_session (p := Sample.acceptedCode.exec Sample.sha256)
    (s := Sample.beforeAcceptance) (by decide +kernel)
  obtain ⟨s, hs⟩ := Sys.runsTo_of_run (s := Sys.init Sample.beforeAcceptance fun _ : Unit =>
    Sample.acceptedCode.exec Sample.sha256) (i := ()) rfl (fun _ => .inl rfl) hrun
  have hsteps : Sys.Steps (Sys.init Sample.beforeAcceptance fun _ : Unit =>
    Sample.acceptedCode.exec Sample.sha256) s := hs.steps
  have hnone : Sample.beforeAcceptance.CodesDrawn Sample.sha256 := by
    have hempty : Sample.beforeAcceptance.deliveryCodes.rows = [] := by decide +kernel
    intro o c hc
    have hmem : c ∈ Sample.beforeAcceptance.deliveryCodes.rows :=
      Table.mem_rows_iff.mpr (by rwa [Table.key_of_get hc])
    rw [hempty] at hmem
    cases hmem
  obtain ⟨r, hr⟩ := run_of_session (p := DeliveryFlow.customerCode Sample.customer 0)
    (s := ((Sample.acceptedCode.exec Sample.sha256).session Sample.beforeAcceptance).2)
    (by decide +kernel)
  rw [← hs.db] at hr
  obtain ⟨hdigits, -⟩ := shown_code_completes Sample.sha256 (fun _ : Unit => Sample.acceptedCode)
    hnone hsteps hr
  obtain ⟨x, c, -, -, hc, -, -, hlocked⟩ := customerCode_ok hr
  refine ⟨s, hsteps, r, _, hr, hdigits, ?_⟩
  rw [hlocked]
  rw [hs.db] at hc
  have hunlocked : ∀ c ∈ (((Sample.acceptedCode.exec Sample.sha256).session
      Sample.beforeAcceptance).2).deliveryCodes.rows, c.locked = false := by decide +kernel
  exact hunlocked c (Table.mem_rows_iff.mpr (by rwa [Table.key_of_get hc]))

end Marketplace
