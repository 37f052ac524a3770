import Marketplace.Order.Stock
import Marketplace.Lib.Rely

/-!
# The chat of an order

The customer and the driver write to each other from the driver's acceptance until the delivery.
The completion by the code archives what it finds. Neither a message nor the completion locks the
order, so the chat is closed for good in every run in which nothing closes a chat while a message
to it is on its way and nothing adds to a chat while it is being archived.
-/

namespace Marketplace

open Lib Txn OrderService DeliveryFlow

namespace DeliveryFlow

/-- `list_order_messages`. -/
def listOrderMessages (orderId : Id) (includeArchived : Bool) : Tx (List OrderMessage) := do
  let db ← read
  pure ((db.orderMessages.rows.filter fun m =>
    m.orderId = orderId ∧ (includeArchived = true ∨ m.archivedAt = none)).mergeSort
      fun m n => m.createdAt ≤ n.createdAt)

/-- `list_chat`, of the router. -/
def listChat (caller : User) (orderId : Id) : Tx (List OrderMessage) := do
  let order ← getOrderOr404 orderId
  if caller.role = .admin then listOrderMessages orderId true
  else do
    let db ← read
    raiseIf (caller.id ≠ order.customerId ∧
      (db.deliveries.get order.id).bind Delivery.driverId ≠ some caller.id) Err.orderNotFound
    if order.deliveredAt ≠ none then pure [] else listOrderMessages orderId false

end DeliveryFlow

/-! ### Open and closed chats -/

/-- The messages about an order. -/
def Db.chat (db : Db) (o : Id) : List OrderMessage :=
  db.orderMessages.rows.filter fun m => m.orderId = o

/-- The driver of the customer's order has accepted and not delivered it. -/
def ChatOpen (o customerId : Id) (db : Db) : Prop :=
  ∃ x, db.orders.get o = some x ∧ x.driverAcceptedAt ≠ none ∧ x.deliveredAt = none ∧
    x.customerId = customerId

/-- A message at a later time: it may have been archived, once. -/
structure OrderMessage.Kept (m m' : OrderMessage) : Prop where
  same : m' = { m with archivedAt := m'.archivedAt }
  archived : m.archivedAt ≠ none → m' = m

/-- The chat of every order that was completed by its code is archived. -/
def Db.ChatsClosed (db : Db) : Prop :=
  ∀ o c, db.deliveryCodes.get o = some c → c.consumedAt ≠ none →
    (∃ x, db.orders.get o = some x ∧ x.deliveredAt ≠ none) ∧
      ∀ m ∈ db.chat o, m.archivedAt ≠ none

/-- What a message and the completion by the code rely on from their first statement on. -/
def Request.ChatRelies (q : Request) (s t : Db) : Prop :=
  match q.op with
  | .postOrderMessage o _ _ => ∀ customerId, ChatOpen o customerId s → ChatOpen o customerId t
  | .completeDelivery o _ => (s.orders.get o ≠ none → t.orders.get o ≠ none) ∧
      ∀ m' ∈ t.chat o, m'.archivedAt = none →
        ∃ m ∈ s.chat o, m.id = m'.id ∧ m.archivedAt = none
  | _ => True

/-- Nothing closes a chat while a message to it is on its way, nor adds to a chat while it is
being archived. -/
def ChatsRespected {ι : Type} (sha256 : String → String) (requests : ι → Request)
    (s : Sys ι Db Key Err Reply) (i : ι) (t : Sys ι Db Key Err Reply) : Prop :=
  ∀ j, j ≠ i → Sys.UnderWay (fun i => (requests i).exec sha256) s j →
    (requests j).ChatRelies s.db t.db

/-! ### What a commit does to the chats -/

/-- Nothing is stored, lifted from the archive or taken back. -/
structure ChatsKept (s t : Db) : Prop where
  messages : ∀ m' ∈ t.orderMessages.rows, ∃ m ∈ s.orderMessages.rows, m.Kept m'
  orders : ∀ o y, t.orders.get o = some y →
    ∃ x, s.orders.get o = some x ∧ (x.deliveredAt ≠ none → y.deliveredAt ≠ none)
  codes : ∀ o c, t.deliveryCodes.get o = some c → c.consumedAt ≠ none →
    (∃ c', s.deliveryCodes.get o = some c' ∧ c'.consumedAt ≠ none) ∧
      (s.orders.get o ≠ none → t.orders.get o ≠ none)

/-- The placing of an order. -/
structure ChatsUntouched (s t : Db) : Prop where
  messages : t.orderMessages = s.orderMessages
  orders : ∀ o x, s.orders.get o = some x → t.orders.get o = some x
  codes : t.deliveryCodes = s.deliveryCodes

/-- A message, to a chat that was open just before. -/
def ChatPosted (caller : User) (o : Id) (s t : Db) : Prop :=
  ∃ customerId m, ChatOpen o customerId s ∧ t = s.addMessage m ∧ m.orderId = o ∧
    m.senderId = some caller.id ∧ (m.senderRole = .customer → caller.id = customerId)

/-- The completion by the code. -/
structure ChatArchived (o : Id) (s t : Db) : Prop where
  messages : ∀ m' ∈ t.orderMessages.rows, ∃ m ∈ s.orderMessages.rows, m.Kept m'
  orders : ∀ o' y, t.orders.get o' = some y →
    ∃ x, s.orders.get o' = some x ∧ (x.deliveredAt ≠ none → y.deliveredAt ≠ none)
  codes : ∀ o' c, o' ≠ o → t.deliveryCodes.get o' = some c → c.consumedAt ≠ none →
    (∃ c', s.deliveryCodes.get o' = some c' ∧ c'.consumedAt ≠ none) ∧
      (s.orders.get o' ≠ none → t.orders.get o' ≠ none)
  delivered : ∃ y, t.orders.get o = some y ∧ y.deliveredAt ≠ none
  archived : ∀ m' ∈ t.chat o, m'.archivedAt ≠ none

/-- What the commit of a request does to the chats. -/
def Request.ChatEffect (q : Request) (s t : Db) : Prop :=
  match q.op with
  | .createOrder _ _ => ChatsUntouched s t
  | .postOrderMessage o _ _ => ChatPosted q.caller o s t
  | .completeDelivery o _ => ChatArchived o s t
  | _ => ChatsKept s t

section Kept

variable {s t u : Db} {m m' m'' : OrderMessage}

/-- A message is kept at once. -/
theorem OrderMessage.Kept.refl (m : OrderMessage) : m.Kept m := ⟨rfl, fun _ => rfl⟩

/-- What is kept twice is kept. -/
theorem OrderMessage.Kept.trans (h : m.Kept m') (h' : m'.Kept m'') : m.Kept m'' where
  same := by
    rw [h'.same, h.same]
  archived hm := by
    obtain rfl := h.archived hm
    exact h'.archived hm

/-- The archive keeps a message. -/
theorem kept_archive (now : Time) (m : OrderMessage) : m.Kept (archive now m) := by
  unfold archive
  split
  · next hnone => exact ⟨rfl, fun hm => absurd hnone hm⟩
  · exact .refl m

/-- Nothing has changed. -/
theorem ChatsKept.refl (s : Db) : ChatsKept s s where
  messages m hm := ⟨m, hm, .refl m⟩
  orders _ y hy := ⟨y, hy, id⟩
  codes _ c hc hconsumed := ⟨⟨c, hc, hconsumed⟩, id⟩

/-- What two changes keep, both keep together. -/
theorem ChatsKept.trans (h : ChatsKept s t) (h' : ChatsKept t u) : ChatsKept s u where
  messages m'' hm'' := by
    obtain ⟨m', hm', hkept'⟩ := h'.messages m'' hm''
    obtain ⟨m, hm, hkept⟩ := h.messages m' hm'
    exact ⟨m, hm, hkept.trans hkept'⟩
  orders o z hz := by
    obtain ⟨y, hy, hdelivered'⟩ := h'.orders o z hz
    obtain ⟨x, hx, hdelivered⟩ := h.orders o y hy
    exact ⟨x, hx, fun hd => hdelivered' (hdelivered hd)⟩
  codes o c hc hconsumed := by
    obtain ⟨⟨c', hc', hconsumed'⟩, hstays'⟩ := h'.codes o c hc hconsumed
    obtain ⟨hbefore, hstays⟩ := h.codes o c' hc' hconsumed'
    exact ⟨hbefore, fun ho => hstays' (hstays ho)⟩

/-- A change of other tables keeps the chats. -/
theorem ChatsKept.of_same (horders : t.orders = s.orders)
    (hmessages : t.orderMessages = s.orderMessages) (hcodes : t.deliveryCodes = s.deliveryCodes) :
    ChatsKept s t where
  messages m hm := ⟨m, hmessages ▸ hm, .refl m⟩
  orders o y hy := ⟨y, horders ▸ hy, id⟩
  codes o c hc hconsumed := ⟨⟨c, hcodes ▸ hc, hconsumed⟩, fun ho => by rwa [horders]⟩

/-- Nothing has changed. -/
theorem ChatsUntouched.refl (s : Db) : ChatsUntouched s s := ⟨rfl, fun _ _ hx => hx, rfl⟩

/-- What two changes leave alone, both leave alone together. -/
theorem ChatsUntouched.trans (h : ChatsUntouched s t) (h' : ChatsUntouched t u) :
    ChatsUntouched s u where
  messages := h'.messages.trans h.messages
  orders o x hx := h'.orders o x (h.orders o x hx)
  codes := h'.codes.trans h.codes

end Kept

/-! ### Requests that leave the chats alone -/

section Writes

variable {K : List WriteKind} {key : Key} {f : Db → Db} {sha256 : String → String}

/-- An edit of an order keeps its chat. -/
theorem chatsKept_modifyOrder {target : Option OrderStatus} {f : Order → Order}
    (hf : OrderEdit target f) (s : Db) (id : Id) : ChatsKept s (s.modifyOrder id f) where
  messages m hm := ⟨m, hm, .refl m⟩
  orders o y hy := by
    have hget : (s.modifyOrder id f).orders.get o = _ := Table.get_modify s.orders id hf.id o
    rw [hy] at hget
    split at hget
    · obtain ⟨x, hx, rfl⟩ := Option.map_eq_some_iff.mp hget.symm
      refine ⟨x, hx, fun hdelivered => ?_⟩
      have hstamp := hf.deliveredAt x
      split at hstamp
      · exact hstamp
      · rw [hstamp]
        exact hdelivered
    · exact ⟨y, hget.symm, fun h => h⟩
  codes o c hc hconsumed := by
    refine ⟨⟨c, hc, hconsumed⟩, fun ho => ?_⟩
    have hget : (s.modifyOrder id f).orders.get o = _ := Table.get_modify s.orders id hf.id o
    rw [hget]
    split
    · simpa using ho
    · exact ho

/-- The messages and the code of an order go with its row. -/
theorem chatsKept_removeOrder (s : Db) (id : Id) : ChatsKept s (s.removeOrder id) where
  messages m hm := ⟨m, (List.mem_filter.mp hm).1, .refl m⟩
  orders o y hy := by
    have hget : (s.removeOrder id).orders.get o = _ := Table.get_delete s.orders _ o
    rw [hget] at hy
    exact ⟨y, (Option.filter_eq_some_iff.mp hy).1, fun h => h⟩
  codes o c hc hconsumed := by
    have hcode : (s.removeOrder id).deliveryCodes.get o = _ := Table.get_delete s.deliveryCodes _ o
    have horder : (s.removeOrder id).orders.get o = _ := Table.get_delete s.orders _ o
    rw [hcode] at hc
    obtain ⟨hc, hother⟩ := Option.filter_eq_some_iff.mp hc
    refine ⟨⟨c, hc, hconsumed⟩, fun ho => ?_⟩
    have hid : o ≠ id := by
      have hkey : c.orderId = o := Table.key_of_get hc
      simpa [hkey] using hother
    obtain ⟨x, hx⟩ := Option.ne_none_iff_exists'.mp ho
    have hxid : x.id = o := Table.key_of_get hx
    rw [horder, hx]
    simp [Option.filter, hxid, hid]

/-- The kinds of writes that the chats do not notice. -/
def quietKinds : List WriteKind :=
  [.order none, .order (some .accepted), .order (some .preparing), .order (some .outForDelivery),
    .order (some .delivered), .order (some .completed), .order (some .cancelled), .removal, .start,
    .deliver, .giveTo, .moveTo, .patch, .addDelivery, .assign, .cancelAssignment, .addAssignment,
    .snapshot, .trackingPoint, .settings]

/-- The quiet writes to orders keep the chats. -/
theorem OrderWrite.chatsKept (h : OrderWrite K key f) (hK : ∀ k ∈ K, k ∈ quietKinds) (s : Db) :
    ChatsKept s (f s) := by
  cases h with
  | modifyOrder id target f hf => exact chatsKept_modifyOrder hf s id
  | removeOrder id => exact chatsKept_removeOrder s id
  | modifyCode o f h => exact absurd (hK _ h) (by decide)
  | addCode c h => exact absurd (hK _ h) (by decide)
  | archive id now h => exact absurd (hK _ h) (by decide)
  | addMessage m h => exact absurd (hK _ h) (by decide)
  | _ => exact .of_same rfl rfl rfl

/-- So do the quiet writes of the three services. -/
theorem ServiceWrite.chatsKept (h : ServiceWrite K key f) (hK : ∀ k ∈ K, k ∈ quietKinds) (s : Db) :
    ChatsKept s (f s) := by
  cases h with
  | order h => exact h.chatsKept hK s
  | setSettings ps => exact .of_same rfl rfl rfl

/-- A placement touches no chat. -/
theorem PlaceWrite.chatsUntouched (h : PlaceWrite key f) (s : Db) : ChatsUntouched s (f s) := by
  cases h with
  | addOrder x =>
    refine ⟨rfl, fun o y hy => ?_, rfl⟩
    have hget : (s.addOrder x).orders.get o = _ := Table.get_insert_or s.orders x o
    rw [hget, hy]
    split
    · rfl
    · rfl
  | _ => exact ⟨rfl, fun _ _ hx => hx, rfl⟩

/-- A new code has not been used. -/
theorem chatsKept_addCode {c : DeliveryCode} (hc : c.consumedAt = none) (s : Db) :
    ChatsKept s (s.addCode c) where
  messages m hm := ⟨m, hm, .refl m⟩
  orders o y hy := ⟨y, hy, fun h => h⟩
  codes o c' hc' hconsumed := by
    rcases Table.get_of_insert (t := s.deliveryCodes) hc' with rfl | hold
    · exact absurd hc hconsumed
    · exact ⟨⟨c', hold, hconsumed⟩, fun h => h⟩

/-- An acceptance by a driver keeps the chats. -/
theorem driverAccept_chats (env : Env) (caller : User) (o : Id) :
    (DeliveryFlow.acceptOrder sha256 env caller o).Writes fun _ f => ∀ s, ChatsKept s (f s) := by
  refine .bind (.raiseIf _ _) fun _ => .bind writes_getOrderOr404 fun order =>
    .bind .read fun db => ?_
  split
  · exact .pure _
  · refine .bind .read fun db => .bind (.updateRow fun s =>
      chatsKept_modifyOrder orderEdit_acceptByDriver s _) fun _ => .bind ?_ fun _ =>
      .bind (writes_insertRow fun s => chatsKept_addCode rfl s) fun _ => .pure _
    cases db.deliveries.get order.id with
    | none => exact writes_insertRow fun s => .of_same rfl rfl rfl
    | some d => exact .updateRow fun s => .of_same rfl rfl rfl

end Writes

/-! ### A message and the completion -/

section Requests

variable {sha256 : String → String} {R : Db → Db → Prop} {K : Db → Prop}
  {facts : List (Key × Db)} {w : Db → Db}

/-- A commit with this effect, whatever is locked. -/
theorem relyOk_of_effect {α : Type} {Q : Db → Db → Prop} {a : α} (h : ∀ s, K s → Q s (w s)) :
    RelyOk Locking.free (fun _ => True) (fun _ => Q) K facts w a :=
  fun s _ hs _ => ⟨trivial, h s hs, fun _ _ => trivial⟩

/-- A request whose writes all have the effect relies on nothing. -/
theorem wprFrom_of_effect {α : Type} {Q : Db → Db → Prop} {p : Tx α} (hrefl : ∀ s, Q s s)
    (htrans : ∀ s t u, Q s t → Q t u → Q s u) (h : p.Writes fun _ f => ∀ s, Q s (f s)) :
    p.wprFrom .free (fun _ => True) R (fun _ => True)
      (RelyOk .free (fun _ => True) fun _ => Q) := by
  refine wprFrom_of_wpr (fun _ _ _ _ _ hK => RelyOk.of_imp hK) (wpr_mono ?_
    (wpr_of_writes (E := Q) htrans (fun _ _ hf => hf) (fun _ _ _ _ _ _ => trivial) (h _) hrefl
      fun _ _ _ => trivial))
  exact fun _ _ _ _ hw => relyOk_of_effect fun s _ => hw.1 s

/-- The role of a message's sender. -/
theorem wpr_chatRole {sender : User} {order : Order} {delivery : Option Delivery}
    {Post : (Db → Prop) → List (Key × Db) → (Db → Db) → SenderRole → Prop}
    (h : ∀ role, (role = .customer → sender.id = order.customerId) → Post K facts w role) :
    (chatRole sender order delivery).wpr .free (fun _ => True) R Post K facts w := by
  unfold chatRole
  simp only [wpr_ite, wpr_raise, implies_true, true_and, and_true, pure_eq, wpr_ret]
  refine fun _ => ⟨fun hid => h .customer fun _ => hid, fun _ _ => h .driver fun hrole => ?_⟩
  cases hrole

/-- A message that is stored goes to a chat that is open. -/
theorem postOrderMessage_posts (env : Env) (caller : User) (o : Id) (ciphertext nonce : String) :
    (postOrderMessage env caller o ciphertext nonce).wprFrom .free (fun _ => True)
      (fun s t => ∀ customerId, ChatOpen o customerId s → ChatOpen o customerId t)
      (fun _ => True) (RelyOk .free (fun _ => True) fun _ => ChatPosted caller o) := by
  unfold postOrderMessage getOrderOr404
  simp only [bind_eq, pure_eq, bind_assoc, ret_bind]
  refine wprFrom_read fun s _ _ => ?_
  simp only [wpr_bind, wpr_getOrRaise, wpr_raiseIf, wpr_read]
  intro x hx _ haccepted hundelivered s₁ _ _ _
  have hid : x.id = o := Table.key_of_get hx
  have hopen : ChatOpen o x.customerId s :=
    ⟨x, hx, haccepted, Decidable.not_not.mp hundelivered, rfl⟩
  refine wpr_chatRole fun role hrole => ?_
  simp only [insertMessage, insertRow, bind_eq, wpr_bind, wpr_acquire, wpr_raiseIf, wpr_modify,
    wpr_ret]
  intro s₂ _ _ _ _
  refine relyOk_of_effect fun t ht => ?_
  exact ⟨x.customerId, _, ht.1.1 _ hopen, rfl, hid, rfl, hrole⟩

/-- The archive writes what `archiveAll` says. -/
theorem wpr_archiveMessages {now : Time} {ms : List OrderMessage}
    {Post : (Db → Prop) → List (Key × Db) → (Db → Db) → Unit → Prop}
    (h : ∀ K' facts', (∀ s, K' s → K s) →
      Post K' facts' ((fun db => db.archiveAll now ms) ∘ w) ()) :
    (archiveMessages now ms).wpr .free (fun _ => True) R Post K facts w := by
  induction ms generalizing K facts w with
  | nil => exact h K facts fun _ hs => hs
  | cons m ms ih =>
    simp only [archiveMessages, bind_eq, wpr_bind, wpr_updateRow]
    exact fun s _ _ _ => ih fun K' facts' hK' => h K' facts' fun t ht => (hK' t ht).1

/-- The archive leaves the orders alone. -/
theorem archiveAll_orders (db : Db) (now : Time) (ms : List OrderMessage) :
    (db.archiveAll now ms).orders = db.orders := by
  induction ms generalizing db with
  | nil => rfl
  | cons m ms ih => exact ih _

/-- It leaves the codes alone. -/
theorem archiveAll_codes (db : Db) (now : Time) (ms : List OrderMessage) :
    (db.archiveAll now ms).deliveryCodes = db.deliveryCodes := by
  induction ms generalizing db with
  | nil => rfl
  | cons m ms ih => exact ih _

/-- An archived message keeps its identifier. -/
theorem archive_id (now : Time) (m : OrderMessage) : (archive now m).id = m.id := by
  unfold archive
  split
  · rfl
  · rfl

/-- It is archived once. -/
theorem archive_archive (now : Time) (m : OrderMessage) :
    archive now (archive now m) = archive now m := by
  unfold archive
  split
  · rfl
  · rfl

/-- A message after the archiving of `ms`. -/
theorem archiveAll_get (db : Db) (now : Time) (ms : List OrderMessage) (id : Id) :
    (db.archiveAll now ms).orderMessages.get id =
      if id ∈ ms.map OrderMessage.id then (db.orderMessages.get id).map (archive now)
      else db.orderMessages.get id := by
  induction ms generalizing db with
  | nil => rfl
  | cons m ms ih =>
    have hstep : db.archiveAll now (m :: ms) =
        (db.modifyMessage m.id (archive now)).archiveAll now ms := rfl
    have hget : (db.modifyMessage m.id (archive now)).orderMessages.get id = _ :=
      Table.get_modify db.orderMessages m.id (archive_id now) id
    rw [hstep, ih, hget, List.map_cons]
    by_cases hid : id = m.id
    · cases db.orderMessages.get id with
      | none => simp [hid]
      | some n => simp [hid, archive_archive]
    · simp [hid]

/-- The completion by the code archives what is in the chat, if nothing is added meanwhile. -/
theorem chatArchived {s₁ s : Db} {env : Env} {caller : User} {o : Id} {submitted : String}
    (horder : s.orders.get o ≠ none)
    (hnew : ∀ m' ∈ s.chat o, m'.archivedAt = none →
      ∃ m ∈ s₁.chat o, m.id = m'.id ∧ m.archivedAt = none) :
    ChatArchived o s ((((s.archiveAll (env.now 0) (s₁.orderMessages.rows.filter fun m =>
      m.orderId = o ∧ m.archivedAt = none)).modifyOrder o
        (Order.deliverByCode (env.now 0))).modifyCode
        o (DeliveryCode.consume (env.now 0))).addCodeAttempt
          (attempt env caller o submitted true)) := by
  generalize hms : (s₁.orderMessages.rows.filter fun m =>
    m.orderId = o ∧ m.archivedAt = none) = ms
  generalize hu : (((s.archiveAll (env.now 0) ms).modifyOrder o
    (Order.deliverByCode (env.now 0))).modifyCode o
      (DeliveryCode.consume (env.now 0))).addCodeAttempt
      (attempt env caller o submitted true) = u
  have horders : ∀ o', u.orders.get o' = if o' = o then
      (s.orders.get o').map (Order.deliverByCode (env.now 0)) else s.orders.get o' := fun o' => by
    rw [← hu, ← archiveAll_orders s (env.now 0) ms]
    exact Table.get_modify _ o (Order.deliverByCode_id (env.now 0)) o'
  have hcodes : ∀ o', u.deliveryCodes.get o' = if o' = o then
      (s.deliveryCodes.get o').map (DeliveryCode.consume (env.now 0)) else
      s.deliveryCodes.get o' := fun o' => by
    rw [← hu, ← archiveAll_codes s (env.now 0) ms]
    exact Table.get_modify _ o (DeliveryCode.consume_orderId · (env.now 0)) o'
  have hmessages : ∀ m' ∈ u.orderMessages.rows, ∃ m ∈ s.orderMessages.rows, m.Kept m' ∧
      (m'.id ∈ ms.map OrderMessage.id → m'.archivedAt ≠ none) := fun m' hm' => by
    have hsame : u.orderMessages = (s.archiveAll (env.now 0) ms).orderMessages := by
      rw [← hu]
      rfl
    have hget := archiveAll_get s (env.now 0) ms m'.id
    rw [← hsame] at hget
    rw [Table.mem_rows_iff.mp hm'] at hget
    by_cases hmem : m'.id ∈ ms.map OrderMessage.id
    · rw [if_pos hmem] at hget
      obtain ⟨m, hm, rfl⟩ := Option.map_eq_some_iff.mp hget.symm
      rw [archive_id] at hm
      refine ⟨m, Table.mem_rows_iff.mpr hm, kept_archive _ m, fun _ => ?_⟩
      unfold archive
      split
      · exact Option.some_ne_none _
      · assumption
    · rw [if_neg hmem] at hget
      exact ⟨m', Table.mem_rows_iff.mpr hget.symm, .refl m', fun h => absurd h hmem⟩
  refine ⟨fun m' hm' => ?_, fun o' y hy => ?_, fun o' c ho hc hconsumed => ?_, ?_, fun m' hm' => ?_⟩
  · obtain ⟨m, hm, hkept, -⟩ := hmessages m' hm'
    exact ⟨m, hm, hkept⟩
  · rw [horders] at hy
    split at hy
    · obtain ⟨x, hx, rfl⟩ := Option.map_eq_some_iff.mp hy
      exact ⟨x, hx, fun _ => Option.some_ne_none _⟩
    · exact ⟨y, hy, fun h => h⟩
  · rw [hcodes, if_neg ho] at hc
    refine ⟨⟨c, hc, hconsumed⟩, fun h => ?_⟩
    rw [horders, if_neg ho]
    exact h
  · obtain ⟨x, hx⟩ := Option.ne_none_iff_exists'.mp horder
    refine ⟨x.deliverByCode (env.now 0), ?_, Option.some_ne_none _⟩
    rw [horders, if_pos rfl, hx]
    rfl
  · obtain ⟨hrow, hof⟩ := List.mem_filter.mp hm'
    obtain ⟨m, hm, hkept, harchived⟩ := hmessages m' hrow
    by_cases hbefore : m.archivedAt = none
    · have hof' : m.orderId = o := by
        rw [hkept.same] at hof
        exact of_decide_eq_true hof
      obtain ⟨m₁, hm₁, hid, hnone⟩ := hnew m (List.mem_filter.mpr ⟨hm, by simp [hof']⟩) hbefore
      obtain ⟨hrow₁, hof₁⟩ := List.mem_filter.mp hm₁
      have hsame : m'.id = m.id := by rw [hkept.same]
      refine harchived (List.mem_map.mpr ⟨m₁, ?_, hid.trans hsame.symm⟩)
      rw [← hms]
      exact List.mem_filter.mpr ⟨hrow₁, by simpa [hnone] using hof₁⟩
    · rw [hkept.archived hbefore]
      exact hbefore

/-- The completion archives what the chat has when it commits. -/
theorem completeDelivery_archives (env : Env) (caller : User) (o : Id) (submitted : String) :
    (completeDelivery sha256 env caller o submitted).wprFrom .free (fun _ => True)
      (fun s t => (s.orders.get o ≠ none → t.orders.get o ≠ none) ∧
        ∀ m' ∈ t.chat o, m'.archivedAt = none → ∃ m ∈ s.chat o, m.id = m'.id ∧ m.archivedAt = none)
      (fun _ => True) (RelyOk .free (fun _ => True) fun _ => ChatArchived o) := by
  unfold completeDelivery getOrderOr404
  by_cases hrole : caller.role = .driver
  · simp only [raiseIf_of_not (not_not_intro hrole), bind_eq, pure_eq, bind_assoc, ret_bind]
    refine wprFrom_read fun s _ _ => ?_
    simp only [wpr_bind, wpr_getOrRaise, wpr_raiseIf, wpr_read]
    intro x hx _ s₁ _ _ _ code _
    have hid : x.id = o := Table.key_of_get hx
    cases checkCode sha256 code submitted with
    | locked =>
      simp only [insertCodeAttempt, insertRow, bind_eq, wpr_bind, wpr_acquire, wpr_raiseIf,
        wpr_modify, wpr_raise, implies_true]
    | wrong =>
      simp only [refuseCode, updateOrder, updateCode, insertCodeAttempt, insertRow, bind_eq,
        wpr_ite, wpr_bind, wpr_updateRow, wpr_acquire, wpr_raiseIf, wpr_modify, wpr_raise,
        implies_true, and_self]
    | right =>
      simp only [deliver, bind_eq, wpr_bind, wpr_read]
      intro s₂ _ _ _
      refine wpr_archiveMessages fun K' facts' hK' => ?_
      simp only [updateOrder, updateCode, insertCodeAttempt, insertRow, bind_eq, wpr_bind,
        wpr_updateRow, wpr_acquire, wpr_raiseIf, wpr_modify, pure_eq, wpr_ret, hid]
      intro s₃ _ _ _ s₄ _ _ _ s₅ _ _ _ _
      refine relyOk_of_effect fun t ht => ?_
      have hseen := hK' t ht.1.1.1
      have horder : s.orders.get o ≠ none := by
        rw [hx]
        exact Option.some_ne_none x
      exact chatArchived (hseen.1.1.1 horder) hseen.2.2
  · rw [raiseIf_of hrole, bind_eq, raise_bind]
    trivial

end Requests

/-! ### Every request -/

section Effects

variable {sha256 : String → String} {s t : Db} {q : Request}

/-- Wrapping the result of a program that relies on the others. -/
theorem wprFrom_map {α β : Type} {L : Locking Db Key} {I S : Db → Prop} {R Q : Db → Db → Prop}
    {p : Tx α} (f : α → β) (h : p.wprFrom L I R S (RelyOk L I fun _ => Q)) :
    (p.bind fun a => ret (f a)).wprFrom L I R S (RelyOk L I fun _ => Q) := by
  cases p with
  | select k => exact fun s hI hS => wpr_bind.mpr (h s hI hS)
  | ret a => exact h
  | raise e => trivial
  | lock key k => exact wpr_bind.mpr h
  | skipLocked key k => exact wpr_bind.mpr h
  | write g k => exact wpr_bind.mpr h

/-- An operation that the chats do not notice. -/
theorem quietExec_chats {op : Op} {env : Env} {caller : User} {R : Db → Db → Prop}
    (hop : ∀ items address, op ≠ .createOrder items address)
    (hquiet : ∀ k ∈ op.writeKinds, k ∈ quietKinds) :
    (op.exec sha256 env caller).wprFrom .free (fun _ => True) R (fun _ => True)
      (RelyOk .free (fun _ => True) fun _ => ChatsKept) :=
  wprFrom_of_effect ChatsKept.refl (fun _ _ _ => ChatsKept.trans)
    ((exec_writes hop).mono fun _ _ hf => hf.chatsKept hquiet)

/-- What a request does to the chats, if the others respect what it relies on. -/
theorem exec_chatEffect (sha256 : String → String) (q : Request) :
    (q.exec sha256).wprFrom .free (fun _ => True) q.ChatRelies (fun _ => True)
      (RelyOk .free (fun _ => True) fun _ => q.ChatEffect) := by
  obtain ⟨caller, op, env⟩ := q
  cases op with
  | createOrder items address =>
    exact wprFrom_map _ (wprFrom_of_effect ChatsUntouched.refl (fun _ _ _ => ChatsUntouched.trans)
      ((createOrder_writes items address).mono fun _ _ hf => hf.chatsUntouched))
  | postOrderMessage o ciphertext nonce =>
    exact wprFrom_map _ (postOrderMessage_posts env caller o ciphertext nonce)
  | completeDelivery o submitted =>
    exact wprFrom_map _ (completeDelivery_archives env caller o submitted)
  | driverAccept o =>
    exact wprFrom_map _ (wprFrom_of_effect ChatsKept.refl (fun _ _ _ => ChatsKept.trans)
      (driverAccept_chats env caller o))
  | _ =>
    exact quietExec_chats (fun _ _ h => by cases h) (by simp only [Op.writeKinds]; decide)

/-- A kept message stays with its order. -/
theorem OrderMessage.Kept.orderId {m m' : OrderMessage} (h : m.Kept m') :
    m'.orderId = m.orderId := by
  rw [h.same]

/-- A chat in which nothing is stored stays archived. -/
theorem archived_of_kept {o : Id}
    (h : ∀ m' ∈ t.orderMessages.rows, ∃ m ∈ s.orderMessages.rows, m.Kept m')
    (hs : ∀ m ∈ s.chat o, m.archivedAt ≠ none) : ∀ m' ∈ t.chat o, m'.archivedAt ≠ none := by
  intro m' hm'
  obtain ⟨hrow, hof⟩ := List.mem_filter.mp hm'
  obtain ⟨m, hm, hkept⟩ := h m' hrow
  rw [hkept.orderId] at hof
  have harchived := hs m (List.mem_filter.mpr ⟨hm, hof⟩)
  rw [hkept.archived harchived]
  exact harchived

/-- Chats that are kept stay closed. -/
theorem ChatsKept.closed (h : ChatsKept s t) (hs : s.ChatsClosed) : t.ChatsClosed := by
  intro o c hc hconsumed
  obtain ⟨⟨c', hc', hconsumed'⟩, hstays⟩ := h.codes o c hc hconsumed
  obtain ⟨⟨x, hx, hdelivered⟩, harchived⟩ := hs o c' hc' hconsumed'
  refine ⟨?_, archived_of_kept h.messages harchived⟩
  obtain ⟨y, hy⟩ := Option.ne_none_iff_exists'.mp (hstays (by rw [hx]; exact Option.some_ne_none x))
  obtain ⟨x', hx', hkept⟩ := h.orders o y hy
  obtain rfl := Option.some.inj (hx.symm.trans hx')
  exact ⟨y, hy, hkept hdelivered⟩

/-- Chats that are untouched stay closed. -/
theorem ChatsUntouched.closed (h : ChatsUntouched s t) (hs : s.ChatsClosed) : t.ChatsClosed := by
  intro o c hc hconsumed
  rw [h.codes] at hc
  obtain ⟨⟨x, hx, hdelivered⟩, harchived⟩ := hs o c hc hconsumed
  refine ⟨⟨x, h.orders o x hx, hdelivered⟩, fun m hm => harchived m ?_⟩
  rwa [Db.chat, h.messages] at hm

/-- The message that is stored, and those that were there. -/
theorem ChatPosted.messages {caller : User} {o : Id} (h : ChatPosted caller o s t)
    {m' : OrderMessage} (hm' : m' ∈ t.orderMessages.rows) : m' ∈ s.orderMessages.rows ∨
      ∃ customerId, ChatOpen m'.orderId customerId s ∧
        (m'.senderRole = .customer → m'.senderId = some customerId) := by
  obtain ⟨customerId, m, hopen, rfl, hof, hsender, hcustomer⟩ := h
  rcases Table.get_of_insert (t := s.orderMessages) (Table.mem_rows_iff.mp hm') with rfl | hold
  · refine .inr ⟨customerId, by rwa [hof], fun hrole => ?_⟩
    rw [hsender, hcustomer hrole]
  · exact .inl (Table.mem_rows_iff.mpr hold)

/-- A posted message is in an open chat. -/
theorem ChatPosted.closed {caller : User} {o : Id} (h : ChatPosted caller o s t)
    (hs : s.ChatsClosed) : t.ChatsClosed := by
  intro o' c hc hconsumed
  have hsame : t.orders = s.orders ∧ t.deliveryCodes = s.deliveryCodes := by
    obtain ⟨_, m, -, rfl, -⟩ := h
    exact ⟨rfl, rfl⟩
  rw [hsame.2] at hc
  obtain ⟨⟨x, hx, hdelivered⟩, harchived⟩ := hs o' c hc hconsumed
  refine ⟨⟨x, by rwa [hsame.1], hdelivered⟩, fun m hm => ?_⟩
  obtain ⟨hrow, hof⟩ := List.mem_filter.mp hm
  rcases h.messages hrow with hold | ⟨_, ⟨y, hy, -, hundelivered, -⟩, -⟩
  · exact harchived m (List.mem_filter.mpr ⟨hold, hof⟩)
  · -- a chat that is open is that of an order which is not delivered
    rw [of_decide_eq_true hof, hx] at hy
    obtain rfl := Option.some.inj hy
    exact absurd hundelivered hdelivered

/-- An archived chat is closed. -/
theorem ChatArchived.closed {o : Id} (h : ChatArchived o s t) (hs : s.ChatsClosed) :
    t.ChatsClosed := by
  intro o' c hc hconsumed
  by_cases ho : o' = o
  · subst ho
    exact ⟨h.delivered, h.archived⟩
  · obtain ⟨⟨c', hc', hconsumed'⟩, hstays⟩ := h.codes o' c ho hc hconsumed
    obtain ⟨⟨x, hx, hdelivered⟩, harchived⟩ := hs o' c' hc' hconsumed'
    refine ⟨?_, archived_of_kept h.messages harchived⟩
    obtain ⟨y, hy⟩ :=
      Option.ne_none_iff_exists'.mp (hstays (by rw [hx]; exact Option.some_ne_none x))
    obtain ⟨x', hx', hkept⟩ := h.orders o' y hy
    obtain rfl := Option.some.inj (hx.symm.trans hx')
    exact ⟨y, hy, hkept hdelivered⟩

/-- Every request keeps closed chats closed. -/
theorem Request.ChatEffect.closed (h : q.ChatEffect s t) (hs : s.ChatsClosed) : t.ChatsClosed := by
  unfold Request.ChatEffect at h
  split at h
  · exact h.closed hs
  · exact h.closed hs
  · exact h.closed hs
  · exact h.closed hs

/-- A message that is stored goes to a chat that is open, and is signed with its sender. -/
theorem Request.ChatEffect.messages (h : q.ChatEffect s t) {m' : OrderMessage}
    (hm' : m' ∈ t.orderMessages.rows) : (∃ m ∈ s.orderMessages.rows, m.Kept m') ∨
      ∃ customerId, ChatOpen m'.orderId customerId s ∧
        (m'.senderRole = .customer → m'.senderId = some customerId) := by
  unfold Request.ChatEffect at h
  split at h
  · rw [h.messages] at hm'
    exact .inl ⟨m', hm', .refl m'⟩
  · exact (h.messages hm').imp_left fun hold => ⟨m', hold, .refl m'⟩
  · exact .inl (h.messages m' hm')
  · exact .inl (h.messages m' hm')

/-- No delivery is taken back. -/
theorem Request.ChatEffect.delivered (h : q.ChatEffect s t) {o : Id} {x y : Order}
    (hx : s.orders.get o = some x) (hy : t.orders.get o = some y)
    (hdelivered : x.deliveredAt ≠ none) :
    y.deliveredAt ≠ none := by
  have hkept : (∀ o y, t.orders.get o = some y →
      ∃ x, s.orders.get o = some x ∧ (x.deliveredAt ≠ none → y.deliveredAt ≠ none)) →
      y.deliveredAt ≠ none := fun horders => by
    obtain ⟨x', hx', hkept⟩ := horders o y hy
    obtain rfl := Option.some.inj (hx.symm.trans hx')
    exact hkept hdelivered
  unfold Request.ChatEffect at h
  split at h
  · obtain rfl := Option.some.inj ((h.orders o x hx).symm.trans hy)
    exact hdelivered
  · obtain ⟨_, m, -, rfl, -⟩ := h
    obtain rfl := Option.some.inj (hx.symm.trans hy)
    exact hdelivered
  · exact hkept h.orders
  · exact hkept h.orders

/-- What a participant lists is not archived, and the order is on its way. -/
theorem listChat_open {caller : User} {o : Id} {ms : List OrderMessage} {db : Db}
    (hcaller : caller.role ≠ .admin) (h : (listChat caller o).run s = .ok (ms, db))
    {m : OrderMessage} (hm : m ∈ ms) : m ∈ s.chat o ∧ m.archivedAt = none ∧
      ∃ x, s.orders.get o = some x ∧ x.deliveredAt = none := by
  simp only [listChat, listOrderMessages, if_neg hcaller, bind_eq, run_bind_ok,
    run_getOrderOr404_ok, run_read_ok, run_raiseIf_ok, run_ite_ok, pure_eq, run_ret_ok] at h
  obtain ⟨x, _, ⟨⟨hx, -⟩, rfl⟩, _, _, ⟨rfl, rfl⟩, _, _, ⟨-, rfl⟩, hlist⟩ := h
  rcases hlist with ⟨-, rfl, -⟩ | ⟨hundelivered, _, _, ⟨rfl, rfl⟩, rfl, -⟩
  · cases hm
  · obtain ⟨hrow, hof⟩ := List.mem_filter.mp (List.mem_mergeSort.mp hm)
    obtain ⟨hof, harchived⟩ := of_decide_eq_true hof
    exact ⟨List.mem_filter.mpr ⟨hrow, decide_eq_true hof⟩, by simpa using harchived, x, hx,
      not_not.mp hundelivered⟩

end Effects

/-! ### Whole runs -/

section Runs

variable {sha256 : String → String}

/-- Nothing has changed. -/
theorem Request.ChatRelies.refl (q : Request) (s : Db) : q.ChatRelies s s := by
  unfold Request.ChatRelies
  split
  · exact fun _ h => h
  · exact ⟨fun h => h, fun m hm hnone => ⟨m, hm, rfl, hnone⟩⟩
  · trivial

/-- What holds through two changes holds through both. -/
theorem Request.ChatRelies.trans {q : Request} {s t u : Db} (h : q.ChatRelies s t)
    (h' : q.ChatRelies t u) : q.ChatRelies s u := by
  obtain ⟨caller, op, env⟩ := q
  cases op with
  | postOrderMessage o ciphertext nonce =>
    exact fun customerId hopen => h' customerId (h customerId hopen)
  | completeDelivery o submitted =>
    obtain ⟨hstays, hnothing⟩ := h
    obtain ⟨hstays', hnothing'⟩ := h'
    refine ⟨fun horder => hstays' (hstays horder), fun m'' hm'' hnone'' => ?_⟩
    obtain ⟨m', hm', hid', hnone'⟩ := hnothing' m'' hm'' hnone''
    obtain ⟨m, hm, hid, hnone⟩ := hnothing m' hm' hnone'
    exact ⟨m, hm, hid.trans hid', hnone⟩
  | _ => trivial

/-- What one statement does to the chats, in a run that respects them. -/
theorem chatEffect_of_step {ι : Type} [DecidableEq ι] {requests : ι → Request} {db : Db}
    {s t : Sys ι Db Key Err Reply} {i : ι}
    (hs : Sys.StepsIf (ChatsRespected sha256 requests)
      (Sys.init db fun i => (requests i).exec sha256) s) (hst : Sys.Step i s t) :
    (requests i).ChatEffect s.db t.db ∨ t.db = s.db := by
  have hholds := hs.holds_relies (L := .free) (I := fun _ => True) (S := fun _ _ => True)
    (R := fun i => (requests i).ChatRelies) (Q := fun i _ => (requests i).ChatEffect)
    (fun i => .refl (requests i)) (fun _ _ _ _ => .trans)
    (fun i => exec_chatEffect sha256 (requests i)) trivial
    fun _ _ _ _ hrespected _ _ => ⟨fun _ => trivial, hrespected⟩
  cases hst with
  | commit hi =>
    exact .inl (hholds.relies_commit (fun i => exec_chatEffect sha256 (requests i)) hi).2.1
  | _ => exact .inr rfl

/-- **The chat of an order closes for good.** If no chat is closed while a message to it is on
its way and none is written to while it is being archived, then whatever the requests, the chat of
every order that was completed by its code stays archived; a message is only ever stored in a chat
that is open at that moment, a customer's under the name of the customer of the order; a stored
message only changes by being archived, once; no delivery is taken back; and a participant is
never shown an archived message, nor any message of an order that was delivered. -/
theorem chats_closed (sha256 : String → String) {ι : Type} [DecidableEq ι]
    (requests : ι → Request) {db : Db} (hdb : db.ChatsClosed) {s : Sys ι Db Key Err Reply}
    (hs : Sys.StepsIf (ChatsRespected sha256 requests)
      (Sys.init db fun i => (requests i).exec sha256) s) :
    s.db.ChatsClosed ∧
    (∀ i t, Sys.Step i s t →
      (∀ m' ∈ t.db.orderMessages.rows, (∃ m ∈ s.db.orderMessages.rows, m.Kept m') ∨
        ∃ customerId, ChatOpen m'.orderId customerId s.db ∧
          (m'.senderRole = .customer → m'.senderId = some customerId)) ∧
      ∀ o x y, s.db.orders.get o = some x → t.db.orders.get o = some y →
        x.deliveredAt ≠ none → y.deliveredAt ≠ none) ∧
    ∀ caller o ms db', caller.role ≠ .admin → (listChat caller o).run s.db = .ok (ms, db') →
      ∀ m ∈ ms, m ∈ s.db.chat o ∧ m.archivedAt = none ∧
        ∃ x, s.db.orders.get o = some x ∧ x.deliveredAt = none := by
  refine ⟨?_, fun i t hst => ?_, fun caller o ms db' hcaller hrun m hm => ?_⟩
  · induction hs with
    | refl => exact hdb
    | tail i hs hst _ ih =>
      rcases chatEffect_of_step hs hst with heffect | hsame
      · exact heffect.closed ih
      · rwa [hsame]
  · rcases chatEffect_of_step hs hst with heffect | hsame
    · exact ⟨fun m' hm' => heffect.messages hm', fun o x y => heffect.delivered⟩
    · rw [hsame]
      refine ⟨fun m' hm' => .inl ⟨m', hm', .refl m'⟩, fun o x y hx hy hdelivered => ?_⟩
      obtain rfl := Option.some.inj (hx.symm.trans hy)
      exact hdelivered
  · exact listChat_open hcaller hrun hm

end Runs

namespace Sample

/-- A request of the `k`-th transaction. -/
def chatting (k : Nat) (caller : User) (op : Op) : Request :=
  { caller, op,
    env := { now := fun _ => 8 + k, transactionNow := 8 + k, uuid4 := Nat.pair (10 + k),
             randbelow := 0 } }

/-- The customer writes to the driver, who completes the delivery. -/
def chat : Bool → Request
  | true => chatting 0 customer (.postOrderMessage 0 "ciphertext" "nonce")
  | false => chatting 1 driver (.completeDelivery 0 "000000")

end Sample

/-- The sample order has no messages. -/
theorem onItsWay_chatsClosed : Sample.onItsWay.ChatsClosed := by
  have hunused : ∀ c ∈ Sample.onItsWay.deliveryCodes.rows, c.consumedAt = none := by
    decide +kernel
  intro o c hc hconsumed
  exact absurd (hunused c (Table.mem_rows_iff.mpr (by rwa [Table.key_of_get hc]))) hconsumed

/-- One after the other, the message is stored and the completion archives it. -/
theorem chats_closed_in_turn :
    ∃ s, Sys.StepsIf (ChatsRespected Sample.sha256 Sample.chat)
        (Sys.init Sample.onItsWay fun i => (Sample.chat i).exec Sample.sha256) s ∧
      s.log.map Prod.fst = [true, false] ∧ (s.db.chat 0).map OrderMessage.archivedAt = [some 9] ∧
      s.db.ChatsClosed := by
  obtain ⟨t, ht, hdb, hlog⟩ := Sys.stepsIf_init_of_serial
    (C := ChatsRespected Sample.sha256 Sample.chat)
    (fun i => (Sample.chat i).exec Sample.sha256) Sample.onItsWay [true, false]
    (fun s i t _ hidle j hj hway => absurd hway (hidle j hj).not_underWay) (by decide)
    (by decide +kernel)
  have hchat : (Sys.serial (fun i => (Sample.chat i).exec Sample.sha256) Sample.onItsWay
      [true, false]).map (fun db => (db.chat 0).map OrderMessage.archivedAt) =
        some [some 9] := by decide +kernel
  rw [hdb] at hchat
  exact ⟨t, ht, hlog, Option.some.inj hchat,
    (chats_closed Sample.sha256 Sample.chat onItsWay_chatsClosed ht).1⟩

end Marketplace
