import Marketplace.Lib.Look
import Marketplace.Messaging.Service

/-!
# One conversation for a pair

Whether two users may converse does not depend on which of them asks. `create_conversation`
looks the conversation of the pair up and inserts it when there is none; the unique index on
the ordered pair refuses a second one. As long as no call commits the first conversation of the
pair while another one has looked it up in vain, every call that is allowed returns the same
conversation.
-/

namespace Marketplace

open Lib Txn Err MessagingService

/-! ### What the calls are for -/

/-- A user that is neither deleted nor deactivated. -/
structure ActiveUser (db : Db) (u : User) : Prop where
  row : db.users.get u.id = some u
  isActive : u.isActive = true
  deletedAt : u.deletedAt = none

/-- The constraints of the table of conversations. -/
structure ConversationsOk (db : Db) : Prop where
  /-- `ck_conversations_canonical_ordering`. -/
  ordered : ∀ id c, db.conversations.get id = some c → c.userAId < c.userBId
  /-- `uq_conversations_user_pair`. -/
  pair : ∀ x y, (db.conversationsOf x y).length ≤ 1

/-- The conversations of two users, in either order. -/
def Db.conversationsBetween (db : Db) (a b : User) : List Conversation :=
  db.conversations.rows.filter fun c =>
    (c.userAId = a.id ∧ c.userBId = b.id) ∨ (c.userAId = b.id ∧ c.userBId = a.id)

/-- A call of `create_conversation` by one of two users for the other one. -/
structure PairCall where
  byFirst : Bool
  env : Env

def PairCall.exec (a b : User) (c : PairCall) : Tx Conversation :=
  if c.byFirst then createConversation c.env a b.id else createConversation c.env b a.id

/-- Two users may converse. -/
def eligible (caller peer : User) : Bool :=
  if caller.role = .admin then true else mayConverseWith caller peer

section

variable {ι : Type} (a b : User) (calls : ι → PairCall)

/-- `uuid4` draws the id of no stored conversation and of no other new one. -/
structure FreshConversationIds (db : Db) : Prop where
  unused : ∀ i, db.conversations.get ((calls i).env.uuid4 0) = none
  distinct : ∀ i j, (calls i).env.uuid4 0 = (calls j).env.uuid4 0 → i = j

/-- No call commits the first conversation of the pair while another one, which has looked it up
in vain, is about to insert it. -/
def LookupsApart (s : Sys ι Db Key Err Conversation) (i : ι) (_ : Sys ι Db Key Err Conversation) :
    Prop :=
  s.AboutToCommit i → s.db.conversationsBetween a b = [] → ∀ j, j ≠ i → ¬s.AboutToLock j

/-- The conversation of the pair in a state of a run. -/
structure OneConversation (t : Sys ι Db Key Err Conversation) : Prop where
  /-- Whether a call is allowed does not depend on which of the two calls. -/
  symmetric : (canConverse a b.id).run t.db = (canConverse b a.id).run t.db
  /-- A call fails only when it is not allowed. -/
  returns : ∀ i e, t.txn i = .aborted (some e) →
    e = conversationIneligible ∧ (canConverse a b.id).run t.db = .ok (false, t.db)
  /-- A call that returns is allowed, and returns the one conversation of the pair. -/
  one : ∀ e ∈ t.log, (canConverse a b.id).run t.db = .ok (true, t.db) ∧
    t.db.conversationsBetween a b = [e.2] ∧ e.2.userAId < e.2.userBId

end

/-! ### Eligibility -/

section Eligibility

variable {a b : User} {db : Db}

/-- Either both may open a conversation with the other one or none of them. -/
theorem eligible_comm (a b : User) : eligible a b = eligible b a := by
  unfold eligible mayConverseWith
  cases a.role with
  | customer => cases b.role <;> simp
  | seller => cases b.role <;> simp
  | driver => cases b.role <;> simp
  | admin => cases b.role <;> simp

/-- What the check finds for a peer that is an active user. -/
theorem peer_found (hb : ActiveUser db b) :
    ((db.users.get b.id).filter fun u => u.deletedAt = none ∧ u.isActive = true).any
      (mayConverseWith a) = mayConverseWith a b := by
  rw [hb.row, Option.filter_some_pos (by simp [hb.isActive, hb.deletedAt])]
  rfl

/-- Whether two active users may converse, computed. -/
theorem canConverse_run (hne : a.id ≠ b.id) (hb : ActiveUser db b) :
    (canConverse a b.id).run db = .ok (eligible a b, db) := by
  unfold canConverse eligible
  rw [if_neg hne]
  by_cases hadmin : a.role = .admin
  · rw [if_pos hadmin, if_pos hadmin]
    rfl
  · rw [if_neg hadmin, if_neg hadmin]
    exact congrArg (fun allowed => Except.ok (allowed, db)) (peer_found hb)

end Eligibility

/-! ### One call among the others -/

section Program

variable {a b : User} {db : Db}

/-- The conversations of a pair are protected by the entry of the unique index. -/
def pairLocking : Locking Db Key where
  agree
    | .conversation id, s, t => t.conversations.get id = s.conversations.get id
    | .conversationPair x y, s, t => t.conversationsOf x y = s.conversationsOf x y
    | _, _, _ => True
  refl key s := by cases key <;> trivial
  trans {key s t v} hst htv := by
    cases key with
    | conversation id => exact Eq.trans htv hst
    | conversationPair x y => exact Eq.trans htv hst
    | _ => trivial

/-- Conversations stay as they are. -/
def ConversationsKept (s t : Db) : Prop :=
  ∀ id c, s.conversations.get id = some c → t.conversations.get id = some c

/-- What the calls find: the two users are active, and the table of conversations is in order. -/
structure PairDb (a b : User) (db : Db) : Prop where
  first : ActiveUser db a
  second : ActiveUser db b
  conversations : ConversationsOk db

/-- What a commit does to the conversation of the pair. -/
structure PairEffect (a b : User) (env : Env) (c : Conversation) (s t : Db) : Prop where
  kept : ConversationsKept s t
  reply : t.conversationsOf (canonicalPair a.id b.id).1 (canonicalPair a.id b.id).2 = [c]
  allowed : eligible a b = true
  created : ∀ id, t.conversations.get id ≠ none → s.conversations.get id ≠ none ∨ id = env.uuid4 0

/-- The conversations of a pair, by membership. -/
theorem mem_conversationsOf {x y : Id} {c : Conversation} : c ∈ db.conversationsOf x y ↔
    db.conversations.get c.id = some c ∧ c.userAId = x ∧ c.userBId = y := by
  rw [Db.conversationsOf, List.mem_filter, Table.mem_rows_iff]
  exact and_congr_right fun _ => decide_eq_true_iff

/-- The conversations of a pair after the insertion of one. -/
theorem conversationsOf_add {c : Conversation} (hnew : db.conversations.get c.id = none)
    (x y : Id) : (db.addConversation c).conversationsOf x y =
      if c.userAId = x ∧ c.userBId = y then db.conversationsOf x y ++ [c]
      else db.conversationsOf x y := by
  unfold Db.conversationsOf Db.addConversation
  rw [Table.rows_insert hnew, List.filter_append]
  by_cases hpair : c.userAId = x ∧ c.userBId = y
  · simp [hpair]
  · simp [hpair]

/-- The canonical pair has the smaller id first. -/
theorem canonicalPair_lt {x y : Id} (hne : x ≠ y) :
    (canonicalPair x y).1 < (canonicalPair x y).2 := by
  unfold canonicalPair
  split
  · assumption
  · next h => exact Nat.lt_of_le_of_ne (Nat.le_of_not_lt h) hne.symm

/-- The canonical pair does not depend on the order of its users. -/
theorem canonicalPair_comm {x y : Id} : canonicalPair x y = canonicalPair y x := by
  unfold canonicalPair
  rcases Nat.lt_trichotomy x y with h | rfl | h
  · rw [if_pos h, if_neg (Nat.lt_asymm h)]
  · rfl
  · rw [if_neg (Nat.lt_asymm h), if_pos h]

/-- In the order that the CHECK requires, the conversations of the pair are those of the two
users. -/
theorem conversationsBetween_eq (hok : ConversationsOk db) :
    db.conversationsBetween a b =
      db.conversationsOf (canonicalPair a.id b.id).1 (canonicalPair a.id b.id).2 := by
  refine List.filter_congr fun c hc => decide_eq_decide.mpr ?_
  have hlt := hok.ordered c.id c (Table.mem_rows_iff.mp hc)
  unfold canonicalPair
  split
  · next h =>
    constructor
    · rintro (⟨h₁, h₂⟩ | ⟨h₁, h₂⟩)
      · exact ⟨h₁, h₂⟩
      · rw [h₁, h₂] at hlt
        exact absurd h (Nat.lt_asymm hlt)
    · exact .inl
  · next h =>
    constructor
    · rintro (⟨h₁, h₂⟩ | ⟨h₁, h₂⟩)
      · rw [h₁, h₂] at hlt
        exact absurd hlt h
      · exact ⟨h₁, h₂⟩
    · exact .inr

/-- A state keeps its own conversations. -/
theorem ConversationsKept.refl (s : Db) : ConversationsKept s s := fun _ _ h => h

/-- Conversations kept twice are kept. -/
theorem ConversationsKept.trans {s t v : Db} (hst : ConversationsKept s t)
    (htv : ConversationsKept t v) : ConversationsKept s v := fun id c h => htv id c (hst id c h)

/-- A conversation that is found is the only one of its pair. -/
theorem ConversationsOk.only (hok : ConversationsOk db) {x y : Id} {c : Conversation}
    (hc : c ∈ db.conversationsOf x y) : db.conversationsOf x y = [c] := by
  obtain ⟨c', hone⟩ := List.length_eq_one_iff.mp
    (Nat.le_antisymm (hok.pair x y) (List.length_pos_of_mem hc))
  rw [hone] at hc ⊢
  rw [List.mem_singleton.mp hc]

/-- The table of conversations after the insertion of one whose entry of the index was free. -/
theorem ConversationsOk.add (hok : ConversationsOk db) {c : Conversation}
    (hnew : db.conversations.get c.id = none) (hlt : c.userAId < c.userBId)
    (hfree : db.conversationsOf c.userAId c.userBId = []) :
    ConversationsOk (db.addConversation c) where
  ordered id c' hc' := by
    have hget := Table.get_insert hnew id
    rw [show (db.addConversation c).conversations = db.conversations.insert c from rfl, hget] at hc'
    split at hc'
    · obtain rfl := Option.some.inj hc'
      exact hlt
    · exact hok.ordered id c' hc'
  pair x y := by
    rw [conversationsOf_add hnew]
    split
    · next hpair =>
      rw [← hpair.1, ← hpair.2, hfree]
      exact le_refl 1
    · exact hok.pair x y

variable {R : Db → Db → Prop} {bad : Err → Prop} {env : Env} {caller peer : User}

/-- What a commit of the call keeps, does and leaves alone. -/
def PairOk (a b : User) (env : Env) (seen : Option Db) (facts : List (Key × Db)) (w : Db → Db)
    (c : Conversation) : Prop :=
  Sys.LookOk pairLocking (PairDb a b) (fun s => s.conversations.get (env.uuid4 0) = none)
    ConversationsKept (PairEffect a b env) seen facts w c

/-- A call returns the conversation it has found. -/
theorem pairOk_found {s₀ : Db} {c : Conversation}
    (hc : c ∈ s₀.conversationsOf (canonicalPair a.id b.id).1 (canonicalPair a.id b.id).2)
    (hallowed : eligible a b = true) : PairOk a b env (some s₀) [] id c := by
  intro s hI _ hkept _
  obtain ⟨hget, hpair⟩ := mem_conversationsOf.mp hc
  have hstill : s.conversations.get c.id = some c := hkept s₀ rfl c.id c hget
  have hone := hI.conversations.only (mem_conversationsOf.mpr ⟨hstill, hpair⟩)
  exact ⟨hI, ⟨ConversationsKept.refl s, hone, hallowed, fun _ h => .inl h⟩,
    fun key _ => pairLocking.refl key s⟩

/-- A call returns the conversation it has inserted. -/
theorem pairOk_inserted {seen : Option Db} {facts : List (Key × Db)} {s₁ : Db}
    (hne : a.id ≠ b.id) (hallowed : eligible a b = true)
    (hid : ∃ t, (.conversation (env.uuid4 0), t) ∈ facts)
    (hentry :
      (.conversationPair (canonicalPair a.id b.id).1 (canonicalPair a.id b.id).2, s₁) ∈ facts)
    (hfree : s₁.conversationsOf (canonicalPair a.id b.id).1 (canonicalPair a.id b.id).2 = []) :
    PairOk a b env seen facts
      (fun s => s.addConversation (newConversation env (canonicalPair a.id b.id)))
      (newConversation env (canonicalPair a.id b.id)) := by
  intro s hI hnew _ hknown
  have hnone : s.conversationsOf (canonicalPair a.id b.id).1 (canonicalPair a.id b.id).2 = [] :=
    (hknown _ hentry).trans hfree
  have hadd : ∀ x y,
      (s.addConversation (newConversation env (canonicalPair a.id b.id))).conversationsOf
      x y = if (canonicalPair a.id b.id).1 = x ∧ (canonicalPair a.id b.id).2 = y then
        s.conversationsOf x y ++ [newConversation env (canonicalPair a.id b.id)]
      else s.conversationsOf x y := fun x y => conversationsOf_add hnew x y
  have hothers : ∀ id, id ≠ env.uuid4 0 →
      (s.addConversation (newConversation env (canonicalPair a.id b.id))).conversations.get id =
        s.conversations.get id := fun id hne => Table.get_insert_of_ne _ hne
  refine ⟨⟨⟨hI.first.row, hI.first.isActive, hI.first.deletedAt⟩,
    ⟨hI.second.row, hI.second.isActive, hI.second.deletedAt⟩,
    hI.conversations.add hnew (canonicalPair_lt hne) hnone⟩, ⟨fun id c hc => ?_, ?_, hallowed,
    fun id hne' => ?_⟩, fun key hkey => ?_⟩
  · rw [hothers id, hc]
    rintro rfl
    rw [hnew] at hc
    cases hc
  · rw [hadd, if_pos ⟨rfl, rfl⟩, hnone, List.nil_append]
  · by_cases heq : id = env.uuid4 0
    · exact .inr heq
    · rw [hothers id heq] at hne'
      exact .inl hne'
  · cases key with
    | conversation id =>
      obtain ⟨t, ht⟩ := hid
      refine hothers id ?_
      rintro rfl
      exact hkey _ ht rfl
    | conversationPair x y =>
      refine (hadd x y).trans (if_neg ?_)
      rintro ⟨rfl, rfl⟩
      exact hkey _ hentry rfl
    | _ => trivial

/-- The users of the pair are there for the foreign keys. -/
theorem PairDb.users (hI : PairDb a b db) :
    db.users.get (canonicalPair a.id b.id).1 ≠ none ∧
      db.users.get (canonicalPair a.id b.id).2 ≠ none := by
  have ha : db.users.get a.id ≠ none := by
    rw [hI.first.row]
    exact Option.some_ne_none a
  have hb : db.users.get b.id ≠ none := by
    rw [hI.second.row]
    exact Option.some_ne_none b
  unfold canonicalPair
  split
  · exact ⟨ha, hb⟩
  · exact ⟨hb, ha⟩

/-- `create_conversation` by one of the two users for the other one. -/
theorem createConversation_looks (hne : a.id ≠ b.id)
    (hallowed : eligible caller peer = eligible a b)
    (hpair : canonicalPair caller.id peer.id = canonicalPair a.id b.id)
    (hcaller : caller.id ≠ peer.id) (hpeer : ∀ s, PairDb a b s → ActiveUser s peer)
    (hbad : eligible a b = false → ¬bad conversationIneligible)
    (hR : ∀ s t, R s t →
      s.conversationsOf (canonicalPair a.id b.id).1 (canonicalPair a.id b.id).2 = [] →
      t.conversationsOf (canonicalPair a.id b.id).1 (canonicalPair a.id b.id).2 = []) :
    (createConversation env caller peer.id).wpLook pairLocking
      (fun s => PairDb a b s ∧ s.conversations.get (env.uuid4 0) = none) ConversationsKept R bad
      (PairOk a b env) none [] id := by
  -- what follows the check, whatever it has seen
  have hopen : eligible a b = true → ∀ seen, (openConversation env (canonicalPair a.id b.id)).wpLook
      pairLocking (fun s => PairDb a b s ∧ s.conversations.get (env.uuid4 0) = none)
      ConversationsKept R bad (PairOk a b env) seen [] id := by
    intro heligible seen
    simp only [openConversation, bind_eq, wpLook_bind, wpLook_read, id_eq]
    rintro s₀ ⟨hI, -⟩ -
    rcases hfound : s₀.conversationsOf (canonicalPair a.id b.id).1 (canonicalPair a.id b.id).2
      with _ | ⟨c, rest⟩
    · simp only [scalarOneOrNone, pure_eq, wpLook_ret, insertConversation, reserve, bind_eq,
        wpLook_bind, wpLook_raiseIf, wpLook_acquire, wpLook_read, wpLook_modify, id_eq]
      refine ⟨fun hlt => absurd (canonicalPair_lt hne) hlt, fun _ s₁ hs₁ _ _ => ?_⟩
      refine ⟨fun htaken => ?_, fun _ s₂ _ hseen _ => ?_⟩
      · simp [newConversation, hs₁.2] at htaken
      · have hfree := hR s₀ s₂ (hseen s₀ rfl).2 hfound
        refine ⟨fun htaken => absurd hfree (of_decide_eq_true htaken), fun _ s₃ hs₃ _ => ?_⟩
        refine ⟨fun hnone => absurd hnone hs₃.1.users.1, fun _ => ?_⟩
        refine ⟨fun hnone => absurd hnone hs₃.1.users.2, fun _ => ?_⟩
        exact pairOk_inserted hne heligible ⟨s₁, by simp [newConversation]⟩
          (by simp [newConversation]) hfree
    · have hmem : c ∈ s₀.conversationsOf (canonicalPair a.id b.id).1
          (canonicalPair a.id b.id).2 := by simp [hfound]
      have hone := hI.conversations.only hmem
      rw [hfound] at hone
      obtain ⟨-, rfl⟩ := List.cons.inj hone
      exact pairOk_found hmem heligible
  unfold createConversation canConverse
  rw [if_neg hcaller, hpair]
  by_cases hadmin : caller.role = .admin
  · have heligible : eligible a b = true := by rw [← hallowed, eligible, if_pos hadmin]
    rw [if_pos hadmin]
    simp only [bind_eq, wpLook_bind, pure_eq, wpLook_ret, wpLook_raiseIf]
    exact ⟨fun h => (nomatch h), fun _ => hopen heligible none⟩
  · have hchecked : eligible a b = mayConverseWith caller peer := by
      rw [← hallowed, eligible, if_neg hadmin]
    rw [if_neg hadmin]
    simp only [bind_eq, wpLook_bind, wpLook_read, pure_eq, wpLook_ret, wpLook_raiseIf, id_eq]
    rintro s ⟨hI, -⟩ -
    rw [peer_found (hpeer s hI), ← hchecked]
    exact ⟨fun h => hbad h, fun h => hopen (by simpa using h) (some s)⟩

end Program

/-! ### In every interleaving -/

section Interleaving

variable {ι : Type} {a b : User} {calls : ι → PairCall} {db : Db}

/-- A call of the pair among the others. -/
theorem PairCall.looks (hne : a.id ≠ b.id) (c : PairCall) :
    (c.exec a b).wpLook pairLocking
      (fun s => PairDb a b s ∧ s.conversations.get (c.env.uuid4 0) = none) ConversationsKept
      (fun s t => s.conversationsOf (canonicalPair a.id b.id).1 (canonicalPair a.id b.id).2 = [] →
        t.conversationsOf (canonicalPair a.id b.id).1 (canonicalPair a.id b.id).2 = [])
      (fun e => ¬(e = conversationIneligible ∧ eligible a b = false)) (PairOk a b c.env)
      none [] id := by
  unfold PairCall.exec
  split
  · exact createConversation_looks hne rfl rfl hne (fun s hI => hI.second)
      (fun h hbad => hbad ⟨rfl, h⟩) fun _ _ h => h
  · exact createConversation_looks hne (eligible_comm b a) canonicalPair_comm hne.symm
      (fun s hI => hI.first) (fun h hbad => hbad ⟨rfl, h⟩) fun _ _ h => h

/-- Every call that has committed has returned the conversation of the pair. -/
theorem reply_of_commits {t : Db} {log : List (ι × Conversation)}
    (h : Sys.Commits (fun i => PairEffect a b (calls i).env) db log t) :
    ∀ e ∈ log, eligible a b = true ∧
      t.conversationsOf (canonicalPair a.id b.id).1 (canonicalPair a.id b.id).2 = [e.2] := by
  induction h with
  | nil => exact fun e he => (List.not_mem_nil he).elim
  | @snoc log s t i c _ hcommit ih =>
    intro e he
    rcases List.mem_append.mp he with he | he
    · obtain ⟨hallowed, hone⟩ := ih e he
      have hmem :
          e.2 ∈ s.conversationsOf (canonicalPair a.id b.id).1 (canonicalPair a.id b.id).2 := by
        simp [hone]
      obtain ⟨hget, hpair⟩ := mem_conversationsOf.mp hmem
      have hstill := mem_conversationsOf.mpr ⟨hcommit.kept _ _ hget, hpair⟩
      rw [hcommit.reply] at hstill
      rw [List.mem_singleton.mp hstill]
      exact ⟨hallowed, hcommit.reply⟩
    · obtain rfl := List.mem_singleton.mp he
      exact ⟨hcommit.allowed, hcommit.reply⟩

end Interleaving

/-- **One conversation for a pair.** In every run of calls of two active users for each other, of
which none commits the first conversation of the pair while another one, having looked it up in
vain, is about to insert it, every call that is allowed returns the same conversation, which is the
only one of the pair. -/
theorem one_conversation {ι : Type} [DecidableEq ι] (a b : User) (hne : a.id ≠ b.id)
    (calls : ι → PairCall) {db : Db} (ha : ActiveUser db a) (hb : ActiveUser db b)
    (hok : ConversationsOk db) (hfresh : FreshConversationIds calls db)
    {t : Sys ι Db Key Err Conversation}
    (h : Sys.StepsIf (LookupsApart a b) (Sys.init db fun i => (calls i).exec a b) t) :
    OneConversation a b t := by
  have hdb : PairDb a b db := ⟨ha, hb, hok⟩
  have hlooks := h.looks (L := pairLocking) (I := PairDb a b) (G := ConversationsKept)
    (S := fun i s => s.conversations.get ((calls i).env.uuid4 0) = none)
    (R := fun _ s t =>
      s.conversationsOf (canonicalPair a.id b.id).1 (canonicalPair a.id b.id).2 = [] →
      t.conversationsOf (canonicalPair a.id b.id).1 (canonicalPair a.id b.id).2 = [])
    (Q := fun i => PairEffect a b (calls i).env)
    (B := fun _ e => ¬(e = conversationIneligible ∧ eligible a b = false))
    ConversationsKept.refl (fun _ _ _ => ConversationsKept.trans) (fun _ _ h => h)
    (fun _ _ _ _ hst htu h => htu (hst h)) hdb (fun i => (calls i).looks hne) ?_
  · obtain ⟨hI, hcommits, hraised⟩ := hlooks
    have hfirst := canConverse_run hne hI.second
    have hsecond := canConverse_run hne.symm hI.first
    refine ⟨?_, fun i e hi => ?_, fun e he => ?_⟩
    · rw [hfirst, hsecond, eligible_comm]
    · obtain ⟨rfl, hnot⟩ := not_not.mp (hraised i e hi)
      exact ⟨rfl, by rw [hfirst, hnot]⟩
    · obtain ⟨hallowed, hone⟩ := reply_of_commits hcommits e he
      have hmem : e.2 ∈ t.db.conversationsOf (canonicalPair a.id b.id).1
          (canonicalPair a.id b.id).2 := by simp [hone]
      refine ⟨by rw [hfirst, hallowed], ?_, ?_⟩
      · rw [conversationsBetween_eq hI.conversations, hone]
      · exact hI.conversations.ordered _ _ (mem_conversationsOf.mp hmem).1
  · intro i s t hst hapart hI hlogged hcommits hcommit
    -- the drawn id could only be there because of this very call
    have hrunning : ∃ w q, s.txn i = .running w q := by
      cases hst <;> exact ⟨_, _, ‹_›⟩
    have hown : s.db.conversations.get ((calls i).env.uuid4 0) = none := by
      by_contra htaken
      have horigin := hcommits.origin (T := fun db id => db.conversations.get id ≠ none)
        (N := fun i id => id = (calls i).env.uuid4 0) (fun i c s t id h => h.created id) htaken
      rcases horigin with hne' | ⟨⟨j, c⟩, hmem, heq⟩
      · exact hne' (hfresh.unused i)
      · obtain rfl := hfresh.distinct i j heq
        obtain ⟨w, q, hi⟩ := hrunning
        rw [hlogged i c hmem] at hi
        cases hi
    refine ⟨hown, ?_, fun j hj hlocks hnone => ?_⟩
    · cases hst with
      | commit hi => exact (hcommit _ _ hi hown).kept
      | _ => exact ConversationsKept.refl _
    · cases hst with
      | @commit w c hi =>
        rw [← conversationsBetween_eq hI.conversations] at hnone
        exact absurd hlocks (hapart ⟨w, c, hi⟩ hnone j hj)
      | _ => exact hnone

namespace Sample

def buyer : User := { id := 1, role := .customer, referringSellerId := some 2 }

def shop : User := { id := 2, role := .seller }

/-- A server with a seller and a customer that the seller has referred. -/
def introduced : Db := { users := ((∅ : Table User User.id).insert buyer).insert shop }

/-- The first sample user is active. -/
theorem introduced_first : ActiveUser introduced buyer := ⟨by decide, rfl, rfl⟩

/-- The second sample user is active. -/
theorem introduced_second : ActiveUser introduced shop := ⟨by decide, rfl, rfl⟩

/-- The sample database has no conversation out of order. -/
theorem introduced_conversations : ConversationsOk introduced where
  ordered _ _ h := nomatch h
  pair _ _ := Nat.zero_le 1

/-- A call of each of the two. -/
def pairCalls (i : Fin 2) : PairCall where
  byFirst := i = 0
  env := { now := fun _ => 10, transactionNow := 10, uuid4 := fun _ => 20 + i, randbelow := 0 }

/-- The sample calls use ids that nothing has. -/
theorem pairCalls_fresh : FreshConversationIds pairCalls introduced where
  unused := by decide
  distinct := by decide

/-- The transactions of these calls. -/
def conversing (i : Fin 2) : Tx Conversation := (pairCalls i).exec buyer shop

end Sample

/-- The two users call one after the other. -/
theorem one_conversation_in_turn :
    Sample.buyer.id ≠ Sample.shop.id ∧ FreshConversationIds Sample.pairCalls Sample.introduced ∧
    ∃ t, Sys.StepsIf (LookupsApart Sample.buyer Sample.shop)
        (Sys.init Sample.introduced Sample.conversing) t ∧ t.log.map Prod.fst = [0, 1] ∧
      OneConversation Sample.buyer Sample.shop t := by
  refine ⟨by decide, Sample.pairCalls_fresh, ?_⟩
  have hapart : ∀ (s : Sys (Fin 2) Db Key Err Conversation) i t, i ∈ [0, 1] →
      (∀ j, j ≠ i → Sys.Idle Sample.conversing s j) →
      LookupsApart Sample.buyer Sample.shop s i t := by
    intro s i t _ hidle _ _ j hj hway
    obtain ⟨w, q, hrunning, hlocks⟩ := hway
    rcases hidle j hj with hwaits | ⟨r, hcommitted⟩
    · rw [hwaits] at hrunning
      cases hrunning
      match j with
      | 0 => exact hlocks
      | 1 => exact hlocks
    · rw [hcommitted] at hrunning
      cases hrunning
  obtain ⟨t, ht, -, hlog⟩ := Sys.stepsIf_init_of_serial Sample.conversing Sample.introduced
    [0, 1] hapart (by decide) (by decide +kernel)
  exact ⟨t, ht, hlog, one_conversation Sample.buyer Sample.shop (by decide) Sample.pairCalls
    Sample.introduced_first Sample.introduced_second Sample.introduced_conversations
    Sample.pairCalls_fresh ht⟩

/-- Both users look the conversation up before either has inserted it, and one of the two calls
fails although it is allowed. -/
theorem conversation_raced :
    FreshConversationIds Sample.pairCalls Sample.introduced ∧
    ∃ t, Sys.Steps (Sys.init Sample.introduced Sample.conversing) t ∧
      t.txn 0 = .aborted (some (.integrity "uq_conversations_user_pair")) ∧
      ¬OneConversation Sample.buyer Sample.shop t := by
  refine ⟨Sample.pairCalls_fresh, ?_⟩
  have hreads : (Sample.conversing 0).selects Sample.introduced 2 = true := by decide +kernel
  obtain ⟨c, hrun⟩ := run_of_session (p := Sample.conversing 1) (s := Sample.introduced)
    (by decide +kernel)
  have hrest : ((Sample.conversing 0).afterSelects Sample.introduced 2).run
      ((Sample.conversing 1).session Sample.introduced).2 =
      .error (.integrity "uq_conversations_user_pair") :=
    run_of_session_error (by decide +kernel)
  obtain ⟨t, ht, htxn, -, -⟩ := Sys.refused_of_run (i := 0) (j := 1) (by decide) hreads hrun hrest
  refine ⟨t, ht, htxn, fun h => ?_⟩
  obtain ⟨heq, -⟩ := h.returns 0 _ htxn
  cases heq

end Marketplace
