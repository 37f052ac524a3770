import Marketplace.Lib.Rely

/-!
# Transactions over a database that only grows

When every commit respects a relation `R`, what a statement has seen bounds whatever is committed
later. `Txn.wpGrow` is a weakest precondition that keeps this knowledge, that may assume `A` where
a lock is granted, and that asks of every error that the database does not make it a bad one.
`Sys.StepsIf.raises` concludes that the invariant holds and that no bad error is raised in an
interleaving in which every lock is granted under `A`.
-/

namespace Marketplace.Lib

section Logic

variable {σ κ ε α β : Type} (L : Locking σ κ) (I : σ → Prop) (R : σ → σ → Prop)
  (A : κ → σ → Prop) (B : σ → ε → Prop)

/-- The weakest precondition of a program for `Post`, over what it knows of the committed database,
the rows it has locked and its pending changes. -/
def Txn.wpGrow : Txn σ κ ε α → ((σ → Prop) → List (κ × σ) → (σ → σ) → α → Prop) →
    (σ → Prop) → List (κ × σ) → (σ → σ) → Prop
  | .ret a, Post, K, facts, w => Post K facts w a
  | .raise e, _, K, facts, _ => ∀ s, I s → K s → L.Known facts s → ¬B s e
  | .select k, Post, K, facts, w =>
    ∀ s, I s → K s → L.Known facts s → (k (w s)).wpGrow Post (fun t => K t ∧ R s t) facts w
  | .lock key k, Post, K, facts, w =>
    ∀ s, I s → K s → L.Known facts s → A key s →
      (k (w s)).wpGrow Post (fun t => K t ∧ R s t) ((key, s) :: facts) w
  | .skipLocked key k, Post, K, facts, w =>
    (∀ s, I s → K s → L.Known facts s → A key s →
      (k (some (w s))).wpGrow Post (fun t => K t ∧ R s t) ((key, s) :: facts) w) ∧
      (k none).wpGrow Post K facts w
  | .write f k, Post, K, facts, w => k.wpGrow Post K facts (f ∘ w)

variable {L I R A B} {K : σ → Prop} {facts : List (κ × σ)} {w : σ → σ}

namespace Txn

/-- The rule of composition. -/
@[simp] theorem wpGrow_bind {p : Txn σ κ ε α} {f : α → Txn σ κ ε β}
    {Post : (σ → Prop) → List (κ × σ) → (σ → σ) → β → Prop} :
    (p.bind f).wpGrow L I R A B Post K facts w ↔
      p.wpGrow L I R A B
        (fun K' facts' w' a => (f a).wpGrow L I R A B Post K' facts' w') K facts w := by
  induction p generalizing K facts w with
  | ret a => rfl
  | raise e => rfl
  | select k ih =>
    exact forall_congr' fun s => imp_congr_right fun _ => imp_congr_right fun _ =>
      imp_congr_right fun _ => ih _
  | lock key k ih =>
    exact forall_congr' fun s => imp_congr_right fun _ => imp_congr_right fun _ =>
      imp_congr_right fun _ => imp_congr_right fun _ => ih _
  | skipLocked key k ih =>
    refine and_congr ?_ (ih none)
    exact forall_congr' fun s => imp_congr_right fun _ => imp_congr_right fun _ =>
      imp_congr_right fun _ => imp_congr_right fun _ => ih _
  | write g k ih => exact ih

section Statements

variable {Post : (σ → Prop) → List (κ × σ) → (σ → σ) → α → Prop}

/-- The rule of `ret`: the postcondition holds of the value. -/
@[simp] theorem wpGrow_ret {a : α} :
    (ret a : Txn σ κ ε α).wpGrow L I R A B Post K facts w ↔ Post K facts w a := Iff.rfl

/-- The rule of `raise`: the error is none that is excluded. -/
@[simp] theorem wpGrow_raise {e : ε} :
    (raise e : Txn σ κ ε α).wpGrow L I R A B Post K facts w ↔
      ∀ s, I s → K s → L.Known facts s → ¬B s e := Iff.rfl

/-- The rule of `read`: the states from here on are related to the one read. -/
@[simp] theorem wpGrow_read {Post : (σ → Prop) → List (κ × σ) → (σ → σ) → σ → Prop} :
    (read : Txn σ κ ε σ).wpGrow L I R A B Post K facts w ↔
      ∀ s, I s → K s → L.Known facts s → Post (fun t => K t ∧ R s t) facts w (w s) := Iff.rfl

/-- The rule of `acquire`: the locked row becomes a known fact. -/
@[simp] theorem wpGrow_acquire {key : κ}
    {Post : (σ → Prop) → List (κ × σ) → (σ → σ) → σ → Prop} :
    (acquire key : Txn σ κ ε σ).wpGrow L I R A B Post K facts w ↔
      ∀ s, I s → K s → L.Known facts s → A key s →
        Post (fun t => K t ∧ R s t) ((key, s) :: facts) w (w s) := Iff.rfl

/-- The rule of `modify`: the write joins the own writes. -/
@[simp] theorem wpGrow_modify {f : σ → σ}
    {Post : (σ → Prop) → List (κ × σ) → (σ → σ) → Unit → Prop} :
    (modify f : Txn σ κ ε Unit).wpGrow L I R A B Post K facts w ↔ Post K facts (f ∘ w) () := Iff.rfl

/-- The rule of `updateRow`: the row is locked and the write joins the own writes. -/
@[simp] theorem wpGrow_updateRow {key : κ} {f : σ → σ}
    {Post : (σ → Prop) → List (κ × σ) → (σ → σ) → Unit → Prop} :
    (updateRow key f : Txn σ κ ε Unit).wpGrow L I R A B Post K facts w ↔
      ∀ s, I s → K s → L.Known facts s → A key s →
        Post (fun t => K t ∧ R s t) ((key, s) :: facts) (f ∘ w) () := Iff.rfl

/-- The rule of `raiseIf`: the error is not excluded, or the condition is false. -/
@[simp] theorem wpGrow_raiseIf {c : Prop} [Decidable c] {e : ε}
    {Post : (σ → Prop) → List (κ × σ) → (σ → σ) → Unit → Prop} :
    (raiseIf c e : Txn σ κ ε Unit).wpGrow L I R A B Post K facts w ↔
      (c → ∀ s, I s → K s → L.Known facts s → ¬B s e) ∧ (¬c → Post K facts w ()) := by
  by_cases h : c
  · simp [raiseIf, h]
  · simp [raiseIf, h]

/-- The rule of `getOrRaise`: the error is not excluded, or there is a value. -/
@[simp] theorem wpGrow_getOrRaise {x : Option α} {e : ε} :
    (getOrRaise x e : Txn σ κ ε α).wpGrow L I R A B Post K facts w ↔
      (x = none → ∀ s, I s → K s → L.Known facts s → ¬B s e) ∧
        ∀ a, x = some a → Post K facts w a := by
  cases x with
  | none => simp [getOrRaise]
  | some a => simp [getOrRaise]

/-- The rule of a branch: each side under its condition. -/
@[simp] theorem wpGrow_ite {c : Prop} [Decidable c] {p q : Txn σ κ ε α} :
    (if c then p else q).wpGrow L I R A B Post K facts w ↔
      (c → p.wpGrow L I R A B Post K facts w) ∧ (¬c → q.wpGrow L I R A B Post K facts w) := by
  by_cases h : c
  · simp [h]
  · simp [h]

end Statements

/-- A program that behaves well from its first statement on, if the database only grows. -/
structure Grows (L : Locking σ κ) (I : σ → Prop) (R : σ → σ → Prop) (A : κ → σ → Prop)
    (B : σ → ε → Prop) (Q : α → σ → σ → Prop) (p : Txn σ κ ε α) : Prop where
  wp : p.wpGrow L I R A B (RelyOk L I Q) (fun _ => True) [] id

/-- The lock that the next statement of the program asks for. -/
def asked : Txn σ κ ε α → Option κ
  | .lock key _ => some key
  | .skipLocked key _ => some key
  | _ => none

end Txn

end Logic

/-! ### Interleavings -/

namespace Sys

variable {ι σ κ ε α : Type} [DecidableEq ι] [DecidableEq κ] {L : Locking σ κ} {I : σ → Prop}
  {p : ι → Txn σ κ ε α} {R : σ → σ → Prop} {A : ι → κ → σ → Prop} {B : ι → σ → ε → Prop}
  {Q : ι → α → σ → σ → Prop}

/-- Whatever lock transaction `i` asks for next, its assumption holds of the database. -/
def Granted (A : κ → σ → Prop) (s : Sys ι σ κ ε α) (i : ι) : Prop :=
  ∀ w q key, s.txn i = .running w q → q.asked = some key → A key s.db

/-- That a transaction behaves well from here on, if the database only grows. -/
def grows (L : Locking σ κ) (I : σ → Prop) (R : σ → σ → Prop) (A : κ → σ → Prop)
    (B : σ → ε → Prop) (Q : α → σ → σ → Prop) : Assertion σ κ ε α := fun db facts w q =>
  ∃ K : σ → Prop, K db ∧ (∀ s t, K s → R s t → K t) ∧
    q.wpGrow L I R A B (RelyOk L I Q) K facts w

omit [DecidableEq κ] in
/-- The next statement of the transaction. -/
theorem grows_afterStatement {A : κ → σ → Prop} {B : σ → ε → Prop} {Q : α → σ → σ → Prop}
    (hrefl : ∀ s, R s s) (htrans : ∀ s t u, R s t → R t u → R s u) {db : σ}
    {facts : List (κ × σ)} {w : σ → σ} {q : Txn σ κ ε α} (hI : I db) (hknown : L.Known facts db)
    (hA : ∀ key, q.asked = some key → A key db) (h : grows L I R A B Q db facts w q) :
    Assertion.AfterStatement (grows L I R A B Q) db facts w q := by
  obtain ⟨K, hdb, hK, hwp⟩ := h
  have hmore := known_stable htrans hK db
  cases q with
  | ret a => trivial
  | raise e => trivial
  | select k => exact ⟨_, ⟨hdb, hrefl db⟩, hmore, hwp db hI hdb hknown⟩
  | lock key k => exact ⟨_, ⟨hdb, hrefl db⟩, hmore, hwp db hI hdb hknown (hA key rfl)⟩
  | skipLocked key k =>
    exact ⟨⟨_, ⟨hdb, hrefl db⟩, hmore, hwp.1 db hI hdb hknown (hA key rfl)⟩, ⟨K, hdb, hK, hwp.2⟩⟩
  | write f k => exact ⟨K, hdb, hK, hwp⟩

/-- What holds in every interleaving whose locks are granted under the assumptions. -/
structure Grown (L : Locking σ κ) (I : σ → Prop) (R : σ → σ → Prop) (A : ι → κ → σ → Prop)
    (B : ι → σ → ε → Prop) (Q : ι → α → σ → σ → Prop) (t : Sys ι σ κ ε α) : Prop where
  holds : Holds L I (fun i => grows L I R (A i) (B i) (Q i)) t
  raised : ∀ i e, t.txn i = .aborted (some e) → ¬B i t.db e

omit [DecidableEq ι] [DecidableEq κ] in
/-- The effect of a commit. -/
theorem Grown.commit {s : Sys ι σ κ ε α} {i : ι} (h : Grown L I R A B Q s) {w : σ → σ} {a : α}
    (hi : s.txn i = .running w (.ret a)) :
    I (w s.db) ∧ Q i a s.db (w s.db) ∧
      ∀ key j, j ≠ i → s.owner key = some j → L.agree key s.db (w s.db) := by
  obtain ⟨facts, hheld, hknown, K, hdb, -, hwp⟩ := h.holds.txn i w _ hi
  obtain ⟨hI, hQ, hframe⟩ := hwp s.db h.holds.db hdb hknown
  refine ⟨hI, hQ, fun key j hj hown => hframe key ?_⟩
  rintro f hf rfl
  have hi' := hheld f hf
  rw [hi'] at hown
  exact hj (Option.some.inj hown).symm

variable (hrefl : ∀ s, R s s) (htrans : ∀ s t u, R s t → R t u → R s u)
  (hQ : ∀ i a s t, Q i a s t → R s t) (hB : ∀ i s t e, R s t → B i t e → B i s e)

include hrefl htrans hQ hB

/-- A step that is granted keeps the system grown. -/
theorem Grown.step {s t : Sys ι σ κ ε α} {i : ι} (h : Grown L I R A B Q s) (hst : Step i s t)
    (hA : Granted (A i) s i) : Grown L I R A B Q t := by
  have hgrows : R s.db t.db := by
    cases hst with
    | commit hi => exact hQ i _ _ _ (h.commit hi).2.1
    | _ => exact hrefl _
  refine ⟨h.holds.step_of hst ?_ ?_, fun j e hj hbad => ?_⟩
  · intro facts w q hi hknown hrun
    exact grows_afterStatement hrefl htrans h.holds.db hknown (fun key => hA w q key hi) hrun
  · intro w a hi ht
    obtain ⟨hI, -, hframe⟩ := h.commit hi
    refine ⟨hI, hframe, fun j _ facts w' q _ hrun => ?_⟩
    obtain ⟨K, hdb, hK, hwp⟩ := hrun
    rw [ht] at hgrows
    exact ⟨K, hK _ _ hdb hgrows, hK, hwp⟩
  · -- an error that is bad now was bad before, so it has been raised just now
    have hbad' := hB j _ _ e hgrows hbad
    by_cases hji : j = i
    · subst hji
      cases hst with
      | @raise w e' hi =>
        obtain rfl : e' = e := by simpa [Sys.abort] using hj
        obtain ⟨facts, -, hknown, K, hdb, -, hwp⟩ := h.holds.txn j _ _ hi
        exact hwp _ h.holds.db hdb hknown hbad'
      | kill _ => simp [Sys.abort] at hj
      | commit _ => simp [Sys.commit] at hj
      | _ => simp [Sys.goto] at hj
    · exact h.raised j e (by rw [← hst.other hji, hj]) hbad'

/-- In an interleaving whose locks are granted under the assumptions, the invariant holds and no
bad error is raised. -/
theorem StepsIf.raises {db : σ} {C : Sys ι σ κ ε α → ι → Sys ι σ κ ε α → Prop}
    {t : Sys ι σ κ ε α} (hI : I db)
    (hp : ∀ i, (p i).Grows L I R (A i) (B i) (Q i))
    (hC : ∀ s i t, C s i t → Granted (A i) s i) (h : StepsIf C (init db p) t) :
    Grown L I R A B Q t := by
  have hinit : Grown L I R A B Q (init db p) := by
    refine ⟨holds_init hI fun i => ?_, fun i e hi => ?_⟩
    · exact ⟨fun _ => True, trivial, fun _ _ _ _ => trivial, (hp i).wp⟩
    · simp [init] at hi
  exact h.preserve (fun hst hif hs => hs.step hrefl htrans hQ hB hst (hC _ _ _ hif)) hinit

end Sys

end Marketplace.Lib
