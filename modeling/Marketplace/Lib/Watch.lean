import Marketplace.Lib.Settle

/-!
# What a transaction watches from its look-up on

A program looks something up with a plain `SELECT`, changes rows for which it waits, and commits
or is refused by what it finds under the locks. `Txn.wpWatch` is a weakest precondition for a
program that relies on a relation `R` between the database its last look-up has seen and every
one that is committed until the program ends, and that raises no bad error.
`Sys.StepsIf.watches` reduces a property of the interleavings in which the other commits respect
`R` to one such condition for each program.
-/

namespace Marketplace.Lib

section Logic

variable {σ κ ε α β : Type} (L : Locking σ κ) (J : σ → Prop) (R : σ → σ → Prop) (B : ε → Prop)

/-- The weakest precondition of a program for `Post`, over what its last look-up has seen, the rows
it has locked and its pending changes. Each statement sees a database with `J`. -/
def Txn.wpWatch : Txn σ κ ε α → (Option σ → List (κ × σ) → (σ → σ) → α → Prop) → Option σ →
    List (κ × σ) → (σ → σ) → Prop
  | .ret a, Post, seen, facts, w => Post seen facts w a
  | .raise e, _, _, _, _ => ¬B e
  | .select k, Post, _, facts, w =>
    ∀ s, J s → L.Known facts s → (k (w s)).wpWatch Post (some s) facts w
  | .lock key k, Post, seen, facts, w =>
    ∀ s, J s → (∀ s₀ ∈ seen, R s₀ s) → L.Known facts s →
      (k (w s)).wpWatch Post seen ((key, s) :: facts) w
  | .skipLocked key k, Post, seen, facts, w =>
    (∀ s, J s → (∀ s₀ ∈ seen, R s₀ s) → L.Known facts s →
      (k (some (w s))).wpWatch Post seen ((key, s) :: facts) w) ∧
      (k none).wpWatch Post seen facts w
  | .write f k, Post, seen, facts, w => k.wpWatch Post seen facts (f ∘ w)

variable {L J R B} {seen : Option σ} {facts : List (κ × σ)} {w : σ → σ}

namespace Txn

/-- The rule of composition. -/
@[simp] theorem wpWatch_bind {p : Txn σ κ ε α} {f : α → Txn σ κ ε β}
    {Post : Option σ → List (κ × σ) → (σ → σ) → β → Prop} :
    (p.bind f).wpWatch L J R B Post seen facts w ↔
      p.wpWatch L J R B
        (fun seen' facts' w' a => (f a).wpWatch L J R B Post seen' facts' w') seen facts w := by
  induction p generalizing seen facts w with
  | ret a => rfl
  | raise e => rfl
  | select k ih =>
    exact forall_congr' fun s => imp_congr_right fun _ => imp_congr_right fun _ => ih _
  | lock key k ih =>
    exact forall_congr' fun s => imp_congr_right fun _ => imp_congr_right fun _ =>
      imp_congr_right fun _ => ih _
  | skipLocked key k ih =>
    refine and_congr ?_ (ih none)
    exact forall_congr' fun s => imp_congr_right fun _ => imp_congr_right fun _ =>
      imp_congr_right fun _ => ih _
  | write g k ih => exact ih

section Statements

variable {Post : Option σ → List (κ × σ) → (σ → σ) → α → Prop}

/-- The rule of `ret`: the postcondition holds of the value. -/
@[simp] theorem wpWatch_ret {a : α} :
    (ret a : Txn σ κ ε α).wpWatch L J R B Post seen facts w ↔ Post seen facts w a := Iff.rfl

/-- The rule of `raise`: the error is none that is excluded. -/
@[simp] theorem wpWatch_raise {e : ε} :
    (raise e : Txn σ κ ε α).wpWatch L J R B Post seen facts w ↔ ¬B e := Iff.rfl

/-- The rule of `read`: the state read is the one watched. -/
@[simp] theorem wpWatch_read {Post : Option σ → List (κ × σ) → (σ → σ) → σ → Prop} :
    (read : Txn σ κ ε σ).wpWatch L J R B Post seen facts w ↔
      ∀ s, J s → L.Known facts s → Post (some s) facts w (w s) := Iff.rfl

/-- The rule of `acquire`: the locked row becomes a known fact. -/
@[simp] theorem wpWatch_acquire {key : κ}
    {Post : Option σ → List (κ × σ) → (σ → σ) → σ → Prop} :
    (acquire key : Txn σ κ ε σ).wpWatch L J R B Post seen facts w ↔
      ∀ s, J s → (∀ s₀ ∈ seen, R s₀ s) → L.Known facts s →
        Post seen ((key, s) :: facts) w (w s) := Iff.rfl

/-- The rule of `updateRow`: the row is locked and the write joins the own writes. -/
@[simp] theorem wpWatch_updateRow {key : κ} {f : σ → σ}
    {Post : Option σ → List (κ × σ) → (σ → σ) → Unit → Prop} :
    (updateRow key f : Txn σ κ ε Unit).wpWatch L J R B Post seen facts w ↔
      ∀ s, J s → (∀ s₀ ∈ seen, R s₀ s) → L.Known facts s →
        Post seen ((key, s) :: facts) (f ∘ w) () := Iff.rfl

/-- The rule of `modify`: the write joins the own writes. -/
@[simp] theorem wpWatch_modify {f : σ → σ}
    {Post : Option σ → List (κ × σ) → (σ → σ) → Unit → Prop} :
    (modify f : Txn σ κ ε Unit).wpWatch L J R B Post seen facts w ↔
      Post seen facts (f ∘ w) () := Iff.rfl

/-- The rule of `raiseIf`: the error is not excluded, or the condition is false. -/
@[simp] theorem wpWatch_raiseIf {c : Prop} [Decidable c] {e : ε}
    {Post : Option σ → List (κ × σ) → (σ → σ) → Unit → Prop} :
    (raiseIf c e : Txn σ κ ε Unit).wpWatch L J R B Post seen facts w ↔
      (c → ¬B e) ∧ (¬c → Post seen facts w ()) := by
  by_cases h : c
  · simp [raiseIf, h]
  · simp [raiseIf, h]

/-- An error that is not bad may be raised for want of a row. -/
theorem wpWatch_getOrRaise {x : Option α} {e : ε} (he : ¬B e)
    (h : ∀ a, x = some a → Post seen facts w a) :
    (getOrRaise x e : Txn σ κ ε α).wpWatch L J R B Post seen facts w := by
  cases x with
  | none => exact he
  | some a => exact h a rfl

end Statements

/-- The next statement of the program is a plain `SELECT`. -/
def Selects : Txn σ κ ε α → Prop
  | .select _ => True
  | _ => False

end Txn

end Logic

/-! ### Interleavings -/

namespace Sys

variable {ι σ κ ε α : Type} [DecidableEq ι] [DecidableEq κ] {L : Locking σ κ} {I : σ → Prop}
  {p : ι → Txn σ κ ε α} {S : ι → σ → Prop} {R : ι → σ → σ → Prop} {Q : ι → α → σ → σ → Prop}
  {B : ι → ε → Prop}

/-- Transaction `i` is running, and its next statement is no plain `SELECT`: it has looked up what
it changes. -/
def PastLookup (s : Sys ι σ κ ε α) (i : ι) : Prop :=
  ∃ w q, s.txn i = .running w q ∧ ¬q.Selects

/-- A commit keeps the invariant, has the effect `Q` and changes only locked rows. -/
def WatchOk (L : Locking σ κ) (I S : σ → Prop) (R : σ → σ → Prop) (Q : α → σ → σ → Prop)
    (seen : Option σ) (facts : List (κ × σ)) (w : σ → σ) (a : α) : Prop :=
  ∀ s, I s → S s → (∀ s₀ ∈ seen, R s₀ s) → L.Known facts s →
    I (w s) ∧ Q a s (w s) ∧ ∀ key, (∀ f ∈ facts, f.1 ≠ key) → L.agree key s (w s)

/-- That a transaction behaves well from here on, if the commits respect `R` once it has looked up
what it changes. -/
def watches (L : Locking σ κ) (I S : σ → Prop) (R : σ → σ → Prop) (B : ε → Prop)
    (Q : α → σ → σ → Prop) : Assertion σ κ ε α := fun db facts w q =>
  ∃ seen : Option σ, (¬q.Selects → ∀ s₀ ∈ seen, R s₀ db) ∧
    q.wpWatch L (fun s => I s ∧ S s) R B (WatchOk L I S R Q) seen facts w

omit [DecidableEq κ] in
/-- The next statement of the transaction. -/
theorem watches_afterStatement {S : σ → Prop} {R : σ → σ → Prop} {B : ε → Prop}
    {Q : α → σ → σ → Prop} (hR : ∀ s, R s s) {db : σ} {facts : List (κ × σ)} {w : σ → σ}
    {q : Txn σ κ ε α} (hI : I db) (hS : S db) (hknown : L.Known facts db)
    (h : watches L I S R B Q db facts w q) :
    Assertion.AfterStatement (watches L I S R B Q) db facts w q := by
  obtain ⟨seen, hseen, hwp⟩ := h
  cases q with
  | ret a => trivial
  | raise e => trivial
  | select k =>
    refine ⟨some db, fun _ s₀ hs₀ => ?_, hwp db ⟨hI, hS⟩ hknown⟩
    obtain rfl := Option.mem_some_iff.mp hs₀
    exact hR db
  | lock key k =>
    have hwatched := hseen id
    exact ⟨seen, fun _ => hwatched, hwp db ⟨hI, hS⟩ hwatched hknown⟩
  | skipLocked key k =>
    have hwatched := hseen id
    exact ⟨⟨seen, fun _ => hwatched, hwp.1 db ⟨hI, hS⟩ hwatched hknown⟩,
      ⟨seen, fun _ => hwatched, hwp.2⟩⟩
  | write f k => exact ⟨seen, fun _ => hseen id, hwp⟩

variable (hR : ∀ i s, R i s s) (hR' : ∀ i s t u, R i s t → R i t u → R i s u)

omit [DecidableEq ι] [DecidableEq κ] in
/-- The effect of a commit. -/
theorem Holds.watches_commit {s : Sys ι σ κ ε α} {i : ι}
    (h : Holds L I (fun i => watches L I (S i) (R i) (B i) (Q i)) s) (hS : S i s.db) {w : σ → σ}
    {a : α} (hi : s.txn i = .running w (.ret a)) :
    I (w s.db) ∧ Q i a s.db (w s.db) ∧
      ∀ key j, j ≠ i → s.owner key = some j → L.agree key s.db (w s.db) := by
  obtain ⟨facts, hheld, hknown, seen, hseen, hwp⟩ := h.txn i w _ hi
  obtain ⟨hI, hQ, hframe⟩ := hwp s.db h.db hS (hseen id) hknown
  refine ⟨hI, hQ, fun key j hj hown => hframe key ?_⟩
  rintro f hf rfl
  have hi' := hheld f hf
  rw [hi'] at hown
  exact hj (Option.some.inj hown).symm

/-- A step at which the transaction has its standing assumption, and which respects what the others
have looked up. -/
structure Unseen (S : ι → σ → Prop) (R : ι → σ → σ → Prop) (s : Sys ι σ κ ε α) (i : ι)
    (t : Sys ι σ κ ε α) : Prop where
  own : S i s.db
  others : ∀ j, j ≠ i → PastLookup s j → R j s.db t.db

include hR hR'

/-- A step not seen by the others keeps the assertion. -/
theorem Holds.watches_step {s t : Sys ι σ κ ε α} {i : ι}
    (h : Holds L I (fun i => watches L I (S i) (R i) (B i) (Q i)) s) (hst : Step i s t)
    (hC : Unseen S R s i t) :
    Holds L I (fun i => watches L I (S i) (R i) (B i) (Q i)) t := by
  refine h.step_of hst ?_ ?_
  · exact fun facts w q _ hknown hA => watches_afterStatement (hR i) h.db hC.own hknown hA
  · intro w a hi ht
    obtain ⟨hI, -, hframe⟩ := h.watches_commit hC.own hi
    refine ⟨hI, hframe, fun j hj facts w' q hq hA => ?_⟩
    obtain ⟨seen, hseen, hwp⟩ := hA
    refine ⟨seen, fun hpast s₀ hs₀ => ?_, hwp⟩
    have hother := hC.others j hj ⟨w', q, hq, hpast⟩
    rw [ht] at hother
    exact hR' _ _ _ _ (hseen hpast s₀ hs₀) hother

/-- What holds in every interleaving whose commits respect what the others have looked up. -/
structure Watched (L : Locking σ κ) (I : σ → Prop) (S : ι → σ → Prop) (R : ι → σ → σ → Prop)
    (B : ι → ε → Prop) (Q : ι → α → σ → σ → Prop) (db : σ) (t : Sys ι σ κ ε α) : Prop where
  holds : Holds L I (fun i => watches L I (S i) (R i) (B i) (Q i)) t
  logged : Logged t
  commits : Commits Q db t.log t.db
  raised : ∀ i e, t.txn i = .aborted (some e) → ¬B i e

/-- In every interleaving whose commits respect what the others have looked up, the database is the
result of the commits in the log, and no transaction has raised a bad error. -/
theorem StepsIf.watches {db : σ} {C : Sys ι σ κ ε α → ι → Sys ι σ κ ε α → Prop}
    {t : Sys ι σ κ ε α} (hI : I db)
    (hp : ∀ i, (p i).wpWatch L (fun s => I s ∧ S i s) (R i) (B i) (WatchOk L I (S i) (R i) (Q i))
      none [] id)
    (hC : ∀ i s t, Step i s t → C s i t → I s.db → Logged s → Commits Q db s.log s.db →
      Unseen S R s i t)
    (h : StepsIf C (init db p) t) : Watched L I S R B Q db t := by
  have hinit : Watched L I S R B Q db (init db p) := by
    refine ⟨holds_init hI fun i => ⟨none, ?_, hp i⟩, fun i a hi => ?_, .nil, fun i e hi => ?_⟩
    · exact fun _ s₀ hs₀ => nomatch hs₀
    · simp [init] at hi
    · simp [init] at hi
  refine h.preserve (P := Watched L I S R B Q db) ?_ hinit
  rintro i s t hst hif ⟨hs, hlogged, hlog, hraised⟩
  have hunseen := hC i s t hst hif hs.db hlogged hlog
  refine ⟨hs.watches_step hR hR' hst hunseen, hlogged.step hst, ?_, fun j e ht => ?_⟩
  · cases hst with
    | commit hi => exact hlog.snoc i _ (hs.watches_commit hunseen.own hi).2.1
    | _ => exact hlog
  · -- only the transaction that takes the step can have raised just now
    by_cases hji : j = i
    · subst hji
      cases hst with
      | @raise w e' hi =>
        obtain rfl : e' = e := by simpa [Sys.abort] using ht
        obtain ⟨facts, -, -, seen, -, hwp⟩ := hs.txn j _ _ hi
        exact hwp
      | kill _ => simp [Sys.abort] at ht
      | commit _ => simp [Sys.commit] at ht
      | _ => simp [Sys.goto] at ht
    · exact hraised j e (by rw [← hst.other hji, ht])

end Sys

end Marketplace.Lib
