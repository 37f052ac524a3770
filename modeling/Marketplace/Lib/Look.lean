import Marketplace.Lib.Settle

/-!
# What a transaction has seen when it asks for a lock

A program looks something up with a plain `SELECT` and then asks for the lock on what it
changes. `Txn.wpLook` is a weakest precondition for a program that relies on a relation `R`
between the database its last look-up has seen and the one it finds under the lock, and which
raises no bad error; another relation `G` is kept by every commit. `Sys.StepsIf.looks` reduces a
property of the interleavings in which the commits respect `R` for the transactions that are
about to lock to one such condition for each program.
-/

namespace Marketplace.Lib

section Logic

variable {σ κ ε α β : Type} (L : Locking σ κ) (J : σ → Prop) (G R : σ → σ → Prop)
  (B : ε → Prop)

/-- The weakest precondition of a program for `Post`, over what its last look-up has seen, the rows
it has locked and its pending changes. Each statement sees a database with `J`. -/
def Txn.wpLook : Txn σ κ ε α → (Option σ → List (κ × σ) → (σ → σ) → α → Prop) → Option σ →
    List (κ × σ) → (σ → σ) → Prop
  | .ret a, Post, seen, facts, w => Post seen facts w a
  | .raise e, _, _, _, _ => ¬B e
  | .select k, Post, _, facts, w =>
    ∀ s, J s → L.Known facts s → (k (w s)).wpLook Post (some s) facts w
  | .lock key k, Post, seen, facts, w =>
    ∀ s, J s → (∀ s₀ ∈ seen, G s₀ s ∧ R s₀ s) → L.Known facts s →
      (k (w s)).wpLook Post seen ((key, s) :: facts) w
  | .skipLocked key k, Post, _, facts, w =>
    (∀ s, J s → L.Known facts s → (k (some (w s))).wpLook Post none ((key, s) :: facts) w) ∧
      (k none).wpLook Post none facts w
  | .write f k, Post, _, facts, w => k.wpLook Post none facts (f ∘ w)

variable {L J G R B} {seen : Option σ} {facts : List (κ × σ)} {w : σ → σ}

namespace Txn

/-- The rule of composition. -/
@[simp] theorem wpLook_bind {p : Txn σ κ ε α} {f : α → Txn σ κ ε β}
    {Post : Option σ → List (κ × σ) → (σ → σ) → β → Prop} :
    (p.bind f).wpLook L J G R B Post seen facts w ↔
      p.wpLook L J G R B
        (fun seen' facts' w' a => (f a).wpLook L J G R B Post seen' facts' w') seen facts w := by
  induction p generalizing seen facts w with
  | ret a => rfl
  | raise e => rfl
  | select k ih =>
    exact forall_congr' fun s => imp_congr_right fun _ => imp_congr_right fun _ => ih _
  | lock key k ih =>
    exact forall_congr' fun s => imp_congr_right fun _ => imp_congr_right fun _ =>
      imp_congr_right fun _ => ih _
  | skipLocked key k ih =>
    refine and_congr ?_ (ih none)
    exact forall_congr' fun s => imp_congr_right fun _ => imp_congr_right fun _ => ih _
  | write g k ih => exact ih

section Statements

variable {Post : Option σ → List (κ × σ) → (σ → σ) → α → Prop}

/-- The rule of `ret`: the postcondition holds of the value. -/
@[simp] theorem wpLook_ret {a : α} :
    (ret a : Txn σ κ ε α).wpLook L J G R B Post seen facts w ↔ Post seen facts w a := Iff.rfl

/-- The rule of `raise`: the error is none that is excluded. -/
@[simp] theorem wpLook_raise {e : ε} :
    (raise e : Txn σ κ ε α).wpLook L J G R B Post seen facts w ↔ ¬B e := Iff.rfl

/-- The rule of `read`: the state looked at is remembered. -/
@[simp] theorem wpLook_read {Post : Option σ → List (κ × σ) → (σ → σ) → σ → Prop} :
    (read : Txn σ κ ε σ).wpLook L J G R B Post seen facts w ↔
      ∀ s, J s → L.Known facts s → Post (some s) facts w (w s) := Iff.rfl

/-- The rule of `acquire`: the locked row becomes a known fact. -/
@[simp] theorem wpLook_acquire {key : κ}
    {Post : Option σ → List (κ × σ) → (σ → σ) → σ → Prop} :
    (acquire key : Txn σ κ ε σ).wpLook L J G R B Post seen facts w ↔
      ∀ s, J s → (∀ s₀ ∈ seen, G s₀ s ∧ R s₀ s) → L.Known facts s →
        Post seen ((key, s) :: facts) w (w s) := Iff.rfl

/-- The rule of `modify`: the write joins the own writes, and the last look is over. -/
@[simp] theorem wpLook_modify {f : σ → σ}
    {Post : Option σ → List (κ × σ) → (σ → σ) → Unit → Prop} :
    (modify f : Txn σ κ ε Unit).wpLook L J G R B Post seen facts w ↔
      Post none facts (f ∘ w) () := Iff.rfl

/-- The rule of `raiseIf`: the error is not excluded, or the condition is false. -/
@[simp] theorem wpLook_raiseIf {c : Prop} [Decidable c] {e : ε}
    {Post : Option σ → List (κ × σ) → (σ → σ) → Unit → Prop} :
    (raiseIf c e : Txn σ κ ε Unit).wpLook L J G R B Post seen facts w ↔
      (c → ¬B e) ∧ (¬c → Post seen facts w ()) := by
  by_cases h : c
  · simp [raiseIf, h]
  · simp [raiseIf, h]

end Statements

/-- The program asks for a lock next. -/
def Locks : Txn σ κ ε α → Prop
  | .lock _ _ => True
  | _ => False

end Txn

end Logic

/-! ### Interleavings -/

namespace Sys

variable {ι σ κ ε α : Type} [DecidableEq ι] [DecidableEq κ] {L : Locking σ κ} {I : σ → Prop}
  {p : ι → Txn σ κ ε α} {S : ι → σ → Prop} {G : σ → σ → Prop} {R : ι → σ → σ → Prop}
  {Q : ι → α → σ → σ → Prop} {B : ι → ε → Prop}

/-- Transaction `i` is running and asks for a lock next. -/
def AboutToLock (s : Sys ι σ κ ε α) (i : ι) : Prop :=
  ∃ w q, s.txn i = .running w q ∧ q.Locks

/-- A commit keeps the invariant, has the effect `Q` and changes only locked rows. -/
def LookOk (L : Locking σ κ) (I S : σ → Prop) (G : σ → σ → Prop) (Q : α → σ → σ → Prop)
    (seen : Option σ) (facts : List (κ × σ)) (w : σ → σ) (a : α) : Prop :=
  ∀ s, I s → S s → (∀ s₀ ∈ seen, G s₀ s) → L.Known facts s →
    I (w s) ∧ Q a s (w s) ∧ ∀ key, (∀ f ∈ facts, f.1 ≠ key) → L.agree key s (w s)

/-- That a transaction behaves well from here on, if the commits respect `R` as long as it is about
to lock. -/
def looks (L : Locking σ κ) (I S : σ → Prop) (G R : σ → σ → Prop) (B : ε → Prop)
    (Q : α → σ → σ → Prop) : Assertion σ κ ε α := fun db facts w q =>
  ∃ seen : Option σ, (∀ s₀ ∈ seen, G s₀ db ∧ (q.Locks → R s₀ db)) ∧
    q.wpLook L (fun s => I s ∧ S s) G R B (LookOk L I S G Q) seen facts w

omit [DecidableEq κ] in
/-- The next statement of the transaction. -/
theorem looks_afterStatement {S : σ → Prop} {R : σ → σ → Prop} {B : ε → Prop}
    {Q : α → σ → σ → Prop} (hG : ∀ s, G s s) (hR : ∀ s, R s s) {db : σ} {facts : List (κ × σ)}
    {w : σ → σ} {q : Txn σ κ ε α} (hI : I db) (hS : S db) (hknown : L.Known facts db)
    (h : looks L I S G R B Q db facts w q) :
    Assertion.AfterStatement (looks L I S G R B Q) db facts w q := by
  obtain ⟨seen, hseen, hwp⟩ := h
  have hnone : ∀ {q : Txn σ κ ε α}, ∀ s₀ ∈ (none : Option σ), G s₀ db ∧ (q.Locks → R s₀ db) :=
    fun s₀ hs₀ => nomatch hs₀
  cases q with
  | ret a => trivial
  | raise e => trivial
  | select k =>
    refine ⟨some db, fun s₀ hs₀ => ?_, hwp db ⟨hI, hS⟩ hknown⟩
    obtain rfl := Option.mem_some_iff.mp hs₀
    exact ⟨hG db, fun _ => hR db⟩
  | lock key k =>
    have hlocks : ∀ s₀ ∈ seen, G s₀ db ∧ R s₀ db := fun s₀ hs₀ =>
      ⟨(hseen s₀ hs₀).1, (hseen s₀ hs₀).2 trivial⟩
    exact ⟨seen, fun s₀ hs₀ => ⟨(hlocks s₀ hs₀).1, fun _ => (hlocks s₀ hs₀).2⟩,
      hwp db ⟨hI, hS⟩ hlocks hknown⟩
  | skipLocked key k =>
    exact ⟨⟨none, hnone, hwp.1 db ⟨hI, hS⟩ hknown⟩, ⟨none, hnone, hwp.2⟩⟩
  | write f k => exact ⟨none, hnone, hwp⟩

variable (hG : ∀ s, G s s) (hG' : ∀ s t u, G s t → G t u → G s u) (hR : ∀ i s, R i s s)
  (hR' : ∀ i s t u, R i s t → R i t u → R i s u)

omit [DecidableEq ι] [DecidableEq κ] in
/-- The effect of a commit. -/
theorem Holds.looks_commit {s : Sys ι σ κ ε α} {i : ι}
    (h : Holds L I (fun i => looks L I (S i) G (R i) (B i) (Q i)) s) (hS : S i s.db) {w : σ → σ}
    {a : α} (hi : s.txn i = .running w (.ret a)) :
    I (w s.db) ∧ Q i a s.db (w s.db) ∧
      ∀ key j, j ≠ i → s.owner key = some j → L.agree key s.db (w s.db) := by
  obtain ⟨facts, hheld, hknown, seen, hseen, hwp⟩ := h.txn i w _ hi
  obtain ⟨hI, hQ, hframe⟩ := hwp s.db h.db hS (fun s₀ hs₀ => (hseen s₀ hs₀).1) hknown
  refine ⟨hI, hQ, fun key j hj hown => hframe key ?_⟩
  rintro f hf rfl
  have hi' := hheld f hf
  rw [hi'] at hown
  exact hj (Option.some.inj hown).symm

/-- A step at which the transaction has its standing assumption, and which respects what the
others have seen. -/
structure Respected (S : ι → σ → Prop) (G : σ → σ → Prop) (R : ι → σ → σ → Prop)
    (s : Sys ι σ κ ε α) (i : ι) (t : Sys ι σ κ ε α) : Prop where
  own : S i s.db
  all : G s.db t.db
  others : ∀ j, j ≠ i → AboutToLock s j → R j s.db t.db

include hG hG' hR hR'

/-- A step that respects what was looked at keeps the assertion. -/
theorem Holds.looks_step {s t : Sys ι σ κ ε α} {i : ι}
    (h : Holds L I (fun i => looks L I (S i) G (R i) (B i) (Q i)) s) (hst : Step i s t)
    (hC : Respected S G R s i t) :
    Holds L I (fun i => looks L I (S i) G (R i) (B i) (Q i)) t := by
  refine h.step_of hst ?_ ?_
  · exact fun facts w q _ hknown hA => looks_afterStatement hG (hR i) h.db hC.own hknown hA
  · intro w a hi ht
    obtain ⟨hI, -, hframe⟩ := h.looks_commit hC.own hi
    refine ⟨hI, hframe, fun j hj facts w' q hq hA => ?_⟩
    obtain ⟨seen, hseen, hwp⟩ := hA
    have hall := hC.all
    rw [ht] at hall
    refine ⟨seen, fun s₀ hs₀ => ⟨hG' _ _ _ (hseen s₀ hs₀).1 hall, fun hlocks => ?_⟩, hwp⟩
    have hother := hC.others j hj ⟨w', q, hq, hlocks⟩
    rw [ht] at hother
    exact hR' _ _ _ _ ((hseen s₀ hs₀).2 hlocks) hother

/-- In every interleaving whose commits respect what the others have seen that are about to lock,
the database is the result of the commits in the log, and no transaction has raised a bad error. -/
theorem StepsIf.looks {db : σ} {C : Sys ι σ κ ε α → ι → Sys ι σ κ ε α → Prop}
    {t : Sys ι σ κ ε α} (hI : I db)
    (hp : ∀ i, (p i).wpLook L (fun s => I s ∧ S i s) G (R i) (B i) (LookOk L I (S i) G (Q i))
      none [] id)
    (hC : ∀ i s t, Step i s t → C s i t → I s.db → Logged s → Commits Q db s.log s.db →
      (∀ w a, s.txn i = .running w (.ret a) → S i s.db → Q i a s.db (w s.db)) →
      Respected S G R s i t)
    (h : StepsIf C (init db p) t) :
    I t.db ∧ Commits Q db t.log t.db ∧ ∀ i e, t.txn i = .aborted (some e) → ¬B i e := by
  let P := fun t : Sys ι σ κ ε α =>
    Holds L I (fun i => Sys.looks L I (S i) G (R i) (B i) (Q i)) t ∧ Logged t ∧
      Commits Q db t.log t.db ∧ ∀ i e, t.txn i = .aborted (some e) → ¬B i e
  suffices hall : P t from ⟨hall.1.db, hall.2.2⟩
  have hinit : P (init db p) := by
    refine ⟨holds_init hI fun i => ⟨none, ?_, hp i⟩, fun i a hi => ?_, .nil, fun i e hi => ?_⟩
    · simp
    · simp [init] at hi
    · simp [init] at hi
  refine h.preserve (P := P) ?_ hinit
  rintro i s t hst hif ⟨hs, hlogged, hlog, hraised⟩
  have hcommit : ∀ w a, s.txn i = .running w (.ret a) → S i s.db → Q i a s.db (w s.db) :=
    fun w a hi hS => (hs.looks_commit hS hi).2.1
  have hrespected := hC i s t hst hif hs.db hlogged hlog hcommit
  refine ⟨hs.looks_step hG hG' hR hR' hst hrespected, hlogged.step hst, ?_, fun j e ht => ?_⟩
  · cases hst with
    | commit hi => exact hlog.snoc i _ (hcommit _ _ hi hrespected.own)
    | _ => exact hlog
  · -- only the transaction that takes the step can have raised just now
    by_cases hji : j = i
    · subst hji
      cases hst with
      | @raise w e' hi =>
        obtain rfl : e' = e := by simpa [Sys.abort] using ht
        obtain ⟨facts, -, -, seen, -, hwp⟩ := hs.txn j _ _ hi
        exact hwp
      | kill _ => simp [Sys.abort] at ht
      | commit _ => simp [Sys.commit] at ht
      | _ => simp [Sys.goto] at ht
    · exact hraised j e (by rw [← hst.other hji, ht])

end Sys

end Marketplace.Lib
