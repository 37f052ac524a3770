import Marketplace.Lib.Rely

/-!
# What a transaction knows since its last `SELECT`

A bulk `UPDATE` works on the rows that one `SELECT` has found. `Txn.wpSince` is a weakest
precondition whose postcondition is also about the database which the last plain `SELECT`
has seen, and `Sys.StepsIf.commits_since` reduces a property of the interleavings in which
the other commits respect a relation since then to one such condition for each program.
-/

namespace Marketplace.Lib

section Logic

variable {σ κ ε α β : Type} (L : Locking σ κ) (I : σ → Prop)

/-- Before the program returns, it takes another plain `SELECT`. -/
def Txn.StillSelects : Txn σ κ ε α → Prop
  | .ret _ => False
  | .raise _ => True
  | .select _ => True
  | .lock _ k => ∀ s, (k s).StillSelects
  | .skipLocked _ k => ∀ r, (k r).StillSelects
  | .write _ k => k.StillSelects

/-- The weakest precondition of a program for `Post`, over the committed database that its last
plain `SELECT` has seen, the rows it has locked and its pending changes. -/
def Txn.wpSince : Txn σ κ ε α → (σ → List (κ × σ) → (σ → σ) → α → Prop) → σ →
    List (κ × σ) → (σ → σ) → Prop
  | .ret a, Post, seen, facts, w => Post seen facts w a
  | .raise _, _, _, _, _ => True
  | .select k, Post, _, facts, w =>
    ∀ s, I s → L.Known facts s → (k (w s)).wpSince Post s facts w
  | .lock key k, Post, seen, facts, w =>
    ∀ s, I s → L.Known facts s → (k (w s)).wpSince Post seen ((key, s) :: facts) w
  | .skipLocked key k, Post, seen, facts, w =>
    (∀ s, I s → L.Known facts s →
      (k (some (w s))).wpSince Post seen ((key, s) :: facts) w) ∧
      (k none).wpSince Post seen facts w
  | .write f k, Post, seen, facts, w => k.wpSince Post seen facts (f ∘ w)

variable {L I} {seen : σ} {facts : List (κ × σ)} {w : σ → σ}

namespace Txn

/-- The rule of composition. -/
@[simp] theorem wpSince_bind {p : Txn σ κ ε α} {f : α → Txn σ κ ε β}
    {Post : σ → List (κ × σ) → (σ → σ) → β → Prop} :
    (p.bind f).wpSince L I Post seen facts w ↔
      p.wpSince L I (fun seen' facts' w' a => (f a).wpSince L I Post seen' facts' w')
        seen facts w := by
  induction p generalizing seen facts w with
  | ret a => rfl
  | raise e => rfl
  | select k ih =>
    exact forall_congr' fun s => imp_congr_right fun _ => imp_congr_right fun _ => ih _
  | lock key k ih =>
    exact forall_congr' fun s => imp_congr_right fun _ => imp_congr_right fun _ => ih _
  | skipLocked key k ih =>
    refine and_congr ?_ (ih none)
    exact forall_congr' fun s => imp_congr_right fun _ => imp_congr_right fun _ => ih _
  | write g k ih => exact ih

/-- A weaker postcondition needs a weaker precondition. -/
theorem wpSince_mono {p : Txn σ κ ε α} {P Q : σ → List (κ × σ) → (σ → σ) → α → Prop}
    (hPQ : ∀ seen facts w a, P seen facts w a → Q seen facts w a)
    (h : p.wpSince L I P seen facts w) : p.wpSince L I Q seen facts w := by
  induction p generalizing seen facts w with
  | ret a => exact hPQ _ _ _ _ h
  | raise e => trivial
  | select k ih => exact fun s hI hknown => ih _ (h s hI hknown)
  | lock key k ih => exact fun s hI hknown => ih _ (h s hI hknown)
  | skipLocked key k ih => exact ⟨fun s hI hknown => ih _ (h.1 s hI hknown), ih _ h.2⟩
  | write f k ih => exact ih h

/-- A postcondition that always holds. -/
theorem wpSince_of_forall {p : Txn σ κ ε α} {Post : σ → List (κ × σ) → (σ → σ) → α → Prop}
    (hPost : ∀ seen facts w a, Post seen facts w a) : p.wpSince L I Post seen facts w := by
  induction p generalizing seen facts w with
  | ret a => exact hPost _ _ _ a
  | raise e => trivial
  | select k ih => exact fun s _ _ => ih _
  | lock key k ih => exact fun s _ _ => ih _
  | skipLocked key k ih => exact ⟨fun s _ _ => ih _, ih _⟩
  | write f k ih => exact ih

/-- Two postconditions are ensured together. -/
theorem wpSince_and {p : Txn σ κ ε α} {P Q : σ → List (κ × σ) → (σ → σ) → α → Prop}
    (hP : p.wpSince L I P seen facts w) (hQ : p.wpSince L I Q seen facts w) :
    p.wpSince L I (fun seen facts w a => P seen facts w a ∧ Q seen facts w a) seen facts w := by
  induction p generalizing seen facts w with
  | ret a => exact ⟨hP, hQ⟩
  | raise e => trivial
  | select k ih => exact fun s hI hknown => ih _ (hP s hI hknown) (hQ s hI hknown)
  | lock key k ih => exact fun s hI hknown => ih _ (hP s hI hknown) (hQ s hI hknown)
  | skipLocked key k ih =>
    exact ⟨fun s hI hknown => ih _ (hP.1 s hI hknown) (hQ.1 s hI hknown), ih _ hP.2 hQ.2⟩
  | write f k ih => exact ih hP hQ

/-- What a program ensures whatever it has seen. -/
theorem wpSince_of_wp {p : Txn σ κ ε α} {Post : List (κ × σ) → (σ → σ) → α → Prop}
    (h : p.wp L I Post facts w) :
    p.wpSince L I (fun _ facts w a => Post facts w a) seen facts w := by
  induction p generalizing seen facts w with
  | ret a => exact h
  | raise e => trivial
  | select k ih => exact fun s hI hknown => ih _ (h s hI hknown)
  | lock key k ih => exact fun s hI hknown => ih _ (h s hI hknown)
  | skipLocked key k ih => exact ⟨fun s hI hknown => ih _ (h.1 s hI hknown), ih _ h.2⟩
  | write f k ih => exact ih h

section Statements

variable {Post : σ → List (κ × σ) → (σ → σ) → α → Prop}

/-- The rule of `ret`: the postcondition holds of the value. -/
@[simp] theorem wpSince_ret {a : α} :
    (ret a : Txn σ κ ε α).wpSince L I Post seen facts w ↔ Post seen facts w a := Iff.rfl

/-- The rule of `raise`: a transaction that aborts owes nothing. -/
@[simp] theorem wpSince_raise {e : ε} :
    (raise e : Txn σ κ ε α).wpSince L I Post seen facts w := trivial

/-- The rule of `read`: the state read is the last one seen. -/
@[simp] theorem wpSince_read {Post : σ → List (κ × σ) → (σ → σ) → σ → Prop} :
    (read : Txn σ κ ε σ).wpSince L I Post seen facts w ↔
      ∀ s, I s → L.Known facts s → Post s facts w (w s) := Iff.rfl

/-- The rule of `acquire`: the locked row becomes a known fact. -/
@[simp] theorem wpSince_acquire {key : κ}
    {Post : σ → List (κ × σ) → (σ → σ) → σ → Prop} :
    (acquire key : Txn σ κ ε σ).wpSince L I Post seen facts w ↔
      ∀ s, I s → L.Known facts s → Post seen ((key, s) :: facts) w (w s) := Iff.rfl

/-- The rule of `updateRow`: the row is locked and the write joins the own writes. -/
@[simp] theorem wpSince_updateRow {key : κ} {f : σ → σ}
    {Post : σ → List (κ × σ) → (σ → σ) → Unit → Prop} :
    (updateRow key f : Txn σ κ ε Unit).wpSince L I Post seen facts w ↔
      ∀ s, I s → L.Known facts s → Post seen ((key, s) :: facts) (f ∘ w) () := Iff.rfl

/-- The rule of `getOrRaise`: what follows has the value. -/
@[simp] theorem wpSince_getOrRaise {x : Option α} {e : ε} :
    (getOrRaise x e : Txn σ κ ε α).wpSince L I Post seen facts w ↔
      ∀ a, x = some a → Post seen facts w a := by
  cases x with
  | none => simp [getOrRaise]
  | some b => simp [getOrRaise]

/-- The rule of a branch: each side under its condition. -/
@[simp] theorem wpSince_ite {c : Prop} [Decidable c] {p q : Txn σ κ ε α} :
    (if c then p else q).wpSince L I Post seen facts w ↔
      (c → p.wpSince L I Post seen facts w) ∧ (¬c → q.wpSince L I Post seen facts w) := by
  by_cases h : c
  · simp [h]
  · simp [h]

end Statements

end Txn

end Logic

/-! ### Interleavings -/

namespace Sys

variable {ι σ κ ε α : Type} [DecidableEq ι] [DecidableEq κ] {L : Locking σ κ} {I : σ → Prop}
  {p : ι → Txn σ κ ε α} {R : ι → σ → σ → Prop} {Q : ι → α → σ → σ → Prop}

/-- Transaction `i` is running and has taken its last plain `SELECT`. -/
def HasSelected (s : Sys ι σ κ ε α) (i : ι) : Prop :=
  ∃ w q, s.txn i = .running w q ∧ ¬q.StillSelects

/-- A commit keeps the invariant, has the effect `Q` and changes only locked rows, if what has
been committed since the last `SELECT` respects `R`. -/
abbrev SinceOk (L : Locking σ κ) (I : σ → Prop) (R : σ → σ → Prop) (Q : α → σ → σ → Prop)
    (seen : σ) (facts : List (κ × σ)) (w : σ → σ) (a : α) : Prop :=
  RelyOk L I Q (fun t => R seen t) facts w a

/-- That a transaction behaves well from here on, if the commits since its last `SELECT`
respect `R`. -/
def since (L : Locking σ κ) (I : σ → Prop) (R : σ → σ → Prop) (Q : α → σ → σ → Prop) :
    Assertion σ κ ε α := fun db facts w q =>
  ∃ seen, (q.StillSelects ∨ R seen db) ∧ q.wpSince L I (SinceOk L I R Q) seen facts w

omit [DecidableEq κ] in
/-- The next statement of the transaction. -/
theorem since_afterStatement {R : σ → σ → Prop} {Q : α → σ → σ → Prop} (hrefl : ∀ s, R s s)
    {db : σ} {facts : List (κ × σ)} {w : σ → σ} {q : Txn σ κ ε α} (hI : I db)
    (hknown : L.Known facts db) (h : since L I R Q db facts w q) :
    Assertion.AfterStatement (since L I R Q) db facts w q := by
  obtain ⟨seen, hseen, hwp⟩ := h
  cases q with
  | ret a => trivial
  | raise e => trivial
  | select k => exact ⟨db, .inr (hrefl db), hwp db hI hknown⟩
  | lock key k => exact ⟨seen, hseen.imp_left fun hk => hk _, hwp db hI hknown⟩
  | skipLocked key k =>
    exact ⟨⟨seen, hseen.imp_left fun hk => hk _, hwp.1 db hI hknown⟩,
      ⟨seen, hseen.imp_left fun hk => hk _, hwp.2⟩⟩
  | write f k => exact ⟨seen, hseen, hwp⟩

variable (hrefl : ∀ i s, R i s s) (htrans : ∀ i s t u, R i s t → R i t u → R i s u)

omit [DecidableEq ι] [DecidableEq κ] in
/-- The effect of a commit. -/
theorem Holds.since_commit {s : Sys ι σ κ ε α} {i : ι}
    (h : Holds L I (fun i => since L I (R i) (Q i)) s) {w : σ → σ} {a : α}
    (hi : s.txn i = .running w (.ret a)) :
    I (w s.db) ∧ Q i a s.db (w s.db) ∧
      ∀ key j, j ≠ i → s.owner key = some j → L.agree key s.db (w s.db) := by
  obtain ⟨facts, hheld, hknown, seen, hseen, hwp⟩ := h.txn i w _ hi
  have hR : R i seen s.db := hseen.resolve_left id
  obtain ⟨hI, hQ, hframe⟩ := hwp s.db h.db hR hknown
  refine ⟨hI, hQ, fun key j hj hown => hframe key ?_⟩
  rintro f hf rfl
  have hi' := hheld f hf
  rw [hi'] at hown
  exact hj (Option.some.inj hown).symm

include hrefl htrans

/-- A statement whose commit respects what the others have seen keeps what they rely on. -/
theorem Holds.since_step {s t : Sys ι σ κ ε α} {i : ι}
    (h : Holds L I (fun i => since L I (R i) (Q i)) s) (hst : Step i s t)
    (hC : ∀ j, j ≠ i → HasSelected s j → R j s.db t.db) :
    Holds L I (fun i => since L I (R i) (Q i)) t := by
  refine h.step_of hst ?_ ?_
  · exact fun facts w q _ hknown hA => since_afterStatement (hrefl i) h.db hknown hA
  · intro w a hi ht
    obtain ⟨hI, -, hframe⟩ := h.since_commit hi
    refine ⟨hI, hframe, fun j hj facts w' q hq hA => ?_⟩
    obtain ⟨seen, hseen, hwp⟩ := hA
    by_cases hselects : q.StillSelects
    · exact ⟨seen, .inl hselects, hwp⟩
    · have hR := hC j hj ⟨w', q, hq, hselects⟩
      rw [ht] at hR
      exact ⟨seen, .inr (htrans _ _ _ _ (hseen.resolve_left hselects) hR), hwp⟩

/-- In every interleaving whose commits respect what the others have seen, the database is the
result of the commits in the log. -/
theorem StepsIf.commits_since {db : σ} {C : Sys ι σ κ ε α → ι → Sys ι σ κ ε α → Prop}
    {t : Sys ι σ κ ε α} (hI : I db)
    (hp : ∀ i, (p i).wpSince L I (SinceOk L I (R i) (Q i)) db [] id)
    (hC : ∀ i s t, Step i s t → C s i t →
      (∀ w a, s.txn i = .running w (.ret a) → Q i a s.db (w s.db)) →
      ∀ j, j ≠ i → HasSelected s j → R j s.db t.db)
    (h : StepsIf C (init db p) t) : Commits Q db t.log t.db := by
  suffices hboth : Holds L I (fun i => since L I (R i) (Q i)) t ∧ Commits Q db t.log t.db from
    hboth.2
  refine h.preserve (P := fun t => Holds L I (fun i => since L I (R i) (Q i)) t ∧
    Commits Q db t.log t.db) ?_ ⟨holds_init hI fun i => ⟨db, .inr (hrefl i db), hp i⟩, .nil⟩
  rintro i s t hst hif ⟨hs, hlog⟩
  refine ⟨hs.since_step hrefl htrans hst (hC i s t hst hif fun w a hi => ?_), ?_⟩
  · exact (hs.since_commit hi).2.1
  · cases hst with
    | commit hi => exact hlog.snoc i _ (hs.since_commit hi).2.1
    | _ => exact hlog

end Sys

end Marketplace.Lib
