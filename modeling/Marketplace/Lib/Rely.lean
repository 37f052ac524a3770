import Marketplace.Lib.Errors
import Marketplace.Lib.Frame

/-!
# Transactions that rely on the others

What a plain `SELECT` has seen stays true only as long as the other transactions leave it
so. `Txn.wpr` is a weakest precondition for a program that relies on a relation `R` between
what it has seen and what is committed later, and `Sys.StepsIf.commits` reduces a property
of every interleaving in which `R` is respected to one such condition for each program.
-/

namespace Marketplace.Lib

section Logic

variable {σ κ ε α β : Type} (L : Locking σ κ) (I : σ → Prop) (R : σ → σ → Prop)

/-- The weakest precondition of a program for `Post`, over what it knows of the committed
database, the rows it has locked and its pending changes. Whatever a statement sees, the
database that is committed later is related to it by `R`. -/
def Txn.wpr : Txn σ κ ε α → ((σ → Prop) → List (κ × σ) → (σ → σ) → α → Prop) →
    (σ → Prop) → List (κ × σ) → (σ → σ) → Prop
  | .ret a, Post, K, facts, w => Post K facts w a
  | .raise _, _, _, _, _ => True
  | .select k, Post, K, facts, w =>
    ∀ s, I s → K s → L.Known facts s → (k (w s)).wpr Post (fun t => K t ∧ R s t) facts w
  | .lock key k, Post, K, facts, w =>
    ∀ s, I s → K s → L.Known facts s →
      (k (w s)).wpr Post (fun t => K t ∧ R s t) ((key, s) :: facts) w
  | .skipLocked key k, Post, K, facts, w =>
    (∀ s, I s → K s → L.Known facts s →
      (k (some (w s))).wpr Post (fun t => K t ∧ R s t) ((key, s) :: facts) w) ∧
      (k none).wpr Post K facts w
  | .write f k, Post, K, facts, w => k.wpr Post K facts (f ∘ w)

/-- The same from the first statement on. If it is a plain `SELECT`, it sees a database
with `S`. -/
def Txn.wprFrom (S : σ → Prop) (Post : (σ → Prop) → List (κ × σ) → (σ → σ) → α → Prop) :
    Txn σ κ ε α → Prop
  | .select k => ∀ s, I s → S s → (k s).wpr L I R Post (fun t => R s t) [] id
  | p => p.wpr L I R Post (fun _ => True) [] id

/-- A commit keeps the invariant, has the effect `Q` and changes only locked rows. -/
def RelyOk (Q : α → σ → σ → Prop) (K : σ → Prop) (facts : List (κ × σ)) (w : σ → σ)
    (a : α) : Prop :=
  ∀ s, I s → K s → L.Known facts s →
    I (w s) ∧ Q a s (w s) ∧ ∀ key, (∀ f ∈ facts, f.1 ≠ key) → L.agree key s (w s)

variable {L I R} {K : σ → Prop} {facts : List (κ × σ)} {w : σ → σ}

/-- More knowledge at the commit is enough. -/
theorem RelyOk.of_imp {Q : α → σ → σ → Prop} {K' : σ → Prop} {a : α} (hK : ∀ s, K' s → K s)
    (h : RelyOk L I Q K facts w a) : RelyOk L I Q K' facts w a :=
  fun s hI hs hknown => h s hI (hK s hs) hknown

/-- More facts at the commit are enough. -/
theorem RelyOk.of_subset {Q : α → σ → σ → Prop} {a : α} {facts' : List (κ × σ)}
    (hsub : facts ⊆ facts') (h : RelyOk L I Q K facts w a) : RelyOk L I Q K facts' w a := by
  intro s hI hs hknown
  obtain ⟨hI', hQ, hframe⟩ := h s hI hs fun f hf => hknown f (hsub hf)
  exact ⟨hI', hQ, fun key hkey => hframe key fun f hf => hkey f (hsub hf)⟩

namespace Txn

/-- The rule of composition. -/
@[simp] theorem wpr_bind {p : Txn σ κ ε α} {f : α → Txn σ κ ε β}
    {Post : (σ → Prop) → List (κ × σ) → (σ → σ) → β → Prop} :
    (p.bind f).wpr L I R Post K facts w ↔
      p.wpr L I R (fun K' facts' w' a => (f a).wpr L I R Post K' facts' w') K facts w := by
  induction p generalizing K facts w with
  | ret a => rfl
  | raise e => rfl
  | select k ih =>
    exact forall_congr' fun s => imp_congr_right fun _ => imp_congr_right fun _ =>
      imp_congr_right fun _ => ih _
  | lock key k ih =>
    exact forall_congr' fun s => imp_congr_right fun _ => imp_congr_right fun _ =>
      imp_congr_right fun _ => ih _
  | skipLocked key k ih =>
    refine and_congr ?_ (ih none)
    exact forall_congr' fun s => imp_congr_right fun _ => imp_congr_right fun _ =>
      imp_congr_right fun _ => ih _
  | write g k ih => exact ih

/-- A weaker postcondition needs a weaker precondition. -/
theorem wpr_mono {p : Txn σ κ ε α} {P Q : (σ → Prop) → List (κ × σ) → (σ → σ) → α → Prop}
    (hPQ : ∀ K facts w a, P K facts w a → Q K facts w a) (h : p.wpr L I R P K facts w) :
    p.wpr L I R Q K facts w := by
  induction p generalizing K facts w with
  | ret a => exact hPQ _ _ _ _ h
  | raise e => trivial
  | select k ih => exact fun s hI hs hK => ih _ (h s hI hs hK)
  | lock key k ih => exact fun s hI hs hK => ih _ (h s hI hs hK)
  | skipLocked key k ih => exact ⟨fun s hI hs hK => ih _ (h.1 s hI hs hK), ih _ h.2⟩
  | write f k ih => exact ih h

/-- Knowing more of the committed database asks no more of the program. -/
theorem wpr_of_imp {p : Txn σ κ ε α} {K' : σ → Prop}
    {Post : (σ → Prop) → List (κ × σ) → (σ → σ) → α → Prop}
    (hPost : ∀ K K' facts w a, (∀ s, K' s → K s) → Post K facts w a → Post K' facts w a)
    (hK : ∀ s, K' s → K s) (h : p.wpr L I R Post K facts w) : p.wpr L I R Post K' facts w := by
  induction p generalizing K K' facts w with
  | ret a => exact hPost _ _ _ _ _ hK h
  | raise e => trivial
  | select k ih =>
    exact fun s hI hs hknown => ih _ (fun t ht => ⟨hK t ht.1, ht.2⟩) (h s hI (hK s hs) hknown)
  | lock key k ih =>
    exact fun s hI hs hknown => ih _ (fun t ht => ⟨hK t ht.1, ht.2⟩) (h s hI (hK s hs) hknown)
  | skipLocked key k ih =>
    refine ⟨fun s hI hs hknown => ?_, ih _ hK h.2⟩
    exact ih _ (fun t ht => ⟨hK t ht.1, ht.2⟩) (h.1 s hI (hK s hs) hknown)
  | write f k ih => exact ih hK h

/-- More locks ask no more of the program. -/
theorem wpr_of_subset {p : Txn σ κ ε α} {Q : α → σ → σ → Prop} {facts' : List (κ × σ)}
    (hsub : facts ⊆ facts') (h : p.wpr L I R (RelyOk L I Q) K facts w) :
    p.wpr L I R (RelyOk L I Q) K facts' w := by
  have hless : ∀ {fs fs' : List (κ × σ)} {s : σ}, fs ⊆ fs' → L.Known fs' s → L.Known fs s :=
    fun hsub hknown f hf => hknown f (hsub hf)
  induction p generalizing K facts facts' w with
  | ret a => exact RelyOk.of_subset hsub h
  | raise e => trivial
  | select k ih => exact fun s hI hs hknown => ih _ hsub (h s hI hs (hless hsub hknown))
  | lock key k ih =>
    exact fun s hI hs hknown =>
      ih _ (List.cons_subset_cons _ hsub) (h s hI hs (hless hsub hknown))
  | skipLocked key k ih =>
    refine ⟨fun s hI hs hknown => ?_, ih _ hsub h.2⟩
    exact ih _ (List.cons_subset_cons _ hsub) (h.1 s hI hs (hless hsub hknown))
  | write f k ih => exact ih hsub h

section Statements

variable {Post : (σ → Prop) → List (κ × σ) → (σ → σ) → α → Prop}

/-- The rule of `ret`: the postcondition holds of the value. -/
@[simp] theorem wpr_ret {a : α} :
    (ret a : Txn σ κ ε α).wpr L I R Post K facts w ↔ Post K facts w a := Iff.rfl

/-- The rule of `raise`: a transaction that aborts owes nothing. -/
@[simp] theorem wpr_raise {e : ε} : (raise e : Txn σ κ ε α).wpr L I R Post K facts w :=
  trivial

/-- The rule of `read`: the states from here on are related to the one read. -/
@[simp] theorem wpr_read {Post : (σ → Prop) → List (κ × σ) → (σ → σ) → σ → Prop} :
    (read : Txn σ κ ε σ).wpr L I R Post K facts w ↔
      ∀ s, I s → K s → L.Known facts s → Post (fun t => K t ∧ R s t) facts w (w s) := Iff.rfl

/-- The rule of `acquire`: the locked row becomes a known fact. -/
@[simp] theorem wpr_acquire {key : κ}
    {Post : (σ → Prop) → List (κ × σ) → (σ → σ) → σ → Prop} :
    (acquire key : Txn σ κ ε σ).wpr L I R Post K facts w ↔
      ∀ s, I s → K s → L.Known facts s →
        Post (fun t => K t ∧ R s t) ((key, s) :: facts) w (w s) := Iff.rfl

/-- The rule of `modify`: the write joins the own writes. -/
@[simp] theorem wpr_modify {f : σ → σ}
    {Post : (σ → Prop) → List (κ × σ) → (σ → σ) → Unit → Prop} :
    (modify f : Txn σ κ ε Unit).wpr L I R Post K facts w ↔ Post K facts (f ∘ w) () := Iff.rfl

/-- The rule of `updateRow`: the row is locked and the write joins the own writes. -/
@[simp] theorem wpr_updateRow {key : κ} {f : σ → σ}
    {Post : (σ → Prop) → List (κ × σ) → (σ → σ) → Unit → Prop} :
    (updateRow key f : Txn σ κ ε Unit).wpr L I R Post K facts w ↔
      ∀ s, I s → K s → L.Known facts s →
        Post (fun t => K t ∧ R s t) ((key, s) :: facts) (f ∘ w) () := Iff.rfl

/-- The rule of `raiseIf`: what follows may use that the condition is false. -/
@[simp] theorem wpr_raiseIf {bad : Prop} [Decidable bad] {e : ε}
    {Post : (σ → Prop) → List (κ × σ) → (σ → σ) → Unit → Prop} :
    (raiseIf bad e : Txn σ κ ε Unit).wpr L I R Post K facts w ↔
      (¬bad → Post K facts w ()) := by
  by_cases h : bad <;> simp [raiseIf, h]

/-- The rule of `getOrRaise`: what follows has the value. -/
@[simp] theorem wpr_getOrRaise {x : Option α} {e : ε} :
    (getOrRaise x e : Txn σ κ ε α).wpr L I R Post K facts w ↔
      ∀ a, x = some a → Post K facts w a := by
  cases x with
  | none => simp [getOrRaise]
  | some b => simp [getOrRaise]

/-- The rule of a branch: each side under its condition. -/
@[simp] theorem wpr_ite {c : Prop} [Decidable c] {p q : Txn σ κ ε α} :
    (if c then p else q).wpr L I R Post K facts w ↔
      (c → p.wpr L I R Post K facts w) ∧ (¬c → q.wpr L I R Post K facts w) := by
  by_cases h : c <;> simp [h]

end Statements

/-- A program whose writes all respect `E` has an effect in `E`. -/
theorem wpr_of_writes {P : κ → (σ → σ) → Prop} {E : σ → σ → Prop}
    (htrans : ∀ s t u, E s t → E t u → E s u) (hP : ∀ key f, P key f → ∀ s, E s (f s))
    (hframe : ∀ key f, P key f → ∀ s key', key' ≠ key → L.agree key' s (f s))
    {p : Txn σ κ ε α} (hwrites : p.WritesFrom P (facts.map Prod.fst)) (hw : ∀ s, E s (w s))
    (hlocked : ∀ s key, (∀ f ∈ facts, f.1 ≠ key) → L.agree key s (w s)) :
    p.wpr L I R (fun _ facts w _ => (∀ s, E s (w s)) ∧
      ∀ s key, (∀ f ∈ facts, f.1 ≠ key) → L.agree key s (w s)) K facts w := by
  have hmore : ∀ {facts : List (κ × σ)} {w : σ → σ} (key' : κ) (t : σ),
      (∀ s key, (∀ f ∈ facts, f.1 ≠ key) → L.agree key s (w s)) →
      ∀ s key, (∀ f ∈ (key', t) :: facts, f.1 ≠ key) → L.agree key s (w s) :=
    fun _ _ hw s key hkey => hw s key fun f hf => hkey f (List.mem_cons_of_mem _ hf)
  induction p generalizing K facts w with
  | ret a => exact ⟨hw, hlocked⟩
  | raise e => trivial
  | select k ih => exact fun s _ _ _ => ih _ (hwrites _) hw hlocked
  | lock key k ih => exact fun s _ _ _ => ih _ (hwrites _) hw (hmore key s hlocked)
  | skipLocked key k ih =>
    exact ⟨fun s _ _ _ => ih _ (hwrites.1 _) hw (hmore key s hlocked), ih _ hwrites.2 hw hlocked⟩
  | write f k ih =>
    obtain ⟨⟨key, hkey, hf⟩, hk⟩ := hwrites
    obtain ⟨fact, hfact, rfl⟩ := List.mem_map.mp hkey
    refine ih hk (fun s => htrans _ _ _ (hw s) (hP _ f hf (w s))) fun s key' hkey' => ?_
    have hne : key' ≠ fact.1 := fun heq => hkey' fact hfact heq.symm
    exact L.trans (hlocked s key' hkey') (hframe _ f hf (w s) key' hne)

/-- The rule for a first statement that is a plain `SELECT`. -/
theorem wprFrom_read {S : σ → Prop} {f : σ → Txn σ κ ε α}
    {Post : (σ → Prop) → List (κ × σ) → (σ → σ) → α → Prop}
    (h : ∀ s, I s → S s → (f s).wpr L I R Post (fun t => R s t) [] id) :
    (read.bind f).wprFrom L I R S Post := h

/-- A program that relies on nothing special may begin with any statement. -/
theorem wprFrom_of_wpr {S : σ → Prop} {p : Txn σ κ ε α}
    {Post : (σ → Prop) → List (κ × σ) → (σ → σ) → α → Prop}
    (hPost : ∀ K K' facts w a, (∀ s, K' s → K s) → Post K facts w a → Post K' facts w a)
    (h : p.wpr L I R Post (fun _ => True) [] id) : p.wprFrom L I R S Post := by
  cases p with
  | select k =>
    intro s hI _
    exact wpr_of_imp hPost (fun t ht => ⟨trivial, ht⟩) (h s hI trivial (by simp))
  | _ => exact h

/-- A weaker postcondition is easier to reach. -/
theorem wprFrom_mono {S : σ → Prop} {p : Txn σ κ ε α}
    {P Q : (σ → Prop) → List (κ × σ) → (σ → σ) → α → Prop}
    (hPQ : ∀ K facts w a, P K facts w a → Q K facts w a) (h : p.wprFrom L I R S P) :
    p.wprFrom L I R S Q := by
  cases p with
  | select k => exact fun s hI hS => wpr_mono hPQ (h s hI hS)
  | _ => exact wpr_mono hPQ h

/-- Two postconditions are ensured together. -/
theorem wpr_and {p : Txn σ κ ε α} {P Q : (σ → Prop) → List (κ × σ) → (σ → σ) → α → Prop}
    (hP : p.wpr L I R P K facts w) (hQ : p.wpr L I R Q K facts w) :
    p.wpr L I R (fun K facts w a => P K facts w a ∧ Q K facts w a) K facts w := by
  induction p generalizing K facts w with
  | ret a => exact ⟨hP, hQ⟩
  | raise e => trivial
  | select k ih => exact fun s hI hs hK => ih _ (hP s hI hs hK) (hQ s hI hs hK)
  | lock key k ih => exact fun s hI hs hK => ih _ (hP s hI hs hK) (hQ s hI hs hK)
  | skipLocked key k ih =>
    exact ⟨fun s hI hs hK => ih _ (hP.1 s hI hs hK) (hQ.1 s hI hs hK), ih _ hP.2 hQ.2⟩
  | write f k ih => exact ih hP hQ

/-- Two postconditions are reached together. -/
theorem wprFrom_and {S : σ → Prop} {p : Txn σ κ ε α}
    {P Q : (σ → Prop) → List (κ × σ) → (σ → σ) → α → Prop} (hP : p.wprFrom L I R S P)
    (hQ : p.wprFrom L I R S Q) :
    p.wprFrom L I R S fun K facts w a => P K facts w a ∧ Q K facts w a := by
  cases p with
  | select k => exact fun s hI hS => wpr_and (hP s hI hS) (hQ s hI hS)
  | _ => exact wpr_and hP hQ

/-- What is known stays known. -/
theorem wpr_known {p : Txn σ κ ε α} {F : σ → Prop} (hF : ∀ s, K s → F s) :
    p.wpr L I R (fun K _ _ _ => ∀ s, K s → F s) K facts w := by
  induction p generalizing K facts w with
  | ret a => exact hF
  | raise e => trivial
  | select k ih => exact fun _ _ _ _ => ih _ fun s hs => hF s hs.1
  | lock key k ih => exact fun _ _ _ _ => ih _ fun s hs => hF s hs.1
  | skipLocked key k ih => exact ⟨fun _ _ _ _ => ih _ fun s hs => hF s hs.1, ih _ hF⟩
  | write f k ih => exact ih hF

/-- What a program ensures without relying on the others. -/
theorem wpr_of_wp {p : Txn σ κ ε α} {Post : List (κ × σ) → (σ → σ) → α → Prop}
    (h : p.wp L I Post facts w) : p.wpr L I R (fun _ facts w a => Post facts w a) K facts w := by
  induction p generalizing K facts w with
  | ret a => exact h
  | raise e => trivial
  | select k ih => exact fun s hI _ hK => ih _ (h s hI hK)
  | lock key k ih => exact fun s hI _ hK => ih _ (h s hI hK)
  | skipLocked key k ih => exact ⟨fun s hI _ hK => ih _ (h.1 s hI hK), ih _ h.2⟩
  | write f k ih => exact ih h

end Txn

end Logic

/-! ### Interleavings under a condition -/

namespace Sys

variable {ι σ κ ε α : Type} [DecidableEq ι] [DecidableEq κ]

/-- Any number of statements, each of which meets the condition `C`. -/
inductive StepsIf (C : Sys ι σ κ ε α → ι → Sys ι σ κ ε α → Prop) :
    Sys ι σ κ ε α → Sys ι σ κ ε α → Prop
  | refl (s) : StepsIf C s s
  | tail {s t u} (i : ι) : StepsIf C s t → Step i t u → C t i u → StepsIf C s u

/-- A property that every statement under the condition preserves holds after any number. -/
theorem StepsIf.preserve {C : Sys ι σ κ ε α → ι → Sys ι σ κ ε α → Prop}
    {P : Sys ι σ κ ε α → Prop}
    (hstep : ∀ {i : ι} {s t}, Step i s t → C s i t → P s → P t) {s t : Sys ι σ κ ε α}
    (h : StepsIf C s t) (hs : P s) : P t := by
  induction h with
  | refl => exact hs
  | tail i _ hst hC ih => exact hstep hst hC ih

/-- Statements that all meet the condition from every state that is reached. -/
theorem Steps.stepsIf_of {C : Sys ι σ κ ε α → ι → Sys ι σ κ ε α → Prop} {s t : Sys ι σ κ ε α}
    (hC : ∀ {i u v}, Steps s u → Step i u v → C u i v) (h : Steps s t) : StepsIf C s t := by
  induction h with
  | refl => exact .refl _
  | tail i hs hst ih => exact ih.tail i hst (hC hs hst)

/-- Statements that meet the condition whatever the state are unconditional. -/
theorem Steps.stepsIf {C : Sys ι σ κ ε α → ι → Sys ι σ κ ε α → Prop} (hC : ∀ s i t, C s i t)
    {s t : Sys ι σ κ ε α} (h : Steps s t) : StepsIf C s t :=
  h.stepsIf_of fun _ _ => hC _ _ _

/-- Two runs under one condition make a run under it. -/
theorem StepsIf.trans {C : Sys ι σ κ ε α → ι → Sys ι σ κ ε α → Prop} {s t u : Sys ι σ κ ε α}
    (h : StepsIf C s t) (h' : StepsIf C t u) : StepsIf C s u := by
  induction h' with
  | refl => exact h
  | tail i _ hst hC ih => exact ih.tail i hst hC

/-- A weaker condition is met as well. -/
theorem StepsIf.mono {C D : Sys ι σ κ ε α → ι → Sys ι σ κ ε α → Prop}
    (hCD : ∀ s i t, C s i t → D s i t) {s t : Sys ι σ κ ε α} (h : StepsIf C s t) :
    StepsIf D s t := by
  induction h with
  | refl => exact .refl _
  | tail i _ hst hC ih => exact ih.tail i hst (hCD _ _ _ hC)

/-- Statements under a condition are statements. -/
theorem StepsIf.steps {C : Sys ι σ κ ε α → ι → Sys ι σ κ ε α → Prop} {s t : Sys ι σ κ ε α}
    (h : StepsIf C s t) : Steps s t := by
  induction h with
  | refl => exact .refl _
  | tail i _ hst _ ih => exact ih.tail i hst

/-- Statements of a single transaction, if they meet the condition as long as the others stay
where they are and the database does. -/
theorem StepsIf.alone {C : Sys ι σ κ ε α → ι → Sys ι σ κ ε α → Prop} {s t u : Sys ι σ κ ε α}
    {i : ι} (h : StepsIf C s t)
    (hC : ∀ v v', (∀ j, j ≠ i → v.txn j = t.txn j) → v.db = t.db → C v i v')
    (halone : Relation.ReflTransGen (Step i) t u) : StepsIf C s u := by
  suffices hboth : StepsIf C s u ∧ ∀ j, j ≠ i → u.txn j = t.txn j from hboth.1
  induction halone with
  | refl => exact ⟨h, fun _ _ => rfl⟩
  | tail hbefore hst ih =>
    exact ⟨ih.1.tail i hst (hC _ _ ih.2 (db_of_alone hbefore hst.running)),
      fun j hj => (hst.other hj).trans (ih.2 j hj)⟩

/-- The same up to the commit, before which the statements leave the database as it is. -/
theorem StepsIf.quiet {C : Sys ι σ κ ε α → ι → Sys ι σ κ ε α → Prop} {s t u : Sys ι σ κ ε α}
    {i : ι} (h : StepsIf C s t)
    (hC : ∀ v v', (∀ j, j ≠ i → v.txn j = t.txn j) → v.db = t.db → v'.db = t.db → C v i v')
    (halone : Relation.ReflTransGen (Step i) t u) (hrunning : ∃ w q, u.txn i = .running w q) :
    StepsIf C s u := by
  suffices hall : StepsIf C s u ∧ (∀ j, j ≠ i → u.txn j = t.txn j) ∧ u.db = t.db from hall.1
  have hquiet := quiet_of_alone halone hrunning
  clear halone hrunning
  induction hquiet with
  | refl => exact ⟨h, fun _ _ => rfl, rfl⟩
  | tail _ hst ih =>
    obtain ⟨hst, hdb⟩ := hst
    obtain ⟨hsteps, hothers, hdb₀⟩ := ih
    exact ⟨hsteps.tail i hst (hC _ _ hothers hdb₀ (hdb.trans hdb₀)),
      fun j hj => (hst.other hj).trans (hothers j hj), hdb.trans hdb₀⟩

/-- Transaction `i` has taken its first statement and has not ended. -/
def UnderWay (p : ι → Txn σ κ ε α) (s : Sys ι σ κ ε α) (i : ι) : Prop :=
  ∃ w q, s.txn i = .running w q ∧ s.txn i ≠ .running id (p i)

/-- Transaction `i` has not begun, or has committed. -/
def Idle (p : ι → Txn σ κ ε α) (s : Sys ι σ κ ε α) (i : ι) : Prop :=
  s.txn i = .running id (p i) ∨ ∃ a, s.txn i = .committed a

omit [DecidableEq ι] [DecidableEq κ] in
/-- Idleness depends on the transaction alone. -/
theorem Idle.of_eq {p : ι → Txn σ κ ε α} {s t : Sys ι σ κ ε α} {i : ι} (h : Idle p s i)
    (heq : t.txn i = s.txn i) : Idle p t i := by
  unfold Idle
  rwa [heq]

omit [DecidableEq ι] [DecidableEq κ] in
/-- A transaction that is idle is not under way. -/
theorem Idle.not_underWay {p : ι → Txn σ κ ε α} {s : Sys ι σ κ ε α} {i : ι} (h : Idle p s i) :
    ¬UnderWay p s i := by
  rintro ⟨w, q, hrunning, hne⟩
  rcases h with hwaits | ⟨a, hcommitted⟩
  · exact hne hwaits
  · rw [hcommitted] at hrunning
    cases hrunning

/-- While one of the transactions takes its statements, the others are idle. -/
theorem RunsInTurn.stepsIf {C : Sys ι σ κ ε α → ι → Sys ι σ κ ε α → Prop} {p : ι → Txn σ κ ε α}
    {is : List ι} {s t : Sys ι σ κ ε α} (h : RunsInTurn is s t)
    (hC : ∀ s i t, i ∈ is → (∀ j, j ≠ i → Idle p s j) → C s i t) (hidle : ∀ i, Idle p s i) :
    StepsIf C s t := by
  induction h with
  | nil s => exact .refl s
  | @cons i is s a db u t first rest ih =>
    have hfirst : StepsIf C s u := (StepsIf.refl s).alone
      (fun v v' hothers _ => hC v i v' List.mem_cons_self fun j hj =>
        (hidle j).of_eq (hothers j hj)) first.alone
    have hidle' : ∀ j, Idle p u j := by
      intro j
      by_cases hj : j = i
      · subst hj
        exact .inr ⟨a, first.committed⟩
      · exact (hidle j).of_eq (first.other j hj)
    exact hfirst.trans (ih (fun v j v' hj => hC v j v' (List.mem_cons_of_mem i hj)) hidle')

/-- Transactions that have not begun run one after the other under the condition. -/
theorem stepsIf_of_serial {C : Sys ι σ κ ε α → ι → Sys ι σ κ ε α → Prop} {p : ι → Txn σ κ ε α}
    {db : σ} {is : List ι}
    (hC : ∀ s i t, i ∈ is → (∀ j, j ≠ i → Idle p s j) → C s i t) (hdistinct : is.Nodup)
    {s : Sys ι σ κ ε α} (hfree : ∀ key, s.owner key = none)
    (hbegin : ∀ i, i ∈ is → s.txn i = .running id (p i)) (hidle : ∀ i, Idle p s i)
    (h : serial p s.db is = some db) :
    ∃ t, StepsIf C s t ∧ t.db = db ∧ t.log.map Prod.fst = s.log.map Prod.fst ++ is := by
  obtain ⟨t, ht, hdb⟩ := runsInTurn_of_serial hdistinct hfree hbegin h
  exact ⟨t, ht.stepsIf hC hidle, hdb, ht.log⟩

/-- So do the transactions of a server that has just started. -/
theorem stepsIf_init_of_serial {C : Sys ι σ κ ε α → ι → Sys ι σ κ ε α → Prop}
    (p : ι → Txn σ κ ε α) (db : σ) (is : List ι)
    (hC : ∀ s i t, i ∈ is → (∀ j, j ≠ i → Idle p s j) → C s i t) (hdistinct : is.Nodup)
    (h : (serial p db is).isSome = true) :
    ∃ t, StepsIf C (init db p) t ∧ serial p db is = some t.db ∧ t.log.map Prod.fst = is := by
  obtain ⟨db', hdb'⟩ := Option.isSome_iff_exists.mp h
  obtain ⟨t, ht, rfl, hlog⟩ := stepsIf_of_serial hC hdistinct (s := init db p) (fun _ => rfl)
    (fun _ _ => rfl) (fun _ => .inl rfl) hdb'
  exact ⟨t, ht, hdb', hlog⟩

/-- Transaction `i` has taken all its statements and commits next. -/
def AboutToCommit (s : Sys ι σ κ ε α) (i : ι) : Prop :=
  ∃ w a, s.txn i = .running w (.ret a)

/-- The step lets each transaction rely on what it has seen: a first statement sees a database
with `S`, and a commit respects `R` for every other transaction that is under way. -/
structure Undisturbed (p : ι → Txn σ κ ε α) (S : ι → σ → Prop) (R : ι → σ → σ → Prop)
    (s : Sys ι σ κ ε α) (i : ι) (t : Sys ι σ κ ε α) : Prop where
  first : s.txn i = .running id (p i) → S i s.db
  others : ∀ j, j ≠ i → UnderWay p s j → R j s.db t.db

/-- A transaction that has taken `n` plain `SELECT`s is overtaken by another one, which commits
nothing that the first one relies on not to change. -/
theorem undisturbed_overtaken {p : ι → Txn σ κ ε α} {S : ι → σ → Prop} {R : ι → σ → σ → Prop}
    {db db' db'' : σ} {i j : ι} (hij : i ≠ j) (hrefl : ∀ k s, R k s s) (hSi : S i db)
    (hSi' : S i db') (hSj : S j db) (hR : R i db db') {n : ℕ} {a b : α}
    (hreads : (p i).selects db n = true) (hrun : (p j).run db = .ok (a, db'))
    (hrest : ((p i).afterSelects db n).run db' = .ok (b, db'')) :
    ∃ s t, StepsIf (Undisturbed p S R) (init db p) s ∧ Step i s t ∧ s.db = db' ∧ t.db = db'' ∧
      t.log = [(j, a), (i, b)] := by
  obtain ⟨s₁, hs₁, hdb₁, hlog₁, howner₁, hi₁, hother₁⟩ :=
    alone_afterSelects (s := init db p) (i := i) (w := id) rfl hreads
  have hj : s₁.txn j = .running id (p j) := hother₁ j hij.symm
  have hrun₁ : (p j).run (id s₁.db) = .ok (a, db') := by
    rw [hdb₁]
    exact hrun
  obtain ⟨u, hu⟩ := atCommit_of_run hj (fun key => .inl (by rw [howner₁]; rfl)) hrun₁
  obtain ⟨s₂, hcommit, h₂⟩ := hu.runsTo
  have hi₂ : s₂.txn i = .running id ((p i).afterSelects db n) := (h₂.other i hij).trans hi₁
  have hrest₂ : ((p i).afterSelects db n).run (id s₂.db) = .ok (b, db'') := by
    rw [h₂.db]
    exact hrest
  obtain ⟨s₃, h₃⟩ := atCommit_of_run hi₂ (fun key => .inl (h₂.owner key)) hrest₂
  obtain ⟨t, hst, ht⟩ := h₃.runsTo
  have hrunning : ∀ {x : Sys ι σ κ ε α} {k : ι} {c : α} {d : σ} {y : Sys ι σ κ ε α},
      AtCommit k x c d y → ∃ w q, y.txn k = .running w q := by
    intro x k c d y h
    obtain ⟨w, hw, -⟩ := h.ready
    exact ⟨w, _, hw⟩
  have hreading : StepsIf (Undisturbed p S R) (init db p) s₁ := by
    refine (StepsIf.refl _).quiet (fun v v' hothers hv hv' => ?_) hs₁ ⟨_, _, hi₁⟩
    refine ⟨fun _ => hv ▸ hSi, fun k hk hway => ?_⟩
    exact absurd hway (Idle.not_underWay (.inl (hothers k hk)))
  have hupto : StepsIf (Undisturbed p S R) (init db p) u := by
    refine hreading.quiet (fun v v' _ hv hv' => ⟨fun _ => ?_, fun k _ _ => ?_⟩) hu.alone
      (hrunning hu)
    · rw [hv, hdb₁]
      exact hSj
    · rw [hv, hv']
      exact hrefl k _
  have hovertaken : StepsIf (Undisturbed p S R) (init db p) s₂ := by
    have hdb : u.db = db := hu.db.trans hdb₁
    refine hupto.tail j hcommit ⟨fun _ => ?_, fun k hk hway => ?_⟩
    · rw [hdb]
      exact hSj
    · by_cases hki : k = i
      · subst hki
        rw [hdb, h₂.db]
        exact hR
      · have hwaits : Idle p u k := .inl ((hu.other k hk).trans (hother₁ k hki))
        exact absurd hway hwaits.not_underWay
  refine ⟨s₃, t, hovertaken.quiet (fun v v' _ hv hv' => ⟨fun _ => ?_, fun k _ _ => ?_⟩) h₃.alone
    (hrunning h₃), hst, h₃.db.trans h₂.db, ht.db, ?_⟩
  · rw [hv, h₂.db]
    exact hSi'
  · rw [hv, hv']
    exact hrefl k _
  · rw [ht.log, h₂.log, hlog₁]
    rfl

variable {L : Locking σ κ} {I : σ → Prop} {p : ι → Txn σ κ ε α} {S : ι → σ → Prop}
  {R : ι → σ → σ → Prop} {Q : ι → α → σ → σ → Prop}

/-- That a transaction has not begun, or behaves well from here on if the others respect `R`. -/
def relies (L : Locking σ κ) (I : σ → Prop) (p : Txn σ κ ε α) (R : σ → σ → Prop)
    (Q : α → σ → σ → Prop) : Assertion σ κ ε α := fun db facts w q =>
  (q = p ∧ w = id) ∨
    ∃ K : σ → Prop, K db ∧ (∀ s t, K s → R s t → K t) ∧ q.wpr L I R (RelyOk L I Q) K facts w

/-- What is known stays known when something more is seen. -/
theorem known_stable {R : σ → σ → Prop} (htrans : ∀ s t u, R s t → R t u → R s u)
    {K : σ → Prop} (hK : ∀ s t, K s → R s t → K t) (s₀ : σ) :
    ∀ s t, K s ∧ R s₀ s → R s t → K t ∧ R s₀ t :=
  fun s t hs hst => ⟨hK s t hs.1 hst, htrans _ _ _ hs.2 hst⟩

omit [DecidableEq κ] in
/-- The next statement of a transaction that relies on the others. -/
theorem relies_afterStatement {p : Txn σ κ ε α} {S : σ → Prop} {R : σ → σ → Prop}
    {Q : α → σ → σ → Prop} (hrefl : ∀ s, R s s)
    (htrans : ∀ s t u, R s t → R t u → R s u) (hp : p.wprFrom L I R S (RelyOk L I Q)) {db : σ}
    {facts : List (κ × σ)} {w : σ → σ} {q : Txn σ κ ε α} (hI : I db)
    (hknown : L.Known facts db) (hS : q = p → w = id → S db)
    (h : relies L I p R Q db facts w q) :
    Assertion.AfterStatement (relies L I p R Q) db facts w q := by
  have hrest : ∀ {K : σ → Prop}, K db → (∀ s t, K s → R s t → K t) →
      q.wpr L I R (RelyOk L I Q) K facts w →
      Assertion.AfterStatement (relies L I p R Q) db facts w q := by
    intro K hdb hK hwp
    have hmore := known_stable htrans hK db
    cases q with
    | ret a => trivial
    | raise e => trivial
    | select k => exact .inr ⟨_, ⟨hdb, hrefl db⟩, hmore, hwp db hI hdb hknown⟩
    | lock key k => exact .inr ⟨_, ⟨hdb, hrefl db⟩, hmore, hwp db hI hdb hknown⟩
    | skipLocked key k =>
      exact ⟨.inr ⟨_, ⟨hdb, hrefl db⟩, hmore, hwp.1 db hI hdb hknown⟩, .inr ⟨K, hdb, hK, hwp.2⟩⟩
    | write f k => exact .inr ⟨K, hdb, hK, hwp⟩
  rcases h with ⟨rfl, rfl⟩ | ⟨K, hdb, hK, hwp⟩
  · cases q with
    | select k =>
      exact .inr ⟨fun t => R db t, hrefl db, fun s t hs hst => htrans _ _ _ hs hst,
        Txn.wpr_of_subset (List.nil_subset facts) (hp db hI (hS rfl rfl))⟩
    | _ =>
      exact hrest (K := fun _ => True) trivial (fun _ _ _ _ => trivial)
        (Txn.wpr_of_subset (List.nil_subset facts) hp)
  · exact hrest hdb hK hwp

omit [DecidableEq κ] in
/-- What a transaction commits that relies on the others. -/
theorem relies_commit {p : Txn σ κ ε α} {S : σ → Prop} {R : σ → σ → Prop}
    {Q : α → σ → σ → Prop} (hp : p.wprFrom L I R S (RelyOk L I Q)) {db : σ}
    {facts : List (κ × σ)} {w : σ → σ} {a : α} (hI : I db) (hknown : L.Known facts db)
    (h : relies L I p R Q db facts w (.ret a)) :
    I (w db) ∧ Q a db (w db) ∧ ∀ key, (∀ f ∈ facts, f.1 ≠ key) → L.agree key db (w db) := by
  rcases h with ⟨rfl, rfl⟩ | ⟨K, hdb, -, hwp⟩
  · exact hp.of_subset (List.nil_subset facts) db hI trivial hknown
  · exact hwp db hI hdb hknown

omit [DecidableEq ι] [DecidableEq κ] in
/-- Transactions that rely as stated do so in the initial system. -/
theorem holds_relies_init {db : σ} (hI : I db) :
    Holds L I (fun i => relies L I (p i) (R i) (Q i)) (init db p) :=
  holds_init hI fun _ => .inl ⟨rfl, rfl⟩

section Step

variable (hrefl : ∀ i s, R i s s) (htrans : ∀ i s t u, R i s t → R i t u → R i s u)
  (hp : ∀ i, (p i).wprFrom L I (R i) (S i) (RelyOk L I (Q i)))

include hp in
omit [DecidableEq ι] [DecidableEq κ] in
/-- The effect of a commit. -/
theorem Holds.relies_commit {s : Sys ι σ κ ε α} {i : ι}
    (h : Holds L I (fun i => relies L I (p i) (R i) (Q i)) s) {w : σ → σ} {a : α}
    (hi : s.txn i = .running w (.ret a)) :
    I (w s.db) ∧ Q i a s.db (w s.db) ∧
      ∀ key j, j ≠ i → s.owner key = some j → L.agree key s.db (w s.db) := by
  obtain ⟨facts, hheld, hknown, hA⟩ := h.txn i w _ hi
  obtain ⟨hI, hQ, hframe⟩ := Sys.relies_commit (hp i) h.db hknown hA
  refine ⟨hI, hQ, fun key j hj hown => hframe key ?_⟩
  rintro f hf rfl
  have hi' := hheld f hf
  rw [hi'] at hown
  exact hj (Option.some.inj hown).symm

include hrefl htrans hp in
/-- Every undisturbed statement keeps what the transactions rely on. -/
theorem Holds.relies_step {s t : Sys ι σ κ ε α} {i : ι}
    (h : Holds L I (fun i => relies L I (p i) (R i) (Q i)) s) (hst : Step i s t)
    (hC : Undisturbed p S R s i t) :
    Holds L I (fun i => relies L I (p i) (R i) (Q i)) t := by
  refine h.step_of hst ?_ ?_
  · intro facts w q hi hknown hA
    refine relies_afterStatement (hrefl i) (htrans i) (hp i) h.db hknown ?_ hA
    rintro rfl rfl
    exact hC.first hi
  · intro w a hi ht
    obtain ⟨hI, -, hframe⟩ := h.relies_commit hp hi
    refine ⟨hI, hframe, fun j hj facts w' q hq hA => ?_⟩
    by_cases hbegun : s.txn j = .running id (p j)
    · rw [hbegun] at hq
      cases hq
      exact .inl ⟨rfl, rfl⟩
    · rcases hA with hfirst | ⟨K, hdb, hK, hwp⟩
      · exact .inl hfirst
      · have hR := hC.others j hj ⟨w', q, hq, hbegun⟩
        rw [ht] at hR
        exact .inr ⟨K, hK _ _ hdb hR, hK, hwp⟩

include hrefl htrans hp in
/-- What the transactions rely on holds in every undisturbed interleaving. -/
theorem StepsIf.holds_relies {db : σ} {C : Sys ι σ κ ε α → ι → Sys ι σ κ ε α → Prop}
    {t : Sys ι σ κ ε α} (hI : I db)
    (hC : ∀ i s t, Step i s t → C s i t → I s.db →
      (∀ w a, s.txn i = .running w (.ret a) → Q i a s.db (w s.db)) → Undisturbed p S R s i t)
    (h : StepsIf C (init db p) t) : Holds L I (fun i => relies L I (p i) (R i) (Q i)) t := by
  refine h.preserve ?_ (holds_relies_init hI)
  intro i s t hst hif hs
  have hcommit : ∀ w a, s.txn i = .running w (.ret a) → Q i a s.db (w s.db) :=
    fun w a hi => (hs.relies_commit hp hi).2.1
  exact hs.relies_step hrefl htrans hp hst (hC i s t hst hif hs.db hcommit)

include hrefl htrans hp in
/-- In every undisturbed interleaving the database is the result of the commits in the log. -/
theorem StepsIf.commits {db : σ} {C : Sys ι σ κ ε α → ι → Sys ι σ κ ε α → Prop}
    {t : Sys ι σ κ ε α} (hI : I db)
    (hC : ∀ i s t, Step i s t → C s i t → I s.db →
      (∀ w a, s.txn i = .running w (.ret a) → Q i a s.db (w s.db)) → Undisturbed p S R s i t)
    (h : StepsIf C (init db p) t) : I t.db ∧ Commits Q db t.log t.db := by
  refine ⟨(h.holds_relies hrefl htrans hp hI hC).db, ?_⟩
  induction h with
  | refl => exact .nil
  | @tail s t i hs hst hif ih =>
    cases hst with
    | commit hi =>
      have hholds := hs.holds_relies hrefl htrans hp hI hC
      exact ih.snoc i _ (hholds.relies_commit hp hi).2.1
    | _ => exact ih

end Step

section Relying

variable {R : σ → σ → Prop} {db : σ} {s t : Sys ι σ κ ε α} (hrefl : ∀ s, R s s)
  (htrans : ∀ s t u, R s t → R t u → R s u)
  (hp : ∀ i, (p i).wpr L I R (RelyOk L I fun a s t => R s t ∧ Q i a s t) (fun _ => True) [] id)
  (hI : I db)

include hrefl htrans hp hI

/-- What every commit respects whatever the others do, each program may rely on. -/
theorem Steps.relying_since (h : Steps (init db p) s) (h' : Steps s t) :
    I t.db ∧ ∃ log, t.log = s.log ++ log ∧
      Commits (fun i a s t => R s t ∧ Q i a s t) s.db log t.db := by
  have hfrom : ∀ i, (p i).wprFrom L I R (fun _ => True)
      (RelyOk L I fun a s t => R s t ∧ Q i a s t) := fun i =>
    Txn.wprFrom_of_wpr (fun _ _ _ _ _ hK hok => hok.of_imp hK) (hp i)
  have hholds : ∀ {u : Sys ι σ κ ε α}, Steps (init db p) u →
      Holds L I (fun i => relies L I (p i) R fun a s t => R s t ∧ Q i a s t) u := by
    intro u hu
    refine (hu.stepsIf (C := fun _ _ _ => True) fun _ _ _ => trivial).holds_relies
      (S := fun _ _ => True) (R := fun _ => R) (fun _ => hrefl) (fun _ => htrans) hfrom hI ?_
    intro i s t hst _ _ hcommit
    refine ⟨fun _ => trivial, fun j _ _ => ?_⟩
    cases hst with
    | commit hi => exact (hcommit _ _ hi).1
    | _ => exact hrefl _
  refine ⟨(hholds (h.trans h')).db, ?_⟩
  induction h' with
  | refl => exact ⟨[], (List.append_nil _).symm, .nil⟩
  | tail i hst hstep ih =>
    obtain ⟨log, hlog, hcommits⟩ := ih
    cases hstep with
    | @commit w a hi =>
      refine ⟨log ++ [(i, a)], ?_,
        hcommits.snoc i a ((hholds (h.trans hst)).relies_commit (R := fun _ => R)
          (S := fun _ _ => True) hfrom hi).2.1⟩
      change _ ++ [(i, a)] = _
      rw [hlog, List.append_assoc]
    | _ => exact ⟨log, hlog, hcommits⟩

/-- The same from the beginning on. -/
theorem Steps.relying (h : Steps (init db p) t) :
    I t.db ∧ Commits (fun i a s t => R s t ∧ Q i a s t) db t.log t.db := by
  obtain ⟨hIt, log, hlog, hcommits⟩ :=
    Steps.relying_since hrefl htrans hp hI (Steps.refl (init db p)) h
  rw [show t.log = log from hlog]
  exact ⟨hIt, hcommits⟩

end Relying

end Sys

end Marketplace.Lib
