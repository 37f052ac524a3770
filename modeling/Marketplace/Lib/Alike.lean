import Mathlib.Data.List.Forall2
import Marketplace.Lib.Concurrency

/-!
# Transactions that nobody can tell apart

A relation `R` says what two databases have in common. Two programs are alike if they take the
same statements under the same locks as long as they see related databases, keep related
databases related, raise the same errors and return related results. `Sys.Steps.alike` carries
this over to any number of transactions: whatever interleaving the one server can take, the other
one can take as well, and what it answers is related.
-/

namespace Marketplace.Lib

namespace Txn

variable {σ κ ε α β γ δ : Type}

/-- The programs take the same statements, whichever of two related databases they see, and
return related results. -/
inductive Alike (R : σ → σ → Prop) (T : α → β → Prop) : Txn σ κ ε α → Txn σ κ ε β → Prop
  | ret {a b} : T a b → Alike R T (ret a) (ret b)
  | raise (e) : Alike R T (raise e) (raise e)
  | select {k k'} : (∀ s t, R s t → Alike R T (k s) (k' t)) → Alike R T (select k) (select k')
  | lock {key k k'} : (∀ s t, R s t → Alike R T (k s) (k' t)) →
      Alike R T (lock key k) (lock key k')
  | skipLocked {key k k'} : (∀ s t, R s t → Alike R T (k (some s)) (k' (some t))) →
      Alike R T (k none) (k' none) → Alike R T (skipLocked key k) (skipLocked key k')
  | write {f g k k'} : (∀ s t, R s t → R (f s) (g t)) → Alike R T k k' →
      Alike R T (write f k) (write g k')

/-- The program does not see the difference between related databases. -/
def Blind (R : σ → σ → Prop) (p : Txn σ κ ε α) : Prop := p.Alike R Eq p

variable {R : σ → σ → Prop}

namespace Alike

variable {T : α → β → Prop} {U : γ → δ → Prop} {p : Txn σ κ ε α} {q : Txn σ κ ε β}

/-- The rule of composition. -/
theorem bind {f : α → Txn σ κ ε γ} {g : β → Txn σ κ ε δ} (h : p.Alike R T q)
    (hfg : ∀ a b, T a b → (f a).Alike R U (g b)) : (p >>= f).Alike R U (q >>= g) := by
  induction h with
  | ret hab => exact hfg _ _ hab
  | raise e => exact .raise e
  | select _ ih => exact .select ih
  | lock _ ih => exact .lock ih
  | skipLocked _ _ ih ihnone => exact .skipLocked ih ihnone
  | write hf _ ih => exact .write hf ih

/-- What is related is related more loosely as well. -/
theorem mono {T' : α → β → Prop} (hT : ∀ a b, T a b → T' a b) (h : p.Alike R T q) :
    p.Alike R T' q := by
  induction h with
  | ret hab => exact .ret (hT _ _ hab)
  | raise e => exact .raise e
  | select _ ih => exact .select ih
  | lock _ ih => exact .lock ih
  | skipLocked _ _ ih ihnone => exact .skipLocked ih ihnone
  | write hf _ ih => exact .write hf ih

/-- Running alone from related databases, programs that are alike raise the same error, or return
related results and leave related databases. -/
theorem run (h : p.Alike R T q) {s t : σ} (hst : R s t) :
    (∃ e, p.run s = .error e ∧ q.run t = .error e) ∨
      ∃ a b s' t', p.run s = .ok (a, s') ∧ q.run t = .ok (b, t') ∧ T a b ∧ R s' t' := by
  induction h generalizing s t with
  | ret hab => exact .inr ⟨_, _, s, t, rfl, rfl, hab, hst⟩
  | raise e => exact .inl ⟨e, rfl, rfl⟩
  | select _ ih => exact ih s t hst hst
  | lock _ ih => exact ih s t hst hst
  | skipLocked _ _ ih _ => exact ih s t hst hst
  | write hf _ ih => exact ih (hf s t hst)

/-- A `SELECT` whose result the programs use alike. -/
theorem read_bind {f : σ → Txn σ κ ε α} {g : σ → Txn σ κ ε β}
    (h : ∀ s t, R s t → (f s).Alike R T (g t)) :
    ((read : Txn σ κ ε σ) >>= f).Alike R T (read >>= g) := .select h

end Alike

namespace Blind

variable {p : Txn σ κ ε α}

/-- Blind programs compose. -/
theorem bind {f : α → Txn σ κ ε β} (hp : p.Blind R) (hf : ∀ a, (f a).Blind R) :
    (p >>= f).Blind R :=
  Alike.bind hp fun a _ heq => heq ▸ hf a

/-- Returning a value is blind. -/
theorem pure (a : α) : (pure a : Txn σ κ ε α).Blind R := .ret rfl

/-- Raising is blind. -/
theorem raise (e : ε) : (raise e : Txn σ κ ε α).Blind R :=
  Alike.raise e

/-- A write that respects the relation is blind. -/
theorem updateRow {key : κ} {f : σ → σ} (hf : ∀ s t, R s t → R (f s) (f t)) :
    (updateRow key f : Txn σ κ ε Unit).Blind R :=
  .lock fun _ _ _ => .write hf (.ret rfl)

/-- A check that does not read the state is blind. -/
theorem raiseIf (bad : Prop) [Decidable bad] (e : ε) :
    (raiseIf bad e : Txn σ κ ε Unit).Blind R := by
  unfold Txn.raiseIf
  split
  · exact .raise e
  · exact .ret rfl

/-- A check on a value at hand is blind. -/
theorem getOrRaise (x : Option α) (e : ε) : (getOrRaise x e : Txn σ κ ε α).Blind R := by
  cases x with
  | none => exact .raise e
  | some a => exact .ret rfl

/-- A branch between blind programs is blind. -/
theorem ite {c : Prop} [Decidable c] {p q : Txn σ κ ε α} (hp : p.Blind R) (hq : q.Blind R) :
    (if c then p else q).Blind R := by
  split
  · exact hp
  · exact hq

end Blind

end Txn

/-! ### Servers -/

/-- Two transactions at corresponding points. -/
inductive Status.Alike {σ κ ε α β : Type} (R : σ → σ → Prop) (T : α → β → Prop) :
    Status σ κ ε α → Status σ κ ε β → Prop
  | running {w w' p q} : (∀ s t, R s t → R (w s) (w' t)) → p.Alike R T q →
      Alike R T (.running w p) (.running w' q)
  | committed {a b} : T a b → Alike R T (.committed a) (.committed b)
  | aborted (e) : Alike R T (.aborted e) (.aborted e)

namespace Sys

variable {ι σ κ ε α β : Type} [DecidableEq ι] [DecidableEq κ]

/-- Two servers at corresponding points. -/
structure Alike (R : σ → σ → Prop) (T : ι → α → β → Prop) (s : Sys ι σ κ ε α)
    (t : Sys ι σ κ ε β) : Prop where
  db : R s.db t.db
  owner : t.owner = s.owner
  txn : ∀ i, (s.txn i).Alike R (T i) (t.txn i)
  log : List.Forall₂ (fun x y => x.1 = y.1 ∧ T x.1 x.2 y.2) s.log t.log

variable {R : σ → σ → Prop} {T : ι → α → β → Prop} {s s' : Sys ι σ κ ε α} {t : Sys ι σ κ ε β}
  {i : ι}

omit [DecidableEq ι] [DecidableEq κ] in
/-- Alike programs on related databases start alike. -/
theorem Alike.init {db db' : σ} {p : ι → Txn σ κ ε α} {q : ι → Txn σ κ ε β} (hdb : R db db')
    (hpq : ∀ i, (p i).Alike R (T i) (q i)) : (Sys.init db p).Alike R T (Sys.init db' q) where
  db := hdb
  owner := rfl
  txn i := .running (fun _ _ h => h) (hpq i)
  log := .nil

omit [DecidableEq κ] in
/-- A status replaced by an alike one keeps the systems alike. -/
theorem Alike.update (h : s.Alike R T t) {x : Status σ κ ε α} {y : Status σ κ ε β}
    (hxy : x.Alike R (T i) y) (j : ι) :
    (Function.update s.txn i x j).Alike R (T j) (Function.update t.txn i y j) := by
  by_cases hj : j = i
  · subst hj
    simpa using hxy
  · simpa [hj] using h.txn j

omit [DecidableEq κ] in
/-- One transaction goes on in both servers. -/
theorem Alike.goto (h : s.Alike R T t) {x : Status σ κ ε α} {y : Status σ κ ε β}
    (hxy : x.Alike R (T i) y) : (s.goto i x).Alike R T (t.goto i y) where
  db := h.db
  owner := h.owner
  txn := h.update hxy
  log := h.log

omit [DecidableEq ι] in
/-- Taking a lock keeps the systems alike. -/
theorem Alike.take (h : s.Alike R T t) (key : κ) : (s.take i key).Alike R T (t.take i key) where
  db := h.db
  owner := by rw [Sys.take, Sys.take, h.owner]
  txn := h.txn
  log := h.log

omit [DecidableEq ι] [DecidableEq κ] in
/-- A lock is free in both or in neither. -/
theorem Alike.free (h : s.Alike R T t) {key : κ} : t.Free i key ↔ s.Free i key := by
  rw [Free, Free, h.owner]

omit [DecidableEq κ] in
/-- Both release the same locks. -/
theorem Alike.release (h : s.Alike R T t) : t.release i = s.release i := by
  funext key
  rw [Sys.release, Sys.release, h.owner]

omit [DecidableEq κ] in
/-- Commits of respectful writes keep the systems alike. -/
theorem Alike.commit (h : s.Alike R T t) {w w' : σ → σ} {a : α} {b : β}
    (hw : ∀ s t, R s t → R (w s) (w' t)) (hab : T i a b) :
    (s.commit i w a).Alike R T (t.commit i w' b) where
  db := hw _ _ h.db
  owner := h.release
  txn := h.update (.committed hab)
  log := List.rel_append h.log (.cons ⟨rfl, hab⟩ .nil)

omit [DecidableEq κ] in
/-- Aborts keep the systems alike. -/
theorem Alike.abort (h : s.Alike R T t) (e : Option ε) :
    (s.abort i e).Alike R T (t.abort i e) where
  db := h.db
  owner := h.release
  txn := h.update (.aborted e)
  log := h.log

/-- A statement of the one server is one of the other. -/
theorem Alike.step (h : s.Alike R T t) (hst : Step i s s') :
    ∃ t', Step i t t' ∧ s'.Alike R T t' := by
  have hi := h.txn i
  generalize hrun' : t.txn i = y at hi
  cases hst with
  | select hrun =>
    rw [hrun] at hi
    cases hi with
    | running hw hp =>
      cases hp with
      | select hk => exact ⟨_, .select hrun', h.goto (.running hw (hk _ _ (hw _ _ h.db)))⟩
  | lock hrun hfree =>
    rw [hrun] at hi
    cases hi with
    | running hw hp =>
      cases hp with
      | lock hk =>
        exact ⟨_, .lock hrun' (h.free.mpr hfree),
          (h.take _).goto (.running hw (hk _ _ (hw _ _ h.db)))⟩
  | lockFree hrun hfree =>
    rw [hrun] at hi
    cases hi with
    | running hw hp =>
      cases hp with
      | skipLocked hk hnone =>
        exact ⟨_, .lockFree hrun' (h.free.mpr hfree),
          (h.take _).goto (.running hw (hk _ _ (hw _ _ h.db)))⟩
  | lockTaken hrun hfree =>
    rw [hrun] at hi
    cases hi with
    | running hw hp =>
      cases hp with
      | skipLocked hk hnone =>
        exact ⟨_, .lockTaken hrun' (mt h.free.mp hfree), h.goto (.running hw hnone)⟩
  | write hrun =>
    rw [hrun] at hi
    cases hi with
    | running hw hp =>
      cases hp with
      | write hf hk =>
        exact ⟨_, .write hrun', h.goto (.running (fun a b hab => hf _ _ (hw a b hab)) hk)⟩
  | commit hrun =>
    rw [hrun] at hi
    cases hi with
    | running hw hp =>
      cases hp with
      | ret hab => exact ⟨_, .commit hrun', h.commit hw hab⟩
  | raise hrun =>
    rw [hrun] at hi
    cases hi with
    | running hw hp =>
      cases hp with
      | raise e => exact ⟨_, .raise hrun', h.abort _⟩
  | kill hrun =>
    rw [hrun] at hi
    cases hi with
    | running hw hp => exact ⟨_, .kill hrun', h.abort none⟩

/-- Any interleaving of the one server is an interleaving of the other. -/
theorem Steps.alike (hs : Steps s s') (h : s.Alike R T t) : ∃ t', Steps t t' ∧ s'.Alike R T t' := by
  induction hs with
  | refl => exact ⟨t, .refl t, h⟩
  | tail i _ hst ih =>
    obtain ⟨t', ht, h'⟩ := ih
    obtain ⟨t'', hst', h''⟩ := h'.step hst
    exact ⟨t'', ht.tail i hst', h''⟩

end Sys

end Marketplace.Lib
