import Mathlib.Logic.Function.Basic
import Mathlib.Tactic.Common

/-!
# Database transactions as programs

A transaction is a sequence of statements over a database of type `σ`, whose rows
are locked under keys of type `κ`. It ends by returning a value, which commits, or
by raising an error, which rolls back. This file gives the programs, their monad
and their meaning when nothing else runs; `Concurrency` interleaves them.
-/

namespace Marketplace.Lib

/-- A transaction over the database `σ` with row locks `κ`, errors `ε` and result `α`. -/
inductive Txn (σ κ ε α : Type) : Type
  /-- Return; the session commits. -/
  | ret (a : α)
  /-- Raise; the session rolls back. -/
  | raise (e : ε)
  /-- A plain `SELECT`, which takes no row lock. -/
  | select (k : σ → Txn σ κ ε α)
  /-- One row of a `SELECT … FOR UPDATE`, an `UPDATE` or an `INSERT`: wait for the
  lock on `key`, then see the latest committed version. -/
  | lock (key : κ) (k : σ → Txn σ κ ε α)
  /-- One row of a `SELECT … FOR UPDATE SKIP LOCKED`: do not wait. -/
  | skipLocked (key : κ) (k : Option σ → Txn σ κ ε α)
  /-- A change of rows this transaction has locked, invisible to others until the commit. -/
  | write (f : σ → σ) (k : Txn σ κ ε α)

namespace Txn

variable {σ κ ε α β : Type}

/-- Sequential composition. -/
def bind : Txn σ κ ε α → (α → Txn σ κ ε β) → Txn σ κ ε β
  | ret a, f => f a
  | raise e, _ => raise e
  | select k, f => select fun s => (k s).bind f
  | lock key k, f => lock key fun s => (k s).bind f
  | skipLocked key k, f => skipLocked key fun s => (k s).bind f
  | write g k, f => write g (k.bind f)

instance : Monad (Txn σ κ ε) where
  pure := ret
  bind := bind

/-- `pure` of the monad is a value. -/
@[simp] theorem pure_eq (a : α) : (pure a : Txn σ κ ε α) = ret a := rfl

/-- The composition of the monad. -/
@[simp] theorem bind_eq (p : Txn σ κ ε α) (f : α → Txn σ κ ε β) : p >>= f = p.bind f := rfl

/-- Returning the result of a program is the program. -/
theorem bind_ret (p : Txn σ κ ε α) : p.bind ret = p := by
  induction p with
  | ret a => rfl
  | raise e => rfl
  | select k ih => exact congrArg select (funext ih)
  | lock key k ih => exact congrArg (lock key) (funext ih)
  | skipLocked key k ih => exact congrArg (skipLocked key) (funext ih)
  | write f k ih => exact congrArg (write f) ih

/-- Composition is associative. -/
theorem bind_assoc {γ : Type} (p : Txn σ κ ε α) (f : α → Txn σ κ ε β) (g : β → Txn σ κ ε γ) :
    (p.bind f).bind g = p.bind fun a => (f a).bind g := by
  induction p with
  | ret a => rfl
  | raise e => rfl
  | select k ih => exact congrArg select (funext ih)
  | lock key k ih => exact congrArg (lock key) (funext ih)
  | skipLocked key k ih => exact congrArg (skipLocked key) (funext ih)
  | write f k ih => exact congrArg (write f) ih

instance : LawfulMonad (Txn σ κ ε) :=
  LawfulMonad.mk' _ bind_ret (fun _ _ => rfl) bind_assoc

/-! ### Statements -/

/-- The database as a plain `SELECT` sees it. -/
def read : Txn σ κ ε σ := select ret

/-- The database once the lock on `key` is held. -/
def acquire (key : κ) : Txn σ κ ε σ := lock key ret

/-- The database if the lock on `key` is free, which this then takes. -/
def tryAcquire (key : κ) : Txn σ κ ε (Option σ) := skipLocked key ret

/-- A change of rows that are already locked. -/
def modify (f : σ → σ) : Txn σ κ ε Unit := write f (ret ())

/-- `UPDATE` of one row by its key. -/
def updateRow (key : κ) (f : σ → σ) : Txn σ κ ε Unit := lock key fun _ => write f (ret ())

/-- `if bad: raise e`. -/
def raiseIf (bad : Prop) [Decidable bad] (e : ε) : Txn σ κ ε Unit := if bad then raise e else ret ()

/-- `if x is None: raise e`. -/
def getOrRaise (x : Option α) (e : ε) : Txn σ κ ε α :=
  match x with
  | none => raise e
  | some a => ret a

/-- A value goes on with what follows. -/
theorem ret_bind (a : α) (f : α → Txn σ κ ε β) : (ret a).bind f = f a := rfl

/-- An error ends the program. -/
theorem raise_bind (e : ε) (f : α → Txn σ κ ε β) : (raise e).bind f = raise e := rfl

/-- A check that fails raises. -/
theorem raiseIf_of {bad : Prop} [Decidable bad] (h : bad) (e : ε) :
    (raiseIf bad e : Txn σ κ ε Unit) = raise e := if_pos h

/-- A check that passes does nothing. -/
theorem raiseIf_of_not {bad : Prop} [Decidable bad] (h : ¬bad) (e : ε) :
    (raiseIf bad e : Txn σ κ ε Unit) = ret () := if_neg h

/-- The program has no statement: it returns or raises at once. -/
def IsValue : Txn σ κ ε α → Prop
  | ret _ => True
  | raise _ => True
  | _ => False

namespace IsValue

/-- One value after the other. -/
theorem bind {p : Txn σ κ ε α} {f : α → Txn σ κ ε β} (hp : p.IsValue) (hf : ∀ a, (f a).IsValue) :
    (p >>= f).IsValue := by
  cases p with
  | ret a => exact hf a
  | raise e => trivial
  | _ => exact hp.elim

/-- A value is one. -/
theorem pure (a : α) : (pure a : Txn σ κ ε α).IsValue := trivial

/-- A check is a value or an error. -/
theorem raiseIf (bad : Prop) [Decidable bad] (e : ε) :
    (raiseIf bad e : Txn σ κ ε Unit).IsValue := by
  unfold Txn.raiseIf
  split
  · trivial
  · trivial

/-- So is a lookup. -/
theorem getOrRaise (x : Option α) (e : ε) : (getOrRaise x e : Txn σ κ ε α).IsValue := by
  cases x with
  | none => trivial
  | some a => trivial

end IsValue

/-- The next `n` statements are plain `SELECT`s, if they see `s`. -/
def selects (s : σ) : ℕ → Txn σ κ ε α → Bool
  | 0, _ => true
  | n + 1, select k => (k s).selects s n
  | _ + 1, _ => false

/-- The program after `n` plain `SELECT`s that see `s`. -/
def afterSelects (s : σ) : ℕ → Txn σ κ ε α → Txn σ κ ε α
  | 0, p => p
  | n + 1, select k => (k s).afterSelects s n
  | _ + 1, p => p

/-! ### Running alone -/

/-- The meaning of a transaction that runs alone from the database `s`. -/
def run : Txn σ κ ε α → σ → Except ε (α × σ)
  | ret a, s => .ok (a, s)
  | raise e, _ => .error e
  | select k, s => (k s).run s
  | lock _ k, s => (k s).run s
  | skipLocked _ k, s => (k (some s)).run s
  | write f k, s => k.run (f s)

/-- A value is returned. -/
theorem run_ret (a : α) (s : σ) : (ret a : Txn σ κ ε α).run s = .ok (a, s) := rfl

/-- An error is raised. -/
theorem run_raise (e : ε) (s : σ) : (raise e : Txn σ κ ε α).run s = .error e := rfl

/-- A read returns the state. -/
theorem run_read (s : σ) : (read : Txn σ κ ε σ).run s = .ok (s, s) := rfl

/-- A lock returns the state when the program runs alone. -/
theorem run_acquire (key : κ) (s : σ) : (acquire key : Txn σ κ ε σ).run s = .ok (s, s) := rfl

/-- A lock that may be skipped is free when the program runs alone. -/
theorem run_tryAcquire (key : κ) (s : σ) :
    (tryAcquire key : Txn σ κ ε (Option σ)).run s = .ok (some s, s) := rfl

/-- A write changes the state. -/
theorem run_modify (f : σ → σ) (s : σ) :
    (modify f : Txn σ κ ε Unit).run s = .ok ((), f s) := rfl

/-- An `UPDATE` by key changes the state. -/
theorem run_updateRow (key : κ) (f : σ → σ) (s : σ) :
    (updateRow key f : Txn σ κ ε Unit).run s = .ok ((), f s) := rfl

/-- The session dependency of a request: commit when the endpoint returns, roll
back when it raises. -/
def session (p : Txn σ κ ε α) (s : σ) : Except ε α × σ :=
  match p.run s with
  | .ok (a, s') => (.ok a, s')
  | .error e => (.error e, s)

/-- A composition runs its second part from where the first part ended. -/
theorem run_bind (p : Txn σ κ ε α) (f : α → Txn σ κ ε β) (s : σ) :
    (p.bind f).run s = (p.run s).bind fun r => (f r.1).run r.2 := by
  induction p generalizing s with
  | ret a => rfl
  | raise e => rfl
  | select k ih => exact ih s s
  | lock key k ih => exact ih s s
  | skipLocked key k ih => exact ih (some s) s
  | write g k ih => exact ih (g s)

/-- A program goes on from where its first part has returned. -/
theorem run_bind_of_ok {p : Txn σ κ ε α} {f : α → Txn σ κ ε β} {s t : σ} {a : α}
    (h : p.run s = .ok (a, t)) : (p.bind f).run s = (f a).run t := by
  rw [run_bind, h]
  rfl

/-- A program raises what its first part raises. -/
theorem run_bind_of_error {p : Txn σ κ ε α} {f : α → Txn σ κ ε β} {s : σ} {e : ε}
    (h : p.run s = .error e) : (p.bind f).run s = .error e := by
  rw [run_bind, h]
  rfl

/-- A composition returns exactly when both of its parts do. -/
@[simp] theorem run_bind_ok {p : Txn σ κ ε α} {f : α → Txn σ κ ε β} {s s' : σ} {b : β} :
    (p.bind f).run s = .ok (b, s') ↔
      ∃ a t, p.run s = .ok (a, t) ∧ (f a).run t = .ok (b, s') := by
  rw [run_bind]
  cases hp : p.run s with
  | error e => simp [Except.bind]
  | ok r =>
    obtain ⟨a, t⟩ := r
    constructor
    · exact fun h => ⟨a, t, rfl, h⟩
    · rintro ⟨a', t', heq, h⟩
      obtain ⟨rfl, rfl⟩ := Prod.mk.inj (Except.ok.inj heq)
      exact h

/-- What a value returns. -/
@[simp] theorem run_ret_ok {a b : α} {s s' : σ} :
    (ret a : Txn σ κ ε α).run s = .ok (b, s') ↔ a = b ∧ s = s' := by
  simp [run_ret]

/-- An error returns nothing. -/
@[simp] theorem run_raise_ok {e : ε} {b : α} {s s' : σ} :
    (raise e : Txn σ κ ε α).run s = .ok (b, s') ↔ False := by
  simp [run_raise]

/-- What a read returns. -/
@[simp] theorem run_read_ok {s s' t : σ} :
    (read : Txn σ κ ε σ).run s = .ok (t, s') ↔ s = t ∧ s = s' := by
  simp [run_read]

/-- What a lock returns. -/
@[simp] theorem run_acquire_ok {key : κ} {s s' t : σ} :
    (acquire key : Txn σ κ ε σ).run s = .ok (t, s') ↔ s = t ∧ s = s' := by
  simp [run_acquire]

/-- What a lock that may be skipped returns. -/
@[simp] theorem run_tryAcquire_ok {key : κ} {s s' : σ} {t : Option σ} :
    (tryAcquire key : Txn σ κ ε (Option σ)).run s = .ok (t, s') ↔ some s = t ∧ s = s' := by
  simp [run_tryAcquire]

/-- What a write leaves. -/
@[simp] theorem run_modify_ok {f : σ → σ} {s s' : σ} {u : Unit} :
    (modify f : Txn σ κ ε Unit).run s = .ok (u, s') ↔ s' = f s := by
  simp [run_modify, eq_comm]

/-- What an `UPDATE` by key leaves. -/
@[simp] theorem run_updateRow_ok {key : κ} {f : σ → σ} {s s' : σ} {u : Unit} :
    (updateRow key f : Txn σ κ ε Unit).run s = .ok (u, s') ↔ s' = f s := by
  simp [run_updateRow, eq_comm]

/-- A check returns if it passes. -/
@[simp] theorem run_raiseIf_ok {bad : Prop} [Decidable bad] {e : ε} {s s' : σ} {u : Unit} :
    (raiseIf bad e : Txn σ κ ε Unit).run s = .ok (u, s') ↔ ¬bad ∧ s = s' := by
  by_cases h : bad <;> simp [raiseIf, h]

/-- A lookup returns what is found. -/
@[simp] theorem run_getOrRaise_ok {x : Option α} {e : ε} {s s' : σ} {a : α} :
    (getOrRaise x e : Txn σ κ ε α).run s = .ok (a, s') ↔ x = some a ∧ s = s' := by
  cases x with
  | none => simp [getOrRaise]
  | some b => simp [getOrRaise]

/-- Returning from a conditional is returning from the branch taken. -/
@[simp] theorem run_ite_ok {c : Prop} [Decidable c] {p q : Txn σ κ ε α} {s s' : σ} {a : α} :
    (if c then p else q).run s = .ok (a, s') ↔
      (c ∧ p.run s = .ok (a, s')) ∨ (¬c ∧ q.run s = .ok (a, s')) := by
  by_cases h : c <;> simp [h]

/-- A request that raises leaves the database as it was. -/
theorem session_error {p : Txn σ κ ε α} {s : σ} {e : ε} (h : (p.session s).1 = .error e) :
    (p.session s).2 = s := by
  unfold session at h ⊢
  cases hrun : p.run s with
  | error e' => rfl
  | ok r => simp [hrun] at h

/-- A session that fails has run its program to an error. -/
theorem run_of_session_error {p : Txn σ κ ε α} {s : σ} {e : ε} (h : (p.session s).1 = .error e) :
    p.run s = .error e := by
  unfold session at h
  cases hrun : p.run s with
  | error e' => simpa [hrun] using h
  | ok r => simp [hrun] at h

/-- A request that returns leaves the database its program ends in. -/
theorem session_ok {p : Txn σ κ ε α} {s : σ} {a : α} (h : (p.session s).1 = .ok a) :
    p.run s = .ok (a, (p.session s).2) := by
  unfold session at h ⊢
  cases hrun : p.run s with
  | error e' => simp [hrun] at h
  | ok r =>
    obtain ⟨b, t⟩ := r
    simp only [hrun, Except.ok.injEq] at h
    simp [h]

/-- A session that returns has run its program to the end. -/
theorem run_of_session {p : Txn σ κ ε α} {s : σ} (h : (p.session s).1.toBool = true) :
    ∃ a, p.run s = .ok (a, (p.session s).2) := by
  cases hr : (p.session s).1 with
  | error e =>
    rw [hr] at h
    cases h
  | ok a => exact ⟨a, session_ok hr⟩

/-- The session of a program that runs to its end. -/
theorem session_of_run {p : Txn σ κ ε α} {s s' : σ} {a : α} (h : p.run s = .ok (a, s')) :
    p.session s = (.ok a, s') := by
  rw [session, h]

/-- Whenever the program returns, its result and the database it leaves satisfy `Q`. -/
def Ensures (Q : α → σ → Prop) (p : Txn σ κ ε α) : Prop :=
  ∀ s a s', p.run s = .ok (a, s') → Q a s'

/-- What the second part of a composition ensures, the composition ensures. -/
theorem Ensures.bind {Q : β → σ → Prop} {p : Txn σ κ ε α} {f : α → Txn σ κ ε β}
    (h : ∀ a, (f a).Ensures Q) : (p >>= f).Ensures Q := by
  intro s b s' hrun
  obtain ⟨a, t, -, hf⟩ := run_bind_ok.mp hrun
  exact h a t b s' hf

end Txn

end Marketplace.Lib
