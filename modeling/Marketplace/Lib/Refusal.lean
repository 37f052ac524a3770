import Marketplace.Lib.Errors

/-!
# Refusing before anything has changed

A raise rolls the transaction back, but the session object keeps what the program has changed
so far. `Txn.attempt` shows the database as the session sees it at the end, also when the
program has raised. `Txn.RefusesFirst` says that a program raises none of some errors once it
has changed anything, and is checked statement by statement.
-/

namespace Marketplace.Lib

namespace Txn

variable {σ κ ε α β : Type}

/-- The outcome of a program that runs alone from `s`, with the database as its session sees
it then. -/
def attempt : Txn σ κ ε α → σ → Except ε α × σ
  | ret a, s => (.ok a, s)
  | raise e, s => (.error e, s)
  | select k, s => (k s).attempt s
  | lock _ k, s => (k s).attempt s
  | skipLocked _ k, s => (k (some s)).attempt s
  | write f k, s => k.attempt (f s)

/-- A run forgets what the session has changed before a raise. -/
theorem run_eq_attempt (p : Txn σ κ ε α) (s : σ) :
    p.run s = (p.attempt s).1.map fun a => (a, (p.attempt s).2) := by
  induction p generalizing s with
  | ret a => rfl
  | raise e => rfl
  | select k ih => exact ih s s
  | lock key k ih => exact ih s s
  | skipLocked key k ih => exact ih (some s) s
  | write f k ih => exact ih (f s)

/-- An attempt that fails is a run that fails. -/
theorem run_of_attempt_error {p : Txn σ κ ε α} {s s' : σ} {e : ε}
    (h : p.attempt s = (.error e, s')) : p.run s = .error e := by
  rw [run_eq_attempt, h]
  rfl

/-- Programs that run alike after the same program run alike. -/
theorem run_bind_congr {p : Txn σ κ ε α} {f g : α → Txn σ κ ε β}
    (h : ∀ a s, (f a).run s = (g a).run s) (s : σ) : (p.bind f).run s = (p.bind g).run s := by
  rw [run_bind, run_bind]
  cases p.run s with
  | error e => rfl
  | ok r => exact h r.1 r.2

/-- No statement of the program writes, as long as the databases it sees satisfy `I`. -/
def Reads (I : σ → Prop) : Txn σ κ ε α → Prop
  | ret _ => True
  | raise _ => True
  | select k => ∀ s, I s → (k s).Reads I
  | lock _ k => ∀ s, I s → (k s).Reads I
  | skipLocked _ k => (∀ s, I s → (k (some s)).Reads I) ∧ (k none).Reads I
  | write _ _ => False

/-- The program raises bad errors only before its first write, as long as the databases it
has seen until then satisfy `I`. -/
inductive RefusesFirst (I : σ → Prop) (bad : ε → Prop) : Txn σ κ ε α → Prop
  | settled {p} : p.NeverRaises bad → RefusesFirst I bad p
  | raise (e) : RefusesFirst I bad (.raise e)
  | select {k} : (∀ s, I s → RefusesFirst I bad (k s)) → RefusesFirst I bad (.select k)
  | lock {key k} : (∀ s, I s → RefusesFirst I bad (k s)) → RefusesFirst I bad (.lock key k)
  | skipLocked {key k} : (∀ s, I s → RefusesFirst I bad (k (some s))) →
      RefusesFirst I bad (k none) → RefusesFirst I bad (.skipLocked key k)

namespace Reads

variable {I : σ → Prop}

/-- Reading programs compose. -/
theorem bind {p : Txn σ κ ε α} {f : α → Txn σ κ ε β} (hp : p.Reads I) (hf : ∀ a, (f a).Reads I) :
    (p >>= f).Reads I := by
  induction p with
  | ret a => exact hf a
  | raise e => trivial
  | select k ih => exact fun s hs => ih s (hp s hs)
  | lock key k ih => exact fun s hs => ih s (hp s hs)
  | skipLocked key k ih => exact ⟨fun s hs => ih (some s) (hp.1 s hs), ih none hp.2⟩
  | write g k ih => exact hp.elim

/-- Returning a value only reads. -/
theorem pure (a : α) : (pure a : Txn σ κ ε α).Reads I := trivial

/-- Raising only reads. -/
theorem raise (e : ε) : (raise e : Txn σ κ ε α).Reads I := trivial

/-- Reading only reads. -/
theorem read : (read : Txn σ κ ε σ).Reads I := fun _ _ => trivial

/-- Locking only reads. -/
theorem acquire (key : κ) : (acquire key : Txn σ κ ε σ).Reads I := fun _ _ => trivial

/-- A check only reads. -/
theorem raiseIf (c : Prop) [Decidable c] (e : ε) : (raiseIf c e : Txn σ κ ε Unit).Reads I := by
  unfold Txn.raiseIf
  split
  · trivial
  · trivial

/-- A check on a value at hand only reads. -/
theorem getOrRaise (x : Option α) (e : ε) : (getOrRaise x e : Txn σ κ ε α).Reads I := by
  cases x with
  | none => trivial
  | some a => trivial

end Reads

namespace RefusesFirst

variable {I : σ → Prop} {bad : ε → Prop}

/-- Statements that write nothing come before a program that refuses first. -/
theorem bind {p : Txn σ κ ε α} {f : α → Txn σ κ ε β} (hp : p.Reads I)
    (hf : ∀ a, (f a).RefusesFirst I bad) : (p >>= f).RefusesFirst I bad := by
  induction p with
  | ret a => exact hf a
  | raise e => exact .raise e
  | select k ih => exact .select fun s hs => ih s (hp s hs)
  | lock key k ih => exact .lock fun s hs => ih s (hp s hs)
  | skipLocked key k ih => exact .skipLocked (fun s hs => ih (some s) (hp.1 s hs)) (ih none hp.2)
  | write g k ih => exact hp.elim

/-- A program that refuses first may be followed by one that never refuses. -/
theorem andThen {p : Txn σ κ ε α} {f : α → Txn σ κ ε β} (hp : p.RefusesFirst I bad)
    (hf : ∀ a, (f a).NeverRaises bad) : (p >>= f).RefusesFirst I bad := by
  induction hp with
  | settled hp => exact .settled (.bind hp hf)
  | raise e => exact .raise e
  | select _ ih => exact .select ih
  | lock _ ih => exact .lock ih
  | skipLocked _ _ ihSome ihNone => exact .skipLocked ihSome ihNone

/-- A check before a program. -/
theorem checked {c : Prop} [Decidable c] {e : ε} {p : Txn σ κ ε α} (hp : p.RefusesFirst I bad) :
    (Txn.raiseIf c e >>= fun _ => p).RefusesFirst I bad :=
  .bind (.raiseIf c e) fun _ => hp

/-- A value without which a program does not go on. -/
theorem found {x : Option β} {e : ε} {f : β → Txn σ κ ε α}
    (hf : ∀ b, (f b).RefusesFirst I bad) : (Txn.getOrRaise x e >>= f).RefusesFirst I bad :=
  .bind (.getOrRaise x e) hf

/-- Of several errors each may be refused first for a reason of its own. -/
theorem of_imp {bad' : ε → Prop} {p : Txn σ κ ε α}
    (h : ∀ e, bad' e → bad e ∧ p.RefusesFirst I bad) : p.RefusesFirst I bad' := by
  by_cases hsome : ∃ e, bad' e
  · obtain ⟨e, he⟩ := hsome
    have hp := (h e he).2
    have hbad : ∀ e, bad' e → bad e := fun e he => (h e he).1
    clear h
    induction hp with
    | settled hp =>
      exact .settled fun L I facts w => avoids_of_imp fun e he => ⟨hbad e he, hp L I facts w⟩
    | raise e => exact .raise e
    | select _ ih => exact .select ih
    | lock _ ih => exact .lock ih
    | skipLocked _ _ ihSome ihNone => exact .skipLocked ihSome ihNone
  · refine .settled fun L I facts w => ?_
    have hnone : ∀ e, bad' e → bad e ∧ p.Avoids L I bad facts w :=
      fun e he => (hsome ⟨e, he⟩).elim
    exact avoids_of_imp hnone

/-- A bad error leaves the session as it was before the first statement. -/
theorem attempt {p : Txn σ κ ε α} (hp : p.RefusesFirst I bad) {s s' : σ} {e : ε} (hI : I s)
    (he : bad e) (h : p.attempt s = (.error e, s')) : s' = s := by
  induction hp with
  | settled hp => exact absurd he (hp.run (run_of_attempt_error h))
  | raise e' => exact (Prod.mk.inj h).2.symm
  | select _ ih => exact ih s hI h
  | lock _ ih => exact ih s hI h
  | skipLocked _ _ ihSome _ => exact ihSome s hI h

end RefusesFirst

end Txn

/-! ### Among others -/

namespace Sys

variable {ι σ κ ε α : Type} [DecidableEq ι] [DecidableEq κ] {L : Locking σ κ} {I : σ → Prop}
  {Q : ι → α → σ → σ → Prop} {B : ι → ε → Prop}

/-- The transaction has changed nothing and refuses first, or it raises no bad error from here
on. -/
def refusesFirst (L : Locking σ κ) (I : σ → Prop) (bad : ε → Prop) : Assertion σ κ ε α :=
  fun _ facts w p => (w = id ∧ p.RefusesFirst I bad) ∨ p.Avoids L I bad facts w

omit [DecidableEq κ] in
/-- The assertion of refusing before writing is local. -/
theorem refusesFirst_local {bad : ε → Prop} :
    (refusesFirst L I bad : Assertion σ κ ε α).Local L I where
  select hI hknown h := by
    rcases h with ⟨rfl, h⟩ | h
    · cases h with
      | settled h => exact .inr (h _ _ _ _ _ hI hknown)
      | select h => exact .inl ⟨rfl, h _ hI⟩
    · exact .inr (h _ hI hknown)
  lock hI hknown h := by
    rcases h with ⟨rfl, h⟩ | h
    · cases h with
      | settled h => exact .inr (h _ _ _ _ _ hI hknown)
      | lock h => exact .inl ⟨rfl, h _ hI⟩
    · exact .inr (h _ hI hknown)
  lockFree hI hknown h := by
    rcases h with ⟨rfl, h⟩ | h
    · cases h with
      | settled h => exact .inr ((h _ _ _ _).1 _ hI hknown)
      | skipLocked h _ => exact .inl ⟨rfl, h _ hI⟩
    · exact .inr (h.1 _ hI hknown)
  lockTaken h := by
    rcases h with ⟨rfl, h⟩ | h
    · cases h with
      | settled h => exact .inr (h _ _ _ _).2
      | skipLocked _ h => exact .inl ⟨rfl, h⟩
    · exact .inr h.2
  write h := by
    rcases h with ⟨rfl, h⟩ | h
    · cases h with
      | settled h => exact .inr (h _ _ _ _)
    · exact .inr h

/-- In every interleaving a transaction that is about to raise a bad error has changed
nothing. -/
theorem Steps.refuses {db : σ} {p : ι → Txn σ κ ε α} {t : Sys ι σ κ ε α} (hI : I db)
    (hsafe : ∀ i, (p i).Safe L I (Q i)) (hrefuses : ∀ i, (p i).RefusesFirst I (B i))
    (h : Steps (init db p) t) {i : ι} {e : ε} {w : σ → σ}
    (ht : t.txn i = .running w (.raise e)) (he : B i e) : w = id := by
  have hall : Sound L I Q t ∧ Holds L I (fun i => refusesFirst L I (B i)) t := by
    refine h.preserve (P := fun t => Sound L I Q t ∧
      Holds L I (fun i => refusesFirst L I (B i)) t) ?_
      ⟨sound_init hI hsafe, holds_init hI fun i => .inl ⟨rfl, hrefuses i⟩⟩
    rintro i s t hst ⟨hs, hholds⟩
    refine ⟨hs.step hst, hholds.step (fun _ => refusesFirst_local) hst ?_⟩
    intro w a hi _
    obtain ⟨hI', _, hframe⟩ := hs.commitOk hi
    exact ⟨hI', hframe, fun j _ facts w' p _ hp => hp⟩
  obtain ⟨facts, -, -, hrest⟩ := hall.2.txn i w _ ht
  rcases hrest with ⟨hw, -⟩ | hrest
  · exact hw
  · exact absurd he hrest

end Sys

end Marketplace.Lib
