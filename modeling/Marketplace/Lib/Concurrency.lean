import Mathlib.Logic.Relation
import Marketplace.Lib.Transaction

/-!
# Interleaved transactions under read committed

Any number of transactions run over one database. A statement sees the latest
committed database under the transaction's own pending changes, a row lock is
held until the transaction ends, and the pending changes take effect at the
commit. `Txn.wp` is a weakest precondition that is stable under everything the
other transactions may commit in between; `Sys.Steps.sound` and
`Sys.Steps.commits` reduce a property of every interleaving to one such
condition for each program.
-/

namespace Marketplace.Lib

/-- A transaction of the system: under way, or ended. -/
inductive Status (σ κ ε α : Type) : Type
  /-- `pending` is what its statements have changed, `rest` is what it has still to do. -/
  | running (pending : σ → σ) (rest : Txn σ κ ε α)
  /-- It has committed and returned. -/
  | committed (a : α)
  /-- It has rolled back: it raised, or was a deadlock victim or lost its connection (`none`). -/
  | aborted (e : Option ε)

/-- The database server with the transactions `ι`. -/
structure Sys (ι σ κ ε α : Type) where
  /-- The committed database. -/
  db : σ
  /-- The holder of each row lock. -/
  owner : κ → Option ι
  /-- The transactions. -/
  txn : ι → Status σ κ ε α
  /-- What has been committed, in commit order. -/
  log : List (ι × α)

namespace Sys

variable {ι σ κ ε α : Type} [DecidableEq ι] [DecidableEq κ]

/-- The system before the first statement of any transaction. -/
def init (db : σ) (p : ι → Txn σ κ ε α) : Sys ι σ κ ε α :=
  ⟨db, fun _ => none, fun i => .running id (p i), []⟩

/-- The locks left when transaction `i` ends. -/
def release (s : Sys ι σ κ ε α) (i : ι) : κ → Option ι := fun key =>
  if s.owner key = some i then none else s.owner key

/-- Transaction `i` is now in state `t`. -/
def goto (s : Sys ι σ κ ε α) (i : ι) (t : Status σ κ ε α) : Sys ι σ κ ε α :=
  { s with txn := Function.update s.txn i t }

/-- Transaction `i` takes the lock on `key`. -/
def take (s : Sys ι σ κ ε α) (i : ι) (key : κ) : Sys ι σ κ ε α :=
  { s with owner := Function.update s.owner key (some i) }

/-- The lock on `key` is free for transaction `i`. -/
def Free (s : Sys ι σ κ ε α) (i : ι) (key : κ) : Prop := s.owner key = none ∨ s.owner key = some i

/-- Transaction `i` commits its pending changes and returns `a`. -/
def commit (s : Sys ι σ κ ε α) (i : ι) (pending : σ → σ) (a : α) : Sys ι σ κ ε α :=
  { db := pending s.db, owner := s.release i,
    txn := Function.update s.txn i (.committed a), log := s.log ++ [(i, a)] }

/-- Transaction `i` rolls back. -/
def abort (s : Sys ι σ κ ε α) (i : ι) (e : Option ε) : Sys ι σ κ ε α :=
  { s with owner := s.release i, txn := Function.update s.txn i (.aborted e) }

/-- One statement of transaction `i`. -/
inductive Step (i : ι) : Sys ι σ κ ε α → Sys ι σ κ ε α → Prop
  | select {s w k} : s.txn i = .running w (.select k) →
      Step i s (s.goto i (.running w (k (w s.db))))
  | lock {s w key k} : s.txn i = .running w (.lock key k) → s.Free i key →
      Step i s ((s.take i key).goto i (.running w (k (w s.db))))
  | lockFree {s w key k} : s.txn i = .running w (.skipLocked key k) → s.Free i key →
      Step i s ((s.take i key).goto i (.running w (k (some (w s.db)))))
  | lockTaken {s w key k} : s.txn i = .running w (.skipLocked key k) → ¬s.Free i key →
      Step i s (s.goto i (.running w (k none)))
  | write {s w f k} : s.txn i = .running w (.write f k) →
      Step i s (s.goto i (.running (f ∘ w) k))
  | commit {s w a} : s.txn i = .running w (.ret a) → Step i s (s.commit i w a)
  | raise {s w e} : s.txn i = .running w (.raise e) → Step i s (s.abort i (some e))
  | kill {s w p} : s.txn i = .running w p → Step i s (s.abort i none)

/-- Any number of statements of any transactions. -/
inductive Steps : Sys ι σ κ ε α → Sys ι σ κ ε α → Prop
  | refl (s) : Steps s s
  | tail {s t u} (i : ι) : Steps s t → Step i t u → Steps s u

/-- Two runs one after the other make a run. -/
theorem Steps.trans {s t u : Sys ι σ κ ε α} (h : Steps s t) (h' : Steps t u) : Steps s u := by
  induction h' with
  | refl => exact h
  | tail i _ hstep ih => exact ih.tail i hstep

/-- A property that every statement preserves holds after any number of statements. -/
theorem Steps.preserve {P : Sys ι σ κ ε α → Prop}
    (hstep : ∀ {i : ι} {s t}, Step i s t → P s → P t) {s t : Sys ι σ κ ε α} (h : Steps s t)
    (hs : P s) : P t := by
  induction h with
  | refl => exact hs
  | tail i _ hst ih => exact hstep hst ih

end Sys

/-! ### What the row locks protect -/

/-- `agree key s t` says that the row locked under `key` is the same in `s` and `t`. -/
structure Locking (σ κ : Type) where
  /-- The two databases agree on a row. -/
  agree : κ → σ → σ → Prop
  refl : ∀ key s, agree key s s
  trans : ∀ {key s t u}, agree key s t → agree key t u → agree key s u

section Logic

variable {ι σ κ ε α β : Type} (L : Locking σ κ) (I : σ → Prop)

/-- What a transaction knows: each row it has locked is as it was when the lock was taken. -/
def Locking.Known (facts : List (κ × σ)) (s : σ) : Prop := ∀ f ∈ facts, L.agree f.1 f.2 s

/-- The weakest precondition of a program for `Post`, over the rows it has locked and
its pending changes. Between two statements the committed database is arbitrary,
but for the invariant `I` and the locked rows. -/
def Txn.wp : Txn σ κ ε α → (List (κ × σ) → (σ → σ) → α → Prop) → List (κ × σ) → (σ → σ) → Prop
  | .ret a, Post, facts, w => Post facts w a
  | .raise _, _, _, _ => True
  | .select k, Post, facts, w => ∀ s, I s → L.Known facts s → (k (w s)).wp Post facts w
  | .lock key k, Post, facts, w =>
    ∀ s, I s → L.Known facts s → (k (w s)).wp Post ((key, s) :: facts) w
  | .skipLocked key k, Post, facts, w =>
    (∀ s, I s → L.Known facts s → (k (some (w s))).wp Post ((key, s) :: facts) w) ∧
      (k none).wp Post facts w
  | .write f k, Post, facts, w => k.wp Post facts (f ∘ w)

/-- A commit keeps the invariant, has the effect `Q` and changes only locked rows. -/
def CommitOk (Q : α → σ → σ → Prop) (facts : List (κ × σ)) (w : σ → σ) (a : α) : Prop :=
  ∀ s, I s → L.Known facts s →
    I (w s) ∧ Q a s (w s) ∧ ∀ key, (∀ f ∈ facts, f.1 ≠ key) → L.agree key s (w s)

/-- A program that behaves well from its first statement on. -/
def Txn.Safe (Q : α → σ → σ → Prop) (p : Txn σ κ ε α) : Prop := p.wp L I (CommitOk L I Q) [] id

variable {L I}

/-- The rule of composition. -/
@[simp] theorem Txn.wp_bind {p : Txn σ κ ε α} {f : α → Txn σ κ ε β}
    {Post : List (κ × σ) → (σ → σ) → β → Prop} {facts : List (κ × σ)} {w : σ → σ} :
    (p.bind f).wp L I Post facts w ↔
      p.wp L I (fun facts' w' a => (f a).wp L I Post facts' w') facts w := by
  induction p generalizing facts w with
  | ret a => rfl
  | raise e => rfl
  | select k ih =>
      exact forall_congr' fun s => imp_congr_right fun _ => imp_congr_right fun _ => ih _
  | lock key k ih =>
    exact forall_congr' fun s => imp_congr_right fun _ => imp_congr_right fun _ => ih _
  | skipLocked key k ih =>
    exact and_congr
      (forall_congr' fun s => imp_congr_right fun _ => imp_congr_right fun _ => ih _) (ih none)
  | write g k ih => exact ih

/-- A weaker postcondition needs a weaker precondition, and so does a stronger invariant. -/
theorem Txn.wp_imp {J : σ → Prop} {p : Txn σ κ ε α} {P Q : List (κ × σ) → (σ → σ) → α → Prop}
    (hJ : ∀ s, J s → I s) (hPQ : ∀ facts w a, P facts w a → Q facts w a) {facts : List (κ × σ)}
    {w : σ → σ} (h : p.wp L I P facts w) : p.wp L J Q facts w := by
  induction p generalizing facts w with
  | ret a => exact hPQ _ _ _ h
  | raise e => trivial
  | select k ih => exact fun s hs hK => ih _ (h s (hJ s hs) hK)
  | lock key k ih => exact fun s hs hK => ih _ (h s (hJ s hs) hK)
  | skipLocked key k ih => exact ⟨fun s hs hK => ih _ (h.1 s (hJ s hs) hK), ih _ h.2⟩
  | write g k ih => exact ih h

/-- A weaker postcondition is easier to reach. -/
theorem Txn.wp_mono {p : Txn σ κ ε α} {P Q : List (κ × σ) → (σ → σ) → α → Prop}
    (hPQ : ∀ facts w a, P facts w a → Q facts w a) {facts : List (κ × σ)} {w : σ → σ}
    (h : p.wp L I P facts w) : p.wp L I Q facts w := wp_imp (fun _ h => h) hPQ h

/-- An effect that keeps `I` keeps it next to other programs that do. -/
theorem Txn.Safe.keep {Q : α → σ → σ → Prop} {p : Txn σ κ ε α}
    (h : p.Safe L (fun _ => True) Q) (hI : ∀ a s t, Q a s t → I s → I t) : p.Safe L I Q :=
  wp_imp (fun _ _ => trivial) (fun _ _ a hok s hs hK =>
    ⟨hI a s _ (hok s trivial hK).2.1 hs, (hok s trivial hK).2⟩) h

/-- Wrapping the result of a program does not change what it does. -/
theorem Txn.Safe.map {R : σ → σ → Prop} {p : Txn σ κ ε α} {f : α → β}
    (h : p.Safe L I fun _ => R) : (p.bind fun a => ret (f a)).Safe L I fun _ => R :=
  wp_bind.mpr (wp_mono (fun _ _ _ hok => hok) h)

/-- Two postconditions are ensured together. -/
theorem Txn.wp_and {p : Txn σ κ ε α} {P Q : List (κ × σ) → (σ → σ) → α → Prop}
    {facts : List (κ × σ)} {w : σ → σ} (hP : p.wp L I P facts w) (hQ : p.wp L I Q facts w) :
    p.wp L I (fun facts w a => P facts w a ∧ Q facts w a) facts w := by
  induction p generalizing facts w with
  | ret a => exact ⟨hP, hQ⟩
  | raise e => trivial
  | select k ih => exact fun s hI hK => ih _ (hP s hI hK) (hQ s hI hK)
  | lock key k ih => exact fun s hI hK => ih _ (hP s hI hK) (hQ s hI hK)
  | skipLocked key k ih =>
    exact ⟨fun s hI hK => ih _ (hP.1 s hI hK) (hQ.1 s hI hK), ih _ hP.2 hQ.2⟩
  | write g k ih => exact ih hP hQ

/-- A lock that has been taken is held from then on. -/
theorem Txn.wp_held {p : Txn σ κ ε α} {f : κ × σ} {facts : List (κ × σ)} {w : σ → σ}
    (hf : f ∈ facts) : p.wp L I (fun facts' _ _ => f ∈ facts') facts w := by
  induction p generalizing facts w with
  | ret a => exact hf
  | raise e => trivial
  | select k ih => exact fun s _ _ => ih _ hf
  | lock key k ih => exact fun s _ _ => ih _ (List.mem_cons_of_mem _ hf)
  | skipLocked key k ih =>
    exact ⟨fun s _ _ => ih _ (List.mem_cons_of_mem _ hf), ih _ hf⟩
  | write g k ih => exact ih hf

/-- A program without statements is known by what it returns. -/
theorem Txn.IsValue.wp {p : Txn σ κ ε α} (hp : p.IsValue)
    {Post : List (κ × σ) → (σ → σ) → α → Prop} {facts : List (κ × σ)} {w : σ → σ}
    (h : ∀ a, (∀ s, p.run s = .ok (a, s)) → Post facts w a) : p.wp L I Post facts w := by
  cases p with
  | ret a => exact h a fun _ => rfl
  | raise e => trivial
  | _ => exact hp.elim

/-- The rule of `ret`: the postcondition holds of the value. -/
@[simp] theorem Txn.wp_ret {a : α} {Post : List (κ × σ) → (σ → σ) → α → Prop}
    {facts : List (κ × σ)} {w : σ → σ} :
    (ret a : Txn σ κ ε α).wp L I Post facts w ↔ Post facts w a := Iff.rfl

/-- The rule of `raise`: a transaction that aborts owes nothing. -/
@[simp] theorem Txn.wp_raise {e : ε} {Post : List (κ × σ) → (σ → σ) → α → Prop}
    {facts : List (κ × σ)} {w : σ → σ} : (raise e : Txn σ κ ε α).wp L I Post facts w :=
  trivial

/-- The rule of `read`: the value is any state that agrees with the known rows, with the own writes
applied. -/
@[simp] theorem Txn.wp_read {Post : List (κ × σ) → (σ → σ) → σ → Prop}
    {facts : List (κ × σ)} {w : σ → σ} : (read : Txn σ κ ε σ).wp L I Post facts w ↔
      ∀ s, I s → L.Known facts s → Post facts w (w s) := Iff.rfl

/-- The rule of `acquire`: the locked row becomes a known fact. -/
@[simp] theorem Txn.wp_acquire {key : κ} {Post : List (κ × σ) → (σ → σ) → σ → Prop}
    {facts : List (κ × σ)} {w : σ → σ} : (acquire key : Txn σ κ ε σ).wp L I Post facts w ↔
      ∀ s, I s → L.Known facts s → Post ((key, s) :: facts) w (w s) := Iff.rfl

/-- The rule of `modify`: the write joins the own writes. -/
@[simp] theorem Txn.wp_modify {f : σ → σ} {Post : List (κ × σ) → (σ → σ) → Unit → Prop}
    {facts : List (κ × σ)} {w : σ → σ} : (modify f : Txn σ κ ε Unit).wp L I Post facts w ↔
      Post facts (f ∘ w) () := Iff.rfl

/-- The rule of `updateRow`: the row is locked and the write joins the own writes. -/
@[simp] theorem Txn.wp_updateRow {key : κ} {f : σ → σ}
    {Post : List (κ × σ) → (σ → σ) → Unit → Prop} {facts : List (κ × σ)} {w : σ → σ} :
    (updateRow key f : Txn σ κ ε Unit).wp L I Post facts w ↔
      ∀ s, I s → L.Known facts s → Post ((key, s) :: facts) (f ∘ w) () := Iff.rfl

/-- The rule of `raiseIf`: what follows may use that the condition is false. -/
@[simp] theorem Txn.wp_raiseIf {bad : Prop} [Decidable bad] {e : ε}
    {Post : List (κ × σ) → (σ → σ) → Unit → Prop} {facts : List (κ × σ)} {w : σ → σ} :
    (raiseIf bad e : Txn σ κ ε Unit).wp L I Post facts w ↔ (¬bad → Post facts w ()) := by
  by_cases h : bad <;> simp [raiseIf, h]

/-- The rule of `getOrRaise`: what follows has the value. -/
@[simp] theorem Txn.wp_getOrRaise {x : Option α} {e : ε}
    {Post : List (κ × σ) → (σ → σ) → α → Prop} {facts : List (κ × σ)} {w : σ → σ} :
    (getOrRaise x e : Txn σ κ ε α).wp L I Post facts w ↔ ∀ a, x = some a → Post facts w a := by
  cases x with
  | none => simp [getOrRaise]
  | some b => simp [getOrRaise]

/-- The rule of a branch: each side under its condition. -/
@[simp] theorem Txn.wp_ite {c : Prop} [Decidable c] {p q : Txn σ κ ε α}
    {Post : List (κ × σ) → (σ → σ) → α → Prop} {facts : List (κ × σ)} {w : σ → σ} :
    (if c then p else q).wp L I Post facts w ↔
      (c → p.wp L I Post facts w) ∧ (¬c → q.wp L I Post facts w) := by
  by_cases h : c <;> simp [h]

/-- Without facts every state is known. -/
@[simp] theorem Locking.known_nil {s : σ} : L.Known ([] : List (κ × σ)) s := by
  simp [Locking.Known]

/-- One more fact is one more row that agrees. -/
@[simp] theorem Locking.known_cons {key : κ} {t s : σ} {facts : List (κ × σ)} :
    L.Known ((key, t) :: facts) s ↔ L.agree key t s ∧ L.Known facts s := by
  simp [Locking.Known]

end Logic

/-! ### What a program may return -/

section MayReturn

variable {ι σ κ ε α β : Type}

/-- The program may return `a`: each of its statements may see any committed database, under
the pending changes. -/
def Txn.MayReturnUnder : Txn σ κ ε α → (σ → σ) → α → Prop
  | .ret b, _, a => b = a
  | .raise _, _, _ => False
  | .select k, w, a => ∃ s, (k (w s)).MayReturnUnder w a
  | .lock _ k, w, a => ∃ s, (k (w s)).MayReturnUnder w a
  | .skipLocked _ k, w, a =>
    (∃ s, (k (some (w s))).MayReturnUnder w a) ∨ (k none).MayReturnUnder w a
  | .write f k, w, a => k.MayReturnUnder (f ∘ w) a

/-- The program may return `a` from its first statement on. -/
def Txn.MayReturn (p : Txn σ κ ε α) (a : α) : Prop := p.MayReturnUnder id a

/-- No lock protects anything. -/
def Locking.free : Locking σ κ where
  agree _ _ _ := True
  refl _ _ := trivial
  trans _ _ := trivial

/-- What a program may return satisfies its postcondition. -/
theorem Txn.MayReturnUnder.post {p : Txn σ κ ε α} {Post : List (κ × σ) → (σ → σ) → α → Prop}
    {facts : List (κ × σ)} {w : σ → σ} {a : α} (ha : p.MayReturnUnder w a)
    (h : p.wp .free (fun _ => True) Post facts w) : ∃ facts' w', Post facts' w' a := by
  have hknown : ∀ (facts : List (κ × σ)) s, Locking.free.Known facts s := fun _ _ _ _ => trivial
  induction p generalizing facts w with
  | ret b =>
    obtain rfl : b = a := ha
    exact ⟨facts, w, h⟩
  | raise e => exact ha.elim
  | select k ih =>
    obtain ⟨s, ha⟩ := ha
    exact ih _ ha (h s trivial (hknown _ _))
  | lock key k ih =>
    obtain ⟨s, ha⟩ := ha
    exact ih _ ha (h s trivial (hknown _ _))
  | skipLocked key k ih =>
    rcases ha with ⟨s, ha⟩ | ha
    · exact ih _ ha (h.1 s trivial (hknown _ _))
    · exact ih _ ha h.2
  | write f k ih => exact ih ha h

/-- What a program may return has every property that its postcondition ensures. -/
theorem Txn.MayReturn.of_wp {p : Txn σ κ ε α} {P : α → Prop} {a : α} (ha : p.MayReturn a)
    (h : p.wp .free (fun _ => True) (fun _ _ a => P a) [] id) : P a := by
  obtain ⟨_, _, hP⟩ := ha.post h
  exact hP

/-- What a program returns when it runs alone, it may return. -/
theorem Txn.mayReturnUnder_of_run {p : Txn σ κ ε α} {w : σ → σ} {s s' : σ} {a : α}
    (h : p.run (w s) = .ok (a, s')) : p.MayReturnUnder w a := by
  induction p generalizing w with
  | ret b => exact (run_ret_ok.mp h).1
  | raise e => exact absurd h (by simp)
  | select k ih => exact ⟨s, ih _ h⟩
  | lock key k ih => exact ⟨s, ih _ h⟩
  | skipLocked key k ih => exact .inl ⟨s, ih _ h⟩
  | write f k ih => exact ih (w := f ∘ w) h

/-- A value returned by a run alone is one the transaction may return. -/
theorem Txn.mayReturn_of_run {p : Txn σ κ ε α} {s s' : σ} {a : α} (h : p.run s = .ok (a, s')) :
    p.MayReturn a := mayReturnUnder_of_run (w := id) h

end MayReturn

/-! ### Assertions about transactions that are under way -/

/-- What is asserted of a transaction, by the committed database, the rows it has locked, its
pending changes and what it has still to do. -/
abbrev Assertion (σ κ ε α : Type) : Type := σ → List (κ × σ) → (σ → σ) → Txn σ κ ε α → Prop

/-- The statements of the transaction keep the assertion. -/
structure Assertion.Local {σ κ ε α : Type} (L : Locking σ κ) (I : σ → Prop)
    (A : Assertion σ κ ε α) : Prop where
  select : ∀ {db facts w k}, I db → L.Known facts db → A db facts w (.select k) →
    A db facts w (k (w db))
  lock : ∀ {db facts w key k}, I db → L.Known facts db → A db facts w (.lock key k) →
    A db ((key, db) :: facts) w (k (w db))
  lockFree : ∀ {db facts w key k}, I db → L.Known facts db → A db facts w (.skipLocked key k) →
    A db ((key, db) :: facts) w (k (some (w db)))
  lockTaken : ∀ {db facts w key k}, A db facts w (.skipLocked key k) → A db facts w (k none)
  write : ∀ {db facts w f k}, A db facts w (.write f k) → A db facts (f ∘ w) k

/-- The assertion holds again after the next statement of the program, whichever way it goes. -/
def Assertion.AfterStatement {σ κ ε α : Type} (A : Assertion σ κ ε α) (db : σ)
    (facts : List (κ × σ)) (w : σ → σ) : Txn σ κ ε α → Prop
  | .select k => A db facts w (k (w db))
  | .lock key k => A db ((key, db) :: facts) w (k (w db))
  | .skipLocked key k => A db ((key, db) :: facts) w (k (some (w db))) ∧ A db facts w (k none)
  | .write f k => A db facts (f ∘ w) k
  | .ret _ => True
  | .raise _ => True

/-- A local assertion survives the commit of a write that the lock frames. -/
theorem Assertion.Local.afterStatement {σ κ ε α : Type} {L : Locking σ κ} {I : σ → Prop}
    {A : Assertion σ κ ε α} (hA : A.Local L I) {db : σ} {facts : List (κ × σ)} {w : σ → σ}
    {p : Txn σ κ ε α} (hI : I db) (hknown : L.Known facts db) (h : A db facts w p) :
    A.AfterStatement db facts w p := by
  cases p with
  | ret a => trivial
  | raise e => trivial
  | select k => exact hA.select hI hknown h
  | lock key k => exact hA.lock hI hknown h
  | skipLocked key k => exact ⟨hA.lockFree hI hknown h, hA.lockTaken h⟩
  | write f k => exact hA.write h

namespace Sys

variable {ι σ κ ε α : Type} [DecidableEq ι] [DecidableEq κ] {L : Locking σ κ} {I : σ → Prop}
  {A : ι → Assertion σ κ ε α} {Q : ι → α → σ → σ → Prop}

/-- The database is fine, and each running transaction holds the locks its knowledge rests on
and satisfies its assertion. -/
structure Holds (L : Locking σ κ) (I : σ → Prop) (A : ι → Assertion σ κ ε α)
    (s : Sys ι σ κ ε α) : Prop where
  db : I s.db
  txn : ∀ i w p, s.txn i = .running w p → ∃ facts : List (κ × σ),
    (∀ f ∈ facts, s.owner f.1 = some i) ∧ L.Known facts s.db ∧ A i s.db facts w p

omit [DecidableEq ι] [DecidableEq κ] in
/-- Assertions that hold of the programs hold of the initial system. -/
theorem holds_init {db : σ} {p : ι → Txn σ κ ε α} (hI : I db) (hp : ∀ i, A i db [] id (p i)) :
    Holds L I A (init db p) where
  db := hI
  txn i w q h := by
    obtain ⟨rfl, rfl⟩ : id = w ∧ p i = q := by simpa [init] using h
    exact ⟨[], by simp, by simp, hp i⟩

omit [DecidableEq κ] in
/-- Moving transaction `i` on within its program, possibly to a new lock. -/
theorem Holds.goto {s : Sys ι σ κ ε α} (h : Holds L I A s) {i : ι} {owner : κ → Option ι}
    {w : σ → σ} {p : Txn σ κ ε α} {facts : List (κ × σ)}
    (howner : ∀ key j, j ≠ i → s.owner key = some j → owner key = some j)
    (hheld : ∀ f ∈ facts, owner f.1 = some i) (hknown : L.Known facts s.db)
    (hA : A i s.db facts w p) : Holds L I A ({ s with owner := owner }.goto i (.running w p)) where
  db := h.db
  txn j w' p' hj := by
    by_cases hji : j = i
    · subst hji
      obtain ⟨rfl, rfl⟩ : w = w' ∧ p = p' := by simpa [Sys.goto] using hj
      exact ⟨facts, hheld, hknown, hA⟩
    · obtain ⟨facts', hheld', hknown', hA'⟩ := h.txn j w' p' (by simpa [Sys.goto, hji] using hj)
      exact ⟨facts', fun f hf => howner _ _ hji (hheld' f hf), hknown', hA'⟩

omit [DecidableEq ι] in
/-- A lock that is free for `i` is taken from no other transaction. -/
theorem take_owner {s : Sys ι σ κ ε α} {i : ι} {key : κ} (hfree : s.Free i key) :
    ∀ key' j, j ≠ i → s.owner key' = some j → (s.take i key).owner key' = some j := by
  intro key' j hj hown
  by_cases hk : key' = key
  · subst hk
    rcases hfree with hf | hf
    · simp [hf] at hown
    · rw [hf] at hown
      exact absurd (Option.some.inj hown).symm hj
  · simpa [take, hk] using hown

omit [DecidableEq ι] in
/-- After taking one more lock `i` still holds those it held. -/
theorem take_held (s : Sys ι σ κ ε α) {i : ι} {key : κ} {t : σ} {facts : List (κ × σ)}
    (hheld : ∀ f ∈ facts, s.owner f.1 = some i) :
    ∀ f ∈ (key, t) :: facts, (s.take i key).owner f.1 = some i := by
  intro f hf
  by_cases hk : f.1 = key
  · simp [take, hk]
  · rcases List.mem_cons.mp hf with rfl | hf
    · exact absurd rfl hk
    · simpa [take, hk] using hheld f hf

omit [DecidableEq κ] in
/-- The locks of the other transactions survive the end of `i`. -/
theorem release_owner (s : Sys ι σ κ ε α) (i : ι) :
    ∀ key j, j ≠ i → s.owner key = some j → s.release i key = some j := by
  intro key j hj hown
  have hne : s.owner key ≠ some i := by
    rw [hown]
    exact fun h => hj (Option.some.inj h)
  rw [release, if_neg hne, hown]

omit [DecidableEq κ] in
/-- A rollback leaves everything as it was but the locks of `i`. -/
theorem Holds.abort {s : Sys ι σ κ ε α} (h : Holds L I A s) (i : ι) (e : Option ε) :
    Holds L I A (s.abort i e) := by
  refine ⟨h.db, fun j w p hj => ?_⟩
  have hji : j ≠ i := by
    rintro rfl
    simp [Sys.abort] at hj
  obtain ⟨facts, hheld, hknown, hA⟩ := h.txn j w p (by simpa [Sys.abort, hji] using hj)
  exact ⟨facts, fun f hf => release_owner s i _ _ hji (hheld f hf), hknown, hA⟩

/-- What a commit with the pending changes `w` has to leave alone. -/
structure Harmless (L : Locking σ κ) (I : σ → Prop) (A : ι → Assertion σ κ ε α)
    (s : Sys ι σ κ ε α) (i : ι) (w : σ → σ) : Prop where
  db : I (w s.db)
  locked : ∀ key j, j ≠ i → s.owner key = some j → L.agree key s.db (w s.db)
  stable : ∀ j, j ≠ i → ∀ facts w' p, s.txn j = .running w' p → A j s.db facts w' p →
    A j (w s.db) facts w' p

/-- Every statement keeps assertions that it keeps here, if the commits are harmless. -/
theorem Holds.step_of {s t : Sys ι σ κ ε α} {i : ι} (h : Holds L I A s) (hst : Step i s t)
    (hA : ∀ facts w p, s.txn i = .running w p → L.Known facts s.db → A i s.db facts w p →
      (A i).AfterStatement s.db facts w p)
    (hcommit : ∀ w a, s.txn i = .running w (.ret a) → t = s.commit i w a → Harmless L I A s i w) :
    Holds L I A t := by
  cases hst with
  | select hi =>
    obtain ⟨facts, hheld, hknown, hrun⟩ := h.txn i _ _ hi
    exact h.goto (fun _ _ _ => id) hheld hknown (hA facts _ _ hi hknown hrun)
  | @lock w key k hi hfree =>
    obtain ⟨facts, hheld, hknown, hrun⟩ := h.txn i _ _ hi
    exact h.goto (take_owner hfree) (take_held s hheld)
      (Locking.known_cons.mpr ⟨L.refl _ _, hknown⟩) (hA facts _ _ hi hknown hrun)
  | @lockFree w key k hi hfree =>
    obtain ⟨facts, hheld, hknown, hrun⟩ := h.txn i _ _ hi
    exact h.goto (take_owner hfree) (take_held s hheld)
      (Locking.known_cons.mpr ⟨L.refl _ _, hknown⟩) (hA facts _ _ hi hknown hrun).1
  | lockTaken hi _ =>
    obtain ⟨facts, hheld, hknown, hrun⟩ := h.txn i _ _ hi
    exact h.goto (fun _ _ _ => id) hheld hknown (hA facts _ _ hi hknown hrun).2
  | write hi =>
    obtain ⟨facts, hheld, hknown, hrun⟩ := h.txn i _ _ hi
    exact h.goto (fun _ _ _ => id) hheld hknown (hA facts _ _ hi hknown hrun)
  | @commit w a hi =>
    have hsafe := hcommit w a hi rfl
    refine ⟨hsafe.db, fun j w' p' hj => ?_⟩
    have hji : j ≠ i := by
      rintro rfl
      simp [Sys.commit] at hj
    have hrun : s.txn j = .running w' p' := by simpa [Sys.commit, hji] using hj
    obtain ⟨facts, hheld, hknown, hA'⟩ := h.txn j w' p' hrun
    refine ⟨facts, fun f hf => release_owner s i _ _ hji (hheld f hf), fun f hf => ?_,
      hsafe.stable j hji facts w' p' hrun hA'⟩
    exact L.trans (hknown f hf) (hsafe.locked _ j hji (hheld f hf))
  | raise _ => exact h.abort i _
  | kill _ => exact h.abort i _

/-- Every statement keeps local assertions, if the commits are harmless. -/
theorem Holds.step (hA : ∀ i, (A i).Local L I) {s t : Sys ι σ κ ε α} {i : ι}
    (h : Holds L I A s) (hst : Step i s t)
    (hcommit : ∀ w a, s.txn i = .running w (.ret a) → t = s.commit i w a → Harmless L I A s i w) :
    Holds L I A t :=
  h.step_of hst (fun _ _ _ _ hknown hrun => (hA i).afterStatement h.db hknown hrun) hcommit

/-! ### Soundness -/

/-- That a transaction will commit with `Post`. -/
def ensures (L : Locking σ κ) (I : σ → Prop) (Post : List (κ × σ) → (σ → σ) → α → Prop) :
    Assertion σ κ ε α := fun _ facts w p => p.wp L I Post facts w

omit [DecidableEq κ] in
/-- The assertion of a postcondition is local. -/
theorem ensures_local {Post : List (κ × σ) → (σ → σ) → α → Prop} :
    (ensures L I Post : Assertion σ κ ε α).Local L I where
  select hI hknown h := h _ hI hknown
  lock hI hknown h := h _ hI hknown
  lockFree hI hknown h := h.1 _ hI hknown
  lockTaken h := h.2
  write h := h

/-- The invariant of the interleaving: the database is fine, and each running transaction
holds the locks its knowledge rests on and behaves well from here on. -/
structure Sound (L : Locking σ κ) (I : σ → Prop) (Q : ι → α → σ → σ → Prop)
    (s : Sys ι σ κ ε α) : Prop where
  db : I s.db
  txn : ∀ i w p, s.txn i = .running w p → ∃ facts : List (κ × σ),
    (∀ f ∈ facts, s.owner f.1 = some i) ∧ L.Known facts s.db ∧
      p.wp L I (CommitOk L I (Q i)) facts w

/-- That a transaction behaves well from here on. -/
def behaves (L : Locking σ κ) (I : σ → Prop) (Q : α → σ → σ → Prop) : Assertion σ κ ε α :=
  fun _ facts w p => p.wp L I (CommitOk L I Q) facts w

omit [DecidableEq ι] [DecidableEq κ] in
/-- Soundness is an assertion about every transaction. -/
theorem sound_iff_holds {s : Sys ι σ κ ε α} :
    Sound L I Q s ↔ Holds L I (fun i => behaves L I (Q i)) s :=
  ⟨fun h => ⟨h.db, h.txn⟩, fun h => ⟨h.db, h.txn⟩⟩

omit [DecidableEq κ] in
/-- The assertion of a commit relation is local. -/
theorem behaves_local {Q : α → σ → σ → Prop} :
    (behaves L I Q : Assertion σ κ ε α).Local L I := ensures_local

omit [DecidableEq ι] [DecidableEq κ] in
/-- A system of safe transactions starts sound. -/
theorem sound_init {db : σ} {p : ι → Txn σ κ ε α} (hI : I db)
    (hp : ∀ i, (p i).Safe L I (Q i)) : Sound L I Q (init db p) :=
  sound_iff_holds.mpr (holds_init hI hp)

omit [DecidableEq ι] [DecidableEq κ] in
/-- What a well-behaved transaction commits. -/
theorem Sound.commitOk {s : Sys ι σ κ ε α} (h : Sound L I Q s) {i : ι} {w : σ → σ} {a : α}
    (hi : s.txn i = .running w (.ret a)) :
    I (w s.db) ∧ Q i a s.db (w s.db) ∧
      ∀ key j, j ≠ i → s.owner key = some j → L.agree key s.db (w s.db) := by
  obtain ⟨facts, hheld, hknown, hwp⟩ := h.txn i w _ hi
  obtain ⟨hI, hQ, hframe⟩ := hwp s.db h.db hknown
  refine ⟨hI, hQ, fun key j hj hown => hframe key ?_⟩
  rintro f hf rfl
  have := hheld f hf
  rw [this] at hown
  exact hj (Option.some.inj hown).symm

/-- Every statement preserves the invariant of the interleaving. -/
theorem Sound.step {s t : Sys ι σ κ ε α} {i : ι} (h : Sound L I Q s) (hst : Step i s t) :
    Sound L I Q t := by
  refine sound_iff_holds.mpr ((sound_iff_holds.mp h).step (fun _ => behaves_local) hst ?_)
  intro w a hi _
  obtain ⟨hI, _, hframe⟩ := h.commitOk hi
  exact ⟨hI, hframe, fun j _ facts w' p _ hp => hp⟩

/-- Well-behaved programs stay well-behaved in every interleaving. -/
theorem Steps.sound {s t : Sys ι σ κ ε α} (h : Steps s t) (hs : Sound L I Q s) : Sound L I Q t :=
  h.preserve (fun hst h => h.step hst) hs

/-- The effect of a commit. -/
theorem Sound.committed {s t : Sys ι σ κ ε α} {i : ι} {a : α} (h : Sound L I Q s)
    (hst : Step i s t) (ht : t.txn i = .committed a) : Q i a s.db t.db := by
  cases hst with
  | @commit w b hi =>
    obtain rfl : b = a := by simpa [Sys.commit] using ht
    exact (h.commitOk hi).2.1
  | raise _ => simp [Sys.abort] at ht
  | kill _ => simp [Sys.abort] at ht
  | _ => simp [Sys.goto] at ht

/-- A rollback has no effect. -/
theorem Step.aborted {s t : Sys ι σ κ ε α} {i : ι} {e : Option ε} (hst : Step i s t)
    (ht : t.txn i = .aborted e) : t.db = s.db ∧ t.log = s.log := by
  cases hst with
  | raise _ => exact ⟨rfl, rfl⟩
  | kill _ => exact ⟨rfl, rfl⟩
  | commit _ => simp [Sys.commit] at ht
  | _ => simp [goto] at ht

/-- The committed database is the initial one changed by the log, one commit after another. -/
inductive Commits (Q : ι → α → σ → σ → Prop) (db : σ) : List (ι × α) → σ → Prop
  | nil : Commits Q db [] db
  | snoc {log s t} (i : ι) (a : α) :
      Commits Q db log s → Q i a s t → Commits Q db (log ++ [(i, a)]) t

omit [DecidableEq ι] in
/-- What each commit does, it does in a weaker sense as well. -/
theorem Commits.mono {Q R : ι → α → σ → σ → Prop} (hQR : ∀ i a s t, Q i a s t → R i a s t)
    {db t : σ} {log : List (ι × α)} (h : Commits Q db log t) : Commits R db log t := by
  induction h with
  | nil => exact .nil
  | snoc i a _ hQ ih => exact ih.snoc i a (hQR i a _ _ hQ)

/-- In every reachable state the database is the result of the commits in the log. -/
theorem Steps.commits {db : σ} {p : ι → Txn σ κ ε α} {t : Sys ι σ κ ε α} (hI : I db)
    (hp : ∀ i, (p i).Safe L I (Q i)) (h : Steps (init db p) t) : Commits Q db t.log t.db := by
  suffices hboth : Sound L I Q t ∧ Commits Q db t.log t.db from hboth.2
  refine h.preserve (P := fun t => Sound L I Q t ∧ Commits Q db t.log t.db) ?_
    ⟨sound_init hI hp, .nil⟩
  rintro i s t hst ⟨hs, hlog⟩
  refine ⟨hs.step hst, ?_⟩
  cases hst with
  | commit hi => exact hlog.snoc i _ (hs.commitOk hi).2.1
  | _ => exact hlog

/-! ### Postconditions -/

variable {Post : ι → List (κ × σ) → (σ → σ) → α → Prop}

omit [DecidableEq ι] [DecidableEq κ] in
/-- Postconditions under which transactions may commit. -/
theorem Holds.sound (hPost : ∀ i facts w a, Post i facts w a → CommitOk L I (Q i) facts w a)
    {s : Sys ι σ κ ε α} (h : Holds L I (fun i => ensures L I (Post i)) s) : Sound L I Q s where
  db := h.db
  txn i w p hi := by
    obtain ⟨facts, hheld, hknown, hwp⟩ := h.txn i w p hi
    exact ⟨facts, hheld, hknown, Txn.wp_mono (hPost i) hwp⟩

/-- In every interleaving the transactions keep to such postconditions. -/
theorem Steps.ensures (hPost : ∀ i facts w a, Post i facts w a → CommitOk L I (Q i) facts w a)
    {s t : Sys ι σ κ ε α} (h : Steps s t) (hs : Holds L I (fun i => ensures L I (Post i)) s) :
    Holds L I (fun i => ensures L I (Post i)) t := by
  refine h.preserve (fun {i s t} hst hs => ?_) hs
  refine hs.step (fun _ => ensures_local) hst fun w a hi _ => ?_
  obtain ⟨hI, -, hframe⟩ := (hs.sound hPost).commitOk hi
  exact ⟨hI, hframe, fun j _ facts w' p _ hp => hp⟩

/-! ### Running alone is one interleaving -/

/-- A transaction that has not ended has not committed, so that the database is as it was. -/
theorem quiet_of_alone {i : ι} {s t : Sys ι σ κ ε α} (h : Relation.ReflTransGen (Step i) s t)
    (hrunning : ∃ w q, t.txn i = .running w q) :
    Relation.ReflTransGen (fun u v => Step i u v ∧ v.db = u.db) s t := by
  induction h with
  | refl => exact .refl
  | tail _ hst ih =>
    obtain ⟨w, q, hi⟩ := hrunning
    cases hst with
    | commit hrun => simp [commit] at hi
    | raise hrun => simp [abort] at hi
    | kill hrun => simp [abort] at hi
    | select hrun => exact (ih ⟨_, _, hrun⟩).tail ⟨.select hrun, rfl⟩
    | lock hrun hfree => exact (ih ⟨_, _, hrun⟩).tail ⟨.lock hrun hfree, rfl⟩
    | lockFree hrun hfree => exact (ih ⟨_, _, hrun⟩).tail ⟨.lockFree hrun hfree, rfl⟩
    | lockTaken hrun htaken => exact (ih ⟨_, _, hrun⟩).tail ⟨.lockTaken hrun htaken, rfl⟩
    | write hrun => exact (ih ⟨_, _, hrun⟩).tail ⟨.write hrun, rfl⟩

/-- The database of a transaction that has not ended is the one it began with. -/
theorem db_of_alone {i : ι} {s t : Sys ι σ κ ε α} (h : Relation.ReflTransGen (Step i) s t)
    (hrunning : ∃ w q, t.txn i = .running w q) : t.db = s.db := by
  have hquiet := quiet_of_alone h hrunning
  clear h hrunning
  induction hquiet with
  | refl => rfl
  | tail _ hst ih => exact hst.2.trans ih

/-- Who takes a statement has not ended. -/
theorem Step.running {i : ι} {s t : Sys ι σ κ ε α} (h : Step i s t) :
    ∃ w q, s.txn i = .running w q := by
  cases h with
  | _ => exact ⟨_, _, ‹_›⟩

/-- Statements of a single transaction. -/
theorem Steps.of_alone {i : ι} {s t : Sys ι σ κ ε α} (h : Relation.ReflTransGen (Step i) s t) :
    Steps s t := by
  induction h with
  | refl => exact .refl s
  | tail _ hst ih => exact ih.tail i hst

/-- A statement of one transaction leaves the others where they are. -/
theorem Step.other {i j : ι} {s t : Sys ι σ κ ε α} (h : Step i s t) (hj : j ≠ i) :
    t.txn j = s.txn j := by
  cases h <;> exact Function.update_of_ne hj _ _

/-- Transaction `i` has got from the server `s` to its commit with the result `a`, alone. -/
structure RunsTo (i : ι) (s : Sys ι σ κ ε α) (a : α) (db : σ) (t : Sys ι σ κ ε α) : Prop where
  alone : Relation.ReflTransGen (Step i) s t
  db : t.db = db
  log : t.log = s.log ++ [(i, a)]
  committed : t.txn i = .committed a
  other : ∀ j, j ≠ i → t.txn j = s.txn j
  owner : ∀ key, t.owner key = none

/-- Transaction `i` has got from the server `s` to its commit, which will leave `db`, alone. -/
structure AtCommit (i : ι) (s : Sys ι σ κ ε α) (a : α) (db : σ) (t : Sys ι σ κ ε α) : Prop where
  alone : Relation.ReflTransGen (Step i) s t
  ready : ∃ w, t.txn i = .running w (.ret a) ∧ w t.db = db
  db : t.db = s.db
  log : t.log = s.log
  other : ∀ j, j ≠ i → t.txn j = s.txn j
  free : ∀ key, t.Free i key

/-- A transaction run to its commit is a run of the system. -/
theorem RunsTo.steps {i : ι} {s t : Sys ι σ κ ε α} {a : α} {db : σ} (h : RunsTo i s a db t) :
    Steps s t := .of_alone h.alone

/-- A transaction run up to its commit is a run of the system. -/
theorem AtCommit.steps {i : ι} {s t : Sys ι σ κ ε α} {a : α} {db : σ} (h : AtCommit i s a db t) :
    Steps s t := .of_alone h.alone

/-- A step that leaves the database and the others alone comes before. -/
theorem AtCommit.after {i : ι} {s s' t : Sys ι σ κ ε α} {a : α} {db : σ}
    (h : AtCommit i s' a db t) (hst : Step i s s') (hdb : s'.db = s.db) (hlog : s'.log = s.log)
    (hother : ∀ j, j ≠ i → s'.txn j = s.txn j) : AtCommit i s a db t where
  alone := h.alone.head hst
  ready := h.ready
  db := h.db.trans hdb
  log := h.log.trans hlog
  other j hj := (h.other j hj).trans (hother j hj)
  free := h.free

/-- The commit is one more step. -/
theorem AtCommit.runsTo {i : ι} {s t : Sys ι σ κ ε α} {a : α} {db : σ} (h : AtCommit i s a db t) :
    ∃ u, Step i t u ∧ RunsTo i s a db u := by
  obtain ⟨w, hi, hdb⟩ := h.ready
  refine ⟨t.commit i w a, .commit hi, h.alone.tail (.commit hi), hdb, ?_, ?_, fun j hj => ?_,
    fun key => ?_⟩
  · rw [← h.log]
    rfl
  · simp [commit]
  · simp [commit, hj, h.other j hj]
  · rcases h.free key with hkey | hkey
    · simp [commit, release, hkey]
    · simp [commit, release, hkey]

/-- A transaction that is alone on the server gets to its commit. -/
theorem atCommit_of_run {s : Sys ι σ κ ε α} {i : ι} {w : σ → σ} {p : Txn σ κ ε α} {a : α} {db : σ}
    (hi : s.txn i = .running w p) (hfree : ∀ key, s.Free i key)
    (hrun : p.run (w s.db) = .ok (a, db)) : ∃ t, AtCommit i s a db t := by
  -- the lock that a statement takes was free for `i`, and stays so
  have htake : ∀ {s : Sys ι σ κ ε α} {key : κ}, (∀ key', s.Free i key') →
      ∀ key', (s.take i key).Free i key' := by
    intro s key hfree key'
    by_cases hk : key' = key
    · exact .inr (by simp [take, hk])
    · simpa [take, Free, hk] using hfree key'
  have hgoto : ∀ {s : Sys ι σ κ ε α} {r : Status σ κ ε α} {j : ι}, j ≠ i →
      (s.goto i r).txn j = s.txn j := by
    intro s r j hj
    simp [goto, hj]
  induction p generalizing s w with
  | ret b =>
    obtain ⟨rfl, rfl⟩ := Txn.run_ret_ok.mp hrun
    exact ⟨s, .refl, ⟨w, hi, rfl⟩, rfl, rfl, fun _ _ => rfl, hfree⟩
  | raise e => exact absurd hrun (by simp)
  | select k ih =>
    obtain ⟨t, ht⟩ := ih (w s.db) (s := s.goto i (.running w (k (w s.db)))) (by simp [goto])
      hfree hrun
    exact ⟨t, ht.after (.select hi) rfl rfl fun j hj => hgoto hj⟩
  | lock key k ih =>
    obtain ⟨t, ht⟩ := ih (w s.db) (s := (s.take i key).goto i (.running w (k (w s.db))))
      (by simp [goto]) (htake hfree) hrun
    exact ⟨t, ht.after (.lock hi (hfree key)) rfl rfl fun j hj => hgoto hj⟩
  | skipLocked key k ih =>
    obtain ⟨t, ht⟩ := ih (some (w s.db))
      (s := (s.take i key).goto i (.running w (k (some (w s.db))))) (by simp [goto])
      (htake hfree) hrun
    exact ⟨t, ht.after (.lockFree hi (hfree key)) rfl rfl fun j hj => hgoto hj⟩
  | write f k ih =>
    obtain ⟨t, ht⟩ := ih (s := s.goto i (.running (f ∘ w) k)) (w := f ∘ w) (by simp [goto]) hfree
      hrun
    exact ⟨t, ht.after (.write hi) rfl rfl fun j hj => hgoto hj⟩

/-- A transaction that is alone on the server runs to its end. -/
theorem runsTo_of_run {s : Sys ι σ κ ε α} {i : ι} {w : σ → σ} {p : Txn σ κ ε α} {a : α} {db : σ}
    (hi : s.txn i = .running w p) (hfree : ∀ key, s.Free i key)
    (hrun : p.run (w s.db) = .ok (a, db)) : ∃ t, RunsTo i s a db t := by
  obtain ⟨t, ht⟩ := atCommit_of_run hi hfree hrun
  obtain ⟨u, -, hu⟩ := ht.runsTo
  exact ⟨u, hu⟩

/-- Two transactions commit one after the other. -/
theorem inTurn_of_run {p : ι → Txn σ κ ε α} {db db' db'' : σ} {i j : ι} (hij : i ≠ j) {a b : α}
    (hi : (p i).run db = .ok (a, db')) (hj : (p j).run db' = .ok (b, db'')) :
    ∃ t, Steps (init db p) t ∧ t.db = db'' ∧ t.log = [(i, a), (j, b)] := by
  obtain ⟨s, hs⟩ := runsTo_of_run (s := init db p) rfl (fun _ => .inl rfl) hi
  have htxn : s.txn j = .running id (p j) := hs.other j hij.symm
  have hrun : (p j).run (id s.db) = .ok (b, db'') := by
    rw [hs.db]
    exact hj
  obtain ⟨t, ht⟩ := runsTo_of_run htxn (fun key => .inl (hs.owner key)) hrun
  refine ⟨t, hs.steps.trans ht.steps, ht.db, ?_⟩
  rw [ht.log, hs.log]
  rfl

/-- The database after the transactions `is` have run one after the other, if none raises. -/
def serial (p : ι → Txn σ κ ε α) : σ → List ι → Option σ
  | s, [] => some s
  | s, i :: is =>
    match (p i).run s with
    | .ok (_, s') => serial p s' is
    | .error _ => none

/-- The transactions `is` have got to their commits one after the other, each alone. -/
inductive RunsInTurn : List ι → Sys ι σ κ ε α → Sys ι σ κ ε α → Prop
  | nil (s) : RunsInTurn [] s s
  | cons {i is s a db u t} (first : RunsTo i s a db u) (rest : RunsInTurn is u t) :
      RunsInTurn (i :: is) s t

namespace RunsInTurn

variable {is : List ι} {s t : Sys ι σ κ ε α}

/-- Transactions that run one after the other are a run of the server. -/
theorem steps (h : RunsInTurn is s t) : Steps s t := by
  induction h with
  | nil s => exact .refl s
  | cons first _ ih => exact first.steps.trans ih

/-- They commit in their order. -/
theorem log (h : RunsInTurn is s t) : t.log.map Prod.fst = s.log.map Prod.fst ++ is := by
  induction h with
  | nil s => simp
  | cons first _ ih =>
    rw [ih, first.log, List.map_append, List.append_assoc]
    rfl

/-- They leave no lock. -/
theorem owner (h : RunsInTurn is s t) (hfree : ∀ key, s.owner key = none) :
    ∀ key, t.owner key = none := by
  induction h with
  | nil s => exact hfree
  | cons first _ ih => exact ih first.owner

/-- The others stay where they are. -/
theorem other (h : RunsInTurn is s t) {j : ι} (hj : j ∉ is) : t.txn j = s.txn j := by
  induction h with
  | nil s => rfl
  | cons first _ ih =>
    rw [ih (List.not_mem_of_not_mem_cons hj), first.other j (List.ne_of_not_mem_cons hj)]

end RunsInTurn

/-- Transactions that have not begun run one after the other. -/
theorem runsInTurn_of_serial {p : ι → Txn σ κ ε α} {db : σ} {is : List ι} (hdistinct : is.Nodup)
    {s : Sys ι σ κ ε α} (hfree : ∀ key, s.owner key = none)
    (hbegin : ∀ i, i ∈ is → s.txn i = .running id (p i)) (h : serial p s.db is = some db) :
    ∃ t, RunsInTurn is s t ∧ t.db = db := by
  induction is generalizing s with
  | nil => exact ⟨s, .nil s, Option.some.inj h⟩
  | cons i is ih =>
    obtain ⟨hi, hrest⟩ := List.nodup_cons.mp hdistinct
    unfold serial at h
    cases hrun : (p i).run s.db with
    | error e =>
      rw [hrun] at h
      cases h
    | ok r =>
      obtain ⟨a, s'⟩ := r
      rw [hrun] at h
      obtain ⟨u, hu⟩ :=
        runsTo_of_run (hbegin i List.mem_cons_self) (fun key => .inl (hfree key)) hrun
      have hlater : ∀ j, j ∈ is → u.txn j = .running id (p j) := by
        intro j hj
        have hji : j ≠ i := fun heq => hi (heq ▸ hj)
        rw [hu.other j hji]
        exact hbegin j (List.mem_cons_of_mem i hj)
      rw [← hu.db] at h
      obtain ⟨t, ht, hdb⟩ := ih hrest hu.owner hlater h
      exact ⟨t, .cons hu ht, hdb⟩

/-- What they leave behind. -/
theorem steps_of_serial {p : ι → Txn σ κ ε α} {db : σ} {is : List ι} (hdistinct : is.Nodup)
    {s : Sys ι σ κ ε α} (hfree : ∀ key, s.owner key = none)
    (hbegin : ∀ i, i ∈ is → s.txn i = .running id (p i)) (h : serial p s.db is = some db) :
    ∃ t, Steps s t ∧ t.db = db ∧ t.log.map Prod.fst = s.log.map Prod.fst ++ is ∧
      (∀ key, t.owner key = none) ∧ ∀ j, j ∉ is → t.txn j = s.txn j := by
  obtain ⟨t, ht, hdb⟩ := runsInTurn_of_serial hdistinct hfree hbegin h
  exact ⟨t, ht.steps, hdb, ht.log, ht.owner hfree, fun j hj => ht.other hj⟩

/-- Transaction `i` takes its next `n` statements, which are plain `SELECT`s. -/
theorem alone_afterSelects {s : Sys ι σ κ ε α} {i : ι} {w : σ → σ} {p : Txn σ κ ε α} {n : ℕ}
    (hi : s.txn i = .running w p) (hp : p.selects (w s.db) n = true) :
    ∃ t, Relation.ReflTransGen (Step i) s t ∧ t.db = s.db ∧ t.log = s.log ∧ t.owner = s.owner ∧
      t.txn i = .running w (p.afterSelects (w s.db) n) ∧ ∀ j, j ≠ i → t.txn j = s.txn j := by
  induction n generalizing s p with
  | zero => exact ⟨s, .refl, rfl, rfl, rfl, hi, fun _ _ => rfl⟩
  | succ n ih =>
    cases p with
    | select k =>
      have hnext : (s.goto i (.running w (k (w s.db)))).txn i = .running w (k (w s.db)) := by
        simp [goto]
      obtain ⟨t, ht, hdb, hlog, howner, htxn, hother⟩ := ih hnext hp
      refine ⟨t, ht.head (.select hi), hdb, hlog, howner, htxn, fun j hj =>
        (hother j hj).trans ?_⟩
      simp [goto, hj]
    | _ => cases hp

/-- A transaction that has taken `n` plain `SELECT`s waits while another one commits. -/
theorem waits_of_run {p : ι → Txn σ κ ε α} {db db' : σ} {i j : ι} (hij : i ≠ j) {n : ℕ} {a : α}
    (hreads : (p i).selects db n = true) (hrun : (p j).run db = .ok (a, db')) :
    ∃ s, Steps (init db p) s ∧ s.db = db' ∧ s.log = [(j, a)] ∧ (∀ key, s.owner key = none) ∧
      s.txn i = .running id ((p i).afterSelects db n) ∧
      ∀ k, k ≠ i → k ≠ j → s.txn k = .running id (p k) := by
  obtain ⟨s₁, hs₁, hdb₁, hlog₁, howner₁, hi₁, hother₁⟩ :=
    alone_afterSelects (s := init db p) (i := i) (w := id) rfl hreads
  have hj : s₁.txn j = .running id (p j) := hother₁ j hij.symm
  have hrun₁ : (p j).run (id s₁.db) = .ok (a, db') := by
    rw [hdb₁]
    exact hrun
  obtain ⟨s₂, h₂⟩ := runsTo_of_run hj (fun key => .inl (by rw [howner₁]; rfl)) hrun₁
  refine ⟨s₂, (Steps.of_alone hs₁).trans h₂.steps, h₂.db, ?_, h₂.owner, (h₂.other i hij).trans hi₁,
    fun k hki hkj => (h₂.other k hkj).trans (hother₁ k hki)⟩
  rw [h₂.log, hlog₁]
  rfl

/-- A transaction that has taken `n` plain `SELECT`s is overtaken by another one, and then goes on
with what it has seen. -/
theorem overtaken_of_run {p : ι → Txn σ κ ε α} {db db' db'' : σ} {i j : ι} (hij : i ≠ j) {n : ℕ}
    {a b : α} (hreads : (p i).selects db n = true) (hrun : (p j).run db = .ok (a, db'))
    (hrest : ((p i).afterSelects db n).run db' = .ok (b, db'')) :
    ∃ s t, Steps (init db p) s ∧ Step i s t ∧ s.db = db' ∧ t.db = db'' ∧
      t.log = [(j, a), (i, b)] ∧ (∀ key, t.owner key = none) ∧
      ∀ k, k ≠ i → k ≠ j → t.txn k = .running id (p k) := by
  obtain ⟨u, hu, rfl, hlog, howner, hi, hother⟩ := waits_of_run hij hreads hrun
  obtain ⟨s, hs⟩ := atCommit_of_run hi (fun key => .inl (howner key)) hrest
  obtain ⟨t, hst, ht⟩ := hs.runsTo
  refine ⟨s, t, hu.trans hs.steps, hst, hs.db, ht.db, ?_, ht.owner,
    fun k hki hkj => (ht.other k hki).trans (hother k hki hkj)⟩
  rw [ht.log, hlog]
  rfl

/-- A transaction that is alone on the server and raises rolls back. -/
theorem raises_of_run {s : Sys ι σ κ ε α} {i : ι} {w : σ → σ} {p : Txn σ κ ε α} {e : ε}
    (hi : s.txn i = .running w p) (hfree : ∀ key, s.Free i key)
    (hrun : p.run (w s.db) = .error e) :
    ∃ t, Steps s t ∧ t.txn i = .aborted (some e) ∧ t.db = s.db ∧ t.log = s.log := by
  have htake : ∀ {s : Sys ι σ κ ε α} {key : κ}, (∀ key', s.Free i key') →
      ∀ key', (s.take i key).Free i key' := by
    intro s key hfree key'
    by_cases hk : key' = key
    · exact .inr (by simp [take, hk])
    · simpa [take, Free, hk] using hfree key'
  have hafter : ∀ {s s' : Sys ι σ κ ε α}, Step i s s' → s'.db = s.db → s'.log = s.log →
      (∃ t, Steps s' t ∧ t.txn i = .aborted (some e) ∧ t.db = s'.db ∧ t.log = s'.log) →
      ∃ t, Steps s t ∧ t.txn i = .aborted (some e) ∧ t.db = s.db ∧ t.log = s.log := by
    rintro s s' hst hdb hlog ⟨t, ht, htxn, hdb', hlog'⟩
    exact ⟨t, ((Steps.refl s).tail i hst).trans ht, htxn, hdb'.trans hdb, hlog'.trans hlog⟩
  induction p generalizing s w with
  | ret b => exact absurd hrun (by simp [Txn.run])
  | raise e' =>
    obtain rfl : e' = e := by simpa [Txn.run] using hrun
    exact ⟨s.abort i (some e'), (Steps.refl s).tail i (.raise hi), by simp [abort], rfl, rfl⟩
  | select k ih =>
    exact hafter (.select hi) rfl rfl (ih (w s.db) (s := s.goto i (.running w (k (w s.db))))
      (by simp [goto]) hfree hrun)
  | lock key k ih =>
    exact hafter (.lock hi (hfree key)) rfl rfl (ih (w s.db)
      (s := (s.take i key).goto i (.running w (k (w s.db)))) (by simp [goto]) (htake hfree) hrun)
  | skipLocked key k ih =>
    exact hafter (.lockFree hi (hfree key)) rfl rfl (ih (some (w s.db))
      (s := (s.take i key).goto i (.running w (k (some (w s.db))))) (by simp [goto])
      (htake hfree) hrun)
  | write f k ih =>
    exact hafter (.write hi) rfl rfl (ih (s := s.goto i (.running (f ∘ w) k)) (w := f ∘ w)
      (by simp [goto]) hfree hrun)

/-- A transaction that has taken `n` plain `SELECT`s is overtaken by another one, and then raises
because of what that one has committed. -/
theorem refused_of_run {p : ι → Txn σ κ ε α} {db db' : σ} {i j : ι} (hij : i ≠ j) {n : ℕ}
    {a : α} {e : ε} (hreads : (p i).selects db n = true) (hrun : (p j).run db = .ok (a, db'))
    (hrest : ((p i).afterSelects db n).run db' = .error e) :
    ∃ t, Steps (init db p) t ∧ t.txn i = .aborted (some e) ∧ t.db = db' ∧ t.log = [(j, a)] := by
  obtain ⟨u, hu, rfl, hlog, howner, hi, -⟩ := waits_of_run hij hreads hrun
  obtain ⟨t, ht, htxn, hdb, hlog'⟩ := raises_of_run hi (fun key => .inl (howner key)) hrest
  exact ⟨t, hu.trans ht, htxn, hdb, hlog'.trans hlog⟩

end Sys

end Marketplace.Lib
