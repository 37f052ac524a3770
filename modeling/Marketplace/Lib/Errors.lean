import Marketplace.Lib.Concurrency

/-!
# Errors that no interleaving raises

`Txn.Avoids` is a condition on a program, checked statement by statement like `Txn.wp`,
under which it raises none of some errors, whatever the other transactions commit in
between. `Sys.Steps.avoids` says so of every interleaving. What a program raises when it
runs alone is read off its statements. `Txn.wpe` says of every error what the program has
locked and changed when it raises it.
-/

namespace Marketplace.Lib

namespace Txn

variable {σ κ ε α β : Type}

/-! ### Running alone -/

section Run

variable {s s' : σ} {e e' : ε}

/-- A composition raises what its first part raises, or its second part from where the first
has ended. -/
@[simp] theorem run_bind_error {p : Txn σ κ ε α} {f : α → Txn σ κ ε β} :
    (p.bind f).run s = .error e ↔
      p.run s = .error e ∨ ∃ a t, p.run s = .ok (a, t) ∧ (f a).run t = .error e := by
  rw [run_bind]
  cases hp : p.run s with
  | error e' => simp [Except.bind]
  | ok r =>
    obtain ⟨a, t⟩ := r
    simp [Except.bind]

/-- A value is no error. -/
@[simp] theorem run_ret_error {a : α} : (ret a : Txn σ κ ε α).run s = .error e ↔ False := by
  simp [run_ret]

/-- What is raised is the error. -/
@[simp] theorem run_raise_error : (raise e' : Txn σ κ ε α).run s = .error e ↔ e' = e := by
  simp [run_raise]

/-- A read does not fail. -/
@[simp] theorem run_read_error : (read : Txn σ κ ε σ).run s = .error e ↔ False := by
  simp [run_read]

/-- A lock does not fail when the program runs alone. -/
@[simp] theorem run_acquire_error {key : κ} :
    (acquire key : Txn σ κ ε σ).run s = .error e ↔ False := by
  simp [run_acquire]

/-- A write does not fail. -/
@[simp] theorem run_modify_error {f : σ → σ} :
    (modify f : Txn σ κ ε Unit).run s = .error e ↔ False := by
  simp [run_modify]

/-- Neither does an `UPDATE` by key. -/
@[simp] theorem run_updateRow_error {key : κ} {f : σ → σ} :
    (updateRow key f : Txn σ κ ε Unit).run s = .error e ↔ False := by
  simp [run_updateRow]

/-- A check fails with its own error, if it does. -/
@[simp] theorem run_raiseIf_error {bad : Prop} [Decidable bad] :
    (raiseIf bad e' : Txn σ κ ε Unit).run s = .error e ↔ bad ∧ e' = e := by
  by_cases h : bad <;> simp [raiseIf, h]

/-- A lookup fails with its own error, if nothing is found. -/
@[simp] theorem run_getOrRaise_error {x : Option α} :
    (getOrRaise x e' : Txn σ κ ε α).run s = .error e ↔ x = none ∧ e' = e := by
  cases x with
  | none => simp [getOrRaise]
  | some a => simp [getOrRaise]

end Run

/-! ### Running among others -/

section Avoids

variable (L : Locking σ κ) (I : σ → Prop) (bad : ε → Prop)

/-- From here on the program raises no bad error, by the rows it has locked and its pending
changes. -/
def Avoids : Txn σ κ ε α → List (κ × σ) → (σ → σ) → Prop
  | .ret _, _, _ => True
  | .raise e, _, _ => ¬bad e
  | .select k, facts, w => ∀ s, I s → L.Known facts s → (k (w s)).Avoids facts w
  | .lock key k, facts, w => ∀ s, I s → L.Known facts s → (k (w s)).Avoids ((key, s) :: facts) w
  | .skipLocked key k, facts, w =>
    (∀ s, I s → L.Known facts s → (k (some (w s))).Avoids ((key, s) :: facts) w) ∧
      (k none).Avoids facts w
  | .write f k, facts, w => k.Avoids facts (f ∘ w)

variable {L I bad} {facts : List (κ × σ)} {w : σ → σ}

/-- The rule of composition. -/
@[simp] theorem avoids_bind {p : Txn σ κ ε α} {f : α → Txn σ κ ε β} :
    (p.bind f).Avoids L I bad facts w ↔ p.Avoids L I bad facts w ∧
      p.wp L I (fun facts' w' a => (f a).Avoids L I bad facts' w') facts w := by
  induction p generalizing facts w with
  | ret a => exact ⟨fun h => ⟨trivial, h⟩, And.right⟩
  | raise e => exact ⟨fun h => ⟨h, trivial⟩, And.left⟩
  | select k ih =>
    constructor
    · exact fun h => ⟨fun s hI hK => ((ih _).mp (h s hI hK)).1,
        fun s hI hK => ((ih _).mp (h s hI hK)).2⟩
    · exact fun h s hI hK => (ih _).mpr ⟨h.1 s hI hK, h.2 s hI hK⟩
  | lock key k ih =>
    constructor
    · exact fun h => ⟨fun s hI hK => ((ih _).mp (h s hI hK)).1,
        fun s hI hK => ((ih _).mp (h s hI hK)).2⟩
    · exact fun h s hI hK => (ih _).mpr ⟨h.1 s hI hK, h.2 s hI hK⟩
  | skipLocked key k ih =>
    constructor
    · intro h
      have hnone := (ih none).mp h.2
      exact ⟨⟨fun s hI hK => ((ih _).mp (h.1 s hI hK)).1, hnone.1⟩,
        fun s hI hK => ((ih _).mp (h.1 s hI hK)).2, hnone.2⟩
    · intro h
      exact ⟨fun s hI hK => (ih _).mpr ⟨h.1.1 s hI hK, h.2.1 s hI hK⟩,
        (ih none).mpr ⟨h.1.2, h.2.2⟩⟩
  | write g k ih => exact ih

/-- A value raises nothing. -/
@[simp] theorem avoids_ret {a : α} : (ret a : Txn σ κ ε α).Avoids L I bad facts w := trivial

/-- A good error may be raised. -/
@[simp] theorem avoids_raise {e : ε} :
    (raise e : Txn σ κ ε α).Avoids L I bad facts w ↔ ¬bad e := Iff.rfl

/-- A read raises nothing. -/
@[simp] theorem avoids_read : (read : Txn σ κ ε σ).Avoids L I bad facts w :=
  fun _ _ _ => trivial

/-- A check whose error is good, or that passes. -/
@[simp] theorem avoids_raiseIf {c : Prop} [Decidable c] {e : ε} :
    (raiseIf c e : Txn σ κ ε Unit).Avoids L I bad facts w ↔ (c → ¬bad e) := by
  by_cases h : c <;> simp [raiseIf, h]

/-- A lookup whose error is good, or that finds something. -/
@[simp] theorem avoids_getOrRaise {x : Option α} {e : ε} :
    (getOrRaise x e : Txn σ κ ε α).Avoids L I bad facts w ↔ (x = none → ¬bad e) := by
  cases x with
  | none => simp [getOrRaise]
  | some a => simp [getOrRaise]

/-- Of several errors each may be avoided for a reason of its own. -/
theorem avoids_of_imp {bad' : ε → Prop} {p : Txn σ κ ε α}
    (h : ∀ e, bad' e → bad e ∧ p.Avoids L I bad facts w) : p.Avoids L I bad' facts w := by
  induction p generalizing facts w with
  | ret a => trivial
  | raise e => exact fun he => (h e he).2 (h e he).1
  | select k ih => exact fun s hs hK => ih _ fun e he => ⟨(h e he).1, (h e he).2 s hs hK⟩
  | lock key k ih => exact fun s hs hK => ih _ fun e he => ⟨(h e he).1, (h e he).2 s hs hK⟩
  | skipLocked key k ih =>
    exact ⟨fun s hs hK => ih _ fun e he => ⟨(h e he).1, (h e he).2.1 s hs hK⟩,
      ih _ fun e he => ⟨(h e he).1, (h e he).2.2⟩⟩
  | write f k ih => exact ih h

/-- A check before a program. -/
theorem Avoids.checked {c : Prop} [Decidable c] {e : ε} {p : Txn σ κ ε α} (he : ¬bad e)
    (hp : p.Avoids L I bad facts w) : (raiseIf c e >>= fun _ => p).Avoids L I bad facts w :=
  avoids_bind.mpr ⟨avoids_raiseIf.mpr fun _ => he, wp_raiseIf.mpr fun _ => hp⟩

/-- A value without which a program does not go on. -/
theorem Avoids.found {x : Option β} {e : ε} {f : β → Txn σ κ ε α} (he : ¬bad e)
    (hf : ∀ b, (f b).Avoids L I bad facts w) :
    (getOrRaise x e >>= f).Avoids L I bad facts w :=
  avoids_bind.mpr ⟨avoids_getOrRaise.mpr fun _ => he, wp_getOrRaise.mpr fun b _ => hf b⟩

/-- A condition that holds of every end of a program holds after it. -/
theorem wp_of_forall {p : Txn σ κ ε α} {Post : List (κ × σ) → (σ → σ) → α → Prop}
    (h : ∀ facts w a, Post facts w a) : p.wp L I Post facts w := by
  induction p generalizing facts w with
  | ret a => exact h _ _ a
  | raise e => trivial
  | select k ih => exact fun s _ _ => ih _
  | lock key k ih => exact fun s _ _ => ih _
  | skipLocked key k ih => exact ⟨fun s _ _ => ih _, ih none⟩
  | write g k ih => exact ih

end Avoids

/-- The program has no statement that raises a bad error, whatever it reads. -/
def NeverRaises (bad : ε → Prop) (p : Txn σ κ ε α) : Prop :=
  ∀ (L : Locking σ κ) (I : σ → Prop) (facts : List (κ × σ)) (w : σ → σ), p.Avoids L I bad facts w

namespace NeverRaises

variable {bad : ε → Prop}

/-- The rest of a program that avoids its bad errors so far. -/
theorem after {L : Locking σ κ} {I : σ → Prop} {facts : List (κ × σ)} {w : σ → σ}
    {p : Txn σ κ ε α} {f : α → Txn σ κ ε β} (hf : ∀ a, (f a).NeverRaises bad)
    (hp : p.Avoids L I bad facts w) : (p >>= f).Avoids L I bad facts w :=
  avoids_bind.mpr ⟨hp, wp_of_forall fun facts w a => hf a L I facts w⟩

/-- Fewer errors are raised as little. -/
theorem mono {bad' : ε → Prop} {p : Txn σ κ ε α} (h : ∀ e, bad' e → bad e)
    (hp : p.NeverRaises bad) : p.NeverRaises bad' :=
  fun L I facts w => avoids_of_imp fun e he => ⟨h e he, hp L I facts w⟩

/-- One program after the other. -/
theorem bind {p : Txn σ κ ε α} {f : α → Txn σ κ ε β} (hp : p.NeverRaises bad)
    (hf : ∀ a, (f a).NeverRaises bad) : (p >>= f).NeverRaises bad :=
  fun L I facts w => after hf (hp L I facts w)

/-- A value raises nothing. -/
theorem pure (a : α) : (pure a : Txn σ κ ε α).NeverRaises bad := fun _ _ _ _ => trivial

/-- A good error may be raised. -/
theorem raise {e : ε} (he : ¬bad e) : (raise e : Txn σ κ ε α).NeverRaises bad :=
  fun _ _ _ _ => he

/-- A read raises nothing. -/
theorem read : (read : Txn σ κ ε σ).NeverRaises bad := fun _ _ _ _ _ _ _ => trivial

/-- Neither does a lock. -/
theorem acquire (key : κ) : (acquire key : Txn σ κ ε σ).NeverRaises bad :=
  fun _ _ _ _ _ _ _ => trivial

/-- Nor a lock that may be skipped. -/
theorem tryAcquire (key : κ) : (tryAcquire key : Txn σ κ ε (Option σ)).NeverRaises bad :=
  fun _ _ _ _ => ⟨fun _ _ _ => trivial, trivial⟩

/-- Nor a write. -/
theorem modify (f : σ → σ) : (modify f : Txn σ κ ε Unit).NeverRaises bad :=
  fun _ _ _ _ => trivial

/-- Nor an `UPDATE` by key. -/
theorem updateRow (key : κ) (f : σ → σ) : (updateRow key f : Txn σ κ ε Unit).NeverRaises bad :=
  fun _ _ _ _ _ _ _ => trivial

/-- A check whose error is good. -/
theorem raiseIf (c : Prop) [Decidable c] {e : ε} (he : ¬bad e) :
    (raiseIf c e : Txn σ κ ε Unit).NeverRaises bad :=
  fun _ _ _ _ => avoids_raiseIf.mpr fun _ => he

/-- A lookup whose error is good. -/
theorem getOrRaise (x : Option α) {e : ε} (he : ¬bad e) :
    (getOrRaise x e : Txn σ κ ε α).NeverRaises bad :=
  fun _ _ _ _ => avoids_getOrRaise.mpr fun _ => he

/-- Either of two programs. -/
theorem ite {c : Prop} [Decidable c] {p q : Txn σ κ ε α} (hp : p.NeverRaises bad)
    (hq : q.NeverRaises bad) : (if c then p else q).NeverRaises bad := by
  split
  · exact hp
  · exact hq

/-- Nor does it raise one when it runs alone. -/
theorem run {p : Txn σ κ ε α} (hp : p.NeverRaises bad) {s : σ} {e : ε}
    (hrun : p.run s = .error e) : ¬bad e := by
  suffices hall : ∀ w : σ → σ, p.Avoids .free (fun _ => True) bad [] w →
      p.run (w s) = .error e → ¬bad e from hall id (hp _ _ _ _) hrun
  have hknown : ∀ facts : List (κ × σ), Locking.free.Known facts s := fun _ _ _ => trivial
  clear hp hrun
  generalize ([] : List (κ × σ)) = facts
  intro w havoids hrun
  induction p generalizing facts w with
  | ret a => exact absurd hrun (by simp)
  | raise e' =>
    obtain rfl : e' = e := by simpa using hrun
    exact havoids
  | select k ih => exact ih _ _ w (havoids s trivial (hknown _)) hrun
  | lock key k ih => exact ih _ _ w (havoids s trivial (hknown _)) hrun
  | skipLocked key k ih => exact ih _ _ w (havoids.1 s trivial (hknown _)) hrun
  | write f k ih => exact ih facts (f ∘ w) havoids hrun

/-- A bad error of a composition whose first part raises none is an error of its second part. -/
theorem run_bind {p : Txn σ κ ε α} {f : α → Txn σ κ ε β} (hp : p.NeverRaises bad) {s : σ} {e : ε}
    (he : bad e) (hrun : (p >>= f).run s = .error e) :
    ∃ a t, p.run s = .ok (a, t) ∧ (f a).run t = .error e := by
  rcases run_bind_error.mp hrun with hfirst | hsecond
  · exact absurd he (hp.run hfirst)
  · exact hsecond

end NeverRaises

/-! ### What has been locked and changed at an error -/

section Wpe

variable (L : Locking σ κ) (I : σ → Prop) (B : List (κ × σ) → (σ → σ) → ε → Prop)

/-- Every error that the program raises from here on satisfies `B`, with the rows it has locked
and its pending changes. -/
def wpe : Txn σ κ ε α → List (κ × σ) → (σ → σ) → Prop
  | .ret _, _, _ => True
  | .raise e, facts, w => B facts w e
  | .select k, facts, w => ∀ s, I s → L.Known facts s → (k (w s)).wpe facts w
  | .lock key k, facts, w => ∀ s, I s → L.Known facts s → (k (w s)).wpe ((key, s) :: facts) w
  | .skipLocked key k, facts, w =>
    (∀ s, I s → L.Known facts s → (k (some (w s))).wpe ((key, s) :: facts) w) ∧
      (k none).wpe facts w
  | .write f k, facts, w => k.wpe facts (f ∘ w)

variable {L I B} {facts : List (κ × σ)} {w : σ → σ}

/-- The rule of composition. -/
@[simp] theorem wpe_bind {p : Txn σ κ ε α} {f : α → Txn σ κ ε β} :
    (p.bind f).wpe L I B facts w ↔ p.wpe L I B facts w ∧
      p.wp L I (fun facts' w' a => (f a).wpe L I B facts' w') facts w := by
  induction p generalizing facts w with
  | ret a => exact ⟨fun h => ⟨trivial, h⟩, And.right⟩
  | raise e => exact ⟨fun h => ⟨h, trivial⟩, And.left⟩
  | select k ih =>
    constructor
    · exact fun h => ⟨fun s hI hK => ((ih _).mp (h s hI hK)).1,
        fun s hI hK => ((ih _).mp (h s hI hK)).2⟩
    · exact fun h s hI hK => (ih _).mpr ⟨h.1 s hI hK, h.2 s hI hK⟩
  | lock key k ih =>
    constructor
    · exact fun h => ⟨fun s hI hK => ((ih _).mp (h s hI hK)).1,
        fun s hI hK => ((ih _).mp (h s hI hK)).2⟩
    · exact fun h s hI hK => (ih _).mpr ⟨h.1 s hI hK, h.2 s hI hK⟩
  | skipLocked key k ih =>
    constructor
    · intro h
      have hnone := (ih none).mp h.2
      exact ⟨⟨fun s hI hK => ((ih _).mp (h.1 s hI hK)).1, hnone.1⟩,
        fun s hI hK => ((ih _).mp (h.1 s hI hK)).2, hnone.2⟩
    · intro h
      exact ⟨fun s hI hK => (ih _).mpr ⟨h.1.1 s hI hK, h.2.1 s hI hK⟩,
        (ih none).mpr ⟨h.1.2, h.2.2⟩⟩
  | write g k ih => exact ih

/-- A check that fails blames what is known there. -/
@[simp] theorem wpe_raiseIf {c : Prop} [Decidable c] {e : ε} :
    (raiseIf c e : Txn σ κ ε Unit).wpe L I B facts w ↔ (c → B facts w e) := by
  by_cases h : c
  · simp [raiseIf, h, wpe]
  · simp [raiseIf, h, wpe]

/-- So does a lookup that finds nothing. -/
@[simp] theorem wpe_getOrRaise {x : Option α} {e : ε} :
    (getOrRaise x e : Txn σ κ ε α).wpe L I B facts w ↔ (x = none → B facts w e) := by
  cases x with
  | none => simp [getOrRaise, wpe]
  | some a => simp [getOrRaise, wpe]

/-- From a lock on which any error may be raised. -/
theorem wpe_of_held {f : κ × σ} {p : Txn σ κ ε α}
    (hB : ∀ facts w e, f ∈ facts → B facts w e) (hf : f ∈ facts) : p.wpe L I B facts w := by
  induction p generalizing facts w with
  | ret a => trivial
  | raise e => exact hB _ _ e hf
  | select k ih => exact fun s _ _ => ih _ hf
  | lock key k ih => exact fun s _ _ => ih _ (List.mem_cons_of_mem _ hf)
  | skipLocked key k ih => exact ⟨fun s _ _ => ih _ (List.mem_cons_of_mem _ hf), ih _ hf⟩
  | write g k ih => exact ih hf

/-- Who is blamed for more is blamed for less. -/
theorem wpe_mono {B' : List (κ × σ) → (σ → σ) → ε → Prop} {p : Txn σ κ ε α}
    (hB : ∀ facts w e, B facts w e → B' facts w e) (h : p.wpe L I B facts w) :
    p.wpe L I B' facts w := by
  induction p generalizing facts w with
  | ret a => trivial
  | raise e => exact hB _ _ e h
  | select k ih => exact fun s hI hK => ih _ (h s hI hK)
  | lock key k ih => exact fun s hI hK => ih _ (h s hI hK)
  | skipLocked key k ih => exact ⟨fun s hI hK => ih _ (h.1 s hI hK), ih _ h.2⟩
  | write g k ih => exact ih h

/-- Any error can be blamed on what always holds. -/
theorem wpe_of_forall {p : Txn σ κ ε α} (h : ∀ facts w e, B facts w e) : p.wpe L I B facts w := by
  induction p generalizing facts w with
  | ret a => trivial
  | raise e => exact h _ _ e
  | select k ih => exact fun s _ _ => ih _
  | lock key k ih => exact fun s _ _ => ih _
  | skipLocked key k ih => exact ⟨fun s _ _ => ih _, ih none⟩
  | write g k ih => exact ih

end Wpe

end Txn

namespace Sys

variable {ι σ κ ε α : Type} [DecidableEq ι] [DecidableEq κ] {L : Locking σ κ} {I : σ → Prop}
  {Q : ι → α → σ → σ → Prop} {bad : ε → Prop} {B : ι → ε → Prop}

/-- That a transaction raises no bad error from here on. -/
def avoids (L : Locking σ κ) (I : σ → Prop) (bad : ε → Prop) : Assertion σ κ ε α :=
  fun _ facts w p => p.Avoids L I bad facts w

omit [DecidableEq κ] in
/-- Avoiding an error is a local assertion. -/
theorem avoids_local : (avoids L I bad : Assertion σ κ ε α).Local L I where
  select hI hknown h := h _ hI hknown
  lock hI hknown h := h _ hI hknown
  lockFree hI hknown h := h.1 _ hI hknown
  lockTaken h := h.2
  write h := h

/-- In no interleaving does a program that avoids its bad errors raise one. -/
theorem Steps.avoids {db : σ} {p : ι → Txn σ κ ε α} {t : Sys ι σ κ ε α} (hI : I db)
    (hsafe : ∀ i, (p i).Safe L I (Q i)) (havoids : ∀ i, (p i).Avoids L I (B i) [] id)
    (h : Steps (init db p) t) {i : ι} {e : ε} (ht : t.txn i = .aborted (some e)) : ¬B i e := by
  suffices hall : Sound L I Q t ∧ Holds L I (fun i => Sys.avoids L I (B i)) t ∧
      ∀ i e, t.txn i = .aborted (some e) → ¬B i e from hall.2.2 i e ht
  clear ht
  refine h.preserve (P := fun t => Sound L I Q t ∧ Holds L I (fun i => Sys.avoids L I (B i)) t ∧
      ∀ i e, t.txn i = .aborted (some e) → ¬B i e) ?_
    ⟨sound_init hI hsafe, holds_init hI havoids, fun i e hi => by simp [init] at hi⟩
  rintro i s t hst ⟨hs, hholds, hraised⟩
  refine ⟨hs.step hst, ?_, fun j e hj => ?_⟩
  · refine hholds.step (fun _ => avoids_local) hst ?_
    intro w a hi _
    obtain ⟨hI', _, hframe⟩ := hs.commitOk hi
    exact ⟨hI', hframe, fun j _ facts w' p _ hp => hp⟩
  · -- only the transaction that takes the step can have raised just now
    by_cases hji : j = i
    · subst hji
      cases hst with
      | @raise w e' hi =>
        obtain ⟨facts, _, _, hA⟩ := hholds.txn j _ _ hi
        obtain rfl : e' = e := by simpa [Sys.abort] using hj
        exact hA
      | kill _ => simp [Sys.abort] at hj
      | commit _ => simp [Sys.commit] at hj
      | _ => simp [Sys.goto] at hj
    · refine hraised j e ?_
      cases hst with
      | raise _ => simpa [Sys.abort, hji] using hj
      | kill _ => simpa [Sys.abort, hji] using hj
      | commit _ => simpa [Sys.commit, hji] using hj
      | _ => simpa [Sys.goto, Sys.take, hji] using hj

/-- What a transaction has locked and changed when it raises an error. -/
def blames (L : Locking σ κ) (I : σ → Prop) (B : List (κ × σ) → (σ → σ) → ε → Prop) :
    Assertion σ κ ε α := fun _ facts w p => p.wpe L I B facts w

omit [DecidableEq κ] in
/-- So is blaming one. -/
theorem blames_local {B : List (κ × σ) → (σ → σ) → ε → Prop} :
    (blames L I B : Assertion σ κ ε α).Local L I where
  select hI hknown h := h _ hI hknown
  lock hI hknown h := h _ hI hknown
  lockFree hI hknown h := h.1 _ hI hknown
  lockTaken h := h.2
  write h := h

/-- What is known of a transaction that is about to raise, while the database has a property that
no commit brings back. -/
theorem Steps.blames {J : σ → Prop} {B : ι → List (κ × σ) → (σ → σ) → ε → Prop} {db : σ}
    {p : ι → Txn σ κ ε α} {t : Sys ι σ κ ε α} (hI : I db) (hsafe : ∀ i, (p i).Safe L I (Q i))
    (hJ : ∀ i a s t, Q i a s t → J t → J s)
    (hp : ∀ i, (p i).wpe L (fun s => I s ∧ J s) (B i) [] id) (h : Steps (init db p) t)
    (ht : J t.db) {i : ι} {w : σ → σ} {e : ε} (hi : t.txn i = .running w (.raise e)) :
    ∃ facts, L.Known facts t.db ∧ B i facts w e := by
  suffices hall : Sound L I Q t ∧ (J t.db →
      Holds L (fun s => I s ∧ J s) (fun i => Sys.blames L (fun s => I s ∧ J s) (B i)) t) by
    obtain ⟨facts, -, hknown, hB⟩ := (hall.2 ht).txn i w _ hi
    exact ⟨facts, hknown, hB⟩
  clear ht hi
  refine h.preserve (P := fun t => Sound L I Q t ∧ (J t.db →
      Holds L (fun s => I s ∧ J s) (fun i => Sys.blames L (fun s => I s ∧ J s) (B i)) t)) ?_
    ⟨sound_init hI hsafe, fun hdb => holds_init ⟨hI, hdb⟩ hp⟩
  rintro i s t hst ⟨hs, hholds⟩
  refine ⟨hs.step hst, fun hJt => ?_⟩
  have hJs : J s.db := by
    cases hst with
    | commit hi => exact hJ i _ _ _ (hs.commitOk hi).2.1 hJt
    | _ => exact hJt
  refine (hholds hJs).step (fun _ => blames_local) hst fun w a hi ht => ?_
  obtain ⟨hI', -, hframe⟩ := hs.commitOk hi
  rw [ht] at hJt
  exact ⟨⟨hI', hJt⟩, hframe, fun j _ facts w' p _ hp => hp⟩

end Sys

end Marketplace.Lib
