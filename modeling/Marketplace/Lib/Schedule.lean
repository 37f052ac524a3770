import Marketplace.Lib.Rely

/-!
# Interleavings that are computed

`Sys.next` is the next statement of a transaction as a function, and `Sys.play` the interleaving
that a list of turns describes, so that a single interleaving can be computed rather than proved.
-/

namespace Marketplace.Lib.Sys

variable {ι σ κ ε α : Type} [DecidableEq ι] [DecidableEq κ]

instance (s : Sys ι σ κ ε α) (i : ι) (key : κ) : Decidable (s.Free i key) :=
  inferInstanceAs (Decidable (_ ∨ _))

/-- The server after the next statement of transaction `i`, unless it waits or has ended. -/
def next (s : Sys ι σ κ ε α) (i : ι) : Option (Sys ι σ κ ε α) :=
  match s.txn i with
  | .running w (.ret a) => some (s.commit i w a)
  | .running _ (.raise e) => some (s.abort i (some e))
  | .running w (.select k) => some (s.goto i (.running w (k (w s.db))))
  | .running w (.lock key k) =>
    if s.Free i key then some ((s.take i key).goto i (.running w (k (w s.db)))) else none
  | .running w (.skipLocked key k) =>
    if s.Free i key then some ((s.take i key).goto i (.running w (k (some (w s.db)))))
    else some (s.goto i (.running w (k none)))
  | .running w (.write f k) => some (s.goto i (.running (f ∘ w) k))
  | .committed _ => none
  | .aborted _ => none

/-- What is computed is a statement of the transaction. -/
theorem step_of_next {s t : Sys ι σ κ ε α} {i : ι} (h : s.next i = some t) : Step i s t := by
  unfold next at h
  split at h
  · next hi =>
    cases h
    exact .commit hi
  · next hi =>
    cases h
    exact .raise hi
  · next hi =>
    cases h
    exact .select hi
  · next hi =>
    split at h
    · next hfree =>
      cases h
      exact .lock hi hfree
    · cases h
  · next hi =>
    split at h
    · next hfree =>
      cases h
      exact .lockFree hi hfree
    · next htaken =>
      cases h
      exact .lockTaken hi htaken
  · next hi =>
    cases h
    exact .write hi
  · cases h
  · cases h

/-- The server after one statement of each transaction in `turns`, if every turn passes the
check. -/
def play (check : Sys ι σ κ ε α → ι → Bool) : List ι → Sys ι σ κ ε α → Option (Sys ι σ κ ε α)
  | [], s => some s
  | i :: turns, s => if check s i then (s.next i).bind (play check turns) else none

/-- An interleaving that is computed meets what its turns are checked for. -/
theorem stepsIf_of_play {check : Sys ι σ κ ε α → ι → Bool}
    {C : Sys ι σ κ ε α → ι → Sys ι σ κ ε α → Prop}
    (hC : ∀ s i t, check s i = true → C s i t) {turns : List ι} {s t : Sys ι σ κ ε α}
    (h : play check turns s = some t) : StepsIf C s t := by
  induction turns generalizing s with
  | nil =>
    obtain rfl := Option.some.inj h
    exact .refl s
  | cons i turns ih =>
    unfold play at h
    split at h
    · next hcheck =>
      obtain ⟨u, hu, hrest⟩ := Option.bind_eq_some_iff.mp h
      exact ((StepsIf.refl s).tail i (step_of_next hu) (hC _ _ _ hcheck)).trans (ih hrest)
    · cases h

/-- An interleaving that is computed is one. -/
theorem steps_of_play {turns : List ι} {s t : Sys ι σ κ ε α}
    (h : play (fun _ _ => true) turns s = some t) : Steps s t :=
  (stepsIf_of_play (C := fun _ _ _ => True) (fun _ _ _ _ => trivial) h).steps

/-- The error that transaction `i` has raised. -/
def error? (s : Sys ι σ κ ε α) (i : ι) : Option ε :=
  match s.txn i with
  | .aborted e => e
  | _ => none

omit [DecidableEq ι] [DecidableEq κ] in
/-- A transaction with an error has aborted. -/
theorem aborted_of_error? {s : Sys ι σ κ ε α} {i : ι} {e : ε} (h : s.error? i = some e) :
    s.txn i = .aborted (some e) := by
  unfold error? at h
  split at h
  · next e' hi =>
    rw [hi, h]
  · cases h

end Marketplace.Lib.Sys
