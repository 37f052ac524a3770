import Marketplace.Lib.Concurrency

/-!
# What the writes of a transaction are

A program is described by the kinds of its writes: each of them changes, in one of
these kinds of ways, a row that the program has locked. This is checked statement by
statement along the program. What each write does to the database, in the sense of a
relation that composes, the whole program does, both running alone and in every
interleaving.
-/

namespace Marketplace.Lib

namespace Txn

variable {σ κ ε α β : Type}

/-- Every write of the program, which holds the locks `held`, is of the kind `P` for a row that
is locked by then. -/
def WritesFrom (P : κ → (σ → σ) → Prop) : List κ → Txn σ κ ε α → Prop
  | _, ret _ => True
  | _, raise _ => True
  | held, select k => ∀ s, (k s).WritesFrom P held
  | held, lock key k => ∀ s, (k s).WritesFrom P (key :: held)
  | held, skipLocked key k =>
    (∀ s, (k (some s)).WritesFrom P (key :: held)) ∧ (k none).WritesFrom P held
  | held, write f k => (∃ key ∈ held, P key f) ∧ k.WritesFrom P held

/-- Every write of the program is of the kind `P`, for a row that the program has locked. -/
def Writes (P : κ → (σ → σ) → Prop) (p : Txn σ κ ε α) : Prop := ∀ held, p.WritesFrom P held

/-- A composition writes what its two parts write; the second part has the locks of the first. -/
theorem WritesFrom.bind {P : κ → (σ → σ) → Prop} {held : List κ} {p : Txn σ κ ε α}
    {f : α → Txn σ κ ε β} (hp : p.WritesFrom P held)
    (hf : ∀ a held', held ⊆ held' → (f a).WritesFrom P held') :
    (p >>= f).WritesFrom P held := by
  induction p generalizing held with
  | ret a => exact hf a held (List.Subset.refl held)
  | raise e => trivial
  | select k ih => exact fun s => ih s (hp s) hf
  | lock key k ih =>
    exact fun s => ih s (hp s) fun a held' hsub =>
      hf a held' fun x hx => hsub (List.mem_cons_of_mem key hx)
  | skipLocked key k ih =>
    refine ⟨fun s => ih (some s) (hp.1 s) fun a held' hsub => ?_, ih none hp.2 hf⟩
    exact hf a held' fun x hx => hsub (List.mem_cons_of_mem key hx)
  | write g k ih => exact ⟨hp.1, ih hp.2 hf⟩

namespace Writes

variable {P R : κ → (σ → σ) → Prop}

/-- A composition writes what its two parts write. -/
theorem bind {p : Txn σ κ ε α} {f : α → Txn σ κ ε β} (hp : p.Writes P)
    (hf : ∀ a, (f a).Writes P) : (p >>= f).Writes P :=
  fun held => (hp held).bind fun a held' _ => hf a held'

/-- Returning a value writes nothing. -/
theorem pure (a : α) : (pure a : Txn σ κ ε α).Writes P := fun _ => trivial

/-- Raising writes nothing. -/
theorem raise (e : ε) : (raise e : Txn σ κ ε α).Writes P := fun _ => trivial

/-- Reading writes nothing. -/
theorem read : (read : Txn σ κ ε σ).Writes P := fun _ _ => trivial

/-- Locking writes nothing. -/
theorem acquire (key : κ) : (acquire key : Txn σ κ ε σ).Writes P := fun _ _ => trivial

/-- Trying a lock writes nothing. -/
theorem tryAcquire (key : κ) : (tryAcquire key : Txn σ κ ε (Option σ)).Writes P :=
  fun _ => ⟨fun _ => trivial, trivial⟩

/-- An update writes what it is given. -/
theorem updateRow {key : κ} {f : σ → σ} (hf : P key f) :
    (updateRow key f : Txn σ κ ε Unit).Writes P :=
  fun _ _ => ⟨⟨key, List.mem_cons_self, hf⟩, trivial⟩

/-- A check writes nothing. -/
theorem raiseIf (bad : Prop) [Decidable bad] (e : ε) :
    (raiseIf bad e : Txn σ κ ε Unit).Writes P := by
  intro held
  unfold Txn.raiseIf
  split
  · trivial
  · trivial

/-- A check on a value at hand writes nothing. -/
theorem getOrRaise (x : Option α) (e : ε) : (getOrRaise x e : Txn σ κ ε α).Writes P := by
  intro held
  cases x with
  | none => trivial
  | some a => trivial

/-- A branch writes what its sides write. -/
theorem ite {c : Prop} [Decidable c] {p q : Txn σ κ ε α} (hp : p.Writes P)
    (hq : q.Writes P) : (if c then p else q).Writes P := by
  split
  · exact hp
  · exact hq

/-- A change of the row under a lock that has just been taken, if nothing is wrong with it. -/
theorem checked {key : κ} {bad : σ → Prop} [∀ s, Decidable (bad s)] {e : ε} {f : σ → σ}
    (hf : P key f) : (do
      let s ← Txn.acquire key
      Txn.raiseIf (bad s) e
      Txn.modify f : Txn σ κ ε Unit).Writes P := by
  intro held s
  change WritesFrom P (key :: held) ((Txn.raiseIf (bad s) e).bind fun _ => Txn.modify f)
  unfold Txn.raiseIf
  split
  · trivial
  · exact ⟨⟨key, List.mem_cons_self, hf⟩, trivial⟩

/-- A program whose writes are of some kinds has writes of any more general kinds. -/
theorem mono (hPR : ∀ key f, P key f → R key f) {p : Txn σ κ ε α} (h : p.Writes P) :
    p.Writes R := by
  intro held
  have hfrom := h held
  clear h
  induction p generalizing held with
  | ret a => trivial
  | raise e => trivial
  | select k ih => exact fun s => ih s held (hfrom s)
  | lock key k ih => exact fun s => ih s _ (hfrom s)
  | skipLocked key k ih => exact ⟨fun s => ih (some s) _ (hfrom.1 s), ih none held hfrom.2⟩
  | write f k ih =>
    obtain ⟨⟨key, hkey, hf⟩, hk⟩ := hfrom
    exact ⟨⟨key, hkey, hPR key f hf⟩, ih held hk⟩

section Relation

variable {R : σ → σ → Prop} (hrefl : ∀ s, R s s) (htrans : ∀ s t u, R s t → R t u → R s u)

include hrefl htrans

/-- Running alone, a program changes the database as its writes do, one after the other. -/
theorem run (hP : ∀ key f, P key f → ∀ s, R s (f s)) {p : Txn σ κ ε α} (h : p.Writes P)
    {s s' : σ} {a : α} (hrun : p.run s = .ok (a, s')) : R s s' := by
  have hfrom := h []
  clear h
  generalize ([] : List κ) = held at hfrom
  induction p generalizing held s with
  | ret b =>
    obtain ⟨-, rfl⟩ := run_ret_ok.mp hrun
    exact hrefl s
  | raise e => exact absurd hrun (by simp)
  | select k ih => exact ih s hrun held (hfrom s)
  | lock key k ih => exact ih s hrun _ (hfrom s)
  | skipLocked key k ih => exact ih (some s) hrun _ (hfrom.1 s)
  | write f k ih =>
    obtain ⟨⟨key, -, hf⟩, hk⟩ := hfrom
    exact htrans _ _ _ (hP key f hf s) (ih hrun held hk)

/-- From pending changes on, a program changes the database as its writes do, and gives up no
lock. -/
theorem wp_since {L : Locking σ κ} {I : σ → Prop} (hP : ∀ key f, P key f → ∀ s, R s (f s))
    {p : Txn σ κ ε α} (h : p.Writes P) {facts : List (κ × σ)} {w : σ → σ} :
    p.wp L I (fun facts' w' _ => facts ⊆ facts' ∧ ∀ s, R (w s) (w' s)) facts w := by
  have hfrom := h []
  clear h
  -- what holds with one lock more holds of the locks before
  have hcons : ∀ {q : Txn σ κ ε α} {facts : List (κ × σ)} {w : σ → σ} (fact : κ × σ),
      q.wp L I (fun facts' w' _ => fact :: facts ⊆ facts' ∧ ∀ s, R (w s) (w' s))
        (fact :: facts) w →
      q.wp L I (fun facts' w' _ => facts ⊆ facts' ∧ ∀ s, R (w s) (w' s)) (fact :: facts) w :=
    fun fact h => wp_mono (fun _ _ _ hpost =>
      ⟨List.Subset.trans (List.subset_cons_self fact _) hpost.1, hpost.2⟩) h
  generalize ([] : List κ) = held at hfrom
  induction p generalizing held facts w with
  | ret b => exact ⟨List.Subset.refl _, fun s => hrefl (w s)⟩
  | raise e => trivial
  | select k ih => exact fun s _ _ => ih _ held (hfrom _)
  | lock key k ih => exact fun s _ _ => hcons _ (ih _ _ (hfrom _))
  | skipLocked key k ih =>
    exact ⟨fun s _ _ => hcons _ (ih _ _ (hfrom.1 _)), ih _ held hfrom.2⟩
  | write f k ih =>
    obtain ⟨⟨key, -, hf⟩, hk⟩ := hfrom
    refine wp_mono (fun facts' w' _ hpost => ⟨hpost.1, fun s => ?_⟩) (ih held hk)
    exact htrans _ _ _ (hP key f hf (w s)) (hpost.2 s)

/-- The pending changes of a program are changes as its writes do them, one after the other. -/
theorem wp {L : Locking σ κ} {I : σ → Prop} (hP : ∀ key f, P key f → ∀ s, R s (f s))
    {p : Txn σ κ ε α} (h : p.Writes P) {facts : List (κ × σ)} {w : σ → σ} (hw : ∀ s, R s (w s)) :
    p.wp L I (fun _ w _ => ∀ s, R s (w s)) facts w :=
  wp_mono (fun _ _ _ hpost s => htrans _ _ _ (hw s) (hpost.2 s)) (h.wp_since hrefl htrans hP)

omit hrefl in
/-- The pending changes of a program go on as its writes do, and touch only locked rows. -/
theorem wp_commitOk {L : Locking σ κ} {I : σ → Prop}
    (hstep : ∀ key f, P key f → ∀ s, I s → I (f s) ∧ R s (f s))
    (hframe : ∀ key f, P key f → ∀ s key', key' ≠ key → L.agree key' s (f s))
    {p : Txn σ κ ε α} (h : p.Writes P) {facts : List (κ × σ)} {w : σ → σ}
    (hI : ∀ s, I s → I (w s) ∧ R s (w s))
    (hw : ∀ s key, (∀ f ∈ facts, f.1 ≠ key) → L.agree key s (w s)) :
    p.wp L I (CommitOk L I fun _ s s' => R s s') facts w := by
  have hfrom := h (facts.map Prod.fst)
  clear h
  -- one more locked row is one row less that has to stay
  have hlocked : ∀ {facts : List (κ × σ)} {w : σ → σ} (key' : κ) (t : σ),
      (∀ s key, (∀ f ∈ facts, f.1 ≠ key) → L.agree key s (w s)) →
      ∀ s key, (∀ f ∈ (key', t) :: facts, f.1 ≠ key) → L.agree key s (w s) :=
    fun _ _ hw s key hkey => hw s key fun f hf => hkey f (List.mem_cons_of_mem _ hf)
  induction p generalizing facts w with
  | ret a => exact fun s hs _ => ⟨(hI s hs).1, (hI s hs).2, hw s⟩
  | raise e => trivial
  | select k ih => exact fun s _ _ => ih _ hI hw (hfrom _)
  | lock key k ih => exact fun s _ _ => ih _ hI (hlocked key s hw) (hfrom _)
  | skipLocked key k ih =>
    exact ⟨fun s _ _ => ih _ hI (hlocked key s hw) (hfrom.1 _), ih _ hI hw hfrom.2⟩
  | write f k ih =>
    obtain ⟨⟨key, hkey, hf⟩, hk⟩ := hfrom
    obtain ⟨fact, hfact, rfl⟩ := List.mem_map.mp hkey
    refine ih (w := f ∘ w) (fun s hs => ?_) (fun s key' hkey' => ?_) hk
    · obtain ⟨hIw, hRw⟩ := hI s hs
      obtain ⟨hIf, hRf⟩ := hstep _ f hf (w s) hIw
      exact ⟨hIf, htrans _ _ _ hRw hRf⟩
    · have hne : key' ≠ fact.1 := fun heq => hkey' fact hfact heq.symm
      exact L.trans (hw s key' hkey') (hframe _ f hf (w s) key' hne)

/-- In every interleaving, the pending changes of a program keep the invariant of the database,
change it as its writes do and touch only locked rows. -/
theorem safe {L : Locking σ κ} {I : σ → Prop}
    (hstep : ∀ key f, P key f → ∀ s, I s → I (f s) ∧ R s (f s))
    (hframe : ∀ key f, P key f → ∀ s key', key' ≠ key → L.agree key' s (f s))
    {p : Txn σ κ ε α} (h : p.Writes P) : p.Safe L I fun _ s s' => R s s' :=
  h.wp_commitOk htrans hstep hframe (fun s hs => ⟨hs, hrefl s⟩) fun s key _ => L.refl key s

end Relation

end Writes

end Txn

end Marketplace.Lib
