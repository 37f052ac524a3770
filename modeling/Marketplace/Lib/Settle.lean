import Marketplace.Lib.Rely

/-!
# Sessions that commit after some errors

The session of a request rolls back when the program raises. `Txn.settle` is the program
whose session commits after the errors that are kept, with what it has written by then.
-/

namespace Marketplace.Lib

namespace Txn

variable {σ κ ε α β : Type}

/-- The program whose session commits when it raises an error that is kept. -/
def settle (keep : ε → Bool) : Txn σ κ ε α → Txn σ κ ε (Except ε α)
  | ret a => ret (.ok a)
  | raise e => if keep e then ret (.error e) else raise e
  | select k => select fun s => (k s).settle keep
  | lock key k => lock key fun s => (k s).settle keep
  | skipLocked key k => skipLocked key fun s => (k s).settle keep
  | write f k => write f (k.settle keep)

/-- The rest of a composition, after what its first part has come to. -/
def settleRest (keep : ε → Bool) (f : α → Txn σ κ ε β) : Except ε α → Txn σ κ ε (Except ε β)
  | .ok a => (f a).settle keep
  | .error e => ret (.error e)

variable {keep : ε → Bool}

/-- A sequence settles its first part and goes on from how that ended. -/
theorem settle_bind (p : Txn σ κ ε α) (f : α → Txn σ κ ε β) :
    (p.bind f).settle keep = (p.settle keep).bind (settleRest keep f) := by
  induction p with
  | ret a => rfl
  | raise e =>
    by_cases he : keep e = true
    · simp [settle, bind, he, settleRest]
    · simp [settle, bind, he]
  | select k ih => simp only [settle, bind, ih]
  | lock key k ih => simp only [settle, bind, ih]
  | skipLocked key k ih => simp only [settle, bind, ih]
  | write g k ih => simp only [settle, bind, ih]

variable {L : Locking σ κ} {I : σ → Prop} {R : σ → σ → Prop} {K : σ → Prop}
  {facts : List (κ × σ)} {w : σ → σ}

/-- The rule of composition. -/
@[simp] theorem wpr_settle_bind {p : Txn σ κ ε α} {f : α → Txn σ κ ε β}
    {Post : (σ → Prop) → List (κ × σ) → (σ → σ) → Except ε β → Prop} :
    ((p.bind f).settle keep).wpr L I R Post K facts w ↔
      (p.settle keep).wpr L I R
        (fun K' facts' w' r => (settleRest keep f r).wpr L I R Post K' facts' w') K facts w := by
  rw [settle_bind, wpr_bind]

/-- After a return the rest goes on. -/
@[simp] theorem wpr_settleRest_ok {f : α → Txn σ κ ε β} {a : α}
    {Post : (σ → Prop) → List (κ × σ) → (σ → σ) → Except ε β → Prop} :
    (settleRest keep f (.ok a)).wpr L I R Post K facts w ↔
      ((f a).settle keep).wpr L I R Post K facts w := Iff.rfl

/-- After an error nothing is left to do. -/
@[simp] theorem wpr_settleRest_error {f : α → Txn σ κ ε β} {e : ε}
    {Post : (σ → Prop) → List (κ × σ) → (σ → σ) → Except ε β → Prop} :
    (settleRest keep f (.error e)).wpr L I R Post K facts w ↔ Post K facts w (.error e) := Iff.rfl

section Statements

variable {Post : (σ → Prop) → List (κ × σ) → (σ → σ) → Except ε α → Prop}

/-- The rule of `ret`: it settles on the value. -/
@[simp] theorem wpr_settle_ret {a : α} :
    ((ret a : Txn σ κ ε α).settle keep).wpr L I R Post K facts w ↔ Post K facts w (.ok a) := Iff.rfl

/-- The rule of `raise`: an error that is kept is settled on. -/
@[simp] theorem wpr_settle_raise {e : ε} :
    ((raise e : Txn σ κ ε α).settle keep).wpr L I R Post K facts w ↔
      (keep e = true → Post K facts w (.error e)) := by
  by_cases he : keep e = true
  · simp [settle, he]
  · simp [settle, he]

/-- The rule of `read`: the states from here on are related to the one read. -/
@[simp] theorem wpr_settle_read
    {Post : (σ → Prop) → List (κ × σ) → (σ → σ) → Except ε σ → Prop} :
    ((read : Txn σ κ ε σ).settle keep).wpr L I R Post K facts w ↔
      ∀ s, I s → K s → L.Known facts s → Post (fun t => K t ∧ R s t) facts w (.ok (w s)) := Iff.rfl

/-- The rule of `acquire`: the locked row becomes a known fact. -/
@[simp] theorem wpr_settle_acquire {key : κ}
    {Post : (σ → Prop) → List (κ × σ) → (σ → σ) → Except ε σ → Prop} :
    ((acquire key : Txn σ κ ε σ).settle keep).wpr L I R Post K facts w ↔
      ∀ s, I s → K s → L.Known facts s →
        Post (fun t => K t ∧ R s t) ((key, s) :: facts) w (.ok (w s)) := Iff.rfl

/-- The rule of `modify`: the write joins the own writes. -/
@[simp] theorem wpr_settle_modify {f : σ → σ}
    {Post : (σ → Prop) → List (κ × σ) → (σ → σ) → Except ε Unit → Prop} :
    ((modify f : Txn σ κ ε Unit).settle keep).wpr L I R Post K facts w ↔
      Post K facts (f ∘ w) (.ok ()) := Iff.rfl

/-- The rule of `updateRow`: the row is locked and the write joins the own writes. -/
@[simp] theorem wpr_settle_updateRow {key : κ} {f : σ → σ}
    {Post : (σ → Prop) → List (κ × σ) → (σ → σ) → Except ε Unit → Prop} :
    ((updateRow key f : Txn σ κ ε Unit).settle keep).wpr L I R Post K facts w ↔
      ∀ s, I s → K s → L.Known facts s →
        Post (fun t => K t ∧ R s t) ((key, s) :: facts) (f ∘ w) (.ok ()) := Iff.rfl

/-- The rule of `raiseIf`: the error when the condition holds, the rest when it does not. -/
@[simp] theorem wpr_settle_raiseIf {bad : Prop} [Decidable bad] {e : ε}
    {Post : (σ → Prop) → List (κ × σ) → (σ → σ) → Except ε Unit → Prop} :
    ((raiseIf bad e : Txn σ κ ε Unit).settle keep).wpr L I R Post K facts w ↔
      (¬bad → Post K facts w (.ok ())) ∧ (bad → keep e = true → Post K facts w (.error e)) := by
  by_cases h : bad
  · simp [raiseIf, h]
  · simp [raiseIf, h]

/-- The rule of `getOrRaise`: the value when there is one, the error when there is none. -/
@[simp] theorem wpr_settle_getOrRaise {x : Option α} {e : ε} :
    ((getOrRaise x e : Txn σ κ ε α).settle keep).wpr L I R Post K facts w ↔
      (∀ a, x = some a → Post K facts w (.ok a)) ∧
        (x = none → keep e = true → Post K facts w (.error e)) := by
  cases x with
  | none => simp [getOrRaise]
  | some a => simp [getOrRaise]

end Statements

/-- The rule for a first statement that is a plain `SELECT`. -/
theorem wprFrom_settle_read {S : σ → Prop} {f : σ → Txn σ κ ε β}
    {Post : (σ → Prop) → List (κ × σ) → (σ → σ) → Except ε β → Prop}
    (h : ∀ s, I s → S s → ((f s).settle keep).wpr L I R Post (fun t => R s t) [] id) :
    ((read.bind f).settle keep).wprFrom L I R S Post := h

/-- The rule of composition for a program from its first statement on. -/
theorem wprFrom_settle_bind {S : σ → Prop} {p : Txn σ κ ε α} {f : α → Txn σ κ ε β}
    {Post : (σ → Prop) → List (κ × σ) → (σ → σ) → Except ε β → Prop}
    (hPost : ∀ K K' facts w a, (∀ s, K' s → K s) → Post K facts w a → Post K' facts w a)
    (h : (p.settle keep).wprFrom L I R S
      fun K facts w r => (settleRest keep f r).wpr L I R Post K facts w) :
    ((p.bind f).settle keep).wprFrom L I R S Post := by
  cases p with
  | select k => exact fun s hI hS => wpr_settle_bind.mpr (h s hI hS)
  | ret a => exact wprFrom_of_wpr hPost h
  | raise e =>
    refine wprFrom_of_wpr hPost (wpr_settle_raise.mpr fun he => ?_)
    have hkept : (raise e : Txn σ κ ε α).settle keep = ret (.error e) := by simp [settle, he]
    rw [hkept] at h
    exact h
  | lock key k => exact wpr_settle_bind.mpr h
  | skipLocked key k => exact wpr_settle_bind.mpr h
  | write g k => exact wpr_settle_bind.mpr h

/-- A program whose writes all respect `E` and which raises no bad error settles so. -/
theorem wpr_settle_of_writes {P : κ → (σ → σ) → Prop} {E : σ → σ → Prop} {bad : ε → Prop}
    (htrans : ∀ s t u, E s t → E t u → E s u) (hP : ∀ key f, P key f → ∀ s, E s (f s))
    {p : Txn σ κ ε α} (hwrites : p.Writes P) (hraises : p.NeverRaises bad)
    (hw : ∀ s, E s (w s)) :
    (p.settle keep).wpr L I R (fun _ _ w r => (∀ s, E s (w s)) ∧ ∀ e, r = .error e → ¬bad e)
      K facts w := by
  have hfrom := hwrites []
  have havoids := hraises .free (fun _ => True) [] w
  clear hwrites hraises
  have hknown : ∀ (fs : List (κ × σ)) s, Locking.free.Known fs s := fun _ _ _ _ => trivial
  generalize ([] : List κ) = held at hfrom
  generalize ([] : List (κ × σ)) = fs at havoids
  induction p generalizing K facts w held fs with
  | ret a => exact ⟨hw, by simp⟩
  | raise e =>
    refine wpr_settle_raise.mpr fun _ => ⟨hw, fun e' he' => ?_⟩
    obtain rfl := Except.error.inj he'
    exact havoids
  | select k ih => exact fun s _ _ _ => ih _ hw held (hfrom _) fs (havoids s trivial (hknown _ _))
  | lock key k ih => exact fun s _ _ _ => ih _ hw _ (hfrom _) _ (havoids s trivial (hknown _ _))
  | skipLocked key k ih =>
    exact ⟨fun s _ _ _ => ih _ hw _ (hfrom.1 _) _ (havoids.1 s trivial (hknown _ _)),
      ih _ hw held hfrom.2 fs havoids.2⟩
  | write f k ih =>
    obtain ⟨⟨key, -, hf⟩, hk⟩ := hfrom
    exact ih (fun s => htrans _ _ _ (hw s) (hP key f hf (w s))) held hk fs havoids

/-- What a program ensures when it returns, it ensures when it settles so. -/
theorem wpr_settle_of_wpr {p : Txn σ κ ε α}
    {Post : (σ → Prop) → List (κ × σ) → (σ → σ) → α → Prop} (h : p.wpr L I R Post K facts w) :
    (p.settle keep).wpr L I R (fun K facts w r => ∀ a, r = .ok a → Post K facts w a)
      K facts w := by
  induction p generalizing K facts w with
  | ret a =>
    rintro b hb
    obtain rfl := Except.ok.inj hb
    exact h
  | raise e => exact wpr_settle_raise.mpr fun _ a ha => nomatch ha
  | select k ih => exact fun s hI hs hK => ih _ (h s hI hs hK)
  | lock key k ih => exact fun s hI hs hK => ih _ (h s hI hs hK)
  | skipLocked key k ih => exact ⟨fun s hI hs hK => ih _ (h.1 s hI hs hK), ih _ h.2⟩
  | write f k ih => exact ih h

/-- A program settles with no error but those that are kept. -/
theorem wpr_settle_kept {p : Txn σ κ ε α} :
    (p.settle keep).wpr L I R (fun _ _ _ r => ∀ e, r = .error e → keep e = true) K facts w := by
  induction p generalizing K facts w with
  | ret a => exact fun e he => nomatch he
  | raise e =>
    refine wpr_settle_raise.mpr fun he e' heq => ?_
    obtain rfl := Except.error.inj heq
    exact he
  | select k ih => exact fun s _ _ _ => ih _
  | lock key k ih => exact fun s _ _ _ => ih _
  | skipLocked key k ih => exact ⟨fun s _ _ _ => ih _, ih _⟩
  | write f k ih => exact ih

/-- The program that raises again what has been kept. -/
def unsettle : Txn σ κ ε (Except ε α) → Txn σ κ ε α
  | ret (.ok a) => ret a
  | ret (.error e) => raise e
  | raise e => raise e
  | select k => select fun s => (k s).unsettle
  | lock key k => lock key fun s => (k s).unsettle
  | skipLocked key k => skipLocked key fun s => (k s).unsettle
  | write f k => write f k.unsettle

/-- Undoing the settling gives the program back. -/
theorem unsettle_settle (p : Txn σ κ ε α) : (p.settle keep).unsettle = p := by
  induction p with
  | ret a => rfl
  | raise e =>
    by_cases he : keep e = true
    · simp [settle, he, unsettle]
    · simp [settle, he, unsettle]
  | select k ih => simp only [settle, unsettle, ih]
  | lock key k ih => simp only [settle, unsettle, ih]
  | skipLocked key k ih => simp only [settle, unsettle, ih]
  | write f k ih => simp only [settle, unsettle, ih]

/-- Programs that settle alike are alike. -/
theorem settle_injective : Function.Injective (settle keep : Txn σ κ ε α → _) :=
  Function.LeftInverse.injective unsettle_settle

end Txn

/-! ### Errors that no undisturbed interleaving raises -/

/-- The program returns with the effect `Q`; that it has raised a kept error is excluded. -/
def OnlyReturns {σ ε α : Type} (Q : α → σ → σ → Prop) : Except ε α → σ → σ → Prop
  | .ok a => Q a
  | .error _ => fun _ _ => False

namespace Sys

variable {ι σ κ ε α : Type} [DecidableEq ι] [DecidableEq κ] {L : Locking σ κ} {I : σ → Prop}
  {p : ι → Txn σ κ ε α} {S : ι → σ → Prop} {R : ι → σ → σ → Prop} {Q : ι → α → σ → σ → Prop}
  {bad : ι → ε → Bool}

/-- That a transaction has not begun, or returns with the effect `Q` or raises none of the bad
errors if the others respect `R`. -/
def returns (L : Locking σ κ) (I : σ → Prop) (bad : ε → Bool) (p : Txn σ κ ε α)
    (R : σ → σ → Prop) (Q : α → σ → σ → Prop) : Assertion σ κ ε α := fun db facts w q =>
  relies L I (p.settle bad) R (OnlyReturns Q) db facts w (q.settle bad)

omit [DecidableEq ι] in
/-- What the commits of the log have brought, when the commit of a transaction `i` brings nothing
but what is `New i`. -/
theorem Commits.origin {β : Type} {T : σ → β → Prop} {N : ι → β → Prop}
    (hnew : ∀ i a s t x, Q i a s t → T t x → T s x ∨ N i x) {db t : σ} {log : List (ι × α)}
    (h : Commits Q db log t) {x : β} (hx : T t x) : T db x ∨ ∃ e ∈ log, N e.1 x := by
  induction h with
  | nil => exact .inl hx
  | snoc i a _ hQ ih =>
    rcases hnew i a _ _ x hQ hx with hs | hi
    · rcases ih hs with hdb | ⟨e, he, hnew'⟩
      · exact .inl hdb
      · exact .inr ⟨e, List.mem_append_left _ he, hnew'⟩
    · exact .inr ⟨(i, a), List.mem_append_right _ (List.mem_singleton_self _), hi⟩

omit [DecidableEq ι] in
/-- The commits of a log are related as each of them is. -/
theorem Commits.related {E : σ → σ → Prop} (hrefl : ∀ s, E s s)
    (htrans : ∀ s t u, E s t → E t u → E s u) (hQ : ∀ i a s t, Q i a s t → E s t) {db t : σ}
    {log : List (ι × α)} (h : Commits Q db log t) : E db t := by
  induction h with
  | nil => exact hrefl db
  | snoc i a _ hcommit ih => exact htrans _ _ _ ih (hQ i a _ _ hcommit)

/-- A transaction in the log has ended. -/
def Logged (s : Sys ι σ κ ε α) : Prop := ∀ i a, (i, a) ∈ s.log → s.txn i = .committed a

/-- A statement logs what it commits. -/
theorem Logged.step {s t : Sys ι σ κ ε α} {i : ι} (h : Logged s) (hst : Step i s t) :
    Logged t := by
  have hrunning : ∀ {w q j a}, s.txn i = .running w q → (j, a) ∈ s.log → j ≠ i := by
    rintro w q j a hi hlog rfl
    rw [h j a hlog] at hi
    cases hi
  intro j a hlog
  cases hst with
  | commit hi =>
    rcases List.mem_append.mp hlog with hlog | hlog
    · simp [commit, hrunning hi hlog, h j a hlog]
    · obtain ⟨rfl, rfl⟩ := Prod.mk.inj (List.mem_singleton.mp hlog)
      simp [commit]
  | raise hi => simp [abort, hrunning hi hlog, h j a hlog]
  | kill hi => simp [abort, hrunning hi hlog, h j a hlog]
  | select hi => simp [goto, hrunning hi hlog, h j a hlog]
  | lock hi _ => simp [goto, take, hrunning hi hlog, h j a hlog]
  | lockFree hi _ => simp [goto, take, hrunning hi hlog, h j a hlog]
  | lockTaken hi _ => simp [goto, hrunning hi hlog, h j a hlog]
  | write hi => simp [goto, hrunning hi hlog, h j a hlog]

/-- The log holds the transactions that have committed, each of them once. -/
structure LogsCommits (s : Sys ι σ κ ε α) : Prop where
  logged : Logged s
  complete : ∀ i a, s.txn i = .committed a → (i, a) ∈ s.log
  nodup : (s.log.map Prod.fst).Nodup

/-- A step logs what it commits. -/
theorem LogsCommits.step {s t : Sys ι σ κ ε α} {i : ι} (h : LogsCommits s) (hst : Step i s t) :
    LogsCommits t := by
  refine ⟨h.logged.step hst, fun j a ht => ?_, ?_⟩
  · by_cases hji : j = i
    · subst hji
      cases hst with
      | commit hi =>
        simp only [commit, Function.update_self, Status.committed.injEq] at ht
        simp [commit, ht]
      | raise hi => simp [abort] at ht
      | kill hi => simp [abort] at ht
      | _ => simp [goto] at ht
    · rw [hst.other hji] at ht
      have hmem := h.complete j a ht
      cases hst with
      | commit hi => exact List.mem_append_left _ hmem
      | _ => exact hmem
  · cases hst with
    | @commit w a hi =>
      have hnew : i ∉ s.log.map Prod.fst := by
        intro hmem
        obtain ⟨⟨j, b⟩, hlog, rfl⟩ := List.mem_map.mp hmem
        have hended := h.logged j b hlog
        rw [hi] at hended
        cases hended
      simp only [commit, List.map_append, List.map_cons, List.map_nil]
      exact List.nodup_append.mpr ⟨h.nodup, by simp,
        fun j hj k hk hjk => hnew (by rwa [← List.mem_singleton.mp hk, ← hjk])⟩
    | _ => exact h.nodup

/-- Every run from an initial system logs what it commits. -/
theorem Steps.logsCommits {db : σ} {p : ι → Txn σ κ ε α} {t : Sys ι σ κ ε α}
    (h : Steps (init db p) t) : LogsCommits t := by
  refine h.preserve (fun hst hs => hs.step hst) ⟨?_, ?_, List.nodup_nil⟩
  · intro i a hmem
    cases hmem
  · intro i a hi
    simp [init] at hi

section Step

variable (hrefl : ∀ i s, R i s s) (htrans : ∀ i s t u, R i s t → R i t u → R i s u)
  (hp : ∀ i, ((p i).settle (bad i)).wprFrom L I (R i) (S i) (RelyOk L I (OnlyReturns (Q i))))

include hp in
omit [DecidableEq ι] [DecidableEq κ] in
/-- The effect of a commit. -/
theorem Holds.returns_commit {s : Sys ι σ κ ε α} {i : ι}
    (h : Holds L I (fun i => returns L I (bad i) (p i) (R i) (Q i)) s) {w : σ → σ} {a : α}
    (hi : s.txn i = .running w (.ret a)) :
    I (w s.db) ∧ Q i a s.db (w s.db) ∧
      ∀ key j, j ≠ i → s.owner key = some j → L.agree key s.db (w s.db) := by
  obtain ⟨facts, hheld, hknown, hA⟩ := h.txn i w _ hi
  obtain ⟨hI, hQ, hframe⟩ := Sys.relies_commit (hp i) h.db hknown hA
  refine ⟨hI, hQ, fun key j hj hown => hframe key ?_⟩
  rintro f hf rfl
  have hi' := hheld f hf
  rw [hi'] at hown
  exact hj (Option.some.inj hown).symm

include hp in
omit [DecidableEq ι] [DecidableEq κ] in
/-- No transaction raises a bad error. -/
theorem Holds.returns_raise {s : Sys ι σ κ ε α} {i : ι}
    (h : Holds L I (fun i => returns L I (bad i) (p i) (R i) (Q i)) s) {w : σ → σ} {e : ε}
    (hi : s.txn i = .running w (.raise e)) : bad i e = false := by
  obtain ⟨facts, -, hknown, hA⟩ := h.txn i w _ hi
  by_contra he
  have hsettle : (Txn.raise e : Txn σ κ ε α).settle (bad i) = .ret (.error e) := by
    simp [Txn.settle, he]
  rw [returns, hsettle] at hA
  exact (Sys.relies_commit (hp i) h.db hknown hA).2.1

include hrefl htrans hp in
/-- Every undisturbed statement keeps what the transactions rely on. -/
theorem Holds.returns_step {s t : Sys ι σ κ ε α} {i : ι}
    (h : Holds L I (fun i => returns L I (bad i) (p i) (R i) (Q i)) s) (hst : Step i s t)
    (hC : Undisturbed p S R s i t) :
    Holds L I (fun i => returns L I (bad i) (p i) (R i) (Q i)) t := by
  refine h.step_of hst ?_ ?_
  · intro facts w q hi hknown hA
    have hnext := relies_afterStatement (hrefl i) (htrans i) (hp i) h.db hknown
      (fun hq hw => hC.first (by rw [hi, hw, Txn.settle_injective hq])) hA
    cases q with
    | ret a => trivial
    | raise e => trivial
    | _ => exact hnext
  · intro w a hi ht
    obtain ⟨hI, -, hframe⟩ := h.returns_commit hp hi
    refine ⟨hI, hframe, fun j hj facts w' q hq hA => ?_⟩
    by_cases hbegun : s.txn j = .running id (p j)
    · rw [hbegun] at hq
      cases hq
      exact .inl ⟨rfl, rfl⟩
    · rcases hA with hfirst | ⟨K, hdb, hK, hwp⟩
      · exact .inl hfirst
      · have hR := hC.others j hj ⟨w', q, hq, hbegun⟩
        rw [ht] at hR
        exact .inr ⟨K, hK _ _ hdb hR, hK, hwp⟩

variable {db : σ} {C : Sys ι σ κ ε α → ι → Sys ι σ κ ε α → Prop}
  (hC : ∀ i s t, Step i s t → C s i t → I s.db → Logged s → Commits Q db s.log s.db →
    (∀ w a, s.txn i = .running w (.ret a) → Q i a s.db (w s.db)) → Undisturbed p S R s i t)

/-- What is known of every state of an undisturbed interleaving. -/
structure Returning (L : Locking σ κ) (I : σ → Prop) (bad : ι → ε → Bool) (p : ι → Txn σ κ ε α)
    (R : ι → σ → σ → Prop) (Q : ι → α → σ → σ → Prop) (db : σ) (t : Sys ι σ κ ε α) : Prop where
  holds : Holds L I (fun i => returns L I (bad i) (p i) (R i) (Q i)) t
  logged : Logged t
  /-- The database is the result of the commits in the log. -/
  commits : Commits Q db t.log t.db
  /-- No transaction has raised a bad error. -/
  raised : ∀ i e, t.txn i = .aborted (some e) → bad i e = false

include hrefl htrans hp hC in
/-- Every run under the condition keeps the record of what was returned. -/
theorem StepsIf.returns {t : Sys ι σ κ ε α} (hI : I db) (h : StepsIf C (init db p) t) :
    Returning L I bad p R Q db t := by
  have hinit : Returning L I bad p R Q db (init db p) := by
    refine ⟨holds_init hI fun i => .inl ⟨rfl, rfl⟩, fun i a hi => ?_, .nil, fun i e hi => ?_⟩
    · simp [init] at hi
    · simp [init] at hi
  refine h.preserve (P := Returning L I bad p R Q db) ?_ hinit
  rintro i s t hst hif ⟨hs, hlogged, hlog, hraised⟩
  have hcommit : ∀ w a, s.txn i = .running w (.ret a) → Q i a s.db (w s.db) :=
    fun w a hi => (hs.returns_commit hp hi).2.1
  have hundisturbed := hC i s t hst hif hs.db hlogged hlog hcommit
  refine ⟨hs.returns_step hrefl htrans hp hst hundisturbed, hlogged.step hst, ?_, fun j e ht => ?_⟩
  · cases hst with
    | commit hi => exact hlog.snoc i _ (hcommit _ _ hi)
    | _ => exact hlog
  · -- only the transaction that takes the step can have raised just now
    by_cases hji : j = i
    · subst hji
      cases hst with
      | @raise w e' hi =>
        obtain rfl : e' = e := by simpa [Sys.abort] using ht
        exact hs.returns_raise hp hi
      | kill _ => simp [Sys.abort] at ht
      | commit _ => simp [Sys.commit] at ht
      | _ => simp [Sys.goto] at ht
    · exact hraised j e (by rw [← hst.other hji, ht])

include hrefl htrans hp hC in
/-- What is committed from one state of an undisturbed interleaving to a later one. -/
theorem StepsIf.commits_between {s t : Sys ι σ κ ε α} (hI : I db) (hs : StepsIf C (init db p) s)
    (h : StepsIf C s t) : ∃ log, t.log = s.log ++ log ∧ Commits Q s.db log t.db := by
  induction h with
  | refl => exact ⟨[], by simp, .nil⟩
  | tail i hst hstep _ ih =>
    obtain ⟨log, hlog, hcommits⟩ := ih
    have hholds := ((hs.trans hst).returns hrefl htrans hp hC hI).holds
    cases hstep with
    | @commit w a hi =>
      refine ⟨log ++ [(i, a)], ?_, hcommits.snoc i a (hholds.returns_commit hp hi).2.1⟩
      simp [commit, hlog]
    | _ => exact ⟨log, hlog, hcommits⟩

end Step

end Sys

end Marketplace.Lib
