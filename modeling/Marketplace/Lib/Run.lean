import Mathlib.Tactic.Common

/-!
# Runs of a state machine

A machine is a step function; a run is a list of inputs. This file says what holds at
every step of a run, counts steps, and gives the machine a memory of its run, with one
rule of induction for each.
-/

namespace Marketplace.Lib

variable {σ ι γ : Type} (step : σ → ι → σ)

/-- The state after a run. -/
def after (s : σ) (run : List ι) : σ := run.foldl step s

/-- At every step of the run, `Φ` holds of the state before the step and its input. -/
def EachStep (Φ : σ → ι → Prop) : σ → List ι → Prop
  | _, [] => True
  | s, i :: run => Φ s i ∧ EachStep Φ (step s i) run

/-- The number of steps of the run that satisfy `p`. -/
def countSteps (p : σ → ι → Bool) : σ → List ι → ℕ
  | _, [] => 0
  | s, i :: run => (if p s i then 1 else 0) + countSteps p (step s i) run

/-- The machine with a memory that every step updates. -/
def withMemory (note : γ → σ → ι → γ) : σ × γ → ι → σ × γ := fun s i =>
  (step s.1 i, note s.2 s.1 i)

variable {step}

/-- The empty run stays where it is. -/
@[simp] theorem after_nil (s : σ) : after step s [] = s := rfl

/-- A run takes its first step first. -/
@[simp] theorem after_cons (s : σ) (i : ι) (run : List ι) :
    after step s (i :: run) = after step (step s i) run := rfl

/-- Two runs one after the other. -/
@[simp] theorem after_append (s : σ) (run run' : List ι) :
    after step s (run ++ run') = after step (after step s run) run' := by
  simp [after]

instance EachStep.decidable {Φ : σ → ι → Prop} [∀ s i, Decidable (Φ s i)] :
    ∀ (s : σ) (run : List ι), Decidable (EachStep step Φ s run)
  | _, [] => inferInstanceAs (Decidable True)
  | s, i :: run =>
    haveI : Decidable (EachStep step Φ (step s i) run) := EachStep.decidable (step s i) run
    inferInstanceAs (Decidable (Φ s i ∧ EachStep step Φ (step s i) run))

/-- Every step of the empty run is as asked. -/
@[simp] theorem eachStep_nil {Φ : σ → ι → Prop} {s : σ} : EachStep step Φ s [] ↔ True := Iff.rfl

/-- The first step and every later one are as asked. -/
@[simp] theorem eachStep_cons {Φ : σ → ι → Prop} {s : σ} {i : ι} {run : List ι} :
    EachStep step Φ s (i :: run) ↔ Φ s i ∧ EachStep step Φ (step s i) run := Iff.rfl

/-- Every step of a run is the step after some first part of it. -/
theorem eachStep_iff {Φ : σ → ι → Prop} {s : σ} {run : List ι} :
    EachStep step Φ s run ↔
      ∀ first i rest, run = first ++ i :: rest → Φ (after step s first) i := by
  induction run generalizing s with
  | nil => simp
  | cons i run ih =>
    rw [eachStep_cons, ih]
    constructor
    · rintro ⟨hi, hrun⟩ first j rest heq
      cases first with
      | nil =>
        obtain ⟨rfl, -⟩ := List.cons.inj heq
        exact hi
      | cons k first =>
        obtain ⟨rfl, htail⟩ := List.cons.inj heq
        exact hrun first j rest htail
    · intro h
      exact ⟨h [] i run rfl, fun first j rest heq => h (i :: first) j rest (by rw [heq]; rfl)⟩

/-- What every step does, it does under a weaker demand. -/
theorem EachStep.mono {Φ Ψ : σ → ι → Prop} (h : ∀ s i, Φ s i → Ψ s i) {s : σ} {run : List ι}
    (hrun : EachStep step Φ s run) : EachStep step Ψ s run := by
  induction run generalizing s with
  | nil => trivial
  | cons i run ih => exact ⟨h s i hrun.1, ih hrun.2⟩

/-- Two conditions are met together. -/
theorem EachStep.and {Φ Ψ : σ → ι → Prop} {s : σ} {run : List ι} (hΦ : EachStep step Φ s run)
    (hΨ : EachStep step Ψ s run) : EachStep step (fun s i => Φ s i ∧ Ψ s i) s run := by
  induction run generalizing s with
  | nil => trivial
  | cons i run ih => exact ⟨⟨hΦ.1, hΨ.1⟩, ih hΦ.2 hΨ.2⟩

/-- Every step of two runs one after the other. -/
theorem eachStep_append {Φ : σ → ι → Prop} {s : σ} {run run' : List ι} :
    EachStep step Φ s (run ++ run') ↔
      EachStep step Φ s run ∧ EachStep step Φ (after step s run) run' := by
  induction run generalizing s with
  | nil => simp
  | cons i run ih => simp [ih, and_assoc]

section Invariant

variable {I : σ → Prop} {C G : σ → ι → Prop}

/-- An invariant that every step keeps, as long as the steps meet the condition `C`. -/
theorem EachStep.invariant (hstep : ∀ s i, I s → C s i → I (step s i)) {s : σ} {run : List ι}
    (hs : I s) (hrun : EachStep step C s run) : I (after step s run) := by
  induction run generalizing s with
  | nil => exact hs
  | cons i run ih => exact ih (hstep s i hs hrun.1) hrun.2

/-- What an invariant guarantees of each step. -/
theorem EachStep.guarantee (hstep : ∀ s i, I s → C s i → I (step s i))
    (hgood : ∀ s i, I s → C s i → G s i) {s : σ} {run : List ι} (hs : I s)
    (hrun : EachStep step C s run) : EachStep step G s run := by
  induction run generalizing s with
  | nil => trivial
  | cons i run ih => exact ⟨hgood s i hs hrun.1, ih (hstep s i hs hrun.1) hrun.2⟩

/-- Two conditions that agree as long as an invariant holds are met by the same runs. -/
theorem eachStep_congr (hstep : ∀ s i, I s → C s i → I (step s i))
    (hiff : ∀ s i, I s → (G s i ↔ C s i)) {s : σ} {run : List ι} (hs : I s) :
    EachStep step G s run ↔ EachStep step C s run := by
  induction run generalizing s with
  | nil => exact Iff.rfl
  | cons i run ih =>
    rw [eachStep_cons, eachStep_cons, hiff s i hs]
    exact and_congr_right fun hi => ih (hstep s i hs hi)

/-- A step that cannot happen any more is not counted any more. -/
theorem EachStep.count_eq_zero {p : σ → ι → Bool}
    (hstep : ∀ s i, I s → C s i → I (step s i)) (hnot : ∀ s i, I s → C s i → p s i = false)
    {s : σ} {run : List ι} (hs : I s) (hrun : EachStep step C s run) :
    countSteps step p s run = 0 := by
  induction run generalizing s with
  | nil => rfl
  | cons i run ih =>
    rw [countSteps, hnot s i hs hrun.1, ih (hstep s i hs hrun.1) hrun.2]
    rfl

/-- A step that happens at most once: before it `I` holds, after it `J`, which excludes it. -/
theorem EachStep.count_le_one {J : σ → Prop} {p : σ → ι → Bool}
    (hkeep : ∀ s i, I s → C s i → p s i = false → I (step s i))
    (hturn : ∀ s i, I s → C s i → p s i = true → J (step s i))
    (hafter : ∀ s i, J s → C s i → J (step s i)) (hnot : ∀ s i, J s → C s i → p s i = false)
    {s : σ} {run : List ι} (hs : I s) (hrun : EachStep step C s run) :
    countSteps step p s run ≤ 1 := by
  induction run generalizing s with
  | nil => exact Nat.zero_le 1
  | cons i run ih =>
    cases hp : p s i with
    | false =>
      have hrest := ih (hkeep s i hs hrun.1 hp) hrun.2
      simpa [countSteps, hp] using hrest
    | true =>
      have hrest := hrun.2.count_eq_zero hafter hnot (hturn s i hs hrun.1 hp)
      simp [countSteps, hp, hrest]

end Invariant

/-! ### Runs with a memory -/

/-- A memory does not change what the machine does. -/
theorem after_withMemory (step : σ → ι → σ) (note : γ → σ → ι → γ) (s : σ × γ) (run : List ι) :
    (after (withMemory step note) s run).1 = after step s.1 run := by
  induction run generalizing s with
  | nil => rfl
  | cons i run ih => exact ih (withMemory step note s i)

/-- A statement about the steps of the machine holds with a memory if it holds without. -/
theorem eachStep_withMemory {Φ : σ → ι → Prop} (note : γ → σ → ι → γ) {s : σ × γ}
    {run : List ι} :
    EachStep (withMemory step note) (fun s i => Φ s.1 i) s run ↔ EachStep step Φ s.1 run := by
  induction run generalizing s with
  | nil => exact Iff.rfl
  | cons i run ih =>
    rw [eachStep_cons, eachStep_cons, ih]
    exact Iff.rfl

/-! ### Lists of what is pending -/

section Pending

variable {l : List γ} {i : ℕ} {x y z : γ}

/-- Another entry stays when an entry is removed. -/
theorem mem_eraseIdx_of_ne (hy : y ∈ l) (hx : l[i]? = some x) (hne : x ≠ y) : y ∈ l.eraseIdx i := by
  obtain ⟨j, hj⟩ := List.mem_iff_getElem?.mp hy
  refine List.mem_eraseIdx_iff_getElem?.mpr ⟨j, ?_, hj⟩
  rintro rfl
  exact hne (Option.some.inj (hx.symm.trans hj))

/-- Another entry stays when an entry is replaced. -/
theorem mem_set_of_ne (hy : y ∈ l) (hx : l[i]? = some x) (hne : x ≠ y) : y ∈ l.set i z := by
  obtain ⟨j, hj⟩ := List.mem_iff_getElem?.mp hy
  have hij : i ≠ j := by
    rintro rfl
    exact hne (Option.some.inj (hx.symm.trans hj))
  rw [← List.getElem?_set_ne hij] at hj
  exact List.mem_of_getElem? hj

/-- What holds of the pending ones and of one more. -/
theorem forall_mem_concat {P : γ → Prop} (h : ∀ x ∈ l, P x) (hz : P z) : ∀ x ∈ l ++ [z], P x :=
  List.forall_mem_append.mpr ⟨h, List.forall_mem_singleton.mpr hz⟩

end Pending

end Marketplace.Lib
