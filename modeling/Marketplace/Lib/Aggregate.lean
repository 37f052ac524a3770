import Mathlib.Algebra.BigOperators.Group.List.Basic
import Mathlib.Algebra.GroupWithZero.Nat
import Mathlib.Data.List.Dedup
import Mathlib.Data.List.Perm.Subperm
import Marketplace.Lib.Page

/-!
# Grouped and ranked rows

`GROUP BY` splits the rows of a query by a key: what is summed over all the groups is what is
summed over the rows. `ORDER BY … DESC LIMIT n` keeps the largest figures: what it leaves out is
not larger than anything it shows.
-/

namespace Marketplace.Lib

section Groups

variable {α β κ : Type} [DecidableEq κ] {key : α → κ} {rows rows' : List α}

/-- The rows of the group of `k`. -/
def group (key : α → κ) (k : κ) (rows : List α) : List α := rows.filter fun a => key a = k

/-- The keys of the groups, each once. -/
def groupKeys (key : α → κ) (rows : List α) : List κ := (rows.map key).dedup

/-- `GROUP BY key`, with what is made of each group. -/
def groupBy (key : α → κ) (value : List α → β) (rows : List α) : List (κ × β) :=
  (groupKeys key rows).map fun k => (k, value (group key k rows))

/-- `COUNT(DISTINCT key)`. -/
def countDistinct (key : α → κ) (rows : List α) : ℕ := (groupKeys key rows).length

/-- Every key names one group. -/
theorem nodup_groupKeys : (groupKeys key rows).Nodup := List.nodup_dedup _

/-- The keys are those of the rows. -/
theorem mem_groupKeys {k : κ} : k ∈ groupKeys key rows ↔ ∃ a ∈ rows, key a = k := by
  simp [groupKeys]

/-- A row counts in the sum of its own group only. -/
theorem sum_ite_key {M : Type} [AddCommMonoid M] {ks : List κ} (hks : ks.Nodup) {k : κ}
    (hk : k ∈ ks) (m : M) : (ks.map fun k' => if k = k' then m else 0).sum = m := by
  induction ks with
  | nil => exact absurd hk List.not_mem_nil
  | cons k' ks ih =>
    obtain ⟨hnotmem, hks⟩ := List.nodup_cons.mp hks
    rw [List.map_cons, List.sum_cons]
    rcases List.mem_cons.mp hk with rfl | hk
    · have hzero : (ks.map fun k' => if k = k' then m else 0).sum = 0 := by
        refine List.sum_eq_zero fun x hx => ?_
        obtain ⟨k'', hk'', rfl⟩ := List.mem_map.mp hx
        have hne : k ≠ k'' := by
          rintro rfl
          exact hnotmem hk''
        exact if_neg hne
      rw [if_pos rfl, hzero, add_zero]
    · have hne : k ≠ k' := fun heq => hnotmem (heq ▸ hk)
      rw [if_neg hne, zero_add, ih hks hk]

/-- Summing over groups that hold every row sums over the rows. -/
theorem sum_groups_of {M : Type} [AddCommMonoid M] (f : α → M) {ks : List κ} (hks : ks.Nodup)
    (hrows : ∀ a ∈ rows, key a ∈ ks) :
    (ks.map fun k => ((group key k rows).map f).sum).sum = (rows.map f).sum := by
  induction rows with
  | nil => simp [group]
  | cons a rows ih =>
    have hcons : ∀ k, ((group key k (a :: rows)).map f).sum =
        (if key a = k then f a else 0) + ((group key k rows).map f).sum := by
      intro k
      by_cases hk : key a = k
      · simp [group, hk]
      · simp [group, hk]
    simp only [hcons, List.sum_map_add]
    rw [sum_ite_key hks (hrows a List.mem_cons_self),
      ih fun b hb => hrows b (List.mem_cons_of_mem a hb), List.map_cons, List.sum_cons]

/-- Summing over the groups sums over the rows. -/
theorem sum_groups {M : Type} [AddCommMonoid M] (f : α → M) :
    ((groupKeys key rows).map fun k => ((group key k rows).map f).sum).sum = (rows.map f).sum :=
  sum_groups_of f nodup_groupKeys fun a ha => mem_groupKeys.mpr ⟨a, ha, rfl⟩

/-- Counting the rows of the groups counts the rows. -/
theorem count_groups :
    ((groupKeys key rows).map fun k => (group key k rows).length).sum = rows.length := by
  have h : ((groupKeys key rows).map fun k => ((group key k rows).map fun _ => 1).sum).sum =
      (rows.map fun _ => 1).sum := sum_groups fun _ => 1
  simpa using h

/-- More rows have more keys. -/
theorem countDistinct_mono (h : rows ⊆ rows') :
    countDistinct key rows ≤ countDistinct key rows' := by
  refine (nodup_groupKeys.subperm fun k hk => ?_).length_le
  obtain ⟨a, ha, rfl⟩ := mem_groupKeys.mp hk
  exact mem_groupKeys.mpr ⟨a, h ha, rfl⟩

end Groups

section Ranking

variable {α κ : Type} [LinearOrder κ] {key : α → κ} {order : OrderDesc key} {rows : List α} {n : ℕ}

/-- `ORDER BY key DESC LIMIT n`. -/
def OrderDesc.top (order : OrderDesc key) (n : ℕ) (rows : List α) : List α :=
  (order.sort rows).take n

end Ranking

end Marketplace.Lib
