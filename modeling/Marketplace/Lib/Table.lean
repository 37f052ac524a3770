import Mathlib.Data.List.Nodup

/-!
# Tables with a primary key

A table is a list of rows whose keys are pairwise different. The statements that
change a table keep its key constraint, so a table with two rows of one key
cannot be written down. Lookups by key are the interface of every later proof.
-/

namespace Marketplace.Lib

/-- A relational table: rows in insertion order, no two of them with the same key. -/
@[ext]
structure Table (ρ : Type) {κ : Type} (key : ρ → κ) where
  /-- The stored rows, oldest first. -/
  rows : List ρ
  /-- The key constraint. -/
  nodup : (rows.map key).Nodup

namespace Table

variable {ρ κ : Type} {key : ρ → κ}

/-- The table without rows. -/
def empty : Table ρ key := ⟨[], List.nodup_nil⟩

instance : EmptyCollection (Table ρ key) := ⟨empty⟩

instance : Inhabited (Table ρ key) := ⟨empty⟩

instance [DecidableEq ρ] : DecidableEq (Table ρ key) := fun s t =>
  decidable_of_iff (s.rows = t.rows) ⟨Table.ext, fun h => h ▸ rfl⟩

section Statements

variable [DecidableEq κ]

/-- `SELECT … WHERE key = k`: the row with this key, if there is one. -/
def get (t : Table ρ key) (k : κ) : Option ρ := t.rows.find? fun r => key r = k

/-- `INSERT`: a row whose key is already taken is left out. -/
def insert (t : Table ρ key) (r : ρ) : Table ρ key :=
  if h : key r ∈ t.rows.map key then t
  else ⟨t.rows ++ [r], by
    rw [List.map_append, List.nodup_append]
    refine ⟨t.nodup, by simp, ?_⟩
    rintro a ha b hb rfl
    simp only [List.map_cons, List.map_nil, List.mem_singleton] at hb
    exact h (hb ▸ ha)⟩

/-- `UPDATE … WHERE p`: a change of a row that would change its key is left out. -/
def update (t : Table ρ key) (p : ρ → Bool) (f : ρ → ρ) : Table ρ key :=
  ⟨t.rows.map fun r => if p r ∧ key (f r) = key r then f r else r, by
    have hkeys : (t.rows.map fun r => if p r ∧ key (f r) = key r then f r else r).map key =
        t.rows.map key := by
      rw [List.map_map]
      refine List.map_congr_left fun r _ => ?_
      by_cases hr : p r ∧ key (f r) = key r
      · rw [Function.comp_apply, if_pos hr, hr.2]
      · rw [Function.comp_apply, if_neg hr]
    rw [hkeys]
    exact t.nodup⟩

/-- `UPDATE … WHERE key = k`. -/
def modify (t : Table ρ key) (k : κ) (f : ρ → ρ) : Table ρ key :=
  t.update (fun r => key r = k) f

end Statements

/-- `DELETE … WHERE p`. -/
def delete (t : Table ρ key) (p : ρ → Bool) : Table ρ key :=
  ⟨t.rows.filter fun r => !p r, t.nodup.sublist (List.filter_sublist.map key)⟩

/-- The empty table has no rows. -/
@[simp] theorem rows_empty : (∅ : Table ρ key).rows = [] := rfl

/-- A deletion leaves the rows that it does not select. -/
@[simp] theorem rows_delete (t : Table ρ key) (p : ρ → Bool) :
    (t.delete p).rows = t.rows.filter fun r => !p r := rfl

variable [DecidableEq κ]

/-- The empty table has nothing under any key. -/
@[simp] theorem get_empty (k : κ) : (∅ : Table ρ key).get k = none := rfl

/-- A lookup finds exactly the row that is stored under the key. -/
theorem get_eq_some_iff {t : Table ρ key} {k : κ} {r : ρ} :
    t.get k = some r ↔ r ∈ t.rows ∧ key r = k := by
  constructor
  · intro h
    exact ⟨List.mem_of_find?_eq_some h, by simpa using List.find?_some h⟩
  · rintro ⟨hmem, rfl⟩
    cases hfind : t.get (key r) with
    | none => simpa using List.find?_eq_none.mp hfind r hmem
    | some r' =>
      have hmem' : r' ∈ t.rows := List.mem_of_find?_eq_some hfind
      have hkey : key r' = key r := by simpa using List.find?_some hfind
      rw [List.inj_on_of_nodup_map t.nodup hmem' hmem hkey]

/-- The row a lookup returns has the key that was asked for. -/
theorem key_of_get {t : Table ρ key} {k : κ} {r : ρ} (h : t.get k = some r) : key r = k :=
  (get_eq_some_iff.mp h).2

/-- Membership among the rows is a lookup under the row's own key. -/
theorem mem_rows_iff {t : Table ρ key} {r : ρ} : r ∈ t.rows ↔ t.get (key r) = some r := by
  simp [get_eq_some_iff]

/-- No row is found exactly when the key is not stored. -/
theorem get_eq_none_iff {t : Table ρ key} {k : κ} : t.get k = none ↔ k ∉ t.rows.map key := by
  simp only [get, List.find?_eq_none, decide_eq_true_eq, List.mem_map, not_exists, not_and]

/-- At most one row has a given key. -/
theorem filter_key_length (t : Table ρ key) (k : κ) :
    (t.rows.filter fun r => key r = k).length ≤ 1 := by
  have hkeys : ((t.rows.filter fun r => key r = k).map key).Nodup :=
    t.nodup.sublist (List.filter_sublist.map key)
  have hsame : ∀ k' ∈ (t.rows.filter fun r => key r = k).map key, k' = k := by
    intro k' hk'
    obtain ⟨r, hr, rfl⟩ := List.mem_map.mp hk'
    exact of_decide_eq_true (List.mem_filter.mp hr).2
  rw [List.eq_replicate_of_mem hsame, List.nodup_replicate, List.length_map] at hkeys
  exact hkeys

/-- Inserting a row with a new key appends it. -/
theorem rows_insert {t : Table ρ key} {r : ρ} (h : t.get (key r) = none) :
    (t.insert r).rows = t.rows ++ [r] := by
  rw [insert, dif_neg (get_eq_none_iff.mp h)]

/-- An insertion whose key is taken changes nothing. -/
theorem insert_of_mem {t : Table ρ key} {r : ρ} (h : t.get (key r) ≠ none) : t.insert r = t := by
  rw [insert, dif_pos]
  by_contra hmem
  exact h (get_eq_none_iff.mpr hmem)

/-- A lookup after the insertion of a row with a new key. -/
theorem get_insert {t : Table ρ key} {r : ρ} (h : t.get (key r) = none) (k : κ) :
    (t.insert r).get k = if k = key r then some r else t.get k := by
  split
  · next hk =>
    subst hk
    rw [← mem_rows_iff, rows_insert h]
    simp
  · next hk =>
    have hne : ¬key r = k := fun heq => hk heq.symm
    rw [get, rows_insert h, List.find?_append]
    simp [get, hne]

/-- A lookup of another key does not see an insertion, whatever the insertion does. -/
theorem get_insert_of_ne (t : Table ρ key) {r : ρ} {k : κ} (hk : k ≠ key r) :
    (t.insert r).get k = t.get k := by
  by_cases h : t.get (key r) = none
  · rw [get_insert h, if_neg hk]
  · rw [insert_of_mem h]

/-- A lookup after an insertion that gives way to the row that is there. -/
theorem get_insert_or (t : Table ρ key) (r : ρ) (k : κ) :
    (t.insert r).get k = if k = key r then (t.get k).or (some r) else t.get k := by
  by_cases h : t.get (key r) = none
  · rw [get_insert h]
    by_cases hk : k = key r
    · rw [if_pos hk, if_pos hk, hk, h, Option.none_or]
    · rw [if_neg hk, if_neg hk]
  · rw [insert_of_mem h]
    by_cases hk : k = key r
    · obtain ⟨r', hr'⟩ := Option.ne_none_iff_exists'.mp h
      rw [if_pos hk, hk, hr', Option.some_or]
    · rw [if_neg hk]

/-- An insertion leaves the rows alone that there are. -/
theorem get_insert_of_some {t : Table ρ key} {r x : ρ} {k : κ} (h : t.get k = some x) :
    (t.insert r).get k = some x := by
  rw [get_insert_or, h]
  split
  · rfl
  · rfl

/-- A row that is found after an insertion is the new one, or was found before. -/
theorem get_of_insert {t : Table ρ key} {r x : ρ} {k : κ} (h : (t.insert r).get k = some x) :
    x = r ∨ t.get k = some x := by
  rw [get_insert_or] at h
  split at h
  · cases hold : t.get k with
    | none =>
      rw [hold, Option.none_or] at h
      exact .inl (Option.some.inj h).symm
    | some y =>
      rw [hold, Option.some_or] at h
      exact .inr h
  · exact .inr h

/-- A lookup after an `UPDATE` finds the row updated, unless that would change its key. -/
theorem get_update_guarded (t : Table ρ key) (p : ρ → Bool) (f : ρ → ρ) (k : κ) :
    (t.update p f).get k =
      (t.get k).map fun r => if p r ∧ key (f r) = key r then f r else r := by
  have hkey : ∀ r, key (if p r ∧ key (f r) = key r then f r else r) = key r := by
    intro r
    by_cases hr : p r ∧ key (f r) = key r
    · rw [if_pos hr, hr.2]
    · rw [if_neg hr]
  unfold get update
  dsimp only
  rw [List.find?_map]
  have hcomp : ((fun r => decide (key r = k)) ∘
      fun r => if p r ∧ key (f r) = key r then f r else r) = fun r => decide (key r = k) := by
    funext r
    simp only [Function.comp_apply, hkey]
  rw [hcomp]

/-- A lookup after an `UPDATE` that keeps keys finds the updated row. -/
theorem get_update (t : Table ρ key) (p : ρ → Bool) {f : ρ → ρ} (hf : ∀ r, key (f r) = key r)
    (k : κ) : (t.update p f).get k = (t.get k).map fun r => if p r then f r else r := by
  rw [get_update_guarded]
  simp only [hf, and_true]

/-- An `UPDATE` neither adds nor removes a row. -/
theorem get_update_eq_none {t : Table ρ key} {p : ρ → Bool} {f : ρ → ρ} {k : κ} :
    (t.update p f).get k = none ↔ t.get k = none := by
  rw [get_update_guarded, Option.map_eq_none_iff]

/-- A one-row `UPDATE` leaves the other rows alone. -/
theorem get_modify_of_ne (t : Table ρ key) {k k' : κ} (h : k' ≠ k) (f : ρ → ρ) :
    (t.modify k f).get k' = t.get k' := by
  rw [modify, get_update_guarded]
  cases hget : t.get k' with
  | none => rfl
  | some r =>
    have hne : ¬key r = k := fun heq => h ((key_of_get hget).symm.trans heq)
    simp [hne]

/-- A lookup after a one-row `UPDATE`. -/
theorem get_modify (t : Table ρ key) (k : κ) {f : ρ → ρ} (hf : ∀ r, key (f r) = key r) (k' : κ) :
    (t.modify k f).get k' = if k' = k then (t.get k').map f else t.get k' := by
  rw [modify, get_update _ _ hf]
  cases hget : t.get k' with
  | none => simp
  | some r =>
    have hr := key_of_get hget
    by_cases hk : k' = k
    · simp [hk, hr]
    · simp [hk, hr]

/-- The updated row itself. -/
theorem get_modify_self {t : Table ρ key} {k : κ} {f : ρ → ρ} (hf : ∀ r, key (f r) = key r) {r : ρ}
    (h : t.get k = some r) : (t.modify k f).get k = some (f r) := by
  rw [get_modify _ _ hf, if_pos rfl, h, Option.map_some]

/-- The rows after a one-row `UPDATE`. -/
theorem rows_modify (t : Table ρ key) (k : κ) {f : ρ → ρ} (hf : ∀ r, key (f r) = key r) :
    (t.modify k f).rows = t.rows.map fun r => if key r = k then f r else r := by
  simp [modify, update, hf]

/-- A one-row `UPDATE` of a row that is not there changes nothing. -/
theorem modify_of_get_eq_none {t : Table ρ key} {k : κ} {f : ρ → ρ} (h : t.get k = none) :
    t.modify k f = t := by
  rw [get_eq_none_iff] at h
  apply Table.ext
  simp only [modify, update]
  conv_rhs => rw [← List.map_id t.rows]
  refine List.map_congr_left fun r hr => ?_
  have hne : ¬key r = k := fun heq => h (List.mem_map.mpr ⟨r, hr, heq⟩)
  simp [hne]

/-- A lookup after a `DELETE`. -/
theorem get_delete (t : Table ρ key) (p : ρ → Bool) (k : κ) :
    (t.delete p).get k = (t.get k).filter fun r => !p r := by
  cases hget : t.get k with
  | none =>
    rw [get_eq_none_iff] at hget
    rw [Option.filter_none, get_eq_none_iff]
    intro hmem
    obtain ⟨r, hr, hkey⟩ := List.mem_map.mp hmem
    exact hget (List.mem_map.mpr ⟨r, (List.mem_filter.mp hr).1, hkey⟩)
  | some r =>
    obtain ⟨hmem, hkey⟩ := get_eq_some_iff.mp hget
    by_cases hp : p r = true
    · rw [Option.filter_some_neg (by simp [hp]), get_eq_none_iff]
      intro hmem'
      obtain ⟨r', hr', hkey'⟩ := List.mem_map.mp hmem'
      obtain ⟨hr', hkeep⟩ := List.mem_filter.mp hr'
      have heq := List.inj_on_of_nodup_map t.nodup hr' hmem (hkey'.trans hkey.symm)
      simp [heq, hp] at hkeep
    · rw [Option.filter_some_pos (by simpa using hp), get_eq_some_iff]
      exact ⟨List.mem_filter.mpr ⟨hmem, by simpa using hp⟩, hkey⟩

end Table

end Marketplace.Lib
