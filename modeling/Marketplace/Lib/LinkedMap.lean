import Mathlib.Data.List.Nodup

/-!
# Maps in insertion order

A map that is iterated in the order in which its keys came in. Setting the value of a known key
keeps the place of the key; a new key goes to the end.
-/

namespace Marketplace.Lib

/-- A map in insertion order: its entries, with a key once at most. -/
structure LinkedMap (κ α : Type) where
  entries : List (κ × α)
  nodup : (entries.map Prod.fst).Nodup

namespace LinkedMap

variable {κ α : Type}

/-- A map is its entries. -/
theorem ext_entries {m m' : LinkedMap κ α} (h : m.entries = m'.entries) : m = m' := by
  cases m
  cases m'
  simpa using h

variable [DecidableEq κ]

instance [DecidableEq α] : DecidableEq (LinkedMap κ α) := fun m m' =>
  decidable_of_iff (m.entries = m'.entries) (by cases m; cases m'; simp)

/-- The map without entries. -/
def empty : LinkedMap κ α := ⟨[], List.nodup_nil⟩

/-- The value of a key. -/
def get? (m : LinkedMap κ α) (key : κ) : Option α := m.entries.lookup key

/-- The entries with a new value for a key. -/
def setEntries (entries : List (κ × α)) (key : κ) (value : α) : List (κ × α) :=
  if key ∈ entries.map Prod.fst then
    entries.map fun e => if e.1 = key then (key, value) else e
  else entries ++ [(key, value)]

/-- Setting a key keeps the keys distinct. -/
theorem nodup_setEntries {entries : List (κ × α)} (h : (entries.map Prod.fst).Nodup) (key : κ)
    (value : α) : ((setEntries entries key value).map Prod.fst).Nodup := by
  unfold setEntries
  split
  · have hkeys : (entries.map fun e => if e.1 = key then (key, value) else e).map Prod.fst =
        entries.map Prod.fst := by
      rw [List.map_map]
      refine List.map_congr_left fun e _ => ?_
      simp only [Function.comp_apply]
      split
      · next hkey => exact hkey.symm
      · rfl
    rwa [hkeys]
  · next hnew =>
    rw [List.map_append, List.map_singleton, ← List.concat_eq_append]
    exact (List.nodup_concat _ _).mpr ⟨hnew, h⟩

/-- The map with a new value for a key. -/
def set (m : LinkedMap κ α) (key : κ) (value : α) : LinkedMap κ α :=
  ⟨setEntries m.entries key value, nodup_setEntries m.nodup key value⟩

/-- The map without a key. -/
def erase (m : LinkedMap κ α) (key : κ) : LinkedMap κ α where
  entries := m.entries.filter fun e => e.1 ≠ key
  nodup := m.nodup.sublist (List.filter_sublist.map _)

/-- The entries are put in one after another. -/
def ofEntries (entries : List (κ × α)) : LinkedMap κ α :=
  entries.foldl (fun m e => m.set e.1 e.2) empty

section Lemmas

variable {m : LinkedMap κ α} {key : κ} {value : α} {e : κ × α}

/-- What is read is an entry. -/
theorem mem_of_get? (h : m.get? key = some value) : (key, value) ∈ m.entries := by
  obtain ⟨before, rest, hentries, -⟩ := List.lookup_eq_some_iff.mp h
  rw [hentries]
  exact List.mem_append_right _ List.mem_cons_self

/-- The entries after a write are the new one and old ones. -/
theorem eq_or_mem_of_mem_set (h : e ∈ (m.set key value).entries) :
    e = (key, value) ∨ e ∈ m.entries := by
  unfold set setEntries at h
  dsimp only at h
  split at h
  · obtain ⟨e', he', heq⟩ := List.mem_map.mp h
    split at heq
    · exact .inl heq.symm
    · exact .inr (heq ▸ he')
  · rcases List.mem_append.mp h with hold | hnew
    · exact .inr hold
    · exact .inl (List.mem_singleton.mp hnew)

/-- The entries left by an erasure are old ones. -/
theorem mem_of_mem_erase (h : e ∈ (m.erase key).entries) : e ∈ m.entries :=
  List.mem_of_mem_filter h

/-- Setting new keys one after another appends their entries. -/
theorem foldl_set_entries {entries : List (κ × α)}
    (h : ((m.entries ++ entries).map Prod.fst).Nodup) :
    (entries.foldl (fun m e => m.set e.1 e.2) m).entries = m.entries ++ entries := by
  induction entries generalizing m with
  | nil => simp
  | cons e entries ih =>
    have hnew : e.1 ∉ m.entries.map Prod.fst := by
      rw [List.map_append, List.nodup_append'] at h
      exact fun hmem => h.2.2 hmem List.mem_cons_self
    have hset : (m.set e.1 e.2).entries = m.entries ++ [e] := if_neg hnew
    have hrest : (m.set e.1 e.2).entries ++ entries = m.entries ++ e :: entries := by
      rw [hset, List.append_assoc, List.singleton_append]
    rw [List.foldl_cons, ih (by rwa [hrest]), hrest]

/-- Putting the entries of a map in one after another gives the map. -/
theorem ofEntries_entries (m : LinkedMap κ α) : ofEntries m.entries = m :=
  ext_entries (foldl_set_entries (m := empty) m.nodup)

end Lemmas

end LinkedMap

end Marketplace.Lib
