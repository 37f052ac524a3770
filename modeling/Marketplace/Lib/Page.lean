import Mathlib.Data.List.Sort

/-!
# Pages of a sorted query

A query sorts its rows by a key, newest first, and shows them a page at a time. The cursor of
the next page is the key of the last row shown, and the next page asks for strictly older rows.
Following the cursors to the end is compared with the rows that match.
-/

namespace Marketplace.Lib

variable {α κ γ : Type} [LinearOrder κ] {key : α → κ}

/-- No row stands before a newer one. -/
def NewestFirst (key : α → κ) (rows : List α) : Prop := rows.Pairwise fun a b => key b ≤ key a

/-- What `ORDER BY key DESC` answers: the rows asked for, newest first, and rows of one key in any
order. -/
structure OrderDesc (key : α → κ) where
  sort : List α → List α
  perm : ∀ rows, (sort rows).Perm rows
  newestFirst : ∀ rows, NewestFirst key (sort rows)

/-- The answer that keeps the order of the rows with one key. -/
def OrderDesc.stable (key : α → κ) : OrderDesc key where
  sort rows := rows.mergeSort fun a b => key b ≤ key a
  perm rows := List.mergeSort_perm rows _
  newestFirst rows := by
    have htrans : ∀ a b c : α, decide (key b ≤ key a) = true → decide (key c ≤ key b) = true →
        decide (key c ≤ key a) = true := by
      intro a b c hab hbc
      simp only [decide_eq_true_eq] at hab hbc ⊢
      exact hbc.trans hab
    have htotal : ∀ a b : α, (decide (key b ≤ key a) || decide (key a ≤ key b)) = true := by
      intro a b
      simpa using le_total (key b) (key a)
    have h := List.pairwise_mergeSort htrans htotal rows
    exact h.imp fun hab => of_decide_eq_true hab

/-- The rows strictly older than a cursor; without a cursor, all of them. -/
def olderThan (key : α → κ) (before : Option κ) (rows : List α) : List α :=
  rows.filter fun a => before.all fun t => key a < t

/-- Ask for the page at a cursor, and for the pages after it, at most `fuel` of them. -/
def follow (page : Option γ → Option (List α × Option γ)) : ℕ → Option γ → Option (List α)
  | 0, _ => none
  | fuel + 1, cursor =>
    match page cursor with
    | none => none
    | some (rows, none) => some rows
    | some (rows, some next) => (follow page fuel (some next)).map fun rest => rows ++ rest

/-- Every row, exactly once, newest first. -/
structure Complete (key : α → κ) (rows walked : List α) : Prop where
  perm : walked.Perm rows
  newestFirst : NewestFirst key walked

/-- The keys of the rows, newest first. -/
def keysOf (key : α → κ) (rows : List α) : List κ := (rows.map key).mergeSort fun s t => t ≤ s

/-- No boundary between two full pages separates two rows with one key. -/
def NoTieAtBoundary (limit : ℕ) (keys : List κ) : Prop :=
  ∀ k, 1 ≤ k → k * limit < keys.length → keys[k * limit - 1]? ≠ keys[k * limit]?

/-- A page shows the first `limit` rows older than its cursor. It has no next cursor only when
nothing is left, and its next cursor is the key of the last row shown. -/
def Paginates (order : OrderDesc key) (encode : κ → γ) (limit : ℕ) (rows : List α)
    (page : Option γ → Option (List α × Option γ)) : Prop :=
  ∀ before : Option κ, ∃ next : Option κ,
    page (before.map encode) =
      some ((order.sort (olderThan key before rows)).take limit, next.map encode) ∧
    (next = none → (olderThan key before rows).length ≤ limit) ∧
    ∀ t, next = some t →
      ∃ a, ((order.sort (olderThan key before rows)).take limit).getLast? = some a ∧ key a = t

/-! ### Keys in order -/

/-- The keys are read off any newest-first arrangement of the rows. -/
theorem keysOf_of_perm {sorted rows : List α} (hperm : sorted.Perm rows)
    (h : NewestFirst key sorted) : keysOf key rows = sorted.map key := by
  have hkeys : (keysOf key rows).Pairwise fun s t => t ≤ s :=
    (OrderDesc.stable (id : κ → κ)).newestFirst (rows.map key)
  have hsorted : (sorted.map key).Pairwise fun s t => t ≤ s := List.pairwise_map.mpr h
  have hsame : (keysOf key rows).Perm (sorted.map key) :=
    (List.mergeSort_perm _ _).trans (hperm.map key).symm
  exact hsame.eq_of_pairwise (fun s t _ _ hst hts => le_antisymm hts hst) hkeys hsorted

/-- Rows that stand newest first stay as they are. -/
theorem OrderDesc.stable_of_newestFirst {rows : List α} (h : NewestFirst key rows) :
    (OrderDesc.stable key).sort rows = rows :=
  List.mergeSort_of_pairwise (h.imp fun hab => decide_eq_true hab)

/-- There is a key for each row. -/
theorem length_keysOf (rows : List α) : (keysOf key rows).length = rows.length := by
  simp [keysOf]

section Boundaries

omit [LinearOrder κ]

variable {limit : ℕ} {keys : List κ}

/-- A list that fits on the page has no tie at its end. -/
theorem noTieAtBoundary_of_length_le (h : keys.length ≤ limit) : NoTieAtBoundary limit keys := by
  intro k hk hlt
  have hle : limit ≤ k * limit := Nat.le_mul_of_pos_left limit hk
  omega

/-- A boundary is the first one, or a boundary of what the first page leaves. -/
theorem noTieAtBoundary_iff (hlimit : 0 < limit) :
    NoTieAtBoundary limit keys ↔
      (limit < keys.length → keys[limit - 1]? ≠ keys[limit]?) ∧
        NoTieAtBoundary limit (keys.drop limit) := by
  have hshift : ∀ k, 1 ≤ k → (keys.drop limit)[k * limit - 1]? = keys[(k + 1) * limit - 1]? ∧
      (keys.drop limit)[k * limit]? = keys[(k + 1) * limit]? := by
    intro k hk
    have hle : limit ≤ k * limit := Nat.le_mul_of_pos_left limit hk
    rw [List.getElem?_drop, List.getElem?_drop, Nat.add_mul, Nat.one_mul]
    constructor
    · congr 1
      omega
    · rw [Nat.add_comm]
  constructor
  · intro h
    refine ⟨fun hlt => ?_, fun k hk hlt => ?_⟩
    · simpa using h 1 le_rfl (by omega)
    · rw [List.length_drop] at hlt
      rw [(hshift k hk).1, (hshift k hk).2]
      exact h (k + 1) (by omega) (by rw [Nat.add_mul]; omega)
  · rintro ⟨hfirst, hrest⟩ k hk hlt
    rcases Nat.eq_or_lt_of_le hk with rfl | hk
    · simpa using hfirst (by omega)
    · obtain ⟨k, rfl⟩ : ∃ j, k = j + 1 := ⟨k - 1, by omega⟩
      have hnext := hrest k (by omega) (by
        rw [List.length_drop]
        rw [Nat.add_mul] at hlt
        omega)
      rwa [(hshift k (by omega)).1, (hshift k (by omega)).2] at hnext

end Boundaries

/-! ### One page -/

section Page

variable {order : OrderDesc key} {rows : List α} {limit : ℕ}

/-- Without a cursor every row is older. -/
theorem olderThan_none : olderThan key none rows = rows := by simp [olderThan]

/-- Older than a row that is older than the cursor. -/
theorem olderThan_some {before : Option κ} {a : α} (ha : a ∈ olderThan key before rows) :
    olderThan key (some (key a)) rows =
      olderThan key (some (key a)) (olderThan key before rows) := by
  cases before with
  | none => rw [olderThan_none]
  | some t =>
    have hat : key a < t := by simpa [olderThan] using (List.mem_filter.mp ha).2
    unfold olderThan
    rw [List.filter_filter]
    refine List.filter_congr fun b _ => ?_
    by_cases hb : key b < key a
    · simp [hb, hb.trans hat]
    · simp [hb]

/-- The last row of a page is the oldest of it, and no older than what follows. -/
theorem key_last {shown rest : List α} {a : α} (h : NewestFirst key (shown ++ rest))
    (ha : shown.getLast? = some a) :
    (∀ b ∈ shown, key a ≤ key b) ∧ ∀ b ∈ rest, key b ≤ key a := by
  obtain ⟨init, rfl⟩ := List.getLast?_eq_some_iff.mp ha
  obtain ⟨hshown, -, hcross⟩ := List.pairwise_append.mp h
  constructor
  · intro b hb
    rcases List.mem_append.mp hb with hb | hb
    · exact (List.pairwise_append.mp hshown).2.2 b hb a (List.mem_singleton.mpr rfl)
    · rw [List.mem_singleton.mp hb]
  · exact fun b hb => hcross a (List.mem_append_right init (List.mem_singleton.mpr rfl)) b hb

/-- A page of a sorted query: the rows shown, the rows left, and the last row shown. -/
structure Split (order : OrderDesc key) (rows : List α) (limit : ℕ) (shown rest : List α) (a : α) :
    Prop where
  eq : order.sort rows = shown ++ rest
  length : shown.length ≤ limit
  full : rest ≠ [] → shown.length = limit
  last : shown.getLast? = some a

/-- Taking a page splits the sorted rows at its last one. -/
theorem split_take {a : α}
    (ha : ((order.sort rows).take limit).getLast? = some a) :
    Split order rows limit ((order.sort rows).take limit) ((order.sort rows).drop limit) a where
  eq := (List.take_append_drop limit _).symm
  length := List.length_take_le limit _
  full hne := by
    have hlt : limit < (order.sort rows).length := by
      by_contra hle
      exact hne (List.drop_eq_nil_of_le (by omega))
    rw [List.length_take]
    omega
  last := ha

namespace Split

variable {shown rest : List α} {a : α}

/-- The two parts together are in descending order. -/
theorem newestFirst (h : Split order rows limit shown rest a) :
    NewestFirst key (shown ++ rest) := h.eq ▸ order.newestFirst rows

/-- The two parts together are the rows. -/
theorem perm (h : Split order rows limit shown rest a) : (shown ++ rest).Perm rows :=
  h.eq ▸ order.perm rows

/-- The keys of the rows are those of the two parts. -/
theorem keysOf_eq (h : Split order rows limit shown rest a) :
    keysOf key rows = shown.map key ++ rest.map key := by
  rw [keysOf_of_perm h.perm h.newestFirst, List.map_append]

/-- The next page is asked for among the rows that this one left. -/
theorem olderThan_perm (h : Split order rows limit shown rest a) :
    (olderThan key (some (key a)) rows).Perm (rest.filter fun b => key b < key a) := by
  have hshown : (shown.filter fun b => decide (key b < key a)) = [] :=
    List.filter_eq_nil_iff.mpr fun b hb => by
      simpa using (key_last h.newestFirst h.last).1 b hb
  have hfilter := h.perm.symm.filter fun b => decide (key b < key a)
  rw [List.filter_append, hshown, List.nil_append] at hfilter
  simpa [olderThan] using hfilter

/-- The two keys at the boundary behind a full page. -/
theorem boundary (h : Split order rows limit shown rest a) {d : α} {tail : List α}
    (hrest : rest = d :: tail) :
    (keysOf key rows)[limit - 1]? = some (key a) ∧ (keysOf key rows)[limit]? = some (key d) := by
  have hlength : shown.length = limit := h.full (by simp [hrest])
  obtain ⟨init, hinit⟩ := List.getLast?_eq_some_iff.mp h.last
  have hlimit : limit = init.length + 1 := by rw [← hlength, hinit, List.length_append]; rfl
  rw [h.keysOf_eq, hrest, hinit, hlimit]
  constructor
  · simp
  · simp

/-- Behind a page whose boundary separates two keys, the next page begins where it ended. -/
theorem olderThan_perm_rest (h : Split order rows limit shown rest a)
    (hboundary : limit < (keysOf key rows).length →
      (keysOf key rows)[limit - 1]? ≠ (keysOf key rows)[limit]?) :
    (olderThan key (some (key a)) rows).Perm rest := by
  refine h.olderThan_perm.trans (List.Perm.of_eq (List.filter_eq_self.mpr fun b hb => ?_))
  cases hrest : rest with
  | nil => simp [hrest] at hb
  | cons d tail =>
    have hlt : limit < (keysOf key rows).length := by
      rw [h.keysOf_eq, List.length_append, List.length_map, h.full (by simp [hrest]), hrest]
      simp
    have hne := hboundary hlt
    rw [(h.boundary hrest).1, (h.boundary hrest).2] at hne
    have hda : key d < key a := by
      have hle := (key_last h.newestFirst h.last).2 d (by simp [hrest])
      exact lt_of_le_of_ne hle fun heq => hne (congrArg some heq.symm)
    have hbd : key b ≤ key d := by
      have hsorted : NewestFirst key (d :: tail) :=
        hrest ▸ (List.pairwise_append.mp h.newestFirst).2.1
      rcases List.mem_cons.mp (hrest ▸ hb) with rfl | hmem
      · exact le_rfl
      · exact (List.pairwise_cons.mp hsorted).1 b hmem
    simpa using hbd.trans_lt hda

/-- Behind a page whose boundary separates two rows with one key, a row is lost. -/
theorem length_olderThan_lt (h : Split order rows limit shown rest a)
    (hlt : limit < (keysOf key rows).length)
    (htie : (keysOf key rows)[limit - 1]? = (keysOf key rows)[limit]?) :
    shown.length + (olderThan key (some (key a)) rows).length < rows.length := by
  have hlength : rows.length = shown.length + rest.length := by
    rw [← h.perm.length_eq, List.length_append]
  rw [length_keysOf, hlength] at hlt
  cases hrest : rest with
  | nil =>
    have := h.length
    simp [hrest] at hlt
    omega
  | cons d tail =>
    rw [(h.boundary hrest).1, (h.boundary hrest).2, Option.some_inj] at htie
    have hnext : (olderThan key (some (key a)) rows).length ≤ tail.length := by
      rw [h.olderThan_perm.length_eq, hrest, List.filter_cons_of_neg (by simp [htie])]
      exact List.length_filter_le _ tail
    rw [hlength, hrest, List.length_cons]
    omega

/-- The next page is asked for among fewer rows. -/
theorem length_olderThan_le (h : Split order rows limit shown rest a) :
    shown.length + (olderThan key (some (key a)) rows).length ≤ rows.length := by
  have hlength : rows.length = shown.length + rest.length := by
    rw [← h.perm.length_eq, List.length_append]
  rw [hlength, h.olderThan_perm.length_eq]
  have hle : (rest.filter fun b => decide (key b < key a)).length ≤ rest.length :=
    List.length_filter_le _ rest
  omega

/-- A page and the complete rest are complete if the boundary between them separates two keys. -/
theorem complete_append (h : Split order rows limit shown rest a) {walked : List α}
    (hboundary : limit < (keysOf key rows).length →
      (keysOf key rows)[limit - 1]? ≠ (keysOf key rows)[limit]?) :
    Complete key rows (shown ++ walked) ↔
      Complete key (olderThan key (some (key a)) rows) walked := by
  have hrest := h.olderThan_perm_rest hboundary
  constructor
  · intro hall
    have hperm : (shown ++ walked).Perm (shown ++ rest) := hall.perm.trans h.perm.symm
    have hwalked : walked.Perm rest := (List.perm_append_left_iff shown).mp hperm
    exact ⟨hwalked.trans hrest.symm, (List.pairwise_append.mp hall.newestFirst).2.1⟩
  · intro hwalked
    have hperm : walked.Perm rest := hwalked.perm.trans hrest
    refine ⟨(hperm.append_left shown).trans h.perm, List.pairwise_append.mpr ⟨?_, ?_, ?_⟩⟩
    · exact (List.pairwise_append.mp h.newestFirst).1
    · exact hwalked.newestFirst
    · intro b hb c hc
      exact (List.pairwise_append.mp h.newestFirst).2.2 b hb c (hperm.mem_iff.mp hc)

/-- The keys that are left behind a page whose boundary separates two keys. -/
theorem keysOf_next (h : Split order rows limit shown rest a)
    (hboundary : limit < (keysOf key rows).length →
      (keysOf key rows)[limit - 1]? ≠ (keysOf key rows)[limit]?) :
    (keysOf key rows).drop limit = keysOf key (olderThan key (some (key a)) rows) := by
  have hsorted : NewestFirst key rest := (List.pairwise_append.mp h.newestFirst).2.1
  rw [keysOf_of_perm (h.olderThan_perm_rest hboundary).symm hsorted, h.keysOf_eq]
  cases hrest : rest with
  | nil =>
    rw [List.map_nil, List.append_nil]
    exact List.drop_eq_nil_of_le (by rw [List.length_map]; exact h.length)
  | cons d tail =>
    have hlength : (shown.map key).length = limit := by
      rw [List.length_map]
      exact h.full (by simp [hrest])
    rw [← hlength, List.drop_left]

end Split

end Page

/-- A page that names the key of its last row as the next cursor whenever there may be more. -/
theorem paginates_of_more (more : List α → Prop) [DecidablePred more] {order : OrderDesc key}
    {encode : κ → γ} {limit : ℕ} {rows : List α}
    {page : Option γ → Option (List α × Option γ)}
    (hpage : ∀ before : Option κ,
      page (before.map encode) =
        some ((order.sort (olderThan key before rows)).take limit,
          if more (order.sort (olderThan key before rows)) then
            ((order.sort (olderThan key before rows)).take limit).getLast?.map
              fun a => encode (key a)
          else none))
    (hend : ∀ sorted, ¬more sorted → sorted.length ≤ limit)
    (hmore : ∀ sorted, more sorted → sorted.take limit ≠ []) :
    Paginates order encode limit rows page := by
  intro before
  rw [hpage before]
  by_cases h : more (order.sort (olderThan key before rows))
  · have hne := hmore _ h
    have hlast := List.getLast?_eq_getLast_of_ne_nil hne
    refine ⟨some (key (List.getLast _ hne)), ?_, by simp, fun t ht => ?_⟩
    · rw [if_pos h, hlast]
      rfl
    · exact ⟨_, hlast, Option.some_inj.mp ht⟩
  · refine ⟨none, by rw [if_neg h]; rfl, fun _ => ?_, by simp⟩
    rw [← (order.perm (olderThan key before rows)).length_eq]
    exact hend _ h

/-! ### The whole walk -/

section Walk

variable {order : OrderDesc key} {encode : κ → γ} {limit : ℕ} {rows : List α}
  {page : Option γ → Option (List α × Option γ)}

/-- From any cursor the walk ends, shows no more rows than are left, and shows all of them
exactly when no boundary separates two rows with one key. -/
theorem Paginates.follow_from (h : Paginates order encode limit rows page) (hlimit : 0 < limit)
    (fuel : ℕ) (before : Option κ) (hfuel : (olderThan key before rows).length < fuel) :
    ∃ walked, follow page fuel (before.map encode) = some walked ∧
      walked.length ≤ (olderThan key before rows).length ∧
      (Complete key (olderThan key before rows) walked ↔
        NoTieAtBoundary limit (keysOf key (olderThan key before rows))) := by
  induction fuel generalizing before with
  | zero => exact absurd hfuel (Nat.not_lt_zero _)
  | succ fuel ih =>
    obtain ⟨next, hpage, hend, hnext⟩ := h before
    cases next with
    | none =>
      have hlength := hend rfl
      have htake : (order.sort (olderThan key before rows)).take limit =
          order.sort (olderThan key before rows) :=
        List.take_of_length_le (by rwa [(order.perm _).length_eq])
      refine ⟨order.sort (olderThan key before rows), ?_, (order.perm _).length_eq.le, ?_⟩
      · simp only [follow, hpage, Option.map_none, htake]
      · have hnone : NoTieAtBoundary limit (keysOf key (olderThan key before rows)) :=
          noTieAtBoundary_of_length_le (by rwa [length_keysOf])
        exact iff_of_true ⟨order.perm _, order.newestFirst _⟩ hnone
    | some t =>
      obtain ⟨a, hlast, rfl⟩ := hnext t rfl
      have hsplit := split_take hlast
      have hmem : a ∈ olderThan key before rows := by
        have hshown : a ∈ (order.sort (olderThan key before rows)).take limit :=
          List.mem_of_getLast? hlast
        exact (order.perm _).mem_iff.mp (List.mem_of_mem_take hshown)
      have hpos : 0 < ((order.sort (olderThan key before rows)).take limit).length :=
        List.length_pos_of_mem (List.mem_of_getLast? hlast)
      have hless := hsplit.length_olderThan_le
      have hsame := olderThan_some hmem
      obtain ⟨walked, hfollow, hlength, hcomplete⟩ := ih (some (key a)) (by rw [hsame]; omega)
      rw [hsame] at hlength hcomplete
      refine ⟨(order.sort (olderThan key before rows)).take limit ++ walked, ?_, ?_, ?_⟩
      · rw [Option.map_some] at hfollow
        simp only [follow, hpage, Option.map_some, hfollow]
      · rw [List.length_append]
        omega
      · rw [noTieAtBoundary_iff hlimit]
        by_cases hboundary : limit < (keysOf key (olderThan key before rows)).length →
            (keysOf key (olderThan key before rows))[limit - 1]? ≠
              (keysOf key (olderThan key before rows))[limit]?
        · rw [hsplit.complete_append hboundary, hcomplete, hsplit.keysOf_next hboundary]
          exact (and_iff_right hboundary).symm
        · refine iff_of_false (fun hall => ?_) fun hno => hboundary hno.1
          push Not at hboundary
          have hlost := hsplit.length_olderThan_lt hboundary.1 hboundary.2
          have hsize := hall.perm.length_eq
          rw [List.length_append] at hsize
          omega

/-- Following the cursors from the first page shows every row, exactly once and newest first, if
and only if no boundary between two full pages separates two rows with one key. -/
theorem Paginates.follow_complete (h : Paginates order encode limit rows page)
    (hlimit : 0 < limit) :
    ∃ walked, follow page (rows.length + 1) none = some walked ∧
      (Complete key rows walked ↔ NoTieAtBoundary limit (keysOf key rows)) := by
  obtain ⟨walked, hfollow, -, hcomplete⟩ :=
    h.follow_from hlimit (rows.length + 1) none (by rw [olderThan_none]; omega)
  rw [olderThan_none] at hcomplete
  exact ⟨walked, hfollow, hcomplete⟩

end Walk

end Marketplace.Lib
