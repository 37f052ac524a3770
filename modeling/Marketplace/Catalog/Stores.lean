import Mathlib.Data.List.DropRight
import Mathlib.Data.Fintype.Card
import Marketplace.Catalog.Service
import Marketplace.Lib.Grow
import Marketplace.Lib.Schedule

/-!
# The creation of stores

Sellers create their stores at the same time. A slug is looked for with plain `SELECT`s, and the
unique constraints of `stores` have the last word. The search ends however many stores the others
commit meanwhile. A call is told that its seller already has a store for want of a slug, too, and a
slug that the seller asks for is stored as it comes.
-/

namespace Marketplace

open Lib Txn Err StoreService

/-! ### Slugs -/

/-- Lower-case letters, digits and inner hyphens, and not nothing. -/
structure UrlSafe (slug : String) : Prop where
  chars : ∀ c ∈ slug.toList, isSlugChar c ∨ c = '-'
  ends : ∃ h : slug.toList ≠ [],
    isSlugChar (slug.toList.head h) ∧ isSlugChar (slug.toList.getLast h)

/-- `hyphenate` leaves the characters of a slug and hyphens. -/
theorem mem_hyphenate {cs : List Char} {inRun : Bool} {c : Char} (h : c ∈ hyphenate cs inRun) :
    isSlugChar c ∨ c = '-' := by
  induction cs generalizing inRun with
  | nil => cases h
  | cons d cs ih =>
    unfold hyphenate at h
    split at h
    · next hd =>
      rcases List.mem_cons.mp h with rfl | h
      · exact .inl hd
      · exact ih h
    · split at h
      · exact ih h
      · rcases List.mem_cons.mp h with rfl | h
        · exact .inr rfl
        · exact ih h

section Strip

variable {p : Char → Bool} {cs : List Char}

/-- Stripping drops the characters at both ends. -/
theorem stripWith_eq (p : Char → Bool) (cs : List Char) :
    stripWith p cs = (cs.dropWhile p).rdropWhile p := rfl

/-- Stripping adds no character. -/
theorem stripWith_subset (p : Char → Bool) (cs : List Char) : stripWith p cs ⊆ cs := by
  rw [stripWith_eq]
  intro c hc
  exact (List.dropWhile_suffix p).subset ((List.rdropWhile_prefix p _).subset hc)

/-- A stripped text does not begin with a character that is stripped. -/
theorem head_stripWith (h : stripWith p cs ≠ []) : p ((stripWith p cs).head h) = false := by
  have hne : cs.dropWhile p ≠ [] := fun hnil => h (by rw [stripWith_eq, hnil, List.rdropWhile_nil])
  have hstart : stripWith p cs <+: cs.dropWhile p := List.rdropWhile_prefix p _
  rw [hstart.head h]
  exact List.head_dropWhile_not p hne

/-- A stripped text does not end with a character that is stripped. -/
theorem getLast_stripWith (h : stripWith p cs ≠ []) : p ((stripWith p cs).getLast h) = false :=
  Bool.eq_false_iff.mpr (List.rdropWhile_last_not p (cs.dropWhile p) h)

end Strip

/-- The slug of a text without any letter or digit. -/
theorem store_urlSafe : UrlSafe "store" := by
  have hstore : "store".toList = ['s', 't', 'o', 'r', 'e'] := rfl
  have hchars : ∀ c ∈ ['s', 't', 'o', 'r', 'e'], isSlugChar c := by
    intro c hc
    simp only [List.mem_cons, List.not_mem_nil, or_false] at hc
    rcases hc with rfl | rfl | rfl | rfl | rfl <;> rfl
  constructor
  · exact fun c hc => .inl (hchars c (hstore ▸ hc))
  · simp only [hstore]
    exact ⟨by simp, hchars _ (by simp), hchars _ (by simp)⟩

/-- `_slugify` makes a slug of any text. -/
theorem slugify_urlSafe (lower : String → String) (value : String) :
    UrlSafe (slugify lower value) := by
  have hchars : ∀ c ∈ stripWith (· = '-') (hyphenate (lower value).toList false),
      isSlugChar c ∨ c = '-' :=
    fun c hc => mem_hyphenate (stripWith_subset _ _ hc)
  unfold slugify
  simp only
  split
  · exact store_urlSafe
  · next hne =>
    refine ⟨by simpa only [String.toList_ofList] using hchars, ?_⟩
    simp only [String.toList_ofList]
    refine ⟨hne, ?_, ?_⟩
    · exact (hchars _ (List.head_mem hne)).resolve_right (by simpa using head_stripWith hne)
    · exact (hchars _ (List.getLast_mem hne)).resolve_right (by simpa using getLast_stripWith hne)

/-- A digit may stand in a slug. -/
theorem isSlugChar_of_isDigit {c : Char} (h : c.isDigit = true) : isSlugChar c = true := by
  simp only [Char.isDigit, Bool.and_eq_true, decide_eq_true_eq, isSlugChar, UInt32.le_iff_toNat_le]
    at h ⊢
  exact .inr h

/-- Every candidate for a slug is one, if the first is. -/
theorem slugCandidate_urlSafe {base : String} (h : UrlSafe base) (k : ℕ) :
    UrlSafe (slugCandidate base k) := by
  have hdigits : ∀ c ∈ (Nat.repr k).toList, isSlugChar c := by
    intro c hc
    rw [Nat.toList_repr] at hc
    exact isSlugChar_of_isDigit (Nat.isDigit_of_mem_toDigits (by omega) (by omega) hc)
  have hsome : (Nat.repr k).toList ≠ [] := by
    rw [Nat.toList_repr]
    exact Nat.toDigits_ne_nil
  unfold slugCandidate
  split
  · exact h
  · obtain ⟨hne, hfirst, -⟩ := h.ends
    refine ⟨fun c hc => ?_, ?_⟩
    · simp only [String.toList_append, List.mem_append] at hc
      rcases hc with (hc | hc) | hc
      · exact h.chars c hc
      · exact .inr (by simpa using hc)
      · exact .inl (hdigits c hc)
    · simp only [String.toList_append]
      refine ⟨by simp [hne], ?_, ?_⟩
      · rwa [List.head_append_of_ne_nil (by simp [hne]), List.head_append_of_ne_nil hne]
      · rw [List.getLast_append_of_ne_nil _ hsome]
        exact hdigits _ (List.getLast_mem hsome)

/-! ### The calls -/

/-- A call of `create_store`. -/
structure StoreCall where
  caller : User
  name : String
  city : String
  description : Option String := none
  slug : Option String := none
  isPublic : Bool := false
  env : Env

/-- The transaction of the call, next to at most `others` insertions of stores. -/
def StoreCall.exec (lower : String → String) (others : ℕ) (c : StoreCall) : Tx Store :=
  createStore lower { c.env with storesMeanwhile := others } c.caller c.name c.city c.description
    c.slug c.isPublic

/-- What the slug of the call is derived from. -/
def StoreCall.base (lower : String → String) (c : StoreCall) : String :=
  slugBase lower c.name c.slug

/-- The draws of `uuid4` are new. -/
structure FreshStores {ι : Type} (calls : ι → StoreCall) (db : Db) : Prop where
  unused : ∀ i, db.stores.get ((calls i).env.uuid4 0) = none
  distinct : ∀ i j, (calls i).env.uuid4 0 = (calls j).env.uuid4 0 → i = j

/-- The seller with this id is the caller. -/
def IsSeller (db : Db) (caller : User) (sellerId : Id) : Prop :=
  (db.sellers.get sellerId).map Seller.userId = some caller.id

instance (db : Db) (caller : User) (sellerId : Id) : Decidable (IsSeller db caller sellerId) :=
  inferInstanceAs (Decidable (_ = _))

/-- The caller has a store. -/
def OwnsStore (db : Db) (caller : User) : Prop :=
  ∃ s ∈ db.stores.rows, IsSeller db caller s.sellerId

instance (db : Db) (caller : User) : Decidable (OwnsStore db caller) :=
  inferInstanceAs (Decidable (∃ s ∈ db.stores.rows, _))

/-! ### One call among the others -/

section Program

/-- No store comes to have the property. -/
def NoStore (P : Store → Prop) (s t : Db) : Prop :=
  (∀ r ∈ s.stores.rows, ¬P r) → ∀ r ∈ t.stores.rows, ¬P r

/-- The entry of a unique index is protected by its lock. -/
def storeLocking : Locking Db Key where
  agree
    | .store id, s, t => NoStore (fun r => r.id = id) s t
    | .storeSeller sellerId, s, t => NoStore (fun r => r.sellerId = sellerId) s t
    | .storeSlug slug, s, t => NoStore (fun r => r.slug = slug) s t
    | _, _, _ => True
  refl key s := by
    cases key with
    | store id => exact fun h => h
    | storeSeller sellerId => exact fun h => h
    | storeSlug slug => exact fun h => h
    | _ => trivial
  trans {key s t u} hst htu := by
    cases key with
    | store id => exact htu ∘ hst
    | storeSeller sellerId => exact htu ∘ hst
    | storeSlug slug => exact htu ∘ hst
    | _ => trivial

variable {ι : Type} {lower : String → String} {calls : ι → StoreCall} {db₀ : Db}

/-- The store is one that a call adds. -/
structure AddedBy (lower : String → String) (db₀ : Db) (c : StoreCall) (r : Store) : Prop where
  id : r.id = c.env.uuid4 0
  seller : IsSeller db₀ c.caller r.sellerId
  slug : ∃ k, r.slug = slugCandidate (c.base lower) k

/-- What holds of the database at every moment. -/
structure StoresDb (lower : String → String) (calls : ι → StoreCall) (db₀ s : Db) : Prop where
  profiles : ∀ id, (s.sellers.get id).map Seller.userId = (db₀.sellers.get id).map Seller.userId
  sellers : (s.stores.rows.map Store.sellerId).Nodup
  slugs : (s.stores.rows.map Store.slug).Nodup
  kept : db₀.stores.rows ⊆ s.stores.rows
  added : ∀ r ∈ s.stores.rows, r ∈ db₀.stores.rows ∨ ∃ i, AddedBy lower db₀ (calls i) r

/-- Stores are only added. -/
def MoreStores (s t : Db) : Prop := s.stores.rows ⊆ t.stores.rows

/-- There are at most as many new stores as calls. -/
theorem StoresDb.length_le [Fintype ι] {s : Db} (h : StoresDb lower calls db₀ s) :
    s.stores.rows.length ≤ db₀.stores.rows.length + Fintype.card ι := by
  have hsubset : s.stores.rows.map Store.id ⊆
      db₀.stores.rows.map Store.id ++ Finset.univ.toList.map fun i => (calls i).env.uuid4 0 := by
    intro id hid
    obtain ⟨r, hr, rfl⟩ := List.mem_map.mp hid
    rcases h.added r hr with hold | ⟨i, hi⟩
    · exact List.mem_append_left _ (List.mem_map_of_mem hold)
    · refine List.mem_append_right _ (List.mem_map.mpr ⟨i, ?_, hi.id.symm⟩)
      exact Finset.mem_toList.mpr (Finset.mem_univ i)
  have hlength := (List.subperm_of_subset s.stores.nodup hsubset).length_le
  simpa only [List.length_append, List.length_map, Finset.length_toList, Finset.card_univ]
    using hlength

/-- A row with a call's id is the call's. -/
theorem StoresDb.owner (hfresh : FreshStores calls db₀) {s : Db} (h : StoresDb lower calls db₀ s)
    {i : ι} {r : Store} (hr : r ∈ s.stores.rows) (hid : r.id = (calls i).env.uuid4 0) :
    IsSeller db₀ (calls i).caller r.sellerId := by
  rcases h.added r hr with hold | ⟨j, hj⟩
  · have hunused := hfresh.unused i
    rw [← hid, Table.mem_rows_iff.mp hold] at hunused
    cases hunused
  · obtain rfl := hfresh.distinct i j (hid.symm.trans hj.id)
    exact hj.seller

/-- The sellers are those of the initial database. -/
theorem StoresDb.isSeller_iff {s : Db} (h : StoresDb lower calls db₀ s) {caller : User} {id : Id} :
    IsSeller s caller id ↔ IsSeller db₀ caller id := by
  unfold IsSeller
  rw [h.profiles]

/-- The seller that a call finds is its caller's. -/
theorem isSeller_of_found {s : Db} (h : StoresDb lower calls db₀ s) {caller : User}
    {seller : Seller}
    (hfound : s.sellers.rows.filter (fun r => r.userId = caller.id ∧ r.deletedAt = none) =
      (some seller).toList) : IsSeller db₀ caller seller.id := by
  have hmem : seller ∈ s.sellers.rows.filter
      (fun r => r.userId = caller.id ∧ r.deletedAt = none) := by
    rw [hfound]
    exact List.mem_singleton_self seller
  obtain ⟨hrow, hmatch⟩ := List.mem_filter.mp hmem
  refine h.isSeller_iff.mp ?_
  unfold IsSeller
  rw [Table.mem_rows_iff.mp hrow, Option.map_some, (of_decide_eq_true hmatch).1]

/-- The pending changes concern no store and nobody's profile. -/
structure SparesStores (w : Db → Db) : Prop where
  stores : ∀ s, (w s).stores = s.stores
  profiles : ∀ s id, ((w s).sellers.get id).map Seller.userId = (s.sellers.get id).map Seller.userId

/-- An edit of a seller spares the stores. -/
theorem sparesStores_modifySeller (id : Id) {f : Seller → Seller} (hid : ∀ s, (f s).id = s.id)
    (huser : ∀ s, (f s).userId = s.userId) : SparesStores fun db => db.modifySeller id f where
  stores _ := rfl
  profiles s id' := by
    simp only [Db.modifySeller]
    rw [Table.get_modify _ _ hid]
    split
    · rw [Option.map_map]
      exact congrArg (fun g => (s.sellers.get id').map g) (funext huser)
    · rfl

/-- The insertion of a row that takes no entry of a unique index. -/
theorem StoresDb.addStore {s : Db} {w : Db → Db} {r : Store} {i : ι}
    (h : StoresDb lower calls db₀ s) (hw : SparesStores w) (hr : AddedBy lower db₀ (calls i) r)
    (hid : ∀ x ∈ s.stores.rows, x.id ≠ r.id)
    (hseller : ∀ x ∈ s.stores.rows, x.sellerId ≠ r.sellerId)
    (hslug : ∀ x ∈ s.stores.rows, x.slug ≠ r.slug) :
    ((w s).addStore r).stores.rows = s.stores.rows ++ [r] ∧
      StoresDb lower calls db₀ ((w s).addStore r) := by
  have hnone : s.stores.get r.id = none := by
    rw [Table.get_eq_none_iff]
    intro hmem
    obtain ⟨x, hx, hsame⟩ := List.mem_map.mp hmem
    exact hid x hx hsame
  have hrows : ((w s).addStore r).stores.rows = s.stores.rows ++ [r] := by
    simp only [Db.addStore, hw.stores]
    exact Table.rows_insert hnone
  have hfresh : ∀ {α : Type} (f : Store → α), (s.stores.rows.map f).Nodup →
      (∀ x ∈ s.stores.rows, f x ≠ f r) → ((s.stores.rows ++ [r]).map f).Nodup := by
    intro α f hnodup hne
    rw [List.map_append, List.map_singleton]
    refine hnodup.append (List.nodup_singleton _) fun a ha ha' => ?_
    obtain ⟨x, hx, rfl⟩ := List.mem_map.mp ha
    exact hne x hx (List.mem_singleton.mp ha')
  refine ⟨hrows, fun id => ?_, ?_, ?_, ?_, ?_⟩
  · rw [← h.profiles id, ← hw.profiles s id]
    rfl
  · rw [hrows]
    exact hfresh _ h.sellers hseller
  · rw [hrows]
    exact hfresh _ h.slugs hslug
  · rw [hrows]
    exact fun x hx => List.mem_append_left _ (h.kept hx)
  · rw [hrows]
    intro x hx
    rcases List.mem_append.mp hx with hx | hx
    · exact h.added x hx
    · obtain rfl := List.mem_singleton.mp hx
      exact .inr ⟨i, hr⟩

/-- The slug that the call goes for is free when its entry is locked. -/
def SlugFree (key : Key) (s : Db) : Prop :=
  ∀ slug, key = .storeSlug slug → ∀ r ∈ s.stores.rows, r.slug ≠ slug

/-- An error with which the call must not end: its search does not run out of turns, and if it has
got its slug, its seller is not told of a store that it does not have. -/
def Unserved (held : Prop) (db₀ : Db) (c : StoreCall) (s : Db) (e : Err) : Prop :=
  e = noFreeSlug ∨
    held ∧ e = storeAlreadyExists ∧ ¬∃ r ∈ s.stores.rows, IsSeller db₀ c.caller r.sellerId

/-- An answer of neither kind breaks no promise. -/
theorem not_unserved {held : Prop} {c : StoreCall} {s : Db} {e : Err} (hslug : e ≠ noFreeSlug)
    (hexists : e ≠ storeAlreadyExists) : ¬Unserved held db₀ c s e := by
  rintro (h | ⟨-, h, -⟩)
  · exact hslug h
  · exact hexists h

/-- A conflict is deserved when the seller owns a store. -/
theorem not_unserved_of_owner {held : Prop} {c : StoreCall} {s : Db} {r : Store}
    (hr : r ∈ s.stores.rows) (hseller : IsSeller db₀ c.caller r.sellerId) :
    ¬Unserved held db₀ c s storeAlreadyExists := by
  rintro (h | ⟨-, -, h⟩)
  · exact absurd h (by decide)
  · exact h ⟨r, hr, hseller⟩

section Grow

variable {held : Prop} {c : StoreCall} {K : Db → Prop} {facts : List (Key × Db)} {w : Db → Db}
  {I : Db → Prop} {A : Key → Db → Prop}

/-- The rule of `scalar_one_or_none` when rows may be added meanwhile. -/
theorem scalarOneOrNone_grow {ρ : Type} {rows : List ρ}
    {Post : (Db → Prop) → List (Key × Db) → (Db → Db) → Option ρ → Prop}
    (h : ∀ r, rows = r.toList → Post K facts w r) :
    (scalarOneOrNone rows).wpGrow storeLocking I MoreStores A (Unserved held db₀ c) Post K facts
      w := by
  rcases rows with _ | ⟨a, _ | ⟨b, rest⟩⟩
  · exact h none rfl
  · exact h (some a) rfl
  · exact fun _ _ _ _ => not_unserved (by decide) (by decide)

/-- The search for a slug, next to other insertions: the candidates that are taken stay taken. -/
theorem uniqueSlug_grow {base : String}
    {Post : (Db → Prop) → List (Key × Db) → (Db → Db) → String → Prop} (hw : SparesStores w)
    {fuel suffix : ℕ} (hfuel : ∀ s, I s → K s → s.stores.rows.length < suffix + fuel)
    (htaken : ∀ s, K s → ∀ k < suffix, ∃ r ∈ s.stores.rows, r.slug = slugCandidate base k)
    (hPost : ∀ K' k, (∀ s, K' s → K s) → Post K' facts w (slugCandidate base k)) :
    (uniqueSlug base fuel suffix).wpGrow storeLocking I MoreStores A (Unserved held db₀ c) Post K
      facts w := by
  induction fuel generalizing suffix K with
  | zero =>
    -- more candidates than stores cannot be taken
    intro s hI hK _
    have hmany := le_of_candidates_taken (htaken s hK)
    have hfew := hfuel s hI hK
    omega
  | succ fuel ih =>
    simp only [uniqueSlug, bind_eq, wpGrow_bind, wpGrow_read, wpGrow_ite, hw.stores]
    intro s _ hK _
    constructor
    · intro htake
      refine ih (fun t hI ht => ?_) (fun t ht k hk => ?_) fun K' k hK' => ?_
      · have hlength := hfuel t hI ht.1
        omega
      · rcases Nat.lt_succ_iff_lt_or_eq.mp hk with hk | rfl
        · exact htaken t ht.1 k hk
        · obtain ⟨r, hr, hslug⟩ := List.any_eq_true.mp htake
          exact ⟨r, ht.2 hr, of_decide_eq_true hslug⟩
      · exact hPost K' k fun t ht => (hK' t ht).1
    · exact fun _ => hPost _ suffix fun t ht => ht.1

/-- The insertion of a call's store. Once its three entries are locked and free, they stay so. -/
theorem insertStore_grow (hfresh : FreshStores calls db₀) {i : ι} {r : Store}
    (hr : AddedBy lower db₀ (calls i) r) (hw : SparesStores w)
    (hA : held → ∀ key s, A key s → SlugFree key s) :
    (insertStore r).wpGrow storeLocking (StoresDb lower calls db₀) MoreStores A
      (Unserved held db₀ (calls i)) (fun K facts w _ =>
        RelyOk storeLocking (StoresDb lower calls db₀) (fun _ s t => MoreStores s t) K facts w r)
      K facts w := by
  simp only [insertStore, bind_eq, wpGrow_bind, wpGrow_raiseIf, wpGrow_acquire, wpGrow_modify,
    hw.stores]
  refine ⟨fun _ s _ _ _ => not_unserved (by decide) (by decide), fun _ s₁ _ _ _ _ => ?_⟩
  refine ⟨fun htaken s hI hK _ => ?_, fun hfree₁ s₂ _ _ _ _ => ?_⟩
  · obtain ⟨x, hx⟩ := Option.isSome_iff_exists.mp htaken
    obtain ⟨hmem, hid⟩ := Table.get_eq_some_iff.mp hx
    exact not_unserved_of_owner (hK.2 hmem) (hI.owner hfresh (hK.2 hmem) (hid.trans hr.id))
  refine ⟨fun htaken s _ hK _ => ?_, fun hfree₂ s₃ _ _ _ hslug => ?_⟩
  · obtain ⟨x, hx, hsame⟩ := List.any_eq_true.mp htaken
    refine not_unserved_of_owner (hK.2 hx) ?_
    rw [of_decide_eq_true hsame]
    exact hr.seller
  refine ⟨fun htaken s _ _ _ hbad => ?_, fun hfree₃ s hI _ hknown => ?_⟩
  · obtain ⟨x, hx, hsame⟩ := List.any_eq_true.mp htaken
    rcases hbad with hbad | ⟨hheld, -, -⟩
    · exact absurd hbad (by decide)
    · exact hA hheld _ _ hslug r.slug rfl x hx (of_decide_eq_true hsame)
  -- the entries are as they were when they were locked
  have hlocked : ∀ (key : Key) (s' : Db), (key, s') ∈ (Key.storeSlug r.slug, s₃) ::
      (Key.storeSeller r.sellerId, s₂) :: (Key.store r.id, s₁) :: facts →
      storeLocking.agree key s' s := fun _ _ h => hknown _ h
  have hid : ∀ x ∈ s.stores.rows, x.id ≠ r.id := by
    refine hlocked (.store r.id) s₁ (by simp) fun x hx hsame => ?_
    exact hfree₁ (by rw [← hsame, Table.mem_rows_iff.mp hx]; rfl)
  have hseller : ∀ x ∈ s.stores.rows, x.sellerId ≠ r.sellerId := by
    refine hlocked (.storeSeller r.sellerId) s₂ (by simp) fun x hx hsame => ?_
    exact hfree₂ (List.any_eq_true.mpr ⟨x, hx, decide_eq_true hsame⟩)
  have hslug : ∀ x ∈ s.stores.rows, x.slug ≠ r.slug := by
    refine hlocked (.storeSlug r.slug) s₃ (by simp) fun x hx hsame => ?_
    exact hfree₃ (List.any_eq_true.mpr ⟨x, hx, decide_eq_true hsame⟩)
  obtain ⟨hrows, hdb⟩ := hI.addStore hw hr hid hseller hslug
  refine ⟨hdb, fun x hx => ?_, fun key hkey => ?_⟩
  · change x ∈ ((w s).addStore r).stores.rows
    rw [hrows]
    exact List.mem_append_left _ hx
  · have hspared : ∀ {P : Store → Prop}, ¬P r → NoStore P s ((w s).addStore r) := by
      intro P hP hnone x hx
      rw [hrows] at hx
      rcases List.mem_append.mp hx with hx | hx
      · exact hnone x hx
      · obtain rfl := List.mem_singleton.mp hx
        exact hP
    cases key with
    | store id => exact hspared fun h => hkey (.store r.id, s₁) (by simp) (congrArg Key.store h)
    | storeSeller id =>
      exact hspared fun h => hkey (.storeSeller r.sellerId, s₂) (by simp)
        (congrArg Key.storeSeller h)
    | storeSlug slug =>
      exact hspared fun h => hkey (.storeSlug r.slug, s₃) (by simp) (congrArg Key.storeSlug h)
    | _ => trivial

/-- `create_store` next to other calls. -/
theorem StoreCall.grow [Fintype ι] (held : Prop) (hfresh : FreshStores calls db₀) (i : ι) :
    ((calls i).exec lower (Fintype.card ι)).Grows storeLocking (StoresDb lower calls db₀) MoreStores
      (fun key s => held → SlugFree key s) (Unserved held db₀ (calls i))
      fun _ s t => MoreStores s t := by
  constructor
  have hfine : ∀ {e : Err} {s : Db}, e ≠ noFreeSlug → e ≠ storeAlreadyExists →
      ¬Unserved held db₀ (calls i) s e := fun hslug hexists => not_unserved hslug hexists
  unfold StoreCall.exec createStore
  simp only [bind_eq, wpGrow_bind, wpGrow_raiseIf]
  refine ⟨fun _ s _ _ _ => hfine (by decide) (by decide), fun _ => ?_⟩
  refine ⟨fun _ s _ _ _ => hfine (by decide) (by decide), fun _ => ?_⟩
  simp only [OrderService.getCallerSeller, bind_eq, wpGrow_bind, wpGrow_read, id_eq]
  intro s₀ hI₀ _ _
  refine scalarOneOrNone_grow fun found hfound => ?_
  rw [wpGrow_getOrRaise]
  refine ⟨fun _ s _ _ _ => hfine (by decide) (by decide), ?_⟩
  rintro seller rfl
  have hseller := isSeller_of_found hI₀ hfound
  intro s₁ hI₁ _ _
  refine scalarOneOrNone_grow fun existing hexisting => ?_
  refine ⟨fun hsome s hI hK _ => ?_, fun _ => ?_⟩
  · obtain ⟨r, rfl⟩ := Option.ne_none_iff_exists'.mp hsome
    have hmem : r ∈ (id s₁).storesOf seller.id := by
      rw [hexisting]
      exact List.mem_singleton_self r
    obtain ⟨hr, hmatch⟩ := List.mem_filter.mp hmem
    refine not_unserved_of_owner (hK.2 hr) ?_
    rw [(of_decide_eq_true hmatch).1]
    exact hseller
  have hspares : SparesStores fun db =>
      db.modifySeller seller.id (Seller.setCity (calls i).city seller) :=
    sparesStores_modifySeller _ (Seller.setCity_id _ _) (Seller.setCity_userId _ _)
  simp only [updateSeller, wpGrow_updateRow]
  intro s₂ _ _ _ _ s₃ hI₃ _ _
  refine uniqueSlug_grow hspares (fun s hI hK => ?_) (fun s _ k hk => absurd hk (by omega))
    fun K' k _ => ?_
  · -- the stores that are new since the search began are those of the calls
    have hmany := hI.length_le
    have hfew : db₀.stores.rows.length ≤ s₃.stores.rows.length := by
      have hnodup : db₀.stores.rows.Nodup := List.Nodup.of_map _ db₀.stores.nodup
      exact hnodup.length_le_of_subset hI₃.kept
    change _ < 0 + (s₃.stores.rows.length + 1 + Fintype.card ι)
    omega
  · have hadded : AddedBy lower db₀ (calls i) (newStore (calls i).env seller.id (calls i).name
        (slugCandidate ((calls i).base lower) k) (calls i).description (calls i).isPublic) :=
      ⟨rfl, hseller, k, rfl⟩
    exact insertStore_grow hfresh hadded hspares fun hheld _ _ hA => hA hheld

end Grow

end Program

/-! ### In every interleaving -/

/-- The seller asks for no slug, or for one that is URL-safe as it is stored. -/
def StoreCall.AsksWell (lower : String → String) (c : StoreCall) : Prop :=
  ∀ slug, c.slug = some slug → slug ≠ "" → UrlSafe (lower (strip slug))

/-- A call that asks well has a base that is safe in a URL. -/
theorem StoreCall.AsksWell.base {lower : String → String} {c : StoreCall} (h : c.AsksWell lower) :
    UrlSafe (c.base lower) := by
  unfold StoreCall.base slugBase
  split
  · next slug hslug =>
    split
    · exact slugify_urlSafe _ _
    · next hne => exact h slug hslug hne
  · exact slugify_urlSafe _ _

/-- What holds in every run. -/
structure StoresDistinct {ι : Type} (t : Sys ι Db Key Err Store) : Prop where
  sellers : (t.db.stores.rows.map Store.sellerId).Nodup
  slugs : (t.db.stores.rows.map Store.slug).Nodup
  searchEnds : ∀ i, t.txn i ≠ .aborted (some noFreeSlug)

/-- What is promised of a run besides. -/
structure StoresServed {ι : Type} (calls : ι → StoreCall) (db : Db) (t : Sys ι Db Key Err Store) :
    Prop where
  distinct : StoresDistinct t
  urlSafe : ∀ r ∈ t.db.stores.rows, r ∈ db.stores.rows ∨ UrlSafe r.slug
  refused : ∀ i, t.txn i = .aborted (some storeAlreadyExists) → OwnsStore t.db (calls i).caller

/-- The step loses no race for a slug: the slug that the call is about to insert is still free. -/
def SlugStillFree {ι : Type} (s : Sys ι Db Key Err Store) (i : ι) (_ : Sys ι Db Key Err Store) :
    Prop := Sys.Granted SlugFree s i

section Interleaving

variable {ι : Type} [DecidableEq ι] [Fintype ι] {lower : String → String} {calls : ι → StoreCall}
  {db : Db}

/-- What holds in every run, and besides if the calls that are `held` to lose no race do not. -/
theorem stores_grown (held : Prop) (hsellers : (db.stores.rows.map Store.sellerId).Nodup)
    (hslugs : (db.stores.rows.map Store.slug).Nodup) (hfresh : FreshStores calls db)
    {t : Sys ι Db Key Err Store}
    (h : Sys.StepsIf (fun s i t => held → SlugStillFree s i t)
      (Sys.init db fun i => (calls i).exec lower (Fintype.card ι)) t) :
    Sys.Grown storeLocking (StoresDb lower calls db) MoreStores
      (fun _ key s => held → SlugFree key s) (fun i => Unserved held db (calls i))
      (fun _ _ s t => MoreStores s t) t := by
  have hdb : StoresDb lower calls db db :=
    ⟨fun _ => rfl, hsellers, hslugs, fun _ h => h, fun _ h => .inl h⟩
  have hrefl : ∀ s, MoreStores s s := fun _ _ h => h
  have htrans : ∀ s t u, MoreStores s t → MoreStores t u → MoreStores s u :=
    fun _ _ _ hst htu _ h => htu (hst h)
  have hbad : ∀ i s t e, MoreStores s t → Unserved held db (calls i) t e →
      Unserved held db (calls i) s e := by
    intro i s t e hmore hbad
    rcases hbad with he | ⟨hheld, he, hnone⟩
    · exact .inl he
    refine .inr ⟨hheld, he, ?_⟩
    rintro ⟨r, hr, hseller⟩
    exact hnone ⟨r, hmore hr, hseller⟩
  have hgranted : ∀ (s : Sys ι Db Key Err Store) i t, (held → SlugStillFree s i t) →
      Sys.Granted (fun key s => held → SlugFree key s) s i :=
    fun s i t hif w q key hi hasks hheld => hif hheld w q key hi hasks
  exact Sys.StepsIf.raises hrefl htrans (fun _ _ _ _ h => h) hbad hdb (StoreCall.grow held hfresh)
    hgranted h

omit [DecidableEq ι] [Fintype ι] in
/-- The stores are distinct in every state the creations reach. -/
theorem storesDistinct_of_grown {held : Prop} {t : Sys ι Db Key Err Store}
    (h : Sys.Grown storeLocking (StoresDb lower calls db) MoreStores
      (fun _ key s => held → SlugFree key s) (fun i => Unserved held db (calls i))
      (fun _ _ s t => MoreStores s t) t) : StoresDistinct t where
  sellers := h.holds.db.sellers
  slugs := h.holds.db.slugs
  searchEnds i hi := h.raised i _ hi (.inl rfl)

end Interleaving

/-- **Creation of stores.** In every run each seller has at most one store, the slugs are distinct
and the searches for them end. If the sellers ask for URL-safe slugs, then in every run in which no
call loses the race for its slug, the slugs are URL-safe, and a call is told of a store only if its
seller has one. -/
theorem stores_created {ι : Type} [DecidableEq ι] [Fintype ι] {lower : String → String}
    {calls : ι → StoreCall} {db : Db} (hsellers : (db.stores.rows.map Store.sellerId).Nodup)
    (hslugs : (db.stores.rows.map Store.slug).Nodup) (hfresh : FreshStores calls db) :
    (∀ t, Sys.Steps (Sys.init db fun i => (calls i).exec lower (Fintype.card ι)) t →
      StoresDistinct t) ∧
    ((∀ i, (calls i).AsksWell lower) → ∀ t, Sys.StepsIf SlugStillFree
      (Sys.init db fun i => (calls i).exec lower (Fintype.card ι)) t →
        StoresServed calls db t) := by
  constructor
  · intro t ht
    exact storesDistinct_of_grown (stores_grown False hsellers hslugs hfresh
      (ht.stepsIf fun _ _ _ hheld => hheld.elim))
  · intro hasks t ht
    have hgrown := stores_grown True hsellers hslugs hfresh (ht.mono fun _ _ _ hC _ => hC)
    refine ⟨storesDistinct_of_grown hgrown, fun r hr => ?_, fun i hi => ?_⟩
    · refine (hgrown.holds.db.added r hr).imp_right ?_
      rintro ⟨i, -, -, k, hslug⟩
      rw [hslug]
      exact slugCandidate_urlSafe (hasks i).base k
    · by_contra hnone
      refine hgrown.raised i _ hi (.inr ⟨trivial, rfl, ?_⟩)
      rintro ⟨r, hr, hseller⟩
      exact hnone ⟨r, hr, hgrown.holds.db.isSeller_iff.mpr hseller⟩

namespace Sample

/-- Two sellers without a store. -/
def twoSellers : Db :=
  { sellers := ((∅ : Table Seller Seller.id).insert { id := 2, userId := 2 }).insert
      { id := 3, userId := 3 } }

/-- The `i`-th of two calls for a store of the same name. -/
def storeCall (slug : Option String) (i : Fin 2) : StoreCall :=
  { caller := { id := 2 + i, role := .seller }, name := "Shop", city := "Rome", slug,
    env := { now := fun _ => i, transactionNow := i, uuid4 := fun _ => 40 + i, randbelow := 0 } }

/-- The sample calls use ids that nothing has. -/
theorem storeCall_fresh (slug : Option String) : FreshStores (storeCall slug) twoSellers where
  unused _ := rfl
  distinct _ _ h := Fin.ext (Nat.add_left_cancel h)

/-- The transactions of these calls. -/
def creating (slug : Option String) (i : Fin 2) : Tx Store :=
  (storeCall slug i).exec String.toLower (Fintype.card (Fin 2))

/-- Where the call asks for the entry of its slug, no store has the slug. -/
def slugChecked {ι : Type} (s : Sys ι Db Key Err Store) (i : ι) : Bool :=
  match s.txn i with
  | .running _ q =>
    match q.asked with
    | some (.storeSlug slug) => s.db.stores.rows.all fun r => r.slug ≠ slug
    | _ => true
  | _ => true

/-- A slug that was checked is still free. -/
theorem slugStillFree_of_checked {ι : Type} (s : Sys ι Db Key Err Store) (i : ι)
    (t : Sys ι Db Key Err Store) (h : slugChecked s i = true) : SlugStillFree s i t := by
  rintro w q key hi hasked slug rfl r hr
  unfold slugChecked at h
  simp only [hi, hasked] at h
  exact of_decide_eq_true (List.all_eq_true.mp h r hr)

end Sample

/-- Two calls in turn: the second one takes the next slug. -/
theorem stores_created_in_turn :
    ∃ t, Sys.Steps (Sys.init Sample.twoSellers (Sample.creating none)) t ∧
      t.db.stores.rows.map Store.slug = ["shop", "shop-1"] ∧
      StoresServed (Sample.storeCall none) Sample.twoSellers t := by
  have hplay : (Sys.play Sample.slugChecked (List.replicate 11 0 ++ List.replicate 12 1)
      (Sys.init Sample.twoSellers (Sample.creating none))).map
      (fun t => t.db.stores.rows.map Store.slug) = some ["shop", "shop-1"] := by
    decide +kernel
  obtain ⟨t, ht, hslugs⟩ := Option.map_eq_some_iff.mp hplay
  have hsteps := Sys.stepsIf_of_play Sample.slugStillFree_of_checked ht
  refine ⟨t, hsteps.steps, hslugs, ?_⟩
  exact (stores_created (by decide) (by decide) (Sample.storeCall_fresh none)).2
    (fun _ _ h => nomatch h) t hsteps

/-- A seller that loses the race for its slug is told of a store that it does not have, and a slug
that a seller asks for need not be URL-safe. -/
theorem slug_race_lost :
    (∃ t, Sys.Steps (Sys.init Sample.twoSellers (Sample.creating none)) t ∧
      t.txn 1 = .aborted (some storeAlreadyExists) ∧
      ¬OwnsStore t.db (Sample.storeCall none 1).caller) ∧
    ∃ t, Sys.Steps (Sys.init Sample.twoSellers (Sample.creating (some "a b/c"))) t ∧
      ∃ r ∈ t.db.stores.rows, ¬UrlSafe r.slug := by
  constructor
  · have hplay : (Sys.play (fun _ _ => true)
        (List.replicate 6 1 ++ List.replicate 11 0 ++ List.replicate 4 1)
        (Sys.init Sample.twoSellers (Sample.creating none))).map
        (fun t => (t.error? 1, decide (OwnsStore t.db (Sample.storeCall none 1).caller))) =
        some (some storeAlreadyExists, false) := by
      decide +kernel
    obtain ⟨t, ht, hend⟩ := Option.map_eq_some_iff.mp hplay
    obtain ⟨herror, howns⟩ := Prod.mk.inj hend
    exact ⟨t, Sys.steps_of_play ht, Sys.aborted_of_error? herror, of_decide_eq_false howns⟩
  · have hplay : (Sys.play (fun _ _ => true) (List.replicate 11 0)
        (Sys.init Sample.twoSellers (Sample.creating (some "a b/c")))).map
        (fun t => t.db.stores.rows.map Store.slug) = some ["a b/c"] := by
      decide +kernel
    obtain ⟨t, ht, hslugs⟩ := Option.map_eq_some_iff.mp hplay
    have hmem : "a b/c" ∈ t.db.stores.rows.map Store.slug := by
      rw [hslugs]
      exact List.mem_singleton_self _
    obtain ⟨r, hr, hslug⟩ := List.mem_map.mp hmem
    refine ⟨t, Sys.steps_of_play ht, r, hr, fun hsafe => ?_⟩
    have hblank := hsafe.chars ' ' (by rw [hslug]; decide)
    exact absurd hblank (by decide)

end Marketplace
