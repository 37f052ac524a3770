import Mathlib.Data.List.Basic
import Mathlib.Data.List.Infix

/-!
# URIs

The parts of a URI by the generic syntax, the segments of a path without its dot segments, and the
normal form of its escapes.
-/

namespace Marketplace.Lib.Uri

/-! ### The parts -/

/-- The parts of a URI. -/
structure Parts where
  scheme : List Char
  authority : Option (List Char) := none
  path : List Char
  query : Option (List Char) := none
  fragment : Option (List Char) := none
deriving DecidableEq, Repr

/-- A part after its delimiter. -/
def led (delimiter : List Char) : Option (List Char) → List Char
  | none => []
  | some part => delimiter ++ part

def Parts.text (p : Parts) : List Char :=
  p.scheme ++ ':' ::
    (led ['/', '/'] p.authority ++ (p.path ++ (led ['?'] p.query ++ led ['#'] p.fragment)))

/-- The characters up to a delimiter, and the others. -/
def upTo (delimiters cs : List Char) : List Char × List Char := cs.span fun c => c ∉ delimiters

def takeScheme (cs : List Char) : List Char × List Char :=
  match upTo [':', '/', '?', '#'] cs with
  | (scheme, ':' :: rest) => (scheme, rest)
  | _ => ([], cs)

def takeAuthority : List Char → Option (List Char) × List Char
  | '/' :: '/' :: rest => ((upTo ['/', '?', '#'] rest).map some id)
  | cs => (none, cs)

def takeQuery : List Char → Option (List Char) × List Char
  | '?' :: rest => ((upTo ['#'] rest).map some id)
  | cs => (none, cs)

def takeFragment : List Char → Option (List Char)
  | '#' :: rest => some rest
  | _ => none

/-- The parts of a text. -/
def split (cs : List Char) : Parts :=
  let (scheme, rest) := takeScheme cs
  let (authority, rest) := takeAuthority rest
  let (path, rest) := upTo ['?', '#'] rest
  let (query, rest) := takeQuery rest
  { scheme, authority, path, query, fragment := takeFragment rest }

/-- The parts of a URI with an authority, none of which contains the delimiter that ends it. -/
structure Parts.Proper (p : Parts) : Prop where
  scheme : ∀ c ∈ p.scheme, c ∉ [':', '/', '?', '#']
  authority : ∃ a, p.authority = some a ∧ ∀ c ∈ a, c ∉ ['/', '?', '#']
  path : ∀ c ∈ p.path, c ∉ ['?', '#']
  root : ∀ c ∈ p.path.head?, c = '/'
  query : ∀ q ∈ p.query, '#' ∉ q

/-- A part without a delimiter ends at the delimiter that follows it. -/
theorem upTo_append {delimiters part rest : List Char} (hpart : ∀ c ∈ part, c ∉ delimiters)
    (hrest : ∀ c ∈ rest.head?, c ∈ delimiters) : upTo delimiters (part ++ rest) = (part, rest) := by
  have hall : ∀ c ∈ part, decide (c ∉ delimiters) = true := fun c hc => decide_eq_true (hpart c hc)
  rw [upTo, List.span_eq_takeWhile_dropWhile, List.takeWhile_append_of_pos hall,
    List.dropWhile_append_of_pos hall]
  cases rest with
  | nil => simp
  | cons c rest => simp [hrest c rfl]

/-- A part led by its delimiter begins with it. -/
theorem head_led {delimiter : Char} {part : Option (List Char)} {rest : List Char} {c : Char}
    (hc : c ∈ (led [delimiter] part ++ rest).head?) : c = delimiter ∨ c ∈ rest.head? := by
  cases part with
  | none => exact .inr hc
  | some part => exact .inl (Option.some.inj hc).symm

/-- What is put together comes apart again. -/
theorem split_text {p : Parts} (h : p.Proper) : split p.text = p := by
  obtain ⟨a, ha, hauthority⟩ := h.authority
  have htail (c : Char) (hc : c ∈ (led ['?'] p.query ++ led ['#'] p.fragment).head?) :
      c ∈ ['?', '#'] := by
    rcases head_led hc with rfl | hc
    · decide
    · cases hfragment : p.fragment with
      | none => rw [hfragment] at hc; cases hc
      | some f =>
        rw [hfragment] at hc
        obtain rfl := Option.some.inj hc
        decide
  have hscheme : takeScheme p.text =
      (p.scheme, led ['/', '/'] p.authority ++
        (p.path ++ (led ['?'] p.query ++ led ['#'] p.fragment))) := by
    rw [takeScheme, Parts.text, upTo_append h.scheme (by simp)]
    rfl
  have htakeAuthority : takeAuthority (led ['/', '/'] p.authority ++
      (p.path ++ (led ['?'] p.query ++ led ['#'] p.fragment))) =
        (some a, p.path ++ (led ['?'] p.query ++ led ['#'] p.fragment)) := by
    rw [ha]
    change (upTo ['/', '?', '#'] (a ++ _)).map some id = _
    rw [upTo_append hauthority]
    · rfl
    · rintro c hc
      cases hpath : p.path with
      | nil =>
        rw [hpath] at hc
        exact List.mem_cons_of_mem _ (htail c hc)
      | cons d rest =>
        rw [hpath] at hc
        have hd : d = c := Option.some.inj hc
        have hslash : d = '/' := h.root d (by rw [hpath]; rfl)
        rw [← hd, hslash]
        exact List.mem_cons_self
  have hpath := upTo_append h.path htail
  have hquery : takeQuery (led ['?'] p.query ++ led ['#'] p.fragment) =
      (p.query, led ['#'] p.fragment) := by
    cases hquery : p.query with
    | none =>
      cases p.fragment with
      | none => rfl
      | some f => rfl
    | some q =>
      change (upTo ['#'] (q ++ _)).map some id = _
      rw [upTo_append]
      · rfl
      · rintro c hc hmem
        obtain rfl := List.mem_singleton.mp hmem
        exact h.query q hquery hc
      · rintro c hc
        cases hfragment : p.fragment with
        | none => rw [hfragment] at hc; cases hc
        | some f =>
          rw [hfragment] at hc
          exact List.mem_singleton.mpr (Option.some.inj hc).symm
  have hfragment : takeFragment (led ['#'] p.fragment) = p.fragment := by
    cases p.fragment with
    | none => rfl
    | some f => rfl
  simp only [split, hscheme, htakeAuthority, hpath, hquery, hfragment]
  rw [← ha]

/-! ### Dot segments -/

/-- The next segment of a path. -/
def dotStep (output : List (List Char)) (segment : List Char) : List (List Char) :=
  if segment = ['.', '.'] then
    match output with
    | [] => []
    | [_] => [[]]
    | output => output.dropLast
  else if segment = ['.'] then output
  else output ++ [segment]

/-- The segments that are left. -/
def resolve (segments : List (List Char)) : List (List Char) := segments.foldl dotStep []

def IsDot (segment : List Char) : Prop := segment = ['.'] ∨ segment = ['.', '.']

instance (segment : List Char) : Decidable (IsDot segment) := inferInstanceAs (Decidable (_ ∨ _))

/-- A path without dot segments; after one at its end a slash is left. -/
def removeDotSegments (path : List Char) : List Char :=
  let segments := path.splitOn '/'
  let output := resolve segments
  ['/'].intercalate (if ∃ s ∈ segments.getLast?, IsDot s then output ++ [[]] else output)

/-- The segments of a path, but for what is before a slash at its start. -/
def segmentsOf (path : List Char) : List (List Char) :=
  let rest := if path.head? = some '/' then path.tail else path
  if rest = [] then [] else rest.splitOn '/'

/-- Segments that are no dots stay where they are. -/
theorem resolve_append {segments more : List (List Char)} (hmore : ∀ s ∈ more, ¬IsDot s) :
    resolve (segments ++ more) = resolve segments ++ more := by
  induction more using List.reverseRecOn with
  | nil => rw [List.append_nil, List.append_nil]
  | append_singleton more s ih =>
    obtain ⟨hone, htwo⟩ := not_or.mp (hmore s (by simp))
    rw [← List.append_assoc, resolve, List.foldl_append, ← resolve,
      ih fun x hx => hmore x (List.mem_append_left _ hx)]
    simp only [List.foldl_cons, List.foldl_nil, dotStep, if_neg hone, if_neg htwo,
      List.append_assoc]

/-- A segment leaves the root where it is. -/
theorem dotStep_root (rest : List (List Char)) (segment : List Char) :
    ∃ rest', dotStep ([] :: rest) segment = [] :: rest' := by
  unfold dotStep
  split
  · cases rest with
    | nil => exact ⟨[], rfl⟩
    | cons s rest => exact ⟨(s :: rest).dropLast, rfl⟩
  · split
    · exact ⟨rest, rfl⟩
    · exact ⟨rest ++ [segment], rfl⟩

/-- A rooted path stays rooted when its dots are resolved. -/
theorem resolve_root (segments : List (List Char)) :
    ∃ rest, resolve ([] :: segments) = [] :: rest := by
  have hfold (output : List (List Char)) :
      ∃ rest, segments.foldl dotStep ([] :: output) = [] :: rest := by
    induction segments generalizing output with
    | nil => exact ⟨output, rfl⟩
    | cons s segments ih =>
      obtain ⟨rest, hrest⟩ := dotStep_root output s
      rw [List.foldl_cons, hrest]
      exact ih rest
  exact hfold []

/-- A step adds the segment itself or an empty one. -/
theorem mem_dotStep {output : List (List Char)} {segment s : List Char}
    (hs : s ∈ dotStep output segment) : s ∈ output ∨ s = segment ∨ s = [] := by
  unfold dotStep at hs
  split at hs
  · split at hs
    · cases hs
    · exact .inr (.inr (List.mem_singleton.mp hs))
    · exact .inl (List.mem_of_mem_dropLast hs)
  · split at hs
    · exact .inl hs
    · exact (List.mem_append.mp hs).imp_right fun h => .inl (List.mem_singleton.mp h)

/-- No other segments are left. -/
theorem mem_resolve {segments : List (List Char)} {s : List Char} (hs : s ∈ resolve segments) :
    s ∈ segments ∨ s = [] := by
  induction segments using List.reverseRecOn with
  | nil => cases hs
  | append_singleton segments last ih =>
    rw [resolve, List.foldl_append, ← resolve] at hs
    rcases mem_dotStep hs with hold | rfl | rfl
    · exact (ih hold).imp_left (List.mem_append_left _)
    · exact .inl (List.mem_append_right _ List.mem_cons_self)
    · exact .inr rfl

/-- No segment has a slash in it. -/
theorem not_mem_of_mem_splitOn {cs s : List Char} (hs : s ∈ cs.splitOn '/') : '/' ∉ s := by
  induction cs generalizing s with
  | nil =>
    obtain rfl : s = [] := by simpa using hs
    exact List.not_mem_nil
  | cons c cs ih =>
    rw [List.splitOn_cons_eq_if_modifyHead] at hs
    split at hs
    · rcases List.mem_cons.mp hs with rfl | hs
      · exact List.not_mem_nil
      · exact ih hs
    · next hc =>
      obtain ⟨first, rest, hsplit⟩ := List.exists_cons_of_ne_nil (List.splitOn_ne_nil '/' cs)
      rw [hsplit, List.modifyHead_cons] at hs
      rcases List.mem_cons.mp hs with rfl | hs
      · rintro hmem
        rcases List.mem_cons.mp hmem with rfl | hmem
        · exact hc (beq_self_eq_true _)
        · exact ih (hsplit ▸ List.mem_cons_self) hmem
      · exact ih (hsplit ▸ List.mem_cons_of_mem _ hs)

/-- No resolved segment has a slash in it. -/
theorem slash_not_mem_resolve {path s : List Char} (hs : s ∈ resolve (path.splitOn '/')) :
    '/' ∉ s := by
  rcases mem_resolve hs with hs | rfl
  · exact not_mem_of_mem_splitOn hs
  · exact List.not_mem_nil

/-- The segments of a path that begins with a slash. -/
theorem segmentsOf_intercalate {segments : List (List Char)} (hne : segments ≠ [])
    (hslash : ∀ s ∈ segments, '/' ∉ s) (hlast : segments ≠ [[]]) :
    segmentsOf (['/'].intercalate ([] :: segments)) = segments := by
  have htext : ['/'].intercalate ([] :: segments) = '/' :: ['/'].intercalate segments := by
    rw [List.intercalate_cons_of_ne_nil hne, List.nil_append, List.singleton_append]
  have hsplit := List.splitOn_intercalate '/' hslash hne
  have hrest : ['/'].intercalate segments ≠ [] := by
    rintro hnil
    rw [hnil] at hsplit
    exact hlast (hsplit.symm.trans (by simp))
  rw [htext, segmentsOf]
  simp only [List.head?_cons, if_true, List.tail_cons, if_neg hrest]
  exact hsplit

/-! ### Escapes -/

/-- The value of a hexadecimal digit. -/
def hexValue (c : Char) : Option ℕ :=
  if '0' ≤ c ∧ c ≤ '9' then some (c.toNat - '0'.toNat)
  else if 'a' ≤ c ∧ c ≤ 'f' then some (c.toNat - 'a'.toNat + 10)
  else if 'A' ≤ c ∧ c ≤ 'F' then some (c.toNat - 'A'.toNat + 10)
  else none

/-- The characters that are never escaped. -/
def IsUnreserved (c : Char) : Prop := c.isAlphanum ∨ c ∈ ['-', '.', '_', '~']

instance (c : Char) : Decidable (IsUnreserved c) := inferInstanceAs (Decidable (_ ∨ _))

/-- The normal form of an escape. -/
def normalizeEscape (high low : Char) (value : ℕ) : List Char :=
  if IsUnreserved (Char.ofNat value) then [Char.ofNat value] else ['%', high.toUpper, low.toUpper]

/-- Escapes of unreserved characters are undone, the others are written in upper case, and a percent
sign that begins none is escaped. -/
def normalizeEscapes : List Char → List Char
  | '%' :: high :: low :: rest =>
    match hexValue high, hexValue low with
    | some h, some l => normalizeEscape high low (16 * h + l) ++ normalizeEscapes rest
    | _, _ => '%' :: '2' :: '5' :: normalizeEscapes (high :: low :: rest)
  | '%' :: rest => '%' :: '2' :: '5' :: normalizeEscapes rest
  | c :: rest => c :: normalizeEscapes rest
  | [] => []

/-- Every character is allowed or belongs to an escape. -/
def WellFormed (allowed : Char → Prop) : List Char → Prop
  | '%' :: high :: low :: rest =>
    (hexValue high).isSome ∧ (hexValue low).isSome ∧ WellFormed allowed rest
  | '%' :: _ => False
  | c :: rest => allowed c ∧ WellFormed allowed rest
  | [] => True

variable {allowed : Char → Prop} {cs : List Char} {c : Char}

/-- A character that begins no escape is kept. -/
theorem normalizeEscapes_cons (hc : c ≠ '%') (rest : List Char) :
    normalizeEscapes (c :: rest) = c :: normalizeEscapes rest := by
  rw [normalizeEscapes]
  · rintro _ _ _ rfl
    exact absurd rfl hc
  · exact hc

/-- A character that begins no escape must be an allowed one. -/
theorem wellFormed_cons (hc : c ≠ '%') {rest : List Char} :
    WellFormed allowed (c :: rest) ↔ allowed c ∧ WellFormed allowed rest := by
  rw [WellFormed]
  · rintro _ _ _ rfl
    exact absurd rfl hc
  · exact hc

/-- An escape has two digits. -/
theorem not_wellFormed_short {rest : List Char}
    (hshort : ∀ high low rest', rest = high :: low :: rest' → False) :
    ¬WellFormed allowed ('%' :: rest) := by
  cases rest with
  | nil => simp [WellFormed]
  | cons high rest =>
    cases rest with
    | nil => simp [WellFormed]
    | cons low rest => exact absurd rfl (hshort high low rest)

/-- After a well-formed part the rest is normalised on its own. -/
theorem normalizeEscapes_append (h : WellFormed allowed cs) (more : List Char) :
    normalizeEscapes (cs ++ more) = normalizeEscapes cs ++ normalizeEscapes more := by
  induction cs using WellFormed.induct with
  | case1 high low rest ih =>
    obtain ⟨hhigh, hlow, hrest⟩ := h
    obtain ⟨x, hx⟩ := Option.isSome_iff_exists.mp hhigh
    obtain ⟨y, hy⟩ := Option.isSome_iff_exists.mp hlow
    simp only [List.cons_append, normalizeEscapes, hx, hy, ih hrest, List.append_assoc]
  | case2 rest hshort => exact absurd h (not_wellFormed_short hshort)
  | case3 c rest _ hc ih =>
    rw [List.cons_append, normalizeEscapes_cons hc, normalizeEscapes_cons hc,
      ih ((wellFormed_cons hc).mp h).2, List.cons_append]
  | case4 => rfl

/-- A text without escapes is normal. -/
theorem normalizeEscapes_eq_self (h : '%' ∉ cs) : normalizeEscapes cs = cs := by
  induction cs with
  | nil => rfl
  | cons c cs ih =>
    obtain ⟨hc, hcs⟩ := not_or.mp (List.mem_cons.not.mp h)
    rw [normalizeEscapes_cons (Ne.symm hc), ih hcs]

/-- Other characters do not occur. -/
theorem WellFormed.not_mem (h : WellFormed allowed cs) (hpercent : c ≠ '%')
    (hhex : hexValue c = none)
    (hc : ¬allowed c) : c ∉ cs := by
  have hdigit (d : Char) (hd : (hexValue d).isSome) : c ≠ d := by
    rintro rfl
    rw [hhex] at hd
    cases hd
  induction cs using WellFormed.induct with
  | case1 high low rest ih =>
    obtain ⟨hhigh, hlow, hrest⟩ := h
    simp only [List.mem_cons, not_or]
    exact ⟨hpercent, hdigit high hhigh, hdigit low hlow, ih hrest⟩
  | case2 rest hshort => exact absurd h (not_wellFormed_short hshort)
  | case3 d rest _ hd ih =>
    obtain ⟨hallowed, hrest⟩ := (wellFormed_cons hd).mp h
    rw [List.mem_cons, not_or]
    refine ⟨?_, ih hrest⟩
    rintro rfl
    exact hc hallowed
  | case4 => exact List.not_mem_nil

/-- A character that belongs to no escape can be left out at the end. -/
theorem WellFormed.of_concat (hhex : hexValue c = none) (h : WellFormed allowed (cs ++ [c])) :
    WellFormed allowed cs := by
  induction cs using WellFormed.induct with
  | case1 high low rest ih => exact ⟨h.1, h.2.1, ih h.2.2⟩
  | case2 rest hshort =>
    cases rest with
    | nil => exact absurd h (by simp [WellFormed])
    | cons high rest =>
      cases rest with
      | nil => exact absurd h (by simp [WellFormed, hhex])
      | cons low rest => exact absurd rfl (hshort high low rest)
  | case3 d rest _ hd ih =>
    obtain ⟨hallowed, hrest⟩ := (wellFormed_cons hd).mp h
    exact (wellFormed_cons hd).mpr ⟨hallowed, ih hrest⟩
  | case4 => trivial

/-! ### Paths -/

/-- The segments that a path stands for, whatever is appended to it. -/
def resolved (path : List Char) : List (List Char) :=
  (resolve ((normalizeEscapes path).splitOn '/')).tail

/-- A path that is empty or begins with a slash. -/
def Rooted (path : List Char) : Prop := ∀ c ∈ path.head?, c = '/'

/-- A rooted path resolves to a rooted one. -/
theorem resolve_rooted {path : List Char} (hroot : Rooted path) :
    resolve ((normalizeEscapes path).splitOn '/') = [] :: resolved path := by
  have hsplit : ∃ rest, (normalizeEscapes path).splitOn '/' = [] :: rest := by
    cases path with
    | nil => exact ⟨[], by simp [normalizeEscapes]⟩
    | cons c path =>
      obtain rfl := hroot c rfl
      rw [normalizeEscapes_cons (by decide), List.splitOn_cons_eq_if_modifyHead]
      exact ⟨_, if_pos (beq_self_eq_true _)⟩
  obtain ⟨segments, hsegments⟩ := hsplit
  obtain ⟨rest, hrest⟩ := resolve_root segments
  rw [resolved, hsegments, hrest, List.tail_cons]

/-- A segment of plain characters. -/
structure Plain (segment : List Char) : Prop where
  ne_nil : segment ≠ []
  not_dot : ¬IsDot segment
  slash : '/' ∉ segment
  percent : '%' ∉ segment

/-- The characters of a joined path are slashes and those of its segments. -/
theorem mem_intercalate {segments : List (List Char)} (hc : c ∈ ['/'].intercalate segments) :
    c = '/' ∨ ∃ s ∈ segments, c ∈ s := by
  induction segments with
  | nil => cases hc
  | cons first rest ih =>
    cases rest with
    | nil =>
      rw [List.intercalate_singleton] at hc
      exact .inr ⟨first, List.mem_cons_self, hc⟩
    | cons second rest =>
      rw [List.intercalate_cons_cons] at hc
      rcases List.mem_append.mp hc with hc | hc
      · rcases List.mem_append.mp hc with hc | hc
        · exact .inr ⟨first, List.mem_cons_self, hc⟩
        · exact .inl (List.mem_singleton.mp hc)
      · exact (ih hc).imp_right fun ⟨s, hs, hmem⟩ => ⟨s, List.mem_cons_of_mem _ hs, hmem⟩

/-- What is appended to a path comes after the segments that it stands for. -/
theorem segmentsOf_append {path : List Char} (hpath : WellFormed allowed path) (hroot : Rooted path)
    {more : List (List Char)} (hne : more ≠ []) (hplain : ∀ s ∈ more, Plain s) :
    segmentsOf (removeDotSegments (normalizeEscapes (path ++ '/' :: ['/'].intercalate more))) =
      resolved path ++ more := by
  have hmore : normalizeEscapes ('/' :: ['/'].intercalate more) =
      '/' :: ['/'].intercalate more := by
    refine normalizeEscapes_eq_self fun hmem => ?_
    rcases List.mem_cons.mp hmem with heq | hmem
    · exact absurd heq (by decide)
    · rcases mem_intercalate hmem with heq | ⟨s, hs, hmem⟩
      · exact absurd heq (by decide)
      · exact (hplain s hs).percent hmem
  have hsplit : (normalizeEscapes path ++ '/' :: ['/'].intercalate more).splitOn '/' =
      (normalizeEscapes path).splitOn '/' ++ more := by
    rw [List.splitOn_append_cons_self,
      List.splitOn_intercalate '/' (fun s hs => (hplain s hs).slash) hne]
  have hlast : ¬∃ s ∈ ((normalizeEscapes path).splitOn '/' ++ more).getLast?, IsDot s := by
    rintro ⟨s, hs, hdot⟩
    rw [List.getLast?_append_of_ne_nil _ hne] at hs
    exact (hplain s (List.mem_of_getLast? hs)).not_dot hdot
  rw [normalizeEscapes_append hpath, hmore, removeDotSegments, hsplit]
  simp only [if_neg hlast]
  rw [resolve_append fun s hs => (hplain s hs).not_dot, resolve_rooted hroot, List.cons_append]
  refine segmentsOf_intercalate (List.append_ne_nil_of_right_ne_nil _ hne) (fun s hs => ?_) ?_
  · rcases List.mem_append.mp hs with hs | hs
    · exact slash_not_mem_resolve (resolve_rooted hroot ▸ List.mem_cons_of_mem _ hs)
    · exact (hplain s hs).slash
  · rintro heq
    obtain ⟨s, hs⟩ := List.exists_mem_of_ne_nil _ hne
    have hnil : s ∈ [[]] := heq ▸ List.mem_append_right _ hs
    exact (hplain s hs).ne_nil (List.mem_singleton.mp hnil)

end Marketplace.Lib.Uri
