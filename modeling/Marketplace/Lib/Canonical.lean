import Mathlib.Data.List.Basic
import Marketplace.Lib.Base64

/-!
# Canonical base64

A text is canonical when it is made of the alphabet's characters, ends in the whole padding
or in none, and leaves no bits over; these are the encodings. The lenient decoder reads more:
it accepts a text by the letters up to the first complete padding, and by nothing else.
-/

namespace Marketplace.Lib.Base64

/-! ### Groups of six bits as bytes -/

/-- The bytes of some groups of six bits. -/
def bytesOf : List ℕ → List UInt8
  | a :: b :: c :: d :: rest =>
    UInt8.ofNat (a * 4 + b / 16) :: UInt8.ofNat (b % 16 * 16 + c / 4) ::
      UInt8.ofNat (c % 4 * 64 + d) :: bytesOf rest
  | [a, b, c] => [UInt8.ofNat (a * 4 + b / 16), UInt8.ofNat (b % 16 * 16 + c / 4)]
  | [a, b] => [UInt8.ofNat (a * 4 + b / 16)]
  | [_] => []
  | [] => []

/-- The bits of the last group that no byte takes. -/
def unusedBits : List ℕ → ℕ
  | _ :: _ :: _ :: _ :: rest => unusedBits rest
  | [_, _, c] => c % 4
  | [_, b] => b % 16
  | [a] => a
  | [] => 0

/-- Feeding the digits yields their bytes. -/
theorem feed_bytesOf (ds : List ℕ) :
    ({} : Quad).feed ds = (bytesOf ds, { pos := ds.length % 4, left := unusedBits ds }) := by
  induction ds using bytesOf.induct with
  | case1 a b c d rest ih =>
    have hlength : (rest.length + 1 + 1 + 1 + 1) % 4 = rest.length % 4 := by omega
    simp only [Quad.feed, Quad.push, ih, bytesOf, unusedBits, List.length_cons, hlength,
      List.nil_append, List.singleton_append]
  | case2 a b c => rfl
  | case3 a b => rfl
  | case4 a => rfl
  | case5 => rfl

/-- Four digits make three bytes. -/
theorem length_bytesOf (ds : List ℕ) : (bytesOf ds).length = ds.length * 3 / 4 := by
  induction ds using bytesOf.induct with
  | case1 a b c d rest ih =>
    simp only [bytesOf, List.length_cons, ih]
    omega
  | case2 a b c => simp [bytesOf]
  | case3 a b => simp [bytesOf]
  | case4 a => simp [bytesOf]
  | case5 => rfl

/-- Groups of six bits that leave none over are the groups of their bytes. -/
theorem sextets_bytesOf {ds : List ℕ} (hds : ∀ d ∈ ds, d < 64) (hunused : unusedBits ds = 0)
    (hlength : ds.length % 4 ≠ 1) : sextets (bytesOf ds) = ds := by
  induction ds using bytesOf.induct with
  | case1 a b c d rest ih =>
    have ha := hds a (by simp)
    have hb := hds b (by simp)
    have hc := hds c (by simp)
    have hd := hds d (by simp)
    have hrest := ih (fun x hx => hds x (by simp [hx])) hunused
      (by simpa [Nat.add_assoc] using hlength)
    simp only [bytesOf, sextets, hrest, UInt8.toNat_ofNat', List.cons.injEq, and_true]
    refine ⟨?_, ?_, ?_, ?_⟩ <;> omega
  | case2 a b c =>
    have ha := hds a (by simp)
    have hb := hds b (by simp)
    have hc := hds c (by simp)
    have hzero : c % 4 = 0 := hunused
    simp only [bytesOf, sextets, UInt8.toNat_ofNat', List.cons.injEq, and_true]
    refine ⟨?_, ?_, ?_⟩ <;> omega
  | case3 a b =>
    have ha := hds a (by simp)
    have hb := hds b (by simp)
    have hzero : b % 16 = 0 := hunused
    simp only [bytesOf, sextets, UInt8.toNat_ofNat', List.cons.injEq, and_true]
    constructor <;> omega
  | case4 a => exact absurd rfl hlength
  | case5 => rfl

/-- The encoder never leaves a single digit over. -/
theorem length_sextets_mod (bytes : List UInt8) : (sextets bytes).length % 4 ≠ 1 := by
  have h := sextets_length bytes
  have hpad : padLength bytes < 3 := Nat.mod_lt _ (by omega)
  omega

/-- The encoder leaves the unused bits zero. -/
theorem unusedBits_sextets (bytes : List UInt8) : unusedBits (sextets bytes) = 0 := by
  have hfeed := feed_sextets bytes
  rw [feed_bytesOf] at hfeed
  exact congrArg (fun r => r.2.left) hfeed

/-- The digits of the bytes make the bytes again. -/
theorem bytesOf_sextets (bytes : List UInt8) : bytesOf (sextets bytes) = bytes := by
  have hfeed := feed_sextets bytes
  rw [feed_bytesOf] at hfeed
  exact congrArg Prod.fst hfeed

/-! ### Canonical texts -/

/-- The padding that completes the last group of four characters. -/
def fullPadding (n : ℕ) : ℕ := (4 - n % 4) % 4

/-- Only characters of the alphabet, then the whole padding or none, and no bits left over. -/
def Canonical (alphabet : Alphabet) (cs : List Char) : Prop :=
  ∃ ds pads, (∀ d ∈ ds, d < 64) ∧ cs = ds.map alphabet.char ++ List.replicate pads '=' ∧
    (pads = 0 ∨ pads = fullPadding ds.length) ∧ unusedBits ds = 0

/-- An encoding of some bytes, with or without its padding. -/
def EncodingOf (alphabet : Alphabet) (bytes : List UInt8) (cs : List Char) : Prop :=
  cs = encodeBare alphabet bytes ∨ cs = encode alphabet bytes

/-- The encoder's padding is the full padding. -/
theorem padLength_eq_fullPadding (bytes : List UInt8) :
    padLength bytes = fullPadding (sextets bytes).length := by
  have h := sextets_length bytes
  have hpad : padLength bytes < 3 := Nat.mod_lt _ (by omega)
  unfold fullPadding
  omega

/-- An encoding is canonical. -/
theorem EncodingOf.canonical {alphabet : Alphabet} {bytes : List UInt8} {cs : List Char}
    (h : EncodingOf alphabet bytes cs) : Canonical alphabet cs := by
  rcases h with rfl | rfl
  · exact ⟨sextets bytes, 0, sextets_lt bytes, (List.append_nil _).symm, .inl rfl,
      unusedBits_sextets bytes⟩
  · exact ⟨sextets bytes, padLength bytes, sextets_lt bytes, rfl,
      .inr (padLength_eq_fullPadding bytes), unusedBits_sextets bytes⟩

/-- The lenient decoder reads a canonical text, padded, unless one character is left over. -/
theorem decodeLenient_canonical {alphabet : Alphabet} (hknown : alphabet.Known) {ds : List ℕ}
    (hds : ∀ d ∈ ds, d < 64) :
    decodeLenient {} 0 (ds.map alphabet.char ++ List.replicate (fullPadding ds.length) '=') =
      if ds.length % 4 = 1 then none else some (bytesOf ds) := by
  rw [decodeLenient_map hknown hds, feed_bytesOf]
  have hmod : ds.length % 4 < 4 := Nat.mod_lt _ (by omega)
  unfold fullPadding
  interval_cases h : ds.length % 4 <;> simp [decodeLenient, List.replicate]

/-! ### What the lenient decoder reads -/

/-- The characters that the decoder knows, of either alphabet. -/
def letterCount (cs : List Char) : ℕ := cs.countP fun c => (sextet c).isSome

/-- The padding characters since the last letter. -/
def padsAfter (cs : List Char) : ℕ :=
  (cs.reverse.takeWhile fun c => (sextet c).isNone).countP (· = '=')

/-- The text ends in the complete padding of a group. -/
def Closed (cs : List Char) : Prop :=
  2 ≤ letterCount cs % 4 ∧ 4 ≤ letterCount cs % 4 + padsAfter cs

instance (cs : List Char) : Decidable (Closed cs) := inferInstanceAs (Decidable (_ ∧ _))

/-- The part of a text that the decoder reads, after a part that it has read: up to the first
complete padding. -/
def window (before : List Char) : List Char → List Char
  | [] => before
  | c :: cs => if Closed (before ++ [c]) then before ++ [c] else window (before ++ [c]) cs

/-- The decoder accepts a text whose part that it reads ends in a complete padding, or in a
complete group. -/
def Readable (cs : List Char) : Prop :=
  Closed (window [] cs) ∨ letterCount (window [] cs) % 4 = 0

instance (cs : List Char) : Decidable (Readable cs) := inferInstanceAs (Decidable (_ ∨ _))

/-- The window ends at the character that closes it. -/
theorem window_of_closed {before : List Char} {c : Char} (cs : List Char)
    (h : Closed (before ++ [c])) : window before (c :: cs) = before ++ [c] := if_pos h

/-- The window goes on while nothing closes it. -/
theorem window_of_not_closed {before : List Char} {c : Char} (cs : List Char)
    (h : ¬Closed (before ++ [c])) : window before (c :: cs) = window (before ++ [c]) cs := if_neg h

/-- The pad is no letter. -/
theorem sextet_pad : sextet '=' = none := by decide

/-- A pad at the end is one more pad. -/
theorem padsAfter_pad (cs : List Char) : padsAfter (cs ++ ['=']) = padsAfter cs + 1 := by
  simp [padsAfter, sextet_pad]

/-- After a letter there is no pad yet. -/
theorem padsAfter_letter (cs : List Char) {c : Char} {d : ℕ} (h : sextet c = some d) :
    padsAfter (cs ++ [c]) = 0 := by
  simp [padsAfter, h]

/-- A character outside the alphabet counts neither way. -/
theorem padsAfter_other (cs : List Char) {c : Char} (h : sextet c = none) (hc : c ≠ '=') :
    padsAfter (cs ++ [c]) = padsAfter cs := by
  simp [padsAfter, h, hc]

/-- A state of the decoder after a text that has not been closed. -/
structure Quad.After (q : Quad) (pads : ℕ) (before : List Char) : Prop where
  pos : q.pos = letterCount before % 4
  pads : 2 ≤ q.pos → pads = padsAfter before
  notClosed : ¬Closed before

/-- One more digit yields the bytes that it completes. -/
theorem length_push (q : Quad) (n d : ℕ) (h : q.pos = n % 4) :
    n * 3 / 4 + (q.push d).1.length = (n + 1) * 3 / 4 ∧ (q.push d).2.pos = (n + 1) % 4 := by
  have hmod : n % 4 < 4 := Nat.mod_lt _ (by omega)
  unfold Quad.push
  rw [h]
  interval_cases hn : n % 4
  · constructor
    · simp only [List.length_nil]
      omega
    · change 1 = _
      omega
  · constructor
    · simp only [List.length_singleton]
      omega
    · change 2 = _
      omega
  · constructor
    · simp only [List.length_singleton]
      omega
    · change 3 = _
      omega
  · constructor
    · simp only [List.length_singleton]
      omega
    · change 0 = _
      omega

/-- The decoder accepts by what it reads, and emits three bytes for four letters. -/
theorem length_decodeLenient {q : Quad} {pads : ℕ} {before : List Char} (cs : List Char)
    (h : q.After pads before) :
    (decodeLenient q pads cs).map (fun out => letterCount before * 3 / 4 + out.length) =
      if Closed (window before cs) ∨ letterCount (window before cs) % 4 = 0 then
        some (letterCount (window before cs) * 3 / 4)
      else none := by
  induction cs generalizing q pads before with
  | nil =>
    simp only [decodeLenient, window, h.notClosed, false_or, ← h.pos]
    split <;> simp
  | cons c cs ih =>
    rw [decodeLenient]
    by_cases hpad : c = '='
    · subst hpad
      have hcount : letterCount (before ++ ['=']) = letterCount before := by
        simp [letterCount, sextet_pad]
      have hclosed : Closed (before ++ ['=']) ↔ 2 ≤ q.pos ∧ 4 ≤ q.pos + (pads + 1) := by
        rw [Closed, hcount, padsAfter_pad, ← h.pos]
        constructor
        · rintro ⟨htwo, hfour⟩
          exact ⟨htwo, h.pads htwo ▸ hfour⟩
        · rintro ⟨htwo, hfour⟩
          exact ⟨htwo, h.pads htwo ▸ hfour⟩
      rw [if_pos rfl]
      by_cases hc : 2 ≤ q.pos ∧ 4 ≤ q.pos + (pads + 1)
      · have hwindow := window_of_closed cs (hclosed.mpr hc)
        rw [if_pos hc, hwindow, if_pos (.inl (hclosed.mpr hc)), hcount]
        simp
      · rw [if_neg hc, window_of_not_closed cs fun hcl => hc (hclosed.mp hcl)]
        have hafter : q.After (if 2 ≤ q.pos then pads + 1 else pads) (before ++ ['=']) := by
          refine ⟨by rw [hcount, h.pos], fun htwo => ?_, fun hcl => hc (hclosed.mp hcl)⟩
          rw [if_pos htwo, padsAfter_pad, h.pads htwo]
        have hrest := ih hafter
        rwa [hcount] at hrest
    · rw [if_neg hpad]
      cases hd : sextet c with
      | none =>
        have hcount : letterCount (before ++ [c]) = letterCount before := by
          simp [letterCount, hd]
        have hpads := padsAfter_other before hd hpad
        have hclosed : ¬Closed (before ++ [c]) := by
          rw [Closed, hcount, hpads]
          exact h.notClosed
        have hafter : q.After pads (before ++ [c]) :=
          ⟨hcount ▸ h.pos, fun htwo => hpads ▸ h.pads htwo, hclosed⟩
        have hrest := ih hafter
        rw [window_of_not_closed cs hclosed]
        rwa [hcount] at hrest
      | some d =>
        have hcount : letterCount (before ++ [c]) = letterCount before + 1 := by
          simp [letterCount, hd]
        have hpads := padsAfter_letter before hd
        have hmod : (letterCount before + 1) % 4 < 4 := Nat.mod_lt _ (by omega)
        have hclosed : ¬Closed (before ++ [c]) := by
          rw [Closed, hcount, hpads]
          omega
        obtain ⟨hlength, hpos⟩ := length_push q (letterCount before) d h.pos
        have hafter : (q.push d).2.After 0 (before ++ [c]) :=
          ⟨hcount ▸ hpos, fun _ => hpads.symm, hclosed⟩
        have hrest := ih hafter
        rw [window_of_not_closed cs hclosed, ← hrest, Option.map_map, hcount, ← hlength]
        congr 1
        funext out
        simp only [Function.comp_apply, List.length_append]
        omega

/-- How many bytes the decoder emits, when it accepts the text. -/
theorem decodeLenient_length (cs : List Char) :
    (decodeLenient {} 0 cs).map (fun out => out.length) =
      if Readable cs then some (letterCount (window [] cs) * 3 / 4) else none := by
  have hstart : ({} : Quad).After 0 [] := by
    refine ⟨rfl, fun h => ?_, by decide⟩
    rfl
  have h := length_decodeLenient cs hstart
  have hzero : letterCount [] * 3 / 4 = 0 := rfl
  simp only [hzero, Nat.zero_add] at h
  exact h

/-- The decoder accepts a text, of so many bytes, exactly when it is readable. -/
theorem decodeLenient_some_iff (cs : List Char) (p : ℕ → Prop) :
    (∃ out, decodeLenient {} 0 cs = some out ∧ p out.length) ↔
      Readable cs ∧ p (letterCount (window [] cs) * 3 / 4) := by
  have h := decodeLenient_length cs
  cases hdecode : decodeLenient {} 0 cs with
  | none =>
    rw [hdecode] at h
    by_cases hread : Readable cs
    · simp [hread] at h
    · simp [hread]
  | some out =>
    rw [hdecode] at h
    by_cases hread : Readable cs
    · simp only [Option.map_some, hread, if_true, Option.some.injEq] at h
      simp [hread, h]
    · simp [hread] at h

end Marketplace.Lib.Base64
