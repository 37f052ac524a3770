import Mathlib.Tactic.IntervalCases

/-!
# Base64

The two alphabets, the encoding of bytes with and without its padding, and two decoders:
one that skips what it does not know, and one that insists on the padding. Both recover
the bytes of a padded encoding; the strict one refuses an encoding without its padding.
-/

namespace Marketplace.Lib.Base64

/-! ### Alphabets -/

/-- The characters for 62 and 63. -/
structure Alphabet where
  plus : Char
  slash : Char

/-- The alphabet with `+` and `/`. -/
def standard : Alphabet := { plus := '+', slash := '/' }

/-- The alphabet with `-` and `_`. -/
def urlSafe : Alphabet := { plus := '-', slash := '_' }

/-- The character for six bits. -/
def Alphabet.char (alphabet : Alphabet) (n : ℕ) : Char :=
  if n < 26 then Char.ofNat (65 + n)
  else if n < 52 then Char.ofNat (97 + (n - 26))
  else if n < 62 then Char.ofNat (48 + (n - 52))
  else if n = 62 then alphabet.plus
  else alphabet.slash

/-- The six bits of a character of either alphabet. -/
def sextet (c : Char) : Option ℕ :=
  let n := c.toNat
  if 65 ≤ n ∧ n ≤ 90 then some (n - 65)
  else if 97 ≤ n ∧ n ≤ 122 then some (n - 97 + 26)
  else if 48 ≤ n ∧ n ≤ 57 then some (n - 48 + 52)
  else if c = '+' ∨ c = '-' then some 62
  else if c = '/' ∨ c = '_' then some 63
  else none

/-- The standard alphabet reads back its own letters. -/
theorem sextet_char_standard : ∀ n < 64, sextet (standard.char n) = some n := by decide

/-- The URL-safe alphabet reads back its own letters. -/
theorem sextet_char_urlSafe : ∀ n < 64, sextet (urlSafe.char n) = some n := by decide

/-! ### Encoding -/

/-- The groups of six bits of some bytes; the last group is filled with zeros. -/
def sextets : List UInt8 → List ℕ
  | a :: b :: c :: rest =>
    a.toNat / 4 :: (a.toNat % 4 * 16 + b.toNat / 16) :: (b.toNat % 16 * 4 + c.toNat / 64) ::
      c.toNat % 64 :: sextets rest
  | [a, b] => [a.toNat / 4, a.toNat % 4 * 16 + b.toNat / 16, b.toNat % 16 * 4]
  | [a] => [a.toNat / 4, a.toNat % 4 * 16]
  | [] => []

/-- The padding characters that complete the last group of four. -/
def padLength (bytes : List UInt8) : ℕ := (3 - bytes.length % 3) % 3

/-- An encoding without its padding. -/
def encodeBare (alphabet : Alphabet) (bytes : List UInt8) : List Char :=
  (sextets bytes).map alphabet.char

/-- An encoding. -/
def encode (alphabet : Alphabet) (bytes : List UInt8) : List Char :=
  encodeBare alphabet bytes ++ List.replicate (padLength bytes) '='

/-! ### Decoding -/

/-- What a decoder holds between two characters: its place in the group of four and the
bits it has not emitted. -/
structure Quad where
  pos : ℕ := 0
  left : ℕ := 0

/-- The next six bits, and the byte they complete. -/
def Quad.push (q : Quad) (d : ℕ) : List UInt8 × Quad :=
  match q.pos with
  | 0 => ([], { pos := 1, left := d })
  | 1 => ([UInt8.ofNat (q.left * 4 + d / 16)], { pos := 2, left := d % 16 })
  | 2 => ([UInt8.ofNat (q.left * 16 + d / 4)], { pos := 3, left := d % 4 })
  | _ => ([UInt8.ofNat (q.left * 64 + d)], {})

/-- Some groups of six bits in turn. -/
def Quad.feed (q : Quad) : List ℕ → List UInt8 × Quad
  | [] => ([], q)
  | d :: ds =>
    let (out, q') := q.push d
    let (rest, q'') := q'.feed ds
    (out ++ rest, q'')

/-- The lenient decoder: it skips the characters it does not know, and stops at the
padding of a group. `pads` counts the padding characters since the last group. -/
def decodeLenient (q : Quad) (pads : ℕ) : List Char → Option (List UInt8)
  | [] => if q.pos = 0 then some [] else none
  | c :: cs =>
    if c = '=' then
      if 2 ≤ q.pos ∧ 4 ≤ q.pos + (pads + 1) then some []
      else decodeLenient q (if 2 ≤ q.pos then pads + 1 else pads) cs
    else
      match sextet c with
      | none => decodeLenient q pads cs
      | some d => (decodeLenient (q.push d).2 0 cs).map ((q.push d).1 ++ ·)

/-- Exactly so many padding characters, each of which may be percent-encoded. -/
def isPadding : ℕ → List Char → Bool
  | 0, [] => true
  | n + 1, '=' :: cs => isPadding n cs
  | n + 1, '%' :: '3' :: 'D' :: cs => isPadding n cs
  | n + 1, '%' :: '3' :: 'd' :: cs => isPadding n cs
  | _, _ => false

/-- The strict decoder: every character counts, and the last group is complete. -/
def decodeStrict (q : Quad) : List Char → Option (List UInt8)
  | [] => if q.pos = 0 then some [] else none
  | c :: cs =>
    match sextet c with
    | none =>
      if 2 ≤ q.pos ∧ q.left = 0 ∧ isPadding (4 - q.pos) (c :: cs) = true then some [] else none
    | some d => (decodeStrict (q.push d).2 cs).map ((q.push d).1 ++ ·)

/-! ### Round trips -/

/-- An alphabet whose characters the decoders know. -/
def Alphabet.Known (alphabet : Alphabet) : Prop :=
  ∀ n < 64, sextet (alphabet.char n) = some n

/-- The decoder knows the standard alphabet. -/
theorem standard_known : standard.Known := sextet_char_standard

/-- The decoder knows the URL-safe alphabet. -/
theorem urlSafe_known : urlSafe.Known := sextet_char_urlSafe

/-- The encoder's digits are sextets. -/
theorem sextets_lt (bytes : List UInt8) : ∀ n ∈ sextets bytes, n < 64 := by
  induction bytes using sextets.induct with
  | case1 a b c rest ih =>
    have ha := a.toNat_lt
    have hb := b.toNat_lt
    have hc := c.toNat_lt
    simp only [sextets, List.mem_cons]
    rintro n (rfl | rfl | rfl | rfl | hn)
    · omega
    · omega
    · omega
    · omega
    · exact ih n hn
  | case2 a b =>
    have ha := a.toNat_lt
    have hb := b.toNat_lt
    simp only [sextets, List.mem_cons, List.not_mem_nil, or_false]
    rintro n (rfl | rfl | rfl) <;> omega
  | case3 a =>
    have ha := a.toNat_lt
    simp only [sextets, List.mem_cons, List.not_mem_nil, or_false]
    rintro n (rfl | rfl) <;> omega
  | case4 => simp [sextets]

/-- The digits and the padding make whole quads. -/
theorem sextets_length (bytes : List UInt8) :
    (sextets bytes).length + padLength bytes = 4 * ((bytes.length + 2) / 3) := by
  induction bytes using sextets.induct with
  | case1 a b c rest ih =>
    simp only [sextets, List.length_cons, padLength] at ih ⊢
    omega
  | case2 a b => simp [sextets, padLength]
  | case3 a => simp [sextets, padLength]
  | case4 => simp [sextets, padLength]

/-- Feeding the groups of some bytes emits these bytes; what is left is zero, and the place
in the group says how many bytes the last group lacks. -/
theorem feed_sextets (bytes : List UInt8) :
    ({} : Quad).feed (sextets bytes) =
      (bytes, { pos := (4 - padLength bytes) % 4, left := 0 }) := by
  have byte_eq (a : UInt8) {n : ℕ} (h : n = a.toNat) : UInt8.ofNat n = a := by
    rw [h, UInt8.ofNat_toNat]
  induction bytes using sextets.induct with
  | case1 a b c rest ih =>
    have ha := a.toNat_lt
    have hb := b.toNat_lt
    have hc := c.toNat_lt
    have hpad : padLength (a :: b :: c :: rest) = padLength rest := by
      simp only [padLength, List.length_cons]
      omega
    rw [hpad]
    have h1 := byte_eq a (n := a.toNat / 4 * 4 + (a.toNat % 4 * 16 + b.toNat / 16) / 16)
      (by omega)
    have h2 := byte_eq b
      (n := (a.toNat % 4 * 16 + b.toNat / 16) % 16 * 16 + (b.toNat % 16 * 4 + c.toNat / 64) / 4)
      (by omega)
    have h3 := byte_eq c (n := (b.toNat % 16 * 4 + c.toNat / 64) % 4 * 64 + c.toNat % 64)
      (by omega)
    simp only [sextets, Quad.feed, Quad.push, ih, h1, h2, h3, List.nil_append,
      List.singleton_append]
  | case2 a b =>
    have ha := a.toNat_lt
    have hb := b.toNat_lt
    have h1 := byte_eq a (n := a.toNat / 4 * 4 + (a.toNat % 4 * 16 + b.toNat / 16) / 16)
      (by omega)
    have h2 := byte_eq b
      (n := (a.toNat % 4 * 16 + b.toNat / 16) % 16 * 16 + b.toNat % 16 * 4 / 4) (by omega)
    have h3 : b.toNat % 16 * 4 % 4 = 0 := by omega
    simp only [sextets, Quad.feed, Quad.push, h1, h2, h3, padLength, List.length_cons,
      List.length_nil, List.nil_append, List.singleton_append, List.append_nil]
  | case3 a =>
    have ha := a.toNat_lt
    have h1 := byte_eq a (n := a.toNat / 4 * 4 + a.toNat % 4 * 16 / 16) (by omega)
    have h2 : a.toNat % 4 * 16 % 16 = 0 := by omega
    simp only [sextets, Quad.feed, Quad.push, h1, h2, padLength, List.length_cons,
      List.length_nil, List.nil_append, List.append_nil]
  | case4 => simp [sextets, Quad.feed, padLength]

section Known

variable {alphabet : Alphabet}

/-- No letter of a known alphabet is the pad. -/
theorem char_ne_pad (hknown : alphabet.Known) {n : ℕ} (hn : n < 64) : alphabet.char n ≠ '=' := by
  intro heq
  have h := hknown n hn
  rw [heq] at h
  simp [sextet] at h

/-- The lenient decoder feeds the letters to the quad. -/
theorem decodeLenient_map (hknown : alphabet.Known) {ds : List ℕ} (hds : ∀ d ∈ ds, d < 64)
    (q : Quad) (tail : List Char) :
    decodeLenient q 0 (ds.map alphabet.char ++ tail) =
      (decodeLenient (q.feed ds).2 0 tail).map ((q.feed ds).1 ++ ·) := by
  induction ds generalizing q with
  | nil => simp [Quad.feed]
  | cons d ds ih =>
    have hd : d < 64 := hds d List.mem_cons_self
    have hrest := ih (fun x hx => hds x (List.mem_cons_of_mem _ hx)) (q.push d).2
    simp only [List.map_cons, List.cons_append, decodeLenient]
    rw [if_neg (char_ne_pad hknown hd), hknown d hd]
    simp only [hrest, Option.map_map, Quad.feed]
    congr 1
    funext rest
    simp

/-- The strict decoder feeds the letters to the quad. -/
theorem decodeStrict_map (hknown : alphabet.Known) {ds : List ℕ} (hds : ∀ d ∈ ds, d < 64)
    (q : Quad) (tail : List Char) :
    decodeStrict q (ds.map alphabet.char ++ tail) =
      (decodeStrict (q.feed ds).2 tail).map ((q.feed ds).1 ++ ·) := by
  induction ds generalizing q with
  | nil => simp [Quad.feed]
  | cons d ds ih =>
    have hd : d < 64 := hds d List.mem_cons_self
    have hrest := ih (fun x hx => hds x (List.mem_cons_of_mem _ hx)) (q.push d).2
    simp only [List.map_cons, List.cons_append, decodeStrict, hknown d hd, hrest,
      Option.map_map, Quad.feed]
    congr 1
    funext rest
    simp

/-- The lenient decoder recovers the bytes of an encoding. -/
theorem decodeLenient_encode (hknown : alphabet.Known) (bytes : List UInt8) :
    decodeLenient {} 0 (encode alphabet bytes) = some bytes := by
  rw [encode, encodeBare, decodeLenient_map hknown (sextets_lt bytes), feed_sextets]
  have hpad : padLength bytes < 3 := Nat.mod_lt _ (by omega)
  interval_cases h : padLength bytes <;> simp [decodeLenient, List.replicate]

/-- The strict decoder recovers the bytes of an encoding. -/
theorem decodeStrict_encode (hknown : alphabet.Known) (bytes : List UInt8) :
    decodeStrict {} (encode alphabet bytes) = some bytes := by
  rw [encode, encodeBare, decodeStrict_map hknown (sextets_lt bytes), feed_sextets]
  have hpad : padLength bytes < 3 := Nat.mod_lt _ (by omega)
  interval_cases h : padLength bytes <;> simp [decodeStrict, isPadding, sextet, List.replicate]

/-- Without its padding, the strict decoder reads an encoding exactly when there is nothing
to pad. -/
theorem decodeStrict_encodeBare (hknown : alphabet.Known) (bytes : List UInt8) :
    decodeStrict {} (encodeBare alphabet bytes) =
      if padLength bytes = 0 then some bytes else none := by
  have h := decodeStrict_map hknown (sextets_lt bytes) {} []
  rw [List.append_nil] at h
  rw [encodeBare, h, feed_sextets]
  have hpad : padLength bytes < 3 := Nat.mod_lt _ (by omega)
  interval_cases h : padLength bytes <;> simp [decodeStrict]

end Known

end Marketplace.Lib.Base64
