import OriginDB.Lib.Base64
import OriginDB.Lib.JsonGrammar
import OriginDB.Lib.Utf16
import OriginDB.Wasm.HostBase64
/-!
# Base64 of the guest SDK (`src/sdk/typescript/assembly/index.ts:657-716`), and the host's

The guest's encoder has a loop for the whole groups and two endings, each with its own padding. Its decoder strips padding,
passes over what is no character, and shifts groups of six bits into a word of 32, out of whose low end it takes a byte as
soon as there are eight bits; the bits above are never masked, and leave the word at the top. Both are `Base64.text` and
`Base64.ofSextets` of the library, as the host's are.

The length of the bytes is `(len * 3) / 4` in 32 signed bits: from 2²⁹ bytes on it may be negative, and there is no array of
such a length. The limits of the guest's memory are not modelled.
-/
namespace OriginDB.Sdk

open ByteCodec JsonGrammar

def b64Alphabet : Units :=
  "ABCDEFGHIJKLMNOPQRSTUVWXYZabcdefghijklmnopqrstuvwxyz0123456789+/".toList.map fun c => UInt16.ofNat c.toNat

/-- `B64_ALPHABET.charAt(i)`. -/
def charAt (i : UInt32) : Units := b64Alphabet[i.toNat]?.toList

/-! ## The encoder -/

/-- The loop of `base64Encode`: the text of the whole groups, and what is left. -/
def encodeLoop (out : Units) : Bytes → Units × Bytes
  | a :: b :: c :: rest =>
    let x : UInt32 := a.toUInt32 <<< 16 ||| (b.toUInt32 <<< (8 : UInt32)) ||| c.toUInt32
    encodeLoop (out ++ charAt ((x >>> 18) &&& 63) ++ charAt ((x >>> 12) &&& 63) ++ charAt ((x >>> 6) &&& 63) ++ charAt (x &&& 63))
      rest
  | rest => (out, rest)

/-- What the one or two bytes that are left add. -/
def ending (out : Units) : Bytes → Units
  | [a] =>
    let x : UInt32 := a.toUInt32 <<< 16
    out ++ charAt ((x >>> 18) &&& 63) ++ charAt ((x >>> 12) &&& 63) ++ [0x3d, 0x3d]
  | [a, b] =>
    let x : UInt32 := a.toUInt32 <<< 16 ||| (b.toUInt32 <<< (8 : UInt32))
    out ++ charAt ((x >>> 18) &&& 63) ++ charAt ((x >>> 12) &&& 63) ++ charAt ((x >>> 6) &&& 63) ++ [0x3d]
  | _ => out

/-- `base64Encode` (`:663`). -/
def base64Encode (bytes : Bytes) : Units :=
  let (out, rest) := encodeLoop [] bytes
  ending out rest

/-! ## The decoder -/

/-- The value of a character, `-1` where it has none. -/
def digit (c : UInt16) : Int :=
  if 0x41 ≤ c ∧ c ≤ 0x5a then c.toNat - 0x41
  else if 0x61 ≤ c ∧ c ≤ 0x7a then c.toNat - 0x61 + 26
  else if 0x30 ≤ c ∧ c ≤ 0x39 then c.toNat - 0x30 + 52
  else if c = 0x2b then 62
  else if c = 0x2f then 63
  else -1

/-- `len`, once the padding is stripped. -/
def strip (s : Units) : Nat → Nat
  | 0 => 0
  | len + 1 => if s[len]? = some 0x3d then strip s len else len + 1

/-- The variables of the loop; `out` is what has been written of the array, whose length is `outLen`. -/
structure Decoder where
  acc : UInt32 := 0
  bits : Nat := 0
  out : Bytes := []

/-- A round of the loop with a character that has a value. -/
def Decoder.take (outLen : Nat) (p : Decoder) (d : UInt32) : Decoder :=
  let acc := (p.acc <<< 6) ||| d
  let bits := p.bits + 6
  if 8 ≤ bits then
    { acc, bits := bits - 8
      out := if p.out.length < outLen then p.out ++ [((acc >>> UInt32.ofNat (bits - 8)) &&& 0xff).toUInt8] else p.out }
  else { p with acc, bits }

def Decoder.step (outLen : Nat) (p : Decoder) (c : UInt16) : Decoder :=
  if digit c = -1 then p else p.take outLen (UInt32.ofNat (digit c).toNat)

/-- `(len * 3) / 4`, of type `i32`. -/
def outLength (len : Nat) : Int := (Int.bmod (len * 3) (2 ^ 32)).tdiv 4

/-- `base64Decode` (`:691`); `none` is the exception of `new Uint8Array` on a length below zero. What is not written is zero. -/
def base64Decode (s : Units) : Option Bytes :=
  let len := strip s s.length
  let outLen := outLength len
  if outLen < 0 then none
  else
    let out := ((s.take len).foldl (Decoder.step outLen.toNat) {}).out
    some (out ++ List.replicate (outLen.toNat - out.length) 0)

/-! ## The texts -/

def sdkAlphabet : Base64.Alphabet UInt16 where
  char n := b64Alphabet[n]?.getD 0
  value c := if digit c = -1 then none else some (digit c).toNat
  pad := 0x3d
  value_char := by decide +kernel
  value_pad := rfl

@[simp] theorem sdkAlphabet_pad : sdkAlphabet.pad = 0x3d := rfl

theorem charAt_eq {i : UInt32} {n : Nat} (h : i.toNat = n) (hn : n < 64) : charAt i = [sdkAlphabet.char n] := by
  have hlength : b64Alphabet.length = 64 := rfl
  have hget : b64Alphabet[n]? = some (b64Alphabet[n]) := List.getElem?_eq_getElem (by omega)
  have hchar : sdkAlphabet.char n = b64Alphabet[n]?.getD 0 := rfl
  rw [charAt, h, hchar, hget]
  rfl

/-- The four characters of a word. -/
theorem charAt_word (a b c : UInt8) : charAt ((Base64.word a b c >>> 18) &&& 63) = [sdkAlphabet.char (a.toNat / 4)] ∧
    charAt ((Base64.word a b c >>> 12) &&& 63) = [sdkAlphabet.char (a.toNat % 4 * 16 + b.toNat / 16)] ∧
    charAt ((Base64.word a b c >>> 6) &&& 63) = [sdkAlphabet.char (b.toNat % 16 * 4 + c.toNat / 64)] ∧
    charAt (Base64.word a b c &&& 63) = [sdkAlphabet.char (c.toNat % 64)] := by
  have ha := a.toNat_lt
  have hb := b.toNat_lt
  have hc := c.toNat_lt
  obtain ⟨hfirst, hsecond, hthird, hfourth⟩ := Base64.groups_word a b c
  exact ⟨charAt_eq hfirst (by omega), charAt_eq hsecond (by omega), charAt_eq hthird (by omega), charAt_eq hfourth (by omega)⟩

theorem ending_encodeLoop (out : Units) (s : Bytes) :
    ending (encodeLoop out s).1 (encodeLoop out s).2 = out ++ Base64.text sdkAlphabet s := by
  fun_induction Base64.text sdkAlphabet s generalizing out with
  | case1 => exact (List.append_nil out).symm
  | case2 a =>
    have hword : a.toUInt32 <<< 16 = Base64.word a 0 0 := by simp [Base64.word]
    obtain ⟨hfirst, hsecond, -, -⟩ := charAt_word a 0 0
    simp only [encodeLoop, ending, hword, hfirst, hsecond, List.append_assoc]
    rfl
  | case3 a b =>
    have hword : a.toUInt32 <<< 16 ||| (b.toUInt32 <<< (8 : UInt32)) = Base64.word a b 0 := by simp [Base64.word]
    obtain ⟨hfirst, hsecond, hthird, -⟩ := charAt_word a b 0
    simp only [encodeLoop, ending, hword, hfirst, hsecond, hthird, List.append_assoc]
    rfl
  | case4 a b c rest ih =>
    have hword : a.toUInt32 <<< 16 ||| (b.toUInt32 <<< (8 : UInt32)) ||| c.toUInt32 = Base64.word a b c := rfl
    obtain ⟨hfirst, hsecond, hthird, hfourth⟩ := charAt_word a b c
    simp only [encodeLoop, hword, hfirst, hsecond, hthird, hfourth, ih, List.append_assoc]
    rfl

theorem base64Encode_eq_text (s : Bytes) : base64Encode s = Base64.text sdkAlphabet s := ending_encodeLoop [] s

/-! ## What the loop of the decoder writes -/

section
variable {outLen : Nat} {p : Decoder} {d n : Nat}

theorem toNat_push (acc : UInt32) (hd : d < 64) : ((acc <<< 6) ||| UInt32.ofNat d).toNat = (acc.toNat * 64 + d) % 2 ^ 32 := by
  have hacc := acc.toNat_lt
  have hdigit : (UInt32.ofNat d).toNat = d := UInt32.toNat_ofNat_of_lt' (show d < 2 ^ 32 by omega)
  have hshift : acc.toNat <<< ((6 : UInt32).toNat % 32) % 2 ^ 32 = (acc.toNat % 2 ^ 26) <<< 6 := by
    show acc.toNat <<< 6 % 2 ^ 32 = _
    rw [Nat.shiftLeft_eq, Nat.shiftLeft_eq]
    omega
  rw [UInt32.toNat_or, UInt32.toNat_shiftLeft, hshift, hdigit, ← Nat.shiftLeft_add_eq_or_of_lt (show d < 2 ^ 6 from hd),
    Nat.shiftLeft_eq]
  omega

/-- The byte at the low end of the word, above `k` bits. -/
theorem emitted_eq (acc : UInt32) {k : Nat} (hk : k < 32) :
    ((acc >>> UInt32.ofNat k) &&& 0xff).toUInt8 = UInt8.ofNat (acc.toNat / 2 ^ k) := by
  have hamount : (UInt32.ofNat k).toNat = k := UInt32.toNat_ofNat_of_lt' (show k < 2 ^ 32 by omega)
  have hmask : ∀ i : UInt32, (i &&& 0xff).toNat = i.toNat % 256 := fun i => by
    rw [UInt32.toNat_and]
    exact Nat.and_two_pow_sub_one_eq_mod i.toNat 8
  rw [← UInt8.toNat_inj, UInt32.toNat_toUInt8, hmask, UInt32.toNat_shiftRight, hamount, Nat.mod_eq_of_lt hk,
    Nat.shiftRight_eq_div_pow, UInt8.toNat_ofNat']
  omega

theorem step_char (hn : n < 64) : p.step outLen (sdkAlphabet.char n) = p.take outLen (UInt32.ofNat n) := by
  have hvalue := sdkAlphabet.value_char n hn
  have hdigit : digit (sdkAlphabet.char n) ≠ -1 ∧ (digit (sdkAlphabet.char n)).toNat = n := by
    by_cases h : digit (sdkAlphabet.char n) = -1
    · have hnone : sdkAlphabet.value (sdkAlphabet.char n) = none := if_pos h
      rw [hnone] at hvalue
      cases hvalue
    · have hsome : sdkAlphabet.value (sdkAlphabet.char n) = some (digit (sdkAlphabet.char n)).toNat := if_neg h
      rw [hsome] at hvalue
      exact ⟨h, Option.some.inj hvalue⟩
  rw [Decoder.step, if_neg hdigit.1, hdigit.2]

def push (acc : UInt32) (d : Nat) : UInt32 := (acc <<< 6) ||| UInt32.ofNat d

theorem toNat_push_push (acc : UInt32) {c d : Nat} (hc : c < 64) (hd : d < 64) :
    (push (push acc c) d).toNat = (acc.toNat * 4096 + c * 64 + d) % 2 ^ 32 := by
  rw [push, toNat_push _ hd, push, toNat_push _ hc]
  omega

/-- A byte needs two groups: what was in the word before them is above it. -/
theorem byte_of_push (acc : UInt32) {c d k : Nat} (hc : c < 64) (hd : d < 64) (hk : k = 0 ∨ k = 2 ∨ k = 4) :
    UInt8.ofNat ((push (push acc c) d).toNat / 2 ^ k) = UInt8.ofNat ((c * 64 + d) / 2 ^ k) := by
  rw [toNat_push_push acc hc hd, ← UInt8.toNat_inj, UInt8.toNat_ofNat', UInt8.toNat_ofNat']
  obtain rfl | rfl | rfl := hk <;> omega

theorem take_few (acc : UInt32) (out : Bytes) :
    (Decoder.mk acc 0 out).take outLen (UInt32.ofNat d) = ⟨push acc d, 6, out⟩ := rfl

theorem take_byte (acc : UInt32) {k : Nat} (hk : k < 7) {out : Bytes} (hroom : out.length < outLen) :
    (Decoder.mk acc (k + 2) out).take outLen (UInt32.ofNat d) = ⟨push acc d, k, out ++ [UInt8.ofNat ((push acc d).toNat / 2 ^ k)]⟩ := by
  have hbits : k + 2 + 6 - 8 = k := by omega
  simp only [Decoder.take, if_pos (show 8 ≤ k + 2 + 6 by omega), if_pos hroom, hbits]
  rw [emitted_eq _ (by omega)]
  rfl

/-- **The loop writes the bytes of the groups**, from whatever is in the word. -/
theorem foldl_step {l : List Nat} (hl : ∀ n ∈ l, n < 64) (acc : UInt32) (out : Bytes)
    (hroom : out.length + (Base64.ofSextets l).length ≤ outLen) :
    ((l.map sdkAlphabet.char).foldl (Decoder.step outLen) ⟨acc, 0, out⟩).out = out ++ Base64.ofSextets l := by
  fun_induction Base64.ofSextets l generalizing acc out with
  | case1 a b c d rest ih =>
    simp only [List.forall_mem_cons] at hl
    obtain ⟨ha, hb, hc, hd, hrest⟩ := hl
    simp only [List.length_cons] at hroom
    have hfirst : (a * 64 + b) / 2 ^ 4 = a * 4 + b / 16 := by omega
    have hsecond : (b * 64 + c) / 2 ^ 2 = b * 16 + c / 4 := by omega
    have hthird : (c * 64 + d) / 2 ^ 0 = c * 64 + d := by omega
    simp only [List.map_cons, List.foldl_cons, step_char ha, step_char hb, step_char hc, step_char hd]
    rw [take_few, take_byte _ (by decide) (by omega), byte_of_push _ ha hb (by decide), hfirst,
      take_byte _ (by decide) (by simp only [List.length_append, List.length_singleton]; omega), byte_of_push _ hb hc (by decide),
      hsecond, take_byte _ (by decide) (by simp only [List.length_append, List.length_singleton]; omega),
      byte_of_push _ hc hd (by decide), hthird, ih hrest _ _ (by simp only [List.length_append, List.length_singleton]; omega)]
    simp only [List.append_assoc, List.singleton_append]
    rfl
  | case2 a b c =>
    simp only [List.forall_mem_cons] at hl
    obtain ⟨ha, hb, hc, -⟩ := hl
    simp only [List.length_cons] at hroom
    have hfirst : (a * 64 + b) / 2 ^ 4 = a * 4 + b / 16 := by omega
    have hsecond : (b * 64 + c) / 2 ^ 2 = b * 16 + c / 4 := by omega
    simp only [List.map_cons, List.map_nil, List.foldl_cons, List.foldl_nil, step_char ha, step_char hb, step_char hc]
    rw [take_few, take_byte _ (by decide) (by omega), byte_of_push _ ha hb (by decide), hfirst,
      take_byte _ (by decide) (by simp only [List.length_append, List.length_singleton]; omega), byte_of_push _ hb hc (by decide),
      hsecond]
    simp only [List.append_assoc, List.singleton_append]
  | case3 a b =>
    simp only [List.forall_mem_cons] at hl
    obtain ⟨ha, hb, -⟩ := hl
    simp only [List.length_cons] at hroom
    have hfirst : (a * 64 + b) / 2 ^ 4 = a * 4 + b / 16 := by omega
    simp only [List.map_cons, List.map_nil, List.foldl_cons, List.foldl_nil, step_char ha, step_char hb]
    rw [take_few, take_byte _ (by decide) (by omega), byte_of_push _ ha hb (by decide), hfirst]
  | case4 a =>
    simp only [List.forall_mem_cons] at hl
    simp only [List.map_cons, List.map_nil, List.foldl_cons, List.foldl_nil, step_char hl.1, take_few, List.append_nil]
  | case5 => exact (List.append_nil out).symm

end

/-! ## What is decoded -/

section
variable {l : List Nat} {p : Nat}

theorem strip_pads {s : Units} (hs : ∀ c ∈ s, c ≠ 0x3d) {m k : Nat} (hk : k ≤ m) :
    strip (s ++ List.replicate m 0x3d) (s.length + k) = s.length := by
  induction k with
  | zero =>
    rw [Nat.add_zero]
    cases hlen : s.length with
    | zero => rfl
    | succ n =>
      have hget : (s ++ List.replicate m 0x3d)[n]? = some (s[n]) := by
        rw [List.getElem?_append_left (by omega), List.getElem?_eq_getElem]
      rw [strip, hget, if_neg fun h => hs _ (List.getElem_mem _) (Option.some.inj h)]
  | succ k ih =>
    have hget : (s ++ List.replicate m 0x3d)[s.length + k]? = some 0x3d := by
      rw [List.getElem?_append_right (by omega), Nat.add_sub_cancel_left, List.getElem?_replicate, if_pos (show k < m from hk)]
    rw [← Nat.add_assoc, strip, hget, if_pos rfl, ih (by omega)]

theorem outLength_of_lt {len : Nat} (h : len * 3 < 2 ^ 31) : outLength len = ((len * 3 / 4 : Nat) : Int) := by
  have hmod : Int.bmod ((len : Int) * 3) (2 ^ 32) = (len : Int) * 3 := by
    apply Int.bmod_eq_of_le_mul_two <;> omega
  have hpos : (0 : Int) ≤ (len : Int) * 3 := by omega
  unfold outLength
  rw [hmod, Int.tdiv_eq_ediv_of_nonneg hpos]
  omega

/-- **The decoder on the characters of groups**, with whatever padding. -/
theorem base64Decode_chars (hl : ∀ n ∈ l, n < 64) (hlen : l.length * 3 < 2 ^ 31) (m : Nat) :
    base64Decode (l.map sdkAlphabet.char ++ List.replicate m 0x3d) = some (Base64.ofSextets l) := by
  have hpad : ∀ c ∈ l.map sdkAlphabet.char, c ≠ 0x3d := by
    intro c hc heq
    obtain ⟨n, hn, rfl⟩ := List.mem_map.1 hc
    have hvalue := sdkAlphabet.value_char n (hl n hn)
    rw [heq, ← sdkAlphabet_pad, sdkAlphabet.value_pad] at hvalue
    cases hvalue
  have hstrip := strip_pads hpad (Nat.le_refl m)
  have hlength : (l.map sdkAlphabet.char ++ List.replicate m 0x3d).length = (l.map sdkAlphabet.char).length + m := by
    rw [List.length_append, List.length_replicate]
  have hout : outLength (l.map sdkAlphabet.char).length = (Base64.ofSextets l).length := by
    rw [List.length_map, outLength_of_lt hlen, Base64.length_ofSextets]
  have hloop := foldl_step hl 0 [] (Nat.le_of_eq (Nat.zero_add _))
  simp only [base64Decode, hlength, hstrip, hout, List.take_left, Int.toNat_natCast]
  rw [if_neg (Int.not_lt.2 (Int.natCast_nonneg _)), hloop]
  simp

theorem base64Decode_text {s : Bytes} (h : s.length < 2 ^ 29) : base64Decode (Base64.text sdkAlphabet s) = some s := by
  rw [Base64.text_eq, sdkAlphabet_pad, base64Decode_chars (Base64.sextets_lt s), Base64.ofSextets_sextets]
  rw [Base64.length_sextets]
  omega

end

/-! ## The two texts are one -/

def b64Chars : List Char := "ABCDEFGHIJKLMNOPQRSTUVWXYZabcdefghijklmnopqrstuvwxyz0123456789+/".toList

/-- The alphabet in characters. -/
def charAlphabet : Base64.Alphabet Char where
  char n := b64Chars[n]?.getD 'A'
  value c := b64Chars.idxOf? c
  pad := '='
  value_char := by decide +kernel
  value_pad := rfl

theorem utf8_text (s : Bytes) : Utf16.utf8 (Base64.text charAlphabet s) = Base64.text Wasm.hostAlphabet s :=
  Base64.flatMap_text (by decide +kernel) rfl s

theorem units_text (s : Bytes) : Utf16.units (Base64.text charAlphabet s) = Base64.text sdkAlphabet s :=
  Base64.flatMap_text (by decide +kernel) rfl s

/-- What the guest prints, in UTF-8, is what the host prints. -/
theorem encode_base64Encode (s : Bytes) : Utf16.encode (base64Encode s) = Wasm.Host.base64Encode s := by
  rw [base64Encode_eq_text, Wasm.Host.base64Encode_eq_text, ← units_text, Utf16.encode_units, utf8_text]

theorem decode_base64Encode (s : Bytes) : Utf16.decode (Wasm.Host.base64Encode s) = base64Encode s := by
  rw [base64Encode_eq_text, Wasm.Host.base64Encode_eq_text, ← utf8_text, Utf16.decode_utf8, units_text]

/-- **Host and guest agree**: whichever of the two has encoded the bytes, either decodes them, and the texts are the same. -/
theorem base64_agree (s : Bytes) (h : s.length < 2 ^ 29) :
    Wasm.Host.base64Decode (Wasm.Host.base64Encode s) = some s ∧
    base64Decode (Utf16.decode (Wasm.Host.base64Encode s)) = some s ∧
    Wasm.Host.base64Decode (Utf16.encode (base64Encode s)) = some s ∧
    base64Decode (base64Encode s) = some s ∧
    Utf16.encode (base64Encode s) = Wasm.Host.base64Encode s ∧ Utf16.decode (Wasm.Host.base64Encode s) = base64Encode s := by
  have hhost : Wasm.Host.base64Decode (Wasm.Host.base64Encode s) = some s := by
    rw [Wasm.Host.base64Decode_eq, Wasm.Host.base64Encode_eq, Wasm.base64Decode_encode]
  have hguest : base64Decode (base64Encode s) = some s := by
    rw [base64Encode_eq_text, base64Decode_text h]
  refine ⟨hhost, ?_, ?_, hguest, encode_base64Encode s, decode_base64Encode s⟩
  · rw [decode_base64Encode, hguest]
  · rw [encode_base64Encode, hhost]

/-- Two bytes, the second with bits that a third group is filled up from. -/
theorem base64_agree_two : [0x4d, 0xff].length < 2 ^ 29 ∧ base64Decode (Utf16.decode (Wasm.Host.base64Encode [0x4d, 0xff])) =
    some [0x4d, 0xff] :=
  ⟨by decide, (base64_agree [0x4d, 0xff] (by decide)).2.1⟩

end OriginDB.Sdk
