import OriginDB.Lib.JsonText
/-!
# Strings of UTF-16 code units

Some languages hold a string as its UTF-16 code units and exchange it in UTF-8. A surrogate without its other half is
a string too, and is encoded as if it were a character. `encode` and `decode` undo each other on strings of characters
(`encode_units`, `decode_utf8`).
-/
namespace Utf16

open ByteCodec JsonDoc

/-- The code units of a character. -/
def ofChar (c : Char) : List UInt16 :=
  let v := c.toNat
  if v < 0x10000 then [UInt16.ofNat v]
  else [UInt16.ofNat (0xd800 + (v - 0x10000) / 0x400), UInt16.ofNat (0xdc00 + (v - 0x10000) % 0x400)]

def units (s : List Char) : List UInt16 := s.flatMap ofChar

def isHigh (u : UInt16) : Bool := 0xd800 ≤ u.toNat && u.toNat < 0xdc00

def isLow (u : UInt16) : Bool := 0xdc00 ≤ u.toNat && u.toNat < 0xe000

/-- A pair of surrogates is one code point. -/
def codePoints : List UInt16 → List Nat
  | [] => []
  | [u] => [u.toNat]
  | u :: l :: rest =>
    if isHigh u && isLow l then (0x10000 + (u.toNat - 0xd800) * 0x400 + (l.toNat - 0xdc00)) :: codePoints rest
    else u.toNat :: codePoints (l :: rest)

/-- The UTF-8 of a code point. -/
def encodePoint (v : Nat) : Bytes :=
  if v ≤ 0x7f then [UInt8.ofNat v]
  else if v ≤ 0x7ff then [UInt8.ofNat (v / 64 % 0x20 + 0xc0), UInt8.ofNat (v % 0x40 + 0x80)]
  else if v ≤ 0xffff then
    [UInt8.ofNat (v / 4096 % 0x10 + 0xe0), UInt8.ofNat (v / 64 % 0x40 + 0x80), UInt8.ofNat (v % 0x40 + 0x80)]
  else
    [UInt8.ofNat (v / 262144 % 0x08 + 0xf0), UInt8.ofNat (v / 4096 % 0x40 + 0x80), UInt8.ofNat (v / 64 % 0x40 + 0x80),
      UInt8.ofNat (v % 0x40 + 0x80)]

def encode (s : List UInt16) : Bytes := (codePoints s).flatMap encodePoint

/-- The characters of a text in UTF-8; of any other text, none. -/
def chars (b : Bytes) : List Char := ((ByteArray.mk b.toArray).utf8Decode?.getD #[]).toList

/-- Decoding of UTF-8. -/
def decode (b : Bytes) : List UInt16 := units (chars b)

/-- The UTF-8 of a text. -/
def utf8 (s : List Char) : Bytes := s.flatMap String.utf8EncodeChar

section
variable {s t : List Char}

@[simp] theorem units_nil : units [] = [] := rfl

@[simp] theorem units_cons (c : Char) (s : List Char) : units (c :: s) = ofChar c ++ units s := rfl

@[simp] theorem units_append (s t : List Char) : units (s ++ t) = units s ++ units t := List.flatMap_append

@[simp] theorem utf8_append (s t : List Char) : utf8 (s ++ t) = utf8 s ++ utf8 t := List.flatMap_append

/-- No character is a surrogate. -/
theorem val_cases (c : Char) : c.toNat < 0xd800 ∨ (0xe000 ≤ c.toNat ∧ c.toNat < 0x110000) := by
  have h := c.valid
  simp only [UInt32.isValidChar, Nat.isValidChar] at h
  show c.val.toNat < 0xd800 ∨ (0xe000 ≤ c.val.toNat ∧ c.val.toNat < 0x110000)
  omega

theorem toNat_ofNat {v : Nat} (h : v < 0x10000) : (UInt16.ofNat v).toNat = v := UInt16.toNat_ofNat_of_lt' h

theorem codePoints_ofChar_append (c : Char) (rest : List UInt16) :
    codePoints (ofChar c ++ rest) = c.toNat :: codePoints rest := by
  have hc := val_cases c
  simp only [ofChar]
  by_cases hsmall : c.toNat < 0x10000
  · have hval := toNat_ofNat hsmall
    generalize UInt16.ofNat c.toNat = u at hval ⊢
    have hhigh : isHigh u = false := by
      simp only [isHigh, hval, Bool.and_eq_false_iff, decide_eq_false_iff_not]
      omega
    simp only [hsmall, if_true, List.singleton_append]
    cases rest <;> simp [codePoints, hhigh, hval]
  · have hu : (UInt16.ofNat (0xd800 + (c.toNat - 0x10000) / 0x400)).toNat = 0xd800 + (c.toNat - 0x10000) / 0x400 :=
      toNat_ofNat (by omega)
    have hl : (UInt16.ofNat (0xdc00 + (c.toNat - 0x10000) % 0x400)).toNat = 0xdc00 + (c.toNat - 0x10000) % 0x400 :=
      toNat_ofNat (by omega)
    have hpair : (isHigh (UInt16.ofNat (0xd800 + (c.toNat - 0x10000) / 0x400)) &&
        isLow (UInt16.ofNat (0xdc00 + (c.toNat - 0x10000) % 0x400))) = true := by
      simp only [isHigh, isLow, hu, hl, Bool.and_eq_true, decide_eq_true_eq]
      omega
    simp only [hsmall, if_false, List.cons_append, List.nil_append, codePoints, hpair, if_true, hu, hl, List.cons.injEq,
      and_true]
    omega

theorem codePoints_units (s : List Char) : codePoints (units s) = s.map fun c => c.toNat := by
  induction s with
  | nil => rfl
  | cons c s ih => rw [units_cons, codePoints_ofChar_append, ih, List.map_cons]

/-- **Encoding a string of characters gives its UTF-8.** -/
theorem encode_units (s : List Char) : encode (units s) = utf8 s := by
  rw [encode, codePoints_units, List.flatMap_map]
  rfl

theorem chars_utf8 (s : List Char) : chars (utf8 s) = s := by
  have h : ByteArray.mk (utf8 s).toArray = s.utf8Encode := by
    apply ByteArray.ext
    simp [utf8, List.utf8Encode]
  rw [chars, h, List.utf8Decode?_utf8Encode]
  simp

/-- **And decoding it gives the string again.** -/
theorem decode_utf8 (s : List Char) : decode (utf8 s) = units s := by
  rw [decode, chars_utf8]

/-- What is UTF-8 is the UTF-8 of some text. -/
theorem utf8_chars {b : Bytes} (h : Utf8 b) : utf8 (chars b) = b := by
  obtain ⟨s, hs⟩ := h
  have hb : b = utf8 s := by
    have := congrArg (fun a => a.data.toList) hs
    simpa [utf8, List.utf8Encode] using this
  rw [hb, chars_utf8]

/-- UTF-8 that is decoded and encoded again is the same. -/
theorem encode_decode {b : Bytes} (h : Utf8 b) : encode (decode b) = b := by
  rw [decode, encode_units, utf8_chars h]

end

end Utf16
