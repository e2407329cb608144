import OriginDB.Lib.Base64
import OriginDB.Wasm.HostCalls
/-!
# `Base64Encode` and `Base64Decode` of the host (`src/wasm/host_functions.cpp:621-667`)

`base64Encode` and `base64Decode` of `HostCalls` are the two functions in the arithmetic of single bytes. Here they are as
they are written (`Host`): the encoder shifts three bytes into a word of 32 bits, with zeros for what is not there, and takes
groups of six bits out of it; the decoder shifts the values of four characters against each other. They are the same
functions, on every byte string and on every text (`Host.base64Encode_eq`, `Host.base64Decode_eq`).
-/
namespace OriginDB

open JsonDoc ByteCodec

namespace Wasm

/-! ## The alphabet -/

theorem base64Char_cases {p : UInt8 → Nat → Prop} (h : ∀ i < 64, p (base64Char i) i) (n : Nat) : p (base64Char n) (n % 64) := by
  have hlt : n % 64 < 64 := Nat.mod_lt n (by decide)
  have hchar := h _ hlt
  rwa [base64Char, Nat.mod_mod] at hchar

theorem base64Value_char (n : Nat) : base64Value (base64Char n) = some (n % 64) :=
  base64Char_cases (p := fun c i => base64Value c = some i) (by decide +kernel) n

theorem base64Char_ne_pad (n : Nat) : base64Char n ≠ 61 := base64Char_cases (p := fun c _ => c ≠ 61) (by decide +kernel) n

theorem base64Char_congr {m n : Nat} (h : m % 64 = n % 64) : base64Char m = base64Char n := by
  rw [base64Char, h, base64Char]

def hostAlphabet : Base64.Alphabet UInt8 where
  char := base64Char
  value := base64Value
  pad := 61
  value_char n hn := by rw [base64Value_char, Nat.mod_eq_of_lt hn]
  value_pad := rfl

@[simp] theorem hostAlphabet_char (n : Nat) : hostAlphabet.char n = base64Char n := rfl

@[simp] theorem hostAlphabet_pad : hostAlphabet.pad = 61 := rfl

/-! ## The texts -/

theorem base64Encode_eq_text (s : Bytes) : base64Encode s = Base64.text hostAlphabet s := by
  fun_induction base64Encode s with
  | case1 => rfl
  | case2 a =>
    have hsecond : base64Char (a.toNat * 16) = base64Char (a.toNat % 4 * 16) := base64Char_congr (by omega)
    rw [hsecond]
    rfl
  | case3 a b =>
    have hsecond : base64Char (a.toNat * 16 + b.toNat / 16) = base64Char (a.toNat % 4 * 16 + b.toNat / 16) :=
      base64Char_congr (by omega)
    have hthird : base64Char (b.toNat * 4) = base64Char (b.toNat % 16 * 4) := base64Char_congr (by omega)
    rw [hsecond, hthird]
    rfl
  | case4 a b c rest ih =>
    have hsecond : base64Char (a.toNat * 16 + b.toNat / 16) = base64Char (a.toNat % 4 * 16 + b.toNat / 16) :=
      base64Char_congr (by omega)
    have hthird : base64Char (b.toNat * 4 + c.toNat / 64) = base64Char (b.toNat % 16 * 4 + c.toNat / 64) :=
      base64Char_congr (by omega)
    have hfourth : base64Char c.toNat = base64Char (c.toNat % 64) := base64Char_congr (Nat.mod_mod _ _).symm
    rw [hsecond, hthird, hfourth, ih]
    rfl

theorem base64Value_char_of_lt {n : Nat} (h : n < 64) : base64Value (base64Char n) = some n := hostAlphabet.value_char n h

theorem base64Decode_text (s : Bytes) : base64Decode (Base64.text hostAlphabet s) = some (Base64.ofSextets (Base64.sextets s)) := by
  have hlt := Base64.sextets_lt s
  fun_induction Base64.text hostAlphabet s with
  | case1 => rfl
  | case2 a =>
    simp only [Base64.sextets, List.forall_mem_cons] at hlt
    simp only [hostAlphabet_char, hostAlphabet_pad, base64Decode, base64Value_char_of_lt hlt.1, base64Value_char_of_lt hlt.2.1, Option.bind_eq_bind,
      Option.bind_some, if_true]
    rfl
  | case3 a b =>
    simp only [Base64.sextets, List.forall_mem_cons] at hlt
    simp only [hostAlphabet_char, base64Decode, base64Value_char_of_lt hlt.1, base64Value_char_of_lt hlt.2.1,
      base64Value_char_of_lt hlt.2.2.1, base64Char_ne_pad, Option.bind_eq_bind, Option.bind_some, if_false]
    rfl
  | case4 a b c rest ih =>
    simp only [Base64.sextets, List.forall_mem_cons] at hlt
    simp only [hostAlphabet_char, base64Decode, base64Value_char_of_lt hlt.1, base64Value_char_of_lt hlt.2.1,
      base64Value_char_of_lt hlt.2.2.1, base64Value_char_of_lt hlt.2.2.2.1, base64Char_ne_pad, Option.bind_eq_bind,
      Option.bind_some, if_false, Base64.sextets, Base64.ofSextets, ih hlt.2.2.2.2]
    rfl

/-- **What is encoded is decoded as it was.** -/
theorem base64Decode_encode (b : Bytes) : base64Decode (base64Encode b) = some b := by
  rw [base64Encode_eq_text, base64Decode_text, Base64.ofSextets_sextets]

/-! ## As they are written -/

namespace Host

def kB64 : Bytes := str "ABCDEFGHIJKLMNOPQRSTUVWXYZabcdefghijklmnopqrstuvwxyz0123456789+/"

/-- `kB64[i]`. -/
def char (i : UInt32) : UInt8 := kB64[i.toNat]?.getD 0

/-- `Base64Encode` (`:624`). A byte that is not there is not looked at. -/
def base64Encode : Bytes → Bytes
  | [] => []
  | a :: rest =>
    let n : UInt32 := a.toUInt32 <<< 16
    let n : UInt32 := if 0 < rest.length then n ||| ((rest[0]?.getD 0).toUInt32 <<< (8 : UInt32)) else n
    let n : UInt32 := if 1 < rest.length then n ||| (rest[1]?.getD 0).toUInt32 else n
    char ((n >>> 18) &&& 63) :: char ((n >>> 12) &&& 63) ::
      (if 0 < rest.length then char ((n >>> 6) &&& 63) else 61) ::
      (if 1 < rest.length then char (n &&& 63) else 61) :: base64Encode (rest.drop 2)
termination_by s => s.length
decreasing_by
  simp only [List.length_drop, List.length_cons]
  omega

/-- `val` of `Base64Decode` (`:642`); `none` is `-1`. -/
def val (c : UInt8) : Option Nat :=
  if 65 ≤ c ∧ c ≤ 90 then some (c.toNat - 65)
  else if 97 ≤ c ∧ c ≤ 122 then some (c.toNat - 97 + 26)
  else if 48 ≤ c ∧ c ≤ 57 then some (c.toNat - 48 + 52)
  else if c = 43 then some 62
  else if c = 47 then some 63
  else none

/-- The loop of `Base64Decode`, over a text whose length is a multiple of four. -/
def decodeLoop : Bytes → Option Bytes
  | c₀ :: c₁ :: c₂ :: c₃ :: rest => do
    let a ← val c₀
    let b ← val c₁
    let first := UInt8.ofNat (a <<< 2 ||| b >>> 4)
    if c₂ ≠ 61 then
      let c ← val c₂
      let second := UInt8.ofNat (b <<< 4 ||| c >>> 2)
      if c₃ ≠ 61 then
        let d ← val c₃
        return first :: second :: UInt8.ofNat (c <<< 6 ||| d) :: (← decodeLoop rest)
      else return first :: second :: (← decodeLoop rest)
    else return first :: (← decodeLoop rest)
  | _ => some []

/-- `Base64Decode` (`:641`). -/
def base64Decode (s : Bytes) : Option Bytes := if s.length % 4 ≠ 0 then none else decodeLoop s

/-! ### The encoder -/

theorem char_eq {i : UInt32} {n : Nat} (h : i.toNat = n) (hn : n < 64) : char i = base64Char n := by
  rw [char, h, base64Char, Nat.mod_eq_of_lt hn]
  rfl

/-- The four characters of a word. -/
theorem chars_word (a b c : UInt8) : char ((Base64.word a b c >>> 18) &&& 63) = base64Char (a.toNat / 4) ∧
    char ((Base64.word a b c >>> 12) &&& 63) = base64Char (a.toNat % 4 * 16 + b.toNat / 16) ∧
    char ((Base64.word a b c >>> 6) &&& 63) = base64Char (b.toNat % 16 * 4 + c.toNat / 64) ∧
    char (Base64.word a b c &&& 63) = base64Char (c.toNat % 64) := by
  have ha := a.toNat_lt
  have hb := b.toNat_lt
  have hc := c.toNat_lt
  obtain ⟨hfirst, hsecond, hthird, hfourth⟩ := Base64.groups_word a b c
  exact ⟨char_eq hfirst (by omega), char_eq hsecond (by omega), char_eq hthird (by omega), char_eq hfourth (by omega)⟩

theorem base64Encode_eq_text (s : Bytes) : base64Encode s = Base64.text hostAlphabet s := by
  fun_induction Base64.text hostAlphabet s with
  | case1 => rw [base64Encode]
  | case2 a =>
    have hword : a.toUInt32 <<< 16 = Base64.word a 0 0 := by simp [Base64.word]
    obtain ⟨hfirst, hsecond, -, -⟩ := chars_word a 0 0
    rw [base64Encode]
    simp only [List.length_nil, Nat.lt_irrefl, Nat.not_lt_zero, if_false, List.drop_nil, hword, hfirst, hsecond, base64Encode]
    rfl
  | case3 a b =>
    have hword : a.toUInt32 <<< 16 ||| (b.toUInt32 <<< (8 : UInt32)) = Base64.word a b 0 := by simp [Base64.word]
    obtain ⟨hfirst, hsecond, hthird, -⟩ := chars_word a b 0
    rw [base64Encode]
    simp only [List.length_singleton, Nat.lt_irrefl, Nat.zero_lt_one, if_true, if_false, List.getElem?_cons_zero,
      Option.getD_some, List.drop_succ_cons, List.drop_nil, hword, hfirst, hsecond, hthird, base64Encode]
    rfl
  | case4 a b c rest ih =>
    have hword : a.toUInt32 <<< 16 ||| (b.toUInt32 <<< (8 : UInt32)) ||| c.toUInt32 = Base64.word a b c := rfl
    have hzero : 0 < (b :: c :: rest).length := by simp
    have hone : 1 < (b :: c :: rest).length := by simp
    obtain ⟨hfirst, hsecond, hthird, hfourth⟩ := chars_word a b c
    rw [base64Encode]
    simp only [hzero, hone, if_true, List.getElem?_cons_zero, List.getElem?_cons_succ, Option.getD_some, List.drop_succ_cons,
      List.drop_zero, hword, hfirst, hsecond, hthird, hfourth, ih]
    rfl

/-- **The words give the characters of the single bytes.** -/
theorem base64Encode_eq (s : Bytes) : base64Encode s = Wasm.base64Encode s := by
  rw [base64Encode_eq_text, Wasm.base64Encode_eq_text]

/-! ### The decoder -/

theorem val_eq (c : UInt8) : val c = base64Value c := by
  have hall : ∀ n : Fin 256, val (UInt8.ofNat n) = base64Value (UInt8.ofNat n) := by decide +kernel
  have hc := hall ⟨c.toNat, c.toNat_lt⟩
  rwa [UInt8.ofNat_toNat] at hc

theorem base64Value_lt {c : UInt8} {n : Nat} (h : base64Value c = some n) : n < 64 := by
  have hlength : base64Alphabet.length = 64 := rfl
  rw [base64Value, List.idxOf?_eq_some_iff] at h
  obtain ⟨hlt, -⟩ := h
  rwa [hlength] at hlt

theorem or_shift {a b : Nat} (i j : Nat) (hb : b < 2 ^ (i + j)) : a <<< i ||| b >>> j = a * 2 ^ i + b / 2 ^ j := by
  have hlow : b >>> j < 2 ^ i := by
    rw [Nat.shiftRight_eq_div_pow, Nat.div_lt_iff_lt_mul (Nat.two_pow_pos j), ← Nat.pow_add]
    exact hb
  rw [← Nat.shiftLeft_add_eq_or_of_lt hlow, Nat.shiftLeft_eq, Nat.shiftRight_eq_div_pow]

theorem or_digit {a d : Nat} (hd : d < 64) : a <<< 6 ||| d = a * 64 + d := by
  rw [← Nat.shiftLeft_add_eq_or_of_lt (show d < 2 ^ 6 from hd), Nat.shiftLeft_eq]

/-- One group, with what the rest of the text gives. -/
theorem group_eq (c₀ c₁ c₂ c₃ : UInt8) {rest : Bytes} (h : decodeLoop rest = Wasm.base64Decode rest) :
    decodeLoop (c₀ :: c₁ :: c₂ :: c₃ :: rest) = Wasm.base64Decode (c₀ :: c₁ :: c₂ :: c₃ :: rest) := by
  rw [decodeLoop, Wasm.base64Decode, h]
  simp only [val_eq]
  cases ha : base64Value c₀ with
  | none => rfl
  | some a =>
    cases hb : base64Value c₁ with
    | none => rfl
    | some b =>
      have hfirst := or_shift (a := a) 2 4 (base64Value_lt hb)
      simp only [Option.bind_eq_bind, Option.bind_some, hfirst]
      by_cases hpad : c₂ = 61
      · rw [if_neg (not_not_intro hpad), if_pos hpad]
        rfl
      rw [if_pos hpad, if_neg hpad]
      cases hc : base64Value c₂ with
      | none => rfl
      | some c =>
        have hsecond := or_shift (a := b) 4 2 (base64Value_lt hc)
        simp only [Option.bind_some, hsecond]
        by_cases hpad' : c₃ = 61
        · rw [if_neg (not_not_intro hpad'), if_pos hpad']
          rfl
        rw [if_pos hpad', if_neg hpad']
        cases hd : base64Value c₃ with
        | none => rfl
        | some d =>
          simp only [Option.bind_some, or_digit (base64Value_lt hd)]
          rfl

theorem decodeLoop_eq : ∀ s : Bytes, s.length % 4 = 0 → decodeLoop s = Wasm.base64Decode s
  | [], _ => rfl
  | c₀ :: c₁ :: c₂ :: c₃ :: rest, h => by
    simp only [List.length_cons] at h
    exact group_eq c₀ c₁ c₂ c₃ (decodeLoop_eq rest (by omega))
  | [_], h | [_, _], h | [_, _, _], h => by cases h

theorem base64Decode_none : ∀ s : Bytes, s.length % 4 ≠ 0 → Wasm.base64Decode s = none
  | [], h => absurd rfl h
  | c₀ :: c₁ :: c₂ :: c₃ :: rest, h => by
    simp only [List.length_cons] at h
    simp [Wasm.base64Decode, base64Decode_none rest (by omega)]
  | [_], _ | [_, _], _ | [_, _, _], _ => rfl

/-- **The groups are decoded as they are one by one**, and a text that is not made of groups not at all. -/
theorem base64Decode_eq (s : Bytes) : base64Decode s = Wasm.base64Decode s := by
  by_cases h : s.length % 4 = 0
  · rw [base64Decode, if_neg (not_not_intro h), decodeLoop_eq s h]
  · rw [base64Decode, if_pos h, base64Decode_none s h]

end Host

end Wasm

end OriginDB
