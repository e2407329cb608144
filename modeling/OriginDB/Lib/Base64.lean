import OriginDB.Lib.Bytes
/-!
# Base64 (RFC 4648, section 4)

A byte string is cut into groups of six bits, the last of them filled up with zeros (`sextets`); a text is the characters of
the groups, filled up with padding to a multiple of four (`text`). What a decoder has to make of the groups is `ofSextets`,
which leaves out the bits that are no whole byte: the string comes back (`ofSextets_sextets`), over whatever alphabet. An
alphabet carries that it can be read: its characters have their values back, and the padding is none of them. An encoder that
shifts three bytes into a word of 32 bits finds the groups there (`groups_word`).
-/
namespace Base64

open ByteCodec

/-! ## Groups of six bits -/

def sextets : Bytes → List Nat
  | [] => []
  | [a] => [a.toNat / 4, a.toNat % 4 * 16]
  | [a, b] => [a.toNat / 4, a.toNat % 4 * 16 + b.toNat / 16, b.toNat % 16 * 4]
  | a :: b :: c :: rest =>
    a.toNat / 4 :: (a.toNat % 4 * 16 + b.toNat / 16) :: (b.toNat % 16 * 4 + c.toNat / 64) :: c.toNat % 64 :: sextets rest

def ofSextets : List Nat → Bytes
  | a :: b :: c :: d :: rest =>
    UInt8.ofNat (a * 4 + b / 16) :: UInt8.ofNat (b * 16 + c / 4) :: UInt8.ofNat (c * 64 + d) :: ofSextets rest
  | [a, b, c] => [UInt8.ofNat (a * 4 + b / 16), UInt8.ofNat (b * 16 + c / 4)]
  | [a, b] => [UInt8.ofNat (a * 4 + b / 16)]
  | [_] => []
  | [] => []

theorem sextets_lt (s : Bytes) : ∀ n ∈ sextets s, n < 64 := by
  fun_induction sextets s with
  | case1 => exact fun n hn => by cases hn
  | case2 a =>
    have ha := a.toNat_lt
    simp only [List.forall_mem_cons]
    exact ⟨by omega, by omega, fun n hn => by cases hn⟩
  | case3 a b =>
    have ha := a.toNat_lt
    have hb := b.toNat_lt
    simp only [List.forall_mem_cons]
    exact ⟨by omega, by omega, by omega, fun n hn => by cases hn⟩
  | case4 a b c rest ih =>
    have ha := a.toNat_lt
    have hb := b.toNat_lt
    have hc := c.toNat_lt
    simp only [List.forall_mem_cons]
    exact ⟨by omega, by omega, by omega, by omega, ih⟩

section
variable {x : Nat}

theorem first_byte (a : UInt8) (hx : x < 16) : UInt8.ofNat (a.toNat / 4 * 4 + (a.toNat % 4 * 16 + x) / 16) = a := by
  have ha := a.toNat_lt
  rw [← UInt8.toNat_inj, UInt8.toNat_ofNat']
  omega

theorem second_byte (y : Nat) (b : UInt8) (hx : x < 4) :
    UInt8.ofNat ((y * 16 + b.toNat / 16) * 16 + (b.toNat % 16 * 4 + x) / 4) = b := by
  have hb := b.toNat_lt
  rw [← UInt8.toNat_inj, UInt8.toNat_ofNat']
  omega

theorem third_byte (y : Nat) (c : UInt8) : UInt8.ofNat ((y * 4 + c.toNat / 64) * 64 + c.toNat % 64) = c := by
  have hc := c.toNat_lt
  rw [← UInt8.toNat_inj, UInt8.toNat_ofNat']
  omega

end

/-- **The bits that a group is filled up with are left out again.** -/
theorem ofSextets_sextets (s : Bytes) : ofSextets (sextets s) = s := by
  fun_induction sextets s with
  | case1 => rfl
  | case2 a =>
    have hfirst := first_byte a (x := 0) (by decide)
    rw [Nat.add_zero] at hfirst
    rw [ofSextets, hfirst]
  | case3 a b =>
    have hfirst := first_byte a (x := b.toNat / 16) (by have hb := b.toNat_lt; omega)
    have hsecond := second_byte (a.toNat % 4) b (x := 0) (by decide)
    rw [Nat.add_zero] at hsecond
    rw [ofSextets, hfirst, hsecond]
  | case4 a b c rest ih =>
    have hfirst := first_byte a (x := b.toNat / 16) (by have hb := b.toNat_lt; omega)
    have hsecond := second_byte (a.toNat % 4) b (x := c.toNat / 64) (by have hc := c.toNat_lt; omega)
    rw [ofSextets, hfirst, hsecond, third_byte, ih]

theorem length_ofSextets (l : List Nat) : (ofSextets l).length = l.length * 3 / 4 := by
  fun_induction ofSextets l with
  | case1 a b c d rest ih =>
    simp only [List.length_cons, ih]
    omega
  | case2 | case3 | case4 | case5 => simp

theorem length_sextets (s : Bytes) : (sextets s).length = (s.length * 4 + 2) / 3 := by
  fun_induction sextets s with
  | case1 | case2 | case3 => simp
  | case4 a b c rest ih =>
    simp only [List.length_cons, ih]
    omega

/-! ## Three bytes in a word -/

def word (a b c : UInt8) : UInt32 := a.toUInt32 <<< 16 ||| (b.toUInt32 <<< (8 : UInt32)) ||| c.toUInt32

theorem toNat_word (a b c : UInt8) : (word a b c).toNat = (a.toNat * 256 + b.toNat) * 256 + c.toNat := by
  have ha := a.toNat_lt
  have hb := b.toNat_lt
  have hc := c.toNat_lt
  have h16 : a.toNat <<< ((16 : UInt32).toNat % 32) % 2 ^ 32 = a.toNat <<< 16 := by
    refine Nat.mod_eq_of_lt ?_
    show a.toNat <<< 16 < 2 ^ 32
    rw [Nat.shiftLeft_eq]
    omega
  have h8 : b.toNat <<< ((8 : UInt32).toNat % 32) % 2 ^ 32 = b.toNat <<< 8 := by
    refine Nat.mod_eq_of_lt ?_
    show b.toNat <<< 8 < 2 ^ 32
    rw [Nat.shiftLeft_eq]
    omega
  have hhigh : a.toNat <<< 16 ||| b.toNat <<< 8 = (a.toNat * 256 + b.toNat) <<< 8 := by
    have hlow : b.toNat <<< 8 < 2 ^ 16 := by
      rw [Nat.shiftLeft_eq]
      omega
    rw [← Nat.shiftLeft_add_eq_or_of_lt hlow]
    simp only [Nat.shiftLeft_eq]
    omega
  rw [word, UInt32.toNat_or, UInt32.toNat_or, UInt32.toNat_shiftLeft, UInt32.toNat_shiftLeft, UInt8.toNat_toUInt32,
    UInt8.toNat_toUInt32, UInt8.toNat_toUInt32, h16, h8, hhigh, ← Nat.shiftLeft_add_eq_or_of_lt hc, Nat.shiftLeft_eq]

theorem toNat_mask (n : UInt32) : (n &&& 63).toNat = n.toNat % 64 := by
  rw [UInt32.toNat_and]
  exact Nat.and_two_pow_sub_one_eq_mod n.toNat 6

theorem toNat_shift_mask (n k : UInt32) (hk : k.toNat < 32) : ((n >>> k) &&& 63).toNat = n.toNat / 2 ^ k.toNat % 64 := by
  rw [toNat_mask, UInt32.toNat_shiftRight, Nat.shiftRight_eq_div_pow, Nat.mod_eq_of_lt hk]

/-- The groups of the word are those of its bytes. -/
theorem groups_word (a b c : UInt8) : ((word a b c >>> 18) &&& 63).toNat = a.toNat / 4 ∧
    ((word a b c >>> 12) &&& 63).toNat = a.toNat % 4 * 16 + b.toNat / 16 ∧
    ((word a b c >>> 6) &&& 63).toNat = b.toNat % 16 * 4 + c.toNat / 64 ∧ (word a b c &&& 63).toNat = c.toNat % 64 := by
  have ha := a.toNat_lt
  have hb := b.toNat_lt
  have hc := c.toNat_lt
  rw [toNat_shift_mask _ 18 (by decide), toNat_shift_mask _ 12 (by decide), toNat_shift_mask _ 6 (by decide), toNat_mask, toNat_word]
  refine ⟨?_, ?_, ?_, ?_⟩
  · show _ / 2 ^ 18 % 64 = _
    omega
  · show _ / 2 ^ 12 % 64 = _
    omega
  · show _ / 2 ^ 6 % 64 = _
    omega
  · omega

/-! ## Texts -/

structure Alphabet (κ : Type) where
  char : Nat → κ
  value : κ → Option Nat
  pad : κ
  value_char : ∀ n < 64, value (char n) = some n
  value_pad : value pad = none

variable {κ ι : Type}

def text (A : Alphabet κ) : Bytes → List κ
  | [] => []
  | [a] => [A.char (a.toNat / 4), A.char (a.toNat % 4 * 16), A.pad, A.pad]
  | [a, b] => [A.char (a.toNat / 4), A.char (a.toNat % 4 * 16 + b.toNat / 16), A.char (b.toNat % 16 * 4), A.pad]
  | a :: b :: c :: rest =>
    A.char (a.toNat / 4) :: A.char (a.toNat % 4 * 16 + b.toNat / 16) :: A.char (b.toNat % 16 * 4 + c.toNat / 64) ::
      A.char (c.toNat % 64) :: text A rest

/-- How many characters a text of so many bytes is filled up with. -/
def padding (n : Nat) : Nat := (3 - n % 3) % 3

theorem text_eq (A : Alphabet κ) (s : Bytes) : text A s = (sextets s).map A.char ++ List.replicate (padding s.length) A.pad := by
  fun_induction text A s with
  | case1 | case2 | case3 => rfl
  | case4 a b c rest ih =>
    have hpad : padding (a :: b :: c :: rest).length = padding rest.length := by
      simp only [padding, List.length_cons]
      omega
    rw [ih, hpad, sextets]
    rfl

/-- A text of one alphabet, character by character in another. -/
theorem flatMap_text {A : Alphabet κ} {B : Alphabet ι} {f : κ → List ι} (hchar : ∀ n < 64, f (A.char n) = [B.char n])
    (hpad : f A.pad = [B.pad]) (s : Bytes) : (text A s).flatMap f = text B s := by
  have hmap : ∀ l : List Nat, (∀ n ∈ l, n < 64) → (l.map A.char).flatMap f = l.map B.char := by
    intro l hl
    induction l with
    | nil => rfl
    | cons n l ih =>
      rw [List.map_cons, List.flatMap_cons, hchar n (hl n List.mem_cons_self), ih fun m hm => hl m (List.mem_cons_of_mem n hm)]
      rfl
  have hpads : ∀ k, (List.replicate k A.pad).flatMap f = List.replicate k B.pad := by
    intro k
    induction k with
    | zero => rfl
    | succ k ih =>
      rw [List.replicate_succ, List.flatMap_cons, hpad, ih]
      rfl
  rw [text_eq, text_eq, List.flatMap_append, hmap _ (sextets_lt s), hpads]

end Base64
