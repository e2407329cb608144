import Mathlib.Data.List.TakeWhile
import Mathlib.Tactic.Ring
import Mathlib.Tactic.Positivity
import OriginDB.Lib.Json
import OriginDB.Lib.Numbers
/-!
# What rounding keeps

A number of 53 bits is its own nearest double (`roundRatio_exact`): every finite double is the nearest one to the ratio
it stands for, and an integer below 2⁵³ comes back from its double. An integer from 2⁵³ on may not, but its double is
no smaller.
-/
namespace Numbers

open JsonDoc

/-! ## The exponent -/

section
variable {num den m : Nat} {e : Int}

/-- `num / den / 2 ^ e` as a ratio. -/
def numAt (num : Nat) (e : Int) : Nat := num * 2 ^ (-e).toNat

def denAt (den : Nat) (e : Int) : Nat := den * 2 ^ e.toNat

theorem denAt_pos (hd : 0 < den) (e : Int) : 0 < denAt den e := by
  unfold denAt
  positivity

/-- The same number at two exponents. -/
theorem at_le (num den : Nat) {e e' : Int} (h : e ≤ e') :
    numAt num e * denAt den e' = numAt num e' * denAt den e * 2 ^ (e' - e).toNat := by
  unfold numAt denAt
  have hexp : (-e).toNat + e'.toNat = (-e').toNat + e.toNat + (e' - e).toNat := by omega
  calc num * 2 ^ (-e).toNat * (den * 2 ^ e'.toNat)
      = num * den * 2 ^ ((-e).toNat + e'.toNat) := by rw [Nat.pow_add]; ring
    _ = num * den * 2 ^ ((-e').toNat + e.toNat + (e' - e).toNat) := by rw [hexp]
    _ = num * 2 ^ (-e').toNat * (den * 2 ^ e.toNat) * 2 ^ (e' - e).toNat := by rw [Nat.pow_add, Nat.pow_add]; ring

/-- The exponent leaves between 2⁵² and 2⁵³. -/
theorem exponentOf_spec (hn : 0 < num) (hd : 0 < den) :
    2 ^ 52 * denAt den (exponentOf num den) ≤ numAt num (exponentOf num den) ∧
    numAt num (exponentOf num den) < 2 ^ 53 * denAt den (exponentOf num den) := by
  have hnum := Nat.log2_self_le hn.ne'
  have hnum' := Nat.lt_log2_self (n := num)
  have hden := Nat.log2_self_le hd.ne'
  have hden' := Nat.lt_log2_self (n := den)
  generalize he : (num.log2 : Int) - den.log2 - 53 = e
  have hlog : num.log2 + (-e).toNat = den.log2 + 53 + e.toNat := by omega
  have hlow : 2 ^ 52 * denAt den e ≤ numAt num e := by
    calc 2 ^ 52 * (den * 2 ^ e.toNat)
        ≤ 2 ^ 52 * (2 ^ (den.log2 + 1) * 2 ^ e.toNat) := by gcongr
      _ = 2 ^ (den.log2 + 53 + e.toNat) := by rw [← Nat.pow_add, ← Nat.pow_add]; congr 1; omega
      _ = 2 ^ num.log2 * 2 ^ (-e).toNat := by rw [← hlog, Nat.pow_add]
      _ ≤ num * 2 ^ (-e).toNat := by gcongr
  have hhigh : numAt num e < 2 ^ 54 * denAt den e := by
    calc num * 2 ^ (-e).toNat
        < 2 ^ (num.log2 + 1) * 2 ^ (-e).toNat := by gcongr
      _ = 2 ^ (den.log2 + 54 + e.toNat) := by rw [← Nat.pow_add]; congr 1; omega
      _ = 2 ^ 54 * (2 ^ den.log2 * 2 ^ e.toNat) := by rw [← Nat.pow_add, ← Nat.pow_add]; congr 1; omega
      _ ≤ 2 ^ 54 * (den * 2 ^ e.toNat) := by gcongr
  have hpos := denAt_pos hd e
  have hchoice : exponentOf num den = if numAt num e / denAt den e < 2 ^ 53 then e else e + 1 := by
    unfold exponentOf numAt denAt
    rw [← he]
  rw [hchoice]
  by_cases hfits : numAt num e / denAt den e < 2 ^ 53
  · rw [if_pos hfits]
    exact ⟨hlow, (Nat.div_lt_iff_lt_mul hpos).1 hfits⟩
  · -- one bit too many
    rw [if_neg hfits]
    have hmany : 2 ^ 53 * denAt den e ≤ numAt num e := (Nat.le_div_iff_mul_le hpos).1 (by omega)
    have hshift := at_le num den (show e ≤ e + 1 by omega)
    rw [show (e + 1 - e).toNat = 1 by omega, Nat.pow_one] at hshift
    constructor
    · refine Nat.le_of_mul_le_mul_right (c := 2 * denAt den e) ?_ (by omega)
      calc 2 ^ 52 * denAt den (e + 1) * (2 * denAt den e)
          = 2 ^ 53 * denAt den e * denAt den (e + 1) := by ring
        _ ≤ numAt num e * denAt den (e + 1) := Nat.mul_le_mul_right _ hmany
        _ = numAt num (e + 1) * (2 * denAt den e) := by rw [hshift]; ring
    · refine Nat.lt_of_mul_lt_mul_right (a := 2 * denAt den e) ?_
      calc numAt num (e + 1) * (2 * denAt den e)
          = numAt num e * denAt den (e + 1) := by rw [hshift]; ring
        _ < 2 ^ 54 * denAt den e * denAt den (e + 1) := Nat.mul_lt_mul_of_pos_right hhigh (denAt_pos hd _)
        _ = 2 ^ 53 * denAt den (e + 1) * (2 * denAt den e) := by ring

/-- At a smaller exponent there are more bits. -/
theorem numAt_ge {e' : Int} (hd : 0 < den) (h : e < e') (hlow : 2 ^ 52 * denAt den e' ≤ numAt num e') :
    2 ^ 53 * denAt den e ≤ numAt num e := by
  refine Nat.le_of_mul_le_mul_right (c := denAt den e') ?_ (denAt_pos hd e')
  have htwo : 2 ≤ 2 ^ (e' - e).toNat := Nat.le_self_pow (by omega) 2
  calc 2 ^ 53 * denAt den e * denAt den e'
      = 2 ^ 52 * denAt den e' * denAt den e * 2 := by ring
    _ ≤ numAt num e' * denAt den e * 2 ^ (e' - e).toNat := by gcongr
    _ = numAt num e * denAt den e' := (at_le num den h.le).symm

/-- With fewer bits left, the exponent is smaller. -/
theorem exponentOf_lt (hn : 0 < num) (hd : 0 < den) (hfew : numAt num e < 2 ^ 52 * denAt den e) :
    exponentOf num den < e := by
  obtain ⟨hlow, -⟩ := exponentOf_spec hn hd
  by_contra hge
  rcases lt_or_eq_of_le (not_lt.1 hge) with hlt | rfl
  · have := numAt_ge hd hlt hlow
    have := denAt_pos hd e
    omega
  · omega

/-- An exponent that leaves 53 bits is the exponent. -/
theorem exponentOf_eq (hn : 0 < num) (hd : 0 < den) (hlow : 2 ^ 52 * denAt den e ≤ numAt num e)
    (hhigh : numAt num e < 2 ^ 53 * denAt den e) : exponentOf num den = e := by
  obtain ⟨hlow', hhigh'⟩ := exponentOf_spec hn hd
  rcases lt_trichotomy (exponentOf num den) e with hlt | heq | hgt
  · have := numAt_ge hd hlt hlow
    omega
  · exact heq
  · have := numAt_ge hd hgt hlow'
    omega

/-! ## Rounding -/

/-- What needs no rounding. -/
theorem roundAt_exact (hd : 0 < den) (h : numAt num e = m * denAt den e) : roundAt num den e = (m, false) := by
  have hpos := denAt_pos hd e
  have h' : num * 2 ^ (-e).toNat = m * (den * 2 ^ e.toNat) := h
  unfold roundAt
  simp only [h', Nat.mul_div_cancel m (show 0 < den * 2 ^ e.toNat from hpos), Nat.mul_mod_left]
  simp [hd.ne']

/-- **A number of 53 bits is its own double.** -/
theorem roundRatio_exact (hd : 0 < den) (hm : 0 < m) (hbits : m < 2 ^ 53) (he : -1074 ≤ e) (he' : e ≤ 971)
    (hnormal : 2 ^ 52 ≤ m ∨ e = -1074) (h : numAt num e = m * denAt den e) :
    roundRatio num den = UInt64.ofNat ((e + 1074).toNat * 2 ^ 52 + m) := by
  have hpos := denAt_pos hd e
  have hn : 0 < num := by
    rcases Nat.eq_zero_or_pos num with rfl | hn
    · have : 0 < m * denAt den e := Nat.mul_pos hm hpos
      rw [← h, numAt] at this
      omega
    · exact hn
  have hmax : max (exponentOf num den) (-1074) = e := by
    by_cases hfull : 2 ^ 52 ≤ m
    · rw [exponentOf_eq hn hd (by rw [h]; gcongr) (by rw [h]; gcongr)]
      omega
    · have := exponentOf_lt hn hd (e := e) (by rw [h]; gcongr; omega)
      omega
  unfold roundRatio
  rw [if_neg hn.ne']
  simp only [hmax, roundAt_exact hd h]
  have hnat : ((e + 1074) * 2 ^ 52 + (m : Int)).toNat = (e + 1074).toNat * 2 ^ 52 + m := by omega
  rw [hnat, if_neg (by omega)]

end

/-! ## The fields of a double -/

section
variable (bits : UInt64)

theorem toNat_exponentField : ((bits >>> 52) &&& 0x7ff).toNat = bits.toNat / 2 ^ 52 % 2 ^ 11 := by
  have h := Nat.and_two_pow_sub_one_eq_mod (bits.toNat / 2 ^ 52) 11
  simpa [Nat.shiftRight_eq_div_pow] using h

theorem toNat_mantissaField : (bits &&& 0xfffffffffffff).toNat = bits.toNat % 2 ^ 52 := by
  have h := Nat.and_two_pow_sub_one_eq_mod bits.toNat 52
  simpa using h

theorem negative_iff : bits >>> 63 = 1 ↔ 2 ^ 63 ≤ bits.toNat := by
  have hlt := bits.toNat_lt
  have hshift : (bits >>> 63).toNat = bits.toNat / 2 ^ 63 := by simp [Nat.shiftRight_eq_div_pow]
  rw [← UInt64.toNat_inj, hshift]
  have : (1 : UInt64).toNat = 1 := rfl
  omega

theorem nonFinite_iff : Json.nonFinite bits = true ↔ bits.toNat / 2 ^ 52 % 2 ^ 11 = 2047 := by
  have hmask : bits.toNat &&& (2047 * 2 ^ 52) = (bits.toNat / 2 ^ 52 % 2 ^ 11) * 2 ^ 52 := by
    rw [← Nat.shiftLeft_eq, ← Nat.shiftLeft_eq, ← Nat.shiftRight_eq_div_pow]
    apply Nat.eq_of_testBit_eq
    intro i
    rw [show 2047 = 2 ^ 11 - 1 from rfl, Nat.testBit_and, Nat.testBit_shiftLeft, Nat.testBit_shiftLeft,
      Nat.testBit_two_pow_sub_one, Nat.testBit_mod_two_pow, Nat.testBit_shiftRight]
    by_cases hi : 52 ≤ i
    · simp [hi, Bool.and_comm]
    · simp [hi]
  rw [Json.nonFinite, decide_eq_true_eq, ← UInt64.toNat_inj, UInt64.toNat_and]
  have hconst : (0x7ff0000000000000 : UInt64).toNat = 2047 * 2 ^ 52 := rfl
  rw [hconst, hmask]
  omega

end

theorem toNat_withSign (neg : Bool) {b : UInt64} (hb : b.toNat < 2 ^ 63) :
    (withSign neg b).toNat = (if neg then 2 ^ 63 else 0) + b.toNat := by
  cases neg with
  | false => simp [withSign]
  | true =>
    have h := Nat.shiftLeft_add_eq_or_of_lt hb 1
    have hconst : (0x8000000000000000 : UInt64).toNat = 2 ^ 63 := rfl
    simp only [withSign, if_true, UInt64.toNat_or, hconst]
    rw [Nat.or_comm]
    simpa [Nat.shiftLeft_eq] using h.symm

/-! ## Integers -/

section
variable {n : Nat}

theorem denAt_one {e : Int} (he : e ≤ 0) : denAt 1 e = 1 := by
  simp [denAt, show e.toNat = 0 by omega]

/-- The 53 bits of a small integer. -/
theorem normalized (h0 : 0 < n) (h : n < 2 ^ 53) :
    2 ^ 52 ≤ n * 2 ^ (52 - n.log2) ∧ n * 2 ^ (52 - n.log2) < 2 ^ 53 := by
  have hlog : n.log2 < 53 := (Nat.log2_lt h0.ne').2 h
  constructor
  · calc 2 ^ 52 = 2 ^ n.log2 * 2 ^ (52 - n.log2) := by rw [← Nat.pow_add]; congr 1; omega
      _ ≤ n * 2 ^ (52 - n.log2) := by gcongr; exact Nat.log2_self_le h0.ne'
  · calc n * 2 ^ (52 - n.log2) < 2 ^ (n.log2 + 1) * 2 ^ (52 - n.log2) := by gcongr; exact Nat.lt_log2_self
      _ = 2 ^ 53 := by rw [← Nat.pow_add]; congr 1; omega

theorem toNat_roundRatio_nat (h0 : 0 < n) (h : n < 2 ^ 53) :
    (roundRatio n 1).toNat = (n.log2 + 1022) * 2 ^ 52 + n * 2 ^ (52 - n.log2) := by
  have hlog : n.log2 < 53 := (Nat.log2_lt h0.ne').2 h
  obtain ⟨hlow, hhigh⟩ := normalized h0 h
  have hsame : numAt n ((n.log2 : Int) - 52) = n * 2 ^ (52 - n.log2) * denAt 1 ((n.log2 : Int) - 52) := by
    rw [denAt_one (by omega), numAt, show (-((n.log2 : Int) - 52)).toNat = 52 - n.log2 by omega]
    omega
  rw [roundRatio_exact Nat.one_pos (by omega) hhigh (by omega) (by omega) (.inl hlow) hsame, show ((n.log2 : Int) - 52 + 1074).toNat = n.log2 + 1022 by omega, UInt64.toNat_ofNat_of_lt']
  show _ < 2 ^ 64
  omega

/-- From 2⁵³ on the double is at least that of 2⁵³, and finite while there are 64 bits. -/
theorem toNat_roundRatio_large (h : 2 ^ 53 ≤ n) (h' : n < 2 ^ 64) :
    0x4340000000000000 ≤ (roundRatio n 1).toNat ∧ (roundRatio n 1).toNat < 0x7ff0000000000000 := by
  have h0 : 0 < n := by omega
  obtain ⟨hlow, hhigh⟩ := exponentOf_spec h0 Nat.one_pos
  generalize he : exponentOf n 1 = e at hlow hhigh
  have hpos : 0 < e := by
    by_contra hneg
    rw [denAt_one (not_lt.1 hneg), numAt] at hhigh
    have : n * 1 ≤ n * 2 ^ (-e).toNat := Nat.mul_le_mul_left n Nat.one_le_two_pow
    omega
  have hden : denAt 1 e = 2 ^ e.toNat := by simp [denAt]
  have hnum : numAt n e = n := by simp [numAt, show (-e).toNat = 0 by omega]
  rw [hden, hnum] at hlow hhigh
  have hsmall : e < 12 := by
    by_contra hbig
    have : 2 ^ 12 ≤ 2 ^ e.toNat := Nat.pow_le_pow_right (by omega) (by omega)
    omega
  have hround : 2 ^ 52 ≤ (roundAt n 1 e).1 ∧ (roundAt n 1 e).1 ≤ 2 ^ 53 := by
    have hquot : 2 ^ 52 ≤ n / 2 ^ e.toNat ∧ n / 2 ^ e.toNat < 2 ^ 53 :=
      ⟨(Nat.le_div_iff_mul_le (by positivity)).2 hlow, (Nat.div_lt_iff_lt_mul (by positivity)).2 hhigh⟩
    unfold roundAt
    simp only [show (-e).toNat = 0 by omega, Nat.pow_zero, Nat.mul_one, Nat.one_mul]
    split <;> omega
  unfold roundRatio
  rw [if_neg h0.ne']
  simp only [he, show max e (-1074) = e by omega]
  rw [if_neg (by omega), UInt64.toNat_ofNat_of_lt']
  · omega
  · show _ < 2 ^ 64
    omega

end

/-- A double cut off, from its fields. -/
theorem truncDouble_withSign (neg : Bool) {b : UInt64} (exp man : Nat) (hb : b.toNat < 2 ^ 63)
    (hexp : b.toNat / 2 ^ 52 = exp) (hman : b.toNat % 2 ^ 52 + (if exp = 0 then 0 else 2 ^ 52) = man) :
    Json.truncDouble (withSign neg b) =
      (if neg then -1 else 1) * ((if 1075 ≤ exp then man * 2 ^ (exp - 1075) else man / 2 ^ (1075 - exp) : Nat) : Int) := by
  have hbits := toNat_withSign neg hb
  have hexp' : (withSign neg b).toNat / 2 ^ 52 % 2 ^ 11 = exp := by
    rw [hbits]
    cases neg <;> simp only [Bool.false_eq_true, if_true, if_false] <;> omega
  have hman' : (withSign neg b).toNat % 2 ^ 52 = b.toNat % 2 ^ 52 := by
    rw [hbits]
    cases neg <;> simp only [Bool.false_eq_true, if_true, if_false] <;> omega
  have hsign : withSign neg b >>> 63 = 1 ↔ neg = true := by
    rw [negative_iff, hbits]
    cases neg with
    | false => simp only [Bool.false_eq_true, if_false, iff_false]; omega
    | true => simp only [if_true, iff_true]; omega
  unfold Json.truncDouble
  simp only [toNat_exponentField, toNat_mantissaField, hexp', hman', hman, hsign]
  cases neg with
  | false => simp only [Bool.false_eq_true, if_false, Int.one_mul]
  | true => simp only [if_true, Int.neg_one_mul]

/-- **An integer below 2⁵³ comes back from its double.** -/
theorem truncDouble_ofInt {v : Int} (h : v.natAbs < 2 ^ 53) : Json.truncDouble (ofInt v) = v := by
  have hsign : (if decide (v < 0) = true then -1 else 1) * (v.natAbs : Int) = v := by
    by_cases hneg : v < 0 <;> simp only [hneg, decide_true, decide_false, if_true, Bool.false_eq_true, if_false] <;> omega
  rcases Nat.eq_zero_or_pos v.natAbs with hzero | hpos
  · have htrunc := truncDouble_withSign (v < 0) (b := 0) 0 0 (by decide) rfl rfl
    rw [ofInt, hzero, show roundRatio 0 1 = 0 from rfl, htrunc]
    simp only [show ¬ 1075 ≤ 0 by omega, if_false, Nat.zero_div, Int.natCast_zero, Int.mul_zero]
    exact (Int.natAbs_eq_zero.1 hzero).symm
  · have hb := toNat_roundRatio_nat hpos h
    obtain ⟨hlow, hhigh⟩ := normalized hpos h
    have hlog : v.natAbs.log2 < 53 := (Nat.log2_lt hpos.ne').2 h
    have htrunc := truncDouble_withSign (v < 0) (b := roundRatio v.natAbs 1) (v.natAbs.log2 + 1023)
      (v.natAbs * 2 ^ (52 - v.natAbs.log2)) (by omega) (by omega) (by rw [if_neg (by omega)]; omega)
    have hback : (if 1075 ≤ v.natAbs.log2 + 1023 then v.natAbs * 2 ^ (52 - v.natAbs.log2) * 2 ^ (v.natAbs.log2 + 1023 - 1075)
        else v.natAbs * 2 ^ (52 - v.natAbs.log2) / 2 ^ (1075 - (v.natAbs.log2 + 1023))) = v.natAbs := by
      by_cases h52 : 1075 ≤ v.natAbs.log2 + 1023
      · rw [if_pos h52, show 52 - v.natAbs.log2 = 0 by omega, show v.natAbs.log2 + 1023 - 1075 = 0 by omega]
        omega
      · rw [if_neg h52, show 1075 - (v.natAbs.log2 + 1023) = 52 - v.natAbs.log2 by omega]
        exact Nat.mul_div_cancel _ (by positivity)
    rw [ofInt, htrunc, hback]
    exact hsign

/-! ## Rounding keeps the order -/

/-- Rounding a larger number at the same place gives no smaller one. -/
theorem roundAt_mono {num num' den : Nat} (e : Int) (hd : 0 < den) (h : num ≤ num') :
    (roundAt num den e).1 ≤ (roundAt num' den e).1 := by
  have hpos : 0 < den * 2 ^ e.toNat := by positivity
  have hle : num * 2 ^ (-e).toNat ≤ num' * 2 ^ (-e).toNat := Nat.mul_le_mul_right _ h
  unfold roundAt
  simp only
  generalize num * 2 ^ (-e).toNat = a at *
  generalize num' * 2 ^ (-e).toNat = b at *
  generalize den * 2 ^ e.toNat = d at *
  have hquot : a / d ≤ b / d := Nat.div_le_div_right hle
  have ha := Nat.div_add_mod a d
  have hb := Nat.div_add_mod b d
  rcases lt_or_eq_of_le hquot with hlt | heq
  · split <;> split <;> omega
  · -- the same quotient, so the remainders are in order
    rw [← heq] at hb ⊢
    have hrem : a % d ≤ b % d := by omega
    split <;> split <;> omega

theorem exponentOf_mono {n m : Nat} (h0 : 0 < n) (h : n ≤ m) : exponentOf n 1 ≤ exponentOf m 1 := by
  by_contra hlt
  obtain ⟨hlow, -⟩ := exponentOf_spec h0 Nat.one_pos
  obtain ⟨-, hhigh⟩ := exponentOf_spec (show 0 < m by omega) Nat.one_pos
  have hmany := numAt_ge Nat.one_pos (not_le.1 hlt) hlow
  have hle : numAt n (exponentOf m 1) ≤ numAt m (exponentOf m 1) := Nat.mul_le_mul_right _ h
  omega

/-- The double of an integer of 64 bits: its exponent, and the 53 bits it is rounded to. -/
theorem toNat_roundRatio_int {n : Nat} (h0 : 0 < n) (h : n < 2 ^ 64) :
    -52 ≤ exponentOf n 1 ∧ exponentOf n 1 < 12 ∧
      2 ^ 52 ≤ (roundAt n 1 (exponentOf n 1)).1 ∧ (roundAt n 1 (exponentOf n 1)).1 ≤ 2 ^ 53 ∧
      (roundRatio n 1).toNat = (exponentOf n 1 + 1074).toNat * 2 ^ 52 + (roundAt n 1 (exponentOf n 1)).1 := by
  obtain ⟨hlow, hhigh⟩ := exponentOf_spec h0 Nat.one_pos
  generalize he : exponentOf n 1 = e at hlow hhigh ⊢
  have hfrom : -52 ≤ e := by
    by_contra hless
    have hpow : 2 ^ 53 ≤ 2 ^ (-e).toNat := Nat.pow_le_pow_right (by omega) (by omega)
    have hmul : 1 * 2 ^ 53 ≤ n * 2 ^ (-e).toNat := Nat.mul_le_mul h0 hpow
    rw [denAt_one (by omega), numAt] at hhigh
    omega
  have hto : e < 12 := by
    by_contra hmore
    have hpow : 2 ^ 12 ≤ 2 ^ e.toNat := Nat.pow_le_pow_right (by omega) (by omega)
    have hden : denAt 1 e = 2 ^ e.toNat := by simp [denAt]
    have hnum : numAt n e = n := by simp [numAt, show (-e).toNat = 0 by omega]
    rw [hden, hnum] at hlow
    omega
  have hround : 2 ^ 52 ≤ (roundAt n 1 e).1 ∧ (roundAt n 1 e).1 ≤ 2 ^ 53 := by
    have hpos := denAt_pos Nat.one_pos e
    have hquot : 2 ^ 52 ≤ numAt n e / denAt 1 e ∧ numAt n e / denAt 1 e < 2 ^ 53 :=
      ⟨(Nat.le_div_iff_mul_le hpos).2 hlow, (Nat.div_lt_iff_lt_mul hpos).2 hhigh⟩
    have hroundAt : (roundAt n 1 e).1 = if denAt 1 e < 2 * (numAt n e % denAt 1 e) ∨
        (2 * (numAt n e % denAt 1 e) = denAt 1 e ∧ numAt n e / denAt 1 e % 2 = 1) then numAt n e / denAt 1 e + 1
        else numAt n e / denAt 1 e := rfl
    rw [hroundAt]
    split <;> omega
  refine ⟨hfrom, hto, hround.1, hround.2, ?_⟩
  unfold roundRatio
  rw [if_neg h0.ne']
  simp only [he, show max e (-1074) = e by omega]
  rw [if_neg (by omega), UInt64.toNat_ofNat_of_lt']
  · omega
  · show _ < 2 ^ 64
    omega

/-- **Conversion to a double keeps the order** of naturals of 64 bits. -/
theorem toNat_roundRatio_mono {n m : Nat} (h : n ≤ m) (hm : m < 2 ^ 64) : (roundRatio n 1).toNat ≤ (roundRatio m 1).toNat := by
  rcases Nat.eq_zero_or_pos n with rfl | h0
  · exact Nat.zero_le _
  · obtain ⟨hfrom, -, hlow, hhigh, hn⟩ := toNat_roundRatio_int h0 (by omega)
    obtain ⟨-, -, hlow', -, hm'⟩ := toNat_roundRatio_int (show 0 < m by omega) hm
    have hexp := exponentOf_mono h0 h
    rw [hn, hm']
    rcases lt_or_eq_of_le hexp with hlt | heq
    · omega
    · have hround := roundAt_mono (exponentOf n 1) Nat.one_pos h
      rw [← heq]
      omega

theorem toNat_roundRatio_lt {n : Nat} (h : n < 2 ^ 64) : (roundRatio n 1).toNat < 0x7ff0000000000000 := by
  rcases Nat.eq_zero_or_pos n with rfl | h0
  · decide
  · obtain ⟨-, hto, -, hhigh, hn⟩ := toNat_roundRatio_int h0 h
    rw [hn]
    omega

/-! ## Integers among the doubles -/

theorem toNat_magnitude (bits : UInt64) : (bits &&& 0x7fffffffffffffff).toNat = bits.toNat % 2 ^ 63 := by
  have h := Nat.and_two_pow_sub_one_eq_mod bits.toNat 63
  simpa using h

theorem rank_withSign (neg : Bool) {b : UInt64} (hb : b.toNat < 2 ^ 63) :
    rank (withSign neg b) = if neg then -(b.toNat : Int) else b.toNat := by
  have hbits := toNat_withSign neg hb
  unfold rank
  rw [toNat_magnitude, hbits]
  cases neg with
  | false =>
    have hpositive : ¬ withSign false b >>> 63 = 1 := by
      rw [negative_iff, hbits]
      simp only [Bool.false_eq_true, if_false]
      omega
    simp only [hpositive, Bool.false_eq_true, if_false]
    omega
  | true =>
    have hnegative : withSign true b >>> 63 = 1 := by
      rw [negative_iff, hbits]
      simp only [if_true]
      omega
    simp only [hnegative, if_true]
    omega

theorem isNaN_withSign (neg : Bool) {b : UInt64} (hb : b.toNat ≤ 0x7ff0000000000000) : isNaN (withSign neg b) = false := by
  have hbits := toNat_withSign neg (show b.toNat < 2 ^ 63 by omega)
  unfold isNaN
  rw [decide_eq_false_iff_not, gt_iff_lt, UInt64.lt_iff_toNat_lt, toNat_magnitude, hbits]
  have hconst : (0x7ff0000000000000 : UInt64).toNat = 0x7ff0000000000000 := rfl
  rw [hconst]
  split <;> omega

/-- The place of an integer's double among the doubles. -/
def rounded (v : Int) : Int := rank (ofInt v)

theorem rounded_eq {v : Int} (h : v.natAbs < 2 ^ 64) :
    rounded v = if v < 0 then -((roundRatio v.natAbs 1).toNat : Int) else (roundRatio v.natAbs 1).toNat := by
  have hlt := toNat_roundRatio_lt h
  rw [rounded, ofInt, rank_withSign _ (by omega)]
  simp only [decide_eq_true_eq]

/-- **Rounding keeps the order** of integers, though it may make them equal. -/
theorem rounded_mono {v w : Int} (hv : v.natAbs < 2 ^ 64) (hw : w.natAbs < 2 ^ 64) (h : v ≤ w) : rounded v ≤ rounded w := by
  rw [rounded_eq hv, rounded_eq hw]
  by_cases hneg : v < 0
  · by_cases hneg' : w < 0
    · have hmono := toNat_roundRatio_mono (show w.natAbs ≤ v.natAbs by omega) hv
      rw [if_pos hneg, if_pos hneg']
      omega
    · rw [if_pos hneg, if_neg hneg']
      omega
  · have hmono := toNat_roundRatio_mono (show v.natAbs ≤ w.natAbs by omega) hw
    rw [if_neg hneg, if_neg (by omega)]
    omega

/-- Integers below 2⁵³ stay apart. -/
theorem rounded_injective {v w : Int} (hv : v.natAbs < 2 ^ 53) (hw : w.natAbs < 2 ^ 53) (h : rounded v = rounded w) : v = w := by
  have hpos : ∀ {n : Nat}, 0 < n → n < 2 ^ 53 → 0 < (roundRatio n 1).toNat := by
    intro n h0 hn
    rw [toNat_roundRatio_nat h0 hn]
    positivity
  rw [rounded_eq (by omega), rounded_eq (by omega)] at h
  have hsign : v < 0 ↔ w < 0 := by
    constructor
    · intro hneg
      have hpos' := hpos (n := v.natAbs) (by omega) hv
      rw [if_pos hneg] at h
      by_contra hno
      rw [if_neg hno] at h
      omega
    · intro hneg
      have hpos' := hpos (n := w.natAbs) (by omega) hw
      rw [if_pos hneg] at h
      by_contra hno
      rw [if_neg hno] at h
      omega
  have hmagnitude : (roundRatio v.natAbs 1).toNat = (roundRatio w.natAbs 1).toNat := by
    by_cases hneg : v < 0
    · rw [if_pos hneg, if_pos (hsign.1 hneg)] at h
      omega
    · rw [if_neg hneg, if_neg fun hneg' => hneg (hsign.2 hneg')] at h
      omega
  have hsame : ofInt v = ofInt w := by
    rw [ofInt, ofInt, UInt64.toNat_inj.1 hmagnitude, decide_eq_decide.2 hsign]
  have hback := truncDouble_ofInt hv
  rw [hsame, truncDouble_ofInt hw] at hback
  exact hback.symm

/-! ## Integers are finite -/

theorem toNat_ofInt_mod {v : Int} (h : v.natAbs < 2 ^ 64) : (ofInt v).toNat % 2 ^ 63 = (roundRatio v.natAbs 1).toNat := by
  have hlt := toNat_roundRatio_lt h
  rw [ofInt, toNat_withSign _ (by omega)]
  split <;> omega

theorem isNaN_ofInt {v : Int} (h : v.natAbs < 2 ^ 64) : isNaN (ofInt v) = false := by
  have hlt := toNat_roundRatio_lt h
  exact isNaN_withSign _ (by omega)

theorem nonFinite_ofInt {v : Int} (h : v.natAbs < 2 ^ 64) : Json.nonFinite (ofInt v) = false := by
  rw [Bool.eq_false_iff, ne_eq, nonFinite_iff]
  have hlt := toNat_roundRatio_lt h
  have hmod := toNat_ofInt_mod h
  omega

theorem doubleEq_self {bits : UInt64} (h : isNaN bits = false) : doubleEq bits bits = true := by simp [doubleEq, h]

theorem magnitude_ofInt {v : Int} (h : v.natAbs < 2 ^ 64) :
    ofInt v &&& 0x7fffffffffffffff = withSign false (roundRatio v.natAbs 1) := by
  apply UInt64.toNat_inj.1
  rw [toNat_magnitude, toNat_ofInt_mod h]
  rfl

/-- An integer below 2⁵³ is one by its magnitude. -/
theorem doubleLt_magnitude {v : Int} (h : v.natAbs < 2 ^ 53) :
    doubleLt (ofInt v &&& 0x7fffffffffffffff) 0x4340000000000000 = true := by
  have hmagnitude := magnitude_ofInt (show v.natAbs < 2 ^ 64 by omega)
  have hlt : (roundRatio v.natAbs 1).toNat < 0x4340000000000000 := by
    obtain hzero | hpos := Nat.eq_zero_or_pos v.natAbs
    · rw [hzero]
      decide
    · obtain ⟨-, hhigh⟩ := normalized hpos h
      have hlog : v.natAbs.log2 < 53 := (Nat.log2_lt hpos.ne').2 h
      rw [toNat_roundRatio_nat hpos h]
      omega
  have hrank := rank_withSign false (show (roundRatio v.natAbs 1).toNat < 2 ^ 63 by omega)
  have hnan : isNaN (withSign false (roundRatio v.natAbs 1)) = false := isNaN_withSign false (by omega)
  have hconst : rank 0x4340000000000000 = 0x4340000000000000 := by decide
  have hconstNaN : isNaN 0x4340000000000000 = false := by decide
  rw [hmagnitude, doubleLt, hnan, hconstNaN, hrank, hconst]
  simpa using hlt

/-- From 2⁵³ on the magnitude is no longer below that of 2⁵³. -/
theorem doubleLt_magnitude_large {v : Int} (h : 2 ^ 53 ≤ v.natAbs) (h' : v.natAbs < 2 ^ 64) :
    doubleLt (ofInt v &&& 0x7fffffffffffffff) 0x4340000000000000 = false := by
  obtain ⟨hlow, hhigh⟩ := toNat_roundRatio_large h h'
  have hmagnitude := magnitude_ofInt h'
  have hrank := rank_withSign false (show (roundRatio v.natAbs 1).toNat < 2 ^ 63 by omega)
  have hconst : rank 0x4340000000000000 = 0x4340000000000000 := by decide
  rw [hmagnitude, doubleLt, hrank, hconst, Bool.and_eq_false_iff]
  right
  simpa using hlow

/-- A double of a magnitude below 2⁵³ is cut off to an integer below 2⁵³. -/
theorem natAbs_truncDouble_lt {bits : UInt64} (h : doubleLt (bits &&& 0x7fffffffffffffff) 0x4340000000000000 = true) :
    (Json.truncDouble bits).natAbs < 2 ^ 53 := by
  have hconst : rank 0x4340000000000000 = 0x4340000000000000 := by decide
  have hmagnitude : bits &&& 0x7fffffffffffffff = withSign false (UInt64.ofNat (bits.toNat % 2 ^ 63)) := by
    apply UInt64.toNat_inj.1
    rw [toNat_magnitude, withSign, if_neg (by simp), UInt64.toNat_ofNat_of_lt' (by show _ < 2 ^ 64; omega)]
  have hval : (UInt64.ofNat (bits.toNat % 2 ^ 63)).toNat = bits.toNat % 2 ^ 63 :=
    UInt64.toNat_ofNat_of_lt' (by show _ < 2 ^ 64; omega)
  have hrank := rank_withSign false (show (UInt64.ofNat (bits.toNat % 2 ^ 63)).toNat < 2 ^ 63 by omega)
  rw [hmagnitude, doubleLt, hrank, hconst, hval] at h
  simp only [Bool.and_eq_true, decide_eq_true_eq, Bool.false_eq_true, if_false] at h
  have hlt : bits.toNat % 2 ^ 63 < 1076 * 2 ^ 52 := by omega
  have hexp : bits.toNat / 2 ^ 52 % 2 ^ 11 ≤ 1075 := by omega
  have hman : bits.toNat % 2 ^ 52 + (if bits.toNat / 2 ^ 52 % 2 ^ 11 = 0 then 0 else 2 ^ 52) < 2 ^ 53 := by
    split <;> omega
  unfold Json.truncDouble
  simp only [toNat_exponentField, toNat_mantissaField]
  generalize bits.toNat % 2 ^ 52 + (if bits.toNat / 2 ^ 52 % 2 ^ 11 = 0 then 0 else 2 ^ 52) = man at hman ⊢
  have hmag : (if 1075 ≤ bits.toNat / 2 ^ 52 % 2 ^ 11 then man * 2 ^ (bits.toNat / 2 ^ 52 % 2 ^ 11 - 1075)
      else man / 2 ^ (1075 - bits.toNat / 2 ^ 52 % 2 ^ 11)) < 2 ^ 53 := by
    split
    · rw [show bits.toNat / 2 ^ 52 % 2 ^ 11 - 1075 = 0 by omega]
      omega
    · exact lt_of_le_of_lt (Nat.div_le_self _ _) hman
  split <;> omega

/-- Doubles at one place are the same, or the two zeros. -/
theorem eq_of_rank_eq {a b : UInt64} (h : rank a = rank b) : a = b ∨ a = 0x8000000000000000 ∨ b = 0x8000000000000000 := by
  have hrank : ∀ bits : UInt64, rank bits = if 2 ^ 63 ≤ bits.toNat then -((bits.toNat % 2 ^ 63 : Nat) : Int) else (bits.toNat % 2 ^ 63 : Nat) := by
    intro bits
    rw [rank, toNat_magnitude]
    simp only [negative_iff]
  have hzero : ∀ bits : UInt64, bits.toNat = 2 ^ 63 → bits = 0x8000000000000000 := fun bits hbits => UInt64.toNat_inj.1 hbits
  have ha := a.toNat_lt
  have hb := b.toNat_lt
  rw [hrank, hrank] at h
  by_cases hsame : a.toNat = b.toNat
  · exact .inl (UInt64.toNat_inj.1 hsame)
  refine .inr ?_
  by_cases hneg : 2 ^ 63 ≤ a.toNat
  · by_cases hneg' : 2 ^ 63 ≤ b.toNat
    · rw [if_pos hneg, if_pos hneg'] at h
      omega
    · rw [if_pos hneg, if_neg hneg'] at h
      exact .inl (hzero a (by omega))
  · by_cases hneg' : 2 ^ 63 ≤ b.toNat
    · rw [if_neg hneg, if_pos hneg'] at h
      exact .inr (hzero b (by omega))
    · rw [if_neg hneg, if_neg hneg'] at h
      omega

/-! ## Digits -/

theorem readMantissa_digits {ds : ByteCodec.Bytes} (hne : ds ≠ []) (hdigits : ∀ c ∈ ds, Regex.isDigit c = true) :
    readMantissa Regex.isDigit ds = some (ds, [], []) := by
  have htake : ds.takeWhile Regex.isDigit = ds := List.takeWhile_eq_self_iff.2 hdigits
  have hdrop : ds.dropWhile Regex.isDigit = [] := List.dropWhile_eq_nil_iff.2 hdigits
  unfold readMantissa
  simp only [htake, hdrop, if_neg hne]

end Numbers
