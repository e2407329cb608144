import Mathlib.Data.List.Lex
import Mathlib.Data.List.TakeWhile
import OriginDB.Wasm.Deploy
/-!
# The order of versions (`CompareVersions`, `wasm_engine.cpp:245-267`)

Segments that are numbers are compared as numbers, so that versions of numbers are compared like the lists of these numbers
(`compareVersions_dotted`). A segment that is missing is the empty text, which is below any number: it is taken for a zero only
where that makes no difference (`missing_segments_iff`).
-/
namespace OriginDB

open JsonDoc ByteCodec

namespace Wasm

/-- The numbers between the dots. -/
def versionNumbers (v : Bytes) : List Nat := (versionSegments v).map Numbers.digits

/-- `n` numbers, each below `2 ^ 31`, with dots between them. -/
structure Dotted (n : Nat) (v : Bytes) : Prop where
  nonempty : v ≠ []
  length : (versionSegments v).length = n
  numeric : ∀ s ∈ versionSegments v, isNumeric s = true ∧ Numbers.digits s < 2 ^ 31

instance (n : Nat) (v : Bytes) : Decidable (Dotted n v) :=
  decidable_of_iff (v ≠ [] ∧ (versionSegments v).length = n ∧
    ∀ s ∈ versionSegments v, isNumeric s = true ∧ Numbers.digits s < 2 ^ 31)
    ⟨fun h => ⟨h.1, h.2.1, h.2.2⟩, fun h => ⟨h.nonempty, h.length, h.numeric⟩⟩

/-- `std::stol` on digits. -/
theorem stoll_digits {s : Bytes} (h : isNumeric s = true) :
    Numbers.stoll s = if Numbers.digits s < 2 ^ 63 then some (Int64.ofInt (Numbers.digits s)) else none := by
  simp only [isNumeric, Bool.and_eq_true, decide_eq_true_eq] at h
  obtain ⟨hne, hall⟩ := h
  have htake : s.takeWhile Regex.isDigit = s := List.takeWhile_eq_self_iff.2 (List.all_eq_true.1 hall)
  cases s with
  | nil => exact absurd rfl hne
  | cons c s =>
    have hc : 48 ≤ c ∧ c ≤ 57 := by
      have := List.all_eq_true.1 hall c (by simp)
      simpa [Regex.isDigit] using this
    have hspace : Regex.isSpace c = false := by
      simp only [Regex.isSpace, Bool.or_eq_false_iff, decide_eq_false_iff_not, Bool.and_eq_false_iff]
      constructor
      · rintro rfl
        exact absurd hc.1 (by decide)
      · right
        intro hle
        exact absurd (UInt8.le_trans hc.1 hle) (by decide)
    have hdrop : (c :: s).dropWhile Regex.isSpace = c :: s := by simp [hspace]
    have hsign : Numbers.readSign (c :: s) = (false, c :: s) := by
      unfold Numbers.readSign
      split
      · rename_i he
        cases he
        exact absurd hc.1 (by decide)
      · rename_i he
        cases he
        exact absurd hc.1 (by decide)
      · rfl
    rw [Numbers.stoll, hdrop, hsign]
    simp only [htake, reduceCtorEq, if_false, Bool.false_eq_true]
    by_cases hlt : Numbers.digits (c :: s) < 2 ^ 63
    · rw [if_pos hlt, if_pos (by omega)]
    · rw [if_neg hlt, if_neg (by omega)]

theorem stoll_numeric {s : Bytes} (h : isNumeric s = true) (hlt : Numbers.digits s < 2 ^ 63) :
    Numbers.stoll s = some (Int64.ofInt (Numbers.digits s)) := by
  rw [stoll_digits h, if_pos hlt]

theorem compareSegment_numeric {a b : Bytes} (ha : isNumeric a = true) (hb : isNumeric b = true)
    (hal : Numbers.digits a < 2 ^ 63) (hbl : Numbers.digits b < 2 ^ 63) :
    compareSegment a b = some (if Numbers.digits a < Numbers.digits b then -1
      else if Numbers.digits b < Numbers.digits a then 1 else 0) := by
  have hint : ∀ n : Nat, n < 2 ^ 63 → (Int64.ofInt (n : Int)).toInt = n := fun n hn =>
    Int64.toInt_ofInt_of_le (by omega) (by omega)
  simp only [compareSegment, ha, hb, Bool.and_self, if_true, stoll_numeric ha hal, stoll_numeric hb hbl, Option.bind_eq_bind,
    Option.bind_some]
  have hne : Int64.ofInt (Numbers.digits a) ≠ Int64.ofInt (Numbers.digits b) ↔ Numbers.digits a ≠ Numbers.digits b := by
    rw [not_iff_not, ← Int64.toInt_inj, hint _ hal, hint _ hbl]
    exact Nat.cast_inj
  have hlt : Int64.ofInt (Numbers.digits a) < Int64.ofInt (Numbers.digits b) ↔ Numbers.digits a < Numbers.digits b := by
    rw [Int64.lt_iff_toInt_lt, hint _ hal, hint _ hbl]
    exact Nat.cast_lt
  simp only [hne, hlt]
  by_cases h₁ : Numbers.digits a < Numbers.digits b
  · simp [h₁, Nat.ne_of_lt h₁]
  · by_cases h₂ : Numbers.digits b < Numbers.digits a
    · simp [h₁, h₂, Nat.ne_of_gt h₂]
    · simp [Nat.le_antisymm (Nat.not_lt.1 h₂) (Nat.not_lt.1 h₁)]

/-- The sign of a comparison. -/
def sign (as bs : List Nat) : Int := if as < bs then -1 else if bs < as then 1 else 0

theorem sign_cons (a b : Nat) (as bs : List Nat) :
    sign (a :: as) (b :: bs) = if a < b then -1 else if b < a then 1 else sign as bs := by
  simp only [sign, List.cons_lt_cons_iff]
  by_cases h₁ : a < b
  · simp [h₁]
  · by_cases h₂ : b < a
    · simp [h₁, h₂, Nat.ne_of_gt h₂]
    · simp [Nat.le_antisymm (Nat.not_lt.1 h₂) (Nat.not_lt.1 h₁)]

/-- A number and the empty segment of a version that has run out. -/
theorem compareSegment_missing {s : Bytes} (h : isNumeric s = true) : compareSegment [] s = some (-1) ∧ compareSegment s [] = some 1 := by
  cases s with
  | nil => cases h
  | cons c s =>
    constructor
    · simp [compareSegment, isNumeric]
    · simp [compareSegment, isNumeric]

/-- The loop over numbers: the side that runs out first is the lower one, as in the order of lists. -/
theorem compareSegments_numeric {as bs : List Bytes} (ha : ∀ s ∈ as, isNumeric s = true ∧ Numbers.digits s < 2 ^ 63)
    (hb : ∀ s ∈ bs, isNumeric s = true ∧ Numbers.digits s < 2 ^ 63) :
    compareSegments as bs = some (sign (as.map Numbers.digits) (bs.map Numbers.digits)) := by
  induction as generalizing bs with
  | nil =>
    cases bs with
    | nil => simp [compareSegments, sign]
    | cons b bs =>
      obtain ⟨hb₁, -⟩ := List.forall_mem_cons.1 hb
      rw [compareSegments, (compareSegment_missing hb₁.1).1]
      simp [sign]
  | cons a as ih =>
    obtain ⟨ha₁, ha₂⟩ := List.forall_mem_cons.1 ha
    cases bs with
    | nil =>
      rw [compareSegments, (compareSegment_missing ha₁.1).2]
      simp [sign]
    | cons b bs =>
      obtain ⟨hb₁, hb₂⟩ := List.forall_mem_cons.1 hb
      rw [compareSegments, compareSegment_numeric ha₁.1 hb₁.1 ha₁.2 hb₁.2, Option.bind_some, ih ha₂ hb₂, List.map_cons, List.map_cons,
        sign_cons]
      by_cases h₁ : Numbers.digits a < Numbers.digits b
      · simp [h₁]
      · by_cases h₂ : Numbers.digits b < Numbers.digits a
        · simp [h₁, h₂]
        · simp [h₁, h₂]

/-- **Versions of equally many numbers** are compared like the lists of these numbers. -/
theorem compareVersions_dotted {n : Nat} {a b : Bytes} (ha : Dotted n a) (hb : Dotted n b) :
    compareVersions a b = some (if versionNumbers a < versionNumbers b then -1
      else if versionNumbers b < versionNumbers a then 1 else 0) := by
  have hwide : (2 ^ 31 : Nat) < 2 ^ 63 := by decide
  exact compareSegments_numeric (fun s hs => ⟨(ha.numeric s hs).1, (ha.numeric s hs).2.trans hwide⟩)
    fun s hs => ⟨(hb.numeric s hs).1, (hb.numeric s hs).2.trans hwide⟩

theorem compareVersions_nonneg {n : Nat} {a b : Bytes} (ha : Dotted n a) (hb : Dotted n b) :
    (compareVersions a b).any (fun c => 0 ≤ c) = true ↔ versionNumbers b ≤ versionNumbers a := by
  have hle : versionNumbers b ≤ versionNumbers a ↔ ¬ versionNumbers a < versionNumbers b := not_lt.symm
  rw [compareVersions_dotted ha hb, Option.any_some, decide_eq_true_eq, hle]
  by_cases h : versionNumbers a < versionNumbers b
  · simp [h]
  · by_cases h' : versionNumbers b < versionNumbers a
    · simp [h, h']
    · simp [h, h']

/-! ## Missing segments -/

/-- Numbers below `2 ^ 63`, with dots between them. -/
def Numbered (v : Bytes) : Prop := ∀ s ∈ v.splitOn 46, isNumeric s = true ∧ Numbers.digits s < 2 ^ 63

instance (v : Bytes) : Decidable (Numbered v) :=
  inferInstanceAs (Decidable (∀ s ∈ v.splitOn 46, isNumeric s = true ∧ Numbers.digits s < 2 ^ 63))

/-- The values of the segments. -/
def segmentValues (v : Bytes) : List Nat := (v.splitOn 46).map Numbers.digits

def padded (n : Nat) (l : List Nat) : List Nat := l ++ List.replicate (n - l.length) 0

/-- The comparison "missing segments are zero" (wasm_engine.cpp:243) speaks of. -/
def comparePadded (as bs : List Nat) : Int := sign (padded (max as.length bs.length) as) (padded (max as.length bs.length) bs)

/-- One list is the other and some more zeros. -/
def MoreZeros (as bs : List Nat) : Prop := ∃ n, as = bs ++ List.replicate (n + 1) 0 ∨ bs = as ++ List.replicate (n + 1) 0

section
variable {as bs : List Nat} {a b : Bytes}

theorem comparePadded_cons (a b : Nat) (as bs : List Nat) :
    comparePadded (a :: as) (b :: bs) = if a < b then -1 else if b < a then 1 else comparePadded as bs := by
  have hmax : max (as.length + 1) (bs.length + 1) = max as.length bs.length + 1 := by omega
  simp only [comparePadded, padded, List.length_cons, List.cons_append, hmax, Nat.add_sub_add_right, sign_cons]

theorem sign_swap (as bs : List Nat) : sign as bs = -sign bs as := by
  unfold sign
  by_cases h₁ : as < bs
  · rw [if_pos h₁, if_neg (lt_asymm h₁), if_pos h₁]
  · by_cases h₂ : bs < as
    · rw [if_neg h₁, if_pos h₂, if_pos h₂]
      rfl
    · rw [if_neg h₁, if_neg h₂, if_neg h₂, if_neg h₁]
      rfl

theorem comparePadded_swap (as bs : List Nat) : comparePadded as bs = -comparePadded bs as := by
  rw [comparePadded, comparePadded, Nat.max_comm, sign_swap]

/-- Nothing is below zeros. -/
theorem sign_zeros (l : List Nat) : sign (List.replicate l.length 0) l = if l = List.replicate l.length 0 then 0 else -1 := by
  induction l with
  | nil => rfl
  | cons n l ih =>
    rw [List.length_cons, List.replicate_succ, sign_cons, ih]
    by_cases hn : n = 0
    · simp [hn]
    · simp [hn, Nat.pos_of_ne_zero hn]

theorem comparePadded_nil (l : List Nat) : comparePadded [] l = if l = List.replicate l.length 0 then 0 else -1 := by
  have hleft : padded (max ([] : List Nat).length l.length) [] = List.replicate l.length 0 := by simp [padded]
  have hright : padded (max ([] : List Nat).length l.length) l = l := by simp [padded]
  rw [comparePadded, hleft, hright, sign_zeros]

theorem moreZeros_nil (n : Nat) (l : List Nat) : MoreZeros [] (n :: l) ↔ n :: l = List.replicate (n :: l).length 0 := by
  constructor
  · rintro ⟨k, hnone | hzeros⟩
    · simp at hnone
    · rw [hzeros]
      simp
  · intro hzeros
    exact ⟨l.length, Or.inr hzeros⟩

theorem MoreZeros.symm (h : MoreZeros as bs) : MoreZeros bs as := by
  obtain ⟨n, h⟩ := h
  exact ⟨n, h.symm⟩

/-- The order of lists and that of padded lists differ in trailing zeros only. -/
theorem sign_eq_comparePadded_iff : sign as bs = comparePadded as bs ↔ ¬ MoreZeros as bs := by
  have hnil : ∀ (n : Nat) (l : List Nat), sign [] (n :: l) = comparePadded [] (n :: l) ↔ ¬ MoreZeros [] (n :: l) := by
    intro n l
    have hsign : sign [] (n :: l) = -1 := by simp [sign]
    rw [moreZeros_nil, comparePadded_nil, hsign]
    by_cases hzeros : n :: l = List.replicate (n :: l).length 0
    · rw [if_pos hzeros]
      exact iff_of_false (by decide) (not_not.2 hzeros)
    · rw [if_neg hzeros]
      exact iff_of_true rfl hzeros
  induction as generalizing bs with
  | nil =>
    cases bs with
    | nil => exact iff_of_true rfl (by rintro ⟨n, h | h⟩ <;> simp at h)
    | cons b bs => exact hnil b bs
  | cons a as ih =>
    cases bs with
    | nil =>
      rw [sign_swap, comparePadded_swap, neg_inj, hnil]
      exact not_congr ⟨MoreZeros.symm, MoreZeros.symm⟩
    | cons b bs =>
      rw [sign_cons, comparePadded_cons]
      by_cases hab : a = b
      · subst hab
        simp only [Nat.lt_irrefl, if_false, ih, MoreZeros, List.cons_append, List.cons.injEq, true_and]
      · have hno : ¬ MoreZeros (a :: as) (b :: bs) := by
          rintro ⟨n, h | h⟩
          · exact hab (List.cons.inj h).1
          · exact hab (List.cons.inj h).1.symm
        refine iff_of_true ?_ hno
        rcases Nat.lt_or_gt_of_ne hab with hl | hg
        · rw [if_pos hl, if_pos hl]
        · rw [if_neg (Nat.lt_asymm hg), if_neg (Nat.lt_asymm hg), if_pos hg, if_pos hg]

/-- Nothing is left out behind the last number. -/
theorem versionSegments_of_numbered (ha : Numbered a) : versionSegments a = a.splitOn 46 := by
  unfold versionSegments
  refine if_neg fun hlast => ?_
  have hempty := (ha [] (List.mem_of_getLast? hlast)).1
  cases hempty

theorem compareVersions_numbered (ha : Numbered a) (hb : Numbered b) :
    compareVersions a b = some (sign (segmentValues a) (segmentValues b)) := by
  rw [compareVersions, versionSegments_of_numbered ha, versionSegments_of_numbered hb]
  exact compareSegments_numeric ha hb

end

/-- **Missing segments are taken for zeros unless** they are zeros: a version with more zeros at the end is newer. -/
theorem missing_segments_iff (a b : Bytes) (ha : Numbered a) (hb : Numbered b) :
    compareVersions a b = some (comparePadded (segmentValues a) (segmentValues b)) ↔ ¬ MoreZeros (segmentValues a) (segmentValues b) := by
  rw [compareVersions_numbered ha hb, Option.some.injEq]
  exact sign_eq_comparePadded_iff

theorem missing_segments_patch :
    compareVersions (str "1.2") (str "1.2.1") = some (comparePadded (segmentValues (str "1.2")) (segmentValues (str "1.2.1"))) := by
  have hshort : segmentValues (str "1.2") = [1, 2] := by decide
  have hlong : segmentValues (str "1.2.1") = [1, 2, 1] := by decide
  refine (missing_segments_iff (str "1.2") (str "1.2.1") (by decide) (by decide)).2 ?_
  rw [hshort, hlong]
  rintro ⟨n, h | h⟩
  · simp at h
  · simp [List.replicate_succ] at h

/-- 1 is below 1.0. -/
theorem missing_segment_not_zero : compareVersions (str "1") (str "1.0") = some (-1) ∧
    comparePadded (segmentValues (str "1")) (segmentValues (str "1.0")) = 0 := by
  rw [compareVersions_numbered (by decide) (by decide)]
  exact ⟨by decide, by decide⟩

end Wasm

end OriginDB
