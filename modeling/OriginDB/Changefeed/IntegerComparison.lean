import OriginDB.Lib.Doubles
import OriginDB.Changefeed.Printing
/-!
# Comparing integers (`src/changefeed/predicate_evaluator.cpp:115-141`, `:433-487`)

A number literal is kept as a `double`, and `value.get<double>()` converts the column for the comparison, as the header
says ("numeric comparisons coerce int/float"). So an operator sees the integers as they are rounded to 53 bits, and tells
two of them apart when their doubles are.
-/
namespace OriginDB

open JsonDoc ByteCodec Regex Numbers

namespace Predicate

/-! ## Integer literals -/

/-- Digits, with a sign or without, and the integer they are. -/
inductive IsInteger : Bytes → Int → Prop where
  | plain {ds : Bytes} (hne : ds ≠ []) (hdigits : ∀ c ∈ ds, isDigit c = true) : IsInteger ds (digits ds)
  | plus {ds : Bytes} (hne : ds ≠ []) (hdigits : ∀ c ∈ ds, isDigit c = true) : IsInteger (43 :: ds) (digits ds)
  | minus {ds : Bytes} (hne : ds ≠ []) (hdigits : ∀ c ∈ ds, isDigit c = true) : IsInteger (45 :: ds) (-(digits ds : Int))

theorem IsInteger.isDecimal {w : Bytes} {n : Int} (h : IsInteger w n) : IsDecimal w := by
  cases h with
  | plain hne hdigits => exact @IsDecimal.whole [] _ (.inl rfl) hne hdigits
  | plus hne hdigits => exact @IsDecimal.whole [43] _ (.inr (.inl rfl)) hne hdigits
  | minus hne hdigits => exact @IsDecimal.whole [45] _ (.inr (.inr rfl)) hne hdigits

/-- No digit begins an infinity, a hexadecimal number or anything else that `strtod` knows. -/
theorem toLower_digit {c : UInt8} (h : isDigit c = true) :
    toLower c ≠ 105 ∧ toLower c ≠ 110 ∧ toLower c ≠ 120 ∧ isSpace c = false ∧ c ≠ 43 ∧ c ≠ 45 := by
  have hall := forall_byte (p := fun c => !isDigit c || (toLower c ≠ 105 && toLower c ≠ 110 && toLower c ≠ 120 &&
    !isSpace c && c ≠ 43 && c ≠ 45)) (by decide +kernel) c
  simpa [h, and_assoc] using hall

theorem readRatio_digits {ds : Bytes} (hne : ds ≠ []) (hdigits : ∀ c ∈ ds, isDigit c = true) :
    readRatio ds = some (digits ds, 1) := by
  have hhex : ∀ x rest, ds = 48 :: x :: rest → toLower x ≠ 120 := by
    intro x rest h
    exact (toLower_digit (hdigits x (by simp [h]))).2.2.1
  unfold readRatio
  simp only [readMantissa_digits hne hdigits, Option.map_some, List.append_nil]
  split
  · rename_i heq
    split at heq
    · rename_i x rest
      rw [if_neg (hhex x rest rfl)] at heq
      cases heq
    · cases heq
  · simp [scaled, readExponent]

/-- The double a run of digits is read as. -/
theorem underflows_nat {n : Nat} (h : n < 2 ^ 64) : underflows n 1 = false := by
  rcases Nat.eq_zero_or_pos n with rfl | h0
  · rfl
  · obtain ⟨hfrom, -⟩ := toNat_roundRatio_int h0 h
    unfold underflows
    simp only [show ¬ exponentOf n 1 < -1075 by omega, show ¬ exponentOf n 1 = -1075 by omega, decide_false, Bool.false_and,
      Bool.or_false, Bool.and_false]

theorem stod_digits {sign ds : Bytes} {neg : Bool} (hsign : readSign (sign ++ ds) = (neg, ds))
    (hspace : (sign ++ ds).dropWhile isSpace = sign ++ ds) (hne : ds ≠ []) (hdigits : ∀ c ∈ ds, isDigit c = true)
    (hlt : digits ds < 2 ^ 64) : stod (sign ++ ds) = some (withSign neg (roundRatio (digits ds) 1)) := by
  obtain ⟨d, rest, rfl⟩ := List.exists_cons_of_ne_nil hne
  have hd := toLower_digit (hdigits d List.mem_cons_self)
  have hinf : ((d :: rest).take 3).map toLower ≠ infText := by
    intro h
    rw [List.take_succ_cons, List.map_cons, infText, List.cons.injEq] at h
    exact hd.1 h.1
  have hnan : ((d :: rest).take 3).map toLower ≠ nanText := by
    intro h
    rw [List.take_succ_cons, List.map_cons, nanText, List.cons.injEq] at h
    exact hd.2.1 h.1
  have hfinite : roundRatio (digits (d :: rest)) 1 ≠ 0x7ff0000000000000 := by
    intro h
    have hlt' := toNat_roundRatio_lt hlt
    rw [h] at hlt'
    exact absurd hlt' (by decide)
  unfold stod
  rw [hspace, hsign]
  simp only [if_neg hinf, if_neg hnan, readRatio_digits hne hdigits, decide_eq_false hfinite, underflows_nat hlt,
    Bool.or_false, Bool.false_eq_true, if_false]

/-- **An integer literal is read as the double nearest to it.** -/
theorem stod_integer {w : Bytes} {n : Int} (h : IsInteger w n) (hn : n.natAbs < 2 ^ 64) :
    ∃ bits, stod w = some bits ∧ rank bits = rounded n ∧ isNaN bits = false := by
  have hplace : ∀ {ds : Bytes} (neg : Bool) {n : Int}, n = (if neg then -(digits ds : Int) else digits ds) → digits ds < 2 ^ 64 →
      rank (withSign neg (roundRatio (digits ds) 1)) = rounded n ∧ isNaN (withSign neg (roundRatio (digits ds) 1)) = false := by
    intro ds neg n hn hlt
    have hbits := toNat_roundRatio_lt hlt
    have habs : n.natAbs = digits ds := by
      rw [hn]
      cases neg <;> simp
    refine ⟨?_, isNaN_withSign neg (by omega)⟩
    rw [rank_withSign neg (by omega), rounded_eq (by omega), habs]
    rcases Nat.eq_zero_or_pos (digits ds) with hzero | hpos
    · -- minus nought
      have hbitsZero : (roundRatio (digits ds) 1).toNat = 0 := by
        rw [hzero]
        rfl
      rw [hbitsZero]
      cases neg <;> simp
    · cases neg with
      | false => rw [if_neg Bool.false_ne_true, if_neg (by rw [hn, if_neg Bool.false_ne_true]; omega)]
      | true => rw [if_pos rfl, if_pos (by rw [hn, if_pos rfl]; omega)]
  cases h with
  | @plain ds hne hdigits =>
    obtain ⟨d, rest, rfl⟩ := List.exists_cons_of_ne_nil hne
    have hd := toLower_digit (hdigits d List.mem_cons_self)
    have hlt : digits (d :: rest) < 2 ^ 64 := by omega
    have hsign : readSign ([] ++ d :: rest) = (false, d :: rest) := by
      unfold readSign
      split
      · rename_i heq
        cases heq
        exact absurd rfl hd.2.2.2.2.1
      · rename_i heq
        cases heq
        exact absurd rfl hd.2.2.2.2.2
      · rfl
    have hspace : ([] ++ d :: rest).dropWhile isSpace = [] ++ d :: rest :=
      List.dropWhile_cons_of_neg (by rw [hd.2.2.2.1]; decide)
    exact ⟨_, stod_digits hsign hspace hne hdigits hlt, hplace false rfl hlt⟩
  | @plus ds hne hdigits =>
    have hlt : digits ds < 2 ^ 64 := by omega
    exact ⟨_, @stod_digits [43] _ _ rfl rfl hne hdigits hlt, hplace false rfl hlt⟩
  | @minus ds hne hdigits =>
    have hlt : digits ds < 2 ^ 64 := by omega
    exact ⟨_, @stod_digits [45] _ _ rfl rfl hne hdigits hlt, hplace true rfl hlt⟩

/-! ## Comparing -/

/-- What an operator says of two integers. -/
def Op.holds : Op → Int → Int → Prop
  | .eq, a, b => a = b
  | .ne, a, b => a ≠ b
  | .lt, a, b => a < b
  | .le, a, b => a ≤ b
  | .gt, a, b => b < a
  | .ge, a, b => b ≤ a

instance (op : Op) (a b : Int) : Decidable (op.holds a b) :=
  match op with
  | .eq => inferInstanceAs (Decidable (a = b))
  | .ne => inferInstanceAs (Decidable (a ≠ b))
  | .lt => inferInstanceAs (Decidable (a < b))
  | .le => inferInstanceAs (Decidable (a ≤ b))
  | .gt => inferInstanceAs (Decidable (b < a))
  | .ge => inferInstanceAs (Decidable (b ≤ a))

/-- Two doubles are compared by their places. -/
theorem compareDouble_iff {a b : UInt64} (ha : isNaN a = false) (hb : isNaN b = false) (op : Op) :
    compareDouble op a b = true ↔ op.holds (rank a) (rank b) := by
  unfold compareDouble doubleEq doubleLt
  rw [ha, hb]
  cases op <;> simp [compareOrdered, Op.holds] <;> omega

/-- What happens when the two integers have one double. -/
def Op.rightAnyway (op : Op) (v n : Int) : Prop :=
  match op with
  | .lt | .ge => n < v
  | .gt | .le => v < n
  | .eq | .ne => False

theorem holds_rounded_iff {v n : Int} (hv : v.natAbs < 2 ^ 64) (hn : n.natAbs < 2 ^ 64) (op : Op) :
    (op.holds (rounded v) (rounded n) ↔ op.holds v n) ↔ v = n ∨ rounded v ≠ rounded n ∨ op.rightAnyway v n := by
  have hle : v ≤ n → rounded v ≤ rounded n := rounded_mono hv hn
  have hge : n ≤ v → rounded n ≤ rounded v := rounded_mono hn hv
  by_cases heq : v = n
  · subst heq
    simp only [true_or, iff_true]
    cases op <;> simp [Op.holds]
  · rcases lt_or_gt_of_ne heq with hlt | hgt
    · have hround := hle hlt.le
      by_cases hsame : rounded v = rounded n
      · cases op <;> simp [Op.holds, Op.rightAnyway, heq, hsame] <;> omega
      · cases op <;> simp [Op.holds, Op.rightAnyway, heq, hsame] <;> omega
    · have hround := hge hgt.le
      by_cases hsame : rounded v = rounded n
      · cases op <;> simp [Op.holds, Op.rightAnyway, heq, hsame] <;> omega
      · cases op <;> simp [Op.holds, Op.rightAnyway, heq, hsame] <;> omega

/-- How an operator may be written. -/
def Op.SpelledAs (op : Op) (text : Bytes) : Prop := text = str (opText op) ∨ (op = .ne ∧ text = str "<>")

theorem lexes_spelled {op : Op} {text : Bytes} (h : op.SpelledAs text) (pos : Nat) :
    Lexes pos text [⟨opType op, text, 0, pos⟩] := by
  rcases h with rfl | ⟨rfl, rfl⟩
  · exact lexes_op op
  · exact lexes_token (c := 60) (w := [62]) (by rintro rest (rfl | ⟨more, rfl | rfl⟩) <;> rfl)

/-- A comparison of a column with a number. -/
theorem parse_number {column text w : Bytes} {op : Op} {bits : UInt64} (hcolumn : IsIdent column) (htext : op.SpelledAs text)
    (hw : IsDecimal w) (hbits : stod w = some bits) :
    parse (column ++ str " " ++ text ++ str " " ++ w) = .ok (.comparison column op (.number bits)) := by
  have hlex := (lexes_ident hcolumn : Lexes 0 _ _).space ((lexes_spelled htext _).space (lexes_number hw hbits))
  have hall := hlex [] (.inl rfl)
  rw [List.append_nil, tokenizeFrom] at hall
  have hprint : column ++ str " " ++ text ++ str " " ++ w = column ++ 32 :: (text ++ 32 :: w) := by
    simp only [List.append_assoc]
    rfl
  rw [hprint]
  exact parse_eq_ok_iff.2 ⟨_, _, hall, rfl, .term (.factor (.comparison (.compare rfl (opOf_opType op) rfl)))⟩

/-- Integers below 2⁵³ are told apart. -/
theorem holds_rounded_small {v n : Int} (hv : v.natAbs < 2 ^ 53) (hn : n.natAbs < 2 ^ 53) (op : Op) :
    op.holds (rounded v) (rounded n) ↔ op.holds v n := by
  apply (holds_rounded_iff (by omega) (by omega) op).2
  by_cases heq : v = n
  · exact .inl heq
  · right
    left
    intro hsame
    exact heq (rounded_injective hv hn hsame)

/-- **An integer comparison is one of the nearest doubles.** So it is exact when the integers are equal, when they have
different doubles, and when the operator is right about equal ones anyway, and not otherwise. -/
theorem integer_comparison_iff (column text w : Bytes) (op : Op) (v n : Int64) (row : List (Bytes × Json))
    (hcolumn : IsIdent column) (htext : op.SpelledAs text) (hw : IsInteger w n.toInt)
    (hrow : row.lookup column = some (.int v.toInt)) :
    ∃ node, parse (column ++ str " " ++ text ++ str " " ++ w) = .ok node ∧
      (evaluate node (.object row) = true ↔ op.holds (rounded v.toInt) (rounded n.toInt)) ∧
      ((evaluate node (.object row) = true ↔ op.holds v.toInt n.toInt) ↔
        v = n ∨ rounded v.toInt ≠ rounded n.toInt ∨ op.rightAnyway v.toInt n.toInt) ∧
      (v.toInt.natAbs < 2 ^ 53 → n.toInt.natAbs < 2 ^ 53 →
        (evaluate node (.object row) = true ↔ op.holds v.toInt n.toInt)) := by
  have hv := v.toInt_lt
  have hv' := v.le_toInt
  have hn := n.toInt_lt
  have hn' := n.le_toInt
  obtain ⟨bits, hbits, hrank, hnan⟩ := stod_integer hw (by omega)
  have hcompare : evaluate (.comparison column op (.number bits)) (.object row) = true ↔
      op.holds (rounded v.toInt) (rounded n.toInt) := by
    have hfinite : isNaN (ofInt v.toInt) = false := isNaN_ofInt (by omega)
    rw [evaluate, evaluateNode, hrow]
    simp only [evaluateComparison]
    rw [compareDouble_iff hfinite hnan, hrank]
    exact Iff.rfl
  refine ⟨_, parse_number hcolumn htext hw.isDecimal hbits, hcompare, ?_, ?_⟩
  · rw [hcompare, holds_rounded_iff (by omega) (by omega), Int64.toInt_inj]
  · intro hsmall hsmall'
    rw [hcompare, holds_rounded_small hsmall hsmall']

theorem integer_comparison_negative : ∃ node, parse (str "id >= -5") = .ok node ∧
    evaluate node (.object [(str "id", .int 7)]) = true := by
  have hident : IsIdent (str "id") := ⟨⟨105, _, rfl, rfl⟩, by decide +kernel, by decide⟩
  have hliteral : IsInteger (str "-5") (-5 : Int64).toInt := @IsInteger.minus [53] (by decide) (by decide +kernel)
  obtain ⟨node, hparse, -, -, hexact⟩ :=
    integer_comparison_iff (str "id") (str ">=") (str "-5") .ge 7 (-5) [(str "id", .int 7)] hident (.inl rfl) hliteral rfl
  exact ⟨node, hparse, (hexact (by decide) (by decide)).2 (by decide)⟩

/-- 2⁵³ is taken for its neighbour. -/
theorem equal_to_neighbour : ∃ node, parse (str "id = 9007199254740993") = .ok node ∧
    evaluate node (.object [(str "id", .int (9007199254740992 : Int64).toInt)]) = true ∧
    ¬ Op.eq.holds (9007199254740992 : Int64).toInt (9007199254740993 : Int64).toInt := by
  have hident : IsIdent (str "id") := ⟨⟨105, _, rfl, rfl⟩, by decide +kernel, by decide⟩
  have hliteral : IsInteger (str "9007199254740993") 9007199254740993 := .plain (by decide) (by decide +kernel)
  have hvalue : stod (str "9007199254740993") = some 0x4340000000000000 := by decide
  have hparse := parse_number hident (.inl rfl : Op.eq.SpelledAs (str "=")) hliteral.isDecimal hvalue
  exact ⟨_, hparse, by decide, by decide⟩

end Predicate

end OriginDB
