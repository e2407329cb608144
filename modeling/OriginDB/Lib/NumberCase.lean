import OriginDB.Lib.Numbers
import OriginDB.Lib.Respelling
/-!
# Numbers in either case

`stod` and `stoll` read the same number from a text and from its capitals: digits, signs and the point have no case, and
the letters of a hexadecimal number, of an exponent, of an infinity and of a NaN are read in both.
-/
namespace Numbers

open ByteCodec Regex

/-- Digits have no case, and hexadecimal digits one value in both. -/
theorem digit_of_byte (c : UInt8) : (isDigit (toUpper c) = isDigit c ∧ isHexDigit (toUpper c) = isHexDigit c) ∧
    (isDigit c = true → toUpper c = c) ∧ hexValue (toUpper c) = hexValue c :=
  of_decide_eq_true (forall_byte (p := fun c => decide ((isDigit (toUpper c) = isDigit c ∧ isHexDigit (toUpper c) = isHexDigit c) ∧
    (isDigit c = true → toUpper c = c) ∧ hexValue (toUpper c) = hexValue c)) (by decide +kernel) c)

theorem blind_isDigit : Blind toUpper isDigit := fun c => (digit_of_byte c).1.1

theorem blind_isHexDigit : Blind toUpper isHexDigit := fun c => (digit_of_byte c).1.2

section
variable {q : UInt8 → Bool} {s : Bytes}

theorem takeWhile_isDigit_toUpper (s : Bytes) : (s.map toUpper).takeWhile isDigit = s.takeWhile isDigit := by
  rw [blind_isDigit.takeWhile_map]
  exact (List.map_congr_left fun c hc => (digit_of_byte c).2.1 (List.all_eq_true.1 List.all_takeWhile c hc)).trans (List.map_id _)

theorem hexDigits_toUpper (s : Bytes) : hexDigits (s.map toUpper) = hexDigits s := by
  rw [hexDigits, hexDigits, List.foldl_map]
  simp only [(digit_of_byte _).2.2]

theorem readSign_toUpper (s : Bytes) : readSign (s.map toUpper) = ((readSign s).1, (readSign s).2.map toUpper) := by
  cases s with
  | nil => rfl
  | cons c s =>
    by_cases hplus : c = 43
    · subst hplus
      rfl
    · by_cases hminus : c = 45
      · subst hminus
        rfl
      · have hnone : ∀ {x : UInt8} (t : Bytes), x ≠ 43 → x ≠ 45 → readSign (x :: t) = (false, x :: t) := by
          intro x t h43 h45
          rw [readSign]
          · rintro _ he
            exact h43 (List.cons.inj he).1
          · rintro _ he
            exact h45 (List.cons.inj he).1
        rw [List.map_cons, hnone s hplus hminus, hnone (s.map toUpper)]
        · rfl
        · exact fun h => hplus ((toUpper_eq_iff (by decide)).1 h)
        · exact fun h => hminus ((toUpper_eq_iff (by decide)).1 h)

theorem readMantissa_eq (q : UInt8 → Bool) (s : Bytes) : readMantissa q s =
    if (s.dropWhile q).head? = some 46 then
      if s.takeWhile q = [] ∧ (s.dropWhile q).tail.takeWhile q = [] then none
      else some (s.takeWhile q, (s.dropWhile q).tail.takeWhile q, (s.dropWhile q).tail.dropWhile q)
    else if s.takeWhile q = [] then none
    else some (s.takeWhile q, [], s.dropWhile q) := by
  rw [readMantissa]
  split
  · rename_i rest hpoint
    rw [hpoint]
    rfl
  · rename_i hno
    have hhead : (s.dropWhile q).head? ≠ some 46 := fun h => by
      obtain ⟨rest, hrest⟩ := List.head?_eq_some_iff.1 h
      exact hno rest hrest
    rw [if_neg hhead]

/-- A mantissa is read from the capitals as it is read from the text. -/
theorem readMantissa_toUpper (hq : Blind toUpper q) (s : Bytes) : readMantissa q (s.map toUpper) =
    (readMantissa q s).map fun (whole, frac, rest) => (whole.map toUpper, frac.map toUpper, rest.map toUpper) := by
  have hpoint : ∀ t : Bytes, (t.map toUpper).head? = some 46 ↔ t.head? = some 46 := by
    intro t
    cases t with
    | nil => simp
    | cons c t => simpa using toUpper_eq_iff (c := c) (x := 46) (by decide)
  simp only [readMantissa_eq, hq.takeWhile_map, hq.dropWhile_map, ← List.map_tail, List.map_eq_nil_iff, hpoint]
  split
  · split <;> rfl
  · split <;> rfl

/-- The digits of a mantissa are digits. -/
theorem digits_of_readMantissa {w f r : Bytes} (h : readMantissa q s = some (w, f, r)) : ∀ c ∈ w ++ f, q c = true := by
  have hmem : ∀ t : Bytes, ∀ c ∈ t.takeWhile q, q c = true := fun t => List.all_eq_true.1 List.all_takeWhile
  rw [readMantissa_eq] at h
  intro c hc
  split at h
  · split at h
    · cases h
    · cases h
      rcases List.mem_append.1 hc with hc | hc
      · exact hmem _ c hc
      · exact hmem _ c hc
  · split at h
    · cases h
    · cases h
      rw [List.append_nil] at hc
      exact hmem _ c hc

theorem readExponent_toUpper (mark : UInt8) (s : Bytes) : readExponent mark (s.map toUpper) = readExponent mark s := by
  cases s with
  | nil => rfl
  | cons c s =>
    simp only [List.map_cons, readExponent, toLower_toUpper, readSign_toUpper, takeWhile_isDigit_toUpper]

theorem digits_toUpper (h : ∀ c ∈ s, isDigit c = true) : digits (s.map toUpper) = digits s := by
  rw [List.map_congr_left fun c hc => (digit_of_byte c).2.1 (h c hc), List.map_id']

/-- The text behind `0x`. -/
def hexText : Bytes → Option Bytes
  | c :: x :: rest => if c = 48 ∧ toLower x = 120 then some rest else none
  | _ => none

theorem hexText_toUpper (s : Bytes) : hexText (s.map toUpper) = (hexText s).map (List.map toUpper) := by
  rcases s with _ | ⟨c, _ | ⟨x, rest⟩⟩
  · rfl
  · rfl
  · simp only [List.map_cons, hexText, toUpper_eq_iff (show isAlpha 48 = false by decide), toLower_toUpper]
    split <;> rfl

theorem readRatio_eq (s : Bytes) : readRatio s =
    (((hexText s).bind (readMantissa isHexDigit)).map fun m =>
      scaled (hexDigits (m.1 ++ m.2.1)) 2 (readExponent 112 m.2.2 - 4 * m.2.1.length)).or
    ((readMantissa isDigit s).map fun m => scaled (digits (m.1 ++ m.2.1)) 10 (readExponent 101 m.2.2 - m.2.1.length)) := by
  unfold readRatio
  dsimp only
  split
  · rename_i whole frac rest hhex
    split at hhex
    · rename_i x rest
      by_cases hx : toLower x = 120
      · rw [if_pos hx] at hhex
        simp [hexText, hx, hhex]
      · rw [if_neg hx] at hhex
        cases hhex
    · cases hhex
  · rename_i hhex
    have hnone : (hexText s).bind (readMantissa isHexDigit) = none := by
      rcases s with _ | ⟨c, _ | ⟨x, rest⟩⟩
      · rfl
      · rfl
      · by_cases hc : c = 48
        · subst hc
          have hread : (if toLower x = 120 then readMantissa isHexDigit rest else none) = none := hhex
          by_cases hx : toLower x = 120
          · rw [if_pos hx] at hread
            simp [hexText, hx, hread]
          · simp [hexText, hx]
        · simp [hexText, hc]
    rw [hnone]
    rfl

theorem readRatio_toUpper (s : Bytes) : readRatio (s.map toUpper) = readRatio s := by
  have hhex : ∀ t : Bytes, (readMantissa isHexDigit (t.map toUpper)).map (fun m =>
      scaled (hexDigits (m.1 ++ m.2.1)) 2 (readExponent 112 m.2.2 - 4 * m.2.1.length)) =
      (readMantissa isHexDigit t).map fun m =>
        scaled (hexDigits (m.1 ++ m.2.1)) 2 (readExponent 112 m.2.2 - 4 * m.2.1.length) := by
    intro t
    rw [readMantissa_toUpper blind_isHexDigit, Option.map_map]
    refine Option.map_congr fun m _ => ?_
    simp only [Function.comp_apply, ← List.map_append, hexDigits_toUpper, readExponent_toUpper, List.length_map]
  have hdecimal : (readMantissa isDigit (s.map toUpper)).map (fun m =>
      scaled (digits (m.1 ++ m.2.1)) 10 (readExponent 101 m.2.2 - m.2.1.length)) =
      (readMantissa isDigit s).map fun m => scaled (digits (m.1 ++ m.2.1)) 10 (readExponent 101 m.2.2 - m.2.1.length) := by
    rw [readMantissa_toUpper blind_isDigit, Option.map_map]
    refine Option.map_congr fun m h => ?_
    simp only [Function.comp_apply, ← List.map_append, digits_toUpper (digits_of_readMantissa h), readExponent_toUpper,
      List.length_map]
  rw [readRatio_eq, readRatio_eq, hdecimal, hexText_toUpper]
  cases hexText s with
  | none => rfl
  | some t => rw [Option.map_some, Option.bind_some, Option.bind_some, hhex]

theorem stoll_toUpper (s : Bytes) : stoll (s.map toUpper) = stoll s := by
  simp only [stoll, blind_isSpace.dropWhile_map, readSign_toUpper, takeWhile_isDigit_toUpper]

theorem stod_toUpper (s : Bytes) : stod (s.map toUpper) = stod s := by
  simp only [stod, blind_isSpace.dropWhile_map, readSign_toUpper, ← List.map_take, List.map_map, Function.comp_def, toLower_toUpper, readRatio_toUpper]

end

end Numbers
