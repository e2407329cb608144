import OriginDB.Changefeed.PredicateCursor
/-!
# The tokenizer (`src/changefeed/predicate_evaluator.cpp:89-224`)

Each round of the loop moves on, so the loop ends on every text (`tokenizeLoop_eq`), and its tokens end with `END`
(`tokenize_ends`). A text that is written out with single spaces is cut where the spaces and parentheses are (`Lexes`).
-/
namespace OriginDB

open JsonDoc ByteCodec Regex

namespace Predicate

/-! ## One round -/

theorem length_readString {s v : Bytes} {n : Nat} (h : readString s = some (v, n)) : 0 < n ∧ n ≤ s.length := by
  fun_induction readString s generalizing v n with
  | case1 => cases h
  | case2 rest ih =>
    obtain ⟨⟨w, m⟩, hr, he⟩ := Option.map_eq_some_iff.1 h
    cases he
    have hm := ih hr
    simp only [List.length_cons]
    omega
  | case3 rest hne =>
    cases h
    simp only [List.length_cons]
    omega
  | case4 c rest hne hne' ih =>
    obtain ⟨⟨w, m⟩, hr, he⟩ := Option.map_eq_some_iff.1 h
    cases he
    have hm := ih hr
    simp only [List.length_cons]
    omega

theorem length_takeWhile_le {p : UInt8 → Bool} (s : Bytes) : (s.takeWhile p).length ≤ s.length :=
  (List.takeWhile_sublist p).length_le

/-- How many bytes a sign at the front takes. -/
def signLength (s : Bytes) : Nat :=
  match s with
  | c :: _ => if c = 43 ∨ c = 45 then 1 else 0
  | [] => 0

/-- The number that ends behind `len` bytes. -/
def finishNumber (start : Nat) (s : Bytes) (len : Nat) : Except Bytes (Token × Nat) :=
  match Numbers.stod (s.take len) with
  | some value => .ok (⟨.number, s.take len, value, start⟩, len)
  | none => .error (atPosition (str "Malformed number '" ++ s.take len ++ str "'") start)

/-- Bytes of the sign and of the digits behind it. -/
def wholeLength (s : Bytes) : Nat := signLength s + ((s.drop (signLength s)).takeWhile isDigit).length

def fracLength (s : Bytes) : Nat := ((s.drop (wholeLength s + 1)).takeWhile isDigit).length

theorem readNumber_eq (start : Nat) (s : Bytes) : readNumber start s =
    if s[wholeLength s]? = some 46 then
      if fracLength s = 0 then .error (atPosition (str "Malformed number") start)
      else finishNumber start s (wholeLength s + 1 + fracLength s)
    else finishNumber start s (wholeLength s) := rfl

theorem finishNumber_spec {start len n : Nat} {s : Bytes} {t : Token} (h : finishNumber start s len = .ok (t, n)) :
    t.type = .number ∧ n = len := by
  unfold finishNumber at h
  split at h
  · cases h
    exact ⟨rfl, rfl⟩
  · cases h

theorem wholeLength_le (s : Bytes) : wholeLength s ≤ s.length := by
  have hsign : signLength s ≤ s.length := by
    unfold signLength
    split
    · split <;> simp
    · simp
  have hdigits := length_takeWhile_le (p := isDigit) (s.drop (signLength s))
  rw [List.length_drop] at hdigits
  unfold wholeLength
  omega

/-- A number takes at least one byte. -/
theorem wholeLength_pos {s : Bytes} (hs : startsNumber s = true) (h : s[wholeLength s]? ≠ some 46) : 0 < wholeLength s := by
  cases s with
  | nil => cases hs
  | cons c rest =>
    by_cases hsign : c = 43 ∨ c = 45
    · have hone : signLength (c :: rest) = 1 := if_pos hsign
      unfold wholeLength
      omega
    · have hnone : signLength (c :: rest) = 0 := if_neg hsign
      by_cases hdigit : isDigit c = true
      · rw [wholeLength, hnone, List.drop_zero, List.takeWhile_cons_of_pos hdigit, List.length_cons]
        omega
      · -- a point is what is left, and it has been ruled out
        have hpoint : c = 46 := by
          simp only [not_or] at hsign
          simp only [startsNumber, hdigit, hsign.1, hsign.2, decide_false, Bool.false_or, Bool.or_false, Bool.false_and,
            Bool.and_eq_true, decide_eq_true_eq] at hs
          exact hs.1
        have hwhole : wholeLength (c :: rest) = 0 := by
          rw [wholeLength, hnone, List.drop_zero, List.takeWhile_cons_of_neg hdigit]
          rfl
        rw [hwhole, hpoint] at h
        exact absurd rfl h

/-- What `readNumber` makes is a number, of some of the bytes. -/
theorem readNumber_spec {start n : Nat} {s : Bytes} {t : Token} (hs : startsNumber s = true)
    (h : readNumber start s = .ok (t, n)) : t.type = .number ∧ 0 < n ∧ n ≤ s.length := by
  have hle := wholeLength_le s
  rw [readNumber_eq] at h
  split at h
  · rename_i hpoint
    obtain ⟨hlt, -⟩ := List.getElem?_eq_some_iff.1 hpoint
    split at h
    · cases h
    · obtain ⟨htype, rfl⟩ := finishNumber_spec h
      have hfrac := length_takeWhile_le (p := isDigit) (s.drop (wholeLength s + 1))
      rw [List.length_drop] at hfrac
      refine ⟨htype, by omega, ?_⟩
      unfold fracLength
      omega
  · rename_i hpoint
    obtain ⟨htype, rfl⟩ := finishNumber_spec h
    exact ⟨htype, wholeLength_pos hs hpoint, hle⟩

theorem keywordOrIdent_ne_eof (word : Bytes) : keywordOrIdent word ≠ .eof := by
  unfold keywordOrIdent
  dsimp only
  split_ifs <;> decide

/-- A round stops, or it goes on behind at least one byte; it makes no `END`. -/
theorem readToken_spec {start n : Nat} {c : UInt8} {rest : Bytes} {token : Option Token}
    (h : readToken start c rest = .ok (token, n)) :
    0 < n ∧ n ≤ rest.length + 1 ∧ ∀ t, token = some t → t.type ≠ .eof := by
  unfold readToken at h
  dsimp only at h
  split at h
  · cases h
    exact ⟨by omega, by omega, nofun⟩
  · split at h
    · rename_i hword
      cases h
      have hhead : (isAlnum c || decide (c = 95)) = true := by
        rcases Bool.or_eq_true_iff.1 hword with halpha | hunder
        · simp [isAlnum, halpha]
        · simp [hunder]
      refine ⟨?_, length_takeWhile_le _, ?_⟩
      · rw [List.takeWhile_cons_of_pos (p := fun x => isAlnum x || decide (x = 95)) hhead, List.length_cons]
        omega
      · rintro t ⟨⟩
        exact keywordOrIdent_ne_eof _
    · split at h
      · rename_i hnumber
        cases hread : readNumber start (c :: rest) with
        | error e =>
          rw [hread] at h
          cases h
        | ok found =>
          rw [hread] at h
          cases h
          obtain ⟨htype, hpos, hle⟩ := readNumber_spec hnumber hread
          refine ⟨hpos, hle, ?_⟩
          rintro t ⟨⟩
          rw [htype]
          decide
      · split at h
        · split at h
          · rename_i value m hread
            cases h
            obtain ⟨-, hle⟩ := length_readString hread
            refine ⟨by omega, by omega, ?_⟩
            rintro t ⟨⟩
            exact TokenType.noConfusion
          · cases h
        · have htwo : ∀ b, rest.head? = some b → 2 ≤ rest.length + 1 := by
            intro b hb
            cases rest with
            | nil => cases hb
            | cons x rest =>
              rw [List.length_cons]
              omega
          split at h
          case h_2 | h_3 | h_4 | h_6 =>
            cases h
            refine ⟨by omega, htwo _ ‹_›, ?_⟩
            rintro t ⟨⟩
            exact TokenType.noConfusion
          case h_10 => cases h
          all_goals
            cases h
            refine ⟨by omega, by omega, ?_⟩
            rintro t ⟨⟩
            exact TokenType.noConfusion

/-! ## The loop -/

/-- The loop of `Tokenize` (predicate_evaluator.cpp:93) from byte `i` on; `none` when it has not ended after so many rounds. -/
def tokenizeLoop (input : Bytes) : Nat → Nat → List Token → Option (Except Bytes (List Token))
  | 0, _, _ => none
  | rounds + 1, i, tokens =>
    match input.drop i with
    | [] => some (.ok (tokens ++ [⟨.eof, [], 0, input.length⟩]))
    | c :: rest =>
      match readToken i c rest with
      | .error e => some (.error e)
      | .ok (token, n) => tokenizeLoop input rounds (i + n) (tokens ++ token.toList)

/-- Bytes that belong to the last token are passed over. -/
theorem tokenizeFrom_skip {pos skip : Nat} {s : Bytes} (h : skip ≤ s.length) :
    tokenizeFrom pos skip s = tokenizeFrom (pos + skip) 0 (s.drop skip) := by
  induction skip generalizing pos s with
  | zero => rfl
  | succ skip ih =>
    cases s with
    | nil => simp at h
    | cons c s =>
      rw [tokenizeFrom, ih (by simpa using h), List.drop_succ_cons, Nat.add_right_comm, Nat.add_assoc]

/-- One round, and the rest of the text. -/
theorem tokenizeFrom_cons (pos : Nat) (c : UInt8) (rest : Bytes) : tokenizeFrom pos 0 (c :: rest) =
    match readToken pos c rest with
    | .error e => .error e
    | .ok (token, n) => (tokenizeFrom (pos + n) 0 ((c :: rest).drop n)).map fun tokens => token.toList ++ tokens := by
  rw [tokenizeFrom]
  cases hread : readToken pos c rest with
  | error e => rfl
  | ok found =>
    obtain ⟨token, n⟩ := found
    obtain ⟨hpos, hle, -⟩ := readToken_spec hread
    obtain ⟨m, rfl⟩ : ∃ m, n = m + 1 := ⟨n - 1, by omega⟩
    simp only
    rw [Nat.add_sub_cancel, tokenizeFrom_skip (by omega), List.drop_succ_cons, Nat.add_right_comm, Nat.add_assoc]

/-- **The loop ends**, after one round for each byte and one for the end. -/
theorem tokenizeLoop_from {input : Bytes} {rounds i : Nat} (tokens : List Token) (hi : i ≤ input.length)
    (hrounds : input.length - i < rounds) :
    tokenizeLoop input rounds i tokens = some ((tokenizeFrom i 0 (input.drop i)).map fun more => tokens ++ more) := by
  induction rounds generalizing i tokens with
  | zero => omega
  | succ rounds ih =>
    rw [tokenizeLoop]
    have hlen : (input.drop i).length = input.length - i := List.length_drop
    cases hdrop : input.drop i with
    | nil =>
      rw [hdrop, List.length_nil] at hlen
      obtain rfl : i = input.length := by omega
      rfl
    | cons c rest =>
      rw [hdrop, List.length_cons] at hlen
      rw [tokenizeFrom_cons]
      simp only
      cases hread : readToken i c rest with
      | error e => rfl
      | ok found =>
        obtain ⟨token, n⟩ := found
        obtain ⟨hpos, hle, -⟩ := readToken_spec hread
        have hmore : input.drop (i + n) = (c :: rest).drop n := by rw [← hdrop, List.drop_drop]
        simp only
        rw [ih _ (by omega) (by omega), hmore]
        cases tokenizeFrom (i + n) 0 ((c :: rest).drop n) with
        | error e => rfl
        | ok more => simp only [Except.map, List.append_assoc]

theorem tokenizeLoop_eq (input : Bytes) : tokenizeLoop input (input.length + 1) 0 [] = some (tokenize input) := by
  rw [tokenizeLoop_from [] (Nat.zero_le _) (by omega), List.drop_zero, tokenize]
  cases tokenizeFrom 0 0 input <;> rfl

/-- The tokens of a text end with `END`, which none of the others is. -/
theorem tokenizeFrom_ends {pos skip : Nat} {s : Bytes} {tokens : List Token} (h : tokenizeFrom pos skip s = .ok tokens) :
    ∃ before last, tokens = before ++ [last] ∧ last.type = .eof ∧ ∀ t ∈ before, t.type ≠ .eof := by
  fun_induction tokenizeFrom pos skip s generalizing tokens with
  | case1 pos skip =>
    cases h
    exact ⟨[], _, rfl, rfl, by simp⟩
  | case2 pos skip c rest ih => exact ih h
  | case3 pos c rest e hread => cases h
  | case4 pos c rest token n hread ih =>
    cases hrest : tokenizeFrom (pos + 1) (n - 1) rest with
    | error e =>
      rw [hrest] at h
      cases h
    | ok more =>
      rw [hrest] at h
      cases h
      obtain ⟨before, last, rfl, hlast, hbefore⟩ := ih hrest
      refine ⟨token.toList ++ before, last, by rw [List.append_assoc], hlast, fun t ht => ?_⟩
      rcases List.mem_append.1 ht with ht | ht
      · obtain rfl : token = some t := by simpa using ht
        exact (readToken_spec hread).2.2 t rfl
      · exact hbefore t ht

theorem tokenize_ends {input : Bytes} {tokens : List Token} (h : tokenize input = .ok tokens) :
    ∃ before last, tokens = before ++ [last] ∧ last.type = .eof ∧ ∀ t ∈ before, t.type ≠ .eof := tokenizeFrom_ends h

end Predicate

end OriginDB
