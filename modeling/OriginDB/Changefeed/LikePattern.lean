import OriginDB.Lib.RegexText
import OriginDB.Lib.Wildcards
import OriginDB.Changefeed.Printing
/-!
# LIKE (`src/changefeed/predicate_evaluator.cpp:228-247`, `:368-384`, `:506-512`)

`LikePatternToRegex` escapes every character that is special in a regular expression, so what is compiled is the
pattern (`compile_likePatternToRegex`). But `%` and `_` become `.*` and `.`, and a point stands for no line break: a
string that has more line breaks than its pattern matches nothing.
-/
namespace OriginDB

open JsonDoc ByteCodec Regex

namespace Predicate

/-! ## The regular expression -/

/-- `kRegexSpecial`: `\^$.|?*+()[]` and the braces. -/
def kRegexSpecial : Bytes := [92, 94, 36, 46, 124, 63, 42, 43, 40, 41, 91, 93, 123, 125]

/-- `LikePatternToRegex` (predicate_evaluator.cpp:230). -/
def likePatternToRegex : Bytes → Bytes
  | [] => []
  | c :: pattern =>
    (if c = 37 then [46, 42]
    else if c = 95 then [46]
    else if kRegexSpecial.contains c then [92, c]
    else [c]) ++ likePatternToRegex pattern

theorem kRegexSpecial_contains (c : UInt8) : kRegexSpecial.contains c = isSyntax c :=
  of_decide_eq_true (forall_byte (p := fun c => kRegexSpecial.contains c = isSyntax c) (by decide +kernel) c)

/-- What follows an atom is never read as its quantifier. -/
theorem head_likePatternToRegex {pattern : Bytes} {c : UInt8} {rest : Bytes} (h : likePatternToRegex pattern = c :: rest) :
    c ≠ 42 ∧ c ≠ 63 := by
  cases pattern with
  | nil => cases h
  | cons d pattern =>
    rw [likePatternToRegex] at h
    split_ifs at h with hany hone hspecial
    · cases h
      decide
    · cases h
      decide
    · cases h
      decide
    · rw [List.singleton_append, List.cons.injEq] at h
      obtain ⟨rfl, -⟩ := h
      constructor
      · rintro rfl
        exact hspecial (by decide)
      · rintro rfl
        exact hspecial (by decide)

/-- An atom with no quantifier behind it. -/
theorem compileFrom_atom {n : Nat} {c : UInt8} {s : Bytes} {p : UInt8 → Bool} {pattern : Bytes}
    (h : readAtom (c :: s) = some (p, likePatternToRegex pattern)) :
    compileFrom (n + 1) (c :: s) = (compileFrom n (likePatternToRegex pattern)).map (.seq (.char p)) := by
  rw [compileFrom, h]
  split
  · rename_i heq
    cases heq
  · rename_i heq
    rw [Option.some.injEq, Prod.mk.injEq] at heq
    exact absurd rfl (head_likePatternToRegex heq.2).1
  · rename_i heq
    rw [Option.some.injEq, Prod.mk.injEq] at heq
    exact absurd rfl (head_likePatternToRegex heq.2).1
  · rename_i heq
    cases heq
    rfl

/-- A point with a star. -/
theorem compileFrom_any (n : Nat) (pattern : Bytes) : compileFrom (n + 1) (46 :: 42 :: likePatternToRegex pattern) =
    (compileFrom n (likePatternToRegex pattern)).map (.seq (.many true isDot)) := by
  have hatom : readAtom (46 :: 42 :: likePatternToRegex pattern) = some (isDot, 42 :: likePatternToRegex pattern) := rfl
  rw [compileFrom, hatom]
  split
  · rename_i heq
    cases heq
  · rename_i heq
    rw [Option.some.injEq, Prod.mk.injEq, List.cons.injEq] at heq
    exact absurd rfl (head_likePatternToRegex heq.2.2).2
  · rename_i heq
    cases heq
    rfl
  · rename_i hne heq
    cases heq
    exact (hne _ rfl).elim

theorem readAtom_dot (s : Bytes) : readAtom (46 :: s) = some (isDot, s) := by
  cases s <;> rfl

theorem readAtom_escaped {c : UInt8} (h : isSyntax c = true) (s : Bytes) : readAtom (92 :: c :: s) = some (fun x => decide (x = c), s) := by
  rw [readAtom, if_neg (by decide), if_pos rfl, if_pos h]

theorem readAtom_plain {c : UInt8} (h : isSyntax c = false) (s : Bytes) : readAtom (c :: s) = some (fun x => decide (x = c), s) := by
  have hdot : c ≠ 46 := by
    rintro rfl
    cases h
  have hescape : c ≠ 92 := by
    rintro rfl
    cases h
  cases s with
  | nil => rw [readAtom, if_neg hdot, h, if_neg Bool.false_ne_true]
  | cons d s => rw [readAtom, if_neg hdot, if_neg hescape, h, if_neg Bool.false_ne_true]

theorem likePattern_letter {c : UInt8} (hany : c ≠ 37) (hone : c ≠ 95) (pattern : Bytes) :
    likePattern (c :: pattern) = .seq (.char fun x => x = c) (likePattern pattern) := by
  rw [likePattern]
  · exact hany
  · exact hone

/-- **The text that is compiled is the pattern.** -/
theorem compile_likePatternToRegex (pattern : Bytes) : compile (likePatternToRegex pattern) = some (likePattern pattern) := by
  have hall : ∀ n, (likePatternToRegex pattern).length ≤ n →
      compileFrom n (likePatternToRegex pattern) = some (likePattern pattern) := by
    induction pattern with
    | nil =>
      intro n hn
      cases n <;> rfl
    | cons c pattern ih =>
      intro n hn
      rw [likePatternToRegex] at hn ⊢
      obtain ⟨m, rfl⟩ : ∃ m, n = m + 1 := by
        refine ⟨n - 1, ?_⟩
        rw [List.length_append] at hn
        split_ifs at hn <;> simp only [List.length_cons, List.length_nil] at hn <;> omega
      rw [List.length_append] at hn
      split_ifs at hn ⊢ with hany hone hspecial
      · subst hany
        simp only [List.length_cons, List.length_nil] at hn
        rw [List.cons_append, List.cons_append, List.nil_append, compileFrom_any, ih m (by omega)]
        rfl
      · subst hone
        simp only [List.length_cons, List.length_nil] at hn
        rw [List.cons_append, List.nil_append, compileFrom_atom (readAtom_dot _), ih m (by omega)]
        rfl
      · simp only [List.length_cons, List.length_nil] at hn
        rw [kRegexSpecial_contains] at hspecial
        rw [List.cons_append, List.cons_append, List.nil_append, compileFrom_atom (readAtom_escaped hspecial _),
          ih m (by omega), likePattern_letter hany hone]
        rfl
      · simp only [List.length_cons, List.length_nil] at hn
        rw [kRegexSpecial_contains, Bool.not_eq_true] at hspecial
        rw [List.cons_append, List.nil_append, compileFrom_atom (readAtom_plain hspecial _), ih m (by omega),
          likePattern_letter hany hone]
        rfl
  exact hall _ (Nat.le_refl _)

/-! ## What it matches -/

/-- The pattern as LIKE has it: `%` for any bytes, `_` for one, and every other byte for itself. -/
def likePieces : Bytes → List (Wildcards.Piece UInt8)
  | [] => []
  | c :: pattern => (if c = 37 then .any else if c = 95 then .one else .letter c) :: likePieces pattern

/-- **What LIKE means**: the whole string matches, whatever the bytes are that the wildcards stand for. -/
def Like (pattern s : Bytes) : Prop := Wildcards.Matches (fun _ => True) (likePieces pattern) s

def isBreak (c : UInt8) : Bool := c = 10 || c = 13

/-- How many line breaks there are. -/
def breaks (s : Bytes) : Nat := s.countP isBreak

theorem isDot_iff (c : UInt8) : isDot c = true ↔ isBreak c = false := by
  have hall := forall_byte (p := fun c => isDot c = !isBreak c) (by decide +kernel) c
  rw [of_decide_eq_true hall, Bool.not_eq_true']

theorem matches_likePattern_iff (pattern : Bytes) {before s after : Bytes} :
    (likePattern pattern).Matches before s after ↔
      Wildcards.Matches (fun c => isBreak c = false) (likePieces pattern) s := by
  induction pattern generalizing before s with
  | nil => exact Iff.rfl
  | cons c pattern ih =>
    rw [likePieces]
    by_cases hany : c = 37
    · subst hany
      rw [if_pos rfl, likePattern]
      constructor
      · rintro ⟨u, v, rfl, hu, hv⟩
        exact ⟨u, v, rfl, fun x hx => (isDot_iff x).1 (hu x hx), ih.1 hv⟩
      · rintro ⟨u, v, rfl, hu, hv⟩
        exact ⟨u, v, rfl, fun x hx => (isDot_iff x).2 (hu x hx), ih.2 hv⟩
    · rw [if_neg hany]
      by_cases hone : c = 95
      · subst hone
        rw [if_pos rfl, likePattern]
        constructor
        · rintro ⟨u, v, rfl, ⟨x, rfl, hx⟩, hv⟩
          exact ⟨x, v, rfl, (isDot_iff x).1 hx, ih.1 hv⟩
        · rintro ⟨x, v, rfl, hx, hv⟩
          exact ⟨[x], v, rfl, ⟨x, rfl, (isDot_iff x).2 hx⟩, ih.2 hv⟩
      · rw [if_neg hone, likePattern_letter hany hone]
        constructor
        · rintro ⟨u, v, rfl, ⟨x, rfl, hx⟩, hv⟩
          obtain rfl : x = c := of_decide_eq_true hx
          exact ⟨v, rfl, ih.1 hv⟩
        · rintro ⟨v, rfl, hv⟩
          exact ⟨[c], v, rfl, ⟨c, rfl, decide_eq_true rfl⟩, ih.2 hv⟩

/-- A wildcard's letters are none of the pattern's own. -/
theorem letters_likePieces (pattern : Bytes) : (Wildcards.letters (likePieces pattern)).countP isBreak = breaks pattern := by
  unfold breaks
  induction pattern with
  | nil => rfl
  | cons c pattern ih =>
    rw [likePieces]
    split_ifs with hany hone
    · subst hany
      rw [Wildcards.letters, ih, List.countP_cons_of_neg (by decide)]
      simp
    · subst hone
      rw [Wildcards.letters, ih, List.countP_cons_of_neg (by decide)]
      simp
    · rw [Wildcards.letters, List.countP_cons, List.countP_cons, ih]

theorem fullMatch_likePattern_iff (pattern s : Bytes) :
    (fullMatch (likePattern pattern) s).isSome = true ↔ Like pattern s ∧ breaks s ≤ breaks pattern := by
  rw [fullMatch_isSome, matches_likePattern_iff, Wildcards.matches_avoiding_iff, letters_likePieces]
  exact Iff.rfl

theorem parse_like {column : Bytes} (hcolumn : IsIdent column) (pattern : Bytes) :
    parse (column ++ str " LIKE " ++ quote pattern) = .ok (.like column (likePattern pattern)) :=
  parse_print (c := .like column pattern) hcolumn

/-- **LIKE matches as SQL defines it** exactly when the string does not match anyway or has no more line breaks than the
pattern: a wildcard stands for any byte but these. The stack that `std::regex` needs for a long string is not modelled. -/
theorem like_matches_iff (column pattern s : Bytes) (row : List (Bytes × Json)) (hcolumn : IsIdent column)
    (hrow : row.lookup column = some (.string s)) :
    ∃ node re, parse (column ++ str " LIKE " ++ quote pattern) = .ok node ∧ node = .like column re ∧
      compile (likePatternToRegex pattern) = some re ∧
      ((evaluate node (.object row) = true ↔ Like pattern s) ↔ (Like pattern s → breaks s ≤ breaks pattern)) := by
  refine ⟨_, _, parse_like hcolumn pattern, rfl, compile_likePatternToRegex pattern, ?_⟩
  have heval : evaluate (.like column (likePattern pattern)) (.object row) = (fullMatch (likePattern pattern) s).isSome := by
    rw [evaluate, evaluateNode, hrow]
  rw [heval, fullMatch_likePattern_iff]
  tauto

theorem like_matches_metacharacters :
    ∃ node, parse (str "c LIKE 'a.%\n_'") = .ok node ∧
      (evaluate node (.object [(str "c", .string (str "a.*\nz"))]) = true ↔ Like (str "a.%\n_") (str "a.*\nz")) := by
  have hident : IsIdent (str "c") := ⟨⟨99, _, rfl, rfl⟩, by decide +kernel, by decide⟩
  obtain ⟨node, re, hparse, -, -, hiff⟩ := like_matches_iff (str "c") (str "a.%\n_") (str "a.*\nz")
    [(str "c", .string (str "a.*\nz"))] hident rfl
  exact ⟨node, hparse, hiff.2 fun _ => by decide⟩

/-- `%` stands for no line break. -/
theorem like_stops_at_break :
    ∃ node, parse (str "c LIKE '%'") = .ok node ∧ Like (str "%") (str "a\nb") ∧
      evaluate node (.object [(str "c", .string (str "a\nb"))]) = false := by
  have hident : IsIdent (str "c") := ⟨⟨99, _, rfl, rfl⟩, by decide +kernel, by decide⟩
  exact ⟨_, parse_like hident (str "%"), ⟨str "a\nb", [], rfl, by simp, rfl⟩, by decide⟩

end Predicate

end OriginDB
