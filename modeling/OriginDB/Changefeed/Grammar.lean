import OriginDB.Changefeed.Predicate
/-!
# The grammar of WHERE clauses (`include/changefeed/predicate_evaluator.h:14-29`)

The header gives the grammar; `IsExpr`, `IsTerm` and `IsFactor` are its derivations, with the tree each of them stands
for. The parser finds a tree exactly when the tokens before `END` derive, and then that one (`parse_tokens_iff`).
-/
namespace OriginDB

open ByteCodec

namespace Predicate

/-! ## Derivations -/

/-- `comparison := ident op literal | ident LIKE 'pattern' | ident IS [NOT] NULL`. -/
inductive IsComparison : List Token → Node → Prop where
  | compare {column operator literal : Token} {op : Op} {value : Literal} (hcolumn : column.type = .ident)
      (hop : opOf operator.type = some op) (hvalue : literalOf literal = some value) :
      IsComparison [column, operator, literal] (.comparison column.text op value)
  | like {column word pattern : Token} (hcolumn : column.type = .ident) (hword : word.type = .kwLike)
      (hpattern : pattern.type = .string) :
      IsComparison [column, word, pattern] (.like column.text (likePattern pattern.text))
  | isNull {column word null : Token} (hcolumn : column.type = .ident) (hword : word.type = .kwIs)
      (hnull : null.type = .kwNull) : IsComparison [column, word, null] (.isNull column.text false)
  | isNotNull {column word negation null : Token} (hcolumn : column.type = .ident) (hword : word.type = .kwIs)
      (hnegation : negation.type = .kwNot) (hnull : null.type = .kwNull) :
      IsComparison [column, word, negation, null] (.isNull column.text true)

mutual

/-- `expr := term (OR term)*`, to the left. -/
inductive IsExpr : List Token → Node → Prop where
  | term {ts : List Token} {node : Node} (h : IsTerm ts node) : IsExpr ts node
  | or {ts us : List Token} {word : Token} {left right : Node} (hleft : IsExpr ts left) (hword : word.type = .kwOr)
      (hright : IsTerm us right) : IsExpr (ts ++ word :: us) (.or left right)

/-- `term := factor (AND factor)*`, to the left. -/
inductive IsTerm : List Token → Node → Prop where
  | factor {ts : List Token} {node : Node} (h : IsFactor ts node) : IsTerm ts node
  | and {ts us : List Token} {word : Token} {left right : Node} (hleft : IsTerm ts left) (hword : word.type = .kwAnd)
      (hright : IsFactor us right) : IsTerm (ts ++ word :: us) (.and left right)

/-- `factor := '(' expr ')' | NOT factor | comparison`. -/
inductive IsFactor : List Token → Node → Prop where
  | parens {ts : List Token} {opening closing : Token} {node : Node} (hopening : opening.type = .lparen)
      (h : IsExpr ts node) (hclosing : closing.type = .rparen) : IsFactor (opening :: (ts ++ [closing])) node
  | not {ts : List Token} {word : Token} {node : Node} (hword : word.type = .kwNot) (h : IsFactor ts node) :
      IsFactor (word :: ts) (.not node)
  | comparison {ts : List Token} {node : Node} (h : IsComparison ts node) : IsFactor ts node

end

/-! ## What is found is derived -/

section
variable {n : Nat} {ts rest : List Token} {node : Node}

theorem exists_head_of_peek {type : TokenType} (h : peekType ts = type) (hne : type ≠ .eof) :
    ∃ t, t.type = type ∧ ts = t :: ts.tail := by
  cases ts with
  | nil => exact absurd h.symm hne
  | cons t ts => exact ⟨t, h, rfl⟩

theorem fail_ne_ok {message : String} {ts : List Token} {found : Node × List Token} : fail message ts ≠ .ok found := by
  simp [fail]

/-- A comparison is read off the front, and nothing else. -/
theorem parseComparison_sound (h : parseComparison ts = .ok (node, rest)) :
    ∃ used, ts = used ++ rest ∧ IsComparison used node := by
  unfold parseComparison at h
  split at h
  · rename_i column number pos ts
    split at h
    · rename_i hpeek
      obtain ⟨word, hword, hts⟩ := exists_head_of_peek hpeek (by decide)
      dsimp only at h
      by_cases hnot : peekType ts.tail = .kwNot
      · obtain ⟨negation, hnegation, htail⟩ := exists_head_of_peek hnot (by decide)
        simp only [hnot, decide_true, if_true] at h
        split at h
        · rename_i hnull
          obtain ⟨null, hnullType, hrest⟩ := exists_head_of_peek hnull (by decide)
          cases h
          refine ⟨[⟨.ident, column, number, pos⟩, word, negation, null], ?_, .isNotNull rfl hword hnegation hnullType⟩
          rw [List.cons_append, List.cons_append, List.cons_append, List.cons_append, List.nil_append, ← hrest, ← htail, ← hts]
        · exact absurd h fail_ne_ok
      · simp only [hnot, decide_false, Bool.false_eq_true, if_false] at h
        split at h
        · rename_i hnull
          obtain ⟨null, hnullType, hrest⟩ := exists_head_of_peek hnull (by decide)
          cases h
          refine ⟨[⟨.ident, column, number, pos⟩, word, null], ?_, .isNull rfl hword hnullType⟩
          rw [List.cons_append, List.cons_append, List.cons_append, List.nil_append, ← hrest, ← hts]
        · exact absurd h fail_ne_ok
    · rename_i hpeek
      obtain ⟨word, hword, hts⟩ := exists_head_of_peek hpeek (by decide)
      split at h
      · rename_i pattern patternNumber patternPos rest' htail
        cases h
        refine ⟨[⟨.ident, column, number, pos⟩, word, ⟨.string, pattern, patternNumber, patternPos⟩], ?_, .like rfl hword rfl⟩
        rw [List.cons_append, List.cons_append, List.cons_append, List.nil_append, ← htail, ← hts]
      · exact absurd h fail_ne_ok
    · split at h
      · exact absurd h fail_ne_ok
      · rename_i op hop
        split at h
        · rename_i literal rest' htail
          split at h
          · rename_i value hvalue
            cases h
            have hne : peekType ts ≠ .eof := by
              intro heof
              rw [heof] at hop
              cases hop
            obtain ⟨operator, hoperator, hts⟩ := exists_head_of_peek rfl hne
            refine ⟨[⟨.ident, column, number, pos⟩, operator, literal], ?_, .compare rfl (hoperator ▸ hop) hvalue⟩
            rw [List.cons_append, List.cons_append, List.cons_append, List.nil_append, ← htail, ← hts]
          · exact absurd h fail_ne_ok
        · exact absurd h fail_ne_ok
  · exact absurd h fail_ne_ok

/-- Whatever the functions of the parser find, they have read a derivation of it. -/
theorem parser_sound (n : Nat) :
    (∀ {ts rest node}, parseExpr n ts = .ok (node, rest) → ∃ used, ts = used ++ rest ∧ IsExpr used node) ∧
    (∀ {before left ts rest node}, IsExpr before left → orTerms n left ts = .ok (node, rest) →
      ∃ used, ts = used ++ rest ∧ IsExpr (before ++ used) node) ∧
    (∀ {ts rest node}, parseTerm n ts = .ok (node, rest) → ∃ used, ts = used ++ rest ∧ IsTerm used node) ∧
    (∀ {before left ts rest node}, IsTerm before left → andFactors n left ts = .ok (node, rest) →
      ∃ used, ts = used ++ rest ∧ IsTerm (before ++ used) node) ∧
    ∀ {ts rest node}, parseFactor n ts = .ok (node, rest) → ∃ used, ts = used ++ rest ∧ IsFactor used node := by
  induction n with
  | zero => exact ⟨by simp [parseExpr], by simp [orTerms], by simp [parseTerm], by simp [andFactors], by simp [parseFactor]⟩
  | succ n ih =>
    obtain ⟨hexpr, hor, hterm, hand, hfactor⟩ := ih
    refine ⟨?_, ?_, ?_, ?_, ?_⟩
    · intro ts rest node h
      rw [parseExpr] at h
      split at h
      · rename_i left mid hleft
        obtain ⟨used, rfl, hused⟩ := hterm hleft
        obtain ⟨more, rfl, hall⟩ := hor (.term hused) h
        exact ⟨used ++ more, by rw [List.append_assoc], hall⟩
      · cases h
    · intro before left ts rest node hbefore h
      rw [orTerms] at h
      split at h
      · rename_i hpeek
        obtain ⟨word, hword, hts⟩ := exists_head_of_peek hpeek (by decide)
        split at h
        · rename_i right mid hright
          obtain ⟨used, htail, hused⟩ := hterm hright
          obtain ⟨more, rfl, hall⟩ := hor (.or hbefore hword hused) h
          refine ⟨word :: (used ++ more), ?_, ?_⟩
          · rw [hts, htail, List.cons_append, List.append_assoc]
          · rwa [List.append_assoc, List.cons_append] at hall
        · cases h
      · cases h
        exact ⟨[], rfl, by rwa [List.append_nil]⟩
    · intro ts rest node h
      rw [parseTerm] at h
      split at h
      · rename_i left mid hleft
        obtain ⟨used, rfl, hused⟩ := hfactor hleft
        obtain ⟨more, rfl, hall⟩ := hand (.factor hused) h
        exact ⟨used ++ more, by rw [List.append_assoc], hall⟩
      · cases h
    · intro before left ts rest node hbefore h
      rw [andFactors] at h
      split at h
      · rename_i hpeek
        obtain ⟨word, hword, hts⟩ := exists_head_of_peek hpeek (by decide)
        split at h
        · rename_i right mid hright
          obtain ⟨used, htail, hused⟩ := hfactor hright
          obtain ⟨more, rfl, hall⟩ := hand (.and hbefore hword hused) h
          refine ⟨word :: (used ++ more), ?_, ?_⟩
          · rw [hts, htail, List.cons_append, List.append_assoc]
          · rwa [List.append_assoc, List.cons_append] at hall
        · cases h
      · cases h
        exact ⟨[], rfl, by rwa [List.append_nil]⟩
    · intro ts rest node h
      rw [parseFactor] at h
      split at h
      · rename_i hpeek
        obtain ⟨opening, hopening, hts⟩ := exists_head_of_peek hpeek (by decide)
        split at h
        · rename_i expr mid hin
          obtain ⟨used, htail, hused⟩ := hexpr hin
          split at h
          · rename_i hclose
            obtain ⟨closing, hclosing, hmid⟩ := exists_head_of_peek hclose (by decide)
            cases h
            refine ⟨opening :: (used ++ [closing]), ?_, .parens hopening hused hclosing⟩
            rw [hts, htail, List.cons_append, List.append_assoc, List.singleton_append, ← hmid]
          · exact absurd h fail_ne_ok
        · cases h
      · rename_i hpeek
        obtain ⟨word, hword, hts⟩ := exists_head_of_peek hpeek (by decide)
        split at h
        · rename_i operand mid hin
          obtain ⟨used, htail, hused⟩ := hfactor hin
          cases h
          exact ⟨word :: used, by rw [hts, htail, List.cons_append], .not hword hused⟩
        · cases h
      · obtain ⟨used, rfl, hused⟩ := parseComparison_sound h
        exact ⟨used, rfl, .comparison hused⟩

end

/-! ## What is derived is found -/

section
variable {ts used rest : List Token} {node : Node}

theorem parseComparison_complete (h : IsComparison used node) (rest : List Token) :
    parseComparison (used ++ rest) = .ok (node, rest) := by
  cases h with
  | @compare column operator literal op value hcolumn hop hvalue =>
    obtain ⟨_, text, number, pos⟩ := column
    obtain rfl : _ = TokenType.ident := hcolumn
    have hpeek : peekType (operator :: literal :: rest) = operator.type := rfl
    simp only [List.cons_append, List.nil_append, parseComparison, hpeek]
    split
    · rename_i hword
      rw [hword] at hop
      cases hop
    · rename_i hword
      rw [hword] at hop
      cases hop
    · simp only [hop, List.tail_cons, hvalue]
  | @like column word pattern hcolumn hword hpattern =>
    obtain ⟨_, text, number, pos⟩ := column
    obtain ⟨_, wordText, wordNumber, wordPos⟩ := word
    obtain ⟨_, patternText, patternNumber, patternPos⟩ := pattern
    obtain rfl : _ = TokenType.ident := hcolumn
    obtain rfl : _ = TokenType.kwLike := hword
    obtain rfl : _ = TokenType.string := hpattern
    rfl
  | @isNull column word null hcolumn hword hnull =>
    obtain ⟨_, text, number, pos⟩ := column
    obtain ⟨_, wordText, wordNumber, wordPos⟩ := word
    obtain ⟨_, nullText, nullNumber, nullPos⟩ := null
    obtain rfl : _ = TokenType.ident := hcolumn
    obtain rfl : _ = TokenType.kwIs := hword
    obtain rfl : _ = TokenType.kwNull := hnull
    rfl
  | @isNotNull column word negation null hcolumn hword hnegation hnull =>
    obtain ⟨_, text, number, pos⟩ := column
    obtain ⟨_, wordText, wordNumber, wordPos⟩ := word
    obtain ⟨_, notText, notNumber, notPos⟩ := negation
    obtain ⟨_, nullText, nullNumber, nullPos⟩ := null
    obtain rfl : _ = TokenType.ident := hcolumn
    obtain rfl : _ = TokenType.kwIs := hword
    obtain rfl : _ = TokenType.kwNot := hnegation
    obtain rfl : _ = TokenType.kwNull := hnull
    rfl

/-- A comparison begins with its column. -/
theorem IsComparison.peek (h : IsComparison used node) (rest : List Token) : peekType (used ++ rest) = .ident := by
  cases h <;> assumption

mutual

/-- The parser reads a derived expression and goes on with its loop. The fuel `k` is what that loop needs. -/
theorem parseExpr_complete : ∀ {used : List Token} {node : Node}, IsExpr used node → ∀ {rest : List Token} {r : Parsed} {k : Nat},
    peekType rest ≠ .kwAnd → (∀ n, k ≤ n → orTerms n node rest = r) →
    ∀ n, k + used.length + 1 ≤ n → 3 * used.length + 3 ≤ n → parseExpr n (used ++ rest) = r
  | used, node, .term h, rest, r, k, hpeek, hloop, n, hk, hn => by
    obtain ⟨m, rfl⟩ : ∃ m, n = m + 1 := ⟨n - 1, by omega⟩
    have hstop : ∀ n, 1 ≤ n → andFactors n node rest = .ok (node, rest) := by
      intro n hn
      obtain ⟨m, rfl⟩ : ∃ m, n = m + 1 := ⟨n - 1, by omega⟩
      rw [andFactors, if_neg hpeek]
    rw [parseExpr, parseTerm_complete h hstop m (by omega) (by omega)]
    exact hloop m (by omega)
  | _, _, @IsExpr.or ts us word left right hleft hword hright, rest, r, k, hpeek, hloop, n, hk, hn => by
    simp only [List.length_append, List.length_cons] at hk hn
    have hword' : peekType (word :: (us ++ rest)) = .kwOr := hword
    have hstop : ∀ n, 1 ≤ n → andFactors n right rest = .ok (right, rest) := by
      intro n hn
      obtain ⟨m, rfl⟩ : ∃ m, n = m + 1 := ⟨n - 1, by omega⟩
      rw [andFactors, if_neg hpeek]
    have hstep : ∀ n, max k (3 * us.length + 2) + 1 ≤ n → orTerms n left (word :: (us ++ rest)) = r := by
      intro n hn
      obtain ⟨m, rfl⟩ : ∃ m, n = m + 1 := ⟨n - 1, by omega⟩
      rw [orTerms, if_pos hword', List.tail_cons, parseTerm_complete hright hstop m (by omega) (by omega)]
      exact hloop m (by omega)
    rw [List.append_assoc, List.cons_append]
    exact parseExpr_complete hleft (by rw [hword']; decide) hstep n (by omega) (by omega)

theorem parseTerm_complete : ∀ {used : List Token} {node : Node}, IsTerm used node → ∀ {rest : List Token} {r : Parsed} {k : Nat},
    (∀ n, k ≤ n → andFactors n node rest = r) →
    ∀ n, k + used.length + 1 ≤ n → 3 * used.length + 2 ≤ n → parseTerm n (used ++ rest) = r
  | used, node, .factor h, rest, r, k, hloop, n, hk, hn => by
    obtain ⟨m, rfl⟩ : ∃ m, n = m + 1 := ⟨n - 1, by omega⟩
    rw [parseTerm, parseFactor_complete h rest m (by omega)]
    exact hloop m (by omega)
  | _, _, @IsTerm.and ts us word left right hleft hword hright, rest, r, k, hloop, n, hk, hn => by
    simp only [List.length_append, List.length_cons] at hk hn
    have hword' : peekType (word :: (us ++ rest)) = .kwAnd := hword
    have hstep : ∀ n, max k (3 * us.length + 1) + 1 ≤ n → andFactors n left (word :: (us ++ rest)) = r := by
      intro n hn
      obtain ⟨m, rfl⟩ : ∃ m, n = m + 1 := ⟨n - 1, by omega⟩
      rw [andFactors, if_pos hword', List.tail_cons, parseFactor_complete hright rest m (by omega)]
      exact hloop m (by omega)
    rw [List.append_assoc, List.cons_append]
    exact parseTerm_complete hleft hstep n (by omega) (by omega)

theorem parseFactor_complete : ∀ {used : List Token} {node : Node}, IsFactor used node → ∀ (rest : List Token) (n : Nat),
    3 * used.length + 1 ≤ n → parseFactor n (used ++ rest) = .ok (node, rest)
  | _, _, @IsFactor.parens ts opening closing node hopening h hclosing, rest, n, hn => by
    simp only [List.length_append, List.length_cons, List.length_nil] at hn
    obtain ⟨m, rfl⟩ : ∃ m, n = m + 1 := ⟨n - 1, by omega⟩
    have hopen : peekType (opening :: (ts ++ [closing]) ++ rest) = .lparen := hopening
    have hclose : peekType (closing :: rest) = .rparen := hclosing
    have hstop : ∀ n, 1 ≤ n → orTerms n node (closing :: rest) = .ok (node, closing :: rest) := by
      intro n hn
      obtain ⟨m, rfl⟩ : ∃ m, n = m + 1 := ⟨n - 1, by omega⟩
      rw [orTerms, if_neg (by rw [hclose]; decide)]
    have hin := parseExpr_complete h (by rw [hclose]; decide) hstop m (by omega) (by omega)
    have htail : (opening :: (ts ++ [closing]) ++ rest).tail = ts ++ closing :: rest := by
      rw [List.cons_append, List.tail_cons, List.append_assoc, List.singleton_append]
    rw [parseFactor, hopen]
    simp only [htail, hin, hclose, if_true, List.tail_cons]
  | _, _, @IsFactor.not ts word node hword h, rest, n, hn => by
    rw [List.length_cons] at hn
    obtain ⟨m, rfl⟩ : ∃ m, n = m + 1 := ⟨n - 1, by omega⟩
    have hpeek : peekType (word :: ts ++ rest) = .kwNot := hword
    have htail : (word :: ts ++ rest).tail = ts ++ rest := rfl
    rw [parseFactor, hpeek]
    simp only [htail, parseFactor_complete h rest m (by omega)]
  | used, node, .comparison h, rest, n, hn => by
    obtain ⟨m, rfl⟩ : ∃ m, n = m + 1 := ⟨n - 1, by omega⟩
    rw [parseFactor, h.peek rest]
    exact parseComparison_complete h rest

end

end

end Predicate

end OriginDB
