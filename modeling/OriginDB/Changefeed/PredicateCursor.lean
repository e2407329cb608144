import OriginDB.Changefeed.Grammar
/-!
# The parser and its index (`src/changefeed/predicate_evaluator.cpp:251-430`)

The parser holds all tokens and an index, and nothing in it asks whether the index is still within them. Here a look
beyond the last token is an outcome of its own. No function steps over `END`, so on tokens that end with it this never
happens, and what the parser does is what `parseExpr` does on the tokens that are left (`parser_runs`).

| here | there |
| --- | --- |
| `peek`, `advance`, `matchType`, `failed` | `Peek` (`:270`), `Advance` (`:272`), `Match` (`:274`), `Fail` (`:282`) |
| `expr`, `exprLoop`, `term`, `termLoop` | `ParseExpr` (`:290`), `ParseTerm` (`:308`) and their loops |
| `factor`, `comparison`, `run` | `ParseFactor` (`:326`), `ParseComparison` (`:350`), `Parse` (`:255`) |
-/
namespace OriginDB

open JsonDoc ByteCodec

namespace Predicate

/-- How the parser ends without a tree. -/
inductive Halt where
  | failed (message : Bytes)
  | outOfBounds
  | fuel
deriving DecidableEq

/-- A parser over the tokens, from one index to the next. -/
abbrev Parser := ReaderT (List Token) (StateT Nat (Except Halt))

namespace Parser

def peek : Parser Token := fun tokens index =>
  match tokens[index]? with
  | some t => .ok (t, index)
  | none => .error .outOfBounds

def advance : Parser Token := do
  let t ← peek
  modify (· + 1)
  return t

def matchType (type : TokenType) : Parser Bool := do
  let t ← peek
  if t.type = type then
    modify (· + 1)
    return true
  else return false

def failed {α : Type} (message : String) : Parser α := do
  let t ← peek
  throw (.failed (atPosition (str message) t.pos))

def comparison : Parser Node := do
  let t ← peek
  if t.type ≠ .ident then failed "Expected column name"
  else
    let column := (← advance).text
    if ← matchType .kwIs then
      let negated ← matchType .kwNot
      if ← matchType .kwNull then return .isNull column negated
      else failed "Expected NULL after IS"
    else if ← matchType .kwLike then
      let t ← peek
      if t.type ≠ .string then failed "Expected string pattern after LIKE"
      else
        let pattern := (← advance).text
        return .like column (likePattern pattern)
    else
      let t ← peek
      match opOf t.type with
      | none => failed "Expected comparison operator"
      | some op =>
        let _ ← advance
        let literal ← peek
        match literalOf literal with
        | none => failed "Expected literal after comparison operator"
        | some value =>
          let _ ← advance
          return .comparison column op value

mutual

def expr : Nat → Parser Node
  | 0 => throw .fuel
  | n + 1 => do
    let left ← term n
    exprLoop n left

def exprLoop : Nat → Node → Parser Node
  | 0, _ => throw .fuel
  | n + 1, left => do
    if ← matchType .kwOr then
      let right ← term n
      exprLoop n (.or left right)
    else return left

def term : Nat → Parser Node
  | 0 => throw .fuel
  | n + 1 => do
    let left ← factor n
    termLoop n left

def termLoop : Nat → Node → Parser Node
  | 0, _ => throw .fuel
  | n + 1, left => do
    if ← matchType .kwAnd then
      let right ← factor n
      termLoop n (.and left right)
    else return left

def factor : Nat → Parser Node
  | 0 => throw .fuel
  | n + 1 => do
    if ← matchType .lparen then
      let node ← expr n
      if ← matchType .rparen then return node
      else failed "Expected ')'"
    else if ← matchType .kwNot then
      let operand ← factor n
      return .not operand
    else comparison

end

/-- `Parser::Parse`, from the first token on. -/
def run (tokens : List Token) : Except Halt Node :=
  let whole : Parser Node := do
    let node ← expr (3 * tokens.length + 3)
    let t ← peek
    if t.type ≠ .eof then failed "Unexpected trailing input" else return node
  (whole tokens 0).map Prod.fst

/-! ## What is left of the tokens -/

/-- The last token is `END`. -/
def Ends (ts : List Token) : Prop := ∃ last, ts.getLast? = some last ∧ last.type = .eof

section
variable {tokens ts : List Token} {t : Token} {index : Nat} {α β : Type}

theorem run_bind (c : Parser α) (f : α → Parser β) (tokens : List Token) (index : Nat) :
    (c >>= f) tokens index = match c tokens index with
      | .ok (a, next) => f a tokens next
      | .error e => .error e := by
  show (c tokens index).bind _ = _
  cases c tokens index <;> rfl

theorem Ends.ne_nil (h : Ends ts) : ts ≠ [] := by
  rintro rfl
  obtain ⟨last, hlast, -⟩ := h
  cases hlast

theorem Ends.exists_cons (h : Ends ts) : ∃ t rest, ts = t :: rest := List.exists_cons_of_ne_nil h.ne_nil

/-- Behind a token that is not `END` there is one more. -/
theorem Ends.tail (h : Ends (t :: ts)) (hne : t.type ≠ .eof) : Ends ts := by
  obtain ⟨last, hlast, htype⟩ := h
  cases ts with
  | nil =>
    rw [List.getLast?_singleton, Option.some.injEq] at hlast
    exact absurd (hlast ▸ htype) hne
  | cons u ts => exact ⟨last, by rwa [List.getLast?_cons_cons] at hlast, htype⟩

theorem drop_succ_of_drop (h : tokens.drop index = t :: ts) : tokens.drop (index + 1) = ts := by
  rw [← List.tail_drop, h, List.tail_cons]

theorem run_peek (h : tokens.drop index = t :: ts) (f : Token → Parser α) :
    (peek >>= f) tokens index = f t tokens index := by
  have hget : tokens[index]? = some t := by
    rw [← List.head?_drop, h, List.head?_cons]
  rw [run_bind, peek, hget]

theorem run_advance (h : tokens.drop index = t :: ts) (f : Token → Parser α) :
    (advance >>= f) tokens index = f t tokens (index + 1) := by
  have hadvance : advance tokens index = .ok (t, index + 1) := by
    rw [advance, run_peek h]
    rfl
  rw [run_bind, hadvance]

theorem run_match (h : tokens.drop index = t :: ts) (type : TokenType) (f : Bool → Parser α) :
    (matchType type >>= f) tokens index =
      if t.type = type then f true tokens (index + 1) else f false tokens index := by
  have hmatch : matchType type tokens index = if t.type = type then .ok (true, index + 1) else .ok (false, index) := by
    rw [matchType, run_peek h]
    split <;> rfl
  rw [run_bind, hmatch]
  by_cases htype : t.type = type <;> simp only [htype, if_true, if_false]

theorem run_failed (h : tokens.drop index = t :: ts) (message : String) :
    (failed message : Parser α) tokens index = .error (.failed (atPosition (str message) t.pos)) := by
  rw [failed, run_peek h]
  rfl

/-! ## The parser on what is left -/

/-- A function of the parser ends as `parsed` says, with the rest of the tokens before it and `END` among them. -/
def Runs (tokens : List Token) (r : Except Halt (Node × Nat)) : Parsed → Prop
  | .ok (node, rest) => ∃ next, r = .ok (node, next) ∧ tokens.drop next = rest ∧ Ends rest
  | .error (.syntaxError message) => r = .error (.failed message)
  | .error .fuel => r = .error .fuel

theorem runs_failed (h : tokens.drop index = ts) (hends : Ends ts) (message : String) :
    Runs tokens (failed message tokens index) (fail message ts) := by
  obtain ⟨t, rest, rfl⟩ := hends.exists_cons
  exact run_failed h message

/-- `IS [NOT] NULL` behind the column. -/
theorem runs_isNull {column : Bytes} (h : tokens.drop index = ts) (hends : Ends ts) (negated : Bool) :
    Runs tokens
      ((do if ← matchType .kwNull then return .isNull column negated else failed "Expected NULL after IS" : Parser Node) tokens index)
      (if peekType ts = .kwNull then .ok (.isNull column negated, ts.tail) else fail "Expected NULL after IS" ts) := by
  obtain ⟨t, ts, rfl⟩ := hends.exists_cons
  rw [run_match h]
  by_cases hnull : t.type = .kwNull
  · have hpeek : peekType (t :: ts) = .kwNull := hnull
    rw [if_pos hnull, if_pos hpeek]
    exact ⟨index + 1, rfl, drop_succ_of_drop h, hends.tail (by rw [hnull]; decide)⟩
  · have hpeek : peekType (t :: ts) ≠ .kwNull := hnull
    rw [if_neg hnull, if_neg hpeek]
    exact runs_failed h hends _

theorem runs_comparison (h : tokens.drop index = ts) (hends : Ends ts) :
    Runs tokens (comparison tokens index) (parseComparison ts) := by
  obtain ⟨⟨type, column, number, pos⟩, ts, rfl⟩ := hends.exists_cons
  rw [comparison, run_peek h]
  by_cases htype : type = .ident
  · subst htype
    have hends' : Ends ts := hends.tail (by simp)
    have hts := drop_succ_of_drop h
    obtain ⟨t, ts, rfl⟩ := hends'.exists_cons
    have hrest := drop_succ_of_drop hts
    rw [if_neg (by simp), run_advance h, run_match hts]
    simp only [parseComparison, List.tail_cons]
    have hpeek : peekType (t :: ts) = t.type := rfl
    rw [hpeek]
    by_cases his : t.type = .kwIs
    · rw [if_pos his, his]
      have hends'' : Ends ts := hends'.tail (by rw [his]; decide)
      obtain ⟨u, ts, rfl⟩ := hends''.exists_cons
      have hpeek' : peekType (u :: ts) = u.type := rfl
      simp only [if_true]
      rw [run_match hrest]
      by_cases hnot : u.type = .kwNot
      · simp only [hpeek', hnot, if_true, decide_true, List.tail_cons]
        exact runs_isNull (drop_succ_of_drop hrest) (hends''.tail (by rw [hnot]; decide)) true
      · simp only [hpeek', hnot, if_false, decide_false, Bool.false_eq_true]
        exact runs_isNull hrest hends'' false
    · rw [if_neg his, if_neg Bool.false_ne_true, run_match hts]
      by_cases hlike : t.type = .kwLike
      · rw [if_pos hlike, hlike]
        have hends'' : Ends ts := hends'.tail (by rw [hlike]; decide)
        obtain ⟨⟨kind, pattern, number', pos'⟩, ts, rfl⟩ := hends''.exists_cons
        simp only [if_true]
        rw [run_peek hrest]
        by_cases hstring : kind = .string
        · subst hstring
          rw [if_neg (by simp), run_advance hrest]
          exact ⟨index + 1 + 1 + 1, rfl, drop_succ_of_drop hrest, hends''.tail (by simp)⟩
        · rw [if_pos hstring]
          split
          · rename_i heq
            cases heq
            exact absurd rfl hstring
          · exact runs_failed hrest hends'' _
      · rw [if_neg hlike, if_neg Bool.false_ne_true, run_peek hts]
        split
        · exact absurd ‹_› his
        · exact absurd ‹_› hlike
        · cases hop : opOf t.type with
          | none => exact runs_failed hts hends' _
          | some op =>
            have hends'' : Ends ts := hends'.tail (by intro heof; rw [heof] at hop; cases hop)
            obtain ⟨u, ts, rfl⟩ := hends''.exists_cons
            simp only
            rw [run_advance hts, run_peek hrest]
            cases hvalue : literalOf u with
            | none => exact runs_failed hrest hends'' _
            | some value =>
              simp only
              rw [run_advance hrest]
              have hne : u.type ≠ .eof := by
                intro heof
                rw [literalOf, heof] at hvalue
                cases hvalue
              exact ⟨index + 1 + 1 + 1, rfl, drop_succ_of_drop hrest, hends''.tail hne⟩
  · rw [if_pos htype]
    unfold parseComparison
    split
    · rename_i heq
      cases heq
      exact absurd rfl htype
    · exact runs_failed h hends _

/-- A function that has run has found something, or failed for good. -/
theorem Runs.found_or_failed {r : Except Halt (Node × Nat)} {parsed : Parsed} (h : Runs tokens r parsed) :
    (∃ node rest next, parsed = .ok (node, rest) ∧ r = .ok (node, next) ∧ tokens.drop next = rest ∧ Ends rest) ∨
      ∃ e halt, parsed = .error e ∧ r = .error halt ∧ Runs tokens (.error halt) (.error e) := by
  cases parsed with
  | ok found =>
    obtain ⟨next, rfl, hrest, hends⟩ := h
    exact Or.inl ⟨found.1, found.2, next, rfl, rfl, hrest, hends⟩
  | error e =>
    cases e with
    | syntaxError message => exact Or.inr ⟨_, _, rfl, h, rfl⟩
    | fuel => exact Or.inr ⟨_, _, rfl, h, rfl⟩

/-- **The parser does on its index what the functions on lists do on the tokens that are left.** -/
theorem parser_runs (n : Nat) :
    (∀ {ts index}, tokens.drop index = ts → Ends ts → Runs tokens (expr n tokens index) (parseExpr n ts)) ∧
    (∀ {left ts index}, tokens.drop index = ts → Ends ts → Runs tokens (exprLoop n left tokens index) (orTerms n left ts)) ∧
    (∀ {ts index}, tokens.drop index = ts → Ends ts → Runs tokens (term n tokens index) (parseTerm n ts)) ∧
    (∀ {left ts index}, tokens.drop index = ts → Ends ts → Runs tokens (termLoop n left tokens index) (andFactors n left ts)) ∧
    ∀ {ts index}, tokens.drop index = ts → Ends ts → Runs tokens (factor n tokens index) (parseFactor n ts) := by
  induction n with
  | zero => exact ⟨fun _ _ => rfl, fun _ _ => rfl, fun _ _ => rfl, fun _ _ => rfl, fun _ _ => rfl⟩
  | succ n ih =>
    obtain ⟨hexpr, hor, hterm, hand, hfactor⟩ := ih
    refine ⟨?_, ?_, ?_, ?_, ?_⟩
    · intro ts index h hends
      rw [expr, run_bind, parseExpr]
      obtain ⟨node, rest, next, hp, hr, hrest, hmore⟩ | ⟨e, halt, hp, hr, hfailed⟩ := (hterm h hends).found_or_failed
      · rw [hr, hp]
        exact hor hrest hmore
      · rw [hr, hp]
        exact hfailed
    · intro left ts index h hends
      obtain ⟨t, ts, rfl⟩ := hends.exists_cons
      have hpeek : peekType (t :: ts) = t.type := rfl
      rw [exprLoop, run_match h, orTerms, hpeek]
      by_cases hword : t.type = .kwOr
      · rw [if_pos hword, if_pos hword, if_pos rfl, run_bind]
        obtain ⟨node, rest, next, hp, hr, hrest, hmore⟩ | ⟨e, halt, hp, hr, hfailed⟩ :=
          (hterm (drop_succ_of_drop h) (hends.tail (by rw [hword]; decide))).found_or_failed
        · rw [hr, List.tail_cons, hp]
          exact hor hrest hmore
        · rw [hr, List.tail_cons, hp]
          exact hfailed
      · rw [if_neg hword, if_neg hword, if_neg Bool.false_ne_true]
        exact ⟨index, rfl, h, hends⟩
    · intro ts index h hends
      rw [term, run_bind, parseTerm]
      obtain ⟨node, rest, next, hp, hr, hrest, hmore⟩ | ⟨e, halt, hp, hr, hfailed⟩ := (hfactor h hends).found_or_failed
      · rw [hr, hp]
        exact hand hrest hmore
      · rw [hr, hp]
        exact hfailed
    · intro left ts index h hends
      obtain ⟨t, ts, rfl⟩ := hends.exists_cons
      have hpeek : peekType (t :: ts) = t.type := rfl
      rw [termLoop, run_match h, andFactors, hpeek]
      by_cases hword : t.type = .kwAnd
      · rw [if_pos hword, if_pos hword, if_pos rfl, run_bind]
        obtain ⟨node, rest, next, hp, hr, hrest, hmore⟩ | ⟨e, halt, hp, hr, hfailed⟩ :=
          (hfactor (drop_succ_of_drop h) (hends.tail (by rw [hword]; decide))).found_or_failed
        · rw [hr, List.tail_cons, hp]
          exact hand hrest hmore
        · rw [hr, List.tail_cons, hp]
          exact hfailed
      · rw [if_neg hword, if_neg hword, if_neg Bool.false_ne_true]
        exact ⟨index, rfl, h, hends⟩
    · intro ts index h hends
      obtain ⟨t, ts, rfl⟩ := hends.exists_cons
      have hpeek : peekType (t :: ts) = t.type := rfl
      have hts := drop_succ_of_drop h
      rw [factor, run_match h, parseFactor, hpeek]
      by_cases hopen : t.type = .lparen
      · rw [if_pos hopen, if_pos rfl, hopen, run_bind]
        simp only [List.tail_cons]
        obtain ⟨node, rest, next, hp, hr, hrest, hmore⟩ | ⟨e, halt, hp, hr, hfailed⟩ :=
          (hexpr hts (hends.tail (by rw [hopen]; decide))).found_or_failed
        · rw [hr, hp]
          obtain ⟨u, ts, rfl⟩ := hmore.exists_cons
          have hpeek' : peekType (u :: ts) = u.type := rfl
          simp only [hpeek']
          rw [run_match hrest]
          by_cases hclose : u.type = .rparen
          · rw [if_pos hclose, if_pos hclose]
            exact ⟨next + 1, rfl, drop_succ_of_drop hrest, hmore.tail (by rw [hclose]; decide)⟩
          · rw [if_neg hclose, if_neg hclose]
            exact runs_failed hrest hmore _
        · rw [hr, hp]
          exact hfailed
      · rw [if_neg hopen, if_neg Bool.false_ne_true, run_match h]
        by_cases hnot : t.type = .kwNot
        · rw [if_pos hnot, if_pos rfl, hnot, run_bind]
          simp only [List.tail_cons]
          obtain ⟨node, rest, next, hp, hr, hrest, hmore⟩ | ⟨e, halt, hp, hr, hfailed⟩ :=
            (hfactor hts (hends.tail (by rw [hnot]; decide))).found_or_failed
          · rw [hr, hp]
            exact ⟨next, rfl, hrest, hmore⟩
          · rw [hr, hp]
            exact hfailed
        · rw [if_neg hnot, if_neg Bool.false_ne_true]
          split
          · exact absurd ‹_› hopen
          · exact absurd ‹_› hnot
          · exact runs_comparison h hends

end

/-! ## Trees are derivations -/

section
variable {tokens before : List Token} {last : Token} {node : Node}

theorem ends_concat (h : last.type = .eof) : Ends (before ++ [last]) :=
  ⟨last, by rw [List.getLast?_concat], h⟩

/-- What the tokens before `END` derive is what `ParseExpr` finds. -/
theorem parseExpr_of_isExpr (hlast : last.type = .eof) (h : IsExpr before node) :
    parseExpr (3 * (before ++ [last]).length + 3) (before ++ [last]) = .ok (node, [last]) := by
  have hpeek : peekType [last] = .eof := hlast
  have hstop : ∀ n, 1 ≤ n → orTerms n node [last] = .ok (node, [last]) := by
    intro n hn
    obtain ⟨m, rfl⟩ : ∃ m, n = m + 1 := ⟨n - 1, by omega⟩
    rw [orTerms, if_neg (by rw [hpeek]; decide)]
  refine parseExpr_complete h (by rw [hpeek]; decide) hstop _ ?_ ?_
  · rw [List.length_append, List.length_singleton]
    omega
  · rw [List.length_append, List.length_singleton]
    omega

/-- An end of the tokens that begins with `END` is the last token. -/
theorem eq_of_append_eof {used ts : List Token} {t : Token} (hbefore : ∀ u ∈ before, u.type ≠ .eof) (ht : t.type = .eof)
    (h : before ++ [last] = used ++ t :: ts) : used = before ∧ t :: ts = [last] := by
  rcases List.append_eq_append_iff.1 h with ⟨more, hused, hlast⟩ | ⟨more, hbefore', hts⟩
  · cases more with
    | nil =>
      rw [List.append_nil] at hused
      exact ⟨hused, hlast.symm⟩
    | cons u more =>
      have hlen := congrArg List.length hlast
      simp only [List.length_append, List.length_cons, List.length_nil] at hlen
      omega
  · cases more with
    | nil =>
      rw [List.append_nil] at hbefore'
      exact ⟨hbefore'.symm, hts⟩
    | cons u more =>
      rw [List.cons_append, List.cons.injEq] at hts
      have hmem : t ∈ before := by
        rw [hbefore', hts.1]
        exact List.mem_append_right used List.mem_cons_self
      exact absurd ht (hbefore t hmem)

/-- A tree never takes the last token, which is `END`. -/
theorem ends_rest {n : Nat} {rest : List Token} (hends : Ends tokens) (h : parseExpr n tokens = .ok (node, rest)) : Ends rest := by
  have hruns := (parser_runs n).1 List.drop_zero hends
  rw [h] at hruns
  obtain ⟨next, -, -, hmore⟩ := hruns
  exact hmore

/-- How `Parse` ends, by how `ParseExpr` does. -/
theorem run_eq (hends : Ends tokens) : run tokens =
    match parseExpr (3 * tokens.length + 3) tokens with
    | .ok (node, rest) =>
      if peekType rest = .eof then .ok node
      else .error (.failed (atPosition (str "Unexpected trailing input") ((rest.head?.map Token.pos).getD 0)))
    | .error (.syntaxError message) => .error (.failed message)
    | .error .fuel => .error .fuel := by
  have hruns := (parser_runs (3 * tokens.length + 3)).1 List.drop_zero hends
  unfold run
  simp only
  rw [run_bind]
  obtain ⟨node, rest, next, hp, hr, hrest, hmore⟩ | ⟨e, halt, hp, hr, hfailed⟩ := hruns.found_or_failed
  · obtain ⟨t, ts, rfl⟩ := hmore.exists_cons
    have hpeek : peekType (t :: ts) = t.type := rfl
    rw [hr, hp]
    simp only [hpeek]
    rw [run_peek hrest]
    by_cases ht : t.type = .eof
    · rw [if_neg (by simp [ht]), if_pos ht]
      rfl
    · rw [if_pos ht, if_neg ht, run_failed hrest]
      rfl
  · rw [hr, hp]
    cases e with
    | syntaxError message =>
      cases hfailed
      rfl
    | fuel =>
      cases hfailed
      rfl

theorem run_eq_ok_iff (hbefore : ∀ t ∈ before, t.type ≠ .eof) (hlast : last.type = .eof) :
    run (before ++ [last]) = .ok node ↔ IsExpr before node := by
  rw [run_eq (ends_concat hlast)]
  constructor
  · intro h
    split at h
    · rename_i node' rest hparse
      obtain ⟨used, hsplit, hused⟩ := (parser_sound _).1 hparse
      split at h
      · rename_i heof
        cases h
        obtain ⟨t, ts, rfl⟩ := (ends_rest (ends_concat hlast) hparse).exists_cons
        obtain ⟨rfl, -⟩ := eq_of_append_eof hbefore heof hsplit
        exact hused
      · cases h
    · cases h
    · cases h
  · intro h
    have hpeek : peekType [last] = .eof := hlast
    rw [parseExpr_of_isExpr hlast h]
    simp only [hpeek, if_true]

/-- The parser's own verdict: it neither looks beyond `END` nor runs on. -/
theorem run_error (hends : Ends tokens) {halt : Halt} (h : run tokens = .error halt) : ∃ message, halt = .failed message := by
  have hfueled := (fueled (3 * tokens.length + 3)).1 tokens (Nat.le_refl _)
  rw [run_eq hends] at h
  split at h
  · split at h
    · cases h
    · cases h
      exact ⟨_, rfl⟩
  · cases h
    exact ⟨_, rfl⟩
  · rename_i hparse
    exact absurd hparse hfueled.1

/-- **The parser accepts its grammar**: it finds a tree exactly when the tokens before `END` derive it, and otherwise
reports a syntax error. It never looks beyond `END`, and it always ends. -/
theorem parser_accepts_grammar (before : List Token) (last : Token) (hbefore : ∀ t ∈ before, t.type ≠ .eof)
    (hlast : last.type = .eof) :
    (∀ node, run (before ++ [last]) = .ok node ↔ IsExpr before node) ∧
      ∀ halt, run (before ++ [last]) = .error halt → ∃ message, halt = .failed message :=
  ⟨fun _ => run_eq_ok_iff hbefore hlast, fun _ => run_error (ends_concat hlast)⟩

/-- `a IS NULL OR NOT b IS NULL AND c IS NULL`. -/
theorem parser_accepts_precedence :
    let word := fun (type : TokenType) (text : String) => (⟨type, str text, 0, 0⟩ : Token)
    let isNull := fun column => [word .ident column, word .kwIs "IS", word .kwNull "NULL"]
    run ((isNull "a" ++ word .kwOr "OR" :: (word .kwNot "NOT" :: isNull "b" ++ word .kwAnd "AND" :: isNull "c")) ++ [⟨.eof, [], 0, 0⟩]) =
      .ok (.or (.isNull (str "a") false) (.and (.not (.isNull (str "b") false)) (.isNull (str "c") false))) := by
  intro word isNull
  have hisNull : ∀ column, IsComparison (isNull column) (.isNull (str column) false) :=
    fun column => .isNull rfl rfl rfl
  refine ((parser_accepts_grammar _ ⟨.eof, [], 0, 0⟩ (by decide) rfl).1 _).2 ?_
  refine .or (.term (.factor (.comparison (hisNull "a")))) rfl (.and (.factor (.not rfl (.comparison (hisNull "b")))) rfl ?_)
  exact .comparison (hisNull "c")

end

end Parser

end Predicate

end OriginDB
