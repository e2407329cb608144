import OriginDB.Lib.Json
import OriginDB.Lib.Numbers
/-!
# WHERE clauses (`src/changefeed/predicate_evaluator.cpp`)

The tokenizer, the recursive-descent parser and the evaluator of a WHERE clause. The parser's functions
call each other once per token and level, so they take fuel; `parse` gives them enough
(`parse_ne_fuel`). A LIKE pattern is kept as the compiled regular expression: every character that is
special in one is escaped, so the text `LikePatternToRegex` builds stands for exactly these matchers.
-/
namespace OriginDB

open JsonDoc ByteCodec Regex

namespace Predicate

/-! ## Tokens -/

inductive TokenType where
  | ident | string | number
  | kwAnd | kwOr | kwNot | kwLike | kwIs | kwNull | kwTrue | kwFalse
  | eq | ne | lt | le | gt | ge
  | lparen | rparen
  | eof
deriving DecidableEq

structure Token where
  type : TokenType
  text : Bytes
  number : UInt64 := 0
  pos : Nat
deriving DecidableEq

def toLowerAscii (s : Bytes) : Bytes := s.map toLower

/-- `KeywordOrIdent` (predicate_evaluator.cpp:71). -/
def keywordOrIdent (word : Bytes) : TokenType :=
  let lower := toLowerAscii word
  if lower = str "and" then .kwAnd
  else if lower = str "or" then .kwOr
  else if lower = str "not" then .kwNot
  else if lower = str "like" then .kwLike
  else if lower = str "is" then .kwIs
  else if lower = str "null" then .kwNull
  else if lower = str "true" then .kwTrue
  else if lower = str "false" then .kwFalse
  else .ident

def atPosition (message : Bytes) (pos : Nat) : Bytes := message ++ str " at position " ++ str (toString pos)

/-- The string after its opening quote: its contents and the bytes up to and including the closing one. -/
def readString : Bytes → Option (Bytes × Nat)
  | [] => none
  | 39 :: 39 :: rest => (readString rest).map fun (v, n) => (39 :: v, n + 2)
  | 39 :: _ => some ([], 1)
  | c :: rest => (readString rest).map fun (v, n) => (c :: v, n + 1)

def startsNumber (s : Bytes) : Bool :=
  match s with
  | [] => false
  | c :: rest =>
    let digitAt := fun i => rest[i]?.any isDigit
    isDigit c || (c = 46 && digitAt 0) ||
      ((c = 43 || c = 45) && (digitAt 0 || (rest[0]? = some 46 && digitAt 1)))

/-- The number at the front (predicate_evaluator.cpp:117-138). -/
def readNumber (start : Nat) (s : Bytes) : Except Bytes (Token × Nat) :=
  let sign := match s with
    | c :: _ => if c = 43 ∨ c = 45 then 1 else 0
    | [] => 0
  let whole := sign + ((s.drop sign).takeWhile isDigit).length
  let finish := fun len =>
    let text := s.take len
    match Numbers.stod text with
    | some value => Except.ok (⟨.number, text, value, start⟩, len)
    | none => .error (atPosition (str "Malformed number '" ++ text ++ str "'") start)
  if s[whole]? = some 46 then
    let frac := ((s.drop (whole + 1)).takeWhile isDigit).length
    if frac = 0 then .error (atPosition (str "Malformed number") start)
    else finish (whole + 1 + frac)
  else finish whole

/-- One round of the loop of `Tokenize` (predicate_evaluator.cpp:93-226): the token at the front, if it is
no space, and how many bytes it takes. -/
def readToken (start : Nat) (c : UInt8) (rest : Bytes) : Except Bytes (Option Token × Nat) :=
  let one := fun type => .ok (some ⟨type, [c], 0, start⟩, 1)
  let two := fun type => .ok (some ⟨type, c :: rest.take 1, 0, start⟩, 2)
  let unexpected := .error (atPosition (str "Unexpected character '" ++ [c] ++ str "'") start)
  if isSpace c then .ok (none, 1)
  else if isAlpha c || c = 95 then
    let word := (c :: rest).takeWhile fun x => isAlnum x || x = 95
    .ok (some ⟨keywordOrIdent word, word, 0, start⟩, word.length)
  else if startsNumber (c :: rest) then
    (readNumber start (c :: rest)).map fun (t, n) => (some t, n)
  else if c = 39 then
    match readString rest with
    | some (value, n) => .ok (some ⟨.string, value, 0, start⟩, n + 1)
    | none => .error (atPosition (str "Unterminated string literal") start)
  else match Char.ofUInt8 c, rest.head? with
    | '=', _ => one .eq
    | '!', some 61 => two .ne
    | '<', some 61 => two .le
    | '<', some 62 => two .ne
    | '<', _ => one .lt
    | '>', some 61 => two .ge
    | '>', _ => one .gt
    | '(', _ => one .lparen
    | ')', _ => one .rparen
    | _, _ => unexpected

/-- `Tokenize` from a position on; `skip` bytes belong to the token just read. -/
def tokenizeFrom : Nat → Nat → Bytes → Except Bytes (List Token)
  | pos, _, [] => .ok [⟨.eof, [], 0, pos⟩]
  | pos, skip + 1, _ :: rest => tokenizeFrom (pos + 1) skip rest
  | pos, 0, c :: rest =>
    match readToken pos c rest with
    | .error e => .error e
    | .ok (token, n) => (tokenizeFrom (pos + 1) (n - 1) rest).map fun tokens => token.toList ++ tokens

/-- `Tokenize` (predicate_evaluator.cpp:89). -/
def tokenize (input : Bytes) : Except Bytes (List Token) := tokenizeFrom 0 0 input

/-! ## Parsing -/

inductive Op where
  | eq | ne | lt | le | gt | ge
deriving DecidableEq

inductive Literal where
  | string (s : Bytes)
  | number (bits : UInt64)
  | boolean (b : Bool)
  | null
deriving DecidableEq

/-- `PredicateNode` (predicate_evaluator.cpp:14). -/
inductive Node where
  | or (left right : Node)
  | and (left right : Node)
  | not (operand : Node)
  | comparison (column : Bytes) (op : Op) (literal : Literal)
  | like (column : Bytes) (pattern : Pattern)
  | isNull (column : Bytes) (negated : Bool)

/-- `LikePatternToRegex` (predicate_evaluator.cpp:236), compiled. -/
def likePattern : Bytes → Pattern
  | [] => .empty
  | 37 :: s => .seq (.many true isDot) (likePattern s)
  | 95 :: s => .seq (.char isDot) (likePattern s)
  | c :: s => .seq (.char fun x => x = c) (likePattern s)

inductive ParseError where
  | syntaxError (message : Bytes)
  | fuel
deriving DecidableEq

abbrev Parsed := Except ParseError (Node × List Token)

def peekType (ts : List Token) : TokenType := (ts.head?.map Token.type).getD .eof

/-- `Fail`. -/
def fail (message : String) (ts : List Token) : Parsed :=
  .error (.syntaxError (atPosition (str message) ((ts.head?.map Token.pos).getD 0)))

def opOf : TokenType → Option Op
  | .eq => some .eq | .ne => some .ne | .lt => some .lt | .le => some .le | .gt => some .gt | .ge => some .ge
  | _ => none

def literalOf (t : Token) : Option Literal :=
  match t.type with
  | .string => some (.string t.text)
  | .number => some (.number t.number)
  | .kwTrue => some (.boolean true)
  | .kwFalse => some (.boolean false)
  | .kwNull => some .null
  | _ => none

/-- `ParseComparison` (predicate_evaluator.cpp:354). -/
def parseComparison (ts : List Token) : Parsed :=
  match ts with
  | ⟨.ident, column, _, _⟩ :: ts =>
    match peekType ts with
    | .kwIs =>
      let ts := ts.tail
      let negated : Bool := peekType ts = .kwNot
      let ts := if negated then ts.tail else ts
      if peekType ts = .kwNull then .ok (.isNull column negated, ts.tail) else fail "Expected NULL after IS" ts
    | .kwLike =>
      match ts.tail with
      | ⟨.string, pattern, _, _⟩ :: ts => .ok (.like column (likePattern pattern), ts)
      | ts => fail "Expected string pattern after LIKE" ts
    | type =>
      match opOf type with
      | none => fail "Expected comparison operator" ts
      | some op =>
        match ts.tail with
        | t :: ts' =>
          match literalOf t with
          | some literal => .ok (.comparison column op literal, ts')
          | none => fail "Expected literal after comparison operator" (t :: ts')
        | [] => fail "Expected literal after comparison operator" []
  | ts => fail "Expected column name" ts

mutual

/-- `ParseExpr` (predicate_evaluator.cpp:291). -/
def parseExpr : Nat → List Token → Parsed
  | 0, _ => .error .fuel
  | n + 1, ts =>
    match parseTerm n ts with
    | .ok (left, ts) => orTerms n left ts
    | .error e => .error e

/-- Its loop over `OR`. -/
def orTerms : Nat → Node → List Token → Parsed
  | 0, _, _ => .error .fuel
  | n + 1, left, ts =>
    if peekType ts = .kwOr then
      match parseTerm n ts.tail with
      | .ok (right, ts) => orTerms n (.or left right) ts
      | .error e => .error e
    else .ok (left, ts)

/-- `ParseTerm` (predicate_evaluator.cpp:309). -/
def parseTerm : Nat → List Token → Parsed
  | 0, _ => .error .fuel
  | n + 1, ts =>
    match parseFactor n ts with
    | .ok (left, ts) => andFactors n left ts
    | .error e => .error e

/-- Its loop over `AND`. -/
def andFactors : Nat → Node → List Token → Parsed
  | 0, _, _ => .error .fuel
  | n + 1, left, ts =>
    if peekType ts = .kwAnd then
      match parseFactor n ts.tail with
      | .ok (right, ts) => andFactors n (.and left right) ts
      | .error e => .error e
    else .ok (left, ts)

/-- `ParseFactor` (predicate_evaluator.cpp:327). -/
def parseFactor : Nat → List Token → Parsed
  | 0, _ => .error .fuel
  | n + 1, ts =>
    match peekType ts with
    | .lparen =>
      match parseExpr n ts.tail with
      | .ok (expr, ts) => if peekType ts = .rparen then .ok (expr, ts.tail) else fail "Expected ')'" ts
      | .error e => .error e
    | .kwNot =>
      match parseFactor n ts.tail with
      | .ok (operand, ts) => .ok (.not operand, ts)
      | .error e => .error e
    | _ => parseComparison ts

end

/-- `PredicateEvaluator::Parse` (predicate_evaluator.cpp:520). -/
def parse (whereClause : Bytes) : Except ParseError Node :=
  match tokenize whereClause with
  | .error message => .error (.syntaxError message)
  | .ok tokens =>
    match parseExpr (3 * tokens.length + 3) tokens with
    | .error e => .error e
    | .ok (expr, ts) =>
      if peekType ts = .eof then .ok expr
      else .error (.syntaxError (atPosition (str "Unexpected trailing input") ((ts.head?.map Token.pos).getD 0)))

/-! ## Evaluation -/

/-- `CompareOrdered` (predicate_evaluator.cpp:435), given `==` and the two `<`. -/
def compareOrdered (eq lt gt : Bool) : Op → Bool
  | .eq => eq
  | .ne => !eq
  | .lt => lt
  | .le => lt || eq
  | .gt => gt
  | .ge => gt || eq

def compareDouble (op : Op) (a b : UInt64) : Bool :=
  compareOrdered (Numbers.doubleEq a b) (Numbers.doubleLt a b) (Numbers.doubleLt b a) op

def compareString (op : Op) (a b : Bytes) : Bool :=
  compareOrdered (a = b) (compare a b).isLT (compare a b).isGT op

/-- `EvaluateComparison` (predicate_evaluator.cpp:447). -/
def evaluateComparison (op : Op) (literal : Literal) (value : Json) : Bool :=
  match literal, value with
  | .number n, .int v => compareDouble op (Numbers.ofInt v) n
  | .number n, .float bits => compareDouble op bits n
  | .string s, .string v => compareString op v s
  | .boolean b, .bool v =>
    match op with
    | .eq => v = b
    | .ne => v ≠ b
    | _ => false
  | _, _ => false

/-- `EvaluateNode` (predicate_evaluator.cpp:484) on the members of the row. -/
def evaluateNode (row : List (Bytes × Json)) : Node → Bool
  | .or left right => evaluateNode row left || evaluateNode row right
  | .and left right => evaluateNode row left && evaluateNode row right
  | .not operand => !evaluateNode row operand
  | .isNull column negated =>
    let isNull : Bool := (row.lookup column).getD .null = .null
    if negated then !isNull else isNull
  | .like column pattern =>
    match row.lookup column with
    | some (.string s) => (fullMatch pattern s).isSome
    | _ => false
  | .comparison column op literal =>
    match row.lookup column with
    | some value => evaluateComparison op literal value
    | none => false

/-- `PredicateEvaluator::Evaluate` (predicate_evaluator.cpp:538). -/
def evaluate (root : Node) : Json → Bool
  | .object row => evaluateNode row root
  | _ => false

/-! ## The fuel is enough -/

/-- The parse did not stop for want of fuel, and what it left over is no longer than what it got. -/
def Fueled (ts : List Token) (r : Parsed) : Prop :=
  r ≠ .error .fuel ∧ ∀ node rest, r = .ok (node, rest) → rest.length ≤ ts.length

theorem Fueled.fail {message : String} {ts ts' : List Token} : Fueled ts (fail message ts') :=
  ⟨by simp [Predicate.fail], by simp [Predicate.fail]⟩

theorem Fueled.ok {ts rest : List Token} {node : Node} (h : rest.length ≤ ts.length) : Fueled ts (.ok (node, rest)) :=
  ⟨by simp, by rintro _ _ ⟨⟩; exact h⟩

theorem Fueled.error {ts ts' : List Token} {r : Parsed} {e : ParseError} (h : Fueled ts r) (he : r = .error e) :
    Fueled ts' (.error e) := by
  subst he
  exact ⟨h.1, by simp⟩

theorem Fueled.mono {ts ts' : List Token} {r : Parsed} (h : Fueled ts r) (hle : ts.length ≤ ts'.length) :
    Fueled ts' r :=
  ⟨h.1, fun node rest hr => (h.2 node rest hr).trans hle⟩

theorem length_tail_of_peek {ts : List Token} {type : TokenType} (h : peekType ts = type) (hne : type ≠ .eof) :
    ts.tail.length + 1 = ts.length := by
  cases ts with
  | nil => exact absurd h.symm hne
  | cons t ts => rfl

theorem fueled_parseComparison (ts : List Token) : Fueled ts (parseComparison ts) := by
  unfold parseComparison
  split
  · rename_i ts
    split
    · -- `IS [NOT] NULL`: whatever is dropped, something shorter is left
      dsimp only
      generalize hts : (if (decide (peekType ts.tail = .kwNot)) = true then ts.tail.tail else ts.tail) = ts'
      have hle : ts'.length ≤ ts.length := by
        rw [← hts]
        split <;> simp only [List.length_tail] <;> omega
      split
      · exact .ok (by simp only [List.length_tail, List.length_cons]; omega)
      · exact .fail
    · split
      · rename_i ts' htail
        have hlen := congrArg List.length htail
        simp only [List.length_tail, List.length_cons] at hlen
        exact .ok (by simp only [List.length_cons]; omega)
      · exact .fail
    · split
      · exact .fail
      · split
        · rename_i t ts' htail
          have hlen := congrArg List.length htail
          simp only [List.length_tail, List.length_cons] at hlen
          split
          · exact .ok (by simp only [List.length_cons]; omega)
          · exact .fail
        · exact .fail
  · exact .fail

theorem fueled (n : Nat) :
    (∀ ts : List Token, 3 * ts.length + 3 ≤ n → Fueled ts (parseExpr n ts)) ∧
    (∀ (left : Node) (ts : List Token), 3 * ts.length + 2 ≤ n → Fueled ts (orTerms n left ts)) ∧
    (∀ ts : List Token, 3 * ts.length + 2 ≤ n → Fueled ts (parseTerm n ts)) ∧
    (∀ (left : Node) (ts : List Token), 3 * ts.length + 1 ≤ n → Fueled ts (andFactors n left ts)) ∧
    ∀ ts : List Token, 3 * ts.length + 1 ≤ n → Fueled ts (parseFactor n ts) := by
  induction n with
  | zero => exact ⟨by omega, by omega, by omega, by omega, by omega⟩
  | succ n ih =>
    obtain ⟨hexpr, hor, hterm, hand, hfactor⟩ := ih
    refine ⟨fun ts hn => ?_, fun left ts hn => ?_, fun ts hn => ?_, fun left ts hn => ?_, fun ts hn => ?_⟩
    · rw [parseExpr]
      have hfst := hterm ts (by omega)
      split
      · rename_i left ts' hr
        have hle := hfst.2 left ts' hr
        exact (hor left ts' (by omega)).mono hle
      · rename_i e hr
        exact hfst.error hr
    · rw [orTerms]
      split
      · rename_i hpeek
        have hlen := length_tail_of_peek hpeek (by decide)
        have hfst := hterm ts.tail (by omega)
        split
        · rename_i right ts' hr
          have hle := hfst.2 right ts' hr
          exact (hor _ ts' (by omega)).mono (by omega)
        · rename_i e hr
          exact hfst.error hr
      · exact .ok (Nat.le_refl _)
    · rw [parseTerm]
      have hfst := hfactor ts (by omega)
      split
      · rename_i left ts' hr
        have hle := hfst.2 left ts' hr
        exact (hand left ts' (by omega)).mono hle
      · rename_i e hr
        exact hfst.error hr
    · rw [andFactors]
      split
      · rename_i hpeek
        have hlen := length_tail_of_peek hpeek (by decide)
        have hfst := hfactor ts.tail (by omega)
        split
        · rename_i right ts' hr
          have hle := hfst.2 right ts' hr
          exact (hand _ ts' (by omega)).mono (by omega)
        · rename_i e hr
          exact hfst.error hr
      · exact .ok (Nat.le_refl _)
    · rw [parseFactor]
      split
      · rename_i hpeek
        have hlen := length_tail_of_peek hpeek (by decide)
        have hfst := hexpr ts.tail (by omega)
        split
        · rename_i expr ts' hr
          have hle := hfst.2 expr ts' hr
          split
          · exact .ok (by rw [List.length_tail]; omega)
          · exact .fail
        · rename_i e hr
          exact hfst.error hr
      · rename_i hpeek
        have hlen := length_tail_of_peek hpeek (by decide)
        have hfst := hfactor ts.tail (by omega)
        split
        · rename_i operand ts' hr
          exact .ok (by have := hfst.2 operand ts' hr; omega)
        · rename_i e hr
          exact hfst.error hr
      · exact fueled_parseComparison ts

/-- The parser always comes to a verdict of its own. -/
theorem parse_ne_fuel (whereClause : Bytes) : parse whereClause ≠ .error .fuel := by
  unfold parse
  split
  · simp
  · rename_i tokens _
    have hf := (fueled (3 * tokens.length + 3)).1 tokens (Nat.le_refl _)
    split
    · rename_i e hr
      rw [hr] at hf
      intro he
      cases he
      exact hf.1 rfl
    · split <;> simp

end Predicate

end OriginDB
