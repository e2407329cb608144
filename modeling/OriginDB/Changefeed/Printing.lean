import OriginDB.Changefeed.Tokens
/-!
# Predicates written out (`src/changefeed/predicate_evaluator.cpp:64-224`, `:251-437`)

A predicate tree with the texts of its literals, written out with a pair of parentheses around every `AND`, `OR` and
`NOT`, single spaces, and quotes doubled within string literals. Tokenized and parsed it is the same tree again.
-/
namespace OriginDB

open JsonDoc ByteCodec Regex

namespace Predicate

/-! ## Trees with their texts -/

inductive LiteralText where
  | string (s : Bytes)
  | number (text : Bytes)
  | boolean (b : Bool)
  | null
deriving DecidableEq

inductive Clause where
  | or (left right : Clause)
  | and (left right : Clause)
  | not (operand : Clause)
  | comparison (column : Bytes) (op : Op) (literal : LiteralText)
  | like (column pattern : Bytes)
  | isNull (column : Bytes) (negated : Bool)
deriving DecidableEq

/-- A name that is no keyword. -/
def IsIdent (word : Bytes) : Prop :=
  (∃ c rest, word = c :: rest ∧ (isAlpha c || c = 95) = true) ∧ (∀ c ∈ word, (isAlnum c || c = 95) = true) ∧
    keywordOrIdent word = .ident

/-- An optional sign, and digits with at most one point among them, which has a digit behind it. -/
inductive IsDecimal : Bytes → Prop where
  | whole {sign digits : Bytes} (hsign : sign = [] ∨ sign = [43] ∨ sign = [45]) (hne : digits ≠ [])
      (hdigits : ∀ c ∈ digits, isDigit c = true) : IsDecimal (sign ++ digits)
  | fraction {sign digits frac : Bytes} (hsign : sign = [] ∨ sign = [43] ∨ sign = [45])
      (hdigits : ∀ c ∈ digits, isDigit c = true) (hne : frac ≠ []) (hfrac : ∀ c ∈ frac, isDigit c = true) :
      IsDecimal (sign ++ (digits ++ 46 :: frac))

/-- Quotes are doubled. -/
def escape : Bytes → Bytes
  | [] => []
  | c :: s => if c = 39 then 39 :: 39 :: escape s else c :: escape s

def quote (s : Bytes) : Bytes := 39 :: (escape s ++ [39])

def opText : Op → String
  | .eq => "=" | .ne => "!=" | .lt => "<" | .le => "<=" | .gt => ">" | .ge => ">="

namespace LiteralText

def Proper : LiteralText → Prop
  | .number text => IsDecimal text ∧ (Numbers.stod text).isSome = true
  | _ => True

def print : LiteralText → Bytes
  | .string s => quote s
  | .number text => text
  | .boolean b => if b then str "TRUE" else str "FALSE"
  | .null => str "NULL"

/-- The token's type and text. -/
def word : LiteralText → TokenType × Bytes
  | .string s => (.string, s)
  | .number text => (.number, text)
  | .boolean b => if b then (.kwTrue, str "TRUE") else (.kwFalse, str "FALSE")
  | .null => (.kwNull, str "NULL")

def literal : LiteralText → Literal
  | .string s => .string s
  | .number text => .number ((Numbers.stod text).getD 0)
  | .boolean b => .boolean b
  | .null => .null

end LiteralText

/-- The operator's token. -/
def opType : Op → TokenType
  | .eq => .eq | .ne => .ne | .lt => .lt | .le => .le | .gt => .gt | .ge => .ge

namespace Clause

/-- Its columns are names and its numbers such as the tokenizer scans and `std::stod` accepts. -/
def Proper : Clause → Prop
  | .or left right | .and left right => left.Proper ∧ right.Proper
  | .not operand => operand.Proper
  | .comparison column _ literal => IsIdent column ∧ literal.Proper
  | .like column _ | .isNull column _ => IsIdent column

def print : Clause → Bytes
  | .or left right => str "(" ++ left.print ++ str " OR " ++ right.print ++ str ")"
  | .and left right => str "(" ++ left.print ++ str " AND " ++ right.print ++ str ")"
  | .not operand => str "(NOT " ++ operand.print ++ str ")"
  | .comparison column op literal => column ++ str " " ++ str (opText op) ++ str " " ++ literal.print
  | .like column pattern => column ++ str " LIKE " ++ quote pattern
  | .isNull column negated => column ++ if negated then str " IS NOT NULL" else str " IS NULL"

/-- The types and texts of its tokens. -/
def words : Clause → List (TokenType × Bytes)
  | .or left right => (.lparen, str "(") :: (left.words ++ (.kwOr, str "OR") :: (right.words ++ [(.rparen, str ")")]))
  | .and left right => (.lparen, str "(") :: (left.words ++ (.kwAnd, str "AND") :: (right.words ++ [(.rparen, str ")")]))
  | .not operand => (.lparen, str "(") :: (.kwNot, str "NOT") :: (operand.words ++ [(.rparen, str ")")])
  | .comparison column op literal => [(.ident, column), (opType op, str (opText op)), literal.word]
  | .like column pattern => [(.ident, column), (.kwLike, str "LIKE"), (.string, pattern)]
  | .isNull column negated =>
    (.ident, column) :: (.kwIs, str "IS") :: ((if negated then [(.kwNot, str "NOT")] else []) ++ [(.kwNull, str "NULL")])

/-- The tree the code builds of it. -/
def node : Clause → Node
  | .or left right => .or left.node right.node
  | .and left right => .and left.node right.node
  | .not operand => .not operand.node
  | .comparison column op literal => .comparison column op literal.literal
  | .like column pattern => .like column (likePattern pattern)
  | .isNull column negated => .isNull column negated

end Clause

/-! ## Where the tokenizer cuts -/

/-- What may stand behind a word: nothing, a space or a closing parenthesis. -/
def Delimited (rest : Bytes) : Prop := rest = [] ∨ ∃ more, rest = 32 :: more ∨ rest = 41 :: more

/-- Whatever is written behind it, the text is cut into these tokens. -/
def Lexes (pos : Nat) (s : Bytes) (ts : List Token) : Prop :=
  ∀ rest, Delimited rest →
    tokenizeFrom pos 0 (s ++ rest) = (tokenizeFrom (pos + s.length) 0 rest).map fun more => ts ++ more

section
variable {pos : Nat} {s s' : Bytes} {ts us : List Token}

theorem Delimited.not_head {rest : Bytes} (h : Delimited rest) {p : UInt8 → Bool} (hspace : p 32 = false) (hparen : p 41 = false) :
    ∀ c more, rest = c :: more → p c = false := by
  intro c more hrest
  rcases h with rfl | ⟨more', rfl | rfl⟩
  · cases hrest
  · cases hrest
    exact hspace
  · cases hrest
    exact hparen

/-- Characters of a class up to the delimiter. -/
theorem takeWhile_delimited {p : UInt8 → Bool} {w rest : Bytes} (hw : ∀ c ∈ w, p c = true) (hspace : p 32 = false)
    (hparen : p 41 = false) (hrest : Delimited rest) : (w ++ rest).takeWhile p = w := by
  have hnone : rest.takeWhile p = [] := by
    cases rest with
    | nil => rfl
    | cons c more => exact List.takeWhile_cons_of_neg (by rw [hrest.not_head hspace hparen c more rfl]; simp)
  rw [List.takeWhile_append_of_pos hw, hnone, List.append_nil]

/-- One word that a round of the loop reads. -/
theorem lexes_token {c : UInt8} {w : Bytes} {t : Token}
    (h : ∀ rest, Delimited rest → readToken pos c (w ++ rest) = .ok (some t, w.length + 1)) : Lexes pos (c :: w) [t] := by
  intro rest hrest
  rw [List.cons_append, tokenizeFrom_cons, h rest hrest]
  simp only [List.drop_succ_cons, List.drop_left, List.length_cons]
  rfl

/-- Two texts with a space between them. -/
theorem Lexes.space (h : Lexes pos s ts) (h' : Lexes (pos + s.length + 1) s' us) : Lexes pos (s ++ 32 :: s') (ts ++ us) := by
  intro rest hrest
  have hspace : tokenizeFrom (pos + s.length) 0 (32 :: (s' ++ rest)) = tokenizeFrom (pos + s.length + 1) 0 (s' ++ rest) := by
    rw [tokenizeFrom_cons]
    have hread : readToken (pos + s.length) 32 (s' ++ rest) = .ok (none, 1) := rfl
    rw [hread]
    simp only [List.drop_succ_cons, List.drop_zero, Option.toList_none, List.nil_append]
    cases tokenizeFrom (pos + s.length + 1) 0 (s' ++ rest) <;> rfl
  have hfirst := h (32 :: (s' ++ rest)) (.inr ⟨_, .inl rfl⟩)
  rw [List.append_assoc, List.cons_append, hfirst, hspace, h' rest hrest]
  have hlen : pos + s.length + 1 + s'.length = pos + (s ++ 32 :: s').length := by
    rw [List.length_append, List.length_cons]
    omega
  rw [hlen]
  cases tokenizeFrom (pos + (s ++ 32 :: s').length) 0 rest with
  | error e => rfl
  | ok more => simp only [Except.map, List.append_assoc]

/-- A text in parentheses. -/
theorem Lexes.parens (h : Lexes (pos + 1) s ts) :
    Lexes pos (40 :: (s ++ [41])) (⟨.lparen, str "(", 0, pos⟩ :: (ts ++ [⟨.rparen, str ")", 0, pos + 1 + s.length⟩])) := by
  intro rest hrest
  have hopen : readToken pos 40 (s ++ 41 :: rest) = .ok (some ⟨.lparen, str "(", 0, pos⟩, 1) := rfl
  have hclose : readToken (pos + 1 + s.length) 41 rest = .ok (some ⟨.rparen, str ")", 0, pos + 1 + s.length⟩, 1) := rfl
  have hin := h (41 :: rest) (.inr ⟨_, .inr rfl⟩)
  rw [tokenizeFrom_cons, hclose] at hin
  have hlen : pos + 1 + s.length + 1 = pos + (40 :: (s ++ [41])).length := by
    rw [List.length_cons, List.length_append, List.length_singleton]
    omega
  rw [List.cons_append, List.append_assoc, List.singleton_append, tokenizeFrom_cons, hopen]
  simp only [List.drop_succ_cons, List.drop_zero] at hin ⊢
  rw [hin, hlen]
  cases tokenizeFrom (pos + (40 :: (s ++ [41])).length) 0 rest with
  | error e => rfl
  | ok more =>
    simp only [Except.map, Option.toList_some, List.append_assoc, List.cons_append, List.nil_append]

/-! ## Words -/

theorem not_isSpace_of_word {c : UInt8} (h : (isAlpha c || decide (c = 95)) = true) : isSpace c = false := by
  refine not_isSpace_of_isWord ?_
  rw [isWord, isAlnum, Bool.or_right_comm, h, Bool.true_or]

/-- A name or a keyword. -/
theorem lexes_word {w : Bytes} (hhead : ∃ c rest, w = c :: rest ∧ (isAlpha c || decide (c = 95)) = true)
    (hw : ∀ c ∈ w, (isAlnum c || decide (c = 95)) = true) : Lexes pos w [⟨keywordOrIdent w, w, 0, pos⟩] := by
  obtain ⟨c, w, rfl, hc⟩ := hhead
  refine lexes_token fun rest hrest => ?_
  have hword : (c :: (w ++ rest)).takeWhile (fun x => isAlnum x || decide (x = 95)) = c :: w := by
    rw [← List.cons_append]
    exact takeWhile_delimited hw (by decide) (by decide) hrest
  unfold readToken
  dsimp only
  rw [if_neg (by rw [not_isSpace_of_word hc]; decide), if_pos hc, hword]
  rfl

theorem readString_escape (s : Bytes) {rest : Bytes} (hrest : Delimited rest) :
    readString (escape s ++ 39 :: rest) = some (s, (escape s).length + 1) := by
  induction s with
  | nil =>
    rcases hrest with rfl | ⟨more, rfl | rfl⟩ <;> rfl
  | cons c s ih =>
    rw [escape]
    by_cases hquote : c = 39
    · subst hquote
      rw [if_pos rfl, List.cons_append, List.cons_append, readString, ih]
      rfl
    · rw [if_neg hquote, List.cons_append, readString, ih]
      · rfl
      · rintro rest' rfl
        exact absurd rfl hquote
      · rintro rfl
        exact absurd rfl hquote

theorem lexes_quote (s : Bytes) : Lexes pos (quote s) [⟨.string, s, 0, pos⟩] := by
  refine lexes_token fun rest hrest => ?_
  have hread := readString_escape s hrest
  have hnumber : startsNumber (39 :: (escape s ++ [39] ++ rest)) = false := rfl
  unfold readToken
  dsimp only
  rw [if_neg (by decide), if_neg (by decide), hnumber, if_neg (by decide), if_pos rfl, List.append_assoc,
    List.singleton_append, hread, List.length_append]
  rfl

theorem lexes_op (op : Op) : Lexes pos (str (opText op)) [⟨opType op, str (opText op), 0, pos⟩] := by
  have hread : ∃ c w, str (opText op) = c :: w ∧ ∀ rest, Delimited rest →
      readToken pos c (w ++ rest) = .ok (some ⟨opType op, c :: w, 0, pos⟩, w.length + 1) := by
    cases op with
    | eq => exact ⟨61, [], rfl, by rintro rest (rfl | ⟨more, rfl | rfl⟩) <;> rfl⟩
    | ne => exact ⟨33, [61], rfl, by rintro rest (rfl | ⟨more, rfl | rfl⟩) <;> rfl⟩
    | lt => exact ⟨60, [], rfl, by rintro rest (rfl | ⟨more, rfl | rfl⟩) <;> rfl⟩
    | le => exact ⟨60, [61], rfl, by rintro rest (rfl | ⟨more, rfl | rfl⟩) <;> rfl⟩
    | gt => exact ⟨62, [], rfl, by rintro rest (rfl | ⟨more, rfl | rfl⟩) <;> rfl⟩
    | ge => exact ⟨62, [61], rfl, by rintro rest (rfl | ⟨more, rfl | rfl⟩) <;> rfl⟩
  obtain ⟨c, w, hword, hread⟩ := hread
  rw [hword]
  exact lexes_token hread

/-! ## Numbers -/

/-- A sign is told from what stands behind it. -/
theorem signLength_append {sign body : Bytes} (hsign : sign = [] ∨ sign = [43] ∨ sign = [45])
    (hbody : ∃ c rest, body = c :: rest ∧ (isDigit c = true ∨ c = 46)) : signLength (sign ++ body) = sign.length := by
  obtain ⟨c, rest, rfl, hc⟩ := hbody
  rcases hsign with rfl | rfl | rfl
  · have hno : ¬ (c = 43 ∨ c = 45) := by
      rintro (rfl | rfl)
      · exact absurd hc (by decide)
      · exact absurd hc (by decide)
    exact if_neg hno
  · rfl
  · rfl

theorem startsNumber_append {sign body : Bytes} (hsign : sign = [] ∨ sign = [43] ∨ sign = [45])
    (hbody : ∃ c rest, body = c :: rest ∧ (isDigit c = true ∨ (c = 46 ∧ ∃ d more, rest = d :: more ∧ isDigit d = true))) :
    startsNumber (sign ++ body) = true := by
  obtain ⟨c, rest, rfl, hc⟩ := hbody
  rcases hc with hc | ⟨rfl, d, more, rfl, hd⟩
  · rcases hsign with rfl | rfl | rfl <;> simp [startsNumber, hc]
  · rcases hsign with rfl | rfl | rfl <;> simp [startsNumber, hd]

theorem readNumber_decimal {w rest : Bytes} {value : UInt64} (h : IsDecimal w) (hvalue : Numbers.stod w = some value)
    (hrest : Delimited rest) : startsNumber (w ++ rest) = true ∧
      readNumber pos (w ++ rest) = .ok (⟨.number, w, value, pos⟩, w.length) := by
  have hfinish : finishNumber pos (w ++ rest) w.length = .ok (⟨.number, w, value, pos⟩, w.length) := by
    rw [finishNumber, List.take_left, hvalue]
  cases h with
  | @whole sign digits hsign hne hdigits =>
    obtain ⟨d, more, rfl⟩ := List.exists_cons_of_ne_nil hne
    have hd : isDigit d = true := hdigits d List.mem_cons_self
    have hsignLength : signLength (sign ++ (d :: more ++ rest)) = sign.length := signLength_append hsign ⟨d, more ++ rest, rfl, .inl hd⟩
    have hwhole : wholeLength (sign ++ (d :: more) ++ rest) = (sign ++ (d :: more)).length := by
      rw [wholeLength, List.append_assoc, hsignLength, List.drop_left,
        takeWhile_delimited hdigits (by decide) (by decide) hrest, List.length_append]
    refine ⟨?_, ?_⟩
    · rw [List.append_assoc]
      exact startsNumber_append hsign ⟨d, more ++ rest, rfl, .inl hd⟩
    · have hend : (sign ++ (d :: more) ++ rest)[(sign ++ (d :: more)).length]? ≠ some 46 := by
        rw [List.getElem?_append_right (Nat.le_refl _), Nat.sub_self]
        rcases hrest with rfl | ⟨m, rfl | rfl⟩ <;> simp
      rw [readNumber_eq, hwhole, if_neg hend]
      exact hfinish
  | @fraction sign digits frac hsign hdigits hne hfrac =>
    obtain ⟨f, more, rfl⟩ := List.exists_cons_of_ne_nil hne
    have hf : isDigit f = true := hfrac f List.mem_cons_self
    have hbody : ∃ c rest', digits ++ 46 :: (f :: more) ++ rest = c :: rest' ∧
        (isDigit c = true ∨ (c = 46 ∧ ∃ d more, rest' = d :: more ∧ isDigit d = true)) := by
      cases digits with
      | nil => exact ⟨46, _, rfl, .inr ⟨rfl, f, _, rfl, hf⟩⟩
      | cons d digits => exact ⟨d, _, rfl, .inl (hdigits d List.mem_cons_self)⟩
    have hsignLength : signLength (sign ++ (digits ++ 46 :: (f :: more) ++ rest)) = sign.length := by
      refine signLength_append hsign ?_
      obtain ⟨c, rest', heq, hc⟩ := hbody
      exact ⟨c, rest', heq, hc.imp id And.left⟩
    have htake : (digits ++ 46 :: (f :: more) ++ rest).takeWhile isDigit = digits := by
      rw [List.append_assoc, List.takeWhile_append_of_pos hdigits, List.cons_append,
        List.takeWhile_cons_of_neg (by decide), List.append_nil]
    have hwhole : wholeLength (sign ++ (digits ++ 46 :: (f :: more)) ++ rest) = (sign ++ digits).length := by
      rw [wholeLength, List.append_assoc, hsignLength, List.drop_left, htake, List.length_append]
    have hsplit : sign ++ (digits ++ 46 :: (f :: more)) ++ rest = (sign ++ digits) ++ 46 :: (f :: more ++ rest) := by
      simp only [List.append_assoc, List.cons_append]
    have hpoint : (sign ++ (digits ++ 46 :: (f :: more)) ++ rest)[(sign ++ digits).length]? = some 46 := by
      rw [hsplit, List.getElem?_append_right (Nat.le_refl _), Nat.sub_self, List.getElem?_cons_zero]
    have hfracLength : fracLength (sign ++ (digits ++ 46 :: (f :: more)) ++ rest) = (f :: more).length := by
      rw [fracLength, hwhole, hsplit, ← List.drop_drop, List.drop_left, List.drop_succ_cons, List.drop_zero,
        takeWhile_delimited hfrac (by decide) (by decide) hrest]
    refine ⟨?_, ?_⟩
    · rw [List.append_assoc]
      exact startsNumber_append hsign hbody
    · have hlen : (sign ++ digits).length + 1 + (f :: more).length = (sign ++ (digits ++ 46 :: (f :: more))).length := by
        simp only [List.length_append, List.length_cons]
        omega
      rw [readNumber_eq, hwhole, if_pos hpoint, hfracLength, if_neg (by simp), hlen]
      exact hfinish

theorem IsDecimal.head {w : Bytes} (h : IsDecimal w) :
    ∃ c rest, w = c :: rest ∧ (isDigit c || decide (c = 43) || decide (c = 45) || decide (c = 46)) = true := by
  cases h with
  | @whole sign digits hsign hne hdigits =>
    obtain ⟨d, more, rfl⟩ := List.exists_cons_of_ne_nil hne
    rcases hsign with rfl | rfl | rfl
    · exact ⟨d, more, rfl, by simp [hdigits d List.mem_cons_self]⟩
    · exact ⟨43, _, rfl, rfl⟩
    · exact ⟨45, _, rfl, rfl⟩
  | @fraction sign digits frac hsign hdigits hne hfrac =>
    rcases hsign with rfl | rfl | rfl
    · cases digits with
      | nil => exact ⟨46, _, rfl, rfl⟩
      | cons d digits => exact ⟨d, _, rfl, by simp [hdigits d List.mem_cons_self]⟩
    · exact ⟨43, _, rfl, rfl⟩
    · exact ⟨45, _, rfl, rfl⟩

theorem not_word_of_number {c : UInt8}
    (h : (isDigit c || decide (c = 43) || decide (c = 45) || decide (c = 46)) = true) :
    isSpace c = false ∧ (isAlpha c || decide (c = 95)) = false := by
  have hall := forall_byte (p := fun c => !(isDigit c || decide (c = 43) || decide (c = 45) || decide (c = 46)) ||
    (!isSpace c && !(isAlpha c || decide (c = 95)))) (by decide +kernel) c
  rw [h, Bool.not_true, Bool.false_or, Bool.and_eq_true, Bool.not_eq_true', Bool.not_eq_true'] at hall
  exact hall

theorem lexes_number {w : Bytes} {value : UInt64} (h : IsDecimal w) (hvalue : Numbers.stod w = some value) :
    Lexes pos w [⟨.number, w, value, pos⟩] := by
  obtain ⟨c, w, rfl, hc⟩ := h.head
  obtain ⟨hspace, hword⟩ := not_word_of_number hc
  refine lexes_token fun rest hrest => ?_
  obtain ⟨hstarts, hread⟩ : _ ∧ readNumber pos (c :: w ++ rest) = _ := readNumber_decimal h hvalue hrest
  rw [List.cons_append] at hstarts hread
  unfold readToken
  dsimp only
  rw [if_neg (by rw [hspace]; decide), if_neg (by rw [hword]; decide), if_pos hstarts, hread]
  rfl

/-! ## The round trip -/

/-- What a token is and says. -/
def Token.word (t : Token) : TokenType × Bytes := (t.type, t.text)

theorem lexes_ident {column : Bytes} (h : IsIdent column) : Lexes pos column [⟨.ident, column, 0, pos⟩] := by
  obtain ⟨hhead, hall, htype⟩ := h
  have hlex : Lexes pos column _ := lexes_word hhead hall
  rwa [htype] at hlex

/-- A keyword in capitals. -/
theorem lexes_keyword {type : TokenType} {w : Bytes} (hhead : ∃ c rest, w = c :: rest ∧ (isAlpha c || decide (c = 95)) = true)
    (hw : ∀ c ∈ w, (isAlnum c || decide (c = 95)) = true) (htype : keywordOrIdent w = type) :
    Lexes pos w [⟨type, w, 0, pos⟩] := by
  rw [← htype]
  exact lexes_word hhead hw

theorem lexes_literal {l : LiteralText} (h : l.Proper) (pos : Nat) :
    ∃ t, Lexes pos l.print [t] ∧ t.word = l.word ∧ literalOf t = some l.literal := by
  cases l with
  | string s => exact ⟨_, lexes_quote s, rfl, rfl⟩
  | number text =>
    obtain ⟨hdecimal, hsome⟩ := h
    obtain ⟨value, hvalue⟩ := Option.isSome_iff_exists.1 hsome
    refine ⟨_, lexes_number hdecimal hvalue, rfl, ?_⟩
    rw [LiteralText.literal, hvalue]
    rfl
  | boolean b =>
    cases b with
    | true => exact ⟨_, @lexes_keyword _ .kwTrue _ ⟨84, _, rfl, rfl⟩ (by decide +kernel) (by decide), rfl, rfl⟩
    | false => exact ⟨_, @lexes_keyword _ .kwFalse _ ⟨70, _, rfl, rfl⟩ (by decide +kernel) (by decide), rfl, rfl⟩
  | null => exact ⟨_, @lexes_keyword _ .kwNull _ ⟨78, _, rfl, rfl⟩ (by decide +kernel) (by decide), rfl, rfl⟩

theorem opOf_opType (op : Op) : opOf (opType op) = some op := by cases op <;> rfl

/-- **A tree that is written out is cut into its words**, and these derive it as a factor. -/
theorem lexes_clause {c : Clause} (h : c.Proper) (pos : Nat) :
    ∃ ts, Lexes pos c.print ts ∧ ts.map Token.word = c.words ∧ IsFactor ts c.node := by
  induction c generalizing pos with
  | or left right ihLeft ihRight =>
    obtain ⟨ts, hleft, hwords, hderives⟩ := ihLeft h.1 (pos + 1)
    obtain ⟨us, hright, hwords', hderives'⟩ := ihRight h.2 (pos + 1 + left.print.length + 1 + 2 + 1)
    have hword : Lexes (pos + 1 + left.print.length + 1) (str "OR") [⟨.kwOr, str "OR", 0, _⟩] :=
      lexes_keyword ⟨79, _, rfl, rfl⟩ (by decide +kernel) (by decide)
    have hall := (hleft.space (hword.space hright)).parens
    have hprint : (Clause.or left right).print = 40 :: (left.print ++ 32 :: (str "OR" ++ 32 :: right.print) ++ [41]) := by
      simp only [Clause.print, List.append_assoc]
      rfl
    refine ⟨_, hprint ▸ hall, ?_, .parens rfl (.or (.term (.factor hderives)) rfl (.factor hderives')) rfl⟩
    simp only [List.map_cons, List.map_append, hwords, hwords', Clause.words, List.append_assoc, List.cons_append]
    rfl
  | and left right ihLeft ihRight =>
    obtain ⟨ts, hleft, hwords, hderives⟩ := ihLeft h.1 (pos + 1)
    obtain ⟨us, hright, hwords', hderives'⟩ := ihRight h.2 (pos + 1 + left.print.length + 1 + 3 + 1)
    have hword : Lexes (pos + 1 + left.print.length + 1) (str "AND") [⟨.kwAnd, str "AND", 0, _⟩] :=
      lexes_keyword ⟨65, _, rfl, rfl⟩ (by decide +kernel) (by decide)
    have hall := (hleft.space (hword.space hright)).parens
    have hprint : (Clause.and left right).print = 40 :: (left.print ++ 32 :: (str "AND" ++ 32 :: right.print) ++ [41]) := by
      simp only [Clause.print, List.append_assoc]
      rfl
    refine ⟨_, hprint ▸ hall, ?_, .parens rfl (.term (.and (.factor hderives) rfl hderives')) rfl⟩
    simp only [List.map_cons, List.map_append, hwords, hwords', Clause.words, List.append_assoc, List.cons_append]
    rfl
  | not operand ih =>
    obtain ⟨ts, hoperand, hwords, hderives⟩ := ih h (pos + 1 + 3 + 1)
    have hword : Lexes (pos + 1) (str "NOT") [⟨.kwNot, str "NOT", 0, _⟩] :=
      lexes_keyword ⟨78, _, rfl, rfl⟩ (by decide +kernel) (by decide)
    have hall := (hword.space hoperand).parens
    have hprint : (Clause.not operand).print = 40 :: (str "NOT" ++ 32 :: operand.print ++ [41]) := by
      simp only [Clause.print, List.append_assoc]
      rfl
    refine ⟨_, hprint ▸ hall, ?_, .parens rfl (.term (.factor (.not rfl hderives))) rfl⟩
    simp only [List.map_cons, List.map_append, hwords, Clause.words]
    rfl
  | comparison column op literal =>
    obtain ⟨t, hliteral, hword, hvalue⟩ := lexes_literal h.2 (pos + column.length + 1 + (str (opText op)).length + 1)
    have hall := (lexes_ident h.1).space ((lexes_op op).space hliteral)
    have hprint : (Clause.comparison column op literal).print =
        column ++ 32 :: (str (opText op) ++ 32 :: literal.print) := by
      simp only [Clause.print, List.append_assoc]
      rfl
    refine ⟨_, hprint ▸ hall, ?_, .comparison (.compare rfl (opOf_opType op) hvalue)⟩
    simp only [List.map_cons, List.map_append, List.map_nil, hword, Clause.words]
    rfl
  | like column pattern =>
    have hword : Lexes (pos + column.length + 1) (str "LIKE") [⟨.kwLike, str "LIKE", 0, _⟩] :=
      lexes_keyword ⟨76, _, rfl, rfl⟩ (by decide +kernel) (by decide)
    have hall := (lexes_ident h).space (hword.space (lexes_quote pattern))
    have hprint : (Clause.like column pattern).print = column ++ 32 :: (str "LIKE" ++ 32 :: quote pattern) := by
      simp only [Clause.print, List.append_assoc]
      rfl
    exact ⟨_, hprint ▸ hall, rfl, .comparison (.like rfl rfl rfl)⟩
  | isNull column negated =>
    have hword : Lexes (pos + column.length + 1) (str "IS") [⟨.kwIs, str "IS", 0, _⟩] :=
      lexes_keyword ⟨73, _, rfl, rfl⟩ (by decide +kernel) (by decide)
    cases negated with
    | false =>
      have hnull : Lexes (pos + column.length + 1 + (str "IS").length + 1) (str "NULL") [⟨.kwNull, str "NULL", 0, _⟩] :=
        lexes_keyword ⟨78, _, rfl, rfl⟩ (by decide +kernel) (by decide)
      have hall := (lexes_ident h).space (hword.space hnull)
      exact ⟨_, hall, rfl, .comparison (.isNull rfl rfl rfl)⟩
    | true =>
      have hnot : Lexes (pos + column.length + 1 + (str "IS").length + 1) (str "NOT") [⟨.kwNot, str "NOT", 0, _⟩] :=
        lexes_keyword ⟨78, _, rfl, rfl⟩ (by decide +kernel) (by decide)
      have hnull : Lexes (pos + column.length + 1 + (str "IS").length + 1 + (str "NOT").length + 1) (str "NULL")
          [⟨.kwNull, str "NULL", 0, _⟩] :=
        lexes_keyword ⟨78, _, rfl, rfl⟩ (by decide +kernel) (by decide)
      have hall := (lexes_ident h).space (hword.space (hnot.space hnull))
      exact ⟨_, hall, rfl, .comparison (.isNotNull rfl rfl rfl rfl)⟩

/-- A text parses when its tokens before `END` derive a tree, and to that tree. -/
theorem parse_eq_ok_iff {input : Bytes} {node : Node} :
    parse input = .ok node ↔ ∃ before last, tokenize input = .ok (before ++ [last]) ∧ last.type = .eof ∧ IsExpr before node := by
  unfold parse
  cases htokens : tokenize input with
  | error e => exact iff_of_false (by simp) (by rintro ⟨_, _, ⟨⟩, -⟩)
  | ok tokens =>
    obtain ⟨before, last, rfl, hlast, hbefore⟩ := tokenize_ends htokens
    simp only
    constructor
    · intro h
      split at h
      · cases h
      · rename_i expr ts hparse
        split at h
        · rename_i heof
          cases h
          obtain ⟨used, hsplit, hused⟩ := (parser_sound _).1 hparse
          obtain ⟨t, more, rfl⟩ := (Parser.ends_rest (Parser.ends_concat hlast) hparse).exists_cons
          obtain ⟨rfl, -⟩ := Parser.eq_of_append_eof hbefore heof hsplit
          exact ⟨used, last, rfl, hlast, hused⟩
        · cases h
    · rintro ⟨before', last', heq, -, hderives⟩
      obtain ⟨rfl, hsame⟩ := List.append_inj' (Except.ok.inj heq) rfl
      obtain rfl : last = last' := by simpa using hsame
      rw [Parser.parseExpr_of_isExpr hlast hderives]
      have hpeek : peekType [last] = .eof := hlast
      simp only [hpeek, if_true]

/-- The tokens of a tree that is written out: its words, and `END`. -/
theorem tokenize_print {c : Clause} (h : c.Proper) : ∃ ts last, tokenize c.print = .ok (ts ++ [last]) ∧ last.word = (.eof, []) ∧
    ts.map Token.word = c.words ∧ IsExpr ts c.node := by
  obtain ⟨ts, hlex, hwords, hderives⟩ := lexes_clause h 0
  have hall := hlex [] (.inl rfl)
  rw [List.append_nil, tokenizeFrom] at hall
  exact ⟨ts, _, hall, rfl, hwords, .term (.factor hderives)⟩

theorem parse_print {c : Clause} (h : c.Proper) : parse c.print = .ok c.node := by
  obtain ⟨ts, last, htokens, hlast, -, hderives⟩ := tokenize_print h
  exact parse_eq_ok_iff.2 ⟨ts, last, htokens, congrArg Prod.fst hlast, hderives⟩

/-- **A predicate that is written out comes back**: its text is cut into its words, the literals' texts among them, and
parses to the same tree. The loop of the tokenizer ends on every text. -/
theorem printed_parses_back (c : Clause) (h : c.Proper) (input : Bytes) :
    (∃ tokens, tokenize c.print = .ok tokens ∧ tokens.map Token.word = c.words ++ [(.eof, [])] ∧
      Parser.run tokens = .ok c.node) ∧
    parse c.print = .ok c.node ∧ tokenizeLoop input (input.length + 1) 0 [] = some (tokenize input) := by
  obtain ⟨ts, last, htokens, hlast, hwords, hderives⟩ := tokenize_print h
  obtain ⟨before, last', hsplit, heof, hbefore⟩ := tokenize_ends htokens
  obtain ⟨rfl, hsame⟩ := List.append_inj' hsplit rfl
  obtain rfl : last = last' := by simpa using hsame
  refine ⟨⟨_, htokens, ?_, (Parser.run_eq_ok_iff hbefore heof).2 hderives⟩, parse_print h, tokenizeLoop_eq input⟩
  rw [List.map_append, hwords, List.map_singleton, hlast]

/-- A sign, a point and a quote. -/
theorem printed_parses_back_quoted :
    let c : Clause := .or (.not (.comparison (str "a") .le (.number (str "-1.5")))) (.like (str "_b") (str "o'brien%"))
    c.print = str "((NOT a <= -1.5) OR _b LIKE 'o''brien%')" ∧
      parse c.print = .ok (.or (.not (.comparison (str "a") .le (.number 0xbff8000000000000)))
        (.like (str "_b") (likePattern (str "o'brien%")))) := by
  intro c
  have hstod : Numbers.stod (str "-1.5") = some 0xbff8000000000000 := by decide
  have hdecimal : IsDecimal (str "-1.5") :=
    @IsDecimal.fraction [45] [49] [53] (.inr (.inr rfl)) (by decide +kernel) (by decide) (by decide +kernel)
  have hident : IsIdent (str "a") := ⟨⟨97, _, rfl, rfl⟩, by decide +kernel, by decide⟩
  have hident' : IsIdent (str "_b") := ⟨⟨95, _, rfl, rfl⟩, by decide +kernel, by decide⟩
  have hproper : c.Proper := ⟨⟨hident, hdecimal, by rw [hstod]; rfl⟩, hident'⟩
  refine ⟨by decide, ?_⟩
  have hback := (printed_parses_back c hproper []).2.1
  simp only [c, Clause.node, LiteralText.literal, hstod, Option.getD_some] at hback
  exact hback

end

end Predicate

end OriginDB
