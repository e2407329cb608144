import Mathlib.Data.List.TakeWhile
import OriginDB.Lib.FirstWay
import OriginDB.Changefeed.Printing
/-!
# Parts of a WHERE clause (`src/changefeed/predicate_evaluator.cpp:89-224`, `:291-349`)

A text that parses may have spaces behind it and is read the same. A text that parses and goes on with a name does not
parse any further, and what stands before a name in a clause is no clause itself.
-/
namespace OriginDB

open JsonDoc ByteCodec Regex

namespace Predicate

/-! ## More text behind a token -/

/-- No token of `x` goes on into `y`: that begins with a space, or with a letter that does not stand behind a word
character. -/
def Apart (x y : Bytes) : Prop :=
  ∀ b v, y = b :: v → isSpace b = true ∨ (isAlpha b = true ∧ ∀ u a, x = u ++ [a] → isWord a = false)

section
variable {x y u v rest : Bytes} {c b : UInt8} {start pos n : Nat}

theorem Apart.drop (h : Apart x y) (n : Nat) : Apart (x.drop n) y := by
  intro b v hy
  refine (h b v hy).imp_right ?_
  rintro ⟨halpha, hlast⟩
  refine ⟨halpha, fun u a hu => hlast (x.take n ++ u) a ?_⟩
  rw [List.append_assoc, ← hu, List.take_append_drop]

/-- Neither a space nor a letter goes on with a number, a string or an operator. -/
theorem Apart.head (h : Apart x (b :: v)) : isDigit b = false ∧ b ≠ 46 ∧ b ≠ 39 ∧ b ≠ 61 ∧ b ≠ 62 := by
  have hall := forall_byte (p := fun b => !(isSpace b || isAlpha b) || (!isDigit b && b ≠ 46 && b ≠ 39 && b ≠ 61 && b ≠ 62))
    (by decide +kernel) b
  have hb : (isSpace b || isAlpha b) = true := by
    rcases h b v rfl with hspace | ⟨halpha, -⟩
    · rw [hspace, Bool.true_or]
    · rw [halpha, Bool.or_true]
  simpa [hb, and_assoc] using hall

theorem Apart.digits (h : Apart x y) : Leaves isDigit y := by
  rintro b v rfl
  exact h.head.1

theorem takeWhile_append_leaves {p : UInt8 → Bool} (h : Leaves p y) (x : Bytes) : (x ++ y).takeWhile p = x.takeWhile p := by
  have hnone : y.takeWhile p = [] := by
    cases y with
    | nil => rfl
    | cons b v => exact List.takeWhile_cons_of_neg (by simp [h b v rfl])
  rw [List.takeWhile_append, hnone]
  split
  · rename_i hall
    rw [List.append_nil]
    exact ((List.takeWhile_prefix p).eq_of_length hall).symm
  · rfl

/-- A word ends where it ended. -/
theorem Apart.word (h : Apart x y) (hx : x ≠ []) :
    (x ++ y).takeWhile (fun c => isAlnum c || decide (c = 95)) = x.takeWhile fun c => isAlnum c || decide (c = 95) := by
  by_cases hlast : ∀ u a, x = u ++ [a] → isWord a = false
  · -- the word has ended before the end of `x`
    obtain ⟨u, a, hu⟩ : ∃ u a, x = u ++ [a] := ⟨x.dropLast, x.getLast hx, (List.dropLast_concat_getLast hx).symm⟩
    have ha : (isAlnum a || decide (a = 95)) = false := hlast u a hu
    rw [List.takeWhile_append, if_neg]
    intro hall
    have hmem : a ∈ x.takeWhile fun c => isAlnum c || decide (c = 95) := by
      rw [(List.takeWhile_prefix _).eq_of_length hall, hu]
      simp
    have hword := mem_takeWhile_class hmem
    rw [ha] at hword
    cases hword
  · refine takeWhile_append_leaves ?_ x
    rintro b v rfl
    rcases h b v rfl with hspace | ⟨-, hword⟩
    · exact not_isWord_of_isSpace hspace
    · exact absurd hword hlast

theorem Apart.getElem?_ne_point (h : Apart x y) (n : Nat) (hn : n ≤ x.length) : (x ++ y)[n]? = some 46 ↔ x[n]? = some 46 := by
  rcases Nat.lt_or_ge n x.length with hlt | hge
  · rw [List.getElem?_append_left hlt]
  · obtain rfl : n = x.length := by omega
    rw [List.getElem?_append_right (Nat.le_refl _), Nat.sub_self, List.getElem?_eq_none (Nat.le_refl _)]
    cases y with
    | nil => simp
    | cons b v => simp [h.head.2.1]

theorem Apart.startsNumber (h : Apart (c :: rest) y) : startsNumber (c :: (rest ++ y)) = startsNumber (c :: rest) := by
  have hy : y = [] ∨ ∃ b v, y = b :: v ∧ isDigit b = false ∧ b ≠ 46 := by
    cases y with
    | nil => exact .inl rfl
    | cons b v => exact .inr ⟨b, v, rfl, h.head.1, h.head.2.1⟩
  rcases hy with rfl | ⟨b, v, rfl, hdigit, hpoint⟩
  · rw [List.append_nil]
  · match rest with
    | [] => simp [Predicate.startsNumber, hdigit, hpoint]
    | [r] => simp [Predicate.startsNumber, hdigit]
    | r :: r' :: more => simp [Predicate.startsNumber]

theorem Apart.readNumber (h : Apart (c :: rest) y) (start : Nat) :
    readNumber start (c :: rest ++ y) = readNumber start (c :: rest) := by
  have hsign : signLength (c :: rest ++ y) = signLength (c :: rest) := rfl
  have hsignLe : signLength (c :: rest) ≤ (c :: rest).length := by
    show (if c = 43 ∨ c = 45 then 1 else 0) ≤ rest.length + 1
    split <;> omega
  have hwhole : wholeLength (c :: rest ++ y) = wholeLength (c :: rest) := by
    rw [wholeLength, wholeLength, hsign, List.drop_append_of_le_length hsignLe, takeWhile_append_leaves h.digits]
  have hle := wholeLength_le (c :: rest)
  have hpoint := h.getElem?_ne_point _ hle
  have hfinish : ∀ len, len ≤ (c :: rest).length → finishNumber start (c :: rest ++ y) len = finishNumber start (c :: rest) len := by
    intro len hlen
    rw [finishNumber, finishNumber, List.take_append_of_le_length hlen]
  rw [readNumber_eq, readNumber_eq, hwhole]
  by_cases hdot : (c :: rest)[wholeLength (c :: rest)]? = some 46
  · obtain ⟨hlt, -⟩ := List.getElem?_eq_some_iff.1 hdot
    have hfrac : fracLength (c :: rest ++ y) = fracLength (c :: rest) := by
      rw [fracLength, fracLength, hwhole, List.drop_append_of_le_length (by omega), takeWhile_append_leaves h.digits]
    have hfracLe := length_takeWhile_le (p := isDigit) ((c :: rest).drop (wholeLength (c :: rest) + 1))
    rw [List.length_drop] at hfracLe
    rw [if_pos hdot, if_pos (hpoint.2 hdot), hfrac, hfinish _ (by unfold fracLength; omega)]
  · rw [if_neg hdot, if_neg fun hdot' => hdot (hpoint.1 hdot'), hfinish _ hle]

/-- A string that is closed is closed there. -/
theorem readString_append {s value : Bytes} (h : readString s = some (value, n)) (hy : ∀ b v, y = b :: v → b ≠ 39) :
    readString (s ++ y) = some (value, n) := by
  fun_induction readString s generalizing value n with
  | case1 => cases h
  | case2 rest ih =>
    obtain ⟨⟨w, m⟩, hr, he⟩ := Option.map_eq_some_iff.1 h
    cases he
    rw [List.cons_append, List.cons_append, readString, ih hr]
    rfl
  | case3 rest hne =>
    cases h
    rw [List.cons_append, readString]
    intro rest' hrest
    cases rest with
    | nil => exact hy 39 rest' hrest rfl
    | cons d more =>
      rw [List.cons_append, List.cons.injEq] at hrest
      exact hne more (by rw [hrest.1])
  | case4 c rest hne hne' ih =>
    obtain ⟨⟨w, m⟩, hr, he⟩ := Option.map_eq_some_iff.1 h
    cases he
    have hquote : c ≠ 39 := fun hc => hne' hc
    rw [List.cons_append, readString, ih hr]
    · rfl
    · exact fun _ hc _ => hquote hc
    · exact hquote

/-- **A round of the loop** reads the same token when more text is put behind it, or it stopped for want of the end of a
string. -/
theorem readToken_append (h : Apart (c :: rest) y) {found : Option Token × Nat} (hread : readToken start c rest = .ok found) :
    readToken start c (rest ++ y) = .ok found := by
  have hword := h.word (List.cons_ne_nil c rest)
  rw [List.cons_append] at hword
  have hnumber := h.readNumber start
  rw [List.cons_append] at hnumber
  unfold readToken at hread ⊢
  dsimp only at hread ⊢
  rw [hword, hnumber, h.startsNumber]
  by_cases hspace : isSpace c = true
  · rw [if_pos hspace] at hread ⊢
    exact hread
  rw [if_neg hspace] at hread ⊢
  by_cases hletter : (isAlpha c || decide (c = 95)) = true
  · rw [if_pos hletter] at hread ⊢
    exact hread
  rw [if_neg hletter] at hread ⊢
  by_cases hnum : Predicate.startsNumber (c :: rest) = true
  · rw [if_pos hnum] at hread ⊢
    exact hread
  rw [if_neg hnum] at hread ⊢
  by_cases hquote : c = 39
  · rw [if_pos hquote] at hread ⊢
    cases hstring : readString rest with
    | none =>
      rw [hstring] at hread
      cases hread
    | some value =>
      rw [hstring] at hread
      rw [readString_append hstring fun b v hy => by subst hy; exact h.head.2.2.1]
      exact hread
  rw [if_neg hquote] at hread ⊢
  cases rest with
  | cons d more => exact hread
  | nil =>
    cases y with
    | nil => exact hread
    | cons b v =>
      obtain ⟨-, -, -, heq, hgt⟩ := h.head
      rw [List.nil_append]
      split at hread
      case h_1 hc | h_8 hc | h_9 hc =>
        rw [hc]
        exact hread
      case h_2 hnone | h_3 hnone | h_4 hnone | h_6 hnone => cases hnone
      case h_5 hc _ _ =>
        rw [hc]
        split <;> simp_all
      case h_7 hc _ =>
        rw [hc]
        split <;> simp_all
      case h_10 => cases hread

/-- **The loop** goes on with what is put behind a text it has got through. -/
theorem tokenizeFrom_append (h : Apart x y) {ts : List Token} (hx : tokenizeFrom pos 0 x = .ok ts) :
    ∃ before, ts = before ++ [⟨.eof, [], 0, pos + x.length⟩] ∧
      tokenizeFrom pos 0 (x ++ y) = (tokenizeFrom (pos + x.length) 0 y).map fun more => before ++ more := by
  induction hn : x.length using Nat.strongRecOn generalizing x pos ts with
  | ind n ih =>
    cases x with
    | nil =>
      cases hx
      obtain rfl : 0 = n := hn
      refine ⟨[], rfl, ?_⟩
      rw [List.nil_append, Nat.add_zero]
      cases tokenizeFrom pos 0 y <;> rfl
    | cons c rest =>
      rw [tokenizeFrom_cons] at hx
      cases hread : readToken pos c rest with
      | error e =>
        rw [hread] at hx
        cases hx
      | ok found =>
        obtain ⟨token, m⟩ := found
        obtain ⟨hpos, hle, -⟩ := readToken_spec hread
        rw [hread] at hx
        simp only at hx
        cases hmore : tokenizeFrom (pos + m) 0 ((c :: rest).drop m) with
        | error e =>
          rw [hmore] at hx
          cases hx
        | ok us =>
          rw [hmore] at hx
          cases hx
          have hlen : ((c :: rest).drop m).length = n - m := by rw [List.length_drop, hn]
          rw [List.length_cons] at hn
          obtain ⟨before, hbefore, hall⟩ := ih (n - m) (by omega) (h.drop m) hmore hlen
          have hend : pos + m + (n - m) = pos + n := by omega
          rw [hend] at hbefore hall
          refine ⟨token.toList ++ before, by rw [hbefore, List.append_assoc], ?_⟩
          rw [List.cons_append, tokenizeFrom_cons, readToken_append h hread]
          simp only
          rw [← List.cons_append, List.drop_append_of_le_length (by rw [List.length_cons]; omega), hall]
          cases tokenizeFrom (pos + n) 0 y with
          | error e => rfl
          | ok more => simp only [Except.map, List.append_assoc]

/-! ## Clauses with more behind them -/

/-- Spaces make no token. -/
theorem tokenizeFrom_spaces (hy : ∀ c ∈ y, isSpace c = true) : tokenizeFrom pos 0 y = .ok [⟨.eof, [], 0, pos + y.length⟩] := by
  induction y generalizing pos with
  | nil => rfl
  | cons c y ih =>
    have hread : readToken pos c y = .ok (none, 1) := if_pos (hy c List.mem_cons_self)
    rw [tokenizeFrom_cons, hread]
    simp only [List.drop_succ_cons, List.drop_zero]
    rw [ih fun d hd => hy d (List.mem_cons_of_mem _ hd), List.length_cons, Nat.add_right_comm, Nat.add_assoc]
    rfl

/-- **Spaces behind a clause** change nothing. -/
theorem parse_append_spaces {node : Node} (hx : parse x = .ok node) (hy : ∀ c ∈ y, isSpace c = true) :
    parse (x ++ y) = .ok node := by
  obtain ⟨before, last, htokens, hlast, hexpr⟩ := parse_eq_ok_iff.1 hx
  have happart : Apart x y := by
    rintro b v rfl
    exact .inl (hy b List.mem_cons_self)
  obtain ⟨before', hsplit, hall⟩ := tokenizeFrom_append happart htokens
  obtain ⟨rfl, -⟩ := List.append_inj' hsplit rfl
  rw [tokenizeFrom_spaces hy] at hall
  exact parse_eq_ok_iff.2 ⟨before, _, hall, rfl, hexpr⟩

/-- Spaces alone are no clause. -/
theorem parse_spaces_ne_ok {node : Node} (hx : ∀ c ∈ x, isSpace c = true) : parse x ≠ .ok node := by
  intro h
  have hnone : parseExpr (3 * 1 + 3) [⟨.eof, [], 0, 0 + x.length⟩] = fail "Expected column name" [⟨.eof, [], 0, 0 + x.length⟩] := rfl
  unfold parse at h
  rw [tokenize, tokenizeFrom_spaces hx] at h
  simp only [List.length_singleton, hnone] at h
  cases h

/-- An expression goes on with `AND` or with `OR`. -/
theorem IsExpr.goes_on {ts more : List Token} {t : Token} {node node' : Node} (h : IsExpr ts node)
    (h' : IsExpr (ts ++ t :: more) node') : t.type = .kwAnd ∨ t.type = .kwOr := by
  by_contra hno
  rw [not_or] at hno
  have hstop : ∀ {rest : List Token} {node : Node}, peekType rest ≠ .kwOr → ∀ n, 1 ≤ n → orTerms n node rest = .ok (node, rest) := by
    intro rest node hpeek n hn
    obtain ⟨m, rfl⟩ : ∃ m, n = m + 1 := ⟨n - 1, by omega⟩
    rw [orTerms, if_neg hpeek]
  have hand : peekType (t :: (more ++ [⟨.eof, [], 0, 0⟩])) ≠ .kwAnd := hno.1
  have hor : peekType (t :: (more ++ [⟨.eof, [], 0, 0⟩])) ≠ .kwOr := hno.2
  have hshort := parseExpr_complete h hand (hstop hor) (3 * (ts ++ t :: more).length + 4)
    (by rw [List.length_append]; omega) (by rw [List.length_append]; omega)
  have hend : peekType [⟨.eof, [], 0, 0⟩] ≠ .kwAnd := by decide
  have hlong := parseExpr_complete h' hend (hstop (by decide)) (3 * (ts ++ t :: more).length + 4) (by omega) (by omega)
  rw [List.append_assoc, List.cons_append, hshort] at hlong
  have hlen := congrArg List.length (congrArg Prod.snd (Except.ok.inj hlong))
  simp only [List.length_append, List.length_cons, List.length_nil] at hlen
  omega

/-- **What stands before a name in a clause** is no clause. -/
theorem parse_before_name {word rest : Bytes} {node node' : Node} (hident : IsIdent word)
    (hrest : Leaves (fun c => isAlnum c || decide (c = 95)) rest) (hlast : ∀ u a, x = u ++ [a] → isWord a = false)
    (hletter : ∃ b v, word = b :: v ∧ isAlpha b = true) (hall : parse (x ++ (word ++ rest)) = .ok node) : parse x ≠ .ok node' := by
  intro hx
  obtain ⟨b, v, rfl, hb⟩ := hletter
  obtain ⟨before, last, htokens, -, hexpr⟩ := parse_eq_ok_iff.1 hx
  obtain ⟨ts, last', htokens', heof, hexpr'⟩ := parse_eq_ok_iff.1 hall
  have happart : Apart x (b :: v ++ rest) := by
    rintro c w hcw
    rw [List.cons_append, List.cons.injEq] at hcw
    rw [← hcw.1]
    exact .inr ⟨hb, hlast⟩
  obtain ⟨before', hsplit, happend⟩ := tokenizeFrom_append happart htokens
  obtain ⟨rfl, -⟩ := List.append_inj' hsplit rfl
  -- the name is the next token
  have hhead : (isAlpha b || decide (b = 95)) = true := by rw [hb, Bool.true_or]
  have htake : (b :: (v ++ rest)).takeWhile (fun c => isAlnum c || decide (c = 95)) = b :: v := by
    rw [← List.cons_append, takeWhile_append_leaves hrest, List.takeWhile_eq_self_iff.2 hident.2.1]
  have hread : readToken (0 + x.length) b (v ++ rest) = .ok (some ⟨.ident, b :: v, 0, 0 + x.length⟩, v.length + 1) := by
    unfold readToken
    dsimp only
    rw [if_neg (by rw [not_isSpace_of_word hhead]; decide), if_pos hhead, htake, hident.2.2]
    rfl
  rw [tokenize, happend, List.cons_append, tokenizeFrom_cons, hread] at htokens'
  simp only at htokens'
  cases hmore : tokenizeFrom (0 + x.length + (v.length + 1)) 0 ((b :: (v ++ rest)).drop (v.length + 1)) with
  | error e =>
    rw [hmore] at htokens'
    cases htokens'
  | ok more =>
    rw [hmore] at htokens'
    obtain ⟨front, final, rfl, -, -⟩ := tokenizeFrom_ends hmore
    have hts : before ++ ⟨.ident, b :: v, 0, 0 + x.length⟩ :: front = ts := by
      have heq := Except.ok.inj htokens'
      simp only [← List.append_assoc] at heq
      have hsame := (List.append_inj' heq rfl).1
      rwa [List.append_assoc] at hsame
    rw [← hts] at hexpr'
    rcases hexpr.goes_on hexpr' with h | h <;> cases h

end

end Predicate

end OriginDB
