import OriginDB.Sdk.JsonParser
/-!
# The tokens of `JsonParser` (`index.ts:299-404`)

What `parseNumber` and `parseString` pass over is a number and a string of the laxer grammar, and of each the longest that
stands there; anything else they refuse (`numberText_cases`, `parseString_cases`). In the other direction a number is read
where nothing behind it could belong to it (`reads_numberText`), a string anywhere (`reads_parseString`).
-/
namespace OriginDB.Sdk

open JsonGrammar Positioned

namespace JsonParser

variable {s t u : Units}

/-! ## Numbers -/

theorem reads_someDigits {ds : Units} (h : Digits ds) (ht : Stops isDigit t) : Reads someDigits (ds ++ t) () t := by
  have hskip := reads_skip h.2 ht
  have hne : ds.isEmpty = false := List.isEmpty_eq_false_iff.2 h.1
  rw [hne] at hskip
  exact hskip.bind (reads_pure () t)

theorem rejects_someDigits (h : Stops isDigit s) : Rejects someDigits s := by
  have hskip := @reads_skip s [] isDigit (fun c hc => by cases hc) h
  exact hskip.rejects (rejects_refuse s)

theorem someDigits_cases (s : Units) :
    Rejects someDigits s ∨ ∃ ds t, s = ds ++ t ∧ Digits ds ∧ Stops isDigit t ∧ Reads someDigits s () t := by
  obtain ⟨ds, t, rfl, hds, ht⟩ := exists_split isDigit s
  by_cases hne : ds = []
  · subst hne
    exact .inl (rejects_someDigits ht)
  · exact .inr ⟨ds, t, rfl, ⟨hne, hds⟩, ht, reads_someDigits ⟨hne, hds⟩ ht⟩

theorem looksAt_eq {f : UInt16 → Bool} {b : Bool} (h : s.head?.any f = b) : Reads (looksAt f) s b s := by
  rw [← h]
  exact reads_looksAt f s

theorem head_of_looks {f : UInt16 → Bool} (h : s.head?.any f = true) : ∃ c t, s = c :: t ∧ f c = true := by
  cases s with
  | nil => cases h
  | cons c t => exact ⟨c, t, rfl, h⟩

theorem reads_fraction {frac : Units} (h : Frac frac) (hdigit : Stops isDigit t) (hpoint : Stops (· = 0x2e) t) :
    Reads fraction (frac ++ t) () t := by
  obtain rfl | ⟨ds, rfl, hds⟩ := h
  · exact (looksAt_eq hpoint).bind (reads_pure () t)
  · have hlook : Reads (looksAt (· = 0x2e)) (0x2e :: (ds ++ t)) true (0x2e :: (ds ++ t)) := looksAt_eq rfl
    exact hlook.bind ((reads_advance_one _ _).bind (reads_someDigits hds hdigit))

theorem fraction_cases (h : Stops isDigit s) :
    Rejects fraction s ∨ ∃ frac t, s = frac ++ t ∧ Frac frac ∧ Stops isDigit t ∧ Reads fraction s () t := by
  cases hlook : s.head?.any (· = 0x2e) with
  | false => exact .inr ⟨[], s, rfl, .inl rfl, h, (looksAt_eq hlook).bind (reads_pure () s)⟩
  | true =>
    obtain ⟨c, t, rfl, hc⟩ := head_of_looks hlook
    obtain hrejects | ⟨ds, t, rfl, hds, ht, hreads⟩ := someDigits_cases t
    · exact .inl ((looksAt_eq hlook).rejects ((reads_advance_one c t).rejects hrejects))
    · refine .inr ⟨c :: ds, t, rfl, .inr ⟨ds, ?_, hds⟩, ht, (looksAt_eq hlook).bind ((reads_advance_one c _).bind hreads)⟩
      rw [of_decide_eq_true hc]

def isExp (c : UInt16) : Bool := c = 0x65 || c = 0x45

def isSign (c : UInt16) : Bool := c = 0x2b || c = 0x2d

theorem not_isSign_of_isDigit {c : UInt16} (h : isDigit c = true) : isSign c = false := by
  cases hs : isSign c with
  | false => rfl
  | true =>
    simp only [isSign, Bool.or_eq_true, decide_eq_true_eq] at hs
    obtain rfl | rfl := hs <;> cases h

theorem digits_head {ds : Units} (h : Digits ds) : ∃ d rest, ds = d :: rest ∧ isDigit d = true := by
  obtain ⟨hne, hds⟩ := h
  cases ds with
  | nil => exact absurd rfl hne
  | cons d rest => exact ⟨d, rest, rfl, hds d List.mem_cons_self⟩

theorem stops_digits {f : UInt16 → Bool} (hf : ∀ c, isDigit c = true → f c = false) {ds : Units} (h : Digits ds) (t : Units) :
    Stops f (ds ++ t) := by
  obtain ⟨d, rest, rfl, hd⟩ := digits_head h
  exact stops_cons.2 (hf d hd)

theorem reads_exponent {exp : Units} (h : Exp exp) (hdigit : Stops isDigit t) (hexp : Stops isExp t) :
    Reads exponent (exp ++ t) () t := by
  obtain rfl | ⟨e, sign, ds, rfl, he, hsign, hds⟩ := h
  · exact (looksAt_eq hexp).bind (reads_pure () t)
  · have he' : isExp e = true := by obtain rfl | rfl := he <;> rfl
    have hlook : Reads (looksAt isExp) (e :: (sign ++ ds ++ t)) true (e :: (sign ++ ds ++ t)) := looksAt_eq he'
    refine hlook.bind ((reads_advance_one e _).bind ?_)
    have hdigits := reads_someDigits hds hdigit
    rw [List.append_assoc]
    obtain rfl | rfl | rfl := hsign
    · exact (reads_skipOne_none (stops_digits (fun _ => not_isSign_of_isDigit) hds t)).bind hdigits
    · exact (reads_skipOne rfl _).bind hdigits
    · exact (reads_skipOne rfl _).bind hdigits

theorem skipOne_cases (f : UInt16 → Bool) (s : Units) :
    (Stops f s ∧ Reads (skipOne f) s () s) ∨ ∃ c t, s = c :: t ∧ f c = true ∧ Reads (skipOne f) s () t := by
  cases hlook : s.head?.any f with
  | false => exact .inl ⟨hlook, reads_skipOne_none hlook⟩
  | true =>
    obtain ⟨c, t, rfl, hc⟩ := head_of_looks hlook
    exact .inr ⟨c, t, rfl, hc, reads_skipOne hc t⟩

theorem exponent_cases (s : Units) :
    Rejects exponent s ∨ ∃ exp t, s = exp ++ t ∧ Exp exp ∧ Reads exponent s () t := by
  cases hlook : s.head?.any isExp with
  | false => exact .inr ⟨[], s, rfl, .inl rfl, (looksAt_eq hlook).bind (reads_pure () s)⟩
  | true =>
    obtain ⟨e, t, rfl, he⟩ := head_of_looks hlook
    have he' : e = 0x65 ∨ e = 0x45 := by simpa [isExp] using he
    obtain ⟨sign, t', rfl, hsign, hskip⟩ : ∃ sign t', t = sign ++ t' ∧ (sign = [] ∨ sign = [0x2b] ∨ sign = [0x2d]) ∧
        Reads (skipOne isSign) t () t' := by
      obtain ⟨-, hskip⟩ | ⟨c, t', rfl, hc, hskip⟩ := skipOne_cases isSign t
      · exact ⟨[], t, rfl, .inl rfl, hskip⟩
      · refine ⟨[c], t', rfl, .inr ?_, hskip⟩
        simpa [isSign] using hc
    obtain hrejects | ⟨ds, t, rfl, hds, -, hreads⟩ := someDigits_cases t'
    · exact .inl ((looksAt_eq hlook).rejects ((reads_advance_one e _).rejects (hskip.rejects hrejects)))
    · refine .inr ⟨e :: (sign ++ ds), t, by simp, .inr ⟨e, sign, ds, rfl, he', hsign, hds⟩, ?_⟩
      exact (looksAt_eq hlook).bind ((reads_advance_one e _).bind (hskip.bind hreads))

/-- No character of a number. -/
def isNumeric (c : UInt16) : Bool := isDigit c || c = 0x2e || isExp c

theorem stops_exp {f : UInt16 → Bool} (hf : f 0x65 = false ∧ f 0x45 = false) {exp : Units} (h : Exp exp) (ht : Stops f t) :
    Stops f (exp ++ t) := by
  obtain rfl | ⟨e, sign, ds, rfl, he, -⟩ := h
  · exact ht
  · refine stops_cons.2 ?_
    obtain rfl | rfl := he
    · exact hf.1
    · exact hf.2

theorem Stops.mono {f g : UInt16 → Bool} (h : Stops g t) (hfg : ∀ c, g c = false → f c = false) : Stops f t := by
  cases t with
  | nil => rfl
  | cons c t => exact stops_cons.2 (hfg c (stops_cons.1 h))

/-- **A number is read** where nothing behind it could belong to it. -/
theorem reads_numberText {lax : Bool} (h : Number lax s) (ht : Stops isNumeric t) : Reads numberText (s ++ t) () t := by
  obtain ⟨minus, int, frac, exp, hminus, hint, hfrac, hexp, rfl⟩ := h
  have hdigit : Stops isDigit t := ht.mono fun c hc => by
    simp only [isNumeric, Bool.or_eq_false_iff] at hc
    exact hc.1.1
  have hpoint : Stops (· = 0x2e) t := ht.mono fun c hc => by
    simp only [isNumeric, Bool.or_eq_false_iff] at hc
    exact hc.1.2
  have hmark : Stops isExp t := ht.mono fun c hc => by
    simp only [isNumeric, Bool.or_eq_false_iff] at hc
    exact hc.2
  have hdigit' : Stops isDigit (exp ++ t) := stops_exp ⟨rfl, rfl⟩ hexp hdigit
  have hreads := (reads_fraction hfrac hdigit' (stops_exp ⟨rfl, rfl⟩ hexp hpoint)).bind (f := fun _ => exponent)
    (reads_exponent hexp hdigit hmark)
  have hdigit'' : Stops isDigit (frac ++ (exp ++ t)) := by
    obtain rfl | ⟨ds, rfl, -⟩ := hfrac
    · exact hdigit'
    · exact stops_cons.2 rfl
  have hrest := (reads_someDigits hint.digits hdigit'').bind (f := fun _ => fraction >>= fun _ => exponent) hreads
  simp only [List.append_assoc]
  obtain rfl | rfl := hminus
  · refine (reads_skipOne_none (stops_digits (fun c hc => ?_) hint.digits _)).bind hrest
    have hsign := not_isSign_of_isDigit hc
    simp only [isSign, Bool.or_eq_false_iff] at hsign
    exact hsign.2
  · exact (reads_skipOne rfl _).bind hrest

/-- **What is read is a number**, and anything else is refused. -/
theorem numberText_cases (s : Units) :
    Rejects numberText s ∨ ∃ u t, s = u ++ t ∧ Number true u ∧ Reads numberText s () t := by
  obtain ⟨minus, s, rfl, hminus, hskip⟩ : ∃ minus s', s = minus ++ s' ∧ Minus minus ∧ Reads (skipOne (· = 0x2d)) s () s' := by
    obtain ⟨-, hskip⟩ | ⟨c, t, rfl, hc, hskip⟩ := skipOne_cases (· = 0x2d) s
    · exact ⟨[], s, rfl, .inl rfl, hskip⟩
    · exact ⟨[c], t, rfl, .inr (by rw [of_decide_eq_true hc]), hskip⟩
  obtain hrejects | ⟨int, s, rfl, hint, hs, hdigits⟩ := someDigits_cases s
  · exact .inl (hskip.rejects hrejects.bind)
  obtain hrejects | ⟨frac, s, rfl, hfrac, -, hfraction⟩ := fraction_cases hs
  · exact .inl (hskip.rejects (hdigits.rejects hrejects.bind))
  obtain hrejects | ⟨exp, t, rfl, hexp, hexponent⟩ := exponent_cases s
  · exact .inl (hskip.rejects (hdigits.rejects (hfraction.rejects hrejects)))
  · refine .inr ⟨minus ++ (int ++ (frac ++ exp)), t, by simp only [List.append_assoc], ?_, ?_⟩
    · exact ⟨minus, int, frac, exp, hminus, .inr (.inr ⟨rfl, hint⟩), hfrac, hexp, rfl⟩
    · exact hskip.bind (hdigits.bind (hfraction.bind hexponent))

/-- The text of the number is what has been passed over. -/
theorem reads_parseNumber (h : Reads numberText (u ++ t) () t) : Reads parseNumber (u ++ t) (.number (parseFloat u)) t := by
  obtain ⟨used, hused, hrun⟩ := h
  cases List.append_cancel_right hused
  refine ⟨u, rfl, fun before => ?_⟩
  have htext : ((before ++ (u ++ t)).drop before.length).take ((before ++ u).length - before.length) = u := by
    rw [List.drop_left, List.length_append, Nat.add_sub_cancel_left, List.take_left]
  show (numberText >>= fun _ => pos >>= fun stop => substring before.length stop >>= fun text =>
    pure (JsonValue.number (parseFloat text)) : Parser JsonValue) _ = _
  rw [bind_apply, hrun before]
  show Except.ok (JsonValue.number (parseFloat _), _) = _
  rw [htext]

theorem rejects_parseNumber (h : Rejects numberText s) : Rejects parseNumber s := by
  obtain ⟨what, hrun⟩ := h
  refine ⟨what, fun before => ?_⟩
  show (numberText >>= fun _ => pos >>= fun stop => substring before.length stop >>= fun text =>
    pure (JsonValue.number (parseFloat text)) : Parser JsonValue) _ = _
  rw [bind_apply, hrun before]
  rfl

/-! ## Escapes -/

section
variable {a b c d e v : UInt16} {n i code x r : Nat}

theorem reads_hexLoop (hc : s[i]? = some c) (hx : hexValue c = some x) (h : Reads (hexLoop n (i + 1) (code * 16 + x)) s r t) :
    Reads (hexLoop (n + 1) i code) s r t := by
  refine (reads_charCodeAt hc).bind ?_
  simp only [hx]
  exact h

theorem rejects_hexLoop (hc : s[i]? = some c) (h : ∀ x, hexValue c = some x → Rejects (hexLoop n (i + 1) (code * 16 + x)) s) :
    Rejects (hexLoop (n + 1) i code) s := by
  refine (reads_charCodeAt hc).rejects ?_
  cases hx : hexValue c with
  | none => exact rejects_refuse s
  | some x => exact h x hx

theorem hexUnit_eq_some : hexUnit a b c d = some v ↔ ∃ x y z w, hexValue a = some x ∧ hexValue b = some y ∧
    hexValue c = some z ∧ hexValue d = some w ∧ UInt16.ofNat (((x * 16 + y) * 16 + z) * 16 + w) = v := by
  simp only [hexUnit, Option.bind_eq_bind, Option.bind_eq_some_iff, Option.pure_def, Option.some.injEq]
  constructor
  · rintro ⟨x, hx, y, hy, z, hz, w, hw, h⟩
    exact ⟨x, y, z, w, hx, hy, hz, hw, h⟩
  · rintro ⟨x, y, z, w, hx, hy, hz, hw, h⟩
    exact ⟨x, hx, y, hy, z, hz, w, hw, h⟩

/-- Behind `\u`, the position is left on the last digit. -/
theorem reads_unicodeUnit (hv : hexUnit a b c d = some v) (t : Units) :
    Reads unicodeUnit (e :: a :: b :: c :: d :: t) v (d :: t) := by
  obtain ⟨x, y, z, w, hx, hy, hz, hw, rfl⟩ := hexUnit_eq_some.1 hv
  have hfits := reads_fitsIn 5 (e :: a :: b :: c :: d :: t)
  rw [decide_eq_true (by simp)] at hfits
  refine hfits.bind ?_
  have hloop : Reads (hexLoop 4 1 0) (e :: a :: b :: c :: d :: t) (((x * 16 + y) * 16 + z) * 16 + w) (e :: a :: b :: c :: d :: t) := by
    refine reads_hexLoop rfl hx (reads_hexLoop rfl hy (reads_hexLoop rfl hz (reads_hexLoop rfl hw ?_)))
    rw [Nat.zero_mul, Nat.zero_add]
    exact reads_pure _ _
  exact hloop.bind ((reads_advance [e, a, b, c] (d :: t)).bind (reads_pure _ _))

theorem unicodeUnit_cases (e : UInt16) (s : Units) : Rejects unicodeUnit (e :: s) ∨
    ∃ a b c d t v, s = a :: b :: c :: d :: t ∧ hexUnit a b c d = some v := by
  have hfits := reads_fitsIn 5 (e :: s)
  match s with
  | a :: b :: c :: d :: t =>
    rw [decide_eq_true (by simp)] at hfits
    cases hv : hexUnit a b c d with
    | some v => exact .inr ⟨a, b, c, d, t, v, rfl, hv⟩
    | none =>
      refine .inl (hfits.rejects (Rejects.bind ?_))
      refine rejects_hexLoop rfl fun x hx => rejects_hexLoop rfl fun y hy => rejects_hexLoop rfl fun z hz =>
        rejects_hexLoop rfl fun w hw => ?_
      have hsome := hexUnit_eq_some.2 ⟨x, y, z, w, hx, hy, hz, hw, rfl⟩
      rw [hv] at hsome
      cases hsome
  | [] | [_] | [_, _] | [_, _, _] =>
    rw [decide_eq_false (by simp)] at hfits
    exact .inl (hfits.rejects (rejects_refuse _))

theorem reads_escape (he : unescape e = some c) (t : Units) : Reads escape (e :: t) c t := by
  refine (reads_atEnd _).bind ((reads_charCodeAt rfl).bind ?_)
  simp only [he]
  exact (reads_advance_one e t).bind (reads_pure c t)

theorem reads_escape_unicode (hv : hexUnit a b c d = some v) (t : Units) : Reads escape (0x75 :: a :: b :: c :: d :: t) v t := by
  have hnone : unescape 0x75 = none := by decide
  refine (reads_atEnd _).bind ((reads_charCodeAt rfl).bind ?_)
  simp only [hnone]
  exact (reads_unicodeUnit hv t).bind ((reads_advance_one d t).bind (reads_pure v t))

/-- An escape: what stands behind the backslash, and what it stands for. -/
inductive Escape : Units → UInt16 → Prop where
  | letter {e c : UInt16} (he : unescape e = some c) : Escape [e] c
  | unicode {a b c d v : UInt16} (hv : hexUnit a b c d = some v) : Escape [0x75, a, b, c, d] v

theorem escape_cases (s : Units) : Rejects escape s ∨ ∃ esc v t, s = esc ++ t ∧ Escape esc v ∧ Reads escape s v t := by
  cases s with
  | nil => exact .inl ((reads_atEnd []).rejects (rejects_refuse []))
  | cons e s =>
    cases he : unescape e with
    | some c => exact .inr ⟨[e], c, s, rfl, .letter he, reads_escape he s⟩
    | none =>
      by_cases hu : e = 0x75
      · subst hu
        obtain hrejects | ⟨a, b, c, d, t, v, rfl, hv⟩ := unicodeUnit_cases 0x75 s
        · refine .inl ((reads_atEnd _).rejects ((reads_charCodeAt rfl).rejects ?_))
          simp only [he]
          exact hrejects.bind
        · exact .inr ⟨[0x75, a, b, c, d], v, t, rfl, .unicode hv, reads_escape_unicode hv t⟩
      · refine .inl ((reads_atEnd _).rejects ((reads_charCodeAt rfl).rejects ?_))
        simp only [he, hu, if_false]
        exact rejects_refuse _

end

/-! ## Strings -/

section
variable {c : UInt16} {body v out : Units} {n : Nat}

/-- One round of the loop over a character that is neither a quotation mark nor a backslash. -/
theorem reads_stringLoop_unescaped (hquote : c ≠ 0x22) (hbackslash : c ≠ 0x5c)
    (h : Reads (stringLoop n (out ++ [c])) s v t) : Reads (stringLoop (n + 1) out) (c :: s) v t := by
  refine (reads_atEnd _).bind ((reads_charCodeAt rfl).bind ?_)
  simp only [hquote, hbackslash, if_false]
  exact (reads_advance_one c s).bind h

theorem reads_stringLoop_escape {d : UInt16} (esc : Units) (he : Reads escape (esc ++ s) d s)
    (h : Reads (stringLoop n (out ++ [d])) s v t) : Reads (stringLoop (n + 1) out) (0x5c :: (esc ++ s)) v t :=
  (reads_atEnd _).bind ((reads_charCodeAt rfl).bind ((reads_advance_one _ _).bind (he.bind h)))

theorem reads_stringLoop_quote (s : Units) : Reads (stringLoop (n + 1) out) (0x22 :: s) out s :=
  (reads_atEnd _).bind ((reads_charCodeAt rfl).bind ((reads_advance_one _ s).bind (reads_pure out s)))

theorem reads_stringLoop {lax : Bool} (h : Chars lax body v) (hn : body.length < n) (out t : Units) :
    Reads (stringLoop n out) (body ++ 0x22 :: t) (out ++ v) t := by
  induction h generalizing n out with
  | nil =>
    cases n with
    | zero => cases hn
    | succ n =>
      rw [List.append_nil]
      exact reads_stringLoop_quote t
  | @unescaped c _ _ hquote hbackslash _ _ ih =>
    cases n with
    | zero => cases hn
    | succ n =>
      have hrest := ih (Nat.lt_of_succ_lt_succ hn) (out ++ [c])
      rw [List.append_assoc, List.singleton_append] at hrest
      exact reads_stringLoop_unescaped hquote hbackslash hrest
  | @escaped e c _ _ he _ ih =>
    cases n with
    | zero => cases hn
    | succ n =>
      have hrest := @ih n (by simp only [List.length_cons] at hn; omega) (out ++ [c])
      rw [List.append_assoc, List.singleton_append] at hrest
      exact reads_stringLoop_escape [e] (reads_escape he _) hrest
  | @unicode a b c d v _ _ hv _ ih =>
    cases n with
    | zero => cases hn
    | succ n =>
      have hrest := @ih n (by simp only [List.length_cons] at hn; omega) (out ++ [v])
      rw [List.append_assoc, List.singleton_append] at hrest
      exact reads_stringLoop_escape [0x75, a, b, c, d] (reads_escape_unicode hv _) hrest

theorem Escape.chars {esc : Units} {d : UInt16} {lax : Bool} (h : Escape esc d) (hrest : Chars lax body v) :
    Chars lax (0x5c :: (esc ++ body)) (d :: v) := by
  cases h with
  | letter he => exact .escaped he hrest
  | unicode hv => exact .unicode hv hrest

/-- The loop refuses what is not the rest of a string. -/
theorem stringLoop_cases (hn : s.length < n) (out : Units) :
    Rejects (stringLoop n out) s ∨ ∃ body v t, s = body ++ 0x22 :: t ∧ Chars true body v := by
  induction n generalizing s out with
  | zero => cases hn
  | succ n ih =>
    cases s with
    | nil => exact .inl ((reads_atEnd []).rejects (rejects_refuse []))
    | cons c s =>
      rw [List.length_cons] at hn
      have hhead : Reads atEnd (c :: s) false (c :: s) := reads_atEnd _
      by_cases hquote : c = 0x22
      · subst hquote
        exact .inr ⟨[], [], s, rfl, .nil⟩
      by_cases hbackslash : c = 0x5c
      · subst hbackslash
        obtain hrejects | ⟨esc, d, s, rfl, hesc, hreads⟩ := escape_cases s
        · exact .inl (hhead.rejects ((reads_charCodeAt rfl).rejects ((reads_advance_one _ _).rejects hrejects.bind)))
        have hlen : s.length < n := by
          have := hreads.length_le
          omega
        obtain hrejects | ⟨body, v, t, rfl, hchars⟩ := ih hlen (out ++ [d])
        · exact .inl (hhead.rejects ((reads_charCodeAt rfl).rejects ((reads_advance_one _ _).rejects (hreads.rejects hrejects))))
        · refine .inr ⟨0x5c :: (esc ++ body), d :: v, t, ?_, hesc.chars hchars⟩
          rw [List.cons_append, List.append_assoc]
      · obtain hrejects | ⟨body, v, t, rfl, hchars⟩ := ih (Nat.lt_of_succ_lt_succ hn) (out ++ [c])
        · refine .inl (hhead.rejects ((reads_charCodeAt rfl).rejects ?_))
          simp only [hquote, hbackslash, if_false]
          exact (reads_advance_one c s).rejects hrejects
        · exact .inr ⟨c :: body, c :: v, t, rfl, .unescaped hquote hbackslash (.inr rfl) hchars⟩

/-- **A string is read**, whatever follows. -/
theorem reads_parseString {lax : Bool} (h : Str lax s v) (t : Units) : Reads parseString (s ++ t) v t := by
  obtain ⟨body, hchars, rfl⟩ := h
  have hsplit : 0x22 :: (body ++ [0x22]) ++ t = 0x22 :: (body ++ 0x22 :: t) := by simp
  rw [hsplit]
  refine (reads_advance_one _ _).bind (reads_steps fun n hn => ?_)
  exact reads_stringLoop hchars (by rw [List.length_append] at hn; omega) [] t

/-- **What is read is a string**, and anything else behind a quotation mark is refused. -/
theorem parseString_cases (s : Units) :
    Rejects parseString (0x22 :: s) ∨ ∃ u v t, 0x22 :: s = u ++ t ∧ Str true u v := by
  by_cases h : ∃ body v t, s = body ++ 0x22 :: t ∧ Chars true body v
  · obtain ⟨body, v, t, rfl, hchars⟩ := h
    exact .inr ⟨0x22 :: (body ++ [0x22]), v, t, by simp, body, hchars, rfl⟩
  · refine .inl ((reads_advance_one _ s).rejects (rejects_steps fun n hn => ?_))
    exact (stringLoop_cases hn []).resolve_right h

end

end JsonParser

end OriginDB.Sdk
