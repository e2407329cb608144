import OriginDB.Sdk.JsonKinds
/-!
# What `tryParse` accepts (`index.ts:246-254`, `:266-471`)

"Parse JSON. Returns null on malformed input." A text is accepted exactly where it belongs to the laxer grammar. The parser
loses the standard in two places: `parseNumber` takes any digits for an integer part (`:311-319`), and `parseString` takes
any character that is neither a quotation mark nor a backslash (`:399-401`), control characters among them.

In the one direction the induction is on the derivation: white space in front of a symbol is passed over before the symbol
is looked at, and white space behind it stays. In the other it is on the steps: three for each character left, and some
more, are enough.
-/
namespace OriginDB.Sdk

open JsonGrammar Positioned

namespace JsonParser

/-! ## White space in front -/

def trim (s : Units) : Units := s.dropWhile isWs

section
variable {w s t : Units} {c : UInt16} {lax : Bool} {x : Symbol}

theorem trim_append (hw : Ws w) : trim (w ++ s) = trim s := List.dropWhile_append_of_pos hw

theorem trim_cons (h : isWs c = false) : trim (c :: s) = c :: s := List.dropWhile_cons_of_neg (by rw [h]; exact Bool.false_ne_true)

theorem trim_ws_cons (hw : Ws w) (h : isWs c = false) : trim (w ++ c :: s) = c :: s := by
  rw [trim_append hw, trim_cons h]

theorem exists_trim (s : Units) : ∃ w, Ws w ∧ s = w ++ trim s :=
  ⟨s.takeWhile isWs, List.all_eq_true.1 List.all_takeWhile, List.takeWhile_append_dropWhile.symm⟩

/-- The symbol begins, behind its white space, with a character that opens a value. -/
def Opened (s : Units) : Prop := ∃ c r, trim s = c :: r ∧ opens c = true

theorem trim_append_of_opened (h : Opened s) : trim (s ++ t) = trim s ++ t := by
  obtain ⟨c, r, htrim, -⟩ := h
  rw [trim, List.dropWhile_append, ← trim, htrim]
  rfl

theorem Opened.append (h : Opened s) (t : Units) : Opened (s ++ t) := by
  have htrim := trim_append_of_opened (t := t) h
  obtain ⟨c, r, hs, hc⟩ := h
  rw [hs] at htrim
  exact ⟨c, r ++ t, htrim, hc⟩

theorem opened_cons (h : opens c = true) : Opened (c :: s) := ⟨c, s, trim_cons (opens_iff.1 h).1, h⟩

theorem opened_structural {b : Units} (hb : Structural c b) (hc : opens c = true) : Opened b := by
  obtain ⟨w, w', hw, -, rfl⟩ := hb
  exact ⟨c, w', trim_ws_cons hw (opens_iff.1 hc).1, hc⟩

theorem opened_str {k u : Units} (h : Str lax k u) : Opened k := by
  obtain ⟨body, -, rfl⟩ := h
  exact opened_cons rfl

theorem opened_of_derives (h : Derives lax x s) : Opened s := by
  induction h with
  | null => exact opened_cons rfl
  | true => exact opened_cons rfl
  | false => exact opened_cons rfl
  | number h =>
    obtain ⟨c, r, rfl, hc⟩ := number_head h
    exact opened_cons (opens_of_startsNumber hc)
  | string h => exact opened_str h
  | emptyArray hb _ => exact (opened_structural hb rfl).append _
  | array hb _ _ _ => exact ((opened_structural hb rfl).append _).append _
  | emptyObject hb _ => exact (opened_structural hb rfl).append _
  | object hb _ _ _ => exact ((opened_structural hb rfl).append _).append _
  | element _ ih => exact ih
  | elements _ _ _ ih _ => exact (ih.append _).append _
  | member hk _ _ _ => exact ((opened_str hk).append _).append _
  | lastMember _ ih => exact ih
  | members _ _ _ ih _ => exact (ih.append _).append _

end

/-! ## A text of the grammar is read -/

/-- What is read where a symbol of the grammar stands. -/
def ReadAs : Symbol → Units → Prop
  | .value, s => ∀ n w t, Ws w → Stops isNumeric t → 3 * s.length + 3 ≤ n →
      ∃ v w', Ws w' ∧ Reads (parseValue n) (w ++ (trim s ++ t)) v (w' ++ t)
  | .elements, s => ∀ n arr w w' t, Ws w → Ws w' → 3 * s.length + 4 ≤ n →
      ∃ v, Reads (elementsLoop n arr) (w ++ (trim s ++ (w' ++ 0x5d :: t))) v t
  | .member, s => ∀ n w t, Ws w → Stops isNumeric t → 3 * s.length + 1 ≤ n →
      ∃ key v w', Ws w' ∧ ∀ f r u, Reads (f key v) (w' ++ t) r u → Reads (memberThen n f) (w ++ (s ++ t)) r u
  | .members, s => ∀ n obj w w' t, Ws w → Ws w' → 3 * s.length + 4 ≤ n →
      ∃ v, Reads (membersLoop n obj) (w ++ (s ++ (w' ++ 0x7d :: t))) v t

section
variable {w s t b e : Units} {c : UInt16} {lax : Bool} {x : Symbol} {n : Nat}

theorem not_numeric_of_isWs (h : isWs c = true) : isNumeric c = false := by
  simp only [isWs, Bool.or_eq_true, decide_eq_true_eq] at h
  obtain ((rfl | rfl) | rfl) | rfl := h <;> rfl

/-- White space and a structural character cannot belong to a number. -/
theorem stops_numeric (hw : Ws w) (hc : isNumeric c = false) : Stops isNumeric (w ++ c :: t) := by
  cases w with
  | nil => exact stops_cons.2 hc
  | cons d w => exact stops_cons.2 (not_numeric_of_isWs (hw d List.mem_cons_self))

theorem stops_numeric_ws (hw : Ws w) : Stops isNumeric w := by
  cases w with
  | nil => exact stops_nil _
  | cons d w => exact stops_cons.2 (not_numeric_of_isWs (hw d List.mem_cons_self))

/-- A symbol that is its own text behind its white space. -/
theorem readAs_token (htrim : trim s = s)
    (h : ∀ n w t, Ws w → Stops isNumeric t → ∃ v, Reads (parseValue (n + 1)) (w ++ (s ++ t)) v t) : ReadAs .value s := by
  intro n w t hw ht hn
  obtain ⟨n, rfl⟩ := Nat.exists_eq_add_of_le' (show 1 ≤ n by omega)
  obtain ⟨v, hreads⟩ := h n w t hw ht
  rw [htrim]
  exact ⟨v, [], ws_nil, hreads⟩

/-- What stands between two structural characters, with their white space within and the last of it left behind. -/
theorem readAs_brackets {c d : UInt16} (hb : Structural c b) (he : Structural d e) (hc : isWs c = false)
    (h : ∀ n w w' w'' t, Ws w → Ws w' → Ws w'' → 3 * s.length + 6 ≤ n →
      ∃ v, Reads (parseValue n) (w ++ c :: (w' ++ (s ++ (w'' ++ d :: t)))) v t) : ReadAs .value (b ++ s ++ e) := by
  obtain ⟨w₁, w₂, hw₁, hw₂, rfl⟩ := hb
  obtain ⟨w₃, w₄, hw₃, hw₄, rfl⟩ := he
  intro n w t hw _ hn
  simp only [List.length_append, List.length_cons] at hn
  obtain ⟨v, hreads⟩ := h n w w₂ w₃ (w₄ ++ t) hw hw₂ hw₃ (by omega)
  refine ⟨v, w₄, hw₄, ?_⟩
  rw [List.append_assoc, List.append_assoc, List.cons_append, trim_ws_cons hw₁ hc]
  simp only [List.cons_append, List.append_assoc]
  exact hreads

theorem readAs_array (hb : Structural 0x5b b) (hs : Opened s) (h : ReadAs .elements s) (he : Structural 0x5d e) :
    ReadAs .value (b ++ s ++ e) := by
  refine readAs_brackets hb he rfl fun n w w' w'' t hw hw' hw'' hn => ?_
  obtain ⟨n, rfl⟩ := Nat.exists_eq_add_of_le' (show 2 ≤ n by omega)
  obtain ⟨v, hloop⟩ := h n (.array []) [] w'' t ws_nil hw'' (by omega)
  obtain ⟨w₅, hw₅, hsplit⟩ := exists_trim s
  obtain ⟨c, r, htrim, hc⟩ := hs
  obtain ⟨hws, hclose, -⟩ := opens_iff.1 hc
  rw [htrim, List.nil_append, List.cons_append] at hloop
  have hreads := reads_array hw (reads_parseArray (hw'.append hw₅) hws hclose hloop)
  rw [hsplit, htrim]
  simp only [List.append_assoc, List.cons_append] at hreads ⊢
  exact ⟨v, hreads⟩

theorem readAs_object (hb : Structural 0x7b b) (hs : ∃ r, s = 0x22 :: r) (h : ReadAs .members s) (he : Structural 0x7d e) :
    ReadAs .value (b ++ s ++ e) := by
  obtain ⟨r, rfl⟩ := hs
  refine readAs_brackets hb he rfl fun n w w' w'' t hw hw' hw'' hn => ?_
  obtain ⟨n, rfl⟩ := Nat.exists_eq_add_of_le' (show 2 ≤ n by omega)
  obtain ⟨v, hloop⟩ := h n (.object []) [] w'' t ws_nil hw'' (by omega)
  exact ⟨v, reads_object hw (reads_parseObject hw' rfl (by decide) hloop)⟩

theorem readAs_emptyArray (hb : Structural 0x5b b) (he : Structural 0x5d e) : ReadAs .value (b ++ e) := by
  rw [← List.append_nil b]
  refine readAs_brackets hb he rfl fun n w w' w'' t hw hw' hw'' hn => ?_
  obtain ⟨n, rfl⟩ := Nat.exists_eq_add_of_le' (show 2 ≤ n by omega)
  have hreads := reads_array hw (@reads_emptyArray (w' ++ w'') n (hw'.append hw'') t)
  rw [List.append_assoc] at hreads
  exact ⟨_, hreads⟩

theorem readAs_emptyObject (hb : Structural 0x7b b) (he : Structural 0x7d e) : ReadAs .value (b ++ e) := by
  rw [← List.append_nil b]
  refine readAs_brackets hb he rfl fun n w w' w'' t hw hw' hw'' hn => ?_
  obtain ⟨n, rfl⟩ := Nat.exists_eq_add_of_le' (show 2 ≤ n by omega)
  have hreads := reads_object hw (@reads_emptyObject (w' ++ w'') n (hw'.append hw'') t)
  rw [List.append_assoc] at hreads
  exact ⟨_, hreads⟩

/-! ### Elements and members -/

theorem readAs_element (h : ReadAs .value s) : ReadAs .elements s := by
  intro n arr w w' t hw hw' hn
  obtain ⟨n, rfl⟩ := Nat.exists_eq_add_of_le' (show 1 ≤ n by omega)
  obtain ⟨v, w'', hw'', hreads⟩ := h n w (w' ++ 0x5d :: t) hw (stops_numeric hw' rfl) (by omega)
  rw [← List.append_assoc w''] at hreads
  exact ⟨_, reads_elementsLoop_last hreads (hw''.append hw') arr⟩

theorem readAs_elements {s' : Units} (hs : Opened s) (h : ReadAs .value s) (hc : Structural 0x2c b) (h' : ReadAs .elements s') :
    ReadAs .elements (s ++ b ++ s') := by
  obtain ⟨w₁, w₂, hw₁, hw₂, rfl⟩ := hc
  obtain ⟨w₃, hw₃, hsplit⟩ := exists_trim s'
  intro n arr w w' t hw hw' hn
  simp only [List.length_append, List.length_cons] at hn
  obtain ⟨n, rfl⟩ := Nat.exists_eq_add_of_le' (show 1 ≤ n by omega)
  obtain ⟨v, w₄, hw₄, hvalue⟩ := h n w (w₁ ++ 0x2c :: (w₂ ++ (s' ++ (w' ++ 0x5d :: t)))) hw (stops_numeric hw₁ rfl) (by omega)
  obtain ⟨r, hloop⟩ := h' n (arr.push v) (w₂ ++ w₃) w' t (hw₂.append hw₃) hw' (by omega)
  have hrest : w₂ ++ (s' ++ (w' ++ 0x5d :: t)) = (w₂ ++ w₃) ++ (trim s' ++ (w' ++ 0x5d :: t)) := by
    rw [List.append_assoc, ← List.append_assoc w₃, ← hsplit]
  rw [hrest, ← List.append_assoc w₄] at hvalue
  refine ⟨r, ?_⟩
  have hreads := reads_elementsLoop_more hvalue (hw₄.append hw₁) hloop
  rw [List.append_assoc s, trim_append_of_opened hs]
  simp only [List.append_assoc, List.cons_append]
  rw [hrest]
  exact hreads

theorem readAs_member {k key : Units} (hk : Str lax k key) (hc : Structural 0x3a b) (h : ReadAs .value s) :
    ReadAs .member (k ++ b ++ s) := by
  obtain ⟨w₁, w₂, hw₁, hw₂, rfl⟩ := hc
  obtain ⟨w₃, hw₃, hsplit⟩ := exists_trim s
  intro n w t hw ht hn
  simp only [List.length_append, List.length_cons] at hn
  obtain ⟨v, w', hw', hvalue⟩ := h n (w₂ ++ w₃) t (hw₂.append hw₃) ht (by omega)
  refine ⟨key, v, w', hw', fun f r u hf => ?_⟩
  have hreads := reads_memberThen hw hk hw₁ hvalue hf
  rw [List.append_assoc w₂, ← List.append_assoc w₃, ← hsplit] at hreads
  simp only [List.append_assoc, List.cons_append]
  exact hreads

theorem readAs_lastMember (h : ReadAs .member s) : ReadAs .members s := by
  intro n obj w w' t hw hw' hn
  obtain ⟨n, rfl⟩ := Nat.exists_eq_add_of_le' (show 1 ≤ n by omega)
  obtain ⟨key, v, w'', hw'', hmember⟩ := h n w (w' ++ 0x7d :: t) hw (stops_numeric hw' rfl) (by omega)
  refine ⟨obj.set key v, ?_⟩
  rw [membersLoop_succ]
  refine hmember _ _ _ ?_
  rw [← List.append_assoc w'']
  exact reads_behindMember_last (hw''.append hw') obj t

theorem readAs_members {s' : Units} (h : ReadAs .member s) (hc : Structural 0x2c b) (h' : ReadAs .members s') :
    ReadAs .members (s ++ b ++ s') := by
  obtain ⟨w₁, w₂, hw₁, hw₂, rfl⟩ := hc
  intro n obj w w' t hw hw' hn
  simp only [List.length_append, List.length_cons] at hn
  obtain ⟨n, rfl⟩ := Nat.exists_eq_add_of_le' (show 1 ≤ n by omega)
  obtain ⟨key, v, w₃, hw₃, hmember⟩ := h n w (w₁ ++ 0x2c :: (w₂ ++ (s' ++ (w' ++ 0x7d :: t)))) hw (stops_numeric hw₁ rfl) (by omega)
  obtain ⟨r, hloop⟩ := h' n (obj.set key v) w₂ w' t hw₂ hw' (by omega)
  refine ⟨r, ?_⟩
  rw [membersLoop_succ]
  simp only [List.append_assoc, List.cons_append]
  refine hmember _ _ _ ?_
  rw [← List.append_assoc w₃]
  exact reads_behindMember_more (hw₃.append hw₁) hloop

theorem quote_of_derives (h : Derives lax x s) : x = .member ∨ x = .members → ∃ r, s = 0x22 :: r := by
  induction h with
  | @member k _ _ _ hk _ _ _ =>
    obtain ⟨body, -, rfl⟩ := hk
    exact fun _ => ⟨_, rfl⟩
  | lastMember _ ih => exact fun _ => ih (.inl rfl)
  | members _ _ _ ih _ =>
    obtain ⟨r, rfl⟩ := ih (.inl rfl)
    exact fun _ => ⟨_, rfl⟩
  | _ => exact fun hx => by obtain hx | hx := hx <;> cases hx

theorem readAs_of_derives (h : Derives lax x s) : ReadAs x s := by
  induction h with
  | null => exact readAs_token rfl fun n w t hw _ => ⟨_, reads_null hw t⟩
  | true => exact readAs_token rfl fun n w t hw _ => ⟨_, reads_true hw t⟩
  | false => exact readAs_token rfl fun n w t hw _ => ⟨_, reads_false hw t⟩
  | number h =>
    refine readAs_token ?_ fun n w t hw ht => ⟨_, reads_number hw h ht⟩
    obtain ⟨c, r, rfl, hc⟩ := number_head h
    exact trim_cons (not_isWs_of_startsNumber hc)
  | string h =>
    refine readAs_token ?_ fun n w t hw _ => ⟨_, reads_string hw h t⟩
    obtain ⟨body, -, rfl⟩ := h
    exact trim_cons rfl
  | emptyArray hb he => exact readAs_emptyArray hb he
  | array hb h he ih => exact readAs_array hb (opened_of_derives h) ih he
  | emptyObject hb he => exact readAs_emptyObject hb he
  | object hb h he ih => exact readAs_object hb (quote_of_derives h (.inr rfl)) ih he
  | element _ ih => exact readAs_element ih
  | elements h hc _ ih ih' => exact readAs_elements (opened_of_derives h) ih hc ih'
  | member hk hc _ ih => exact readAs_member hk hc ih
  | lastMember _ ih => exact readAs_lastMember ih
  | members _ hc _ ih ih' => exact readAs_members ih hc ih'

end

/-! ## What is read is a text of the grammar -/

section
variable {w s t : Units} {c : UInt16} {n : Nat} {P Q : Units → Prop}

theorem takes_advance {f : Unit → Parser JsonValue} (c : UInt16) (h : Takes (f ()) s fun u => Q (c :: u)) :
    Takes (advance 1 >>= f) (c :: s) Q := by
  show Takes (advance [c].length >>= f) ([c] ++ s) Q
  exact (reads_advance [c] s).takes h

theorem takes_skipWs {f : Unit → Parser JsonValue}
    (h : ∀ w t, s = w ++ t → Ws w → Takes (f ()) t fun u => Q (w ++ u)) : Takes (skipWs >>= f) s Q := by
  obtain ⟨w, t, rfl, hw, ht⟩ := exists_split isWs s
  exact (reads_skipWs hw ht).takes (h w t rfl hw)

/-- The character at the position, where there is one. -/
theorem takes_charCodeAt {f : UInt16 → Parser JsonValue} (h : ∀ c t, s = c :: t → Takes (f c) s Q) :
    Takes (do
      if ← atEnd then refuse
      else
        let c ← charCodeAt 0
        f c) s Q := by
  cases s with
  | nil => exact (reads_atEnd []).peeks (rejects_refuse []).takes
  | cons c t => exact (reads_atEnd _).peeks ((reads_charCodeAt rfl).peeks (h c t rfl))

theorem takes_looksAt {f : UInt16 → Bool} {r r' : Parser JsonValue} (h : ∀ c t, s = c :: t → f c = true → Takes r s Q)
    (h' : Takes r' s Q) :
    Takes (do
      if ← looksAt f then r
      else r') s Q := by
  cases hlook : s.head?.any f with
  | false => exact (looksAt_eq hlook).peeks h'
  | true =>
    obtain ⟨c, t, rfl, hc⟩ := head_of_looks hlook
    exact (looksAt_eq hlook).peeks (h c t rfl hc)

/-- What the loops do behind a value: another round behind a comma, the end at the bracket. -/
theorem takes_behind {more : Parser JsonValue} {v : JsonValue} (d : UInt16)
    (hmore : ∀ w t, s = w ++ 0x2c :: t → Ws w → Takes more t fun u => Q (w ++ 0x2c :: u)) (hdone : ∀ w, Ws w → Q (w ++ [d])) :
    Takes (do
      skipWs
      if ← atEnd then refuse
      else
        let c ← charCodeAt 0
        if c = 0x2c then
          advance 1
          more
        else if c = d then
          advance 1
          return v
        else refuse) s Q := by
  refine takes_skipWs fun w t hs hw => takes_charCodeAt fun c t' ht => ?_
  subst ht
  by_cases hcomma : c = 0x2c
  · subst hcomma
    exact takes_advance 0x2c (hmore w t' hs hw)
  rw [if_neg hcomma]
  by_cases hclose : c = d
  · subst hclose
    rw [if_pos rfl]
    exact takes_advance c (takes_pure v t' (hdone w hw))
  · rw [if_neg hclose]
    exact (rejects_refuse _).takes

theorem takes_literal {word : Units} {v : JsonValue} (s : Units) :
    Takes (do
      if ← literal word then return v
      else refuse) s (· = word) := by
  by_cases h : ∃ t, s = word ++ t
  · obtain ⟨t, rfl⟩ := h
    exact (reads_literal word t).takes (takes_pure v t (List.append_nil word))
  · exact (reads_literal_other h).peeks (rejects_refuse s).takes

theorem takes_parseString (s : Units) : Takes parseString (0x22 :: s) fun k => ∃ u, Str true k u := by
  obtain hrejects | ⟨k, u, t, hs, hk⟩ := parseString_cases s
  · exact hrejects.takes
  · rw [hs]
    exact .inr ⟨k, t, u, rfl, ⟨u, hk⟩, reads_parseString hk t⟩

theorem takes_parseNumber (s : Units) : Takes parseNumber s (Number true) := by
  obtain hrejects | ⟨u, t, rfl, hu, hreads⟩ := numberText_cases s
  · exact (rejects_parseNumber hrejects).takes
  · exact .inr ⟨u, t, _, rfl, hu, reads_parseNumber hreads⟩

/-! ### One step -/

/-- A value behind white space. -/
def Front (u : Units) : Prop := ∃ w s, u = w ++ s ∧ Ws w ∧ Derives true .value s

/-- The elements or members up to the bracket behind them. -/
def Closed (x : Symbol) (d : UInt16) (u : Units) : Prop :=
  ∃ w s e, u = w ++ (s ++ e) ∧ Ws w ∧ Derives true x s ∧ Structural d e

/-- With so many steps, each part takes what stands for it in the grammar, or refuses. -/
structure Sound (n : Nat) : Prop where
  value : ∀ s, 3 * s.length + 3 ≤ n → Takes (parseValue n) s Front
  array : ∀ s, 3 * s.length + 5 ≤ n → Takes (parseArray n) (0x5b :: s) (Derives true .value)
  elements : ∀ s arr, 3 * s.length + 4 ≤ n → Takes (elementsLoop n arr) s (Closed .elements 0x5d)
  object : ∀ s, 3 * s.length + 5 ≤ n → Takes (parseObject n) (0x7b :: s) (Derives true .value)
  members : ∀ s obj, 3 * s.length + 4 ≤ n → Takes (membersLoop n obj) s (Closed .members 0x7d)

theorem sound_value (h : Sound n) (hn : 3 * s.length + 3 ≤ n + 1) : Takes (parseValue (n + 1)) s Front := by
  rw [parseValue]
  refine takes_skipWs fun w t hs hw => takes_charCodeAt fun c t' ht => ?_
  subst ht
  have hlen : t'.length + 1 ≤ s.length := by
    rw [hs, List.length_append, List.length_cons]
    omega
  have hfront : ∀ u, Derives true .value u → Front (w ++ u) := fun u hu => ⟨w, u, rfl, hw, hu⟩
  by_cases hobject : c = 0x7b
  · subst hobject
    exact (h.object t' (by omega)).mono hfront
  by_cases harray : c = 0x5b
  · subst harray
    exact (h.array t' (by omega)).mono hfront
  by_cases hstring : c = 0x22
  · subst hstring
    rw [if_neg (by decide), if_neg (by decide), if_pos rfl, ← bind_pure_comp]
    refine (takes_parseString t').bind fun k u t _ hk => takes_pure _ _ ?_
    obtain ⟨u, hk⟩ := hk
    rw [List.append_nil]
    exact hfront k (.string hk)
  by_cases htrue : c = 0x74
  · subst htrue
    exact (takes_literal _).mono fun u hu => hfront u (hu ▸ .true)
  by_cases hfalse : c = 0x66
  · subst hfalse
    exact (takes_literal _).mono fun u hu => hfront u (hu ▸ .false)
  by_cases hnull : c = 0x6e
  · subst hnull
    exact (takes_literal _).mono fun u hu => hfront u (hu ▸ .null)
  · rw [if_neg hobject, if_neg harray, if_neg hstring, if_neg htrue, if_neg hfalse, if_neg hnull]
    exact (takes_parseNumber _).mono fun u hu => hfront u (.number hu)

theorem sound_array (h : Sound n) (hn : 3 * s.length + 5 ≤ n + 1) :
    Takes (parseArray (n + 1)) (0x5b :: s) (Derives true .value) := by
  rw [parseArray]
  refine takes_advance 0x5b (takes_skipWs fun w t hs hw => takes_looksAt (fun c t' ht hc => ?_) ?_)
  · subst ht
    rw [of_decide_eq_true hc]
    refine takes_advance 0x5d (takes_pure _ _ ?_)
    exact .emptyArray ⟨[], w, ws_nil, hw, rfl⟩ (structural_self 0x5d)
  · have hlen : t.length ≤ s.length := by
      rw [hs, List.length_append]
      omega
    refine (h.elements t _ (by omega)).mono ?_
    rintro u ⟨w', es, e, rfl, hw', hes, he⟩
    have harray := Derives.array ⟨[], w ++ w', ws_nil, hw.append hw', rfl⟩ hes he
    simpa using harray

theorem sound_elements (h : Sound n) (hn : 3 * s.length + 4 ≤ n + 1) (arr : JsonValue) :
    Takes (elementsLoop (n + 1) arr) s (Closed .elements 0x5d) := by
  rw [elementsLoop]
  refine (h.value s (by omega)).bind fun u v t hs hu => ?_
  obtain ⟨w, core, rfl, hw, hcore⟩ := hu
  refine takes_behind 0x5d (fun w' t' ht hw' => ?_) fun w' hw' => ?_
  · have hlen : t'.length + 1 ≤ s.length := by
      rw [hs, ht]
      simp only [List.length_append, List.length_cons]
      omega
    refine (h.elements t' _ (by omega)).mono ?_
    rintro u ⟨w'', es, e, rfl, hw'', hes, he⟩
    refine ⟨w, _, e, ?_, hw, .elements hcore ⟨w', w'', hw', hw'', rfl⟩ hes, he⟩
    simp
  · exact ⟨w, core, w' ++ [0x5d], List.append_assoc _ _ _, hw, .element hcore, w', [], hw', ws_nil, rfl⟩

theorem sound_object (h : Sound n) (hn : 3 * s.length + 5 ≤ n + 1) :
    Takes (parseObject (n + 1)) (0x7b :: s) (Derives true .value) := by
  rw [parseObject]
  refine takes_advance 0x7b (takes_skipWs fun w t hs hw => takes_looksAt (fun c t' ht hc => ?_) ?_)
  · subst ht
    rw [of_decide_eq_true hc]
    refine takes_advance 0x7d (takes_pure _ _ ?_)
    exact .emptyObject ⟨[], w, ws_nil, hw, rfl⟩ (structural_self 0x7d)
  · have hlen : t.length ≤ s.length := by
      rw [hs, List.length_append]
      omega
    refine (h.members t _ (by omega)).mono ?_
    rintro u ⟨w', ms, e, rfl, hw', hms, he⟩
    have hobject := Derives.object ⟨[], w ++ w', ws_nil, hw.append hw', rfl⟩ hms he
    simpa using hobject

theorem takes_memberThen {f : Units → JsonValue → Parser JsonValue} (h : Sound n) (hn : 3 * s.length + 3 ≤ n)
    (hf : ∀ w m key v t, s = w ++ (m ++ t) → Ws w → Derives true .member m → Takes (f key v) t fun u => Q (w ++ (m ++ u))) :
    Takes (memberThen n f) s Q := by
  refine takes_skipWs fun w t hs hw => takes_looksAt (fun c s₁ ht hc => ?_) (rejects_refuse t).takes
  subst ht
  rw [of_decide_eq_true hc] at hs ⊢
  refine (takes_parseString s₁).bind fun k key s₂ hk hstr => ?_
  obtain ⟨key', hstr⟩ := hstr
  refine takes_skipWs fun w' s₃ hs₂ hw' => takes_looksAt (fun c s₄ hs₃ hc' => ?_) (rejects_refuse s₃).takes
  subst hs₃
  rw [of_decide_eq_true hc'] at hs₂ ⊢
  have hlen : s₄.length ≤ s.length := by
    rw [hs, hk, hs₂]
    simp only [List.length_append, List.length_cons]
    omega
  refine takes_advance 0x3a ((h.value s₄ (by omega)).bind fun u v rest hrest hu => ?_)
  obtain ⟨w'', core, rfl, hw'', hcore⟩ := hu
  have hmember := Derives.member hstr ⟨w', w'', hw', hw'', rfl⟩ hcore
  have htakes := hf w _ key v rest (by rw [hs, hk, hs₂, hrest]; simp) hw hmember
  simpa using htakes

theorem sound_members (h : Sound n) (hn : 3 * s.length + 4 ≤ n + 1) (obj : JsonValue) :
    Takes (membersLoop (n + 1) obj) s (Closed .members 0x7d) := by
  rw [membersLoop_succ]
  refine takes_memberThen h (by omega) fun w m key v t hs hw hm => takes_behind 0x7d (fun w' t' ht hw' => ?_) fun w' hw' => ?_
  · have hlen : t'.length + 1 ≤ s.length := by
      rw [hs, ht]
      simp only [List.length_append, List.length_cons]
      omega
    refine (h.members t' _ (by omega)).mono ?_
    rintro u ⟨w'', ms, e, rfl, hw'', hms, he⟩
    refine ⟨w, _, e, ?_, hw, .members hm ⟨w', w'', hw', hw'', rfl⟩ hms, he⟩
    simp
  · exact ⟨w, m, w' ++ [0x7d], rfl, hw, .lastMember hm, w', [], hw', ws_nil, rfl⟩

theorem sound (n : Nat) : Sound n := by
  induction n with
  | zero =>
    constructor
    all_goals intros; omega
  | succ n ih =>
    exact ⟨fun _ hn => sound_value ih hn, fun _ hn => sound_array ih hn, fun _ arr hn => sound_elements ih hn arr,
      fun _ hn => sound_object ih hn, fun _ obj hn => sound_members ih hn obj⟩

end

/-! ## The whole text -/

section
variable {text t : Units} {v : JsonValue}

theorem takes_parseText (text : Units) : Takes (parseText (3 * text.length + 3)) text fun _ => Text true text := by
  refine ((sound _).value text (Nat.le_refl _)).bind fun u v t hs hu => takes_skipWs fun w' t' ht hw' => ?_
  obtain ⟨w, core, rfl, hw, hcore⟩ := hu
  cases t' with
  | nil =>
    refine (reads_atEnd []).peeks (takes_pure v [] ⟨w, core, w', hw, hcore, hw', ?_⟩)
    rw [hs, ht, List.append_nil]
  | cons c t' => exact (reads_atEnd _).peeks (rejects_refuse _).takes

theorem reads_parseText {lax : Bool} (h : Text lax text) : ∃ v, Reads (parseText (3 * text.length + 3)) text v [] := by
  obtain ⟨w, s, w', hw, hs, hw', rfl⟩ := h
  obtain ⟨w₁, hw₁, hsplit⟩ := exists_trim s
  obtain ⟨v, w₂, hw₂, hvalue⟩ := readAs_of_derives hs (3 * (w ++ s ++ w').length + 3) (w ++ w₁) w' (hw.append hw₁)
    (stops_numeric_ws hw') (by simp only [List.length_append]; omega)
  have htext : w ++ w₁ ++ (trim s ++ w') = w ++ s ++ w' := by
    rw [List.append_assoc, ← List.append_assoc w₁, ← hsplit, List.append_assoc]
  rw [htext] at hvalue
  have hskip := @reads_skipWs [] (w₂ ++ w') (hw₂.append hw') (stops_nil _)
  rw [List.append_nil] at hskip
  exact ⟨v, hvalue.bind (hskip.bind ((reads_atEnd []).bind (reads_pure v [])))⟩

theorem tryParse_of_reads (h : Reads (parseText (3 * text.length + 3)) text v t) : tryParse text = .ok v := by
  obtain ⟨used, -, hrun⟩ := h
  have hrun' := hrun []
  rw [List.nil_append, List.length_nil] at hrun'
  rw [tryParse, hrun']
  rfl

theorem tryParse_of_rejects (h : Rejects (parseText (3 * text.length + 3)) text) : tryParse text = .error (.threw ()) := by
  obtain ⟨what, hrun⟩ := h
  have hrun' := hrun []
  rw [List.nil_append, List.length_nil] at hrun'
  rw [tryParse, hrun']
  rfl

end

end JsonParser

open JsonParser

/-- The parser ends, and looks at no place outside the text: it returns a value or `null`. -/
theorem tryParse_ends (text : Units) :
    ((∃ v, tryParse text = .ok v) ∧ Text true text) ∨ tryParse text = .error (.threw ()) := by
  obtain hrejects | ⟨_, _, v, _, htext, hreads⟩ := takes_parseText text
  · exact .inr (tryParse_of_rejects hrejects)
  · exact .inl ⟨⟨v, tryParse_of_reads hreads⟩, htext⟩

theorem tryParse_isOk_iff (text : Units) : (∃ v, tryParse text = .ok v) ↔ Text true text := by
  constructor
  · rintro ⟨v, hv⟩
    obtain ⟨-, htext⟩ | hnull := tryParse_ends text
    · exact htext
    · rw [hnull] at hv
      cases hv
  · intro htext
    obtain ⟨v, hreads⟩ := reads_parseText htext
    exact ⟨v, tryParse_of_reads hreads⟩

/-- JSON but for a leading zero in a number, or a control character that is not escaped in a string. -/
def Overlooked (text : Units) : Prop := Text true text ∧ ¬ Text false text

/-- **The parser accepts exactly JSON**, but for the texts it overlooks; on every text it ends within the text. -/
theorem tryParse_json_iff (text : Units) :
    (((∃ v, tryParse text = .ok v) ∨ tryParse text = .error (.threw ())) ∧ ((∃ v, tryParse text = .ok v) ↔ Text false text)) ↔
      ¬ Overlooked text := by
  have hends : (∃ v, tryParse text = .ok v) ∨ tryParse text = .error (.threw ()) := (tryParse_ends text).imp And.left id
  rw [tryParse_isOk_iff, Overlooked, not_and_not_right]
  constructor
  · rintro ⟨-, hiff⟩
    exact hiff.1
  · intro hstrict
    rw [tryParse_isOk_iff] at hends
    exact ⟨hends, hstrict, Text.lax⟩

/-! ## What is overlooked -/

section
variable {c d : UInt16} {b e ds s : Units} {lax : Bool}

theorem mem_of_structural (h : Structural c b) : c ∈ b := by
  obtain ⟨w, w', -, -, rfl⟩ := h
  exact List.mem_append_right w List.mem_cons_self

theorem structural_ne (h : Structural c b) (hws : isWs d = false) (hne : d ≠ c) : d :: s ≠ b ++ e := by
  obtain ⟨w, w', hw, -, rfl⟩ := h
  intro heq
  cases w with
  | nil => exact hne (List.cons.inj heq).1
  | cons a w =>
    have ha := hw a List.mem_cons_self
    rw [← (List.cons.inj heq).1, hws] at ha
    cases ha

/-- A text of digits has no white space and no bracket: it is a number. -/
theorem number_of_digits (hds : Digits ds) (h : Text lax ds) : Number lax ds := by
  have hno : ∀ c, isDigit c = false → c ∉ ds := fun c hc hmem => by
    rw [hds.2 c hmem] at hc
    cases hc
  have hws : ∀ w : Units, Ws w → (∀ c ∈ w, c ∈ ds) → w = [] := by
    intro w hw hsub
    cases w with
    | nil => rfl
    | cons c w =>
      have hnumeric := not_numeric_of_isWs (hw c List.mem_cons_self)
      rw [isNumeric, hds.2 c (hsub c List.mem_cons_self)] at hnumeric
      cases hnumeric
  obtain ⟨w, v, w', hw, hv, hw', rfl⟩ := h
  obtain rfl := hws w hw fun c hc => by simp [hc]
  obtain rfl := hws w' hw' fun c hc => by simp [hc]
  simp only [List.nil_append, List.append_nil] at hno ⊢
  cases hv with
  | null => exact absurd (by decide) (hno 0x6e rfl)
  | true => exact absurd (by decide) (hno 0x74 rfl)
  | false => exact absurd (by decide) (hno 0x66 rfl)
  | number h => exact h
  | string h =>
    obtain ⟨body, -, rfl⟩ := h
    exact absurd List.mem_cons_self (hno 0x22 rfl)
  | emptyArray hb _ => exact absurd (List.mem_append_left _ (mem_of_structural hb)) (hno 0x5b rfl)
  | array hb _ _ =>
    exact absurd (List.mem_append_left _ (List.mem_append_left _ (mem_of_structural hb))) (hno 0x5b rfl)
  | emptyObject hb _ => exact absurd (List.mem_append_left _ (mem_of_structural hb)) (hno 0x7b rfl)
  | object hb _ _ =>
    exact absurd (List.mem_append_left _ (List.mem_append_left _ (mem_of_structural hb))) (hno 0x7b rfl)

/-- A number of the standard that is all digits and begins with a zero is the zero. -/
theorem not_number_zero (hds : Digits ds) : ¬ Number false (0x30 :: ds) := by
  rintro ⟨minus, int, frac, exp, hminus, hint, hfrac, hexp, hsplit⟩
  obtain ⟨d, rest, rfl, hd⟩ := digits_head hds
  obtain rfl | rfl := hminus
  · obtain rfl | ⟨c, ds', rfl, hlow, -⟩ | ⟨hno, -⟩ := hint
    · have hrest : d :: rest = frac ++ exp := (List.cons.inj hsplit).2
      obtain rfl | ⟨ds', rfl, -⟩ := hfrac
      · obtain rfl | ⟨e, sign, ds', rfl, he, -⟩ := hexp
        · cases hrest
        · rw [(List.cons.inj hrest).1] at hd
          obtain rfl | rfl := he <;> cases hd
      · rw [(List.cons.inj hrest).1] at hd
        cases hd
    · rw [← (List.cons.inj hsplit).1] at hlow
      exact absurd hlow (by decide)
    · cases hno
  · exact absurd (List.cons.inj hsplit).1 (by decide)

theorem overlooked_leading_zero (hds : Digits ds) : Overlooked (0x30 :: ds) := by
  have hall : Digits (0x30 :: ds) := by
    refine ⟨List.cons_ne_nil _ _, fun c hc => ?_⟩
    obtain rfl | hc := List.mem_cons.1 hc
    · rfl
    · exact hds.2 c hc
  have hnumber : Number true (0x30 :: ds) := ⟨[], _, [], [], .inl rfl, .inr (.inr ⟨rfl, hall⟩), .inl rfl, .inl rfl, by simp⟩
  refine ⟨⟨[], _, [], ws_nil, .number hnumber, ws_nil, by simp⟩, fun h => ?_⟩
  exact not_number_zero hds (number_of_digits hall h)

theorem str_of_quote (h : Derives lax .value (0x22 :: s)) : ∃ u, Str lax (0x22 :: s) u := by
  generalize hv : 0x22 :: s = v at h
  cases h with
  | null => exact absurd (List.cons.inj hv).1 (by decide)
  | true => exact absurd (List.cons.inj hv).1 (by decide)
  | false => exact absurd (List.cons.inj hv).1 (by decide)
  | number h =>
    obtain ⟨c, r, rfl, hc⟩ := number_head h
    exact absurd (List.cons.inj hv).1.symm (startsNumber_ne hc rfl)
  | string h => exact ⟨_, h⟩
  | emptyArray hb _ => exact absurd hv (structural_ne hb rfl (by decide))
  | array hb _ _ =>
    rw [List.append_assoc] at hv
    exact absurd hv (structural_ne hb rfl (by decide))
  | emptyObject hb _ => exact absurd hv (structural_ne hb rfl (by decide))
  | object hb _ _ =>
    rw [List.append_assoc] at hv
    exact absurd hv (structural_ne hb rfl (by decide))

theorem overlooked_control (hc : c < 0x20) : Overlooked [0x22, c, 0x22] := by
  have hquote : c ≠ 0x22 := by
    rintro rfl
    exact absurd hc (by decide)
  have hbackslash : c ≠ 0x5c := by
    rintro rfl
    exact absurd hc (by decide)
  have hstring : Str true [0x22, c, 0x22] [c] := ⟨[c], .unescaped hquote hbackslash (.inr rfl) .nil, rfl⟩
  refine ⟨⟨[], _, [], ws_nil, .string hstring, ws_nil, rfl⟩, ?_⟩
  rintro ⟨w, v, w', hw, hv, -, hsplit⟩
  have hnil : w = [] := by
    cases w with
    | nil => rfl
    | cons a w =>
      have ha := hw a List.mem_cons_self
      rw [← (List.cons.inj hsplit).1] at ha
      cases ha
  subst hnil
  rw [List.nil_append] at hsplit
  obtain ⟨d, s, hd, -⟩ : Opened v := opened_of_derives hv
  cases v with
  | nil => cases hd
  | cons a v =>
    obtain rfl := (List.cons.inj hsplit).1
    obtain ⟨u, body, hchars, hbody⟩ := str_of_quote hv
    rw [(List.cons.inj hbody).2] at hsplit
    have hrest : [c, 0x22] = body ++ [0x22] ++ w' := (List.cons.inj hsplit).2
    cases hchars with
    | nil => exact hquote (List.cons.inj hrest).1
    | unescaped _ _ hcontrol _ =>
      rw [← (List.cons.inj hrest).1] at hcontrol
      obtain hcontrol | hno := hcontrol
      · exact absurd hc (UInt16.not_lt.2 hcontrol)
      · cases hno
    | escaped _ _ => exact hbackslash (List.cons.inj hrest).1
    | unicode _ _ => exact hbackslash (List.cons.inj hrest).1

/-- `01` is a value of the guest's and no JSON. -/
theorem leading_zero_accepted : ¬ ((∃ v, tryParse [0x30, 0x31] = .ok v) ↔ Text false [0x30, 0x31]) := by
  have hds : Digits [0x31] := ⟨List.cons_ne_nil _ _, fun c hc => by rw [List.mem_singleton.1 hc]; rfl⟩
  obtain ⟨hlax, hstrict⟩ : Overlooked [0x30, 0x31] := overlooked_leading_zero hds
  rw [tryParse_isOk_iff]
  exact fun h => hstrict (h.1 hlax)

end

end OriginDB.Sdk
