import OriginDB.Sdk.JsonKinds
/-!
# What the guest prints, it reads (`index.ts:184-254`)

`quote` escapes nothing that `parseString` does not know, and `parseString` leaves the rest as it is: for each code unit the
two tables agree (`chars_quoteUnit`). An integer below 2⁵³ is printed in digits and read as the double next to it, which is
the one it was. The parser reads every text of a value that has no white space (`Spells`), whoever printed it, by induction on
the value; what `toString` prints is such a text.
-/
namespace OriginDB.Sdk

open JsonGrammar Positioned JsonParser Numbers

namespace JsonValue

/-! ## Strings -/

/-- Six characters that are `\uXXXX` of the code unit. -/
def isUnicodeOf (c : UInt16) : Units → Bool
  | [p, q, a, b, d, e] => p = 0x5c && q = 0x75 && hexUnit a b d e = some c
  | _ => false

theorem isUnicodeOf_quoteUnit : ∀ n : Fin 32, let c := UInt16.ofNat n
    c = 0x08 ∨ c = 0x0c ∨ c = 0x0a ∨ c = 0x0d ∨ c = 0x09 ∨ isUnicodeOf c (quoteUnit c) = true := by
  decide

theorem chars_isUnicodeOf {lax : Bool} {c : UInt16} {l body v : Units} (h : isUnicodeOf c l = true) (hbody : Chars lax body v) :
    Chars lax (l ++ body) (c :: v) := by
  unfold isUnicodeOf at h
  split at h
  · simp only [Bool.and_eq_true, decide_eq_true_eq] at h
    obtain ⟨⟨rfl, rfl⟩, hunit⟩ := h
    exact .unicode hunit hbody
  · cases h

/-- **The two tables agree** on each of the 65536 code units. -/
theorem chars_quoteUnit (c : UInt16) {body v : Units} (h : Chars false body v) : Chars false (quoteUnit c ++ body) (c :: v) := by
  by_cases hquote : c = 0x22
  · subst hquote
    exact .escaped rfl h
  by_cases hbackslash : c = 0x5c
  · subst hbackslash
    exact .escaped rfl h
  by_cases hcontrol : c < 0x20
  · have hlt : c.toNat < 32 := hcontrol
    have hc : UInt16.ofNat c.toNat = c := UInt16.ofNat_toNat
    have hall := isUnicodeOf_quoteUnit ⟨c.toNat, hlt⟩
    simp only [hc] at hall
    obtain rfl | rfl | rfl | rfl | rfl | hunicode := hall
    · exact .escaped rfl h
    · exact .escaped rfl h
    · exact .escaped rfl h
    · exact .escaped rfl h
    · exact .escaped rfl h
    · exact chars_isUnicodeOf hunicode h
  · have hself : quoteUnit c = [c] := by
      have hne : ∀ d : UInt16, d < 0x20 → c ≠ d := by
        rintro d hd rfl
        exact hcontrol hd
      rw [quoteUnit, if_neg hquote, if_neg hbackslash, if_neg (hne 0x08 (by decide)), if_neg (hne 0x0c (by decide)),
        if_neg (hne 0x0a (by decide)), if_neg (hne 0x0d (by decide)), if_neg (hne 0x09 (by decide)), if_neg hcontrol]
    rw [hself]
    exact .unescaped hquote hbackslash (.inl (UInt16.not_lt.1 hcontrol)) h

theorem chars_quote (s : Units) : Chars false (s.flatMap quoteUnit) s := by
  induction s with
  | nil => exact .nil
  | cons c s ih => exact chars_quoteUnit c ih

theorem str_quote (s : Units) : Str false (quote s) s := ⟨s.flatMap quoteUnit, chars_quote s, by simp [quote]⟩

/-! ## Integers -/

section
variable {v : Int}

theorem numberToString_ofInt (rt : Runtime) (h : v.natAbs < 2 ^ 53) : numberToString rt (ofInt v) = i64ToString v := by
  have hlt : v.natAbs < 2 ^ 64 := by omega
  have hinteger : isInteger (ofInt v) = true := by
    rw [isInteger, truncDouble_ofInt h, doubleEq_self (isNaN_ofInt hlt), doubleLt_magnitude h]
    rfl
  rw [numberToString, nonFinite_ofInt hlt, hinteger, truncDouble_ofInt h]
  rfl

theorem digitUnit {c : Char} (h : c.isDigit = true) : JsonGrammar.isDigit (UInt16.ofNat c.toNat) = true ∧
    Regex.isDigit (UInt8.ofNat c.toNat) = true ∧ (UInt8.ofNat c.toNat).toNat = c.toNat ∧
    UInt8.ofNat (UInt16.ofNat c.toNat).toNat = UInt8.ofNat c.toNat := by
  have hrange : 48 ≤ c.toNat ∧ c.toNat ≤ 57 := by
    simp only [Char.isDigit, Bool.and_eq_true, decide_eq_true_eq] at h
    exact h
  have hall : ∀ n : Fin 58, 48 ≤ n.val → JsonGrammar.isDigit (UInt16.ofNat n) = true ∧ Regex.isDigit (UInt8.ofNat n) = true ∧
      (UInt8.ofNat n).toNat = n ∧ UInt8.ofNat (UInt16.ofNat n).toNat = UInt8.ofNat n := by decide
  exact hall ⟨c.toNat, by omega⟩ hrange.1

/-- The digits of a natural number, as code units and as bytes. -/
def digitUnits (n : Nat) : Units := units (Nat.toDigits 10 n)

theorem digits_digitUnits (n : Nat) : Digits (digitUnits n) := by
  refine ⟨fun h => Nat.toDigits_ne_nil (List.map_eq_nil_iff.1 h), fun c hc => ?_⟩
  obtain ⟨d, hd, rfl⟩ := List.mem_map.1 hc
  exact (digitUnit (Nat.isDigit_of_mem_toDigits (by decide) (by decide) hd)).1

theorem number_i64ToString (v : Int) : Number true (i64ToString v) := by
  refine ⟨if v < 0 then [0x2d] else [], digitUnits v.natAbs, [], [], ?_, .inr (.inr ⟨rfl, digits_digitUnits _⟩), .inl rfl,
    .inl rfl, ?_⟩
  · split
    · exact .inr rfl
    · exact .inl rfl
  · rw [List.append_nil, List.append_nil]
    rfl

theorem ascii_digitUnits (n : Nat) : ascii (digitUnits n) = (Nat.toDigits 10 n).map fun c => UInt8.ofNat c.toNat := by
  rw [ascii, digitUnits, units, List.map_map]
  refine List.map_congr_left fun c hc => ?_
  exact (digitUnit (Nat.isDigit_of_mem_toDigits (by decide) (by decide) hc)).2.2.2

theorem readMantissa_ascii (n : Nat) : readMantissa Regex.isDigit (ascii (digitUnits n)) = some (ascii (digitUnits n), [], []) := by
  rw [ascii_digitUnits]
  refine readMantissa_digits (fun h => Nat.toDigits_ne_nil (List.map_eq_nil_iff.1 h)) fun c hc => ?_
  obtain ⟨d, hd, rfl⟩ := List.mem_map.1 hc
  exact (digitUnit (Nat.isDigit_of_mem_toDigits (by decide) (by decide) hd)).2.1

theorem digits_ascii (n : Nat) : Numbers.digits (ascii (digitUnits n)) = n := by
  have hfold : ∀ (l : List Char), (∀ c ∈ l, c.isDigit = true) → ∀ k,
      (l.map fun c => UInt8.ofNat c.toNat).foldl (fun n c => n * 10 + (c.toNat - 48)) k = Nat.ofDigitChars 10 l k := by
    intro l hl
    induction l with
    | nil => exact fun k => Nat.ofDigitChars_nil.symm
    | cons c l ih =>
      intro k
      have hc := (digitUnit (hl c List.mem_cons_self)).2.2.1
      rw [List.map_cons, List.foldl_cons, Nat.ofDigitChars_cons, ih (fun d hd => hl d (List.mem_cons_of_mem _ hd)), hc,
        Nat.mul_comm]
      rfl
  rw [ascii_digitUnits, Numbers.digits, hfold _ (fun c hc => Nat.isDigit_of_mem_toDigits (by decide) (by decide) hc),
    Nat.ofDigitChars_ten_toDigits]

theorem readSign_digits (n : Nat) : readSign (ascii (digitUnits n)) = (false, ascii (digitUnits n)) := by
  have hhead : ∀ c s, ascii (digitUnits n) = c :: s → Regex.isDigit c = true := by
    intro c s h
    rw [ascii_digitUnits] at h
    have hc : c ∈ (Nat.toDigits 10 n).map fun c => UInt8.ofNat c.toNat := by
      rw [h]
      exact List.mem_cons_self
    obtain ⟨d, hd, rfl⟩ := List.mem_map.1 hc
    exact (digitUnit (Nat.isDigit_of_mem_toDigits (by decide) (by decide) hd)).2.1
  unfold readSign
  split
  · rename_i heq
    exact absurd (hhead _ _ heq) (by decide)
  · rename_i heq
    exact absurd (hhead _ _ heq) (by decide)
  · rfl

/-- **An integer is read as its own double.** -/
theorem parseFloat_i64ToString (v : Int) : parseFloat (i64ToString v) = ofInt v := by
  have hscaled : ∀ n : Nat, scaled (Numbers.digits (ascii (digitUnits n) ++ [])) 10
      (readExponent 101 [] - ([] : ByteCodec.Bytes).length) = (n, 1) := by
    intro n
    rw [List.append_nil, digits_ascii]
    simp [scaled, readExponent]
  have hsign : readSign (ascii (i64ToString v)) = (decide (v < 0), ascii (digitUnits v.natAbs)) := by
    by_cases hneg : v < 0
    · rw [i64ToString, if_pos hneg, decide_eq_true hneg]
      rfl
    · rw [i64ToString, if_neg hneg, decide_eq_false hneg]
      exact readSign_digits v.natAbs
  rw [parseFloat, hsign]
  simp only [readMantissa_ascii, hscaled]
  rfl

end

/-! ## Values -/

mutual

/-- The texts of a value without white space: a string may be escaped in any way, a number is any that is read as it. -/
def Spells : JsonValue → Units → Prop
  | null, u => u = nullText
  | bool b, u => u = if b then trueText else falseText
  | number n, u => Number true u ∧ parseFloat u = n
  | string s, u => Str true u s
  | array arr, u => ∃ body, SpellsElements arr body ∧ u = [0x5b] ++ body ++ [0x5d]
  | object members, u => (members.map Prod.fst).Nodup ∧ ∃ body, SpellsMembers members body ∧ u = [0x7b] ++ body ++ [0x7d]

def SpellsElements : List JsonValue → Units → Prop
  | [], u => u = []
  | [v], u => Spells v u
  | v :: w :: arr, u => ∃ s t, Spells v s ∧ SpellsElements (w :: arr) t ∧ u = s ++ [0x2c] ++ t

def SpellsMembers : List (Units × JsonValue) → Units → Prop
  | [], u => u = []
  | [(key, v)], u => ∃ k s, Str true k key ∧ Spells v s ∧ u = k ++ [0x3a] ++ s
  | (key, v) :: q :: members, u =>
    ∃ k s t, Str true k key ∧ Spells v s ∧ SpellsMembers (q :: members) t ∧ u = k ++ [0x3a] ++ s ++ [0x2c] ++ t

end

section
variable {v w : JsonValue} {arr : List JsonValue} {key : Units} {members : List (Units × JsonValue)} {u : Units}

theorem spellsElements_cons :
    SpellsElements (v :: w :: arr) u ↔ ∃ s t, Spells v s ∧ SpellsElements (w :: arr) t ∧ u = s ++ [0x2c] ++ t := by
  rw [SpellsElements]

theorem spellsMembers_cons {q : Units × JsonValue} : SpellsMembers ((key, v) :: q :: members) u ↔
    ∃ k s t, Str true k key ∧ Spells v s ∧ SpellsMembers (q :: members) t ∧ u = k ++ [0x3a] ++ s ++ [0x2c] ++ t := by
  rw [SpellsMembers]

/-- No value begins with white space or with the end of an array or an object. -/
theorem spells_head (h : Spells v u) : ∃ c s, u = c :: s ∧ opens c = true := by
  cases v with
  | null =>
    rw [Spells] at h
    exact ⟨0x6e, _, by rw [h]; rfl, by decide⟩
  | bool b =>
    rw [Spells] at h
    cases b
    · exact ⟨0x66, _, by rw [h]; rfl, by decide⟩
    · exact ⟨0x74, _, by rw [h]; rfl, by decide⟩
  | number n =>
    rw [Spells] at h
    obtain ⟨c, s, hcs, hc⟩ := number_head h.1
    exact ⟨c, s, hcs, opens_of_startsNumber hc⟩
  | string s =>
    rw [Spells] at h
    obtain ⟨body, -, rfl⟩ := h
    exact ⟨0x22, _, rfl, by decide⟩
  | array arr =>
    rw [Spells] at h
    obtain ⟨body, -, rfl⟩ := h
    exact ⟨0x5b, _, rfl, by decide⟩
  | object members =>
    rw [Spells] at h
    obtain ⟨-, body, -, rfl⟩ := h
    exact ⟨0x7b, _, rfl, by decide⟩

theorem spellsElements_head (h : SpellsElements (v :: arr) u) : ∃ c s, u = c :: s ∧ opens c = true := by
  cases arr with
  | nil =>
    rw [SpellsElements] at h
    exact spells_head h
  | cons w arr =>
    obtain ⟨s, t, hs, -, rfl⟩ := spellsElements_cons.1 h
    obtain ⟨c, s', rfl, hc⟩ := spells_head hs
    exact ⟨c, _, rfl, hc⟩

theorem spellsMembers_head {p : Units × JsonValue} (h : SpellsMembers (p :: members) u) : ∃ s, u = 0x22 :: s := by
  obtain ⟨key, v⟩ := p
  cases members with
  | nil =>
    rw [SpellsMembers] at h
    obtain ⟨k, s, ⟨body, -, rfl⟩, -, rfl⟩ := h
    exact ⟨_, rfl⟩
  | cons q members =>
    obtain ⟨k, s, t, ⟨body, -, rfl⟩, -, -, rfl⟩ := spellsMembers_cons.1 h
    exact ⟨_, rfl⟩

theorem setMember_notMem (h : key ∉ members.map Prod.fst) : setMember key v members = members ++ [(key, v)] := by
  induction members with
  | nil => rfl
  | cons p members ih =>
    obtain ⟨k, w⟩ := p
    rw [List.map_cons, List.mem_cons, not_or] at h
    rw [setMember, if_neg (Ne.symm h.1), ih h.2, List.cons_append]

/-- The first of the members that are left has a new key. -/
theorem notMem_of_nodup {p : Units × JsonValue} {done rest : List (Units × JsonValue)}
    (h : ((done ++ p :: rest).map Prod.fst).Nodup) : p.1 ∉ done.map Prod.fst := by
  rw [List.map_append, List.nodup_append] at h
  exact fun hk => h.2.2 p.1 hk p.1 (by simp) rfl

end

mutual

/-- **A text of a value is read as the value**, by a parser with enough steps. -/
theorem reads_of_spells : ∀ v : JsonValue, ∀ u : Units, Spells v u → ∀ (n : Nat) (t : Units), 3 * u.length + 3 ≤ n →
    Stops isNumeric t → Reads (parseValue n) (u ++ t) v t
  | null, u, h, n + 1, t, _, _ => by
    rw [Spells] at h
    rw [h]
    exact reads_null ws_nil t
  | bool true, u, h, n + 1, t, _, _ => by
    rw [Spells] at h
    rw [h]
    exact reads_true ws_nil t
  | bool false, u, h, n + 1, t, _, _ => by
    rw [Spells] at h
    rw [h]
    exact reads_false ws_nil t
  | number b, u, h, n + 1, t, _, ht => by
    rw [Spells] at h
    have hnumber := reads_number ws_nil h.1 ht (n := n)
    rw [h.2] at hnumber
    exact hnumber
  | string s, u, h, n + 1, t, _, _ => by
    rw [Spells] at h
    exact reads_string ws_nil h t
  | array [], u, h, n + 2, t, _, _ => by
    rw [Spells] at h
    obtain ⟨body, hbody, rfl⟩ := h
    rw [SpellsElements] at hbody
    rw [hbody]
    exact reads_array ws_nil (reads_emptyArray ws_nil t)
  | array (v :: arr), u, h, n, t, hn, _ => by
    rw [Spells] at h
    obtain ⟨body, hbody, rfl⟩ := h
    simp only [List.length_append, List.length_singleton] at hn
    obtain ⟨n, rfl⟩ : ∃ k, n = k + 2 := ⟨n - 2, by omega⟩
    have hloop := reads_elements (v :: arr) body hbody [] n t (by omega) (by simp)
    rw [List.nil_append] at hloop
    obtain ⟨c, s, rfl, hc⟩ := spellsElements_head hbody
    obtain ⟨hws, hne, -⟩ := opens_iff.1 hc
    rw [List.cons_append] at hloop
    rw [List.append_assoc, List.append_assoc]
    exact reads_array ws_nil (reads_parseArray ws_nil hws hne hloop)
  | object [], u, h, n + 2, t, _, _ => by
    rw [Spells] at h
    obtain ⟨-, body, hbody, rfl⟩ := h
    rw [SpellsMembers] at hbody
    rw [hbody]
    exact reads_object ws_nil (reads_emptyObject ws_nil t)
  | object (p :: members), u, h, n, t, hn, _ => by
    rw [Spells] at h
    obtain ⟨hnodup, body, hbody, rfl⟩ := h
    simp only [List.length_append, List.length_singleton] at hn
    obtain ⟨n, rfl⟩ : ∃ k, n = k + 2 := ⟨n - 2, by omega⟩
    have hloop := reads_members (p :: members) body hbody [] hnodup n t (by omega) (by simp)
    rw [List.nil_append] at hloop
    obtain ⟨s, rfl⟩ := spellsMembers_head hbody
    rw [List.cons_append] at hloop
    rw [List.append_assoc, List.append_assoc]
    exact reads_object ws_nil (reads_parseObject ws_nil rfl (by decide) hloop)

theorem reads_elements : ∀ (arr : List JsonValue) (u : Units), SpellsElements arr u → ∀ (done : List JsonValue) (n : Nat) (t : Units),
    3 * u.length + 4 ≤ n → arr ≠ [] → Reads (elementsLoop n (array done)) (u ++ 0x5d :: t) (array (done ++ arr)) t
  | [], _, _, _, _, _, _, hne => absurd rfl hne
  | [v], u, h, done, n + 1, t, hn, _ => by
    rw [SpellsElements] at h
    have hv := reads_of_spells v u h n (0x5d :: t) (by omega) (stops_cons.2 rfl)
    exact reads_elementsLoop_last hv ws_nil (array done)
  | v :: w :: arr, u, h, done, n + 1, t, hn, _ => by
    obtain ⟨s, s', hs, hs', rfl⟩ := spellsElements_cons.1 h
    simp only [List.length_append, List.length_singleton] at hn
    have hv := reads_of_spells v s hs n (0x2c :: (s' ++ 0x5d :: t)) (by omega) (stops_cons.2 rfl)
    have hrest := reads_elements (w :: arr) s' hs' (done ++ [v]) n t (by omega) (by simp)
    rw [List.append_assoc, List.singleton_append] at hrest
    rw [List.append_assoc, List.append_assoc, List.singleton_append]
    exact reads_elementsLoop_more hv ws_nil hrest

theorem reads_members : ∀ (members : List (Units × JsonValue)) (u : Units), SpellsMembers members u →
    ∀ done : List (Units × JsonValue), ((done ++ members).map Prod.fst).Nodup → ∀ (n : Nat) (t : Units), 3 * u.length + 4 ≤ n →
    members ≠ [] → Reads (membersLoop n (object done)) (u ++ 0x7d :: t) (object (done ++ members)) t
  | [], _, _, _, _, _, _, _, hne => absurd rfl hne
  | [(key, v)], u, h, done, hd, n + 1, t, hn, _ => by
    rw [SpellsMembers] at h
    obtain ⟨k, s, hk, hs, rfl⟩ := h
    simp only [List.length_append, List.length_singleton] at hn
    have hv := reads_of_spells v s hs n (0x7d :: t) (by omega) (stops_cons.2 rfl)
    have hloop := reads_membersLoop_last ws_nil hk ws_nil hv ws_nil (object done)
    rw [set, setMember_notMem (notMem_of_nodup hd)] at hloop
    simpa using hloop
  | (key, v) :: q :: members, u, h, done, hd, n + 1, t, hn, _ => by
    obtain ⟨k, s, s', hk, hs, hs', rfl⟩ := spellsMembers_cons.1 h
    simp only [List.length_append, List.length_singleton] at hn
    have hv := reads_of_spells v s hs n (0x2c :: (s' ++ 0x7d :: t)) (by omega) (stops_cons.2 rfl)
    have hrest := reads_members (q :: members) s' hs' (done ++ [(key, v)]) (by rwa [List.append_assoc, List.singleton_append]) n t
      (by omega) (by simp)
    rw [List.append_assoc, List.singleton_append] at hrest
    rw [← setMember_notMem (notMem_of_nodup hd)] at hrest
    have hloop := reads_membersLoop_more (object done) ws_nil hk ws_nil hv ws_nil hrest
    simpa using hloop

end

/-- **The parser reads every text of a value without white space as the value.** -/
theorem tryParse_of_spells {v : JsonValue} {u : Units} (h : Spells v u) : tryParse u = .ok v := by
  have hread := reads_of_spells v u h (3 * u.length + 3) [] (Nat.le_refl _) rfl
  rw [List.append_nil] at hread
  have hall : Reads (parseText (3 * u.length + 3)) u v [] :=
    hread.bind ((reads_skipWs ws_nil (stops_nil isWs)).bind ((reads_atEnd []).bind (reads_pure v [])))
  obtain ⟨used, -, hrun⟩ := hall
  have hstart := hrun []
  rw [List.nil_append, List.length_nil] at hstart
  rw [tryParse, hstart]
  rfl

/-! ## What is printed -/

mutual

/-- Numbers are integers below 2⁵³, and no object has a key twice. -/
def Plain : JsonValue → Prop
  | number n => ∃ v : Int, v.natAbs < 2 ^ 53 ∧ n = ofInt v
  | array arr => PlainElements arr
  | object members => (members.map Prod.fst).Nodup ∧ PlainMembers members
  | _ => True

def PlainElements : List JsonValue → Prop
  | [] => True
  | v :: arr => Plain v ∧ PlainElements arr

def PlainMembers : List (Units × JsonValue) → Prop
  | [] => True
  | (_, v) :: members => Plain v ∧ PlainMembers members

end

section
variable (rt : Runtime)

theorem elementsToString_cons (v w : JsonValue) (arr : List JsonValue) :
    elementsToString rt (v :: w :: arr) = v.toString rt ++ [0x2c] ++ elementsToString rt (w :: arr) := by rw [elementsToString]

theorem membersToString_cons (key : Units) (v : JsonValue) (q : Units × JsonValue) (members : List (Units × JsonValue)) :
    membersToString rt ((key, v) :: q :: members) =
      quote key ++ [0x3a] ++ v.toString rt ++ [0x2c] ++ membersToString rt (q :: members) := by rw [membersToString]

mutual

/-- What is printed is a text of the value. -/
theorem spells_toString : ∀ v : JsonValue, Plain v → Spells v (v.toString rt)
  | null, _ => by rw [Spells, toString]
  | bool b, _ => by rw [Spells, toString]
  | number n, h => by
    rw [Plain] at h
    obtain ⟨v, hv, rfl⟩ := h
    rw [Spells, toString, numberToString_ofInt rt hv]
    exact ⟨number_i64ToString v, parseFloat_i64ToString v⟩
  | string s, _ => by
    rw [Spells, toString]
    exact (str_quote s).lax
  | array arr, h => by
    rw [Plain] at h
    rw [Spells, toString]
    exact ⟨_, spells_elements arr h, rfl⟩
  | object members, h => by
    rw [Plain] at h
    rw [Spells, toString]
    exact ⟨h.1, _, spells_members members h.2, rfl⟩

theorem spells_elements : ∀ arr : List JsonValue, PlainElements arr → SpellsElements arr (elementsToString rt arr)
  | [], _ => by rw [SpellsElements, elementsToString]
  | [v], h => by
    rw [PlainElements] at h
    rw [SpellsElements, elementsToString]
    exact spells_toString v h.1
  | v :: w :: arr, h => by
    rw [PlainElements] at h
    exact spellsElements_cons.2 ⟨_, _, spells_toString v h.1, spells_elements (w :: arr) h.2, elementsToString_cons rt v w arr⟩

theorem spells_members : ∀ members : List (Units × JsonValue), PlainMembers members →
    SpellsMembers members (membersToString rt members)
  | [], _ => by rw [SpellsMembers, membersToString]
  | [(key, v)], h => by
    rw [PlainMembers] at h
    rw [SpellsMembers, membersToString]
    exact ⟨_, _, (str_quote key).lax, spells_toString v h.1, rfl⟩
  | (key, v) :: q :: members, h => by
    rw [PlainMembers] at h
    exact spellsMembers_cons.2 ⟨_, _, _, (str_quote key).lax, spells_toString v h.1, spells_members (q :: members) h.2,
      membersToString_cons rt key v q members⟩

end

end

/-- **Printing is undone by parsing.** -/
theorem tryParse_toString (rt : Runtime) {v : JsonValue} (h : Plain v) : tryParse (v.toString rt) = .ok v :=
  tryParse_of_spells (spells_toString rt v h)

/-- Integers are printed without the library. -/
def integersOnly : Runtime := { f64ToString := fun _ => [] }

/-- A key with a quotation mark, a string with a control character and half of a surrogate pair, a negative integer. -/
def sample : JsonValue :=
  object [([0x22, 0x6b], array [number (ofInt (-7)), string [0x01, 0xd83d], object []]), ([], null)]

theorem tryParse_toString_sample : tryParse (sample.toString integersOnly) = .ok sample := by
  refine tryParse_toString integersOnly ?_
  rw [sample, Plain]
  refine ⟨by decide, ?_, trivial, trivial⟩
  exact ⟨⟨-7, by decide, rfl⟩, trivial, ⟨List.nodup_nil, trivial⟩, trivial⟩

end JsonValue

end OriginDB.Sdk
