import OriginDB.Lib.Positioned
import OriginDB.Sdk.JsonValue
/-!
# `JsonParser` of the guest SDK (`src/sdk/typescript/assembly/index.ts:266-471`)

The parser is a position in a text; `null` is its refusal, and a look at `charCodeAt` of a place that the text does not have
an ending of its own. The loops and the recursion are given steps (`parseValue n`, `skipLoop n`): that a text needs no more
steps than `tryParse` gives is a theorem (`tryParse_ends`). The depth of the stack is not modelled, nor that of `pos`, an
`i32`: a text has fewer than `2 ^ 30` code units.
-/
namespace OriginDB.Sdk

open JsonGrammar Positioned

abbrev Parser := Reading UInt16 Unit

namespace JsonParser

/-- `return null`. -/
def refuse {α : Type} : Parser α := Reading.throw ()

def atEnd : Parser Bool := fun p => .ok (decide (p.data.length ≤ p.position), p)

/-- `this.pos`. -/
def pos : Parser Nat := fun p => .ok (p.position, p)

/-- `this.text.charCodeAt(this.pos + i)`. -/
def charCodeAt (i : Nat) : Parser UInt16 := fun p => element (p.position + i) p

/-- `this.pos < this.text.length && f(this.text.charCodeAt(this.pos))`. -/
def looksAt (f : UInt16 → Bool) : Parser Bool := do
  if ← atEnd then return false
  else
    let c ← charCodeAt 0
    return f c

/-- The loop that passes over the characters of one kind; whether there was one. -/
def skipLoop (f : UInt16 → Bool) : Nat → Bool → Parser Bool
  | 0, _ => Reading.unfinished
  | n + 1, seen => do
    if ← looksAt f then
      advance 1
      skipLoop f n true
    else return seen

/-- As many steps as there are characters, and one. -/
def steps : Parser Nat := fun p => .ok (p.data.length + 1, p)

def skip (f : UInt16 → Bool) : Parser Bool := do
  let n ← steps
  skipLoop f n false

/-- `skipWs` (`:274`). -/
def skipWs : Parser Unit := (fun _ => ()) <$> skip isWs

/-- The comparison of `literal`, from the `i`-th character on. -/
def literalLoop : Units → Nat → Parser Bool
  | [], _ => return true
  | c :: word, i => do
    let d ← charCodeAt i
    if d ≠ c then return false
    else literalLoop word (i + 1)

def fitsIn (n : Nat) : Parser Bool := fun p => .ok (decide (p.position + n ≤ p.data.length), p)

/-- `literal` (`:299`). -/
def literal (word : Units) : Parser Bool := do
  if ← fitsIn word.length then
    if ← literalLoop word 0 then
      advance word.length
      return true
    else return false
  else return false

/-! ## Numbers -/

/-- The code units of a number, as bytes. -/
def ascii (text : Units) : ByteCodec.Bytes := text.map fun c => UInt8.ofNat c.toNat

/-- `parseFloat` of the AssemblyScript library, on a text that is a number: the double next to it. -/
def parseFloat (text : Units) : UInt64 :=
  let (neg, s) := Numbers.readSign (ascii text)
  match Numbers.readMantissa Regex.isDigit s with
  | some (whole, frac, rest) =>
    let (num, den) := Numbers.scaled (Numbers.digits (whole ++ frac)) 10 (Numbers.readExponent 101 rest - frac.length)
    Numbers.withSign neg (Numbers.roundRatio num den)
  | none => 0x7ff8000000000000

def skipOne (f : UInt16 → Bool) : Parser Unit := do
  if ← looksAt f then advance 1
  else return ()

/-- Digits, at least one (`:311-319`, `:323-331`, `:342-350`). -/
def someDigits : Parser Unit := do
  if ← skip isDigit then return ()
  else refuse

def fraction : Parser Unit := do
  if ← looksAt (· = 0x2e) then
    advance 1
    someDigits
  else return ()

def exponent : Parser Unit := do
  if ← looksAt (fun c => c = 0x65 || c = 0x45) then
    advance 1
    skipOne (fun c => c = 0x2b || c = 0x2d)
    someDigits
  else return ()

def substring (start stop : Nat) : Parser Units := fun p => .ok ((p.data.drop start).take (stop - start), p)

/-- The part of `parseNumber` that passes over the number. -/
def numberText : Parser Unit := do
  skipOne (· = 0x2d)
  someDigits
  fraction
  exponent

/-- `parseNumber` (`:308`). -/
def parseNumber : Parser JsonValue := do
  let start ← pos
  numberText
  let stop ← pos
  let text ← substring start stop
  return .number (parseFloat text)

/-! ## Strings -/

/-- The four digits of `\u`, from the `i`-th character on (`:384-392`). -/
def hexLoop : Nat → Nat → Nat → Parser Nat
  | 0, _, code => return code
  | n + 1, i, code => do
    let h ← charCodeAt i
    match hexValue h with
    | some d => hexLoop n (i + 1) (code * 16 + d)
    | none => refuse

/-- What stands behind `\u`: four characters that are there. -/
def unicodeUnit : Parser UInt16 := do
  if ← fitsIn 5 then
    let code ← hexLoop 4 1 0
    advance 4
    return UInt16.ofNat code
  else refuse

/-- What stands behind a backslash. -/
def escape : Parser UInt16 := do
  if ← atEnd then refuse
  else
    let e ← charCodeAt 0
    match unescape e with
    | some c =>
      advance 1
      return c
    | none =>
      if e = 0x75 then
        let c ← unicodeUnit
        advance 1
        return c
      else refuse

/-- The loop of `parseString`, with what has been read of it. -/
def stringLoop : Nat → Units → Parser Units
  | 0, _ => Reading.unfinished
  | n + 1, out => do
    if ← atEnd then refuse
    else
      let c ← charCodeAt 0
      if c = 0x22 then
        advance 1
        return out
      else if c = 0x5c then
        advance 1
        let e ← escape
        stringLoop n (out ++ [e])
      else
        advance 1
        stringLoop n (out ++ [c])

/-- `parseString` (`:356`), in front of a quotation mark. -/
def parseString : Parser Units := do
  advance 1
  let n ← steps
  stringLoop n []

/-! ## Values -/

mutual

/-- `parseValue` (`:282`). -/
def parseValue : Nat → Parser JsonValue
  | 0 => Reading.unfinished
  | n + 1 => do
    skipWs
    if ← atEnd then refuse
    else
      let c ← charCodeAt 0
      if c = 0x7b then parseObject n
      else if c = 0x5b then parseArray n
      else if c = 0x22 then JsonValue.string <$> parseString
      else if c = 0x74 then
        if ← literal trueText then return .bool true
        else refuse
      else if c = 0x66 then
        if ← literal falseText then return .bool false
        else refuse
      else if c = 0x6e then
        if ← literal nullText then return .null
        else refuse
      else parseNumber

/-- `parseArray` (`:407`). -/
def parseArray : Nat → Parser JsonValue
  | 0 => Reading.unfinished
  | n + 1 => do
    advance 1
    skipWs
    if ← looksAt (· = 0x5d) then
      advance 1
      return .array []
    else elementsLoop n (.array [])

/-- The loop of `parseArray`. -/
def elementsLoop : Nat → JsonValue → Parser JsonValue
  | 0, _ => Reading.unfinished
  | n + 1, arr => do
    let v ← parseValue n
    skipWs
    if ← atEnd then refuse
    else
      let c ← charCodeAt 0
      if c = 0x2c then
        advance 1
        elementsLoop n (arr.push v)
      else if c = 0x5d then
        advance 1
        return arr.push v
      else refuse

/-- `parseObject` (`:436`). -/
def parseObject : Nat → Parser JsonValue
  | 0 => Reading.unfinished
  | n + 1 => do
    advance 1
    skipWs
    if ← looksAt (· = 0x7d) then
      advance 1
      return .object []
    else membersLoop n (.object [])

/-- The loop of `parseObject`. -/
def membersLoop : Nat → JsonValue → Parser JsonValue
  | 0, _ => Reading.unfinished
  | n + 1, obj => do
    skipWs
    if ← looksAt (· = 0x22) then
      let key ← parseString
      skipWs
      if ← looksAt (· = 0x3a) then
        advance 1
        let v ← parseValue n
        skipWs
        if ← atEnd then refuse
        else
          let c ← charCodeAt 0
          if c = 0x2c then
            advance 1
            membersLoop n (obj.set key v)
          else if c = 0x7d then
            advance 1
            return obj.set key v
          else refuse
      else refuse
    else refuse

end

end JsonParser

/-- The steps of `tryParse` behind its constructor. -/
def parseText (n : Nat) : Parser JsonValue := do
  let v ← JsonParser.parseValue n
  JsonParser.skipWs
  if ← JsonParser.atEnd then return v
  else JsonParser.refuse

/-- `JsonValue.tryParse` (`:247`), with three steps for each character. -/
def tryParse (text : Units) : Except (Failure Unit) JsonValue := Prod.fst <$> parseText (3 * text.length + 3) ⟨text, 0⟩

namespace JsonParser

/-! ## What each part does with what stands at the position -/

section
variable {α : Type} {s t w : Units} {c d : UInt16} {f : UInt16 → Bool}

theorem reads_atEnd (s : Units) : Reads atEnd s s.isEmpty s := by
  refine ⟨[], rfl, fun before => ?_⟩
  rw [List.append_nil]
  cases s <;> simp [atEnd]

theorem reads_charCodeAt {i : Nat} (h : s[i]? = some c) : Reads (charCodeAt i) s c s := by
  refine ⟨[], rfl, fun before => ?_⟩
  have hget : (before ++ s)[before.length + i]? = some c := by
    rw [List.getElem?_append_right (Nat.le_add_right _ _), Nat.add_sub_cancel_left, h]
  rw [List.append_nil, charCodeAt, element, hget]

theorem reads_advance_one (c : UInt16) (t : Units) : Reads (advance 1 : Parser Unit) (c :: t) () t := reads_advance [c] t

theorem rejects_refuse (s : Units) : Rejects (refuse : Parser α) s := rejects_throw () s

theorem reads_looksAt (f : UInt16 → Bool) (s : Units) : Reads (looksAt f) s (s.head?.any f) s := by
  refine (reads_atEnd s).bind ?_
  cases s with
  | nil => exact reads_pure _ _
  | cons c s => exact (reads_charCodeAt rfl).bind (reads_pure _ _)

/-- The text does not go on with a character of the kind. -/
def Stops (f : UInt16 → Bool) (t : Units) : Prop := t.head?.any f = false

theorem stops_nil (f : UInt16 → Bool) : Stops f [] := rfl

theorem stops_cons : Stops f (c :: t) ↔ f c = false := by simp [Stops]

theorem exists_split (f : UInt16 → Bool) (s : Units) : ∃ w t, s = w ++ t ∧ (∀ c ∈ w, f c = true) ∧ Stops f t := by
  refine ⟨s.takeWhile f, s.dropWhile f, List.takeWhile_append_dropWhile.symm, ?_, ?_⟩
  · exact List.all_eq_true.1 List.all_takeWhile
  · have hhead := List.head?_dropWhile_not f s
    rw [Stops]
    cases hd : (s.dropWhile f).head? with
    | none => rfl
    | some c =>
      rw [hd] at hhead
      exact hhead

theorem reads_skipLoop (hw : ∀ c ∈ w, f c = true) (ht : Stops f t) {n : Nat} (hn : w.length < n) (seen : Bool) :
    Reads (skipLoop f n seen) (w ++ t) (seen || !w.isEmpty) t := by
  induction w generalizing n seen with
  | nil =>
    cases n with
    | zero => cases hn
    | succ n =>
      have hlook := reads_looksAt f t
      rw [ht] at hlook
      rw [List.nil_append, List.isEmpty_nil, Bool.not_true, Bool.or_false]
      exact hlook.bind (reads_pure seen t)
  | cons c w ih =>
    cases n with
    | zero => cases hn
    | succ n =>
      have hlook := reads_looksAt f (c :: (w ++ t))
      rw [List.head?_cons, Option.any_some, hw c List.mem_cons_self] at hlook
      have hrest := ih (fun d hd => hw d (List.mem_cons_of_mem _ hd)) (Nat.lt_of_succ_lt_succ hn) true
      rw [List.isEmpty_cons, Bool.not_false, Bool.or_true]
      rw [Bool.true_or] at hrest
      exact hlook.bind ((reads_advance_one c _).bind hrest)

/-- The number of steps is that of the whole text, and enough for what is left of it. -/
theorem reads_steps {g : Nat → Parser α} {a : α} (h : ∀ n, s.length < n → Reads (g n) s a t) : Reads (steps >>= g) s a t := by
  obtain ⟨used, rfl, -⟩ := h (s.length + 1) (Nat.lt_succ_self _)
  refine ⟨used, rfl, fun before => ?_⟩
  obtain ⟨used', hused, hrun⟩ := h ((before ++ (used ++ t)).length + 1) (by simp only [List.length_append]; omega)
  cases List.append_cancel_right hused
  exact hrun before

theorem rejects_steps {g : Nat → Parser α} (h : ∀ n, s.length < n → Rejects (g n) s) : Rejects (steps >>= g) s := by
  refine ⟨(), fun before => ?_⟩
  obtain ⟨what, hrun⟩ := h ((before ++ s).length + 1) (by rw [List.length_append]; omega)
  exact hrun before

theorem reads_skip (hw : ∀ c ∈ w, f c = true) (ht : Stops f t) : Reads (skip f) (w ++ t) (!w.isEmpty) t :=
  reads_steps fun n hn => reads_skipLoop hw ht (by rw [List.length_append] at hn; omega) false

theorem reads_skipWs (hw : Ws w) (ht : Stops isWs t) : Reads skipWs (w ++ t) () t := (reads_skip hw ht).map _

theorem reads_skipOne (h : f c = true) (t : Units) : Reads (skipOne f) (c :: t) () t := by
  have hlook := reads_looksAt f (c :: t)
  rw [List.head?_cons, Option.any_some, h] at hlook
  exact hlook.bind (reads_advance_one c t)

theorem reads_skipOne_none (h : Stops f t) : Reads (skipOne f) t () t := by
  have hlook := reads_looksAt f t
  rw [h] at hlook
  exact hlook.bind (reads_pure () t)

/-! ## Literals -/

theorem reads_literalLoop (word : Units) (hlen : w.length + word.length ≤ s.length) (hw : s.take w.length = w) :
    Reads (literalLoop word w.length) s (decide (s.take (w.length + word.length) = w ++ word)) s := by
  induction word generalizing w with
  | nil =>
    have hall : decide (s.take (w.length + 0) = w ++ []) = true := by simpa using hw
    rw [List.length_nil, hall]
    exact reads_pure true s
  | cons c word ih =>
    rw [List.length_cons] at hlen
    have hlt : w.length < s.length := by omega
    have htake : s.take (w.length + 1) = w ++ [s[w.length]] := by
      rw [List.take_succ_eq_append_getElem hlt, hw]
    refine (reads_charCodeAt (List.getElem?_eq_getElem hlt)).bind ?_
    by_cases hc : s[w.length] = c
    · rw [if_neg (by simpa using hc)]
      have hrest := ih (w := w ++ [c]) (by rw [List.length_append, List.length_singleton]; omega)
        (by rw [List.length_append, List.length_singleton, htake, hc])
      rw [List.length_append, List.length_singleton, List.append_assoc, List.singleton_append, Nat.add_right_comm,
        Nat.add_assoc] at hrest
      exact hrest
    · rw [if_pos hc]
      have hdiffer : decide (s.take (w.length + (c :: word).length) = w ++ c :: word) = false := by
        refine decide_eq_false fun heq => hc ?_
        have hget := congrArg (fun l => l[w.length]?) heq
        simp only [List.getElem?_append_right (Nat.le_refl _), Nat.sub_self, List.getElem?_cons_zero] at hget
        rw [List.getElem?_take_of_lt (by rw [List.length_cons]; omega), List.getElem?_eq_getElem hlt] at hget
        exact Option.some.inj hget
      rw [hdiffer]
      exact reads_pure false s

theorem reads_fitsIn (n : Nat) (s : Units) : Reads (fitsIn n) s (decide (n ≤ s.length)) s := by
  refine ⟨[], rfl, fun before => ?_⟩
  rw [List.append_nil]
  simp [fitsIn]

/-- A word is read where it stands, and where it does not the position stays. -/
theorem reads_literal (word t : Units) : Reads (literal word) (word ++ t) true t := by
  have hloop := @reads_literalLoop (word ++ t) [] word (by simp) rfl
  rw [List.length_nil, Nat.zero_add, List.take_left, List.nil_append, decide_eq_true rfl] at hloop
  refine (reads_fitsIn word.length _).bind ?_
  rw [decide_eq_true (by rw [List.length_append]; omega)]
  exact hloop.bind ((reads_advance word t).bind (reads_pure true t))

theorem reads_literal_other {word : Units} (h : ¬ ∃ t, s = word ++ t) : Reads (literal word) s false s := by
  refine (reads_fitsIn word.length s).bind ?_
  by_cases hlen : word.length ≤ s.length
  · have hloop := @reads_literalLoop s [] word (by simpa using hlen) rfl
    have hdiffer : decide (s.take word.length = word) = false := by
      refine decide_eq_false fun heq => h ⟨s.drop word.length, ?_⟩
      have hsplit := List.take_append_drop word.length s
      rw [heq] at hsplit
      exact hsplit.symm
    rw [List.length_nil, Nat.zero_add, List.nil_append, hdiffer] at hloop
    rw [decide_eq_true hlen]
    exact hloop.bind (reads_pure false s)
  · rw [decide_eq_false hlen]
    exact reads_pure false s

end

end JsonParser

end OriginDB.Sdk
