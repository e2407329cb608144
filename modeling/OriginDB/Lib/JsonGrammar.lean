import Mathlib.Tactic.Common
/-!
# The grammar of JSON texts (RFC 8259)

The productions of the standard over UTF-16 code units: a character beyond the sixteen bits is two units, both of them
unescaped. `Derives false` is the standard. `Derives true` is the language that is laxer in two places: an integer part may
start with zeros, and a string may hold control characters that are not escaped.
-/
namespace JsonGrammar

abbrev Units := List UInt16

/-! ## White space and structural characters -/

def isWs (c : UInt16) : Bool := c = 0x20 || c = 0x09 || c = 0x0a || c = 0x0d

def Ws (s : Units) : Prop := ∀ c ∈ s, isWs c = true

/-- A structural character with the white space around it: `begin-array`, `name-separator` and the others. -/
def Structural (c : UInt16) (s : Units) : Prop := ∃ w w', Ws w ∧ Ws w' ∧ s = w ++ c :: w'

theorem ws_nil : Ws [] := fun _ h => by cases h

theorem Ws.append {w w' : Units} (h : Ws w) (h' : Ws w') : Ws (w ++ w') := fun c hc =>
  (List.mem_append.1 hc).elim (h c) (h' c)

theorem structural_self (c : UInt16) : Structural c [c] := ⟨[], [], ws_nil, ws_nil, rfl⟩

/-! ## Numbers -/

def isDigit (c : UInt16) : Bool := 0x30 ≤ c && c ≤ 0x39

/-- `1*DIGIT`. -/
def Digits (s : Units) : Prop := s ≠ [] ∧ ∀ c ∈ s, isDigit c = true

/-- `int = zero / ( digit1-9 *DIGIT )`. -/
def IntPart (lax : Bool) (s : Units) : Prop :=
  s = [0x30] ∨ (∃ c ds, s = c :: ds ∧ 0x31 ≤ c ∧ c ≤ 0x39 ∧ ∀ d ∈ ds, isDigit d = true) ∨ (lax = true ∧ Digits s)

def Minus (s : Units) : Prop := s = [] ∨ s = [0x2d]

/-- `frac = decimal-point 1*DIGIT`, if there is one. -/
def Frac (s : Units) : Prop := s = [] ∨ ∃ ds, s = 0x2e :: ds ∧ Digits ds

/-- `exp = e [ minus / plus ] 1*DIGIT`, if there is one. -/
def Exp (s : Units) : Prop :=
  s = [] ∨ ∃ e sign ds, s = e :: (sign ++ ds) ∧ (e = 0x65 ∨ e = 0x45) ∧ (sign = [] ∨ sign = [0x2b] ∨ sign = [0x2d]) ∧ Digits ds

def Number (lax : Bool) (s : Units) : Prop :=
  ∃ minus int frac exp, Minus minus ∧ IntPart lax int ∧ Frac frac ∧ Exp exp ∧ s = minus ++ (int ++ (frac ++ exp))

theorem IntPart.digits {lax : Bool} {s : Units} (h : IntPart lax s) : Digits s := by
  obtain rfl | ⟨c, ds, rfl, hlow, hhigh, hds⟩ | ⟨-, h⟩ := h
  · exact ⟨by simp, by simp [isDigit]⟩
  · refine ⟨by simp, fun d hd => ?_⟩
    obtain rfl | hd := List.mem_cons.1 hd
    · have hlow' : (0x30 : UInt16) ≤ d := Nat.le_trans (by decide) hlow
      simp [isDigit, hlow', hhigh]
    · exact hds d hd
  · exact h

/-! ## Strings -/

/-- What the character after a backslash stands for. -/
def unescape (c : UInt16) : Option UInt16 :=
  if c = 0x22 then some 0x22
  else if c = 0x5c then some 0x5c
  else if c = 0x2f then some 0x2f
  else if c = 0x62 then some 0x08
  else if c = 0x66 then some 0x0c
  else if c = 0x6e then some 0x0a
  else if c = 0x72 then some 0x0d
  else if c = 0x74 then some 0x09
  else none

def hexValue (c : UInt16) : Option Nat :=
  if 0x30 ≤ c ∧ c ≤ 0x39 then some (c.toNat - 0x30)
  else if 0x61 ≤ c ∧ c ≤ 0x66 then some (c.toNat - 0x61 + 10)
  else if 0x41 ≤ c ∧ c ≤ 0x46 then some (c.toNat - 0x41 + 10)
  else none

/-- The code unit of four hexadecimal digits. -/
def hexUnit (a b c d : UInt16) : Option UInt16 := do
  let a ← hexValue a
  let b ← hexValue b
  let c ← hexValue c
  let d ← hexValue d
  return UInt16.ofNat (((a * 16 + b) * 16 + c) * 16 + d)

/-- `*char`, and the code units it stands for. -/
inductive Chars (lax : Bool) : Units → Units → Prop where
  | nil : Chars lax [] []
  | unescaped {c : UInt16} {s u : Units} (hquote : c ≠ 0x22) (hbackslash : c ≠ 0x5c) (hcontrol : 0x20 ≤ c ∨ lax = true)
      (h : Chars lax s u) : Chars lax (c :: s) (c :: u)
  | escaped {e c : UInt16} {s u : Units} (he : unescape e = some c) (h : Chars lax s u) : Chars lax (0x5c :: e :: s) (c :: u)
  | unicode {a b c d v : UInt16} {s u : Units} (hv : hexUnit a b c d = some v) (h : Chars lax s u) :
      Chars lax (0x5c :: 0x75 :: a :: b :: c :: d :: s) (v :: u)

/-- `string = quotation-mark *char quotation-mark`. -/
def Str (lax : Bool) (s u : Units) : Prop := ∃ body, Chars lax body u ∧ s = 0x22 :: (body ++ [0x22])

/-! ## Values -/

inductive Symbol where
  | value
  /-- `value *( value-separator value )`. -/
  | elements
  | member
  /-- `member *( value-separator member )`. -/
  | members

def nullText : Units := [0x6e, 0x75, 0x6c, 0x6c]

def trueText : Units := [0x74, 0x72, 0x75, 0x65]

def falseText : Units := [0x66, 0x61, 0x6c, 0x73, 0x65]

inductive Derives (lax : Bool) : Symbol → Units → Prop where
  | null : Derives lax .value nullText
  | true : Derives lax .value trueText
  | false : Derives lax .value falseText
  | number {s : Units} (h : Number lax s) : Derives lax .value s
  | string {s u : Units} (h : Str lax s u) : Derives lax .value s
  | emptyArray {b e : Units} (hb : Structural 0x5b b) (he : Structural 0x5d e) : Derives lax .value (b ++ e)
  | array {b s e : Units} (hb : Structural 0x5b b) (h : Derives lax .elements s) (he : Structural 0x5d e) :
      Derives lax .value (b ++ s ++ e)
  | emptyObject {b e : Units} (hb : Structural 0x7b b) (he : Structural 0x7d e) : Derives lax .value (b ++ e)
  | object {b s e : Units} (hb : Structural 0x7b b) (h : Derives lax .members s) (he : Structural 0x7d e) :
      Derives lax .value (b ++ s ++ e)
  | element {s : Units} (h : Derives lax .value s) : Derives lax .elements s
  | elements {s c s' : Units} (h : Derives lax .value s) (hc : Structural 0x2c c) (h' : Derives lax .elements s') :
      Derives lax .elements (s ++ c ++ s')
  | member {k u c s : Units} (hk : Str lax k u) (hc : Structural 0x3a c) (h : Derives lax .value s) :
      Derives lax .member (k ++ c ++ s)
  | lastMember {s : Units} (h : Derives lax .member s) : Derives lax .members s
  | members {s c s' : Units} (h : Derives lax .member s) (hc : Structural 0x2c c) (h' : Derives lax .members s') :
      Derives lax .members (s ++ c ++ s')

/-- `JSON-text = ws value ws`. -/
def Text (lax : Bool) (s : Units) : Prop := ∃ w v w', Ws w ∧ Derives lax .value v ∧ Ws w' ∧ s = w ++ v ++ w'

/-! ## The standard is the stricter language -/

theorem IntPart.lax {s : Units} (h : IntPart false s) : IntPart true s := by
  obtain h | h | ⟨hno, -⟩ := h
  · exact .inl h
  · exact .inr (.inl h)
  · cases hno

theorem Chars.lax {s u : Units} (h : Chars false s u) : Chars true s u := by
  induction h with
  | nil => exact .nil
  | unescaped hquote hbackslash _ _ ih => exact .unescaped hquote hbackslash (.inr rfl) ih
  | escaped he _ ih => exact .escaped he ih
  | unicode hv _ ih => exact .unicode hv ih

theorem Str.lax {s u : Units} (h : Str false s u) : Str true s u := by
  obtain ⟨body, h, rfl⟩ := h
  exact ⟨body, h.lax, rfl⟩

theorem Number.lax {s : Units} (h : Number false s) : Number true s := by
  obtain ⟨minus, int, frac, exp, hminus, hint, hfrac, hexp, rfl⟩ := h
  exact ⟨minus, int, frac, exp, hminus, hint.lax, hfrac, hexp, rfl⟩

theorem Derives.lax {x : Symbol} {s : Units} (h : Derives Bool.false x s) : Derives Bool.true x s := by
  induction h with
  | null => exact .null
  | true => exact .true
  | false => exact .false
  | number h => exact .number h.lax
  | string h => exact .string h.lax
  | emptyArray hb he => exact .emptyArray hb he
  | array hb _ he ih => exact .array hb ih he
  | emptyObject hb he => exact .emptyObject hb he
  | object hb _ he ih => exact .object hb ih he
  | element _ ih => exact .element ih
  | elements _ hc _ ih ih' => exact .elements ih hc ih'
  | member hk hc _ ih => exact .member hk.lax hc ih
  | lastMember _ ih => exact .lastMember ih
  | members _ hc _ ih ih' => exact .members ih hc ih'

theorem Text.lax {s : Units} (h : Text false s) : Text true s := by
  obtain ⟨w, v, w', hw, h, hw', rfl⟩ := h
  exact ⟨w, v, w', hw, h.lax, hw', rfl⟩

end JsonGrammar
