import OriginDB.Lib.Regex
/-!
# The text of a regular expression

What an ECMAScript engine makes of a text that is a sequence of characters, escaped characters and points, each of them
with or without a star. A text that goes beyond these has no reading here.
-/
namespace Regex

open ByteCodec Pattern

/-- The characters that stand for themselves only when they are escaped. -/
def isSyntax (c : UInt8) : Bool :=
  c = 94 || c = 36 || c = 92 || c = 46 || c = 42 || c = 43 || c = 63 || c = 40 || c = 41 || c = 91 || c = 93 || c = 123 ||
    c = 125 || c = 124

/-- One atom at the front, and what is behind it. -/
def readAtom : Bytes → Option ((UInt8 → Bool) × Bytes)
  | [] => none
  | [c] => if c = 46 then some (isDot, []) else if isSyntax c then none else some (fun x => x = c, [])
  | c :: d :: s =>
    if c = 46 then some (isDot, d :: s)
    else if c = 92 then if isSyntax d then some (fun x => x = d, s) else none
    else if isSyntax c then none else some (fun x => x = c, d :: s)

/-- Sequences of such atoms; so many of them at most. -/
def compileFrom : Nat → Bytes → Option Pattern
  | _, [] => some .empty
  | 0, _ :: _ => none
  | n + 1, c :: s =>
    match readAtom (c :: s) with
    | none => none
    | some (p, 42 :: 63 :: rest) => (compileFrom n rest).map (.seq (.many false p))
    | some (p, 42 :: rest) => (compileFrom n rest).map (.seq (.many true p))
    | some (p, rest) => (compileFrom n rest).map (.seq (.char p))

/-- The reading of a whole text. -/
def compile (s : Bytes) : Option Pattern := compileFrom s.length s

end Regex
