import OriginDB.Lib.Regex
/-!
# Numbers in text: `std::stod`, `std::stoll`, `std::to_string`

A double is its bit pattern. `roundRatio` is the nearest one to a ratio of naturals, ties to even, which is
what a conversion from an integer and a correctly rounding `strtod` both give. `stod` and `stoll` read
the longest number at the front of the text and ignore what follows; `none` is an exception.
-/
namespace Numbers

open ByteCodec Regex

/-! ## Doubles -/

def isNaN (bits : UInt64) : Bool := (bits &&& 0x7fffffffffffffff) > 0x7ff0000000000000

/-- The place of a double among the finite ones and the infinities; both zeros are at `0`. -/
def rank (bits : UInt64) : Int :=
  if bits >>> 63 = 1 then -((bits &&& 0x7fffffffffffffff).toNat : Int) else (bits &&& 0x7fffffffffffffff).toNat

/-- `a == b`. -/
def doubleEq (a b : UInt64) : Bool := !isNaN a && !isNaN b && rank a = rank b

/-- `a < b`. -/
def doubleLt (a b : UInt64) : Bool := !isNaN a && !isNaN b && rank a < rank b

/-- `num / den / 2 ^ e`, rounded to the nearest natural, ties to even, and whether that changed it. -/
def roundAt (num den : Nat) (e : Int) : Nat × Bool :=
  let n := num * 2 ^ (-e).toNat
  let d := den * 2 ^ e.toNat
  let q := n / d
  let r := n % d
  (if d < 2 * r ∨ (2 * r = d ∧ q % 2 = 1) then q + 1 else q, r ≠ 0)

/-- The exponent that leaves 53 bits of `num / den`. -/
def exponentOf (num den : Nat) : Int :=
  let e := (num.log2 : Int) - den.log2 - 53
  if num * 2 ^ (-e).toNat / (den * 2 ^ e.toNat) < 2 ^ 53 then e else e + 1

/-- The bits of the double nearest to `num / den`, infinity included. -/
def roundRatio (num den : Nat) : UInt64 :=
  if num = 0 then 0
  else
    let e := max (exponentOf num den) (-1074)
    let bits := ((e + 1074) * 2 ^ 52 + (roundAt num den e).1).toNat
    if 0x7ff0000000000000 ≤ bits then 0x7ff0000000000000 else UInt64.ofNat bits

/-- The result is inexact and would be below the normal doubles even with a wider exponent. -/
def underflows (num den : Nat) : Bool :=
  let e := exponentOf num den
  num ≠ 0 && (roundAt num den (max e (-1074))).2 && (e < -1075 || (e = -1075 && (roundAt num den e).1 < 2 ^ 53))

def withSign (neg : Bool) (bits : UInt64) : UInt64 := if neg then bits ||| 0x8000000000000000 else bits

/-- An integer converted to `double`. -/
def ofInt (v : Int) : UInt64 := withSign (v < 0) (roundRatio v.natAbs 1)

/-! ## Reading -/

def digits (s : Bytes) : Nat := s.foldl (fun n c => n * 10 + (c.toNat - 48)) 0

def isHexDigit (c : UInt8) : Bool := isDigit c || (97 ≤ toLower c && toLower c ≤ 102)

def hexValue (c : UInt8) : Nat := if isDigit c then c.toNat - 48 else (toLower c).toNat - 87

def hexDigits (s : Bytes) : Nat := s.foldl (fun n c => n * 16 + hexValue c) 0

/-- An optional sign, and the rest. -/
def readSign : Bytes → Bool × Bytes
  | 43 :: s => (false, s)
  | 45 :: s => (true, s)
  | s => (false, s)

/-- The digits before and after the point, and the rest; `none` when there are none at all. -/
def readMantissa (digit : UInt8 → Bool) (s : Bytes) : Option (Bytes × Bytes × Bytes) :=
  let whole := s.takeWhile digit
  match s.dropWhile digit with
  | 46 :: rest =>
    let frac := rest.takeWhile digit
    if whole = [] ∧ frac = [] then none else some (whole, frac, rest.dropWhile digit)
  | rest => if whole = [] then none else some (whole, [], rest)

/-- The exponent after `mark`, if one is written out. -/
def readExponent (mark : UInt8) (s : Bytes) : Int :=
  match s with
  | [] => 0
  | c :: s =>
    if toLower c = mark then
      let (neg, s) := readSign s
      let ds := s.takeWhile isDigit
      if neg then -(digits ds : Int) else digits ds
    else 0

/-- `m * b ^ e` as a ratio. -/
def scaled (m b : Nat) (e : Int) : Nat × Nat := (m * b ^ e.toNat, b ^ (-e).toNat)

/-- The ratio a decimal or hexadecimal floating-point text stands for. -/
def readRatio (s : Bytes) : Option (Nat × Nat) :=
  let hex := match s with
    | 48 :: x :: rest => if toLower x = 120 then readMantissa isHexDigit rest else none
    | _ => none
  match hex with
  | some (whole, frac, rest) =>
    some (scaled (hexDigits (whole ++ frac)) 2 (readExponent 112 rest - 4 * frac.length))
  | none => (readMantissa isDigit s).map fun (whole, frac, rest) =>
      scaled (digits (whole ++ frac)) 10 (readExponent 101 rest - frac.length)

def infText : Bytes := [105, 110, 102]

def nanText : Bytes := [110, 97, 110]

/-- `std::stod`: out of range is an exception too. -/
def stod (s : Bytes) : Option UInt64 :=
  let (neg, s) := readSign (s.dropWhile isSpace)
  if (s.take 3).map toLower = infText then some (withSign neg 0x7ff0000000000000)
  else if (s.take 3).map toLower = nanText then some (withSign neg 0x7ff8000000000000)
  else
    match readRatio s with
    | none => none
    | some (num, den) =>
      let bits := roundRatio num den
      if bits = 0x7ff0000000000000 || underflows num den then none else some (withSign neg bits)

/-- `std::stoll`. -/
def stoll (s : Bytes) : Option Int64 :=
  let (neg, s) := readSign (s.dropWhile isSpace)
  let ds := s.takeWhile isDigit
  if ds = [] then none
  else
    let v : Int := if neg then -(digits ds : Int) else digits ds
    if -(2 ^ 63) ≤ v ∧ v < 2 ^ 63 then some (Int64.ofInt v) else none

/-! ## Printing -/

/-- `std::to_string(long long)`. -/
def intText (v : Int) : Bytes := (toString v).toUTF8.data.toList

def padLeft (n : Nat) (s : Bytes) : Bytes := List.replicate (n - s.length) 48 ++ s

/-- `std::to_string(double)`: six digits behind the point. -/
def doubleText (bits : UInt64) : Bytes :=
  let sign : Bytes := if bits >>> 63 = 1 then [45] else []
  let exp := ((bits >>> 52) &&& 0x7ff).toNat
  let man := (bits &&& 0xfffffffffffff).toNat
  if exp = 0x7ff then sign ++ if man = 0 then infText else nanText
  else
    let m := if exp = 0 then man else man + 2 ^ 52
    let e : Int := if exp = 0 then -1074 else exp - 1075
    -- in millionths
    let v := (roundAt (m * 10 ^ 6) 1 (-e)).1
    sign ++ intText (v / 10 ^ 6) ++ [46] ++ padLeft 6 (intText (v % 10 ^ 6 : Nat))

end Numbers
