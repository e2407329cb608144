import OriginDB.Lib.Doubles
import OriginDB.Lib.JsonGrammar
/-!
# `JsonValue` of the guest SDK (`src/sdk/typescript/assembly/index.ts:48-243`)

A string is its UTF-16 code units, a number the bits of an `f64`. `keys` and `map` of an object are its members in the order
of `keys`, in which `set` puts a new key last. `toString` of a number that is no integer is the one of the AssemblyScript
library (`Runtime.f64ToString`). Values that contain themselves are left out, and so are the accessors.
-/
namespace OriginDB.Sdk

open JsonGrammar

inductive JsonValue where
  | null
  | bool (boolVal : Bool)
  | number (numVal : UInt64)
  | string (strVal : Units)
  | array (arr : List JsonValue)
  | object (members : List (Units × JsonValue))

namespace JsonValue

/-! ## Builders -/

def setMember (key : Units) (value : JsonValue) : List (Units × JsonValue) → List (Units × JsonValue)
  | [] => [(key, value)]
  | (k, v) :: members => if k = key then (k, value) :: members else (k, v) :: setMember key value members

/-- `set` (`:153`): on anything but an object nothing happens. -/
def set (v : JsonValue) (key : Units) (value : JsonValue) : JsonValue :=
  match v with
  | object members => object (setMember key value members)
  | v => v

/-- `push` (`:177`). -/
def push (v value : JsonValue) : JsonValue :=
  match v with
  | array arr => array (arr ++ [value])
  | v => v

/-! ## Printing -/

/-- The parts of the AssemblyScript library that print numbers. -/
structure Runtime where
  f64ToString : UInt64 → Units

/-- The code units of a text of characters below 65536. -/
def units (s : List Char) : Units := s.map fun c => UInt16.ofNat c.toNat

/-- `i64.toString()`. -/
def i64ToString (v : Int) : Units := (if v < 0 then [0x2d] else []) ++ units (Nat.toDigits 10 v.natAbs)

/-- `n == Math.trunc(n) && Math.abs(n) < 9007199254740992.0`, for a finite `n`. -/
def isInteger (n : UInt64) : Bool :=
  Numbers.doubleEq n (Numbers.ofInt (JsonDoc.Json.truncDouble n)) && Numbers.doubleLt (n &&& 0x7fffffffffffffff) 0x4340000000000000

/-- The case of numbers in `toString` (`:190-198`). -/
def numberToString (rt : Runtime) (n : UInt64) : Units :=
  if JsonDoc.Json.nonFinite n then nullText
  else if isInteger n then i64ToString (JsonDoc.Json.truncDouble n)
  else rt.f64ToString n

/-- What `quote` puts out for one code unit (`:226-239`). -/
def quoteUnit (c : UInt16) : Units :=
  if c = 0x22 then [0x5c, 0x22]
  else if c = 0x5c then [0x5c, 0x5c]
  else if c = 0x08 then [0x5c, 0x62]
  else if c = 0x0c then [0x5c, 0x66]
  else if c = 0x0a then [0x5c, 0x6e]
  else if c = 0x0d then [0x5c, 0x72]
  else if c = 0x09 then [0x5c, 0x74]
  else if c < 0x20 then
    let hex := units (Nat.toDigits 16 c.toNat)
    [0x5c, 0x75, 0x30, 0x30, 0x30, 0x30].take (6 - hex.length) ++ hex
  else [c]

/-- `quote` (`:223`). -/
def quote (s : Units) : Units := [0x22] ++ s.flatMap quoteUnit ++ [0x22]

mutual

/-- `toString` (`:184`). -/
def toString (rt : Runtime) : JsonValue → Units
  | null => nullText
  | bool b => if b then trueText else falseText
  | number n => numberToString rt n
  | string s => quote s
  | array arr => [0x5b] ++ elementsToString rt arr ++ [0x5d]
  | object members => [0x7b] ++ membersToString rt members ++ [0x7d]

/-- The loop over `arr` (`:202-206`): a comma in front of each but the first. -/
def elementsToString (rt : Runtime) : List JsonValue → Units
  | [] => []
  | [v] => toString rt v
  | v :: w :: arr => toString rt v ++ [0x2c] ++ elementsToString rt (w :: arr)

/-- The loop over `keys` (`:210-216`). -/
def membersToString (rt : Runtime) : List (Units × JsonValue) → Units
  | [] => []
  | [(key, v)] => quote key ++ [0x3a] ++ toString rt v
  | (key, v) :: q :: members => quote key ++ [0x3a] ++ toString rt v ++ [0x2c] ++ membersToString rt (q :: members)

end

end JsonValue

end OriginDB.Sdk
