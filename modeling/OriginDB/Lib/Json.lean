import Mathlib.Tactic.Common
import OriginDB.Lib.Bytes
/-!
# JSON values and what printing and parsing keep of them

Values as a C++ JSON library holds them: an object is its entries in key order, a number is an integer
or a double given by its bits, and a binary value exists in memory only. `reparsed` is what printing
and parsing again makes of a value: a number that is not finite becomes `null` and a binary value an
object with the fields `bytes` and `subtype`. Text itself is not modelled: `JsonLib` is any printer
and parser that agree in this way.

The accessors follow the library's: `none` is an exception (or an assertion).
-/
namespace JsonDoc

open ByteCodec

inductive Json where
  | null
  | bool (b : Bool)
  | int (v : Int)
  | float (bits : UInt64)
  | string (s : Bytes)
  | array (l : List Json)
  | object (m : List (Bytes × Json))
  | binary (b : Bytes)

/-- The bytes of a key. -/
def str (s : String) : Bytes := s.toUTF8.data.toList

theorem str_injective : Function.Injective str := by
  intro a b h
  have hdata : a.toUTF8.data = b.toUTF8.data := Array.toList_inj.1 h
  exact String.toByteArray_inj.1 (ByteArray.ext hdata)

/-- Numbers are told apart by their decimal digits. -/
theorem str_toString_injective : Function.Injective fun n : Nat => str (toString n) := by
  intro a b h
  have hdigits := congrArg String.toList (str_injective h)
  simp only [Nat.toString_eq_repr, Nat.toList_repr] at hdigits
  rw [← @Nat.ofDigitChars_ten_toDigits a, hdigits, Nat.ofDigitChars_ten_toDigits]

namespace Json

/-! ## Equality is decidable -/

mutual

def beq : Json → Json → Bool
  | .null, .null => true
  | .bool a, .bool b => a = b
  | .int a, .int b => a = b
  | .float a, .float b => a = b
  | .string a, .string b => a = b
  | .array a, .array b => beqList a b
  | .object a, .object b => beqObject a b
  | .binary a, .binary b => a = b
  | _, _ => false

def beqList : List Json → List Json → Bool
  | [], [] => true
  | a :: as, b :: bs => beq a b && beqList as bs
  | _, _ => false

def beqObject : List (Bytes × Json) → List (Bytes × Json) → Bool
  | [], [] => true
  | (k, a) :: as, (k', b) :: bs => decide (k = k') && beq a b && beqObject as bs
  | _, _ => false

end

mutual

theorem beq_iff : ∀ a b : Json, beq a b = true ↔ a = b
  | a, .null => by cases a <;> simp [beq]
  | a, .bool _ => by cases a <;> simp [beq]
  | a, .int _ => by cases a <;> simp [beq]
  | a, .float _ => by cases a <;> simp [beq]
  | a, .string _ => by cases a <;> simp [beq]
  | a, .array bs => by
    cases a with
    | array as => simp [beq, beqList_iff as bs]
    | _ => simp [beq]
  | a, .object bs => by
    cases a with
    | object as => simp [beq, beqObject_iff as bs]
    | _ => simp [beq]
  | a, .binary _ => by cases a <;> simp [beq]

theorem beqList_iff : ∀ as bs : List Json, beqList as bs = true ↔ as = bs
  | [], [] => by simp [beqList]
  | [], _ :: _ => by simp [beqList]
  | _ :: _, [] => by simp [beqList]
  | a :: as, b :: bs => by simp [beqList, beq_iff a b, beqList_iff as bs]

theorem beqObject_iff : ∀ as bs : List (Bytes × Json), beqObject as bs = true ↔ as = bs
  | [], [] => by simp [beqObject]
  | [], _ :: _ => by simp [beqObject]
  | _ :: _, [] => by simp [beqObject]
  | (k, a) :: as, (k', b) :: bs => by simp [beqObject, beq_iff a b, beqObject_iff as bs]

end

instance : DecidableEq Json := fun a b => decidable_of_iff _ (beq_iff a b)

/-! ## Printing and parsing again -/

/-- The bits of an infinity or a NaN. -/
def nonFinite (bits : UInt64) : Bool := bits &&& 0x7ff0000000000000 = 0x7ff0000000000000

mutual

def reparsed : Json → Json
  | .float bits => if nonFinite bits then .null else .float bits
  | .array l => .array (reparsedList l)
  | .object m => .object (reparsedObject m)
  | .binary b => .object [(str "bytes", .array (b.map fun x => .int x.toNat)), (str "subtype", .null)]
  | j => j

def reparsedList : List Json → List Json
  | [] => []
  | j :: l => reparsed j :: reparsedList l

def reparsedObject : List (Bytes × Json) → List (Bytes × Json)
  | [] => []
  | (k, j) :: l => (k, reparsed j) :: reparsedObject l

end

theorem reparsedList_eq (l : List Json) : reparsedList l = l.map reparsed := by
  induction l with
  | nil => rfl
  | cons j l ih => rw [reparsedList, ih, List.map_cons]

theorem reparsedObject_eq (m : List (Bytes × Json)) : reparsedObject m = m.map fun p => (p.1, reparsed p.2) := by
  induction m with
  | nil => rfl
  | cons p m ih =>
    obtain ⟨k, j⟩ := p
    rw [reparsedObject, ih, List.map_cons]

mutual

/-- What is printed and parsed stays the same from then on. -/
theorem reparsed_reparsed : ∀ j : Json, j.reparsed.reparsed = j.reparsed
  | .null => rfl
  | .bool _ => rfl
  | .int _ => rfl
  | .float bits => by
    rw [reparsed]
    split
    · rfl
    · rename_i hfinite
      rw [reparsed, if_neg hfinite]
  | .string _ => rfl
  | .array l => by
    rw [reparsed, reparsed, reparsedList_reparsedList l]
  | .object m => by
    rw [reparsed, reparsed, reparsedObject_reparsedObject m]
  | .binary b => by
    have hints : (b.map fun x => Json.int x.toNat).map reparsed = b.map fun x => Json.int x.toNat := by
      rw [List.map_map]
      exact List.map_congr_left fun x _ => rfl
    simp only [reparsed, reparsedObject, reparsedList_eq, hints]

theorem reparsedList_reparsedList : ∀ l : List Json, reparsedList (reparsedList l) = reparsedList l
  | [] => rfl
  | j :: l => by
    rw [reparsedList, reparsedList, reparsed_reparsed j, reparsedList_reparsedList l]

theorem reparsedObject_reparsedObject : ∀ m : List (Bytes × Json), reparsedObject (reparsedObject m) = reparsedObject m
  | [] => rfl
  | (k, j) :: m => by
    rw [reparsedObject, reparsedObject, reparsed_reparsed j, reparsedObject_reparsedObject m]

end

/-! ## Access -/

/-- `j[k]` on a value that may be written to: a missing member is created as `null`. -/
def member (k : Bytes) : Json → Option Json
  | .object m => some ((m.lookup k).getD .null)
  | .null => some .null
  | _ => none

/-- `j[k]` on a constant value: a missing member is an assertion failure. -/
def constMember (k : Bytes) : Json → Option Json
  | .object m => m.lookup k
  | _ => none

/-- `j.value(k, default)`. -/
def valueOr (k : Bytes) (dflt : Bytes) : Json → Option Bytes
  | .object m =>
    match m.lookup k with
    | none => some dflt
    | some (.string s) => some s
    | some _ => none
  | _ => none

def contains (k : Bytes) : Json → Bool
  | .object m => (m.lookup k).isSome
  | _ => false

/-- What a range `for` over the value visits: a scalar is visited once, `null` not at all. -/
def elements : Json → List Json
  | .array l => l
  | .object m => m.map Prod.snd
  | .null => []
  | j => [j]

/-- What `items()` visits: the keys of an array are its indices, that of a scalar is empty. -/
def items : Json → List (Bytes × Json)
  | .array l => l.zipIdx.map fun (j, i) => (str (toString i), j)
  | .object m => m
  | .null => []
  | j => [([], j)]

def asString : Json → Option Bytes
  | .string s => some s
  | _ => none

def asBool : Json → Option Bool
  | .bool b => some b
  | _ => none

def asStrings : Json → Option (List Bytes)
  | .array l => l.mapM asString
  | _ => none

/-- A finite double cut off towards zero. -/
def truncDouble (bits : UInt64) : Int :=
  let exp := ((bits >>> 52) &&& 0x7ff).toNat
  let man := (bits &&& 0xfffffffffffff).toNat + if exp = 0 then 0 else 2 ^ 52
  let mag := if 1075 ≤ exp then man * 2 ^ (exp - 1075) else man / 2 ^ (1075 - exp)
  if bits >>> 63 = 1 then -(mag : Int) else mag

/-- `get_arithmetic_value` into an `int`: an integer wraps, a double is cut off (out of range it is
undefined, and `none` here). -/
def asInt32 : Json → Option Int32
  | .int v => some (Int32.ofInt v)
  | .float bits =>
    if nonFinite bits then none
    else if -(2 ^ 31) ≤ truncDouble bits ∧ truncDouble bits < 2 ^ 31 then some (Int32.ofInt (truncDouble bits))
    else none
  | _ => none

end Json

/-- A printer and a parser: `dump` throws on a string that is not UTF-8, and what it prints is parsed as
`reparsed` says. -/
structure JsonLib where
  dump : Json → Option Bytes
  parse : Bytes → Option Json
  parse_nil : parse [] = none
  parse_dump : ∀ j b, dump j = some b → parse b = some j.reparsed

theorem JsonLib.dump_ne_nil (J : JsonLib) {j : Json} : J.dump j ≠ some [] := by
  intro h
  have hp := J.parse_dump j [] h
  rw [J.parse_nil] at hp
  cases hp

/-! ## A library known on some documents only -/

def parseTable (docs : List (Json × Bytes)) (b : Bytes) : Option Json :=
  (docs.find? fun d => d.2 = b).map fun d => d.1.reparsed

/-- The library on the listed documents, each with the text it prints; any other is refused. -/
def JsonLib.ofTable (docs : List (Json × Bytes))
    (h : ∀ d ∈ docs, d.2 ≠ [] ∧ parseTable docs d.2 = some d.1.reparsed) : JsonLib where
  dump j := docs.lookup j
  parse := parseTable docs
  parse_nil := by
    have hnone : (docs.find? fun d => d.2 = []) = none := by
      rw [List.find?_eq_none]
      intro d hd
      simpa using (h d hd).1
    rw [parseTable, hnone]
    rfl
  parse_dump := by
    intro j b hj
    obtain ⟨l₁, l₂, rfl, -⟩ := List.lookup_eq_some_iff.1 hj
    exact (h (j, b) (by simp)).2

end JsonDoc
