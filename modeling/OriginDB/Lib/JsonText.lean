import Mathlib.Data.Countable.Basic
import Mathlib.Logic.Encodable.Basic
import Mathlib.Logic.Equiv.List
import Mathlib.Tactic.Common
import OriginDB.Lib.Json
/-!
# Which JSON documents can be printed

A printer throws on a string that is not UTF-8, and on nothing else; what it prints is UTF-8 (`Utf8Only`). Such a
library with given texts for given documents exists (`JsonLib.extended`): it prints every other document as the number
of it.
-/
namespace JsonDoc

open ByteCodec

/-! ## UTF-8 -/

def Utf8 (b : Bytes) : Prop := (ByteArray.mk b.toArray).IsValidUTF8

instance (b : Bytes) : Decidable (Utf8 b) := inferInstanceAs (Decidable (ByteArray.IsValidUTF8 _))

theorem utf8_str (s : String) : Utf8 (str s) := by
  have h : ByteArray.mk (str s).toArray = s.toByteArray := by
    apply ByteArray.ext
    simp [str]
  rw [Utf8, h]
  exact s.isValidUTF8

theorem utf8_nil : Utf8 [] := utf8_str ""

theorem Utf8.append {a b : Bytes} (ha : Utf8 a) (hb : Utf8 b) : Utf8 (a ++ b) := by
  have h : ByteArray.mk (a ++ b).toArray = ByteArray.mk a.toArray ++ ByteArray.mk b.toArray := by
    apply ByteArray.ext
    simp
  rw [Utf8, h]
  exact ByteArray.IsValidUTF8.append ha hb

theorem isValidUTF8_utf8Encode_append (l : List Char) (b : ByteArray) :
    (l.utf8Encode ++ b).IsValidUTF8 ↔ b.IsValidUTF8 := by
  induction l with
  | nil => simp
  | cons c l ih =>
    rw [List.utf8Encode_cons, ByteArray.append_assoc, ByteArray.isValidUTF8_utf8Encode_singleton_append_iff, ih]

/-- Characters in front of it change nothing. -/
theorem utf8_str_append (s : String) {b : Bytes} : Utf8 (str s ++ b) ↔ Utf8 b := by
  have h : ByteArray.mk (str s ++ b).toArray = s.toList.utf8Encode ++ ByteArray.mk b.toArray := by
    rw [String.utf8Encode_toList]
    apply ByteArray.ext
    simp [str]
  rw [Utf8, h, isValidUTF8_utf8Encode_append, Utf8]

namespace Json

mutual

/-- Every string of the document is UTF-8, its keys included. -/
def utf8 : Json → Bool
  | .string s => Utf8 s
  | .array l => utf8List l
  | .object m => utf8Object m
  | _ => true

def utf8List : List Json → Bool
  | [] => true
  | j :: l => utf8 j && utf8List l

def utf8Object : List (Bytes × Json) → Bool
  | [] => true
  | (k, j) :: l => decide (Utf8 k) && utf8 j && utf8Object l

end

theorem utf8List_iff {l : List Json} : utf8List l = true ↔ ∀ j ∈ l, j.utf8 = true := by
  induction l with
  | nil => simp [utf8List]
  | cons j l ih => simp [utf8List, ih]

theorem utf8Object_iff {m : List (Bytes × Json)} : utf8Object m = true ↔ ∀ p ∈ m, Utf8 p.1 ∧ p.2.utf8 = true := by
  induction m with
  | nil => simp [utf8Object]
  | cons p m ih =>
    obtain ⟨k, j⟩ := p
    simp [utf8Object, ih, and_assoc]

@[simp] theorem utf8_string {s : Bytes} : (Json.string s).utf8 = true ↔ Utf8 s := by simp [utf8]

@[simp] theorem utf8_null : Json.null.utf8 = true := rfl

@[simp] theorem utf8_bool (b : Bool) : (Json.bool b).utf8 = true := rfl

@[simp] theorem utf8_int (v : Int) : (Json.int v).utf8 = true := rfl

@[simp] theorem utf8_float (bits : UInt64) : (Json.float bits).utf8 = true := rfl

@[simp] theorem utf8_array {l : List Json} : (Json.array l).utf8 = true ↔ ∀ j ∈ l, j.utf8 = true := by
  rw [utf8, utf8List_iff]

@[simp] theorem utf8_object {m : List (Bytes × Json)} :
    (Json.object m).utf8 = true ↔ ∀ p ∈ m, Utf8 p.1 ∧ p.2.utf8 = true := by
  rw [utf8, utf8Object_iff]

end Json

namespace Json

mutual

/-- Printing and parsing again keeps the strings. -/
theorem utf8_reparsed : ∀ j : Json, j.utf8 = true → j.reparsed.utf8 = true
  | .null, _ => rfl
  | .bool _, _ => rfl
  | .int _, _ => rfl
  | .float bits, _ => by
    rw [reparsed]
    split <;> rfl
  | .string _, h => h
  | .array l, h => utf8List_reparsed l h
  | .object m, h => utf8Object_reparsed m h
  | .binary b, _ => by
    rw [reparsed, utf8_object]
    intro p hp
    simp only [List.mem_cons, List.not_mem_nil, or_false] at hp
    rcases hp with rfl | rfl
    · refine ⟨utf8_str _, ?_⟩
      rw [utf8_array]
      intro j hj
      obtain ⟨x, -, rfl⟩ := List.mem_map.1 hj
      rfl
    · exact ⟨utf8_str _, rfl⟩

theorem utf8List_reparsed : ∀ l : List Json, utf8List l = true → utf8List (reparsedList l) = true
  | [], _ => rfl
  | j :: l, h => by
    simp only [utf8List, Bool.and_eq_true] at h
    simp only [reparsedList, utf8List, Bool.and_eq_true]
    exact ⟨utf8_reparsed j h.1, utf8List_reparsed l h.2⟩

theorem utf8Object_reparsed : ∀ m : List (Bytes × Json), utf8Object m = true → utf8Object (reparsedObject m) = true
  | [], _ => rfl
  | (k, j) :: m, h => by
    simp only [utf8Object, Bool.and_eq_true] at h
    simp only [reparsedObject, utf8Object, Bool.and_eq_true]
    exact ⟨⟨h.1.1, utf8_reparsed j h.1.2⟩, utf8Object_reparsed m h.2⟩

end

theorem utf8_lookup {m : List (Bytes × Json)} {k : Bytes} {j : Json} (h : (Json.object m).utf8 = true)
    (hj : m.lookup k = some j) : j.utf8 = true := by
  obtain ⟨l₁, l₂, rfl, -⟩ := List.lookup_eq_some_iff.1 hj
  exact (utf8_object.1 h (k, j) (by simp)).2

theorem utf8_valueOr {k v : Bytes} {j : Json} (h : j.utf8 = true) (hv : j.valueOr k [] = some v) : Utf8 v := by
  unfold valueOr at hv
  split at hv
  · split at hv
    · cases hv
      exact utf8_nil
    · rename_i hs
      cases hv
      exact utf8_string.1 (utf8_lookup h hs)
    · cases hv
  · cases hv

theorem utf8_constMember {k : Bytes} {j v : Json} (h : j.utf8 = true) (hv : j.constMember k = some v) : v.utf8 = true := by
  unfold constMember at hv
  split at hv
  · exact utf8_lookup h hv
  · cases hv

end Json

/-- The library throws on text that is not UTF-8 only, and prints UTF-8. -/
structure JsonLib.Utf8Only (J : JsonLib) : Prop where
  dump_isSome : ∀ j : Json, (J.dump j).isSome ↔ j.utf8 = true
  utf8_dump : ∀ (j : Json) (b : Bytes), J.dump j = some b → Utf8 b

/-! ## A library for given texts -/

namespace Json

mutual

/-- Documents are numbered. -/
def number : Json → Nat
  | .null => Nat.pair 0 0
  | .bool b => Nat.pair 1 (Encodable.encode b)
  | .int v => Nat.pair 2 (Encodable.encode v)
  | .float bits => Nat.pair 3 bits.toNat
  | .string s => Nat.pair 4 (Encodable.encode (s.map UInt8.toNat))
  | .array l => Nat.pair 5 (numberList l)
  | .object m => Nat.pair 6 (numberObject m)
  | .binary b => Nat.pair 7 (Encodable.encode (b.map UInt8.toNat))

def numberList : List Json → Nat
  | [] => 0
  | j :: l => Nat.pair (number j) (numberList l) + 1

def numberObject : List (Bytes × Json) → Nat
  | [] => 0
  | (k, j) :: l => Nat.pair (Encodable.encode (k.map UInt8.toNat)) (Nat.pair (number j) (numberObject l)) + 1

end

theorem bytes_toNat_injective : Function.Injective fun b : Bytes => Encodable.encode (b.map UInt8.toNat) := by
  intro a b h
  exact List.map_injective_iff.2 (fun _ _ => UInt8.toNat_inj.1) (Encodable.encode_injective h)

mutual

theorem number_injective : ∀ a b : Json, number a = number b → a = b
  | a, .null => by cases a <;> simp [number, Nat.pair_eq_pair]
  | a, .bool _ => by cases a <;> simp [number, Nat.pair_eq_pair]
  | a, .int _ => by cases a <;> simp [number, Nat.pair_eq_pair]
  | a, .float _ => by cases a <;> simp [number, Nat.pair_eq_pair, UInt64.toNat_inj]
  | a, .string s => by
    cases a with
    | string t => simpa [number, Nat.pair_eq_pair] using fun h => bytes_toNat_injective h
    | _ => simp [number, Nat.pair_eq_pair]
  | a, .array bs => by
    cases a with
    | array as => simpa [number, Nat.pair_eq_pair] using numberList_injective as bs
    | _ => simp [number, Nat.pair_eq_pair]
  | a, .object bs => by
    cases a with
    | object as => simpa [number, Nat.pair_eq_pair] using numberObject_injective as bs
    | _ => simp [number, Nat.pair_eq_pair]
  | a, .binary s => by
    cases a with
    | binary t => simpa [number, Nat.pair_eq_pair] using fun h => bytes_toNat_injective h
    | _ => simp [number, Nat.pair_eq_pair]

theorem numberList_injective : ∀ as bs : List Json, numberList as = numberList bs → as = bs
  | [], [] => by simp
  | [], _ :: _ => by simp [numberList]
  | _ :: _, [] => by simp [numberList]
  | a :: as, b :: bs => by
    intro h
    simp only [numberList, Nat.add_right_cancel_iff, Nat.pair_eq_pair] at h
    rw [number_injective a b h.1, numberList_injective as bs h.2]

theorem numberObject_injective : ∀ as bs : List (Bytes × Json), numberObject as = numberObject bs → as = bs
  | [], [] => by simp
  | [], _ :: _ => by simp [numberObject]
  | _ :: _, [] => by simp [numberObject]
  | (k, a) :: as, (k', b) :: bs => by
    intro h
    simp only [numberObject, Nat.add_right_cancel_iff, Nat.pair_eq_pair] at h
    rw [bytes_toNat_injective h.1, number_injective a b h.2.1, numberObject_injective as bs h.2.2]

end

/-- The text of a document that is not listed: no JSON text begins so. -/
def numberText (j : Json) : Bytes := str "#" ++ str (toString j.number)

theorem head?_numberText (j : Json) : j.numberText.head? = some 35 := rfl

theorem numberText_injective : Function.Injective numberText := by
  intro a b h
  exact number_injective a b (str_toString_injective (List.append_cancel_left h))

theorem utf8_numberText (j : Json) : Utf8 j.numberText := (utf8_str _).append (utf8_str _)

end Json

open Classical in
/-- The document a `numberText` stands for. -/
noncomputable def parseNumber (b : Bytes) : Option Json :=
  if h : ∃ j : Json, j.numberText = b then some h.choose.reparsed else none

theorem parseNumber_numberText (j : Json) : parseNumber j.numberText = some j.reparsed := by
  have h : ∃ i : Json, i.numberText = j.numberText := ⟨j, rfl⟩
  rw [parseNumber, dif_pos h, Json.numberText_injective h.choose_spec]

/-- The library on the listed documents, and numbers for texts of all the others. -/
noncomputable def JsonLib.extended (docs : List (Json × Bytes))
    (h : ∀ d ∈ docs, d.2 ≠ [] ∧ d.2.head? ≠ some 35 ∧ parseTable docs d.2 = some d.1.reparsed) : JsonLib where
  dump j := if j.utf8 then some ((docs.lookup j).getD j.numberText) else none
  parse b := (parseTable docs b).or (parseNumber b)
  parse_nil := by
    have htable : parseTable docs [] = none := by
      rw [parseTable, List.find?_eq_none.2 fun d hd => by simpa using (h d hd).1]
      rfl
    rw [htable, Option.none_or, parseNumber, dif_neg]
    rintro ⟨j, hj⟩
    have hhead := j.head?_numberText
    rw [hj] at hhead
    cases hhead
  parse_dump := by
    intro j b hj
    split at hj
    · cases hj
      cases hdoc : docs.lookup j with
      | some text =>
        obtain ⟨l₁, l₂, rfl, -⟩ := List.lookup_eq_some_iff.1 hdoc
        rw [Option.getD_some, (h (j, text) (by simp)).2.2]
        rfl
      | none =>
        have htable : parseTable docs j.numberText = none := by
          rw [parseTable, List.find?_eq_none.2 fun d hd => ?_]
          · rfl
          · intro he
            exact (h d hd).2.1 (by rw [of_decide_eq_true he, j.head?_numberText])
        rw [Option.getD_none, htable, Option.none_or, parseNumber_numberText]
    · cases hj

theorem JsonLib.dump_extended {docs : List (Json × Bytes)} {j : Json} {text : Bytes}
    (h : ∀ d ∈ docs, d.2 ≠ [] ∧ d.2.head? ≠ some 35 ∧ parseTable docs d.2 = some d.1.reparsed)
    (hutf : j.utf8 = true) (hlookup : docs.lookup j = some text) : (JsonLib.extended docs h).dump j = some text := by
  simp only [JsonLib.extended, hutf, hlookup, if_true, Option.getD_some]

theorem JsonLib.parse_extended {docs : List (Json × Bytes)} {j : Json} {text : Bytes}
    (h : ∀ d ∈ docs, d.2 ≠ [] ∧ d.2.head? ≠ some 35 ∧ parseTable docs d.2 = some d.1.reparsed)
    (hparse : parseTable docs text = some j) : (JsonLib.extended docs h).parse text = some j := by
  simp only [JsonLib.extended, hparse, Option.some_or]

theorem JsonLib.utf8Only_extended {docs : List (Json × Bytes)}
    (h : ∀ d ∈ docs, d.2 ≠ [] ∧ d.2.head? ≠ some 35 ∧ parseTable docs d.2 = some d.1.reparsed)
    (htexts : ∀ d ∈ docs, Utf8 d.2) : (JsonLib.extended docs h).Utf8Only := by
  constructor
  · intro j
    simp [JsonLib.extended]
  · intro j b hj
    simp only [JsonLib.extended] at hj
    split at hj
    · cases hj
      cases hdoc : docs.lookup j with
      | some text =>
        obtain ⟨l₁, l₂, rfl, -⟩ := List.lookup_eq_some_iff.1 hdoc
        exact htexts (j, text) (by simp)
      | none => exact Json.utf8_numberText j
    · cases hj

/-! ## A library that reads UTF-8 only -/

/-- The library, refusing to parse what has a string that is not UTF-8. -/
def JsonLib.checked (J : JsonLib) (h : J.Utf8Only) : JsonLib where
  dump := J.dump
  parse b := (J.parse b).filter Json.utf8
  parse_nil := by
    rw [J.parse_nil]
    rfl
  parse_dump := by
    intro j b hj
    have hutf := (h.dump_isSome j).1 (by rw [hj]; rfl)
    rw [J.parse_dump j b hj, Option.filter_some, if_pos (j.utf8_reparsed hutf)]

theorem JsonLib.utf8Only_checked {J : JsonLib} (h : J.Utf8Only) : (J.checked h).Utf8Only := ⟨h.dump_isSome, h.utf8_dump⟩

theorem JsonLib.parse_checked {J : JsonLib} (h : J.Utf8Only) (b : Bytes) (j : Json) (hj : (J.checked h).parse b = some j) :
    j.utf8 = true := (Option.filter_eq_some_iff.1 hj).2

end JsonDoc
