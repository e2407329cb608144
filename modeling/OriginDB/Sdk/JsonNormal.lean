import OriginDB.Sdk.JsonAccess
/-!
# What printing and parsing make of any value (`src/sdk/typescript/assembly/index.ts:184-254`)

The grammar of JSON has no infinity and no NaN, and `toString` goes by way of an `i64`, which has one zero. So a number that is
not finite comes back as `null`, and a negative zero without its sign (`printed`); every other value that a module can get hold
of comes back as it was, and from then on printing and parsing change nothing.
-/
namespace OriginDB.Sdk

open JsonDoc JsonGrammar JsonParser Numbers

namespace JsonValue

mutual

/-- The value that is read when the value has been printed. -/
def printed : JsonValue → JsonValue
  | number n =>
    if Json.nonFinite n then null else if isInteger n then number (ofInt (Json.truncDouble n)) else number n
  | array arr => array (printedElements arr)
  | object members => object (printedMembers members)
  | v => v

def printedElements : List JsonValue → List JsonValue
  | [] => []
  | v :: arr => printed v :: printedElements arr

def printedMembers : List (Units × JsonValue) → List (Units × JsonValue)
  | [] => []
  | (key, v) :: members => (key, printed v) :: printedMembers members

end

mutual

def numbers : JsonValue → List UInt64
  | number n => [n]
  | array arr => numbersOfElements arr
  | object members => numbersOfMembers members
  | _ => []

def numbersOfElements : List JsonValue → List UInt64
  | [] => []
  | v :: arr => numbers v ++ numbersOfElements arr

def numbersOfMembers : List (Units × JsonValue) → List UInt64
  | [] => []
  | (_, v) :: members => numbers v ++ numbersOfMembers members

end

theorem keys_printedMembers (members : List (Units × JsonValue)) : (printedMembers members).map Prod.fst = members.map Prod.fst := by
  induction members with
  | nil => rfl
  | cons p members ih =>
    obtain ⟨key, v⟩ := p
    rw [printedMembers, List.map_cons, List.map_cons, ih]

/-- A number that the library prints, it prints as a number that is read as it. -/
def PrintsNumber (rt : Runtime) (n : UInt64) : Prop :=
  Json.nonFinite n = false → isInteger n = false → Number true (rt.f64ToString n) ∧ parseFloat (rt.f64ToString n) = n

/-- A number that comes back as it was. -/
def Kept (n : UInt64) : Prop := Json.nonFinite n = false ∧ n ≠ 0x8000000000000000

section
variable {rt : Runtime} {n : UInt64}

/-! ## Numbers -/

theorem natAbs_lt_of_isInteger (h : isInteger n = true) : (Json.truncDouble n).natAbs < 2 ^ 53 := by
  rw [isInteger, Bool.and_eq_true] at h
  exact natAbs_truncDouble_lt h.2

theorem numberToString_integer (hfinite : Json.nonFinite n = false) (h : isInteger n = true) :
    numberToString rt n = i64ToString (Json.truncDouble n) := by
  rw [numberToString, hfinite, h]
  rfl

theorem spells_number (h : PrintsNumber rt n) : Spells (printed (number n)) (numberToString rt n) := by
  rw [printed]
  cases hfinite : Json.nonFinite n with
  | true =>
    rw [if_pos rfl, Spells, numberToString, hfinite]
    rfl
  | false =>
    rw [if_neg Bool.false_ne_true]
    cases hinteger : isInteger n with
    | true =>
      rw [if_pos rfl, Spells, numberToString_integer hfinite hinteger]
      exact ⟨number_i64ToString _, parseFloat_i64ToString _⟩
    | false =>
      rw [if_neg Bool.false_ne_true, Spells, numberToString, hfinite, hinteger]
      exact h hfinite hinteger

theorem toString_printed_number : (printed (number n)).toString rt = numberToString rt n := by
  rw [printed]
  cases hfinite : Json.nonFinite n with
  | true =>
    rw [if_pos rfl, toString, numberToString, hfinite]
    rfl
  | false =>
    rw [if_neg Bool.false_ne_true]
    cases hinteger : isInteger n with
    | true =>
      rw [if_pos rfl, toString, numberToString_integer hfinite hinteger,
        numberToString_ofInt rt (natAbs_lt_of_isInteger hinteger)]
    | false => rw [if_neg Bool.false_ne_true, toString]

/-- **An integer's double comes back** unless it is the negative zero. -/
theorem printed_number_iff : printed (number n) = number n ↔ Kept n := by
  rw [printed, Kept]
  cases hfinite : Json.nonFinite n with
  | true => simp
  | false =>
    rw [if_neg Bool.false_ne_true]
    cases hinteger : isInteger n with
    | false =>
      have hzero : n ≠ 0x8000000000000000 := by
        rintro rfl
        exact absurd hinteger (by decide +kernel)
      simp [hzero]
    | true =>
      rw [if_pos rfl]
      have hsmall := natAbs_lt_of_isInteger hinteger
      have htrunc := truncDouble_ofInt hsmall
      have hnegative : ofInt (Json.truncDouble n) ≠ 0x8000000000000000 := by
        intro h
        have hcut : Json.truncDouble 0x8000000000000000 = 0 ∧ ofInt 0 ≠ 0x8000000000000000 := by decide +kernel
        rw [h, hcut.1] at htrunc
        rw [← htrunc] at h
        exact hcut.2 h
      constructor
      · intro h
        refine ⟨rfl, ?_⟩
        rw [number.injEq] at h
        rwa [h] at hnegative
      · rintro ⟨-, hkept⟩
        rw [isInteger, Bool.and_eq_true, doubleEq, Bool.and_eq_true, decide_eq_true_eq] at hinteger
        obtain hsame | hzero | hzero := eq_of_rank_eq hinteger.1.2
        · rw [← hsame]
        · exact absurd hzero hkept
        · exact absurd hzero hnegative

end

/-! ## Values -/

section
variable (rt : Runtime)

mutual

/-- What is printed is a text of the value that is read. -/
theorem spells_printed : ∀ v : JsonValue, UniqueKeys v → (∀ n ∈ numbers v, PrintsNumber rt n) → Spells (printed v) (v.toString rt)
  | null, _, _ => by rw [printed, Spells, toString] <;> simp
  | bool b, _, _ => by rw [printed, Spells, toString] <;> simp
  | number n, _, h => by
    rw [toString]
    exact spells_number (h n (by rw [numbers]; exact List.mem_singleton_self n))
  | string s, _, _ => by
    rw [printed, Spells, toString]
    · exact (str_quote s).lax
    all_goals simp
  | array arr, hkeys, h => by
    rw [UniqueKeys] at hkeys
    rw [numbers] at h
    rw [printed, Spells, toString]
    exact ⟨_, spells_printedElements arr hkeys h, rfl⟩
  | object members, hkeys, h => by
    rw [UniqueKeys] at hkeys
    rw [numbers] at h
    rw [printed, Spells, toString, keys_printedMembers]
    exact ⟨hkeys.1, _, spells_printedMembers members hkeys.2 h, rfl⟩

theorem spells_printedElements : ∀ arr : List JsonValue, UniqueKeysElements arr → (∀ n ∈ numbersOfElements arr, PrintsNumber rt n) →
    SpellsElements (printedElements arr) (elementsToString rt arr)
  | [], _, _ => by rw [printedElements, SpellsElements, elementsToString]
  | [v], hkeys, h => by
    rw [UniqueKeysElements] at hkeys
    rw [numbersOfElements] at h
    rw [printedElements, printedElements, SpellsElements, elementsToString]
    exact spells_printed v hkeys.1 fun n hn => h n (List.mem_append_left _ hn)
  | v :: w :: arr, hkeys, h => by
    rw [UniqueKeysElements] at hkeys
    rw [numbersOfElements] at h
    have hrest := spells_printedElements (w :: arr) hkeys.2 fun n hn => h n (List.mem_append_right _ hn)
    rw [printedElements] at hrest
    rw [printedElements, printedElements]
    exact spellsElements_cons.2
      ⟨_, _, spells_printed v hkeys.1 fun n hn => h n (List.mem_append_left _ hn), hrest, elementsToString_cons rt v w arr⟩

theorem spells_printedMembers : ∀ members : List (Units × JsonValue), UniqueKeysMembers members →
    (∀ n ∈ numbersOfMembers members, PrintsNumber rt n) → SpellsMembers (printedMembers members) (membersToString rt members)
  | [], _, _ => by rw [printedMembers, SpellsMembers, membersToString]
  | [(key, v)], hkeys, h => by
    rw [UniqueKeysMembers] at hkeys
    rw [numbersOfMembers] at h
    rw [printedMembers, printedMembers, SpellsMembers, membersToString]
    exact ⟨_, _, (str_quote key).lax, spells_printed v hkeys.1 fun n hn => h n (List.mem_append_left _ hn), rfl⟩
  | (key, v) :: (k, w) :: members, hkeys, h => by
    rw [UniqueKeysMembers] at hkeys
    rw [numbersOfMembers] at h
    have hrest := spells_printedMembers ((k, w) :: members) hkeys.2 fun n hn => h n (List.mem_append_right _ hn)
    rw [printedMembers] at hrest
    rw [printedMembers, printedMembers]
    exact spellsMembers_cons.2 ⟨_, _, _, (str_quote key).lax,
      spells_printed v hkeys.1 fun n hn => h n (List.mem_append_left _ hn), hrest, membersToString_cons rt key v (k, w) members⟩

end

mutual

/-- The value that is read has the same text. -/
theorem toString_printed : ∀ v : JsonValue, v.printed.toString rt = v.toString rt
  | null => rfl
  | bool _ => rfl
  | number n => by
    rw [toString_printed_number, toString]
  | string _ => rfl
  | array arr => by rw [printed, toString, toString, elementsToString_printed arr]
  | object members => by rw [printed, toString, toString, membersToString_printed members]

theorem elementsToString_printed : ∀ arr : List JsonValue, elementsToString rt (printedElements arr) = elementsToString rt arr
  | [] => rfl
  | [v] => by
    rw [printedElements, printedElements, elementsToString, elementsToString, toString_printed v]
  | v :: w :: arr => by
    have hrest := elementsToString_printed (w :: arr)
    rw [printedElements] at hrest
    rw [printedElements, printedElements, elementsToString_cons, elementsToString_cons, toString_printed v, hrest]

theorem membersToString_printed : ∀ members : List (Units × JsonValue),
    membersToString rt (printedMembers members) = membersToString rt members
  | [] => rfl
  | [(key, v)] => by
    rw [printedMembers, printedMembers, membersToString, membersToString, toString_printed v]
  | (key, v) :: (k, w) :: members => by
    have hrest := membersToString_printed ((k, w) :: members)
    rw [printedMembers] at hrest
    rw [printedMembers, printedMembers, membersToString_cons, membersToString_cons, toString_printed v, hrest]

end

end

mutual

theorem printed_eq_iff : ∀ v : JsonValue, v.printed = v ↔ ∀ n ∈ v.numbers, Kept n
  | null => by rw [printed, numbers] <;> simp
  | bool _ => by rw [printed, numbers] <;> simp
  | number n => by
    rw [printed_number_iff, numbers]
    simp
  | string _ => by rw [printed, numbers] <;> simp
  | array arr => by
    rw [printed, numbers, array.injEq]
    exact printedElements_eq_iff arr
  | object members => by
    rw [printed, numbers, object.injEq]
    exact printedMembers_eq_iff members

theorem printedElements_eq_iff : ∀ arr : List JsonValue, printedElements arr = arr ↔ ∀ n ∈ numbersOfElements arr, Kept n
  | [] => by simp [printedElements, numbersOfElements]
  | v :: arr => by
    rw [printedElements, numbersOfElements, List.cons.injEq, printed_eq_iff v, printedElements_eq_iff arr, List.forall_mem_append]

theorem printedMembers_eq_iff : ∀ members : List (Units × JsonValue),
    printedMembers members = members ↔ ∀ n ∈ numbersOfMembers members, Kept n
  | [] => by simp [printedMembers, numbersOfMembers]
  | (key, v) :: members => by
    rw [printedMembers, numbersOfMembers, List.cons.injEq, Prod.mk.injEq, eq_self_iff_true, true_and, printed_eq_iff v,
      printedMembers_eq_iff members, List.forall_mem_append]

end

/-- **What a module prints and parses.** Any value that it can get hold of is read again, as itself when its numbers are finite
and none is a negative zero; what is read has the text that it was read from. -/
theorem made_tryParse_toString (rt : Runtime) {v : JsonValue} (hmade : Made v) (hprints : ∀ n ∈ v.numbers, PrintsNumber rt n) :
    tryParse (v.toString rt) = .ok v.printed ∧ v.printed.toString rt = v.toString rt ∧
      (tryParse (v.toString rt) = .ok v ↔ ∀ n ∈ v.numbers, Kept n) := by
  have hparse : tryParse (v.toString rt) = .ok v.printed := tryParse_of_spells (spells_printed rt v hmade.uniqueKeys hprints)
  refine ⟨hparse, toString_printed rt v, ?_⟩
  rw [hparse, Except.ok.injEq]
  exact printed_eq_iff v

/-- A library that prints one half. -/
def printsHalf : Runtime := { f64ToString := fun _ => [0x30, 0x2e, 0x35] }

/-- An object with one half, a negative zero and an infinity. -/
def unsettled : JsonValue :=
  (((object []).set [0x68] (number 0x3fe0000000000000)).set [0x7a] (number 0x8000000000000000)).set [0x69] (number 0x7ff0000000000000)

theorem unsettled_evaluated :
    (unsettled.numbers = [0x3fe0000000000000, 0x8000000000000000, 0x7ff0000000000000] ∧ parseFloat [0x30, 0x2e, 0x35] = 0x3fe0000000000000) ∧
    isInteger 0x8000000000000000 = true ∧ Json.nonFinite 0x7ff0000000000000 = true := by
  decide +kernel

theorem made_tryParse_toString_unsettled : ¬ tryParse (unsettled.toString printsHalf) = .ok unsettled := by
  obtain ⟨⟨hnumbers, hhalf⟩, hzero, hinfinite⟩ := unsettled_evaluated
  have hmade : Made unsettled := ((Made.newObject.set _ (.newNumber _)).set _ (.newNumber _)).set _ (.newNumber _)
  have hprints : ∀ n ∈ unsettled.numbers, PrintsNumber printsHalf n := by
    rw [hnumbers]
    intro n hn hfinite hinteger
    obtain rfl | rfl | rfl : n = 0x3fe0000000000000 ∨ n = 0x8000000000000000 ∨ n = 0x7ff0000000000000 := by simpa using hn
    · exact ⟨⟨[], [0x30], [0x2e, 0x35], [], .inl rfl, .inl rfl, .inr ⟨[0x35], rfl, by simp, by simp [JsonGrammar.isDigit]⟩, .inl rfl, rfl⟩,
        hhalf⟩
    · rw [hzero] at hinteger
      cases hinteger
    · rw [hinfinite] at hfinite
      cases hfinite
  obtain ⟨-, -, hiff⟩ := made_tryParse_toString printsHalf hmade hprints
  rw [hiff, hnumbers]
  intro hkept
  exact (hkept 0x8000000000000000 (by simp)).2 rfl

end JsonValue

end OriginDB.Sdk
