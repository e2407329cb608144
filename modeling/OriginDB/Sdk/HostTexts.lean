import OriginDB.Lib.Utf16
import OriginDB.Sdk.JsonRoundTrip
/-!
# A document of the host in the hands of the guest

The host prints a document without white space (`Compact`); there an integer and a floating-point number differ by a point
or an exponent. The guest has one kind of number, and writes an integer below 2⁵³ without a point (`index.ts:193`). So the
document that it reads, prints again and gives back has its numbers changed in two ways (`throughGuest`): an integer from
2⁵³ on becomes the floating-point number next to it, and a floating-point number that is an integer below 2⁵³ becomes that
integer. Nothing else changes (`compact_toString`).
-/
namespace OriginDB.Sdk

open JsonDoc JsonGrammar ByteCodec JsonParser Numbers JsonValue

/-! ## Texts of the host -/

/-- A floating-point number in a text. -/
def FloatText (bits : UInt64) (u : Units) : Prop :=
  Number false u ∧ parseFloat u = bits ∧ Json.nonFinite bits = false ∧ ∃ c ∈ u, c = 0x2e ∨ c = 0x65 ∨ c = 0x45

mutual

/-- The texts of a document without white space; its integers have 64 bits, and no object has a key twice. -/
def Compact : Json → Units → Prop
  | .null, u => u = nullText
  | .bool b, u => u = if b then trueText else falseText
  | .int v, u => (-2 ^ 63 ≤ v ∧ v < 2 ^ 64) ∧ u = i64ToString v
  | .float bits, u => FloatText bits u
  | .string s, u => Utf8 s ∧ Str false u (Utf16.decode s)
  | .array l, u => ∃ body, CompactElements l body ∧ u = [0x5b] ++ body ++ [0x5d]
  | .object m, u => (m.map Prod.fst).Nodup ∧ ∃ body, CompactMembers m body ∧ u = [0x7b] ++ body ++ [0x7d]
  | .binary _, _ => False

def CompactElements : List Json → Units → Prop
  | [], u => u = []
  | [j], u => Compact j u
  | j :: i :: l, u => ∃ s t, Compact j s ∧ CompactElements (i :: l) t ∧ u = s ++ [0x2c] ++ t

def CompactMembers : List (Bytes × Json) → Units → Prop
  | [], u => u = []
  | [(k, j)], u => ∃ n s, (Utf8 k ∧ Str false n (Utf16.decode k)) ∧ Compact j s ∧ u = n ++ [0x3a] ++ s
  | (k, j) :: q :: m, u => ∃ n s t, (Utf8 k ∧ Str false n (Utf16.decode k)) ∧ Compact j s ∧ CompactMembers (q :: m) t ∧
      u = n ++ [0x3a] ++ s ++ [0x2c] ++ t

end

section
variable {i j : Json} {l : List Json} {k : Bytes} {q : Bytes × Json} {m : List (Bytes × Json)} {u : Units}

theorem compactElements_cons :
    CompactElements (j :: i :: l) u ↔ ∃ s t, Compact j s ∧ CompactElements (i :: l) t ∧ u = s ++ [0x2c] ++ t := by
  rw [CompactElements]

theorem compactMembers_cons : CompactMembers ((k, j) :: q :: m) u ↔
    ∃ n s t, (Utf8 k ∧ Str false n (Utf16.decode k)) ∧ Compact j s ∧ CompactMembers (q :: m) t ∧
      u = n ++ [0x3a] ++ s ++ [0x2c] ++ t := by
  rw [CompactMembers]

theorem utf8_of_compactMembers (h : CompactMembers m u) : ∀ p ∈ m, Utf8 p.1 := by
  induction m generalizing u with
  | nil => simp
  | cons p m ih =>
    obtain ⟨k, j⟩ := p
    cases m with
    | nil =>
      rw [CompactMembers] at h
      obtain ⟨n, s, ⟨hk, -⟩, -⟩ := h
      simpa using hk
    | cons q m =>
      obtain ⟨n, s, t, ⟨hk, -⟩, -, hrest, -⟩ := compactMembers_cons.1 h
      intro p hp
      obtain rfl | hp := List.mem_cons.1 hp
      · exact hk
      · exact ih hrest p hp

end

/-! ## What the guest makes of them -/

mutual

/-- The value that the guest reads. -/
def guestValue : Json → JsonValue
  | .null => .null
  | .bool b => .bool b
  | .int v => .number (ofInt v)
  | .float bits => .number bits
  | .string s => .string (Utf16.decode s)
  | .array l => .array (guestElements l)
  | .object m => .object (guestMembers m)
  | .binary _ => .null

def guestElements : List Json → List JsonValue
  | [] => []
  | j :: l => guestValue j :: guestElements l

def guestMembers : List (Bytes × Json) → List (Units × JsonValue)
  | [] => []
  | (k, j) :: m => (Utf16.decode k, guestValue j) :: guestMembers m

end

theorem keys_guestMembers (m : List (Bytes × Json)) : (guestMembers m).map Prod.fst = (m.map Prod.fst).map Utf16.decode := by
  induction m with
  | nil => rfl
  | cons p m ih =>
    obtain ⟨k, j⟩ := p
    rw [guestMembers, List.map_cons, List.map_cons, List.map_cons, ih]

/-- Different keys stay different. -/
theorem nodup_guestMembers {m : List (Bytes × Json)} (hnodup : (m.map Prod.fst).Nodup) (hutf : ∀ p ∈ m, Utf8 p.1) :
    ((guestMembers m).map Prod.fst).Nodup := by
  rw [keys_guestMembers]
  refine hnodup.map_on fun a ha b hb hab => ?_
  obtain ⟨p, hp, rfl⟩ := List.mem_map.1 ha
  obtain ⟨q, hq, rfl⟩ := List.mem_map.1 hb
  rw [← Utf16.encode_decode (hutf p hp), hab, Utf16.encode_decode (hutf q hq)]

mutual

/-- A text of the document is one of what the guest reads. -/
theorem spells_of_compact : ∀ (j : Json) (u : Units), Compact j u → Spells (guestValue j) u
  | .null, u, h => by
    rw [Compact] at h
    rw [guestValue, Spells]
    exact h
  | .bool b, u, h => by
    rw [Compact] at h
    rw [guestValue, Spells]
    exact h
  | .int v, u, h => by
    rw [Compact] at h
    rw [guestValue, Spells, h.2]
    exact ⟨number_i64ToString v, parseFloat_i64ToString v⟩
  | .float bits, u, h => by
    rw [Compact] at h
    rw [guestValue, Spells]
    exact ⟨h.1.lax, h.2.1⟩
  | .string s, u, h => by
    rw [Compact] at h
    rw [guestValue, Spells]
    exact h.2.lax
  | .array l, u, h => by
    rw [Compact] at h
    obtain ⟨body, hbody, rfl⟩ := h
    rw [guestValue, Spells]
    exact ⟨body, spells_of_compactElements l body hbody, rfl⟩
  | .object m, u, h => by
    rw [Compact] at h
    obtain ⟨hnodup, body, hbody, rfl⟩ := h
    rw [guestValue, Spells]
    exact ⟨nodup_guestMembers hnodup (utf8_of_compactMembers hbody), body, spells_of_compactMembers m body hbody, rfl⟩
  | .binary _, u, h => by
    rw [Compact] at h
    exact h.elim

theorem spells_of_compactElements : ∀ (l : List Json) (u : Units), CompactElements l u → SpellsElements (guestElements l) u
  | [], u, h => by
    rw [CompactElements] at h
    rw [guestElements, SpellsElements]
    exact h
  | [j], u, h => by
    rw [CompactElements] at h
    rw [guestElements, guestElements, SpellsElements]
    exact spells_of_compact j u h
  | j :: i :: l, u, h => by
    obtain ⟨s, t, hs, ht, rfl⟩ := compactElements_cons.1 h
    have hrest := spells_of_compactElements (i :: l) t ht
    rw [guestElements] at hrest
    rw [guestElements, guestElements]
    exact spellsElements_cons.2 ⟨s, t, spells_of_compact j s hs, hrest, rfl⟩

theorem spells_of_compactMembers : ∀ (m : List (Bytes × Json)) (u : Units), CompactMembers m u → SpellsMembers (guestMembers m) u
  | [], u, h => by
    rw [CompactMembers] at h
    rw [guestMembers, SpellsMembers]
    exact h
  | [(k, j)], u, h => by
    rw [CompactMembers] at h
    obtain ⟨n, s, hk, hs, rfl⟩ := h
    rw [guestMembers, guestMembers, SpellsMembers]
    exact ⟨n, s, hk.2.lax, spells_of_compact j s hs, rfl⟩
  | (k, j) :: (k', j') :: m, u, h => by
    obtain ⟨n, s, t, hk, hs, ht, rfl⟩ := compactMembers_cons.1 h
    have hrest := spells_of_compactMembers ((k', j') :: m) t ht
    rw [guestMembers] at hrest
    rw [guestMembers, guestMembers]
    exact spellsMembers_cons.2 ⟨n, s, t, hk.2.lax, spells_of_compact j s hs, hrest, rfl⟩

end

/-- **The guest reads what the host prints.** -/
theorem tryParse_of_compact {j : Json} {u : Units} (h : Compact j u) : tryParse u = .ok (guestValue j) :=
  tryParse_of_spells (spells_of_compact j u h)

/-! ## What the guest gives back -/

mutual

/-- The document that comes back from the guest. -/
def throughGuest : Json → Json
  | .int v => if v.natAbs < 2 ^ 53 then .int v else .float (ofInt v)
  | .float bits => if isInteger bits then .int (Json.truncDouble bits) else .float bits
  | .array l => .array (throughGuestElements l)
  | .object m => .object (throughGuestMembers m)
  | j => j

def throughGuestElements : List Json → List Json
  | [] => []
  | j :: l => throughGuest j :: throughGuestElements l

def throughGuestMembers : List (Bytes × Json) → List (Bytes × Json)
  | [] => []
  | (k, j) :: m => (k, throughGuest j) :: throughGuestMembers m

end

theorem throughGuestMembers_eq (m : List (Bytes × Json)) : throughGuestMembers m = m.map fun p => (p.1, throughGuest p.2) := by
  induction m with
  | nil => rfl
  | cons p m ih =>
    obtain ⟨k, j⟩ := p
    rw [throughGuestMembers, ih, List.map_cons]

mutual

/-- The floating-point numbers of a document. -/
def floats : Json → List UInt64
  | .float bits => [bits]
  | .array l => floatsOfElements l
  | .object m => floatsOfMembers m
  | _ => []

def floatsOfElements : List Json → List UInt64
  | [] => []
  | j :: l => floats j ++ floatsOfElements l

def floatsOfMembers : List (Bytes × Json) → List UInt64
  | [] => []
  | (_, j) :: m => floats j ++ floatsOfMembers m

end

section
variable {rt : Runtime}

/-- The library of the guest prints the numbers as floating-point numbers. -/
def PrintsFloats (rt : Runtime) (bits : List UInt64) : Prop := ∀ b ∈ bits, FloatText b (rt.f64ToString b)

theorem printsFloats_append {bs cs : List UInt64} : PrintsFloats rt (bs ++ cs) ↔ PrintsFloats rt bs ∧ PrintsFloats rt cs :=
  List.forall_mem_append

theorem numberToString_finite {n : UInt64} (h : Json.nonFinite n = false) :
    numberToString rt n = if isInteger n then i64ToString (Json.truncDouble n) else rt.f64ToString n := by
  rw [numberToString, h]
  rfl

/-- The first case of `toString` stops at 2⁵³. -/
theorem isInteger_ofInt_large {v : Int} (h : 2 ^ 53 ≤ v.natAbs) (h' : v.natAbs < 2 ^ 64) : isInteger (ofInt v) = false := by
  rw [isInteger, doubleLt_magnitude_large h h', Bool.and_false]

theorem compact_int (rt : Runtime) {v : Int} (hv : -2 ^ 63 ≤ v ∧ v < 2 ^ 64) (hprints : PrintsFloats rt (floats (throughGuest (.int v)))) :
    Compact (throughGuest (.int v)) (numberToString rt (ofInt v)) := by
  rw [throughGuest] at hprints ⊢
  by_cases hsmall : v.natAbs < 2 ^ 53
  · rw [if_pos hsmall, Compact, numberToString_ofInt rt hsmall]
    exact ⟨hv, rfl⟩
  · have hbits : v.natAbs < 2 ^ 64 := by omega
    rw [if_neg hsmall, floats] at hprints
    rw [if_neg hsmall, Compact, numberToString_finite (nonFinite_ofInt hbits),
      isInteger_ofInt_large (not_lt.1 hsmall) hbits]
    exact hprints _ (List.mem_singleton_self _)

theorem compact_float (rt : Runtime) {bits : UInt64} (hfinite : Json.nonFinite bits = false)
    (hprints : PrintsFloats rt (floats (throughGuest (.float bits)))) :
    Compact (throughGuest (.float bits)) (numberToString rt bits) := by
  rw [throughGuest] at hprints ⊢
  rw [numberToString_finite hfinite]
  by_cases hinteger : isInteger bits = true
  · rw [if_pos hinteger, if_pos hinteger, Compact]
    rw [isInteger, Bool.and_eq_true] at hinteger
    have hsmall := natAbs_truncDouble_lt hinteger.2
    exact ⟨⟨by omega, by omega⟩, rfl⟩
  · rw [if_neg hinteger, floats] at hprints
    rw [if_neg hinteger, if_neg hinteger, Compact]
    exact hprints _ (List.mem_singleton_self _)

mutual

/-- **What the guest prints is a text of the document that comes back.** -/
theorem compact_toString : ∀ (j : Json) (u : Units), Compact j u → PrintsFloats rt (floats (throughGuest j)) →
    Compact (throughGuest j) ((guestValue j).toString rt)
  | .null, u, _, _ => by rw [throughGuest, guestValue, Compact, JsonValue.toString] <;> simp
  | .bool b, u, _, _ => by rw [throughGuest, guestValue, Compact, JsonValue.toString] <;> simp
  | .int v, u, h, hprints => by
    rw [Compact] at h
    rw [guestValue, JsonValue.toString]
    exact compact_int rt h.1 hprints
  | .float bits, u, h, hprints => by
    rw [Compact] at h
    rw [guestValue, JsonValue.toString]
    exact compact_float rt h.2.2.1 hprints
  | .string s, u, h, _ => by
    rw [Compact] at h
    rw [throughGuest, guestValue, Compact, JsonValue.toString]
    · exact ⟨h.1, str_quote _⟩
    all_goals simp
  | .array l, u, h, hprints => by
    rw [Compact] at h
    obtain ⟨body, hbody, -⟩ := h
    rw [throughGuest, floats] at hprints
    rw [throughGuest, guestValue, Compact, JsonValue.toString]
    exact ⟨_, compact_elements l body hbody hprints, rfl⟩
  | .object m, u, h, hprints => by
    rw [Compact] at h
    obtain ⟨hnodup, body, hbody, -⟩ := h
    rw [throughGuest, floats] at hprints
    have hkeys : (throughGuestMembers m).map Prod.fst = m.map Prod.fst := by
      rw [throughGuestMembers_eq, List.map_map]
      rfl
    rw [throughGuest, guestValue, Compact, JsonValue.toString, hkeys]
    exact ⟨hnodup, _, compact_members m body hbody hprints, rfl⟩
  | .binary _, u, h, _ => by
    rw [Compact] at h
    exact h.elim

theorem compact_elements : ∀ (l : List Json) (u : Units), CompactElements l u → PrintsFloats rt (floatsOfElements (throughGuestElements l)) →
    CompactElements (throughGuestElements l) (elementsToString rt (guestElements l))
  | [], u, _, _ => by rw [throughGuestElements, guestElements, CompactElements, elementsToString]
  | [j], u, h, hprints => by
    rw [CompactElements] at h
    rw [throughGuestElements, floatsOfElements, printsFloats_append] at hprints
    rw [throughGuestElements, throughGuestElements, guestElements, guestElements, CompactElements, elementsToString]
    exact compact_toString j u h hprints.1
  | j :: i :: l, u, h, hprints => by
    obtain ⟨s, t, hs, ht, -⟩ := compactElements_cons.1 h
    rw [throughGuestElements, floatsOfElements, printsFloats_append] at hprints
    have hrest := compact_elements (i :: l) t ht hprints.2
    rw [throughGuestElements, guestElements] at hrest
    rw [throughGuestElements, throughGuestElements, guestElements, guestElements]
    exact compactElements_cons.2 ⟨_, _, compact_toString j s hs hprints.1, hrest, elementsToString_cons rt _ _ _⟩

theorem compact_members : ∀ (m : List (Bytes × Json)) (u : Units), CompactMembers m u → PrintsFloats rt (floatsOfMembers (throughGuestMembers m)) →
    CompactMembers (throughGuestMembers m) (membersToString rt (guestMembers m))
  | [], u, _, _ => by rw [throughGuestMembers, guestMembers, CompactMembers, membersToString]
  | [(k, j)], u, h, hprints => by
    rw [CompactMembers] at h
    obtain ⟨n, s, hk, hs, -⟩ := h
    rw [throughGuestMembers, floatsOfMembers, printsFloats_append] at hprints
    rw [throughGuestMembers, throughGuestMembers, guestMembers, guestMembers, CompactMembers, membersToString]
    exact ⟨_, _, ⟨hk.1, str_quote _⟩, compact_toString j s hs hprints.1, rfl⟩
  | (k, j) :: (k', j') :: m, u, h, hprints => by
    obtain ⟨n, s, t, hk, hs, ht, -⟩ := compactMembers_cons.1 h
    rw [throughGuestMembers, floatsOfMembers, printsFloats_append] at hprints
    have hrest := compact_members ((k', j') :: m) t ht hprints.2
    rw [throughGuestMembers, guestMembers] at hrest
    rw [throughGuestMembers, throughGuestMembers, guestMembers, guestMembers]
    exact compactMembers_cons.2 ⟨_, _, _, ⟨hk.1, str_quote _⟩, compact_toString j s hs hprints.1, hrest,
      membersToString_cons rt _ _ _ _⟩

end

end

end OriginDB.Sdk
