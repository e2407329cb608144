import OriginDB.Sdk.JsonRoundTrip
/-!
# Accessors of `JsonValue` (`src/sdk/typescript/assembly/index.ts:91-181`)

An accessor of another kind of value, of a key that is missing or of a place out of bounds answers with a default and never
fails; `asInt` traps on a number that no `i64` is. `get` gives what the last `set` of the key has put there, and a key keeps
the place at which it was set first (`lookup_setMember`, `keys_setMember`).

`Made` are the values that a module can get hold of: the ones that it builds, parses and takes apart. None of them is an object
with a key twice (`Made.uniqueKeys`): `set` is the only way into an object, for the parser too.
-/
namespace OriginDB.Sdk

open JsonDoc JsonGrammar Positioned JsonParser

namespace JsonValue

/-! ## Accessors -/

def isNull : JsonValue → Bool
  | null => true
  | _ => false

def asBool : JsonValue → Bool
  | bool b => b
  | _ => false

def asNumber : JsonValue → UInt64
  | number n => n
  | _ => 0

/-- `asInt` (`:105`); `none` is the trap of the conversion. -/
def asInt (v : JsonValue) : Option Int :=
  let n := v.asNumber
  if Json.nonFinite n then none
  else if -(2 ^ 63) ≤ Json.truncDouble n ∧ Json.truncDouble n < 2 ^ 63 then some (Json.truncDouble n)
  else none

def asString : JsonValue → Units
  | string s => s
  | _ => []

def length : JsonValue → Nat
  | array arr => arr.length
  | _ => 0

/-- `at` (`:119`). -/
def elementAt (v : JsonValue) (index : Int) : JsonValue :=
  match v with
  | array arr => if 0 ≤ index then arr[index.toNat]?.getD null else null
  | _ => null

def has (v : JsonValue) (key : Units) : Bool :=
  match v with
  | object members => (members.lookup key).isSome
  | _ => false

/-- `get` (`:131`). -/
def get (v : JsonValue) (key : Units) : JsonValue :=
  match v with
  | object members => (members.lookup key).getD null
  | _ => null

def getString (v : JsonValue) (key fallback : Units) : Units :=
  match v.get key with
  | string s => s
  | _ => fallback

def getNumber (v : JsonValue) (key : Units) (fallback : UInt64) : UInt64 :=
  match v.get key with
  | number n => n
  | _ => fallback

def getBool (v : JsonValue) (key : Units) (fallback : Bool) : Bool :=
  match v.get key with
  | bool b => b
  | _ => fallback

/-! ## What `set` does -/

section
variable {key k : Units} {value : JsonValue} {members : List (Units × JsonValue)}

theorem lookup_setMember : (setMember key value members).lookup k = if k = key then some value else members.lookup k := by
  induction members with
  | nil =>
    rw [setMember, List.lookup_cons]
    by_cases hk : k = key
    · rw [if_pos hk, beq_iff_eq.2 hk]
    · rw [if_neg hk, beq_eq_false_iff_ne.2 hk]
  | cons p members ih =>
    obtain ⟨n, v⟩ := p
    by_cases hn : n = key
    · subst hn
      rw [setMember, if_pos rfl, List.lookup_cons, List.lookup_cons]
      by_cases hk : k = n
      · rw [if_pos hk, beq_iff_eq.2 hk]
      · rw [if_neg hk, beq_eq_false_iff_ne.2 hk]
    · rw [setMember, if_neg hn, List.lookup_cons, List.lookup_cons, ih]
      by_cases hk : k = n
      · subst hk
        simp only [beq_self_eq_true, hn, if_false]
      · rw [beq_eq_false_iff_ne.2 hk]

/-- **A key keeps its place**, and a new one comes last. -/
theorem keys_setMember : (setMember key value members).map Prod.fst =
    if key ∈ members.map Prod.fst then members.map Prod.fst else members.map Prod.fst ++ [key] := by
  induction members with
  | nil => rfl
  | cons p members ih =>
    obtain ⟨n, v⟩ := p
    by_cases hn : n = key
    · subst hn
      rw [setMember, if_pos rfl, if_pos (by simp)]
      rfl
    · rw [setMember, if_neg hn, List.map_cons, List.map_cons, ih]
      by_cases hkey : key ∈ members.map Prod.fst
      · rw [if_pos hkey, if_pos (List.mem_cons_of_mem _ hkey)]
      · rw [if_neg hkey, if_neg (by simpa [Ne.symm hn] using hkey), List.cons_append]

theorem mem_setMember {p : Units × JsonValue} (h : p ∈ setMember key value members) : p.2 = value ∨ p ∈ members := by
  induction members with
  | nil => exact .inl (by rw [List.mem_singleton.1 h])
  | cons q members ih =>
    obtain ⟨n, v⟩ := q
    rw [setMember] at h
    split at h
    · obtain rfl | h := List.mem_cons.1 h
      · exact .inl rfl
      · exact .inr (List.mem_cons_of_mem _ h)
    · obtain rfl | h := List.mem_cons.1 h
      · exact .inr List.mem_cons_self
      · exact (ih h).imp_right (List.mem_cons_of_mem _)

end

/-! ## No key twice -/

mutual

/-- No object of the value has a key twice. -/
def UniqueKeys : JsonValue → Prop
  | array arr => UniqueKeysElements arr
  | object members => (members.map Prod.fst).Nodup ∧ UniqueKeysMembers members
  | _ => True

def UniqueKeysElements : List JsonValue → Prop
  | [] => True
  | v :: arr => UniqueKeys v ∧ UniqueKeysElements arr

def UniqueKeysMembers : List (Units × JsonValue) → Prop
  | [] => True
  | (_, v) :: members => UniqueKeys v ∧ UniqueKeysMembers members

end

theorem uniqueKeysElements_iff {arr : List JsonValue} : UniqueKeysElements arr ↔ ∀ v ∈ arr, UniqueKeys v := by
  induction arr with
  | nil => simp [UniqueKeysElements]
  | cons v arr ih => simp [UniqueKeysElements, ih]

theorem uniqueKeysMembers_iff {members : List (Units × JsonValue)} : UniqueKeysMembers members ↔ ∀ p ∈ members, UniqueKeys p.2 := by
  induction members with
  | nil => simp [UniqueKeysMembers]
  | cons p members ih => simp [UniqueKeysMembers, ih]

section
variable {v w : JsonValue} {key : Units}

theorem UniqueKeys.set (hv : UniqueKeys v) (hw : UniqueKeys w) : UniqueKeys (v.set key w) := by
  cases v with
  | object members =>
    rw [UniqueKeys, uniqueKeysMembers_iff] at hv
    rw [JsonValue.set, UniqueKeys, uniqueKeysMembers_iff, keys_setMember]
    refine ⟨?_, fun p hp => ?_⟩
    · split
      · exact hv.1
      · rename_i hkey
        exact List.Nodup.append hv.1 (List.nodup_singleton key) (List.disjoint_singleton.2 hkey)
    · obtain hp | hp := mem_setMember hp
      · rw [hp]
        exact hw
      · exact hv.2 p hp
  | _ => exact hv

theorem UniqueKeys.push (hv : UniqueKeys v) (hw : UniqueKeys w) : UniqueKeys (v.push w) := by
  cases v with
  | array arr =>
    rw [UniqueKeys, uniqueKeysElements_iff] at hv
    rw [JsonValue.push, UniqueKeys, uniqueKeysElements_iff]
    intro u hu
    obtain hu | hu := List.mem_append.1 hu
    · exact hv u hu
    · rw [List.mem_singleton.1 hu]
      exact hw
  | _ => exact hv

theorem UniqueKeys.get (hv : UniqueKeys v) (key : Units) : UniqueKeys (v.get key) := by
  cases v with
  | object members =>
    rw [UniqueKeys, uniqueKeysMembers_iff] at hv
    rw [JsonValue.get]
    cases hlookup : members.lookup key with
    | none => trivial
    | some w =>
      obtain ⟨l₁, l₂, rfl, -⟩ := List.lookup_eq_some_iff.1 hlookup
      exact hv.2 (key, w) (by simp)
  | _ => trivial

theorem UniqueKeys.elementAt (hv : UniqueKeys v) (index : Int) : UniqueKeys (v.elementAt index) := by
  cases v with
  | array arr =>
    rw [UniqueKeys, uniqueKeysElements_iff] at hv
    rw [JsonValue.elementAt]
    split
    · cases hget : arr[index.toNat]? with
      | none => trivial
      | some w => exact hv w (List.mem_of_getElem? hget)
    · trivial
  | _ => trivial

end

end JsonValue

/-! ### What is parsed -/

section
variable {v : JsonValue} {n : Nat}

open JsonValue

/-- What `n` steps of the parser give. -/
structure GivesUnique (n : Nat) : Prop where
  value : Gives (parseValue n) UniqueKeys
  array : Gives (parseArray n) UniqueKeys
  elements : ∀ arr, UniqueKeys arr → Gives (elementsLoop n arr) UniqueKeys
  object : Gives (parseObject n) UniqueKeys
  members : ∀ obj, UniqueKeys obj → Gives (membersLoop n obj) UniqueKeys

theorem gives_refuse : Gives (refuse : Parser JsonValue) UniqueKeys := gives_throw ()

theorem gives_literal {word : Units} (hv : UniqueKeys v) :
    Gives (literal word >>= fun b => if b = true then pure v else refuse) UniqueKeys :=
  gives_bind fun _ => gives_ite (gives_pure hv) gives_refuse

theorem gives_parseNumber : Gives parseNumber UniqueKeys :=
  gives_bind fun _ => gives_bind fun _ => gives_bind fun _ => gives_bind fun _ => gives_pure trivial

theorem gives_value (h : GivesUnique n) : Gives (parseValue (n + 1)) UniqueKeys := by
  rw [parseValue]
  refine gives_bind fun _ => gives_bind fun _ => gives_ite gives_refuse (gives_bind fun c => ?_)
  refine gives_ite h.object (gives_ite h.array (gives_ite (gives_map fun _ => trivial) ?_))
  exact gives_ite (gives_literal trivial) (gives_ite (gives_literal trivial) (gives_ite (gives_literal trivial) gives_parseNumber))

/-- Behind an element or a member: a comma, or the end. -/
theorem gives_behind {more : Parser JsonValue} (d : UInt16) (hmore : Gives more UniqueKeys) (hv : UniqueKeys v) :
    Gives (do
      skipWs
      if ← atEnd then refuse
      else
        let c ← charCodeAt 0
        if c = 0x2c then
          advance 1
          more
        else if c = d then
          advance 1
          return v
        else refuse) UniqueKeys := by
  refine gives_bind fun _ => gives_bind fun _ => gives_ite gives_refuse (gives_bind fun c => gives_ite (gives_bind fun _ => hmore) ?_)
  exact gives_ite (gives_bind fun _ => gives_pure hv) gives_refuse

theorem gives_elements (h : GivesUnique n) {arr : JsonValue} (harr : UniqueKeys arr) : Gives (elementsLoop (n + 1) arr) UniqueKeys := by
  rw [elementsLoop]
  refine h.value.bind fun w hw => ?_
  exact gives_behind 0x5d (h.elements _ (harr.push hw)) (harr.push hw)

theorem gives_members (h : GivesUnique n) {obj : JsonValue} (hobj : UniqueKeys obj) : Gives (membersLoop (n + 1) obj) UniqueKeys := by
  rw [membersLoop]
  refine gives_bind fun _ => gives_bind fun _ => gives_ite (gives_bind fun key => ?_) gives_refuse
  refine gives_bind fun _ => gives_bind fun _ => gives_ite (gives_bind fun _ => h.value.bind fun w hw => ?_) gives_refuse
  exact gives_behind 0x7d (h.members _ (hobj.set hw)) (hobj.set hw)

theorem gives_uniqueKeys (n : Nat) : GivesUnique n := by
  have hempty : UniqueKeys (.array []) ∧ UniqueKeys (.object []) := by
    rw [UniqueKeys, UniqueKeys, UniqueKeysElements, UniqueKeysMembers]
    exact ⟨trivial, List.nodup_nil, trivial⟩
  induction n with
  | zero =>
    constructor
    · rw [parseValue]; exact gives_unfinished
    · rw [parseArray]; exact gives_unfinished
    · intro arr _; rw [elementsLoop]; exact gives_unfinished
    · rw [parseObject]; exact gives_unfinished
    · intro obj _; rw [membersLoop]; exact gives_unfinished
  | succ n ih =>
    refine ⟨gives_value ih, ?_, fun arr harr => gives_elements ih harr, ?_, fun obj hobj => gives_members ih hobj⟩
    · rw [parseArray]
      refine gives_bind fun _ => gives_bind fun _ => gives_bind fun _ => gives_ite ?_ (ih.elements _ hempty.1)
      exact gives_bind fun _ => gives_pure hempty.1
    · rw [parseObject]
      refine gives_bind fun _ => gives_bind fun _ => gives_bind fun _ => gives_ite ?_ (ih.members _ hempty.2)
      exact gives_bind fun _ => gives_pure hempty.2

/-- **No object that is parsed has a key twice**, whatever its text has. -/
theorem uniqueKeys_of_tryParse {text : Units} (h : tryParse text = .ok v) : UniqueKeys v := by
  have hgives : Gives (parseText (3 * text.length + 3)) UniqueKeys :=
    (gives_uniqueKeys _).value.bind fun v hv => gives_bind fun _ => gives_bind fun _ => gives_ite (gives_pure hv) gives_refuse
  rw [tryParse] at h
  cases hrun : parseText (3 * text.length + 3) ⟨text, 0⟩ with
  | error e =>
    rw [hrun] at h
    cases h
  | ok p =>
    rw [hrun] at h
    cases h
    exact hgives _ _ _ hrun

end

namespace JsonValue

/-! ## What a module can get hold of -/

/-- The values that a module builds, parses and takes apart. -/
inductive Made : JsonValue → Prop where
  | newNull : Made null
  | newBool (b : Bool) : Made (bool b)
  | newNumber (n : UInt64) : Made (number n)
  | newString (s : Units) : Made (string s)
  | newArray : Made (array [])
  | newObject : Made (object [])
  | set {v w : JsonValue} (key : Units) (hv : Made v) (hw : Made w) : Made (v.set key w)
  | push {v w : JsonValue} (hv : Made v) (hw : Made w) : Made (v.push w)
  | get {v : JsonValue} (key : Units) (hv : Made v) : Made (v.get key)
  | elementAt {v : JsonValue} (index : Int) (hv : Made v) : Made (v.elementAt index)
  | parsed {v : JsonValue} {text : Units} (h : tryParse text = .ok v) : Made v

theorem Made.uniqueKeys {v : JsonValue} (h : Made v) : UniqueKeys v := by
  induction h with
  | newArray =>
    rw [UniqueKeys, UniqueKeysElements]
    trivial
  | newObject =>
    rw [UniqueKeys, UniqueKeysMembers]
    exact ⟨List.nodup_nil, trivial⟩
  | set key _ _ ihv ihw => exact ihv.set ihw
  | push _ _ ihv ihw => exact ihv.push ihw
  | get key _ ih => exact ih.get key
  | elementAt index _ ih => exact ih.elementAt index
  | parsed h => exact uniqueKeys_of_tryParse h
  | _ => trivial

end JsonValue

end OriginDB.Sdk
