import OriginDB.Sdk.JsonTokens
/-!
# The kinds of values of `JsonParser` (`index.ts:282-297`, `:407-470`)

What `parseValue` does in front of each kind of value, and one round of each of the loops over elements and members.
-/
namespace OriginDB.Sdk

open JsonGrammar Positioned

namespace JsonParser

section
variable {w s t u : Units} {c : UInt16} {v r : JsonValue} {n : Nat}

theorem stops_isWs (h : isWs c = false) : Stops isWs (c :: t) := stops_cons.2 h

/-! ## In front of a value -/

/-- White space in front of a value is passed over. -/
theorem reads_front {f : UInt16 → Parser JsonValue} (hw : Ws w) (hc : isWs c = false) (h : Reads (f c) (c :: s) v t) :
    Reads (do
      skipWs
      if ← atEnd then refuse
      else
        let c ← charCodeAt 0
        f c) (w ++ c :: s) v t :=
  (reads_skipWs hw (stops_isWs hc)).bind ((reads_atEnd _).bind ((reads_charCodeAt rfl).bind h))

theorem reads_null (hw : Ws w) (t : Units) : Reads (parseValue (n + 1)) (w ++ (nullText ++ t)) .null t := by
  rw [parseValue]
  exact reads_front hw rfl ((reads_literal nullText t).bind (reads_pure _ _))

theorem reads_true (hw : Ws w) (t : Units) : Reads (parseValue (n + 1)) (w ++ (trueText ++ t)) (.bool true) t := by
  rw [parseValue]
  exact reads_front hw rfl ((reads_literal trueText t).bind (reads_pure _ _))

theorem reads_false (hw : Ws w) (t : Units) : Reads (parseValue (n + 1)) (w ++ (falseText ++ t)) (.bool false) t := by
  rw [parseValue]
  exact reads_front hw rfl ((reads_literal falseText t).bind (reads_pure _ _))

theorem reads_string {lax : Bool} {v : Units} (hw : Ws w) (h : Str lax u v) (t : Units) :
    Reads (parseValue (n + 1)) (w ++ (u ++ t)) (.string v) t := by
  have hstring := (reads_parseString h t).map JsonValue.string
  obtain ⟨body, -, rfl⟩ := h
  rw [parseValue]
  exact reads_front hw rfl hstring

theorem reads_array (hw : Ws w) (h : Reads (parseArray n) (0x5b :: s) v t) : Reads (parseValue (n + 1)) (w ++ 0x5b :: s) v t := by
  rw [parseValue]
  exact reads_front hw rfl h

theorem reads_object (hw : Ws w) (h : Reads (parseObject n) (0x7b :: s) v t) : Reads (parseValue (n + 1)) (w ++ 0x7b :: s) v t := by
  rw [parseValue]
  exact reads_front hw rfl h

/-- The first character of a number. -/
def startsNumber (c : UInt16) : Bool := isDigit c || c = 0x2d

theorem startsNumber_ne {c d : UInt16} (h : startsNumber c = true) (hd : startsNumber d = false) : c ≠ d := by
  rintro rfl
  rw [h] at hd
  cases hd

theorem number_head {lax : Bool} (h : Number lax u) : ∃ c rest, u = c :: rest ∧ startsNumber c = true := by
  obtain ⟨minus, int, frac, exp, hminus, hint, -, -, rfl⟩ := h
  obtain rfl | rfl := hminus
  · obtain ⟨d, rest, rfl, hd⟩ := digits_head hint.digits
    exact ⟨d, _, rfl, by rw [startsNumber, hd, Bool.true_or]⟩
  · exact ⟨0x2d, _, rfl, rfl⟩

theorem not_isWs_of_startsNumber (h : startsNumber c = true) : isWs c = false := by
  simp only [isWs, Bool.or_eq_false_iff, decide_eq_false_iff_not]
  exact ⟨⟨⟨startsNumber_ne h rfl, startsNumber_ne h rfl⟩, startsNumber_ne h rfl⟩, startsNumber_ne h rfl⟩

theorem reads_number {lax : Bool} (hw : Ws w) (h : Number lax u) (ht : Stops isNumeric t) :
    Reads (parseValue (n + 1)) (w ++ (u ++ t)) (.number (parseFloat u)) t := by
  have hnumber := reads_parseNumber (reads_numberText h ht)
  obtain ⟨c, rest, rfl, hc⟩ := number_head h
  rw [parseValue]
  refine reads_front hw (not_isWs_of_startsNumber hc) ?_
  rw [if_neg (startsNumber_ne hc rfl), if_neg (startsNumber_ne hc rfl), if_neg (startsNumber_ne hc rfl),
    if_neg (startsNumber_ne hc rfl), if_neg (startsNumber_ne hc rfl), if_neg (startsNumber_ne hc rfl)]
  exact hnumber

/-! ## Arrays -/

theorem reads_emptyArray (hw : Ws w) (t : Units) : Reads (parseArray (n + 1)) (0x5b :: (w ++ 0x5d :: t)) (.array []) t := by
  rw [parseArray]
  refine (reads_advance_one _ _).bind ((reads_skipWs hw (stops_isWs rfl)).bind ?_)
  exact (looksAt_eq rfl).bind ((reads_advance_one _ t).bind (reads_pure _ t))

theorem reads_parseArray (hw : Ws w) (hc : isWs c = false) (hne : c ≠ 0x5d)
    (h : Reads (elementsLoop n (.array [])) (c :: s) v t) : Reads (parseArray (n + 1)) (0x5b :: (w ++ c :: s)) v t := by
  have hlook : Reads (looksAt (· = 0x5d)) (c :: s) false (c :: s) := looksAt_eq (by simpa using hne)
  rw [parseArray]
  exact (reads_advance_one _ _).bind ((reads_skipWs hw (stops_isWs hc)).bind (hlook.bind h))

theorem reads_elementsLoop_last (hv : Reads (parseValue n) s v (w ++ 0x5d :: t)) (hw : Ws w) (arr : JsonValue) :
    Reads (elementsLoop (n + 1) arr) s (arr.push v) t := by
  rw [elementsLoop]
  refine hv.bind ((reads_skipWs hw (stops_isWs rfl)).bind ((reads_atEnd _).bind ((reads_charCodeAt rfl).bind ?_)))
  exact (reads_advance_one _ t).bind (reads_pure _ t)

theorem reads_elementsLoop_more {arr : JsonValue} (hv : Reads (parseValue n) s v (w ++ 0x2c :: t)) (hw : Ws w)
    (h : Reads (elementsLoop n (arr.push v)) t r u) : Reads (elementsLoop (n + 1) arr) s r u := by
  rw [elementsLoop]
  refine hv.bind ((reads_skipWs hw (stops_isWs rfl)).bind ((reads_atEnd _).bind ((reads_charCodeAt rfl).bind ?_)))
  exact (reads_advance_one _ t).bind h

/-! ## Objects -/

theorem reads_emptyObject (hw : Ws w) (t : Units) : Reads (parseObject (n + 1)) (0x7b :: (w ++ 0x7d :: t)) (.object []) t := by
  rw [parseObject]
  refine (reads_advance_one _ _).bind ((reads_skipWs hw (stops_isWs rfl)).bind ?_)
  exact (looksAt_eq rfl).bind ((reads_advance_one _ t).bind (reads_pure _ t))

theorem reads_parseObject (hw : Ws w) (hc : isWs c = false) (hne : c ≠ 0x7d)
    (h : Reads (membersLoop n (.object [])) (c :: s) v t) : Reads (parseObject (n + 1)) (0x7b :: (w ++ c :: s)) v t := by
  have hlook : Reads (looksAt (· = 0x7d)) (c :: s) false (c :: s) := looksAt_eq (by simpa using hne)
  rw [parseObject]
  exact (reads_advance_one _ _).bind ((reads_skipWs hw (stops_isWs hc)).bind (hlook.bind h))

variable {lax : Bool} {w' k key : Units} {obj : JsonValue}

/-- A round of the loop over members: a member up to the end of its value, and then `f`. -/
def memberThen (n : Nat) (f : Units → JsonValue → Parser JsonValue) : Parser JsonValue := do
  skipWs
  if ← looksAt (· = 0x22) then
    let key ← parseString
    skipWs
    if ← looksAt (· = 0x3a) then
      advance 1
      let v ← parseValue n
      f key v
    else refuse
  else refuse

/-- What the loop does behind the value. -/
def behindMember (n : Nat) (obj : JsonValue) (key : Units) (v : JsonValue) : Parser JsonValue := do
  skipWs
  if ← atEnd then refuse
  else
    let c ← charCodeAt 0
    if c = 0x2c then
      advance 1
      membersLoop n (obj.set key v)
    else if c = 0x7d then
      advance 1
      return obj.set key v
    else refuse

theorem membersLoop_succ (n : Nat) (obj : JsonValue) : membersLoop (n + 1) obj = memberThen n (behindMember n obj) := by
  rw [membersLoop]
  rfl

theorem reads_memberThen {f : Units → JsonValue → Parser JsonValue} (hw : Ws w) (hk : Str lax k key) (hw' : Ws w')
    (hv : Reads (parseValue n) s v t) (h : Reads (f key v) t r u) :
    Reads (memberThen n f) (w ++ (k ++ (w' ++ 0x3a :: s))) r u := by
  have hstring := reads_parseString hk (w' ++ 0x3a :: s)
  obtain ⟨body, -, rfl⟩ := hk
  refine (reads_skipWs hw (stops_isWs rfl)).bind ((looksAt_eq rfl).bind (hstring.bind ?_))
  refine (reads_skipWs hw' (stops_isWs rfl)).bind ((looksAt_eq rfl).bind ((reads_advance_one _ _).bind ?_))
  exact hv.bind h

theorem reads_behindMember_last (hw : Ws w) (obj : JsonValue) (t : Units) :
    Reads (behindMember n obj key v) (w ++ 0x7d :: t) (obj.set key v) t := by
  refine (reads_skipWs hw (stops_isWs rfl)).bind ((reads_atEnd _).bind ((reads_charCodeAt rfl).bind ?_))
  exact (reads_advance_one _ t).bind (reads_pure _ t)

theorem reads_behindMember_more (hw : Ws w) (h : Reads (membersLoop n (obj.set key v)) t r u) :
    Reads (behindMember n obj key v) (w ++ 0x2c :: t) r u := by
  refine (reads_skipWs hw (stops_isWs rfl)).bind ((reads_atEnd _).bind ((reads_charCodeAt rfl).bind ?_))
  exact (reads_advance_one _ t).bind h

theorem reads_membersLoop_last {w'' : Units} (hw : Ws w) (hk : Str lax k key) (hw' : Ws w')
    (hv : Reads (parseValue n) s v (w'' ++ 0x7d :: t)) (hw'' : Ws w'') (obj : JsonValue) :
    Reads (membersLoop (n + 1) obj) (w ++ (k ++ (w' ++ 0x3a :: s))) (obj.set key v) t := by
  rw [membersLoop_succ]
  exact reads_memberThen hw hk hw' hv (reads_behindMember_last hw'' obj t)

theorem reads_membersLoop_more {w'' : Units} (obj : JsonValue) (hw : Ws w) (hk : Str lax k key) (hw' : Ws w')
    (hv : Reads (parseValue n) s v (w'' ++ 0x2c :: t)) (hw'' : Ws w'') (h : Reads (membersLoop n (obj.set key v)) t r u) :
    Reads (membersLoop (n + 1) obj) (w ++ (k ++ (w' ++ 0x3a :: s))) r u := by
  rw [membersLoop_succ]
  exact reads_memberThen hw hk hw' hv (reads_behindMember_more hw'' h)

/-- What a value begins with: neither white space nor the end of an array or an object. -/
def opens (c : UInt16) : Bool := !isWs c && c ≠ 0x5d && c ≠ 0x7d

theorem opens_iff {c : UInt16} : opens c = true ↔ isWs c = false ∧ c ≠ 0x5d ∧ c ≠ 0x7d := by
  simp [opens, and_assoc]

theorem opens_of_startsNumber (h : startsNumber c = true) : opens c = true :=
  opens_iff.2 ⟨not_isWs_of_startsNumber h, startsNumber_ne h rfl, startsNumber_ne h rfl⟩

end

end JsonParser

end OriginDB.Sdk
