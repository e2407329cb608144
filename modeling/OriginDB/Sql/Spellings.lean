import OriginDB.Lib.NumberCase
import OriginDB.Lib.Spellings
import OriginDB.Sql.Accesses
/-!
# Keywords in other letters (`sql_engine.cpp:355-381`, `:435-465`)

The expressions of INSERT and UPDATE are `Worded`, and no two of their keywords can overlap. What is read from the text that a
search finds, values and SET lists, is numbers, which have no case, and parts of the text: it is the same in every
spelling in which two that differ in every letter have it the same (`parseValues_blend`, `parseSet_blend`).
-/
namespace OriginDB

open JsonDoc ByteCodec Regex Pattern

namespace SqlParser

/-! ## The patterns -/

theorem blind_plus {greedy : Bool} {q : UInt8 → Bool} (h : Regex.Blind toUpper q) :
    Pattern.Blind toUpper (plus greedy q) := ⟨h, h⟩

theorem blind_eq {x : UInt8} (hx : isAlpha x = false) : Regex.Blind toUpper fun c => c = x :=
  fun _ => decide_eq_decide.2 (toUpper_eq_iff hx)

theorem blind_ne {x : UInt8} (hx : isAlpha x = false) : Regex.Blind toUpper fun c => c ≠ x :=
  fun _ => decide_eq_decide.2 (not_congr (toUpper_eq_iff hx))

/-- What the patterns have besides classes of characters. -/
def keywords : List Bytes := ["INSERT", "INTO", "VALUES", "UPDATE", "SET", "WHERE", "(", ")"].map str

theorem toUpper_keywords : ∀ w ∈ keywords, ∀ c ∈ w, toUpper c = c := by decide +kernel

theorem keyed_keyword (w : String) (h : w ∈ ["INSERT", "INTO", "VALUES", "UPDATE", "SET", "WHERE", "(", ")"]) :
    (lit (str w)).Keyed toUpper := keyed_lit (toUpper_keywords (str w) (List.mem_map_of_mem h))

theorem keyed_insertPattern : insertPattern.Keyed toUpper := by
  have hspace : (plus true isSpace).Keyed toUpper := (blind_plus blind_isSpace).keyed
  have hopen : (lit (str "(")).Keyed toUpper := keyed_keyword "(" (by simp)
  have hclose : (lit (str ")")).Keyed toUpper := keyed_keyword ")" (by simp)
  have hopt : (opt (all [lit (str "("), .group 2 (.many false isDot), lit (str ")")])).Keyed toUpper :=
    ⟨⟨hopen, blind_isDot, hclose⟩, trivial⟩
  exact ⟨keyed_keyword "INSERT" (by simp), hspace, keyed_keyword "INTO" (by simp), hspace, blind_plus blind_isWord, blind_isSpace,
    hopt, blind_isSpace, keyed_keyword "VALUES" (by simp), blind_isSpace, hopen, blind_isDot, hclose⟩

theorem keyed_updatePattern : updatePattern.Keyed toUpper := by
  have hspace : (plus true isSpace).Keyed toUpper := (blind_plus blind_isSpace).keyed
  have hopt : (opt (all [plus true isSpace, lit (str "WHERE"), plus true isSpace, .group 3 (.many true isDot)])).Keyed
      toUpper := ⟨⟨hspace, keyed_keyword "WHERE" (by simp), hspace, blind_isDot⟩, trivial⟩
  exact ⟨keyed_keyword "UPDATE" (by simp), hspace, blind_plus blind_isWord, hspace, keyed_keyword "SET" (by simp), hspace,
    blind_isDot, hopt, trivial⟩

def insertWords : List Bytes := ["INSERT", "INTO", "VALUES"].map str

def updateWords : List Bytes := ["UPDATE", "SET", "WHERE"].map str

theorem apart_insertWords : Apart insertWords := by decide +kernel

theorem apart_updateWords : Apart updateWords := by decide +kernel

theorem sole_isSpace : Sole toUpper isSpace := by
  intro c hc x hx
  have hletter : isAlpha c = false := by
    have hword := not_isWord_of_isSpace hc
    rw [isWord, isAlnum, Bool.or_eq_false_iff, Bool.or_eq_false_iff] at hword
    exact hword.1.1
  exact (toUpper_eq_iff hletter).1 hx

section
variable {ws : List Bytes}

/-- A mark has no case. -/
theorem worded_mark {c : UInt8} (h : isAlpha c = false) : (lit [c]).Worded toUpper ws := by
  refine .seq (.char (blind_eq h) fun y hy x hx => ?_) .empty
  obtain rfl : y = c := of_decide_eq_true hy
  exact (toUpper_eq_iff h).1 hx

theorem worded_space : (plus true isSpace).Worded toUpper ws :=
  .seq (.char blind_isSpace sole_isSpace) (.many blind_isSpace sole_isSpace)

end

theorem worded_insertPattern : insertPattern.Worded toUpper insertWords := by
  have hspace : (plus true isSpace).Worded toUpper insertWords := worded_space
  have hspaces : (Pattern.many true isSpace).Worded toUpper insertWords := .many blind_isSpace sole_isSpace
  have hopen : (lit (str "(")).Worded toUpper insertWords := worded_mark (by decide)
  have hclose : (lit (str ")")).Worded toUpper insertWords := worded_mark (by decide)
  have hopt : (opt (all [lit (str "("), .group 2 (.many false isDot), lit (str ")")])).Worded toUpper insertWords :=
    .alt (.seq hopen (.seq (.group blind_isDot) hclose)) .empty
  have hword : ∀ w ∈ ["INSERT", "INTO", "VALUES"], (lit (str w)).Worded toUpper insertWords :=
    fun w hw => .word (List.mem_map_of_mem hw)
  exact .seq (hword "INSERT" (by simp)) (.seq hspace (.seq (hword "INTO" (by simp)) (.seq hspace
    (.seq (.group (blind_plus blind_isWord)) (.seq hspaces (.seq hopt (.seq hspaces (.seq (hword "VALUES" (by simp))
      (.seq hspaces (.seq hopen (.seq (.group blind_isDot) hclose)))))))))))

theorem worded_updatePattern : updatePattern.Worded toUpper updateWords := by
  have hspace : (plus true isSpace).Worded toUpper updateWords := worded_space
  have hword : ∀ w ∈ ["UPDATE", "SET", "WHERE"], (lit (str w)).Worded toUpper updateWords :=
    fun w hw => .word (List.mem_map_of_mem hw)
  have hopt : (opt (all [plus true isSpace, lit (str "WHERE"), plus true isSpace, .group 3 (.many true isDot)])).Worded
      toUpper updateWords :=
    .alt (.seq hspace (.seq (hword "WHERE" (by simp)) (.seq hspace (.group blind_isDot)))) .empty
  exact .seq (hword "UPDATE" (by simp)) (.seq hspace (.seq (.group (blind_plus blind_isWord)) (.seq hspace
    (.seq (hword "SET" (by simp)) (.seq hspace (.seq (.group blind_isDot) (.seq hopt .atEnd)))))))

/-! ## The values -/

/-- The number a value is, where it is one. -/
def number (value : Bytes) : Option Value :=
  if 46 ∈ value then (Numbers.stod value).map .double else (Numbers.stoll value).map .int64

theorem parseValue_eq (value : Bytes) : parseValue value = (number value).getD (.string value) := by
  rw [parseValue, number]
  split
  · cases Numbers.stod value <;> rfl
  · cases Numbers.stoll value <;> rfl

/-- A number is one in either case. -/
theorem number_toUpper (value : Bytes) : number (value.map toUpper) = number value := by
  have hpoint : 46 ∈ value.map toUpper ↔ 46 ∈ value := by
    simp only [List.mem_map, toUpper_eq_iff (show isAlpha 46 = false by decide), exists_eq_right]
  rw [number, number, Numbers.stod_toUpper, Numbers.stoll_toUpper]
  simp only [hpoint]

section
variable {a b t : Bytes}

theorem parseValue_blend (h : Blend toUpper a b t) (hab : parseValue a = parseValue b) : parseValue t = parseValue a := by
  have hnumber : ∀ {u : Bytes}, u.map toUpper = t.map toUpper → number u = number t := fun {u} hu => by
    rw [← number_toUpper u, hu, number_toUpper]
  rw [parseValue_eq, parseValue_eq] at *
  rw [hnumber h.left, hnumber h.right] at hab
  rw [hnumber h.left]
  cases hn : number t with
  | none =>
    rw [hn] at hab
    exact congrArg Value.string (h.eq (Value.string.inj hab))
  | some v => rfl

/-- What is read from the same matches is the same, if it is in the two spellings. -/
theorem map_blend {β : Type} {ms : List Match} {g : Match → Bytes → β} (hg : ∀ m, g m a = g m b → g m t = g m a)
    (hab : ms.map (fun m => g m a) = ms.map fun m => g m b) : ms.map (fun m => g m t) = ms.map fun m => g m a := by
  rw [List.map_inj_left] at hab ⊢
  exact fun m hm => hg m (hab m hm)

theorem blind_valuePattern : valuePattern.Blind toUpper := by
  have hquote : (lit (str "'")).Blind toUpper := ⟨blind_eq (by decide), trivial⟩
  have houtside : Regex.Blind toUpper fun c => c ≠ 44 && !isSpace c :=
    fun c => congrArg₂ (fun a b => a && !b) (blind_ne (by decide) c) (blind_isSpace c)
  exact ⟨⟨hquote, blind_ne (by decide), hquote⟩, blind_plus houtside⟩

theorem blind_setPattern : setPattern.Blind toUpper := by
  have hequals : (lit (str "=")).Blind toUpper := ⟨blind_eq (by decide), trivial⟩
  exact ⟨blind_plus blind_isWord, blind_isSpace, hequals, blind_isSpace, blind_plus (blind_ne (by decide))⟩

theorem parseValues_blend (h : Blend toUpper a b t) (hab : parseValues a = parseValues b) : parseValues t = parseValues a := by
  obtain ⟨ha, hb⟩ := h.findAll blind_valuePattern
  rw [parseValues, parseValues, ha, hb] at hab
  rw [parseValues, parseValues, ha]
  refine map_blend (g := fun m s => if m.matched 1 then .string (m.str 1 s) else parseValue (m.str 2 s)) (fun m hm => ?_) hab
  split at hm
  · rename_i hq
    rw [if_pos hq, if_pos hq, (h.str m 1).eq (Value.string.inj hm)]
  · rename_i hq
    rw [if_neg hq, if_neg hq, parseValue_blend (h.str m 2) hm]

theorem blind_isBlank : Regex.Blind toUpper isBlank :=
  fun c => congrArg₂ or (blind_eq (by decide) c) (blind_eq (by decide) c)

theorem trimBlanks_blend (h : Blend toUpper a b t) : Blend toUpper (trimBlanks a) (trimBlanks b) (trimBlanks t) :=
  ((h.dropWhile blind_isBlank).reverse.dropWhile blind_isBlank).reverse

/-- The quotes are there in either case. -/
theorem quotes_image {u v : Bytes} (h : u.map toUpper = v.map toUpper) :
    (u.head? = some 39 ∧ u.getLast? = some 39) ↔ (v.head? = some 39 ∧ v.getLast? = some 39) := by
  have hquote : ∀ o : Option UInt8, o.map toUpper = some 39 ↔ o = some 39 := by
    intro o
    cases o with
    | none => simp
    | some c => simpa using toUpper_eq_iff (c := c) (x := 39) (by decide)
  have hend : ∀ w : Bytes, (w.head? = some 39 ∧ w.getLast? = some 39) ↔
      ((w.map toUpper).head? = some 39 ∧ (w.map toUpper).getLast? = some 39) := by
    intro w
    rw [List.head?_map, List.getLast?_map, hquote, hquote]
  rw [hend u, hend v, h]

theorem parseSetValue_blend (h : Blend toUpper a b t) (hab : parseSetValue a = parseSetValue b) :
    parseSetValue t = parseSetValue a := by
  have hread : ∀ u : Bytes, parseSetValue u =
      if (trimBlanks u).head? = some 39 ∧ (trimBlanks u).getLast? = some 39 then
        .string (((trimBlanks u).drop 1).take ((trimBlanks u).length - 2))
      else parseValue (trimBlanks u) := fun _ => rfl
  have htrim := trimBlanks_blend h
  rw [hread, hread] at *
  generalize trimBlanks a = a, trimBlanks b = b, trimBlanks t = t at *
  obtain ⟨hla, hlb⟩ := htrim.length
  simp only [quotes_image htrim.left, quotes_image htrim.right, hla, hlb] at hab ⊢
  by_cases hq : t.head? = some 39 ∧ t.getLast? = some 39
  · rw [if_pos hq, if_pos hq] at *
    rw [((htrim.drop 1).take (t.length - 2)).eq (Value.string.inj hab)]
  · rw [if_neg hq, if_neg hq] at *
    exact parseValue_blend htrim hab

theorem parseSet_blend (h : Blend toUpper a b t) (hab : parseSet a = parseSet b) : parseSet t = parseSet a := by
  obtain ⟨ha, hb⟩ := h.findAll blind_setPattern
  rw [parseSet, parseSet, ha, hb] at hab
  rw [parseSet, parseSet, ha]
  refine map_blend (g := fun m s => (m.str 1 s, parseSetValue (m.str 2 s))) (fun m hm => ?_) hab
  obtain ⟨hname, hvalue⟩ := Prod.mk.inj hm
  simp only [(h.str m 1).eq hname, parseSetValue_blend (h.str m 2) hvalue]

end

end SqlParser

end OriginDB
