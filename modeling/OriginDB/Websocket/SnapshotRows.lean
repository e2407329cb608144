import OriginDB.Changefeed.Frames
import OriginDB.Changefeed.Printing
/-!
# The rows a snapshot filters (`src/websocket/websocket_server.cpp:1155-1194`)

The snapshot and the events turn a row into JSON with visitors of their own, and the events print and parse it on the way.
A predicate sees the same columns in both but for bytes, times and numbers that are not finite, and for a row without
columns, which the snapshot has as `null`.
-/
namespace OriginDB

open JsonDoc ByteCodec Regex

/-- What both visitors make the same document of. -/
def Value.Plain : Value → Bool
  | .null | .int32 _ | .int64 _ | .string _ | .bool _ => true
  | .float bits => !Json.nonFinite (widen bits)
  | .double bits => !Json.nonFinite bits
  | .bytes _ | .timestamp _ => false

/-- What an event has a value as, printed and parsed. -/
def eventValue (v : Value) : Json := (valueJson v).reparsed

theorem snapshotValue_of_plain {v : Value} (h : v.Plain = true) : snapshotValue v = eventValue v := by
  cases v with
  | float bits | double bits =>
    simp only [Value.Plain, Bool.not_eq_true'] at h
    simp [snapshotValue, eventValue, valueJson, Json.reparsed, h]
  | bytes b | timestamp ns => cases h
  | _ => rfl

namespace Predicate

/-! ## The columns of a predicate -/

/-- The columns it looks at. -/
def Node.columns : Node → List Bytes
  | .or left right | .and left right => left.columns ++ right.columns
  | .not operand => operand.columns
  | .comparison column _ _ | .like column _ | .isNull column _ => [column]

/-- A predicate sees no other column. -/
theorem evaluateNode_congr {row row' : List (Bytes × Json)} {node : Node}
    (h : ∀ c ∈ node.columns, row.lookup c = row'.lookup c) : evaluateNode row node = evaluateNode row' node := by
  induction node with
  | or left right ihLeft ihRight | and left right ihLeft ihRight =>
    rw [evaluateNode, evaluateNode, ihLeft fun c hc => h c (List.mem_append_left _ hc),
      ihRight fun c hc => h c (List.mem_append_right _ hc)]
  | not operand ih => rw [evaluateNode, evaluateNode, ih h]
  | comparison column op literal => rw [evaluateNode, evaluateNode, h column List.mem_cons_self]
  | like column pattern => rw [evaluateNode, evaluateNode, h column List.mem_cons_self]
  | isNull column negated => rw [evaluateNode, evaluateNode, h column List.mem_cons_self]

/-! ## The columns of a text -/

/-- A name that is read is one. -/
theorem readToken_ident {start n : Nat} {c : UInt8} {rest : Bytes} {t : Token} (h : readToken start c rest = .ok (some t, n))
    (htype : t.type = .ident) : IsIdent t.text := by
  unfold readToken at h
  dsimp only at h
  split at h
  · cases h
  · split at h
    · rename_i hword
      cases h
      have hhead : (isAlnum c || decide (c = 95)) = true := by
        rcases Bool.or_eq_true_iff.1 hword with halpha | hunder
        · simp [isAlnum, halpha]
        · simp [hunder]
      refine ⟨⟨c, _, List.takeWhile_cons_of_pos (p := fun x => isAlnum x || decide (x = 95)) hhead, hword⟩, ?_, htype⟩
      intro d hd
      exact mem_takeWhile_class hd
    · split at h
      · rename_i hnumber
        cases hread : readNumber start (c :: rest) with
        | error e =>
          rw [hread] at h
          cases h
        | ok found =>
          rw [hread] at h
          cases h
          rw [(readNumber_spec hnumber hread).1] at htype
          cases htype
      · split at h
        · split at h
          · cases h
            cases htype
          · cases h
        · split at h <;> cases h <;> cases htype

theorem tokenizeFrom_ident {pos skip : Nat} {s : Bytes} {tokens : List Token} (h : tokenizeFrom pos skip s = .ok tokens) :
    ∀ t ∈ tokens, t.type = .ident → IsIdent t.text := by
  fun_induction tokenizeFrom pos skip s generalizing tokens with
  | case1 pos skip =>
    cases h
    intro t ht htype
    rw [List.mem_singleton.1 ht] at htype
    cases htype
  | case2 pos skip c rest ih => exact ih h
  | case3 pos c rest e hread => cases h
  | case4 pos c rest token n hread ih =>
    cases hrest : tokenizeFrom (pos + 1) (n - 1) rest with
    | error e =>
      rw [hrest] at h
      cases h
    | ok more =>
      rw [hrest] at h
      cases h
      intro t ht htype
      rcases List.mem_append.1 ht with ht | ht
      · obtain rfl : token = some t := by simpa using ht
        exact readToken_ident hread htype
      · exact ih hrest t ht htype

/-- The names of both sides are among the tokens of the whole. -/
theorem exists_ident_append {ts us : List Token} {word : Token} {cs ds : List Bytes}
    (hleft : ∀ c ∈ cs, ∃ t ∈ ts, t.type = .ident ∧ t.text = c) (hright : ∀ c ∈ ds, ∃ t ∈ us, t.type = .ident ∧ t.text = c) :
    ∀ c ∈ cs ++ ds, ∃ t ∈ ts ++ word :: us, t.type = .ident ∧ t.text = c := by
  intro c hc
  rcases List.mem_append.1 hc with hc | hc
  · obtain ⟨t, ht, hident⟩ := hleft c hc
    exact ⟨t, List.mem_append_left _ ht, hident⟩
  · obtain ⟨t, ht, hident⟩ := hright c hc
    exact ⟨t, List.mem_append_right _ (List.mem_cons_of_mem _ ht), hident⟩

mutual

/-- The columns of a tree are among the names of the tokens it is derived from. -/
theorem IsExpr.columns : ∀ {ts : List Token} {node : Node}, IsExpr ts node → ∀ c ∈ node.columns, ∃ t ∈ ts, t.type = .ident ∧ t.text = c
  | _, _, .term h, c, hc => h.columns c hc
  | _, _, .or hleft _ hright, c, hc => exists_ident_append hleft.columns hright.columns c hc

theorem IsTerm.columns : ∀ {ts : List Token} {node : Node}, IsTerm ts node → ∀ c ∈ node.columns, ∃ t ∈ ts, t.type = .ident ∧ t.text = c
  | _, _, .factor h, c, hc => h.columns c hc
  | _, _, .and hleft _ hright, c, hc => exists_ident_append hleft.columns hright.columns c hc

theorem IsFactor.columns : ∀ {ts : List Token} {node : Node}, IsFactor ts node → ∀ c ∈ node.columns, ∃ t ∈ ts, t.type = .ident ∧ t.text = c
  | _, _, .parens _ h _, c, hc => by
    obtain ⟨t, ht, hident⟩ := h.columns c hc
    exact ⟨t, List.mem_cons_of_mem _ (List.mem_append_left _ ht), hident⟩
  | _, _, .not _ h, c, hc => by
    obtain ⟨t, ht, hident⟩ := h.columns c hc
    exact ⟨t, List.mem_cons_of_mem _ ht, hident⟩
  | _, _, .comparison h, c, hc => by
    cases h with
    | compare hcolumn | like hcolumn | isNull hcolumn | isNotNull hcolumn =>
      rw [List.mem_singleton.1 hc]
      exact ⟨_, List.mem_cons_self, hcolumn, rfl⟩

end

/-- **A predicate that parses** names its columns with identifiers. -/
theorem columns_of_parse {text : Bytes} {node : Node} (h : parse text = .ok node) : ∀ c ∈ node.columns, IsIdent c := by
  obtain ⟨before, last, htokens, -, hexpr⟩ := parse_eq_ok_iff.1 h
  intro c hc
  obtain ⟨t, ht, htype, rfl⟩ := hexpr.columns c hc
  exact tokenizeFrom_ident htokens t (List.mem_append_left _ ht) htype

end Predicate

/-! ## Both documents of a row -/

section
variable {row : Row} {column : Bytes} {v : Value}

/-- A column of a row, with any visitor. -/
theorem lookup_columns (f : Value → Json) (row : Row) (column : Bytes) :
    (row.columns.toList.map fun p => (p.1, f p.2)).lookup column = row.columns[column]?.map f := by
  rw [← OrdMap.lookup_toList, OrdMap.lookup_map]

theorem evaluate_snapshotData (hne : row.columns.isEmpty = false) (node : Predicate.Node) : Predicate.evaluate node (snapshotData row) =
    Predicate.evaluateNode (row.columns.toList.map fun p => (p.1, snapshotValue p.2)) node := by
  rw [snapshotData, hne, if_neg Bool.false_ne_true]
  rfl

theorem evaluate_jsonColumns (node : Predicate.Node) : Predicate.evaluate node row.jsonColumns =
    Predicate.evaluateNode (row.columns.toList.map fun p => (p.1, eventValue p.2)) node := rfl

open Predicate

/-- `c IS NULL` for a column, as text. -/
theorem isIdent_a : IsIdent (str "a") := ⟨⟨97, _, rfl, rfl⟩, by decide +kernel, by decide⟩

theorem parse_isNull (h : IsIdent column) : Predicate.parse (column ++ str " IS NULL") = .ok (.isNull column false) :=
  parse_print (c := .isNull column false) h

theorem parse_like_any (h : IsIdent column) : ∃ text, Predicate.parse text = .ok (.like column (likePattern (str "%"))) :=
  ⟨_, parse_print (c := .like column (str "%")) h⟩

/-- Digits of a byte string, on one line. -/
theorem isDot_hexByte (b : UInt8) : ∀ c ∈ hexByte b, isDot c = true := by
  have hall := forall_byte (p := fun b => (hexByte b).all isDot) (by decide +kernel) b
  exact List.all_eq_true.1 hall

/-- The columns that a predicate can name are the same in both. -/
structure Row.Faithful (row : Row) : Prop where
  ne_empty : row.columns.isEmpty = false
  plain : ∀ (column : Bytes) (v : Value), IsIdent column → row.columns[column]? = some v → v.Plain = true

/-- **A value that the visitors disagree on** is told apart by `IS NULL` or by `LIKE '%'`. -/
theorem exists_differs (hne : row.columns.isEmpty = false) (hident : IsIdent column) (hv : row.columns[column]? = some v)
    (hplain : v.Plain = false) : ∃ text node, Predicate.parse text = .ok node ∧
      Predicate.evaluate node (snapshotData row) ≠ Predicate.evaluate node row.jsonColumns := by
  have hcolumn : ∀ f : Value → Json, (row.columns.toList.map fun p => (p.1, f p.2)).lookup column = some (f v) := by
    intro f
    rw [lookup_columns, hv, Option.map_some]
  -- not `null` in the snapshot, `null` in the event
  have hnull : snapshotValue v ≠ .null → eventValue v = .null → ∃ text node, Predicate.parse text = .ok node ∧
      Predicate.evaluate node (snapshotData row) ≠ Predicate.evaluate node row.jsonColumns := by
    intro hsome hnone
    refine ⟨_, _, parse_isNull hident, ?_⟩
    rw [evaluate_snapshotData hne, evaluate_jsonColumns, Predicate.evaluateNode, Predicate.evaluateNode, hcolumn, hcolumn, hnone]
    simp [hsome]
  cases v with
  | float bits | double bits =>
    simp only [Value.Plain, Bool.not_eq_false'] at hplain
    exact hnull (by simp [snapshotValue]) (by simp [eventValue, valueJson, Json.reparsed, hplain])
  | timestamp ns => exact hnull (by simp [snapshotValue]) rfl
  | bytes b =>
    obtain ⟨text, hparse⟩ := parse_like_any hident
    refine ⟨text, _, hparse, ?_⟩
    have hdigits : ∀ c ∈ b.flatMap hexByte, isDot c = true := by
      intro c hc
      obtain ⟨x, -, hx⟩ := List.mem_flatMap.1 hc
      exact isDot_hexByte x c hx
    have hmatch : (fullMatch (likePattern (str "%")) (b.flatMap hexByte)).isSome = true :=
      fullMatch_isSome.2 ⟨b.flatMap hexByte, [], by simp, hdigits, rfl⟩
    have hobject : eventValue (.bytes b) = .object [(str "bytes", .array (b.map fun x => .int x.toNat)), (str "subtype", .null)] := rfl
    rw [evaluate_snapshotData hne, evaluate_jsonColumns, Predicate.evaluateNode, Predicate.evaluateNode, hcolumn, hcolumn, hobject]
    simp only [snapshotValue, hmatch]
    decide
  | _ => cases hplain

/-- **The snapshot filters what the events are matched against** if and only if the row has columns and none that a predicate
can name has bytes, a time or a number that is not finite. -/
theorem snapshot_row_iff (J : JsonLib) (row : Row) (value : Bytes) (hvalue : serializeRow J row = some value) :
    (∃ columns, extractRowColumns J value = some columns ∧
      ∀ text node, Predicate.parse text = .ok node →
        Predicate.evaluate node (snapshotData row) = Predicate.evaluate node columns) ↔ row.Faithful := by
  have hcolumns : extractRowColumns J value = some row.jsonColumns := by
    have hevent := extractRowColumns_serializeRow hvalue
    unfold eventColumns at hevent
    split at hevent
    · cases hevent
    · exact hevent
  constructor
  · rintro ⟨columns, hsome, hsame⟩
    rw [hcolumns, Option.some.injEq] at hsome
    subst hsome
    have hne : row.columns.isEmpty = false := by
      cases hempty : row.columns.isEmpty with
      | false => rfl
      | true =>
        -- `a IS NULL` of nothing
        have hnull := hsame _ _ (parse_isNull isIdent_a)
        have hnone : row.columns[str "a"]? = none := by
          rw [Std.ExtTreeMap.isEmpty_iff.1 hempty]
          exact Std.ExtTreeMap.getElem?_empty
        have hfalse : ∀ node, Predicate.evaluate node .null = false := fun _ => rfl
        rw [evaluate_jsonColumns, snapshotData, if_pos hempty, hfalse, Predicate.evaluateNode, lookup_columns, hnone] at hnull
        cases hnull
    refine ⟨hne, fun column v hident hv => ?_⟩
    cases hplain : v.Plain with
    | true => rfl
    | false =>
      obtain ⟨text, node, hparse, hdiffers⟩ := exists_differs hne hident hv hplain
      exact absurd (hsame text node hparse) hdiffers
  · intro h
    refine ⟨_, hcolumns, fun text node hparse => ?_⟩
    rw [evaluate_snapshotData h.ne_empty, evaluate_jsonColumns]
    apply evaluateNode_congr
    intro column hcolumn
    rw [lookup_columns, lookup_columns]
    cases hv : row.columns[column]? with
    | none => rfl
    | some v =>
      rw [Option.map_some, Option.map_some, snapshotValue_of_plain (h.plain column v (columns_of_parse hparse column hcolumn) hv)]

theorem snapshot_row_number : ∃ columns,
    extractRowColumns rowAJson (str "\x7b\"columns\":\x7b\"a\":5\x7d,\"key\":\"k\"\x7d") = some columns ∧
      ∀ text node, Predicate.parse text = .ok node →
        Predicate.evaluate node (snapshotData (rowA 5)) = Predicate.evaluate node columns := by
  refine (snapshot_row_iff rowAJson (rowA 5) (str "\x7b\"columns\":\x7b\"a\":5\x7d,\"key\":\"k\"\x7d") (by decide)).2
    ⟨by decide, fun column v _ hv => ?_⟩
  have hcolumns : (rowA 5).columns = (∅ : Columns).insert (str "a") (.int64 5) := rfl
  rw [hcolumns, Std.ExtTreeMap.getElem?_insert] at hv
  split at hv
  · cases hv
    rfl
  · rw [Std.ExtTreeMap.getElem?_empty] at hv
    cases hv

/-- A row without columns. -/
def rowBare : Row := { key := str "k" }

def rowBareJson : JsonLib := .ofTable [(rowJson rowBare, str "\x7b\"columns\":\x7b\x7d,\"key\":\"k\"\x7d")] (by decide)

/-- The events have the column as missing, the snapshot has no row to look at. -/
theorem snapshot_row_bare : ∃ value node columns, serializeRow rowBareJson rowBare = some value ∧
    Predicate.parse (str "a IS NULL") = .ok node ∧ extractRowColumns rowBareJson value = some columns ∧
    Predicate.evaluate node columns = true ∧ Predicate.evaluate node (snapshotData rowBare) = false := by
  have hvalue : serializeRow rowBareJson rowBare = some (str "\x7b\"columns\":\x7b\x7d,\"key\":\"k\"\x7d") := by decide
  have hcolumns : extractRowColumns rowBareJson (str "\x7b\"columns\":\x7b\x7d,\"key\":\"k\"\x7d") = some (.object []) := by
    decide
  exact ⟨_, _, _, hvalue, parse_isNull isIdent_a, hcolumns, rfl, rfl⟩

end

end OriginDB
