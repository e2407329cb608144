import OriginDB.Lib.Json
import OriginDB.Storage.Table
/-!
# The JSON encoding of schemas and rows (`src/storage/storage_engine.cpp:586-754`)

`SerializeSchema` goes into the WAL and the snapshot, `SerializeRow` into the snapshot and the
changefeed. Unlike the binary codec, JSON has one integer type, one floating-point type and no byte
strings or times, so a row comes back with the columns of `reloadColumns` (`deserializeRow_serializeRow`).
-/
namespace OriginDB

open JsonDoc JsonDoc.Json

/-! ## Schemas -/

def columnJson (c : Column) : Json :=
  .object [(str "is_primary_key", .bool c.isPrimaryKey), (str "name", .string c.name),
    (str "nullable", .bool c.nullable), (str "type", .int c.type.toInt)]

def schemaJson (s : TableSchema) : Json :=
  .object [(str "columns", .array (s.columns.map columnJson)), (str "name", .string s.name),
    (str "primary_key", .array (s.primaryKey.map .string))]

/-- `SerializeSchema` (storage_engine.cpp:586); `none` is the exception of `dump`. -/
def serializeSchema (J : JsonLib) (s : TableSchema) : Option Bytes := J.dump (schemaJson s)

def jsonColumn (j : Json) : Option Column := do
  let name ← asString (← j.constMember (str "name"))
  let type ← asInt32 (← j.constMember (str "type"))
  let nullable ← asBool (← j.constMember (str "nullable"))
  let isPrimaryKey ← asBool (← j.constMember (str "is_primary_key"))
  return ⟨name, .ofInt32 type, nullable, isPrimaryKey⟩

def jsonSchema (j : Json) : Option TableSchema := do
  let name ← asString (← j.member (str "name"))
  let primaryKey ← asStrings (← j.member (str "primary_key"))
  let columns ← (← j.member (str "columns")).elements.mapM jsonColumn
  return ⟨name, columns, primaryKey⟩

/-- `DeserializeSchema` (storage_engine.cpp:617). -/
def deserializeSchema (J : JsonLib) (data : Bytes) : Option TableSchema :=
  if data = [] then none else J.parse data >>= jsonSchema

theorem reparsed_columnJson (c : Column) : (columnJson c).reparsed = columnJson c := rfl

theorem reparsed_schemaJson (s : TableSchema) : (schemaJson s).reparsed = schemaJson s := by
  have hcols : (s.columns.map columnJson).map reparsed = s.columns.map columnJson := by
    rw [List.map_map]
    exact List.map_congr_left fun c _ => reparsed_columnJson c
  have hkeys : (s.primaryKey.map Json.string).map reparsed = s.primaryKey.map Json.string := by
    rw [List.map_map]
    exact List.map_congr_left fun k _ => rfl
  simp only [schemaJson, reparsed, reparsedObject, reparsedList_eq, hcols, hkeys]

theorem jsonColumn_columnJson (c : Column) : jsonColumn (columnJson c) = some c := by
  have h : jsonColumn (columnJson c) =
      some ⟨c.name, .ofInt32 (Int32.ofInt c.type.toInt), c.nullable, c.isPrimaryKey⟩ := rfl
  rw [h, DataType.ofInt32_toInt]

theorem mapM_some {α β : Type} {f : α → Option β} {g : β → α} (h : ∀ b, f (g b) = some b) (l : List β) :
    (l.map g).mapM f = some l := by
  induction l with
  | nil => rfl
  | cons b l ih => simp [List.mapM_cons, h, ih]

theorem jsonSchema_schemaJson (s : TableSchema) : jsonSchema (schemaJson s) = some s := by
  have hcols : (s.columns.map columnJson).mapM jsonColumn = some s.columns := mapM_some jsonColumn_columnJson _
  have hkeys : (s.primaryKey.map Json.string).mapM asString = some s.primaryKey :=
    mapM_some (f := asString) (g := Json.string) (fun _ => rfl) _
  have h : jsonSchema (schemaJson s) = ((s.primaryKey.map Json.string).mapM asString).bind fun pk =>
      ((s.columns.map columnJson).mapM jsonColumn).bind fun cols => some ⟨s.name, cols, pk⟩ := rfl
  rw [h, hcols, hkeys]
  rfl

/-- A schema survives its JSON. -/
theorem deserializeSchema_serializeSchema (J : JsonLib) {s : TableSchema} {b : Bytes}
    (h : serializeSchema J s = some b) : deserializeSchema J b = some s := by
  have hne : b ≠ [] := by
    rintro rfl
    exact J.dump_ne_nil h
  rw [deserializeSchema, if_neg hne, J.parse_dump _ _ h, reparsed_schemaJson]
  exact jsonSchema_schemaJson s

/-! ## Rows -/

/-- `float` to `double`, on the bits. -/
def widen (bits : UInt32) : UInt64 :=
  let sign := (bits >>> 31).toUInt64 <<< 63
  let exp := ((bits >>> 23) &&& 0xff).toNat
  let man := (bits &&& 0x7fffff).toNat
  if exp = 255 then sign ||| 0x7ff0000000000000 ||| UInt64.ofNat (man * 2 ^ 29)
  else if exp = 0 then
    if man = 0 then sign
    else
      -- a subnormal float is a normal double
      let k := man.log2
      sign ||| UInt64.ofNat ((k + 874) * 2 ^ 52 + (man - 2 ^ k) * 2 ^ (52 - k))
  else sign ||| UInt64.ofNat ((exp + 896) * 2 ^ 52 + man * 2 ^ 29)

/-- The visitor of `SerializeRow` (storage_engine.cpp:680-702). -/
def valueJson : Value → Json
  | .null => .null
  | .string s => .string s
  | .int32 v => .int v.toInt
  | .int64 v => .int v.toInt
  | .float bits => .float (widen bits)
  | .double bits => .float bits
  | .bool b => .bool b
  | .bytes b => .binary b
  | .timestamp _ => .null

def rowJson (row : Row) : Json :=
  .object [(str "columns", .object (row.columns.toList.map fun p => (p.1, valueJson p.2))), (str "key", .string row.key)]

/-- `SerializeRow` (storage_engine.cpp:665). -/
def serializeRow (J : JsonLib) (row : Row) : Option Bytes := J.dump (rowJson row)

/-- Rows are printed without their version and time. -/
theorem serializeRow_congr (J : JsonLib) {r r' : Row} (hk : r'.key = r.key) (hc : r'.columns = r.columns) :
    serializeRow J r' = serializeRow J r := by
  simp only [serializeRow, rowJson, hk, hc]

/-- The type tests of `DeserializeRow` (storage_engine.cpp:736-748); an array or an object passes none. -/
def jsonValue : Json → Option Value
  | .null => some .null
  | .string s => some (.string s)
  | .int v => some (.int64 (Int64.ofInt v))
  | .float bits => some (.double bits)
  | .bool b => some (.bool b)
  | .binary b => some (.bytes b)
  | .array _ | .object _ => none

def jsonColumns (items : List (Bytes × Json)) : Columns :=
  items.foldl (fun cols p => match jsonValue p.2 with
    | some v => cols.insert p.1 v
    | none => cols) ∅

def jsonRow (j : Json) : Option Row := do
  let key ← asString (← j.member (str "key"))
  return { key := key, columns := jsonColumns (← j.member (str "columns")).items }

/-- `DeserializeRow` (storage_engine.cpp:711). -/
def deserializeRow (J : JsonLib) (data : Bytes) : Option Row :=
  if data = [] then none else J.parse data >>= jsonRow

/-! ## What comes back -/

/-- A value after `SerializeRow` and `DeserializeRow`; `none` is a column that is gone. -/
def reloadValue (v : Value) : Option Value := jsonValue (valueJson v).reparsed

/-- The alternatives JSON has a counterpart for. -/
def Value.Lossless : Value → Bool
  | .null | .int64 _ | .string _ | .bool _ => true
  | .double bits => !nonFinite bits
  | .int32 _ | .float _ | .bytes _ | .timestamp _ => false

theorem reloadValue_eq_iff (v : Value) : reloadValue v = some v ↔ v.Lossless := by
  cases v with
  | int64 v => simp [reloadValue, valueJson, reparsed, jsonValue, Value.Lossless]
  | double bits =>
    cases h : nonFinite bits <;> simp [reloadValue, valueJson, reparsed, jsonValue, Value.Lossless, h]
  | float bits =>
    cases h : nonFinite (widen bits) <;> simp [reloadValue, valueJson, reparsed, jsonValue, Value.Lossless, h]
  | _ => simp [reloadValue, valueJson, reparsed, jsonValue, Value.Lossless]

def reloadColumns (cols : Columns) : Columns :=
  jsonColumns (cols.toList.map fun p => (p.1, (valueJson p.2).reparsed))

theorem jsonColumns_eq (items : List (Bytes × Json)) :
    jsonColumns items = OrdMap.insertAll ∅ (items.filterMap fun p => (jsonValue p.2).map fun v => (p.1, v)) := by
  refine OrdMap.foldl_eq_insertAll (fun m p q h => ?_) (fun m p h => ?_) items ∅
  · obtain ⟨v, hv, rfl⟩ := Option.map_eq_some_iff.1 h
    rw [hv]
  · rw [Option.map_eq_none_iff.1 h]

theorem getElem?_reloadColumns (cols : Columns) (c : Bytes) : (reloadColumns cols)[c]? = cols[c]?.bind reloadValue := by
  rw [reloadColumns, jsonColumns_eq, List.filterMap_map]
  exact OrdMap.getElem?_insertAll_filterMap (List.Perm.refl _) (fun _ => reloadValue) c

/-- A row comes back with the columns it had exactly when JSON has each of their values. -/
theorem reloadColumns_eq_iff (cols : Columns) :
    reloadColumns cols = cols ↔ ∀ (c : Bytes) (v : Value), cols[c]? = some v → v.Lossless := by
  constructor
  · intro h c v hc
    have hr := getElem?_reloadColumns cols c
    rw [h, hc, Option.bind_some] at hr
    exact (reloadValue_eq_iff v).1 hr.symm
  · intro h
    refine Std.ExtTreeMap.ext_getElem? fun c => ?_
    rw [getElem?_reloadColumns]
    cases hc : cols[c]? with
    | none => rfl
    | some v => exact (reloadValue_eq_iff v).2 (h c v hc)

theorem deserializeRow_serializeRow (J : JsonLib) {row : Row} {b : Bytes} (h : serializeRow J row = some b) :
    deserializeRow J b = some { key := row.key, columns := reloadColumns row.columns } := by
  have hne : b ≠ [] := by
    rintro rfl
    exact J.dump_ne_nil h
  have hre : (rowJson row).reparsed = .object
      [(str "columns", .object (row.columns.toList.map fun p => (p.1, (valueJson p.2).reparsed))),
       (str "key", .string row.key)] := by
    simp only [rowJson, reparsed, reparsedObject, reparsedObject_eq, List.map_map]
    rfl
  rw [deserializeRow, if_neg hne, J.parse_dump _ _ h, hre]
  rfl

end OriginDB
