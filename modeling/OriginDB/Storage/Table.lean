import OriginDB.Lib.Bytes
import OriginDB.Lib.OrdMap
/-!
# Rows, schemas and the in-memory table (`include/storage/table.h`, `src/storage/mem_table.cpp`)

A `std::string` is a byte string. `std::map` and `std::unordered_map` keyed by strings are both
`Std.ExtTreeMap`, ordered bytewise as `std::string` compares; the iteration order of an
`unordered_map` is unspecified and enters through `HashOrder`. Floating-point values are bit
patterns, a `time_point` is its count of nanoseconds (libstdc++). `Column::default_value` and
`TableSchema::options` are read by no code and left out, as are the indexes.
-/
namespace OriginDB

open Std
export ByteCodec (Bytes)

abbrev StrMap (V : Type) := ExtTreeMap Bytes V

/-- The order in which an `unordered_map` is iterated: some listing of its entries. -/
structure HashOrder where
  list : {V : Type} → StrMap V → List (Bytes × V)
  perm : ∀ {V : Type} (m : StrMap V), (list m).Perm m.toList

/-- Iteration in key order, one of the orders an implementation may choose. -/
def HashOrder.sorted : HashOrder := ⟨fun m => m.toList, fun _ => List.Perm.refl _⟩

/-- `DataType` (table.h:15); `other` is any further `int` a `static_cast` may put there. -/
inductive DataType where
  | int32 | int64 | float | double | string | bytes | boolean | timestamp | json
  | other (code : Int32) (unnamed : code.toInt < 0 ∨ 8 < code.toInt)
deriving DecidableEq

def DataType.toInt : DataType → Int
  | .int32 => 0 | .int64 => 1 | .float => 2 | .double => 3 | .string => 4
  | .bytes => 5 | .boolean => 6 | .timestamp => 7 | .json => 8
  | .other code _ => code.toInt

def DataType.ofInt32 (code : Int32) : DataType :=
  if h : code.toInt < 0 ∨ 8 < code.toInt then .other code h
  else match code.toInt with
    | 0 => .int32 | 1 => .int64 | 2 => .float | 3 => .double | 4 => .string
    | 5 => .bytes | 6 => .boolean | 7 => .timestamp | _ => .json

theorem DataType.ofInt32_toInt (t : DataType) : ofInt32 (Int32.ofInt t.toInt) = t := by
  cases t with
  | other code h => simp [toInt, ofInt32, h]
  | _ => rfl

structure Column where
  name : Bytes
  type : DataType
  nullable : Bool := false
  isPrimaryKey : Bool := false
deriving DecidableEq

structure TableSchema where
  name : Bytes
  columns : List Column
  primaryKey : List Bytes
deriving DecidableEq

/-- `Value` (table.h:60), alternatives in variant order. -/
inductive Value where
  | null
  | int32 (v : Int32)
  | int64 (v : Int64)
  | float (bits : UInt32)
  | double (bits : UInt64)
  | string (s : Bytes)
  | bytes (b : Bytes)
  | bool (b : Bool)
  | timestamp (ns : Int64)
deriving DecidableEq

abbrev Columns := StrMap Value

/-- `Row` (table.h:73). -/
structure Row where
  key : Bytes := []
  columns : Columns := ∅
  version : UInt64 := 0
  timestamp : UInt64 := 0
deriving DecidableEq

/-- `MemTable::Impl`: the schema, the rows and the cached value-JSON of some of them. -/
structure MemTable where
  schema : TableSchema
  rows : StrMap Row := ∅
  jsonCache : StrMap Bytes := ∅

namespace MemTable

/-- `GetRowCount` (mem_table.cpp:16). -/
def getRowCount (t : MemTable) : UInt64 := UInt64.ofNat t.rows.size

/-- Bytes one value counts for in `GetSizeBytes` (mem_table.cpp:28-36). -/
def valueSize : Value → Nat
  | .null | .bool _ => 1
  | .int32 _ | .float _ => 4
  | .int64 _ | .double _ | .timestamp _ => 8
  | .string s => s.length
  | .bytes b => b.length

/-- `GetSizeBytes` (mem_table.cpp:21). -/
def getSizeBytes (t : MemTable) : UInt64 :=
  UInt64.ofNat (t.rows.toList.map fun (k, r) =>
    k.length + 16 + (r.columns.toList.map fun (c, v) => c.length + valueSize v).sum).sum

/-- `Insert` (mem_table.cpp:42); `none` is `return false`, which leaves the table as it was. -/
def insert (t : MemTable) (row : Row) : Option MemTable :=
  if t.rows[row.key]?.isSome then none
  else some { t with rows := t.rows.insert row.key row, jsonCache := t.jsonCache.erase row.key }

/-- `Update` (mem_table.cpp:56): the stored version plus one, the clock for a timestamp. -/
def update (t : MemTable) (key : Bytes) (row : Row) (now : UInt64) : Option MemTable :=
  match t.rows[key]? with
  | none => none
  | some old =>
    some { t with
      rows := t.rows.insert key { row with version := old.version + 1, timestamp := now }
      jsonCache := t.jsonCache.erase key }

/-- `Delete` (mem_table.cpp:77). -/
def delete (t : MemTable) (key : Bytes) : Option MemTable :=
  if t.rows[key]?.isSome then some { t with rows := t.rows.erase key, jsonCache := t.jsonCache.erase key }
  else none

/-- `Get` (mem_table.cpp:92). -/
def get (t : MemTable) (key : Bytes) : Option Row := t.rows[key]?

/-- `Scan` (mem_table.cpp:103): the rows the callback is offered, in key order. -/
def scan (t : MemTable) (startKey endKey : Bytes) : List (Bytes × Row) :=
  (t.rows.toList.dropWhile fun p => startKey ≠ [] && (compare p.1 startKey).isLT).takeWhile
    fun p => endKey = [] || (compare p.1 endKey).isLE

theorem scan_all (t : MemTable) : t.scan [] [] = t.rows.toList := by
  have hd : (t.rows.toList.dropWhile fun p => ([] : Bytes) ≠ [] && (compare p.1 []).isLT) = t.rows.toList := by
    cases t.rows.toList <;> rfl
  have ht : ∀ l : List (Bytes × Row), (l.takeWhile fun p => ([] : Bytes) = [] || (compare p.1 []).isLE) = l := by
    intro l
    induction l with
    | nil => rfl
    | cons p l ih => rw [List.takeWhile_cons_of_pos rfl, ih]
  rw [scan, hd, ht]

theorem getElem?_of_mem_scan {t : MemTable} {startKey endKey : Bytes} {p : Bytes × Row} (h : p ∈ t.scan startKey endKey) :
    t.rows[p.1]? = some p.2 := by
  have hmem : p ∈ t.rows.toList := (List.dropWhile_sublist _).subset ((List.takeWhile_sublist _).subset h)
  exact Std.ExtTreeMap.mem_toList_iff_getElem?_eq_some.1 hmem

theorem insert_eq_some {t t' : MemTable} {row : Row} (h : t.insert row = some t') :
    t.rows[row.key]? = none ∧ t'.schema = t.schema ∧ t'.rows = t.rows.insert row.key row := by
  unfold insert at h
  split at h
  · cases h
  · rename_i hn
    cases h
    exact ⟨by simpa using hn, rfl, rfl⟩

theorem insert_eq_none {t : MemTable} {row : Row} : t.insert row = none ↔ t.rows[row.key]?.isSome := by
  unfold insert
  split <;> simp_all

theorem update_eq_some {t t' : MemTable} {key : Bytes} {row : Row} {now : UInt64}
    (h : t.update key row now = some t') :
    ∃ old, t.rows[key]? = some old ∧ t'.schema = t.schema ∧
      t'.rows = t.rows.insert key { row with version := old.version + 1, timestamp := now } := by
  unfold update at h
  split at h
  · cases h
  · rename_i old hold
    cases h
    exact ⟨old, hold, rfl, rfl⟩

theorem update_eq_none {t : MemTable} {key : Bytes} {row : Row} {now : UInt64} :
    t.update key row now = none ↔ t.rows[key]? = none := by
  unfold update
  split <;> simp_all

theorem delete_eq_some {t t' : MemTable} {key : Bytes} (h : t.delete key = some t') :
    t.rows[key]?.isSome ∧ t'.schema = t.schema ∧ t'.rows = t.rows.erase key := by
  unfold delete at h
  split at h
  · rename_i hs
    cases h
    exact ⟨hs, rfl, rfl⟩
  · cases h

theorem delete_eq_none {t : MemTable} {key : Bytes} : t.delete key = none ↔ t.rows[key]? = none := by
  unfold delete
  split <;> simp_all

end MemTable

/-- `tables_` (storage_engine.cpp:562). -/
abbrev Tables := StrMap MemTable

/-- Every table is filed under its schema's name and every row under its own key. -/
structure WellKeyed (T : Tables) : Prop where
  name : ∀ (n : Bytes) (t : MemTable), T[n]? = some t → t.schema.name = n
  key : ∀ (n : Bytes) (t : MemTable), T[n]? = some t → ∀ (k : Bytes) (r : Row), t.rows[k]? = some r → r.key = k

/-- Tables by name: a schema, and what is kept of the row under each key. -/
abbrev DbOf (α : Type) := Bytes → Option (TableSchema × (Bytes → Option α))

def viewBy {α : Type} (f : Row → α) (T : Tables) : DbOf α := fun n =>
  T[n]?.map fun t => (t.schema, fun k => t.rows[k]?.map f)

/-- What a reader of the database sees: the tables with their schemas, the keys and their columns. -/
abbrev Db := DbOf Columns

abbrev view (T : Tables) : Db := viewBy Row.columns T

theorem viewBy_eq_some {α : Type} {f : Row → α} {T : Tables} {n : Bytes} {t : MemTable} (h : T[n]? = some t) :
    viewBy f T n = some (t.schema, fun k => t.rows[k]?.map f) := by
  rw [viewBy, h]
  rfl

theorem viewBy_eq_none {α : Type} {f : Row → α} {T : Tables} {n : Bytes} (h : T[n]? = none) : viewBy f T n = none := by
  rw [viewBy, h]
  rfl

theorem view_eq_some {T : Tables} {n : Bytes} {t : MemTable} (h : T[n]? = some t) :
    view T n = some (t.schema, fun k => t.rows[k]?.map Row.columns) := viewBy_eq_some h

theorem view_eq_none {T : Tables} {n : Bytes} (h : T[n]? = none) : view T n = none := viewBy_eq_none h

/-- `StorageEngine::Stats` (storage_engine.h:79), less `wal_size`, which is computed when asked for. -/
structure Stats where
  totalTables : UInt64 := 0
  totalRows : UInt64 := 0
  totalBytes : UInt64 := 0
  transactionsCommitted : UInt64 := 0
  transactionsAborted : UInt64 := 0
deriving DecidableEq

/-- What `tables_mutex_` protects: `tables_` and `stats_`. -/
structure Engine where
  tables : Tables := ∅
  stats : Stats := {}

end OriginDB
