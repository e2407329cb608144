import OriginDB.Sql.Parser
import OriginDB.Storage.Store
/-!
# Executing SQL (`SqlEngine::Impl`, `src/sql/sql_engine.cpp:32-310`)

`Execute` parses a text and runs it against the storage engine. `SendInitialState` gives it the text of a
subscription, which `SqlSubscriptionParser` has accepted as a SELECT. The two parsers do not agree: the
text leaves the storage engine alone exactly when no INSERT and no CREATE TABLE occurs in it, string
literals included (`subscribe_reads_only_iff`).
-/
namespace OriginDB

open JsonDoc ByteCodec Regex

/-- `SqlResult::Column`. -/
structure ResultColumn where
  name : Bytes
  type : Bytes
  nullable : Bool
deriving DecidableEq

/-- `SqlResult` (sql_engine.h:53). -/
structure SqlResult where
  success : Bool := false
  error : Bytes := []
  columns : List ResultColumn := []
  rows : List Row := []
  rowsAffected : UInt64 := 0
  executionTimeMs : UInt64 := 0
deriving DecidableEq

inductive Executed where
  | returned (r : SqlResult) (s : Store)
  | threw (s : Store)
  /-- The first of no values was asked for. -/
  | undefined

namespace Executed

/-- The storage engine afterwards, if there is an afterwards. -/
def store : Executed → Option Store
  | .returned _ s | .threw s => some s
  | .undefined => none

end Executed

namespace SqlEngine

def failed (error : Bytes) : SqlResult := { success := false, error := error }

/-- `DataTypeToString` (sql_engine.cpp:284). -/
def dataTypeToString : DataType → Bytes
  | .int32 => str "INT32" | .int64 => str "INT64" | .float => str "FLOAT" | .double => str "DOUBLE"
  | .string => str "STRING" | .bytes => str "BYTES" | .boolean => str "BOOLEAN" | .timestamp => str "TIMESTAMP"
  | .json => str "JSON" | .other _ _ => str "UNKNOWN"

/-- The key a row gets from its first value (sql_engine.cpp:113-124). -/
def keyText : Value → Bytes
  | .string s => s
  | .int64 v => Numbers.intText v.toInt
  | .double bits => Numbers.doubleText bits
  | _ => str "unknown"

def setColumns (columns : List Bytes) (values : List Value) (row : Row) : Row :=
  { row with columns := (columns.zip values).foldl (fun cols p => cols.insert p.1 p.2) row.columns }

section
variable (env : Env) (maxLag : Nat) (io : Nat → Io)

/-- `storage_->Update`, the last resort of an INSERT. -/
def convertToUpdate (s : Store) (table key : Bytes) (row : Row) : Executed :=
  match s.commit env maxLag (io 1) [⟨.update, table, { row with key := key }⟩] with
  | .threw s => .threw s
  | .returned true s => .returned { success := true, executionTimeMs := 1 } s
  | .returned false s => .returned (failed (str "Failed to convert INSERT to UPDATE")) s

/-- `ExecuteInsert` (sql_engine.cpp:105). -/
def executeInsert (s : Store) (stmt : SqlStatement) : Executed :=
  match stmt.values with
  | [] => .undefined
  | value :: _ =>
    match s.getTable stmt.tableName with
    | none => .returned (failed (str "Table not found: " ++ stmt.tableName)) s
    | some _ =>
      let row := setColumns stmt.columns stmt.values { key := keyText value }
      match s.commit env maxLag (io 0) [⟨.insert, stmt.tableName, row⟩] with
      | .threw s => .threw s
      | .returned true s => .returned { success := true, rowsAffected := 1 } s
      | .returned false s =>
        match s.get stmt.tableName row.key with
        | some old => convertToUpdate env maxLag io s stmt.tableName row.key (setColumns stmt.columns stmt.values old)
        | none => convertToUpdate env maxLag io s stmt.tableName row.key row

/-- `ExecuteSelect` (sql_engine.cpp:196): all rows of the table. -/
def executeSelect (s : Store) (stmt : SqlStatement) : SqlResult :=
  match s.getTable stmt.tableName with
  | none => failed (str "Table not found: " ++ stmt.tableName)
  | some t =>
    { success := true
      columns := t.schema.columns.map fun c => ⟨c.name, dataTypeToString c.type, c.nullable⟩
      rows := (t.scan [] []).map Prod.snd }

open Pattern in
/-- `(\w+)\s*=\s*([^,\s]+)` (sql_engine.cpp:245). -/
def wherePattern : Pattern :=
  all [.group 1 (plus true isWord), .many true isSpace, lit (str "="), .many true isSpace,
    .group 2 (plus true fun c => c ≠ 44 && !isSpace c)]

/-- `ExecuteUpdate` (sql_engine.cpp:223). -/
def executeUpdate (s : Store) (stmt : SqlStatement) : Executed :=
  match s.getTable stmt.tableName with
  | none => .returned (failed (str "Table not found: " ++ stmt.tableName)) s
  | some _ =>
    if stmt.whereClause = [] then
      .returned (failed (str "UPDATE requires WHERE clause to specify which rows to update")) s
    else match search wherePattern stmt.whereClause with
      | none => .returned (failed (str "Invalid WHERE clause format. Expected: column=value")) s
      | some m =>
        let column := m.str 1 stmt.whereClause
        let text := m.str 2 stmt.whereClause
        let key := if text.head? = some 39 ∧ text.getLast? = some 39 then (text.drop 1).take (text.length - 2) else text
        match s.get stmt.tableName key with
        | none => .returned (failed (str "No row found with " ++ column ++ str "=" ++ key)) s
        | some row =>
          match s.commit env maxLag (io 0)
              [⟨.update, stmt.tableName, { setColumns stmt.columns stmt.values row with key := key }⟩] with
          | .threw s => .threw s
          | .returned true s => .returned { success := true, rowsAffected := 1 } s
          | .returned false s => .returned (failed (str "Failed to update row")) s

/-- `ExecuteCreateTable` (sql_engine.cpp:97). -/
def executeCreateTable (s : Store) (stmt : SqlStatement) : Executed :=
  match s.createTable env stmt.tableSchema with
  | .threw s => .threw s
  | .returned true s => .returned { success := true } s
  | .returned false s => .returned (failed (str "Failed to create table")) s

/-- `Execute` (sql_engine.cpp:32). -/
def execute (s : Store) (sql : Bytes) : Executed :=
  match SqlParser.parse sql with
  | none => .returned (failed (str "Failed to parse SQL statement")) s
  | some stmt =>
    match stmt.type with
    | .createTable => executeCreateTable env s stmt
    | .insert => executeInsert env maxLag io s stmt
    | .select => .returned (executeSelect s stmt) s
    | .update => executeUpdate env maxLag io s stmt
    | .delete => .returned (failed (str "DELETE not implemented in prototype")) s

end

end SqlEngine

/-! ## A text the subscription parser accepts -/

theorem map_toUpper_of_litI {w s : Bytes} (h : w.map toLower = s.map toLower) : w.map toUpper = s.map toUpper := by
  have hup : ∀ l : Bytes, (l.map toLower).map toUpper = l.map toUpper := fun l => by
    rw [List.map_map]
    exact List.map_congr_left fun c _ => toUpper_toLower c
  rw [← hup w, h, hup s]

theorem all_map {p : UInt8 → Bool} (hp : ∀ c, p (toUpper c) = p c) {w : Bytes} (h : ∀ x ∈ w, p x = true) :
    ∀ x ∈ w.map toUpper, p x = true := by
  intro x hx
  obtain ⟨c, hc, rfl⟩ := List.mem_map.1 hx
  rw [hp]
  exact h c hc

/-- What is trimmed off stands before and after. -/
theorem SqlSubscriptionParser.eq_around_trim (s : Bytes) : ∃ a b, s = a ++ SqlSubscriptionParser.trim s ++ b := by
  have h₁ := List.takeWhile_append_dropWhile (p := isTrimmed) (l := s)
  have h₂ := List.takeWhile_append_dropWhile (p := isTrimmed) (l := (s.dropWhile isTrimmed).reverse)
  have h₃ := congrArg List.reverse h₂
  rw [List.reverse_append, List.reverse_reverse] at h₃
  refine ⟨s.takeWhile isTrimmed, ((s.dropWhile isTrimmed).reverse.takeWhile isTrimmed).reverse, ?_⟩
  rw [SqlSubscriptionParser.trim, List.append_assoc, h₃, h₁]

/-- An accepted subscription is a SELECT for the SQL parser too, if it is nothing before that. -/
theorem selectPattern_occurs {query id client : Bytes} {sub : SqlSubscription}
    (h : SqlSubscriptionParser.parse query id client = some sub) :
    SqlParser.selectPattern.Occurs (SqlParser.upper query) := by
  have hm : SqlSubscriptionParser.selectPattern.Matches [] (SqlSubscriptionParser.trim query) [] := by
    rw [← fullMatch_isSome]
    simp only [SqlSubscriptionParser.parse] at h
    split at h
    · cases h
    · rename_i hm
      rw [hm]
      rfl
  obtain ⟨a, b, hq⟩ := SqlSubscriptionParser.eq_around_trim query
  rw [SqlSubscriptionParser.selectPattern] at hm
  obtain ⟨w₁, r₁, h₁, hw₁, s₁, r₂, h₂, hs₁, c, r₃, h₃, hc, s₂, r₄, h₄, hs₂, w₂, r₅, h₅, hw₂, s₃, r₆, h₆, hs₃, t, r₇, h₇,
    ht, -⟩ := hm
  rw [matches_litI] at hw₁ hw₂
  rw [matches_plus] at hs₁ hs₂ hs₃
  rw [matches_group, matches_many] at hc
  rw [matches_group, matches_plus] at ht
  have hspace : ∀ {s l r : Bytes}, s ≠ [] ∧ (∀ x ∈ s, isSpace x = true) →
      (Pattern.plus true isSpace).Matches l (s.map toUpper) r := fun hs =>
    matches_plus.2 ⟨by simpa using hs.1, all_map isSpace_toUpper hs.2⟩
  refine ⟨a.map toUpper, (w₁ ++ (s₁ ++ (c ++ (s₂ ++ (w₂ ++ (s₃ ++ t)))))).map toUpper, (r₇ ++ b).map toUpper, ?_, ?_⟩
  · rw [SqlParser.upper, hq, h₁, h₂, h₃, h₄, h₅, h₆, h₇]
    simp only [List.map_append, List.append_assoc]
  · simp only [List.map_append]
    refine ⟨_, _, rfl, matches_lit.2 ((map_toUpper_of_litI hw₁).trans (by decide)), _, _, rfl, hspace hs₁, _, _, rfl,
      all_map isDot_toUpper hc, _, _, rfl, hspace hs₂, _, _, rfl,
      matches_lit.2 ((map_toUpper_of_litI hw₂).trans (by decide)), _, _, rfl, hspace hs₃, ?_⟩
    exact matches_plus.2 ⟨by simpa using ht.1, all_map isWord_toUpper ht.2⟩

/-- **Subscribing only reads exactly when** no INSERT and no CREATE TABLE occurs in the upper-cased text. -/
theorem subscribe_reads_only_iff (env : Env) (maxLag : Nat) (io : Nat → Io) (s : Store) (query id client : Bytes)
    (sub : SqlSubscription) (h : SqlSubscriptionParser.parse query id client = some sub) :
    ((∃ stmt, SqlParser.parse query = some stmt ∧ stmt.type = .select) ∧
      (SqlEngine.execute env maxLag io s query).store = some s) ↔
    ¬ SqlParser.insertPattern.Occurs (SqlParser.upper query) ∧ ¬ SqlParser.createPattern.Occurs (SqlParser.upper query) := by
  constructor
  · rintro ⟨hsel, -⟩
    obtain ⟨hins, hcre, -⟩ := SqlParser.parse_select_iff.1 hsel
    exact ⟨hins, hcre⟩
  · rintro ⟨hins, hcre⟩
    have hsel := SqlParser.parse_select_iff.2 ⟨hins, hcre, selectPattern_occurs h⟩
    obtain ⟨stmt, hp, ht⟩ := hsel
    refine ⟨⟨stmt, hp, ht⟩, ?_⟩
    rw [SqlEngine.execute, hp]
    simp only [ht]
    rfl

/-- `SELECT * FROM t WHERE a > 3` over an empty table. -/
theorem subscribe_reads_only_aboveThree : ∃ sub,
    SqlSubscriptionParser.parse (str "SELECT * FROM t WHERE a > 3") (str "sql_sub_1") (str "c") = some sub ∧
    (∃ stmt, SqlParser.parse (str "SELECT * FROM t WHERE a > 3") = some stmt ∧ stmt.type = .select) ∧
    (SqlEngine.execute rowAEnv 100000 (fun _ => {}) { engine := emptyTable } (str "SELECT * FROM t WHERE a > 3")).store =
      some { engine := emptyTable } := by
  refine ⟨aboveThree, rfl, (subscribe_reads_only_iff rowAEnv 100000 (fun _ => {}) { engine := emptyTable } _ _ _ aboveThree
    rfl).2 ⟨?_, ?_⟩⟩
  · rw [← search_isSome]
    decide +kernel
  · rw [← search_isSome]
    decide

/-- A SELECT that has an INSERT in a string literal. -/
def smuggled : Bytes := str "SELECT * FROM t WHERE a = 'INSERT INTO t VALUES (1)'"

/-- The row it stores. -/
def smuggledRow : Row := { key := str "1", columns := (∅ : Columns).insert (str "id") (.int64 1) }

def smuggledEnv : Env where
  toJsonLib := .ofTable [(rowJson smuggledRow, str "\x7b\"columns\":\x7b\"id\":1\x7d,\"key\":\"1\"\x7d")] (by decide)
  order := .sorted

theorem subscribe_writes_smuggled : (SqlSubscriptionParser.parse smuggled (str "sql_sub_1") (str "c")).isSome ∧
    (SqlParser.parse smuggled).map SqlStatement.type = some .insert ∧
    ((SqlEngine.execute smuggledEnv 100000 (fun _ => {}) { engine := emptyTable } smuggled).store.bind fun s =>
      s.get (str "t") (str "1")) = some smuggledRow ∧
    ¬ ((∃ stmt, SqlParser.parse smuggled = some stmt ∧ stmt.type = .select) ∧
      (SqlEngine.execute smuggledEnv 100000 (fun _ => {}) { engine := emptyTable } smuggled).store =
        some { engine := emptyTable }) := by
  have htype : (SqlParser.parse smuggled).map SqlStatement.type = some .insert := by decide
  refine ⟨by decide, htype, by decide +kernel, ?_⟩
  rintro ⟨⟨stmt, hp, ht⟩, -⟩
  rw [hp, Option.map_some, ht] at htype
  cases htype

end OriginDB
