import OriginDB.Changefeed.Subscription
/-!
# The SQL parser (`SqlParser::Parse`, `src/sql/sql_engine.cpp:316-479`)

A statement is classified by the first of four regular expressions that occurs anywhere in the upper-cased
text: INSERT, CREATE TABLE, SELECT, UPDATE. Identifiers are then cut out of the original text at the
positions of that match; the values of an INSERT and the SET list of an UPDATE come from a second search,
in the original text, which finds nothing when the keywords are in lower case.
-/
namespace OriginDB

open JsonDoc ByteCodec Regex

/-- The statement types a text can have here; no parser builds the others of `StatementType`. -/
inductive StatementType where
  | select | insert | update | delete | createTable
deriving DecidableEq

structure SqlStatement where
  type : StatementType
  tableName : Bytes := []
  columns : List Bytes := []
  values : List Value := []
  whereClause : Bytes := []
  tableSchema : TableSchema := ⟨[], [], []⟩
  rawSql : Bytes
deriving DecidableEq

namespace SqlParser

/-- `std::transform(…, ::toupper)`. -/
def upper (sql : Bytes) : Bytes := sql.map toUpper

section Patterns
open Pattern

/-- `INSERT\s+INTO\s+(\w+)\s*(?:\((.*?)\))?\s*VALUES\s*\((.*)\)`. -/
def insertPattern : Pattern :=
  all [lit (str "INSERT"), plus true isSpace, lit (str "INTO"), plus true isSpace, .group 1 (plus true isWord),
    .many true isSpace, opt (all [lit (str "("), .group 2 (.many false isDot), lit (str ")")]), .many true isSpace,
    lit (str "VALUES"), .many true isSpace, lit (str "("), .group 3 (.many true isDot), lit (str ")")]

/-- `CREATE\s+TABLE\s+(\w+)\s*\((.*)\)`. -/
def createPattern : Pattern :=
  all [lit (str "CREATE"), plus true isSpace, lit (str "TABLE"), plus true isSpace, .group 1 (plus true isWord),
    .many true isSpace, lit (str "("), .group 2 (.many true isDot), lit (str ")")]

/-- `SELECT\s+.*\s+FROM\s+(\w+)`. -/
def selectPattern : Pattern :=
  all [lit (str "SELECT"), plus true isSpace, .many true isDot, plus true isSpace, lit (str "FROM"), plus true isSpace,
    .group 1 (plus true isWord)]

/-- `UPDATE\s+(\w+)\s+SET\s+(.*?)(?:\s+WHERE\s+(.*))?$`. -/
def updatePattern : Pattern :=
  all [lit (str "UPDATE"), plus true isSpace, .group 1 (plus true isWord), plus true isSpace, lit (str "SET"),
    plus true isSpace, .group 2 (.many false isDot),
    opt (all [plus true isSpace, lit (str "WHERE"), plus true isSpace, .group 3 (.many true isDot)]), .atEnd]

/-- `\w+`. -/
def columnPattern : Pattern := plus true isWord

/-- `'([^']*)'|([^,\s]+)`. -/
def valuePattern : Pattern :=
  .alt (all [lit (str "'"), .group 1 (.many true fun c => c ≠ 39), lit (str "'")])
    (.group 2 (plus true fun c => c ≠ 44 && !isSpace c))

/-- `(\w+)\s*=\s*([^,]+)`. -/
def setPattern : Pattern :=
  all [.group 1 (plus true isWord), .many true isSpace, lit (str "="), .many true isSpace,
    .group 2 (plus true fun c => c ≠ 44)]

end Patterns

/-- An unquoted value: a number if it reads as one, the text itself otherwise. -/
def parseValue (value : Bytes) : Value :=
  if 46 ∈ value then
    match Numbers.stod value with
    | some bits => .double bits
    | none => .string value
  else
    match Numbers.stoll value with
    | some v => .int64 v
    | none => .string value

/-- The value list of an INSERT (sql_engine.cpp:356-381). -/
def parseValues (values : Bytes) : List Value :=
  (findAll valuePattern values).map fun m =>
    if m.matched 1 then .string (m.str 1 values) else parseValue (m.str 2 values)

def isBlank (c : UInt8) : Bool := c = 32 || c = 9

/-- A value of a SET list (sql_engine.cpp:445-464): trimmed, and without its quotes if it has them. The code
asks an empty text for its first character, which is the terminator and no quote. -/
def parseSetValue (text : Bytes) : Value :=
  let value := ((text.dropWhile isBlank).reverse.dropWhile isBlank).reverse
  if value.head? = some 39 ∧ value.getLast? = some 39 then .string ((value.drop 1).take (value.length - 2))
  else parseValue value

def parseSet (clause : Bytes) : List (Bytes × Value) :=
  (findAll setPattern clause).map fun m => (m.str 1 clause, parseSetValue (m.str 2 clause))

/-- The columns every table created here gets (sql_engine.cpp:393-411). -/
def defaultColumns : List Column :=
  [{ name := str "id", type := .int64, isPrimaryKey := true }, { name := str "name", type := .string },
   { name := str "email", type := .string }]

def parseInsert (sql : Bytes) (m : Match) : SqlStatement :=
  let columns := m.str 2 (upper sql)
  { type := .insert, tableName := m.str 1 sql, rawSql := sql
    columns := if columns ≠ [] then (findAll columnPattern columns).map fun c => c.text columns
      else [str "id", str "name", str "email"]
    values := match search insertPattern sql with
      | some original => parseValues (original.str 3 sql)
      | none => [] }

def parseUpdate (sql : Bytes) (m : Match) : SqlStatement :=
  let set := match search updatePattern sql with
    | some original => parseSet (original.str 2 sql)
    | none => []
  { type := .update, tableName := m.str 1 sql, rawSql := sql, columns := set.map Prod.fst, values := set.map Prod.snd
    whereClause := if m.matched 3 then m.str 3 (upper sql) else [] }

/-- `SqlParser::Parse`. -/
def parse (sql : Bytes) : Option SqlStatement :=
  match search insertPattern (upper sql) with
  | some m => some (parseInsert sql m)
  | none =>
    match search createPattern (upper sql) with
    | some m => some { type := .createTable, tableSchema := ⟨m.str 1 sql, defaultColumns, [str "id"]⟩, rawSql := sql }
    | none =>
      match search selectPattern (upper sql) with
      | some m => some { type := .select, tableName := m.str 1 sql, rawSql := sql }
      | none =>
        match search updatePattern (upper sql) with
        | some m => some (parseUpdate sql m)
        | none => none

example : (parse (str "insert into Users (Id, Name) values (7, 'Bob')")).map (fun s => (s.tableName, s.columns, s.values)) =
    some (str "Users", [str "ID", str "NAME"], []) := by decide

example : (parse (str "UPDATE t SET a=1.5, b='x y' WHERE id=3")).map
    (fun s => (s.columns, s.values, s.whereClause)) =
    some ([str "a", str "b"], [.double 0x3ff8000000000000, .string (str "x y")], str "ID=3") := by decide

/-! ## Classification -/

/-- **A text is a SELECT exactly when** no INSERT and no CREATE TABLE occurs in it and a SELECT does. -/
theorem parse_select_iff {sql : Bytes} : (∃ stmt, parse sql = some stmt ∧ stmt.type = .select) ↔
    ¬ insertPattern.Occurs (upper sql) ∧ ¬ createPattern.Occurs (upper sql) ∧ selectPattern.Occurs (upper sql) := by
  rw [← search_isSome, ← search_isSome, ← search_isSome, parse]
  cases search insertPattern (upper sql) with
  | some m =>
    simp only [Option.some.injEq, Option.isSome_some, not_true_eq_false, false_and, iff_false]
    rintro ⟨stmt, rfl, h⟩
    cases h
  | none =>
    cases search createPattern (upper sql) with
    | some m =>
      simp only [Option.some.injEq, Option.isSome_some, not_true_eq_false, false_and, and_false, iff_false]
      rintro ⟨stmt, rfl, h⟩
      cases h
    | none =>
      cases search selectPattern (upper sql) with
      | some m => simp
      | none =>
        simp only [Option.isSome_none, Bool.false_eq_true, and_false, iff_false]
        cases search updatePattern (upper sql) with
        | some m =>
          rintro ⟨stmt, h, ht⟩
          cases h
          cases ht
        | none =>
          rintro ⟨stmt, h, -⟩
          cases h

end SqlParser

end OriginDB
