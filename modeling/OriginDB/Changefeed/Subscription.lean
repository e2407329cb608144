import OriginDB.Changefeed.Events
import OriginDB.Changefeed.Predicate
/-!
# SQL subscriptions (`src/changefeed/sql_subscription.cpp`)

A subscription is parsed from a `SELECT`, filed under its table and asked about every event. With a WHERE
clause, what `MatchesEvent` looks at depends on the operation: a DELETE is judged by the old row, an
UPDATE by either, an INSERT by the new one. An INSERT that hit an existing key keeps its name, so the
row it replaced is not looked at, and that is the one case in which a row leaves a filtered set without
a word (`notifies_iff`).
-/
namespace OriginDB

open JsonDoc ByteCodec Regex

inductive SubscriptionType where
  | selectAll | selectColumns | allTables
deriving DecidableEq

/-- `SqlSubscription` (sql_subscription.h:23). -/
structure SqlSubscription where
  id : Bytes
  clientId : Bytes
  type : SubscriptionType
  tableName : Bytes := []
  columns : List Bytes := []
  whereClause : Option Bytes := none
  predicate : Option Predicate.Node := none
  isActive : Bool := true

/-- `ExtractRowColumns` (sql_subscription.cpp:16); `none` is `return false`. -/
def extractRowColumns (J : JsonLib) (value : Bytes) : Option Json :=
  (J.parse value).map fun parsed =>
    match parsed with
    | .object m =>
      match m.lookup (str "columns") with
      | some (.object columns) => .object columns
      | _ => parsed
    | _ => parsed

/-- The columns of one side of an event, if there is a row there. -/
def eventColumns (J : JsonLib) (value : Bytes) : Option Json :=
  if value = [] then none else extractRowColumns J value

namespace SqlSubscription

/-- `MatchesEvent` on columns that are already parsed (sql_subscription.cpp:49). -/
def matchesColumns (sub : SqlSubscription) (event : ChangefeedEvent) (newColumns oldColumns : Option Json) : Bool :=
  if sub.isActive = false then false
  else if sub.type = .allTables then true
  else if sub.tableName ≠ [] ∧ event.table ≠ sub.tableName then false
  else match sub.predicate with
    | none => true
    | some predicate =>
      if event.operation = str "DELETE" then oldColumns.any (Predicate.evaluate predicate)
      else if event.operation = str "UPDATE" then newColumns.any (Predicate.evaluate predicate) || oldColumns.any (Predicate.evaluate predicate)
      else newColumns.any (Predicate.evaluate predicate)

/-- `MatchesEvent` (sql_subscription.cpp:35). -/
def matchesEvent (J : JsonLib) (sub : SqlSubscription) (event : ChangefeedEvent) : Bool :=
  sub.matchesColumns event (eventColumns J event.newValue) (eventColumns J event.oldValue)

/-- The selected members of a row value; the document stays `null` when it has none of them. -/
def selectMembers (columns : List Bytes) (row : Json) : Json :=
  let members := match row with
    | .object m => m
    | _ => []
  let selected := columns.foldl (fun (acc : StrMap Json) col =>
    match members.lookup col with
    | some v => acc.insert col v
    | none => acc) ∅
  if selected.isEmpty then .null else .object selected.toList

def filterValue (J : JsonLib) (columns : List Bytes) (value : Bytes) : Option Bytes :=
  if value = [] then some [] else (J.parse value).bind fun row => J.dump (selectMembers columns row)

/-- `FilterEvent` (sql_subscription.cpp:99); an exception leaves the event as it is. -/
def filterEvent (J : JsonLib) (sub : SqlSubscription) (event : ChangefeedEvent) : ChangefeedEvent :=
  if sub.type = .selectColumns ∧ sub.columns ≠ [] then
    match filterValue J sub.columns event.newValue, filterValue J sub.columns event.oldValue with
    | some newValue, some oldValue => { event with newValue := newValue, oldValue := oldValue }
    | _, _ => event
  else event

end SqlSubscription

/-! ## Parsing -/

namespace SqlSubscriptionParser

def isTrimmed (c : UInt8) : Bool := c = 32 || c = 9 || c = 10 || c = 13

/-- `Trim` (sql_subscription.cpp:240). -/
def trim (s : Bytes) : Bytes := ((s.dropWhile isTrimmed).reverse.dropWhile isTrimmed).reverse

/-- `Split` (sql_subscription.cpp:253). -/
def split (s : Bytes) (delimiter : UInt8) : List Bytes := ((s.splitOn delimiter).map trim).filter fun item => item ≠ []

open Pattern in
/-- `select\s+(.*?)\s+from\s+(\w+)(?:\s+where\s+(.*))?`, ignoring case (sql_subscription.cpp:175). -/
def selectPattern : Pattern :=
  all [litI (str "select"), plus true isSpace, .group 1 (.many false isDot), plus true isSpace, litI (str "from"),
    plus true isSpace, .group 2 (plus true isWord),
    opt (all [plus true isSpace, litI (str "where"), plus true isSpace, .group 3 (.many true isDot)])]

/-- `Parse` (sql_subscription.cpp:156); `none` is `nullptr`. -/
def parse (query subscriptionId clientId : Bytes) : Option SqlSubscription :=
  let normalized := trim query
  match fullMatch selectPattern normalized with
  | none => none
  | some m =>
    let selectClause := trim (m.str 1 normalized)
    let tableName := trim (m.str 2 normalized)
    let whereClause := if m.matched 3 then trim (m.str 3 normalized) else []
    let sub : SqlSubscription :=
      { id := subscriptionId, clientId := clientId, tableName := tableName
        type := if selectClause = str "*" then .selectAll else .selectColumns
        columns := if selectClause = str "*" then [] else split selectClause 44 }
    if whereClause = [] then some sub
    else
      match Predicate.parse whereClause with
      | .error _ => none
      | .ok predicate => some { sub with whereClause := some whereClause, predicate := some predicate }

end SqlSubscriptionParser

/-! ## The subscription manager -/

/-- `SqlSubscriptionManager`: the subscriptions and the routing index. -/
structure SqlSubscriptionManager where
  subscriptions : StrMap SqlSubscription := ∅
  clientSubscriptions : StrMap (List Bytes) := ∅
  tableIndex : StrMap (StrMap Unit) := ∅
  allTablesIndex : StrMap Unit := ∅
  nextSubscriptionId : UInt64 := 1

namespace SqlSubscriptionManager

/-- `IndexSubscription` (sql_subscription.cpp:411). -/
def indexSubscription (m : SqlSubscriptionManager) (sub : SqlSubscription) : SqlSubscriptionManager :=
  if sub.type = .allTables then { m with allTablesIndex := m.allTablesIndex.insert sub.id () }
  else { m with tableIndex := m.tableIndex.insert sub.tableName ((m.tableIndex[sub.tableName]?.getD ∅).insert sub.id ()) }

/-- `GenerateSubscriptionId` (sql_subscription.cpp:472). -/
def generateSubscriptionId (m : SqlSubscriptionManager) : Bytes × SqlSubscriptionManager :=
  (str "sql_sub_" ++ str (toString m.nextSubscriptionId.toNat), { m with nextSubscriptionId := m.nextSubscriptionId + 1 })

/-- `Subscribe` (sql_subscription.cpp:280): the subscription's id, or the exception. The id is used up
either way. -/
def subscribe (m : SqlSubscriptionManager) (clientId query : Bytes) : Option Bytes × SqlSubscriptionManager :=
  let (id, m) := m.generateSubscriptionId
  match SqlSubscriptionParser.parse query id clientId with
  | none => (none, m)
  | some sub => (some id, { m.indexSubscription sub with
      subscriptions := m.subscriptions.insert id sub
      clientSubscriptions :=
        m.clientSubscriptions.insert clientId ((m.clientSubscriptions[clientId]?.getD []) ++ [id]) })

/-- `ProcessEvent` (sql_subscription.cpp:373): the clients an event goes to, and what each of them gets. -/
def processEvent (env : Env) (m : SqlSubscriptionManager) (event : ChangefeedEvent) : List (Bytes × ChangefeedEvent) :=
  let newColumns := eventColumns env.toJsonLib event.newValue
  let oldColumns := eventColumns env.toJsonLib event.oldValue
  let candidates := env.order.list (m.tableIndex[event.table]?.getD ∅) ++ env.order.list m.allTablesIndex
  candidates.filterMap fun (id, _) =>
    m.subscriptions[id]?.bind fun sub =>
      if sub.matchesColumns event newColumns oldColumns then some (sub.clientId, sub.filterEvent env.toJsonLib event)
      else none

end SqlSubscriptionManager

/-! ## Rows entering and leaving a filtered set -/

/-- The row's columns as the JSON document `SerializeRow` prints has them. -/
def Row.jsonColumns (row : Row) : Json := .object (row.columns.toList.map fun p => (p.1, (valueJson p.2).reparsed))

/-- The predicate holds of a row that is there. -/
def Predicate.Node.holdsOf (predicate : Predicate.Node) (row : Option Row) : Bool :=
  row.any fun r => Predicate.evaluate predicate r.jsonColumns

section Notify
variable {J : JsonLib}

theorem extractRowColumns_serializeRow {row : Row} {b : Bytes} (h : serializeRow J row = some b) :
    eventColumns J b = some row.jsonColumns := by
  have hne : b ≠ [] := by
    rintro rfl
    exact J.dump_ne_nil h
  have hre : (rowJson row).reparsed = .object [(str "columns", row.jsonColumns), (str "key", .string row.key)] := by
    simp only [rowJson, Row.jsonColumns, Json.reparsed, Json.reparsedObject, Json.reparsedObject_eq, List.map_map]
    rfl
  rw [eventColumns, if_neg hne, extractRowColumns, J.parse_dump _ _ h, hre]
  rfl

/-- What an event says of the row before the write and of the row after it. -/
theorem EventOf.columns {w : WriteOperation} {old : Option Row} {ev : ChangefeedEvent} (h : EventOf J w old ev) :
    eventColumns J ev.oldValue = old.map Row.jsonColumns ∧
    eventColumns J ev.newValue = if w.op = .delete then none else some w.row.jsonColumns := by
  constructor
  · have hold := h.oldValue
    cases old with
    | none => rw [show ev.oldValue = [] from hold]; rfl
    | some r => exact extractRowColumns_serializeRow hold
  · have hnew := h.newValue
    by_cases hop : w.op = .delete
    · rw [if_pos hop] at hnew ⊢
      rw [hnew]
      rfl
    · rw [if_neg hop] at hnew ⊢
      exact extractRowColumns_serializeRow hnew

/-- A row that is written has the columns that were written, whatever it replaced. -/
theorem holdsOf_rowStep (predicate : Predicate.Node) (now : UInt64) (w : WriteOperation) (old : Option Row) :
    predicate.holdsOf (rowStep now w old) =
      if w.op = .delete then false else Predicate.evaluate predicate w.row.jsonColumns := by
  by_cases hop : w.op = .delete
  · cases old <;> simp [rowStep, hop, Predicate.Node.holdsOf]
  · cases old <;> simp [rowStep, hop, Predicate.Node.holdsOf, Row.jsonColumns]

/-- What `MatchesEvent` makes of the event of a write: it depends on the name of the operation. -/
theorem matchesEvent_eventOf {w : WriteOperation} {old : Option Row} {ev : ChangefeedEvent} (h : EventOf J w old ev)
    {sub : SqlSubscription} {predicate : Predicate.Node} (now : UInt64) (hactive : sub.isActive = true)
    (htype : sub.type ≠ .allTables) (htable : sub.tableName = w.tableName) (hpred : sub.predicate = some predicate) :
    sub.matchesEvent J ev = (predicate.holdsOf (rowStep now w old) || (w.op ≠ .insert && predicate.holdsOf old)) := by
  obtain ⟨hold, hnew⟩ := h.columns
  have htab : ¬ (sub.tableName ≠ [] ∧ ev.table ≠ sub.tableName) := by
    rw [h.table, htable]
    simp
  have hany : (old.map Row.jsonColumns).any (Predicate.evaluate predicate) = predicate.holdsOf old := by
    cases old <;> rfl
  rw [SqlSubscription.matchesEvent, SqlSubscription.matchesColumns, if_neg (by simp [hactive]), if_neg htype, if_neg htab,
    hpred, hold, hnew, holdsOf_rowStep]
  simp only [hany, h.operation]
  cases w.op with
  | insert => simp [WriteOp.name, show str "INSERT" ≠ str "DELETE" by decide, show str "INSERT" ≠ str "UPDATE" by decide]
  | update => simp [WriteOp.name, show str "UPDATE" ≠ str "DELETE" by decide]
  | delete => simp [WriteOp.name]

end Notify

/-- The row under the key of the `i`-th write of a commit, after its first `n` writes. -/
def Txn.rowAfter (clock : Nat → UInt64) (e : Engine) (txn : Txn) (w : WriteOperation) (n : Nat) : Option Row :=
  netRow clock w.tableName w.row.key 0 (txn.writeSet.take n) (rowOf e.tables w.tableName w.row.key)

/-- **Rows entering and leaving a filtered set notify** unless an INSERT replaces a row that was in the set
by one that is not. -/
theorem notifies_iff (env : Env) (clock : Nat → UInt64) (e e' : Engine) (txn : Txn) (entries : List WALEntry)
    (events : List ChangefeedEvent) (hcommit : commit env true clock e txn = .submitted e' entries events)
    (i : Nat) (w : WriteOperation) (ev : ChangefeedEvent) (hw : txn.writeSet[i]? = some w) (hev : events[i]? = some ev)
    (sub : SqlSubscription) (predicate : Predicate.Node) (hactive : sub.isActive = true) (htype : sub.type ≠ .allTables)
    (htable : sub.tableName = w.tableName) (hpred : sub.predicate = some predicate) :
    (sub.matchesEvent env.toJsonLib ev = true ↔
      predicate.holdsOf (txn.rowAfter clock e w i) = true ∨ predicate.holdsOf (txn.rowAfter clock e w (i + 1)) = true) ↔
    ¬ (w.op = .insert ∧ predicate.holdsOf (txn.rowAfter clock e w i) = true ∧
      predicate.holdsOf (txn.rowAfter clock e w (i + 1)) = false) := by
  have hof : EventOf env.toJsonLib w (txn.rowAfter clock e w i) ev :=
    ((After.refl clock e).eventOf (commit_spec.1 _ _ _ hcommit)).2 i w ev hw hev
  have hnext : txn.rowAfter clock e w (i + 1) = rowStep (clock i) w (txn.rowAfter clock e w i) := by
    obtain ⟨hi, rfl⟩ := List.getElem?_eq_some_iff.1 hw
    rw [Txn.rowAfter, Txn.rowAfter, List.take_succ_eq_append_getElem hi, netRow_concat, if_pos ⟨rfl, rfl⟩,
      List.length_take, Nat.min_eq_left (Nat.le_of_lt hi), Nat.zero_add]
  rw [matchesEvent_eventOf hof (clock i) hactive htype htable hpred, hnext]
  generalize predicate.holdsOf (rowStep (clock i) w (txn.rowAfter clock e w i)) = new
  generalize predicate.holdsOf (txn.rowAfter clock e w i) = old
  cases w.op <;> cases old <;> cases new <;> simp

/-- A row of `t` with one column. -/
def rowA (v : Int64) : Row := { key := str "k", columns := (∅ : Columns).insert (str "a") (.int64 v) }

def rowAJson : JsonLib := .ofTable
  [(rowJson (rowA 5), str "\x7b\"columns\":\x7b\"a\":5\x7d,\"key\":\"k\"\x7d"),
   (rowJson (rowA 1), str "\x7b\"columns\":\x7b\"a\":1\x7d,\"key\":\"k\"\x7d")]
  (by decide)

def rowAEnv : Env := { toJsonLib := rowAJson, order := .sorted }

/-- `SELECT * FROM t WHERE a > 3`. -/
def aboveThree : SqlSubscription :=
  { id := str "sql_sub_1", clientId := str "c", type := .selectAll, tableName := str "t", whereClause := some (str "a > 3")
    predicate := some (.comparison (str "a") .gt (.number 0x4008000000000000)) }

example : SqlSubscriptionParser.parse (str "SELECT * FROM t WHERE a > 3") (str "sql_sub_1") (str "c") = some aboveThree := rfl

/-- An INSERT of `k` into `t`. -/
def insertA (v : Int64) : WriteOperation := ⟨.insert, str "t", rowA v⟩

theorem notifies_entering : ∃ e' entries ev,
    commit rowAEnv true (fun _ => 0) emptyTable { timestamp := 1, writeSet := [insertA 5] } = .submitted e' entries [ev] ∧
    aboveThree.matchesEvent rowAJson ev = true := by
  have hc : ∃ e' entries ev, commit rowAEnv true (fun _ => 0) emptyTable { timestamp := 1, writeSet := [insertA 5] } =
      .submitted e' entries [ev] := ⟨_, _, _, rfl⟩
  obtain ⟨e', entries, ev, hc⟩ := hc
  have hiff := notifies_iff rowAEnv (fun _ => 0) emptyTable e' _ entries [ev] hc 0 (insertA 5) ev rfl rfl aboveThree _ rfl
    (by decide) rfl rfl
  exact ⟨e', entries, ev, hc, (hiff.2 (by decide)).2 (Or.inr (by decide))⟩

/-- An INSERT takes `k` from `a = 5` to `a = 1`: its event is judged by the new row alone. -/
def leavingA : Txn := { timestamp := 1, writeSet := [insertA 1] }

theorem leaves_unnoticed : ∃ e' entries ev predicate,
    commit rowAEnv true (fun _ => 0) { tables := oneRow (.int64 5) } leavingA = .submitted e' entries [ev] ∧
    aboveThree.predicate = some predicate ∧
    ¬ (aboveThree.matchesEvent rowAJson ev = true ↔
      predicate.holdsOf (leavingA.rowAfter (fun _ => 0) { tables := oneRow (.int64 5) } (insertA 1) 0) = true ∨
      predicate.holdsOf (leavingA.rowAfter (fun _ => 0) { tables := oneRow (.int64 5) } (insertA 1) 1) = true) := by
  have hc : ∃ e' entries ev, commit rowAEnv true (fun _ => 0) { tables := oneRow (.int64 5) } leavingA =
      .submitted e' entries [ev] ∧ aboveThree.matchesEvent rowAJson ev = false := ⟨_, _, _, rfl, by decide⟩
  obtain ⟨e', entries, ev, hc, hno⟩ := hc
  refine ⟨e', entries, ev, _, hc, rfl, fun h => ?_⟩
  have hyes := h.2 (Or.inl (by decide))
  rw [hno] at hyes
  cases hyes

end OriginDB
