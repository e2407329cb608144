import OriginDB.Sql.SelectAll
/-!
# Frames and the client that applies them (`websocket_server.cpp:702-768, 1099-1211`, `App.jsx:149-167`)

What `SendInitialState` and `OnChangefeedEvent` send, as the documents they print, and a client that sets
each row of an `initial_state` frame, applies INSERT and UPDATE events as upserts and DELETE events as
removals. A row has one encoding in the snapshot (`snapshotData`) and another in the events
(`jsonColumns`); either shows the row (`Shows`). A frame that cannot be printed is not sent; for the
snapshot an error goes out instead, which the client takes no row from.
-/
namespace OriginDB

open JsonDoc ByteCodec

/-! ## Documents -/

/-- `fmt::format("{:02x}", byte)`. -/
def hexByte (b : UInt8) : Bytes := [b.toNat / 16, b.toNat % 16].map fun n => UInt8.ofNat (if n < 10 then 48 + n else 87 + n)

/-- The visitor of `SendInitialState` (websocket_server.cpp:1160-1184). -/
def snapshotValue : Value → Json
  | .null => .null
  | .bool b => .bool b
  | .int32 v => .int v.toInt
  | .int64 v => .int v.toInt
  | .float bits => .float (widen bits)
  | .double bits => .float bits
  | .string s => .string s
  | .bytes b => .string (b.flatMap hexByte)
  | .timestamp ns => .int (ns.toInt.tdiv 1000000000)

/-- `row_data`: `null` until it gets its first member. -/
def snapshotData (row : Row) : Json :=
  if row.columns.isEmpty then .null else .object (row.columns.toList.map fun p => (p.1, snapshotValue p.2))

structure InitialState where
  subscriptionId : Bytes
  sql : Bytes
  columns : List ResultColumn
  rows : List Row
deriving DecidableEq

/-- The `initial_state` document; `ExecuteSelect` leaves `execution_time_ms` at zero. -/
def InitialState.json (f : InitialState) : Json :=
  .object
    [(str "columns", .array (f.columns.map fun c =>
        .object [(str "name", .string c.name), (str "nullable", .bool c.nullable), (str "type", .string c.type)])),
     (str "execution_time_ms", .int 0),
     (str "rows", .array (f.rows.map fun r =>
        .object [(str "data", snapshotData r), (str "key", .string r.key), (str "timestamp", .int r.timestamp.toNat),
          (str "version", .int r.version.toNat)])),
     (str "rows_count", .int f.rows.length), (str "sql", .string f.sql),
     (str "subscription_id", .string f.subscriptionId), (str "type", .string (str "initial_state"))]

/-- A member that is left out when it is empty. -/
def nonEmpty (name : String) (value : Bytes) : List (Bytes × Json) := if value = [] then [] else [(str name, .string value)]

/-- The `sql_changefeed_event` document; `feedId` is the server's own subscription to the changefeed. -/
def eventJson (feedId : Bytes) (ev : ChangefeedEvent) : Json :=
  .object (nonEmpty "key" ev.key ++ nonEmpty "new_value" ev.newValue ++ [(str "offset", .int ev.offset.toNat)] ++
    nonEmpty "old_value" ev.oldValue ++
    [(str "operation", .string ev.operation), (str "subscription_id", .string feedId), (str "table", .string ev.table),
     (str "timestamp", .int (ev.timestamp.toNat / 1000000)), (str "transaction_id", .string ev.transactionId),
     (str "type", .string (str "sql_changefeed_event"))])

inductive Frame where
  | initialState (f : InitialState)
  | changefeedEvent (feedId : Bytes) (ev : ChangefeedEvent)
deriving DecidableEq

def Frame.json : Frame → Json
  | .initialState f => f.json
  | .changefeedEvent feedId ev => eventJson feedId ev

/-- Can it be printed? -/
def Frame.prints (J : JsonLib) (f : Frame) : Bool := (J.dump f.json).isSome

/-! ## The client -/

/-- The rows of one table as a client has them. -/
abbrev ClientRows := StrMap Json

namespace Client

/-- One event. Its columns are read out of the printed row. -/
def applyEvent (J : JsonLib) (rows : ClientRows) (ev : ChangefeedEvent) : ClientRows :=
  if ev.operation = str "DELETE" then rows.erase ev.key
  else if ev.operation = str "INSERT" ∨ ev.operation = str "UPDATE" then
    match extractRowColumns J ev.newValue with
    | some columns => rows.insert ev.key columns
    | none => rows
  else rows

def applyFrame (J : JsonLib) (rows : ClientRows) : Frame → ClientRows
  | .initialState f => OrdMap.insertAll rows (f.rows.map fun r => (r.key, (snapshotData r).reparsed))
  | .changefeedEvent _ ev => applyEvent J rows ev

/-- The frames in the order in which they were sent. -/
def applyAll (J : JsonLib) (frames : List Frame) : ClientRows := frames.foldl (applyFrame J) ∅

end Client

/-- What a client shows for a row: either encoding of it. -/
def Shows (row : Row) (j : Json) : Prop := j = (snapshotData row).reparsed ∨ j = row.jsonColumns

instance (row : Row) (j : Json) : Decidable (Shows row j) := inferInstanceAs (Decidable (_ ∨ _))

/-- The event says that this is under its key now. -/
def Sets (J : JsonLib) (ev : ChangefeedEvent) : Option Row → Prop
  | none => ev.operation = str "DELETE"
  | some row => (ev.operation = str "INSERT" ∨ ev.operation = str "UPDATE") ∧ serializeRow J row = some ev.newValue

theorem extractRowColumns_of_serializeRow {J : JsonLib} {row : Row} {b : Bytes} (h : serializeRow J row = some b) :
    extractRowColumns J b = some row.jsonColumns := by
  have hc := extractRowColumns_serializeRow h
  rw [eventColumns, if_neg (by rintro rfl; exact J.dump_ne_nil h)] at hc
  exact hc

/-- **An event brings its key up to date** and leaves the others alone. -/
theorem Client.applyEvent_applies (J : JsonLib) (rows : ClientRows) (ev : ChangefeedEvent) :
    (∀ v, Sets J ev v → Option.Rel Shows v (applyEvent J rows ev)[ev.key]?) ∧
    ∀ k, ev.key ≠ k → (applyEvent J rows ev)[k]? = rows[k]? := by
  constructor
  · intro v hv
    unfold applyEvent
    cases v with
    | none =>
      rw [if_pos (show ev.operation = str "DELETE" from hv), OrdMap.getElem?_erase, if_pos rfl]
      exact .none
    | some row =>
      have hdel : ev.operation ≠ str "DELETE" := by
        rcases hv.1 with h | h <;> rw [h] <;> decide
      rw [if_neg hdel, if_pos hv.1, extractRowColumns_of_serializeRow hv.2]
      simp only [OrdMap.getElem?_insert, if_true]
      exact .some (Or.inr rfl)
  · intro k hk
    unfold applyEvent
    split
    · rw [OrdMap.getElem?_erase, if_neg hk]
    · split
      · split
        · rw [OrdMap.getElem?_insert, if_neg hk]
        · rfl
      · rfl

/-- **A snapshot sets the rows it has.** -/
theorem Client.applyFrame_initialState (J : JsonLib) (rows : ClientRows) {l : List (Bytes × Row)} (hd : OrdMap.Distinct l)
    (hkey : ∀ p ∈ l, p.2.key = p.1) {f : InitialState} (hf : f.rows = l.map Prod.snd) :
    (∀ k row, l.lookup k = some row → Option.Rel Shows (some row) (applyFrame J rows (.initialState f))[k]?) ∧
    ∀ k, l.lookup k = none → (applyFrame J rows (.initialState f))[k]? = rows[k]? := by
  have hentries : f.rows.map (fun r => (r.key, (snapshotData r).reparsed)) =
      l.map fun p => (p.1, (snapshotData p.2).reparsed) := by
    rw [hf, List.map_map]
    refine List.map_congr_left fun p hp => ?_
    rw [Function.comp_apply, hkey p hp]
  constructor
  · intro k row hk
    have hmem : (k, (snapshotData row).reparsed) ∈ l.map fun p => (p.1, (snapshotData p.2).reparsed) := by
      obtain ⟨l₁, l₂, rfl, -⟩ := List.lookup_eq_some_iff.1 hk
      simp
    have hdist := OrdMap.distinct_map hd fun r => (snapshotData r).reparsed
    rw [applyFrame, hentries, OrdMap.getElem?_insertAll_of_mem hdist hmem]
    exact .some (Or.inl rfl)
  · intro k hk
    rw [applyFrame, hentries, OrdMap.getElem?_insertAll_of_notMem]
    intro q hq he
    obtain ⟨p, hp, rfl⟩ := List.mem_map.1 hq
    have hne := List.lookup_eq_none_iff.1 hk p hp
    rw [show p.1 = k from he] at hne
    simp at hne

end OriginDB
