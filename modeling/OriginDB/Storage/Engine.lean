import OriginDB.Storage.Snapshot
import OriginDB.Storage.WalFile
/-!
# The storage engine's operations on its tables (`src/storage/storage_engine.cpp`)

What `Commit`, `CreateTable`, `DropTable` and recovery do to `tables_` and `stats_`, and what they hand
to the WAL; waiting for the WAL is the server's part. A write set is applied write by write and a
write that cannot be applied returns from the middle of the loop (`failed`), as does an exception of
`SerializeRow` (`threw`): both keep what was applied before.
-/
namespace OriginDB

open JsonDoc ByteCodec

/-! ## Transactions -/

inductive WriteOp where
  | insert | update | delete
deriving DecidableEq

/-- `WriteOperation` (transaction_impl.h:14). -/
structure WriteOperation where
  op : WriteOp
  tableName : Bytes
  row : Row
deriving DecidableEq

inductive TxnState where
  | active | committed | aborted
deriving DecidableEq

/-- What `Commit` reads of a `TransactionImpl`. -/
structure Txn where
  timestamp : UInt64
  state : TxnState := .active
  writeSet : List WriteOperation := []
deriving DecidableEq

namespace Txn

/-- `Insert`, `Update` and `Delete` (transaction_impl.cpp:25-69) stage a write; `none` is `return false`. -/
def stage (txn : Txn) (w : WriteOperation) : Option Txn :=
  if txn.state = .active then some { txn with writeSet := txn.writeSet ++ [w] } else none

def insert (txn : Txn) (table : Bytes) (row : Row) : Option Txn := txn.stage ⟨.insert, table, row⟩

def update (txn : Txn) (table key : Bytes) (row : Row) : Option Txn :=
  txn.stage ⟨.update, table, { row with key := key }⟩

def delete (txn : Txn) (table key : Bytes) : Option Txn := txn.stage ⟨.delete, table, { key := key }⟩

end Txn

/-! ## `Commit` up to the WAL -/

/-- One write of the loop (storage_engine.cpp:329-373): the engine after it and the row it replaced.
An INSERT that finds its key present is resolved as an UPDATE. -/
def applyWrite (e : Engine) (w : WriteOperation) (now : UInt64) : Option (Engine × Option Row) :=
  match e.tables[w.tableName]? with
  | none => none
  | some t =>
    match w.op with
    | .insert =>
      match t.insert w.row with
      | some t' =>
        some ({ tables := e.tables.insert w.tableName t'
                stats := { e.stats with totalRows := e.stats.totalRows + 1 } }, none)
      | none =>
        match t.get w.row.key with
        | none => none
        | some old => (t.update w.row.key w.row now).map fun t' =>
            ({ e with tables := e.tables.insert w.tableName t' }, some old)
    | .update => (t.update w.row.key w.row now).map fun t' =>
        ({ e with tables := e.tables.insert w.tableName t' }, t.get w.row.key)
    | .delete => (t.delete w.row.key).map fun t' =>
        ({ tables := e.tables.insert w.tableName t'
           stats := { e.stats with totalRows := e.stats.totalRows - 1 } }, t.get w.row.key)

/-- What an applied write does: a fresh row, a replaced one, or one less. -/
theorem applyWrite_eq_some {e e' : Engine} {w : WriteOperation} {now : UInt64} {old : Option Row}
    (h : applyWrite e w now = some (e', old)) :
    ∃ t t', e.tables[w.tableName]? = some t ∧ e'.tables = e.tables.insert w.tableName t' ∧ t'.schema = t.schema ∧
      ((w.op = .insert ∧ t.rows[w.row.key]? = none ∧ t'.rows = t.rows.insert w.row.key w.row ∧
          e'.stats = { e.stats with totalRows := e.stats.totalRows + 1 }) ∨
       (w.op ≠ .delete ∧ e'.stats = e.stats ∧ ∃ r, t.rows[w.row.key]? = some r ∧
          t'.rows = t.rows.insert w.row.key { w.row with version := r.version + 1, timestamp := now }) ∨
       (w.op = .delete ∧ t.rows[w.row.key]?.isSome ∧ t'.rows = t.rows.erase w.row.key ∧
          e'.stats = { e.stats with totalRows := e.stats.totalRows - 1 })) := by
  unfold applyWrite at h
  split at h
  · cases h
  · rename_i t ht
    split at h
    · rename_i hop
      split at h
      · rename_i t' hins
        cases h
        obtain ⟨hnone, hs, hr⟩ := MemTable.insert_eq_some hins
        exact ⟨t, t', ht, rfl, hs, Or.inl ⟨hop, hnone, hr, rfl⟩⟩
      · split at h
        · cases h
        · obtain ⟨t', hup, he⟩ := Option.map_eq_some_iff.1 h
          cases he
          obtain ⟨r, hold, hs, hr⟩ := MemTable.update_eq_some hup
          exact ⟨t, t', ht, rfl, hs, Or.inr (Or.inl ⟨by simp [hop], rfl, r, hold, hr⟩)⟩
    · rename_i hop
      obtain ⟨t', hup, he⟩ := Option.map_eq_some_iff.1 h
      cases he
      obtain ⟨r, hold, hs, hr⟩ := MemTable.update_eq_some hup
      exact ⟨t, t', ht, rfl, hs, Or.inr (Or.inl ⟨by simp [hop], rfl, r, hold, hr⟩)⟩
    · rename_i hop
      obtain ⟨t', hdel, he⟩ := Option.map_eq_some_iff.1 h
      cases he
      obtain ⟨hsome, hs, hr⟩ := MemTable.delete_eq_some hdel
      exact ⟨t, t', ht, rfl, hs, Or.inr (Or.inr ⟨hop, hsome, hr, rfl⟩)⟩

/-- A write is refused when its table is missing, or its row is and it is no INSERT. -/
theorem applyWrite_eq_none {e : Engine} {w : WriteOperation} {now : UInt64} :
    applyWrite e w now = none ↔
      ∀ t, e.tables[w.tableName]? = some t → w.op ≠ .insert ∧ t.rows[w.row.key]? = none := by
  unfold applyWrite
  cases ht : e.tables[w.tableName]? with
  | none => simp
  | some t =>
    simp only [Option.some.injEq, forall_eq']
    cases hop : w.op with
    | insert =>
      simp only [ne_eq, not_true_eq_false, false_and, iff_false]
      cases hins : t.insert w.row with
      | some t' => simp
      | none =>
        obtain ⟨r, hr⟩ := Option.isSome_iff_exists.1 (MemTable.insert_eq_none.1 hins)
        simp [MemTable.get, MemTable.update, hr]
    | update => simp [MemTable.update_eq_none]
    | delete => simp [MemTable.delete_eq_none]

def WriteOp.entryType : WriteOp → WALEntryType
  | .insert => .insert
  | .update => .update
  | .delete => .delete

/-- The WAL entry of a write (storage_engine.cpp:377-389); the sequence is assigned at submit time. -/
def writeEntry (env : Env) (txnTimestamp : UInt64) (w : WriteOperation) : WALEntry :=
  { type := w.op.entryType, transactionId := txnTimestamp, tableName := w.tableName, key := w.row.key
    data := encodeRow env.order w.row }

/-- `ChangefeedEvent` (changefeed_engine.h:23). -/
structure ChangefeedEvent where
  offset : UInt64 := 0
  transactionId : Bytes
  table : Bytes
  operation : Bytes
  key : Bytes
  oldValue : Bytes := []
  newValue : Bytes := []
  timestamp : UInt64
deriving DecidableEq

def WriteOp.name : WriteOp → Bytes
  | .insert => str "INSERT"
  | .update => str "UPDATE"
  | .delete => str "DELETE"

/-- The event of a write (storage_engine.cpp:392-413), if a changefeed is attached; `none` is the
exception `SerializeRow` throws on text that is not UTF-8. -/
def writeEvent (env : Env) (feed : Bool) (txnTimestamp : UInt64) (w : WriteOperation) (old : Option Row)
    (now : UInt64) : Option (List ChangefeedEvent) :=
  if feed then do
    let newValue ← if w.op = .insert ∨ w.op = .update then serializeRow env.toJsonLib w.row else some []
    let oldValue ← match old with
      | some row => serializeRow env.toJsonLib row
      | none => some []
    return [{ transactionId := str (toString txnTimestamp.toNat), table := w.tableName, operation := w.op.name
              key := w.row.key, oldValue := oldValue, newValue := newValue, timestamp := now }]
  else some []

inductive Applied where
  | done (e : Engine) (entries : List WALEntry) (events : List ChangefeedEvent)
  | failed (e : Engine)
  | threw (e : Engine)

/-- The engine the loop ends with. -/
def Applied.engine : Applied → Engine
  | .done e _ _ | .failed e | .threw e => e

/-- The loop over the write set (storage_engine.cpp:327-414); `clock i` is the time at its `i`-th write. -/
def applyWrites (env : Env) (feed : Bool) (txnTimestamp : UInt64) (clock : Nat → UInt64) :
    Nat → Engine → List WriteOperation → Applied
  | _, e, [] => .done e [] []
  | i, e, w :: ws =>
    match applyWrite e w (clock i) with
    | none => .failed e
    | some (e', old) =>
      match writeEvent env feed txnTimestamp w old (clock i) with
      | none => .threw e'
      | some evs =>
        match applyWrites env feed txnTimestamp clock (i + 1) e' ws with
        | .done e'' entries events => .done e'' (writeEntry env txnTimestamp w :: entries) (evs ++ events)
        | .failed e'' => .failed e''
        | .threw e'' => .threw e''

/-- `Commit` (storage_engine.cpp:303) up to `AppendBatchAsync`. -/
inductive CommitResult where
  /-- `return false` before anything was looked at. -/
  | notActive
  /-- An empty write set: committed without a word to the WAL. -/
  | nothingToWrite
  /-- `return false` out of the loop. -/
  | rejected (e : Engine)
  | threw (e : Engine)
  /-- The batch goes to the WAL, the events are kept until it is durable. -/
  | submitted (e : Engine) (entries : List WALEntry) (events : List ChangefeedEvent)

def commit (env : Env) (feed : Bool) (clock : Nat → UInt64) (e : Engine) (txn : Txn) : CommitResult :=
  if txn.state ≠ .active then .notActive
  else if txn.writeSet = [] then .nothingToWrite
  else
    match applyWrites env feed txn.timestamp clock 0 e txn.writeSet with
    | .done e' entries events => .submitted e' entries events
    | .failed e' => .rejected e'
    | .threw e' => .threw e'

/-- What a commit that got past its checks did. -/
theorem commit_spec {env : Env} {feed : Bool} {clock : Nat → UInt64} {e : Engine} {txn : Txn} :
    (∀ e' entries events, commit env feed clock e txn = .submitted e' entries events →
      applyWrites env feed txn.timestamp clock 0 e txn.writeSet = .done e' entries events) ∧
    ∀ e', commit env feed clock e txn = .rejected e' →
      applyWrites env feed txn.timestamp clock 0 e txn.writeSet = .failed e' := by
  unfold commit
  split
  · exact ⟨by rintro _ _ _ ⟨⟩, by rintro _ ⟨⟩⟩
  · split
    · exact ⟨by rintro _ _ _ ⟨⟩, by rintro _ ⟨⟩⟩
    · split
      · rename_i h
        exact ⟨by rintro _ _ _ ⟨⟩; exact h, by rintro _ ⟨⟩⟩
      · rename_i h
        exact ⟨by rintro _ _ _ ⟨⟩, by rintro _ ⟨⟩; exact h⟩
      · exact ⟨by rintro _ _ _ ⟨⟩, by rintro _ ⟨⟩⟩

namespace CommitResult

def engine (e : Engine) : CommitResult → Engine
  | .notActive | .nothingToWrite => e
  | .rejected e' | .threw e' | .submitted e' _ _ => e'

/-- What reaches the WAL. -/
def entries : CommitResult → List WALEntry
  | .submitted _ entries _ => entries
  | _ => []

/-- What may reach the changefeed. -/
def events : CommitResult → List ChangefeedEvent
  | .submitted _ _ events => events
  | _ => []

end CommitResult

/-! ## `CreateTable` and `DropTable` up to the WAL -/

/-- `CreateTable` (storage_engine.cpp:222). The table is in place before its schema is serialised. -/
inductive CreateResult where
  | exists
  | threw (e : Engine)
  | logged (e : Engine) (entry : WALEntry)

def createTable (J : JsonLib) (e : Engine) (schema : TableSchema) : CreateResult :=
  if e.tables[schema.name]?.isSome then .exists
  else
    let e' := { e with tables := e.tables.insert schema.name { schema := schema } }
    match serializeSchema J schema with
    | none => .threw e'
    | some data => .logged e' { type := .createTable, tableName := schema.name, data := data }

/-- `DropTable` (storage_engine.cpp:248) before its `Append`; `none` is `return false`. -/
def dropTable (e : Engine) (name : Bytes) : Option (Engine × WALEntry) :=
  match e.tables[name]? with
  | none => none
  | some t =>
    some ({ tables := e.tables.erase name
            stats := { e.stats with
              totalRows := e.stats.totalRows - t.getRowCount
              totalBytes := e.stats.totalBytes - t.getSizeBytes } },
          { type := .dropTable, tableName := name })

/-- `stats_.total_tables++` and `--`, after the `Append`. -/
def Engine.countTable (e : Engine) (created : Bool) : Engine :=
  { e with stats := { e.stats with
    totalTables := if created then e.stats.totalTables + 1 else e.stats.totalTables - 1 } }

/-! ## Replaying the log -/

/-- One entry in `RecoverFromWAL` (storage_engine.cpp:480-543). An exception skips the entry. A replayed
`DROP_TABLE` calls the logging `DropTable`; what that appends is in `replayLogs`. -/
def replayEntry (J : JsonLib) (now : UInt64) (e : Engine) (entry : WALEntry) : Engine :=
  match entry.type with
  | .createTable =>
    match deserializeSchema J entry.data with
    | none => e
    | some schema =>
      if e.tables[schema.name]?.isSome then e
      else { tables := e.tables.insert schema.name { schema := schema }
             stats := { e.stats with totalTables := e.stats.totalTables + 1 } }
  | .dropTable =>
    match dropTable e entry.tableName with
    | none => e
    | some (e', _) => e'.countTable false
  | .insert =>
    match e.tables[entry.tableName]?, decodeRow entry.data with
    | some t, some row => { tables := e.tables.insert entry.tableName ((t.insert row).getD t)
                            stats := { e.stats with totalRows := e.stats.totalRows + 1 } }
    | _, _ => e
  | .update =>
    match e.tables[entry.tableName]?, decodeRow entry.data with
    | some t, some row => { e with tables := e.tables.insert entry.tableName ((t.update entry.key row now).getD t) }
    | _, _ => e
  | .delete =>
    match e.tables[entry.tableName]? with
    | some t => { tables := e.tables.insert entry.tableName ((t.delete entry.key).getD t)
                  stats := { e.stats with totalRows := e.stats.totalRows - 1 } }
    | none => e
  | _ => e

/-- What replaying an entry appends to the log it is read from. -/
def replayLogs (e : Engine) (entry : WALEntry) : Option WALEntry :=
  if entry.type = .dropTable then (dropTable e entry.tableName).map Prod.snd else none

/-- The loop of `RecoverFromWAL` on the tables. -/
def replay (J : JsonLib) (clock : Nat → UInt64) : Nat → Engine → List WALEntry → Engine
  | _, e, [] => e
  | i, e, entry :: rest => replay J clock (i + 1) (replayEntry J (clock i) e entry) rest

/-- The tables `Initialize` (storage_engine.cpp:35) rebuilds from `snapshot.json` and `wal.log`; `none` is
an exception out of `LoadSnapshotIfPresent`. -/
def recover (J : JsonLib) (clock : Nat → UInt64) (snap : Option Bytes) (wal : Bytes) : Option Engine :=
  (loadSnapshotIfPresent J {} snap).map fun e => replay J clock 0 e (readAll wal)

end OriginDB
