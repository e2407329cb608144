import OriginDB.Changefeed.Events
/-!
# The storage engine as one caller sees it (`src/storage/storage_engine.cpp:222-304, 303-451, 813-863`)

The blocking calls of `StorageEngine`, run to their end with nobody else in between: a `Commit` applies
its writes, waits for its batch and publishes its events, `CreateTable` waits for its record and goes on
whatever became of it. What the log did with a batch is `Io.durable`.
-/
namespace OriginDB

open JsonDoc ByteCodec

/-- What a call meets: the clock while it runs, and whether its batch becomes durable. -/
structure Io where
  clock : Nat → UInt64 := fun _ => 0
  durable : Bool := true

/-- The engine, the changefeed and `next_timestamp_`. -/
structure Store where
  engine : Engine := {}
  feed : Feed := {}
  nextTimestamp : UInt64 := 1

/-- A call comes back with a value, or with an exception of the JSON library. -/
inductive Called (α : Type) where
  | returned (a : α) (s : Store)
  | threw (s : Store)

/-- The storage engine after a call. -/
def Called.store {α : Type} : Called α → Store
  | .returned _ s | .threw s => s

namespace Store

section
variable (env : Env) (maxLag : Nat)

/-- The events of a commit, one `PublishEvent` after the other. -/
def publishAll (now : UInt64) (s : Store) (events : List ChangefeedEvent) : Store :=
  { s with feed := events.foldl (fun f ev => f.publishEvent maxLag ev now) s.feed }

/-- `txn->SetCommitted()` and the counter behind it. -/
def countCommit (s : Store) : Store :=
  { s with engine := { s.engine with stats :=
      { s.engine.stats with transactionsCommitted := s.engine.stats.transactionsCommitted + 1 } } }

/-- `BeginTransaction`, the writes, `Commit`. -/
def commit (io : Io) (s : Store) (writes : List WriteOperation) : Called Bool :=
  let s := { s with nextTimestamp := s.nextTimestamp + 1 }
  match OriginDB.commit env true io.clock s.engine { timestamp := s.nextTimestamp - 1, writeSet := writes } with
  | .notActive => .returned false s
  | .nothingToWrite => .returned true s.countCommit
  | .rejected e => .returned false { s with engine := e }
  | .threw e => .threw { s with engine := e }
  | .submitted e _ events =>
    if io.durable then
      .returned true (({ s with engine := e } : Store).publishAll maxLag (io.clock writes.length) events).countCommit
    else .returned false { s with engine := e }

/-- `CreateTable` (storage_engine.cpp:222); what `Append` answers is not looked at. -/
def createTable (s : Store) (schema : TableSchema) : Called Bool :=
  match OriginDB.createTable env.toJsonLib s.engine schema with
  | .exists => .returned false s
  | .threw e => .threw { s with engine := e }
  | .logged e _ => .returned true { s with engine := e.countTable true }

end

/-- `GetTable` (storage_engine.cpp:272). -/
def getTable (s : Store) (name : Bytes) : Option MemTable := s.engine.tables[name]?

/-- `Get` (storage_engine.cpp:849). -/
def get (s : Store) (table key : Bytes) : Option Row := (s.getTable table).bind fun t => t.get key

theorem get_eq (s : Store) (table key : Bytes) : s.get table key = rowOf s.engine.tables table key := rfl

@[simp] theorem getTable_publishAll (maxLag : Nat) (now : UInt64) (s : Store) (events : List ChangefeedEvent) (t : Bytes) :
    (s.publishAll maxLag now events).getTable t = s.getTable t := rfl

/-! ## What a call leaves behind -/

/-- The same tables with the same schemas and rows, and the same changefeed. -/
structure SameData (s s' : Store) : Prop where
  tables : ∀ n : Bytes, s'.engine.tables[n]?.map (fun t => (t.schema, t.rows)) =
    s.engine.tables[n]?.map fun t => (t.schema, t.rows)
  feed : s'.feed = s.feed

theorem SameData.refl (s : Store) : SameData s s := ⟨fun _ => rfl, rfl⟩

theorem SameData.rowOf_eq {s s' : Store} (h : SameData s s') (n k : Bytes) :
    rowOf s'.engine.tables n k = rowOf s.engine.tables n k := by
  have ht := h.tables n
  simp only [rowOf]
  cases h1 : s'.engine.tables[n]? <;> cases h0 : s.engine.tables[n]? <;> simp_all

end Store

end OriginDB
