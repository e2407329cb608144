import OriginDB.Storage.Atomicity
import OriginDB.Storage.Logging
/-!
# Committers, the WAL writer and checkpoints (`src/storage/storage_engine.cpp:83-270, 303-451`)

The engine with its log and its snapshot file, as one transition system. `tables_mutex_` is `lock`:
`Commit` applies and enqueues under it in one step and waits outside it, `CreateTable` and `DropTable`
hold it until their `Append` returns, and `WriteSnapshot` holds it (shared, which excludes the others
all the same) from serialising the tables to truncating the log. The writer thread runs in between.

| here | there |
| --- | --- |
| `commit`                      | `Commit` up to `AppendBatchAsync` (`:303-419`); its wait is on the promise |
| `createTable`, `dropTable`    | `CreateTable` (`:222`), `DropTable` (`:248`) up to their wait |
| `ddlDone`                     | the rest of either, once the promise is fulfilled with anything at all |
| `writer l`                    | a step of `WriterLoop` |
| `serialise`                   | `WriteSnapshot` (`:143-170`) up to `doc.dump()` |
| `writeTmp n`                  | the stream written and closed (`:163-168`); only `n` bytes reach the file if the flush at close fails, which is not noticed |
| `writeTmpFails`, `rename ok`  | the two `return false`, and the rename (`:170-175`) |
| `drain`, `drained`            | `Truncate` through its `Drain` (`wal_impl.cpp:180-190`) |
| `truncate opened`, `reopen`   | the rest of `Truncate` (`:191-203`) |
| `flush`                       | `Shutdown`'s `Flush` (`:134`), after a checkpoint of its own; `tables_.clear()` touches no file |
| `syncSnap`, `syncDir`         | the kernel writing the newest snapshot's bytes, or its rename, back on its own |

`Truncate` checks the sequence number it is given against the last one; under the lock nobody can have
appended in between, so the check passes. A snapshot whose text cannot be printed throws out of the
checkpointing thread, which ends the process: there is no step for it.

`changes` is a history variable, one for each promise, and so is `upTo`: how many of the changes a
snapshot was taken after.
-/
namespace OriginDB

open JsonDoc ByteCodec

structure SnapFile where
  text : Bytes
  /-- The bytes are on disk. -/
  synced : Bool
  upTo : Nat
deriving DecidableEq

inductive Lock where
  | free
  | ddl (promise : Nat) (created : Bool)
  | serialised (text : Bytes) (upTo : Nat)
  | tmpWritten (tmp : SnapFile)
  | renamed
  | draining (promise : Nat)
  | drained
  | truncated
deriving DecidableEq

/-- The lock is held by a checkpoint. -/
def Lock.isCheckpoint : Lock → Bool
  | .free | .ddl _ _ => false
  | _ => true

structure Server where
  engine : Engine
  wal : Wal
  lock : Lock := .free
  /-- `snapshot.json`, newest first: the file in place, and those a power loss may bring back because the
  rename that replaced them is not on disk yet. -/
  snaps : List (Option SnapFile)
  changes : List Change := []

namespace Server

/-- The snapshot a process finds. -/
def snapFile (s : Server) : Option SnapFile := s.snaps.head?.join

def snapText (o : Option SnapFile) : Option Bytes := o.map SnapFile.text

/-- How many changes a snapshot (or none) holds. -/
def upTo (o : Option SnapFile) : Nat := (o.map SnapFile.upTo).getD 0

inductive Label where
  | commit (txn : Txn) (clock : Nat → UInt64) (ts : UInt64)
  | createTable (schema : TableSchema) (ts : UInt64)
  | dropTable (name : Bytes) (ts : UInt64)
  | ddlDone
  | writer (l : Wal.Label)
  | serialise
  | writeTmp (n : Nat)
  | writeTmpFails
  | rename (ok : Bool)
  | drain
  | drained
  | truncate (opened : Bool)
  | reopen (opened : Bool) (n : Nat)
  | flush
  | syncSnap
  | syncDir

/-- A promise that has a value. -/
def settled (w : Wal) (i : Nat) : Bool := (w.promises[i]?.join).isSome

/-- The steps of `WriterLoop`. -/
def byWriter : Wal.Label → Bool
  | .swap | .write _ | .writeError | .sync _ | .fulfil | .endDrain => true
  | .append _ _ | .drain | .stopWriter | .exit => false

/-- `Drain`, up to its wait; it returns at once when the writer is stopping or `fatal_` is set. -/
def drainLog (s : Server) : Server × Bool :=
  if s.wal.stop || s.wal.fatal then (s, false)
  else ({ s with wal := s.wal.drain, changes := s.changes ++ [.barrier] }, true)

section
variable (env : Env) (mode : SyncMode) (feed : Bool)

def step (s : Server) : Label → Option Server
  | .commit txn clock ts =>
    match s.lock with
    | .free =>
      match OriginDB.commit env feed clock s.engine txn with
      | .submitted e entries _ =>
        some { s with engine := e, wal := s.wal.appendBatchAsync entries ts,
                      changes := s.changes ++ [.commit txn.writeSet] }
      | r => some { s with engine := r.engine s.engine }
    | _ => none
  | .createTable schema ts =>
    match s.lock with
    | .free =>
      match OriginDB.createTable env.toJsonLib s.engine schema with
      | .exists => some s
      | .threw e => some { s with engine := e }
      | .logged e entry =>
        some { s with engine := e, wal := s.wal.appendBatchAsync [entry] ts,
                      lock := .ddl s.wal.promises.length true, changes := s.changes ++ [.create schema] }
    | _ => none
  | .dropTable name ts =>
    match s.lock with
    | .free =>
      match OriginDB.dropTable s.engine name with
      | none => some s
      | some (e, entry) =>
        some { s with engine := e, wal := s.wal.appendBatchAsync [entry] ts,
                      lock := .ddl s.wal.promises.length false, changes := s.changes ++ [.drop name] }
    | _ => none
  | .ddlDone =>
    match s.lock with
    | .ddl i created =>
      if settled s.wal i then some { s with engine := s.engine.countTable created, lock := .free } else none
    | _ => none
  | .writer l => if byWriter l then (s.wal.step mode l).map fun w => { s with wal := w } else none
  | .serialise =>
    match s.lock with
    | .free =>
      -- `tables_.empty()` returns before anything is written
      if s.engine.tables.isEmpty then none
      else (snapshotText env s.engine.tables (s.wal.nextSequence - 1)).map fun text =>
        { s with lock := .serialised text s.changes.length }
    | _ => none
  | .writeTmp n =>
    match s.lock with
    | .serialised text upTo => some { s with lock := .tmpWritten ⟨text.take n, false, upTo⟩ }
    | _ => none
  | .writeTmpFails =>
    match s.lock with
    | .serialised _ _ => some { s with lock := .free }
    | _ => none
  | .rename ok =>
    match s.lock with
    | .tmpWritten tmp =>
      if ok then some { s with snaps := some tmp :: s.snaps, lock := .renamed } else some { s with lock := .free }
    | _ => none
  | .drain =>
    match s.lock with
    | .renamed =>
      let r := s.drainLog
      some { r.1 with lock := if r.2 then .draining s.wal.promises.length else .drained }
    | _ => none
  | .drained =>
    match s.lock with
    | .draining i => if settled s.wal i then some { s with lock := .drained } else none
    | _ => none
  | .truncate opened =>
    match s.lock with
    | .drained => (s.wal.truncateFile opened).map fun w => { s with wal := w, lock := .truncated }
    | _ => none
  | .reopen opened n =>
    match s.lock with
    | .truncated => some { s with wal := s.wal.reopen opened n, lock := .free }
    | _ => none
  | .flush =>
    match s.lock with
    | .free => some s.drainLog.1
    | _ => none
  | .syncSnap =>
    match s.lock with
    | .tmpWritten tmp => some { s with lock := .tmpWritten { tmp with synced := true } }
    | _ => match s.snaps with
      | some f :: older => some { s with snaps := some { f with synced := true } :: older }
      | _ => none
  | .syncDir => some { s with snaps := s.snaps.take 1 }

end

/-! ## Booting -/

/-- A first boot: whatever snapshot there is, and a log that holds nothing but its magic. -/
def start (env : Env) (snap : Option Bytes) : Option Server :=
  (loadSnapshotIfPresent env.toJsonLib {} snap).map fun e =>
    { engine := e, wal := Wal.walInitialize [] 8, snaps := [snap.map fun text => ⟨text, true, 0⟩] }

/-- What the next boot rebuilds when the process dies here. -/
def recovered (env : Env) (clock : Nat → UInt64) (s : Server) : Option Engine :=
  recover env.toJsonLib clock (snapText s.snapFile) s.wal.file

end Server

end OriginDB
