import OriginDB.Lib.Machine
import OriginDB.Storage.WalFile
/-!
# The WAL writer (`WALImpl::Impl`, `src/storage/wal_impl.cpp`)

Committers enqueue serialised batches under `queue_mutex_`; one writer thread swaps the whole queue
out, writes it with a loop of `write()` calls that may be short, syncs, fulfils the promises one by
one and only then, if anything failed, sets `fatal_` under the queue lock again. Every one of these
is a step of its own here, so a run is an arbitrary interleaving.

| here | there |
| --- | --- |
| `append`, `appendBatchAsync`   | `AppendBatchAsync` (`:105`), one step: all of it runs under `queue_mutex_` |
| `drain`                        | the enqueueing half of `Drain` (`:318`); the wait is on the promise |
| `swap`                         | `drained.swap(queue_)` (`:250`), after the optional `group_commit_window_us` |
| `write n`, `writeError`        | one `write()` of the loop in `WriteAndSync` (`:276-284`) that takes `n` bytes, or fails (`EINTR` retries, so it is no step) |
| `sync ok`                      | `SyncFd` in `fsync` mode (`:289`), or the plain `return true` |
| `fulfil`                       | one `p.done->set_value(ok)` (`:257`) |
| `endDrain`                     | back to the top of the loop, through `fatal_ = true` when the drain failed (`:259-266`) |
| `stopWriter`, `exit`           | `StopWriter` (`:331`) and the `break` of the loop (`:239`) |

`batches`, `base` and `origin` are history variables no step reads: the entries of every promise,
how many of them the last truncation left behind, and what the file held then.
-/
namespace OriginDB

open ByteCodec

/-- `SyncMode` (config.h:11). -/
inductive SyncMode where
  | none | flush | fsync
deriving DecidableEq

/-- `PendingBatch` (wal_impl.cpp:217); `done` is the index of its promise. -/
structure PendingBatch where
  bytes : Bytes
  done : Nat
deriving DecidableEq

inductive Writer where
  | waiting
  | writing (drained : List PendingBatch) (rest : Bytes)
  | fulfilling (todo : List PendingBatch) (ok : Bool)
  | exited
deriving DecidableEq

structure Wal where
  file : Bytes
  /-- What a power loss may leave: for the file as it is and for each earlier incarnation a truncation
  may fail to have replaced, the bytes on disk and the bytes written since, newest first. -/
  images : List (Bytes × Bytes)
  fdOpen : Bool := true
  nextSequence : UInt64
  queue : List PendingBatch := []
  fatal : Bool := false
  stop : Bool := false
  writer : Writer := .waiting
  promises : List (Option Bool) := []
  batches : List (List WALEntry) := []
  base : Nat := 0
  origin : Bytes
deriving DecidableEq

namespace Wal

/-! ## Opening the log -/

/-- `WriteMagicIfEmpty` (wal_impl.cpp:348), its one `write()` taking `n` bytes; a short one is only logged. -/
def writeMagicIfEmpty (file : Bytes) (n : Nat) : Bytes := if file = [] then kWalMagic.take n else file

/-- `RecoverSequenceNumber` (wal_impl.cpp:341). -/
def recoverSequenceNumber (file : Bytes) : UInt64 :=
  (readAll file).foldl (fun m e => max m e.sequence) 0 + 1

/-- `Initialize` (wal_impl.cpp:74) on the file a previous process left. -/
def walInitialize (file : Bytes) (n : Nat) : Wal :=
  { file := writeMagicIfEmpty file n
    images := [(file, (writeMagicIfEmpty file n).drop file.length)]
    nextSequence := recoverSequenceNumber (writeMagicIfEmpty file n)
    origin := writeMagicIfEmpty file n }

/-! ## Steps -/

/-- `e.sequence = next_sequence_++; e.timestamp = ts` over the batch (wal_impl.cpp:125-129). -/
def assign (next ts : UInt64) : List WALEntry → List WALEntry
  | [] => []
  | e :: es => { e with sequence := next, timestamp := ts } :: assign (next + 1) ts es

/-- `queue_.push_back(PendingBatch{...})` with a fresh promise. -/
def enqueue (w : Wal) (es : List WALEntry) : Wal :=
  { w with
    queue := w.queue ++ [⟨recordsBytes es, w.promises.length⟩]
    promises := w.promises ++ [none]
    batches := w.batches ++ [es] }

/-- `AppendBatchAsync`; the future is the promise numbered `w.promises.length`. -/
def appendBatchAsync (w : Wal) (entries : List WALEntry) (ts : UInt64) : Wal :=
  if w.fatal then { w with promises := w.promises ++ [some false], batches := w.batches ++ [[]] }
  else
    { w.enqueue (assign w.nextSequence ts entries) with
      nextSequence := w.nextSequence + UInt64.ofNat entries.length }

/-- `Drain` up to its wait: an empty barrier batch, unless the writer is stopping or `fatal_` is set. -/
def drain (w : Wal) : Wal := if w.stop || w.fatal then w else w.enqueue []

/-- Bytes reach the page cache, behind what the newest image has. -/
def grow (images : List (Bytes × Bytes)) (bs : Bytes) : List (Bytes × Bytes) :=
  match images with
  | [] => []
  | (disk, since) :: older => (disk, since ++ bs) :: older

inductive Label where
  | append (entries : List WALEntry) (ts : UInt64)
  | drain
  | swap
  | write (n : Nat)
  | writeError
  | sync (ok : Bool)
  | fulfil
  | endDrain
  | stopWriter
  | exit
deriving DecidableEq

def step (mode : SyncMode) (w : Wal) : Label → Option Wal
  | .append entries ts => some (w.appendBatchAsync entries ts)
  | .drain => some w.drain
  | .swap =>
    if w.writer = .waiting ∧ w.queue ≠ [] then
      some { w with writer := .writing w.queue (w.queue.flatMap (·.bytes)), queue := [] }
    else none
  | .write n =>
    match w.writer with
    | .writing drained rest =>
      if w.fdOpen ∧ 0 < n ∧ n ≤ rest.length then
        some { w with
          file := w.file ++ rest.take n
          images := grow w.images (rest.take n)
          writer := .writing drained (rest.drop n) }
      else none
    | _ => none
  | .writeError =>
    match w.writer with
    | .writing drained rest =>
      if w.fdOpen = false ∨ rest ≠ [] then some { w with writer := .fulfilling drained false } else none
    | _ => none
  | .sync ok =>
    match w.writer with
    | .writing drained [] =>
      if w.fdOpen then
        if mode = .fsync then
          some { w with
            images := if ok then [(w.file, [])] else w.images
            writer := .fulfilling drained ok }
        else if ok then some { w with writer := .fulfilling drained true } else none
      else none
    | _ => none
  | .fulfil =>
    match w.writer with
    | .fulfilling (p :: todo) ok =>
      some { w with promises := w.promises.set p.done (some ok), writer := .fulfilling todo ok }
    | _ => none
  | .endDrain =>
    match w.writer with
    | .fulfilling [] ok => some { w with writer := .waiting, fatal := w.fatal || !ok }
    | _ => none
  | .stopWriter => some { w with stop := true }
  | .exit => if w.writer = .waiting ∧ w.queue = [] ∧ w.stop then some { w with writer := .exited } else none

/-- The file after `open(O_TRUNC)`. -/
def emptied (w : Wal) : Wal :=
  { w with file := [], images := ([], []) :: w.images, base := w.batches.length, origin := [] }

/-- `Truncate` after its `Drain`, up to the `O_TRUNC` (wal_impl.cpp:190-195). `file_mutex_` keeps it out
of a `WriteAndSync` that has begun to write; an `open` that fails leaves the file and is ignored. -/
def truncateFile (w : Wal) (opened : Bool) : Option Wal :=
  match w.writer with
  | .writing drained rest =>
    if rest = drained.flatMap (·.bytes) then some (if opened then w.emptied else w) else none
  | _ => some (if opened then w.emptied else w)

/-- The rest of `Truncate`: reopen for append and write the magic into the empty file. -/
def reopen (w : Wal) (opened : Bool) (n : Nat) : Wal :=
  if opened = false then { w with fdOpen := false }
  else if w.file = [] then
    { w with fdOpen := true, file := kWalMagic.take n, images := grow w.images (kWalMagic.take n),
             origin := kWalMagic.take n }
  else { w with fdOpen := true }

end Wal

end OriginDB
