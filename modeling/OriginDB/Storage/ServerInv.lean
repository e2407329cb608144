import Mathlib.Data.List.Infix
import OriginDB.Storage.History
import OriginDB.Storage.Server
/-!
# What holds in every state of the server

As long as the log has not failed (`Good`) the tables are what the changes made of the first database,
the batches mirror the changes, and the snapshot in place holds a prefix of them that the log goes on
from. After a failure (`Bad`) file and snapshot stay as they are for good. `Ok` is what a step must
not do for this: hand over a batch that cannot be read back, insert over a row that is there, leave
half a transaction in the tables, take a snapshot that does not reload, or put in place one that holds
changes the log has lost.
-/
namespace OriginDB

open JsonDoc ByteCodec Machine

namespace Wal

/-- A drain has failed. -/
def failed (w : Wal) : Bool := w.fatal || match w.writer with
  | .fulfilling _ false => true
  | _ => false

theorem Sound.not_failed {w : Wal} {k q : Nat} (h : Sound w k q) : w.failed = false := by
  have hgood := h.good
  unfold failed
  rw [h.fatal, Bool.false_or]
  split
  · rename_i todo hw
    exact absurd hw (hgood todo)
  · rfl

theorem Failed.failed {w : Wal} {k : Nat} (h : Failed w k) : w.failed = true := by
  unfold Wal.failed
  cases h.ended with
  | fulfilling todo ht _ => simp [ht]
  | fatal _ hf => simp [hf]

/-- `AppendBatchAsync` before a failure. -/
theorem appendBatchAsync_eq {w : Wal} (h : w.fatal = false) (es : List WALEntry) (ts : UInt64) :
    w.appendBatchAsync es ts = { w.enqueue (assign w.nextSequence ts es) with
      nextSequence := w.nextSequence + UInt64.ofNat es.length } := by
  rw [appendBatchAsync, if_neg (by simp [h])]

@[simp] theorem appendBatchAsync_base (w : Wal) (es : List WALEntry) (ts : UInt64) :
    (w.appendBatchAsync es ts).base = w.base := by
  unfold appendBatchAsync
  split <;> rfl

@[simp] theorem appendBatchAsync_origin (w : Wal) (es : List WALEntry) (ts : UInt64) :
    (w.appendBatchAsync es ts).origin = w.origin := by
  unfold appendBatchAsync
  split <;> rfl

theorem appendBatchAsync_batches {w : Wal} (h : w.fatal = false) (es : List WALEntry) (ts : UInt64) :
    (w.appendBatchAsync es ts).batches = w.batches ++ [assign w.nextSequence ts es] := by
  rw [appendBatchAsync_eq h]
  rfl

theorem truncateFile_eq {w w' : Wal} {opened : Bool} (h : w.truncateFile opened = some w') :
    w' = if opened then w.emptied else w := by
  unfold truncateFile at h
  split at h
  · split at h
    · cases h; rfl
    · cases h
  · cases h; rfl

end Wal

/-- The new snapshot is in place and the log not yet reopened. -/
def Lock.inPlace : Lock → Bool
  | .renamed | .draining _ | .drained | .truncated => true
  | _ => false

namespace Server

/-! ## Permitted steps -/

section Permitted
variable (env : Env) (feed : Bool)

/-- The batch a step hands to the log. -/
def batchOf (s : Server) : Label → List WALEntry
  | .commit txn clock _ => (OriginDB.commit env feed clock s.engine txn).entries
  | .createTable schema _ =>
    match OriginDB.createTable env.toJsonLib s.engine schema with
    | .logged _ entry => [entry]
    | _ => []
  | .dropTable name _ =>
    match OriginDB.dropTable s.engine name with
    | some (_, entry) => [entry]
    | none => []
  | _ => []

/-- No exception, and what a rejected commit applied before its failing write cancels out. -/
def Clean (s : Server) : Label → Prop
  | .commit txn clock _ =>
    match OriginDB.commit env feed clock s.engine txn with
    | .threw _ => False
    | .rejected _ => ∀ w ∈ appliedWrites s.engine.tables [] txn.writeSet,
        netRow clock w.tableName w.row.key 0 (appliedWrites s.engine.tables [] txn.writeSet)
          (rowOf s.engine.tables w.tableName w.row.key) = rowOf s.engine.tables w.tableName w.row.key
    | _ => True
  | .createTable schema _ =>
    match OriginDB.createTable env.toJsonLib s.engine schema with
    | .threw _ => False
    | _ => True
  | _ => True

/-- The INSERTs of a commit are fresh. -/
def Fresh (strict : Bool) (s : Server) : Label → Prop
  | .commit txn _ _ => InsertsFresh strict (view s.engine.tables) txn.writeSet
  | _ => True

/-- The step itself: the log fails only while no snapshot waits for it, and a snapshot holds what is in
the tables, reaches its file whole and is put in place only over a log that has not failed. -/
def StepOk (s : Server) : Label → Prop
  | .writer l => s.wal.Permitted l ∧ (l.fails = true → s.lock.inPlace = false)
  | .serialise => LosslessTables s.engine.tables
  | .writeTmp n =>
    match s.lock with
    | .serialised text _ => text.length ≤ n
    | _ => True
  | .rename ok => ok = true → s.wal.failed = false
  | .reopen opened n => opened = true ∧ 8 ≤ n
  | _ => True

structure Ok (strict : Bool) (s : Server) (l : Label) : Prop where
  clean : Clean env feed s l
  fresh : s.wal.failed = false → Fresh strict s l
  accepts : s.wal.fatal = false → s.wal.Accepts (batchOf env feed s l)
  step : StepOk s l

end Permitted

section Decide
variable {env : Env} {feed : Bool}

instance (T : Tables) : Decidable (LosslessTables T) :=
  decidable_of_iff (∀ p ∈ T.toList, ∀ q ∈ p.2.rows.toList, ∀ c ∈ q.2.columns.toList, c.2.Lossless = true) (by
    simp only [LosslessTables, Prod.forall, Std.ExtTreeMap.mem_toList_iff_getElem?_eq_some])

instance Clean.decidable : ∀ (s : Server) (l : Label), Decidable (Clean env feed s l)
  | s, .commit txn clock ts =>
    match h : OriginDB.commit env feed clock s.engine txn with
    | .threw _ => isFalse (by simp [Clean, h])
    | .rejected _ => decidable_of_iff (∀ w ∈ appliedWrites s.engine.tables [] txn.writeSet,
        netRow clock w.tableName w.row.key 0 (appliedWrites s.engine.tables [] txn.writeSet)
          (rowOf s.engine.tables w.tableName w.row.key) = rowOf s.engine.tables w.tableName w.row.key) (by simp [Clean, h])
    | .notActive | .nothingToWrite | .submitted _ _ _ => isTrue (by simp [Clean, h])
  | s, .createTable schema ts =>
    match h : OriginDB.createTable env.toJsonLib s.engine schema with
    | .threw _ => isFalse (by simp [Clean, h])
    | .exists | .logged _ _ => isTrue (by simp [Clean, h])
  | _, .dropTable _ _ | _, .ddlDone | _, .writer _ | _, .serialise | _, .writeTmp _ | _, .writeTmpFails | _, .rename _
  | _, .drain | _, .drained | _, .truncate _ | _, .reopen _ _ | _, .flush | _, .syncSnap | _, .syncDir => isTrue trivial

instance (strict : Bool) (s : Server) : ∀ l : Label, Decidable (Fresh strict s l)
  | .commit txn _ _ => InsertsFresh.decidable strict (view s.engine.tables) txn.writeSet
  | .createTable _ _ | .dropTable _ _ | .ddlDone | .writer _ | .serialise | .writeTmp _ | .writeTmpFails | .rename _
  | .drain | .drained | .truncate _ | .reopen _ _ | .flush | .syncSnap | .syncDir => isTrue trivial

instance (s : Server) : ∀ l : Label, Decidable (StepOk s l)
  | .writer l => inferInstanceAs (Decidable (s.wal.Permitted l ∧ (l.fails = true → s.lock.inPlace = false)))
  | .serialise => inferInstanceAs (Decidable (LosslessTables s.engine.tables))
  | .writeTmp n =>
    match h : s.lock with
    | .serialised text _ => decidable_of_iff (text.length ≤ n) (by simp [StepOk, h])
    | .free | .ddl _ _ | .tmpWritten _ | .renamed | .draining _ | .drained | .truncated => isTrue (by simp [StepOk, h])
  | .rename ok => inferInstanceAs (Decidable (ok = true → s.wal.failed = false))
  | .reopen opened n => inferInstanceAs (Decidable (opened = true ∧ 8 ≤ n))
  | .commit _ _ _ | .createTable _ _ | .dropTable _ _ | .ddlDone | .writeTmpFails | .drain | .drained | .truncate _
  | .flush | .syncSnap | .syncDir => isTrue trivial

instance (strict : Bool) (s : Server) (l : Label) : Decidable (Ok env feed strict s l) :=
  decidable_of_iff (Clean env feed s l ∧ (s.wal.failed = false → Fresh strict s l) ∧
      (s.wal.fatal = false → s.wal.Accepts (batchOf env feed s l)) ∧ StepOk s l)
    ⟨fun h => ⟨h.1, h.2.1, h.2.2.1, h.2.2.2⟩, fun h => ⟨h.1, h.2, h.3, h.4⟩⟩

end Decide

/-! ## What one step does -/

section Cases
variable {env : Env} {mode : SyncMode} {feed : Bool} {s s' : Server} {l : Label}

theorem drainLog_frame (s : Server) : s.drainLog.1.engine = s.engine ∧ s.drainLog.1.lock = s.lock := by
  unfold drainLog
  split <;> exact ⟨rfl, rfl⟩

/-- The steps of a checkpoint, and of the kernel on its files. -/
def Label.ofCheckpoint : Label → Bool
  | .serialise | .writeTmp _ | .writeTmpFails | .rename _ | .drain | .drained | .truncate _ | .reopen _ _
  | .syncSnap | .syncDir => true
  | _ => false

theorem sameContents_rejected {clock : Nat → UInt64} {txn : Txn} {e e' : Engine}
    (h : OriginDB.commit env feed clock e txn = .rejected e')
    (hnet : ∀ w ∈ appliedWrites e.tables [] txn.writeSet,
      netRow clock w.tableName w.row.key 0 (appliedWrites e.tables [] txn.writeSet)
        (rowOf e.tables w.tableName w.row.key) = rowOf e.tables w.tableName w.row.key) : SameContents e e' := by
  refine ((After.refl clock e).failed (commit_spec.2 e' h)).sameContents_iff.2 fun n k => ?_
  by_cases hm : ∃ w ∈ appliedWrites e.tables [] txn.writeSet, w.tableName = n ∧ w.row.key = k
  · obtain ⟨w, hw, rfl, rfl⟩ := hm
    exact hnet w hw
  · exact netRow_of_notMem fun w hw hc => hm ⟨w, hw, hc⟩

/-- An operation that does not reach the log. -/
structure Quiet (env : Env) (feed : Bool) (s s' : Server) (l : Label) (e' : Engine) (lock : Lock) : Prop where
  eq : s' = { s with engine := e', lock := lock }
  held : s.lock.isCheckpoint = false
  free : lock.isCheckpoint = false
  view : Clean env feed s l → view e'.tables = view s.engine.tables
  keyed : Clean env feed s l → WellKeyed s.engine.tables → WellKeyed e'.tables

/-- One that does. -/
structure Appends (env : Env) (feed : Bool) (s s' : Server) (l : Label) (c : Change) (ts : UInt64) (e' : Engine)
    (lock : Lock) : Prop where
  eq : s' = { s with engine := e', wal := s.wal.appendBatchAsync (batchOf env feed s l) ts, lock := lock,
                     changes := s.changes ++ [c] }
  held : s.lock = .free
  free : lock.isCheckpoint = false
  logs : Logs env feed s.engine c (batchOf env feed s l) e'
  fresh : ∀ strict, Fresh strict s l → c.Fresh strict (OriginDB.view s.engine.tables)

theorem step_writer {wl : Wal.Label} (hstep : step env mode feed s (.writer wl) = some s') :
    byWriter wl = true ∧ ∃ w, s.wal.step mode wl = some w ∧ s' = { s with wal := w } := by
  simp only [Server.step] at hstep
  split at hstep
  · rename_i hby
    obtain ⟨w, hw, he⟩ := Option.map_eq_some_iff.1 hstep
    exact ⟨hby, w, hw, he.symm⟩
  · cases hstep

/-- **Outside a checkpoint** a step is quiet, appends a batch, is the writer's or flushes. -/
theorem step_cases (hl : l.ofCheckpoint = false) (hstep : step env mode feed s l = some s') :
    (∃ e' lock, Quiet env feed s s' l e' lock) ∨
    (∃ c ts e' lock, Appends env feed s s' l c ts e' lock) ∨
    (∃ wl w, l = .writer wl ∧ byWriter wl = true ∧ s.wal.step mode wl = some w ∧ s' = { s with wal := w }) ∨
    (l = .flush ∧ s.lock = .free ∧ s' = s.drainLog.1) := by
  cases l with
  | commit txn clock ts =>
    simp only [Server.step] at hstep
    split at hstep
    · rename_i hlock
      have hheld : s.lock.isCheckpoint = false := by rw [hlock]; rfl
      cases hr : OriginDB.commit env feed clock s.engine txn with
      | submitted e' entries events =>
        rw [hr] at hstep
        cases hstep
        have hb : batchOf env feed s (.commit txn clock ts) = entries := by simp [batchOf, hr, CommitResult.entries]
        refine Or.inr (Or.inl ⟨.commit txn.writeSet, ts, e', s.lock, ?_, hlock, hheld, ?_, fun _ h => h⟩)
        · rw [hb]
        · rw [hb]
          exact .commit (commit_spec.1 _ _ _ hr)
      | rejected e' =>
        rw [hr] at hstep
        cases hstep
        have hsame : Clean env feed s (.commit txn clock ts) → SameContents s.engine e' := by
          intro hc
          simp only [Clean, hr] at hc
          exact sameContents_rejected hr hc
        exact Or.inl ⟨e', s.lock, rfl, hheld, hheld, fun hc => view_sameContents (hsame hc),
          fun hc hk => hk.sameContents (hsame hc)⟩
      | threw e' =>
        rw [hr] at hstep
        cases hstep
        refine Or.inl ⟨e', s.lock, rfl, hheld, hheld, fun hc => ?_, fun hc => ?_⟩
        · simp [Clean, hr] at hc
        · simp [Clean, hr] at hc
      | notActive | nothingToWrite =>
        rw [hr] at hstep
        cases hstep
        exact Or.inl ⟨s.engine, s.lock, rfl, hheld, hheld, fun _ => rfl, fun _ h => h⟩
    · cases hstep
  | createTable schema ts =>
    simp only [Server.step] at hstep
    split at hstep
    · rename_i hlock
      have hheld : s.lock.isCheckpoint = false := by rw [hlock]; rfl
      cases hr : OriginDB.createTable env.toJsonLib s.engine schema with
      | «exists» =>
        rw [hr] at hstep
        cases hstep
        exact Or.inl ⟨s.engine, s.lock, rfl, hheld, hheld, fun _ => rfl, fun _ h => h⟩
      | threw e' =>
        rw [hr] at hstep
        cases hstep
        refine Or.inl ⟨e', s.lock, rfl, hheld, hheld, fun hc => ?_, fun hc => ?_⟩
        · simp [Clean, hr] at hc
        · simp [Clean, hr] at hc
      | logged e' entry =>
        rw [hr] at hstep
        cases hstep
        have hb : batchOf env feed s (.createTable schema ts) = [entry] := by simp [batchOf, hr]
        refine Or.inr (Or.inl ⟨.create schema, ts, e', .ddl s.wal.promises.length true, ?_, hlock, rfl, ?_, fun _ _ => trivial⟩)
        · rw [hb]
        · rw [hb]
          exact .create hr
    · cases hstep
  | dropTable name ts =>
    simp only [Server.step] at hstep
    split at hstep
    · rename_i hlock
      have hheld : s.lock.isCheckpoint = false := by rw [hlock]; rfl
      cases hr : OriginDB.dropTable s.engine name with
      | none =>
        rw [hr] at hstep
        cases hstep
        exact Or.inl ⟨s.engine, s.lock, rfl, hheld, hheld, fun _ => rfl, fun _ h => h⟩
      | some pr =>
        obtain ⟨e', entry⟩ := pr
        rw [hr] at hstep
        cases hstep
        have hb : batchOf env feed s (.dropTable name ts) = [entry] := by simp [batchOf, hr]
        refine Or.inr (Or.inl ⟨.drop name, ts, e', .ddl s.wal.promises.length false, ?_, hlock, rfl, ?_, fun _ _ => trivial⟩)
        · rw [hb]
        · rw [hb]
          exact .drop hr
    · cases hstep
  | ddlDone =>
    simp only [Server.step] at hstep
    split at hstep
    · rename_i i created hlock
      split at hstep
      · cases hstep
        exact Or.inl ⟨_, .free, rfl, by rw [hlock]; rfl, rfl, fun _ => rfl, fun _ h => h⟩
      · cases hstep
    · cases hstep
  | writer wl =>
    obtain ⟨hby, w, hw, he⟩ := step_writer hstep
    exact Or.inr (Or.inr (Or.inl ⟨wl, w, rfl, hby, hw, he⟩))
  | flush =>
    simp only [Server.step] at hstep
    split at hstep
    · rename_i hlock
      cases hstep
      exact Or.inr (Or.inr (Or.inr ⟨rfl, hlock, rfl⟩))
    · cases hstep
  | _ => cases hl

/-- **Inside a checkpoint** only draining, truncating and reopening touch the log. -/
theorem checkpoint_cases (hl : l.ofCheckpoint = true) (hstep : step env mode feed s l = some s') :
    (s'.wal = s.wal ∧ s'.changes = s.changes) ∨
    (l = .drain ∧ s.lock = .renamed ∧
      s' = { s.drainLog.1 with lock := if s.drainLog.2 then .draining s.wal.promises.length else .drained }) ∨
    (∃ opened w, l = .truncate opened ∧ s.lock = .drained ∧ s.wal.truncateFile opened = some w ∧
      s' = { s with wal := w, lock := .truncated }) ∨
    (∃ opened n, l = .reopen opened n ∧ s.lock = .truncated ∧
      s' = { s with wal := s.wal.reopen opened n, lock := .free }) := by
  cases l with
  | serialise =>
    simp only [Server.step] at hstep
    split at hstep
    · split at hstep
      · cases hstep
      · obtain ⟨text, -, rfl⟩ := Option.map_eq_some_iff.1 hstep
        exact Or.inl ⟨rfl, rfl⟩
    · cases hstep
  | drain =>
    simp only [Server.step] at hstep
    split at hstep
    · rename_i hlock
      cases hstep
      exact Or.inr (Or.inl ⟨rfl, hlock, rfl⟩)
    · cases hstep
  | truncate opened =>
    simp only [Server.step] at hstep
    split at hstep
    · rename_i hlock
      obtain ⟨w, hw, rfl⟩ := Option.map_eq_some_iff.1 hstep
      exact Or.inr (Or.inr (Or.inl ⟨opened, w, rfl, hlock, hw, rfl⟩))
    · cases hstep
  | reopen opened n =>
    simp only [Server.step] at hstep
    split at hstep
    · rename_i hlock
      cases hstep
      exact Or.inr (Or.inr (Or.inr ⟨opened, n, rfl, hlock, rfl⟩))
    · cases hstep
  | writeTmp _ | writeTmpFails | rename _ | drained | syncSnap | syncDir =>
    simp only [Server.step] at hstep
    repeat' split at hstep
    all_goals first
      | (cases hstep; done)
      | (cases hstep; exact Or.inl ⟨rfl, rfl⟩)
  | _ => cases hl

/-- No schema change is under way before or after. -/
def NoDdl (s s' : Server) : Prop := (∀ i created, s.lock ≠ .ddl i created) ∧ ∀ i created, s'.lock ≠ .ddl i created

/-- **What becomes of the tables**: only the three calls change them, and the count of a schema change comes last. -/
theorem engine_cases (hstep : step env mode feed s l = some s') :
    (s'.engine = s.engine ∧ (s'.lock = s.lock ∨ NoDdl s s')) ∨
    (∃ txn clock ts, l = .commit txn clock ts ∧ NoDdl s s' ∧
      s'.engine = (OriginDB.commit env feed clock s.engine txn).engine s.engine) ∨
    (∃ schema ts, l = .createTable schema ts ∧ s.lock = .free ∧
      ((OriginDB.createTable env.toJsonLib s.engine schema = .threw s'.engine ∧ NoDdl s s') ∨
        ∃ entry i, OriginDB.createTable env.toJsonLib s.engine schema = .logged s'.engine entry ∧ s'.lock = .ddl i true)) ∨
    (∃ name ts entry i, l = .dropTable name ts ∧ s.lock = .free ∧
      OriginDB.dropTable s.engine name = some (s'.engine, entry) ∧ s'.lock = .ddl i false) ∨
    (∃ i created, l = .ddlDone ∧ s.lock = .ddl i created ∧ s'.lock = .free ∧ s'.engine = s.engine.countTable created) := by
  cases l with
  | commit txn clock ts =>
    simp only [Server.step] at hstep
    split at hstep
    · rename_i hlock
      refine Or.inr (Or.inl ⟨txn, clock, ts, rfl, ?_⟩)
      split at hstep
      · rename_i e entries events heq
        cases hstep
        exact ⟨⟨by simp [hlock], by simp [hlock]⟩, by rw [heq]; rfl⟩
      · cases hstep
        exact ⟨⟨by simp [hlock], by simp [hlock]⟩, rfl⟩
    · cases hstep
  | createTable schema ts =>
    simp only [Server.step] at hstep
    split at hstep
    · rename_i hlock
      split at hstep
      · cases hstep
        exact Or.inl ⟨rfl, Or.inl rfl⟩
      · rename_i e heq
        cases hstep
        exact Or.inr (Or.inr (Or.inl ⟨schema, ts, rfl, hlock, Or.inl ⟨heq, by simp [hlock], by simp [hlock]⟩⟩))
      · rename_i e entry heq
        cases hstep
        exact Or.inr (Or.inr (Or.inl ⟨schema, ts, rfl, hlock, Or.inr ⟨entry, _, heq, rfl⟩⟩))
    · cases hstep
  | dropTable name ts =>
    simp only [Server.step] at hstep
    split at hstep
    · rename_i hlock
      split at hstep
      · cases hstep
        exact Or.inl ⟨rfl, Or.inl rfl⟩
      · rename_i e entry heq
        cases hstep
        exact Or.inr (Or.inr (Or.inr (Or.inl ⟨name, ts, entry, _, rfl, hlock, heq, rfl⟩)))
    · cases hstep
  | ddlDone =>
    simp only [Server.step] at hstep
    split at hstep
    · rename_i i created hlock
      split at hstep
      · cases hstep
        exact Or.inr (Or.inr (Or.inr (Or.inr ⟨i, created, rfl, hlock, rfl, rfl⟩)))
      · cases hstep
    · cases hstep
  | writer wl =>
    obtain ⟨-, w, -, rfl⟩ := step_writer hstep
    exact Or.inl ⟨rfl, Or.inl rfl⟩
  | drain =>
    simp only [Server.step] at hstep
    split at hstep
    · rename_i hlock
      cases hstep
      refine Or.inl ⟨s.drainLog_frame.1, Or.inr ⟨by simp [hlock], fun i created => ?_⟩⟩
      simp only
      split <;> simp
    · cases hstep
  | flush =>
    simp only [Server.step] at hstep
    split at hstep
    · cases hstep
      exact Or.inl ⟨s.drainLog_frame.1, Or.inl s.drainLog_frame.2⟩
    · cases hstep
  | serialise =>
    simp only [Server.step] at hstep
    split at hstep
    · rename_i hlock
      split at hstep
      · cases hstep
      · obtain ⟨text, -, rfl⟩ := Option.map_eq_some_iff.1 hstep
        exact Or.inl ⟨rfl, Or.inr ⟨by simp [hlock], by simp⟩⟩
    · cases hstep
  | truncate opened =>
    simp only [Server.step] at hstep
    split at hstep
    · rename_i hlock
      obtain ⟨w, -, rfl⟩ := Option.map_eq_some_iff.1 hstep
      exact Or.inl ⟨rfl, Or.inr ⟨by simp [hlock], by simp⟩⟩
    · cases hstep
  | writeTmp _ | writeTmpFails | reopen _ _ =>
    simp only [Server.step] at hstep
    split at hstep
    · rename_i hlock
      cases hstep
      exact Or.inl ⟨rfl, Or.inr ⟨by simp [hlock], by simp⟩⟩
    · cases hstep
  | rename _ | drained =>
    simp only [Server.step] at hstep
    split at hstep
    · rename_i hlock
      split at hstep
      all_goals first
        | (cases hstep; done)
        | (cases hstep; exact Or.inl ⟨rfl, Or.inr ⟨by simp [hlock], by simp⟩⟩)
    · cases hstep
  | syncSnap =>
    simp only [Server.step] at hstep
    split at hstep
    · rename_i hlock
      cases hstep
      exact Or.inl ⟨rfl, Or.inr ⟨by simp [hlock], by simp⟩⟩
    · split at hstep
      · cases hstep
        exact Or.inl ⟨rfl, Or.inl rfl⟩
      · cases hstep
  | syncDir =>
    cases hstep
    exact Or.inl ⟨rfl, Or.inl rfl⟩

end Cases

/-! ## The tables, the changes and the log -/

/-- The writer's own steps touch neither the batches nor where the log began. -/
theorem writer_frame {mode : SyncMode} {w w' : Wal} {l : Wal.Label} (hl : byWriter l = true)
    (hstep : w.step mode l = some w') : w'.batches = w.batches ∧ w'.base = w.base ∧ w'.origin = w.origin ∧
      w'.stop = w.stop ∧ w'.nextSequence = w.nextSequence := by
  cases l with
  | append _ _ | drain | stopWriter | exit => cases hl
  | _ =>
    simp only [Wal.step] at hstep
    repeat' split at hstep
    all_goals first
      | (cases hstep; done)
      | (cases hstep; exact ⟨rfl, rfl, rfl, rfl, rfl⟩)

/-- The log has not failed, and the tables hold every change. -/
structure Base (db : Db) (s : Server) (k q : Nat) : Prop where
  sound : s.wal.Sound k q
  recorded : s.wal.Recorded
  stop : s.wal.stop = false
  length : s.changes.length = s.wal.batches.length
  view : view s.engine.tables = db.after s.changes
  keyed : WellKeyed s.engine.tables

section Base
variable {env : Env} {mode : SyncMode} {feed : Bool} {db : Db} {s s' : Server} {l : Label} {k q : Nat}

theorem Base.quiet {e' : Engine} {lock : Lock} (h : Base db s k q) (hq : Quiet env feed s s' l e' lock)
    (hc : Clean env feed s l) : Base db s' k q := by
  rw [hq.eq]
  exact ⟨h.sound, h.recorded, h.stop, h.length, (hq.view hc).trans h.view, hq.keyed hc h.keyed⟩

theorem Base.appends {c : Change} {ts : UInt64} {e' : Engine} {lock : Lock} (h : Base db s k q)
    (ha : Appends env feed s s' l c ts e' lock) (hacc : s.wal.Accepts (batchOf env feed s l)) : Base db s' k q := by
  have hwal := Wal.appendBatchAsync_eq h.sound.fatal (batchOf env feed s l) ts
  rw [ha.eq]
  refine ⟨?_, ?_, ?_, ?_, ?_, ha.logs.wellKeyed h.keyed⟩
  · show (s.wal.appendBatchAsync _ ts).Sound k q
    rw [hwal]
    exact (h.sound.enqueue _).congr rfl
  · show (s.wal.appendBatchAsync _ ts).Recorded
    rw [hwal]
    exact h.recorded.more (Wal.recorded_assign hacc.numbered hacc.fits)
  · show (s.wal.appendBatchAsync _ ts).stop = false
    rw [hwal]
    exact h.stop
  · show (s.changes ++ [c]).length = (s.wal.appendBatchAsync _ ts).batches.length
    rw [hwal]
    simp [Wal.enqueue, h.length]
  · show OriginDB.view e'.tables = db.after (s.changes ++ [c])
    rw [DbOf.after_concat, ← h.view, ha.logs.view_eq]

theorem Base.writer {wl : Wal.Label} {w : Wal} (h : Base db s k q) (hby : byWriter wl = true)
    (hp : s.wal.Permitted wl) (hstep : s.wal.step mode wl = some w) :
    (∃ k' q', k ≤ k' ∧ q ≤ q' ∧ Base db { s with wal := w } k' q') ∨
      (wl.fails = true ∧ w.Failed k ∧ w.file = s.wal.file) := by
  obtain ⟨hb, -, -, hstop, -⟩ := writer_frame hby hstep
  rcases h.sound.step hstep with ⟨k', q', hk, hq, hs⟩ | hf
  · refine Or.inl ⟨k', q', hk, hq, hs, h.recorded.step hp hstep, hstop.trans h.stop, ?_, h.view, h.keyed⟩
    exact h.length.trans (by rw [hb])
  · exact Or.inr hf

/-- `Drain` while nothing has failed: one more empty batch. -/
theorem Base.drainLog_eq (h : Base db s k q) :
    s.drainLog = ({ s with wal := s.wal.enqueue [], changes := s.changes ++ [.barrier] }, true) := by
  have hno : (s.wal.stop || s.wal.fatal) = false := by rw [h.stop, h.sound.fatal]; rfl
  simp [drainLog, hno, Wal.drain]

theorem Base.drain (h : Base db s k q) (lock : Lock) :
    Base db { s with wal := s.wal.enqueue [], changes := s.changes ++ [.barrier], lock := lock } k q := by
  refine ⟨h.sound.enqueue [], h.recorded.more (by simp), h.stop, ?_, ?_, h.keyed⟩
  · simp [Wal.enqueue, h.length]
  · show OriginDB.view s.engine.tables = db.after (s.changes ++ [.barrier])
    rw [DbOf.after_concat, h.view]
    rfl

end Base

/-! ## Snapshot and log together -/

/-- The entries of the first `j` changes. -/
def logTo (s : Server) (j : Nat) : List WALEntry := (s.wal.batches.take j).flatten

/-- The snapshot in place holds the first changes, and the log begins no later than they end. -/
structure Resumes (env : Env) (db : Db) (s : Server) : Prop where
  loads : Loads env.toJsonLib (snapText s.snapFile) (db.after (s.changes.take (upTo s.snapFile)))
  upTo_le : upTo s.snapFile ≤ s.changes.length
  base : s.logTo s.wal.base <+: s.logTo (upTo s.snapFile)

/-- The snapshot in place holds everything. -/
def Covered (s : Server) : Prop := s.logTo (upTo s.snapFile) = s.logTo s.changes.length

/-- A text that holds everything, not yet in place. -/
structure Taken (env : Env) (db : Db) (s : Server) (text : Bytes) (n : Nat) : Prop where
  all : n = s.changes.length
  loads : Loads env.toJsonLib (some text) (db.after s.changes)

/-- Where a checkpoint stands. -/
def Phase (env : Env) (db : Db) (s : Server) (k : Nat) : Prop :=
  match s.lock with
  | .free | .ddl _ _ => s.wal.origin = kWalMagic ∧ upTo s.snapFile ≤ k
  | .serialised text n => s.wal.origin = kWalMagic ∧ upTo s.snapFile ≤ k ∧ Taken env db s text n
  | .tmpWritten f => s.wal.origin = kWalMagic ∧ upTo s.snapFile ≤ k ∧ Taken env db s f.text f.upTo
  | .renamed => s.wal.origin = kWalMagic ∧ s.Covered
  | .draining i => s.wal.origin = kWalMagic ∧ s.Covered ∧ i + 1 = s.changes.length
  | .drained => s.wal.origin = kWalMagic ∧ s.Covered ∧ k = s.changes.length
  | .truncated => (s.wal.origin = kWalMagic ∨ s.wal.origin = [] ∧ s.wal.base = s.changes.length) ∧ s.Covered ∧
      k = s.changes.length

structure Good (env : Env) (strict : Bool) (db : Db) (s : Server) (k q : Nat) : Prop extends Base db s k q where
  mirrors : Mirrors env.toJsonLib strict db s.changes s.wal.batches s.changes.length
  resumes : Resumes env db s
  phase : Phase env db s k

/-- A drain has failed; `m` changes had been made by then. -/
structure Bad (env : Env) (strict : Bool) (db : Db) (s : Server) (k m : Nat) : Prop where
  failed : s.wal.Failed k
  recorded : s.wal.Recorded
  length : s.changes.length = s.wal.batches.length
  acked_le : k ≤ m
  le_length : m ≤ s.changes.length
  mirrors : Mirrors env.toJsonLib strict db s.changes s.wal.batches m
  resumes : Resumes env db s
  upTo_le : upTo s.snapFile ≤ k
  origin : s.wal.origin = kWalMagic
  within : s.wal.file <+: kWalMagic ++ s.wal.span s.wal.base m
  lock : s.lock.inPlace = false

section Parts
variable {env : Env} {strict : Bool} {db : Db} {s s' : Server} {k q : Nat}

theorem phase_of_free (h : s.lock.isCheckpoint = false) :
    Phase env db s k ↔ s.wal.origin = kWalMagic ∧ upTo s.snapFile ≤ k := by
  unfold Phase
  split <;> simp_all [Lock.isCheckpoint]

theorem logTo_append {bs : List (List WALEntry)} (hb : s'.wal.batches = s.wal.batches ++ bs) {j : Nat}
    (hj : j ≤ s.wal.batches.length) : s'.logTo j = s.logTo j := by
  rw [logTo, hb, List.take_append_of_le_length hj, logTo]

theorem logTo_mono (s : Server) {i j : Nat} (h : i ≤ j) : s.logTo i <+: s.logTo j :=
  List.IsPrefix.flatten (List.take_prefix_take_left h)

/-- Later changes leave snapshot and log where they were. -/
theorem Resumes.more (h : Resumes env db s) (hlen : s.changes.length = s.wal.batches.length)
    (hbase : s.wal.base ≤ s.wal.batches.length) {cs : List Change} {bs : List (List WALEntry)}
    (hc : s'.changes = s.changes ++ cs) (hb : s'.wal.batches = s.wal.batches ++ bs) (hb0 : s'.wal.base = s.wal.base)
    (hs : s'.snaps = s.snaps) : Resumes env db s' := by
  have hf : s'.snapFile = s.snapFile := by rw [snapFile, hs, snapFile]
  have hle := h.upTo_le
  refine ⟨?_, ?_, ?_⟩
  · rw [hf, hc, List.take_append_of_le_length hle]
    exact h.loads
  · rw [hf, hc, List.length_append]
    omega
  · rw [hf, hb0, logTo_append hb hbase, logTo_append hb (by omega)]
    exact h.base

/-- What neither changes nor logs anything leaves it resumable. -/
theorem Resumes.same (h : Resumes env db s) (hlen : s.changes.length = s.wal.batches.length)
    (hbase : s.wal.base ≤ s.wal.batches.length) (hc : s'.changes = s.changes) (hb : s'.wal.batches = s.wal.batches)
    (hb0 : s'.wal.base = s.wal.base) (hs : s'.snaps = s.snaps) : Resumes env db s' :=
  h.more hlen hbase (hc.trans (List.append_nil _).symm) (hb.trans (List.append_nil _).symm) hb0 hs

theorem Base.base_le (h : Base db s k q) : s.wal.base ≤ s.wal.batches.length :=
  Nat.le_trans h.sound.base_le (Nat.le_trans h.sound.acked_le h.sound.taken_le)

theorem Base.acked_le (h : Base db s k q) : k ≤ s.changes.length := by
  rw [h.length]
  exact Nat.le_trans h.sound.acked_le h.sound.taken_le

end Parts

/-! ## Steps outside a checkpoint -/

section Outside
variable {env : Env} {mode : SyncMode} {feed strict : Bool} {db : Db} {s s' : Server} {l : Label} {k q : Nat}

theorem Good.quiet {e' : Engine} {lock : Lock} (h : Good env strict db s k q) (hq : Quiet env feed s s' l e' lock)
    (hc : Clean env feed s l) : Good env strict db s' k q := by
  have hbase := h.toBase.quiet hq hc
  have hphase := (phase_of_free hq.held).1 h.phase
  have hfree := hq.free
  rw [hq.eq] at hbase ⊢
  exact ⟨hbase, h.mirrors, h.resumes.same h.length h.base_le rfl rfl rfl rfl,
    (phase_of_free hfree).2 hphase⟩

theorem Good.appends {c : Change} {ts : UInt64} {e' : Engine} {lock : Lock} (h : Good env strict db s k q)
    (ha : Appends env feed s s' l c ts e' lock) (hacc : s.wal.Accepts (batchOf env feed s l))
    (hfresh : Fresh strict s l) : Good env strict db s' k q := by
  have hbase := h.toBase.appends ha hacc
  have hphase := (phase_of_free (by rw [ha.held]; rfl)).1 h.phase
  obtain ⟨hlog, hfire⟩ := ha.logs.logged (ha.fresh strict hfresh) hacc.fits
  rw [ha.logs.view_eq, h.view] at hlog
  rw [h.view] at hfire
  have hfree := ha.free
  have hb := Wal.appendBatchAsync_batches h.sound.fatal (batchOf env feed s l) ts
  have hext := h.mirrors.extend rfl h.length.symm ((logged_assign s.wal.nextSequence ts).2 hlog)
    fun hs => (fires_assign s.wal.nextSequence ts).2 (hfire hs)
  rw [ha.eq] at hbase ⊢
  refine ⟨hbase, ?_, h.resumes.more h.length h.base_le rfl hb (Wal.appendBatchAsync_base _ _ _) rfl,
    (phase_of_free hfree).2 ?_⟩
  · show Mirrors env.toJsonLib strict db (s.changes ++ [c]) (s.wal.appendBatchAsync _ ts).batches (s.changes ++ [c]).length
    rw [hb, List.length_append]
    exact hext
  · exact ⟨(Wal.appendBatchAsync_origin _ _ _).trans hphase.1, hphase.2⟩

theorem Covered.congr (h : s.Covered) (hb : s'.wal.batches = s.wal.batches) (hs : s'.snaps = s.snaps)
    (hc : s'.changes = s.changes) : s'.Covered := by
  unfold Covered logTo snapFile at *
  rw [hb, hs, hc]
  exact h

/-- What the writer does on its own keeps snapshot and log together. -/
theorem Phase.writer {w : Wal} {k' : Nat} (h : Phase env db s k) (hk : k ≤ k') (hk' : k' ≤ s.changes.length)
    (hb : w.batches = s.wal.batches) (hb0 : w.base = s.wal.base) (ho : w.origin = s.wal.origin) :
    Phase env db { s with wal := w } k' := by
  cases hlock : s.lock with
  | free | ddl _ _ =>
    simp only [Phase, hlock] at h ⊢
    exact ⟨ho.trans h.1, Nat.le_trans h.2 hk⟩
  | serialised _ _ | tmpWritten _ =>
    simp only [Phase, hlock] at h ⊢
    exact ⟨ho.trans h.1, Nat.le_trans h.2.1 hk, h.2.2.all, h.2.2.loads⟩
  | renamed =>
    simp only [Phase, hlock] at h ⊢
    exact ⟨ho.trans h.1, h.2.congr hb rfl rfl⟩
  | draining _ =>
    simp only [Phase, hlock] at h ⊢
    exact ⟨ho.trans h.1, h.2.1.congr hb rfl rfl, h.2.2⟩
  | drained =>
    simp only [Phase, hlock] at h ⊢
    exact ⟨ho.trans h.1, h.2.1.congr hb rfl rfl, by omega⟩
  | truncated =>
    simp only [Phase, hlock, ho, hb0] at h ⊢
    exact ⟨h.1, h.2.1.congr hb rfl rfl, by omega⟩

/-- The log is where a snapshot can still be thrown away. -/
theorem Phase.origin (h : Phase env db s k) (hlock : s.lock.inPlace = false) :
    s.wal.origin = kWalMagic ∧ upTo s.snapFile ≤ k := by
  cases hl : s.lock with
  | free | ddl _ _ =>
    simp only [Phase, hl] at h
    exact h
  | serialised _ _ | tmpWritten _ =>
    simp only [Phase, hl] at h
    exact ⟨h.1, h.2.1⟩
  | renamed | draining _ | drained | truncated =>
    rw [hl] at hlock
    cases hlock

theorem Good.writer {wl : Wal.Label} {w : Wal} (h : Good env strict db s k q) (hby : byWriter wl = true)
    (hok : StepOk s (.writer wl)) (hstep : s.wal.step mode wl = some w) :
    (∃ k' q', k ≤ k' ∧ Good env strict db { s with wal := w } k' q') ∨
      (wl.fails = true ∧ Bad env strict db { s with wal := w } k s.changes.length ∧ w.file = s.wal.file) := by
  obtain ⟨hb, hb0, ho, -⟩ := writer_frame hby hstep
  have hres : Resumes env db { s with wal := w } :=
    h.resumes.same h.length h.base_le rfl hb hb0 rfl
  rcases h.toBase.writer hby hok.1 hstep with ⟨k', q', hk, -, hbase⟩ | ⟨hfails, hf, hfile⟩
  · refine Or.inl ⟨k', q', hk, hbase, ?_, hres, h.phase.writer hk hbase.acked_le hb hb0 ho⟩
    show Mirrors env.toJsonLib strict db s.changes w.batches s.changes.length
    rw [hb]
    exact h.mirrors
  · obtain ⟨horigin, hup⟩ := h.phase.origin (hok.2 hfails)
    refine Or.inr ⟨hfails, ?_, hfile⟩
    refine ⟨hf, h.recorded.step hok.1 hstep, h.length.trans (by rw [hb]), h.acked_le, Nat.le_refl _, ?_, hres, hup,
      ho.trans horigin, ?_, hok.2 hfails⟩
    · show Mirrors env.toJsonLib strict db s.changes w.batches s.changes.length
      rw [hb]
      exact h.mirrors
    · have hwithin := hf.within
      rw [ho, horigin] at hwithin
      show w.file <+: kWalMagic ++ w.span w.base s.changes.length
      rw [h.length, ← hb]
      exact hwithin

theorem Good.drain (h : Good env strict db s k q) (lock : Lock)
    (hphase : Phase env db { s with wal := s.wal.enqueue [], changes := s.changes ++ [.barrier], lock := lock } k) :
    Good env strict db { s with wal := s.wal.enqueue [], changes := s.changes ++ [.barrier], lock := lock } k q := by
  refine ⟨h.toBase.drain lock, ?_, h.resumes.more h.length h.base_le rfl rfl rfl rfl, hphase⟩
  show Mirrors env.toJsonLib strict db (s.changes ++ [.barrier]) (s.wal.batches ++ [[]])
    (s.changes ++ [Change.barrier]).length
  rw [List.length_append]
  exact h.mirrors.extend rfl h.length.symm (Logged.nil _ _) fun _ => Fires.nil _ _

end Outside

/-! ## Steps of a checkpoint -/

section Checkpoint
variable {env : Env} {mode : SyncMode} {feed strict : Bool} {db : Db} {s s' : Server} {l : Label} {k q : Nat}

theorem Good.relock (h : Good env strict db s k q) {lock : Lock} (hphase : Phase env db { s with lock := lock } k) :
    Good env strict db { s with lock := lock } k q :=
  ⟨⟨h.sound, h.recorded, h.stop, h.length, h.view, h.keyed⟩, h.mirrors,
    ⟨h.resumes.loads, h.resumes.upTo_le, h.resumes.base⟩, hphase⟩

/-- Writing a snapshot back changes nothing a process can see. -/
theorem Good.resnap (h : Good env strict db s k q) {snaps : List (Option SnapFile)}
    (htext : snapText ({ s with snaps := snaps } : Server).snapFile = snapText s.snapFile)
    (hup : upTo ({ s with snaps := snaps } : Server).snapFile = upTo s.snapFile) :
    Good env strict db { s with snaps := snaps } k q := by
  have hcov : s.Covered → ({ s with snaps := snaps } : Server).Covered := by
    intro hc
    unfold Covered at *
    rw [hup]
    exact hc
  refine ⟨⟨h.sound, h.recorded, h.stop, h.length, h.view, h.keyed⟩, h.mirrors, ⟨?_, ?_, ?_⟩, ?_⟩
  · rw [htext, hup]
    exact h.resumes.loads
  · rw [hup]
    exact h.resumes.upTo_le
  · rw [hup]
    exact h.resumes.base
  · have hphase := h.phase
    cases hlock : s.lock with
    | free | ddl _ _ =>
      simp only [Phase, hlock] at hphase ⊢
      exact ⟨hphase.1, hup ▸ hphase.2⟩
    | serialised _ _ | tmpWritten _ =>
      simp only [Phase, hlock] at hphase ⊢
      exact ⟨hphase.1, hup ▸ hphase.2.1, hphase.2.2.all, hphase.2.2.loads⟩
    | renamed =>
      simp only [Phase, hlock] at hphase ⊢
      exact ⟨hphase.1, hcov hphase.2⟩
    | draining _ | drained | truncated =>
      simp only [Phase, hlock] at hphase ⊢
      exact ⟨hphase.1, hcov hphase.2.1, hphase.2.2⟩

theorem taken_snapshotText {text : Bytes} {n : Nat} (h : Base db s k q) (hn : n = s.changes.length)
    (hl : LosslessTables s.engine.tables)
    (ht : snapshotText env s.engine.tables (s.wal.nextSequence - 1) = some text) : Taken env db s text n := by
  obtain ⟨e, he, hv⟩ := (snapshot_faithful_iff env _ _ text h.keyed ht).2 hl
  exact ⟨hn, e, he, hv.trans h.view⟩

theorem Good.rename {f : SnapFile} (h : Good env strict db s k q) (hlock : s.lock = .tmpWritten f) :
    Good env strict db { s with snaps := some f :: s.snaps, lock := .renamed } k q := by
  have hphase := h.phase
  simp only [Phase, hlock] at hphase
  obtain ⟨ho, -, hn, hload⟩ := hphase
  refine ⟨⟨h.sound, h.recorded, h.stop, h.length, h.view, h.keyed⟩, h.mirrors, ⟨?_, ?_, ?_⟩, ho, ?_⟩
  · show Loads env.toJsonLib (some f.text) (db.after (s.changes.take f.upTo))
    rw [hn, List.take_length]
    exact hload
  · show f.upTo ≤ s.changes.length
    omega
  · show s.logTo s.wal.base <+: s.logTo f.upTo
    rw [hn, h.length]
    exact s.logTo_mono h.base_le
  · show s.logTo f.upTo = s.logTo s.changes.length
    rw [hn]

theorem Good.drainStep (h : Good env strict db s k q) (hlock : s.lock = .renamed) :
    Good env strict db { s.drainLog.1 with lock := if s.drainLog.2 then .draining s.wal.promises.length else .drained }
      k q := by
  have hphase := h.phase
  simp only [Phase, hlock] at hphase
  obtain ⟨ho, hcov⟩ := hphase
  rw [h.drainLog_eq]
  refine h.drain _ ⟨ho, ?_, ?_⟩
  · have hall : ((s.wal.batches ++ [[]]).take (s.changes.length + 1)).flatten = s.logTo s.changes.length := by
      rw [logTo, h.length, List.take_length, List.take_of_length_le (by simp)]
      simp
    show ((s.wal.batches ++ [[]]).take (upTo s.snapFile)).flatten =
      ((s.wal.batches ++ [[]]).take (s.changes ++ [Change.barrier]).length).flatten
    rw [List.length_append, List.take_append_of_le_length (by have := h.resumes.upTo_le; rw [← h.length]; omega)]
    exact hcov.trans hall.symm
  · show s.wal.promises.length + 1 = (s.changes ++ [Change.barrier]).length
    rw [h.sound.length, List.length_append, h.length]
    rfl

/-- A barrier that is answered has everything before it answered. -/
theorem Good.drained {i : Nat} (h : Good env strict db s k q) (hlock : s.lock = .draining i)
    (hset : settled s.wal i = true) : Good env strict db { s with lock := .drained } k q := by
  have hphase := h.phase
  simp only [Phase, hlock] at hphase
  obtain ⟨ho, hcov, hi⟩ := hphase
  refine h.relock ⟨ho, hcov, ?_⟩
  have hk := h.acked_le
  have hik : i < k := by
    by_contra hge
    rw [settled, h.sound.promises, List.getElem?_append_right (by simpa using hge)] at hset
    simp [List.getElem?_replicate] at hset
    split at hset <;> simp at hset
  show k = s.changes.length
  omega

/-- Nothing is pending once every promise is answered. -/
theorem Base.settled (h : Base db s k q) (hdone : ∀ p ∈ s.wal.promises, p ≠ none) : k = s.changes.length := by
  have hk := h.acked_le
  by_contra hne
  refine hdone none ?_ rfl
  rw [h.sound.promises]
  refine List.mem_append_right _ (List.mem_replicate.2 ⟨?_, rfl⟩)
  rw [← h.length]
  omega

/-- Nothing is in flight once everything is answered. -/
theorem Base.idle (h : Base db s k q) (hk : k = s.changes.length) :
    s.wal.unwritten = [] ∧ q = s.wal.batches.length := by
  have hq := h.sound.acked_le
  have hq' := h.sound.taken_le
  have hlen := h.length
  refine ⟨?_, by omega⟩
  unfold Wal.unwritten
  split
  · rename_i drained rest hw
    have := h.sound.busy _ _ hw
    omega
  · rfl

theorem Good.emptied (h : Good env strict db s k q) (hlock : s.lock = .drained) :
    Good env strict db { s with wal := s.wal.emptied, lock := .truncated } k q := by
  have hphase := h.phase
  simp only [Phase, hlock] at hphase
  obtain ⟨-, hcov, hk⟩ := hphase
  obtain ⟨hun, hq⟩ := h.toBase.idle hk
  have hlen := h.length
  refine ⟨⟨?_, h.recorded, h.stop, hlen, h.view, h.keyed⟩, h.mirrors, ⟨h.resumes.loads, h.resumes.upTo_le, ?_⟩,
    Or.inr ⟨rfl, hlen.symm⟩, hcov, hk⟩
  · refine ⟨h.sound.acked_le, h.sound.taken_le, ?_, h.sound.promises, h.sound.inflight, h.sound.queue, ?_, ?_,
      h.sound.fatal, h.sound.good, h.sound.busy⟩
    · show s.wal.batches.length ≤ k
      omega
    · show [] ++ s.wal.unwritten = [] ++ s.wal.span s.wal.batches.length q
      rw [hun, hq, Wal.span_self]
    · show [] ++ s.wal.span s.wal.batches.length k <+: []
      rw [hk, hlen, Wal.span_self]
      exact List.nil_prefix
  · show s.logTo s.wal.batches.length <+: s.logTo (upTo s.snapFile)
    rw [← hlen, ← hcov]

theorem Good.truncate {opened : Bool} {w : Wal} (h : Good env strict db s k q) (hlock : s.lock = .drained)
    (hw : s.wal.truncateFile opened = some w) :
    Good env strict db { s with wal := w, lock := .truncated } k q := by
  rw [Wal.truncateFile_eq hw]
  cases opened with
  | true => exact h.emptied hlock
  | false =>
    have hphase := h.phase
    simp only [Phase, hlock] at hphase
    exact h.relock ⟨Or.inl hphase.1, hphase.2⟩

/-- Reopening writes the magic exactly when the truncation went through. -/
theorem Good.reopen {n : Nat} (h : Good env strict db s k q) (hlock : s.lock = .truncated) (hn : 8 ≤ n) :
    Good env strict db { s with wal := s.wal.reopen true n, lock := .free } k q := by
  have hphase := h.phase
  simp only [Phase, hlock] at hphase
  obtain ⟨ho, hcov, hk⟩ := hphase
  obtain ⟨hun, hq⟩ := h.toBase.idle hk
  have hup : upTo s.snapFile ≤ k := by rw [hk]; exact h.resumes.upTo_le
  have hcontent := h.sound.content
  have hres : Resumes env db { s with wal := s.wal.reopen true n, lock := .free } := by
    refine h.resumes.same h.length h.base_le rfl ?_ ?_ rfl
    · unfold Wal.reopen
      split
      · simp
      · split <;> simp
    · unfold Wal.reopen
      split
      · rfl
      · split <;> rfl
  rcases ho with ho | ⟨ho, hbase⟩
  · have hfile : s.wal.file ≠ [] := by
      intro hnil
      rw [hnil, hun, ho] at hcontent
      cases hcontent
    have hre : s.wal.reopen true n = { s.wal with fdOpen := true } := by simp [Wal.reopen, hfile]
    rw [hre] at hres ⊢
    exact ⟨⟨h.sound.congr rfl, h.recorded, h.stop, h.length, h.view, h.keyed⟩, h.mirrors, hres, ho, hup⟩
  · have hspan : s.wal.span s.wal.base q = [] := by
      rw [hq, hbase, h.length, Wal.span_self]
    have hfile : s.wal.file = [] := by
      rw [ho, hspan, hun] at hcontent
      simpa using hcontent
    have hmagic : kWalMagic.take n = kWalMagic := List.take_of_length_le hn
    have hre : s.wal.reopen true n = { s.wal with
        fdOpen := true, file := kWalMagic, images := Wal.grow s.wal.images kWalMagic, origin := kWalMagic } := by
      simp [Wal.reopen, hfile, hmagic]
    rw [hre] at hres ⊢
    refine ⟨⟨?_, h.recorded, h.stop, h.length, h.view, h.keyed⟩, h.mirrors, hres, rfl, hup⟩
    refine ⟨h.sound.acked_le, h.sound.taken_le, h.sound.base_le, h.sound.promises, h.sound.inflight, h.sound.queue, ?_,
      ?_, h.sound.fatal, h.sound.good, h.sound.busy⟩
    · show kWalMagic ++ s.wal.unwritten = kWalMagic ++ s.wal.span s.wal.base q
      rw [hun, hspan]
    · show kWalMagic ++ s.wal.span s.wal.base k <+: kWalMagic
      rw [hk, hbase, Wal.span_self, List.append_nil]

/-- **A step of a server whose log has not failed**: it stays so, or this was the write that failed. -/
theorem Good.step (h : Good env strict db s k q) (hok : Ok env feed strict s l)
    (hstep : step env mode feed s l = some s') :
    (∃ k' q', k ≤ k' ∧ Good env strict db s' k' q') ∨
      ∃ wl, l = .writer wl ∧ wl.fails = true ∧ Bad env strict db s' k s.changes.length ∧ s'.wal.file = s.wal.file := by
  have hphase := h.phase
  by_cases hl : l.ofCheckpoint = false
  · rcases step_cases hl hstep with ⟨e', lock, hq⟩ | ⟨c, ts, e', lock, ha⟩ | ⟨wl, w, rfl, hby, hw, rfl⟩ | ⟨rfl, hlock, rfl⟩
    · exact Or.inl ⟨k, q, Nat.le_refl k, h.quiet hq hok.clean⟩
    · exact Or.inl ⟨k, q, Nat.le_refl k,
        h.appends ha (hok.accepts h.sound.fatal) (hok.fresh h.sound.not_failed)⟩
    · rcases h.writer hby hok.step hw with ⟨k', q', hk, hg⟩ | ⟨hf, hb, hfile⟩
      · exact Or.inl ⟨k', q', hk, hg⟩
      · exact Or.inr ⟨wl, rfl, hf, hb, hfile⟩
    · simp only [Phase, hlock] at hphase
      refine Or.inl ⟨k, q, Nat.le_refl k, ?_⟩
      rw [h.drainLog_eq]
      exact h.drain s.lock ((phase_of_free (by rw [hlock]; rfl)).2 hphase)
  · refine Or.inl ⟨k, q, Nat.le_refl k, ?_⟩
    have hso := hok.step
    cases l with
    | serialise =>
      simp only [Server.step] at hstep
      split at hstep
      · rename_i hlock
        split at hstep
        · cases hstep
        · obtain ⟨text, ht, rfl⟩ := Option.map_eq_some_iff.1 hstep
          simp only [Phase, hlock] at hphase
          have htaken := taken_snapshotText h.toBase rfl hso ht
          exact h.relock ⟨hphase.1, hphase.2, htaken.all, htaken.loads⟩
      · cases hstep
    | writeTmp n =>
      simp only [Server.step] at hstep
      split at hstep
      · rename_i text u hlock
        cases hstep
        simp only [Phase, hlock] at hphase
        simp only [StepOk, hlock] at hso
        refine h.relock ⟨hphase.1, hphase.2.1, hphase.2.2.all, ?_⟩
        rw [List.take_of_length_le hso]
        exact hphase.2.2.loads
      · cases hstep
    | writeTmpFails =>
      simp only [Server.step] at hstep
      split at hstep
      · rename_i text u hlock
        cases hstep
        simp only [Phase, hlock] at hphase
        exact h.relock ⟨hphase.1, hphase.2.1⟩
      · cases hstep
    | rename ok =>
      simp only [Server.step] at hstep
      split at hstep
      · rename_i f hlock
        split at hstep
        · cases hstep
          exact h.rename hlock
        · cases hstep
          simp only [Phase, hlock] at hphase
          exact h.relock ⟨hphase.1, hphase.2.1⟩
      · cases hstep
    | drain =>
      simp only [Server.step] at hstep
      split at hstep
      · rename_i hlock
        cases hstep
        exact h.drainStep hlock
      · cases hstep
    | drained =>
      simp only [Server.step] at hstep
      split at hstep
      · rename_i i hlock
        split at hstep
        · rename_i hset
          cases hstep
          exact h.drained hlock hset
        · cases hstep
      · cases hstep
    | truncate opened =>
      simp only [Server.step] at hstep
      split at hstep
      · rename_i hlock
        obtain ⟨w, hw, rfl⟩ := Option.map_eq_some_iff.1 hstep
        exact h.truncate hlock hw
      · cases hstep
    | reopen opened n =>
      obtain ⟨rfl, hn⟩ := hso
      simp only [Server.step] at hstep
      split at hstep
      · rename_i hlock
        cases hstep
        exact h.reopen hlock hn
      · cases hstep
    | syncSnap =>
      simp only [Server.step] at hstep
      split at hstep
      · rename_i f hlock
        cases hstep
        simp only [Phase, hlock] at hphase
        exact h.relock ⟨hphase.1, hphase.2.1, hphase.2.2.all, hphase.2.2.loads⟩
      · split at hstep
        · rename_i f older hsnaps
          cases hstep
          refine h.resnap ?_ ?_
          · simp [snapFile, hsnaps, snapText]
          · simp [snapFile, hsnaps, upTo]
        · cases hstep
    | syncDir =>
      cases hstep
      have hhead : ({ s with snaps := s.snaps.take 1 } : Server).snapFile = s.snapFile := by
        simp [snapFile, List.head?_take]
      exact h.resnap (by rw [hhead]) (by rw [hhead])
    | _ => exact absurd rfl hl

end Checkpoint

/-! ## After a failure -/

section Failed
variable {env : Env} {mode : SyncMode} {feed strict : Bool} {db : Db} {s s' : Server} {l : Label} {k m : Nat}

/-- Later changes, with file and snapshot as they were. -/
structure Still (s s' : Server) (cs : List Change) (bs : List (List WALEntry)) : Prop where
  changes : s'.changes = s.changes ++ cs
  batches : s'.wal.batches = s.wal.batches ++ bs
  length : cs.length = bs.length
  base : s'.wal.base = s.wal.base
  origin : s'.wal.origin = s.wal.origin
  file : s'.wal.file = s.wal.file
  images : s'.wal.images = s.wal.images
  text : snapText s'.snapFile = snapText s.snapFile
  upTo : upTo s'.snapFile = upTo s.snapFile

theorem Still.same (h : s'.changes = s.changes) (hw : s'.wal = s.wal) (ht : snapText s'.snapFile = snapText s.snapFile)
    (hu : Server.upTo s'.snapFile = Server.upTo s.snapFile) : Still s s' [] [] := by
  refine ⟨by simp [h], by simp [hw], rfl, ?_, ?_, ?_, ?_, ht, hu⟩ <;> rw [hw]

theorem Bad.more {cs : List Change} {bs : List (List WALEntry)} (h : Bad env strict db s k m) (hs : Still s s' cs bs)
    (hf : s'.wal.Failed k) (hrec : s'.wal.Recorded) (hlock : s'.lock.inPlace = false) : Bad env strict db s' k m := by
  have hk := h.acked_le
  have hm := h.le_length
  have hl := h.length
  have hu := h.resumes.upTo_le
  have hbase := h.failed.base_le
  have hlen := hs.length
  refine ⟨hf, hrec, ?_, hk, ?_, ?_, ⟨?_, ?_, ?_⟩, hs.upTo ▸ h.upTo_le, hs.origin.trans h.origin, ?_, hlock⟩
  · rw [hs.changes, hs.batches, List.length_append, List.length_append]
    omega
  · rw [hs.changes, List.length_append]
    omega
  · rw [hs.changes, hs.batches]
    exact h.mirrors.more hm (by omega) cs bs
  · rw [hs.text, hs.upTo, hs.changes, List.take_append_of_le_length hu]
    exact h.resumes.loads
  · rw [hs.upTo, hs.changes, List.length_append]
    omega
  · rw [hs.upTo, hs.base, logTo_append hs.batches (by omega), logTo_append hs.batches (by omega)]
    exact h.resumes.base
  · have hspan : s'.wal.span s.wal.base m = s.wal.span s.wal.base m := by
      rw [Wal.span, hs.batches, List.take_append_of_le_length (by omega), Wal.span]
    rw [hs.file, hs.base, hspan]
    exact h.within

theorem Bad.relock (h : Bad env strict db s k m) {lock : Lock} (hlock : lock.inPlace = false) :
    ∃ cs bs, Still s { s with lock := lock } cs bs ∧ Bad env strict db { s with lock := lock } k m := by
  have hs : Still s { s with lock := lock } [] [] := Still.same rfl rfl rfl rfl
  exact ⟨_, _, hs, h.more hs h.failed h.recorded hlock⟩

theorem inPlace_of_free {lock : Lock} (h : lock.isCheckpoint = false) : lock.inPlace = false := by
  cases lock <;> simp_all [Lock.isCheckpoint, Lock.inPlace]

theorem Bad.drainLog (h : Bad env strict db s k m) :
    ∃ cs bs, Still s s.drainLog.1 cs bs ∧ Bad env strict db s.drainLog.1 k m := by
  unfold Server.drainLog
  split
  · exact ⟨_, _, Still.same rfl rfl rfl rfl, h⟩
  · rename_i hno
    have hd : s.wal.drain = s.wal.enqueue [] := if_neg hno
    simp only [hd]
    have hs : Still s { s with wal := s.wal.enqueue [], changes := s.changes ++ [.barrier] } [.barrier] [[]] :=
      ⟨rfl, rfl, rfl, rfl, rfl, rfl, rfl, rfl, rfl⟩
    exact ⟨_, _, hs, h.more hs (h.failed.more (by simp) _ _) (h.recorded.more (by simp)) h.lock⟩

/-- A batch that comes after the failure is queued and never written, or refused. -/
theorem Bad.appends {c : Change} {ts : UInt64} {e' : Engine} {lock : Lock} (h : Bad env strict db s k m)
    (ha : Appends env feed s s' l c ts e' lock) (hacc : s.wal.fatal = false → s.wal.Accepts (batchOf env feed s l)) :
    ∃ cs bs, Still s s' cs bs ∧ Bad env strict db s' k m := by
  obtain ⟨b, hb, hf, hrec, hfile, himg⟩ : ∃ b, (s.wal.appendBatchAsync (batchOf env feed s l) ts).batches =
      s.wal.batches ++ [b] ∧ (s.wal.appendBatchAsync (batchOf env feed s l) ts).Failed k ∧
      (s.wal.appendBatchAsync (batchOf env feed s l) ts).Recorded ∧
      (s.wal.appendBatchAsync (batchOf env feed s l) ts).file = s.wal.file ∧
      (s.wal.appendBatchAsync (batchOf env feed s l) ts).images = s.wal.images := by
    unfold Wal.appendBatchAsync
    split
    · exact ⟨[], rfl, h.failed.more (by simp) _ _, h.recorded.more (by simp), rfl, rfl⟩
    · rename_i hno
      have hok := hacc (by simpa using hno)
      exact ⟨_, rfl, h.failed.more (by simp) _ _, h.recorded.more (Wal.recorded_assign hok.numbered hok.fits), rfl, rfl⟩
  have hfree := inPlace_of_free ha.free
  have hs : Still s s' [c] [b] := by
    rw [ha.eq]
    exact ⟨rfl, hb, rfl, Wal.appendBatchAsync_base _ _ _, Wal.appendBatchAsync_origin _ _ _, hfile, himg, rfl, rfl⟩
  refine ⟨_, _, hs, h.more hs ?_ ?_ ?_⟩
  · rw [ha.eq]
    exact hf
  · rw [ha.eq]
    exact hrec
  · rw [ha.eq]
    exact hfree

/-- **A step after the failure** changes neither the file nor the snapshot. -/
theorem Bad.step (h : Bad env strict db s k m) (hok : Ok env feed strict s l)
    (hstep : step env mode feed s l = some s') : ∃ cs bs, Still s s' cs bs ∧ Bad env strict db s' k m := by
  have hplace := h.lock
  by_cases hl : l.ofCheckpoint = false
  · rcases step_cases hl hstep with ⟨e', lock, hq⟩ | ⟨c, ts, e', lock, ha⟩ | ⟨wl, w, rfl, hby, hw, rfl⟩ | ⟨rfl, -, rfl⟩
    · have hfree := inPlace_of_free hq.free
      have hs : Still s s' [] [] := by
        rw [hq.eq]
        exact Still.same rfl rfl rfl rfl
      rw [hq.eq] at hs ⊢
      exact ⟨_, _, hs, h.more hs h.failed h.recorded hfree⟩
    · exact h.appends ha hok.accepts
    · obtain ⟨hb, hb0, ho, -⟩ := writer_frame hby hw
      obtain ⟨hf, hfile, himg⟩ := h.failed.step hok.step.1 hw
      have hs : Still s { s with wal := w } [] [] :=
        ⟨by simp, by simpa using hb, rfl, hb0, ho, hfile, himg, rfl, rfl⟩
      exact ⟨_, _, hs, h.more hs hf (h.recorded.step hok.step.1 hw) h.lock⟩
    · exact h.drainLog
  · have hso := hok.step
    cases l with
    | serialise =>
      simp only [Server.step] at hstep
      split at hstep
      · split at hstep
        · cases hstep
        · obtain ⟨text, -, rfl⟩ := Option.map_eq_some_iff.1 hstep
          exact h.relock rfl
      · cases hstep
    | writeTmp n | writeTmpFails =>
      simp only [Server.step] at hstep
      split at hstep
      · cases hstep
        exact h.relock rfl
      · cases hstep
    | rename ok =>
      simp only [Server.step] at hstep
      split at hstep
      · split at hstep
        · rename_i hset
          exact absurd (hso hset) (by simp [h.failed.failed])
        · cases hstep
          exact h.relock rfl
      · cases hstep
    | drain | drained | truncate _ | reopen _ _ =>
      simp only [Server.step] at hstep
      split at hstep
      · rename_i hlock
        rw [hlock] at hplace
        cases hplace
      · cases hstep
    | syncSnap =>
      simp only [Server.step] at hstep
      split at hstep
      · cases hstep
        exact h.relock rfl
      · split at hstep
        · rename_i f older hsnaps
          cases hstep
          have hs : Still s { s with snaps := some { f with synced := true } :: older } [] [] :=
            Still.same rfl rfl (by simp [snapFile, hsnaps, snapText]) (by simp [snapFile, hsnaps, upTo])
          exact ⟨_, _, hs, h.more hs h.failed h.recorded h.lock⟩
        · cases hstep
    | syncDir =>
      cases hstep
      have hhead : ({ s with snaps := s.snaps.take 1 } : Server).snapFile = s.snapFile := by
        simp [snapFile, List.head?_take]
      have hs : Still s { s with snaps := s.snaps.take 1 } [] [] := Still.same rfl rfl (by rw [hhead]) (by rw [hhead])
      exact ⟨_, _, hs, h.more hs h.failed h.recorded h.lock⟩
    | _ => exact absurd rfl hl

end Failed

end Server

end OriginDB
