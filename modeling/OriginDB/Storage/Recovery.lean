import OriginDB.Storage.Database
import OriginDB.Storage.WalSafety
/-!
# Recovery, and recovery again (`Initialize` and `RecoverFromWAL`, `src/storage/storage_engine.cpp:35-75, 471-548`)

Replaying a `DROP_TABLE` calls the same `DropTable` clients call, which logs the drop once more. So each
recovery appends the drops that took effect to the log it has just read, and the next one replays them
after everything else. That is harmless for a table that stays dropped, and fatal for one that was
created again later in the log (`recovery_repeats`).

The rows of two recoveries are compared with everything but the clock readings `Update` puts in them.
-/
namespace OriginDB

open JsonDoc ByteCodec Machine

/-! ## `Append` with nobody else around -/

/-- How the writer fares with one batch: all well, a `write()` that fails after `n` bytes, or a failed sync. -/
inductive IoOutcome where
  | ok
  | writeFails (n : Nat)
  | syncFails
deriving DecidableEq

namespace Wal

def ioSteps (len : Nat) : IoOutcome → List Label
  | .ok => [.swap, .write len, .sync true, .fulfil, .endDrain]
  | .writeFails n => .swap :: ((if n = 0 then [] else [.write n]) ++ [.writeError, .fulfil, .endDrain])
  | .syncFails => [.swap, .write len, .sync false, .fulfil, .endDrain]

/-- `Append` (wal_impl.cpp:99): enqueue one entry and wait for the writer. -/
def append (mode : SyncMode) (w : Wal) (entry : WALEntry) (ts : UInt64) (io : IoOutcome) : Wal :=
  if w.fatal then w.appendBatchAsync [entry] ts
  else (run (step mode) w (.append [entry] ts :: ioSteps (serializeRecord entry).length io)).getD w

/-- The writer waits, and nothing has failed. -/
structure Idle (w : Wal) : Prop where
  writer : w.writer = .waiting
  queue : w.queue = []
  fatal : w.fatal = false
  fdOpen : w.fdOpen = true

theorem idle_walInitialize (file : Bytes) (n : Nat) : (walInitialize file n).Idle := ⟨rfl, rfl, rfl, rfl⟩

theorem Idle.append {w : Wal} (h : w.Idle) (mode : SyncMode) (entry : WALEntry) (ts : UInt64) :
    (w.append mode entry ts .ok).Idle ∧
    (w.append mode entry ts .ok).file =
      w.file ++ serializeRecord { entry with sequence := w.nextSequence, timestamp := ts } ∧
    (w.append mode entry ts .ok).nextSequence = w.nextSequence + 1 := by
  obtain ⟨file, images, fd, next, queue, fatal, stop, writer, promises, batches, base, origin⟩ := w
  obtain ⟨hw, hq, hf, hfd⟩ := h
  simp only at hw hq hf hfd
  subst hw hq hf hfd
  have hlen := length_serializeRecord_assign entry next ts
  have hpos : 0 < (serializeRecord entry).length := by simp [serializeRecord]
  cases mode with
  | fsync | none | flush =>
    simp only [Wal.append, ioSteps, run, step, appendBatchAsync, enqueue, assign, recordsBytes, Bool.false_eq_true,
      if_false, List.nil_append, List.length_nil, ne_eq, List.cons_ne_self, not_false_eq_true, and_self, if_true,
      List.flatMap_cons, List.flatMap_nil, List.append_nil, hlen, hpos, Nat.le_refl, reduceCtorEq, List.length_cons]
    rw [← hlen, List.take_length, List.drop_length]
    exact ⟨⟨rfl, rfl, rfl, rfl⟩, rfl, rfl⟩

end Wal

/-! ## `Initialize` -/

/-- The loop of `RecoverFromWAL` with what it logs. -/
def recoverFromWAL (J : JsonLib) (mode : SyncMode) (clock : Nat → UInt64) (io : Nat → IoOutcome) :
    Nat → Engine → Wal → List WALEntry → Engine × Wal
  | _, e, w, [] => (e, w)
  | i, e, w, entry :: rest =>
    recoverFromWAL J mode clock io (i + 1) (replayEntry J (clock i) e entry)
      (match replayLogs e entry with
        | none => w
        | some drop => w.append mode drop (clock i) (io i)) rest

/-- What one boot meets: the clock, the outcomes of its log writes, and how much of the magic gets written
should the log be empty. -/
structure Boot where
  clock : Nat → UInt64
  io : Nat → IoOutcome
  magic : Nat

/-- `Initialize` (storage_engine.cpp:35): the engine, and the log it leaves; `none` is an exception. -/
def bootFrom (J : JsonLib) (mode : SyncMode) (snap : Option Bytes) (file : Bytes) (b : Boot) :
    Option (Engine × Bytes) :=
  (loadSnapshotIfPresent J {} snap).map fun e =>
    let w := Wal.walInitialize file b.magic
    let r := recoverFromWAL J mode b.clock b.io 0 e w (readAll w.file)
    (r.1, r.2.file)

/-- The log after a number of boots, each ended by a crash before anything else happens. -/
def fileAfter (J : JsonLib) (mode : SyncMode) (snap : Option Bytes) : Bytes → List Boot → Bytes
  | file, [] => file
  | file, b :: bs =>
    match bootFrom J mode snap file b with
    | none => file
    | some r => fileAfter J mode snap r.2 bs

def Row.untimed (r : Row) : Row := { r with timestamp := 0 }

/-- The tables and rows a boot rebuilds. -/
def rebuilt (J : JsonLib) (mode : SyncMode) (snap : Option Bytes) (file : Bytes) (b : Boot) : Option (DbOf Row) :=
  (bootFrom J mode snap file b).map fun r => viewBy Row.untimed r.1.tables

/-- Every later boot rebuilds what the first one did. -/
def Repeats (J : JsonLib) (mode : SyncMode) (snap : Option Bytes) (file : Bytes) : Prop :=
  ∀ (bs : List Boot) (b b' : Boot), (∀ x ∈ bs, ∀ i, x.io i = .ok) →
    rebuilt J mode snap (fileAfter J mode snap file bs) b = rebuilt J mode snap file b'

/-! ## Replay, the clock aside -/

/-- What replaying an entry does to the tables and rows. -/
def untimedReplay (J : JsonLib) (u : DbOf Row) (entry : WALEntry) : DbOf Row :=
  match entry.type with
  | .createTable =>
    match deserializeSchema J entry.data with
    | none => u
    | some s => if (u s.name).isSome then u else u.create s
  | .dropTable => u.drop entry.tableName
  | .insert =>
    match u entry.tableName, decodeRow entry.data with
    | some p, some row => if (p.2 row.key).isSome then u else u.setRow entry.tableName row.key (some row.untimed)
    | _, _ => u
  | .update =>
    match u entry.tableName, decodeRow entry.data with
    | some p, some row =>
      match p.2 entry.key with
      | none => u
      | some old => u.setRow entry.tableName entry.key (some { row with version := old.version + 1, timestamp := 0 })
    | _, _ => u
  | .delete =>
    match u entry.tableName with
    | some p => if (p.2 entry.key).isSome then u.setRow entry.tableName entry.key none else u
    | none => u
  | _ => u

theorem drop_of_none {u : DbOf Row} {n : Bytes} (h : u n = none) : u.drop n = u := by
  funext m
  rw [DbOf.drop]
  by_cases hm : m = n
  · rw [if_pos hm, hm, h]
  · rw [if_neg hm]

theorem untimed_replayEntry (J : JsonLib) (now : UInt64) (e : Engine) (entry : WALEntry) :
    viewBy Row.untimed (replayEntry J now e entry).tables = untimedReplay J (viewBy Row.untimed e.tables) entry := by
  cases h : entry.type with
  | createTable =>
    simp only [replayEntry, untimedReplay, h]
    cases deserializeSchema J entry.data with
    | none => rfl
    | some s =>
      simp only
      cases ht : e.tables[s.name]? with
      | none => simp [viewBy_eq_none ht, viewBy_insert_new _ ht]
      | some t => simp [viewBy_eq_some ht]
  | dropTable =>
    simp only [replayEntry, untimedReplay, h, dropTable]
    cases ht : e.tables[entry.tableName]? with
    | none => exact (drop_of_none (viewBy_eq_none ht)).symm
    | some t => exact viewBy_erase _ _ _
  | insert =>
    simp only [replayEntry, untimedReplay, h]
    cases ht : e.tables[entry.tableName]? with
    | none => simp [viewBy_eq_none ht]
    | some t =>
      cases decodeRow entry.data with
      | none => simp [viewBy_eq_some ht]
      | some row =>
        simp only [viewBy_eq_some ht]
        cases hi : t.insert row with
        | none =>
          rw [if_pos (by simpa using MemTable.insert_eq_none.1 hi), Option.getD_none, viewBy_insert_same _ ht]
        | some t' =>
          obtain ⟨hnone, hs, hr⟩ := MemTable.insert_eq_some hi
          rw [if_neg (by simp [hnone]), Option.getD_some]
          exact viewBy_insert_table (r := some row) _ ht hs fun j => by rw [hr, OrdMap.getElem?_insert]
  | update =>
    simp only [replayEntry, untimedReplay, h]
    cases ht : e.tables[entry.tableName]? with
    | none => simp [viewBy_eq_none ht]
    | some t =>
      cases decodeRow entry.data with
      | none => simp [viewBy_eq_some ht]
      | some row =>
        simp only [viewBy_eq_some ht]
        cases hi : t.update entry.key row now with
        | none =>
          rw [MemTable.update_eq_none.1 hi, Option.getD_none, viewBy_insert_same _ ht]
          rfl
        | some t' =>
          obtain ⟨old, hold, hs, hr⟩ := MemTable.update_eq_some hi
          rw [hold, Option.getD_some]
          exact viewBy_insert_table (r := some _) _ ht hs fun j => by rw [hr, OrdMap.getElem?_insert]
  | delete =>
    simp only [replayEntry, untimedReplay, h]
    cases ht : e.tables[entry.tableName]? with
    | none => simp [viewBy_eq_none ht]
    | some t =>
      simp only [viewBy_eq_some ht]
      cases hi : t.delete entry.key with
      | none =>
        rw [if_neg (by simp [MemTable.delete_eq_none.1 hi]), Option.getD_none, viewBy_insert_same _ ht]
      | some t' =>
        obtain ⟨hsome, hs, hr⟩ := MemTable.delete_eq_some hi
        rw [if_pos (by simpa using hsome), Option.getD_some]
        exact viewBy_insert_table (r := none) _ ht hs fun j => by rw [hr, OrdMap.getElem?_erase]
  | _ => simp [replayEntry, untimedReplay, h]

theorem untimed_replay (J : JsonLib) (clock : Nat → UInt64) (i : Nat) (e : Engine) (es : List WALEntry) :
    viewBy Row.untimed (replay J clock i e es).tables = es.foldl (untimedReplay J) (viewBy Row.untimed e.tables) := by
  induction es generalizing i e with
  | nil => rfl
  | cons entry es ih => rw [replay, ih, untimed_replayEntry, List.foldl_cons]

/-! ## The names in a log -/

/-- Which tables there are after an entry. -/
def nameStep (J : JsonLib) (names : Bytes → Bool) (entry : WALEntry) : Bytes → Bool :=
  match entry.type with
  | .createTable =>
    match deserializeSchema J entry.data with
    | none => names
    | some s => fun n => decide (n = s.name) || names n
  | .dropTable => fun n => !decide (n = entry.tableName) && names n
  | _ => names

/-- Which tables there are after a log. -/
def namesAfter (J : JsonLib) (names : Bytes → Bool) (es : List WALEntry) : Bytes → Bool := es.foldl (nameStep J) names

/-- The tables a log drops while they are there. -/
def droppedNames (J : JsonLib) : (Bytes → Bool) → List WALEntry → List Bytes
  | _, [] => []
  | names, entry :: es =>
    (if entry.type = .dropTable ∧ names entry.tableName then [entry.tableName] else []) ++
      droppedNames J (nameStep J names entry) es

theorem droppedNames_append (J : JsonLib) (names : Bytes → Bool) (es fs : List WALEntry) :
    droppedNames J names (es ++ fs) = droppedNames J names es ++ droppedNames J (namesAfter J names es) fs := by
  induction es generalizing names with
  | nil => rfl
  | cons entry es ih => rw [List.cons_append, droppedNames, ih, droppedNames, List.append_assoc]; rfl

theorem mem_droppedNames {J : JsonLib} {names : Bytes → Bool} {es : List WALEntry} {n : Bytes}
    (h : n ∈ droppedNames J names es) : ∃ entry ∈ es, entry.tableName = n := by
  induction es generalizing names with
  | nil => cases h
  | cons entry es ih =>
    rcases List.mem_append.1 h with h | h
    · split at h
      · exact ⟨entry, by simp, (List.mem_singleton.1 h).symm⟩
      · cases h
    · obtain ⟨entry', he, hn⟩ := ih h
      exact ⟨entry', by simp [he], hn⟩

/-- Drops of tables that are not there do nothing. -/
theorem droppedNames_absent {J : JsonLib} {names : Bytes → Bool} {ds : List WALEntry}
    (h : ∀ d ∈ ds, d.type = .dropTable ∧ names d.tableName = false) :
    droppedNames J names ds = [] ∧ namesAfter J names ds = names := by
  induction ds generalizing names with
  | nil => exact ⟨rfl, rfl⟩
  | cons d ds ih =>
    obtain ⟨ht, hd⟩ := h d (by simp)
    have hstep : nameStep J names d = names := by
      funext n
      simp only [nameStep, ht]
      by_cases hn : n = d.tableName
      · simp [hn, hd]
      · simp [hn]
    obtain ⟨h1, h2⟩ := ih fun x hx => h x (by simp [hx])
    rw [droppedNames, namesAfter, List.foldl_cons, hstep]
    exact ⟨by simp [hd, h1], h2⟩

theorem isSome_setRow (u : DbOf Row) (n k m : Bytes) (r : Option Row) : (u.setRow n k r m).isSome = (u m).isSome := by
  rw [DbOf.setRow]
  by_cases hm : m = n <;> simp [hm]

theorem isSome_untimedReplay (J : JsonLib) (u : DbOf Row) (entry : WALEntry) (n : Bytes) :
    (untimedReplay J u entry n).isSome = nameStep J (fun m => (u m).isSome) entry n := by
  cases h : entry.type with
  | createTable =>
    simp only [untimedReplay, nameStep, h]
    cases deserializeSchema J entry.data with
    | none => rfl
    | some s =>
      simp only
      by_cases hn : n = s.name
      · subst hn
        cases hu : u s.name <;> simp [hu, DbOf.create]
      · cases hu : u s.name <;> simp [hn, DbOf.create]
  | dropTable =>
    simp only [untimedReplay, nameStep, h, DbOf.drop]
    by_cases hn : n = entry.tableName <;> simp [hn]
  | insert =>
    simp only [untimedReplay, nameStep, h]
    cases u entry.tableName with
    | none => rfl
    | some p =>
      cases decodeRow entry.data with
      | none => rfl
      | some row =>
        cases hr : (p.2 row.key).isSome with
        | true => simp [hr]
        | false => simp [hr, isSome_setRow]
  | update =>
    simp only [untimedReplay, nameStep, h]
    cases u entry.tableName with
    | none => rfl
    | some p =>
      cases decodeRow entry.data with
      | none => rfl
      | some row =>
        cases hr : p.2 entry.key with
        | none => simp [hr]
        | some old => simp [hr, isSome_setRow]
  | delete =>
    simp only [untimedReplay, nameStep, h]
    cases u entry.tableName with
    | none => rfl
    | some p =>
      cases hr : (p.2 entry.key).isSome with
      | true => simp [hr, isSome_setRow]
      | false => simp [hr]
  | _ => simp [untimedReplay, nameStep, h]

theorem namesAfter_eq (J : JsonLib) (u : DbOf Row) (es : List WALEntry) :
    namesAfter J (fun m => (u m).isSome) es = fun n => (es.foldl (untimedReplay J) u n).isSome := by
  induction es generalizing u with
  | nil => rfl
  | cons entry es ih =>
    rw [namesAfter, List.foldl_cons, List.foldl_cons, ← ih]
    exact congrArg (fun f => es.foldl (nameStep J) f) (funext fun n => (isSome_untimedReplay J u entry n).symm)

/-! ## What a recovery appends -/

/-- The records of the drops of `ns`, numbered from `next`. -/
inductive DropsOf : UInt64 → List Bytes → List WALEntry → Prop where
  | nil (next : UInt64) : DropsOf next [] []
  | cons {next : UInt64} {n : Bytes} {ns : List Bytes} {ds : List WALEntry} (ts : UInt64) (h : DropsOf (next + 1) ns ds) :
      DropsOf next (n :: ns) ({ type := .dropTable, sequence := next, timestamp := ts, tableName := n } :: ds)

theorem DropsOf.mem {next : UInt64} {ns : List Bytes} {ds : List WALEntry} (h : DropsOf next ns ds) {d : WALEntry}
    (hd : d ∈ ds) : d.type = .dropTable ∧ d.tableName ∈ ns ∧ d.key = [] ∧ d.data = [] := by
  induction h with
  | nil => cases hd
  | cons ts _ ih =>
    rcases List.mem_cons.1 hd with rfl | hd
    · exact ⟨rfl, by simp, rfl, rfl⟩
    · obtain ⟨h1, h2, h3⟩ := ih hd
      exact ⟨h1, by simp [h2], h3⟩

theorem DropsOf.fits {next : UInt64} {ns : List Bytes} {ds : List WALEntry} (h : DropsOf next ns ds)
    (hns : ∀ n ∈ ns, 37 + n.length < 2 ^ 32) : ∀ d ∈ ds, (recordBytes d).length < 2 ^ 32 := by
  intro d hd
  obtain ⟨-, hn, hk, hdata⟩ := h.mem hd
  have := hns _ hn
  rw [length_recordBytes, hk, hdata]
  simpa using this

/-- With numbers to spare every one of them is read back. -/
theorem DropsOf.filter {next : UInt64} {ns : List Bytes} {ds : List WALEntry} (h : DropsOf next ns ds)
    (hroom : ns = [] ∨ next ≠ 0 ∧ next.toNat + ns.length ≤ 2 ^ 64) : (ds.filter fun d => 0 < d.sequence) = ds := by
  induction h with
  | nil => rfl
  | @cons next n ns ds ts _ ih =>
    obtain ⟨hne, hle⟩ : next ≠ 0 ∧ next.toNat + (ns.length + 1) ≤ 2 ^ 64 := by simpa using hroom
    rw [List.filter_cons_of_pos (by simpa using UInt64.pos_iff_ne_zero.2 hne), ih]
    by_cases hnil : ns = []
    · exact Or.inl hnil
    · have hpos : 0 < ns.length := List.length_pos_iff.2 hnil
      have hsucc : (next + 1).toNat = next.toNat + 1 := by
        rw [UInt64.toNat_add]
        exact Nat.mod_eq_of_lt (by simp; omega)
      refine Or.inr ⟨fun h0 => ?_, by rw [hsucc]; omega⟩
      rw [h0] at hsucc
      simp at hsucc

theorem DropsOf.names {next : UInt64} {ns : List Bytes} {ds : List WALEntry} (h : DropsOf next ns ds) :
    ds.map WALEntry.tableName = ns := by
  induction h with
  | nil => rfl
  | cons ts _ ih => rw [List.map_cons, ih]

theorem recoverFromWAL_fst (J : JsonLib) (mode : SyncMode) (clock : Nat → UInt64) (io : Nat → IoOutcome) (i : Nat)
    (e : Engine) (w : Wal) (es : List WALEntry) :
    (recoverFromWAL J mode clock io i e w es).1 = replay J clock i e es := by
  induction es generalizing i e w with
  | nil => rfl
  | cons entry es ih => rw [recoverFromWAL, ih, replay]

theorem replayLogs_eq (e : Engine) (entry : WALEntry) :
    replayLogs e entry = if entry.type = .dropTable ∧ e.tables[entry.tableName]?.isSome
      then some { type := .dropTable, tableName := entry.tableName } else none := by
  unfold replayLogs
  by_cases h : entry.type = .dropTable
  · rw [if_pos h, dropTable]
    cases ht : e.tables[entry.tableName]? with
    | none => simp
    | some t => simp [h]
  · simp [h]

theorem isSome_untimed (e : Engine) (n : Bytes) : (viewBy Row.untimed e.tables n).isSome = e.tables[n]?.isSome := by
  rw [viewBy, Option.isSome_map]

/-- A recovery whose log writes succeed appends the drops that took effect. -/
theorem recoverFromWAL_file (J : JsonLib) (mode : SyncMode) (clock : Nat → UInt64) {io : Nat → IoOutcome}
    (hio : ∀ i, io i = .ok) (i : Nat) (e : Engine) {w : Wal} (hw : w.Idle) (es : List WALEntry) :
    ∃ ds, (recoverFromWAL J mode clock io i e w es).2.file = w.file ++ recordsBytes ds ∧
      DropsOf w.nextSequence (droppedNames J (fun n => (viewBy Row.untimed e.tables n).isSome) es) ds := by
  induction es generalizing i e w with
  | nil => exact ⟨[], by simp [recoverFromWAL], .nil _⟩
  | cons entry es ih =>
    have hnames : nameStep J (fun n => (viewBy Row.untimed e.tables n).isSome) entry =
        fun n => (viewBy Row.untimed (replayEntry J (clock i) e entry).tables n).isSome := by
      funext n
      rw [untimed_replayEntry, isSome_untimedReplay]
    rw [recoverFromWAL, droppedNames, hnames, replayLogs_eq, ← isSome_untimed]
    by_cases h : entry.type = .dropTable ∧ (viewBy Row.untimed e.tables entry.tableName).isSome
    · obtain ⟨hidle, hfile, hnext⟩ := hw.append mode { type := .dropTable, tableName := entry.tableName } (clock i)
      obtain ⟨ds, hf, hd⟩ := ih (i + 1) (replayEntry J (clock i) e entry) hidle
      rw [hfile] at hf
      rw [hnext] at hd
      rw [if_pos h, if_pos h]
      refine ⟨_ :: ds, ?_, .cons (clock i) hd⟩
      simp only [hio i]
      rw [hf, List.append_assoc]
      rfl
    · rw [if_neg h, if_neg h]
      exact ih (i + 1) (replayEntry J (clock i) e entry) hw

/-! ## Boot after boot -/

/-- The tables in the snapshot. -/
def snapshotNames (J : JsonLib) (snap : Option Bytes) : Bytes → Bool :=
  match loadSnapshotIfPresent J {} snap with
  | none => fun _ => false
  | some e => fun n => e.tables[n]?.isSome

/-- No table the log drops is there again at its end. -/
def DropsStay (J : JsonLib) (snap : Option Bytes) (file : Bytes) : Prop :=
  ∀ n ∈ droppedNames J (snapshotNames J snap) (readAll file),
    namesAfter J (snapshotNames J snap) (readAll file) n = false

instance (J : JsonLib) (snap : Option Bytes) (file : Bytes) : Decidable (DropsStay J snap file) :=
  inferInstanceAs (Decidable (∀ n ∈ _, _))

section Boots
variable {J : JsonLib} {mode : SyncMode} {snap : Option Bytes} {file G : Bytes} {e : Engine}

theorem rebuilt_eq (hload : loadSnapshotIfPresent J {} snap = some e) (b : Boot) :
    rebuilt J mode snap G b = some ((readAll G).foldl (untimedReplay J) (viewBy Row.untimed e.tables)) := by
  simp only [rebuilt, bootFrom, hload, Option.map_some]
  rw [recoverFromWAL_fst, untimed_replay]
  have hread : readAll (Wal.walInitialize G b.magic).file = readAll G := Wal.readAll_writeMagicIfEmpty G b.magic
  rw [hread]

theorem snapshotNames_eq (hload : loadSnapshotIfPresent J {} snap = some e) :
    snapshotNames J snap = fun n => (viewBy Row.untimed e.tables n).isSome := by
  funext n
  rw [snapshotNames, hload, isSome_untimed]

/-- One boot appends the drops of the log it read. -/
theorem bootFrom_file (mode : SyncMode) (G : Bytes) (hload : loadSnapshotIfPresent J {} snap = some e) (b : Boot)
    (hio : ∀ i, b.io i = .ok) :
    ∃ r ds, bootFrom J mode snap G b = some r ∧ r.2 = Wal.writeMagicIfEmpty G b.magic ++ recordsBytes ds ∧
      DropsOf (Wal.recoverSequenceNumber (Wal.writeMagicIfEmpty G b.magic))
        (droppedNames J (snapshotNames J snap) (readAll G)) ds := by
  obtain ⟨ds, hf, hd⟩ := recoverFromWAL_file J mode b.clock hio 0 e
    (Wal.idle_walInitialize G b.magic) (readAll (Wal.walInitialize G b.magic).file)
  have hread : readAll (Wal.walInitialize G b.magic).file = readAll G := Wal.readAll_writeMagicIfEmpty G b.magic
  rw [snapshotNames_eq hload]
  refine ⟨_, ds, by rw [bootFrom, hload]; rfl, hf, ?_⟩
  rw [hread] at hd
  exact hd

/-- A log that holds what `file` did and then only drops of tables `file` dropped already. -/
structure Extends (J : JsonLib) (snap : Option Bytes) (file G : Bytes) : Prop where
  framed : WellFramed G ∨ droppedNames J (snapshotNames J snap) (readAll file) = []
  entries : ∃ ds, readAll G = readAll file ++ ds ∧
    ∀ d ∈ ds, d.type = .dropTable ∧ d.tableName ∈ droppedNames J (snapshotNames J snap) (readAll file)

theorem Extends.absent {ds : List WALEntry} (hstay : DropsStay J snap file)
    (hds : ∀ d ∈ ds, d.type = .dropTable ∧ d.tableName ∈ droppedNames J (snapshotNames J snap) (readAll file)) :
    ∀ d ∈ ds, d.type = .dropTable ∧ namesAfter J (snapshotNames J snap) (readAll file) d.tableName = false :=
  fun d hd => ⟨(hds d hd).1, hstay _ (hds d hd).2⟩

/-- It drops the same tables. -/
theorem Extends.droppedNames_eq (h : Extends J snap file G) (hstay : DropsStay J snap file) :
    droppedNames J (snapshotNames J snap) (readAll G) = droppedNames J (snapshotNames J snap) (readAll file) := by
  obtain ⟨ds, hread, hds⟩ := h.entries
  rw [hread, droppedNames_append, (droppedNames_absent (Extends.absent hstay hds)).1, List.append_nil]

theorem foldl_absent {u : DbOf Row} {ds : List WALEntry} (h : ∀ d ∈ ds, d.type = .dropTable ∧ u d.tableName = none) :
    ds.foldl (untimedReplay J) u = u := by
  induction ds with
  | nil => rfl
  | cons d ds ih =>
    obtain ⟨ht, hu⟩ := h d (by simp)
    have hstep : untimedReplay J u d = u := by
      simp only [untimedReplay, ht]
      exact drop_of_none hu
    rw [List.foldl_cons, hstep]
    exact ih fun x hx => h x (by simp [hx])

/-- It is replayed to the same tables. -/
theorem Extends.rebuilt_eq (h : Extends J snap file G) (hstay : DropsStay J snap file)
    (hload : loadSnapshotIfPresent J {} snap = some e) (b b' : Boot) :
    rebuilt J mode snap G b = rebuilt J mode snap file b' := by
  obtain ⟨ds, hread, hds⟩ := h.entries
  rw [OriginDB.rebuilt_eq hload, OriginDB.rebuilt_eq hload, hread, List.foldl_append, foldl_absent]
  intro d hd
  obtain ⟨ht, hn⟩ := Extends.absent hstay hds d hd
  rw [snapshotNames_eq hload, namesAfter_eq] at hn
  exact ⟨ht, by simpa using hn⟩

theorem Extends.boot (mode : SyncMode) (h : Extends J snap file G) (hstay : DropsStay J snap file)
    (hload : loadSnapshotIfPresent J {} snap = some e) {b : Boot} (hio : ∀ i, b.io i = .ok) :
    ∃ r, bootFrom J mode snap G b = some r ∧ Extends J snap file r.2 := by
  obtain ⟨r, ds, hboot, hfile, hdrops⟩ := bootFrom_file mode G hload b hio
  rw [h.droppedNames_eq hstay] at hdrops
  refine ⟨r, hboot, ?_⟩
  obtain ⟨ds₀, hread, hds₀⟩ := h.entries
  rcases h.framed with hG | hnone
  · have hne : G ≠ [] := by
      rintro rfl
      exact absurd hG.magic (by decide)
    have hmagic : Wal.writeMagicIfEmpty G b.magic = G := if_neg hne
    rw [hmagic] at hfile
    have hfit : ∀ d ∈ ds, (recordBytes d).length < 2 ^ 32 := hdrops.fits fun n hn => by
      obtain ⟨entry, he, rfl⟩ := mem_droppedNames hn
      have := length_of_mem_readAll he
      omega
    refine ⟨Or.inl (hfile ▸ hG.append_records hfit), ds₀ ++ ds.filter fun d => 0 < d.sequence, ?_, ?_⟩
    · rw [hfile, readAll_append_fits hG hfit, hread, List.append_assoc]
    · intro d hd
      rcases List.mem_append.1 hd with hd | hd
      · exact hds₀ d hd
      · obtain ⟨h1, h2, -⟩ := hdrops.mem (List.mem_of_mem_filter hd)
        exact ⟨h1, h2⟩
  · rw [hnone] at hdrops
    cases hdrops
    refine ⟨Or.inr hnone, ds₀, ?_, hds₀⟩
    rw [hfile, recordsBytes_nil, List.append_nil, Wal.readAll_writeMagicIfEmpty, hread]

theorem Extends.fileAfter (h : Extends J snap file G) (hstay : DropsStay J snap file)
    (hload : loadSnapshotIfPresent J {} snap = some e) {bs : List Boot} (hio : ∀ b ∈ bs, ∀ i, b.io i = .ok) :
    Extends J snap file (fileAfter J mode snap G bs) := by
  induction bs generalizing G with
  | nil => exact h
  | cons b bs ih =>
    obtain ⟨r, hboot, hr⟩ := h.boot mode hstay hload (hio b (by simp))
    rw [OriginDB.fileAfter, hboot]
    exact ih hr fun x hx => hio x (by simp [hx])

end Boots

theorem foldl_drops {J : JsonLib} {u : DbOf Row} {ds : List WALEntry} (h : ∀ d ∈ ds, d.type = .dropTable) {n : Bytes}
    (hn : n ∈ ds.map WALEntry.tableName) : ds.foldl (untimedReplay J) u n = none := by
  have hkeep : ∀ (ds : List WALEntry) (u : DbOf Row), (∀ d ∈ ds, d.type = .dropTable) → u n = none →
      ds.foldl (untimedReplay J) u n = none := by
    intro ds
    induction ds with
    | nil => exact fun u _ hu => hu
    | cons d ds ih =>
      intro u h hu
      refine ih _ (fun x hx => h x (by simp [hx])) ?_
      simp only [untimedReplay, h d (by simp), DbOf.drop, hu, ite_self]
  induction ds generalizing u with
  | nil => cases hn
  | cons d ds ih =>
    rw [List.foldl_cons]
    rcases List.mem_cons.1 hn with rfl | hn
    · refine hkeep ds _ (fun x hx => h x (by simp [hx])) ?_
      simp only [untimedReplay, h d (by simp), DbOf.drop, if_true]
    · exact ih (fun x hx => h x (by simp [hx])) hn

/-- Numbers left for one more record per name. -/
def RoomFor (file : Bytes) (names : List Bytes) : Prop :=
  Wal.recoverSequenceNumber file ≠ 0 ∧ (Wal.recoverSequenceNumber file).toNat + names.length ≤ 2 ^ 64

/-- **Recovery repeats itself** when no dropped table is there again at the end of the log (and the log
is well framed, if there is anything to append to it); and on a well-framed log that has numbers left,
only then. -/
theorem recovery_repeats (J : JsonLib) (mode : SyncMode) (snap : Option Bytes) (file : Bytes) :
    (WellFramed file ∨ droppedNames J (snapshotNames J snap) (readAll file) = [] →
      DropsStay J snap file → Repeats J mode snap file) ∧
    (WellFramed file → (loadSnapshotIfPresent J {} snap).isSome →
      RoomFor file (droppedNames J (snapshotNames J snap) (readAll file)) →
      Repeats J mode snap file → DropsStay J snap file) := by
  constructor
  · intro hframed hstay bs b b' hio
    cases hload : loadSnapshotIfPresent J {} snap with
    | none => simp only [rebuilt, bootFrom, hload, Option.map_none]
    | some e =>
      have h0 : Extends J snap file file := ⟨hframed, [], by simp, by simp⟩
      exact (h0.fileAfter hstay hload hio).rebuilt_eq hstay hload b b'
  · intro hframed hsome hroom hrep n hn
    obtain ⟨e, hload⟩ := Option.isSome_iff_exists.1 hsome
    by_contra hthere
    -- one boot, and a second one that finds the drop of `n` at the end of the log
    let b : Boot := ⟨fun _ => 0, fun _ => .ok, 8⟩
    obtain ⟨r, ds, hboot, hfile, hdrops⟩ := bootFrom_file mode file hload b (fun _ => rfl)
    have hmagic : Wal.writeMagicIfEmpty file b.magic = file := if_neg (by
      rintro rfl
      exact absurd hframed.magic (by decide))
    rw [hmagic] at hfile hdrops
    have hfit : ∀ d ∈ ds, (recordBytes d).length < 2 ^ 32 := hdrops.fits fun m hm => by
      obtain ⟨entry, he, rfl⟩ := mem_droppedNames hm
      have := length_of_mem_readAll he
      omega
    have hread : readAll r.2 = readAll file ++ ds := by
      rw [hfile, readAll_append_fits hframed hfit, hdrops.filter (Or.inr hroom)]
    have heq := hrep [b] b b (by simp [b])
    simp only [fileAfter, hboot] at heq
    rw [rebuilt_eq hload, rebuilt_eq hload, hread, List.foldl_append, Option.some.injEq] at heq
    have hgone := foldl_drops (J := J) (u := (readAll file).foldl (untimedReplay J) (viewBy Row.untimed e.tables))
      (fun d hd => (hdrops.mem hd).1) (hdrops.names ▸ hn)
    rw [heq] at hgone
    rw [snapshotNames_eq hload, namesAfter_eq] at hthere
    simp [hgone] at hthere

/-- The library on the schema of a table `t`. -/
def schemaJsonLib : JsonLib := JsonLib.ofTable
  [(schemaJson ⟨str "t", [], []⟩, str "\x7b\"columns\":[],\"name\":\"t\",\"primary_key\":[]\x7d")] (by decide)

def createT (seq : UInt64) : WALEntry :=
  { type := .createTable, sequence := seq, tableName := str "t"
    data := str "\x7b\"columns\":[],\"name\":\"t\",\"primary_key\":[]\x7d" }

/-- A log that creates `t` and drops it. -/
def droppedOnce : Bytes :=
  kWalMagic ++ recordsBytes [createT 1, { type := .dropTable, sequence := 2, tableName := str "t" }]

theorem recovery_repeats_droppedOnce : droppedNames schemaJsonLib (snapshotNames schemaJsonLib none) (readAll droppedOnce) =
      [str "t"] ∧ Repeats schemaJsonLib .fsync none droppedOnce :=
  ⟨by decide +kernel, (recovery_repeats schemaJsonLib .fsync none droppedOnce).1 (Or.inl (by decide +kernel))
    (by decide +kernel)⟩

/-- A log that creates `t`, drops it and creates it again. -/
def recreated : Bytes :=
  kWalMagic ++ recordsBytes [createT 1, { type := .dropTable, sequence := 2, tableName := str "t" }, createT 3]

def calmBoot : Boot := ⟨fun _ => 0, fun _ => .ok, 8⟩

/-- The first boot finds `t`, the second does not. -/
theorem recreated_lost_on_second_boot :
    (rebuilt schemaJsonLib .fsync none recreated calmBoot).map (fun u => (u (str "t")).isSome) = some true ∧
    (rebuilt schemaJsonLib .fsync none (fileAfter schemaJsonLib .fsync none recreated [calmBoot]) calmBoot).map
      (fun u => (u (str "t")).isSome) = some false ∧
    ¬ Repeats schemaJsonLib .fsync none recreated := by
  have h1 : (rebuilt schemaJsonLib .fsync none recreated calmBoot).map (fun u => (u (str "t")).isSome) = some true := by
    decide +kernel
  have h2 : (rebuilt schemaJsonLib .fsync none (fileAfter schemaJsonLib .fsync none recreated [calmBoot]) calmBoot).map
      (fun u => (u (str "t")).isSome) = some false := by decide +kernel
  refine ⟨h1, h2, fun h => ?_⟩
  rw [h [calmBoot] calmBoot calmBoot (by simp [calmBoot]), h1] at h2
  cases h2

end OriginDB
