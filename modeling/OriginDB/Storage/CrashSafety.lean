import OriginDB.Storage.ServerInv
/-!
# Crashes of the process

What the next boot makes of snapshot and log wherever the process dies. While nothing fails, a crash
loses nothing that was acknowledged and rebuilds a prefix of the changes (`checkpoint_crash`), with two
exceptions: between putting a snapshot in place and truncating the log, a log that has not caught up
with the snapshot takes some keys back in time and leaves others, and a log cut inside a batch keeps
half of it. When a write of the log fails (`failed_stay_out`), the failed changes stay out only if no
record of theirs reached the file and no later snapshot picks them up from the tables.
-/
namespace OriginDB.Server

open JsonDoc ByteCodec Machine

/-! ## What the log file holds -/

/-- The file holds the log from change `b` on, to change `k` at least and `m` at most. -/
structure Holds (s : Server) (k m b : Nat) (file : Bytes) : Prop where
  le : b ≤ m
  within : file <+: kWalMagic ++ s.wal.span b m
  kept : s.logTo k <+: s.logTo b ++ readAll file

section Holds
variable {env : Env} {strict : Bool} {db : Db} {s : Server} {k m q b : Nat} {file : Bytes}

theorem logTo_append_span (s : Server) {b j : Nat} (h : b ≤ j) :
    s.logTo b ++ ((s.wal.batches.take j).drop b).flatten = s.logTo j := by
  have hsplit := List.take_append_drop b (s.wal.batches.take j)
  rw [List.take_take, Nat.min_eq_left h] at hsplit
  rw [logTo, ← List.flatten_append, hsplit, logTo]

theorem Holds.reaches (h : Holds s k m b file) (hrec : s.wal.Recorded) :
    s.logTo b ++ readAll file <+: s.logTo m := by
  rw [readAll_of_within (Wal.recorded_span hrec b m) h.within, ← s.logTo_append_span h.le]
  exact (List.prefix_append_right_inj _).2 (List.take_prefix _ _)

/-- A file that ends between two batches. -/
theorem Holds.exact (h : Holds s k m b file) (hrec : s.wal.Recorded)
    (hsplit : Splits ((s.wal.batches.take m).drop b) (file.length - 8) = false) :
    ∃ j, k ≤ j ∧ s.logTo b ++ readAll file = s.logTo j := by
  obtain ⟨i, hi⟩ := (take_eq_flatten_iff _ _).2 hsplit
  have hread := readAll_of_within (Wal.recorded_span hrec b m) h.within
  rw [hi] at hread
  have hj : s.logTo b ++ readAll file = s.logTo (min (b + i) m) := by
    rw [hread, logTo, ← List.flatten_append, logTo]
    congr 1
    rw [← List.take_take, List.take_add, List.take_take, Nat.min_eq_left h.le]
  -- barriers log nothing, so the end of the file may be the end of several changes
  by_cases hk : k ≤ min (b + i) m
  · exact ⟨_, hk, hj⟩
  · refine ⟨k, Nat.le_refl k, hj.trans ?_⟩
    have hkept := h.kept
    rw [hj] at hkept
    exact (s.logTo_mono (by omega)).eq_of_length_le hkept.length_le

theorem kept_of_origin {w : Wal} (hrec : w.Recorded) (ho : w.origin = kWalMagic)
    (hkept : w.origin ++ w.span b k <+: file) : ((w.batches.take k).drop b).flatten <+: readAll file := by
  rw [ho] at hkept
  have h := Wal.readAll_of_kept wellFramed_magic (Wal.recorded_span hrec b k) hkept
  exact h

/-- Only a truncation in progress leaves a file without its magic. -/
theorem Good.origin_cases (h : Good env strict db s k q) : s.wal.origin = kWalMagic ∨
    (s.wal.file = [] ∧ s.wal.base = s.changes.length ∧ k = s.changes.length) := by
  have hphase := h.phase
  cases hlock : s.lock with
  | truncated =>
    simp only [Phase, hlock] at hphase
    obtain ⟨ho | ⟨hnil, hbase⟩, -, hk⟩ := hphase
    · exact Or.inl ho
    · refine Or.inr ⟨?_, hbase, hk⟩
      have hc := h.sound.content
      rw [hnil, (h.toBase.idle hk).2, hbase, h.length, Wal.span_self, List.append_nil] at hc
      exact (List.append_eq_nil_iff.1 hc).1
  | free | ddl _ _ | serialised _ _ | tmpWritten _ | renamed | draining _ | drained =>
    simp only [Phase, hlock] at hphase
    exact Or.inl hphase.1

theorem Good.holds (h : Good env strict db s k q) : Holds s k s.changes.length s.wal.base s.wal.file := by
  have hq := h.sound.taken_le
  have hbk := h.sound.base_le
  have hle := h.acked_le
  refine ⟨by omega, ?_, ?_⟩
  · rcases h.origin_cases with ho | ⟨hfile, -, -⟩
    · refine List.IsPrefix.trans ⟨s.wal.unwritten, h.sound.content⟩ ?_
      rw [ho, h.length]
      exact (List.prefix_append_right_inj _).2 (Wal.span_mono hq)
    · rw [hfile]
      exact List.nil_prefix
  · rcases h.origin_cases with ho | ⟨hfile, hbase, hk⟩
    · rw [← s.logTo_append_span hbk]
      exact (List.prefix_append_right_inj _).2 (kept_of_origin h.recorded ho h.sound.kept)
    · rw [hfile, readAll_nil, List.append_nil, hbase, hk]

/-- The log in a file no write to which is pending. -/
theorem Good.written (h : Good env strict db s k q) (hun : s.wal.unwritten = []) :
    s.logTo s.wal.base ++ readAll s.wal.file = s.logTo q := by
  have hbk := h.sound.base_le
  have hkq := h.sound.acked_le
  rcases h.origin_cases with ho | ⟨hfile, hbase, hk⟩
  · have hc := h.sound.content
    rw [hun, List.append_nil, ho] at hc
    rw [hc, readAll_magic, Wal.span, readRecords_recordsBytes (Wal.recorded_span h.recorded _ _),
      s.logTo_append_span (by omega)]
  · rw [hfile, hbase, (h.toBase.idle hk).2, h.length]
    simp

/-- The log in a file that nothing is missing from. -/
theorem Good.complete (h : Good env strict db s k q) (hun : s.wal.unwritten = [])
    (hqueue : s.wal.queue.flatMap (·.bytes) = []) :
    s.logTo s.wal.base ++ readAll s.wal.file = s.logTo s.changes.length := by
  have hrest : s.wal.span q s.wal.batches.length = [] := by
    rw [Wal.span_eq_bytes, List.take_of_length_le (by simp), ← h.sound.queue]
    exact hqueue
  have hnone := readRecords_recordsBytes (Wal.recorded_span h.recorded q s.wal.batches.length)
  rw [show recordsBytes _ = [] from hrest] at hnone
  rw [h.written hun, h.length, ← s.logTo_append_span h.sound.taken_le, ← hnone]
  exact (List.append_nil _).symm

end Holds

/-! ## Recovery -/

section Recover
variable {env : Env} {strict : Bool} {db : Db} {s : Server} {k m q : Nat} {clock : Nat → UInt64}

/-- A log that ends with change `j`, no earlier than the snapshot, is recovered to that change. -/
theorem view_recovered (clock : Nat → UInt64) (hm : Mirrors env.toJsonLib true db s.changes s.wal.batches m)
    (hr : Resumes env db s) (hup : upTo s.snapFile ≤ m) {j : Nat} (hj : j ≤ m) (hlog : s.logTo s.wal.base ++ readAll s.wal.file = s.logTo j)
    (hreach : s.logTo (upTo s.snapFile) <+: s.logTo j) :
    ∃ e, recovered env clock s = some e ∧ view e.tables = db.after (s.changes.take j) := by
  obtain ⟨e, he, -, hcell⟩ := cell_recover clock hr.loads
    (hm.logged _ hup) (hm.fires rfl) (s.logTo_mono hup) (hlog ▸ s.logTo_mono hj) hr.base
  refine ⟨e, he, DbOf.ext_cell fun l => ?_⟩
  rw [hcell (hlog ▸ hreach) l, hlog]
  exact (hm.logged j hj l).symm

/-- A boot that finds a snapshot and an empty log. -/
theorem good_start {snap : Option Bytes} (h : start env snap = some s) :
    Good env strict (view s.engine.tables) s 0 0 := by
  obtain ⟨e, he, rfl⟩ := Option.map_eq_some_iff.1 h
  have hup : upTo (snap.map fun text => (⟨text, true, 0⟩ : SnapFile)) = 0 := by cases snap <;> rfl
  have htext : snapText (snap.map fun text => (⟨text, true, 0⟩ : SnapFile)) = snap := by cases snap <;> rfl
  refine ⟨⟨Wal.sound_walInitialize [] 8, by rintro b ⟨⟩, rfl, rfl, rfl, wellKeyed_loadSnapshot he⟩, Mirrors.nil,
    ⟨?_, ?_, ?_⟩, rfl, ?_⟩
  · show Loads env.toJsonLib (snapText (snap.map _)) _
    rw [htext]
    exact ⟨e, he, by simp⟩
  · exact Nat.le_of_eq hup
  · exact List.nil_prefix
  · exact Nat.le_of_eq hup

end Recover

/-! ## A crash while nothing fails -/

/-- The steps that fail a drain of the log. -/
def Label.failsLog : Label → Bool
  | .writer l => l.fails
  | _ => false

/-- A permitted step at which the log does not fail. -/
def Calm (env : Env) (feed : Bool) (s : Server) (l : Label) : Prop := Ok env feed true s l ∧ l.failsLog = false

instance (env : Env) (feed : Bool) (s : Server) (l : Label) : Decidable (Calm env feed s l) :=
  inferInstanceAs (Decidable (_ ∧ _))

/-- The file has caught up with the snapshot that is to replace it, and does not end inside a batch. -/
structure CutClean (s : Server) : Prop where
  caughtUp : s.lock.inPlace = true → s.wal.unwritten = [] ∧ s.wal.queue.flatMap (·.bytes) = []
  whole : Splits (s.wal.batches.drop s.wal.base) (s.wal.file.length - 8) = false

instance (s : Server) : Decidable s.CutClean :=
  decidable_of_iff ((s.lock.inPlace = true → s.wal.unwritten = [] ∧ s.wal.queue.flatMap (·.bytes) = []) ∧
    Splits (s.wal.batches.drop s.wal.base) (s.wal.file.length - 8) = false) ⟨fun h => ⟨h.1, h.2⟩, fun h => ⟨h.1, h.2⟩⟩

section Crash
variable {env : Env} {mode : SyncMode} {feed : Bool} {db : Db} {s s₀ : Server} {ls : List Label} {k q : Nat}
  {clock : Nat → UInt64}

theorem good_run (h0 : ∃ k q, Good env true db s₀ k q) (hok : Allowed (step env mode feed) (Calm env feed) s₀ ls)
    (hrun : run (step env mode feed) s₀ ls = some s) : ∃ k q, Good env true db s k q := by
  refine run_invariant (fun s => ∃ k q, Good env true db s k q) ?_ h0 hok hrun
  rintro s l s' ⟨k, q, hg⟩ ⟨hl, hno⟩ hstep
  rcases hg.step hl hstep with ⟨k', q', -, hg'⟩ | ⟨wl, rfl, hf, -⟩
  · exact ⟨k', q', hg'⟩
  · rw [Label.failsLog, hf] at hno
    cases hno

/-- The log reaches at least as far as the snapshot. -/
theorem Good.reaches_snapshot (h : Good env true db s k q) (hcut : s.CutClean) :
    s.logTo (upTo s.snapFile) <+: s.logTo s.wal.base ++ readAll s.wal.file := by
  by_cases hlock : s.lock.inPlace = true
  · obtain ⟨hun, hqueue⟩ := hcut.caughtUp hlock
    rw [h.complete hun hqueue]
    exact s.logTo_mono h.resumes.upTo_le
  · have hup := (h.phase.origin (by simpa using hlock)).2
    exact (s.logTo_mono hup).trans h.holds.kept

/-- **A crash loses nothing.** Wherever the process dies in a run without failures, the next boot
rebuilds a prefix of the changes that has every acknowledged one, if the log file has caught up with
a snapshot just put in place and does not end inside a batch. -/
theorem checkpoint_crash (env : Env) (mode : SyncMode) (feed : Bool) (snap : Option Bytes) (s₀ s : Server)
    (ls : List Label) (clock : Nat → UInt64) (h0 : start env snap = some s₀)
    (hok : Allowed (step env mode feed) (Calm env feed) s₀ ls) (hrun : run (step env mode feed) s₀ ls = some s)
    (hcut : s.CutClean) :
    ∃ j e, (∀ i, s.wal.promises[i]? = some (some true) → i < j) ∧ j ≤ s.changes.length ∧
      recovered env clock s = some e ∧ view e.tables = (view s₀.engine.tables).after (s.changes.take j) := by
  obtain ⟨k, q, hg⟩ := good_run ⟨0, 0, good_start h0⟩ hok hrun
  have hsplit : Splits ((s.wal.batches.take s.changes.length).drop s.wal.base) (s.wal.file.length - 8) = false := by
    rw [hg.length, List.take_length]
    exact hcut.whole
  obtain ⟨j, hkj, hj⟩ := hg.holds.exact hg.recorded hsplit
  have hreach := hg.reaches_snapshot hcut
  have hmin : s.logTo j = s.logTo (min j s.changes.length) := by
    rw [logTo, logTo, hg.length, List.take_eq_take_min]
  rw [hmin] at hj
  rw [hj] at hreach
  obtain ⟨e, he, hv⟩ := view_recovered clock hg.mirrors hg.resumes hg.resumes.upTo_le
    (Nat.min_le_right _ _) hj hreach
  refine ⟨_, e, fun i hi => ?_, Nat.min_le_right _ _, he, hv⟩
  have hik := (hg.sound.inv.acked_iff i).1 hi
  have hk := hg.acked_le
  omega

end Crash

/-! ### A table on disk -/

/-- A JSON string. -/
def quoted (b : Bytes) : Bytes := [34] ++ b.flatMap (fun c => if c = 34 ∨ c = 92 then [92, c] else [c]) ++ [34]

def schemaText : Bytes := str "\x7b\"columns\":[],\"name\":\"t\",\"primary_key\":[]\x7d"

def rowText (key : Bytes) : Bytes := str "\x7b\"columns\":\x7b\x7d,\"key\":" ++ quoted key ++ str "\x7d"

/-- The snapshot of a table `t` with these keys and no columns, and its text. -/
def snapshotDoc (seq : Nat) (keys : List Bytes) : Json × Bytes :=
  (.object [(str "last_sequence", .int seq), (str "tables", .array [.object
      [(str "rows", .array (keys.map fun k => .string (rowText k))), (str "schema", .string schemaText)]])],
   str "\x7b\"last_sequence\":" ++ str (toString seq) ++ str ",\"tables\":[\x7b\"rows\":[" ++
     (str ",").intercalate (keys.map fun k => quoted (rowText k)) ++ str "],\"schema\":" ++ quoted schemaText ++
     str "\x7d]\x7d")

def tSchema : TableSchema := ⟨str "t", [], []⟩

/-- The library on the documents of that table. -/
def tEnv : Env where
  toJsonLib := JsonLib.ofTable
    [(schemaJson tSchema, schemaText), (rowJson { key := str "j" }, rowText (str "j")),
     (rowJson { key := str "k" }, rowText (str "k")), snapshotDoc 1 [], snapshotDoc 2 [str "k"],
     snapshotDoc 5 [str "j", str "k"]] (by decide +kernel)
  order := .sorted

/-- The first boot in an empty directory. -/
def tStart : Server := { engine := {}, wal := Wal.walInitialize [] 8, snaps := [none] }

def commitT (ws : List (WriteOp × String)) : Label :=
  .commit { timestamp := 1, writeSet := ws.map fun w => ⟨w.1, str "t", { key := str w.2 }⟩ } (fun _ => 0) 0

/-- The writer takes a drain of one batch with `n` bytes, and acknowledges it. -/
def ackOne (n : Nat) : List Label :=
  .writer .swap :: ((if n = 0 then [] else [.writer (.write n)]) ++ [.writer (.sync true), .writer .fulfil, .writer .endDrain])

/-- `CREATE TABLE t`, acknowledged. -/
def createdT : List Label := [.createTable tSchema 0] ++ ackOne 84 ++ [.ddlDone]

/-- A checkpoint from beginning to end. -/
def checkpointT : List Label :=
  [.serialise, .writeTmp 200, .rename true, .drain] ++ ackOne 0 ++ [.drained, .truncate true, .reopen true 8]

/-- A checkpoint, then a commit that is written but not yet acknowledged. -/
def writtenAfter : List Label :=
  createdT ++ checkpointT ++ [commitT [(.insert, "k")], .writer .swap, .writer (.write 52)]

theorem checkpoint_crash_writtenAfter : ∃ s j e, run (step tEnv .fsync false) tStart writtenAfter = some s ∧
    (∀ i, s.wal.promises[i]? = some (some true) → i < j) ∧ j ≤ s.changes.length ∧
    recovered tEnv (fun _ => 0) s = some e ∧ view e.tables = (view tStart.engine.tables).after (s.changes.take j) := by
  have hcut : ((run (step tEnv .fsync false) tStart writtenAfter).map fun s => decide s.CutClean) = some true := by
    decide +kernel
  obtain ⟨s, hrun, hcut⟩ := Option.map_eq_some_iff.1 hcut
  obtain ⟨j, e, h⟩ := checkpoint_crash tEnv .fsync false none tStart s writtenAfter (fun _ => 0) rfl (by decide +kernel) hrun
    (of_decide_eq_true hcut)
  exact ⟨s, j, e, hrun, h⟩

/-- `k` is inserted and acknowledged, deleted (written), and inserted again together with `j` (queued);
then a snapshot is put in place. -/
def mixedRun : List Label :=
  createdT ++ [commitT [(.insert, "k")]] ++ ackOne 52 ++
    [commitT [(.delete, "k")], .writer .swap, commitT [(.insert, "k"), (.insert, "j")], .writer (.write 52),
      .serialise, .writeTmp 200, .rename true]

/-- The row `k` of `t` is gone and `j` is there. -/
def OnlyJ (db : Db) : Prop := db.rowAt (str "t") (str "k") = none ∧ db.rowAt (str "t") (str "j") = some ∅

instance (db : Db) : Decidable (OnlyJ db) := inferInstanceAs (Decidable (_ ∧ _))

/-- A crash here recovers `j` without `k`, which no prefix of the changes has. -/
theorem crash_mixedRun : ∃ s e, run (step tEnv .fsync false) tStart mixedRun = some s ∧
    start tEnv none = some tStart ∧ Allowed (step tEnv .fsync false) (Calm tEnv false) tStart mixedRun ∧
    recovered tEnv (fun _ => 0) s = some e ∧ OnlyJ (view e.tables) ∧
    ∀ j, view e.tables ≠ (view tStart.engine.tables).after (s.changes.take j) := by
  have h : ((run (step tEnv .fsync false) tStart mixedRun).bind fun s => (recovered tEnv (fun _ => 0) s).map fun e =>
      (decide (OnlyJ (view e.tables)), s.changes.length,
        decide (∀ i ∈ List.range 5, ¬ OnlyJ ((view tStart.engine.tables).after (s.changes.take i))))) =
      some (true, 4, true) := by decide +kernel
  obtain ⟨s, hrun, h⟩ := Option.bind_eq_some_iff.1 h
  obtain ⟨e, he, h⟩ := Option.map_eq_some_iff.1 h
  simp only [Prod.mk.injEq, decide_eq_true_eq] at h
  obtain ⟨honly, hlen, hno⟩ := h
  refine ⟨s, e, hrun, rfl, by decide +kernel, he, honly, fun j hj => ?_⟩
  rw [hj] at honly
  by_cases hlt : j < 5
  · exact hno j (List.mem_range.2 hlt) honly
  · have h4 : s.changes.take j = s.changes.take 4 := by
      rw [List.take_of_length_le (by omega), List.take_of_length_le (by omega)]
    rw [h4] at honly
    exact hno 4 (by simp) honly

/-! ## When the log fails -/

/-- No whole record of the drain in progress has reached the file. -/
def wroteNone (w : Wal) : Bool :=
  match w.writer with
  | .writing drained rest =>
    readRecords ((drained.flatMap (·.bytes)).take ((drained.flatMap (·.bytes)).length - rest.length)) = []
  | _ => true

/-- A permitted step at which the log may fail, but only before it has written a record. -/
def Contained (env : Env) (feed : Bool) (s : Server) (l : Label) : Prop :=
  Ok env feed true s l ∧ (l.failsLog = true → wroteNone s.wal = true)

instance (env : Env) (feed : Bool) (s : Server) (l : Label) : Decidable (Contained env feed s l) :=
  inferInstanceAs (Decidable (_ ∧ _))

/-- The changes whose promise was fulfilled with `true`: for a commit, those that returned `true`. -/
def ackedChanges (s : Server) : List Change := ((s.changes.zip s.wal.promises).filter (·.2 = some true)).map Prod.fst

section Fails
variable {env : Env} {mode : SyncMode} {feed : Bool} {db : Db} {s s' s₀ : Server} {ls : List Label} {k m q : Nat}

theorem ackedChanges_eq (h : s.wal.Inv k) (hlen : s.changes.length = s.wal.batches.length) :
    s.ackedChanges = s.changes.take k :=
  Wal.filter_acked _ _ k (h.length.trans hlen.symm) fun i _ => h.acked_iff i

/-- What the drain in progress has written so far. -/
theorem written_eq {w : Wal} {drained : List PendingBatch} {rest : Bytes} (h : w.Sound k q)
    (hw : w.writer = .writing drained rest) :
    w.file = w.origin ++ w.span w.base k ++
      (drained.flatMap (·.bytes)).take ((drained.flatMap (·.bytes)).length - rest.length) := by
  obtain ⟨x, hx⟩ := h.kept
  have hblob : drained.flatMap (·.bytes) = w.span k q := by
    have hin := h.inflight
    simp only [Wal.inflight, hw] at hin
    rw [hin, Wal.span_eq_bytes]
  have hc := h.content
  simp only [Wal.unwritten, hw] at hc
  rw [← hx, Wal.span_append h.base_le h.acked_le, ← List.append_assoc, List.append_assoc _ x] at hc
  have hxr : x ++ rest = w.span k q := List.append_cancel_left hc
  rw [hblob, ← hxr, List.length_append, Nat.add_sub_cancel, List.take_left, hx]

theorem writing_of_fails {w w' : Wal} {l : Wal.Label} (hl : l.fails = true) (hstep : w.step mode l = some w') :
    ∃ drained rest, w.writer = .writing drained rest := by
  cases l with
  | writeError =>
    simp only [Wal.step] at hstep
    split at hstep
    · rename_i drained rest hw
      exact ⟨drained, rest, hw⟩
    · cases hstep
  | sync ok =>
    simp only [Wal.step] at hstep
    split at hstep
    · rename_i drained hw
      exact ⟨drained, [], hw⟩
    · cases hstep
  | _ => cases hl

/-- Before the failure, or after one that left exactly the acknowledged changes in the log. -/
def Clear (env : Env) (db : Db) (s : Server) : Prop :=
  (∃ k q, Good env true db s k q) ∨
    ∃ k m, Bad env true db s k m ∧ s.logTo s.wal.base ++ readAll s.wal.file = s.logTo k

theorem Good.fails {wl : Wal.Label} {w : Wal} (h : Good env true db s k q) (hf : wl.fails = true)
    (hlock : s.lock.inPlace = false) (hnone : wroteNone s.wal = true) (hstep : s.wal.step mode wl = some w) :
    s.logTo s.wal.base ++ readAll s.wal.file = s.logTo k := by
  obtain ⟨drained, rest, hw⟩ := writing_of_fails hf hstep
  simp only [wroteNone, hw, decide_eq_true_eq] at hnone
  rw [written_eq h.sound hw, (h.phase.origin hlock).1, List.append_assoc, readAll_magic, Wal.span,
    readRecords_append (Wal.recorded_span h.recorded _ _), hnone, List.append_nil, s.logTo_append_span h.sound.base_le]

theorem Clear.step {l : Label} (h : Clear env db s) (hok : Contained env feed s l)
    (hstep : step env mode feed s l = some s') : Clear env db s' := by
  rcases h with ⟨k, q, hg⟩ | ⟨k, m, hb, hlog⟩
  · rcases hg.step hok.1 hstep with ⟨k', q', -, hg'⟩ | ⟨wl, rfl, hf, hb, hfile⟩
    · exact Or.inl ⟨k', q', hg'⟩
    · obtain ⟨hby, w, hw, rfl⟩ := step_writer hstep
      obtain ⟨hbs, hb0, -⟩ := writer_frame hby hw
      refine Or.inr ⟨k, _, hb, ?_⟩
      have hlog := hg.fails hf (hok.1.step.2 hf) (hok.2 hf) hw
      have hto : ∀ j, ({ s with wal := w } : Server).logTo j = s.logTo j := fun j => by rw [logTo, hbs, logTo]
      rw [hto, hto, hfile]
      show s.logTo w.base ++ _ = _
      rw [hb0]
      exact hlog
  · obtain ⟨cs, bs, hs, hb'⟩ := hb.step hok.1 hstep
    refine Or.inr ⟨k, m, hb', ?_⟩
    have hk := hb.failed.acked_lt
    have hb0 := hb.failed.base_le
    rw [hs.base, hs.file, logTo_append hs.batches (by omega), logTo_append hs.batches (by omega)]
    exact hlog

theorem clear_run (h0 : Clear env db s₀) (hok : Allowed (step env mode feed) (Contained env feed) s₀ ls)
    (hrun : run (step env mode feed) s₀ ls = some s) : Clear env db s :=
  run_invariant (Clear env db) (fun _ _ _ h hl hstep => h.step hl hstep) h0 hok hrun

end Fails

/-- **A failed commit stays out.** Once every call has returned, the next boot rebuilds the changes that
were acknowledged and no other, if a failing drain has not written a record, the tables hold no half
of a rejected commit, and no snapshot is put in place that holds a change the log has lost. -/
theorem failed_stay_out (env : Env) (mode : SyncMode) (feed : Bool) (snap : Option Bytes) (s₀ s : Server)
    (ls : List Label) (clock : Nat → UInt64) (h0 : start env snap = some s₀)
    (hok : Allowed (step env mode feed) (Contained env feed) s₀ ls) (hrun : run (step env mode feed) s₀ ls = some s)
    (hdone : ∀ p ∈ s.wal.promises, p ≠ none) :
    ∃ e, recovered env clock s = some e ∧ view e.tables = (view s₀.engine.tables).after s.ackedChanges := by
  rcases clear_run (Or.inl ⟨0, 0, good_start h0⟩) hok hrun with ⟨k, q, hg⟩ | ⟨k, m, hb, hlog⟩
  · have hk := hg.toBase.settled hdone
    obtain ⟨hun, hq⟩ := hg.toBase.idle hk
    have hqueue : s.wal.queue.flatMap (·.bytes) = [] := by
      rw [hg.sound.queue, List.drop_eq_nil_of_le (by simp [hq])]
      rfl
    rw [ackedChanges_eq hg.sound.inv hg.length, hk]
    exact view_recovered _ hg.mirrors hg.resumes hg.resumes.upTo_le (Nat.le_refl _) (hg.complete hun hqueue)
      (s.logTo_mono hg.resumes.upTo_le)
  · have hup := hb.upTo_le
    have hkm := hb.acked_le
    rw [ackedChanges_eq hb.failed.inv hb.length]
    exact view_recovered _ hb.mirrors hb.resumes (by omega) hkm hlog (s.logTo_mono hup)

/-- A commit whose drain fails before anything is written, and one that is refused after it. -/
def failsClean : List Label :=
  createdT ++ checkpointT ++ [commitT [(.insert, "k")], .writer .swap, .writer .writeError, .writer .fulfil,
    .writer .endDrain, commitT [(.insert, "j")]]

theorem failed_stay_out_failsClean : ∃ s e, run (step tEnv .fsync false) tStart failsClean = some s ∧
    s.wal.promises = [some true, some true, some false, some false] ∧ recovered tEnv (fun _ => 0) s = some e ∧
    view e.tables = (view tStart.engine.tables).after s.ackedChanges := by
  have h : ((run (step tEnv .fsync false) tStart failsClean).map fun s => s.wal.promises) =
      some [some true, some true, some false, some false] := by decide +kernel
  obtain ⟨s, hrun, hp⟩ := Option.map_eq_some_iff.1 h
  obtain ⟨e, he⟩ := failed_stay_out tEnv .fsync false none tStart s failsClean (fun _ => 0) rfl (by decide +kernel) hrun
    (by rw [hp]; decide)
  exact ⟨s, e, hrun, hp, he⟩

/-- A commit whose drain fails before anything is written, then the checkpoint of `Shutdown`. -/
def failsThenShutdown : List Label :=
  createdT ++ [commitT [(.insert, "k")], .writer .swap, .writer .writeError, .writer .fulfil, .writer .endDrain,
    .serialise, .writeTmp 200, .rename true, .drain, .truncate true, .reopen true 8, .flush]

/-- The failed commit is back after the restart. -/
theorem failed_comes_back : ∃ s e, run (step tEnv .fsync false) tStart failsThenShutdown = some s ∧
    start tEnv none = some tStart ∧ s.wal.promises = [some true, some false] ∧ recovered tEnv (fun _ => 0) s = some e ∧
    (view e.tables).rowAt (str "t") (str "k") = some ∅ ∧
    view e.tables ≠ (view tStart.engine.tables).after s.ackedChanges := by
  have h : ((run (step tEnv .fsync false) tStart failsThenShutdown).bind fun s =>
      (recovered tEnv (fun _ => 0) s).map fun e => (s.wal.promises,
        decide ((view e.tables).rowAt (str "t") (str "k") = some ∅),
        decide (((view tStart.engine.tables).after s.ackedChanges).rowAt (str "t") (str "k") = none))) =
      some ([some true, some false], true, true) := by decide +kernel
  obtain ⟨s, hrun, h⟩ := Option.bind_eq_some_iff.1 h
  obtain ⟨e, he, h⟩ := Option.map_eq_some_iff.1 h
  simp only [Prod.mk.injEq, decide_eq_true_eq] at h
  obtain ⟨hp, hrow, hnone⟩ := h
  refine ⟨s, e, hrun, rfl, hp, he, hrow, fun hv => ?_⟩
  rw [hv, hnone] at hrow
  cases hrow

end OriginDB.Server
