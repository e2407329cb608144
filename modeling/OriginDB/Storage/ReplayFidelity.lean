import OriginDB.Storage.CrashSafety
/-!
# The log alone

What recovery makes of a log that no checkpoint has touched. Read to its end it gives the tables back
(`replay_faithful_iff`) unless the last write of some key was an INSERT that found a row there: live it
overwrote the row, in the log it is an INSERT and replaying it does nothing. Cut anywhere by a crash
(`cut_whole_iff`) it gives whole transactions back unless the cut falls inside one, behind its first
record: there is no commit record, so what is left of it is replayed.
-/
namespace OriginDB

open JsonDoc ByteCodec GuardedReplay Machine

/-! ## The history of a key -/

/-- A key after a write: the columns a reader sees, and those of the last write that was an UPDATE or
found no row. -/
def keyWrite (n k : Bytes) (st : Option (Columns × Columns)) (w : WriteOperation) : Option (Columns × Columns) :=
  if w.tableName = n ∧ w.row.key = k then
    match w.op with
    | .insert => some (w.row.columns, (st.map Prod.snd).getD w.row.columns)
    | .update => some (w.row.columns, w.row.columns)
    | .delete => none
  else st

def keyChange (n k : Bytes) (st : Option (Columns × Columns)) : Change → Option (Columns × Columns)
  | .create s => if s.name = n then none else st
  | .drop name => if name = n then none else st
  | .commit ws => ws.foldl (keyWrite n k) st
  | .barrier => st

/-- A key after a list of changes to an empty database; `none` when it has no row. -/
def keyAfter (n k : Bytes) (cs : List Change) : Option (Columns × Columns) := cs.foldl (keyChange n k) none

/-- Every key with a row at the end was last written what its last UPDATE, or INSERT of a key without a
row, had written. -/
def InsertsSettle (cs : List Change) : Prop := ∀ n k p, keyAfter n k cs = some p → p.1 = p.2

/-! ## Live tables and replayed tables -/

/-- The tables of the engine, those a replay of the log builds, and the history of every key. -/
structure Tracks (live rep : Db) (t : Bytes → Bytes → Option (Columns × Columns)) : Prop where
  schemas : ∀ n, (live n).map Prod.fst = (rep n).map Prod.fst
  live : ∀ n k, live.rowAt n k = (t n k).map Prod.fst
  rep : ∀ n k, rep.rowAt n k = (t n k).map Prod.snd

namespace DbOf

theorem ext_rowAt {db db' : Db} (hs : ∀ n, (db n).map Prod.fst = (db' n).map Prod.fst)
    (hr : ∀ n k, db.rowAt n k = db'.rowAt n k) : db = db' := by
  funext n
  have hn := hs n
  have hk := hr n
  simp only [rowAt] at hk
  cases h : db n with
  | none =>
    rw [h] at hn
    cases h' : db' n with
    | none => rfl
    | some p' => rw [h'] at hn; cases hn
  | some p =>
    rw [h] at hn hk
    cases h' : db' n with
    | none => rw [h'] at hn; cases hn
    | some p' =>
      rw [h'] at hn hk
      exact congrArg some (Prod.ext (Option.some.inj hn) (funext hk))

theorem rowAt_setRow {db : Db} {n k : Bytes} (h : (db n).isSome) (r : Option Columns) (m j : Bytes) :
    (db.setRow n k r).rowAt m j = if n = m ∧ k = j then r else db.rowAt m j := by
  obtain ⟨p, hp⟩ := Option.isSome_iff_exists.1 h
  by_cases hm : n = m
  · subst hm
    by_cases hj : k = j
    · simp [rowAt, setRow, hp, hj]
    · simp [rowAt, setRow, hp, hj, Ne.symm hj]
  · simp [rowAt, setRow, hm, Ne.symm hm]

theorem fst_setRow (db : Db) (n k : Bytes) (r : Option Columns) (m : Bytes) :
    (db.setRow n k r m).map Prod.fst = (db m).map Prod.fst := by
  by_cases hm : m = n
  · simp [setRow, hm, Option.map_map, Function.comp_def]
  · simp [setRow, hm]

theorem rowAt_create {db : Db} {s : TableSchema} (h : db s.name = none) (m j : Bytes) :
    (db.create s).rowAt m j = if s.name = m then none else db.rowAt m j := by
  by_cases hm : s.name = m
  · subst hm
    simp [rowAt, create, h]
  · simp [rowAt, create, hm, Ne.symm hm]

theorem rowAt_drop (db : Db) (n m j : Bytes) : (db.drop n).rowAt m j = if n = m then none else db.rowAt m j := by
  by_cases hm : n = m
  · subst hm
    simp [rowAt, drop]
  · simp [rowAt, drop, hm, Ne.symm hm]

end DbOf

section Tracks
variable {live rep : Db} {t : Bytes → Bytes → Option (Columns × Columns)}

theorem Tracks.eq_iff (h : Tracks live rep t) : rep = live ↔ ∀ n k p, t n k = some p → p.1 = p.2 := by
  constructor
  · rintro rfl n k p hp
    have hl := h.live n k
    rw [h.rep n k, hp] at hl
    exact (Option.some.inj hl).symm
  · intro hall
    refine DbOf.ext_rowAt (fun n => (h.schemas n).symm) fun n k => ?_
    rw [h.live, h.rep]
    cases ht : t n k with
    | none => rfl
    | some p => exact congrArg some (hall n k p ht).symm

/-- A write that takes effect live, and what its log entry does when it is replayed. -/
theorem Tracks.write (env : Env) (ts : UInt64) {w : WriteOperation} (h : Tracks live rep t) (hfit : w.row.Fits)
    (htab : (live w.tableName).isSome) (hrow : w.op ≠ .insert → (live.rowAt w.tableName w.row.key).isSome) :
    ∃ rep', Logged env.toJsonLib rep [writeEntry env ts w] rep' ∧
      Tracks (live.write w) rep' fun n k => keyWrite n k (t n k) w := by
  have htab' : (rep w.tableName).isSome := by
    have hs := congrArg Option.isSome (h.schemas w.tableName)
    rw [Option.isSome_map, Option.isSome_map, htab] at hs
    exact hs.symm
  obtain ⟨p, hp⟩ := Option.isSome_iff_exists.1 htab'
  have hat : rep.rowAt w.tableName w.row.key = p.2 w.row.key := by rw [DbOf.rowAt, hp]; rfl
  have hsome : (rep.rowAt w.tableName w.row.key).isSome = (live.rowAt w.tableName w.row.key).isSome := by
    rw [h.live, h.rep, Option.isSome_map, Option.isSome_map]
  by_cases hover : w.op = .insert ∧ (rep.rowAt w.tableName w.row.key).isSome
  · -- the row is there: live it is overwritten, replayed it stays
    obtain ⟨hop, hthere⟩ := hover
    refine ⟨rep, fun l => ?_, fun n => ?_, fun n k => ?_, fun n k => ?_⟩
    · obtain ⟨cols, hcols⟩ := Option.isSome_iff_exists.1 hthere
      have hcell : rep.cell (w.tableName, some w.row.key) = .row cols := by rw [DbOf.cell_row hp, ← hat, hcols]
      show _ = (entryOp env.toJsonLib (writeEntry env ts w) l).apply (rep.cell l)
      rw [entryOp_writeEntry hfit, hop, apply_of_not_guard (by rw [hcell]; rfl)]
    · rw [DbOf.write, DbOf.fst_setRow]
      exact h.schemas n
    · rw [DbOf.write, DbOf.rowAt_setRow htab, keyWrite, h.live]
      by_cases hk : w.tableName = n ∧ w.row.key = k
      · simp [hk, hop]
      · simp [hk]
    · rw [h.rep, keyWrite]
      by_cases hk : w.tableName = n ∧ w.row.key = k
      · obtain ⟨rfl, rfl⟩ := hk
        rw [h.rep, Option.isSome_map] at hthere
        obtain ⟨pr, hpr⟩ := Option.isSome_iff_exists.1 hthere
        simp [hop, hpr]
      · simp [hk]
  · have hwant : (p.2 w.row.key).isSome = (w.op != .insert) := by
      rw [← hat]
      by_cases hop : w.op = .insert
      · rw [Bool.eq_false_iff.2 fun hyes => hover ⟨hop, hyes⟩, hop]
        rfl
      · rw [hsome, hrow hop]
        simp [hop]
    refine ⟨rep.write w, (logged_write _ _ hfit hp hwant).1, fun n => ?_, fun n k => ?_, fun n k => ?_⟩
    · rw [DbOf.write, DbOf.write, DbOf.fst_setRow, DbOf.fst_setRow]
      exact h.schemas n
    · rw [DbOf.write, DbOf.rowAt_setRow htab, keyWrite, h.live]
      by_cases hk : w.tableName = n ∧ w.row.key = k
      · cases hop : w.op <;> simp [hk]
      · simp [hk]
    · rw [DbOf.write, DbOf.rowAt_setRow htab', keyWrite, h.rep]
      by_cases hk : w.tableName = n ∧ w.row.key = k
      · cases hop : w.op with
        | insert =>
          have hnone : t n k = none := by
            rw [← hat, h.rep, hop, hk.1, hk.2, Option.isSome_map] at hwant
            simpa using hwant
          simp [hk, hnone]
        | update | delete => simp [hk]
      · simp [hk]

theorem Tracks.writes {env : Env} {feed : Bool} {ts : UInt64} {clock : Nat → UInt64} {i : Nat} {e e' : Engine}
    {ws : List WriteOperation} {entries : List WALEntry} {events : List ChangefeedEvent}
    (h : Tracks (view e.tables) rep t) (hfit : ∀ w ∈ ws, w.row.Fits)
    (hdone : applyWrites env feed ts clock i e ws = .done e' entries events) :
    ∃ rep', Logged env.toJsonLib rep entries rep' ∧
      Tracks (view e'.tables) rep' fun n k => ws.foldl (keyWrite n k) (t n k) := by
  induction ws generalizing e i entries events rep t with
  | nil =>
    simp only [applyWrites, Applied.done.injEq] at hdone
    obtain ⟨rfl, rfl, rfl⟩ := hdone
    exact ⟨rep, Logged.nil _ _, h⟩
  | cons w ws ih =>
    simp only [applyWrites] at hdone
    split at hdone
    · cases hdone
    · rename_i e₁ old hw
      split at hdone
      · cases hdone
      · split at hdone
        · rename_i hrest
          cases hdone
          obtain ⟨tb, tb', htb, -, -, hcase⟩ := applyWrite_eq_some hw
          have hrow : (view e.tables).rowAt w.tableName w.row.key = tb.rows[w.row.key]?.map Row.columns := by
            rw [DbOf.rowAt, view_eq_some htb]
            rfl
          obtain ⟨rep₁, hl₁, h₁⟩ := h.write env ts (hfit w (by simp)) (by rw [view_eq_some htb]; rfl) (by
            intro hop
            rw [hrow, Option.isSome_map]
            rcases hcase with ⟨h', -⟩ | ⟨-, -, r, hr, -⟩ | ⟨-, hr, -⟩
            · exact absurd h' hop
            · rw [hr]
              rfl
            · exact hr)
          rw [← view_applyWrite hw] at h₁
          obtain ⟨rep₂, hl₂, h₂⟩ := ih h₁ (fun w' hw' => hfit w' (by simp [hw'])) hrest
          exact ⟨rep₂, hl₁.append hl₂, h₂⟩
        · cases hdone
        · cases hdone

/-- **One change**, live and replayed. -/
theorem Tracks.logs {env : Env} {feed : Bool} {e e' : Engine} {c : Change} {entries : List WALEntry}
    (h : Tracks (view e.tables) rep t) (hlogs : Logs env feed e c entries e')
    (hfits : ∀ entry ∈ entries, (recordBytes entry).length < 2 ^ 32) :
    ∃ rep', Logged env.toJsonLib rep entries rep' ∧ Tracks (view e'.tables) rep' fun n k => keyChange n k (t n k) c := by
  cases hlogs with
  | commit hdone =>
    refine h.writes (fun w hw => ?_) hdone
    rw [(view_applyWrites hdone).2] at hfits
    exact fits_of_writeEntry (hfits _ (List.mem_map_of_mem hw))
  | @create schema entry _ hc =>
    obtain ⟨hv, hnone, hdata, hentry⟩ := view_createTable hc
    have hnone' : rep schema.name = none := by
      have hs := h.schemas schema.name
      rw [hnone] at hs
      exact Option.map_eq_none_iff.1 hs.symm
    obtain ⟨hl, -⟩ := logged_create hnone' (deserializeSchema_serializeSchema env.toJsonLib hdata)
    rw [← hentry] at hl
    refine ⟨_, hl, fun n => ?_, fun n k => ?_, fun n k => ?_⟩
    · rw [hv, DbOf.create, DbOf.create]
      by_cases hn : n = schema.name
      · rw [if_pos hn, if_pos hn, hn, hnone, hnone']
      · rw [if_neg hn, if_neg hn]
        exact h.schemas n
    · rw [hv, DbOf.rowAt_create hnone, keyChange, h.live]
      split <;> rfl
    · rw [DbOf.rowAt_create hnone', keyChange, h.rep]
      split <;> rfl
  | @drop name entry _ hd =>
    obtain ⟨hv, hsome, hentry⟩ := view_dropTable hd
    have hsome' : (rep name).isSome := by
      have hs := congrArg Option.isSome (h.schemas name)
      rw [Option.isSome_map, Option.isSome_map, hsome] at hs
      exact hs.symm
    obtain ⟨hl, -⟩ := logged_drop (J := env.toJsonLib) hsome'
    rw [← hentry] at hl
    refine ⟨_, hl, fun n => ?_, fun n k => ?_, fun n k => ?_⟩
    · rw [hv, DbOf.drop, DbOf.drop]
      by_cases hn : n = name
      · rw [if_pos hn, if_pos hn]
      · rw [if_neg hn, if_neg hn]
        exact h.schemas n
    · rw [hv, DbOf.rowAt_drop, keyChange, h.live]
      split <;> rfl
    · rw [DbOf.rowAt_drop, keyChange, h.rep]
      split <;> rfl

end Tracks

namespace Server

/-! ## A log read to its end -/

/-- A step of the calls or of the writer: no exception, no batch that cannot be read back, and no write
or sync of the log that fails. -/
structure Plain (env : Env) (feed : Bool) (s : Server) (l : Label) : Prop where
  ofCheckpoint : l.ofCheckpoint = false
  clean : Clean env feed s l
  accepts : s.wal.fatal = false → s.wal.Accepts (batchOf env feed s l)
  calm : l.failsLog = false

instance (env : Env) (feed : Bool) (s : Server) (l : Label) : Decidable (Plain env feed s l) :=
  decidable_of_iff (l.ofCheckpoint = false ∧ Clean env feed s l ∧
      (s.wal.fatal = false → s.wal.Accepts (batchOf env feed s l)) ∧ l.failsLog = false)
    ⟨fun h => ⟨h.1, h.2.1, h.2.2.1, h.2.2.2⟩, fun h => ⟨h.1, h.2, h.3, h.4⟩⟩

/-- The log is the one the first boot began. -/
structure First (s₀ s : Server) : Prop where
  base : s.wal.base = 0
  origin : s.wal.origin = kWalMagic
  snaps : s.snaps = s₀.snaps

section Plain
variable {env : Env} {mode : SyncMode} {feed : Bool} {s s' s₀ : Server} {l : Label} {ls : List Label} {k q : Nat} {db : Db}

theorem first_start {snap : Option Bytes} (h : start env snap = some s) : First s s := by
  obtain ⟨e, -, rfl⟩ := Option.map_eq_some_iff.1 h
  exact ⟨rfl, rfl, rfl⟩

theorem snapText_start {snap : Option Bytes} (h : start env snap = some s₀) (hs : First s₀ s) :
    snapText s.snapFile = snap := by
  obtain ⟨e, -, rfl⟩ := Option.map_eq_some_iff.1 h
  rw [snapFile, hs.snaps]
  cases snap <;> rfl

theorem loads_start {snap : Option Bytes} (h : start env snap = some s₀) :
    Loads env.toJsonLib snap (view s₀.engine.tables) := by
  obtain ⟨e, he, rfl⟩ := Option.map_eq_some_iff.1 h
  exact ⟨e, he, rfl⟩

theorem First.step (h : First s₀ s) (hl : l.ofCheckpoint = false) (hstep : Server.step env mode feed s l = some s') :
    First s₀ s' := by
  rcases step_cases hl hstep with ⟨e', lock, hq⟩ | ⟨c, ts, e', lock, ha⟩ | ⟨wl, w, -, hby, hw, rfl⟩ | ⟨-, -, rfl⟩
  · rw [hq.eq]
    exact ⟨h.base, h.origin, h.snaps⟩
  · rw [ha.eq]
    exact ⟨(Wal.appendBatchAsync_base _ _ _).trans h.base, (Wal.appendBatchAsync_origin _ _ _).trans h.origin, h.snaps⟩
  · obtain ⟨-, hb0, ho, -⟩ := writer_frame hby hw
    exact ⟨hb0.trans h.base, ho.trans h.origin, h.snaps⟩
  · unfold drainLog
    split
    · exact h
    · rename_i hno
      have hd : s.wal.drain = s.wal.enqueue [] := if_neg hno
      simp only [hd]
      exact ⟨h.base, h.origin, h.snaps⟩

/-- The bytes handed to `write()` so far. -/
theorem First.content (h : First s₀ s) (hs : s.wal.Sound k q) :
    s.wal.file ++ s.wal.unwritten = kWalMagic ++ recordsBytes (s.logTo q) := by
  have hc := hs.content
  rw [h.origin, h.base] at hc
  exact hc

/-- The tables, and what the log makes of them. -/
def Rebuilds (env : Env) (db : Db) (s : Server) : Prop :=
  (∃ k q, Base db s k q) ∧ ∃ rep, Logged env.toJsonLib db s.wal.batches.flatten rep ∧
    Tracks (view s.engine.tables) rep fun n k => keyAfter n k s.changes

theorem permitted_of_sound {wl : Wal.Label} (h : s.wal.Sound k q) (hby : byWriter wl = true) : s.wal.Permitted wl := by
  cases wl with
  | append _ _ => cases hby
  | swap => exact h.fatal
  | _ => trivial

theorem keyAfter_concat (n k : Bytes) (cs : List Change) (c : Change) :
    keyAfter n k (cs ++ [c]) = keyChange n k (keyAfter n k cs) c := by
  simp [keyAfter, List.foldl_append]

theorem Rebuilds.step (h : Rebuilds env db s) (hok : Plain env feed s l)
    (hstep : Server.step env mode feed s l = some s') : Rebuilds env db s' := by
  obtain ⟨⟨k, q, hb⟩, rep, hlog, htr⟩ := h
  rcases step_cases hok.ofCheckpoint hstep with ⟨e', lock, hq⟩ | ⟨c, ts, e', lock, ha⟩ |
    ⟨wl, w, rfl, hby, hw, rfl⟩ | ⟨-, -, rfl⟩
  · refine ⟨⟨k, q, hb.quiet hq hok.clean⟩, rep, ?_⟩
    have hv := hq.view hok.clean
    rw [hq.eq]
    exact ⟨hlog, hv.symm ▸ htr⟩
  · have hacc := hok.accepts hb.sound.fatal
    obtain ⟨rep', hl, ht⟩ := htr.logs ha.logs hacc.fits
    refine ⟨⟨k, q, hb.appends ha hacc⟩, rep', ?_⟩
    rw [ha.eq]
    refine ⟨?_, ?_⟩
    · show Logged env.toJsonLib db (s.wal.appendBatchAsync _ ts).batches.flatten rep'
      rw [Wal.appendBatchAsync_batches hb.sound.fatal, List.flatten_append]
      refine hlog.append ?_
      simpa using (logged_assign s.wal.nextSequence ts).2 hl
    · simpa only [keyAfter_concat] using ht
  · obtain ⟨hbs, -⟩ := writer_frame hby hw
    rcases hb.writer hby (permitted_of_sound hb.sound hby) hw with ⟨k', q', -, -, hb'⟩ | ⟨hf, -⟩
    · refine ⟨⟨k', q', hb'⟩, rep, ?_, htr⟩
      show Logged env.toJsonLib db w.batches.flatten rep
      rw [hbs]
      exact hlog
    · have hno := hok.calm
      rw [Label.failsLog, hf] at hno
      cases hno
  · rw [hb.drainLog_eq]
    refine ⟨⟨k, q, hb.drain s.lock⟩, rep, ?_, ?_⟩
    · show Logged env.toJsonLib db (s.wal.batches ++ [[]]).flatten rep
      simpa using hlog
    · simpa only [keyAfter_concat, keyChange] using htr

theorem rebuilds_start (h : start env none = some s) : Rebuilds env (view s.engine.tables) s := by
  have hg : Good env false (view s.engine.tables) s 0 0 := good_start h
  obtain ⟨e, he, rfl⟩ := Option.map_eq_some_iff.1 h
  cases he
  refine ⟨⟨0, 0, hg.toBase⟩, _, Logged.nil _ _, fun n => rfl, fun n k => ?_, fun n k => ?_⟩
  · simp [DbOf.rowAt, view, viewBy, keyAfter]
  · simp [DbOf.rowAt, view, viewBy, keyAfter]

end Plain

/-- **The log gives the tables back exactly when its INSERTs settle.** On a fresh engine, once every call
has returned and none of them has failed, recovery rebuilds the same tables, keys and columns if and
only if every key with a row was last written what an UPDATE, or an INSERT that found no row, had left
there. -/
theorem replay_faithful_iff (env : Env) (mode : SyncMode) (feed : Bool) (s₀ s : Server) (ls : List Label)
    (clock : Nat → UInt64) (h0 : start env none = some s₀)
    (hok : Allowed (step env mode feed) (Plain env feed) s₀ ls) (hrun : run (step env mode feed) s₀ ls = some s)
    (hdone : ∀ p ∈ s.wal.promises, p ≠ none) :
    (∃ e, recovered env clock s = some e ∧ view e.tables = view s.engine.tables) ↔ InsertsSettle s.changes := by
  obtain ⟨⟨⟨k, q, hb⟩, rep, hlog, htr⟩, hfirst⟩ := run_invariant
    (fun s => Rebuilds env (view s₀.engine.tables) s ∧ First s₀ s)
    (fun _ _ _ h hl hstep => ⟨h.1.step hl hstep, h.2.step hl.ofCheckpoint hstep⟩)
    ⟨rebuilds_start h0, first_start h0⟩ hok hrun
  have hread : readAll s.wal.file = s.wal.batches.flatten := by
    obtain ⟨hun, hq⟩ := hb.idle (hb.settled hdone)
    have hc := hfirst.content hb.sound
    rw [hun, List.append_nil, hq, logTo, List.take_length] at hc
    rw [hc, readAll_magic, readRecords_recordsBytes]
    intro entry hentry
    obtain ⟨b, hbm, he⟩ := List.mem_flatten.1 hentry
    exact hb.recorded b hbm entry he
  obtain ⟨e, he, hv⟩ := view_recover_replay clock (loads_start h0) (hread ▸ hlog)
  rw [← snapText_start h0 hfirst] at he
  rw [InsertsSettle, ← htr.eq_iff]
  constructor
  · rintro ⟨e', he', hv'⟩
    rw [recovered, he] at he'
    cases he'
    rw [← hv, hv']
  · intro heq
    exact ⟨e, he, hv.trans heq⟩

/-- A write of `k` in `t` that leaves it the column `a`. -/
def writeA (op : WriteOp) (v : Int64) : WriteOperation :=
  ⟨op, str "t", { key := str "k", columns := (∅ : Columns).insert (str "a") (.int64 v) }⟩

def commitA (ws : List WriteOperation) : Label := .commit { timestamp := 1, writeSet := ws } (fun _ => 0) 0

/-- An INSERT of `k` over the row that is there, and an UPDATE that settles it. -/
def settledRun : List Label :=
  createdT ++ [commitA [writeA .insert 1]] ++ ackOne 66 ++ [commitA [writeA .insert 2, writeA .update 3]] ++ ackOne 132

theorem replay_faithful_settledRun : ∃ s e, run (step tEnv .fsync false) tStart settledRun = some s ∧
    recovered tEnv (fun _ => 0) s = some e ∧ view e.tables = view s.engine.tables := by
  have h : ((run (step tEnv .fsync false) tStart settledRun).map fun s => (s.wal.promises, decide (s.changes =
      [.create tSchema, .commit [writeA .insert 1], .commit [writeA .insert 2, writeA .update 3]]))) =
      some ([some true, some true, some true], true) := by decide +kernel
  obtain ⟨s, hrun, h⟩ := Option.map_eq_some_iff.1 h
  simp only [Prod.mk.injEq, decide_eq_true_eq] at h
  obtain ⟨hp, hchanges⟩ := h
  obtain ⟨e, he, hv⟩ := (replay_faithful_iff tEnv .fsync false tStart s settledRun (fun _ => 0) rfl (by decide +kernel) hrun
    (by rw [hp]; decide)).2 (by
      rw [hchanges]
      intro n k p hkey
      by_cases hk : str "t" = n ∧ str "k" = k
      · simp [keyAfter, keyChange, keyWrite, writeA, hk] at hkey
        rw [← hkey]
      · simp [keyAfter, keyChange, keyWrite, writeA, hk] at hkey)
  exact ⟨s, e, hrun, he, hv⟩

/-- The same without the UPDATE. -/
def overwrittenRun : List Label :=
  createdT ++ [commitA [writeA .insert 1]] ++ ackOne 66 ++ [commitA [writeA .insert 2]] ++ ackOne 66

/-- Every call returned `true`, and recovery brings the first row back. -/
theorem replay_overwrittenRun : ∃ s e, run (step tEnv .fsync false) tStart overwrittenRun = some s ∧
    start tEnv none = some tStart ∧ Allowed (step tEnv .fsync false) (Plain tEnv false) tStart overwrittenRun ∧
    s.wal.promises = [some true, some true, some true] ∧ recovered tEnv (fun _ => 0) s = some e ∧
    (view s.engine.tables).rowAt (str "t") (str "k") = some (writeA .insert 2).row.columns ∧
    (view e.tables).rowAt (str "t") (str "k") = some (writeA .insert 1).row.columns ∧
    view e.tables ≠ view s.engine.tables := by
  have h : ((run (step tEnv .fsync false) tStart overwrittenRun).bind fun s => (recovered tEnv (fun _ => 0) s).map fun e =>
      (s.wal.promises, decide ((view s.engine.tables).rowAt (str "t") (str "k") = some (writeA .insert 2).row.columns),
        decide ((view e.tables).rowAt (str "t") (str "k") = some (writeA .insert 1).row.columns))) =
      some ([some true, some true, some true], true, true) := by decide +kernel
  obtain ⟨s, hrun, h⟩ := Option.bind_eq_some_iff.1 h
  obtain ⟨e, he, h⟩ := Option.map_eq_some_iff.1 h
  simp only [Prod.mk.injEq, decide_eq_true_eq] at h
  obtain ⟨hp, hlive, hrep⟩ := h
  refine ⟨s, e, hrun, rfl, by decide, hp, he, hlive, hrep, fun hv => ?_⟩
  rw [hv, hlive] at hrep
  exact absurd hrep (by decide)

/-! ## A log cut by a crash -/

section Cut
variable {env : Env} {mode : SyncMode} {feed strict : Bool} {s s' s₀ : Server} {l : Label} {ls : List Label} {k q : Nat}
  {db : Db}

theorem Plain.ok (h : Plain env feed s l) (hf : Fresh strict s l) (hs : s.wal.Sound k q)
    (hstep : step env mode feed s l = some s') : Ok env feed strict s l := by
  refine ⟨h.clean, fun _ => hf, h.accepts, ?_⟩
  have hl := h.ofCheckpoint
  have hcalm := h.calm
  cases l with
  | writer wl =>
    refine ⟨permitted_of_sound hs (step_writer hstep).1, fun hfails => ?_⟩
    rw [Label.failsLog, hfails] at hcalm
    cases hcalm
  | commit _ _ _ | createTable _ _ | dropTable _ _ | ddlDone | flush => trivial
  | _ => cases hl

theorem good_plain_run {snap : Option Bytes} (h0 : start env snap = some s₀)
    (hok : Allowed (step env mode feed) (fun s l => Plain env feed s l ∧ Fresh strict s l) s₀ ls)
    (hrun : run (step env mode feed) s₀ ls = some s) :
    (∃ k q, Good env strict (view s₀.engine.tables) s k q) ∧ First s₀ s := by
  refine run_invariant (fun s => (∃ k q, Good env strict (view s₀.engine.tables) s k q) ∧ First s₀ s) ?_
    ⟨⟨0, 0, good_start h0⟩, first_start h0⟩ hok hrun
  rintro s l s' ⟨⟨k, q, hg⟩, hfirst⟩ ⟨hl, hf⟩ hstep
  refine ⟨?_, hfirst.step hl.ofCheckpoint hstep⟩
  rcases hg.step (hl.ok hf hg.sound hstep) hstep with ⟨k', q', -, hg'⟩ | ⟨wl, rfl, hfails, -⟩
  · exact ⟨k', q', hg'⟩
  · have hcalm := hl.calm
    rw [Label.failsLog, hfails] at hcalm
    cases hcalm

end Cut

/-- **A cut log gives whole transactions back exactly when it splits none.** Of the bytes handed to
`write()` any beginning may be left; recovery then replays the entries of whole batches, and arrives
at a prefix of the changes, if and only if the cut does not fall inside a batch behind its first
record. -/
theorem cut_whole_iff (env : Env) (mode : SyncMode) (feed : Bool) (snap : Option Bytes) (s₀ s : Server)
    (ls : List Label) (clock : Nat → UInt64) (file : Bytes) (h0 : start env snap = some s₀)
    (hok : Allowed (step env mode feed) (fun s l => Plain env feed s l ∧ Fresh false s l) s₀ ls)
    (hrun : run (step env mode feed) s₀ ls = some s) (hcut : file <+: s.wal.file ++ s.wal.unwritten) :
    (∃ j, readAll file = (s.wal.batches.take j).flatten ∧ ∃ e, recover env.toJsonLib clock snap file = some e ∧
      view e.tables = (view s₀.engine.tables).after (s.changes.take j)) ↔
    Splits s.wal.batches (file.length - 8) = false := by
  obtain ⟨⟨k, q, hg⟩, hfirst⟩ := good_plain_run h0 hok hrun
  have hwithin : file <+: kWalMagic ++ recordsBytes s.wal.batches.flatten := by
    rw [hfirst.content hg.sound] at hcut
    refine hcut.trans ((List.prefix_append_right_inj _).2 ?_)
    have hspan := Wal.span_mono (w := s.wal) (m := 0) hg.sound.taken_le
    simpa [Wal.span, logTo] using hspan
  have hrec : ∀ entry ∈ s.wal.batches.flatten, entry.Recorded := by
    intro entry hentry
    obtain ⟨b, hbm, he⟩ := List.mem_flatten.1 hentry
    exact hg.recorded b hbm entry he
  have hread := readAll_of_within hrec hwithin
  rw [← take_eq_flatten_iff, ← hread]
  constructor
  · rintro ⟨j, hj, -⟩
    exact ⟨j, hj⟩
  · rintro ⟨j, hj⟩
    have hmin : s.wal.batches.take (min j s.changes.length) = s.wal.batches.take j := by
      rw [hg.length, ← List.take_eq_take_min]
    have hlog := hg.mirrors.logged _ (Nat.min_le_right j s.changes.length)
    rw [hmin, ← hj, ← List.take_eq_take_min] at hlog
    obtain ⟨e, he, hv⟩ := view_recover_replay clock (loads_start h0) hlog
    exact ⟨j, hj, e, he, hv⟩

/-- A transaction of two rows, written and not yet acknowledged. -/
def twoRows : List Label :=
  createdT ++ [commitT [(.insert, "k"), (.insert, "j")], .writer .swap, .writer (.write 104)]

/-- Cut in the transaction's first record. -/
theorem cut_whole_firstRecord : ∃ s, run (step tEnv .fsync false) tStart twoRows = some s ∧
    ∃ j, readAll (s.wal.file.take 100) = (s.wal.batches.take j).flatten ∧
      ∃ e, recover tEnv.toJsonLib (fun _ => 0) none (s.wal.file.take 100) = some e ∧
        view e.tables = (view tStart.engine.tables).after (s.changes.take j) := by
  have h : ((run (step tEnv .fsync false) tStart twoRows).map fun s =>
      Splits s.wal.batches ((s.wal.file.take 100).length - 8)) = some false := by decide
  obtain ⟨s, hrun, hsplit⟩ := Option.map_eq_some_iff.1 h
  exact ⟨s, hrun, (cut_whole_iff tEnv .fsync false none tStart s twoRows (fun _ => 0) (s.wal.file.take 100) rfl
    (by decide) hrun ((List.take_prefix _ _).trans (List.prefix_append _ _))).2 hsplit⟩

/-- The row `k` of `t` is there and `j` is not. -/
def OnlyK (db : Db) : Prop := db.rowAt (str "t") (str "k") = some ∅ ∧ db.rowAt (str "t") (str "j") = none

instance (db : Db) : Decidable (OnlyK db) := inferInstanceAs (Decidable (_ ∧ _))

/-- Cut behind its first record, half of the transaction is recovered. -/
theorem cut_twoRows : ∃ s e, run (step tEnv .fsync false) tStart twoRows = some s ∧ start tEnv none = some tStart ∧
    Allowed (step tEnv .fsync false) (fun s l => Plain tEnv false s l ∧ Fresh false s l) tStart twoRows ∧
    recover tEnv.toJsonLib (fun _ => 0) none (s.wal.file.take 144) = some e ∧ OnlyK (view e.tables) ∧
    (∀ j, readAll (s.wal.file.take 144) ≠ (s.wal.batches.take j).flatten) ∧
    ∀ j, view e.tables ≠ (view tStart.engine.tables).after (s.changes.take j) := by
  have h : ((run (step tEnv .fsync false) tStart twoRows).bind fun s =>
      (recover tEnv.toJsonLib (fun _ => 0) none (s.wal.file.take 144)).map fun e => (decide (OnlyK (view e.tables)),
        decide (s.changes = [.create tSchema, .commit [⟨.insert, str "t", { key := str "k" }⟩,
          ⟨.insert, str "t", { key := str "j" }⟩]]), (readAll (s.wal.file.take 144)).length,
        s.wal.batches.map List.length)) = some (true, true, 2, [1, 2]) := by decide +kernel
  obtain ⟨s, hrun, h⟩ := Option.bind_eq_some_iff.1 h
  obtain ⟨e, he, h⟩ := Option.map_eq_some_iff.1 h
  simp only [Prod.mk.injEq, decide_eq_true_eq] at h
  obtain ⟨honly, hchanges, hread, hlens⟩ := h
  refine ⟨s, e, hrun, rfl, by decide, he, honly, fun j hj => ?_, fun j hj => ?_⟩
  · have hlen := congrArg List.length hj
    rw [hread, List.length_flatten, List.map_take, hlens] at hlen
    match j, hlen with
    | 0, hlen | 1, hlen => simp at hlen
    | j + 2, hlen => simp at hlen
  · rw [hj, hchanges] at honly
    match j, honly with
    | 0, honly | 1, honly => exact absurd honly (by decide)
    | j + 2, honly =>
      rw [List.take_of_length_le (by simp)] at honly
      exact absurd honly (by decide)

end Server

end OriginDB
