import OriginDB.Storage.Database
import OriginDB.Storage.WalSafety
/-!
# What an operation logs means what it did

`Commit`, `CreateTable` and `DropTable` apply an operation to the tables and log it; recovery reads the
log with another interpreter. The two agree (`Logged`) on everything but an INSERT that found its key
present: live it overwrites the row, replayed it does nothing. `InsertsFresh` is the condition that
this makes no difference.
-/
namespace OriginDB

open JsonDoc ByteCodec GuardedReplay

/-- Replaying `es` on `db` gives `db'`. -/
def Logged (J : JsonLib) (db : Db) (es : List WALEntry) (db' : Db) : Prop :=
  ∀ l, db'.cell l = GuardedReplay.replay (db.cell l) (logOps J es l)

/-- Every entry takes effect when replayed in turn on `db`. -/
def Fires (J : JsonLib) (db : Db) (es : List WALEntry) : Prop := ∀ l, Live (db.cell l) (logOps J es l)

section Compose
variable {J : JsonLib} {db db' db'' : Db} {es fs : List WALEntry}

theorem Logged.nil (J : JsonLib) (db : Db) : Logged J db [] db := fun _ => rfl

theorem Logged.append (h : Logged J db es db') (h' : Logged J db' fs db'') : Logged J db (es ++ fs) db'' := by
  intro l
  rw [logOps_append, replay_append, ← h l]
  exact h' l

theorem Fires.nil (J : JsonLib) (db : Db) : Fires J db [] := fun _ => trivial

theorem Fires.append (h : Logged J db es db') (hf : Fires J db es) (hf' : Fires J db' fs) : Fires J db (es ++ fs) := by
  intro l
  rw [logOps_append, live_append, ← h l]
  exact ⟨hf l, hf' l⟩

/-- What a log means does not depend on the numbers and times `AppendBatchAsync` gives it. -/
theorem logOps_assign (next ts : UInt64) (l : Loc) : logOps J (Wal.assign next ts es) l = logOps J es l := by
  induction es generalizing next with
  | nil => rfl
  | cons e es ih =>
    show entryOp J _ l :: logOps J _ l = _
    rw [ih]
    rfl

theorem logged_assign (next ts : UInt64) : Logged J db (Wal.assign next ts es) db' ↔ Logged J db es db' := by
  unfold Logged
  simp only [logOps_assign]

theorem fires_assign (next ts : UInt64) : Fires J db (Wal.assign next ts es) ↔ Fires J db es := by
  unfold Fires
  simp only [logOps_assign]

end Compose

/-! ## One write -/

section Write
variable {env : Env} {db : Db} {w : WriteOperation} {p : TableSchema × (Bytes → Option Columns)} {ts : UInt64}

/-- What a logged write does when it is replayed. -/
theorem entryOp_writeEntry (hfit : w.row.Fits) (l : Loc) :
    entryOp env.toJsonLib (writeEntry env ts w) l =
      if l = (w.tableName, some w.row.key) then
        (match w.op with
          | .insert => ⟨Cell.isVacant, .row w.row.columns⟩
          | .update => ⟨Cell.isRow, .row w.row.columns⟩
          | .delete => ⟨Cell.isRow, .vacant⟩)
      else .skip .absent := by
  have hd : decodeRow (writeEntry env ts w).data = some w.row.stored := decodeRow_encodeRow env.order hfit
  cases hop : w.op with
  | insert =>
    have ht : (writeEntry env ts w).type = .insert := by simp [writeEntry, hop, WriteOp.entryType]
    simp only [entryOp, ht, hd]
    rfl
  | update =>
    have ht : (writeEntry env ts w).type = .update := by simp [writeEntry, hop, WriteOp.entryType]
    simp only [entryOp, ht, hd]
    rfl
  | delete =>
    have ht : (writeEntry env ts w).type = .delete := by simp [writeEntry, hop, WriteOp.entryType]
    simp only [entryOp, ht]
    rfl

/-- An assignment that fires at its location is live everywhere. -/
theorem guard_at {n k : Bytes} {o : Assign Cell} (hg : o.guard (db.cell (n, some k)) = true) (l : Loc) :
    (if l = (n, some k) then o else .skip .absent).guard (db.cell l) = true ∨
    ∀ c, (if l = (n, some k) then o else .skip .absent).guard c = false := by
  by_cases hl : l = (n, some k)
  · subst hl
    rw [if_pos rfl]
    exact Or.inl hg
  · rw [if_neg hl]
    exact Or.inr fun _ => rfl

/-- A write whose row is there, or is not, as its operation wants. -/
theorem logged_write (env : Env) (ts : UInt64) (hfit : w.row.Fits) (hp : db w.tableName = some p)
    (hrow : (p.2 w.row.key).isSome = (w.op != .insert)) :
    Logged env.toJsonLib db [writeEntry env ts w] (db.write w) ∧ Fires env.toJsonLib db [writeEntry env ts w] := by
  have hguard : ∀ l, ((entryOp env.toJsonLib (writeEntry env ts w) l).guard (db.cell l) = true ∨
      ∀ c, (entryOp env.toJsonLib (writeEntry env ts w) l).guard c = false) ∧
      (db.write w).cell l = (entryOp env.toJsonLib (writeEntry env ts w) l).apply (db.cell l) := by
    intro l
    rw [entryOp_writeEntry hfit, DbOf.write]
    have hcell := DbOf.cell_row (k := w.row.key) hp
    cases hop : w.op with
    | insert =>
      simp only [hop, bne_self_eq_false, Option.isSome_eq_false_iff, Option.isNone_iff_eq_none] at hrow
      rw [hrow] at hcell
      exact ⟨guard_at (by rw [hcell]; rfl) l, cell_setRow_apply hp (by rw [hcell]; rfl) rfl l⟩
    | update =>
      simp only [hop] at hrow
      obtain ⟨cols, hcols⟩ := Option.isSome_iff_exists.1 (hrow.trans rfl)
      rw [hcols] at hcell
      exact ⟨guard_at (by rw [hcell]; rfl) l, cell_setRow_apply hp (by rw [hcell]; rfl) rfl l⟩
    | delete =>
      simp only [hop] at hrow
      obtain ⟨cols, hcols⟩ := Option.isSome_iff_exists.1 (hrow.trans rfl)
      rw [hcols] at hcell
      exact ⟨guard_at (by rw [hcell]; rfl) l, cell_setRow_apply hp (by rw [hcell]; rfl) rfl l⟩
  exact ⟨fun l => (hguard l).2, fun l => ⟨(hguard l).1, trivial⟩⟩

/-- An INSERT over a row that already has these columns changes nothing, live or replayed. -/
theorem logged_insert_same (hfit : w.row.Fits) (hp : db w.tableName = some p) (hop : w.op = .insert)
    (hsame : p.2 w.row.key = some w.row.columns) : Logged env.toJsonLib db [writeEntry env ts w] (db.write w) := by
  have hcell : db.cell (w.tableName, some w.row.key) = .row w.row.columns := by
    rw [DbOf.cell_row hp, hsame]
  intro l
  show _ = (entryOp env.toJsonLib (writeEntry env ts w) l).apply (db.cell l)
  rw [entryOp_writeEntry hfit, hop, apply_of_not_guard (by rw [hcell]; rfl), DbOf.write, DbOf.cell_setRow hp]
  by_cases hl : l = (w.tableName, some w.row.key)
  · subst hl
    rw [if_pos rfl, hcell, if_neg (by simp [hop])]
  · rw [if_neg hl]

end Write

/-! ## A write set -/

/-- Each INSERT finds its key absent, or (unless `strict`) a row that already has its columns. -/
def InsertsFresh (strict : Bool) : Db → List WriteOperation → Prop
  | _, [] => True
  | db, w :: ws =>
    (w.op = .insert → db.rowAt w.tableName w.row.key = none ∨
      (strict = false ∧ db.rowAt w.tableName w.row.key = some w.row.columns)) ∧
    InsertsFresh strict (db.write w) ws

instance InsertsFresh.decidable (strict : Bool) : ∀ (db : Db) (ws : List WriteOperation),
    Decidable (InsertsFresh strict db ws)
  | _, [] => isTrue trivial
  | db, w :: ws =>
    have := InsertsFresh.decidable strict (db.write w) ws
    inferInstanceAs (Decidable (_ ∧ _))

theorem logged_applyWrite {env : Env} (ts : UInt64) {e e' : Engine} {w : WriteOperation} {now : UInt64}
    {old : Option Row} {strict : Bool} (h : applyWrite e w now = some (e', old)) (hfit : w.row.Fits)
    (hins : w.op = .insert → (view e.tables).rowAt w.tableName w.row.key = none ∨
      (strict = false ∧ (view e.tables).rowAt w.tableName w.row.key = some w.row.columns)) :
    Logged env.toJsonLib (view e.tables) [writeEntry env ts w] (view e'.tables) ∧
      (strict = true → Fires env.toJsonLib (view e.tables) [writeEntry env ts w]) := by
  rw [view_applyWrite h]
  obtain ⟨t, t', ht, -, -, hcase⟩ := applyWrite_eq_some h
  have hp := view_eq_some ht
  have hrow : (view e.tables).rowAt w.tableName w.row.key = t.rows[w.row.key]?.map Row.columns := by
    rw [DbOf.rowAt, hp]
    rfl
  rw [hrow] at hins
  by_cases hop : w.op = .insert
  · rcases hins hop with hnone | ⟨hs, hsame⟩
    · obtain ⟨hl, hf⟩ := logged_write env ts hfit hp (by
        show (t.rows[w.row.key]?.map Row.columns).isSome = _
        rw [hnone, hop]
        rfl)
      exact ⟨hl, fun _ => hf⟩
    · exact ⟨logged_insert_same hfit hp hop hsame, fun ht => by rw [hs] at ht; cases ht⟩
  · have hsome : (t.rows[w.row.key]?.map Row.columns).isSome = true := by
      rw [Option.isSome_map]
      rcases hcase with ⟨h', -⟩ | ⟨-, -, r, hr, -⟩ | ⟨-, hr, -⟩
      · exact absurd h' hop
      · rw [hr]
        rfl
      · exact hr
    obtain ⟨hl, hf⟩ := logged_write env ts hfit hp (hsome.trans (by simp [hop]))
    exact ⟨hl, fun _ => hf⟩

/-- **What `Commit` logs means what it did**, as long as its INSERTs are fresh. -/
theorem logged_applyWrites {env : Env} {feed : Bool} {ts : UInt64} {clock : Nat → UInt64} {i : Nat} {e e' : Engine}
    {ws : List WriteOperation} {entries : List WALEntry} {events : List ChangefeedEvent} {strict : Bool}
    (h : applyWrites env feed ts clock i e ws = .done e' entries events) (hfit : ∀ w ∈ ws, w.row.Fits)
    (hins : InsertsFresh strict (view e.tables) ws) :
    Logged env.toJsonLib (view e.tables) entries (view e'.tables) ∧
      (strict = true → Fires env.toJsonLib (view e.tables) entries) := by
  induction ws generalizing e i entries events with
  | nil =>
    simp only [applyWrites, Applied.done.injEq] at h
    obtain ⟨rfl, rfl, rfl⟩ := h
    exact ⟨Logged.nil _ _, fun _ => Fires.nil _ _⟩
  | cons w ws ih =>
    simp only [applyWrites] at h
    split at h
    · cases h
    · rename_i e₁ old hw
      split at h
      · cases h
      · split at h
        · rename_i hrest
          cases h
          obtain ⟨hone, hfire⟩ := logged_applyWrite ts hw (hfit w (by simp)) hins.1
          have htail : InsertsFresh strict (view e₁.tables) ws := by
            rw [view_applyWrite hw]
            exact hins.2
          obtain ⟨hl, hf⟩ := ih hrest (fun w' hw' => hfit w' (by simp [hw'])) htail
          exact ⟨hone.append hl, fun hs => (hfire hs).append hone (hf hs)⟩
        · cases h
        · cases h

/-- A record that fits its length prefix holds a row that fits the codec. -/
theorem fits_of_writeEntry {env : Env} {ts : UInt64} {w : WriteOperation}
    (h : (recordBytes (writeEntry env ts w)).length < 2 ^ 32) : w.row.Fits := by
  rw [length_recordBytes] at h
  refine Row.fits_of_length env.order ?_
  have : (writeEntry env ts w).data.length = (encodeRow env.order w.row).length := rfl
  omega

/-! ## Tables -/

theorem logged_create {J : JsonLib} {db : Db} {s : TableSchema} {data : Bytes} (hnone : db s.name = none)
    (hdata : deserializeSchema J data = some s) :
    Logged J db [{ type := .createTable, tableName := s.name, data := data }] (db.create s) ∧
      Fires J db [{ type := .createTable, tableName := s.name, data := data }] := by
  have hop : ∀ l, entryOp J { type := .createTable, tableName := s.name, data := data } l =
      if l.1 = s.name then ⟨Cell.isAbsent, Cell.fresh s l.2⟩ else .skip .absent := by
    intro l
    simp only [entryOp, hdata]
  refine ⟨fun l => ?_, fun l => ⟨?_, trivial⟩⟩
  · show _ = (entryOp J _ l).apply (db.cell l)
    rw [hop, DbOf.cell_create s l hnone]
    by_cases hl : l.1 = s.name
    · obtain ⟨m, o⟩ := l
      simp only at hl
      subst hl
      rw [if_pos rfl, if_pos rfl, Assign.apply_pos (by rw [DbOf.cell_of_none hnone]; rfl)]
    · rw [if_neg hl, if_neg hl]
      rfl
  · show (entryOp J _ l).guard _ = true ∨ ∀ c, (entryOp J _ l).guard c = false
    rw [hop]
    by_cases hl : l.1 = s.name
    · obtain ⟨m, o⟩ := l
      simp only at hl
      subst hl
      left
      rw [if_pos rfl, DbOf.cell_of_none hnone]
      rfl
    · right
      rw [if_neg hl]
      exact fun _ => rfl

theorem logged_drop {J : JsonLib} {db : Db} {n : Bytes} (hsome : (db n).isSome) :
    Logged J db [{ type := .dropTable, tableName := n }] (db.drop n) ∧
      Fires J db [{ type := .dropTable, tableName := n }] := by
  obtain ⟨p, hp⟩ := Option.isSome_iff_exists.1 hsome
  have hop : ∀ l, entryOp J { type := .dropTable, tableName := n } l =
      if l.1 = n then ⟨fun c => !c.isAbsent, .absent⟩ else .skip .absent := fun _ => rfl
  have hcell : ∀ o, (db.cell (n, o)).isAbsent = false := by
    intro o
    cases o with
    | none => simp [DbOf.cell, hp, Cell.isAbsent]
    | some k =>
      rw [DbOf.cell_row hp]
      split <;> rfl
  refine ⟨fun l => ?_, fun l => ⟨?_, trivial⟩⟩
  · show _ = (entryOp J _ l).apply (db.cell l)
    rw [hop, DbOf.cell_drop]
    by_cases hl : l.1 = n
    · obtain ⟨m, o⟩ := l
      simp only at hl
      subst hl
      rw [if_pos rfl, if_pos rfl, Assign.apply_pos (by simp [hcell])]
    · rw [if_neg hl, if_neg hl]
      rfl
  · show (entryOp J _ l).guard _ = true ∨ ∀ c, (entryOp J _ l).guard c = false
    rw [hop]
    by_cases hl : l.1 = n
    · obtain ⟨m, o⟩ := l
      simp only at hl
      subst hl
      left
      rw [if_pos rfl]
      simp [hcell]
    · right
      rw [if_neg hl]
      exact fun _ => rfl

end OriginDB
