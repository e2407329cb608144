import OriginDB.Lib.GuardedReplay
import OriginDB.Storage.Engine
/-!
# What the engine is for

The abstract database: named tables, each a schema and a map from keys to columns, and what a change
means to it. The engine's tables refine it through `view`. The second half looks at one location (a
table, or a key in a table) at a time: there a replayed WAL entry is a guarded assignment, so replaying
a log is `GuardedReplay.replay` and a log of writes that all took effect is `GuardedReplay.Live`.

| entry | replayed at its location when | leaves |
| --- | --- | --- |
| `CREATE_TABLE` | the table is absent | the schema, and every key vacant |
| `DROP_TABLE`   | the table is there  | nothing |
| `INSERT`       | the key is vacant   | the row |
| `UPDATE`       | the key has a row   | the row |
| `DELETE`       | the key has a row   | the key vacant |

The live `Commit` differs in one place: its INSERT overwrites a row that is there.
-/
namespace OriginDB

open JsonDoc ByteCodec GuardedReplay

/-- What is logged as one batch; `barrier` is the empty batch of `Drain`. -/
inductive Change where
  | create (schema : TableSchema)
  | drop (name : Bytes)
  | commit (writes : List WriteOperation)
  | barrier
deriving DecidableEq

namespace DbOf

variable {α : Type}

def create (s : TableSchema) (db : DbOf α) : DbOf α := fun n =>
  if n = s.name then some ((db n).getD (s, fun _ => none)) else db n

def drop (name : Bytes) (db : DbOf α) : DbOf α := fun n => if n = name then none else db n

def setRow (name key : Bytes) (r : Option α) (db : DbOf α) : DbOf α := fun n =>
  if n = name then (db n).map fun p => (p.1, fun k => if k = key then r else p.2 k) else db n

/-- A write that takes effect; an INSERT overwrites. -/
def write (w : WriteOperation) (db : Db) : Db :=
  db.setRow w.tableName w.row.key (if w.op = .delete then none else some w.row.columns)

def act (db : Db) : Change → Db
  | .create s => db.create s
  | .drop n => db.drop n
  | .commit ws => ws.foldl (fun db w => db.write w) db
  | .barrier => db

/-- The database after a list of changes. -/
def after (db : Db) (cs : List Change) : Db := cs.foldl act db

@[simp] theorem after_nil (db : Db) : db.after [] = db := rfl

theorem after_concat (db : Db) (cs : List Change) (c : Change) : db.after (cs ++ [c]) = (db.after cs).act c := by
  simp [after, List.foldl_append]

/-- The columns at a key. -/
def rowAt (db : Db) (n k : Bytes) : Option Columns := (db n).bind fun p => p.2 k

end DbOf

/-! ## The engine refines it -/

section Refine
variable {e e' : Engine}

/-- Replacing one table's rows at one key. -/
theorem viewBy_insert_table {α : Type} (f : Row → α) {T : Tables} {n k : Bytes} {t t' : MemTable} {r : Option Row}
    (ht : T[n]? = some t) (hs : t'.schema = t.schema) (hr : ∀ j : Bytes, t'.rows[j]? = if k = j then r else t.rows[j]?) :
    viewBy f (T.insert n t') = (viewBy f T).setRow n k (r.map f) := by
  funext m
  rw [viewBy, OrdMap.getElem?_insert, DbOf.setRow]
  by_cases hm : n = m
  · subst hm
    rw [if_pos rfl, if_pos rfl, viewBy_eq_some ht, Option.map_some, Option.map_some, hs]
    refine congrArg (fun g => some (t.schema, g)) (funext fun j => ?_)
    rw [hr j]
    by_cases hj : k = j
    · rw [if_pos hj, if_pos hj.symm]
    · rw [if_neg hj, if_neg (Ne.symm hj)]
  · rw [if_neg hm, if_neg (Ne.symm hm)]
    rfl

theorem viewBy_insert_new {α : Type} (f : Row → α) {T : Tables} {s : TableSchema} (h : T[s.name]? = none) :
    viewBy f (T.insert s.name { schema := s }) = (viewBy f T).create s := by
  funext m
  rw [viewBy, OrdMap.getElem?_insert, DbOf.create]
  by_cases hm : s.name = m
  · subst hm
    rw [if_pos rfl, if_pos rfl, viewBy_eq_none h]
    refine congrArg (fun g => some (s, g)) (funext fun j => ?_)
    simp
  · rw [if_neg hm, if_neg (Ne.symm hm)]
    rfl

theorem viewBy_insert_same {α : Type} (f : Row → α) {T : Tables} {n : Bytes} {t : MemTable} (h : T[n]? = some t) :
    viewBy f (T.insert n t) = viewBy f T := by
  funext m
  rw [viewBy, viewBy, OrdMap.getElem?_insert]
  by_cases hm : n = m
  · rw [if_pos hm, ← hm, h]
  · rw [if_neg hm]

theorem viewBy_erase {α : Type} (f : Row → α) (T : Tables) (n : Bytes) :
    viewBy f (T.erase n) = (viewBy f T).drop n := by
  funext m
  rw [viewBy, OrdMap.getElem?_erase, DbOf.drop]
  by_cases hm : n = m
  · rw [if_pos hm, if_pos hm.symm]
    rfl
  · rw [if_neg hm, if_neg (Ne.symm hm)]
    rfl

theorem view_insert_table {T : Tables} {n k : Bytes} {t t' : MemTable} {r : Option Row} (ht : T[n]? = some t)
    (hs : t'.schema = t.schema) (hr : ∀ j : Bytes, t'.rows[j]? = if k = j then r else t.rows[j]?) :
    view (T.insert n t') = (view T).setRow n k (r.map Row.columns) := viewBy_insert_table _ ht hs hr

theorem view_insert_new {T : Tables} {s : TableSchema} (h : T[s.name]? = none) :
    view (T.insert s.name { schema := s }) = (view T).create s := viewBy_insert_new _ h

theorem view_insert_same {T : Tables} {n : Bytes} {t : MemTable} (h : T[n]? = some t) :
    view (T.insert n t) = view T := viewBy_insert_same _ h

theorem view_applyWrite {w : WriteOperation} {now : UInt64} {old : Option Row}
    (h : applyWrite e w now = some (e', old)) : view e'.tables = (view e.tables).write w := by
  obtain ⟨t, t', ht, htabs, hs, hcase⟩ := applyWrite_eq_some h
  rw [htabs, DbOf.write]
  rcases hcase with ⟨hop, -, hr, -⟩ | ⟨hop, -, r, -, hr⟩ | ⟨hop, -, hr, -⟩
  · rw [if_neg (by simp [hop]), ← Option.map_some (f := Row.columns)]
    exact view_insert_table ht hs fun j => by rw [hr, OrdMap.getElem?_insert]
  · have hcols : some w.row.columns =
        (some { w.row with version := r.version + 1, timestamp := now }).map Row.columns := rfl
    rw [if_neg hop, hcols]
    exact view_insert_table ht hs fun j => by rw [hr, OrdMap.getElem?_insert]
  · rw [if_pos hop, ← Option.map_none (f := Row.columns)]
    exact view_insert_table ht hs fun j => by rw [hr, OrdMap.getElem?_erase]

theorem view_applyWrites {env : Env} {feed : Bool} {ts : UInt64} {clock : Nat → UInt64} {i : Nat}
    {ws : List WriteOperation} {entries : List WALEntry} {events : List ChangefeedEvent}
    (h : applyWrites env feed ts clock i e ws = .done e' entries events) :
    view e'.tables = (view e.tables).act (.commit ws) ∧ entries = ws.map (writeEntry env ts) := by
  induction ws generalizing e i entries events with
  | nil =>
    simp only [applyWrites, Applied.done.injEq] at h
    obtain ⟨rfl, rfl, rfl⟩ := h
    exact ⟨rfl, rfl⟩
  | cons w ws ih =>
    simp only [applyWrites] at h
    split at h
    · cases h
    · rename_i e₁ old hw
      split at h
      · cases h
      · split at h
        · rename_i hrest
          cases h
          obtain ⟨hv, he⟩ := ih hrest
          rw [view_applyWrite hw] at hv
          exact ⟨hv, by rw [he, List.map_cons]⟩
        · cases h
        · cases h

theorem view_createTable {J : JsonLib} {s : TableSchema} {entry : WALEntry} (h : createTable J e s = .logged e' entry) :
    view e'.tables = (view e.tables).create s ∧ view e.tables s.name = none ∧ serializeSchema J s = some entry.data ∧
      entry = { type := .createTable, tableName := s.name, data := entry.data } := by
  unfold createTable at h
  split at h
  · cases h
  · rename_i hex
    simp only at h
    split at h
    · cases h
    · rename_i data hd
      cases h
      have hnone : e.tables[s.name]? = none := by simpa using hex
      exact ⟨view_insert_new hnone, view_eq_none hnone, hd, rfl⟩

theorem view_dropTable {name : Bytes} {entry : WALEntry} (h : dropTable e name = some (e', entry)) :
    view e'.tables = (view e.tables).drop name ∧ (view e.tables name).isSome ∧
      entry = { type := .dropTable, tableName := name } := by
  unfold dropTable at h
  split at h
  · cases h
  · rename_i t ht
    cases h
    exact ⟨viewBy_erase _ _ _, by rw [view_eq_some ht]; rfl, rfl⟩

end Refine

/-! ## One location at a time -/

/-- A table (`none`), or a key of it. -/
abbrev Loc := Bytes × Option Bytes

inductive Cell where
  | absent
  | table (schema : TableSchema)
  | vacant
  | row (cols : Columns)

namespace Cell

def isAbsent : Cell → Bool
  | .absent => true
  | _ => false

def isVacant : Cell → Bool
  | .vacant => true
  | _ => false

def isRow : Cell → Bool
  | .row _ => true
  | _ => false

/-- What a location of a newly created table holds. -/
def fresh (s : TableSchema) : Option Bytes → Cell
  | none => .table s
  | some _ => .vacant

theorem isAbsent_iff {c : Cell} : c.isAbsent = true ↔ c = .absent := by
  cases c <;> simp [isAbsent]

end Cell

namespace DbOf

def cell (db : Db) (l : Loc) : Cell :=
  match db l.1, l.2 with
  | none, _ => .absent
  | some p, none => .table p.1
  | some p, some k => match p.2 k with
    | none => .vacant
    | some cols => .row cols

section
variable {db db' : Db}

/-- The locations together are the database. -/
theorem ext_cell (h : ∀ l, db.cell l = db'.cell l) : db = db' := by
  funext n
  have hn := h (n, none)
  have hk := fun k => h (n, some k)
  simp only [cell] at hn hk
  cases h1 : db n with
  | none =>
    cases h2 : db' n with
    | none => rfl
    | some p => simp [h1, h2] at hn
  | some p =>
    cases h2 : db' n with
    | none => simp [h1, h2] at hn
    | some p' =>
      simp only [h1, h2, Cell.table.injEq] at hn hk
      refine congrArg some (Prod.ext hn (funext fun k => ?_))
      have := hk k
      cases hp : p.2 k <;> cases hp' : p'.2 k <;> simp_all

theorem cell_of_none {n : Bytes} (h : db n = none) (o : Option Bytes) : db.cell (n, o) = .absent := by
  simp [cell, h]

theorem cell_congr {l : Loc} (h : db l.1 = db' l.1) : db.cell l = db'.cell l := by
  simp only [cell, h]

theorem cell_create (s : TableSchema) (l : Loc) (h : db s.name = none) :
    (db.create s).cell l =
      if l.1 = s.name then Cell.fresh s l.2 else db.cell l := by
  obtain ⟨m, o⟩ := l
  by_cases hm : m = s.name
  · subst hm
    cases o <;> simp [cell, DbOf.create, h, Cell.fresh]
  · rw [if_neg hm]
    exact cell_congr (by simp [DbOf.create, hm])

theorem cell_drop (n : Bytes) (l : Loc) : (db.drop n).cell l = if l.1 = n then .absent else db.cell l := by
  obtain ⟨m, o⟩ := l
  by_cases hm : m = n
  · subst hm
    rw [if_pos rfl]
    exact cell_of_none (by simp [DbOf.drop]) o
  · rw [if_neg hm]
    exact cell_congr (by simp [DbOf.drop, hm])

theorem cell_setRow {n k : Bytes} {p : TableSchema × (Bytes → Option Columns)} (h : db n = some p)
    (cols : Option Columns) (l : Loc) :
    (db.setRow n k cols).cell l =
      if l = (n, some k) then (match cols with | none => .vacant | some c => .row c) else db.cell l := by
  obtain ⟨m, o⟩ := l
  by_cases hm : m = n
  · subst hm
    cases o with
    | none => simp [cell, DbOf.setRow, h]
    | some j =>
      by_cases hj : j = k
      · subst hj
        simp [cell, DbOf.setRow, h]
      · simp [cell, DbOf.setRow, h, hj]
  · rw [if_neg (by simp [hm])]
    exact cell_congr (by simp [DbOf.setRow, hm])

theorem cell_row {n k : Bytes} {p : TableSchema × (Bytes → Option Columns)} (h : db n = some p) :
    db.cell (n, some k) = match p.2 k with | none => .vacant | some c => .row c := by
  simp only [cell, h]

end

end DbOf

/-! ## Replaying an entry at a location -/

/-- What replaying an entry does at a location. -/
def entryOp (J : JsonLib) (entry : WALEntry) (l : Loc) : Assign Cell :=
  match entry.type with
  | .createTable =>
    match deserializeSchema J entry.data with
    | none => .skip .absent
    | some s => if l.1 = s.name then ⟨Cell.isAbsent, Cell.fresh s l.2⟩ else .skip .absent
  | .dropTable => if l.1 = entry.tableName then ⟨fun c => !c.isAbsent, .absent⟩ else .skip .absent
  | .insert =>
    match decodeRow entry.data with
    | none => .skip .absent
    | some row => if l = (entry.tableName, some row.key) then ⟨Cell.isVacant, .row row.columns⟩ else .skip .absent
  | .update =>
    match decodeRow entry.data with
    | none => .skip .absent
    | some row => if l = (entry.tableName, some entry.key) then ⟨Cell.isRow, .row row.columns⟩ else .skip .absent
  | .delete => if l = (entry.tableName, some entry.key) then ⟨Cell.isRow, .vacant⟩ else .skip .absent
  | _ => .skip .absent

section Replay
variable {J : JsonLib} {now : UInt64} {e : Engine} {entry : WALEntry}

/-- Replaying a CREATE_TABLE, seen from one location. -/
theorem cell_replay_create (h : entry.type = .createTable) (l : Loc) :
    (view (replayEntry J now e entry).tables).cell l = (entryOp J entry l).apply ((view e.tables).cell l) := by
  simp only [replayEntry, entryOp, h]
  cases deserializeSchema J entry.data with
  | none => rfl
  | some s =>
    simp only
    by_cases hex : e.tables[s.name]?.isSome
    · obtain ⟨t, ht⟩ := Option.isSome_iff_exists.1 hex
      rw [if_pos hex]
      by_cases hl : l.1 = s.name
      · -- the table is there, so the guard fails wherever we look
        have hcell : ((view e.tables).cell l).isAbsent = false := by
          obtain ⟨m, o⟩ := l
          simp only at hl
          subst hl
          cases o with
          | none => simp [DbOf.cell, view_eq_some ht, Cell.isAbsent]
          | some k =>
            rw [DbOf.cell_row (view_eq_some ht)]
            split <;> rfl
        rw [if_pos hl]
        exact (Assign.apply_neg hcell).symm
      · rw [if_neg hl]
        rfl
    · have hnone : e.tables[s.name]? = none := by simpa using hex
      have hview : view e.tables s.name = none := view_eq_none hnone
      rw [if_neg hex, view_insert_new hnone, DbOf.cell_create s l hview]
      by_cases hl : l.1 = s.name
      · obtain ⟨m, o⟩ := l
        simp only at hl
        subst hl
        rw [if_pos rfl, if_pos rfl, Assign.apply, DbOf.cell_of_none hview]
        rfl
      · rw [if_neg hl, if_neg hl]
        rfl

theorem cell_replay_drop (h : entry.type = .dropTable) (l : Loc) :
    (view (replayEntry J now e entry).tables).cell l = (entryOp J entry l).apply ((view e.tables).cell l) := by
  simp only [replayEntry, entryOp, h]
  cases hd : dropTable e entry.tableName with
  | none =>
    have hnone : e.tables[entry.tableName]? = none := by
      unfold dropTable at hd
      split at hd
      · assumption
      · cases hd
    by_cases hl : l.1 = entry.tableName
    · have hcell : (view e.tables).cell l = .absent := by
        obtain ⟨m, o⟩ := l
        simp only at hl
        subst hl
        exact DbOf.cell_of_none (view_eq_none hnone) o
      rw [if_pos hl, Assign.apply, hcell]
      rfl
    · rw [if_neg hl]
      rfl
  | some pr =>
    obtain ⟨e', entry'⟩ := pr
    obtain ⟨hv, hsome, -⟩ := view_dropTable hd
    simp only [Engine.countTable, hv, DbOf.cell_drop]
    by_cases hl : l.1 = entry.tableName
    · rw [if_pos hl, if_pos hl]
      by_cases hc : ((view e.tables).cell l).isAbsent = true
      · rw [Assign.apply_neg (by simp [hc]), Cell.isAbsent_iff.1 hc]
      · rw [Assign.apply_pos (by simpa using hc)]
    · rw [if_neg hl, if_neg hl]
      rfl

/-- Changing one key of a table that is there, seen from one location. -/
theorem cell_setRow_apply {db : Db} {n k : Bytes} {p : TableSchema × (Bytes → Option Columns)} (hn : db n = some p)
    {cols : Option Columns} {o : Assign Cell} (hg : o.guard (db.cell (n, some k)) = true)
    (ht : o.target = match cols with | none => Cell.vacant | some c => Cell.row c) (l : Loc) :
    (db.setRow n k cols).cell l = (if l = (n, some k) then o else .skip .absent).apply (db.cell l) := by
  rw [DbOf.cell_setRow hn]
  by_cases hl : l = (n, some k)
  · subst hl
    rw [if_pos rfl, if_pos rfl, Assign.apply_pos hg, ht]
  · rw [if_neg hl, if_neg hl]
    rfl

/-- An assignment that does not fire at its location does nothing anywhere. -/
theorem apply_of_not_guard {db : Db} {n k : Bytes} {o : Assign Cell} (hg : o.guard (db.cell (n, some k)) = false)
    (l : Loc) : (if l = (n, some k) then o else .skip .absent).apply (db.cell l) = db.cell l := by
  by_cases hl : l = (n, some k)
  · subst hl
    rw [if_pos rfl, Assign.apply_neg hg]
  · rw [if_neg hl]
    rfl

theorem cell_row_of_none {T : Tables} {n k : Bytes} {t : MemTable} (ht : T[n]? = some t) (hr : t.rows[k]? = none) :
    (view T).cell (n, some k) = .vacant := by
  simp only [DbOf.cell, view_eq_some ht, hr, Option.map_none]

theorem cell_row_of_some {T : Tables} {n k : Bytes} {t : MemTable} {r : Row} (ht : T[n]? = some t)
    (hr : t.rows[k]? = some r) : (view T).cell (n, some k) = .row r.columns := by
  simp only [DbOf.cell, view_eq_some ht, hr, Option.map_some]

theorem cell_of_no_table {T : Tables} {n : Bytes} (h : T[n]? = none) (o : Option Bytes) :
    (view T).cell (n, o) = .absent :=
  DbOf.cell_of_none (view_eq_none h) o

theorem cell_replay_insert (h : entry.type = .insert) (l : Loc) :
    (view (replayEntry J now e entry).tables).cell l = (entryOp J entry l).apply ((view e.tables).cell l) := by
  simp only [replayEntry, entryOp, h]
  cases hd : decodeRow entry.data with
  | none => cases e.tables[entry.tableName]? <;> rfl
  | some row =>
    cases ht : e.tables[entry.tableName]? with
    | none => exact (apply_of_not_guard (by rw [cell_of_no_table ht]; rfl) l).symm
    | some t =>
      simp only
      cases hi : t.insert row with
      | none =>
        obtain ⟨r, hr⟩ := Option.isSome_iff_exists.1 (MemTable.insert_eq_none.1 hi)
        rw [Option.getD_none, view_insert_same ht]
        exact (apply_of_not_guard (by rw [cell_row_of_some ht hr]; rfl) l).symm
      | some t' =>
        obtain ⟨hnone, hs, hr⟩ := MemTable.insert_eq_some hi
        rw [Option.getD_some, view_insert_table (r := some row) ht hs fun j => by rw [hr, OrdMap.getElem?_insert]]
        exact cell_setRow_apply (view_eq_some ht) (by rw [cell_row_of_none ht hnone]; rfl) rfl l

theorem cell_replay_update (h : entry.type = .update) (l : Loc) :
    (view (replayEntry J now e entry).tables).cell l = (entryOp J entry l).apply ((view e.tables).cell l) := by
  simp only [replayEntry, entryOp, h]
  cases hd : decodeRow entry.data with
  | none => cases e.tables[entry.tableName]? <;> rfl
  | some row =>
    cases ht : e.tables[entry.tableName]? with
    | none => exact (apply_of_not_guard (by rw [cell_of_no_table ht]; rfl) l).symm
    | some t =>
      simp only
      cases hi : t.update entry.key row now with
      | none =>
        rw [Option.getD_none, view_insert_same ht]
        exact (apply_of_not_guard (by rw [cell_row_of_none ht (MemTable.update_eq_none.1 hi)]; rfl) l).symm
      | some t' =>
        obtain ⟨r, hold, hs, hr⟩ := MemTable.update_eq_some hi
        rw [Option.getD_some, view_insert_table (r := some _) ht hs fun j => by rw [hr, OrdMap.getElem?_insert]]
        exact cell_setRow_apply (view_eq_some ht) (by rw [cell_row_of_some ht hold]; rfl) rfl l

theorem cell_replay_delete (h : entry.type = .delete) (l : Loc) :
    (view (replayEntry J now e entry).tables).cell l = (entryOp J entry l).apply ((view e.tables).cell l) := by
  simp only [replayEntry, entryOp, h]
  cases ht : e.tables[entry.tableName]? with
  | none => exact (apply_of_not_guard (by rw [cell_of_no_table ht]; rfl) l).symm
  | some t =>
    simp only
    cases hi : t.delete entry.key with
    | none =>
      rw [Option.getD_none, view_insert_same ht]
      exact (apply_of_not_guard (by rw [cell_row_of_none ht (MemTable.delete_eq_none.1 hi)]; rfl) l).symm
    | some t' =>
      obtain ⟨hsome, hs, hr⟩ := MemTable.delete_eq_some hi
      obtain ⟨r, hold⟩ := Option.isSome_iff_exists.1 hsome
      rw [Option.getD_some, view_insert_table (r := none) ht hs fun j => by rw [hr, OrdMap.getElem?_erase]]
      exact cell_setRow_apply (view_eq_some ht) (by rw [cell_row_of_some ht hold]; rfl) rfl l

/-- **A replayed entry is a guarded assignment** at every location. -/
theorem cell_replayEntry (J : JsonLib) (now : UInt64) (e : Engine) (entry : WALEntry) (l : Loc) :
    (view (replayEntry J now e entry).tables).cell l = (entryOp J entry l).apply ((view e.tables).cell l) := by
  cases h : entry.type with
  | createTable => exact cell_replay_create h l
  | dropTable => exact cell_replay_drop h l
  | insert => exact cell_replay_insert h l
  | update => exact cell_replay_update h l
  | delete => exact cell_replay_delete h l
  | _ => simp [replayEntry, entryOp, h]

/-- What a list of entries does at a location. -/
def logOps (J : JsonLib) (entries : List WALEntry) (l : Loc) : List (Assign Cell) := entries.map (entryOp J · l)

theorem logOps_append (J : JsonLib) (es fs : List WALEntry) (l : Loc) :
    logOps J (es ++ fs) l = logOps J es l ++ logOps J fs l := List.map_append

theorem cell_replay (J : JsonLib) (clock : Nat → UInt64) (i : Nat) (e : Engine) (entries : List WALEntry) (l : Loc) :
    (view (replay J clock i e entries).tables).cell l =
      GuardedReplay.replay ((view e.tables).cell l) (logOps J entries l) := by
  induction entries generalizing i e with
  | nil => rfl
  | cons entry entries ih =>
    rw [replay, ih, cell_replayEntry]
    rfl

end Replay

end OriginDB
