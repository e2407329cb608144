import OriginDB.Storage.CrashSafety
import OriginDB.Storage.Recovery
/-!
# What `stats_` says about the tables (`storage_engine.cpp:188-270`, `:347-374`, `:471-548`)

`total_tables` and `total_rows` are adjusted beside every operation on the tables. While the server runs they follow the
tables, but for a `CreateTable` that throws when the table is already in place. Recovery counts every INSERT and DELETE
of the log, whether or not it has an effect on the tables it meets; so after it the rows are miscounted by the
difference (`excess_replay`).
-/
namespace OriginDB

open JsonDoc ByteCodec Machine Lists

namespace Engine

/-- The counters are the number of tables and of their rows. -/
def Agrees (e : Engine) : Prop :=
  e.stats.totalTables = UInt64.ofNat e.tables.size ∧ e.stats.totalRows = UInt64.ofNat (rowTotal e.tables)

instance (e : Engine) : Decidable e.Agrees := inferInstanceAs (Decidable (_ ∧ _))

/-- What `total_tables` has too many. -/
def excessTables (e : Engine) : UInt64 := e.stats.totalTables - UInt64.ofNat e.tables.size

/-- What `total_rows` has too many. -/
def excessRows (e : Engine) : UInt64 := e.stats.totalRows - UInt64.ofNat (rowTotal e.tables)

theorem agrees_iff {e : Engine} : e.Agrees ↔ e.excessTables = 0 ∧ e.excessRows = 0 := by
  unfold Agrees excessTables excessRows
  grind

/-- The counters are as far off as before. -/
def SameExcess (e e' : Engine) : Prop := e'.excessTables = e.excessTables ∧ e'.excessRows = e.excessRows

theorem SameExcess.refl (e : Engine) : SameExcess e e := ⟨rfl, rfl⟩

theorem SameExcess.trans {e e' e'' : Engine} (h : SameExcess e e') (h' : SameExcess e' e'') : SameExcess e e'' :=
  ⟨h'.1.trans h.1, h'.2.trans h.2⟩

theorem SameExcess.agrees_iff {e e' : Engine} (h : SameExcess e e') : e'.Agrees ↔ e.Agrees := by
  rw [Engine.agrees_iff, Engine.agrees_iff, h.1, h.2]

end Engine

open Engine

theorem rowTotal_insert_of_none {T : Tables} {n : Bytes} (h : T[n]? = none) (t : MemTable) :
    rowTotal (T.insert n t) = rowTotal T + t.rows.size := by
  have hperm := ((OrdMap.toList_insert_perm (m := T) (k := n) t).map fun p => p.2.rows.size).sum_nat
  rw [OrdMap.erase_of_none h, List.map_cons, List.sum_cons] at hperm
  rw [rowTotal, hperm, Nat.add_comm]
  rfl

theorem rowTotal_erase {T : Tables} {n : Bytes} {t : MemTable} (h : T[n]? = some t) :
    rowTotal (T.erase n) + t.rows.size = rowTotal T := by
  have hperm := ((OrdMap.toList_perm_erase h).map fun p => p.2.rows.size).sum_nat
  rw [List.map_cons, List.sum_cons] at hperm
  rw [rowTotal, rowTotal, hperm, Nat.add_comm]

/-! ## The three calls -/

section
variable {e e' : Engine}

/-- A table is put in the place of another, and the rows are counted anew. -/
theorem excess_replaced {n : Bytes} {t t' : MemTable} {rows : UInt64} (ht : e.tables[n]? = some t) (e' : Engine)
    (htabs : e'.tables = e.tables.insert n t') (hstats : e'.stats = { e.stats with totalRows := rows }) :
    e'.excessTables = e.excessTables ∧
      e'.excessRows + UInt64.ofNat t'.rows.size + e.stats.totalRows = e.excessRows + UInt64.ofNat t.rows.size + rows := by
  have htotal := congrArg UInt64.ofNat (rowTotal_insert ht t')
  simp only [UInt64.ofNat_add] at htotal
  simp only [Engine.excessTables, Engine.excessRows, htabs, hstats, OrdMap.size_insert_of_some ht]
  grind

theorem excess_applyWrite {w : WriteOperation} {now : UInt64} {old : Option Row}
    (h : applyWrite e w now = some (e', old)) : SameExcess e e' := by
  have htotal := applyWrite_total h
  obtain ⟨t, t', ht, htabs, -, hcase⟩ := applyWrite_eq_some h
  constructor
  · have hcount : e'.stats.totalTables = e.stats.totalTables := by
      rcases hcase with ⟨-, -, -, hstats⟩ | ⟨-, hstats, -⟩ | ⟨-, -, -, hstats⟩ <;> simp [hstats]
    simp only [Engine.excessTables, hcount, htabs, OrdMap.size_insert_of_some ht]
  · unfold Engine.excessRows
    grind

theorem excess_applyWrites (env : Env) (feed : Bool) (ts : UInt64) (clock : Nat → UInt64) (i : Nat) (e : Engine)
    (ws : List WriteOperation) : SameExcess e (applyWrites env feed ts clock i e ws).engine := by
  induction ws generalizing i e with
  | nil => exact .refl e
  | cons w ws ih =>
    unfold applyWrites
    split
    · exact .refl e
    · rename_i e₁ old hw
      have hone := excess_applyWrite hw
      split
      · exact hone
      · have hrest := ih (i + 1) e₁
        split
        all_goals
          rename_i heq
          rw [heq] at hrest
          exact hone.trans hrest

/-- `Commit` counts what it does, whatever it answers. -/
theorem excess_commit (env : Env) (feed : Bool) (clock : Nat → UInt64) (e : Engine) (txn : Txn) :
    SameExcess e ((commit env feed clock e txn).engine e) := by
  have hloop := excess_applyWrites env feed txn.timestamp clock 0 e txn.writeSet
  unfold commit
  split
  · exact .refl e
  · split
    · exact .refl e
    · split
      all_goals
        rename_i heq
        rw [heq] at hloop
        exact hloop

/-- A table without rows comes in. -/
theorem excess_insert {n : Bytes} (hn : e.tables[n]? = none) (schema : TableSchema) (stats : Stats)
    (htables : stats.totalTables = e.stats.totalTables + 1) (hrows : stats.totalRows = e.stats.totalRows) :
    SameExcess e { tables := e.tables.insert n { schema := schema }, stats := stats } := by
  have hzero : ({ schema := schema } : MemTable).rows.size = 0 := by simp
  constructor
  · simp only [Engine.excessTables, htables, OrdMap.size_insert_of_none hn, UInt64.ofNat_add]
    grind
  · simp only [Engine.excessRows, hrows, rowTotal_insert_of_none hn, hzero, Nat.add_zero]

theorem excess_createTable {J : JsonLib} {schema : TableSchema} {entry : WALEntry}
    (h : createTable J e schema = .logged e' entry) : SameExcess e (e'.countTable true) := by
  unfold createTable at h
  split at h
  · cases h
  · rename_i hn
    simp only [Bool.not_eq_true, Option.isSome_eq_false_iff, Option.isNone_iff_eq_none] at hn
    split at h
    · cases h
    · cases h
      exact excess_insert hn schema _ rfl rfl

theorem excess_dropTable {name : Bytes} {entry : WALEntry} (h : dropTable e name = some (e', entry)) :
    SameExcess e (e'.countTable false) := by
  unfold dropTable at h
  split at h
  · cases h
  · rename_i t ht
    cases h
    have hsize := congrArg UInt64.ofNat (OrdMap.size_erase_of_some ht)
    have htotal := congrArg UInt64.ofNat (rowTotal_erase ht)
    simp only [UInt64.ofNat_add] at hsize htotal
    constructor
    · simp only [Engine.excessTables, Engine.countTable, Bool.false_eq_true, if_false]
      grind
    · simp only [Engine.excessRows, Engine.countTable, MemTable.getRowCount]
      grind

end

/-! ## Recovery -/

/-- An INSERT that finds its row there. -/
def idleInsert (u : DbOf Row) (entry : WALEntry) : Bool :=
  match entry.type with
  | .insert =>
    match u entry.tableName, decodeRow entry.data with
    | some p, some row => (p.2 row.key).isSome
    | _, _ => false
  | _ => false

/-- A DELETE that does not. -/
def idleDelete (u : DbOf Row) (entry : WALEntry) : Bool :=
  match entry.type with
  | .delete =>
    match u entry.tableName with
    | some p => (p.2 entry.key).isNone
    | none => false
  | _ => false

/-- How many entries of a log are `p` where the replay meets them. -/
def idle (J : JsonLib) (p : DbOf Row → WALEntry → Bool) : DbOf Row → List WALEntry → Nat
  | _, [] => 0
  | u, entry :: rest => (if p u entry then 1 else 0) + idle J p (untimedReplay J u entry) rest

section
variable {J : JsonLib} {e : Engine}

theorem excess_replayEntry (now : UInt64) (e : Engine) (entry : WALEntry) :
    (replayEntry J now e entry).excessTables = e.excessTables ∧
    (replayEntry J now e entry).excessRows + UInt64.ofNat (if idleDelete (viewBy Row.untimed e.tables) entry then 1 else 0) =
      e.excessRows + UInt64.ofNat (if idleInsert (viewBy Row.untimed e.tables) entry then 1 else 0) := by
  cases h : entry.type with
  | createTable =>
    simp only [replayEntry, idleInsert, idleDelete, h]
    cases deserializeSchema J entry.data with
    | none => simp
    | some s =>
      simp only
      cases hs : e.tables[s.name]? with
      | some t => simp
      | none =>
        obtain ⟨ht, hr⟩ := excess_insert hs s { e.stats with totalTables := e.stats.totalTables + 1 } rfl rfl
        simpa using ⟨ht, hr⟩
  | dropTable =>
    simp only [replayEntry, idleInsert, idleDelete, h]
    cases hd : dropTable e entry.tableName with
    | none => simp
    | some r =>
      obtain ⟨ht, hr⟩ := excess_dropTable hd
      simpa using ⟨ht, hr⟩
  | insert =>
    simp only [replayEntry, idleInsert, idleDelete, h]
    cases ht : e.tables[entry.tableName]? with
    | none => simp [viewBy_eq_none ht]
    | some t =>
      cases decodeRow entry.data with
      | none => simp [viewBy_eq_some ht]
      | some row =>
        simp only [viewBy_eq_some ht]
        obtain ⟨hcount, hrows⟩ := excess_replaced ht
          ({ tables := e.tables.insert entry.tableName ((t.insert row).getD t)
             stats := { e.stats with totalRows := e.stats.totalRows + 1 } }) rfl rfl
        refine ⟨hcount, ?_⟩
        cases hi : t.insert row with
        | none =>
          have hthere := MemTable.insert_eq_none.1 hi
          rw [hi] at hrows
          simp only [Option.getD_none] at hrows ⊢
          simp only [Option.isSome_map, hthere, Bool.false_eq_true, if_false, if_true]
          grind
        | some t' =>
          obtain ⟨hnone, -, hr⟩ := MemTable.insert_eq_some hi
          have hsize : UInt64.ofNat t'.rows.size = UInt64.ofNat t.rows.size + 1 := by
            rw [hr, OrdMap.size_insert_of_none hnone, UInt64.ofNat_add]
            rfl
          rw [hi] at hrows
          simp only [Option.getD_some] at hrows ⊢
          simp only [hnone, Option.map_none, Option.isSome_none, Bool.false_eq_true, if_false]
          grind
  | update =>
    simp only [replayEntry, idleInsert, idleDelete, h]
    cases ht : e.tables[entry.tableName]? with
    | none => simp
    | some t =>
      cases decodeRow entry.data with
      | none => simp
      | some row =>
        obtain ⟨hcount, hrows⟩ := excess_replaced ht
          { e with tables := e.tables.insert entry.tableName ((t.update entry.key row now).getD t) } rfl rfl
        refine ⟨hcount, ?_⟩
        have hsize : ((t.update entry.key row now).getD t).rows.size = t.rows.size := by
          cases hu : t.update entry.key row now with
          | none => rfl
          | some t' =>
            obtain ⟨old, hold, -, hr⟩ := MemTable.update_eq_some hu
            rw [Option.getD_some, hr, OrdMap.size_insert_of_some hold]
        rw [hsize] at hrows
        simp only [Bool.false_eq_true, if_false]
        grind
  | delete =>
    simp only [replayEntry, idleInsert, idleDelete, h]
    cases ht : e.tables[entry.tableName]? with
    | none => simp [viewBy_eq_none ht]
    | some t =>
      simp only [viewBy_eq_some ht]
      obtain ⟨hcount, hrows⟩ := excess_replaced ht
        ({ tables := e.tables.insert entry.tableName ((t.delete entry.key).getD t)
           stats := { e.stats with totalRows := e.stats.totalRows - 1 } }) rfl rfl
      refine ⟨hcount, ?_⟩
      cases hd : t.delete entry.key with
      | none =>
        have hnone := MemTable.delete_eq_none.1 hd
        rw [hd] at hrows
        simp only [Option.getD_none] at hrows ⊢
        simp only [hnone, Option.map_none, Option.isNone_none, Bool.false_eq_true, if_false, if_true]
        grind
      | some t' =>
        obtain ⟨hsome, -, hr⟩ := MemTable.delete_eq_some hd
        obtain ⟨r, hold⟩ := Option.isSome_iff_exists.1 hsome
        have hsize : UInt64.ofNat t.rows.size = UInt64.ofNat t'.rows.size + 1 := by
          rw [hr, ← OrdMap.size_erase_of_some hold, UInt64.ofNat_add]
          rfl
        rw [hd] at hrows
        simp only [Option.getD_some] at hrows ⊢
        simp only [hold, Option.map_some, Option.isNone_some, Bool.false_eq_true, if_false]
        grind
  | _ => simp [replayEntry, idleInsert, idleDelete, h]

/-- **Replaying a log** counts the INSERTs and the DELETEs that have no effect. -/
theorem excess_replay (clock : Nat → UInt64) (i : Nat) (e : Engine) (es : List WALEntry) :
    (replay J clock i e es).excessTables = e.excessTables ∧
    (replay J clock i e es).excessRows + UInt64.ofNat (idle J idleDelete (viewBy Row.untimed e.tables) es) =
      e.excessRows + UInt64.ofNat (idle J idleInsert (viewBy Row.untimed e.tables) es) := by
  induction es generalizing i e with
  | nil => simp [replay, idle]
  | cons entry es ih =>
    obtain ⟨ht, hr⟩ := ih (i + 1) (replayEntry J (clock i) e entry)
    obtain ⟨ht₁, hr₁⟩ := excess_replayEntry (J := J) (clock i) e entry
    rw [untimed_replayEntry] at hr
    simp only [replay, idle, UInt64.ofNat_add]
    refine ⟨ht.trans ht₁, ?_⟩
    grind

end

/-! ## The snapshot -/

/-- What the document lists of a row: its key. -/
def listedRow (J : JsonLib) (j : Json) : Option Bytes := do
  let row ← deserializeRow J (← j.asString)
  return row.key

/-- And of a table: its name and the keys of its rows. -/
def listedTable (J : JsonLib) (j : Json) : Option (Bytes × List Bytes) := do
  let schema ← deserializeSchema J (← j.valueOr (str "schema") [])
  let keys ← (← j.constMember (str "rows")).elements.mapM (listedRow J)
  return (schema.name, keys)

/-- No table is listed twice, and no row of it. -/
def ListsOnce (l : List (Bytes × List Bytes)) : Prop := (l.map Prod.fst).Nodup ∧ ∀ p ∈ l, p.2.Nodup

instance (l : List (Bytes × List Bytes)) : Decidable (ListsOnce l) := inferInstanceAs (Decidable (_ ∧ _))

/-- The tables a snapshot lists, if it gets as far. -/
def listed (J : JsonLib) (snap : Option Bytes) : Option (List (Bytes × List Bytes)) := do
  let doc ← J.parse (← snap)
  if doc.contains (str "tables") then (← doc.member (str "tables")).elements.mapM (listedTable J) else some []

section
variable {J : JsonLib}

theorem loadRow_eq_some {t t' : MemTable} {j : Json} (h : loadRow J t j = some t') :
    ∃ row, listedRow J j = some row.key ∧ t' = (t.insert row).getD t := by
  simp only [loadRow, Option.bind_eq_bind] at h
  obtain ⟨b, hb, h⟩ := Option.bind_eq_some_iff.1 h
  obtain ⟨row, hrow, h⟩ := Option.bind_eq_some_iff.1 h
  cases h
  refine ⟨row, ?_, rfl⟩
  simp [listedRow, hb, hrow]

/-- Rows of new keys are all there afterwards. -/
theorem size_loadRows {t t' : MemTable} {js : List Json} (h : js.foldlM (loadRow J) t = some t') :
    ∃ keys, js.mapM (listedRow J) = some keys ∧ t'.schema = t.schema ∧
      (keys.Nodup → (∀ k ∈ keys, t.rows[k]? = none) → t'.rows.size = t.rows.size + js.length) := by
  induction js generalizing t with
  | nil => cases h; exact ⟨[], rfl, rfl, fun _ _ => rfl⟩
  | cons j js ih =>
    rw [List.foldlM_cons] at h
    obtain ⟨t₁, h₁, h⟩ := Option.bind_eq_some_iff.1 h
    obtain ⟨row, hkey, rfl⟩ := loadRow_eq_some h₁
    obtain ⟨keys, hkeys, hschema, hsize⟩ := ih h
    obtain ⟨hschema₁, hrows₁⟩ := insert_getD_rows t row
    refine ⟨row.key :: keys, by simp [List.mapM_cons, hkey, hkeys], hschema.trans hschema₁, ?_⟩
    intro hnodup hfresh
    obtain ⟨hnew, hnodup⟩ := List.nodup_cons.1 hnodup
    have hnone : t.rows[row.key]? = none := hfresh row.key (by simp)
    rw [hnone] at hrows₁
    simp only [Option.isSome_none, Bool.false_eq_true, if_false] at hrows₁
    rw [hsize hnodup, hrows₁, OrdMap.size_insert_of_none hnone, List.length_cons]
    · omega
    · intro k hk
      rw [hrows₁, OrdMap.getElem?_insert, if_neg (by rintro rfl; exact hnew hk)]
      exact hfresh k (by simp [hk])

theorem size_loadTable {j : Json} {t : MemTable} (h : loadTable J j = some t) :
    ∃ keys rows, listedTable J j = some (t.schema.name, keys) ∧ j.constMember (str "rows") = some rows ∧
      (keys.Nodup → t.rows.size = rows.elements.length) := by
  simp only [loadTable, Option.bind_eq_bind] at h
  obtain ⟨b, hb, h⟩ := Option.bind_eq_some_iff.1 h
  obtain ⟨schema, hs, h⟩ := Option.bind_eq_some_iff.1 h
  obtain ⟨rows, hr, h⟩ := Option.bind_eq_some_iff.1 h
  obtain ⟨keys, hkeys, hschema, hsize⟩ := size_loadRows h
  refine ⟨keys, rows, ?_, hr, fun hn => ?_⟩
  · simp [listedTable, hb, hs, hr, hkeys, hschema]
  · simpa using hsize hn fun k _ => by simp

theorem excess_loadTables {e e' : Engine} {js : List Json} (h : loadTables J e js = some e') :
    ∃ l, js.mapM (listedTable J) = some l ∧ (ListsOnce l → (∀ p ∈ l, e.tables[p.1]? = none) → SameExcess e e') := by
  induction js generalizing e with
  | nil => cases h; exact ⟨[], rfl, fun _ _ => .refl _⟩
  | cons j js ih =>
    rw [loadTables, List.foldlM_cons] at h
    obtain ⟨e₁, h₁, h⟩ := Option.bind_eq_some_iff.1 h
    simp only [Option.bind_eq_bind] at h₁
    obtain ⟨t, ht, h₁⟩ := Option.bind_eq_some_iff.1 h₁
    obtain ⟨rows, hrows, h₁⟩ := Option.bind_eq_some_iff.1 h₁
    cases h₁
    obtain ⟨keys, rows', hlisted, hrows', hsize⟩ := size_loadTable ht
    rw [hrows] at hrows'
    cases hrows'
    obtain ⟨l, hl, hrest⟩ := ih h
    refine ⟨(t.schema.name, keys) :: l, by simp [List.mapM_cons, hlisted, hl], ?_⟩
    rintro ⟨hnames, hkeys⟩ hfresh
    obtain ⟨hnew, hnames⟩ := List.nodup_cons.1 hnames
    have hnone : e.tables[t.schema.name]? = none := hfresh _ List.mem_cons_self
    have hsize : t.rows.size = rows.elements.length := hsize (hkeys _ List.mem_cons_self)
    refine SameExcess.trans ⟨?_, ?_⟩ (hrest ⟨hnames, fun p hp => hkeys p (by simp [hp])⟩ fun p hp => ?_)
    · simp only [Engine.excessTables, OrdMap.size_insert_of_none hnone, UInt64.ofNat_add]
      grind
    · simp only [Engine.excessRows, rowTotal_insert_of_none hnone, hsize, UInt64.ofNat_add]
      grind
    · have hne : t.schema.name ≠ p.1 := fun he => hnew (he ▸ List.mem_map.2 ⟨p, hp, rfl⟩)
      rw [OrdMap.getElem?_insert, if_neg hne]
      exact hfresh p (by simp [hp])

/-- **A snapshot that lists each table and each row once** is counted right. -/
theorem agrees_loadSnapshot {snap : Option Bytes} {e : Engine} (h : loadSnapshotIfPresent J {} snap = some e)
    (honce : ∀ l, listed J snap = some l → ListsOnce l) : e.Agrees := by
  have hempty : ({} : Engine).Agrees := by decide
  unfold loadSnapshotIfPresent at h
  cases snap with
  | none => cases h; exact hempty
  | some text =>
    cases hdoc : J.parse text with
    | none => simp only [hdoc] at h; cases h; exact hempty
    | some doc =>
      simp only [hdoc] at h
      split at h
      · rename_i hc
        obtain ⟨ts, hts, h⟩ := Option.bind_eq_some_iff.1 h
        obtain ⟨l, hl, hsame⟩ := excess_loadTables h
        have hl' : listed J (some text) = some l := by simp [listed, hdoc, hc, hts, hl]
        exact (hsame (honce l hl') fun p _ => by simp).agrees_iff.2 hempty
      · cases h; exact hempty

theorem listedRows {l : List (Bytes × Row)} {bs : List Bytes} (h : (l.mapM fun p => serializeRow J p.2) = some bs) :
    (bs.map Json.string).mapM (listedRow J) = some (l.map fun p => p.2.key) := by
  induction l generalizing bs with
  | nil => cases h; rfl
  | cons p l ih =>
    obtain ⟨b, bs, rfl, hb, hbs⟩ := mapM_eq_some_cons h
    have hone : listedRow J (.string b) = some p.2.key := by
      simp [listedRow, Json.asString, deserializeRow_serializeRow J hb]
    simp [List.mapM_cons, hone, ih hbs]

theorem listed_tableJson {t : MemTable} {j : Json} (h : tableJson J t = some j)
    (hkey : ∀ (k : Bytes) (r : Row), t.rows[k]? = some r → r.key = k) :
    listedTable J j.reparsed = some (t.schema.name, t.rows.toList.map Prod.fst) := by
  obtain ⟨schema, hs, h⟩ := Option.bind_eq_some_iff.1 h
  obtain ⟨bs, hrows, h⟩ := Option.bind_eq_some_iff.1 h
  rw [MemTable.scan_all] at hrows
  cases h
  have hstr : (bs.map Json.string).map Json.reparsed = bs.map Json.string := by
    rw [List.map_map]
    exact List.map_congr_left fun _ _ => rfl
  have hkeys : (t.rows.toList.map fun p => p.2.key) = t.rows.toList.map Prod.fst :=
    List.map_congr_left fun p hp => hkey p.1 p.2 (Std.ExtTreeMap.mem_toList_iff_getElem?_eq_some.1 hp)
  simp only [Json.reparsed, Json.reparsedObject, Json.reparsedList_eq, hstr]
  show (deserializeSchema J schema).bind _ = _
  rw [deserializeSchema_serializeSchema J hs]
  show ((bs.map Json.string).mapM (listedRow J)).bind _ = _
  rw [listedRows hrows, hkeys]
  rfl

theorem listed_tables {l : List (Bytes × MemTable)} {js : List Json} (h : (l.mapM fun p => tableJson J p.2) = some js)
    (hl : ∀ p ∈ l, p.2.schema.name = p.1 ∧ ∀ (k : Bytes) (r : Row), p.2.rows[k]? = some r → r.key = k) :
    (js.map Json.reparsed).mapM (listedTable J) = some (l.map fun p => (p.1, p.2.rows.toList.map Prod.fst)) := by
  induction l generalizing js with
  | nil => cases h; rfl
  | cons p l ih =>
    obtain ⟨j, js, rfl, hj, hjs⟩ := mapM_eq_some_cons h
    obtain ⟨hname, hkey⟩ := hl p (by simp)
    have hone := listed_tableJson hj hkey
    have hrest := ih hjs fun q hq => hl q (by simp [hq])
    simp only [List.map_cons, List.mapM_cons, hone, hrest, hname]
    rfl

/-- What `WriteSnapshot` writes lists each table and each row once. -/
theorem listsOnce_snapshotText {env : Env} {T : Tables} {seq : UInt64} {text : Bytes} (hk : WellKeyed T)
    (h : snapshotText env T seq = some text) : ListsOnce ((listed env.toJsonLib (some text)).getD []) := by
  obtain ⟨doc, hdoc, hdump⟩ := Option.bind_eq_some_iff.1 h
  obtain ⟨js, hjs, hdoc⟩ := Option.bind_eq_some_iff.1 hdoc
  have hmem : ∀ p ∈ env.order.list T, T[p.1]? = some p.2 := fun p hp =>
    Std.ExtTreeMap.mem_toList_iff_getElem?_eq_some.1 ((env.order.perm T).mem_iff.1 hp)
  have htables := listed_tables hjs fun p hp => ⟨hk.name p.1 p.2 (hmem p hp), hk.key p.1 p.2 (hmem p hp)⟩
  cases hdoc
  have hlisted : listed env.toJsonLib (some text) =
      some ((env.order.list T).map fun p => (p.1, p.2.rows.toList.map Prod.fst)) := by
    simp only [listed, Option.bind_eq_bind, Option.bind_some, env.parse_dump _ _ hdump, Json.reparsed, Json.reparsedObject,
      Json.reparsedList_eq]
    exact htables
  rw [hlisted, Option.getD_some]
  constructor
  · rw [List.map_map]
    exact (OrdMap.distinct_toList T).perm (env.order.perm T)
  · intro p hp
    obtain ⟨q, -, rfl⟩ := List.mem_map.1 hp
    exact OrdMap.distinct_toList _

end

/-! ## Lives of a server -/

namespace Server

/-- What happens to a server, its restarts included. -/
inductive Happening where
  | call (l : Label)
  | restart (b : Boot)

/-- The tables the next boot loads. -/
def loaded (env : Env) (s : Server) : Option Engine := loadSnapshotIfPresent env.toJsonLib {} (snapText s.snapFile)

/-- The log it then reads. -/
def logFound (s : Server) (b : Boot) : List WALEntry := readAll (Wal.walInitialize s.wal.file b.magic).file

/-- A life: calls, checkpoints, and `Initialize` in a process that finds the files of the one before. -/
def live (env : Env) (mode : SyncMode) (feed : Bool) (s : Server) : Happening → Option Server
  | .call l => step env mode feed s l
  | .restart b => (s.loaded env).map fun e =>
      let r := recoverFromWAL env.toJsonLib mode b.clock b.io 0 e (Wal.walInitialize s.wal.file b.magic) (s.logFound b)
      { engine := r.1, wal := r.2, snaps := s.snaps }

/-- The engine with the table counted that `CreateTable` or `DropTable` still has to count. -/
def counted (s : Server) : Engine :=
  match s.lock with
  | .ddl _ created => s.engine.countTable created
  | _ => s.engine

section
variable {env : Env} {mode : SyncMode} {feed : Bool} {s s' : Server}

theorem counted_eq (h : ∀ i created, s.lock ≠ .ddl i created) : s.counted = s.engine := by
  unfold counted
  split
  · rename_i i created hlock
    exact absurd hlock (h i created)
  · rfl

/-- A step leaves the counters as far off as they were, if the schema of a table that is created can be logged. -/
theorem excess_step {l : Label} (h : step env mode feed s l = some s')
    (hc : ∀ schema ts, l = .createTable schema ts → s.engine.tables[schema.name]? = none →
      (serializeSchema env.toJsonLib schema).isSome) : SameExcess s.counted s'.counted := by
  rcases engine_cases h with ⟨he, hlock⟩ | ⟨txn, clock, ts, -, hno, he⟩ | ⟨schema, ts, hl, hfree, hthrew | hlogged⟩ |
    ⟨name, ts, entry, i, -, hfree, hdrop, hlock⟩ | ⟨i, created, -, hlock, hlock', he⟩
  · rcases hlock with hlock | hno
    · have hsame : s'.counted = s.counted := by simp only [counted, he, hlock]
      rw [hsame]
      exact .refl _
    · rw [counted_eq hno.1, counted_eq hno.2, he]
      exact .refl _
  · rw [counted_eq hno.1, counted_eq hno.2, he]
    exact excess_commit env feed clock s.engine txn
  · have hnew := hthrew.1
    unfold OriginDB.createTable at hnew
    split at hnew
    · cases hnew
    · rename_i hn
      split at hnew
      · rename_i hnone
        have hsome := hc schema ts hl (by simpa using hn)
        rw [hnone] at hsome
        cases hsome
      · cases hnew
  · obtain ⟨entry, i, hlogged, hlock⟩ := hlogged
    simpa only [counted, hfree, hlock] using excess_createTable hlogged
  · simpa only [counted, hfree, hlock] using excess_dropTable hdrop
  · simp only [counted, hlock, hlock', he]
    exact .refl _

/-! ## Restarts -/

/-- The INSERTs (or DELETEs) of the log that replay without effect. -/
def idleEntries (env : Env) (p : DbOf Row → WALEntry → Bool) (s : Server) (b : Boot) (e : Engine) : Nat :=
  idle env.toJsonLib p (viewBy Row.untimed e.tables) (s.logFound b)

/-- **After a restart** from a snapshot that lists everything once, the counters agree exactly when as many INSERTs as
DELETEs were replayed without effect. -/
theorem agrees_restart_iff {b : Boot} {e : Engine} (hload : s.loaded env = some e)
    (honce : ∀ l, listed env.toJsonLib (snapText s.snapFile) = some l → ListsOnce l)
    (h : live env mode feed s (.restart b) = some s') :
    s'.engine.Agrees ↔
      UInt64.ofNat (s.idleEntries env idleInsert b e) = UInt64.ofNat (s.idleEntries env idleDelete b e) := by
  obtain ⟨htables, hrows⟩ := agrees_iff.1 (agrees_loadSnapshot hload honce)
  obtain ⟨ht, hr⟩ := excess_replay (J := env.toJsonLib) b.clock 0 e (s.logFound b)
  simp only [live, hload, Option.map_some, Option.some.injEq] at h
  subst h
  simp only [recoverFromWAL_fst, agrees_iff, ht, htables, true_and, idleEntries]
  rw [hrows] at hr
  constructor
  · intro hz
    rw [hz] at hr
    grind
  · intro heq
    rw [heq] at hr
    grind

/-- A happening that is counted right: a table that is created has a schema that can be printed, and a restart finds a
snapshot that lists everything once and as many idle INSERTs as idle DELETEs. -/
def Counts (env : Env) (s : Server) : Happening → Prop
  | .call (.createTable schema _) =>
    s.engine.tables[schema.name]?.isSome ∨ (serializeSchema env.toJsonLib schema).isSome
  | .call _ => True
  | .restart b =>
    match s.loaded env with
    | none => True
    | some e => ListsOnce ((listed env.toJsonLib (snapText s.snapFile)).getD []) ∧
        UInt64.ofNat (s.idleEntries env idleInsert b e) = UInt64.ofNat (s.idleEntries env idleDelete b e)

instance (env : Env) (s : Server) (h : Happening) : Decidable (Counts env s h) := by
  unfold Counts
  split <;> (try split) <;> infer_instance

theorem agrees_live {h : Happening} (hs : s.counted.Agrees) (hok : Counts env s h)
    (hstep : live env mode feed s h = some s') : s'.counted.Agrees := by
  cases h with
  | call l =>
    refine (excess_step hstep fun schema ts hl hn => ?_).agrees_iff.2 hs
    subst hl
    rcases hok with hthere | hsome
    · rw [hn] at hthere
      cases hthere
    · exact hsome
  | restart b =>
    cases hload : s.loaded env with
    | none =>
      simp only [live, hload] at hstep
      cases hstep
    | some e =>
      simp only [Counts, hload] at hok
      have hagrees := (agrees_restart_iff hload (fun l hl => by simpa [hl] using hok.1) hstep).2 hok.2
      simp only [live, hload, Option.map_some, Option.some.injEq] at hstep
      subst hstep
      exact hagrees

end

/-- **The counters agree with the tables** between the calls of every life all of whose happenings are counted right.
A snapshot of these tables, each row filed under its own key, lists everything once, as the next restart needs it. -/
theorem statistics_agree (env : Env) (mode : SyncMode) (feed : Bool) (s₀ s : Server) (hs : List Happening)
    (h0 : start env none = some s₀) (hok : Allowed (live env mode feed) (Counts env) s₀ hs)
    (hrun : run (live env mode feed) s₀ hs = some s) (hidle : ∀ i created, s.lock ≠ .ddl i created) :
    s.engine.Agrees ∧ ∀ seq text, WellKeyed s.engine.tables → snapshotText env s.engine.tables seq = some text →
      ListsOnce ((listed env.toJsonLib (some text)).getD []) := by
  have hstart : s₀.counted.Agrees := by
    cases h0
    decide
  have hend : s.counted.Agrees :=
    run_invariant (fun s => s.counted.Agrees) (fun _ _ _ hs hok hstep => agrees_live hs hok hstep) hstart hok hrun
  rw [counted_eq hidle] at hend
  exact ⟨hend, fun _ _ => listsOnce_snapshotText⟩

def aBoot : Boot := { clock := fun _ => 0, io := fun _ => .ok, magic := 8 }

/-- Two rows, one of them deleted again; then the process dies. -/
def countedRight : List Happening :=
  (createdT ++ [commitT [(.insert, "k"), (.insert, "j")]] ++ ackOne 104 ++ [commitT [(.delete, "k")]] ++ ackOne 52).map .call ++
    [.restart aBoot]

theorem statistics_agree_countedRight : ∃ s, run (live tEnv .fsync false) tStart countedRight = some s ∧ s.engine.Agrees ∧
    rowTotal s.engine.tables = 1 := by
  have hfacts : (run (live tEnv .fsync false) tStart countedRight).map (fun s => (s.lock, rowTotal s.engine.tables)) =
      some (.free, 1) := by
    decide +kernel
  obtain ⟨s, hrun, hs⟩ := Option.map_eq_some_iff.1 hfacts
  obtain ⟨hlock, hrows⟩ := Prod.mk.inj hs
  exact ⟨s, hrun, (statistics_agree tEnv .fsync false tStart s countedRight rfl (by decide +kernel) hrun (by simp [hlock])).1, hrows⟩

/-- The library of `tEnv` with the snapshot of an empty table taken later. -/
def laterEnv : Env where
  toJsonLib := JsonLib.ofTable
    [(schemaJson tSchema, schemaText), (rowJson { key := str "k" }, rowText (str "k")), snapshotDoc 2 [str "k"],
     snapshotDoc 3 []] (by decide +kernel)
  order := .sorted

/-- A row is deleted after a checkpoint, and the process dies in the next one, before it truncates the log. -/
def deletedTwice : List Happening :=
  (createdT ++ [commitT [(.insert, "k")]] ++ ackOne 52 ++ checkpointT ++ [commitT [(.delete, "k")]] ++ ackOne 52 ++
    [Label.serialise, .writeTmp 200, .rename true]).map .call ++ [.restart aBoot]

theorem rows_below_zero : ∃ s, start laterEnv none = some tStart ∧ run (live laterEnv .fsync false) tStart deletedTwice = some s ∧
    s.lock = .free ∧ rowTotal s.engine.tables = 0 ∧ s.engine.stats.totalRows = 18446744073709551615 ∧ ¬ s.engine.Agrees := by
  have hfacts : (run (live laterEnv .fsync false) tStart deletedTwice).map (fun s =>
      (s.lock, rowTotal s.engine.tables, s.engine.stats.totalRows)) = some (.free, 0, 18446744073709551615) := by
    decide +kernel
  obtain ⟨s, hrun, hs⟩ := Option.map_eq_some_iff.1 hfacts
  simp only [Prod.mk.injEq] at hs
  obtain ⟨hlock, hrows, htotal⟩ := hs
  refine ⟨s, rfl, hrun, hlock, hrows, htotal, fun h => ?_⟩
  have hagree := h.2
  rw [htotal, hrows] at hagree
  exact absurd hagree (by decide)

end Server

end OriginDB
