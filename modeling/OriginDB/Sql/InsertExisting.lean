import OriginDB.Sql.ConcurrentUpdate
import OriginDB.Sql.ReadOnly
/-!
# INSERT on a key that is there (`sql_engine.cpp:106-193`, `storage_engine.cpp:347-360`)

Two layers have a rule for it. `ExecuteInsert` means to merge: where `storage_->Insert` fails it reads the
row, sets the columns the statement names and answers `0 inserts, 1 update`. The commit below it replaces
the whole row and does not fail, so the merge is reached only where the commit is not made durable; and
then the row it reads is the one that has just been replaced.

| the two commits | the row afterwards | the answer |
| --- | --- | --- |
| the first is durable           | the named columns only                   | one insert |
| only the second is             | the named columns only                   | one update |
| neither is                     | the named columns only                   | failed |
| a row does not print as JSON   | the named columns only                   | an exception |
-/
namespace OriginDB

open JsonDoc ByteCodec

/-! ## A commit that replaces a row -/

section
variable {s : Store} {w : WriteOperation} {old : Row}

/-- `SerializeRow` prints the row that comes and the row that goes, for the event. -/
def Replaceable (J : JsonLib) (new old : Row) : Prop := (serializeRow J new).isSome ∧ (serializeRow J old).isSome

instance (J : JsonLib) (new old : Row) : Decidable (Replaceable J new old) := inferInstanceAs (Decidable (_ ∧ _))

theorem applyWrite_replace {e : Engine} (now : UInt64) (hop : w.op ≠ .delete)
    (hold : rowOf e.tables w.tableName w.row.key = some old) :
    ∃ e', applyWrite e w now = some (e', some old) ∧
      rowOf e'.tables w.tableName w.row.key = some { w.row with version := old.version + 1, timestamp := now } := by
  obtain ⟨t, ht, hrow⟩ := Option.bind_eq_some_iff.1 hold
  have happ : ∃ e', applyWrite e w now = some (e', some old) := by
    cases hop' : w.op with
    | insert => simp [applyWrite, ht, hop', MemTable.insert, MemTable.get, MemTable.update, hrow]
    | update => simp [applyWrite, ht, hop', MemTable.get, MemTable.update, hrow]
    | delete => exact absurd hop' hop
  obtain ⟨e', happ⟩ := happ
  refine ⟨e', happ, ?_⟩
  obtain ⟨t₁, t', ht₁, htabs, -, hstep⟩ := applyWrite_eq_some happ
  rw [ht, Option.some.injEq] at ht₁
  subst ht₁
  rw [rowOf, htabs, OrdMap.getElem?_insert, if_pos rfl, Option.bind_some]
  rcases hstep with ⟨-, hnone, -⟩ | ⟨-, -, r, hr, hrows⟩ | ⟨hdel, -⟩
  · rw [hrow] at hnone
    cases hnone
  · rw [hrow, Option.some.injEq] at hr
    rw [hrows, OrdMap.getElem?_insert, if_pos rfl, hr]
  · exact absurd hdel hop

theorem writeEvent_isSome (env : Env) (old : Row) (ts now : UInt64) (hop : w.op ≠ .delete) :
    (writeEvent env true ts w (some old) now).isSome ↔ Replaceable env.toJsonLib w.row old := by
  have hwrites : w.op = .insert ∨ w.op = .update := by
    cases h : w.op with
    | insert => exact Or.inl rfl
    | update => exact Or.inr rfl
    | delete => exact absurd h hop
  unfold writeEvent Replaceable
  cases hnew : serializeRow env.toJsonLib w.row <;> cases hprev : serializeRow env.toJsonLib old <;>
    simp [hwrites, hprev]

/-- **It throws where one of the rows does not print**; otherwise the row is replaced whether the log keeps
the batch or not, and the answer is whether it does. -/
theorem commit_replace (env : Env) (maxLag : Nat) (io : Io) (hop : w.op ≠ .delete) (hold : s.get w.tableName w.row.key = some old) :
    if Replaceable env.toJsonLib w.row old then
      ∃ s', s.commit env maxLag io [w] = .returned io.durable s' ∧
        s'.get w.tableName w.row.key = some { w.row with version := old.version + 1, timestamp := io.clock 0 }
    else ∃ s', s.commit env maxLag io [w] = .threw s' := by
  obtain ⟨e, happ, hrow⟩ := applyWrite_replace (e := s.engine) (io.clock 0) hop hold
  have hevent := writeEvent_isSome env old (s.nextTimestamp + 1 - 1) (io.clock 0) hop
  cases hev : writeEvent env true (s.nextTimestamp + 1 - 1) w (some old) (io.clock 0) with
  | none =>
    rw [hev] at hevent
    rw [if_neg fun h => by simpa using hevent.2 h]
    simp only [Store.commit, OriginDB.commit, ne_eq, not_true_eq_false, if_false, reduceCtorEq, applyWrites, happ, hev]
    exact ⟨_, rfl⟩
  | some events =>
    rw [hev] at hevent
    rw [if_pos (hevent.1 rfl)]
    simp only [Store.commit, OriginDB.commit, ne_eq, not_true_eq_false, if_false, reduceCtorEq, applyWrites, happ, hev]
    cases hd : io.durable with
    | true =>
      rw [if_pos rfl]
      exact ⟨_, rfl, hrow⟩
    | false =>
      rw [if_neg (by simp)]
      exact ⟨_, rfl, hrow⟩

end

namespace SqlEngine

/-! ## The merge -/

/-- The columns a statement names, those for which it has a value. -/
def named (stmt : SqlStatement) : List Bytes := (stmt.columns.zip stmt.values).map Prod.fst

theorem assigned_isSome_iff {stmt : SqlStatement} {c : Bytes} : (assigned stmt c).isSome ↔ c ∈ named stmt := by
  rw [assigned, named]
  constructor
  · intro h
    by_contra hc
    rw [OrdMap.getElem?_insertAll_of_notMem fun p hp he => hc (List.mem_map.2 ⟨p, hp, he⟩)] at h
    simp at h
  · intro h
    generalize stmt.columns.zip stmt.values = l at h
    induction l with
    | nil => cases h
    | cons p l ih =>
      rw [OrdMap.insertAll_cons, OrdMap.getElem?_insertAll]
      rcases List.mem_cons.1 h with rfl | h
      · cases (OrdMap.insertAll (∅ : Columns) l)[p.1]? with
        | none => simp
        | some v => simp
      · obtain ⟨v, hv⟩ := Option.isSome_iff_exists.1 (ih h)
        rw [hv]
        rfl

theorem setColumns_column (stmt : SqlStatement) (row : Row) (c : Bytes) :
    (setColumns stmt.columns stmt.values row).columns[c]? = (assigned stmt c).or row.columns[c]? :=
  OrdMap.getElem?_insertAll row.columns _ c

/-- Setting the columns twice is setting them once. -/
theorem setColumns_columns_idem (stmt : SqlStatement) (row : Row) {row' : Row}
    (h : row'.columns = (setColumns stmt.columns stmt.values row).columns) :
    (setColumns stmt.columns stmt.values row').columns = row'.columns := by
  ext1 c
  rw [setColumns_column, h, setColumns_column]
  cases assigned stmt c with
  | none => rfl
  | some v => rfl

/-- A row made of the named columns alone is the merged row where there were no others. -/
theorem setColumns_eq_merged_iff (stmt : SqlStatement) (row old : Row) (hempty : row.columns = ∅) :
    (setColumns stmt.columns stmt.values row).columns = (setColumns stmt.columns stmt.values old).columns ↔
      ∀ c, (old.columns[c]?).isSome → c ∈ named stmt := by
  constructor
  · intro h c hc
    rw [← assigned_isSome_iff]
    have hat := congrArg (·[c]?) h
    simp only [setColumns_column, hempty, Std.ExtTreeMap.getElem?_empty, Option.or_none] at hat
    rw [hat]
    cases assigned stmt c with
    | none => exact hc
    | some v => rfl
  · intro h
    ext1 c
    rw [setColumns_column, setColumns_column, hempty, Std.ExtTreeMap.getElem?_empty, Option.or_none]
    cases ha : assigned stmt c with
    | some v => rfl
    | none =>
      cases hc : old.columns[c]? with
      | none => rfl
      | some v =>
        have hin := assigned_isSome_iff.2 (h c (by rw [hc]; rfl))
        rw [ha] at hin
        cases hin

/-! ## `ExecuteInsert` on a row that is there -/

section
variable {env : Env} {maxLag : Nat} {io : Nat → Io} {s : Store} {stmt : SqlStatement} {value : Value} {old : Row}

/-- The row an INSERT makes of its values. -/
def insertedRow (stmt : SqlStatement) (value : Value) : Row :=
  setColumns stmt.columns stmt.values { key := keyText value }

/-- `{true, "", {}, {}, 1, 0}` (`:151`). -/
def oneInsert : SqlResult := { success := true, rowsAffected := 1 }

/-- `{true, "", {}, {}, 0, 1}`, `0 inserts, 1 update` (`:174`). -/
def oneUpdate : SqlResult := { success := true, executionTimeMs := 1 }

theorem executeInsert_eq (hvalue : stmt.values.head? = some value)
    (hold : s.get stmt.tableName (keyText value) = some old) :
    executeInsert env maxLag io s stmt =
      match s.commit env maxLag (io 0) [⟨.insert, stmt.tableName, insertedRow stmt value⟩] with
      | .threw s => .threw s
      | .returned true s => .returned oneInsert s
      | .returned false s =>
        match s.get stmt.tableName (keyText value) with
        | some old => convertToUpdate env maxLag io s stmt.tableName (keyText value) (setColumns stmt.columns stmt.values old)
        | none => convertToUpdate env maxLag io s stmt.tableName (keyText value) (insertedRow stmt value) := by
  obtain ⟨t, ht, -⟩ := Option.bind_eq_some_iff.1 hold
  cases hvs : stmt.values with
  | nil =>
    rw [hvs] at hvalue
    cases hvalue
  | cons v vs =>
    rw [hvs, List.head?_cons, Option.some.injEq] at hvalue
    subst hvalue
    simp only [executeInsert, insertedRow, hvs, ht]
    rfl

/-- What is answered, and the row that is left. -/
theorem executeInsert_existing (env : Env) (maxLag : Nat) (io : Nat → Io) (hvalue : stmt.values.head? = some value)
    (hold : s.get stmt.tableName (keyText value) = some old) :
    if Replaceable env.toJsonLib (insertedRow stmt value) old then
      ∃ r s' row, executeInsert env maxLag io s stmt = .returned r s' ∧ s'.get stmt.tableName (keyText value) = some row ∧
        row.columns = (insertedRow stmt value).columns ∧
        r = if (io 0).durable then oneInsert
          else if (io 1).durable then oneUpdate else failed (str "Failed to convert INSERT to UPDATE")
    else ∃ s', executeInsert env maxLag io s stmt = .threw s' := by
  have hfirst := commit_replace env maxLag (io 0)
    (w := ⟨.insert, stmt.tableName, insertedRow stmt value⟩) (by simp) hold
  by_cases hr : Replaceable env.toJsonLib (insertedRow stmt value) old
  · rw [if_pos hr] at hfirst ⊢
    obtain ⟨s₁, hcommit, hget⟩ := hfirst
    rw [executeInsert_eq hvalue hold, hcommit]
    cases hd : (io 0).durable with
    | true => exact ⟨_, s₁, _, rfl, hget, rfl, rfl⟩
    | false =>
      simp only
      obtain ⟨stored, hstored, hkey, hcols⟩ : ∃ stored, s₁.get stmt.tableName (keyText value) = some stored ∧
          stored.key = (insertedRow stmt value).key ∧ stored.columns = (insertedRow stmt value).columns :=
        ⟨_, hget, rfl, rfl⟩
      rw [hstored]
      -- the row that is read back is the one just stored, and setting its columns again changes nothing
      have hsame := setColumns_columns_idem stmt { key := keyText value } hcols
      have hnew : serializeRow env.toJsonLib { setColumns stmt.columns stmt.values stored with key := keyText value } =
          serializeRow env.toJsonLib (insertedRow stmt value) := serializeRow_congr _ rfl (hsame.trans hcols)
      have hprints : Replaceable env.toJsonLib { setColumns stmt.columns stmt.values stored with key := keyText value } stored := by
        rw [Replaceable, hnew, serializeRow_congr _ hkey hcols]
        exact ⟨hr.1, hr.1⟩
      have hsecond := commit_replace env maxLag (io 1) (s := s₁)
        (w := ⟨.update, stmt.tableName, { setColumns stmt.columns stmt.values stored with key := keyText value }⟩)
        (by simp) hstored
      rw [if_pos hprints] at hsecond
      obtain ⟨s₂, hcommit₂, hget₂⟩ := hsecond
      simp only [convertToUpdate, hcommit₂]
      cases hd₂ : (io 1).durable with
      | true => exact ⟨_, s₂, _, rfl, hget₂, hsame.trans hcols, rfl⟩
      | false => exact ⟨_, s₂, _, rfl, hget₂, hsame.trans hcols, rfl⟩
  · rw [if_neg hr] at hfirst ⊢
    obtain ⟨s₁, hcommit⟩ := hfirst
    exact ⟨s₁, by rw [executeInsert_eq hvalue hold, hcommit]⟩

/-- What `ExecuteInsert` is written to do with a row that is there: if it succeeds, the columns it names are
set, the others are as they were, and it reports an update. -/
def Merges (e : Executed) (stmt : SqlStatement) (key : Bytes) (old : Row) : Prop :=
  ∀ r s', e = .returned r s' → r.success = true →
    (∃ row, s'.get stmt.tableName key = some row ∧ ∀ c, row.columns[c]? = (assigned stmt c).or old.columns[c]?) ∧
    r.rowsAffected = 0 ∧ r.executionTimeMs = 1

/-- **It merges exactly when** it comes to no success, or the first commit is not durable, the second is, and
there were no columns but those the statement names. -/
theorem insert_merges_iff (env : Env) (maxLag : Nat) (io : Nat → Io) (s : Store) (stmt : SqlStatement) (value : Value)
    (old : Row) (hvalue : stmt.values.head? = some value) (hold : s.get stmt.tableName (keyText value) = some old) :
    Merges (executeInsert env maxLag io s stmt) stmt (keyText value) old ↔
      ¬ Replaceable env.toJsonLib (insertedRow stmt value) old ∨
      ((io 0).durable = false ∧
        ((io 1).durable = false ∨ ∀ c, (old.columns[c]?).isSome → c ∈ named stmt)) := by
  have hcall := executeInsert_existing env maxLag io hvalue hold
  by_cases hr : Replaceable env.toJsonLib (insertedRow stmt value) old
  · rw [if_pos hr] at hcall
    obtain ⟨r, s', row, hexec, hget, hcols, hans⟩ := hcall
    have hmerged : (∃ row, s'.get stmt.tableName (keyText value) = some row ∧
        ∀ c, row.columns[c]? = (assigned stmt c).or old.columns[c]?) ↔
        ∀ c, (old.columns[c]?).isSome → c ∈ named stmt := by
      rw [← setColumns_eq_merged_iff stmt { key := keyText value } old rfl]
      constructor
      · rintro ⟨row', hrow', hcol⟩
        rw [hget, Option.some.injEq] at hrow'
        subst hrow'
        ext1 c
        rw [setColumns_column stmt old, ← hcol c, hcols]
        rfl
      · intro h
        exact ⟨row, hget, fun c => by rw [hcols, ← setColumns_column stmt old, ← h]; rfl⟩
    cases hd : (io 0).durable with
    | true =>
      -- a success that reports one insert
      rw [hd, if_pos rfl] at hans
      subst hans
      refine ⟨fun h => ?_, fun h => ?_⟩
      · have hzero := (h _ _ hexec rfl).2.1
        exact absurd hzero (by decide)
      · rcases h with h | ⟨h, -⟩
        · exact absurd hr h
        · cases h
    | false =>
      rw [hd, if_neg (by simp)] at hans
      cases hd₁ : (io 1).durable with
      | false =>
        rw [hd₁, if_neg (by simp)] at hans
        subst hans
        refine ⟨fun _ => Or.inr ⟨rfl, Or.inl rfl⟩, fun _ r₁ s₁ h₁ hs => ?_⟩
        rw [hexec] at h₁
        cases h₁
        cases hs
      | true =>
        rw [hd₁, if_pos rfl] at hans
        subst hans
        refine ⟨fun h => Or.inr ⟨rfl, Or.inr (hmerged.1 (h _ _ hexec rfl).1)⟩, fun h r₁ s₁ h₁ _ => ?_⟩
        rw [hexec] at h₁
        cases h₁
        rcases h with h | ⟨-, h | h⟩
        · exact absurd hr h
        · cases h
        · exact ⟨hmerged.2 h, rfl, rfl⟩
  · rw [if_neg hr] at hcall
    obtain ⟨s', hexec⟩ := hcall
    refine ⟨fun _ => Or.inl hr, fun _ r₁ s₁ h₁ => ?_⟩
    rw [hexec] at h₁
    cases h₁

end

/-- `INSERT INTO t (A) VALUES (1)`. -/
def insertA : SqlStatement :=
  { type := .insert, tableName := str "t", columns := [str "A"], values := [.int64 1]
    rawSql := str "INSERT INTO t (A) VALUES (1)" }

/-- `INSERT INTO t (A, B) VALUES (1, 2)`. -/
def insertAB : SqlStatement :=
  { insertA with columns := [str "A", str "B"], values := [.int64 1, .int64 2]
                 rawSql := str "INSERT INTO t (A, B) VALUES (1, 2)" }

example : SqlParser.parse insertA.rawSql = some insertA ∧ SqlParser.parse insertAB.rawSql = some insertAB := by
  decide +kernel

/-- The row `1` there is: `A` is 1 and `B` is 0. -/
def previous : Row :=
  { key := str "1", columns := ((∅ : Columns).insert (str "A") (.int64 1)).insert (str "B") (.int64 0) }

def previousEnv : Env where
  order := .sorted
  toJsonLib := .ofTable
    [(rowJson previous, str "\x7b\"columns\":\x7b\"A\":1,\"B\":0\x7d,\"key\":\"1\"\x7d"),
     (rowJson (insertedRow insertA (.int64 1)), str "\x7b\"columns\":\x7b\"A\":1\x7d,\"key\":\"1\"\x7d"),
     (rowJson (insertedRow insertAB (.int64 1)), str "\x7b\"columns\":\x7b\"A\":1,\"B\":2\x7d,\"key\":\"1\"\x7d")]
    (by decide)

def previousTable : MemTable := { schema := ⟨str "t", [], []⟩, rows := (∅ : StrMap Row).insert (str "1") previous }

def previousStore : Store := { engine := { tables := (∅ : Tables).insert (str "t") previousTable } }

/-- The answer and the columns `A` and `B` of the row. -/
def answered : Executed → Option (SqlResult × Option (Option Value × Option Value))
  | .returned r s => some (r, (s.get (str "t") (str "1")).map fun row => (row.columns[str "A"]?, row.columns[str "B"]?))
  | _ => none

/-- The first batch is lost, the second is kept, and every column is named. -/
theorem insert_merges_allNamed :
    Merges (executeInsert previousEnv 100000 (fun n => { durable := n = 1 }) previousStore insertAB) insertAB (str "1") previous ∧
    answered (executeInsert previousEnv 100000 (fun n => { durable := n = 1 }) previousStore insertAB) =
      some (oneUpdate, some (some (.int64 1), some (.int64 2))) := by
  have hnamed : ∀ c, (previous.columns[c]?).isSome → c ∈ named insertAB := by
    intro c hc
    simp only [previous, OrdMap.getElem?_insert] at hc
    have hc' : c = str "A" ∨ c = str "B" := by
      by_contra hne
      push Not at hne
      simp [hne.1.symm, hne.2.symm] at hc
    rcases hc' with rfl | rfl <;> decide
  have hkey : keyText (.int64 1) = str "1" := by decide
  refine ⟨hkey ▸ (insert_merges_iff previousEnv 100000 _ previousStore insertAB (.int64 1) previous rfl (by decide)).2
    (Or.inr ⟨rfl, Or.inr hnamed⟩), by decide⟩

/-- `INSERT INTO t (A) VALUES (1)` succeeds: `B` is gone, and it reports an insert. -/
theorem insert_replaces : previousStore.get (str "t") (str "1") = some previous ∧
    answered (executeInsert previousEnv 100000 (fun _ => {}) previousStore insertA) =
      some (oneInsert, some (some (.int64 1), none)) ∧
    ¬ Merges (executeInsert previousEnv 100000 (fun _ => {}) previousStore insertA) insertA (str "1") previous := by
  have hrun : answered (executeInsert previousEnv 100000 (fun _ => {}) previousStore insertA) =
      some (oneInsert, some (some (.int64 1), none)) := by decide
  refine ⟨by decide, hrun, fun h => ?_⟩
  cases hexec : executeInsert previousEnv 100000 (fun _ => {}) previousStore insertA with
  | returned r s =>
    rw [hexec] at hrun h
    simp only [answered, Option.some.injEq, Prod.mk.injEq] at hrun
    obtain ⟨rfl, -⟩ := hrun
    exact absurd (h _ s rfl rfl).2.1 (by decide)
  | threw s =>
    rw [hexec] at hrun
    cases hrun
  | undefined =>
    rw [hexec] at hrun
    cases hrun

end SqlEngine

end OriginDB
