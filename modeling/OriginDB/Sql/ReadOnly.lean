import OriginDB.Sql.Engine
import OriginDB.Wasm.Execute
/-!
# Statements that only read (`src/sql/sql_engine.cpp:32-310`)

A statement that succeeds and leaves every table as it was is a SELECT: an INSERT or an UPDATE that succeeds leaves a row
with another version behind, and a CREATE TABLE a table (`readTable_of_execute`).
-/
namespace OriginDB

open JsonDoc ByteCodec Regex

/-- No table changed. -/
def Store.SameRows (s s' : Store) : Prop :=
  ∀ n : Bytes, (s'.getTable n).map (fun t => (t.schema, t.rows)) = (s.getTable n).map fun t => (t.schema, t.rows)

namespace Store.SameRows

variable {s s' s'' : Store}

theorem refl (s : Store) : s.SameRows s := fun _ => rfl

theorem symm (h : s.SameRows s') : s'.SameRows s := fun n => (h n).symm

theorem trans (h : s.SameRows s') (h' : s'.SameRows s'') : s.SameRows s'' := fun n => (h' n).trans (h n)

theorem getTable {n : Bytes} {t : MemTable} (h : s.SameRows s') (ht : s.getTable n = some t) :
    ∃ t', s'.getTable n = some t' ∧ t'.schema = t.schema ∧ t'.rows = t.rows := by
  have hn := h n
  rw [ht, Option.map_some, Option.map_eq_some_iff] at hn
  obtain ⟨t', ht', heq⟩ := hn
  cases t'
  simp only [Prod.mk.injEq] at heq
  exact ⟨_, ht', heq⟩

theorem get (h : s.SameRows s') (n k : Bytes) : s'.get n k = s.get n k := by
  rw [Store.get, Store.get]
  cases ht : s.getTable n with
  | some t =>
    obtain ⟨t', ht', -, hrows⟩ := h.getTable ht
    rw [ht', Option.bind_some, Option.bind_some, MemTable.get, MemTable.get, hrows]
  | none =>
    have hn := h n
    rw [ht, Option.map_none, Option.map_eq_none_iff] at hn
    rw [hn]

end Store.SameRows

/-! ## A write leaves a row with another version -/

/-- A row is put in, or one of the next version in its place. -/
def Rewritten (old new : Option Row) : Prop := ∃ r, new = some r ∧ ∀ r', old = some r' → r.version = r'.version + 1

section
variable {a b c : Option Row}

theorem Rewritten.ne (h : Rewritten a b) : a ≠ b := by
  obtain ⟨r, rfl, hversion⟩ := h
  rintro rfl
  have hnext := hversion r rfl
  exact absurd (congrArg UInt64.toNat hnext) (by rw [UInt64.toNat_add, UInt64.toNat_one]; omega)

/-- Nor do two writes lead back. -/
theorem Rewritten.ne_trans (h : Rewritten a b) (h' : Rewritten b c) : a ≠ c := by
  obtain ⟨r, rfl, hversion⟩ := h
  obtain ⟨r', rfl, hversion'⟩ := h'
  rintro rfl
  have hnext := (hversion' r rfl).trans (congrArg (· + 1) (hversion r' rfl))
  exact absurd (congrArg UInt64.toNat hnext) (by rw [UInt64.toNat_add, UInt64.toNat_add, UInt64.toNat_one]; omega)

end

section
variable {env : Env} {maxLag : Nat} {io : Io} {s s' : Store} {w : WriteOperation} {b : Bool}

/-- A commit of one write that returns has applied it, or refused it. -/
theorem commit_one (h : s.commit env maxLag io [w] = .returned b s') :
    (∃ e old, applyWrite s.engine w (io.clock 0) = some (e, old) ∧ s'.engine.tables = e.tables) ∨
    (b = false ∧ applyWrite s.engine w (io.clock 0) = none) := by
  simp only [Store.commit, OriginDB.commit, ne_eq, not_true_eq_false, if_false, reduceCtorEq, applyWrites] at h
  cases happ : applyWrite s.engine w (io.clock 0) with
  | none =>
    rw [happ] at h
    cases h
    exact Or.inr ⟨rfl, rfl⟩
  | some p =>
    obtain ⟨e, old⟩ := p
    refine Or.inl ⟨e, old, rfl, ?_⟩
    rw [happ] at h
    simp only at h
    cases hev : writeEvent env true (s.nextTimestamp + 1 - 1) w old (io.clock 0) with
    | none =>
      rw [hev] at h
      cases h
    | some events =>
      rw [hev] at h
      simp only at h
      split at h
      · cases h
        rfl
      · cases h
        rfl

theorem rewritten_of_applyWrite {e e' : Engine} {now : UInt64} {old : Option Row} (hop : w.op ≠ .delete)
    (h : applyWrite e w now = some (e', old)) :
    Rewritten (rowOf e.tables w.tableName w.row.key) (rowOf e'.tables w.tableName w.row.key) := by
  obtain ⟨t, t', ht, htabs, -, hstep⟩ := applyWrite_eq_some h
  have hold : rowOf e.tables w.tableName w.row.key = t.rows[w.row.key]? := by
    rw [rowOf, ht]
    rfl
  have hnew : rowOf e'.tables w.tableName w.row.key = t'.rows[w.row.key]? := by
    rw [rowOf, htabs, OrdMap.getElem?_insert, if_pos rfl]
    rfl
  rw [hold, hnew]
  rcases hstep with ⟨-, hnone, hrows, -⟩ | ⟨-, -, r, hr, hrows⟩ | ⟨hdel, -⟩
  · refine ⟨w.row, by rw [hrows, OrdMap.getElem?_insert, if_pos rfl], ?_⟩
    intro r' hr'
    rw [hnone] at hr'
    cases hr'
  · refine ⟨_, by rw [hrows, OrdMap.getElem?_insert, if_pos rfl], ?_⟩
    intro r' hr'
    rw [hr, Option.some.injEq] at hr'
    rw [← hr']
  · exact absurd hdel hop

theorem rewritten_of_commit (hop : w.op ≠ .delete) (h : s.commit env maxLag io [w] = .returned true s') :
    Rewritten (s.get w.tableName w.row.key) (s'.get w.tableName w.row.key) := by
  rcases commit_one h with ⟨e, old, happ, htabs⟩ | ⟨hfalse, -⟩
  · rw [Store.get_eq, Store.get_eq, htabs]
    exact rewritten_of_applyWrite hop happ
  · cases hfalse

/-- An INSERT into a table that is there is applied, whether or not it becomes durable. -/
theorem rewritten_of_insert {table : Bytes} {row : Row} {t : MemTable} (ht : s.getTable table = some t)
    (h : s.commit env maxLag io [⟨.insert, table, row⟩] = .returned b s') : Rewritten (s.get table row.key) (s'.get table row.key) := by
  rcases commit_one h with ⟨e, old, happ, htabs⟩ | ⟨-, hnone⟩
  · rw [Store.get_eq, Store.get_eq, htabs]
    exact rewritten_of_applyWrite (w := ⟨.insert, table, row⟩) (by simp) happ
  · exact absurd rfl (applyWrite_eq_none.1 hnone t ht).1

end

/-! ## Each kind of statement -/

namespace SqlEngine

section
variable {env : Env} {maxLag : Nat} {io : Nat → Io} {s s' : Store} {stmt : SqlStatement} {r : SqlResult}

theorem rewritten_of_convertToUpdate {table key : Bytes} {row : Row} (h : convertToUpdate env maxLag io s table key row = .returned r s')
    (hsuccess : r.success = true) : Rewritten (s.get table key) (s'.get table key) := by
  unfold convertToUpdate at h
  split at h
  · cases h
  · rename_i hcommit
    cases h
    exact rewritten_of_commit (w := ⟨.update, table, { row with key := key }⟩) (by simp) hcommit
  · cases h
    cases hsuccess

theorem not_sameRows_of_insert (h : executeInsert env maxLag io s stmt = .returned r s') (hsuccess : r.success = true) :
    ¬ s.SameRows s' := by
  intro hsame
  unfold executeInsert at h
  split at h
  · cases h
  · split at h
    · cases h
      cases hsuccess
    · rename_i t ht
      dsimp only at h
      split at h
      · cases h
      · rename_i hcommit
        cases h
        exact (rewritten_of_insert ht hcommit).ne (hsame.get _ _).symm
      · -- the row was applied and not made durable, the UPDATE came on top of it
        rename_i hcommit
        have hfirst := rewritten_of_insert ht hcommit
        split at h
        · exact (hfirst.ne_trans (rewritten_of_convertToUpdate h hsuccess)) (hsame.get _ _).symm
        · exact (hfirst.ne_trans (rewritten_of_convertToUpdate h hsuccess)) (hsame.get _ _).symm

theorem not_sameRows_of_update (h : executeUpdate env maxLag io s stmt = .returned r s') (hsuccess : r.success = true) :
    ¬ s.SameRows s' := by
  intro hsame
  unfold executeUpdate at h
  split at h
  · cases h
    cases hsuccess
  · split at h
    · cases h
      cases hsuccess
    · split at h
      · cases h
        cases hsuccess
      · dsimp only at h
        split at h
        · cases h
          cases hsuccess
        · split at h
          · cases h
          · rename_i hcommit
            cases h
            exact (rewritten_of_commit (by simp) hcommit).ne (hsame.get _ _).symm
          · cases h
            cases hsuccess

theorem not_sameRows_of_createTable (h : executeCreateTable env s stmt = .returned r s') (hsuccess : r.success = true) :
    ¬ s.SameRows s' := by
  intro hsame
  unfold executeCreateTable at h
  rcases Wasm.createTable_cases env s stmt.tableSchema with ⟨-, hthere⟩ | ⟨hnone, s₁, -, htabs, ⟨-, hthrew⟩ | ⟨-, hcreated⟩⟩
  · rw [hthere] at h
    cases h
    cases hsuccess
  · rw [hthrew] at h
    cases h
  · rw [hcreated] at h
    cases h
    have hnew := hsame stmt.tableSchema.name
    rw [hnone, Store.getTable, htabs, OrdMap.getElem?_insert, if_pos rfl] at hnew
    cases hnew

end

/-- The table a text reads, if it is a SELECT. -/
def readTable (sql : Bytes) : Option Bytes :=
  (SqlParser.parse sql).bind fun stmt => if stmt.type = .select then some stmt.tableName else none

/-- All rows of a table, with its columns (sql_engine.cpp:203-222). -/
def selectResult (t : MemTable) : SqlResult :=
  { success := true
    columns := t.schema.columns.map fun c => ⟨c.name, dataTypeToString c.type, c.nullable⟩
    rows := (t.scan [] []).map Prod.snd }

section
variable {env : Env} {maxLag : Nat} {io : Nat → Io} {s s' : Store} {sql u : Bytes} {t : MemTable} {r : SqlResult}

theorem execute_of_readTable (hread : readTable sql = some u) (ht : s.getTable u = some t) :
    execute env maxLag io s sql = .returned (selectResult t) s := by
  obtain ⟨stmt, hparse, hstmt⟩ := Option.bind_eq_some_iff.1 hread
  split at hstmt
  · rename_i hselect
    cases hstmt
    rw [execute, hparse]
    simp only [hselect, executeSelect, ht]
    rfl
  · cases hstmt

/-- **A statement that answers and changes no table is a SELECT** from a table that is there. -/
theorem readTable_of_execute (h : execute env maxLag io s sql = .returned r s') (hsuccess : r.success = true) (hsame : s.SameRows s') :
    ∃ u t, readTable sql = some u ∧ s.getTable u = some t ∧ r = selectResult t ∧ s' = s := by
  unfold execute at h
  split at h
  · cases h
    cases hsuccess
  · rename_i stmt hparse
    split at h
    · exact absurd hsame (not_sameRows_of_createTable h hsuccess)
    · exact absurd hsame (not_sameRows_of_insert h hsuccess)
    · rename_i hselect
      cases h
      unfold executeSelect at hsuccess ⊢
      cases ht : s.getTable stmt.tableName with
      | none =>
        rw [ht] at hsuccess
        cases hsuccess
      | some t => exact ⟨stmt.tableName, t, by rw [readTable, hparse, Option.bind_some, if_pos hselect], ht, rfl, rfl⟩
    · exact absurd hsame (not_sameRows_of_update h hsuccess)
    · cases h
      cases hsuccess

end

end SqlEngine

end OriginDB
