import Mathlib.Data.List.Permutation
import OriginDB.Lib.Machine
import OriginDB.Sql.Engine
import OriginDB.Wasm.StagedWrites
/-!
# UPDATE among other commits (`sql_engine.cpp:227-286`, `storage_engine.cpp:831-855`)

`ExecuteUpdate` reads the row, sets its columns in a copy and writes the whole copy back, in a transaction
that begins with the write. A commit that falls between the read and the write is overwritten, in the
columns the UPDATE does not set as well.

| here | there |
| --- | --- |
| `find i`       | `GetTable` and the WHERE clause (`:230-257`) |
| `get i`        | `storage_->Get` (`:262`) |
| `merge i`      | the loop over the columns (`:268-275`) |
| `write i io`   | `storage_->Update` (`:279`) |
| `reducer …`    | `CommitHostCall` of a reducer call, the other writer of rows |

`completed` is a history variable: what has been committed, in the order in which it was.
-/
namespace OriginDB

open JsonDoc ByteCodec Regex Machine Wasm

/-! ## What an UPDATE stores -/

section
variable {env : Env} {maxLag : Nat} {io : Io} {n : Bytes} {r r' : Row}

theorem applyWrite_update_congr (e : Engine) (now : UInt64) (hkey : r.key = r'.key) (hcols : r.columns = r'.columns) :
    applyWrite e ⟨.update, n, r⟩ now = applyWrite e ⟨.update, n, r'⟩ now := by
  obtain ⟨key, columns, version, timestamp⟩ := r
  cases hkey
  cases hcols
  rfl

theorem writeEvent_update_congr (ts now : UInt64) (old : Option Row) (hkey : r.key = r'.key)
    (hcols : r.columns = r'.columns) :
    writeEvent env true ts ⟨.update, n, r⟩ old now = writeEvent env true ts ⟨.update, n, r'⟩ old now := by
  obtain ⟨key, columns, version, timestamp⟩ := r
  cases hkey
  cases hcols
  rfl

theorem applyWrites_update_congr (ts : UInt64) (clock : Nat → UInt64) (i : Nat) (e : Engine) (hkey : r.key = r'.key)
    (hcols : r.columns = r'.columns) :
    (applyWrites env true ts clock i e [⟨.update, n, r⟩]).SameTables (applyWrites env true ts clock i e [⟨.update, n, r'⟩]) := by
  rw [applyWrites, applyWrites, applyWrite_update_congr e (clock i) hkey hcols]
  cases applyWrite e ⟨.update, n, r'⟩ (clock i) with
  | none => rfl
  | some p =>
    simp only
    rw [writeEvent_update_congr ts (clock i) p.2 hkey hcols]
    cases writeEvent env true ts ⟨.update, n, r'⟩ p.2 (clock i) with
    | none => rfl
    | some evs => rfl

theorem Called.SameTables.trans {α : Type} {a b c : Called α} (h : a.SameTables b) (h' : b.SameTables c) : a.SameTables c := by
  cases a <;> cases b <;> cases c <;> first | exact h.elim | exact h'.elim | skip
  case returned.returned.returned => exact ⟨h.1.trans h'.1, h.2.trans h'.2⟩
  case threw.threw.threw => exact Eq.trans (α := Tables) h h'

/-- Version and timestamp of the row an UPDATE hands over do not matter: `MemTable::Update` sets both. -/
theorem commit_update_congr (env : Env) (maxLag : Nat) (io : Io) (n : Bytes) {s t : Store}
    (h : s.engine.tables = t.engine.tables) (hkey : r.key = r'.key) (hcols : r.columns = r'.columns) :
    (s.commit env maxLag io [⟨.update, n, r⟩]).SameTables (t.commit env maxLag io [⟨.update, n, r'⟩]) :=
  (Store.commit_sameTables_of_applied (applyWrites_update_congr _ io.clock 0 s.engine hkey hcols)).trans
    (Store.commit_sameTables env maxLag io h _)

/-- An UPDATE that is committed found its row. -/
theorem get_of_commit_update {s st : Store} (h : s.commit env maxLag io [⟨.update, n, r⟩] = .returned true st) :
    ∃ old, s.get n r.key = some old := by
  cases hget : s.get n r.key with
  | some old => exact ⟨old, rfl⟩
  | none =>
    have hnone : applyWrite s.engine ⟨.update, n, r⟩ (io.clock 0) = none := by
      rw [applyWrite_eq_none]
      intro t ht
      refine ⟨by simp, ?_⟩
      simpa [Store.get, Store.getTable, ht, MemTable.get] using hget
    simp [Store.commit, OriginDB.commit, applyWrites, hnone] at h

end

/-- What it leaves there, and elsewhere. -/
theorem get_commit_update {env : Env} {maxLag : Nat} {io : Io} {n : Bytes} {r old : Row} {s st : Store}
    (h : s.commit env maxLag io [⟨.update, n, r⟩] = .returned true st) (hold : s.get n r.key = some old) (m k : Bytes) :
    st.get m k = if n = m ∧ r.key = k then some { r with version := old.version + 1, timestamp := io.clock 0 } else s.get m k := by
  obtain ⟨e, hafter, htabs⟩ := Store.after_commit h
  have hrow := hafter.rows m k
  rw [Store.get_eq, htabs, hrow, netRow, netRow]
  by_cases hat : n = m ∧ r.key = k
  · obtain ⟨rfl, rfl⟩ := hat
    rw [if_pos ⟨rfl, rfl⟩, if_pos ⟨rfl, rfl⟩, ← Store.get_eq, hold]
    simp [rowStep]
  · rw [if_neg hat, if_neg hat, Store.get_eq]

namespace SqlEngine

/-- The key in the WHERE clause, if there is one. -/
def updateKey (stmt : SqlStatement) : Option Bytes :=
  if stmt.whereClause = [] then none
  else (search wherePattern stmt.whereClause).map fun m =>
    let text := m.str 2 stmt.whereClause
    if text.head? = some 39 ∧ text.getLast? = some 39 then (text.drop 1).take (text.length - 2) else text

/-- The copy of the row with the columns set. -/
def updatedRow (stmt : SqlStatement) (key : Bytes) (row : Row) : Row :=
  { setColumns stmt.columns stmt.values row with key := key }

/-- **`ExecuteUpdate` step by step.** -/
theorem executeUpdate_of_steps {env : Env} {maxLag : Nat} (io : Nat → Io) {s st : Store} {stmt : SqlStatement} {key : Bytes}
    {row : Row} (hkey : updateKey stmt = some key) (hget : s.get stmt.tableName key = some row)
    (hcommit : s.commit env maxLag (io 0) [⟨.update, stmt.tableName, updatedRow stmt key row⟩] = .returned true st) :
    executeUpdate env maxLag io s stmt = .returned { success := true, rowsAffected := 1 } st := by
  have htable : ∃ t, s.getTable stmt.tableName = some t := by
    cases ht : s.getTable stmt.tableName with
    | none => simp [Store.get, ht] at hget
    | some t => exact ⟨t, rfl⟩
  obtain ⟨t, ht⟩ := htable
  unfold updateKey at hkey
  split at hkey
  · cases hkey
  · rename_i hwhere
    obtain ⟨m, hm, rfl⟩ := Option.map_eq_some_iff.1 hkey
    simp only [executeUpdate, ht, hwhere, if_false, hm, hget]
    rw [updatedRow] at hcommit
    rw [hcommit]

/-- The value an UPDATE gives to a column. -/
def assigned (stmt : SqlStatement) (c : Bytes) : Option Value :=
  (OrdMap.insertAll (∅ : Columns) (stmt.columns.zip stmt.values))[c]?

theorem updatedRow_column (stmt : SqlStatement) (key : Bytes) (row : Row) (c : Bytes) :
    (updatedRow stmt key row).columns[c]? = (assigned stmt c).or row.columns[c]? :=
  OrdMap.getElem?_insertAll row.columns _ c

/-- An UPDATE that succeeds has found its row, and committed the changed copy. -/
theorem executeUpdate_success {env : Env} {maxLag : Nat} {io : Nat → Io} {s st : Store} {stmt : SqlStatement} {r : SqlResult}
    (h : executeUpdate env maxLag io s stmt = .returned r st) (hr : r.success = true) :
    ∃ key row, updateKey stmt = some key ∧ s.get stmt.tableName key = some row ∧
      s.commit env maxLag (io 0) [⟨.update, stmt.tableName, updatedRow stmt key row⟩] = .returned true st := by
  unfold executeUpdate at h
  split at h
  · cases h
    cases hr
  · split at h
    · cases h
      cases hr
    · rename_i hwhere
      split at h
      · cases h
        cases hr
      · rename_i m hm
        simp only at h
        split at h
        · cases h
          cases hr
        · rename_i row hget
          refine ⟨_, row, by simp only [updateKey, hwhere, if_false, hm, Option.map_some], hget, ?_⟩
          split at h
          · cases h
          · rename_i hcommit
            cases h
            exact hcommit
          · cases h
            cases hr

end SqlEngine

/-! ## The interleaving -/

/-- What writes the row. -/
inductive Statement where
  | update (stmt : SqlStatement)
  | reducer (moduleName : Bytes) (call : HostCallContext)

namespace Statement

/-- An UPDATE that leaves the column alone, or sets it to `v`. -/
def Agrees (table key c : Bytes) (v : Value) : Statement → Prop
  | .update stmt => stmt.tableName = table → SqlEngine.updateKey stmt = some key →
      SqlEngine.assigned stmt c = none ∨ SqlEngine.assigned stmt c = some v
  | .reducer .. => False

/-- An UPDATE that sets the column to `v`. -/
def Sets (table key c : Bytes) (v : Value) : Statement → Prop
  | .update stmt => stmt.tableName = table ∧ SqlEngine.updateKey stmt = some key ∧ SqlEngine.assigned stmt c = some v
  | .reducer .. => False

end Statement

/-- An UPDATE on its way. -/
inductive UpdatePhase where
  | begun (stmt : SqlStatement)
  | found (stmt : SqlStatement) (key : Bytes)
  | got (stmt : SqlStatement) (key : Bytes) (row : Row)
  | merged (stmt : SqlStatement) (key : Bytes) (row : Row)
  /-- It answered an error before it wrote anything. -/
  | refused
  /-- It answered an error after it tried to write. -/
  | failed
  | done

namespace UpdatePhase

/-- What an UPDATE on its way holds comes from its statement. -/
def FromStatement : UpdatePhase → Prop
  | .found stmt key => SqlEngine.updateKey stmt = some key
  | .got stmt key _ => SqlEngine.updateKey stmt = some key
  | .merged stmt key row => SqlEngine.updateKey stmt = some key ∧ row.key = key
  | _ => True

/-- What it is about to write is what it would write were it to read the row now. -/
def Undisturbed (s : Store) : UpdatePhase → Prop
  | .merged stmt key row => ∀ now ∈ s.get stmt.tableName key, (SqlEngine.updatedRow stmt key now).columns = row.columns
  | _ => True

instance (s : Store) : (phase : UpdatePhase) → Decidable (phase.Undisturbed s)
  | .merged stmt key row => inferInstanceAs (Decidable (∀ now ∈ s.get stmt.tableName key,
      (SqlEngine.updatedRow stmt key now).columns = row.columns))
  | .begun _ | .found .. | .got .. | .refused | .failed | .done => isTrue trivial

end UpdatePhase

structure Writers where
  store : Store
  threads : List UpdatePhase := []
  completed : List (Statement × Io) := []

namespace Writers

inductive Label where
  | begin (stmt : SqlStatement)
  | find (i : Nat)
  | get (i : Nat)
  | merge (i : Nat)
  | write (i : Nat) (io : Io)
  | reducer (moduleName : Bytes) (call : HostCallContext) (io : Io)

def goTo (s : Writers) (i : Nat) (phase : UpdatePhase) : Writers := { s with threads := s.threads.set i phase }

section
variable (env : Env) (maxLag : Nat)

def step (s : Writers) : Label → Option Writers
  | .begin stmt => some { s with threads := s.threads ++ [.begun stmt] }
  | .find i =>
    match s.threads[i]? with
    | some (.begun stmt) =>
      match s.store.getTable stmt.tableName, SqlEngine.updateKey stmt with
      | some _, some key => some (s.goTo i (.found stmt key))
      | _, _ => some (s.goTo i .refused)
    | _ => none
  | .get i =>
    match s.threads[i]? with
    | some (.found stmt key) =>
      match s.store.get stmt.tableName key with
      | some row => some (s.goTo i (.got stmt key row))
      | none => some (s.goTo i .refused)
    | _ => none
  | .merge i =>
    match s.threads[i]? with
    | some (.got stmt key row) => some (s.goTo i (.merged stmt key (SqlEngine.updatedRow stmt key row)))
    | _ => none
  | .write i io =>
    match s.threads[i]? with
    | some (.merged stmt _ row) =>
      match s.store.commit env maxLag io [⟨.update, stmt.tableName, row⟩] with
      | .returned true st => some { s.goTo i .done with store := st, completed := s.completed ++ [(.update stmt, io)] }
      | .returned false st | .threw st => some { s.goTo i .failed with store := st }
    | _ => none
  | .reducer moduleName call io =>
    match commitHostCall env maxLag io moduleName call s.store with
    | .returned (.ok _) st => some { s with store := st, completed := s.completed ++ [(.reducer moduleName call, io)] }
    | .returned (.error _) st | .threw st => some { s with store := st, threads := s.threads ++ [.failed] }

/-- A statement with nobody in between; `none` unless it succeeds. -/
def alone (io : Io) (s : Store) : Statement → Option Store
  | .update stmt =>
    match SqlEngine.executeUpdate env maxLag (fun _ => io) s stmt with
    | .returned r st => if r.success then some st else none
    | _ => none
  | .reducer moduleName call =>
    match commitHostCall env maxLag io moduleName call s with
    | .returned (.ok _) st => some st
    | _ => none

/-- The statements one after the other. -/
def serial : List (Statement × Io) → Store → Option Store
  | [], s => some s
  | c :: cs, s => (alone env maxLag c.2 s c.1).bind (serial cs)

/-- The tables are as some serial order of the statements leaves them. -/
def Serializable (store : Store) (s : Writers) : Prop :=
  ∃ order t, order.Perm s.completed ∧ serial env maxLag order store = some t ∧ t.engine.tables = s.store.engine.tables

end

/-- Every statement that has tried to write has succeeded. -/
def Successful (s : Writers) : Prop := UpdatePhase.failed ∉ s.threads

/-- When an UPDATE writes, the columns it does not set are still as it read them. -/
def Undisturbed (s : Writers) : Label → Prop
  | .write i _ => ∀ phase ∈ s.threads[i]?, phase.Undisturbed s.store
  | _ => True

instance (s : Writers) : (l : Label) → Decidable (s.Undisturbed l)
  | .write i _ => inferInstanceAs (Decidable (∀ phase ∈ s.threads[i]?, phase.Undisturbed s.store))
  | .begin _ | .find _ | .get _ | .merge _ | .reducer .. => isTrue trivial

/-! ## The invariant -/

structure Inv (env : Env) (maxLag : Nat) (store : Store) (s : Writers) : Prop where
  serial : s.Successful → ∃ t, serial env maxLag s.completed store = some t ∧ t.engine.tables = s.store.engine.tables
  phases : ∀ phase ∈ s.threads, UpdatePhase.FromStatement phase

section
variable {env : Env} {maxLag : Nat} {store : Store} {s s' : Writers}

theorem serial_append {cs ds : List (Statement × Io)} {u t : Store} (hcs : Writers.serial env maxLag cs store = some u)
    (hds : Writers.serial env maxLag ds u = some t) : Writers.serial env maxLag (cs ++ ds) store = some t := by
  induction cs generalizing store with
  | nil =>
    cases hcs
    exact hds
  | cons c cs ih =>
    obtain ⟨v, hv, hrest⟩ := Option.bind_eq_some_iff.1 hcs
    exact Option.bind_eq_some_iff.2 ⟨v, hv, ih hrest⟩

theorem Successful.of_set {i : Nat} {old phase : UpdatePhase} (hold : s.threads[i]? = some old) (hne : old ≠ .failed)
    (h : UpdatePhase.failed ∉ s.threads.set i phase) : s.Successful := by
  intro hmem
  obtain ⟨j, hj⟩ := List.mem_iff_getElem?.1 hmem
  have hij : i ≠ j := by
    rintro rfl
    rw [hold] at hj
    exact hne (Option.some.inj hj)
  exact h (List.mem_iff_getElem?.2 ⟨j, by rw [List.getElem?_set_ne hij, hj]⟩)

theorem Inv.set_phases (h : Inv env maxLag store s) {i : Nat} {phase : UpdatePhase} (hp : phase.FromStatement) :
    ∀ p ∈ s.threads.set i phase, UpdatePhase.FromStatement p := by
  intro p hmem
  rcases List.mem_or_eq_of_mem_set hmem with hmem | rfl
  · exact h.phases p hmem
  · exact hp

/-- A step that writes nothing. -/
theorem Inv.goTo (h : Inv env maxLag store s) {i : Nat} {old phase : UpdatePhase} (hold : s.threads[i]? = some old)
    (hne : old ≠ .failed) (hp : phase.FromStatement) : Inv env maxLag store (s.goTo i phase) :=
  ⟨fun hs => h.serial (Successful.of_set hold hne hs), h.set_phases hp⟩

/-- An undisturbed UPDATE leaves the tables as it would alone. -/
theorem alone_update {stmt : SqlStatement} {key : Bytes} {row : Row} {io : Io} {t st : Store}
    (hkey : SqlEngine.updateKey stmt = some key) (hrow : row.key = key)
    (hcols : ∀ now ∈ s.store.get stmt.tableName key, (SqlEngine.updatedRow stmt key now).columns = row.columns)
    (htabs : t.engine.tables = s.store.engine.tables)
    (hcommit : s.store.commit env maxLag io [⟨.update, stmt.tableName, row⟩] = .returned true st) :
    ∃ t', alone env maxLag io t (.update stmt) = some t' ∧ t'.engine.tables = st.engine.tables := by
  obtain ⟨now, hnow⟩ := get_of_commit_update hcommit
  rw [hrow] at hnow
  have hkeys : (SqlEngine.updatedRow stmt key now).key = row.key := hrow.symm
  have hsame := commit_update_congr env maxLag io stmt.tableName htabs hkeys (hcols now hnow)
  rw [hcommit] at hsame
  have hget : t.get stmt.tableName key = some now := by rw [Store.get_congr htabs, hnow]
  cases ht : t.commit env maxLag io [⟨.update, stmt.tableName, SqlEngine.updatedRow stmt key now⟩] with
  | threw t' =>
    rw [ht] at hsame
    exact hsame.elim
  | returned ok t' =>
    rw [ht] at hsame
    obtain ⟨rfl, htabs'⟩ := hsame
    refine ⟨t', ?_, htabs'⟩
    rw [alone, SqlEngine.executeUpdate_of_steps (fun _ => io) hkey hget ht]
    rfl

/-- A reducer commit leaves the tables as it would alone. -/
theorem alone_reducer {moduleName : Bytes} {call : HostCallContext} {io : Io} {u : Unit} {t st : Store}
    (htabs : t.engine.tables = s.store.engine.tables)
    (hcommit : commitHostCall env maxLag io moduleName call s.store = .returned (.ok u) st) :
    ∃ t', alone env maxLag io t (.reducer moduleName call) = some t' ∧ t'.engine.tables = st.engine.tables := by
  have hsame := commitHostCall_sameTables env maxLag io moduleName call htabs
  rw [hcommit] at hsame
  cases ht : commitHostCall env maxLag io moduleName call t with
  | threw t' =>
    rw [ht] at hsame
    exact hsame.elim
  | returned r t' =>
    rw [ht] at hsame
    obtain ⟨rfl, htabs'⟩ := hsame
    exact ⟨t', by rw [alone, ht], htabs'⟩

/-- The next statement in the serial order. -/
theorem Inv.serial_snoc {c : Statement × Io} {st t : Store} (hserial : Writers.serial env maxLag s.completed store = some t)
    (halone : ∃ t', alone env maxLag c.2 t c.1 = some t' ∧ t'.engine.tables = st.engine.tables) :
    ∃ t', Writers.serial env maxLag (s.completed ++ [c]) store = some t' ∧ t'.engine.tables = st.engine.tables := by
  obtain ⟨t', hc, htabs⟩ := halone
  exact ⟨t', serial_append hserial (by simp [Writers.serial, hc]), htabs⟩

/-- **A step keeps the serial order.** -/
theorem Inv.step {l : Label} (h : Inv env maxLag store s) (hok : s.Undisturbed l)
    (hstep : Writers.step env maxLag s l = some s') : Inv env maxLag store s' := by
  cases l with
  | begin stmt =>
    cases hstep
    refine ⟨fun hs => h.serial fun hf => hs (List.mem_append_left _ hf), fun p hp => ?_⟩
    rcases List.mem_append.1 hp with hp | hp
    · exact h.phases p hp
    · rw [List.mem_singleton.1 hp]
      trivial
  | find i =>
    simp only [Writers.step] at hstep
    split at hstep
    · rename_i stmt hi
      split at hstep
      · rename_i key _ hkey
        cases hstep
        exact h.goTo hi (by simp) hkey
      · cases hstep
        exact h.goTo hi (by simp) trivial
    · cases hstep
  | get i =>
    simp only [Writers.step] at hstep
    split at hstep
    · rename_i stmt key hi
      have hkey : SqlEngine.updateKey stmt = some key := h.phases _ (List.mem_of_getElem? hi)
      split at hstep
      · cases hstep
        exact h.goTo hi (by simp) hkey
      · cases hstep
        exact h.goTo hi (by simp) trivial
    · cases hstep
  | merge i =>
    simp only [Writers.step] at hstep
    split at hstep
    · rename_i stmt key row hi
      cases hstep
      exact h.goTo hi (by simp) ⟨h.phases _ (List.mem_of_getElem? hi), rfl⟩
    · cases hstep
  | write i io =>
    simp only [Writers.step] at hstep
    split at hstep
    · rename_i stmt key row hi
      obtain ⟨hkey, hrow⟩ := h.phases _ (List.mem_of_getElem? hi)
      have hcols := hok _ hi
      have hfailed : UpdatePhase.failed ∈ s.threads.set i .failed :=
        List.mem_set (List.getElem?_eq_some_iff.1 hi).1 _
      split at hstep
      · rename_i st hcommit
        cases hstep
        refine ⟨fun hs => ?_, h.set_phases trivial⟩
        obtain ⟨t, hserial, htabs⟩ := h.serial (Successful.of_set hi (by simp) hs)
        exact Inv.serial_snoc hserial (alone_update hkey hrow hcols htabs hcommit)
      · cases hstep
        exact ⟨fun hs => absurd hfailed hs, h.set_phases trivial⟩
      · cases hstep
        exact ⟨fun hs => absurd hfailed hs, h.set_phases trivial⟩
    · cases hstep
  | reducer moduleName call io =>
    have hfailed : ∀ st, Inv env maxLag store { s with store := st, threads := s.threads ++ [.failed] } := by
      refine fun st => ⟨fun hs => absurd (by simp) hs, fun p hp => ?_⟩
      rcases List.mem_append.1 hp with hp | hp
      · exact h.phases p hp
      · rw [List.mem_singleton.1 hp]
        trivial
    simp only [Writers.step] at hstep
    split at hstep
    · rename_i u st hcommit
      cases hstep
      refine ⟨fun hs => ?_, h.phases⟩
      obtain ⟨t, hserial, htabs⟩ := h.serial hs
      exact Inv.serial_snoc hserial (alone_reducer htabs hcommit)
    · cases hstep
      exact hfailed _
    · cases hstep
      exact hfailed _

end

/-! ## What a serial order keeps -/

/-- A column of a row. -/
def column (s : Store) (table key c : Bytes) : Option Value := (s.get table key).bind fun r => r.columns[c]?

theorem column_alone {env : Env} {maxLag : Nat} {io : Io} {s st : Store} {c : Statement} {table key col : Bytes} {v : Value}
    (h : alone env maxLag io s c = some st) (hagree : c.Agrees table key col v)
    (hset : c.Sets table key col v ∨ column s table key col = some v) : column st table key col = some v := by
  cases c with
  | reducer moduleName call => exact hagree.elim
  | update stmt =>
    rw [alone] at h
    split at h
    · rename_i r st' hexec
      split at h
      · rename_i hr
        cases h
        obtain ⟨key', row, hkey', hget, hcommit⟩ := SqlEngine.executeUpdate_success hexec hr
        rw [column, get_commit_update hcommit hget]
        by_cases hat : stmt.tableName = table ∧ (SqlEngine.updatedRow stmt key' row).key = key
        · obtain ⟨htable, hkey⟩ := hat
          rw [if_pos ⟨htable, hkey⟩]
          -- it is the row: the column is assigned `v`, or as it was
          have hkey' : SqlEngine.updateKey stmt = some key := hkey'.trans (congrArg some hkey)
          have hget' : s.get table key = some row := by rw [← htable, ← hkey]; exact hget
          have hcol := SqlEngine.updatedRow_column stmt key' row col
          simp only [Option.bind_some, hcol]
          rcases hagree htable hkey' with hnone | hsome
          · rcases hset with ⟨-, -, hset⟩ | hset
            · rw [hnone] at hset
              cases hset
            · rw [column, hget', Option.bind_some] at hset
              rw [hnone, hset, Option.none_or]
          · rw [hsome, Option.some_or]
        · rw [if_neg hat]
          rcases hset with ⟨htable, hkey, -⟩ | hset
          · rw [hkey] at hkey'
            exact absurd ⟨htable, (Option.some.inj hkey').symm⟩ hat
          · exact hset
      · cases h
    · cases h

/-- **In a serial order** a column keeps the value all UPDATEs of it agree on. -/
theorem column_serial {env : Env} {maxLag : Nat} {order : List (Statement × Io)} {s t : Store} {table key col : Bytes} {v : Value}
    (h : serial env maxLag order s = some t) (hagree : ∀ c ∈ order, c.1.Agrees table key col v)
    (hset : (∃ c ∈ order, c.1.Sets table key col v) ∨ column s table key col = some v) : column t table key col = some v := by
  induction order generalizing s with
  | nil =>
    cases h
    simpa using hset
  | cons c cs ih =>
    obtain ⟨u, hu, hrest⟩ := Option.bind_eq_some_iff.1 h
    have hc := hagree c (by simp)
    refine ih hrest (fun d hd => hagree d (by simp [hd])) ?_
    rcases hset with ⟨d, hd, hsets⟩ | hset
    · rcases List.mem_cons.1 hd with rfl | hd
      · exact Or.inr (column_alone hu hc (Or.inl hsets))
      · exact Or.inl ⟨d, hd, hsets⟩
    · exact Or.inr (column_alone hu hc (Or.inr hset))

/-- A column that is only ever set to one value, by UPDATEs alone, has it. -/
def NothingLost (s : Writers) : Prop :=
  ∀ table key col v, (∀ c ∈ s.completed, c.1.Agrees table key col v) → (∃ c ∈ s.completed, c.1.Sets table key col v) →
    column s.store table key col = some v

/-- **No update is lost** in a run in which every UPDATE finds, when it writes, the columns it does not set as
it read them: the statements are in a serial order, and what UPDATEs of different columns set is there. -/
theorem updates_serializable (env : Env) (maxLag : Nat) (store : Store) (ls : List Label) (s : Writers)
    (hok : Allowed (step env maxLag) Undisturbed { store := store } ls)
    (hrun : run (step env maxLag) { store := store } ls = some s) (hall : s.Successful) :
    Serializable env maxLag store s ∧ NothingLost s := by
  have hboot : Inv env maxLag store { store := store } := ⟨fun _ => ⟨store, rfl, rfl⟩, by simp⟩
  obtain ⟨t, hserial, htabs⟩ := (run_invariant (Inv env maxLag store) (fun s l s' h hl hs => h.step hl hs) hboot hok hrun).serial hall
  refine ⟨⟨s.completed, t, .refl _, hserial, htabs⟩, fun table key col v hagree hset => ?_⟩
  rw [← column_serial hserial hagree (Or.inl hset), column, column, Store.get_congr htabs]

/-- Row `1` of `t` with the columns `a` and `b`. -/
def rowAB (a b : Int64) : Row :=
  { key := str "1", columns := ((∅ : Columns).insert (str "a") (.int64 a)).insert (str "b") (.int64 b) }

def rowABEnv : Env where
  order := .sorted
  toJsonLib := .ofTable
    (([(0, 0), (0, 1), (1, 0), (1, 1)] : List (Int × Int)).map fun p => (rowJson (rowAB (Int64.ofInt p.1) (Int64.ofInt p.2)),
      str "\x7b\"columns\":\x7b\"a\":" ++ Numbers.intText p.1 ++ str ",\"b\":" ++ Numbers.intText p.2 ++
        str "\x7d,\"key\":\"1\"\x7d"))
    (by decide)

def tableAB : MemTable := { schema := ⟨str "t", [], []⟩, rows := (∅ : StrMap Row).insert (str "1") (rowAB 0 0) }

def zeros : Store := { engine := { tables := (∅ : Tables).insert (str "t") tableAB } }

/-- `UPDATE t SET a = 1 WHERE id = 1`. -/
def setA : SqlStatement :=
  { type := .update, tableName := str "t", columns := [str "a"], values := [.int64 1], whereClause := str "ID = 1"
    rawSql := str "UPDATE t SET a = 1 WHERE id = 1" }

/-- `UPDATE t SET b = 1 WHERE id = 1`. -/
def setB : SqlStatement :=
  { setA with columns := [str "b"], rawSql := str "UPDATE t SET b = 1 WHERE id = 1" }

example : SqlParser.parse setA.rawSql = some setA ∧ SqlParser.parse setB.rawSql = some setB := by decide

/-- The values of `a` and `b`. -/
def valuesAB (s : Store) : List (Option Value) :=
  [str "a", str "b"].map fun c => (s.get (str "t") (str "1")).bind fun r => r.columns[c]?

/-- The second UPDATE reads after the first has written. -/
def inTurn : List Label :=
  [.begin setA, .begin setB, .find 0, .get 0, .merge 0, .find 1, .write 0 {}, .get 1, .merge 1, .write 1 {}]

theorem updates_serializable_inTurn : ∃ s, run (step rowABEnv 100000) { store := zeros } inTurn = some s ∧
    s.completed.length = 2 ∧ Serializable rowABEnv 100000 zeros s ∧ NothingLost s := by
  have hfacts : ((run (step rowABEnv 100000) { store := zeros } inTurn).map fun s =>
      (s.completed.length, s.threads.all fun | .done => true | _ => false)) = some (2, true) := by
    decide
  obtain ⟨s, hrun, hs⟩ := Option.map_eq_some_iff.1 hfacts
  simp only [Prod.mk.injEq, List.all_eq_true] at hs
  obtain ⟨hlen, hdone⟩ := hs
  refine ⟨s, hrun, hlen, updates_serializable rowABEnv 100000 zeros inTurn s (by decide +kernel) hrun fun hf => ?_⟩
  simpa using hdone _ hf

/-- Both read before either writes. -/
def overtaken : List Label :=
  [.begin setA, .begin setB, .find 0, .get 0, .find 1, .get 1, .merge 0, .write 0 {}, .merge 1, .write 1 {}]

/-- Both UPDATEs succeed, and what the first has set is gone. -/
theorem update_lost : ∃ s, run (step rowABEnv 100000) { store := zeros } overtaken = some s ∧ s.Successful ∧
    s.completed.length = 2 ∧ valuesAB s.store = [some (.int64 0), some (.int64 1)] ∧
    ¬ Serializable rowABEnv 100000 zeros s := by
  have hfacts : ((run (step rowABEnv 100000) { store := zeros } overtaken).map fun s =>
      (s.completed.length, s.threads.all fun | .done => true | _ => false)) = some (2, true) := by
    decide
  obtain ⟨s, hrun, hs⟩ := Option.map_eq_some_iff.1 hfacts
  simp only [Prod.mk.injEq, List.all_eq_true] at hs
  obtain ⟨hlen, hdone⟩ := hs
  have hvalues : valuesAB s.store = [some (.int64 0), some (.int64 1)] := by
    have h : (run (step rowABEnv 100000) { store := zeros } overtaken).map (fun s => valuesAB s.store) =
        some [some (.int64 0), some (.int64 1)] := by decide +kernel
    simpa [hrun] using h
  -- in either order both columns are set
  have hboth : (s.completed.permutations'.map fun order => (serial rowABEnv 100000 order zeros).map valuesAB) =
      List.replicate 2 (some [some (.int64 1), some (.int64 1)]) := by
    have h : (run (step rowABEnv 100000) { store := zeros } overtaken).map (fun s =>
        s.completed.permutations'.map fun order => (serial rowABEnv 100000 order zeros).map valuesAB) =
        some (List.replicate 2 (some [some (.int64 1), some (.int64 1)])) := by decide +kernel
    simpa only [hrun, Option.map_some, Option.some.injEq] using h
  refine ⟨s, hrun, fun hf => by simpa using hdone _ hf, hlen, hvalues, ?_⟩
  rintro ⟨order, t, hperm, hserial, htabs⟩
  have hmem := List.mem_map_of_mem (f := fun order => (serial rowABEnv 100000 order zeros).map valuesAB)
    (List.mem_permutations'.2 hperm)
  rw [hboth, hserial] at hmem
  have hset : valuesAB t = [some (.int64 1), some (.int64 1)] := by simpa using hmem
  have hsame : valuesAB t = valuesAB s.store := by
    rw [valuesAB, valuesAB, Store.get_congr htabs]
  rw [hsame, hvalues] at hset
  exact absurd hset (by decide +kernel)

end Writers

end OriginDB
