import OriginDB.Sql.ReadOnly
import OriginDB.Sql.SubscribedTable
import OriginDB.Websocket.Handlers
import OriginDB.Websocket.Routing
/-!
# The snapshot of all tables (`SendInitialStateAllTables`, `src/websocket/websocket_server.cpp:1213-1304`)

The server pastes the name of each table into a text that it has the SQL engine parse. A table's name is any text a module
chose, but only a word is read back as itself: behind another name stands a statement that fails, that reads another table or
that is no SELECT at all.

| here | there |
| --- | --- |
| `Store.listTables`       | `ListTables` (`storage_engine.cpp:278`) |
| `collect`                | the loop over the tables (`:1229-1290`) |
| `TableState`, `document` | `table_state` or `error_state`, and `all_tables_state` |
-/
namespace OriginDB

open JsonDoc ByteCodec Regex

def Store.listTables (order : HashOrder) (s : Store) : List Bytes := (order.list s.engine.tables).map Prod.fst

namespace AllTables

/-! ## The report -/

/-- What the report has under the name of a table. -/
inductive TableState where
  | table (columns : List ResultColumn) (rows : List Row)
  | error (message : Bytes)

def rowState (row : Row) : Json :=
  .object [(str "data", snapshotData row), (str "key", .string row.key), (str "timestamp", .int row.timestamp.toNat),
    (str "version", .int row.version.toNat)]

def columnState (c : ResultColumn) : Json :=
  .object [(str "name", .string c.name), (str "nullable", .bool c.nullable), (str "type", .string c.type)]

def TableState.json : TableState → Json
  | .table columns rows =>
    .object [(str "columns", .array (columns.map columnState)), (str "rows", .array (rows.map rowState)),
      (str "rows_count", .int rows.length)]
  | .error message => .object [(str "error", .string message), (str "rows_count", .int 0)]

def tableState (r : SqlResult) : TableState := if r.success then .table r.columns r.rows else .error r.error

/-- The `initial_state_all_tables` document. -/
def document (subscriptionId : Bytes) (count : Nat) (states : StrMap TableState) : Json :=
  .object [(str "subscription_id", .string subscriptionId), (str "tables", .object (states.toList.map fun p => (p.1, p.2.json))),
    (str "tables_count", .int count), (str "type", .string (str "initial_state_all_tables"))]

/-- How the loop ends. -/
inductive Collected where
  | all (states : StrMap TableState) (s : Store)
  | threw (s : Store)
  | undefined

section
variable (env : Env) (maxLag : Nat) (io : Bytes → Nat → Io)

/-- One statement after the other; `io` is what each of them meets. -/
def collect : StrMap TableState → Store → List Bytes → Collected
  | states, s, [] => .all states s
  | states, s, name :: names =>
    match SqlEngine.execute env maxLag (io name) s (selectAll name) with
    | .returned r s => collect (states.insert name (tableState r)) s names
    | .threw s => .threw s
    | .undefined => .undefined

/-- The rows of a table as they are reported. -/
def rowStates (table : MemTable) : List Json := (SqlEngine.selectResult table).rows.map rowState

/-- **The snapshot is complete**: it is sent with the rows of every table under its name, and no statement changed a table. -/
structure Complete (s : Store) (subscriptionId : Bytes) : Prop where
  reports : ∃ states s' text, collect env maxLag io ∅ s (s.listTables env.order) = .all states s' ∧
    env.dump (document subscriptionId (s.listTables env.order).length states) = some text ∧
    ∀ t table, s.getTable t = some table →
      ∃ columns rows, states[t]? = some (.table columns rows) ∧ rows.map rowState = rowStates table
  unchanged : ∀ n states s', collect env maxLag io ∅ s ((s.listTables env.order).take n) = .all states s' → s.SameRows s'

end

/-! ## Running the statements -/

section
variable {env : Env} {maxLag : Nat} {io : Bytes → Nat → Io} {s s' : Store} {states states' : StrMap TableState}
  {name t : Bytes} {names : List Bytes}

theorem collect_cons (h : collect env maxLag io states s (name :: names) = .all states' s') :
    ∃ r s₁, SqlEngine.execute env maxLag (io name) s (selectAll name) = .returned r s₁ ∧
      collect env maxLag io (states.insert name (tableState r)) s₁ names = .all states' s' := by
  rw [collect] at h
  split at h
  · exact ⟨_, _, ‹_›, h⟩
  · cases h
  · cases h

/-- What is collected from a list is collected from its beginning first. -/
theorem collect_append {more : List Bytes} (h : collect env maxLag io states s (names ++ more) = .all states' s') :
    ∃ states₁ s₁, collect env maxLag io states s names = .all states₁ s₁ ∧ collect env maxLag io states₁ s₁ more = .all states' s' := by
  induction names generalizing states s with
  | nil => exact ⟨states, s, rfl, h⟩
  | cons name names ih =>
    obtain ⟨r, s₁, hexec, hrest⟩ := collect_cons h
    obtain ⟨states₂, s₂, hnames, hmore⟩ := ih hrest
    exact ⟨states₂, s₂, by rw [collect, hexec]; exact hnames, hmore⟩

theorem collect_append_of {states₁ : StrMap TableState} {s₁ : Store} {more : List Bytes}
    (h : collect env maxLag io states s names = .all states₁ s₁) :
    collect env maxLag io states s (names ++ more) = collect env maxLag io states₁ s₁ more := by
  induction names generalizing states s with
  | nil =>
    cases h
    rfl
  | cons name names ih =>
    obtain ⟨r, s₂, hexec, hrest⟩ := collect_cons h
    rw [List.cons_append, collect, hexec]
    exact ih hrest

/-- A name that does not come up keeps its state. -/
theorem getElem?_collect (ht : t ∉ names) (h : collect env maxLag io states s names = .all states' s') : states'[t]? = states[t]? := by
  induction names generalizing states s with
  | nil =>
    cases h
    rfl
  | cons name names ih =>
    obtain ⟨r, s₁, -, hrest⟩ := collect_cons h
    rw [ih (List.not_mem_of_not_mem_cons ht) hrest, OrdMap.getElem?_insert, if_neg (Ne.symm (List.ne_of_not_mem_cons ht))]

/-- **Where every text reads a table** nothing changes, and each name has the rows of the table it reads. -/
theorem collect_of_readTable (env : Env) (maxLag : Nat) (io : Bytes → Nat → Io) (h : ∀ t ∈ names, ∃ u, SqlEngine.readTable (selectAll t) = some u ∧ (s.getTable u).isSome = true)
    (states : StrMap TableState) : ∃ states', collect env maxLag io states s names = .all states' s ∧
      (∀ t, t ∉ names → states'[t]? = states[t]?) ∧
      ∀ t ∈ names, ∀ u table, SqlEngine.readTable (selectAll t) = some u → s.getTable u = some table →
        states'[t]? = some (tableState (SqlEngine.selectResult table)) := by
  induction names generalizing states with
  | nil => exact ⟨states, rfl, fun _ _ => rfl, by simp⟩
  | cons name names ih =>
    obtain ⟨u, hread, hthere⟩ := h name List.mem_cons_self
    obtain ⟨table, htable⟩ := Option.isSome_iff_exists.1 hthere
    obtain ⟨states', hcollect, hothers, hnames⟩ := ih (fun t ht => h t (List.mem_cons_of_mem _ ht))
      (states.insert name (tableState (SqlEngine.selectResult table)))
    refine ⟨states', by rw [collect, SqlEngine.execute_of_readTable hread htable]; exact hcollect, ?_, ?_⟩
    · intro t ht
      rw [hothers t (List.not_mem_of_not_mem_cons ht), OrdMap.getElem?_insert, if_neg (Ne.symm (List.ne_of_not_mem_cons ht))]
    · intro t ht u' table' hread' htable'
      by_cases hmem : t ∈ names
      · exact hnames t hmem u' table' hread' htable'
      · obtain rfl : t = name := (List.mem_cons.1 ht).resolve_right hmem
        rw [hread, Option.some.injEq] at hread'
        subst hread'
        rw [htable, Option.some.injEq] at htable'
        subst htable'
        rw [hothers t hmem, OrdMap.getElem?_insert, if_pos rfl]

theorem mem_listTables (order : HashOrder) : t ∈ s.listTables order ↔ (s.getTable t).isSome = true := by
  rw [Store.listTables, List.mem_map, Store.getTable, Option.isSome_iff_exists]
  constructor
  · rintro ⟨p, hp, rfl⟩
    exact ⟨p.2, (SqlSubscriptionManager.mem_order order).1 hp⟩
  · rintro ⟨table, h⟩
    exact ⟨(t, table), (SqlSubscriptionManager.mem_order order).2 h, rfl⟩

theorem nodup_listTables (order : HashOrder) : (s.listTables order).Nodup := SqlSubscriptionManager.distinct_order order s.engine.tables

end

/-! ## What can be printed -/

/-- The text of a table is UTF-8. -/
structure Prints (table : MemTable) : Prop where
  columns : ∀ c ∈ table.schema.columns, Utf8 c.name
  rows : ∀ j ∈ rowStates table, j.utf8 = true

theorem utf8_dataTypeToString (type : DataType) : Utf8 (SqlEngine.dataTypeToString type) := by
  cases type <;> exact utf8_str _

theorem utf8_tableState (table : MemTable) : (tableState (SqlEngine.selectResult table)).json.utf8 = true ↔ Prints table := by
  have hstate : tableState (SqlEngine.selectResult table) =
      .table (SqlEngine.selectResult table).columns (SqlEngine.selectResult table).rows := rfl
  have hcolumns : (∀ j ∈ (SqlEngine.selectResult table).columns.map columnState, j.utf8 = true) ↔ ∀ c ∈ table.schema.columns, Utf8 c.name := by
    simp [SqlEngine.selectResult, columnState, utf8_str, utf8_dataTypeToString]
  rw [hstate, TableState.json, Json.utf8_object]
  simp only [List.mem_cons, List.not_mem_nil, or_false, forall_eq_or_imp, forall_eq, Json.utf8_array, Json.utf8_int, utf8_str, true_and,
    and_true, hcolumns]
  exact ⟨fun h => ⟨h.1, h.2⟩, fun h => ⟨h.1, h.2⟩⟩

theorem utf8_document {subscriptionId : Bytes} {count : Nat} {states : StrMap TableState} :
    (document subscriptionId count states).utf8 = true ↔
      Utf8 subscriptionId ∧ ∀ t state, states[t]? = some state → Utf8 t ∧ state.json.utf8 = true := by
  have hstates : (∀ p ∈ states.toList.map fun p => (p.1, p.2.json), Utf8 p.1 ∧ p.2.utf8 = true) ↔
      ∀ t state, states[t]? = some state → Utf8 t ∧ state.json.utf8 = true := by
    constructor
    · intro h t state hstate
      exact h (t, state.json) (List.mem_map_of_mem (f := fun p => (p.1, p.2.json)) (Std.ExtTreeMap.mem_toList_iff_getElem?_eq_some.2 hstate))
    · intro h p hp
      obtain ⟨q, hq, rfl⟩ := List.mem_map.1 hp
      exact h q.1 q.2 (Std.ExtTreeMap.mem_toList_iff_getElem?_eq_some.1 hq)
  rw [document, Json.utf8_object]
  simp only [List.mem_cons, List.not_mem_nil, or_false, forall_eq_or_imp, forall_eq, Json.utf8_string, Json.utf8_object, Json.utf8_int, utf8_str,
    true_and, and_true, hstates]

theorem IsName.utf8 {t : Bytes} (h : IsName t) : Utf8 t := by
  obtain ⟨-, hword⟩ := h
  induction t with
  | nil => exact utf8_nil
  | cons c t ih =>
    have hone : Utf8 [c] := by
      have hall := forall_byte (p := fun c => !isWord c || decide (Utf8 [c])) (by decide +kernel) c
      simpa [hword c List.mem_cons_self] using hall
    exact hone.append (ih fun x hx => hword x (List.mem_cons_of_mem _ hx))

/-! ## The tables a snapshot is right about -/

/-- The table is named by a word. Or else its statement happens to read the same rows from another table. -/
inductive Legible (s : Store) (t : Bytes) (table : MemTable) : Prop where
  | word (name : IsName t) (text : Prints table)
  | chance {u : Bytes} {other : MemTable} (name : Utf8 t) (read : SqlEngine.readTable (selectAll t) = some u) (ne : u ≠ t)
      (there : s.getTable u = some other) (same : rowStates other = rowStates table) (text : Prints other)

section
variable {t u : Bytes}

theorem readTable_of_isName (h : IsName t) : SqlEngine.readTable (selectAll t) = some t := by
  rw [SqlEngine.readTable, h.parse_select]
  rfl

theorem isName_of_readTable {sql : Bytes} (h : SqlEngine.readTable sql = some u) : IsName u := by
  obtain ⟨stmt, hparse, hstmt⟩ := Option.bind_eq_some_iff.1 h
  split at hstmt
  · rename_i hselect
    cases hstmt
    obtain ⟨m, hm, htable⟩ := search_of_select hparse hselect
    rw [htable]
    exact isName_of_search hm
  · cases hstmt

end

section
variable {env : Env} {maxLag : Nat} {io : Bytes → Nat → Io} {s : Store} {id t : Bytes} {table : MemTable}

theorem selectResult_congr {table table' : MemTable} (hschema : table'.schema = table.schema) (hrows : table'.rows = table.rows) :
    SqlEngine.selectResult table' = SqlEngine.selectResult table := by
  rw [SqlEngine.selectResult, SqlEngine.selectResult, MemTable.scan_all, MemTable.scan_all, hschema, hrows]

/-- **A complete snapshot** has read a table with the same rows for each name. -/
theorem Complete.reads (h : Complete env maxLag io s id) (ht : s.getTable t = some table) :
    ∃ u other states, SqlEngine.readTable (selectAll t) = some u ∧ s.getTable u = some other ∧ rowStates other = rowStates table ∧
      states[t]? = some (tableState (SqlEngine.selectResult other)) ∧
      (env.dump (document id (s.listTables env.order).length states)).isSome = true := by
  obtain ⟨states, s', text, hcollect, hdump, hreports⟩ := h.reports
  obtain ⟨columns, rows, hstate, hrows⟩ := hreports t table ht
  -- the statement of this table, among the others
  obtain ⟨before, after, hnames⟩ := List.append_of_mem ((mem_listTables env.order).2 (by rw [ht]; rfl) : t ∈ s.listTables env.order)
  have hafter : t ∉ after := by
    intro hmem
    have hnodup := nodup_listTables (s := s) env.order
    rw [hnames] at hnodup
    exact (List.nodup_cons.1 (List.nodup_append.1 hnodup).2.1).1 hmem
  have hsame : ∀ l₁ l₂ states s', s.listTables env.order = l₁ ++ l₂ → collect env maxLag io ∅ s l₁ = .all states s' → s.SameRows s' := by
    intro l₁ l₂ states s' hl hrun
    refine h.unchanged l₁.length states s' ?_
    rw [hl, List.take_left]
    exact hrun
  rw [hnames] at hcollect
  obtain ⟨states₁, s₁, hbefore, hrest⟩ := collect_append hcollect
  obtain ⟨r, s₂, hexec, hlast⟩ := collect_cons hrest
  have hthere : s.SameRows s₁ := hsame before (t :: after) states₁ s₁ hnames hbefore
  have hthen : s.SameRows s₂ := by
    refine hsame (before ++ [t]) after (states₁.insert t (tableState r)) s₂ (by rw [hnames]; simp) ?_
    have hone : collect env maxLag io states₁ s₁ [t] = .all (states₁.insert t (tableState r)) s₂ := by
      rw [collect, hexec]
      rfl
    rw [collect_append_of hbefore]
    exact hone
  have hr : states[t]? = some (tableState r) := by
    rw [getElem?_collect hafter hlast, OrdMap.getElem?_insert, if_pos rfl]
  rw [hr, Option.some.injEq] at hstate
  have hsuccess : r.success = true := by
    cases hs : r.success with
    | true => rfl
    | false =>
      rw [tableState, hs] at hstate
      cases hstate
  obtain ⟨u, other₁, hread, hother₁, rfl, -⟩ := SqlEngine.readTable_of_execute hexec hsuccess (hthere.symm.trans hthen)
  obtain ⟨other, hother, hschema, hrowsOther⟩ := hthere.symm.getTable hother₁
  rw [← selectResult_congr hschema hrowsOther] at hr hstate
  refine ⟨u, other, states, hread, hother, ?_, hr, by rw [hdump]; rfl⟩
  cases hstate
  exact hrows

theorem Complete.legible (hJ : env.Utf8Only) (h : Complete env maxLag io s id) (ht : s.getTable t = some table) : Legible s t table := by
  obtain ⟨u, other, states, hread, hother, hsame, hstate, hdump⟩ := h.reads ht
  obtain ⟨hname, hjson⟩ := (utf8_document.1 ((hJ.dump_isSome _).1 hdump)).2 t _ hstate
  have hprints := (utf8_tableState other).1 hjson
  by_cases hu : u = t
  · subst hu
    rw [ht, Option.some.injEq] at hother
    subst hother
    exact .word (isName_of_readTable hread) hprints
  · exact .chance hname hread hu hother hsame hprints

theorem Legible.reads (h : Legible s t table) (ht : s.getTable t = some table) : Utf8 t ∧
    ∃ u other, SqlEngine.readTable (selectAll t) = some u ∧ s.getTable u = some other ∧ rowStates other = rowStates table ∧ Prints other := by
  cases h with
  | word name text => exact ⟨IsName.utf8 name, t, table, readTable_of_isName name, ht, rfl, text⟩
  | chance name read ne there same text => exact ⟨name, _, _, read, there, same, text⟩

theorem complete_of_legible (hJ : env.Utf8Only) (hid : Utf8 id) (h : ∀ t table, s.getTable t = some table → Legible s t table) :
    Complete env maxLag io s id := by
  have hreads : ∀ t ∈ s.listTables env.order, ∃ u, SqlEngine.readTable (selectAll t) = some u ∧ (s.getTable u).isSome = true := by
    intro t ht
    obtain ⟨table, htable⟩ := Option.isSome_iff_exists.1 ((mem_listTables env.order).1 ht)
    obtain ⟨-, u, other, hread, hother, -⟩ := (h t table htable).reads htable
    exact ⟨u, hread, by rw [hother]; rfl⟩
  constructor
  · obtain ⟨states, hcollect, hothers, hnames⟩ := collect_of_readTable env maxLag io hreads ∅
    have hstate : ∀ t table, s.getTable t = some table → ∃ other, states[t]? = some (tableState (SqlEngine.selectResult other)) ∧
        rowStates other = rowStates table ∧ Prints other ∧ Utf8 t := by
      intro t table ht
      obtain ⟨hname, u, other, hread, hother, hsame, hprints⟩ := (h t table ht).reads ht
      exact ⟨other, hnames t ((mem_listTables env.order).2 (by rw [ht]; rfl)) u other hread hother, hsame, hprints, hname⟩
    have hutf : (document id (s.listTables env.order).length states).utf8 = true := by
      refine utf8_document.2 ⟨hid, fun t state hs => ?_⟩
      cases ht : s.getTable t with
      | none =>
        rw [hothers t (by rw [mem_listTables, ht]; simp), Std.ExtTreeMap.getElem?_empty] at hs
        cases hs
      | some table =>
        obtain ⟨other, hother, -, hprints, hname⟩ := hstate t table ht
        rw [hs, Option.some.injEq] at hother
        subst hother
        exact ⟨hname, (utf8_tableState other).2 hprints⟩
    obtain ⟨text, hdump⟩ := Option.isSome_iff_exists.1 ((hJ.dump_isSome _).2 hutf)
    refine ⟨states, s, text, hcollect, hdump, fun t table ht => ?_⟩
    obtain ⟨other, hother, hsame, -⟩ := hstate t table ht
    exact ⟨_, _, hother, hsame⟩
  · intro n states s' hcollect
    have htaken : ∀ t ∈ (s.listTables env.order).take n, ∃ u, SqlEngine.readTable (selectAll t) = some u ∧ (s.getTable u).isSome = true :=
      fun t ht => hreads t (List.mem_of_mem_take ht)
    obtain ⟨states', hcollect', -⟩ := collect_of_readTable env maxLag io htaken ∅
    rw [hcollect'] at hcollect
    cases hcollect
    exact .refl s

/-- The snapshot of all tables is complete exactly when each of them is legible, and so is the subscription's id. -/
theorem complete_iff (hJ : env.Utf8Only) : Complete env maxLag io s id ↔
    Utf8 id ∧ ∀ t table, s.getTable t = some table → Legible s t table := by
  constructor
  · intro h
    obtain ⟨states, s', text, -, hdump, -⟩ := h.reports
    exact ⟨(utf8_document.1 ((hJ.dump_isSome _).1 (by rw [hdump]; rfl))).1, fun t table ht => h.legible hJ ht⟩
  · rintro ⟨hid, h⟩
    exact complete_of_legible hJ hid h

end

/-! ## Sending it -/

section
open ClientThread Throwing

variable {env : Env} {maxLag : Nat} {io : Bytes → Nat → Io} {s : Store} {id : Bytes} {host : Host} {t : ClientThread}
  {state : Nat → Bytes → Except Bytes Json}

/-- **A complete snapshot goes out whole**, as one message, when the socket takes it. -/
theorem Complete.sent (h : Complete env maxLag io s id) (hlib : host.lib = env.toJsonLib) (hstate : host.initialStateAllTables = some state)
    (hruns : ∀ states s', collect env maxLag io ∅ s (s.listTables env.order) = .all states s' →
      state t.handled id = .ok (document id (s.listTables env.order).length states))
    (hsends : host.sends t.attempts = .all) : ∃ text, exec (sendInitialStateAllTables host id) t = (.ok (), t.afterSend text .all) := by
  obtain ⟨states, s', text, hcollect, hdump, -⟩ := h.reports
  refine ⟨text, ?_⟩
  have hsend : exec (sendJson host (document id (s.listTables env.order).length states)) t = (.ok (), t.afterSend text .all) := by
    rw [exec_sendJson (by rw [hlib]; exact hdump), hsends]
    rfl
  rw [sendInitialStateAllTables, hstate]
  simp only [exec_bind, exec_get]
  rw [hruns states s' hcollect]
  exact exec_reporting_ok hsend

end

/-! ## Names that are no words -/

section
variable {env : Env} {maxLag : Nat} {io : Bytes → Nat → Io} {t u id : Bytes} {names : List Bytes}

/-- A table whose only row has the table's name for its key. -/
def selfNamed (t : Bytes) : MemTable := { schema := ⟨t, [], []⟩, rows := (∅ : StrMap Row).insert t { key := t } }

def selfNamedTables (names : List Bytes) : Tables := names.foldr (fun t tables => tables.insert t (selfNamed t)) ∅

theorem getElem?_selfNamedTables (t : Bytes) : (selfNamedTables names)[t]? = if t ∈ names then some (selfNamed t) else none := by
  induction names with
  | nil => exact Std.ExtTreeMap.getElem?_empty
  | cons name names ih =>
    rw [selfNamedTables, List.foldr_cons, OrdMap.getElem?_insert, ← selfNamedTables, ih]
    by_cases hname : name = t
    · subst hname
      simp
    · simp [hname, Ne.symm hname]

theorem rowStates_selfNamed (t : Bytes) : rowStates (selfNamed t) = [rowState { key := t }] := by
  have hperm := OrdMap.toList_insert_perm (m := (∅ : StrMap Row)) (k := t) { key := t }
  rw [OrdMap.erase_of_none Std.ExtTreeMap.getElem?_empty, show (∅ : StrMap Row).toList = [] from rfl] at hperm
  rw [rowStates, SqlEngine.selectResult, MemTable.scan_all, selfNamed]
  dsimp only
  rw [List.perm_singleton.1 hperm]
  rfl

/-- The tables of a store have these names, and their text can be printed. -/
structure Holds (s : Store) (names : List Bytes) : Prop where
  names : ∀ t, (s.getTable t).isSome = true ↔ t ∈ names
  prints : ∀ t table, s.getTable t = some table → Prints table

/-- With a name among them that is no word, some contents of the tables are reported wrongly or changed. -/
theorem names_iff (hJ : env.Utf8Only) (hid : Utf8 id) (hnames : ∀ t ∈ names, Utf8 t) :
    (∀ s : Store, Holds s names → Complete env maxLag io s id) ↔ ∀ t ∈ names, IsName t := by
  constructor
  · intro h t ht
    have htable : ∀ u, (({ engine := { tables := selfNamedTables names } } : Store).getTable u) = if u ∈ names then some (selfNamed u) else none :=
      fun u => getElem?_selfNamedTables u
    have hcomplete := h { engine := { tables := selfNamedTables names } } ⟨fun u => by rw [htable]; split <;> simp [*], by
      intro u table hu
      rw [htable] at hu
      split at hu
      · rename_i hmem
        cases hu
        refine ⟨by simp [selfNamed], ?_⟩
        rw [rowStates_selfNamed]
        simp [rowState, snapshotData, utf8_str, hnames u hmem]
      · cases hu⟩
    obtain ⟨u, other, states, hread, hother, hsame, -⟩ := hcomplete.reads ((htable t).trans (if_pos ht))
    rw [htable] at hother
    split at hother
    · cases hother
      -- the row tells which table has been read
      rw [rowStates_selfNamed, rowStates_selfNamed] at hsame
      have hkeys : snapshotData { key := u } = snapshotData { key := t } ∧ u = t := by simpa [rowState] using hsame
      obtain ⟨-, rfl⟩ := hkeys
      exact isName_of_readTable hread
    · cases hother
  · intro h s hs
    refine complete_of_legible hJ hid fun t table ht => .word (h t ((hs.names t).1 (by rw [ht]; rfl))) (hs.prints t table ht)

/-- **The snapshot of all tables is complete exactly when** each of them is legible, and so is the subscription's id.
A set of names is safe, whatever the tables hold, exactly when all of them are words. -/
theorem all_tables_iff (env : Env) (hJ : env.Utf8Only) (maxLag : Nat) (io : Bytes → Nat → Io) (id : Bytes) :
    (∀ s : Store, Complete env maxLag io s id ↔ Utf8 id ∧ ∀ t table, s.getTable t = some table → Legible s t table) ∧
    (Utf8 id → ∀ names : List Bytes, (∀ t ∈ names, Utf8 t) →
      ((∀ s : Store, Holds s names → Complete env maxLag io s id) ↔ ∀ t ∈ names, IsName t)) :=
  ⟨fun _ => complete_iff hJ, fun hid _ hnames => names_iff hJ hid hnames⟩

/-- A library that prints everything it can, and tables in the order of their names. -/
noncomputable def plainEnv : Env := { toJsonLib := .extended [] (by simp), order := .sorted }

theorem plainEnv_utf8Only : plainEnv.Utf8Only := JsonLib.utf8Only_extended (by simp) (by simp)

theorem all_tables_word : Complete plainEnv 100000 (fun _ _ => {}) { engine := { tables := oneRow (.int64 5) } } (str "sql_sub_1") := by
  refine ((all_tables_iff plainEnv plainEnv_utf8Only 100000 (fun _ _ => {}) (str "sql_sub_1")).1
    { engine := { tables := oneRow (.int64 5) } }).2 ⟨utf8_str _, fun t table ht => ?_⟩
  rw [Store.getTable, oneRow, OrdMap.getElem?_insert] at ht
  split at ht
  · rename_i hname
    cases ht
    subst hname
    exact .word ⟨by decide, by decide +kernel⟩ ⟨by simp, by decide +kernel⟩
  · rw [Std.ExtTreeMap.getElem?_empty] at ht
    cases ht

/-- An empty table `t-1` beside `t`. -/
def dashed : Store := { engine := { tables := (oneRow (.int64 5)).insert (str "t-1") { schema := ⟨str "t-1", [], []⟩ } } }

/-- The row of `t` is reported under the name of `t-1`, too. -/
theorem all_tables_dashed : (∃ states text columns row, collect plainEnv 100000 (fun _ _ => {}) ∅ dashed (dashed.listTables plainEnv.order) =
      .all states dashed ∧ plainEnv.dump (document (str "sql_sub_1") 2 states) = some text ∧
      states[str "t-1"]? = some (.table columns [row])) ∧
    (dashed.getTable (str "t-1")).map rowStates = some [] ∧
    ¬ Complete plainEnv 100000 (fun _ _ => {}) dashed (str "sql_sub_1") := by
  have hnames : dashed.listTables plainEnv.order = [str "t", str "t-1"] := by
    show (dashed.engine.tables.toList).map Prod.fst = _
    decide
  have hword : SqlEngine.readTable (selectAll (str "t")) = some (str "t") := by decide
  have hdashed : SqlEngine.readTable (selectAll (str "t-1")) = some (str "t") := by decide
  obtain ⟨table, htable, hrows, hprints⟩ : ∃ table, dashed.getTable (str "t") = some table ∧ (rowStates table).length = 1 ∧ Prints table :=
    ⟨_, rfl, by decide, by simp, by decide⟩
  have hempty : (dashed.getTable (str "t-1")).map rowStates = some [] := by decide +kernel
  refine ⟨?_, hempty, ?_⟩
  · have hreads : ∀ t ∈ dashed.listTables plainEnv.order, SqlEngine.readTable (selectAll t) = some (str "t") := by
      rw [hnames]
      intro t ht
      rcases List.mem_cons.1 ht with rfl | ht
      · exact hword
      · rw [List.mem_singleton.1 ht]
        exact hdashed
    obtain ⟨states, hcollect, hothers, hstates⟩ := collect_of_readTable plainEnv 100000 (fun _ _ => {})
      (fun t ht => ⟨_, hreads t ht, by rw [htable]; rfl⟩) ∅
    have hutf : (document (str "sql_sub_1") 2 states).utf8 = true := by
      refine utf8_document.2 ⟨utf8_str _, fun t state hs => ?_⟩
      by_cases ht : t ∈ dashed.listTables plainEnv.order
      · rw [hstates t ht _ _ (hreads t ht) htable, Option.some.injEq] at hs
        rw [hnames] at ht
        refine ⟨?_, hs ▸ (utf8_tableState table).2 hprints⟩
        rcases List.mem_cons.1 ht with rfl | ht
        · exact utf8_str _
        · rw [List.mem_singleton.1 ht]
          exact utf8_str _
      · rw [hothers t ht, Std.ExtTreeMap.getElem?_empty] at hs
        cases hs
    obtain ⟨text, hdump⟩ := Option.isSome_iff_exists.1 ((plainEnv_utf8Only.dump_isSome _).2 hutf)
    obtain ⟨row, hrow⟩ := List.length_eq_one_iff.1 ((List.length_map rowState).symm.trans hrows)
    have hstate := hstates (str "t-1") (by rw [hnames]; simp) _ _ hdashed htable
    rw [tableState, if_pos (show (SqlEngine.selectResult table).success = true from rfl), hrow] at hstate
    exact ⟨states, text, _, row, hcollect, hdump, hstate⟩
  · intro h
    obtain ⟨empty, hthere, hnone⟩ := Option.map_eq_some_iff.1 hempty
    obtain ⟨u, other, states, hread, hother, hsame, -⟩ := h.reads hthere
    rw [hdashed, Option.some.injEq] at hread
    subst hread
    rw [htable, Option.some.injEq] at hother
    subst hother
    rw [hsame, hnone] at hrows
    cases hrows

end

end AllTables

end OriginDB
