import OriginDB.Lib.JsonText
import OriginDB.Sql.ReadOnly
import OriginDB.Websocket.AreaOfInterest
import OriginDB.Websocket.SnapshotRows
/-!
# Column projection (`sql_subscription.cpp:99-152`, `websocket_server.cpp:1099-1197`)

A subscription to some columns has them selected from the values of each event. `SerializeRow` puts the columns of a row
under `columns`, beside its key, and `FilterEvent` looks for the selected names beside them: a name that is no part of this
frame is never found, `columns` finds all columns at once and `key` finds the row's key. The snapshot that comes before the
events has all columns.

| here | there |
| --- | --- |
| `carried`          | the columns that `ExtractRowColumns` finds in a value |
| `sendInitialState` | the `initial_state` document (`:1099-1191`) |
-/
namespace OriginDB

open JsonDoc ByteCodec Regex

/-- A column of the row in a value of an event. -/
def carried (J : JsonLib) (value column : Bytes) : Option Json := (eventColumns J value).bind (Json.constMember column)

/-- What is found has the selected columns of the row, as an event has them, and no other of its columns. -/
def ShowsColumns (columns : List Bytes) (row : Row) (found : Bytes → Option Json) : Prop :=
  ∀ (column : Bytes) (v : Value), row.columns[column]? = some v →
    (column ∈ columns → found column = some (eventValue v)) ∧ (column ∉ columns → found column = none)

/-- Both values of the event of a write `w` that found `old` are projected. -/
structure Projected (J : JsonLib) (sub : SqlSubscription) (w : WriteOperation) (old : Option Row) (ev : ChangefeedEvent) : Prop where
  newValue : w.op ≠ .delete → ShowsColumns sub.columns w.row (carried J (sub.filterEvent J ev).newValue)
  oldValue : ∀ row, old = some row → ShowsColumns sub.columns row (carried J (sub.filterEvent J ev).oldValue)

/-- Where a row's value comes out right. It has all of the row's columns if no name or `columns` is selected, and none of them
otherwise, but the row's key for the name `key`. -/
structure Spared (columns : List Bytes) (row : Row) : Prop where
  all : columns = [] ∨ str "columns" ∈ columns → ∀ (column : Bytes) (v : Value), row.columns[column]? = some v → column ∈ columns
  none : ¬ (columns = [] ∨ str "columns" ∈ columns) → ∀ (column : Bytes) (v : Value), row.columns[column]? = some v →
    column ∈ columns → column = str "key" ∧ v = .string row.key

/-! ## The snapshot -/

/-- The rows that the WHERE clause of the query does not exclude (websocket_server.cpp:1186). -/
def AreaOfInterest.rows (sqlQuery : Bytes) (r : SqlResult) : List Row := r.rows.filter fun row => keeps (predicate sqlQuery) (snapshotData row)

/-- `SendInitialState` (websocket_server.cpp:1099): the report that is sent, if it comes to one that can be printed. -/
def AreaOfInterest.sendInitialState (env : Env) (maxLag : Nat) (io : Nat → Io) (s : Store) (sqlQuery subscriptionId : Bytes) :
    Option InitialState :=
  match SqlEngine.execute env maxLag io s sqlQuery with
  | .returned r _ =>
    if r.success then
      let f : InitialState := ⟨subscriptionId, sqlQuery, r.columns, rows sqlQuery r⟩
      if (env.dump f.json).isSome then some f else none
    else none
  | .threw _ | .undefined => none

/-- The data of the rows in an `initial_state` document. -/
def rowsData (document : Json) : List Json :=
  match document.constMember (str "rows") with
  | some rows => rows.elements.filterMap (Json.constMember (str "data"))
  | none => []

/-- Nothing but the selected columns. -/
def OnlyColumns (columns : List Bytes) (data : Json) : Prop := ∀ column, data.contains column = true → column ∈ columns

/-- A row of the table that the text reads, which its WHERE clause keeps. -/
def Reported (s : Store) (sqlQuery : Bytes) (row : Row) : Prop :=
  ∃ (u : Bytes) (t : MemTable) (key : Bytes), SqlEngine.readTable sqlQuery = some u ∧ s.getTable u = some t ∧ t.rows[key]? = some row ∧
    AreaOfInterest.keeps (AreaOfInterest.predicate sqlQuery) (snapshotData row) = true

/-! ## Selecting members -/

section
variable {J : JsonLib} {columns : List Bytes} {members : List (Bytes × Json)} {row : Row} {b b' : Bytes} {column : Bytes}

/-- The selected members, in a map. -/
theorem getElem?_select (members : List (Bytes × Json)) (columns : List Bytes) (acc : StrMap Json) (column : Bytes) :
    (columns.foldl (fun (acc : StrMap Json) col =>
      match members.lookup col with
      | some v => acc.insert col v
      | none => acc) acc)[column]? =
    if column ∈ columns ∧ (members.lookup column).isSome = true then members.lookup column else acc[column]? := by
  induction columns generalizing acc with
  | nil => simp
  | cons col columns ih =>
    rw [List.foldl_cons, ih]
    by_cases hcol : column = col
    · subst hcol
      cases hlookup : members.lookup column with
      | none => simp
      | some v => simp
    · have hrest : ∀ acc' : StrMap Json, acc'[column]? = acc[column]? →
          (if column ∈ columns ∧ (members.lookup column).isSome = true then members.lookup column else acc'[column]?) =
            if column ∈ col :: columns ∧ (members.lookup column).isSome = true then members.lookup column else acc[column]? := by
        intro acc' hacc
        simp only [hacc, List.mem_cons, hcol, false_or]
      refine hrest _ ?_
      cases members.lookup col with
      | none => rfl
      | some v => exact (OrdMap.getElem?_insert _ _ _ _).trans (if_neg (Ne.symm hcol))

/-- Each member of the selection is a selected member. -/
theorem constMember_selectMembers (columns : List Bytes) (members : List (Bytes × Json)) (column : Bytes) :
    (SqlSubscription.selectMembers columns (.object members)).constMember column =
      if column ∈ columns then members.lookup column else none := by
  have hselect := getElem?_select members columns ∅ column
  unfold SqlSubscription.selectMembers
  dsimp only
  generalize columns.foldl _ _ = selected at hselect
  have hempty : (∅ : StrMap Json)[column]? = none := Std.ExtTreeMap.getElem?_empty
  have hlookup : selected[column]? = if column ∈ columns then members.lookup column else none := by
    rw [hselect, hempty]
    cases members.lookup column <;> simp
  split
  · rename_i hnone
    rw [← hlookup, Std.ExtTreeMap.isEmpty_iff.1 hnone, hempty]
    rfl
  · exact (OrdMap.lookup_toList _ _).trans hlookup

/-- A selection is an object, or `null` if it is empty. -/
theorem selectMembers_cases (columns : List Bytes) (members : List (Bytes × Json)) :
    SqlSubscription.selectMembers columns (.object members) = .null ∨
      ∃ m, SqlSubscription.selectMembers columns (.object members) = .object m := by
  unfold SqlSubscription.selectMembers
  dsimp only
  split
  · exact Or.inl rfl
  · exact Or.inr ⟨_, rfl⟩

theorem utf8_selectMembers (hutf : (Json.object members).utf8 = true) (columns : List Bytes) :
    (SqlSubscription.selectMembers columns (.object members)).utf8 = true := by
  have hselect := fun column => getElem?_select members columns ∅ column
  unfold SqlSubscription.selectMembers
  dsimp only
  generalize columns.foldl _ _ = selected at hselect
  split
  · rfl
  · rw [Json.utf8_object]
    rintro ⟨column, v⟩ hmem
    have hget := Std.ExtTreeMap.mem_toList_iff_getElem?_eq_some.1 hmem
    have hlookup : members.lookup column = some v := by
      have hempty : (∅ : StrMap Json)[column]? = none := Std.ExtTreeMap.getElem?_empty
      rw [hselect, hempty] at hget
      split at hget
      · exact hget
      · cases hget
    obtain ⟨l₁, l₂, rfl, -⟩ := List.lookup_eq_some_iff.1 hlookup
    exact Json.utf8_object.1 hutf (column, v) (by simp)

/-! ## The values of an event -/

theorem lookup_reparsedObject (m : List (Bytes × Json)) (k : Bytes) : (Json.reparsedObject m).lookup k = (m.lookup k).map Json.reparsed := by
  rw [Json.reparsedObject_eq, OrdMap.lookup_map]

theorem reparsed_jsonColumns (row : Row) : row.jsonColumns.reparsed = row.jsonColumns := by
  have hprinted : row.jsonColumns = (Json.object (row.columns.toList.map fun p => (p.1, valueJson p.2))).reparsed := by
    rw [Json.reparsed, Json.reparsedObject_eq, List.map_map]
    rfl
  rw [hprinted, Json.reparsed_reparsed]

theorem constMember_jsonColumns (row : Row) (column : Bytes) :
    row.jsonColumns.constMember column = row.columns[column]?.map eventValue :=
  lookup_columns eventValue row column

/-- The value of a row as it is parsed: its columns, and its key beside them. -/
theorem parse_serializeRow (h : serializeRow J row = some b) :
    b ≠ [] ∧ J.parse b = some (.object [(str "columns", row.jsonColumns), (str "key", .string row.key)]) := by
  refine ⟨?_, ?_⟩
  · rintro rfl
    exact J.dump_ne_nil h
  · rw [J.parse_dump _ _ h, rowJson, Json.reparsed, Json.reparsedObject, Json.reparsedObject, Json.reparsedObject, Json.reparsed,
      Json.reparsedObject_eq, List.map_map]
    rfl

theorem carried_serializeRow (h : serializeRow J row = some b) (column : Bytes) :
    carried J b column = row.columns[column]?.map eventValue := by
  rw [carried, extractRowColumns_serializeRow h]
  exact constMember_jsonColumns row column

/-- The columns of a filtered value: all of them, the row's key under their name, or none. -/
theorem carried_filterValue (h : serializeRow J row = some b) (hfilter : SqlSubscription.filterValue J columns b = some b')
    (column : Bytes) : carried J b' column =
      if str "columns" ∈ columns then row.columns[column]?.map eventValue
      else if column = str "key" ∧ str "key" ∈ columns then some (.string row.key) else none := by
  obtain ⟨hb, hparse⟩ := parse_serializeRow h
  rw [SqlSubscription.filterValue, if_neg hb, hparse, Option.bind_some] at hfilter
  have hb' : b' ≠ [] := by
    rintro rfl
    exact J.dump_ne_nil hfilter
  have hmember := constMember_selectMembers columns [(str "columns", row.jsonColumns), (str "key", .string row.key)]
  rw [carried, eventColumns, if_neg hb', extractRowColumns, J.parse_dump _ _ hfilter, Option.map_some, Option.bind_some]
  rcases selectMembers_cases columns [(str "columns", row.jsonColumns), (str "key", .string row.key)] with hnull | ⟨m, hobject⟩
  · -- neither of the two is selected
    rw [hnull] at hmember ⊢
    have hnoColumns : str "columns" ∉ columns := by
      intro hin
      have := hmember (str "columns")
      rw [if_pos hin] at this
      cases this
    have hnoKey : str "key" ∉ columns := by
      intro hin
      have := hmember (str "key")
      rw [if_pos hin] at this
      cases this
    rw [if_neg hnoColumns, if_neg fun hin => hnoKey hin.2]
    rfl
  · rw [hobject] at hmember ⊢
    have hlookup : ∀ c, (Json.reparsedObject m).lookup c =
        (if c ∈ columns then [(str "columns", row.jsonColumns), (str "key", Json.string row.key)].lookup c else none).map
          Json.reparsed := by
      intro c
      rw [lookup_reparsedObject, ← hmember c]
      rfl
    rw [Json.reparsed]
    dsimp only
    by_cases hin : str "columns" ∈ columns
    · rw [hlookup, if_pos hin, if_pos hin, List.lookup_cons_self, Option.map_some, reparsed_jsonColumns]
      exact constMember_jsonColumns row column
    · rw [hlookup, if_neg hin, if_neg hin]
      refine (hlookup column).trans ?_
      by_cases hkey : column = str "key"
      · subst hkey
        by_cases hsel : str "key" ∈ columns
        · rw [if_pos hsel, if_pos ⟨rfl, hsel⟩]
          rfl
        · rw [if_neg hsel, if_neg fun h => hsel h.2]
          rfl
      · have hother : ¬ (column = str "key" ∧ str "key" ∈ columns) := fun h => hkey h.1
        rw [if_neg hother]
        split
        · rename_i hcol
          have hne : column ≠ str "columns" := by
            rintro rfl
            exact hin hcol
          rw [List.lookup_cons, List.lookup_cons, beq_false_of_ne hne, beq_false_of_ne hkey]
          rfl
        · rfl

/-- The values of a row that was printed are always filtered: what was printed once can be printed in parts. -/
theorem filterValue_isSome (hJ : J.Utf8Only) (h : serializeRow J row = some b) (columns : List Bytes) :
    (SqlSubscription.filterValue J columns b).isSome = true := by
  obtain ⟨hb, hparse⟩ := parse_serializeRow h
  rw [SqlSubscription.filterValue, if_neg hb, hparse, Option.bind_some, hJ.dump_isSome]
  have hutf : (rowJson row).utf8 = true := (hJ.dump_isSome _).1 (by rw [show J.dump (rowJson row) = some b from h]; rfl)
  have hparsed := J.parse_dump _ _ h
  rw [hparse, Option.some.injEq] at hparsed
  apply utf8_selectMembers
  rw [hparsed]
  exact Json.utf8_reparsed _ hutf

/-! ## Projected events -/

/-- What `FilterEvent` makes of the value of a row. -/
structure Filtered (J : JsonLib) (columns : List Bytes) (row : Row) (value : Bytes) : Prop where
  all : columns = [] ∨ str "columns" ∈ columns → ∀ column, carried J value column = row.columns[column]?.map eventValue
  key : ¬ (columns = [] ∨ str "columns" ∈ columns) → str "key" ∈ columns → carried J value (str "key") = some (.string row.key)
  none : ¬ (columns = [] ∨ str "columns" ∈ columns) → ∀ column, ¬ (column = str "key" ∧ str "key" ∈ columns) →
    carried J value column = none

theorem eventValue_eq_string {v : Value} {text : Bytes} : eventValue v = .string text ↔ v = .string text := by
  cases v with
  | float bits | double bits =>
    simp only [eventValue, valueJson, Json.reparsed, reduceCtorEq, iff_false]
    split <;> simp
  | bytes x => simp [eventValue, valueJson, Json.reparsed]
  | _ => simp [eventValue, valueJson, Json.reparsed]

theorem showsColumns_iff {value : Bytes} (h : Filtered J columns row value) :
    ShowsColumns columns row (carried J value) ↔ Spared columns row := by
  by_cases hall : columns = [] ∨ str "columns" ∈ columns
  · constructor
    · intro hshows
      refine ⟨fun _ column v hv => ?_, fun hnot => absurd hall hnot⟩
      by_contra hout
      have hnone := (hshows column v hv).2 hout
      rw [h.all hall, hv] at hnone
      cases hnone
    · intro hspared column v hv
      refine ⟨fun _ => by rw [h.all hall, hv]; rfl, fun hout => absurd (hspared.all hall column v hv) hout⟩
  · constructor
    · intro hshows
      refine ⟨fun hin => absurd hin hall, fun _ column v hv hin => ?_⟩
      have hsome := (hshows column v hv).1 hin
      by_cases hkey : column = str "key"
      · subst hkey
        rw [h.key hall hin, Option.some.injEq] at hsome
        exact ⟨rfl, eventValue_eq_string.1 hsome.symm⟩
      · rw [h.none hall column fun hboth => hkey hboth.1] at hsome
        cases hsome
    · intro hspared column v hv
      constructor
      · intro hin
        obtain ⟨rfl, rfl⟩ := hspared.none hall column v hv hin
        rw [h.key hall hin, eventValue_eq_string.2 rfl]
      · intro hout
        refine h.none hall column ?_
        rintro ⟨rfl, hin⟩
        exact hout hin

section
variable {sub : SqlSubscription} {w : WriteOperation} {old : Option Row} {ev : ChangefeedEvent}

/-- **No event of a commit takes the path of an error**: both values are filtered. -/
theorem filterEvent_eventOf (hJ : J.Utf8Only) (h : EventOf J w old ev) (htype : sub.type = .selectColumns) :
    (w.op ≠ .delete → Filtered J sub.columns w.row (sub.filterEvent J ev).newValue) ∧
    ∀ r, old = some r → Filtered J sub.columns r (sub.filterEvent J ev).oldValue := by
  have hprinted : ∀ (r : Row) (value value' : Bytes), serializeRow J r = some value →
      SqlSubscription.filterValue J sub.columns value = some value' → sub.columns ≠ [] → Filtered J sub.columns r value' := by
    intro r value value' hser hfilter hne
    have hcarried := carried_filterValue hser hfilter
    refine ⟨fun hall column => ?_, fun hnot hkey => ?_, fun hnot column hother => ?_⟩
    · rw [hcarried, if_pos (hall.resolve_left hne)]
    · rw [hcarried, if_neg fun hin => hnot (Or.inr hin), if_pos ⟨rfl, hkey⟩]
    · rw [hcarried, if_neg fun hin => hnot (Or.inr hin), if_neg hother]
  by_cases hne : sub.columns = []
  · have hsame : sub.filterEvent J ev = ev := by
      rw [SqlSubscription.filterEvent, if_neg fun hboth => hboth.2 hne]
    have hwhole : ∀ {r : Row} {value : Bytes}, serializeRow J r = some value → Filtered J sub.columns r value := fun hser =>
      ⟨fun _ column => carried_serializeRow hser column, fun hnot => absurd (Or.inl hne) hnot, fun hnot => absurd (Or.inl hne) hnot⟩
    rw [hsame]
    constructor
    · intro hop
      have hnew := h.newValue
      rw [if_neg hop] at hnew
      exact hwhole hnew
    · rintro r rfl
      exact hwhole h.oldValue
  · have hnewSome : (SqlSubscription.filterValue J sub.columns ev.newValue).isSome = true := by
      have hnew := h.newValue
      split at hnew
      · rw [hnew]
        rfl
      · exact filterValue_isSome hJ hnew sub.columns
    have holdSome : (SqlSubscription.filterValue J sub.columns ev.oldValue).isSome = true := by
      have hold := h.oldValue
      cases old with
      | none =>
        rw [show ev.oldValue = [] from hold]
        rfl
      | some r => exact filterValue_isSome hJ hold sub.columns
    obtain ⟨newValue, hnew⟩ := Option.isSome_iff_exists.1 hnewSome
    obtain ⟨oldValue, hold⟩ := Option.isSome_iff_exists.1 holdSome
    have hfiltered : sub.filterEvent J ev = { ev with newValue := newValue, oldValue := oldValue } := by
      rw [SqlSubscription.filterEvent, if_pos ⟨htype, hne⟩, hnew, hold]
    rw [hfiltered]
    constructor
    · intro hop
      have hser := h.newValue
      rw [if_neg hop] at hser
      exact hprinted _ _ _ hser hnew hne
    · rintro r rfl
      exact hprinted _ _ _ h.oldValue hold hne

theorem projected_iff (hJ : J.Utf8Only) (h : EventOf J w old ev) (htype : sub.type = .selectColumns) :
    Projected J sub w old ev ↔ (w.op ≠ .delete → Spared sub.columns w.row) ∧ ∀ row, old = some row → Spared sub.columns row := by
  obtain ⟨hnew, hold⟩ := filterEvent_eventOf hJ h htype
  constructor
  · intro hp
    exact ⟨fun hop => (showsColumns_iff (hnew hop)).1 (hp.newValue hop), fun r hr => (showsColumns_iff (hold r hr)).1 (hp.oldValue r hr)⟩
  · rintro ⟨hsparedNew, hsparedOld⟩
    exact ⟨fun hop => (showsColumns_iff (hnew hop)).2 (hsparedNew hop), fun r hr => (showsColumns_iff (hold r hr)).2 (hsparedOld r hr)⟩

end

/-! ## The rows of a snapshot -/

section
variable {env : Env} {maxLag : Nat} {io : Nat → Io} {s : Store} {sqlQuery subscriptionId : Bytes} {f : InitialState}

theorem rowsData_json (f : InitialState) : rowsData f.json = f.rows.map snapshotData := by
  have hrows : rowsData f.json = (f.rows.map fun r =>
      Json.object [(str "data", snapshotData r), (str "key", .string r.key), (str "timestamp", .int r.timestamp.toNat),
        (str "version", .int r.version.toNat)]).filterMap (Json.constMember (str "data")) := rfl
  rw [hrows, List.filterMap_map, ← List.filterMap_eq_map]
  exact List.filterMap_congr fun r _ => rfl

theorem contains_snapshotData (row : Row) (column : Bytes) :
    (snapshotData row).contains column = true ↔ ∃ v, row.columns[column]? = some v := by
  unfold snapshotData
  split
  · rename_i hempty
    rw [Std.ExtTreeMap.isEmpty_iff.1 hempty]
    simp [Json.contains]
  · rw [Json.contains, lookup_columns, Option.isSome_map, Option.isSome_iff_exists]

namespace SqlEngine

theorem rows_of_convertToUpdate {table key : Bytes} {r : SqlResult} {s' : Store}
    (h : convertToUpdate env maxLag io s table key row = .returned r s') : r.rows = [] := by
  unfold convertToUpdate at h
  split at h
  · cases h
  · cases h
    rfl
  · cases h
    rfl

theorem rows_of_insert {stmt : SqlStatement} {r : SqlResult} {s' : Store}
    (h : executeInsert env maxLag io s stmt = .returned r s') : r.rows = [] := by
  unfold executeInsert at h
  split at h
  · cases h
  · split at h
    · cases h
      rfl
    · dsimp only at h
      split at h
      · cases h
      · cases h
        rfl
      · split at h
        · exact rows_of_convertToUpdate h
        · exact rows_of_convertToUpdate h

theorem rows_of_update {stmt : SqlStatement} {r : SqlResult} {s' : Store}
    (h : executeUpdate env maxLag io s stmt = .returned r s') : r.rows = [] := by
  unfold executeUpdate at h
  split at h
  · cases h
    rfl
  · split at h
    · cases h
      rfl
    · split at h
      · cases h
        rfl
      · dsimp only at h
        split at h
        · cases h
          rfl
        · split at h
          · cases h
          · cases h
            rfl
          · cases h
            rfl

theorem rows_of_createTable {stmt : SqlStatement} {r : SqlResult} {s' : Store}
    (h : executeCreateTable env s stmt = .returned r s') : r.rows = [] := by
  unfold executeCreateTable at h
  split at h
  · cases h
  · cases h
    rfl
  · cases h
    rfl

/-- What a statement returns rows of is the table that the text reads. -/
theorem mem_rows_iff {r : SqlResult} {s' : Store} (h : execute env maxLag io s sqlQuery = .returned r s') (row : Row) :
    row ∈ r.rows ↔ ∃ (u : Bytes) (t : MemTable) (key : Bytes), readTable sqlQuery = some u ∧ s.getTable u = some t ∧
      t.rows[key]? = some row := by
  have hother : r.rows = [] → readTable sqlQuery = none → (row ∈ r.rows ↔
      ∃ (u : Bytes) (t : MemTable) (key : Bytes), readTable sqlQuery = some u ∧ s.getTable u = some t ∧ t.rows[key]? = some row) := by
    intro hrows hread
    simp [hrows, hread]
  unfold execute at h
  split at h
  · rename_i hparse
    cases h
    exact hother rfl (by rw [readTable, hparse]; rfl)
  · rename_i stmt hparse
    have hnoSelect : stmt.type ≠ .select → readTable sqlQuery = none := by
      intro htype
      rw [readTable, hparse, Option.bind_some, if_neg htype]
    split at h
    · rename_i htype
      exact hother (rows_of_createTable h) (hnoSelect (by simp [htype]))
    · rename_i htype
      exact hother (rows_of_insert h) (hnoSelect (by simp [htype]))
    · rename_i htype
      cases h
      have hread : readTable sqlQuery = some stmt.tableName := by
        rw [readTable, hparse, Option.bind_some, if_pos htype]
      unfold executeSelect
      cases ht : s.getTable stmt.tableName with
      | none => simp [failed, hread, ht]
      | some t =>
        rw [hread]
        simp only [MemTable.scan_all, List.mem_map, Option.some.injEq]
        constructor
        · rintro ⟨p, hp, rfl⟩
          exact ⟨stmt.tableName, t, p.1, rfl, ht, Std.ExtTreeMap.mem_toList_iff_getElem?_eq_some.1 hp⟩
        · rintro ⟨u, t', key, rfl, ht', hrow⟩
          rw [ht, Option.some.injEq] at ht'
          subst ht'
          exact ⟨(key, row), Std.ExtTreeMap.mem_toList_iff_getElem?_eq_some.2 hrow, rfl⟩
    · rename_i htype
      exact hother (rows_of_update h) (hnoSelect (by simp [htype]))
    · rename_i htype
      cases h
      exact hother rfl (hnoSelect (by simp [htype]))

end SqlEngine

theorem reported_iff (h : AreaOfInterest.sendInitialState env maxLag io s sqlQuery subscriptionId = some f) (row : Row) :
    row ∈ f.rows ↔ Reported s sqlQuery row := by
  unfold AreaOfInterest.sendInitialState at h
  split at h
  · rename_i r s' hexec
    split at h
    · dsimp only at h
      split at h
      · cases h
        rw [AreaOfInterest.rows, List.mem_filter, SqlEngine.mem_rows_iff hexec]
        constructor
        · rintro ⟨⟨u, t, key, hread, ht, hrow⟩, hkeeps⟩
          exact ⟨u, t, key, hread, ht, hrow, hkeeps⟩
        · rintro ⟨u, t, key, hread, ht, hrow, hkeeps⟩
          exact ⟨⟨u, t, key, hread, ht, hrow⟩, hkeeps⟩
      · cases h
    · cases h
  · cases h
  · cases h

theorem onlyColumns_iff (h : AreaOfInterest.sendInitialState env maxLag io s sqlQuery subscriptionId = some f) (columns : List Bytes) :
    (∀ data ∈ rowsData f.json, OnlyColumns columns data) ↔
      ∀ row, Reported s sqlQuery row → ∀ (column : Bytes) (v : Value), row.columns[column]? = some v → column ∈ columns := by
  rw [rowsData_json, List.forall_mem_map]
  constructor
  · intro hall row hrow column v hv
    exact hall row ((reported_iff h row).2 hrow) column ((contains_snapshotData row column).2 ⟨v, hv⟩)
  · intro hall row hrow column hcolumn
    obtain ⟨v, hv⟩ := (contains_snapshotData row column).1 hcolumn
    exact hall row ((reported_iff h row).1 hrow) column v hv

end

end

/-- **Projection is right in the event of a write exactly when** the rows before and after it are spared, **and in a snapshot
exactly when** its rows have no other column than the selected ones. -/
theorem projection_iff (env : Env) (hJ : env.Utf8Only) (sub : SqlSubscription) (htype : sub.type = .selectColumns) :
    (∀ (clock : Nat → UInt64) (e e' : Engine) (txn : Txn) (entries : List WALEntry) (events : List ChangefeedEvent),
      commit env true clock e txn = .submitted e' entries events →
      ∀ (i : Nat) (w : WriteOperation) (ev : ChangefeedEvent), txn.writeSet[i]? = some w → events[i]? = some ev →
        (Projected env.toJsonLib sub w (txn.rowAfter clock e w i) ev ↔
          (w.op ≠ .delete → Spared sub.columns w.row) ∧ ∀ row, txn.rowAfter clock e w i = some row → Spared sub.columns row)) ∧
    ∀ (maxLag : Nat) (io : Nat → Io) (s : Store) (query id : Bytes) (f : InitialState),
      AreaOfInterest.sendInitialState env maxLag io s query id = some f →
      ((∀ data ∈ rowsData f.json, OnlyColumns sub.columns data) ↔
        ∀ row, Reported s query row → ∀ (column : Bytes) (v : Value), row.columns[column]? = some v → column ∈ sub.columns) := by
  constructor
  · intro clock e e' txn entries events hcommit i w ev hw hev
    have hof : EventOf env.toJsonLib w (txn.rowAfter clock e w i) ev :=
      ((After.refl clock e).eventOf (commit_spec.1 _ _ _ hcommit)).2 i w ev hw hev
    exact projected_iff hJ hof htype
  · intro maxLag io s query id f hsent
    exact onlyColumns_iff hsent sub.columns

/-- `SELECT a FROM t`. -/
def selectA : SqlSubscription :=
  { id := str "sql_sub_1", clientId := str "c", type := .selectColumns, tableName := str "t", columns := [str "a"] }

/-- A row that has not the column, and one that has two. -/
def rowB : Row := { key := str "k", columns := (∅ : Columns).insert (str "b") (.int64 1) }

def rowAB : Row := { rowA 5 with columns := (rowA 5).columns.insert (str "b") (.int64 1) }

/-- A store whose table `t` has one row. -/
def holding (row : Row) : Store :=
  { engine := { tables := (∅ : Tables).insert (str "t") { schema := ⟨str "t", [], []⟩, rows := (∅ : StrMap Row).insert (str "k") row } } }

/-- The snapshot of that store. -/
def reportA (row : Row) : InitialState := ⟨str "sql_sub_1", str "SELECT a FROM t", [], [row]⟩

def reportText (data : String) : Bytes :=
  str "\x7b\"columns\":[],\"execution_time_ms\":0,\"rows\":[\x7b\"data\":" ++ str data ++
    str (",\"key\":\"k\",\"timestamp\":0,\"version\":0\x7d],\"rows_count\":1,\"sql\":\"SELECT a FROM t\"," ++
      "\"subscription_id\":\"sql_sub_1\",\"type\":\"initial_state\"\x7d")

def selectADocs : List (Json × Bytes) :=
  [(rowJson rowB, str "\x7b\"columns\":\x7b\"b\":1\x7d,\"key\":\"k\"\x7d"),
   (rowJson rowAB, str "\x7b\"columns\":\x7b\"a\":5,\"b\":1\x7d,\"key\":\"k\"\x7d"),
   (.null, str "null"), ((reportA (rowA 5)).json, reportText "\x7b\"a\":5\x7d"),
   ((reportA rowAB).json, reportText "\x7b\"a\":5,\"b\":1\x7d")]

theorem utf8_reportText (data : String) : Utf8 (reportText data) := ((utf8_str _).append (utf8_str data)).append (utf8_str _)

theorem utf8_selectADocs : ∀ d ∈ selectADocs, Utf8 d.2 := by
  simp only [selectADocs, List.forall_mem_cons]
  exact ⟨utf8_str _, utf8_str _, utf8_str _, utf8_reportText _, utf8_reportText _, by simp⟩

noncomputable def selectAEnv : Env where
  toJsonLib := JsonLib.extended selectADocs (by decide +kernel)
  order := .sorted

theorem selectAEnv_utf8Only : selectAEnv.Utf8Only := JsonLib.utf8Only_extended (by decide +kernel) utf8_selectADocs

theorem parse_selectA : SqlSubscriptionParser.parse (str "SELECT a FROM t") (str "sql_sub_1") (str "c") = some selectA := rfl

/-- Its snapshot, for a row that can be printed. -/
theorem sendInitialState_selectA (row : Row) (hutf : (reportA row).json.utf8 = true) :
    AreaOfInterest.sendInitialState selectAEnv 100000 (fun _ => {}) (holding row) (str "SELECT a FROM t") (str "sql_sub_1") =
      some (reportA row) := by
  have hread : SqlEngine.readTable (str "SELECT a FROM t") = some (str "t") := by decide
  have htable : (holding row).getTable (str "t") =
      some { schema := ⟨str "t", [], []⟩, rows := (∅ : StrMap Row).insert (str "k") row } := by
    rw [Store.getTable, holding, OrdMap.getElem?_insert, if_pos rfl]
  have hrows : ((∅ : StrMap Row).insert (str "k") row).toList = [(str "k", row)] := rfl
  have hclause : AreaOfInterest.predicate (str "SELECT a FROM t") = none :=
    AreaOfInterest.predicate_of_none (by decide)
  have hprints : (selectAEnv.dump (reportA row).json).isSome = true := (selectAEnv_utf8Only.dump_isSome _).2 hutf
  have hreport : AreaOfInterest.rows (str "SELECT a FROM t")
      (SqlEngine.selectResult { schema := ⟨str "t", [], []⟩, rows := (∅ : StrMap Row).insert (str "k") row }) = [row] := by
    rw [AreaOfInterest.rows, hclause, SqlEngine.selectResult, MemTable.scan_all, hrows]
    rfl
  rw [AreaOfInterest.sendInitialState, SqlEngine.execute_of_readTable hread htable]
  simp only [hreport]
  exact if_pos hprints

theorem projection_without_a : ∃ e' entries ev,
    commit selectAEnv true (fun _ => 0) emptyTable { timestamp := 1, writeSet := [⟨.insert, str "t", rowB⟩] } =
      .submitted e' entries [ev] ∧
    Projected selectAEnv.toJsonLib selectA ⟨.insert, str "t", rowB⟩ none ev ∧
    ∀ data ∈ rowsData (reportA (rowA 5)).json, OnlyColumns [str "a"] data := by
  have hc : ∃ e' entries ev, commit selectAEnv true (fun _ => 0) emptyTable
      { timestamp := 1, writeSet := [⟨.insert, str "t", rowB⟩] } = .submitted e' entries [ev] := ⟨_, _, _, rfl⟩
  obtain ⟨e', entries, ev, hc⟩ := hc
  obtain ⟨hevents, hsnapshot⟩ := projection_iff selectAEnv selectAEnv_utf8Only selectA rfl
  refine ⟨e', entries, ev, hc, ?_, ?_⟩
  · refine (hevents _ _ _ _ _ _ hc 0 ⟨.insert, str "t", rowB⟩ ev rfl rfl).2 ⟨fun _ => ?_, fun row hrow => by cases hrow⟩
    refine ⟨fun hall => absurd hall (by decide), fun _ column v hv hin => ?_⟩
    cases List.mem_singleton.1 hin
    cases hv
  · have hsent := sendInitialState_selectA (rowA 5) (by decide)
    refine (hsnapshot _ _ _ _ _ _ hsent).2 fun row hrow column v hv => ?_
    cases List.mem_singleton.1 ((reported_iff hsent row).2 hrow)
    simp only [rowA, OrdMap.getElem?_insert] at hv
    split at hv
    · rename_i hcolumn
      exact List.mem_singleton.2 hcolumn.symm
    · simp at hv

/-- The event of an INSERT of `a` and `b` has neither of them for `SELECT a FROM t`, and the snapshot has both. -/
theorem projection_lost : ∃ e' entries ev,
    commit selectAEnv true (fun _ => 0) emptyTable { timestamp := 1, writeSet := [⟨.insert, str "t", rowAB⟩] } =
      .submitted e' entries [ev] ∧
    SqlSubscriptionParser.parse (str "SELECT a FROM t") (str "sql_sub_1") (str "c") = some selectA ∧
    ¬ Projected selectAEnv.toJsonLib selectA ⟨.insert, str "t", rowAB⟩ none ev ∧
    AreaOfInterest.sendInitialState selectAEnv 100000 (fun _ => {}) (holding rowAB) (str "SELECT a FROM t") (str "sql_sub_1") =
      some (reportA rowAB) ∧
    ¬ ∀ data ∈ rowsData (reportA rowAB).json, OnlyColumns [str "a"] data := by
  have hc : ∃ e' entries ev, commit selectAEnv true (fun _ => 0) emptyTable
      { timestamp := 1, writeSet := [⟨.insert, str "t", rowAB⟩] } = .submitted e' entries [ev] := ⟨_, _, _, rfl⟩
  obtain ⟨e', entries, ev, hc⟩ := hc
  have hof : EventOf selectAEnv.toJsonLib ⟨.insert, str "t", rowAB⟩ none ev :=
    ((After.refl (fun _ => 0) emptyTable).eventOf (commit_spec.1 _ _ _ hc)).2 0 _ ev rfl rfl
  refine ⟨e', entries, ev, hc, parse_selectA, fun hprojected => ?_, sendInitialState_selectA rowAB (by decide), fun honly => ?_⟩
  · have hspared := ((projected_iff selectAEnv_utf8Only hof rfl).1 hprojected).1 (by decide)
    exact absurd (hspared.none (by decide) (str "a") (.int64 5) rfl (by decide)).1 (by decide)
  · rw [rowsData_json] at honly
    exact absurd (honly (snapshotData rowAB) List.mem_cons_self (str "b") (by decide)) (by decide)

end OriginDB
