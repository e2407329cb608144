import OriginDB.Lib.Lists
import OriginDB.Storage.RowJson
/-!
# The snapshot file (`WriteSnapshot`, `LoadSnapshotIfPresent`, `src/storage/storage_engine.cpp:143-220`)

The document lists the tables in the iteration order of `tables_`; each is the text of its schema and
the texts of its rows. Loading it back gives every table and key again, with the columns `DeserializeRow`
makes of them, so the snapshot is faithful exactly for rows of `Lossless` values (`snapshot_faithful_iff`).
-/
namespace OriginDB

open JsonDoc JsonDoc.Json Lists

/-- The code outside the repository: the JSON library, and the order an `unordered_map` is iterated in. -/
structure Env extends JsonLib where
  order : HashOrder

/-! ## Writing -/

def tableJson (J : JsonLib) (t : MemTable) : Option Json := do
  let schema ← serializeSchema J t.schema
  let rows ← (t.scan [] []).mapM fun p => serializeRow J p.2
  return .object [(str "rows", .array (rows.map .string)), (str "schema", .string schema)]

def snapshotJson (env : Env) (T : Tables) (lastSequence : UInt64) : Option Json := do
  let tables ← (env.order.list T).mapM fun p => tableJson env.toJsonLib p.2
  return .object [(str "last_sequence", .int lastSequence.toNat), (str "tables", .array tables)]

/-- The text `WriteSnapshot` writes (storage_engine.cpp:148-170); `none` is an exception of `dump`. -/
def snapshotText (env : Env) (T : Tables) (lastSequence : UInt64) : Option Bytes :=
  snapshotJson env T lastSequence >>= env.dump

/-! ## Loading -/

def loadRow (J : JsonLib) (t : MemTable) (j : Json) : Option MemTable := do
  let row ← deserializeRow J (← j.asString)
  return (t.insert row).getD t

def loadTable (J : JsonLib) (j : Json) : Option MemTable := do
  let schema ← deserializeSchema J (← j.valueOr (str "schema") [])
  (← j.constMember (str "rows")).elements.foldlM (loadRow J) { schema := schema }

def loadTables (J : JsonLib) (e : Engine) (js : List Json) : Option Engine :=
  js.foldlM (fun e j => do
    let t ← loadTable J j
    let rows ← j.constMember (str "rows")
    return { tables := e.tables.insert t.schema.name t
             stats := { e.stats with
               totalTables := e.stats.totalTables + 1
               totalRows := e.stats.totalRows + UInt64.ofNat rows.elements.length } }) e

/-- `LoadSnapshotIfPresent` (storage_engine.cpp:188) on the contents of `snapshot.json`, if there is one.
A text that is no JSON, or has no `tables`, is ignored; `none` is an exception out of `Initialize`. -/
def loadSnapshotIfPresent (J : JsonLib) (e : Engine) (snap : Option Bytes) : Option Engine :=
  match snap with
  | none => some e
  | some text =>
    match J.parse text with
    | none => some e
    | some doc =>
      if doc.contains (str "tables") then (doc.member (str "tables")).bind fun ts => loadTables J e ts.elements
      else some e

/-! ## Round trip -/

section RoundTrip
variable {J : JsonLib}

def reloadRow (r : Row) : Row := { key := r.key, columns := reloadColumns r.columns }

theorem loadRow_serializeRow {t : MemTable} {r : Row} {b : Bytes} (h : serializeRow J r = some b) :
    loadRow J t (.string b) = some ((t.insert (reloadRow r)).getD t) := by
  show (deserializeRow J b).bind _ = _
  rw [deserializeRow_serializeRow J h]
  rfl

theorem insert_getD_rows (t : MemTable) (r : Row) :
    ((t.insert r).getD t).schema = t.schema ∧
    ((t.insert r).getD t).rows = if t.rows[r.key]?.isSome then t.rows else t.rows.insert r.key r := by
  unfold MemTable.insert
  split <;> exact ⟨rfl, rfl⟩

theorem loadRows {l : List (Bytes × Row)} {bs : List Bytes} (h : (l.mapM fun p => serializeRow J p.2) = some bs)
    (t : MemTable) :
    ∃ t', (bs.map Json.string).foldlM (loadRow J) t = some t' ∧ t'.schema = t.schema ∧
      t'.rows = OrdMap.insertNewAll t.rows (l.map fun p => (p.2.key, reloadRow p.2)) := by
  induction l generalizing bs t with
  | nil => cases h; exact ⟨t, rfl, rfl, rfl⟩
  | cons p l ih =>
    obtain ⟨b, bs, rfl, hb, hbs⟩ := mapM_eq_some_cons h
    obtain ⟨hschema, hrows⟩ := insert_getD_rows t (reloadRow p.2)
    obtain ⟨t', hload, hs, hr⟩ := ih hbs ((t.insert (reloadRow p.2)).getD t)
    refine ⟨t', ?_, hs.trans hschema, ?_⟩
    · rw [List.map_cons, List.foldlM_cons, loadRow_serializeRow hb]
      exact hload
    · rw [hr, hrows]
      rfl

/-- The table a reader finds after a restart from the snapshot. -/
structure Reloaded (t t' : MemTable) : Prop where
  schema : t'.schema = t.schema
  rows : ∀ k : Bytes, t'.rows[k]? = t.rows[k]?.map reloadRow

theorem loadTable_tableJson {t : MemTable} {j : Json} (h : tableJson J t = some j)
    (hkey : ∀ (k : Bytes) (r : Row), t.rows[k]? = some r → r.key = k) :
    ∃ t', loadTable J j.reparsed = some t' ∧ Reloaded t t' := by
  obtain ⟨schema, hs, h⟩ := Option.bind_eq_some_iff.1 h
  obtain ⟨bs, hrows, h⟩ := Option.bind_eq_some_iff.1 h
  rw [MemTable.scan_all] at hrows
  obtain ⟨t', hload, hschema, hnew⟩ := loadRows hrows { schema := t.schema }
  have hre : j.reparsed = .object [(str "rows", .array (bs.map .string)), (str "schema", .string schema)] := by
    cases h
    have hstr : (bs.map Json.string).map reparsed = bs.map Json.string := by
      rw [List.map_map]
      exact List.map_congr_left fun _ _ => rfl
    simp only [reparsed, reparsedObject, reparsedList_eq, hstr]
  refine ⟨t', ?_, hschema, ?_⟩
  · rw [hre]
    show (deserializeSchema J schema).bind _ = _
    rw [deserializeSchema_serializeSchema J hs]
    exact hload
  · -- every row is filed under its own key, so the listing has each key once
    have hlist : (t.rows.toList.map fun p => (p.2.key, reloadRow p.2)) = t.rows.toList.map fun p => (p.1, reloadRow p.2) := by
      refine List.map_congr_left fun p hp => ?_
      rw [hkey p.1 p.2 (Std.ExtTreeMap.mem_toList_iff_getElem?_eq_some.1 hp)]
    intro k
    rw [hnew, hlist, OrdMap.insertNewAll_eq_insertAll (OrdMap.distinct_map (OrdMap.distinct_toList _) _) _
      (fun p _ => by simp)]
    exact OrdMap.getElem?_insertAll_map (List.Perm.refl _) reloadRow k

theorem loadTables_tableJson {l : List (Bytes × MemTable)} {js : List Json}
    (h : (l.mapM fun p => tableJson J p.2) = some js)
    (hl : ∀ p ∈ l, p.2.schema.name = p.1 ∧ ∀ (k : Bytes) (r : Row), p.2.rows[k]? = some r → r.key = k) (e : Engine) :
    ∃ e' l', loadTables J e (js.map reparsed) = some e' ∧ e'.tables = OrdMap.insertAll e.tables l' ∧
      List.Forall₂ (fun p p' => p'.1 = p.1 ∧ Reloaded p.2 p'.2) l l' := by
  induction l generalizing js e with
  | nil => cases h; exact ⟨e, [], rfl, rfl, .nil⟩
  | cons p l ih =>
    obtain ⟨j, js, rfl, hj, hjs⟩ := mapM_eq_some_cons h
    obtain ⟨hname, hkey⟩ := hl p (by simp)
    obtain ⟨t', hload, hre⟩ := loadTable_tableJson hj hkey
    obtain ⟨rows, hrows⟩ : ∃ rows, j.reparsed.constMember (str "rows") = some rows := by
      simp only [loadTable, Option.bind_eq_bind] at hload
      obtain ⟨_, _, hload⟩ := Option.bind_eq_some_iff.1 hload
      obtain ⟨_, _, hload⟩ := Option.bind_eq_some_iff.1 hload
      obtain ⟨rows, hrows, _⟩ := Option.bind_eq_some_iff.1 hload
      exact ⟨rows, hrows⟩
    obtain ⟨e', l', hl', htabs, hall⟩ := ih hjs (fun q hq => hl q (by simp [hq]))
      { tables := e.tables.insert t'.schema.name t'
        stats := { e.stats with
          totalTables := e.stats.totalTables + 1
          totalRows := e.stats.totalRows + UInt64.ofNat rows.elements.length } }
    refine ⟨e', (p.1, t') :: l', ?_, ?_, .cons ⟨rfl, hre⟩ hall⟩
    · rw [List.map_cons, loadTables, List.foldlM_cons, hload]
      simp only [Option.bind_eq_bind, Option.bind_some, hrows]
      exact hl'
    · rw [htabs, OrdMap.insertAll_cons, hre.schema, hname]

theorem forall₂_mem {l : List (Bytes × MemTable)} {l' : List (Bytes × MemTable)}
    (h : List.Forall₂ (fun p p' => p'.1 = p.1 ∧ Reloaded p.2 p'.2) l l') {n : Bytes} {t : MemTable} (hm : (n, t) ∈ l) :
    ∃ t', (n, t') ∈ l' ∧ Reloaded t t' := by
  induction h with
  | nil => cases hm
  | @cons p p' l l' hp _ ih =>
    rcases List.mem_cons.1 hm with rfl | hm
    · obtain ⟨n', t'⟩ := p'
      obtain ⟨hn, hr⟩ := hp
      simp only at hn
      subst hn
      exact ⟨t', by simp, hr⟩
    · obtain ⟨t', ht', hr⟩ := ih hm
      exact ⟨t', by simp [ht'], hr⟩

theorem forall₂_names {l : List (Bytes × MemTable)} {l' : List (Bytes × MemTable)}
    (h : List.Forall₂ (fun p p' => p'.1 = p.1 ∧ Reloaded p.2 p'.2) l l') : l'.map Prod.fst = l.map Prod.fst := by
  induction h with
  | nil => rfl
  | cons hp _ ih => rw [List.map_cons, List.map_cons, hp.1, ih]

/-- **Loading a snapshot gives every table back, reloaded.** -/
theorem loadSnapshot_snapshotText {env : Env} {T : Tables} {seq : UInt64} {text : Bytes} (hk : WellKeyed T)
    (h : snapshotText env T seq = some text) :
    ∃ e, loadSnapshotIfPresent env.toJsonLib {} (some text) = some e ∧
      ∀ n : Bytes, (T[n]? = none ∧ e.tables[n]? = none) ∨
        ∃ t t', T[n]? = some t ∧ e.tables[n]? = some t' ∧ Reloaded t t' := by
  obtain ⟨doc, hdoc, hdump⟩ := Option.bind_eq_some_iff.1 h
  obtain ⟨js, hjs, hdoc⟩ := Option.bind_eq_some_iff.1 hdoc
  have hmem : ∀ (n : Bytes) (t : MemTable), (n, t) ∈ env.order.list T ↔ T[n]? = some t := fun n t => by
    rw [(env.order.perm T).mem_iff, Std.ExtTreeMap.mem_toList_iff_getElem?_eq_some]
  obtain ⟨e, l', hload, htabs, hall⟩ := loadTables_tableJson hjs
    (fun p hp => ⟨hk.name p.1 p.2 ((hmem _ _).1 hp), hk.key p.1 p.2 ((hmem _ _).1 hp)⟩) {}
  have hre : doc.reparsed =
      .object [(str "last_sequence", .int seq.toNat), (str "tables", .array (js.map reparsed))] := by
    cases hdoc
    simp only [reparsed, reparsedObject, reparsedList_eq]
  refine ⟨e, ?_, fun n => ?_⟩
  · rw [loadSnapshotIfPresent, env.parse_dump _ _ hdump, hre]
    exact hload
  · have hnames : OrdMap.Distinct l' := by
      unfold OrdMap.Distinct
      rw [forall₂_names hall]
      exact (OrdMap.distinct_toList T).perm (env.order.perm T)
    cases ht : T[n]? with
    | some t =>
      obtain ⟨t', ht', hr⟩ := forall₂_mem hall ((hmem n t).2 ht)
      refine Or.inr ⟨t, t', rfl, ?_, hr⟩
      rw [htabs]
      exact OrdMap.getElem?_insertAll_of_mem hnames ht' _
    | none =>
      refine Or.inl ⟨rfl, ?_⟩
      rw [htabs, OrdMap.getElem?_insertAll_of_notMem]
      · simp
      · intro p hp he
        have hin : n ∈ (env.order.list T).map Prod.fst := by
          rw [← forall₂_names hall]
          exact List.mem_map.2 ⟨p, hp, he⟩
        obtain ⟨q, hq, rfl⟩ := List.mem_map.1 hin
        rw [(hmem q.1 q.2).1 hq] at ht
        cases ht

end RoundTrip

/-! ## Fidelity -/

/-- Every value in the tables is of an alternative JSON has. -/
def LosslessTables (T : Tables) : Prop :=
  ∀ (n : Bytes) (t : MemTable), T[n]? = some t → ∀ (k : Bytes) (r : Row), t.rows[k]? = some r →
    ∀ (c : Bytes) (v : Value), r.columns[c]? = some v → v.Lossless

theorem view_reloaded {T T' : Tables} (h : ∀ n : Bytes, (T[n]? = none ∧ T'[n]? = none) ∨
      ∃ t t', T[n]? = some t ∧ T'[n]? = some t' ∧ Reloaded t t') :
    view T' = view T ↔ LosslessTables T := by
  constructor
  · intro hv n t ht k r hr
    rcases h n with ⟨hn, -⟩ | ⟨t₀, t', ht₀, ht', hre⟩
    · rw [ht] at hn
      cases hn
    · rw [ht] at ht₀
      cases ht₀
      have hrow := congrFun hv n
      rw [view_eq_some ht, view_eq_some ht', Option.some.injEq, Prod.mk.injEq] at hrow
      have hcols := congrFun hrow.2 k
      rw [hre.rows k, hr] at hcols
      simp only [Option.map_some, Option.some.injEq] at hcols
      exact (reloadColumns_eq_iff r.columns).1 hcols
  · intro hl
    funext n
    rcases h n with ⟨hn, hn'⟩ | ⟨t, t', ht, ht', hre⟩
    · rw [view_eq_none hn, view_eq_none hn']
    · rw [view_eq_some ht, view_eq_some ht', hre.schema]
      refine congrArg (fun f => some (t.schema, f)) (funext fun k => ?_)
      rw [hre.rows k]
      cases hr : t.rows[k]? with
      | none => rfl
      | some r =>
        have hcols := (reloadColumns_eq_iff r.columns).2 (hl n t ht k r hr)
        simp only [Option.map_some, reloadRow, hcols]

/-- **A snapshot is faithful exactly when it holds no value JSON lacks**: `int32` comes back as `int64`,
`float` as `double`, a time or a number that is not finite as null, and a byte string not at all. -/
theorem snapshot_faithful_iff (env : Env) (T : Tables) (seq : UInt64) (text : Bytes) (hk : WellKeyed T)
    (h : snapshotText env T seq = some text) :
    (∃ e, loadSnapshotIfPresent env.toJsonLib {} (some text) = some e ∧ view e.tables = view T) ↔
      LosslessTables T := by
  obtain ⟨e, hload, hre⟩ := loadSnapshot_snapshotText hk h
  constructor
  · rintro ⟨e', hload', hv⟩
    rw [hload] at hload'
    cases hload'
    exact (view_reloaded hre).1 hv
  · intro hl
    exact ⟨e, hload, (view_reloaded hre).2 hl⟩

/-- A table `t` whose row `k` has the one column `a`. -/
def oneRow (v : Value) : Tables :=
  (∅ : Tables).insert (str "t")
    { schema := ⟨str "t", [], []⟩
      rows := (∅ : StrMap Row).insert (str "k") { key := str "k", columns := (∅ : Columns).insert (str "a") v } }

/-- The library on the three documents of that table's snapshot when `a` is the integer 5. -/
def oneRowJson : JsonLib := JsonLib.ofTable
  [(schemaJson ⟨str "t", [], []⟩, str "\x7b\"columns\":[],\"name\":\"t\",\"primary_key\":[]\x7d"),
   (.object [(str "columns", .object [(str "a", .int 5)]), (str "key", .string (str "k"))],
    str "\x7b\"columns\":\x7b\"a\":5\x7d,\"key\":\"k\"\x7d"),
   (.object [(str "last_sequence", .int 1), (str "tables", .array [.object
      [(str "rows", .array [.string (str "\x7b\"columns\":\x7b\"a\":5\x7d,\"key\":\"k\"\x7d")]),
       (str "schema", .string (str "\x7b\"columns\":[],\"name\":\"t\",\"primary_key\":[]\x7d"))]])],
    str "\x7b\"last_sequence\":1,\"tables\":[\x7b\"rows\":[\"\x7b\\\"columns\\\":\x7b\\\"a\\\":5\x7d,\\\"key\\\":\\\"k\\\"\x7d\"],\"schema\":\"\x7b\\\"columns\\\":[],\\\"name\\\":\\\"t\\\",\\\"primary_key\\\":[]\x7d\"\x7d]\x7d")]
  (by decide +kernel)

def oneRowEnv : Env := { toJsonLib := oneRowJson, order := .sorted }

theorem wellKeyed_oneRow (v : Value) : WellKeyed (oneRow v) := by
  constructor
  · intro n t h
    rw [oneRow, OrdMap.getElem?_insert] at h
    split at h
    · rename_i hn
      cases h
      exact hn
    · simp at h
  · intro n t h k r hr
    rw [oneRow, OrdMap.getElem?_insert] at h
    split at h
    · cases h
      rw [OrdMap.getElem?_insert] at hr
      split at hr
      · rename_i hk
        cases hr
        exact hk
      · simp at hr
    · simp at h

theorem losslessTables_oneRow {v : Value} (hv : v.Lossless) : LosslessTables (oneRow v) := by
  intro n t h k r hr c u hc
  rw [oneRow, OrdMap.getElem?_insert] at h
  split at h
  · cases h
    rw [OrdMap.getElem?_insert] at hr
    split at hr
    · cases hr
      rw [OrdMap.getElem?_insert] at hc
      split at hc
      · cases hc
        exact hv
      · simp at hc
    · simp at hr
  · simp at h

theorem snapshot_faithful_int64 : ∃ text, snapshotText oneRowEnv (oneRow (.int64 5)) 1 = some text ∧
    ∃ e, loadSnapshotIfPresent oneRowJson {} (some text) = some e ∧ view e.tables = view (oneRow (.int64 5)) := by
  have h : (snapshotText oneRowEnv (oneRow (.int64 5)) 1).isSome := by decide
  obtain ⟨text, ht⟩ := Option.isSome_iff_exists.1 h
  exact ⟨text, ht, (snapshot_faithful_iff oneRowEnv _ 1 text (wellKeyed_oneRow _) ht).2 (losslessTables_oneRow rfl)⟩

/-- One value of the view. -/
def columnOf (T : Tables) (n k c : Bytes) : Option Value :=
  (view T n).bind fun p => (p.2 k).bind fun cols => cols[c]?

/-- An `int32` column comes back as an `int64`. -/
theorem snapshot_widens_int32 : ∃ text e, snapshotText oneRowEnv (oneRow (.int32 5)) 1 = some text ∧
    loadSnapshotIfPresent oneRowJson {} (some text) = some e ∧
    columnOf e.tables (str "t") (str "k") (str "a") = some (.int64 5) ∧ view e.tables ≠ view (oneRow (.int32 5)) := by
  have h : ((snapshotText oneRowEnv (oneRow (.int32 5)) 1).bind fun text =>
      (loadSnapshotIfPresent oneRowJson {} (some text)).bind fun e =>
        columnOf e.tables (str "t") (str "k") (str "a")) = some (.int64 5) := by decide +kernel
  obtain ⟨text, htext, h⟩ := Option.bind_eq_some_iff.1 h
  obtain ⟨e, he, h⟩ := Option.bind_eq_some_iff.1 h
  refine ⟨text, e, htext, he, h, fun hv => ?_⟩
  rw [columnOf, hv, ← columnOf] at h
  exact absurd h (by decide +kernel)

end OriginDB
