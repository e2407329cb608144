import OriginDB.Changefeed.Events
import OriginDB.Lib.JsonText
import OriginDB.Storage.CrashSafety
/-!
# Rows that cannot be printed (`storage_engine.cpp:143-186`, `:376-419`, `:665-709`)

`SerializeRow` throws on a key, a column name or a string that is not UTF-8. The WAL takes any bytes, so nothing stops
such a row before it is in the tables: without a changefeed it is committed and every later `WriteSnapshot` throws
(`snapshotText_isSome_iff`); with one, `Commit` throws out of the middle of its loop, when the row is already in place
(`threw_changes`).
-/
namespace OriginDB

open JsonDoc ByteCodec Machine Lists

/-- Nothing in the row stops it from being printed. -/
def Row.Utf8 (r : Row) : Prop := (rowJson r).utf8 = true

def TableSchema.Utf8 (s : TableSchema) : Prop := (schemaJson s).utf8 = true

instance (r : Row) : Decidable r.Utf8 := inferInstanceAs (Decidable (_ = _))

instance (s : TableSchema) : Decidable s.Utf8 := inferInstanceAs (Decidable (_ = _))

def Value.Utf8 : Value → Prop
  | .string s => JsonDoc.Utf8 s
  | _ => True

theorem Row.utf8_iff {r : Row} : r.Utf8 ↔ JsonDoc.Utf8 r.key ∧
    ∀ (c : Bytes) (v : Value), r.columns[c]? = some v → JsonDoc.Utf8 c ∧ v.Utf8 := by
  have hvalue : ∀ v : Value, (valueJson v).utf8 = true ↔ v.Utf8 := by
    intro v
    cases v <;> simp [valueJson, Json.utf8, Value.Utf8]
  have hcols : JsonDoc.Utf8 (str "columns") := utf8_str _
  have hkey : JsonDoc.Utf8 (str "key") := utf8_str _
  simp only [Row.Utf8, rowJson, Json.utf8_object, List.mem_cons, List.not_mem_nil, or_false, forall_eq_or_imp, forall_eq,
    hcols, hkey, true_and, Json.utf8_string]
  constructor
  · rintro ⟨hcolumns, hk⟩
    refine ⟨hk, fun c v hc => ?_⟩
    have hp := hcolumns _ (List.mem_map.2 ⟨(c, v), Std.ExtTreeMap.mem_toList_iff_getElem?_eq_some.2 hc, rfl⟩)
    exact ⟨hp.1, (hvalue v).1 hp.2⟩
  · rintro ⟨hk, hcolumns⟩
    refine ⟨fun p hp => ?_, hk⟩
    obtain ⟨q, hq, rfl⟩ := List.mem_map.1 hp
    obtain ⟨hc, hv⟩ := hcolumns q.1 q.2 (Std.ExtTreeMap.mem_toList_iff_getElem?_eq_some.1 hq)
    exact ⟨hc, (hvalue q.2).2 hv⟩

/-- Every schema and every row can be printed. -/
def Utf8Tables (T : Tables) : Prop :=
  ∀ (n : Bytes) (t : MemTable), T[n]? = some t → t.schema.Utf8 ∧ ∀ (k : Bytes) (r : Row), t.rows[k]? = some r → r.Utf8

section
variable {J : JsonLib} (hJ : J.Utf8Only)
include hJ

theorem serializeRow_isSome {r : Row} : (serializeRow J r).isSome ↔ r.Utf8 := hJ.dump_isSome _

theorem serializeSchema_isSome {s : TableSchema} : (serializeSchema J s).isSome ↔ s.Utf8 := hJ.dump_isSome _

/-- The part of the document that is about one table, if its schema and its rows can be printed. -/
theorem tableJson_isSome {t : MemTable} : (tableJson J t).isSome ↔
    t.schema.Utf8 ∧ ∀ (k : Bytes) (r : Row), t.rows[k]? = some r → r.Utf8 := by
  have hrows : ((t.scan [] []).mapM fun p => serializeRow J p.2).isSome ↔
      ∀ (k : Bytes) (r : Row), t.rows[k]? = some r → r.Utf8 := by
    rw [MemTable.scan_all, isSome_mapM_iff]
    constructor
    · intro h k r hr
      exact (serializeRow_isSome hJ).1 (h (k, r) (Std.ExtTreeMap.mem_toList_iff_getElem?_eq_some.2 hr))
    · intro h p hp
      exact (serializeRow_isSome hJ).2 (h p.1 p.2 (Std.ExtTreeMap.mem_toList_iff_getElem?_eq_some.1 hp))
  rw [← hrows, ← serializeSchema_isSome hJ, tableJson]
  cases serializeSchema J t.schema <;> cases (t.scan [] []).mapM fun p => serializeRow J p.2 <;> simp

/-- And then it can be printed as part of the document. -/
theorem utf8_tableJson {t : MemTable} {j : Json} (h : tableJson J t = some j) : j.utf8 = true := by
  obtain ⟨schema, hs, h⟩ := Option.bind_eq_some_iff.1 h
  obtain ⟨bs, hrows, h⟩ := Option.bind_eq_some_iff.1 h
  cases h
  have hschema : JsonDoc.Utf8 schema := hJ.utf8_dump _ _ hs
  have htexts : ∀ b ∈ bs, JsonDoc.Utf8 b := by
    intro b hb
    obtain ⟨p, -, hp⟩ := (mem_of_forall₂ (forall₂_of_mapM hrows)).2 b hb
    exact hJ.utf8_dump _ _ hp
  have hnames : JsonDoc.Utf8 (str "rows") ∧ JsonDoc.Utf8 (str "schema") := ⟨utf8_str _, utf8_str _⟩
  simpa [hnames, hschema] using htexts

end

/-- **`WriteSnapshot` completes** exactly when everything in the tables can be printed. -/
theorem snapshotText_isSome_iff {env : Env} (hJ : env.Utf8Only) {T : Tables} {seq : UInt64} :
    (snapshotText env T seq).isSome ↔ Utf8Tables T := by
  have hmem : ∀ (n : Bytes) (t : MemTable), (n, t) ∈ env.order.list T ↔ T[n]? = some t := fun n t => by
    rw [(env.order.perm T).mem_iff, Std.ExtTreeMap.mem_toList_iff_getElem?_eq_some]
  have htables : ((env.order.list T).mapM fun p => tableJson env.toJsonLib p.2).isSome ↔ Utf8Tables T := by
    rw [isSome_mapM_iff]
    constructor
    · intro h n t ht
      exact (tableJson_isSome hJ).1 (h (n, t) ((hmem n t).2 ht))
    · intro h p hp
      exact (tableJson_isSome hJ).2 (h p.1 p.2 ((hmem p.1 p.2).1 hp))
  rw [← htables, snapshotText, snapshotJson]
  cases hjs : (env.order.list T).mapM fun p => tableJson env.toJsonLib p.2 with
  | none => simp
  | some js =>
    have hall : ∀ j ∈ js, j.utf8 = true := by
      intro j hj
      obtain ⟨p, -, hp⟩ := (mem_of_forall₂ (forall₂_of_mapM hjs)).2 j hj
      exact utf8_tableJson hJ hp
    have hnames : JsonDoc.Utf8 (str "last_sequence") ∧ JsonDoc.Utf8 (str "tables") := ⟨utf8_str _, utf8_str _⟩
    simpa [hJ.dump_isSome, hnames, Json.utf8, Json.utf8List_iff, Json.utf8Object_iff] using hall

/-! ## A commit that throws -/

/-- What `Commit` prints of a write can be printed: its row, and the one that was in the tables when the commit began. -/
def Prints (J : JsonLib) (T : Tables) (w : WriteOperation) : Prop :=
  (w.op ≠ .delete → (serializeRow J w.row).isSome) ∧
    ∀ r, rowOf T w.tableName w.row.key = some r → (serializeRow J r).isSome

theorem writeEvent_isSome_iff {env : Env} {feed : Bool} {ts : UInt64} {w : WriteOperation} {old : Option Row} {now : UInt64} :
    (writeEvent env feed ts w old now).isSome ↔
      (feed = true → (w.op ≠ .delete → (serializeRow env.toJsonLib w.row).isSome) ∧
        ∀ r, old = some r → (serializeRow env.toJsonLib r).isSome) := by
  cases feed with
  | false => simp [writeEvent]
  | true =>
    cases old with
    | none =>
      cases hop : w.op with
      | insert | update => cases hn : serializeRow env.toJsonLib w.row <;> simp [writeEvent, hop, hn]
      | delete => simp [writeEvent, hop]
    | some r =>
      cases hop : w.op with
      | insert | update =>
        cases hn : serializeRow env.toJsonLib w.row <;> cases hr : serializeRow env.toJsonLib r <;> simp [writeEvent, hop, hn, hr]
      | delete => cases hr : serializeRow env.toJsonLib r <;> simp [writeEvent, hop, hr]

/-! ### The rows met in the loop -/

section
variable {J : JsonLib} {clock : Nat → UInt64} {n k : Bytes}

/-- After writes that print, a key that one of them was on has a row that prints, if any. -/
theorem prints_netRow {i : Nat} {ws : List WriteOperation} {r₀ : Option Row} {row : Row}
    (hws : ∀ w ∈ ws, w.tableName = n → w.row.key = k → w.op ≠ .delete → (serializeRow J w.row).isSome)
    (hon : ∃ w ∈ ws, w.tableName = n ∧ w.row.key = k) (h : netRow clock n k i ws r₀ = some row) :
    (serializeRow J row).isSome := by
  induction ws using List.reverseRecOn with
  | nil => simp at hon
  | append_singleton ws w ih =>
    rw [netRow_concat] at h
    split at h
    · rename_i hw
      have hprint := hws w (by simp) hw.1 hw.2
      cases hm : netRow clock n k i ws r₀ with
      | none =>
        simp only [hm, rowStep] at h
        split at h
        · cases h
        · rename_i hop
          cases h
          exact hprint hop
      | some old =>
        simp only [hm, rowStep] at h
        split at h
        · cases h
        · rename_i hop
          cases h
          rw [serializeRow_congr J rfl rfl]
          exact hprint hop
    · rename_i hw
      refine ih (fun v hv => hws v (by simp [hv])) ?_ h
      obtain ⟨v, hv, hvk⟩ := hon
      rcases List.mem_append.1 hv with hv | hv
      · exact ⟨v, hv, hvk⟩
      · rw [List.mem_singleton.1 hv] at hvk
        exact absurd hvk hw

end

section
variable {env : Env} {clock : Nat → UInt64} {ts : UInt64} {e e₁ e₂ : Engine} {before : List WriteOperation}
  {w : WriteOperation}

/-- The row a write meets prints exactly when the one the commit began with does. -/
theorem After.prints_iff (h : After clock e before e₁) (hbefore : ∀ v ∈ before, Prints env.toJsonLib e.tables v) :
    (∀ r, rowOf e₁.tables w.tableName w.row.key = some r → (serializeRow env.toJsonLib r).isSome) ↔
      ∀ r, rowOf e.tables w.tableName w.row.key = some r → (serializeRow env.toJsonLib r).isSome := by
  rw [h.rows]
  by_cases hon : ∃ v ∈ before, v.tableName = w.tableName ∧ v.row.key = w.row.key
  · have hnow : ∀ r, netRow clock w.tableName w.row.key 0 before (rowOf e.tables w.tableName w.row.key) = some r →
        (serializeRow env.toJsonLib r).isSome := fun r hr =>
      prints_netRow (fun v hv _ _ => (hbefore v hv).1) hon hr
    obtain ⟨v, hv, hn, hk⟩ := hon
    have hthen := (hbefore v hv).2
    rw [hn, hk] at hthen
    exact ⟨fun _ => hthen, fun _ => hnow⟩
  · rw [netRow_of_notMem fun v hv hvk => hon ⟨v, hv, hvk⟩]

/-- `Commit` throws at the first write that does not print. -/
theorem After.writeEvent_isSome_iff (ts : UInt64) {old : Option Row} {now : UInt64} (h : After clock e before e₁)
    (hbefore : ∀ v ∈ before, Prints env.toJsonLib e.tables v) (hw : applyWrite e₁ w now = some (e₂, old)) :
    (writeEvent env true ts w old now).isSome ↔ Prints env.toJsonLib e.tables w := by
  rw [OriginDB.writeEvent_isSome_iff, applyWrite_old hw, Prints, ← h.prints_iff hbefore]
  simp

/-- **A write that does not print changes its key**, whatever was written before it in the same commit. -/
theorem After.changed {old : Option Row} (h : After clock e before e₁) (hbefore : ∀ v ∈ before, Prints env.toJsonLib e.tables v)
    (hw : applyWrite e₁ w (clock before.length) = some (e₂, old)) (hprint : ¬ Prints env.toJsonLib e.tables w) :
    ¬ SameContents e e₂ := by
  intro hsame
  have hkey := (h.step hw).sameContents_iff.1 hsame w.tableName w.row.key
  rw [netRow_concat, if_pos ⟨rfl, rfl⟩, ← h.rows] at hkey
  have hrow := applyWrite_old hw
  by_cases hon : ∃ v ∈ before, v.tableName = w.tableName ∧ v.row.key = w.row.key
  · -- the commit began with a row that prints, and ends with the row of `w`
    obtain ⟨v, hv, hn, hk⟩ := hon
    have hthen := (hbefore v hv).2
    rw [hn, hk] at hthen
    refine hprint ⟨fun hop => ?_, hthen⟩
    cases hm : rowOf e₁.tables w.tableName w.row.key with
    | none =>
      simp only [hm, rowStep, hop, if_false] at hkey
      exact hthen _ hkey.symm
    | some r =>
      simp only [hm, rowStep, hop, if_false] at hkey
      have hp := hthen _ hkey.symm
      rwa [serializeRow_congr env.toJsonLib rfl rfl] at hp
  · -- the first write on its key: the row it leaves has another version, or is gone, or is new
    have hsame₁ : rowOf e₁.tables w.tableName w.row.key = rowOf e.tables w.tableName w.row.key := by
      rw [h.rows, netRow_of_notMem fun v hv hvk => hon ⟨v, hv, hvk⟩]
    rw [hsame₁] at hkey
    cases hm : rowOf e.tables w.tableName w.row.key with
    | none =>
      simp only [hm, rowStep] at hkey
      split at hkey
      · rename_i hop
        refine hprint ⟨fun hne => absurd hop hne, fun r hr => ?_⟩
        rw [hm] at hr
        cases hr
      · cases hkey
    | some r =>
      simp only [hm, rowStep] at hkey
      split at hkey
      · cases hkey
      · have hversion := congrArg Row.version (Option.some.inj hkey)
        simp only at hversion
        have hne : r.version + 1 ≠ r.version := by
          intro he
          grind
        exact hne hversion

theorem appliedWrites_subset {T : Tables} {before ws : List WriteOperation} {v : WriteOperation} (hv : v ∈ before) :
    v ∈ appliedWrites T before ws := by
  induction ws generalizing before with
  | nil => exact hv
  | cons w ws ih =>
    rw [appliedWrites]
    split
    · exact ih (by simp [hv])
    · exact hv

/-- What the loop comes to, once the writes `before` are applied and printed: it throws at the first write that is applied
and does not print, and not at all if there is none. -/
theorem After.loop (env : Env) (ts : UInt64) (ws : List WriteOperation) (h : After clock e before e₁)
    (hbefore : ∀ v ∈ before, Prints env.toJsonLib e.tables v) :
    (∀ e', applyWrites env true ts clock before.length e₁ ws = .threw e' → ¬ SameContents e e' ∧
      ¬ ∀ w ∈ appliedWrites e.tables before ws, Prints env.toJsonLib e.tables w) ∧
    ((∀ e', applyWrites env true ts clock before.length e₁ ws ≠ .threw e') →
      ∀ w ∈ appliedWrites e.tables before ws, Prints env.toJsonLib e.tables w) := by
  induction ws generalizing before e₁ with
  | nil => exact ⟨by rintro e' ⟨⟩, fun _ => hbefore⟩
  | cons w ws ih =>
    rw [appliedWrites]
    unfold applyWrites
    cases hw : applyWrite e₁ w (clock before.length) with
    | none =>
      rw [if_neg (by simp [h.applicable_iff.1 hw])]
      exact ⟨by rintro e' ⟨⟩, fun _ => hbefore⟩
    | some p =>
      obtain ⟨e₂, old⟩ := p
      have happ : applicable e.tables before w = true := by
        by_contra hna
        rw [h.applicable_iff.2 (by simpa using hna)] at hw
        cases hw
      rw [if_pos happ]
      have hevent := h.writeEvent_isSome_iff ts hbefore hw
      simp only
      cases hev : writeEvent env true ts w old (clock before.length) with
      | none =>
        have hprint : ¬ Prints env.toJsonLib e.tables w := fun hp => by
          rw [hev] at hevent
          exact absurd (hevent.2 hp) (by simp)
        refine ⟨?_, fun hno => absurd rfl (hno e₂)⟩
        rintro e' ⟨⟩
        refine ⟨h.changed hbefore hw hprint, fun hall => hprint (hall w ?_)⟩
        exact appliedWrites_subset (by simp)
      | some evs =>
        have hprint : Prints env.toJsonLib e.tables w := hevent.1 (by rw [hev]; rfl)
        have hnext : ∀ v ∈ before ++ [w], Prints env.toJsonLib e.tables v := by
          intro v hv
          rcases List.mem_append.1 hv with hv | hv
          · exact hbefore v hv
          · rw [List.mem_singleton.1 hv]
            exact hprint
        obtain ⟨hthrew, hnot⟩ := ih (h.step hw) hnext
        rw [List.length_append] at hthrew hnot
        simp only [List.length_singleton] at hthrew hnot
        cases hrest : applyWrites env true ts clock (before.length + 1) e₂ ws with
        | threw e' =>
          rw [hrest] at hthrew
          exact ⟨fun e'' he => hthrew e'' (by simpa using he), fun hno => absurd rfl (hno e')⟩
        | failed e' | done e' _ _ =>
          rw [hrest] at hnot
          exact ⟨by rintro e'' ⟨⟩, fun _ => hnot (by simp)⟩

end

/-- Without a changefeed nothing is printed. -/
theorem not_threw_of_no_feed {env : Env} {ts : UInt64} {clock : Nat → UInt64} {i : Nat} {e e' : Engine}
    {ws : List WriteOperation} : applyWrites env false ts clock i e ws ≠ .threw e' := by
  induction ws generalizing i e with
  | nil => simp [applyWrites]
  | cons w ws ih =>
    intro h
    unfold applyWrites at h
    split at h
    · cases h
    · simp only [writeEvent, Bool.false_eq_true, if_false] at h
      split at h
      · cases h
      · cases h
      · rename_i e'' hrest
        exact ih (hrest.trans h)

/-- **A commit whose serialisation fails leaves the tables as they were** exactly when it does not fail: every row it
prints, written or replaced, can be printed. -/
theorem threw_changes (env : Env) (feed : Bool) (clock : Nat → UInt64) (e : Engine) (txn : Txn) :
    (∀ e', commit env feed clock e txn = .threw e' → SameContents e e') ↔
      (feed = true → txn.state = .active → ∀ w ∈ appliedWrites e.tables [] txn.writeSet, Prints env.toJsonLib e.tables w) := by
  cases feed with
  | false =>
    simp only [Bool.false_eq_true, false_implies, iff_true]
    intro e' h
    unfold commit at h
    split at h
    · cases h
    · split at h
      · cases h
      · split at h
        · cases h
        · cases h
        · rename_i heq
          exact absurd heq not_threw_of_no_feed
  | true =>
    obtain ⟨hthrew, hnot⟩ := After.loop env txn.timestamp txn.writeSet (After.refl clock e) (by simp)
    have hcommit : ∀ e', commit env true clock e txn = .threw e' ↔
        txn.state = .active ∧ applyWrites env true txn.timestamp clock 0 e txn.writeSet = .threw e' := by
      intro e'
      unfold commit
      split
      · rename_i hstate
        simp [hstate]
      · rename_i hstate
        split
        · rename_i hnil
          simp [hnil, applyWrites]
        · split <;> simp_all
    constructor
    · intro h _ hactive
      refine hnot fun e' he => ?_
      exact (hthrew e' he).1 (h e' ((hcommit e').2 ⟨hactive, he⟩))
    · intro h e' he
      obtain ⟨hactive, he⟩ := (hcommit e').1 he
      exact absurd (h rfl hactive) (hthrew e' he).2

/-! ## Runs -/

section
variable {env : Env} {feed : Bool} {ts : UInt64} {clock : Nat → UInt64} {e e' : Engine}

theorem Utf8Tables.insert {T : Tables} (h : Utf8Tables T) {n : Bytes} {t : MemTable} (hs : t.schema.Utf8)
    (hr : ∀ (k : Bytes) (r : Row), t.rows[k]? = some r → r.Utf8) : Utf8Tables (T.insert n t) := by
  intro m t' ht
  rw [OrdMap.getElem?_insert] at ht
  split at ht
  · cases ht
    exact ⟨hs, hr⟩
  · exact h m t' ht

theorem Utf8Tables.applyWrite {w : WriteOperation} {now : UInt64} {old : Option Row} (h : Utf8Tables e.tables)
    (hw : applyWrite e w now = some (e', old)) (hrow : w.op ≠ .delete → w.row.Utf8) : Utf8Tables e'.tables := by
  obtain ⟨t, t', ht, htabs, hs, hcase⟩ := applyWrite_eq_some hw
  obtain ⟨hschema, hrows⟩ := h _ t ht
  rw [htabs]
  refine h.insert (hs ▸ hschema) fun k r hr => ?_
  rcases hcase with ⟨hop, -, hr', -⟩ | ⟨hop, -, old, -, hr'⟩ | ⟨-, -, hr', -⟩
  · rw [hr', OrdMap.getElem?_insert] at hr
    split at hr
    · cases hr
      exact hrow (by simp [hop])
    · exact hrows k r hr
  · rw [hr', OrdMap.getElem?_insert] at hr
    split at hr
    · cases hr
      exact hrow hop
    · exact hrows k r hr
  · rw [hr', OrdMap.getElem?_erase] at hr
    split at hr
    · cases hr
    · exact hrows k r hr

/-- However far the loop gets. -/
theorem Utf8Tables.applyWrites (env : Env) (feed : Bool) (ts : UInt64) {before ws : List WriteOperation} {e₁ : Engine} (hafter : After clock e before e₁)
    (h : Utf8Tables e₁.tables) (hrows : ∀ w ∈ appliedWrites e.tables before ws, w.op ≠ .delete → w.row.Utf8) :
    Utf8Tables (applyWrites env feed ts clock before.length e₁ ws).engine.tables := by
  induction ws generalizing before e₁ with
  | nil => exact h
  | cons w ws ih =>
    unfold OriginDB.applyWrites
    cases hw : OriginDB.applyWrite e₁ w (clock before.length) with
    | none => exact h
    | some p =>
      obtain ⟨e₂, old⟩ := p
      have happ : applicable e.tables before w = true := by
        by_contra hna
        rw [hafter.applicable_iff.2 (by simpa using hna)] at hw
        cases hw
      rw [appliedWrites, if_pos happ] at hrows
      have h₂ : Utf8Tables e₂.tables := h.applyWrite hw (hrows w (appliedWrites_subset (by simp)))
      simp only
      cases writeEvent env feed ts w old (clock before.length) with
      | none => exact h₂
      | some evs =>
        have hrest := ih (hafter.step hw) h₂ hrows
        rw [List.length_append, List.length_singleton] at hrest
        simp only
        cases heq : OriginDB.applyWrites env feed ts clock (before.length + 1) e₂ ws <;> rw [heq] at hrest <;> exact hrest

theorem Utf8Tables.commit {txn : Txn} (h : Utf8Tables e.tables) (hrows : txn.state = .active →
      ∀ w ∈ appliedWrites e.tables [] txn.writeSet, w.op ≠ .delete → w.row.Utf8) :
    Utf8Tables ((commit env feed clock e txn).engine e).tables := by
  unfold OriginDB.commit
  split
  · exact h
  · rename_i hstate
    have hloop := Utf8Tables.applyWrites env feed txn.timestamp (After.refl clock e) h (hrows (by simpa using hstate))
    split
    · exact h
    · split
      all_goals
        rename_i heq
        simp only [List.length_nil] at hloop
        rw [heq] at hloop
        exact hloop

end

namespace Server

/-- A call that writes text: every applied write that is no DELETE has a row that can be printed, and so has a new table
its schema. -/
def Legible (s : Server) : Label → Prop
  | .commit txn _ _ => txn.state = .active →
      ∀ w ∈ appliedWrites s.engine.tables [] txn.writeSet, w.op ≠ .delete → w.row.Utf8
  | .createTable schema _ => s.engine.tables[schema.name]?.isSome ∨ schema.Utf8
  | _ => True

instance (s : Server) (l : Label) : Decidable (Legible s l) := by
  unfold Legible
  split <;> infer_instance

theorem utf8Tables_step {env : Env} (hJ : env.Utf8Only) {mode : SyncMode} {feed : Bool} {s s' : Server} {l : Label}
    (h : Utf8Tables s.engine.tables) (hl : Legible s l) (hstep : step env mode feed s l = some s') :
    Utf8Tables s'.engine.tables := by
  have hcreated : ∀ schema : TableSchema, schema.Utf8 → Utf8Tables (s.engine.tables.insert schema.name { schema := schema }) :=
    fun schema hs => h.insert hs fun k r hr => by simp at hr
  rcases engine_cases hstep with ⟨he, -⟩ | ⟨txn, clock, ts, rfl, -, he⟩ | ⟨schema, ts, rfl, -, hcreate⟩ |
    ⟨name, ts, entry, i, -, -, hdrop, -⟩ | ⟨i, created, -, -, -, he⟩
  · rw [he]
    exact h
  · rw [he]
    exact h.commit hl
  · rcases hl with hthere | hschema
    · rcases hcreate with ⟨hthrew, -⟩ | ⟨entry, i, hlogged, -⟩
      · simp [OriginDB.createTable, hthere] at hthrew
      · simp [OriginDB.createTable, hthere] at hlogged
    · rcases hcreate with ⟨hthrew, -⟩ | ⟨entry, i, hlogged, -⟩
      · unfold OriginDB.createTable at hthrew
        split at hthrew
        · cases hthrew
        · split at hthrew
          · rename_i hnone
            have hsome := (serializeSchema_isSome hJ).2 hschema
            rw [hnone] at hsome
            cases hsome
          · cases hthrew
      · unfold OriginDB.createTable at hlogged
        split at hlogged
        · cases hlogged
        · split at hlogged
          · cases hlogged
          · simp only [CreateResult.logged.injEq] at hlogged
            rw [← hlogged.1]
            exact hcreated schema hschema
  · unfold OriginDB.dropTable at hdrop
    split at hdrop
    · cases hdrop
    · simp only [Option.some.injEq, Prod.mk.injEq] at hdrop
      rw [← hdrop.1]
      intro n t ht
      rw [OrdMap.getElem?_erase] at ht
      split at ht
      · cases ht
      · exact h n t ht
  · rw [he]
    exact h

/-- **Any committed row can be checkpointed**, and a commit that cannot print one leaves the tables alone, exactly where no
such row is ever written: in every run whose calls write text `WriteSnapshot` completes in every state, and a commit that
throws has changed the tables, so it is harmless only if it does not throw. -/
theorem committed_rows_checkpointable (env : Env) (hJ : env.Utf8Only) (mode : SyncMode) (feed : Bool) :
    (∀ (s₀ s : Server) (ls : List Label), start env none = some s₀ →
      Allowed (step env mode feed) Legible s₀ ls → run (step env mode feed) s₀ ls = some s →
      ∀ seq, (snapshotText env s.engine.tables seq).isSome) ∧
    ∀ (clock : Nat → UInt64) (e : Engine) (txn : Txn),
      (∀ e', OriginDB.commit env feed clock e txn = .threw e' → SameContents e e') ↔
        (feed = true → txn.state = .active →
          ∀ w ∈ appliedWrites e.tables [] txn.writeSet, Prints env.toJsonLib e.tables w) := by
  refine ⟨fun s₀ s ls h0 hok hrun seq => ?_, fun clock e txn => threw_changes env feed clock e txn⟩
  have hstart : Utf8Tables s₀.engine.tables := by
    cases h0
    intro n t ht
    simp at ht
  have hend : Utf8Tables s.engine.tables :=
    run_invariant (fun s => Utf8Tables s.engine.tables) (fun _ _ _ h hl hstep => utf8Tables_step hJ h hl hstep) hstart hok hrun
  exact (snapshotText_isSome_iff hJ).2 hend

/-- The documents of `tEnv`. -/
def tDocs : List (Json × Bytes) :=
  [(schemaJson tSchema, schemaText), (rowJson { key := str "j" }, rowText (str "j")),
   (rowJson { key := str "k" }, rowText (str "k")), snapshotDoc 2 [str "k"]]

/-- A library that prints every text, those of that table as they are. -/
noncomputable def textEnv : Env where
  toJsonLib := JsonLib.extended tDocs (by decide)
  order := .sorted

theorem utf8Only_textEnv : textEnv.Utf8Only := JsonLib.utf8Only_extended (by decide +kernel) (by decide +kernel)

def insertK : Txn := { timestamp := 1, writeSet := [⟨.insert, str "t", { key := str "k" }⟩] }

theorem checkpointable_insertK :
    (∃ s, run (step textEnv .fsync true) tStart (createdT ++ [commitT [(.insert, "k")]]) = some s ∧
      ∀ seq, (snapshotText textEnv s.engine.tables seq).isSome) ∧
    ∀ e', OriginDB.commit textEnv true (fun _ => 0) emptyTable insertK = .threw e' → SameContents emptyTable e' := by
  obtain ⟨hsnap, hthrew⟩ := committed_rows_checkpointable textEnv utf8Only_textEnv .fsync true
  have hrun : (run (step textEnv .fsync true) tStart (createdT ++ [commitT [(.insert, "k")]])).isSome := by decide
  obtain ⟨s, hs⟩ := Option.isSome_iff_exists.1 hrun
  refine ⟨⟨s, hs, hsnap tStart s _ rfl (by decide) hs⟩, (hthrew _ _ _).2 fun _ _ w hw => ?_⟩
  have happ : appliedWrites emptyTable.tables [] insertK.writeSet = insertK.writeSet := by decide
  rw [happ] at hw
  have hprint : (serializeRow textEnv.toJsonLib { key := str "k" }).isSome :=
    (serializeRow_isSome utf8Only_textEnv).2 (by decide)
  have hnone : rowOf emptyTable.tables (str "t") (str "k") = none := by decide
  cases List.mem_singleton.1 hw
  exact ⟨fun _ => hprint, fun r hr => by simp only [hnone] at hr; cases hr⟩

/-- The key a module passes is the byte 255. -/
def insertBadKey : WriteOperation := ⟨.insert, str "t", { key := [255] }⟩

/-- Without a changefeed it is committed. -/
def badKeyCommitted : List Label :=
  createdT ++ [.commit { timestamp := 1, writeSet := [insertBadKey] } (fun _ => 0) 0] ++ ackOne 52

/-- With one, `Commit` throws in the middle. -/
def badKeyAfterK : Txn := { insertK with writeSet := insertK.writeSet ++ [insertBadKey] }

theorem bad_key_stops_checkpoints :
    (∃ s, run (step textEnv .fsync false) tStart badKeyCommitted = some s ∧ s.wal.promises = [some true, some true] ∧
      snapshotText textEnv s.engine.tables 2 = none) ∧
    ∃ e', OriginDB.commit textEnv true (fun _ => 0) emptyTable badKeyAfterK = .threw e' ∧ ¬ SameContents emptyTable e' ∧
      snapshotText textEnv e'.tables 1 = none := by
  constructor
  · have hfacts : (run (step textEnv .fsync false) tStart badKeyCommitted).map (fun s =>
        (s.wal.promises, (snapshotText textEnv s.engine.tables 2).isSome)) = some ([some true, some true], false) := by
      decide
    obtain ⟨s, hrun, hs⟩ := Option.map_eq_some_iff.1 hfacts
    obtain ⟨hpromises, hnone⟩ := Prod.mk.inj hs
    exact ⟨s, hrun, hpromises, by simpa using hnone⟩
  · refine ⟨_, rfl, fun h => absurd h.totalRows (by decide), by decide⟩

end Server

end OriginDB
