import OriginDB.Lib.Json
import OriginDB.Lib.Machine
import OriginDB.Lib.Memo
import OriginDB.Storage.Table
/-!
# The JSON cache of a table (`mem_table.cpp:42-131, 158-174`, `table.h:94-123`)

`MemTable` keeps what the serializer made of a row, and forgets it when the row's key is written. The default in `table.h`
keeps nothing: `GetJsonCached` is the serializer on `Get`, and `ScanJsonCached` is `Scan` with the serializer in the
callback. `json_cache_fresh` says that after any calls the cache makes no difference.

The serializer may throw, and so may a callback, which keeps a state of its own. A call that fails leaves the table as it
was.
-/
namespace OriginDB

open JsonDoc Machine Memo

namespace MemTable

/-- `CachedJson` (mem_table.cpp:162); `none` is an exception of the serializer. -/
def cachedJson (ser : Row → Option Bytes) (t : MemTable) (key : Bytes) (row : Row) : Option Bytes × MemTable :=
  match ask ser t.jsonCache key row with
  | (json, cache) => (json, { t with jsonCache := cache })

/-- `GetJsonCached` (mem_table.cpp:115); `none` is an exception of the serializer. -/
def getJsonCached (ser : Row → Option Bytes) (t : MemTable) (key : Bytes) : Option (Option Bytes) × MemTable :=
  match t.rows[key]? with
  | none => (some none, t)
  | some row => match t.cachedJson ser key row with
    | (json, t') => (json.map some, t')

/-- `Scan` (mem_table.cpp:103) with its callback. -/
def scanWith {σ : Type} (t : MemTable) (startKey endKey : Bytes) (callback : Bytes → Row → σ → Answer × σ) (s : σ) : Bool × σ :=
  visit callback (t.scan startKey endKey) s

/-- `ScanJsonCached` (mem_table.cpp:123). -/
def scanJsonCached {σ : Type} (ser : Row → Option Bytes) (t : MemTable) (startKey endKey : Bytes)
    (callback : Bytes → Bytes → σ → Answer × σ) (s : σ) : (Bool × σ) × MemTable :=
  match visitAsking ser callback (t.scan startKey endKey) t.jsonCache s with
  | (visited, cache) => (visited, { t with jsonCache := cache })

/-- The calls on a table. What a callback answers depends on what it has been shown. -/
inductive Call where
  | insert (row : Row)
  | update (key : Bytes) (row : Row) (now : UInt64)
  | delete (key : Bytes)
  | getJsonCached (key : Bytes)
  | scanJsonCached (startKey endKey : Bytes) (callback : List (Bytes × Bytes) → Answer)

def step (ser : Row → Option Bytes) (t : MemTable) : Call → Option MemTable
  | .insert row => some ((t.insert row).getD t)
  | .update key row now => some ((t.update key row now).getD t)
  | .delete key => some ((t.delete key).getD t)
  | .getJsonCached key => some (t.getJsonCached ser key).2
  | .scanJsonCached startKey endKey callback =>
    some (t.scanJsonCached ser startKey endKey (fun key json shown =>
      (callback (shown ++ [(key, json)]), shown ++ [(key, json)])) []).2

/-- Every cached text is what the serializer makes of the row that is under its key now. -/
def CacheFresh (ser : Row → Option Bytes) (t : MemTable) : Prop := Fresh ser t.rows t.jsonCache

section
variable {ser : Row → Option Bytes} {t t' : MemTable}

theorem CacheFresh.insert {row : Row} (h : CacheFresh ser t) (ht : t.insert row = some t') : CacheFresh ser t' := by
  unfold MemTable.insert at ht
  split at ht
  · cases ht
  · cases ht
    exact Fresh.insert h row.key row

theorem CacheFresh.update {key : Bytes} {row : Row} {now : UInt64} (h : CacheFresh ser t)
    (ht : t.update key row now = some t') : CacheFresh ser t' := by
  unfold MemTable.update at ht
  split at ht
  · cases ht
  · cases ht
    exact Fresh.insert h key _

theorem CacheFresh.delete {key : Bytes} (h : CacheFresh ser t) (ht : t.delete key = some t') : CacheFresh ser t' := by
  unfold MemTable.delete at ht
  split at ht
  · cases ht
    exact Fresh.erase h key
  · cases ht

/-- Where a call succeeds the new table is fresh, and where it fails it is the old one. -/
theorem CacheFresh.getD {o : Option MemTable} (h : CacheFresh ser t) (ho : ∀ t', o = some t' → CacheFresh ser t') :
    CacheFresh ser (o.getD t) := by
  cases o with
  | none => exact h
  | some t' => exact ho t' rfl

theorem CacheFresh.getJsonCached (h : CacheFresh ser t) (key : Bytes) :
    (t.getJsonCached ser key).1 = (match t.get key with
      | none => some none
      | some row => (ser row).map some) ∧ CacheFresh ser (t.getJsonCached ser key).2 := by
  unfold MemTable.getJsonCached MemTable.cachedJson MemTable.get
  cases hrow : t.rows[key]? with
  | none => exact ⟨rfl, h⟩
  | some row =>
    obtain ⟨hask, hfresh⟩ := Fresh.ask h hrow
    exact ⟨congrArg (Option.map some) hask, hfresh⟩

theorem CacheFresh.scanJsonCached {σ : Type} (h : CacheFresh ser t) (startKey endKey : Bytes)
    (callback : Bytes → Bytes → σ → Answer × σ) (s : σ) :
    (t.scanJsonCached ser startKey endKey callback s).1 = t.scanWith startKey endKey (through ser callback) s ∧
      CacheFresh ser (t.scanJsonCached ser startKey endKey callback s).2 :=
  Fresh.visit callback h (fun _ hp => getElem?_of_mem_scan hp) s

/-- **What one call keeps.** -/
theorem CacheFresh.step {l : Call} (h : CacheFresh ser t) (hstep : t.step ser l = some t') : CacheFresh ser t' := by
  cases l with
  | insert row =>
    cases hstep
    exact h.getD fun _ ht => h.insert ht
  | update key row now =>
    cases hstep
    exact h.getD fun _ ht => h.update ht
  | delete key =>
    cases hstep
    exact h.getD fun _ ht => h.delete ht
  | getJsonCached key =>
    cases hstep
    exact (h.getJsonCached key).2
  | scanJsonCached startKey endKey callback =>
    cases hstep
    exact (h.scanJsonCached startKey endKey _ []).2

/-- A scan is in key order. -/
theorem scan_ascending (t : MemTable) (startKey endKey : Bytes) :
    (t.scan startKey endKey).Pairwise fun p q => compare p.1 q.1 = .lt :=
  (List.Pairwise.sublist (List.takeWhile_sublist _) (List.Pairwise.sublist (List.dropWhile_sublist _)
    Std.ExtTreeMap.ordered_keys_toList))

end

/-- **The JSON cache is never stale.** After any calls, successful or not, `GetJsonCached` is the serializer on the row now
under the key, and `ScanJsonCached` shows a callback what `Scan` shows it, in key order, with each row serialized, until
the callback stops or something throws. -/
theorem json_cache_fresh (schema : TableSchema) (ser : Row → Option Bytes) (ls : List Call) (t : MemTable)
    (hrun : run (step ser) { schema := schema } ls = some t) :
    (∀ key, (t.getJsonCached ser key).1 = match t.get key with
      | none => some none
      | some row => (ser row).map some) ∧
    (∀ {σ : Type} (startKey endKey : Bytes) (callback : Bytes → Bytes → σ → Answer × σ) (s : σ),
      (t.scanJsonCached ser startKey endKey callback s).1 = t.scanWith startKey endKey (through ser callback) s) ∧
    ∀ startKey endKey, (t.scan startKey endKey).Pairwise fun p q => compare p.1 q.1 = .lt := by
  have hany : Allowed (step ser) (fun _ _ => True) { schema := schema } ls := .of_forall fun _ _ _ => trivial
  have h : CacheFresh ser t := by
    apply run_invariant (CacheFresh ser) _ _ hany hrun
    · intro t l t' h _ hstep
      exact h.step hstep
    · exact Fresh.empty ser _
  refine ⟨fun key => (h.getJsonCached key).1, ?_, t.scan_ascending⟩
  intro σ startKey endKey callback s
  exact (h.scanJsonCached startKey endKey callback s).1

/-- A serializer that knows rows with a text in the column `a`. -/
def columnA (row : Row) : Option Bytes :=
  match row.columns[str "a"]? with
  | some (.string s) => some s
  | _ => none

def rowA (s : String) : Row := { key := str "k", columns := (∅ : Columns).insert (str "a") (.string (str s)) }

/-- A row is read, deleted and inserted again, and the second insertion fails. -/
def reinserted : List Call :=
  [.insert (rowA "x"), .getJsonCached (str "k"), .delete (str "k"), .insert (rowA "y"), .insert (rowA "z")]

theorem json_cache_fresh_reinserted : ∃ t, run (step columnA) { schema := { name := str "t", columns := [], primaryKey := [] } } reinserted = some t ∧
    (t.getJsonCached columnA (str "k")).1 = (match t.get (str "k") with
      | none => some none
      | some row => (columnA row).map some) ∧ (t.getJsonCached columnA (str "k")).1 = some (some (str "y")) :=
  ⟨_, rfl, (json_cache_fresh { name := str "t", columns := [], primaryKey := [] } columnA reinserted _ rfl).1 (str "k"), by decide⟩

end MemTable

end OriginDB
