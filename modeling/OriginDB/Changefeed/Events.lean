import Mathlib.Data.List.Forall2
import OriginDB.Storage.Atomicity
/-!
# The changefeed and the events `Commit` builds (`storage_engine.cpp:391-413`, `changefeed_engine.cpp:159-185`)

`Commit` builds one event for each write of the write set, in its order: the write's own operation, table
and key, the row it stores and the row it found there, whatever the operation was called. `PublishEvent`
numbers the events in the order in which they reach it.
-/
namespace OriginDB

open JsonDoc

/-- `ChangefeedEngine::Impl`: `next_offset_`, `events_` (to be delivered) and `all_events_` (retained). -/
structure Feed where
  nextOffset : UInt64 := 1
  events : List ChangefeedEvent := []
  allEvents : List ChangefeedEvent := []

/-- `PublishEvent` (changefeed_engine.cpp:159); `maxLag` is `config_.max_lag_entries`. -/
def Feed.publishEvent (maxLag : Nat) (f : Feed) (event : ChangefeedEvent) (now : UInt64) : Feed :=
  let timestamped := { event with offset := f.nextOffset, timestamp := now }
  let all := f.allEvents ++ [timestamped]
  { nextOffset := f.nextOffset + 1
    events := f.events ++ [timestamped]
    allEvents := if 0 < maxLag ∧ maxLag < all.length then all.drop (all.length - maxLag * 3 / 4) else all }

/-- `ev` is the event of the write `w` that found `old` under its key. -/
structure EventOf (J : JsonLib) (w : WriteOperation) (old : Option Row) (ev : ChangefeedEvent) : Prop where
  table : ev.table = w.tableName
  key : ev.key = w.row.key
  operation : ev.operation = w.op.name
  newValue : if w.op = .delete then ev.newValue = [] else serializeRow J w.row = some ev.newValue
  oldValue : match old with
    | none => ev.oldValue = []
    | some r => serializeRow J r = some ev.oldValue

/-- The row a write leaves is printed as the row it was given. -/
theorem serializeRow_rowStep (J : JsonLib) (now : UInt64) {w : WriteOperation} (hop : w.op ≠ .delete) (old : Option Row) :
    ∃ r, rowStep now w old = some r ∧ serializeRow J r = serializeRow J w.row := by
  cases old with
  | none => exact ⟨w.row, by simp [rowStep, hop], rfl⟩
  | some r => exact ⟨{ w.row with version := r.version + 1, timestamp := now }, by simp [rowStep, hop], rfl⟩

theorem eventOf_writeEvent {env : Env} {ts now : UInt64} {w : WriteOperation} {old : Option Row}
    {evs : List ChangefeedEvent} (h : writeEvent env true ts w old now = some evs) :
    ∃ ev, evs = [ev] ∧ EventOf env.toJsonLib w old ev := by
  -- whether the row it stores is printed depends on the operation, whether the row it found is, on `old`
  cases hop : w.op with
  | delete =>
    cases old with
    | none =>
      simp only [writeEvent, hop] at h
      cases h
      exact ⟨_, rfl, rfl, rfl, by rw [hop], by rw [if_pos hop], rfl⟩
    | some r =>
      simp only [writeEvent, hop] at h
      obtain ⟨old, hold, he⟩ := Option.bind_eq_some_iff.1 h
      cases he
      exact ⟨_, rfl, rfl, rfl, by rw [hop], by rw [if_pos hop], hold⟩
  | insert | update =>
    simp only [writeEvent, hop] at h
    obtain ⟨new, hnew, h⟩ := Option.bind_eq_some_iff.1 h
    cases old with
    | none =>
      cases h
      exact ⟨_, rfl, rfl, rfl, by rw [hop], by rw [if_neg (by simp [hop])]; exact hnew, rfl⟩
    | some r =>
      obtain ⟨old, hold, he⟩ := Option.bind_eq_some_iff.1 h
      cases he
      exact ⟨_, rfl, rfl, rfl, by rw [hop], by rw [if_neg (by simp [hop])]; exact hnew, hold⟩

/-- A write finds the row that is under its key. -/
theorem applyWrite_old {e e' : Engine} {w : WriteOperation} {now : UInt64} {old : Option Row}
    (h : applyWrite e w now = some (e', old)) : old = rowOf e.tables w.tableName w.row.key := by
  unfold applyWrite at h
  split at h
  · cases h
  · rename_i t ht
    have hrow : rowOf e.tables w.tableName w.row.key = t.rows[w.row.key]? := by simp [rowOf, ht]
    rw [hrow]
    split at h
    · split at h
      · rename_i t' hins
        cases h
        exact (MemTable.insert_eq_some hins).1.symm
      · split at h
        · cases h
        · rename_i r hget
          obtain ⟨t', -, he⟩ := Option.map_eq_some_iff.1 h
          cases he
          exact hget.symm
    · obtain ⟨t', -, he⟩ := Option.map_eq_some_iff.1 h
      cases he
      rfl
    · obtain ⟨t', -, he⟩ := Option.map_eq_some_iff.1 h
      cases he
      rfl

section
variable {env : Env} {ts : UInt64} {clock : Nat → UInt64} {e e₁ e' : Engine} {before ws : List WriteOperation}
  {entries : List WALEntry} {events : List ChangefeedEvent}

/-- **One event for each write**, with the row the writes before it left under its key. -/
theorem After.eventOf (h : After clock e before e₁)
    (hdone : applyWrites env true ts clock before.length e₁ ws = .done e' entries events) :
    events.length = ws.length ∧ ∀ (i : Nat) (w : WriteOperation) (ev : ChangefeedEvent), ws[i]? = some w → events[i]? = some ev →
      EventOf env.toJsonLib w
        (netRow clock w.tableName w.row.key 0 (before ++ ws.take i) (rowOf e.tables w.tableName w.row.key)) ev := by
  induction ws generalizing before e₁ entries events with
  | nil =>
    simp only [applyWrites, Applied.done.injEq] at hdone
    obtain ⟨-, -, rfl⟩ := hdone
    exact ⟨rfl, by simp⟩
  | cons w ws ih =>
    simp only [applyWrites] at hdone
    split at hdone
    · cases hdone
    · rename_i e₂ old hw
      split at hdone
      · cases hdone
      · rename_i evs hev
        split at hdone
        · rename_i hrest
          cases hdone
          obtain ⟨ev, rfl, hof⟩ := eventOf_writeEvent hev
          have hold : old = netRow clock w.tableName w.row.key 0 before (rowOf e.tables w.tableName w.row.key) :=
            (applyWrite_old hw).trans (h.rows _ _)
          have hlen : before.length + 1 = (before ++ [w]).length := by simp
          rw [hlen] at hrest
          obtain ⟨hl, hi⟩ := ih (h.step hw) hrest
          refine ⟨by simp [hl], fun i w' ev' hw' hev' => ?_⟩
          cases i with
          | zero =>
            cases hw'
            cases hev'
            simpa [← hold] using hof
          | succ i =>
            have := hi i w' ev' hw' hev'
            simpa using this
        · cases hdone
        · cases hdone

/-- The events of a submitted commit, write by write. -/
theorem events_of_commit {txn : Txn} (h : commit env true clock e txn = .submitted e' entries events) :
    List.Forall₂ (fun w ev => ∃ old, EventOf env.toJsonLib w old ev) txn.writeSet events := by
  obtain ⟨hlen, hall⟩ := (After.refl clock e).eventOf (commit_spec.1 _ _ _ h)
  rw [List.forall₂_iff_get]
  refine ⟨hlen.symm, fun i h₁ h₂ => ?_⟩
  exact ⟨_, hall i _ _ (List.getElem?_eq_getElem h₁) (List.getElem?_eq_getElem h₂)⟩

end

end OriginDB
