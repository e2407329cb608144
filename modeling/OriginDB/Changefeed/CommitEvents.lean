import OriginDB.Changefeed.Subscription
import OriginDB.Storage.WriteSets
/-!
# The events of a commit tell what it did (`storage_engine.cpp:325-438`)

One committer at a time. The event of a write is built inside the loop, so what it says of the row before is
what the writes ahead of it in the same write set have left there, and an INSERT that was resolved as an UPDATE
tells of the row it replaced. Whoever keeps the last value of every key and applies the events in their order
ends up with the tables.
-/
namespace OriginDB

open JsonDoc ByteCodec

/-- What a follower of the feed has under each key of each table: a row as `SerializeRow` prints it. A row
that cannot be printed is there all the same. -/
abbrev Follower := Bytes → Bytes → Option (Option Bytes)

/-- The rows of the tables, printed. -/
def serialized (J : JsonLib) (T : Tables) : Follower := fun t k => (rowOf T t k).map (serializeRow J)

/-- Set the key to `new_value`, remove it on a DELETE. -/
def Follower.receive (f : Follower) (ev : ChangefeedEvent) : Follower := fun t k =>
  if ev.table = t ∧ ev.key = k then
    if ev.operation = str "DELETE" then none else some (some ev.newValue)
  else f t k

/-- The engine after the first `i` writes of a commit. -/
def EngineAfter (env : Env) (io : Io) (s : Store) (writes : List WriteOperation) (i : Nat) (e : Engine) : Prop :=
  ∃ entries events, applyWrites env true s.nextTimestamp io.clock 0 s.engine (writes.take i) = .done e entries events

/-- `ev` tells of the write `w` on the tables `T`. -/
structure Describes (J : JsonLib) (T : Tables) (w : WriteOperation) (ev : ChangefeedEvent) : Prop where
  table : ev.table = w.tableName
  operation : ev.operation = w.op.name
  key : ev.key = w.row.key
  oldPresent : ev.oldValue ≠ [] ↔ (rowOf T w.tableName w.row.key).isSome = true
  oldValue : ∀ r, rowOf T w.tableName w.row.key = some r → serializeRow J r = some ev.oldValue
  newPresent : ev.newValue ≠ [] ↔ w.op = .insert ∨ w.op = .update
  newValue : ev.newValue ≠ [] → serializeRow J w.row = some ev.newValue

theorem WriteOp.name_eq_delete {op : WriteOp} : op.name = str "DELETE" ↔ op = .delete := by
  cases op <;> decide

/-- A printed row is not empty. -/
theorem serializeRow_ne_nil {J : JsonLib} {r : Row} {b : Bytes} (h : serializeRow J r = some b) : b ≠ [] := by
  rintro rfl
  exact J.dump_ne_nil h

theorem EventOf.describes {J : JsonLib} {T : Tables} {w : WriteOperation} {ev : ChangefeedEvent}
    (h : EventOf J w (rowOf T w.tableName w.row.key) ev) : Describes J T w ev := by
  have hold := h.oldValue
  have hnew := h.newValue
  refine ⟨h.table, h.operation, h.key, ?_, ?_, ?_, ?_⟩
  · cases hr : rowOf T w.tableName w.row.key with
    | none => simp [hr] at hold; simp [hold]
    | some r => simp [hr] at hold; simp [serializeRow_ne_nil hold]
  · intro r hr
    simpa [hr] using hold
  · by_cases hop : w.op = .delete
    · simp [hop] at hnew; simp [hop, hnew]
    · rw [if_neg hop] at hnew
      cases hw : w.op <;> simp_all [serializeRow_ne_nil hnew]
  · intro hne
    split at hnew
    · exact absurd hnew hne
    · exact hnew

/-- An event makes of a follower what its write makes of the tables. -/
theorem receive_eventOf {J : JsonLib} {w : WriteOperation} {old : Option Row} {ev : ChangefeedEvent} (h : EventOf J w old ev)
    (now : UInt64) (R : Bytes → Bytes → Option Row) :
    Follower.receive (fun t k => (R t k).map (serializeRow J)) ev = fun t k =>
      (if w.tableName = t ∧ w.row.key = k then rowStep now w (R t k) else R t k).map (serializeRow J) := by
  funext t k
  simp only [Follower.receive, h.table, h.key, h.operation, WriteOp.name_eq_delete]
  by_cases hat : w.tableName = t ∧ w.row.key = k
  · rw [if_pos hat, if_pos hat]
    by_cases hop : w.op = .delete
    · cases R t k <;> simp [rowStep, hop]
    · have hnew := h.newValue
      obtain ⟨r, hr, hs⟩ := serializeRow_rowStep J now hop (R t k)
      rw [if_neg hop] at hnew ⊢
      rw [hr, Option.map_some, hs, hnew]
  · rw [if_neg hat, if_neg hat]

theorem foldl_receive {J : JsonLib} (clock : Nat → UInt64) {ws : List WriteOperation} {evs : List ChangefeedEvent}
    (h : List.Forall₂ (fun w ev => ∃ old, EventOf J w old ev) ws evs) (i : Nat) (R : Bytes → Bytes → Option Row) :
    evs.foldl Follower.receive (fun t k => (R t k).map (serializeRow J)) = fun t k =>
      (netRow clock t k i ws (R t k)).map (serializeRow J) := by
  induction h generalizing i R with
  | nil => rfl
  | cons hev _ ih =>
    obtain ⟨old, hof⟩ := hev
    rw [List.foldl_cons, receive_eventOf hof (clock i) R, ih (i + 1)]
    rfl

/-! ## What a commit publishes -/

section
variable {env : Env} {maxLag : Nat} {io : Io} {s s' : Store} {ws : List WriteOperation} {e : Engine} {evs : List ChangefeedEvent}

/-- An event as it was built and as it was published. -/
def SameEvent (ev ev' : ChangefeedEvent) : Prop := { ev' with offset := ev.offset, timestamp := ev.timestamp } = ev

theorem EventOf.sameEvent {J : JsonLib} {w : WriteOperation} {old : Option Row} {ev ev' : ChangefeedEvent} (h : EventOf J w old ev)
    (hs : SameEvent ev ev') : EventOf J w old ev' := by
  unfold SameEvent at hs
  rw [← hs] at h
  exact ⟨h.table, h.key, h.operation, h.newValue, h.oldValue⟩

theorem events_publishAll (maxLag : Nat) (now : UInt64) (s : Store) (evs : List ChangefeedEvent) :
    ∃ evs', (s.publishAll maxLag now evs).feed.events = s.feed.events ++ evs' ∧ List.Forall₂ SameEvent evs evs' := by
  induction evs generalizing s with
  | nil => exact ⟨[], by simp [Store.publishAll], .nil⟩
  | cons ev evs ih =>
    obtain ⟨evs', he, hall⟩ := ih (s.publishAll maxLag now [ev])
    refine ⟨{ ev with offset := s.feed.nextOffset, timestamp := now } :: evs', ?_, .cons rfl hall⟩
    have hcons : s.publishAll maxLag now (ev :: evs) = (s.publishAll maxLag now [ev]).publishAll maxLag now evs := rfl
    rw [hcons, he]
    simp [Store.publishAll, Feed.publishEvent]

/-- A commit that returns `true` has gone through its loop. -/
theorem Store.commit_done (h : s.commit env maxLag io ws = .returned true s') :
    ∃ e entries evs now, applyWrites env true s.nextTimestamp io.clock 0 s.engine ws = .done e entries evs ∧
      s'.engine.tables = e.tables ∧ s'.feed = (s.publishAll maxLag now evs).feed := by
  have hts : s.nextTimestamp + 1 - 1 = s.nextTimestamp := UInt64.add_sub_cancel _ _
  simp only [Store.commit, OriginDB.commit, hts, ne_eq, not_true_eq_false, if_false] at h
  by_cases hws : ws = []
  · subst hws
    cases h
    exact ⟨s.engine, [], [], 0, rfl, rfl, rfl⟩
  · rw [if_neg hws] at h
    cases hap : applyWrites env true s.nextTimestamp io.clock 0 s.engine ws with
    | done e entries evs =>
      rw [hap] at h
      simp only at h
      split at h
      · cases h
        exact ⟨e, entries, evs, _, rfl, rfl, rfl⟩
      · cases h
    | failed e | threw e =>
      rw [hap] at h
      cases h

/-- The loop gets to every write of a write set it gets through. -/
theorem applyWrites_take {feed : Bool} {ts : UInt64} {clock : Nat → UInt64} {e e' : Engine} {j : Nat} {entries : List WALEntry}
    (h : applyWrites env feed ts clock j e ws = .done e' entries evs) (i : Nat) :
    ∃ eᵢ entries' evs', applyWrites env feed ts clock j e (ws.take i) = .done eᵢ entries' evs' := by
  induction ws generalizing i j e e' entries evs with
  | nil => exact ⟨e, [], [], by simp [applyWrites]⟩
  | cons w ws ih =>
    cases i with
    | zero => exact ⟨e, [], [], rfl⟩
    | succ i =>
      simp only [applyWrites, List.take_succ_cons] at h ⊢
      split at h
      · cases h
      · split at h
        · cases h
        · rename_i evs₀ hev
          split at h
          · rename_i hrest
            obtain ⟨eᵢ, entries', evs', hi⟩ := ih hrest i
            simp [hi]
          · cases h
          · cases h

/-- **The events describe the commit.** A `Commit` that returns `true` publishes one event for each write, in the
order of the write set; each tells of its write on the tables as the writes before it have left them; and the
events take a follower from the rows before the commit to the rows after it. -/
theorem events_describe_commit (env : Env) (maxLag : Nat) (io : Io) (s s' : Store) (ws : List WriteOperation)
    (h : s.commit env maxLag io ws = .returned true s') :
    ∃ evs, s'.feed.events = s.feed.events ++ evs ∧ evs.length = ws.length ∧
      (∀ (i : Nat) (w : WriteOperation) (ev : ChangefeedEvent), ws[i]? = some w → evs[i]? = some ev →
        ∃ e, EngineAfter env io s ws i e ∧ Describes env.toJsonLib e.tables w ev) ∧
      evs.foldl Follower.receive (serialized env.toJsonLib s.engine.tables) = serialized env.toJsonLib s'.engine.tables := by
  obtain ⟨e, entries, built, now, hap, htabs, hfeed⟩ := s.commit_done h
  obtain ⟨evs, hevs, hsame⟩ := events_publishAll maxLag now s built
  have hstart := After.refl io.clock s.engine
  obtain ⟨hlen, hof⟩ := hstart.eventOf hap
  have hpub : ∀ (i : Nat) (w : WriteOperation) (ev : ChangefeedEvent), ws[i]? = some w → evs[i]? = some ev →
      EventOf env.toJsonLib w
        (netRow io.clock w.tableName w.row.key 0 (ws.take i) (rowOf s.engine.tables w.tableName w.row.key)) ev := by
    intro i w ev hw hev
    obtain ⟨hi, rfl⟩ := List.getElem?_eq_some_iff.1 hev
    have hb : i < built.length := by rw [hsame.length_eq]; exact hi
    exact (hof i w _ hw (List.getElem?_eq_getElem hb)).sameEvent (List.Forall₂.get hsame hb hi)
  have hlen' : evs.length = ws.length := by rw [← hsame.length_eq, hlen]
  refine ⟨evs, by rw [hfeed, hevs], hlen', ?_, ?_⟩
  · intro i w ev hw hev
    obtain ⟨eᵢ, entriesᵢ, evsᵢ, hi⟩ := applyWrites_take hap i
    refine ⟨eᵢ, ⟨entriesᵢ, evsᵢ, hi⟩, EventOf.describes ?_⟩
    have hrows := (hstart.done hi).rows w.tableName w.row.key
    rw [hrows, List.nil_append]
    exact hpub i w ev hw hev
  · have hall : List.Forall₂ (fun w ev => ∃ old, EventOf env.toJsonLib w old ev) ws evs := by
      rw [List.forall₂_iff_get]
      refine ⟨hlen'.symm, fun i h₁ h₂ => ⟨_, hpub i _ _ (List.getElem?_eq_getElem h₁) (List.getElem?_eq_getElem h₂)⟩⟩
    have hrows : ∀ t k, rowOf s'.engine.tables t k = netRow io.clock t k 0 ws (rowOf s.engine.tables t k) := by
      intro t k
      rw [htabs]
      simpa using (hstart.done hap).rows t k
    unfold serialized
    rw [foldl_receive io.clock hall 0]
    simp only [hrows]

/-- The second INSERT finds the row of the first. -/
theorem events_describe_commit_replaced : ∃ s' evs,
    ({ engine := emptyTable } : Store).commit rowAEnv 0 {} [insertA 5, insertA 1] = .returned true s' ∧
    s'.feed.events = evs ∧ evs.length = 2 ∧
    (∀ ev, evs[1]? = some ev → serializeRow rowAJson (rowA 5) = some ev.oldValue) ∧
    evs.foldl Follower.receive (serialized rowAJson emptyTable.tables) = serialized rowAJson s'.engine.tables := by
  have hc : ∃ s', ({ engine := emptyTable } : Store).commit rowAEnv 0 {} [insertA 5, insertA 1] = .returned true s' := ⟨_, rfl⟩
  obtain ⟨s', hc⟩ := hc
  obtain ⟨evs, hevs, hlen, hdescribes, hfold⟩ := events_describe_commit rowAEnv 0 {} _ s' _ hc
  refine ⟨s', evs, hc, hevs, hlen, fun ev hev => ?_, hfold⟩
  obtain ⟨e, ⟨entries, events, he⟩, hd⟩ := hdescribes 1 (insertA 1) ev rfl hev
  refine hd.oldValue (rowA 5) ?_
  cases he
  rfl

end

end OriginDB
