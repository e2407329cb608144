import OriginDB.Changefeed.Publish
/-!
# Readers beside the committers (`storage_engine.cpp:272-276, 315-438`, `mem_table.cpp:91-131`)

The node with its readers. `Commit` changes the tables write by write under `tables_mutex_`, and a reader
that has its table already is not kept out by that lock; the wait for the batch comes after it, and only
the events wait with the committer. So a SELECT, the snapshot of a subscription and a reducer call read
what is in the tables, durable or not, and nothing makes them wait before they answer.

| here | there |
| --- | --- |
| `enter`, `apply`, `submit` | `Commit`: taking the lock, one write of the loop, the rest up to `AppendBatchAsync` |
| `request`                  | a SELECT, a `SendInitialState` or a reducer call begins |
| `getTable i t`             | `GetTable`, which waits for `tables_mutex_` |
| `get i k`, `scan i lo hi`  | `GetJsonCached`, `Scan` and `ScanJsonCached` under the table's own lock |
| `reply i`                  | the result, the `initial_state` frame, or what a call returns and emits; a call that has staged anything waits for its `Commit` first |
| `deliver j`                | `OnChangefeedEvent` with the `j`-th event; what a client gets is the event, or some of its columns |
| `node l`                   | everything else |

Nothing in the server drops a table while it runs, so the table a reader holds is the one of that name.
`footprints` is a history variable: what each `Commit` that began its loop left behind, and its batch if it
got that far.
-/
namespace OriginDB

open JsonDoc Machine Lists

/-! ## `Commit`, write by write -/

/-- A row as a write left it under its key, or `none` when the write deleted it. -/
structure RowVersion where
  table : Bytes
  key : Bytes
  row : Option Row
deriving DecidableEq

/-- The loop of `Commit` (storage_engine.cpp:327-414), write by write: the version it left and the engine then. -/
def stages (env : Env) (ts : UInt64) (clock : Nat → UInt64) :
    Nat → Engine → List WriteOperation → List (RowVersion × Engine)
  | _, _, [] => []
  | i, e, w :: ws =>
    match applyWrite e w (clock i) with
    | none => []
    | some (e', old) =>
      (⟨w.tableName, w.row.key, rowOf e'.tables w.tableName w.row.key⟩, e') ::
        match writeEvent env true ts w old (clock i) with
        | none => []
        | some _ => stages env ts clock (i + 1) e' ws

/-- The engine at the end of some stages. -/
def atEnd (e : Engine) (stages : List (RowVersion × Engine)) : Engine := stages.foldl (fun _ p => p.2) e

/-- The version was left under this key. -/
def RowVersion.on (v : RowVersion) (t k : Bytes) : Bool := v.table = t ∧ v.key = k

/-- A `Commit` and the rows it left. -/
structure Footprint where
  versions : List RowVersion
  promise : Option Nat := none
deriving DecidableEq

def Footprint.wrote (f : Footprint) (t k : Bytes) : Bool := f.versions.any fun v => v.on t k

/-- The `Commit`s that wrote under a key, oldest first. -/
def writers (fs : List Footprint) (t k : Bytes) : List Nat :=
  (List.range fs.length).filter fun i => fs[i]?.any fun f => f.wrote t k

/-- A row on its way to a client, with the `Commit`s that had written there when it was read. -/
structure Observed where
  table : Bytes
  key : Bytes
  row : Row
  writers : List Nat
deriving DecidableEq

structure Request where
  /-- What `GetTable` found. -/
  table : Option Bytes := none
  rows : List Observed := []
  /-- The `Commit` of a reducer call. -/
  own : Option Nat := none
deriving DecidableEq

/-- A `Commit` in its loop. -/
structure Applying where
  txn : Txn
  active : txn.state = .active
  clock : Nat → UInt64
  ts : UInt64
  applied : Nat := 0

structure Outlet where
  node : Node
  applying : Option Applying := none
  footprints : List Footprint := []
  requests : List Request := []

namespace Outlet

inductive Label where
  | node (l : Node.Label)
  | enter (caller : Option Nat) (txn : Txn) (clock : Nat → UInt64) (ts : UInt64)
  | apply
  | submit
  | request
  | getTable (i : Nat) (t : Bytes)
  | get (i : Nat) (k : Bytes)
  | scan (i : Nat) (startKey endKey : Bytes)
  | reply (i : Nat)
  | deliver (j : Nat)

/-- The steps of the server that do not need `tables_mutex_`. -/
def lockFree : Server.Label → Bool
  | .writer _ | .flush | .syncSnap | .syncDir => true
  | _ => false

/-- Can the step be taken now? A `Commit` goes through `enter`. -/
def enabled (applying : Bool) : Node.Label → Bool
  | .server (.commit _ _ _) => false
  | .server l => lockFree l || !applying
  | _ => true

section
variable (env : Env)

def stagesOf (o : Outlet) (a : Applying) : List (RowVersion × Engine) :=
  stages env a.txn.timestamp a.clock 0 o.node.server.engine a.txn.writeSet

/-- The stages a reader can see. -/
def applied (o : Outlet) : List (RowVersion × Engine) :=
  match o.applying with
  | none => []
  | some a => (o.stagesOf env a).take a.applied

/-- The tables as a reader finds them. -/
def tables (o : Outlet) : Tables := (atEnd o.node.server.engine (o.applied env)).tables

/-- The `Commit`s so far, with the one that is in its loop. -/
def known (o : Outlet) : List Footprint :=
  o.footprints ++ (o.applying.map fun _ => { versions := (o.applied env).map Prod.fst : Footprint }).toList

/-- A row that is read now. -/
def observe (o : Outlet) (t k : Bytes) (r : Row) : Observed := ⟨t, k, r, writers (o.known env) t k⟩

end

/-- What the log reported of a `Commit`'s batch. -/
def reported (o : Outlet) (i : Nat) : Option Bool :=
  (o.footprints[i]?.bind Footprint.promise).bind fun q => o.node.server.wal.promises[q]?.join

/-- `Commit` has returned `true` to the call. -/
def succeeded (o : Outlet) (i : Nat) : Bool :=
  o.node.committers.any fun c => o.footprints[i]?.bind Footprint.promise = some c.promise ∧ c.phase = .returned true

def setRequest (o : Outlet) (i : Nat) (r : Request) : Outlet := { o with requests := o.requests.set i r }

section
variable (env : Env) (mode : SyncMode) (maxLag : Nat)

def step (o : Outlet) : Label → Option Outlet
  | .node l =>
    if enabled o.applying.isSome l then (o.node.step env mode maxLag l).map fun n => { o with node := n } else none
  | .enter caller txn clock ts =>
    if h : txn.state = .active then
      if o.applying.isNone ∧ o.node.server.lock = .free ∧ txn.writeSet ≠ [] ∧
          ∀ i ∈ caller, ∃ r ∈ o.requests[i]?, r.own = none then
        some { o with
          applying := some { txn := txn, active := h, clock := clock, ts := ts }
          requests := match caller with
            | none => o.requests
            | some i => o.requests.modify i fun r => { r with own := some o.footprints.length } }
      else none
    else none
  | .apply =>
    match o.applying with
    | none => none
    | some a =>
      if a.applied < (o.stagesOf env a).length then some { o with applying := some { a with applied := a.applied + 1 } }
      else none
  | .submit =>
    match o.applying with
    | none => none
    | some a =>
      if a.applied = (o.stagesOf env a).length then
        (o.node.step env mode maxLag (.server (.commit a.txn a.clock a.ts))).map fun n =>
          { o with
            node := n
            applying := none
            footprints := o.footprints ++ [{
              versions := (o.stagesOf env a).map Prod.fst
              promise := (o.node.submits env (.commit a.txn a.clock a.ts)).map Committer.promise }] }
      else none
  | .request => some { o with requests := o.requests ++ [{}] }
  | .getTable i t =>
    match o.requests[i]?, o.node.server.lock with
    | some _, .ddl _ _ => none
    | some r, _ =>
      if o.applying.isNone ∧ (o.tables env)[t]?.isSome then some (o.setRequest i { r with table := some t }) else none
    | none, _ => none
  | .get i k =>
    match o.requests[i]? with
    | none => none
    | some r => r.table.map fun t =>
        o.setRequest i { r with rows := r.rows ++ (rowOf (o.tables env) t k).toList.map (o.observe env t k) }
  | .scan i startKey endKey =>
    match o.requests[i]? with
    | none => none
    | some r => r.table.bind fun t => (o.tables env)[t]?.map fun tab =>
        o.setRequest i { r with rows := r.rows ++ (tab.scan startKey endKey).map fun p => o.observe env t p.1 p.2 }
  | .reply i =>
    match o.requests[i]? with
    | none => none
    | some r => if ∀ n ∈ r.own, o.succeeded n then some o else none
  | .deliver j => if j < o.node.published.length then some o else none

end

end Outlet

/-! ## The loop of `Commit` and its stages -/

section Stages
variable {env : Env} {ts : UInt64} {clock : Nat → UInt64} {i : Nat} {e : Engine} {ws : List WriteOperation}

theorem atEnd_cons (p : RowVersion × Engine) (l : List (RowVersion × Engine)) : atEnd e (p :: l) = atEnd p.2 l := rfl

/-- What is under a key at some stage is what was there before, or what a write has left there. -/
theorem rowOf_stages (env : Env) (ts : UInt64) (clock : Nat → UInt64) (i : Nat) (e : Engine) (ws : List WriteOperation)
    (n : Nat) (t k : Bytes) :
    (rowOf (atEnd e ((stages env ts clock i e ws).take n)).tables t k = rowOf e.tables t k ∧
      ∀ p ∈ (stages env ts clock i e ws).take n, p.1.on t k = false) ∨
    ∃ p ∈ (stages env ts clock i e ws).take n,
      p.1 = ⟨t, k, rowOf (atEnd e ((stages env ts clock i e ws).take n)).tables t k⟩ := by
  induction ws generalizing i e n with
  | nil => exact Or.inl ⟨by simp [stages, atEnd], by simp [stages]⟩
  | cons w ws ih =>
    cases n with
    | zero => exact Or.inl ⟨by simp [atEnd], by simp⟩
    | succ n =>
      rw [stages]
      split
      · exact Or.inl ⟨by simp [atEnd], by simp⟩
      · rename_i e' old hw
        have hrow := applyWrite_rowOf hw t k
        -- the stages behind the first, or none when its event throws
        have hrest : ∀ rest : List (RowVersion × Engine), rest = [] ∨ rest = (stages env ts clock (i + 1) e' ws).take n →
            (rowOf (atEnd e' rest).tables t k = rowOf e'.tables t k ∧ ∀ p ∈ rest, p.1.on t k = false) ∨
            ∃ p ∈ rest, p.1 = ⟨t, k, rowOf (atEnd e' rest).tables t k⟩ := by
          rintro rest (rfl | rfl)
          · exact Or.inl ⟨rfl, by simp⟩
          · exact ih (i + 1) e' n
        rw [List.take_succ_cons]
        generalize hr : List.take n _ = rest
        have hcase : rest = [] ∨ rest = (stages env ts clock (i + 1) e' ws).take n := by
          rw [← hr]
          split
          · exact Or.inl (by simp)
          · exact Or.inr rfl
        rw [atEnd_cons]
        rcases hrest rest hcase with ⟨hsame, hoff⟩ | ⟨p, hp, hv⟩
        · by_cases hon : w.tableName = t ∧ w.row.key = k
          · refine Or.inr ⟨_, List.mem_cons_self, ?_⟩
            rw [hsame, ← hon.1, ← hon.2]
          · rw [if_neg hon] at hrow
            refine Or.inl ⟨hsame.trans hrow, ?_⟩
            intro p hp
            rcases List.mem_cons.1 hp with rfl | hp
            · simpa [RowVersion.on] using hon
            · exact hoff p hp
        · exact Or.inr ⟨p, List.mem_cons_of_mem _ hp, hv⟩

/-- The last stage is where the loop ends. -/
theorem atEnd_stages : atEnd e (stages env ts clock i e ws) = (applyWrites env true ts clock i e ws).engine := by
  induction ws generalizing i e with
  | nil => rfl
  | cons w ws ih =>
    rw [stages, applyWrites]
    cases applyWrite e w (clock i) with
    | none => rfl
    | some p =>
      rw [atEnd_cons]
      simp only
      cases writeEvent env true ts w p.2 (clock i) with
      | none => rfl
      | some evs =>
        simp only [ih]
        cases applyWrites env true ts clock (i + 1) p.1 ws <;> rfl

/-- The new row of an event, printed, is the row its write has left. -/
theorem newValue_left {J : JsonLib} {w : WriteOperation} {old : Option Row} {ev : ChangefeedEvent} (now : UInt64)
    (h : EventOf J w old ev) :
    ev.newValue = [] ∨ ∃ r, rowStep now w old = some r ∧ serializeRow J r = some ev.newValue := by
  have hnew := h.newValue
  split at hnew
  · exact Or.inl hnew
  · rename_i hop
    obtain ⟨r, hr, hs⟩ := serializeRow_rowStep J now hop old
    exact Or.inr ⟨r, hr, hs.trans hnew⟩

/-- The rows in the events of a loop that ran to its end. -/
theorem events_stages {e' : Engine} {entries : List WALEntry} {events : List ChangefeedEvent}
    (h : applyWrites env true ts clock i e ws = .done e' entries events) {ev : ChangefeedEvent} (hev : ev ∈ events) :
    (ev.newValue = [] ∨ ∃ r, serializeRow env.toJsonLib r = some ev.newValue ∧
      ∃ p ∈ stages env ts clock i e ws, p.1 = ⟨ev.table, ev.key, some r⟩) ∧
    (ev.oldValue = [] ∨ ∃ r, serializeRow env.toJsonLib r = some ev.oldValue ∧
      ((∃ p ∈ stages env ts clock i e ws, p.1 = ⟨ev.table, ev.key, some r⟩) ∨
        rowOf e.tables ev.table ev.key = some r)) := by
  induction ws generalizing i e entries events with
  | nil =>
    simp only [applyWrites, Applied.done.injEq] at h
    obtain ⟨-, -, rfl⟩ := h
    cases hev
  | cons w ws ih =>
    simp only [applyWrites] at h
    split at h
    · cases h
    · rename_i e₂ old hw
      split at h
      · cases h
      · rename_i evs hevs
        split at h
        · rename_i hrest
          cases h
          rw [stages, hw]
          simp only [hevs]
          obtain ⟨ev', rfl, hof⟩ := eventOf_writeEvent hevs
          have hold := applyWrite_old hw
          have hrow := applyWrite_rowOf hw w.tableName w.row.key
          rw [if_pos ⟨rfl, rfl⟩, ← hold] at hrow
          rcases List.mem_append.1 hev with hev | hev
          · rw [List.mem_singleton.1 hev]
            constructor
            · rcases newValue_left (clock i) hof with hnil | ⟨r, hr, hs⟩
              · exact Or.inl hnil
              · refine Or.inr ⟨r, hs, _, List.mem_cons_self, ?_⟩
                rw [hof.table, hof.key, hrow, hr]
            · have hov := hof.oldValue
              cases old with
              | none => exact Or.inl hov
              | some r => exact Or.inr ⟨r, hov, Or.inr (by rw [hof.table, hof.key, ← hold])⟩
          · obtain ⟨hnew, hov⟩ := ih hrest hev
            constructor
            · rcases hnew with hnil | ⟨r, hs, p, hp, hv⟩
              · exact Or.inl hnil
              · exact Or.inr ⟨r, hs, p, List.mem_cons_of_mem _ hp, hv⟩
            · rcases hov with hnil | ⟨r, hs, ⟨p, hp, hv⟩ | hfound⟩
              · exact Or.inl hnil
              · exact Or.inr ⟨r, hs, Or.inl ⟨p, List.mem_cons_of_mem _ hp, hv⟩⟩
              · -- it found what this write has just left, or what was there before
                refine Or.inr ⟨r, hs, ?_⟩
                rw [applyWrite_rowOf hw] at hfound
                split at hfound
                · rename_i hon
                  refine Or.inl ⟨_, List.mem_cons_self, ?_⟩
                  rw [← hfound, ← hon.1, ← hon.2, hrow, hold]
                · exact Or.inr hfound
        · cases h
        · cases h

end Stages
namespace Server

/-! ## The rows of the server's own steps -/

section Rows
variable {env : Env} {mode : SyncMode} {feed : Bool} {s s' : Server} {l : Label}

theorem engine_lockFree (hl : Outlet.lockFree l = true) (hstep : step env mode feed s l = some s') :
    s'.engine = s.engine := by
  cases l with
  | writer wl =>
    obtain ⟨-, w, -, rfl⟩ := step_writer hstep
    rfl
  | flush =>
    simp only [step] at hstep
    split at hstep
    · cases hstep
      unfold drainLog
      split <;> rfl
    · cases hstep
  | syncSnap | syncDir =>
    simp only [step] at hstep
    repeat' split at hstep
    all_goals first
      | (cases hstep; done)
      | (cases hstep; rfl)
  | _ => cases hl

/-- Only a `Commit` puts a row into a table. -/
theorem rowOf_step (hl : ∀ txn clock ts, l ≠ .commit txn clock ts) (hstep : step env mode feed s l = some s')
    {t k : Bytes} {r : Row} (h : rowOf s'.engine.tables t k = some r) : rowOf s.engine.tables t k = some r := by
  cases l with
  | commit txn clock ts => exact absurd rfl (hl txn clock ts)
  | createTable schema ts =>
    have hnew : ∀ e' : Engine, e'.tables = s.engine.tables.insert schema.name { schema := schema } →
        rowOf e'.tables t k = some r → rowOf s.engine.tables t k = some r := by
      intro e' he hr
      rw [he] at hr
      by_cases hn : schema.name = t
      · rw [← hn, rowOf_insert] at hr
        simp at hr
      · rw [rowOf_insert_ne hn] at hr
        exact hr
    simp only [step] at hstep
    split at hstep
    · unfold OriginDB.createTable at hstep
      split at hstep
      · cases hstep
        exact h
      · rename_i e' hc
        split at hc
        · cases hc
        · split at hc
          · cases hc
            cases hstep
            exact hnew _ rfl h
          · cases hc
      · rename_i e' entry hc
        split at hc
        · cases hc
        · split at hc
          · cases hc
          · cases hc
            cases hstep
            exact hnew _ rfl h
    · cases hstep
  | dropTable name ts =>
    simp only [step] at hstep
    split at hstep
    · split at hstep
      · cases hstep
        exact h
      · rename_i e' entry hd
        cases hstep
        unfold OriginDB.dropTable at hd
        split at hd
        · cases hd
        · cases hd
          simp only [rowOf, OrdMap.getElem?_erase] at h
          split at h
          · cases h
          · exact h
    · cases hstep
  | writer wl =>
    rw [engine_lockFree rfl hstep] at h
    exact h
  | flush =>
    rw [engine_lockFree rfl hstep] at h
    exact h
  | drain =>
    simp only [step] at hstep
    split at hstep
    · cases hstep
      unfold drainLog at h
      split at h <;> exact h
    · cases hstep
  | serialise | truncate _ =>
    simp only [step] at hstep
    split at hstep
    · first
        | (obtain ⟨w, -, rfl⟩ := Option.map_eq_some_iff.1 hstep; exact h)
        | (split at hstep
           · cases hstep
           · obtain ⟨text, -, rfl⟩ := Option.map_eq_some_iff.1 hstep
             exact h)
    · cases hstep
  | _ =>
    simp only [step] at hstep
    repeat' split at hstep
    all_goals first
      | (cases hstep; done)
      | (cases hstep; exact h)

end Rows

end Server

end OriginDB
