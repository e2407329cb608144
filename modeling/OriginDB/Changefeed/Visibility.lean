import OriginDB.Changefeed.Readers
import OriginDB.Storage.Promises
/-!
# Only durable data leaves (`storage_engine.cpp:315-438`, `websocket_server.cpp:702-768, 1099-1211`)

A row belongs to the last `Commit` that wrote under its key before it was read, or was recovered
(`Stands`). An event waits for its own batch, and since the log reports in order all batches before it
have been reported too; an answer waits for nothing. So every row that leaves is durable in the runs in
which nobody answers with a row before its writers are (`leaves_durable`), and not in others.
-/
namespace OriginDB

open JsonDoc Machine Lists

namespace Outlet

/-! ## Only durable data -/

section
variable (recovered : Tables)

/-- The row is what the last of its writers left, or it was recovered. -/
def Stands (fs : List Footprint) (v : Observed) : Prop :=
  match v.writers.getLast? with
  | none => rowOf recovered v.table v.key = some v.row
  | some i => ∃ f ∈ fs[i]?, ⟨v.table, v.key, some v.row⟩ ∈ f.versions

/-- Besides, that writer's batch has been reported durable. -/
def StandsDurably (o : Outlet) (v : Observed) : Prop :=
  Stands recovered o.footprints v ∧ ∀ i ∈ v.writers.getLast?, o.reported i = some true

/-- The `Commit` an event comes from. -/
def commitOf (o : Outlet) (p : Published) : Nat :=
  match o.node.committers[p.committer]? with
  | none => o.footprints.length
  | some c => o.footprints.findIdx fun f => f.promise = some c.promise

/-- The row an event has as its new value is one its own `Commit` left. -/
def NewDurable (J : JsonLib) (o : Outlet) (n : Nat) (ev : ChangefeedEvent) : Prop :=
  ev.newValue = [] ∨ ∃ r, serializeRow J r = some ev.newValue ∧
    (∃ f ∈ o.footprints[n]?, ⟨ev.table, ev.key, some r⟩ ∈ f.versions) ∧ o.reported n = some true

/-- The row it has as its old value was left by an earlier write of that `Commit`, or found by it. -/
def OldDurable (J : JsonLib) (o : Outlet) (n : Nat) (ev : ChangefeedEvent) : Prop :=
  ev.oldValue = [] ∨ ∃ r, serializeRow J r = some ev.oldValue ∧
    (((∃ f ∈ o.footprints[n]?, ⟨ev.table, ev.key, some r⟩ ∈ f.versions) ∧ o.reported n = some true) ∨
      StandsDurably recovered o ⟨ev.table, ev.key, r, writers (o.footprints.take n) ev.table ev.key⟩)

/-- Every row that leaves with this step belongs to a transaction whose batch has been reported durable,
or to the recovered state. -/
def OnlyDurable (J : JsonLib) (o : Outlet) : Label → Outlet → Prop
  | .reply i, _ => ∀ r ∈ o.requests[i]?, (∀ v ∈ r.rows, StandsDurably recovered o v) ∧
      ∀ n ∈ r.own, o.reported n = some true
  | .deliver j, _ => ∀ p ∈ o.node.published[j]?,
      NewDurable J o (o.commitOf p) p.event ∧ OldDurable recovered J o (o.commitOf p) p.event
  | _, _ => True

end

/-- A `Commit` that will never be durable: it was refused halfway, or its batch was reported lost. -/
def lost (o : Outlet) (i : Nat) : Bool :=
  match o.footprints[i]? with
  | none => false
  | some f => match f.promise with
    | none => true
    | some q => o.node.server.wal.promises[q]?.join = some false

/-- Nobody answers with a row while one of the `Commit`s that had written it is waiting for its batch, or
is lost; and no event is delivered whose row a `Commit` before it wrote that is lost. -/
def Waits (o : Outlet) : Label → Prop
  | .reply i => ∀ r ∈ o.requests[i]?, ∀ v ∈ r.rows, ∀ n ∈ v.writers, o.reported n = some true
  | .deliver j => ∀ p ∈ o.node.published[j]?,
      ∀ n ∈ writers (o.footprints.take (o.commitOf p)) p.event.table p.event.key, o.lost n = false
  | _ => True

instance (o : Outlet) (l : Label) : Decidable (Waits o l) :=
  match l with
  | .reply i => inferInstanceAs (Decidable
      (∀ r ∈ o.requests[i]?, ∀ v ∈ r.rows, ∀ n ∈ v.writers, o.reported n = some true))
  | .deliver j => inferInstanceAs (Decidable (∀ p ∈ o.node.published[j]?,
      ∀ n ∈ writers (o.footprints.take (o.commitOf p)) p.event.table p.event.key, o.lost n = false))
  | .node _ | .enter _ _ _ _ | .apply | .submit | .request | .getTable _ _ | .get _ _ | .scan _ _ _ => isTrue trivial
/-! ## Writers and what they left -/

section Writers
variable {recovered : Tables} {fs : List Footprint} {t k : Bytes}

theorem mem_writers {i : Nat} : i ∈ writers fs t k ↔ ∃ f, fs[i]? = some f ∧ f.wrote t k = true := by
  rw [writers, List.mem_filter, List.mem_range, Option.any_eq_true]
  constructor
  · rintro ⟨-, f, hf, hw⟩
    exact ⟨f, hf, hw⟩
  · rintro ⟨f, hf, hw⟩
    exact ⟨(List.getElem?_eq_some_iff.1 hf).1, f, hf, hw⟩

theorem writers_concat (fs : List Footprint) (f : Footprint) (t k : Bytes) :
    writers (fs ++ [f]) t k = writers fs t k ++ if f.wrote t k then [fs.length] else [] := by
  have hold : (List.range fs.length).filter (fun i => (fs ++ [f])[i]?.any fun f => f.wrote t k) = writers fs t k := by
    refine List.filter_congr fun i hi => ?_
    rw [List.getElem?_append_left (List.mem_range.1 hi)]
  rw [writers, List.length_append, List.length_singleton, List.range_succ, List.filter_append, hold]
  congr 1
  cases hw : f.wrote t k with
  | true => simp [hw]
  | false => simp [hw]

/-- The later list has the same `Commit`s, with at least the same versions. -/
def Extends (fs fs' : List Footprint) : Prop :=
  ∀ (i : Nat) (f : Footprint), fs[i]? = some f → ∃ f', fs'[i]? = some f' ∧ f.versions ⊆ f'.versions

theorem Extends.append (fs gs : List Footprint) : Extends fs (fs ++ gs) := by
  intro i f hf
  exact ⟨f, by rw [List.getElem?_append_left (List.getElem?_eq_some_iff.1 hf).1, hf], List.Subset.refl _⟩

theorem Extends.concat {f f' : Footprint} (h : f.versions ⊆ f'.versions) : Extends (fs ++ [f]) (fs ++ [f']) := by
  intro i g hg
  rcases Nat.lt_or_ge i fs.length with hi | hi
  · rw [List.getElem?_append_left hi] at hg ⊢
    exact ⟨g, hg, List.Subset.refl _⟩
  · rw [List.getElem?_append_right hi] at hg ⊢
    obtain ⟨hlt, rfl⟩ := List.getElem?_eq_some_iff.1 hg
    rw [List.length_singleton] at hlt
    have hz : i - fs.length = 0 := by omega
    simp only [hz]
    exact ⟨f', rfl, h⟩

theorem Stands.mono {fs' : List Footprint} {v : Observed} (h : Stands recovered fs v) (hfs : Extends fs fs') :
    Stands recovered fs' v := by
  unfold Stands at h ⊢
  split
  · rename_i hnone
    rw [hnone] at h
    exact h
  · rename_i i hi
    rw [hi] at h
    obtain ⟨f, hf, hv⟩ := h
    obtain ⟨f', hf', hsub⟩ := hfs i f hf
    exact ⟨f', hf', hsub hv⟩

/-- **What a reader finds in the middle of a `Commit`**, or at its end. -/
theorem stands_stage {env : Env} {ts : UInt64} {clock : Nat → UInt64} {i n : Nat} {e : Engine} {ws : List WriteOperation}
    {f : Footprint} {r : Row} (hf : f.versions = ((stages env ts clock i e ws).take n).map Prod.fst)
    (h : ∀ r, rowOf e.tables t k = some r → Stands recovered fs ⟨t, k, r, writers fs t k⟩)
    (hr : rowOf (atEnd e ((stages env ts clock i e ws).take n)).tables t k = some r) :
    Stands recovered (fs ++ [f]) ⟨t, k, r, writers (fs ++ [f]) t k⟩ := by
  rw [writers_concat]
  rcases rowOf_stages env ts clock i e ws n t k with ⟨hsame, hoff⟩ | ⟨p, hp, hv⟩
  · have hno : f.wrote t k = false := by
      rw [Footprint.wrote, hf, List.any_eq_false]
      intro v hv
      obtain ⟨p, hp, rfl⟩ := List.mem_map.1 hv
      simp [hoff p hp]
    rw [hno]
    simp only [Bool.false_eq_true, if_false, List.append_nil]
    exact (h r (hsame.symm.trans hr)).mono (Extends.append _ _)
  · have hmem : (⟨t, k, some r⟩ : RowVersion) ∈ f.versions := by
      rw [hf, List.mem_map]
      exact ⟨p, hp, by rw [hv, hr]⟩
    have hyes : f.wrote t k = true := by
      rw [Footprint.wrote, List.any_eq_true]
      exact ⟨_, hmem, by simp [RowVersion.on]⟩
    rw [hyes]
    simp only [if_true, Stands, List.getLast?_concat]
    exact ⟨f, by simp, hmem⟩

end Writers

/-! ## The invariant -/

section
variable (recovered : Tables)

/-- Where the rows in an event of the `n`-th `Commit` come from. -/
structure EventStands (J : JsonLib) (fs : List Footprint) (n : Nat) (ev : ChangefeedEvent) : Prop where
  new : ev.newValue = [] ∨ ∃ r, serializeRow J r = some ev.newValue ∧
    ∃ f ∈ fs[n]?, ⟨ev.table, ev.key, some r⟩ ∈ f.versions
  old : ev.oldValue = [] ∨ ∃ r, serializeRow J r = some ev.oldValue ∧
    ((∃ f ∈ fs[n]?, ⟨ev.table, ev.key, some r⟩ ∈ f.versions) ∨
      Stands recovered fs ⟨ev.table, ev.key, r, writers (fs.take n) ev.table ev.key⟩)

/-- A committer, its footprint and its promise. -/
structure Traced (J : JsonLib) (fs : List Footprint) (w : Wal) (c : Committer) : Prop where
  footprint : ∃ n f, fs[n]? = some f ∧ f.promise = some c.promise ∧ ∀ ev ∈ c.events, EventStands recovered J fs n ev
  durable : c.committed = true → w.promises[c.promise]? = some (some true)
  owed : ∀ ev ∈ c.owed, ev ∈ c.events

structure Inv (env : Env) (o : Outlet) : Prop where
  fifo : o.node.server.wal.Fifo
  rows : ∀ t k r, rowOf o.node.server.engine.tables t k = some r →
    Stands recovered o.footprints ⟨t, k, r, writers o.footprints t k⟩
  observed : ∀ req ∈ o.requests, ∀ v ∈ req.rows, Stands recovered (o.known env) v
  promised : ∀ f ∈ o.footprints, ∀ q ∈ f.promise, q < o.node.server.wal.promises.length
  ordered : o.footprints.Pairwise fun f g => ∀ p ∈ f.promise, ∀ q ∈ g.promise, p < q
  traced : ∀ c ∈ o.node.committers, Traced recovered env.toJsonLib o.footprints o.node.server.wal c
  published : ∀ p ∈ o.node.published, ∃ c, o.node.committers[p.committer]? = some c ∧ c.committed = true ∧
    ∃ ev ∈ c.events, p.event.unstamped = ev.unstamped

end

section Steps
variable {recovered : Tables} {env : Env} {mode : SyncMode} {maxLag : Nat} {o o' : Outlet}

theorem EventStands.append {J : JsonLib} {fs : List Footprint} {n : Nat} {ev : ChangefeedEvent} (gs : List Footprint)
    (h : EventStands recovered J fs n ev) (hn : n < fs.length) : EventStands recovered J (fs ++ gs) n ev := by
  have hget : (fs ++ gs)[n]? = fs[n]? := List.getElem?_append_left hn
  refine ⟨by rw [hget]; exact h.new, ?_⟩
  rw [hget, List.take_append_of_le_length (Nat.le_of_lt hn)]
  rcases h.old with hnil | ⟨r, hr, hown | hstands⟩
  · exact Or.inl hnil
  · exact Or.inr ⟨r, hr, Or.inl hown⟩
  · exact Or.inr ⟨r, hr, Or.inr (hstands.mono (Extends.append _ _))⟩

theorem Traced.more {J : JsonLib} {fs : List Footprint} {w w' : Wal} {c : Committer} (gs : List Footprint)
    (h : Traced recovered J fs w c) (hk : w.Keeps w') : Traced recovered J (fs ++ gs) w' c := by
  obtain ⟨n, f, hf, hp, hev⟩ := h.footprint
  have hn : n < fs.length := (List.getElem?_eq_some_iff.1 hf).1
  refine ⟨⟨n, f, by rw [List.getElem?_append_left hn, hf], hp, fun ev hmem => (hev ev hmem).append gs hn⟩, ?_, h.owed⟩
  exact fun hc => hk _ _ (h.durable hc)

/-- **What a reader finds.** -/
theorem Inv.stands (h : Inv recovered env o) {t k : Bytes} {r : Row} (hr : rowOf (o.tables env) t k = some r) :
    Stands recovered (o.known env) (o.observe env t k r) := by
  cases ha : o.applying with
  | none =>
    have hknown : o.known env = o.footprints := by simp [known, ha]
    have htables : o.tables env = o.node.server.engine.tables := by simp [tables, applied, ha, atEnd]
    rw [observe, hknown]
    rw [htables] at hr
    exact h.rows t k r hr
  | some a =>
    have hknown : o.known env = o.footprints ++ [{ versions := (o.applied env).map Prod.fst }] := by simp [known, ha]
    have happ : o.applied env = (o.stagesOf env a).take a.applied := by simp [applied, ha]
    rw [observe, hknown]
    rw [tables, happ] at hr
    exact stands_stage (by rw [happ]; rfl) (h.rows t k) hr

/-! ## Steps of the node -/

/-- The footprints stay, the server may go on. -/
theorem Inv.serve {l : Server.Label} {server : Server} (h : Inv recovered env o)
    (hl : enabled o.applying.isSome (.server l) = true) (hstep : o.node.server.step env mode true l = some server) :
    Inv recovered env { o with node := { o.node with server := server } } := by
  have hnot : ∀ txn clock ts, l ≠ .commit txn clock ts := by
    rintro txn clock ts rfl
    cases hl
  obtain ⟨hfifo, hkeeps⟩ := Server.fifo_step h.fifo hstep
  have hlen := Server.length_promises_le hstep
  have hknown : known env { o with node := { o.node with server := server } } = o.known env := by
    cases ha : o.applying with
    | none => simp [known, ha]
    | some a =>
      have hfree : lockFree l = true := by
        rw [ha] at hl
        cases l <;> simp_all [enabled]
      simp only [known, applied, stagesOf, ha, Server.engine_lockFree hfree hstep]
  refine ⟨hfifo, ?_, ?_, ?_, h.ordered, ?_, h.published⟩
  · intro t k r hr
    exact h.rows t k r (Server.rowOf_step hnot hstep hr)
  · intro req hreq v hv
    rw [hknown]
    exact h.observed req hreq v hv
  · intro f hf q hq
    exact Nat.lt_of_lt_of_le (h.promised f hf q hq) hlen
  · intro c hc
    have := (h.traced c hc).more [] hkeeps
    rwa [List.append_nil] at this

/-- A committer goes on; it has been told that its batch is durable once it publishes or returns `true`. -/
theorem Inv.setPhase {i : Nat} {c : Committer} {phase : CommitPhase} (h : Inv recovered env o)
    (hc : o.node.committers[i]? = some c) (hkeep : c.committed = true → Committer.committed { c with phase := phase } = true)
    (hdur : Committer.committed { c with phase := phase } = true →
      o.node.server.wal.promises[c.promise]? = some (some true))
    (howed : ∀ ev ∈ Committer.owed { c with phase := phase }, ev ∈ c.events) :
    Inv recovered env { o with node := o.node.setPhase i c phase } := by
  have hi : i < o.node.committers.length := (List.getElem?_eq_some_iff.1 hc).1
  refine ⟨h.fifo, h.rows, h.observed, h.promised, h.ordered, ?_, ?_⟩
  · intro d hd
    rcases List.mem_or_eq_of_mem_set hd with hd | rfl
    · exact h.traced d hd
    · exact ⟨(h.traced c (List.mem_of_getElem? hc)).footprint, hdur, howed⟩
  · intro p hp
    obtain ⟨d, hd, hcom, hev⟩ := h.published p hp
    show ∃ c', (o.node.committers.set i _)[p.committer]? = some c' ∧ _
    by_cases hpi : i = p.committer
    · subst hpi
      rw [hc] at hd
      cases hd
      exact ⟨_, List.getElem?_set_self hi, hkeep hcom, hev⟩
    · exact ⟨d, by rw [List.getElem?_set_ne hpi, hd], hcom, hev⟩

theorem Inv.move {i : Nat} {c : Committer} {phase : CommitPhase} (h : Inv recovered env o)
    (hc : o.node.committers[i]? = some c) (hm : Node.Moves c o.node.server.wal.promises[c.promise]?.join phase) :
    Inv recovered env { o with node := o.node.setPhase i c phase } := by
  have htraced := h.traced c (List.mem_of_getElem? hc)
  cases hm with
  | woken hw hd =>
    refine h.setPhase hc ?_ ?_ ?_
    · intro _
      rfl
    · intro _
      exact Option.join_eq_some_iff.1 hd
    · intro ev hev
      exact hev
  | failed hw hd =>
    refine h.setPhase hc ?_ ?_ ?_
    · intro hcom
      simp [Committer.committed, hw] at hcom
    · intro hcom
      simp [Committer.committed] at hcom
    · intro ev hev
      simp [Committer.owed] at hev
  | finished hp =>
    refine h.setPhase hc ?_ ?_ ?_
    · intro _
      rfl
    · intro _
      exact htraced.durable (by simp [Committer.committed, hp])
    · intro ev hev
      simp [Committer.owed] at hev

theorem Inv.publish {i : Nat} {now : UInt64} {c : Committer} {ev : ChangefeedEvent} {todo : List ChangefeedEvent}
    {offset : UInt64} {feed : Feed} (h : Inv recovered env o) (hc : o.node.committers[i]? = some c)
    (hp : c.phase = .publishing (ev :: todo)) :
    Inv recovered env { o with node := { o.node.setPhase i c (.publishing todo) with
      feed := feed
      published := o.node.published ++ [⟨i, { ev with offset := offset, timestamp := now }⟩] } } := by
  have htraced := h.traced c (List.mem_of_getElem? hc)
  have howed : c.owed = ev :: todo := by simp [Committer.owed, hp]
  have hset : Inv recovered env { o with node := o.node.setPhase i c (.publishing todo) } := by
    refine h.setPhase hc ?_ ?_ ?_
    · intro _
      rfl
    · intro _
      exact htraced.durable (by simp [Committer.committed, hp])
    · intro e he
      exact htraced.owed e (by rw [howed]; exact List.mem_cons_of_mem _ he)
  refine ⟨hset.fifo, hset.rows, hset.observed, hset.promised, hset.ordered, hset.traced, ?_⟩
  intro p hmem
  rcases List.mem_append.1 hmem with hmem | hmem
  · exact hset.published p hmem
  · rw [List.mem_singleton.1 hmem]
    have hi : i < o.node.committers.length := (List.getElem?_eq_some_iff.1 hc).1
    exact ⟨_, List.getElem?_set_self hi, rfl, ev, htraced.owed ev (by simp [howed]), rfl⟩

/-! ## The end of a `Commit` -/

theorem commit_engine {s s' : Server} {txn : Txn} {clock : Nat → UInt64} {ts : UInt64} (hactive : txn.state = .active)
    (hstep : s.step env mode true (.commit txn clock ts) = some s') :
    s'.engine = atEnd s.engine (stages env txn.timestamp clock 0 s.engine txn.writeSet) := by
  have hcommit : (OriginDB.commit env true clock s.engine txn).engine s.engine =
      atEnd s.engine (stages env txn.timestamp clock 0 s.engine txn.writeSet) := by
    unfold OriginDB.commit
    rw [if_neg (by simp [hactive])]
    split
    · rename_i hnil
      rw [hnil]
      rfl
    · rw [atEnd_stages]
      split <;> rename_i hr <;> rw [hr] <;> rfl
  rw [← hcommit]
  simp only [Server.step] at hstep
  split at hstep
  · split at hstep
    · rename_i hr
      cases hstep
      rw [hr]
      rfl
    · cases hstep
      rfl
  · cases hstep

/-- The committer a `Commit` leaves behind, with its events. -/
theorem submits_events {s : Node} {txn : Txn} {clock : Nat → UInt64} {ts : UInt64} {c : Committer}
    (h : s.submits env (.commit txn clock ts) = some c) :
    c.phase = .waiting ∧ c.promise = s.server.wal.promises.length ∧ ∃ e' entries,
      applyWrites env true txn.timestamp clock 0 s.server.engine txn.writeSet = .done e' entries c.events := by
  simp only [Node.submits] at h
  split at h
  · rename_i e' entries events hr
    cases h
    exact ⟨rfl, rfl, e', entries, commit_spec.1 _ _ _ hr⟩
  · cases h

/-- A `Commit` that got through its loop has one more promise behind it. -/
theorem length_submits {s : Node} {server : Server} {txn : Txn} {clock : Nat → UInt64} {ts : UInt64} {c : Committer}
    (h : s.submits env (.commit txn clock ts) = some c)
    (hstep : s.server.step env mode true (.commit txn clock ts) = some server) :
    server.wal.promises.length = s.server.wal.promises.length + 1 := by
  simp only [Node.submits] at h
  split at h
  · rename_i e' entries events hr
    simp only [Server.step, hr] at hstep
    split at hstep
    · cases hstep
      exact Wal.length_promises_append _ entries ts
    · cases hstep
  · cases h

theorem Inv.submit {a : Applying} {server : Server} (h : Inv recovered env o) (ha : o.applying = some a)
    (hdone : a.applied = (o.stagesOf env a).length)
    (hstep : o.node.server.step env mode true (.commit a.txn a.clock a.ts) = some server) :
    Inv recovered env { o with
      node := { o.node with
        server := server
        committers := o.node.committers ++ (o.node.submits env (.commit a.txn a.clock a.ts)).toList }
      applying := none
      footprints := o.footprints ++ [{
        versions := (o.stagesOf env a).map Prod.fst
        promise := (o.node.submits env (.commit a.txn a.clock a.ts)).map Committer.promise }] } := by
  obtain ⟨hfifo, hkeeps⟩ := Server.fifo_step h.fifo hstep
  have hall : (o.stagesOf env a).take a.applied = o.stagesOf env a := by rw [hdone, List.take_length]
  have hlen := Server.length_promises_le hstep
  have hnew : ∀ q ∈ (o.node.submits env (.commit a.txn a.clock a.ts)).map Committer.promise,
      q = o.node.server.wal.promises.length ∧ q < server.wal.promises.length := by
    intro q hq
    obtain ⟨c, hc, rfl⟩ := Option.map_eq_some_iff.1 hq
    rw [(submits_events hc).2.1, length_submits hc hstep]
    exact ⟨rfl, Nat.lt_succ_self _⟩
  refine ⟨hfifo, ?_, ?_, ?_, ?_, ?_, ?_⟩
  · intro t k r hr
    have hr : rowOf server.engine.tables t k = some r := hr
    rw [commit_engine a.active hstep] at hr
    have hr : rowOf (atEnd o.node.server.engine
        ((stages env a.txn.timestamp a.clock 0 o.node.server.engine a.txn.writeSet).take a.applied)).tables t k = some r := by
      show rowOf (atEnd _ ((o.stagesOf env a).take a.applied)).tables t k = _
      rw [hall]
      exact hr
    refine stands_stage ?_ (h.rows t k) hr
    show _ = ((o.stagesOf env a).take a.applied).map Prod.fst
    rw [hall]
  · intro req hreq v hv
    refine (h.observed req hreq v hv).mono ?_
    simp only [known, applied, ha, hall]
    rw [Option.map_none, Option.toList_none, List.append_nil]
    exact Extends.concat (List.Subset.refl _)
  · intro f hf q hq
    rcases List.mem_append.1 hf with hf | hf
    · exact Nat.lt_of_lt_of_le (h.promised f hf q hq) hlen
    · rw [List.mem_singleton.1 hf] at hq
      exact (hnew q hq).2
  · show (o.footprints ++ [_]).Pairwise _
    rw [List.pairwise_append]
    refine ⟨h.ordered, List.pairwise_singleton _ _, ?_⟩
    intro f hf g hg p hp q hq
    rw [List.mem_singleton.1 hg] at hq
    rw [(hnew q hq).1]
    exact h.promised f hf p hp
  · intro c hc
    rcases List.mem_append.1 hc with hc | hc
    · exact (h.traced c hc).more _ hkeeps
    · have hc := Option.mem_toList.1 hc
      obtain ⟨hphase, -, e', entries, hdone⟩ := submits_events hc
      refine ⟨⟨o.footprints.length, _, List.getElem?_concat_length, ?_, ?_⟩, ?_, ?_⟩
      · show (o.node.submits env _).map Committer.promise = _
        rw [hc]
        rfl
      · -- its events, read off the stages
        intro ev hev
        obtain ⟨hn, hold⟩ := events_stages hdone hev
        have hin : ∀ r, (∃ p ∈ stages env a.txn.timestamp a.clock 0 o.node.server.engine a.txn.writeSet,
            p.1 = ⟨ev.table, ev.key, some r⟩) → (⟨ev.table, ev.key, some r⟩ : RowVersion) ∈ (o.stagesOf env a).map Prod.fst := by
          rintro r ⟨p, hp, hv⟩
          exact List.mem_map.2 ⟨p, hp, hv⟩
        constructor
        · rcases hn with hnil | ⟨r, hs, hr⟩
          · exact Or.inl hnil
          · exact Or.inr ⟨r, hs, _, List.getElem?_concat_length, hin r hr⟩
        · rcases hold with hnil | ⟨r, hs, hr | hr⟩
          · exact Or.inl hnil
          · exact Or.inr ⟨r, hs, Or.inl ⟨_, List.getElem?_concat_length, hin r hr⟩⟩
          · refine Or.inr ⟨r, hs, Or.inr ?_⟩
            rw [List.take_left]
            exact (h.rows _ _ r hr).mono (Extends.append _ _)
      · intro hcom
        simp [Committer.committed, hphase] at hcom
      · intro ev hev
        rw [Committer.owed, hphase] at hev
        exact hev
  · intro p hp
    obtain ⟨c, hc, hrest⟩ := h.published p hp
    exact ⟨c, by rw [List.getElem?_append_left (List.getElem?_eq_some_iff.1 hc).1, hc], hrest⟩

/-! ## Readers, and every step -/

/-- What is read stands as it is read. -/
theorem Inv.withRequests {requests : List Request} (h : Inv recovered env o)
    (hrows : ∀ req ∈ requests, ∀ v ∈ req.rows, Stands recovered (o.known env) v) :
    Inv recovered env { o with requests := requests } :=
  ⟨h.fifo, h.rows, hrows, h.promised, h.ordered, h.traced, h.published⟩

theorem Inv.setRequest {i : Nat} {r : Request} (h : Inv recovered env o)
    (hrows : ∀ v ∈ r.rows, Stands recovered (o.known env) v) : Inv recovered env (o.setRequest i r) := by
  refine h.withRequests fun req hreq => ?_
  rcases List.mem_or_eq_of_mem_set hreq with hreq | rfl
  · exact h.observed req hreq
  · exact hrows

/-- The `Commit` in its loop is the only one whose versions change. -/
theorem Inv.withApplying {a : Applying} (h : Inv recovered env o)
    (hknown : Extends (o.known env) (known env { o with applying := some a })) :
    Inv recovered env { o with applying := some a } :=
  ⟨h.fifo, h.rows, fun req hreq v hv => (h.observed req hreq v hv).mono hknown, h.promised, h.ordered, h.traced, h.published⟩

theorem Inv.node {l : Node.Label} {n : Node} (h : Inv recovered env o) (hl : enabled o.applying.isSome l = true)
    (hstep : o.node.step env mode maxLag l = some n) : Inv recovered env { o with node := n } := by
  rcases Node.step_cases hstep with ⟨sl, server, rfl, hs, rfl⟩ | ⟨i, c, phase, hc, hm, rfl⟩ |
    ⟨i, now, c, ev, todo, rfl, hc, hp, rfl⟩
  · have hnone : o.node.submits env sl = none := by
      cases sl with
      | commit txn clock ts => cases hl
      | _ => rfl
    rw [hnone, Option.toList_none, List.append_nil]
    exact h.serve hl hs
  · exact h.move hc hm
  · exact h.publish hc hp

theorem Inv.step {l : Label} (h : Inv recovered env o) (hstep : step env mode maxLag o l = some o') :
    Inv recovered env o' := by
  cases l with
  | node l =>
    simp only [Outlet.step] at hstep
    split at hstep
    · rename_i hl
      obtain ⟨n, hn, rfl⟩ := Option.map_eq_some_iff.1 hstep
      exact h.node hl hn
    · cases hstep
  | enter caller txn clock ts =>
    simp only [Outlet.step] at hstep
    split at hstep
    · split at hstep
      · rename_i hactive hfree
        cases hstep
        have hnone : o.applying = none := Option.isNone_iff_eq_none.1 hfree.1
        have henter : Inv recovered env { o with applying := some { txn := txn, active := hactive, clock := clock, ts := ts } } := by
          refine h.withApplying ?_
          simp only [known, hnone, Option.map_none, Option.toList_none, List.append_nil]
          exact Extends.append _ _
        refine henter.withRequests ?_
        cases caller with
        | none => exact henter.observed
        | some i =>
          intro req hreq v hv
          obtain ⟨j, hj⟩ := List.mem_iff_getElem?.1 hreq
          rw [List.getElem?_modify] at hj
          obtain ⟨r, hr, rfl⟩ := Option.map_eq_some_iff.1 hj
          refine henter.observed r (List.mem_of_getElem? hr) v ?_
          split at hv <;> exact hv
      · cases hstep
    · cases hstep
  | apply =>
    simp only [Outlet.step] at hstep
    split at hstep
    · cases hstep
    · rename_i a ha
      split at hstep
      · cases hstep
        refine h.withApplying ?_
        simp only [known, applied, ha]
        refine Extends.concat ?_
        refine List.map_subset _ ?_
        exact List.take_subset_take_left _ (Nat.le_succ _)
      · cases hstep
  | submit =>
    simp only [Outlet.step] at hstep
    split at hstep
    · cases hstep
    · rename_i a ha
      split at hstep
      · rename_i hdone
        obtain ⟨n, hn, rfl⟩ := Option.map_eq_some_iff.1 hstep
        obtain ⟨server, hs, rfl⟩ := Option.map_eq_some_iff.1 hn
        exact h.submit ha hdone hs
      · cases hstep
  | request =>
    cases hstep
    refine h.withRequests fun req hreq => ?_
    rcases List.mem_append.1 hreq with hreq | hreq
    · exact h.observed req hreq
    · rw [List.mem_singleton.1 hreq]
      simp
  | getTable i t =>
    simp only [Outlet.step] at hstep
    split at hstep
    · cases hstep
    · rename_i r hr _
      split at hstep
      · cases hstep
        exact h.setRequest (h.observed r (List.mem_of_getElem? hr))
      · cases hstep
    · cases hstep
  | get i k =>
    simp only [Outlet.step] at hstep
    split at hstep
    · cases hstep
    · rename_i r hr
      obtain ⟨t, -, rfl⟩ := Option.map_eq_some_iff.1 hstep
      refine h.setRequest fun v hv => ?_
      rcases List.mem_append.1 hv with hv | hv
      · exact h.observed r (List.mem_of_getElem? hr) v hv
      · obtain ⟨row, hrow, rfl⟩ := List.mem_map.1 hv
        exact h.stands (Option.mem_toList.1 hrow)
  | scan i startKey endKey =>
    simp only [Outlet.step] at hstep
    split at hstep
    · cases hstep
    · rename_i r hr
      obtain ⟨t, -, hstep⟩ := Option.bind_eq_some_iff.1 hstep
      obtain ⟨tab, htab, rfl⟩ := Option.map_eq_some_iff.1 hstep
      refine h.setRequest fun v hv => ?_
      rcases List.mem_append.1 hv with hv | hv
      · exact h.observed r (List.mem_of_getElem? hr) v hv
      · obtain ⟨p, hp, rfl⟩ := List.mem_map.1 hv
        refine h.stands ?_
        rw [rowOf, htab, Option.bind_some]
        exact MemTable.getElem?_of_mem_scan hp
  | reply i =>
    simp only [Outlet.step] at hstep
    split at hstep
    · cases hstep
    · split at hstep
      · cases hstep
        exact h
      · cases hstep
  | deliver j =>
    simp only [Outlet.step] at hstep
    split at hstep
    · cases hstep
      exact h
    · cases hstep

/-! ## What leaves -/

/-- The batch of a `Commit` that has been told so is reported durable. -/
theorem reported_of_durable {n q : Nat} {f : Footprint} (hf : o.footprints[n]? = some f) (hq : f.promise = some q)
    (hd : o.node.server.wal.promises[q]? = some (some true)) : o.reported n = some true := by
  simp [reported, hf, hq, hd]

theorem Inv.reported_succeeded (h : Inv recovered env o) {n : Nat} (hs : o.succeeded n = true) :
    o.reported n = some true := by
  obtain ⟨c, hc, hret⟩ := List.any_eq_true.1 hs
  obtain ⟨hq, hphase⟩ := of_decide_eq_true hret
  obtain ⟨f, hf, hq⟩ := Option.bind_eq_some_iff.1 hq
  exact reported_of_durable hf hq ((h.traced c hc).durable (by simp [Committer.committed, hphase]))

/-- A `Commit` that is not lost is durable once one after it is. -/
theorem Inv.reported_before (h : Inv recovered env o) {m n q : Nat} {f g : Footprint} (hg : o.footprints[m]? = some g)
    (hf : o.footprints[n]? = some f) (hmn : m < n) (hq : f.promise = some q)
    (hd : o.node.server.wal.promises[q]? = some (some true)) (hlost : o.lost m = false) : o.reported m = some true := by
  rw [lost, hg] at hlost
  cases hp : g.promise with
  | none => simp [hp] at hlost
  | some p =>
    obtain ⟨hm, hgm⟩ := List.getElem?_eq_some_iff.1 hg
    obtain ⟨hn, hfn⟩ := List.getElem?_eq_some_iff.1 hf
    have hlt : p < q := by
      have := List.pairwise_iff_getElem.1 h.ordered m n hm hn hmn
      rw [hgm, hfn] at this
      exact this p hp q hq
    have hlen := h.promised g (List.mem_of_getElem? hg) p hp
    have hopen := h.fifo.durable q hd p hlt
    refine reported_of_durable hg hp ?_
    rw [List.getElem?_eq_getElem hlen] at hopen ⊢
    simp only [hp, List.getElem?_eq_getElem hlen, Option.join_some, decide_eq_false_iff_not] at hlost
    cases hv : o.node.server.wal.promises[p] with
    | none => simp [hv] at hopen
    | some ok =>
      cases ok with
      | true => rfl
      | false => simp [hv] at hlost

/-- The `Commit` an event comes from. -/
theorem Inv.commitOf_eq (h : Inv recovered env o) {p : Published} {c : Committer} {n : Nat} {f : Footprint}
    (hc : o.node.committers[p.committer]? = some c) (hf : o.footprints[n]? = some f) (hq : f.promise = some c.promise) :
    o.commitOf p = n := by
  obtain ⟨hn, hfn⟩ := List.getElem?_eq_some_iff.1 hf
  rw [commitOf, hc]
  show o.footprints.findIdx (fun f => f.promise = some c.promise) = n
  rw [List.findIdx_eq hn]
  refine ⟨by simp [hfn, hq], ?_⟩
  intro m hm
  have hord := List.pairwise_iff_getElem.1 h.ordered m n (by omega) hn hm
  rw [hfn] at hord
  rw [decide_eq_false_iff_not]
  intro hp
  exact absurd (hord _ hp _ hq) (Nat.lt_irrefl _)

/-- **What leaves is durable** when those who answer wait. -/
theorem Inv.onlyDurable {l : Label} (h : Inv recovered env o) (hok : o.Waits l)
    (hstep : Outlet.step env mode maxLag o l = some o') : OnlyDurable recovered env.toJsonLib o l o' := by
  cases l with
  | reply i =>
    intro r hr
    have happ := h.observed r (List.mem_of_getElem? hr)
    simp only [Outlet.step, Option.mem_def.1 hr] at hstep
    split at hstep
    · rename_i hown
      refine ⟨?_, fun n hn => h.reported_succeeded (hown n hn)⟩
      intro v hv
      have hdur : ∀ i ∈ v.writers.getLast?, o.reported i = some true :=
        fun i hi => hok r hr v hv i (List.mem_of_getLast? hi)
      refine ⟨?_, hdur⟩
      -- a `Commit` in its loop has nothing reported
      have hst := happ v hv
      unfold Stands at hst ⊢
      split
      · rename_i hnone
        rw [hnone] at hst
        exact hst
      · rename_i i hi
        rw [hi] at hst
        obtain ⟨f, hf, hmem⟩ := hst
        have hrep := hdur i hi
        obtain ⟨q, hq, -⟩ := Option.bind_eq_some_iff.1 hrep
        obtain ⟨g, hg, -⟩ := Option.bind_eq_some_iff.1 hq
        have hlt := (List.getElem?_eq_some_iff.1 hg).1
        refine ⟨f, ?_, hmem⟩
        rw [known, Option.mem_def, List.getElem?_append_left hlt] at hf
        exact hf
    · cases hstep
  | deliver j =>
    intro p hp
    obtain ⟨c, hc, hcom, ev, hev, hst⟩ := h.published p (List.mem_of_getElem? hp)
    obtain ⟨n, f, hf, hq, hevs⟩ := (h.traced c (List.mem_of_getElem? hc)).footprint
    have hd := (h.traced c (List.mem_of_getElem? hc)).durable hcom
    have hrep := reported_of_durable hf hq hd
    have hn : o.commitOf p = n := h.commitOf_eq hc hf hq
    have hok := hok p hp
    rw [hn] at hok ⊢
    obtain ⟨ht, hk, hnv, hov⟩ : p.event.table = ev.table ∧ p.event.key = ev.key ∧ p.event.newValue = ev.newValue ∧
        p.event.oldValue = ev.oldValue := by
      simp only [ChangefeedEvent.unstamped, ChangefeedEvent.mk.injEq] at hst
      exact ⟨hst.2.2.1, hst.2.2.2.2.1, hst.2.2.2.2.2.2.1, hst.2.2.2.2.2.1⟩
    rw [ht, hk] at hok
    constructor
    · rw [NewDurable, ht, hk, hnv]
      rcases (hevs ev hev).new with hnil | ⟨r, hs, hv⟩
      · exact Or.inl hnil
      · exact Or.inr ⟨r, hs, hv, hrep⟩
    · rw [OldDurable, ht, hk, hov]
      rcases (hevs ev hev).old with hnil | ⟨r, hs, hv | hstands⟩
      · exact Or.inl hnil
      · exact Or.inr ⟨r, hs, Or.inl ⟨hv, hrep⟩⟩
      · refine Or.inr ⟨r, hs, Or.inr ⟨hstands, ?_⟩⟩
        intro m hm
        have hmem := List.mem_of_getLast? hm
        obtain ⟨g, hg, -⟩ := mem_writers.1 hmem
        have hmn : m < n := by
          have hlt := (List.getElem?_eq_some_iff.1 hg).1
          rw [List.length_take] at hlt
          omega
        rw [List.getElem?_take_of_lt hmn] at hg
        exact h.reported_before hg hf hmn hq hd (hok m hmem)
  | _ => trivial

end Steps

/-! ## Whole runs -/

/-- A node that has just come up with whatever it recovered: nothing is on its way to the log. -/
structure AtRest (s : Server) : Prop where
  queue : s.wal.queue = []
  writer : s.wal.writer = .waiting
  settled : ∀ p ∈ s.wal.promises, p ≠ none

def boot (server : Server) : Outlet := { node := Node.boot server }

theorem atRest_start {env : Env} {snap : Option Bytes} {s₀ : Server} (h : Server.start env snap = some s₀) : AtRest s₀ := by
  obtain ⟨e, -, rfl⟩ := Option.map_eq_some_iff.1 h
  exact ⟨rfl, rfl, by simp [Wal.walInitialize]⟩

theorem inv_boot {env : Env} {s₀ : Server} (h : AtRest s₀) : Inv s₀.engine.tables env (boot s₀) := by
  have hopen : ∀ i : Nat, s₀.wal.promises[i]? ≠ some none := fun i hi => h.settled _ (List.mem_of_getElem? hi) rfl
  have hpending : s₀.wal.pending = [] := by simp [Wal.pending, Wal.inflight, h.queue, h.writer]
  refine ⟨⟨?_, ?_, ?_⟩, ?_, ?_, ?_, ?_, ?_, ?_⟩
  · show s₀.wal.pending.Pairwise _
    rw [hpending]
    exact .nil
  · intro i
    show s₀.wal.promises[i]? = some none ↔ i ∈ s₀.wal.pending
    rw [hpending]
    simp [hopen i]
  · intro i _ j _
    exact hopen j
  · intro t k r hr
    exact hr
  all_goals simp [boot, Node.boot]

/-- **Only durable data leaves the server** in every run in which nobody answers with a row before the
`Commit`s that wrote it have been reported durable. -/
theorem leaves_durable (env : Env) (mode : SyncMode) (maxLag : Nat) (s₀ : Server) (ls : List Label) (h0 : AtRest s₀)
    (hok : Allowed (step env mode maxLag) Waits (boot s₀) ls) :
    Steps (step env mode maxLag) (OnlyDurable s₀.engine.tables env.toJsonLib) (boot s₀) ls := by
  refine run_steps (Inv s₀.engine.tables env) ?_ (inv_boot h0) hok
  intro o l o' hi hl hs
  exact ⟨hi.step hs, hi.onlyDurable hl hs⟩

/-- A `Commit` of one write of `t` that has submitted its batch. -/
def submitted (op : WriteOp) (k : String) : List Label :=
  [.enter none { timestamp := 1, writeSet := [⟨op, str "t", { key := str k }⟩] } (fun _ => 0) 0, .apply, .submit]

/-- `SELECT * FROM t`, up to its answer. -/
def selected : List Label := [.request, .getTable 0 (str "t"), .scan 0 [] []]

open Server in
/-- `k` is inserted and the batch synced; then a SELECT answers, and the event is delivered. -/
def afterSync : List Label :=
  createdT.map (.node ∘ .server) ++ submitted .insert "k" ++ (ackOne 52).map (.node ∘ .server) ++ selected ++
    [.reply 0, .node (.wake 0), .node (.publish 0 0), .deliver 0]

theorem leaves_durable_afterSync :
    ((run (step Server.tEnv .fsync 100000) (boot Server.tStart) afterSync).map fun o =>
      (o.requests.map fun r => r.rows.length, o.node.published.length)) = some ([1], 1) ∧
    Steps (step Server.tEnv .fsync 100000) (OnlyDurable Server.tStart.engine.tables Server.tEnv.toJsonLib)
      (boot Server.tStart) afterSync :=
  ⟨by decide, leaves_durable Server.tEnv .fsync 100000 Server.tStart afterSync
    (atRest_start (rfl : Server.start Server.tEnv none = some Server.tStart)) (by decide)⟩

/-- The same SELECT before the writer has even looked at the batch. -/
def beforeSync : List Label := Server.createdT.map (.node ∘ .server) ++ submitted .insert "k" ++ selected

/-- It answers with `k`, whose batch is still in the queue. -/
theorem leaves_undurable :
    ¬ Steps (step Server.tEnv .fsync 100000) (OnlyDurable Server.tStart.engine.tables Server.tEnv.toJsonLib)
      (boot Server.tStart) (beforeSync ++ [.reply 0]) := by
  have hrun : ∃ o ∈ run (step Server.tEnv .fsync 100000) (boot Server.tStart) beforeSync,
      (step Server.tEnv .fsync 100000 o (.reply 0)).isSome = true ∧
      ∃ r ∈ o.requests[0]?, ∃ v ∈ r.rows, ∃ i ∈ v.writers.getLast?, o.reported i ≠ some true := by
    decide
  obtain ⟨o, ho, hstep, r, hr, v, hv, i, hi, hno⟩ := hrun
  obtain ⟨o', hstep⟩ := Option.isSome_iff_exists.1 hstep
  intro h
  exact hno (((h.of_append ho hstep r hr).1 v hv).2 i hi)

end Outlet

end OriginDB
