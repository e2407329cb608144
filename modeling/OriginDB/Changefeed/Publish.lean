import OriginDB.Changefeed.Events
import OriginDB.Lib.Lists
import OriginDB.Storage.CrashSafety
import OriginDB.Storage.Numbering
/-!
# Committers and the changefeed (`storage_engine.cpp:414-451`, `changefeed_engine.cpp:159-185`)

The server with the rest of each `Commit`: wait for the batch, publish the events one by one, return.
`tables_mutex_` is free by then, so committers that one group sync woke up publish in any order, and
`PublishEvent` numbers the events in the order they reach it.

| here | there |
| --- | --- |
| `server l`      | a step of the server; a `Commit` that submits its batch becomes a committer |
| `wake i`        | `durable.get()` (`storage_engine.cpp:423`), and `return false` when it is `false` |
| `publish i now` | one `PublishEvent` (`:433`) |
| `finish i`      | the rest of `Commit` (`:438-450`) |

Committers stand in the order in which they submitted. `published` is a history variable: every event
with the committer it came from (`all_events_` is trimmed).
-/
namespace OriginDB

open JsonDoc Machine Lists

inductive CommitPhase where
  | waiting
  | publishing (todo : List ChangefeedEvent)
  | returned (ok : Bool)
deriving DecidableEq

/-- A `Commit` call from `AppendBatchAsync` on. -/
structure Committer where
  promise : Nat
  writes : List WriteOperation
  events : List ChangefeedEvent
  phase : CommitPhase := .waiting

structure Published where
  committer : Nat
  event : ChangefeedEvent
deriving DecidableEq

structure Node where
  server : Server
  feed : Feed := {}
  committers : List Committer := []
  published : List Published := []

namespace Node

inductive Label where
  | server (l : Server.Label)
  | wake (i : Nat)
  | publish (i : Nat) (now : UInt64)
  | finish (i : Nat)

def setPhase (s : Node) (i : Nat) (c : Committer) (phase : CommitPhase) : Node :=
  { s with committers := s.committers.set i { c with phase := phase } }

section
variable (env : Env) (mode : SyncMode) (maxLag : Nat)

/-- The committer a step of the server leaves behind. -/
def submits (s : Node) : Server.Label → Option Committer
  | .commit txn clock _ =>
    match OriginDB.commit env true clock s.server.engine txn with
    | .submitted _ _ events =>
      some { promise := s.server.wal.promises.length, writes := txn.writeSet, events := events }
    | _ => none
  | _ => none

def step (s : Node) : Label → Option Node
  | .server l => (s.server.step env mode true l).map fun server =>
      { s with server := server, committers := s.committers ++ (s.submits env l).toList }
  | .wake i =>
    match s.committers[i]? with
    | some c =>
      if c.phase = .waiting then
        match s.server.wal.promises[c.promise]?.join with
        | some true => some (s.setPhase i c (.publishing c.events))
        | some false => some (s.setPhase i c (.returned false))
        | none => none
      else none
    | none => none
  | .publish i now =>
    match s.committers[i]? with
    | some c =>
      match c.phase with
      | .publishing (ev :: todo) =>
        some { s.setPhase i c (.publishing todo) with
          feed := s.feed.publishEvent maxLag ev now
          published := s.published ++ [⟨i, { ev with offset := s.feed.nextOffset, timestamp := now }⟩] }
      | _ => none
    | none => none
  | .finish i =>
    match s.committers[i]? with
    | some c => if c.phase = .publishing [] then some (s.setPhase i c (.returned true)) else none
    | none => none

end

/-! ## What a step does -/

section Cases
variable {env : Env} {mode : SyncMode} {maxLag : Nat} {s s' : Node} {l : Label}

/-- Waking up and returning: `durable` is what the promise was fulfilled with. -/
inductive Moves (c : Committer) (durable : Option Bool) : CommitPhase → Prop where
  | woken (h : c.phase = .waiting) (hd : durable = some true) : Moves c durable (.publishing c.events)
  | failed (h : c.phase = .waiting) (hd : durable = some false) : Moves c durable (.returned false)
  | finished (h : c.phase = .publishing []) : Moves c durable (.returned true)

theorem step_cases (hstep : step env mode maxLag s l = some s') :
    (∃ sl server, l = .server sl ∧ s.server.step env mode true sl = some server ∧
      s' = { s with server := server, committers := s.committers ++ (s.submits env sl).toList }) ∨
    (∃ i c phase, s.committers[i]? = some c ∧ Moves c s.server.wal.promises[c.promise]?.join phase ∧
      s' = s.setPhase i c phase) ∨
    ∃ i now c ev todo, l = .publish i now ∧ s.committers[i]? = some c ∧ c.phase = .publishing (ev :: todo) ∧
      s' = { s.setPhase i c (.publishing todo) with
        feed := s.feed.publishEvent maxLag ev now
        published := s.published ++ [⟨i, { ev with offset := s.feed.nextOffset, timestamp := now }⟩] } := by
  cases l with
  | server sl =>
    obtain ⟨server, hs, rfl⟩ := Option.map_eq_some_iff.1 hstep
    exact Or.inl ⟨sl, server, rfl, hs, rfl⟩
  | wake i =>
    simp only [step] at hstep
    split at hstep
    · rename_i c hc
      split at hstep
      · rename_i hw
        split at hstep
        · rename_i hd
          cases hstep
          exact Or.inr (Or.inl ⟨i, c, _, hc, .woken hw hd, rfl⟩)
        · rename_i hd
          cases hstep
          exact Or.inr (Or.inl ⟨i, c, _, hc, .failed hw hd, rfl⟩)
        · cases hstep
      · cases hstep
    · cases hstep
  | publish i now =>
    simp only [step] at hstep
    split at hstep
    · rename_i c hc
      split at hstep
      · rename_i ev todo hp
        cases hstep
        exact Or.inr (Or.inr ⟨i, now, c, ev, todo, rfl, hc, hp, rfl⟩)
      · cases hstep
    · cases hstep
  | finish i =>
    simp only [step] at hstep
    split at hstep
    · rename_i c hc
      split at hstep
      · rename_i hp
        cases hstep
        exact Or.inr (Or.inl ⟨i, c, _, hc, .finished hp, rfl⟩)
      · cases hstep
    · cases hstep

end Cases

end Node

/-! ## The invariant -/

def ChangefeedEvent.on (t k : Bytes) (ev : ChangefeedEvent) : Bool := ev.table = t ∧ ev.key = k

/-- The event as `Commit` buffered it: offset and time are given by `PublishEvent`. -/
def ChangefeedEvent.unstamped (ev : ChangefeedEvent) : ChangefeedEvent := { ev with offset := 0, timestamp := 0 }

namespace Committer

/-- The events still to come from this committer. -/
def owed (c : Committer) : List ChangefeedEvent :=
  match c.phase with
  | .waiting => c.events
  | .publishing todo => todo
  | .returned _ => []

/-- The events that did not come from it. -/
def unpublished (c : Committer) : List ChangefeedEvent :=
  match c.phase with
  | .waiting => c.events
  | .publishing todo => todo
  | .returned ok => if ok then [] else c.events

/-- `durable.get()` was `true`. -/
def committed (c : Committer) : Bool :=
  match c.phase with
  | .publishing _ => true
  | .returned ok => ok
  | .waiting => false

theorem unpublished_eq (c : Committer) : c.unpublished = if c.committed then c.owed else c.events := by
  unfold unpublished committed owed
  cases c.phase with
  | waiting => rfl
  | publishing todo => rfl
  | returned ok => cases ok <;> rfl

end Committer

namespace Node

/-- What committer `i` publishes next. -/
def nextEvent (s : Node) (i : Nat) : Option ChangefeedEvent := s.committers[i]?.bind fun c =>
  match c.phase with
  | .publishing todo => todo.head?
  | _ => none

/-- Nobody overtakes: an event is published only when no committer that submitted earlier still has one
for the same key to come. Besides, the sequence numbers and the offsets do not wrap around. -/
def InTurn (env : Env) (s : Node) : Label → Prop
  | .server l => s.server.Numbers env true l
  | .publish i _ => s.feed.nextOffset ≠ 0 ∧
      ∀ ev ∈ s.nextEvent i, ∀ c ∈ s.committers.take i, ∀ e ∈ c.owed, e.on ev.table ev.key = false
  | _ => True

instance (env : Env) (s : Node) (l : Label) : Decidable (InTurn env s l) :=
  match l with
  | .server l => inferInstanceAs (Decidable (s.server.Numbers env true l))
  | .publish i _ => inferInstanceAs (Decidable (s.feed.nextOffset ≠ 0 ∧
      ∀ ev ∈ s.nextEvent i, ∀ c ∈ s.committers.take i, ∀ e ∈ c.owed, e.on ev.table ev.key = false))
  | .wake _ | .finish _ => isTrue trivial

structure Inv (J : JsonLib) (s : Node) : Prop where
  numbered : s.server.wal.Numbered
  slots : s.committers.Pairwise fun c d => c.promise < d.promise
  slot_lt : ∀ c ∈ s.committers, c.promise < s.server.wal.batches.length
  eventOf : ∀ c ∈ s.committers, List.Forall₂ (fun w ev => ∃ old, EventOf J w old ev) c.writes c.events
  known : ∀ p ∈ s.published, p.committer < s.committers.length
  shared : ∀ (i : Nat) (c : Committer), s.committers[i]? = some c →
    (s.published.filter fun p => p.committer = i).map (fun p => p.event.unstamped) ++
      c.unpublished.map ChangefeedEvent.unstamped = c.events.map ChangefeedEvent.unstamped
  few : s.published.length < 2 ^ 64
  next : s.feed.nextOffset = UInt64.ofNat (s.published.length + 1)
  offsets : s.published.Pairwise fun p q => p.event.offset < q.event.offset
  below : ∀ p ∈ s.published, p.event.offset.toNat ≤ s.published.length
  sorted : s.published.Pairwise fun p q => q.event.on p.event.table p.event.key = true → p.committer ≤ q.committer
  passed : ∀ p ∈ s.published, ∀ c ∈ s.committers.take p.committer, ∀ e ∈ c.owed,
    e.on p.event.table p.event.key = false

section Steps
variable {env : Env} {mode : SyncMode} {maxLag : Nat} {s s' : Node}

/-- What a step leaves of the committers it does not touch, and of the one it does. -/
theorem pairwise_setPhase {i : Nat} {c : Committer} {phase : CommitPhase} (hc : s.committers[i]? = some c)
    (h : s.committers.Pairwise fun c d => c.promise < d.promise) :
    (s.setPhase i c phase).committers.Pairwise fun c d => c.promise < d.promise := by
  have hmap : (s.setPhase i c phase).committers.map Committer.promise = s.committers.map Committer.promise := by
    obtain ⟨hi, rfl⟩ := List.getElem?_eq_some_iff.1 hc
    refine List.ext_getElem (by simp [setPhase]) fun j h₁ h₂ => ?_
    by_cases hj : i = j
    · subst hj
      simp [setPhase]
    · simp [setPhase, hj]
  rw [← List.pairwise_map] at h ⊢
  rw [hmap]
  exact h

theorem submits_spec {l : Server.Label} {server : Server} {c : Committer}
    (hstep : s.server.step env mode true l = some server) (h : s.submits env l = some c) :
    c.phase = .waiting ∧ c.promise = s.server.wal.promises.length ∧
      List.Forall₂ (fun w ev => ∃ old, EventOf env.toJsonLib w old ev) c.writes c.events ∧
      server.wal.batches.length = s.server.wal.batches.length + 1 := by
  cases l with
  | commit txn clock ts =>
    simp only [submits] at h
    split at h
    · rename_i e' entries events hr
      cases h
      simp only [Server.step] at hstep
      split at hstep
      · rw [hr] at hstep
        cases hstep
        refine ⟨rfl, rfl, events_of_commit hr, ?_⟩
        show (s.server.wal.appendBatchAsync entries ts).batches.length = _
        unfold Wal.appendBatchAsync
        split
        · simp
        · simp [Wal.enqueue]
      · cases hstep
    · cases h
  | _ => cases h

theorem Inv.server {l : Server.Label} {server : Server} (h : Inv env.toJsonLib s) (hok : s.server.Numbers env true l)
    (hstep : s.server.step env mode true l = some server) :
    Inv env.toJsonLib { s with server := server, committers := s.committers ++ (s.submits env l).toList } := by
  have hnew : ∀ c ∈ (s.submits env l).toList, c.phase = .waiting ∧ c.promise = s.server.wal.promises.length ∧
      List.Forall₂ (fun w ev => ∃ old, EventOf env.toJsonLib w old ev) c.writes c.events ∧
      server.wal.batches.length = s.server.wal.batches.length + 1 := by
    intro c hc
    exact submits_spec hstep (Option.mem_toList.1 hc)
  have hgrow : s.server.wal.batches.length ≤ server.wal.batches.length := by
    rcases Server.step_wal hstep with ⟨-, hb, -⟩ | ⟨-, hb, -⟩ | ⟨ts, hw⟩
    · rw [hb]
    · rw [hb, List.length_append]
      omega
    · rw [hw]
      unfold Wal.appendBatchAsync
      split
      · simp
      · simp [Wal.enqueue]
  refine ⟨Server.numbered_step h.numbered hok hstep, ?_, ?_, ?_, ?_, ?_, h.few, h.next, h.offsets, h.below, h.sorted, ?_⟩
  · rw [List.pairwise_append]
    refine ⟨h.slots, ?_, ?_⟩
    · cases s.submits env l with
      | none => exact List.Pairwise.nil
      | some c => exact List.pairwise_singleton _ _
    · intro c hc d hd
      rw [(hnew d hd).2.1, h.numbered.length]
      exact h.slot_lt c hc
  · intro c hc
    rcases List.mem_append.1 hc with hc | hc
    · exact Nat.lt_of_lt_of_le (h.slot_lt c hc) hgrow
    · obtain ⟨-, hp, -, hb⟩ := hnew c hc
      show c.promise < server.wal.batches.length
      rw [hp, hb, h.numbered.length]
      omega
  · intro c hc
    rcases List.mem_append.1 hc with hc | hc
    · exact h.eventOf c hc
    · exact (hnew c hc).2.2.1
  · intro p hp
    have := h.known p hp
    rw [List.length_append]
    omega
  · intro i c hc
    by_cases hi : i < s.committers.length
    · rw [List.getElem?_append_left hi] at hc
      exact h.shared i c hc
    · have hmem : c ∈ (s.submits env l).toList := by
        rw [List.getElem?_append_right (by omega)] at hc
        exact List.mem_of_getElem? hc
      have hnone : (s.published.filter fun p => p.committer = i) = [] := by
        rw [List.filter_eq_nil_iff]
        intro p hp
        have := h.known p hp
        simp only [decide_eq_true_eq]
        omega
      rw [hnone, Committer.unpublished, (hnew c hmem).1]
      rfl
  · intro p hp
    have hle := Nat.le_of_lt (h.known p hp)
    rw [List.take_append_of_le_length hle]
    exact h.passed p hp

theorem Inv.move {i : Nat} {c : Committer} {durable : Option Bool} {phase : CommitPhase} (h : Inv env.toJsonLib s)
    (hc : s.committers[i]? = some c) (hm : Moves c durable phase) : Inv env.toJsonLib (s.setPhase i c phase) := by
  have hmem : c ∈ s.committers := List.mem_of_getElem? hc
  have hsame : Committer.unpublished { c with phase := phase } = c.unpublished := by
    cases hm with
    | woken hw _ => simp [Committer.unpublished, hw]
    | failed hw _ => simp [Committer.unpublished, hw]
    | finished hw => simp [Committer.unpublished, hw]
  have howed : ∀ e ∈ Committer.owed { c with phase := phase }, e ∈ c.owed := by
    cases hm with
    | woken hw _ => simp [Committer.owed, hw]
    | failed hw _ => simp [Committer.owed]
    | finished hw => simp [Committer.owed]
  refine ⟨h.numbered, pairwise_setPhase hc h.slots, ?_, ?_, ?_, ?_, h.few, h.next, h.offsets, h.below, h.sorted, ?_⟩
  · intro d hd
    rcases List.mem_or_eq_of_mem_set hd with hd | rfl
    · exact h.slot_lt d hd
    · exact h.slot_lt c hmem
  · intro d hd
    rcases List.mem_or_eq_of_mem_set hd with hd | rfl
    · exact h.eventOf d hd
    · exact h.eventOf c hmem
  · intro p hp
    simp only [setPhase, List.length_set]
    exact h.known p hp
  · intro j d hd
    simp only [setPhase, List.getElem?_set] at hd
    split at hd
    · rename_i hj
      subst hj
      split at hd
      · cases hd
        rw [hsame]
        exact h.shared i c hc
      · cases hd
    · exact h.shared j d hd
  · intro p hp d hd e he
    rcases mem_take_set hd with hd | ⟨rfl, hi⟩
    · exact h.passed p hp d hd e he
    · exact h.passed p hp c (mem_take_of_getElem? hc hi) e (howed e he)

theorem Inv.publish {i : Nat} {now : UInt64} {c : Committer} {ev : ChangefeedEvent} {todo : List ChangefeedEvent}
    (h : Inv env.toJsonLib s) (hc : s.committers[i]? = some c) (hp : c.phase = .publishing (ev :: todo))
    (hok : InTurn env s (.publish i now)) :
    Inv env.toJsonLib { s.setPhase i c (.publishing todo) with
      feed := s.feed.publishEvent maxLag ev now
      published := s.published ++ [⟨i, { ev with offset := s.feed.nextOffset, timestamp := now }⟩] } := by
  have hmem : c ∈ s.committers := List.mem_of_getElem? hc
  have hlen : i < s.committers.length := (List.getElem?_eq_some_iff.1 hc).1
  obtain ⟨hne, hturn⟩ := hok
  have hturn : ∀ d ∈ s.committers.take i, ∀ e ∈ d.owed, e.on ev.table ev.key = false :=
    hturn ev (by simp [nextEvent, hc, hp])
  have howed : c.owed = ev :: todo := by simp [Committer.owed, hp]
  have hroom : s.published.length + 1 < 2 ^ 64 := by
    have hfew := h.few
    by_contra hno
    have hlen : s.published.length + 1 = 2 ^ 64 := by omega
    rw [h.next, hlen] at hne
    exact hne rfl
  have hoff : s.feed.nextOffset.toNat = s.published.length + 1 := by
    rw [h.next]
    exact UInt64.toNat_ofNat_of_lt' hroom
  refine ⟨h.numbered, pairwise_setPhase hc h.slots, ?_, ?_, ?_, ?_, ?_, ?_, ?_, ?_, ?_, ?_⟩
  · intro d hd
    rcases List.mem_or_eq_of_mem_set hd with hd | rfl
    · exact h.slot_lt d hd
    · exact h.slot_lt c hmem
  · intro d hd
    rcases List.mem_or_eq_of_mem_set hd with hd | rfl
    · exact h.eventOf d hd
    · exact h.eventOf c hmem
  · intro p hp'
    simp only [setPhase, List.length_set]
    rcases List.mem_append.1 hp' with hp' | hp'
    · exact h.known p hp'
    · rw [List.mem_singleton.1 hp']
      exact hlen
  · intro j d hd
    simp only [setPhase, List.getElem?_set] at hd
    rw [List.filter_append, List.map_append]
    split at hd
    · rename_i hj
      subst hj
      cases hd
      have hsh := h.shared i c hc
      simp only [Committer.unpublished, hp] at hsh
      rw [← hsh]
      simp [Committer.unpublished, ChangefeedEvent.unstamped]
    · rename_i hj
      have hsh := h.shared j d hd
      simpa [hj] using hsh
  · simpa using hroom
  · show s.feed.nextOffset + 1 = _
    rw [h.next, List.length_append, List.length_singleton]
    exact (UInt64.ofNat_add _ 1).symm
  · rw [List.pairwise_append]
    refine ⟨h.offsets, List.pairwise_singleton _ _, ?_⟩
    intro p hp' q hq
    rw [List.mem_singleton.1 hq, UInt64.lt_iff_toNat_lt]
    have := h.below p hp'
    show p.event.offset.toNat < s.feed.nextOffset.toNat
    omega
  · intro p hp'
    rw [List.length_append, List.length_singleton]
    rcases List.mem_append.1 hp' with hp' | hp'
    · have := h.below p hp'
      omega
    · rw [List.mem_singleton.1 hp']
      exact Nat.le_of_eq hoff
  · rw [List.pairwise_append]
    refine ⟨h.sorted, List.pairwise_singleton _ _, ?_⟩
    intro p hp' q hq
    rw [List.mem_singleton.1 hq]
    intro hon
    by_contra hlt
    -- `p` was published past this committer, which still had the event
    have hpass := h.passed p hp' c (mem_take_of_getElem? hc (by simpa using hlt)) ev (by simp [howed])
    rw [show ev.on p.event.table p.event.key = true from hon] at hpass
    cases hpass
  · intro p hp' d hd e he
    rcases List.mem_append.1 hp' with hp' | hp'
    · rcases mem_take_set hd with hd | ⟨rfl, hi⟩
      · exact h.passed p hp' d hd e he
      · exact h.passed p hp' c (mem_take_of_getElem? hc hi) e (by rw [howed]; exact List.mem_cons_of_mem _ he)
    · rw [List.mem_singleton.1 hp'] at hd ⊢
      rcases mem_take_set hd with hd | ⟨-, hi⟩
      · exact hturn d hd e he
      · exact absurd hi (Nat.lt_irrefl i)

/-- **A step in turn keeps the invariant.** -/
theorem Inv.step {l : Label} (h : Inv env.toJsonLib s) (hok : InTurn env s l)
    (hstep : Node.step env mode maxLag s l = some s') : Inv env.toJsonLib s' := by
  rcases step_cases hstep with ⟨sl, server, rfl, hs, rfl⟩ | ⟨i, c, phase, hc, hm, rfl⟩ |
    ⟨i, now, c, ev, todo, rfl, hc, hp, rfl⟩
  · exact h.server hok hs
  · exact h.move hc hm
  · exact h.publish hc hp hok

end Steps

/-! ## The order of the events -/

/-- `c`'s WAL sequence numbers precede `d`'s. -/
def Precedes (s : Node) (c d : Committer) : Prop :=
  ∃ a b, s.server.wal.batches[c.promise]? = some a ∧ s.server.wal.batches[d.promise]? = some b ∧ a ≠ [] ∧ b ≠ [] ∧
    ∀ x ∈ a, ∀ y ∈ b, x.sequence < y.sequence

instance (s : Node) (c d : Committer) : Decidable (s.Precedes c d) :=
  decidable_of_iff (∃ a ∈ s.server.wal.batches[c.promise]?, ∃ b ∈ s.server.wal.batches[d.promise]?,
    a.isEmpty = false ∧ b.isEmpty = false ∧ ∀ x ∈ a, ∀ y ∈ b, x.sequence < y.sequence) (by simp [Precedes])

/-- Events for one key are numbered in the order in which their transactions were logged. -/
def OffsetsFollowLog (s : Node) : Prop :=
  ∀ p ∈ s.published, ∀ q ∈ s.published, q.event.on p.event.table p.event.key = true →
    ∀ c d, s.committers[p.committer]? = some c → s.committers[q.committer]? = some d → s.Precedes c d →
      p.event.offset < q.event.offset

/-- The writes of the transactions that committed, in the order in which they did. -/
def committedWrites (s : Node) : List WriteOperation := (s.committers.filter Committer.committed).flatMap Committer.writes

/-- Once the committed transactions have published what they wrote to a key, the last event for the key
is that of the last of these writes. -/
def LastEventCurrent (J : JsonLib) (s : Node) : Prop :=
  ∀ t k : Bytes, (∀ c ∈ s.committers, c.committed → ∀ e ∈ c.owed, e.on t k = false) →
    Option.Rel (fun w ev => ∃ old, EventOf J w old ev)
      (s.committedWrites.filter fun w => w.tableName = t ∧ w.row.key = k).getLast?
      ((s.published.map Published.event).filter (ChangefeedEvent.on t k)).getLast?

section Order
variable {env : Env} {J : JsonLib} {s : Node}

theorem EventOf.unstamped_iff {w : WriteOperation} {old : Option Row} {ev : ChangefeedEvent} :
    EventOf J w old ev.unstamped ↔ EventOf J w old ev :=
  ⟨fun h => ⟨h.1, h.2, h.3, h.4, h.5⟩, fun h => ⟨h.1, h.2, h.3, h.4, h.5⟩⟩

/-- Committers that are logged in order submitted in order. -/
theorem Inv.lt_of_precedes (h : Inv J s) {i j : Nat} {c d : Committer} (hc : s.committers[i]? = some c)
    (hd : s.committers[j]? = some d) (hp : s.Precedes c d) : i < j := by
  obtain ⟨a, b, ha, hb, hane, hbne, hlt⟩ := hp
  obtain ⟨x, hx⟩ := List.exists_mem_of_ne_nil a hane
  obtain ⟨y, hy⟩ := List.exists_mem_of_ne_nil b hbne
  by_contra hle
  have hxy := hlt x hx y hy
  rcases Nat.lt_or_eq_of_le (Nat.le_of_not_lt hle) with hji | rfl
  · -- then `d` submitted first, and its numbers are the smaller ones
    obtain ⟨hi, rfl⟩ := List.getElem?_eq_some_iff.1 hc
    obtain ⟨hj, rfl⟩ := List.getElem?_eq_some_iff.1 hd
    have hslot := List.pairwise_iff_getElem.1 h.slots j i hj hi hji
    obtain ⟨hpa, rfl⟩ := List.getElem?_eq_some_iff.1 ha
    obtain ⟨hpb, rfl⟩ := List.getElem?_eq_some_iff.1 hb
    have hyx := List.pairwise_iff_getElem.1 h.numbered.increasing _ _ hpb hpa hslot y hy x hx
    exact absurd hyx (UInt64.lt_asymm hxy)
  · rw [hc] at hd
    cases hd
    rw [ha] at hb
    cases hb
    exact absurd (hlt x hx x hx) (UInt64.lt_irrefl x.sequence)

theorem Inv.offsetsFollowLog (h : Inv J s) : s.OffsetsFollowLog := by
  intro p hp q hq hon c d hc hd hprec
  have hlt := h.lt_of_precedes hc hd hprec
  obtain ⟨m, hm, rfl⟩ := List.mem_iff_getElem.1 hp
  obtain ⟨n, hn, rfl⟩ := List.mem_iff_getElem.1 hq
  rcases Nat.lt_trichotomy m n with hmn | rfl | hnm
  · exact List.pairwise_iff_getElem.1 h.offsets m n hm hn hmn
  · exact absurd hlt (Nat.lt_irrefl _)
  · -- published the other way round, they would be out of order
    have hon' : (s.published[m]).event.on (s.published[n]).event.table (s.published[n]).event.key = true := by
      simp only [ChangefeedEvent.on, decide_eq_true_eq] at hon ⊢
      exact ⟨hon.1.symm, hon.2.symm⟩
    have := List.pairwise_iff_getElem.1 h.sorted n m hn hm hnm hon'
    omega

/-- What is published for a key is what the committed transactions had for it, in their order. -/
theorem Inv.published_eq (h : Inv J s) {t k : Bytes}
    (hquiet : ∀ c ∈ s.committers, c.committed → ∀ e ∈ c.owed, e.on t k = false) :
    ((s.published.map Published.event).filter (ChangefeedEvent.on t k)).map ChangefeedEvent.unstamped =
      (((s.committers.filter Committer.committed).flatMap Committer.events).filter (ChangefeedEvent.on t k)).map
        ChangefeedEvent.unstamped := by
  have hon : ∀ l : List ChangefeedEvent, (l.filter (ChangefeedEvent.on t k)).map ChangefeedEvent.unstamped =
      (l.map ChangefeedEvent.unstamped).filter (ChangefeedEvent.on t k) := fun l => by
    rw [List.filter_map]
    rfl
  have hpart : ∀ (i : Nat) (c : Committer), s.committers[i]? = some c →
      ((s.published.filter fun p => p.event.on t k).filter fun p => p.committer = i).map (fun p => p.event.unstamped) =
        if c.committed then (c.events.filter (ChangefeedEvent.on t k)).map ChangefeedEvent.unstamped else [] := by
    intro i c hc
    have hsh := h.shared i c hc
    have hfil : ((s.published.filter fun p => p.event.on t k).filter fun p => p.committer = i).map
        (fun p => p.event.unstamped) = ((s.published.filter fun p => p.committer = i).map
          fun p => p.event.unstamped).filter (ChangefeedEvent.on t k) := by
      rw [List.filter_map, List.filter_filter, List.filter_filter]
      refine congrArg _ (List.filter_congr fun p _ => ?_)
      exact Bool.and_comm _ _
    rw [hfil, hon]
    cases hcom : c.committed with
    | true =>
      have hnone : c.unpublished.filter (ChangefeedEvent.on t k) = [] := by
        rw [c.unpublished_eq, if_pos hcom, List.filter_eq_nil_iff]
        intro e he
        simp [hquiet c (List.mem_of_getElem? hc) hcom e he]
      rw [if_pos rfl, ← hsh, List.filter_append, ← hon c.unpublished, hnone]
      simp
    | false =>
      rw [c.unpublished_eq, if_neg (by simp [hcom])] at hsh
      have hnil : (s.published.filter fun p => p.committer = i).map (fun p => p.event.unstamped) = [] :=
        List.append_left_eq_self.1 hsh
      rw [hnil]
      rfl
  have hsorted : (s.published.filter fun p => p.event.on t k).Pairwise fun p q => p.committer ≤ q.committer := by
    refine List.Pairwise.imp_of_mem ?_ (h.sorted.sublist List.filter_sublist)
    intro p q hp hq hle
    have h1 := (List.mem_filter.1 hp).2
    have h2 := (List.mem_filter.1 hq).2
    simp only [ChangefeedEvent.on, decide_eq_true_eq] at h1 h2
    refine hle ?_
    simp only [ChangefeedEvent.on, decide_eq_true_eq]
    exact ⟨h2.1.trans h1.1.symm, h2.2.trans h1.2.symm⟩
  have heq := map_eq_flatMap_of_sorted hsorted (fun p hp => h.known p (List.mem_of_mem_filter hp)) hpart
  rw [List.filter_map, List.map_map]
  refine heq.trans ?_
  clear heq hpart hsorted hquiet h
  induction s.committers with
  | nil => rfl
  | cons c cs ih =>
    rw [List.flatMap_cons, ih]
    cases hcom : c.committed with
    | true => simp [hcom]
    | false => simp [hcom]

theorem Inv.lastEventCurrent (h : Inv J s) : s.LastEventCurrent J := by
  intro t k hquiet
  refine rel_getLast? ?_
  have hall : List.Forall₂ (fun w ev => ∃ old, EventOf J w old ev) s.committedWrites
      ((s.committers.filter Committer.committed).flatMap Committer.events) := by
    unfold committedWrites
    have hmem : ∀ c ∈ s.committers.filter Committer.committed,
        List.Forall₂ (fun w ev => ∃ old, EventOf J w old ev) c.writes c.events :=
      fun c hc => h.eventOf c (List.mem_of_mem_filter hc)
    revert hmem
    generalize s.committers.filter Committer.committed = cs
    intro hmem
    induction cs with
    | nil => exact .nil
    | cons c cs ih =>
      rw [List.flatMap_cons, List.flatMap_cons]
      exact List.rel_append (hmem c (by simp)) (ih fun d hd => hmem d (by simp [hd]))
  have hkey := List.rel_filter (p := fun w : WriteOperation => w.tableName = t ∧ w.row.key = k)
    (q := ChangefeedEvent.on t k) (fun w ev hev => by
      obtain ⟨old, hev⟩ := hev
      simp only [ChangefeedEvent.on, decide_eq_true_eq, hev.table, hev.key]) hall
  -- the stamps are all that differs
  have hst : List.Forall₂ (fun w ev => ∃ old, EventOf J w old ev)
      (s.committedWrites.filter fun w => w.tableName = t ∧ w.row.key = k)
      (((s.published.map Published.event).filter (ChangefeedEvent.on t k)).map ChangefeedEvent.unstamped) := by
    rw [h.published_eq hquiet, List.forall₂_map_right_iff]
    exact hkey.imp fun w ev ⟨old, hev⟩ => ⟨old, EventOf.unstamped_iff.2 hev⟩
  rw [List.forall₂_map_right_iff] at hst
  exact hst.imp fun w ev ⟨old, hev⟩ => ⟨old, EventOf.unstamped_iff.1 hev⟩

end Order

/-! ## Whole runs -/

/-- A node that has just booted. -/
def boot (server : Server) : Node := { server := server }

theorem inv_boot {env : Env} {snap : Option Bytes} {s₀ : Server} (h : Server.start env snap = some s₀) :
    Inv env.toJsonLib (boot s₀) := by
  obtain ⟨e, -, rfl⟩ := Option.map_eq_some_iff.1 h
  refine ⟨Wal.numbered_walInitialize [] 8, .nil, ?_, ?_, ?_, ?_, ?_, rfl, .nil, ?_, .nil, ?_⟩
  all_goals simp [boot]

/-- **Changefeed order is commit order** in every run in which nobody overtakes. -/
theorem feed_follows_log (env : Env) (mode : SyncMode) (maxLag : Nat) (snap : Option Bytes) (s₀ : Server) (s : Node)
    (ls : List Label) (h0 : Server.start env snap = some s₀)
    (hok : Allowed (step env mode maxLag) (InTurn env) (boot s₀) ls)
    (hrun : run (step env mode maxLag) (boot s₀) ls = some s) :
    s.OffsetsFollowLog ∧ s.LastEventCurrent env.toJsonLib := by
  have h : Inv env.toJsonLib s :=
    run_invariant (Inv env.toJsonLib) (fun _ _ _ hi hl hs => hi.step hl hs) (inv_boot h0) hok hrun
  exact ⟨h.offsetsFollowLog, h.lastEventCurrent⟩

open Server in
/-- Table `t` is created; an INSERT and a DELETE of `k` are applied, and one sync makes both durable. -/
def groupCommitted : List Label :=
  (createdT ++ [commitT [(.insert, "k")], commitT [(.delete, "k")], .writer .swap, .writer (.write 104),
    .writer (.sync true), .writer .fulfil, .writer .fulfil, .writer .endDrain]).map .server ++ [.wake 0, .wake 1]

theorem feed_follows_log_groupCommitted : ∃ s,
    run (step Server.tEnv .fsync 100000) (boot Server.tStart) (groupCommitted ++ [.publish 0 0, .publish 1 0]) = some s ∧
      s.published.length = 2 ∧ s.OffsetsFollowLog ∧ s.LastEventCurrent Server.tEnv.toJsonLib := by
  have hlen : ((run (step Server.tEnv .fsync 100000) (boot Server.tStart)
      (groupCommitted ++ [.publish 0 0, .publish 1 0])).map fun s => s.published.length) = some 2 := by
    decide
  obtain ⟨s, hrun, hlen⟩ := Option.map_eq_some_iff.1 hlen
  exact ⟨s, hrun, hlen, feed_follows_log Server.tEnv .fsync 100000 none Server.tStart s _ rfl (by decide) hrun⟩

/-- The second committer of the group publishes first. -/
def overtaken : List Label := groupCommitted ++ [.publish 1 0, .publish 0 0, .finish 0, .finish 1]

/-- The DELETE gets the smaller offset, and the last event for `k` says INSERT. -/
theorem feed_overtaken : ∃ s,
    run (step Server.tEnv .fsync 100000) (boot Server.tStart) overtaken = some s ∧
    ¬ s.OffsetsFollowLog ∧ ¬ s.LastEventCurrent Server.tEnv.toJsonLib := by
  have horder : ∃ s ∈ run (step Server.tEnv .fsync 100000) (boot Server.tStart) overtaken,
      ∃ p ∈ s.published, ∃ q ∈ s.published, q.event.on p.event.table p.event.key = true ∧ ¬ p.event.offset < q.event.offset ∧
        ∃ c ∈ s.committers[p.committer]?, ∃ d ∈ s.committers[q.committer]?, s.Precedes c d := by
    decide
  have hlast : ∀ s ∈ run (step Server.tEnv .fsync 100000) (boot Server.tStart) overtaken,
      (∀ c ∈ s.committers, c.owed = []) ∧
      ∃ w ∈ (s.committedWrites.filter fun w => w.tableName = str "t" ∧ w.row.key = str "k").getLast?,
        ∃ ev ∈ ((s.published.map Published.event).filter (ChangefeedEvent.on (str "t") (str "k"))).getLast?,
          w.op = .delete ∧ ev.operation = str "INSERT" := by
    decide
  obtain ⟨s, hrun, p, hp, q, hq, hon, hge, c, hc, d, hd, hprec⟩ := horder
  obtain ⟨howed, w, hw, ev, hev, hdel, hins⟩ := hlast s hrun
  refine ⟨s, hrun, ?_, ?_⟩
  · intro h
    exact hge (h p hp q hq hon c d hc hd hprec)
  · intro h
    have hrel := h (str "t") (str "k") fun c hc _ e he => by
      rw [howed c hc] at he
      cases he
    rw [hw, hev] at hrel
    cases hrel with
    | some hrel =>
      obtain ⟨old, hof⟩ := hrel
      have hop := hof.operation
      rw [hdel, hins] at hop
      exact absurd hop (by decide)

end Node

end OriginDB
