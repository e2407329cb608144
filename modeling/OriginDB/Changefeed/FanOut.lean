import OriginDB.Changefeed.Wakeup
import OriginDB.Lib.OrdMap
/-!
# Fan-out of one event to its subscriptions (`changefeed_engine.cpp:20-86`, `:190-256`, `:415-488`)

`DeliverEvent` chooses the targets of an event under both locks and then calls them with none: one after the other on
the delivery thread, or by the workers of the pool with `RunBatch` waiting for the last. Publishers, the rest of
`DeliveryLoop` and the calls that change subscriptions go on meanwhile.

| here | there |
| --- | --- |
| `other`       | `PublishEvent`, `Start`, `Stop` and `DeliveryLoop` outside `DeliverEvent`, as in `Delivery` |
| `choose`      | phase 1 (`:426-439`), then the return (`:441`), the push of the tasks (`:57-67`) or the loop (`:472`) |
| `take`        | a worker takes a task (`:77-83`), or the loop goes on; either way `t.callback` is entered |
| `ends threw`  | the callback returns, or throws a `std::exception` |
| `note`        | the offset is noted under `subscriptions_mutex_` (`:455-460`) |
| `count`       | the end of `deliver_one`, and `remaining.fetch_sub` in the pool (`:61`) |
| `finish`      | the end of the loop, or `RunBatch` sees `remaining == 0` (`:71`); `DeliverEvent` returns |
| the others    | the member functions of that name |

Which worker has a task does not matter, so the workers are the list of the tasks they have. `round`, `rounds` and
`log` are history no step reads. A callback is a number.
-/
namespace OriginDB

open JsonDoc ByteCodec Machine

/-- `Subscription` (changefeed_engine.h:42), what `DeliverEvent` reads and writes. -/
structure Subscription where
  tablePattern : Bytes
  currentOffset : UInt64
  isActive : Bool := true
deriving DecidableEq

/-- `MatchesFilter` (changefeed_engine.cpp:473). -/
def matchesFilter (tablePattern : Bytes) (event : ChangefeedEvent) : Bool :=
  tablePattern = [] || tablePattern = str "*" || event.table = tablePattern

/-- One call of `deliver_one`: the `Target` and the event. -/
structure Task where
  round : Nat
  event : ChangefeedEvent
  id : Bytes
  callback : Nat
deriving DecidableEq

inductive Entry where
  | called (t : Task)
  | ended (t : Task)
  | finished (round : Nat) (event : ChangefeedEvent)
deriving DecidableEq

/-- Whether `DeliverEvent` is in its phase 2, and on which branch. -/
inductive Phase2 where
  | idle | inline | pool
deriving DecidableEq

structure FanOut where
  loop : Delivery := {}
  subscriptions : StrMap Subscription := ∅
  callbacks : StrMap Nat := ∅
  nextSubscriptionId : UInt64 := 1
  phase2 : Phase2 := .idle
  /-- `tasks_` of the pool, or what is left of the loop. -/
  tasks : List Task := []
  /-- In the callback. -/
  calling : List Task := []
  /-- The callback has returned. -/
  returned : List Task := []
  /-- Before the end of `deliver_one`. -/
  counting : List Task := []
  remaining : Nat := 0
  rounds : Nat := 0
  log : List Entry := []

namespace FanOut

inductive Label where
  | other (l : Delivery.Label)
  | choose
  | take
  | ends (t : Task) (threw : Bool)
  | note (t : Task)
  | count (t : Task)
  | finish
  | createSubscription (tablePattern : Bytes) (startOffset : UInt64)
  | deleteSubscription (id : Bytes)
  | subscribe (id : Bytes) (callback : Nat)
  | unsubscribe (id : Bytes)

/-- The tasks whose `deliver_one` has begun and not ended. -/
def busy (s : FanOut) : List Task := s.calling ++ s.returned ++ s.counting

/-- The delivery thread is through with the call before, or a worker is idle. -/
def free (threads : Nat) (s : FanOut) : Bool :=
  if s.phase2 = .inline then s.busy = [] else s.busy.length < threads

def nextId (s : FanOut) : Bytes := str "sub-" ++ str (toString s.nextSubscriptionId.toNat)

/-- Phase 1 of `DeliverEvent`. -/
def targets (order : HashOrder) (s : FanOut) (event : ChangefeedEvent) : List Task :=
  (order.list s.subscriptions).filterMap fun (id, sub) =>
    if sub.isActive && matchesFilter sub.tablePattern event then
      s.callbacks[id]?.map fun callback => { round := s.rounds, event := event, id := id, callback := callback }
    else none

/-- `DeliverEvent` returns. -/
def delivered (s : FanOut) (event : ChangefeedEvent) : FanOut :=
  { s with
    loop := s.loop.goTo .draining
    phase2 := .idle
    rounds := s.rounds + 1
    log := s.log ++ [.finished s.rounds event] }

/-- `threads` is `delivery_threads` as `Start` has worked it out. -/
def step (order : HashOrder) (threads maxLag : Nat) (s : FanOut) : Label → Option FanOut
  | .other l =>
    match l, s.loop.phase with
    | .deliver, .delivering _ => none
    | _, _ => (s.loop.step maxLag l).map fun loop => { s with loop := loop }
  | .choose =>
    match s.loop.phase, s.phase2 with
    | .delivering event, .idle =>
      let targets := s.targets order event
      if targets = [] then some (s.delivered event)
      else if 1 < threads ∧ 1 < targets.length then
        some { s with phase2 := .pool, tasks := s.tasks ++ targets, remaining := targets.length }
      else some { s with phase2 := .inline, tasks := targets }
    | _, _ => none
  | .take =>
    match s.tasks with
    | [] => none
    | t :: tasks =>
      if s.free threads then
        some { s with tasks := tasks, calling := s.calling ++ [t], log := s.log ++ [.called t] }
      else none
  | .ends t threw =>
    if s.calling.contains t then
      some { s with
        calling := s.calling.erase t
        returned := if threw then s.returned else s.returned ++ [t]
        counting := if threw then s.counting ++ [t] else s.counting
        log := s.log ++ [.ended t] }
    else none
  | .note t =>
    if s.returned.contains t then
      some { s with
        returned := s.returned.erase t
        counting := s.counting ++ [t]
        subscriptions := match s.subscriptions[t.id]? with
          | none => s.subscriptions
          | some sub => s.subscriptions.insert t.id { sub with currentOffset := t.event.offset } }
    else none
  | .count t =>
    if s.counting.contains t then
      some { s with
        counting := s.counting.erase t
        remaining := if s.phase2 = .pool then s.remaining - 1 else s.remaining }
    else none
  | .finish =>
    match s.loop.phase, s.phase2 with
    | .delivering event, .inline => if s.tasks = [] ∧ s.busy = [] then some (s.delivered event) else none
    | .delivering event, .pool => if s.remaining = 0 then some (s.delivered event) else none
    | _, _ => none
  | .createSubscription tablePattern startOffset => some { s with
      nextSubscriptionId := s.nextSubscriptionId + 1
      subscriptions := s.subscriptions.insert s.nextId { tablePattern := tablePattern, currentOffset := startOffset } }
  | .deleteSubscription id =>
    match s.subscriptions[id]? with
    | none => some s
    | some _ => some { s with subscriptions := s.subscriptions.erase id, callbacks := s.callbacks.erase id }
  | .subscribe id callback => some { s with callbacks := s.callbacks.insert id callback, loop := s.loop.notified }
  | .unsubscribe id => some { s with callbacks := s.callbacks.erase id }

/-- Nobody touches the subscription or its callback. -/
def Fixed (id : Bytes) (s : FanOut) : Label → Prop
  | .createSubscription _ _ => s.nextId ≠ id
  | .deleteSubscription id' | .subscribe id' _ | .unsubscribe id' => id' ≠ id
  | _ => True

instance (id : Bytes) (s : FanOut) (l : Label) : Decidable (Fixed id s l) := by
  unfold Fixed
  split <;> infer_instance

/-! ## The barrier -/

/-- What has happened before a callback is entered: the events before this one are finished, and so are all calls but
those for this event. -/
def Entry.Ok (before : List Entry) : Entry → Prop
  | .called t => (∀ k < t.round, ∃ ev, .finished k ev ∈ before) ∧
      ∀ u : Task, u.round ≠ t.round → before.count (.called u) = before.count (.ended u)
  | _ => True

/-- Every entry of the log stands where it may. -/
def Ordered (log : List Entry) : Prop := ∀ before e after, log = before ++ e :: after → Entry.Ok before e

theorem Ordered.snoc {log : List Entry} {e : Entry} (h : Ordered log) (he : Entry.Ok log e) : Ordered (log ++ [e]) := by
  intro before e' after heq
  cases after using List.reverseRecOn with
  | nil =>
    obtain ⟨rfl, hlast⟩ := List.append_inj' heq rfl
    cases hlast
    exact he
  | append_singleton after last _ =>
    have hsplit : log ++ [e] = (before ++ e' :: after) ++ [last] := by simpa using heq
    obtain ⟨rfl, -⟩ := List.append_inj' hsplit rfl
    exact h before e' after rfl

/-- The tasks there are belong to the event in delivery, and the barrier counts them. -/
structure Inv (s : FanOut) : Prop where
  quiet : s.phase2 = .idle → s.tasks = [] ∧ s.busy = []
  delivering : s.phase2 ≠ .idle → ∃ ev, s.loop.phase = .delivering ev
  own : ∀ t ∈ s.tasks ++ s.busy, t.round = s.rounds ∧ s.loop.phase = .delivering t.event
  remaining : s.phase2 = .pool → s.remaining = s.tasks.length + s.busy.length
  balanced : ∀ t, s.log.count (.called t) = s.log.count (.ended t) + s.calling.count t
  finished : ∀ k, (∃ ev, .finished k ev ∈ s.log) ↔ k < s.rounds
  called : ∀ t, .called t ∈ s.log → t.round < s.rounds ∨ (t.round = s.rounds ∧ s.phase2 ≠ .idle)
  ordered : Ordered s.log

theorem Inv.boot : Inv {} := by
  refine ⟨?_, ?_, ?_, ?_, ?_, ?_, ?_, ?_⟩
  · simp [busy]
  · simp
  · simp [busy]
  · simp
  · simp
  · simp
  · simp
  · intro before e after h
    simp at h

section
variable {order : HashOrder} {threads maxLag : Nat} {s s' : FanOut} {l : Label}

/-- Outside `DeliverEvent` the tasks are not touched; in it the loop stays where it is. -/
theorem Inv.loop (h : Inv s) (loop : Delivery)
    (hphase : ∀ ev, s.loop.phase = .delivering ev → loop.phase = .delivering ev) : Inv { s with loop := loop } := by
  refine ⟨h.quiet, ?_, ?_, h.remaining, h.balanced, h.finished, h.called, h.ordered⟩
  · intro hne
    obtain ⟨ev, hev⟩ := h.delivering hne
    exact ⟨ev, hphase ev hev⟩
  · intro t ht
    exact ⟨(h.own t ht).1, hphase _ (h.own t ht).2⟩

theorem Inv.delivered (h : Inv s) {event : ChangefeedEvent} (htasks : s.tasks = []) (hbusy : s.busy = []) :
    Inv (s.delivered event) := by
  have hcalling : s.calling = [] := by
    have := hbusy
    simp only [busy, List.append_eq_nil_iff] at this
    exact this.1.1
  refine ⟨fun _ => ⟨htasks, hbusy⟩, ?_, ?_, ?_, ?_, ?_, ?_, ?_⟩
  · simp [FanOut.delivered]
  · intro t ht
    have hmem : t ∈ s.tasks ++ s.busy := ht
    simp [htasks, hbusy] at hmem
  · simp [FanOut.delivered]
  · intro t
    simpa [FanOut.delivered, List.count_append] using h.balanced t
  · intro k
    have hk := h.finished k
    simp only [FanOut.delivered, List.mem_append, List.mem_singleton, Entry.finished.injEq]
    constructor
    · rintro ⟨ev, hev | ⟨rfl, -⟩⟩
      · have := hk.1 ⟨ev, hev⟩
        omega
      · omega
    · intro hlt
      by_cases he : k = s.rounds
      · exact ⟨event, Or.inr ⟨he, rfl⟩⟩
      · obtain ⟨ev, hev⟩ := hk.2 (by omega)
        exact ⟨ev, Or.inl hev⟩
  · intro t ht
    simp only [FanOut.delivered, List.mem_append, List.mem_singleton, reduceCtorEq, or_false] at ht
    have := h.called t ht
    simp only [FanOut.delivered]
    omega
  · exact h.ordered.snoc trivial

theorem stays_delivering {d d' : Delivery} {l : Delivery.Label} {ev : ChangefeedEvent} (hl : l ≠ .deliver)
    (hstep : d.step maxLag l = some d') (hphase : d.phase = .delivering ev) : d'.phase = .delivering ev := by
  have hnotified : d.notified.phase = d.phase := by
    rcases Delivery.notified_phase d with ⟨hasleep, -⟩ | ⟨-, hsame⟩
    · rw [hphase] at hasleep
      cases hasleep
    · exact hsame
  cases l with
  | deliver => exact absurd rfl hl
  | push ev now =>
    simp only [Delivery.step] at hstep
    split at hstep
    · cases hstep
    · cases hstep
      exact hphase
  | notify =>
    simp only [Delivery.step] at hstep
    split at hstep
    · cases hstep
      exact hnotified.trans hphase
    · cases hstep
  | wake =>
    cases hstep
    exact hnotified.trans hphase
  | start =>
    simp only [Delivery.step, hphase] at hstep
    split at hstep
    · cases hstep
      exact hphase
    · cases hstep
  | stop =>
    cases hstep
    exact hphase

/-- What goes on outside `DeliverEvent` is a step of `Delivery`, and leaves a delivery alone. -/
theorem step_other {l : Delivery.Label} (hstep : s.step order threads maxLag (.other l) = some s') :
    ∃ loop, s.loop.step maxLag l = some loop ∧ s' = { s with loop := loop } ∧
      ∀ ev, s.loop.phase = .delivering ev → l ≠ .deliver ∧ loop.phase = .delivering ev := by
  simp only [step] at hstep
  split at hstep
  · cases hstep
  · rename_i hne
    obtain ⟨loop, hloop, rfl⟩ := Option.map_eq_some_iff.1 hstep
    refine ⟨loop, hloop, rfl, fun ev hev => ?_⟩
    have hl := fun hl => hne ev hl hev
    exact ⟨hl, stays_delivering hl hloop hev⟩

theorem mem_targets {t : Task} {event : ChangefeedEvent} (h : t ∈ s.targets order event) :
    t.round = s.rounds ∧ t.event = event := by
  simp only [targets, List.mem_filterMap] at h
  obtain ⟨⟨id, sub⟩, -, ht⟩ := h
  split at ht
  · obtain ⟨callback, -, rfl⟩ := Option.map_eq_some_iff.1 ht
    exact ⟨rfl, rfl⟩
  · cases ht

/-- Phase 1 has tasks to do. -/
theorem Inv.chosen (h : Inv s) {event : ChangefeedEvent} (hphase : s.loop.phase = .delivering event)
    (hidle : s.phase2 = .idle) (mode : Phase2) (hmode : mode ≠ .idle) :
    Inv { s with phase2 := mode, tasks := s.targets order event,
                 remaining := if mode = .pool then (s.targets order event).length else s.remaining } := by
  obtain ⟨htasks, hbusy⟩ := h.quiet hidle
  refine ⟨fun he => absurd he hmode, fun _ => ⟨event, hphase⟩, ?_, ?_, h.balanced, h.finished, ?_, h.ordered⟩
  · intro t ht
    rcases List.mem_append.1 ht with ht | ht
    · obtain ⟨hr, he⟩ := mem_targets ht
      exact ⟨hr, by rw [he]; exact hphase⟩
    · have hmem : t ∈ s.busy := ht
      rw [hbusy] at hmem
      cases hmem
  · intro hpool
    have hlen : s.busy.length = 0 := by simp [hbusy]
    simp only at hpool
    simp only [hpool, if_true]
    show _ = _ + s.busy.length
    omega
  · intro t ht
    rcases h.called t ht with hlt | ⟨-, hne⟩
    · exact Or.inl hlt
    · exact absurd hidle hne

theorem Inv.take (h : Inv s) {t : Task} {tasks : List Task} (htasks : s.tasks = t :: tasks) :
    Inv { s with tasks := tasks, calling := s.calling ++ [t], log := s.log ++ [.called t] } := by
  obtain ⟨hround, hphase⟩ := h.own t (by simp [htasks])
  have hne : s.phase2 ≠ .idle := by
    intro hidle
    rw [(h.quiet hidle).1] at htasks
    cases htasks
  refine ⟨fun he => absurd he hne, h.delivering, ?_, ?_, ?_, ?_, ?_, ?_⟩
  · intro u hu
    apply h.own u
    simp only [htasks, busy, List.mem_append, List.mem_cons, List.not_mem_nil, or_false] at hu ⊢
    tauto
  · intro hpool
    have := h.remaining hpool
    simp only [htasks, busy, List.length_cons, List.length_append, List.length_nil] at this ⊢
    omega
  · intro u
    have := h.balanced u
    simp only [List.count_append, List.count_singleton, beq_iff_eq, Entry.called.injEq, reduceCtorEq, if_false]
    split <;> simp_all; omega
  · intro k
    simpa using h.finished k
  · intro u hu
    simp only [List.mem_append, List.mem_singleton, Entry.called.injEq] at hu
    rcases hu with hu | rfl
    · exact h.called u hu
    · exact Or.inr ⟨hround, hne⟩
  · refine h.ordered.snoc ⟨?_, ?_⟩
    · intro k hk
      rw [hround] at hk
      exact (h.finished k).2 hk
    · -- a call that has not ended is for this event
      intro u hu
      have hnot : s.calling.count u = 0 := by
        rw [List.count_eq_zero]
        intro hmem
        have := (h.own u (by simp [busy, hmem])).1
        omega
      rw [h.balanced u, hnot, Nat.add_zero]

/-- A task goes from one place to the next. -/
theorem Inv.move (h : Inv s) {calling returned counting : List Task} {subscriptions : StrMap Subscription} {log : List Entry}
    (hperm : (calling ++ returned ++ counting).Perm s.busy) (hlog : log = s.log ∨ ∃ t, log = s.log ++ [.ended t])
    (hbalanced : ∀ t, log.count (.called t) = log.count (.ended t) + calling.count t) :
    Inv { s with calling := calling, returned := returned, counting := counting, subscriptions := subscriptions, log := log } := by
  have hcalled : ∀ u, .called u ∈ log → .called u ∈ s.log := by
    rintro u hu
    rcases hlog with rfl | ⟨t, rfl⟩
    · exact hu
    · simpa using hu
  have hfinished : ∀ k ev, .finished k ev ∈ log ↔ .finished k ev ∈ s.log := by
    intro k ev
    rcases hlog with rfl | ⟨t, rfl⟩ <;> simp
  refine ⟨?_, h.delivering, ?_, ?_, hbalanced, ?_, fun u hu => h.called u (hcalled u hu), ?_⟩
  · intro hidle
    obtain ⟨htasks, hbusy⟩ := h.quiet hidle
    rw [hbusy] at hperm
    exact ⟨htasks, hperm.eq_nil⟩
  · intro u hu
    apply h.own u
    have hmem := hperm.mem_iff (a := u)
    simp only [busy, List.mem_append] at hu hmem ⊢
    tauto
  · intro hpool
    exact (h.remaining hpool).trans (congrArg (s.tasks.length + ·) hperm.length_eq.symm)
  · intro k
    simp only [hfinished]
    exact h.finished k
  · rcases hlog with rfl | ⟨t, rfl⟩
    · exact h.ordered
    · exact h.ordered.snoc trivial

theorem Inv.ends (h : Inv s) {t : Task} (ht : t ∈ s.calling) (threw : Bool) :
    Inv { s with
      calling := s.calling.erase t
      returned := if threw then s.returned else s.returned ++ [t]
      counting := if threw then s.counting ++ [t] else s.counting
      log := s.log ++ [.ended t] } := by
  refine h.move ?_ (Or.inr ⟨t, rfl⟩) ?_
  · have hperm := (List.perm_cons_erase ht).symm
    refine List.Perm.trans ?_ ((hperm.append_right s.returned).append_right s.counting)
    rw [List.perm_iff_count]
    intro u
    cases threw with
    | true | false =>
      simp only [List.count_append, List.count_cons, if_true, Bool.false_eq_true, if_false, List.count_nil]
      omega
  · intro u
    have hbal := h.balanced u
    have hpos : 0 < s.calling.count t := List.count_pos_iff.2 ht
    simp only [List.count_append, List.count_singleton, List.count_erase, beq_iff_eq, Entry.ended.injEq, reduceCtorEq, if_false]
    by_cases hu : t = u
    · subst hu
      simp
      omega
    · simp [hu]
      omega

theorem Inv.note (h : Inv s) {t : Task} (ht : t ∈ s.returned) (subscriptions : StrMap Subscription) :
    Inv { s with returned := s.returned.erase t, counting := s.counting ++ [t], subscriptions := subscriptions } := by
  refine h.move ?_ (Or.inl rfl) h.balanced
  have hperm := (List.perm_cons_erase ht).symm
  refine List.Perm.trans ?_ ((hperm.append_left s.calling).append_right s.counting)
  rw [List.perm_iff_count]
  intro u
  simp only [List.count_append, List.count_cons, List.count_nil]
  omega

theorem Inv.count (h : Inv s) {t : Task} (ht : t ∈ s.counting) :
    Inv { s with
      counting := s.counting.erase t
      remaining := if s.phase2 = .pool then s.remaining - 1 else s.remaining } := by
  have hlen : (s.counting.erase t).length + 1 = s.counting.length := by
    have hpos := List.length_pos_of_mem ht
    rw [List.length_erase_of_mem ht]
    omega
  refine ⟨?_, h.delivering, ?_, ?_, h.balanced, h.finished, h.called, h.ordered⟩
  · intro hidle
    obtain ⟨-, hbusy⟩ := h.quiet hidle
    simp only [busy, List.append_eq_nil_iff] at hbusy
    rw [hbusy.2] at ht
    cases ht
  · intro u hu
    apply h.own u
    simp only [busy, List.mem_append] at hu ⊢
    rcases hu with hu | hu | hu
    · exact Or.inl hu
    · exact Or.inr (Or.inl hu)
    · exact Or.inr (Or.inr (List.mem_of_mem_erase hu))
  · intro hpool
    have := h.remaining hpool
    simp only at hpool
    simp only [hpool, if_true, busy, List.length_append] at this ⊢
    omega

theorem Inv.step (h : Inv s) (hstep : s.step order threads maxLag l = some s') : Inv s' := by
  cases l with
  | other l =>
    obtain ⟨loop, -, rfl, hphase⟩ := step_other hstep
    exact h.loop loop fun ev hev => (hphase ev hev).2
  | choose =>
    simp only [FanOut.step] at hstep
    split at hstep
    · rename_i event hphase hidle
      obtain ⟨htasks, hbusy⟩ := h.quiet hidle
      split at hstep
      · cases hstep
        exact h.delivered htasks hbusy
      · split at hstep
        · cases hstep
          rw [htasks, List.nil_append]
          exact h.chosen hphase hidle .pool (by simp)
        · cases hstep
          exact h.chosen hphase hidle .inline (by simp)
    · cases hstep
  | take =>
    simp only [FanOut.step] at hstep
    split at hstep
    · cases hstep
    · rename_i t tasks htasks
      split at hstep
      · cases hstep
        exact h.take htasks
      · cases hstep
  | ends t threw =>
    simp only [FanOut.step] at hstep
    split at hstep
    · rename_i ht
      cases hstep
      exact h.ends (by simpa using ht) threw
    · cases hstep
  | note t =>
    simp only [FanOut.step] at hstep
    split at hstep
    · rename_i ht
      cases hstep
      exact h.note (by simpa using ht) _
    · cases hstep
  | count t =>
    simp only [FanOut.step] at hstep
    split at hstep
    · rename_i ht
      cases hstep
      exact h.count (by simpa using ht)
    · cases hstep
  | finish =>
    simp only [FanOut.step] at hstep
    split at hstep
    · split at hstep
      · rename_i hdone
        cases hstep
        exact h.delivered hdone.1 hdone.2
      · cases hstep
    · rename_i hpool
      split at hstep
      · rename_i hzero
        cases hstep
        have hlen := h.remaining hpool
        rw [hzero] at hlen
        exact h.delivered (List.length_eq_zero_iff.1 (by omega)) (List.length_eq_zero_iff.1 (by omega))
      · cases hstep
    · cases hstep
  | createSubscription tablePattern startOffset =>
    cases hstep
    exact ⟨h.1, h.2, h.3, h.4, h.5, h.6, h.7, h.8⟩
  | deleteSubscription id =>
    simp only [FanOut.step] at hstep
    split at hstep
    · cases hstep
      exact h
    · cases hstep
      exact ⟨h.1, h.2, h.3, h.4, h.5, h.6, h.7, h.8⟩
  | subscribe id callback =>
    cases hstep
    have hwoken : Inv { s with loop := s.loop.notified } :=
      h.loop s.loop.notified fun ev hev => stays_delivering (l := .wake) (by simp) (rfl : s.loop.step maxLag .wake = some s.loop.notified) hev
    exact ⟨hwoken.1, hwoken.2, hwoken.3, hwoken.4, hwoken.5, hwoken.6, hwoken.7, hwoken.8⟩
  | unsubscribe id =>
    cases hstep
    exact ⟨h.1, h.2, h.3, h.4, h.5, h.6, h.7, h.8⟩

end

/-! ## Offsets -/

def finishedEvent (n : Nat) : Entry → Option ChangefeedEvent
  | .finished k event => if n ≤ k then some event else none
  | _ => none

/-- The events from round `n` on that have been delivered, in the order they were. -/
def finishedFrom (n : Nat) (log : List Entry) : List ChangefeedEvent := log.filterMap (finishedEvent n)

/-- The events that are published and not yet delivered: the one in delivery, and those that wait. -/
def pending (d : Delivery) : List ChangefeedEvent :=
  match d.phase with
  | .delivering event => event :: d.feed.events
  | _ => d.feed.events

/-- Every event that was published. -/
def events (s : FanOut) : List ChangefeedEvent := finishedFrom 0 s.log ++ pending s.loop

def Label.publishes : Label → Bool
  | .other (.push _ _) => true
  | _ => false

/-- Events are numbered in the order they are published. -/
structure Numbered (s : FanOut) : Prop where
  next : s.loop.feed.nextOffset = 1 + UInt64.ofNat s.events.length
  offset : ∀ (i : Nat) (ev : ChangefeedEvent), s.events[i]? = some ev → ev.offset = 1 + UInt64.ofNat i

section
variable {order : HashOrder} {threads maxLag : Nat} {s s' : FanOut} {l : Label}

theorem pending_of_phase {d : Delivery} (h : ∀ ev, d.phase ≠ .delivering ev) : pending d = d.feed.events := by
  unfold pending
  split
  · rename_i ev hphase
    exact absurd hphase (h ev)
  · rfl

theorem pending_notified (d : Delivery) : pending d.notified = pending d := by
  rcases Delivery.notified_phase d with ⟨hasleep, hwoken⟩ | ⟨-, hsame⟩
  · simp [pending, hasleep, hwoken]
  · simp [pending, hsame]

theorem pending_advance {d d' : Delivery} (hphase : ∀ ev, d.phase ≠ .delivering ev) (hstep : d.advance = some d') :
    pending d' = pending d ∧ d'.feed.nextOffset = d.feed.nextOffset := by
  rw [pending_of_phase hphase]
  unfold Delivery.advance at hstep
  cases hp : d.phase with
  | delivering ev => exact absurd hp (hphase ev)
  | popping =>
    simp only [hp] at hstep
    split at hstep
    · cases hstep
    · split at hstep
      · rename_i hnil
        cases hstep
        simp [pending, hnil]
      · rename_i ev rest hcons
        cases hstep
        simp [pending, hcons]
  | asleep | ended =>
    simp only [hp] at hstep
    cases hstep
  | outside | testing | peeking | turningIn | woken | awake | draining | due =>
    simp only [hp, Option.some.injEq] at hstep
    subst hstep
    refine ⟨pending_of_phase ?_, rfl⟩
    intro ev
    simp only [Delivery.goTo_phase]
    try split
    all_goals simp

/-- An event is published, or none comes or goes. -/
theorem pending_step {d d' : Delivery} {l : Delivery.Label} (hdeliver : l = .deliver → ∀ ev, d.phase ≠ .delivering ev)
    (hstep : d.step maxLag l = some d') :
    (∃ ev, ev.offset = d.feed.nextOffset ∧ pending d' = pending d ++ [ev] ∧
      d'.feed.nextOffset = d.feed.nextOffset + 1 ∧ Label.publishes (.other l) = true) ∨
    (pending d' = pending d ∧ d'.feed.nextOffset = d.feed.nextOffset ∧ Label.publishes (.other l) = false) := by
  cases l with
  | push ev now =>
    simp only [Delivery.step] at hstep
    split at hstep
    · cases hstep
    · cases hstep
      refine Or.inl ⟨{ ev with offset := d.feed.nextOffset, timestamp := now }, rfl, ?_, rfl, rfl⟩
      cases hphase : d.phase <;> simp [pending, hphase, Feed.publishEvent]
  | notify =>
    simp only [Delivery.step] at hstep
    split at hstep
    · cases hstep
      exact Or.inr ⟨pending_notified d, by simp, rfl⟩
    · cases hstep
  | deliver =>
    obtain ⟨hp, hnext⟩ := pending_advance (hdeliver rfl) hstep
    exact Or.inr ⟨hp, hnext, rfl⟩
  | wake =>
    cases hstep
    exact Or.inr ⟨pending_notified d, by simp, rfl⟩
  | start =>
    simp only [Delivery.step] at hstep
    split at hstep
    · cases hstep
      exact Or.inr ⟨rfl, rfl, rfl⟩
    · split at hstep
      · rename_i hended
        cases hstep
        exact Or.inr ⟨by simp [pending, hended], rfl, rfl⟩
      · cases hstep
  | stop =>
    cases hstep
    exact Or.inr ⟨rfl, rfl, rfl⟩

theorem events_delivered {event : ChangefeedEvent} (hphase : s.loop.phase = .delivering event) :
    (s.delivered event).events = s.events := by
  simp [events, FanOut.delivered, pending, hphase, finishedFrom, finishedEvent]

theorem events_step (hstep : s.step order threads maxLag l = some s') :
    (∃ ev, ev.offset = s.loop.feed.nextOffset ∧ s'.events = s.events ++ [ev] ∧
      s'.loop.feed.nextOffset = s.loop.feed.nextOffset + 1 ∧ l.publishes = true) ∨
    (s'.events = s.events ∧ s'.loop.feed.nextOffset = s.loop.feed.nextOffset ∧ l.publishes = false) := by
  cases l with
  | other l =>
    obtain ⟨loop, hloop, rfl, hphase⟩ := step_other hstep
    rcases pending_step (fun hl ev hev => (hphase ev hev).1 hl) hloop with ⟨ev, hoffset, hp, hnext, hl⟩ | ⟨hp, hnext, hl⟩
    · exact Or.inl ⟨ev, hoffset, by simp [events, hp], hnext, hl⟩
    · exact Or.inr ⟨by simp [events, hp], hnext, hl⟩
  | choose =>
    simp only [FanOut.step] at hstep
    split at hstep
    · rename_i event hphase hidle
      split at hstep
      · cases hstep
        exact Or.inr ⟨events_delivered hphase, rfl, rfl⟩
      · split at hstep
        · cases hstep
          exact Or.inr ⟨rfl, rfl, rfl⟩
        · cases hstep
          exact Or.inr ⟨rfl, rfl, rfl⟩
    · cases hstep
  | finish =>
    simp only [FanOut.step] at hstep
    split at hstep
    · rename_i hphase _
      split at hstep
      · cases hstep
        exact Or.inr ⟨events_delivered hphase, rfl, rfl⟩
      · cases hstep
    · rename_i hphase _
      split at hstep
      · cases hstep
        exact Or.inr ⟨events_delivered hphase, rfl, rfl⟩
      · cases hstep
    · cases hstep
  | subscribe id callback =>
    cases hstep
    exact Or.inr ⟨by simp [events, pending_notified], by simp, rfl⟩
  | take | ends t threw =>
    simp only [FanOut.step] at hstep
    repeat' split at hstep
    all_goals first
      | (cases hstep; done)
      | (cases hstep; exact Or.inr ⟨by simp [events, finishedFrom, finishedEvent], rfl, rfl⟩)
  | _ =>
    simp only [FanOut.step] at hstep
    repeat' split at hstep
    all_goals first
      | (cases hstep; done)
      | (cases hstep; exact Or.inr ⟨rfl, rfl, rfl⟩)

theorem Numbered.boot : Numbered {} where
  next := rfl
  offset := by simp [events, finishedFrom, pending]

theorem Numbered.step (h : Numbered s) (hstep : s.step order threads maxLag l = some s') : Numbered s' := by
  rcases events_step hstep with ⟨ev, hoffset, hevents, hnext, -⟩ | ⟨hevents, hnext, -⟩
  · refine ⟨?_, ?_⟩
    · rw [hnext, h.next, hevents, List.length_append, UInt64.ofNat_add, UInt64.add_assoc]
      rfl
    · intro i x hx
      rw [hevents, List.getElem?_append] at hx
      split at hx
      · exact h.offset i x hx
      · rename_i hge
        obtain ⟨hi, hx⟩ := List.getElem?_eq_some_iff.1 hx
        simp only [List.length_cons, List.length_nil] at hi
        obtain rfl : i = s.events.length := by omega
        simp only [Nat.sub_self, List.getElem_cons_zero] at hx
        rw [← hx, hoffset, h.next]
  · refine ⟨?_, ?_⟩
    · rw [hnext, hevents]
      exact h.next
    · rw [hevents]
      exact h.offset

theorem length_events_run {ls : List Label} {s : FanOut} (hrun : run (FanOut.step order threads maxLag) s ls = some s') :
    s'.events.length = s.events.length + ls.countP Label.publishes := by
  induction ls generalizing s with
  | nil =>
    cases hrun
    simp
  | cons l ls ih =>
    simp only [run] at hrun
    cases hs : s.step order threads maxLag l with
    | none => simp [hs] at hrun
    | some u =>
      simp only [hs] at hrun
      rw [ih hrun, List.countP_cons]
      rcases events_step hs with ⟨ev, -, hevents, -, hl⟩ | ⟨hevents, -, hl⟩
      · simp [hevents, hl]
        omega
      · simp [hevents, hl]

/-- Until the numbers are used up, they grow. -/
theorem Numbered.increasing (h : Numbered s) (hfew : s.events.length < 2 ^ 64) :
    s.events.Pairwise fun a b => a.offset < b.offset := by
  rw [List.pairwise_iff_getElem]
  intro i j hi hj hij
  have hoffset : ∀ k (hk : k < s.events.length), (s.events[k]).offset.toNat = k + 1 := by
    intro k hk
    have hnat : (UInt64.ofNat k).toNat = k := UInt64.toNat_ofNat_of_lt' (show k < 2 ^ 64 by omega)
    rw [h.offset k _ (List.getElem?_eq_getElem hk), UInt64.toNat_add, hnat]
    show (1 + k) % 2 ^ 64 = k + 1
    omega
  rw [UInt64.lt_iff_toNat_lt, hoffset i hi, hoffset j hj]
  omega

end

end FanOut

end OriginDB
