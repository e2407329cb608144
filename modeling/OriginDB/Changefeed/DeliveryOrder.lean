import OriginDB.Changefeed.FanOut
/-!
# Exactly once and in order

What a subscription is called for, in every run of publishers, delivery thread, workers and other subscriptions
(`changefeed_engine.cpp:382-471`). The one thing that ends is the numbers: `next_offset_` starts over after 2^64 events
(`offset_starts_over`).
-/
namespace OriginDB

open JsonDoc ByteCodec Machine

namespace FanOut

/-! ## One subscription -/

def calledTask (id : Bytes) (n : Nat) : Entry → Option Task
  | .called t => if t.id = id ∧ n ≤ t.round then some t else none
  | _ => none

/-- The calls for a subscription, for events from round `n` on. -/
def callsFrom (id : Bytes) (n : Nat) (log : List Entry) : List Task := log.filterMap (calledTask id n)

/-- The round of the next event whose targets are not chosen yet. -/
def undecided (s : FanOut) : Nat := if s.phase2 = .idle then s.rounds else s.rounds + 1

/-- The event whose calls are being made. -/
def due (n : Nat) (s : FanOut) : List ChangefeedEvent :=
  if s.phase2 = .idle then []
  else match s.loop.phase with
    | .delivering event => if n ≤ s.rounds then [event] else []
    | _ => []

/-- From round `n` on the subscription has its filter and its callback. It has been called for the matching events that
are finished, and has been or will be for the one whose calls are being made. -/
structure Served (id tablePattern : Bytes) (callback n : Nat) (s : FanOut) : Prop where
  subscribed : ∃ sub, s.subscriptions[id]? = some sub ∧ sub.isActive = true ∧ sub.tablePattern = tablePattern
  registered : s.callbacks[id]? = some callback
  from_next : n ≤ s.undecided
  calls : ∃ past now, callsFrom id n s.log = past ++ now ∧
    past.map (fun t => (t.callback, t.event)) =
      ((finishedFrom n s.log).filter (matchesFilter tablePattern)).map (fun event => (callback, event)) ∧
    (now ++ s.tasks.filter fun t => t.id = id ∧ n ≤ t.round).map (fun t => (t.callback, t.event)) =
      ((s.due n).filter (matchesFilter tablePattern)).map fun event => (callback, event)

section
variable {order : HashOrder} {threads maxLag : Nat} {s s' : FanOut} {l : Label} {id tablePattern : Bytes} {callback n : Nat}

/-- The subscription is one of the targets exactly when it matches. -/
theorem Served.targets (order : HashOrder) (h : Served id tablePattern callback n s) (hidle : s.phase2 = .idle) (event : ChangefeedEvent) :
    ((s.targets order event).filter fun t => t.id = id ∧ n ≤ t.round).map (fun t => (t.callback, t.event)) =
      ([event].filter (matchesFilter tablePattern)).map fun event => (callback, event) := by
  obtain ⟨sub, hsub, hactive, rfl⟩ := h.subscribed
  have hn : n ≤ s.rounds := by simpa [undecided, hidle] using h.from_next
  rw [FanOut.targets, List.filter_filterMap, OrdMap.filterMap_one (order.perm _) hsub]
  · by_cases hm : matchesFilter sub.tablePattern event = true
    · simp [hactive, hm, h.registered, Option.filter, hn]
    · simp [hactive, hm]
  · rintro ⟨id', sub'⟩ hne
    simp only at hne
    simp only
    split
    · cases s.callbacks[id']? with
      | none => rfl
      | some callback' => simp [Option.filter, hne]
    · rfl

theorem Served.loop (h : Served id tablePattern callback n s) (hinv : Inv s) (loop : Delivery)
    (hphase : ∀ ev, s.loop.phase = .delivering ev → loop.phase = .delivering ev) :
    Served id tablePattern callback n { s with loop := loop } := by
  have hdue : due n { s with loop := loop } = s.due n := by
    by_cases hidle : s.phase2 = .idle
    · simp [due, hidle]
    · obtain ⟨ev, hev⟩ := hinv.delivering hidle
      simp [due, hidle, hev, hphase ev hev]
  refine ⟨h.subscribed, h.registered, h.from_next, ?_⟩
  rw [hdue]
  exact h.calls

/-- The event is finished when there is nothing left to do for it. -/
theorem Served.delivered (h : Served id tablePattern callback n s) {event : ChangefeedEvent} (htasks : s.tasks = [])
    (hdue : (s.due n).filter (matchesFilter tablePattern) =
      (if n ≤ s.rounds then [event] else []).filter (matchesFilter tablePattern)) :
    Served id tablePattern callback n (s.delivered event) := by
  have hnext := h.from_next
  refine ⟨h.subscribed, h.registered, ?_, ?_⟩
  · simp only [undecided, FanOut.delivered] at hnext ⊢
    split at hnext <;> simp <;> omega
  · obtain ⟨past, now, hcalled, hpast, hnow⟩ := h.calls
    rw [hdue, htasks, List.filter_nil, List.append_nil] at hnow
    have hdone : finishedFrom n (s.log ++ [.finished s.rounds event]) =
        finishedFrom n s.log ++ if n ≤ s.rounds then [event] else [] := by
      by_cases hn : n ≤ s.rounds <;> simp [finishedFrom, finishedEvent, hn]
    have hlog : callsFrom id n (s.log ++ [.finished s.rounds event]) = callsFrom id n s.log := by
      simp [callsFrom, calledTask]
    refine ⟨past ++ now, [], ?_, ?_, ?_⟩
    · rw [List.append_nil, ← hcalled]
      exact hlog
    · show _ = ((finishedFrom n (s.log ++ [.finished s.rounds event])).filter _).map _
      rw [hdone, List.filter_append, List.map_append, List.map_append, hpast, hnow]
    · simp [FanOut.delivered, htasks, due]

/-- The targets of the event are chosen. -/
theorem Served.chosen (h : Served id tablePattern callback n s) {event : ChangefeedEvent}
    (hphase : s.loop.phase = .delivering event) (hidle : s.phase2 = .idle) (mode : Phase2) (hmode : mode ≠ .idle)
    (remaining : Nat) :
    Served id tablePattern callback n { s with phase2 := mode, tasks := s.targets order event, remaining := remaining } := by
  have hn : n ≤ s.rounds := by simpa [undecided, hidle] using h.from_next
  refine ⟨h.subscribed, h.registered, ?_, ?_⟩
  · simp only [undecided, hmode, if_false]
    omega
  · obtain ⟨past, now, hcalled, hpast, hnow⟩ := h.calls
    have hnone : now = [] := by
      simp only [due, hidle, if_true, List.filter_nil, List.map_nil, List.map_eq_nil_iff, List.append_eq_nil_iff] at hnow
      exact hnow.1
    have hdue : due n { s with phase2 := mode, tasks := s.targets order event, remaining := remaining } = [event] := by
      simp [due, hmode, hphase, hn]
    refine ⟨past, [], by rw [← hnone]; exact hcalled, hpast, ?_⟩
    rw [hdue, List.nil_append]
    exact h.targets order hidle event

theorem Served.take (h : Served id tablePattern callback n s) {t : Task} {tasks : List Task} (htasks : s.tasks = t :: tasks) :
    Served id tablePattern callback n { s with tasks := tasks, calling := s.calling ++ [t], log := s.log ++ [.called t] } := by
  refine ⟨h.subscribed, h.registered, h.from_next, ?_⟩
  obtain ⟨past, now, hcalled, hpast, hnow⟩ := h.calls
  have hfinished : finishedFrom n (s.log ++ [.called t]) = finishedFrom n s.log := by
    simp [finishedFrom, finishedEvent]
  by_cases ht : t.id = id ∧ n ≤ t.round
  · refine ⟨past, now ++ [t], ?_, ?_, ?_⟩
    · rw [← List.append_assoc, ← hcalled]
      simp [callsFrom, calledTask, ht]
    · rw [hfinished]
      exact hpast
    · rw [htasks, List.filter_cons_of_pos (by simpa using ht)] at hnow
      rw [List.append_assoc]
      exact hnow
  · refine ⟨past, now, ?_, ?_, ?_⟩
    · rw [← hcalled]
      simp [callsFrom, calledTask, ht]
    · rw [hfinished]
      exact hpast
    · rw [htasks, List.filter_cons_of_neg (by simpa using ht)] at hnow
      exact hnow

/-- A task goes from one place to the next. -/
theorem Served.move (h : Served id tablePattern callback n s) {calling returned counting : List Task} {log : List Entry}
    {subscriptions : StrMap Subscription} {remaining : Nat} (hlog : log = s.log ∨ ∃ t, log = s.log ++ [.ended t])
    (hsubs : ∀ sub, s.subscriptions[id]? = some sub → ∃ offset, subscriptions[id]? = some { sub with currentOffset := offset }) :
    Served id tablePattern callback n { s with
      calling := calling, returned := returned, counting := counting, log := log
      subscriptions := subscriptions, remaining := remaining } := by
  obtain ⟨sub, hsub, hactive, hpattern⟩ := h.subscribed
  obtain ⟨offset, hsub'⟩ := hsubs sub hsub
  refine ⟨⟨_, hsub', hactive, hpattern⟩, h.registered, h.from_next, ?_⟩
  rcases hlog with rfl | ⟨t, rfl⟩
  · exact h.calls
  · have hfinished : finishedFrom n (s.log ++ [.ended t]) = finishedFrom n s.log := by
      simp [finishedFrom, finishedEvent]
    have hcalled : callsFrom id n (s.log ++ [.ended t]) = callsFrom id n s.log := by
      simp [callsFrom, calledTask]
    simp only [hfinished, hcalled]
    exact h.calls

theorem Served.step (h : Served id tablePattern callback n s) (hinv : Inv s) (hfixed : s.Fixed id l)
    (hstep : s.step order threads maxLag l = some s') : Served id tablePattern callback n s' := by
  have hsame : ∀ sub, s.subscriptions[id]? = some sub →
      ∃ offset, s.subscriptions[id]? = some { sub with currentOffset := offset } := fun sub hsub => ⟨sub.currentOffset, hsub⟩
  cases l with
  | other l =>
    obtain ⟨loop, -, rfl, hphase⟩ := step_other hstep
    exact h.loop hinv loop fun ev hev => (hphase ev hev).2
  | choose =>
    simp only [FanOut.step] at hstep
    split at hstep
    · rename_i event hphase hidle
      obtain ⟨htasks, -⟩ := hinv.quiet hidle
      split at hstep
      · rename_i hnone
        cases hstep
        have htargets := h.targets order hidle event
        have hn : n ≤ s.rounds := by simpa [undecided, hidle] using h.from_next
        rw [hnone] at htargets
        have hnot : matchesFilter tablePattern event = false := by simpa using htargets.symm
        exact h.delivered htasks (by simp [due, hidle, hn, hnot])
      · split at hstep
        · cases hstep
          rw [htasks, List.nil_append]
          exact h.chosen hphase hidle .pool (by simp) _
        · cases hstep
          exact h.chosen hphase hidle .inline (by simp) _
    · cases hstep
  | take =>
    simp only [FanOut.step] at hstep
    split at hstep
    · cases hstep
    · rename_i t tasks htasks
      split at hstep
      · cases hstep
        exact h.take htasks
      · cases hstep
  | ends t threw =>
    simp only [FanOut.step] at hstep
    split at hstep
    · cases hstep
      exact h.move (Or.inr ⟨t, rfl⟩) hsame
    · cases hstep
  | note t =>
    simp only [FanOut.step] at hstep
    split at hstep
    · cases hstep
      refine h.move (Or.inl rfl) fun sub hsub => ?_
      split
      · exact ⟨sub.currentOffset, hsub⟩
      · rename_i found hfound
        rw [OrdMap.getElem?_insert]
        split
        · rename_i hid
          rw [hid, hsub] at hfound
          cases hfound
          exact ⟨_, rfl⟩
        · exact ⟨sub.currentOffset, hsub⟩
    · cases hstep
  | count t =>
    simp only [FanOut.step] at hstep
    split at hstep
    · cases hstep
      exact h.move (Or.inl rfl) hsame
    · cases hstep
  | finish =>
    simp only [FanOut.step] at hstep
    split at hstep
    · rename_i hphase hmode
      split at hstep
      · rename_i hdone
        cases hstep
        exact h.delivered hdone.1 (by simp [due, hmode, hphase])
      · cases hstep
    · rename_i hphase hmode
      split at hstep
      · rename_i hzero
        cases hstep
        have hlen := hinv.remaining hmode
        rw [hzero] at hlen
        exact h.delivered (List.length_eq_zero_iff.1 (by omega)) (by simp [due, hmode, hphase])
      · cases hstep
    · cases hstep
  | createSubscription tablePattern startOffset =>
    cases hstep
    obtain ⟨sub, hsub, hsub'⟩ := h.subscribed
    refine ⟨⟨sub, ?_, hsub'⟩, h.registered, h.from_next, h.calls⟩
    rw [OrdMap.getElem?_insert, if_neg hfixed]
    exact hsub
  | deleteSubscription id' =>
    simp only [FanOut.step] at hstep
    split at hstep
    · cases hstep
      exact h
    · cases hstep
      obtain ⟨sub, hsub, hsub'⟩ := h.subscribed
      refine ⟨⟨sub, ?_, hsub'⟩, ?_, h.from_next, h.calls⟩
      · rw [OrdMap.getElem?_erase, if_neg hfixed]
        exact hsub
      · rw [OrdMap.getElem?_erase, if_neg hfixed]
        exact h.registered
  | subscribe id' callback' =>
    cases hstep
    have hwoken := h.loop hinv s.loop.notified fun ev hev =>
      stays_delivering (l := .wake) (by simp) (rfl : s.loop.step maxLag .wake = some s.loop.notified) hev
    refine ⟨h.subscribed, ?_, h.from_next, hwoken.calls⟩
    rw [OrdMap.getElem?_insert, if_neg hfixed]
    exact h.registered
  | unsubscribe id' =>
    cases hstep
    refine ⟨h.subscribed, ?_, h.from_next, h.calls⟩
    rw [OrdMap.getElem?_erase, if_neg hfixed]
    exact h.registered

theorem Inv.served (h : Inv s) (hsub : ∃ sub, s.subscriptions[id]? = some sub ∧ sub.isActive = true ∧ sub.tablePattern = tablePattern)
    (hcallback : s.callbacks[id]? = some callback) : Served id tablePattern callback s.undecided s := by
  have hcalls : callsFrom id s.undecided s.log = [] := by
    refine List.filterMap_eq_nil_iff.2 fun e he => ?_
    cases e with
    | called t =>
      have := h.called t he
      simp only [calledTask, undecided]
      split <;> split <;> simp_all <;> omega
    | ended t => rfl
    | finished k ev => rfl
  have hfinished : finishedFrom s.undecided s.log = [] := by
    refine List.filterMap_eq_nil_iff.2 fun e he => ?_
    cases e with
    | finished k ev =>
      have := (h.finished k).1 ⟨ev, he⟩
      simp only [finishedEvent, undecided]
      split <;> split <;> simp_all <;> omega
    | called t => rfl
    | ended t => rfl
  have htasks : ∀ t ∈ s.tasks, t.id = id → t.round < s.undecided := by
    intro t ht _
    have hround := (h.own t (by simp [ht])).1
    have hidle : s.phase2 ≠ .idle := by
      intro hidle
      rw [(h.quiet hidle).1] at ht
      cases ht
    simp only [undecided, hidle, if_false]
    omega
  have hdue : s.due s.undecided = [] := by
    unfold due undecided
    split
    · rfl
    · split <;> simp
  exact ⟨hsub, hcallback, Nat.le_refl _, [], [], by simp [hcalls], by simp [hfinished], by simpa [hdue] using htasks⟩

/-- The calls of a subscription are for the events that are finished, and then perhaps for the one in delivery. -/
theorem Served.ahead (h : Served id tablePattern callback n s) :
    ∃ ahead, (callsFrom id n s.log).map (fun t => (t.callback, t.event)) =
        ((finishedFrom n s.log).filter (matchesFilter tablePattern) ++ ahead).map (fun event => (callback, event)) ∧
      (ahead = [] ∨ ∃ event, s.loop.phase = .delivering event ∧ ahead = [event]) := by
  obtain ⟨past, now, hcalled, hpast, hnow⟩ := h.calls
  cases now with
  | nil => exact ⟨[], by simpa [hcalled] using hpast, Or.inl rfl⟩
  | cons t now =>
    have hdue : ∃ event, s.loop.phase = .delivering event ∧ (s.due n).filter (matchesFilter tablePattern) = [event] := by
      unfold due at hnow ⊢
      split at hnow
      · simp at hnow
      · split at hnow
        · rename_i event hphase
          refine ⟨event, hphase, ?_⟩
          split at hnow
          · rename_i hidle _ hn
            by_cases hm : matchesFilter tablePattern event = true
            · simp [hidle, hn, hm]
            · simp [hm] at hnow
          · simp at hnow
        · simp at hnow
    obtain ⟨event, hphase, hevent⟩ := hdue
    rw [hevent] at hnow
    simp only [List.cons_append, List.map_cons, List.map_nil, List.cons.injEq, List.map_eq_nil_iff,
      List.append_eq_nil_iff] at hnow
    refine ⟨[event], ?_, Or.inr ⟨event, hphase, rfl⟩⟩
    rw [hcalled, hnow.2.1, List.map_append, List.map_append, hpast]
    simp [hnow.1]

theorem finishedFrom_sublist (n : Nat) (log : List Entry) : (finishedFrom n log).Sublist (finishedFrom 0 log) := by
  induction log with
  | nil => simp [finishedFrom]
  | cons e log ih =>
    simp only [finishedFrom, List.filterMap_cons] at ih ⊢
    cases e with
    | finished k event =>
      by_cases hn : n ≤ k
      · simpa [finishedEvent, hn] using ih
      · simpa [finishedEvent, hn] using ih.cons event
    | called t | ended t => simpa [finishedEvent] using ih

theorem Inv.run {ls : List Label} (h : Inv s) (hrun : Machine.run (FanOut.step order threads maxLag) s ls = some s') : Inv s' :=
  have hany : Allowed (FanOut.step order threads maxLag) (fun _ _ => True) s ls := .of_forall fun _ _ _ => trivial
  run_invariant Inv (fun _ _ _ h _ hstep => h.step hstep) h hany hrun

theorem Numbered.run {ls : List Label} (h : Numbered s) (hrun : Machine.run (FanOut.step order threads maxLag) s ls = some s') :
    Numbered s' :=
  have hany : Allowed (FanOut.step order threads maxLag) (fun _ _ => True) s ls := .of_forall fun _ _ _ => trivial
  run_invariant Numbered (fun _ _ _ h _ hstep => h.step hstep) h hany hrun

theorem Served.run {ls : List Label} (h : Served id tablePattern callback n s) (hinv : Inv s)
    (hfixed : Allowed (FanOut.step order threads maxLag) (Fixed id) s ls)
    (hrun : Machine.run (FanOut.step order threads maxLag) s ls = some s') : Served id tablePattern callback n s' := by
  have hboth := run_invariant (fun s => Inv s ∧ Served id tablePattern callback n s)
    (fun _ _ _ h hfixed hstep => ⟨h.1.step hstep, h.2.step h.1 hfixed hstep⟩) ⟨hinv, h⟩ hfixed hrun
  exact hboth.2

end

/-- **Exactly once and in order.** From the moment a subscription has its filter and its callback, and as long as nobody
touches them: it has been called once for every matching event that is delivered since, and at most for the one in
delivery beyond that, in the order of delivery; the offsets of these events grow until they are used up; and no callback
is entered before every earlier event is finished and every call for one has ended. -/
theorem delivered_once_in_order (order : HashOrder) (threads maxLag : Nat) (before ls : List Label) (s s' : FanOut)
    (id tablePattern : Bytes) (callback : Nat) (hbefore : run (step order threads maxLag) {} before = some s)
    (hsub : ∃ sub, s.subscriptions[id]? = some sub ∧ sub.isActive = true ∧ sub.tablePattern = tablePattern)
    (hcallback : s.callbacks[id]? = some callback) (hfixed : Allowed (step order threads maxLag) (Fixed id) s ls)
    (hrun : run (step order threads maxLag) s ls = some s') :
    (∃ ahead, (callsFrom id s.undecided s'.log).map (fun t => (t.callback, t.event)) =
        ((finishedFrom s.undecided s'.log).filter (matchesFilter tablePattern) ++ ahead).map (fun event => (callback, event)) ∧
      (ahead = [] ∨ ∃ event, s'.loop.phase = .delivering event ∧ ahead = [event])) ∧
    ((before ++ ls).countP Label.publishes < 2 ^ 64 →
      (callsFrom id s.undecided s'.log).Pairwise fun t u => t.event.offset < u.event.offset) ∧
    Ordered s'.log := by
  have hinv : Inv s := Inv.boot.run hbefore
  have hserved := (hinv.served hsub hcallback).run hinv hfixed hrun
  obtain ⟨ahead, hcalls, hahead⟩ := hserved.ahead
  refine ⟨⟨ahead, hcalls, hahead⟩, ?_, (hinv.run hrun).ordered⟩
  intro hfew
  have hnumbered : Numbered s' := (Numbered.boot.run hbefore).run hrun
  have hlength : s'.events.length = (before ++ ls).countP Label.publishes := by
    rw [length_events_run hrun, length_events_run hbefore, List.countP_append]
    simp [events, finishedFrom, pending]
  have hincreasing := hnumbered.increasing (by omega)
  -- the events it is called for are some of those that were published
  have hevents : (callsFrom id s.undecided s'.log).map Task.event =
      (finishedFrom s.undecided s'.log).filter (matchesFilter tablePattern) ++ ahead := by
    have hsnd := congrArg (List.map Prod.snd) hcalls
    simpa [List.map_map, Function.comp_def] using hsnd
  have hsublist : ((callsFrom id s.undecided s'.log).map Task.event).Sublist s'.events := by
    rw [hevents]
    refine ((List.filter_sublist).trans (finishedFrom_sublist _ _)).append ?_
    rcases hahead with rfl | ⟨event, hphase, rfl⟩
    · simp
    · simp [pending, hphase]
  have hpairs := hincreasing.sublist hsublist
  rw [List.pairwise_map] at hpairs
  exact hpairs

/-- Two subscriptions with callbacks, one on the table `t` and one on all. -/
def twoSubscribers : List Label :=
  [.createSubscription (str "t") 0, .subscribe (str "sub-1") 7, .createSubscription (str "*") 0, .subscribe (str "sub-2") 8]

def pingTask (round : Nat) (offset : UInt64) (id : Bytes) (callback : Nat) : Task :=
  { round := round, event := { Delivery.ping with offset := offset }, id := id, callback := callback }

/-- From `Start` to the first event's delivery. -/
def firstDelivery : List Label :=
  [.other .start, .other .deliver, .other (.push Delivery.ping 0), .other .notify] ++ List.replicate 6 (.other .deliver)

/-- Two workers call both; the callback on all tables throws. -/
def bothCalled : List Label :=
  firstDelivery ++ [.choose, .take, .take, .ends (pingTask 0 1 (str "sub-2") 8) true, .count (pingTask 0 1 (str "sub-2") 8),
    .ends (pingTask 0 1 (str "sub-1") 7) false, .note (pingTask 0 1 (str "sub-1") 7), .count (pingTask 0 1 (str "sub-1") 7), .finish]

theorem delivered_once_in_order_two : ∃ s s', run (step .sorted 2 100) {} twoSubscribers = some s ∧
    run (step .sorted 2 100) s bothCalled = some s' ∧ callsFrom (str "sub-1") s.undecided s'.log = [pingTask 0 1 (str "sub-1") 7] ∧
    (∃ ahead, (callsFrom (str "sub-1") s.undecided s'.log).map (fun t => (t.callback, t.event)) =
        ((finishedFrom s.undecided s'.log).filter (matchesFilter (str "t")) ++ ahead).map (fun event => (7, event)) ∧
      (ahead = [] ∨ ∃ event, s'.loop.phase = .delivering event ∧ ahead = [event])) ∧
    ((twoSubscribers ++ bothCalled).countP Label.publishes < 2 ^ 64 →
      (callsFrom (str "sub-1") s.undecided s'.log).Pairwise fun t u => t.event.offset < u.event.offset) ∧
    Ordered s'.log := by
  have hrun : ((run (step .sorted 2 100) {} twoSubscribers).bind fun s =>
      (run (step .sorted 2 100) s bothCalled).map fun s' =>
        (s.subscriptions[str "sub-1"]?, s.callbacks[str "sub-1"]?, decide (Allowed (step .sorted 2 100) (Fixed (str "sub-1")) s bothCalled),
          callsFrom (str "sub-1") s.undecided s'.log)) =
      some (some { tablePattern := str "t", currentOffset := 0 }, some 7, true, [pingTask 0 1 (str "sub-1") 7]) := by
    decide
  obtain ⟨s, hbefore, hrun⟩ := Option.bind_eq_some_iff.1 hrun
  obtain ⟨s', hrun, hfacts⟩ := Option.map_eq_some_iff.1 hrun
  simp only [Prod.mk.injEq, decide_eq_true_eq] at hfacts
  exact ⟨s, s', hbefore, hrun, hfacts.2.2.2, delivered_once_in_order .sorted 2 100 twoSubscribers bothCalled s s' (str "sub-1")
    (str "t") 7 hbefore ⟨_, hfacts.1, rfl, rfl⟩ hfacts.2.1 hfacts.2.2.1 hrun⟩

/-! ### The offsets used up -/

/-- The delivery thread looks for events and there are none. -/
structure Resting (s : FanOut) : Prop where
  phase : s.loop.phase = .draining
  running : s.loop.running = true
  free : s.loop.publishing = false
  empty : s.loop.feed.events = []
  idle : s.phase2 = .idle

/-- The event as it is delivered. -/
def numbered (event : ChangefeedEvent) (offset : UInt64) : ChangefeedEvent := { event with offset := offset, timestamp := 0 }

/-- An event is published and taken. -/
def arrival (event : ChangefeedEvent) : List Label :=
  [.other (.push event 0), .other .notify, .other .deliver, .other .deliver, .other .deliver]

theorem Resting.arrival (order : HashOrder) {s : FanOut} (h : Resting s) (event : ChangefeedEvent) :
    ∃ loop, run (FanOut.step order 1 100) s (arrival event) = some { s with loop := loop } ∧
      loop.phase = .delivering (numbered event s.loop.feed.nextOffset) ∧
      loop.running = true ∧ loop.publishing = false ∧ loop.feed.events = [] ∧
      loop.feed.nextOffset = s.loop.feed.nextOffset + 1 := by
  obtain ⟨hphase, hrunning, hfree, hempty, -⟩ := h
  simp [FanOut.arrival, run, FanOut.step, Delivery.step, hfree, hphase, Delivery.notified, Delivery.advance, Delivery.goTo,
    hrunning, Feed.publishEvent, hempty, numbered]

/-- Phase 1 with no target. -/
theorem choose_none {order : HashOrder} {threads maxLag : Nat} {s : FanOut} {event : ChangefeedEvent}
    (hphase : s.loop.phase = .delivering event) (hidle : s.phase2 = .idle) (hnone : s.targets order event = []) :
    s.step order threads maxLag .choose = some (s.delivered event) := by
  simp only [FanOut.step, hphase, hidle]
  rw [if_pos hnone]

/-- Phase 1 with one target. -/
theorem choose_one {order : HashOrder} {threads maxLag : Nat} {s : FanOut} {event : ChangefeedEvent} {t : Task}
    (hphase : s.loop.phase = .delivering event) (hidle : s.phase2 = .idle) (hone : s.targets order event = [t]) :
    s.step order threads maxLag .choose = some { s with phase2 := .inline, tasks := [t] } := by
  simp only [FanOut.step, hphase, hidle]
  rw [hone]
  simp

/-- Only subscriptions on the table `t`. -/
def OnlyT (order : HashOrder) (s : FanOut) : Prop := ∀ p ∈ order.list s.subscriptions, p.2.tablePattern = str "t"

/-- An event for nobody. -/
def pong : ChangefeedEvent := { Delivery.ping with table := str "u" }

/-- What is left of a run that delivers an event to nobody. -/
structure Passed (s s' : FanOut) (n : Nat) : Prop where
  resting : Resting s'
  next : s'.loop.feed.nextOffset = s.loop.feed.nextOffset + UInt64.ofNat n
  subscriptions : s'.subscriptions = s.subscriptions
  callbacks : s'.callbacks = s.callbacks
  busy : s'.busy = s.busy
  later : s.rounds ≤ s'.rounds
  calls : ∀ id n, callsFrom id n s'.log = callsFrom id n s.log

theorem Resting.passed {order : HashOrder} {s : FanOut} (h : Resting s) (honly : OnlyT order s) :
    ∃ s', run (FanOut.step order 1 100) s (FanOut.arrival pong ++ [.choose]) = some s' ∧ Passed s s' 1 := by
  obtain ⟨loop, hrun, hphase, hrunning, hfree, hempty, hnext⟩ := h.arrival order pong
  have hnobody : targets order { s with loop := loop } (numbered pong s.loop.feed.nextOffset) = [] := by
    refine List.filterMap_eq_nil_iff.2 fun p hp => ?_
    have hnot : matchesFilter p.2.tablePattern (numbered pong s.loop.feed.nextOffset) = false := by
      rw [honly p hp]
      rfl
    simp [hnot]
  refine ⟨delivered { s with loop := loop } (numbered pong s.loop.feed.nextOffset), ?_, ?_⟩
  · rw [run_append, hrun, Option.bind_some, run_cons (choose_none (s := { s with loop := loop }) hphase h.idle hnobody), run_nil]
  · refine ⟨⟨rfl, hrunning, hfree, hempty, rfl⟩, hnext, rfl, rfl, rfl, Nat.le_succ _, ?_⟩
    intro id n
    simp [FanOut.delivered, callsFrom, calledTask]

theorem Resting.run_passed {order : HashOrder} (n : Nat) {s : FanOut} (h : Resting s) (honly : OnlyT order s) :
    ∃ s', run (FanOut.step order 1 100) s (List.replicate n (FanOut.arrival pong ++ [.choose])).flatten = some s' ∧
      Passed s s' n := by
  induction n generalizing s with
  | zero => exact ⟨s, rfl, h, by simp, rfl, rfl, rfl, Nat.le_refl _, fun _ _ => rfl⟩
  | succ n ih =>
    obtain ⟨u, hu, hpassed⟩ := h.passed honly
    have honlyu : OnlyT order u := by
      unfold OnlyT
      rw [hpassed.subscriptions]
      exact honly
    obtain ⟨s', hs', hmore⟩ := ih hpassed.resting honlyu
    refine ⟨s', ?_, hmore.resting, ?_, ?_, ?_, ?_, ?_, ?_⟩
    · rw [List.replicate_succ, List.flatten_cons, run_append, hu]
      exact hs'
    · rw [hmore.next, hpassed.next, UInt64.add_assoc, ← UInt64.ofNat_add, Nat.add_comm 1 n]
    · exact hmore.subscriptions.trans hpassed.subscriptions
    · exact hmore.callbacks.trans hpassed.callbacks
    · exact hmore.busy.trans hpassed.busy
    · exact hpassed.later.trans hmore.later
    · intro id n
      rw [hmore.calls, hpassed.calls]

/-- One subscription, on the table `t`. -/
def oneSubscriber : List Label := [.createSubscription (str "t") 0, .subscribe (str "sub-1") 7]

/-- It gets the first event. -/
def firstCalled : List Label :=
  firstDelivery ++ [.choose, .take, .ends (pingTask 0 1 (str "sub-1") 7) false, .note (pingTask 0 1 (str "sub-1") 7),
    .count (pingTask 0 1 (str "sub-1") 7), .finish]

/-- Then all numbers are used up, and it gets another. -/
def usedUp : List Label :=
  firstCalled ++ (List.replicate (2 ^ 64 - 2) (arrival pong ++ [.choose])).flatten ++ (arrival Delivery.ping ++ [.choose, .take])

theorem fixed_usedUp (s : FanOut) : Allowed (step .sorted 1 100) (Fixed (str "sub-1")) s usedUp := by
  refine Allowed.of_forall fun l hl u => ?_
  have hl : l ∈ firstCalled ∨ l ∈ arrival pong ++ [.choose] ∨ l ∈ arrival Delivery.ping ++ [.choose, .take] := by
    simp only [usedUp, List.mem_append, List.mem_flatten, List.mem_replicate] at hl ⊢
    rcases hl with (hl | ⟨ls, ⟨-, rfl⟩, hl⟩) | hl
    · exact Or.inl hl
    · exact Or.inr (Or.inl (by simpa using hl))
    · exact Or.inr (Or.inr hl)
  simp only [firstCalled, firstDelivery, arrival, List.mem_append, List.mem_cons, List.mem_replicate, List.not_mem_nil,
    or_false] at hl
  unfold Fixed
  split <;> simp_all

/-- The last call has offset 0. -/
theorem Passed.last {s v : FanOut} {n : Nat} {sub : Subscription} (h : Passed s v n) (hbusy : s.busy = [])
    (hlist : s.subscriptions.toList = [(str "sub-1", sub)]) (hsub : sub.isActive = true ∧ sub.tablePattern = str "t")
    (hcallback : s.callbacks[str "sub-1"]? = some 7) :
    ∃ s' t, run (step .sorted 1 100) v (arrival Delivery.ping ++ [.choose, .take]) = some s' ∧
      (∀ m ≤ s.rounds, callsFrom (str "sub-1") m s'.log = callsFrom (str "sub-1") m s.log ++ [t]) ∧
      t.event.offset = s.loop.feed.nextOffset + UInt64.ofNat n := by
  obtain ⟨loop, hrun, hphase, -⟩ := h.resting.arrival .sorted Delivery.ping
  let event := numbered Delivery.ping v.loop.feed.nextOffset
  let t : Task := { round := v.rounds, event := event, id := str "sub-1", callback := 7 }
  have hlist' : v.subscriptions.toList = [(str "sub-1", sub)] := by rw [h.subscriptions, hlist]
  have hcallback' : v.callbacks[str "sub-1"]? = some 7 := by rw [h.callbacks, hcallback]
  have htargets : targets .sorted { v with loop := loop } event = [t] := by
    have hmatches : matchesFilter sub.tablePattern event = true := by
      rw [hsub.2]
      rfl
    simp [targets, HashOrder.sorted, hlist', hsub.1, hmatches, hcallback', t]
  have hchoose : step .sorted 1 100 { v with loop := loop } .choose =
      some { v with loop := loop, phase2 := .inline, tasks := [t] } :=
    choose_one (s := { v with loop := loop }) hphase h.resting.idle htargets
  have htake : step .sorted 1 100 { v with loop := loop, phase2 := .inline, tasks := [t] } .take =
      some { v with loop := loop, phase2 := .inline, tasks := [], calling := v.calling ++ [t], log := v.log ++ [.called t] } := by
    have hfree : free 1 { v with loop := loop, phase2 := .inline, tasks := [t] } = true := by
      have hidle : v.busy = [] := h.busy.trans hbusy
      simp only [free, if_true, decide_eq_true_eq]
      exact hidle
    simp only [step]
    rw [if_pos hfree]
  have hrun' : run (step .sorted 1 100) v (arrival Delivery.ping ++ [.choose, .take]) =
      some { v with loop := loop, phase2 := .inline, tasks := [], calling := v.calling ++ [t], log := v.log ++ [.called t] } := by
    rw [run_append, hrun, Option.bind_some, run_cons hchoose, run_cons htake, run_nil]
  refine ⟨_, t, hrun', ?_, h.next⟩
  intro m hm
  have hround : m ≤ t.round := hm.trans h.later
  rw [← h.calls]
  simp [callsFrom, calledTask, hround, t]

/-- The event after all numbers are used up has offset 0. -/
theorem offset_starts_over : ∃ s s', run (step .sorted 1 100) {} oneSubscriber = some s ∧
    Allowed (step .sorted 1 100) (Fixed (str "sub-1")) s usedUp ∧ run (step .sorted 1 100) s usedUp = some s' ∧
    ¬ (callsFrom (str "sub-1") s.undecided s'.log).Pairwise fun t u => t.event.offset < u.event.offset := by
  have hfacts : ((run (step .sorted 1 100) {} oneSubscriber).bind fun s => (run (step .sorted 1 100) s firstCalled).map fun u =>
      decide ((u.loop.phase = .draining ∧ u.loop.running = true ∧ u.loop.publishing = false ∧ u.loop.feed.events = [] ∧
        u.phase2 = .idle) ∧ u.loop.feed.nextOffset = 2 ∧ u.busy = [] ∧
        u.subscriptions.toList = [(str "sub-1", { tablePattern := str "t", currentOffset := 1 })] ∧
        u.callbacks[str "sub-1"]? = some 7 ∧ s.undecided ≤ u.rounds ∧
        callsFrom (str "sub-1") s.undecided u.log = [pingTask 0 1 (str "sub-1") 7])) = some true := by
    decide
  obtain ⟨s, hs, hfacts⟩ := Option.bind_eq_some_iff.1 hfacts
  obtain ⟨u, hu, hfacts⟩ := Option.map_eq_some_iff.1 hfacts
  simp only [decide_eq_true_eq] at hfacts
  obtain ⟨⟨hphase, hrunning, hfree, hempty, hidle⟩, hnext, hbusy, hlist, hcallback, hundecided, hcalls⟩ := hfacts
  have honly : OnlyT .sorted u := by
    intro p hp
    have hmem : p ∈ u.subscriptions.toList := hp
    rw [hlist, List.mem_singleton] at hmem
    rw [hmem]
  obtain ⟨v, hv, hpassed⟩ := Resting.run_passed (2 ^ 64 - 2) ⟨hphase, hrunning, hfree, hempty, hidle⟩ honly
  obtain ⟨s', t, hs', hlast, hoffset⟩ := hpassed.last hbusy hlist ⟨rfl, rfl⟩ hcallback
  refine ⟨s, s', hs, fixed_usedUp s, ?_, ?_⟩
  · rw [usedUp, run_append, run_append, hu, Option.bind_some, hv, Option.bind_some]
    exact hs'
  · rw [hlast _ hundecided, hcalls]
    rw [hnext] at hoffset
    have hzero : t.event.offset = 0 := hoffset
    intro hpairs
    have hlt : (pingTask 0 1 (str "sub-1") 7).event.offset < t.event.offset := by
      simpa using hpairs
    rw [hzero] at hlt
    revert hlt
    decide

end FanOut

end OriginDB
