import OriginDB.Changefeed.Wakeup
import OriginDB.Wasm.TickScheduler
/-!
# `Stop` and the threads it joins (`changefeed_engine.cpp:135-157, 382-413`, `tick_scheduler.cpp:29-36, 68-90`)

Both `Stop` functions clear `running_` and notify without the mutex of the threads that wait. A thread that has read
`running_` and does not sleep yet misses the notification, and `Stop` joins a thread that nobody wakes any more.

| | misses the notification |
| --- | --- |
| `DeliveryLoop` | after `!running_`: at `!events_.empty()` with no event, and turning in |
| `WorkerLoop`   | after `!running_.load()`, which comes second: turning in |

`stop_wakes` says that nothing else goes wrong, and that each of these does.
-/
namespace OriginDB

open Machine

/-! ## `ChangefeedEngine` -/

/-- The delivery thread, its publishers, and where `Stop` is. -/
structure Stopping where
  delivery : Delivery := {}
  stopper : Wasm.StopPhase := .idle

namespace Stopping

inductive Label where
  | delivery (l : Delivery.Label)
  | stop

/-- The next step of `Stop`. -/
def stop (s : Stopping) : Option Stopping :=
  match s.stopper with
  | .idle => some (if s.delivery.running then { delivery := { s.delivery with running := false }, stopper := .notifying } else s)
  | .notifying => some { delivery := s.delivery.notified, stopper := .joining }
  | .joining => if s.delivery.phase = .ended then some { s with stopper := .idle } else none

/-- `Start` is not called while `Stop` is under way. -/
def step (maxLag : Nat) (s : Stopping) : Label → Option Stopping
  | .stop => s.stop
  | .delivery .stop => none
  | .delivery .start => if s.stopper = .idle then (s.delivery.step maxLag .start).map fun d => { s with delivery := d } else none
  | .delivery l => (s.delivery.step maxLag l).map fun d => { s with delivery := d }

/-- `Stop` has notified, and the thread it joins sleeps. -/
def Blocked (s : Stopping) : Prop := s.stopper = .joining ∧ s.delivery.phase = .asleep

/-- Past its test of `running_`, on the way to sleep. -/
def Misses (d : Delivery) : Prop := d.phase = .turningIn ∨ (d.phase = .peeking ∧ d.feed.events = [])

/-- `Stop` does not notify while the thread is on its way to sleep. -/
def Heard (s : Stopping) (l : Label) : Prop :=
  match l with
  | .stop => s.stopper = .notifying → ¬ Misses s.delivery
  | _ => True

instance (d : Delivery) : Decidable (Misses d) := inferInstanceAs (Decidable (_ ∨ _))

instance : ∀ (s : Stopping) (l : Label), Decidable (Heard s l)
  | s, .stop => inferInstanceAs (Decidable (s.stopper = .notifying → ¬ Misses s.delivery))
  | _, .delivery _ => isTrue trivial

/-- Where the notification has come too late, or is not needed. -/
structure Inv (s : Stopping) : Prop where
  cleared : s.stopper ≠ .idle → s.delivery.running = false
  heard : s.stopper = .joining → s.delivery.phase ≠ .asleep ∧ ¬ Misses s.delivery

section
variable {maxLag : Nat} {s s' : Stopping} {d d' : Delivery} {l : Label} {dl : Delivery.Label}

/-- What `DeliveryLoop` does with `running_` cleared. -/
theorem advance_heard (hr : d.running = false) (hasleep : d.phase ≠ .asleep) (hm : ¬ Misses d) (hs : d.advance = some d') :
    d'.running = false ∧ d'.phase ≠ .asleep ∧ ¬ Misses d' := by
  unfold Delivery.advance at hs
  cases hphase : d.phase with
  | outside | testing | awake | due =>
    simp only [hphase, Option.some.injEq] at hs
    subst hs
    simp [Delivery.goTo, Misses, hr]
  | draining =>
    simp only [hphase, Option.some.injEq] at hs
    subst hs
    by_cases hev : d.feed.events = [] <;> simp [Delivery.goTo, Misses, hr, hev]
  | peeking =>
    simp only [hphase, Option.some.injEq] at hs
    subst hs
    have hev : d.feed.events ≠ [] := fun hnil => hm (Or.inr ⟨hphase, hnil⟩)
    simp [Delivery.goTo, Misses, hr, hev]
  | turningIn => exact absurd (Or.inl hphase) hm
  | woken | delivering ev =>
    simp only [hphase, Option.some.injEq] at hs
    subst hs
    simp [Delivery.goTo, Misses, hr]
  | popping =>
    simp only [hphase] at hs
    split at hs
    · cases hs
    · split at hs <;> cases hs <;> simp [Delivery.goTo, Misses, hr]
  | asleep => exact absurd hphase hasleep
  | ended =>
    simp only [hphase] at hs
    cases hs

theorem notified_heard (hm : ¬ Misses d) : d.notified.phase ≠ .asleep ∧ ¬ Misses d.notified := by
  obtain ⟨-, hw⟩ | ⟨hup, hsame⟩ := Delivery.notified_phase d
  · simp [Misses, hw]
  · rw [hsame, Misses, hsame, Delivery.notified_feed]
    exact ⟨hup, hm⟩

@[simp] theorem notified_running (d : Delivery) : d.notified.running = d.running := by
  unfold Delivery.notified
  split <;> rfl

/-- What everybody but `Start` and `Stop` does with `running_` cleared. -/
theorem step_heard (hr : d.running = false) (hasleep : d.phase ≠ .asleep) (hm : ¬ Misses d) (hl : dl ≠ .start)
    (hs : d.step maxLag dl = some d') : d'.running = false ∧ d'.phase ≠ .asleep ∧ ¬ Misses d' := by
  cases dl with
  | push ev now =>
    simp only [Delivery.step] at hs
    split at hs
    · cases hs
    · cases hs
      refine ⟨hr, hasleep, ?_⟩
      rintro (hin | ⟨-, hnil⟩)
      · exact hm (Or.inl hin)
      · exact Delivery.publishEvent_events_ne_nil maxLag d.feed ev now hnil
  | notify =>
    simp only [Delivery.step] at hs
    split at hs
    · cases hs
      exact ⟨by simpa using hr, notified_heard hm⟩
    · cases hs
  | deliver => exact advance_heard hr hasleep hm hs
  | wake =>
    cases hs
    exact ⟨by simpa using hr, notified_heard hm⟩
  | start => exact absurd rfl hl
  | stop =>
    cases hs
    exact ⟨rfl, hasleep, hm⟩

theorem advance_running (hs : d.advance = some d') : d'.running = d.running := by
  unfold Delivery.advance at hs
  cases hphase : d.phase with
  | popping =>
    simp only [hphase] at hs
    split at hs
    · cases hs
    · split at hs <;> cases hs <;> rfl
  | asleep | ended =>
    simp only [hphase] at hs
    cases hs
  | _ =>
    simp only [hphase] at hs
    cases hs
    rfl

/-- Only `Start` sets `running_`. -/
theorem step_running (hr : d.running = false) (hl : dl ≠ .start) (hs : d.step maxLag dl = some d') : d'.running = false := by
  cases dl with
  | push ev now =>
    simp only [Delivery.step] at hs
    split at hs
    · cases hs
    · cases hs
      exact hr
  | notify =>
    simp only [Delivery.step] at hs
    split at hs
    · cases hs
      simpa using hr
    · cases hs
  | deliver => rw [advance_running hs, hr]
  | wake =>
    cases hs
    simpa using hr
  | start => exact absurd rfl hl
  | stop =>
    cases hs
    rfl

/-- A step of the delivery thread or a publisher, or of `Start`. -/
theorem step_delivery (hs : s.step maxLag (.delivery dl) = some s') :
    ∃ d, s.delivery.step maxLag dl = some d ∧ s' = { s with delivery := d } ∧ (dl = .start → s.stopper = .idle) := by
  cases dl with
  | stop => cases hs
  | start =>
    simp only [step] at hs
    split at hs
    · obtain ⟨d, hd, rfl⟩ := Option.map_eq_some_iff.1 hs
      exact ⟨d, hd, rfl, fun _ => ‹_›⟩
    · cases hs
  | push _ _ | notify | deliver | wake =>
    simp only [step] at hs
    obtain ⟨d, hd, rfl⟩ := Option.map_eq_some_iff.1 hs
    exact ⟨d, hd, rfl, fun h => by cases h⟩

/-- **A step that is heard keeps the invariant.** -/
theorem Inv.step (h : Inv s) (hheard : Heard s l) (hs : s.step maxLag l = some s') : Inv s' := by
  cases l with
  | delivery dl =>
    obtain ⟨d, hd, rfl, hstart⟩ := step_delivery hs
    refine ⟨fun hne => step_running (h.cleared hne) (fun he => hne (hstart he)) hd, fun hjoining => ?_⟩
    have hne : s.stopper ≠ .idle := by simp [show s.stopper = .joining from hjoining]
    obtain ⟨hasleep, hm⟩ := h.heard hjoining
    exact (step_heard (h.cleared hne) hasleep hm (fun he => hne (hstart he)) hd).2
  | stop =>
    simp only [Stopping.step, Stopping.stop] at hs
    split at hs
    · rename_i hidle
      split at hs
      · cases hs
        exact ⟨fun _ => rfl, by simp⟩
      · cases hs
        exact h
    · rename_i hnotifying
      cases hs
      exact ⟨fun _ => by simpa using h.cleared (by simp [hnotifying]), fun _ => notified_heard (hheard hnotifying)⟩
    · split at hs
      · cases hs
        exact ⟨by simp, by simp⟩
      · cases hs

theorem Inv.boot : Inv {} := ⟨by simp, by simp⟩

/-- A notification that comes while the thread is on its way to sleep leaves `Stop` with a thread that sleeps. -/
theorem stop_blocks (hs : s.stopper = .notifying) (hm : Misses s.delivery) :
    ∃ ls s', run (Stopping.step maxLag) s (.stop :: ls) = some s' ∧ Blocked s' := by
  obtain ⟨d, stopper⟩ := s
  obtain rfl : stopper = .notifying := hs
  obtain hin | ⟨hpeek, hnil⟩ := hm
  · refine ⟨[.delivery .deliver], { delivery := d.goTo .asleep, stopper := .joining }, ?_, rfl, rfl⟩
    have hphase : d.phase = .turningIn := hin
    simp [run, Stopping.step, stop, Delivery.notified, Delivery.step, Delivery.advance, hphase]
  · refine ⟨[.delivery .deliver, .delivery .deliver], { delivery := (d.goTo .turningIn).goTo .asleep, stopper := .joining }, ?_, rfl, rfl⟩
    have hphase : d.phase = .peeking := hpeek
    have hevents : d.feed.events = [] := hnil
    simp [run, Stopping.step, stop, Delivery.notified, Delivery.step, Delivery.advance, Delivery.goTo, hphase, hevents]

end

end Stopping

/-! ## `TickScheduler` -/

namespace Wasm

namespace TickScheduler

/-- `Stop` has notified, and a worker it joins sleeps. -/
def Blocked (s : TickScheduler) : Prop := s.stopper = .joining ∧ WorkerPhase.asleep ∈ s.workers

/-- `Stop` does not notify while a worker is on its way to sleep. -/
def Heard (s : TickScheduler) (l : Label) : Prop := l = .stop → s.stopper = .notifying → WorkerPhase.turningIn ∉ s.workers

instance (s : TickScheduler) (l : Label) : Decidable (Heard s l) := inferInstanceAs (Decidable (_ → _ → ¬ _))

/-- The workers are up once `Stop` has notified. -/
structure Roused (s : TickScheduler) : Prop extends Inv s where
  up : s.stopper = .joining → WorkerPhase.asleep ∉ s.workers ∧ WorkerPhase.turningIn ∉ s.workers

section
variable {s s' : TickScheduler} {w : Nat} {p : WorkerPhase} {l : Label}

/-- A worker that goes on does not turn in when `running_` is cleared. -/
theorem up_goes (hup : WorkerPhase.asleep ∉ s.workers ∧ WorkerPhase.turningIn ∉ s.workers) (hp : p ≠ .asleep ∧ p ≠ .turningIn) :
    WorkerPhase.asleep ∉ (s.goes w p).workers ∧ WorkerPhase.turningIn ∉ (s.goes w p).workers := by
  constructor
  · intro hmem
    exact (mem_goes hmem).elim (fun h => hp.1 h.symm) hup.1
  · intro hmem
    exact (mem_goes hmem).elim (fun h => hp.2 h.symm) hup.2

/-- **A step that is heard leaves nobody asleep.** -/
theorem Roused.step (h : Roused s) (hheard : Heard s l) (hs : s.step l = some s') : Roused s' := by
  refine ⟨h.toInv.step hs, ?_⟩
  cases step_cases hs with
  | dispatch due s' hd => cases hd <;> exact h.up
  | wakes i w hd hw => exact fun hj => absurd (List.mem_of_getElem? hw) (h.up hj).1
  | wake w hw => exact fun hj => absurd (List.mem_of_getElem? hw) (h.up hj).1
  | unheard i w hd hw => exact h.up
  | work w s' hw =>
    cases hw with
    | goes p p' hp hnext =>
      intro hj
      have hstopped := h.threads.stopping (by simp [show s.stopper = .joining from hj])
      cases hnext with
      | runs hr => exact absurd (hstopped.symm.trans hr) (by simp)
      | sleeps => exact absurd (List.mem_of_getElem? hp) (h.up hj).2
      | _ => exact up_goes (h.up hj) (by simp)
    | pops t rest hp hq => exact fun hj => up_goes (p := .executing t) (h.up hj) (by simp)
    | executes t hp => exact fun hj => up_goes (p := .counting t) (h.up hj) (by simp)
    | counts t hp => exact fun hj => up_goes (p := .clearing t) (h.up hj) (by simp)
    | clears t hp => exact fun hj => up_goes (p := .locking) (h.up hj) (by simp)
  | starts hr hidle => simp [hidle]
  | started hr => exact h.up
  | clears hr hidle => simp
  | stopped hr hidle => exact h.up
  | notifies hnotifying =>
    refine fun _ => ⟨not_asleep_of_woken, fun hmem => ?_⟩
    obtain ⟨p, hp, hwoken⟩ := List.mem_map.1 hmem
    cases p with
    | turningIn => exact hheard rfl hnotifying hp
    | _ => cases hwoken
  | joins hs hd hw => simp
  | snapshot => exact h.up

theorem Roused.boot (numWorkers entries : Nat) : Roused (boot numWorkers entries) :=
  ⟨.boot numWorkers entries, by simp [TickScheduler.boot]⟩

/-- A notification that comes while a worker is on its way to sleep leaves `Stop` with a worker that sleeps. -/
theorem stop_blocks (hs : s.stopper = .notifying) (hm : WorkerPhase.turningIn ∈ s.workers) :
    ∃ ls s', run TickScheduler.step s (.stop :: ls) = some s' ∧ Blocked s' := by
  obtain ⟨w, hw⟩ := List.getElem?_of_mem hm
  have hwoken : (s.workers.map WorkerPhase.woken)[w]? = some .turningIn := by
    rw [List.getElem?_map, hw]
    rfl
  refine ⟨[.work w], { s.notifyAll.goes w .asleep with stopper := .joining }, ?_, rfl, ?_⟩
  · simp [run, TickScheduler.step, stop, hs, work, next, notifyAll, hwoken, goes]
  · exact List.mem_of_getElem? (List.getElem?_set_self (List.getElem?_eq_some_iff.1 hwoken).1)

end

end TickScheduler

/-- **`Stop` wakes the threads it joins** in every run whose `notify_all` does not come while one is on its way to sleep;
and one that does may find a thread that nobody wakes. -/
theorem stop_wakes {maxLag : Nat} {ls : List Stopping.Label} {s : Stopping}
    (hheard : Allowed (Stopping.step maxLag) Stopping.Heard {} ls) (hr : run (Stopping.step maxLag) {} ls = some s)
    {numWorkers entries : Nat} {ms : List TickScheduler.Label} {t : TickScheduler}
    (hheard' : Allowed TickScheduler.step TickScheduler.Heard (TickScheduler.boot numWorkers entries) ms)
    (hr' : run TickScheduler.step (TickScheduler.boot numWorkers entries) ms = some t) :
    (¬ s.Blocked ∧ (¬ s.Heard .stop → ∃ ls' s', run (Stopping.step maxLag) s (.stop :: ls') = some s' ∧ s'.Blocked)) ∧
    ¬ t.Blocked ∧ (¬ t.Heard .stop → ∃ ms' t', run TickScheduler.step t (.stop :: ms') = some t' ∧ t'.Blocked) := by
  constructor
  · have hinv := run_invariant Stopping.Inv (fun _ _ _ h ha hs => h.step ha hs) .boot hheard hr
    refine ⟨fun hblocked => (hinv.heard hblocked.1).1 hblocked.2, fun hnot => ?_⟩
    have hboth : s.stopper = .notifying ∧ Stopping.Misses s.delivery := by
      simpa [Stopping.Heard] using hnot
    exact Stopping.stop_blocks hboth.1 hboth.2
  · have hroused := run_invariant TickScheduler.Roused (fun _ _ _ h ha hs => h.step ha hs) (.boot numWorkers entries) hheard' hr'
    refine ⟨fun hblocked => (hroused.up hblocked.1).1 hblocked.2, fun hnot => ?_⟩
    have hboth : t.stopper = .notifying ∧ WorkerPhase.turningIn ∈ t.workers := by
      simpa [TickScheduler.Heard] using hnot
    exact TickScheduler.stop_blocks hboth.1 hboth.2

/-- `Stop` when the delivery thread and the two workers sleep. -/
theorem stop_wakes_asleep : ∃ s t, run (Stopping.step 100000) {}
        (.delivery .start :: List.replicate 4 (.delivery .deliver) ++ [.stop, .stop]) = some s ∧
    run TickScheduler.step (TickScheduler.boot 2 1)
        (.start :: List.replicate 4 (.work 0) ++ List.replicate 4 (.work 1) ++ [.stop, .stop]) = some t ∧
    ¬ s.Blocked ∧ ¬ t.Blocked := by
  refine ⟨_, _, rfl, rfl, ?_⟩
  have hheard : Allowed (Stopping.step 100000) Stopping.Heard {}
      (.delivery .start :: List.replicate 4 (.delivery .deliver) ++ [.stop, .stop]) := by decide
  have hheard' : Allowed TickScheduler.step TickScheduler.Heard (TickScheduler.boot 2 1)
      (.start :: List.replicate 4 (.work 0) ++ List.replicate 4 (.work 1) ++ [.stop, .stop]) := by decide
  have hwakes := stop_wakes hheard rfl hheard' rfl
  exact ⟨hwakes.1.1, hwakes.2.1⟩

/-- `Stop` between the test of `running_` and the sleep. -/
theorem stop_misses : (∃ s, run (Stopping.step 100000) {}
        (.delivery .start :: List.replicate 3 (.delivery .deliver) ++ [.stop, .stop, .delivery .deliver]) = some s ∧
        s.Blocked ∧ s.delivery.running = false ∧ s.delivery.publishing = false) ∧
    ∃ s, run TickScheduler.step (TickScheduler.boot 1 1)
        (.start :: List.replicate 3 (.work 0) ++ [.stop, .stop, .work 0, .dispatch false]) = some s ∧
        s.Blocked ∧ s.running = false ∧ s.dispatcher = .ended := by
  refine ⟨⟨_, rfl, ⟨rfl, rfl⟩, rfl, rfl⟩, ⟨_, rfl, ⟨rfl, ?_⟩, rfl, rfl⟩⟩
  decide

end Wasm

end OriginDB
