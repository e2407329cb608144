import OriginDB.Changefeed.Events
import OriginDB.Lib.Machine
/-!
# The delivery thread and its wakeups (`changefeed_engine.cpp:105-185, 262-270, 383-413`)

`PublishEvent` pushes an event and then notifies `delivery_cv_`, both under `events_mutex_`. `DeliveryLoop`
waits on `delivery_cv_` under `delivery_mutex_`. So nothing keeps a notification from falling between the
evaluation of the predicate and the sleep, where nobody hears it.

| here | there |
| --- | --- |
| `push ev now` | `PublishEvent` up to `:171`: `events_mutex_` is held from here |
| `notify`      | `notify_one` (`:184`) and the end of `PublishEvent` |
| `deliver`     | one step of `DeliveryLoop`, phase by phase |
| `wake`        | `notify_one` in `Subscribe` (`:269`), `notify_all` in `Stop` (`:143`), a spurious wakeup |
| `start`, `stop` | `running_` set in `Start` (`:110`) with the thread begun, and cleared in `Stop` (`:140`) |
-/
namespace OriginDB

open JsonDoc Machine

/-- Where the delivery thread is. -/
inductive DeliveryPhase where
  /-- at `while (running_)` -/
  | outside
  /-- in the predicate, at `!running_` -/
  | testing
  /-- in the predicate, at `!events_.empty()` -/
  | peeking
  /-- the predicate was false, `delivery_mutex_` is still held -/
  | turningIn
  | asleep
  /-- has to take `delivery_mutex_` again -/
  | woken
  /-- the predicate was true -/
  | awake
  /-- at `!events_.empty()` of the inner loop -/
  | draining
  /-- at `running_` of the inner loop -/
  | due
  /-- waits for `events_mutex_` -/
  | popping
  | delivering (event : ChangefeedEvent)
  | ended
deriving DecidableEq

/-- What `PublishEvent` and `DeliveryLoop` share. -/
structure Delivery where
  feed : Feed := {}
  running : Bool := false
  /-- A `PublishEvent` is between its push and its notify, with `events_mutex_`. -/
  publishing : Bool := false
  phase : DeliveryPhase := .ended

namespace Delivery

inductive Label where
  | push (event : ChangefeedEvent) (now : UInt64)
  | notify
  | deliver
  | wake
  | start
  | stop

def goTo (d : Delivery) (phase : DeliveryPhase) : Delivery := { d with phase := phase }

/-- A notification: heard by a thread that sleeps, by no other. -/
def notified (d : Delivery) : Delivery :=
  if d.phase = .asleep then d.goTo .woken else d

/-- The next step of `DeliveryLoop`. -/
def advance (d : Delivery) : Option Delivery :=
  match d.phase with
  | .outside => some (d.goTo (if d.running then .testing else .ended))
  | .testing => some (d.goTo (if d.running then .peeking else .awake))
  | .peeking => some (d.goTo (if d.feed.events = [] then .turningIn else .awake))
  | .turningIn => some (d.goTo .asleep)
  | .asleep => none
  | .woken => some (d.goTo .testing)
  | .awake => some (d.goTo (if d.running then .draining else .ended))
  | .draining => some (d.goTo (if d.feed.events = [] then .outside else .due))
  | .due => some (d.goTo (if d.running then .popping else .outside))
  | .popping =>
    if d.publishing then none
    else match d.feed.events with
      | [] => some (d.goTo .outside)
      | ev :: rest => some { d.goTo (.delivering ev) with feed := { d.feed with events := rest } }
  | .delivering _ => some (d.goTo .draining)
  | .ended => none

/-- `Start` finds the old thread joined, or `running_` set and returns. -/
def step (maxLag : Nat) (d : Delivery) : Label → Option Delivery
  | .push ev now =>
    if d.publishing then none
    else some { d with feed := d.feed.publishEvent maxLag ev now, publishing := true }
  | .notify => if d.publishing then some { d.notified with publishing := false } else none
  | .deliver => d.advance
  | .wake => some d.notified
  | .start =>
    if d.running then some d
    else if d.phase = .ended then some { d.goTo .outside with running := true } else none
  | .stop => some { d with running := false }

/-- Events wait to be delivered, the delivery thread sleeps, and nobody is about to wake it. -/
def LeftAsleep (d : Delivery) : Prop := d.feed.events ≠ [] ∧ d.phase = .asleep ∧ d.publishing = false

/-- A publisher does not notify while the thread has looked for events but does not yet sleep. -/
def Prompt (d : Delivery) (l : Label) : Prop :=
  match l with
  | .notify => d.phase ≠ .turningIn
  | _ => True

instance : ∀ (d : Delivery) (l : Label), Decidable (Prompt d l)
  | d, .notify => inferInstanceAs (Decidable (d.phase ≠ .turningIn))
  | _, .push .. | _, .deliver | _, .wake | _, .start | _, .stop => isTrue trivial

/-! ## The invariant -/

@[simp] theorem goTo_feed (d : Delivery) (p : DeliveryPhase) : (d.goTo p).feed = d.feed := rfl
@[simp] theorem goTo_publishing (d : Delivery) (p : DeliveryPhase) : (d.goTo p).publishing = d.publishing := rfl
@[simp] theorem goTo_phase (d : Delivery) (p : DeliveryPhase) : (d.goTo p).phase = p := rfl

@[simp] theorem notified_feed (d : Delivery) : d.notified.feed = d.feed := by
  unfold notified
  split <;> rfl

@[simp] theorem notified_publishing (d : Delivery) : d.notified.publishing = d.publishing := by
  unfold notified
  split <;> rfl

/-- Whoever hears a notification was asleep. -/
theorem notified_phase (d : Delivery) : (d.phase = .asleep ∧ d.notified.phase = .woken) ∨
    (d.phase ≠ .asleep ∧ d.notified.phase = d.phase) := by
  unfold notified
  by_cases h : d.phase = .asleep
  · simp [h]
  · simp [h]

theorem publishEvent_events_ne_nil (maxLag : Nat) (f : Feed) (ev : ChangefeedEvent) (now : UInt64) :
    (f.publishEvent maxLag ev now).events ≠ [] := by
  simp [Feed.publishEvent]

/-- A publisher has pushed its event, and the thread has seen none before it goes to sleep. -/
structure Inv (d : Delivery) : Prop where
  pushed : d.publishing = true → d.feed.events ≠ []
  heard : d.phase = .turningIn ∨ d.phase = .asleep → d.feed.events = [] ∨ d.publishing = true

theorem Inv.boot : Inv {} where
  pushed := by simp
  heard := by simp

section
variable {maxLag : Nat} {d d' : Delivery} {l : Label}

/-- The loop takes no event from under a publisher, who holds `events_mutex_`. -/
theorem advance_publishing (hstep : d.advance = some d') :
    d'.publishing = d.publishing ∧ (d.publishing = true → d'.feed.events = d.feed.events) := by
  unfold Delivery.advance at hstep
  cases hphase : d.phase with
  | outside | testing | peeking | turningIn | woken | awake | draining | due | delivering ev =>
    simp only [hphase, Option.some.injEq] at hstep
    subst hstep
    exact ⟨rfl, fun _ => rfl⟩
  | popping =>
    simp only [hphase] at hstep
    split at hstep
    · cases hstep
    · rename_i hfree
      split at hstep
      · cases hstep
        exact ⟨rfl, fun _ => rfl⟩
      · cases hstep
        exact ⟨rfl, fun hpub => absurd hpub hfree⟩
  | asleep | ended =>
    simp only [hphase] at hstep
    cases hstep

/-- Whenever publishers notify, one that has still to do so has pushed its event, and nobody takes it before. -/
theorem pushed_step (h : d.publishing = true → d.feed.events ≠ []) (hstep : d.step maxLag l = some d') :
    d'.publishing = true → d'.feed.events ≠ [] := by
  cases l with
  | push ev now =>
    simp only [Delivery.step] at hstep
    split at hstep
    · cases hstep
    · cases hstep
      exact fun _ => publishEvent_events_ne_nil maxLag d.feed ev now
  | notify =>
    simp only [Delivery.step] at hstep
    split at hstep
    · cases hstep
      simp
    · cases hstep
  | deliver =>
    intro hpub
    obtain ⟨hsame, hevents⟩ := advance_publishing hstep
    rw [hevents (hsame ▸ hpub)]
    exact h (hsame ▸ hpub)
  | wake =>
    cases hstep
    simpa using h
  | start =>
    simp only [Delivery.step] at hstep
    split at hstep
    · cases hstep
      exact h
    · split at hstep
      · cases hstep
        exact h
      · cases hstep
  | stop =>
    cases hstep
    exact h

/-- The thread goes to bed only after it has seen no event. -/
theorem Inv.heard_advance (h : Inv d) (hstep : d.advance = some d') :
    d'.phase = .turningIn ∨ d'.phase = .asleep → d'.feed.events = [] ∨ d'.publishing = true := by
  unfold Delivery.advance at hstep
  cases hphase : d.phase with
  | outside | testing | awake | draining | due =>
    simp only [hphase, Option.some.injEq] at hstep
    subst hstep
    rw [goTo_phase]
    split <;> simp
  | woken | delivering ev =>
    simp only [hphase, Option.some.injEq] at hstep
    subst hstep
    simp
  | peeking =>
    simp only [hphase, Option.some.injEq] at hstep
    subst hstep
    intro hin
    by_cases hev : d.feed.events = []
    · exact Or.inl hev
    · simp [hev] at hin
  | turningIn =>
    simp only [hphase, Option.some.injEq] at hstep
    subst hstep
    exact fun _ => h.heard (Or.inl hphase)
  | popping =>
    simp only [hphase] at hstep
    split at hstep
    · cases hstep
    · split at hstep
      · cases hstep
        simp
      · cases hstep
        simp
  | asleep | ended =>
    simp only [hphase] at hstep
    cases hstep

/-- **A prompt step keeps the invariant.** -/
theorem Inv.step (h : Inv d) (hprompt : Prompt d l) (hstep : d.step maxLag l = some d') : Inv d' := by
  refine ⟨pushed_step h.pushed hstep, ?_⟩
  cases l with
  | push ev now =>
    simp only [Delivery.step] at hstep
    split at hstep
    · cases hstep
    · cases hstep
      exact fun _ => Or.inr rfl
  | notify =>
    simp only [Delivery.step] at hstep
    split at hstep
    · cases hstep
      intro hin
      obtain ⟨-, hw⟩ | ⟨hawake, hsame⟩ := notified_phase d
      · simp [hw] at hin
      · -- it neither sleeps nor is about to, so it looks for events again
        simp only [hsame] at hin
        exact (hin.elim hprompt hawake).elim
    · cases hstep
  | deliver => exact h.heard_advance hstep
  | wake =>
    cases hstep
    intro hin
    obtain ⟨-, hw⟩ | ⟨-, hsame⟩ := notified_phase d
    · simp [hw] at hin
    · rw [hsame] at hin
      simpa using h.heard hin
  | start =>
    simp only [Delivery.step] at hstep
    split at hstep
    · cases hstep
      exact h.heard
    · split at hstep
      · cases hstep
        simp
      · cases hstep
  | stop =>
    cases hstep
    exact h.heard

/-- A publisher that notifies while the thread turns in leaves its event behind it. -/
theorem lost_wakeup (hpushed : d.publishing = true → d.feed.events ≠ []) (hpub : d.publishing = true)
    (hphase : d.phase = .turningIn) : ∃ d', run (Delivery.step maxLag) d [.notify, .deliver] = some d' ∧ LeftAsleep d' := by
  refine ⟨{ d with publishing := false, phase := .asleep }, ?_, hpushed hpub, rfl, rfl⟩
  simp [run, Delivery.step, hpub, Delivery.notified, hphase, Delivery.advance, Delivery.goTo]

/-- **No event is left behind a sleeping thread** in a run whose publishers do not notify while the thread is
turning in. In every run, one that does notify then leaves its event behind. -/
theorem no_lost_wakeup (maxLag : Nat) (ls : List Label) (d : Delivery) (hr : run (Delivery.step maxLag) {} ls = some d) :
    (Allowed (Delivery.step maxLag) Prompt {} ls → ¬ LeftAsleep d) ∧
    (d.publishing = true → ¬ Prompt d .notify →
      ∃ d', run (Delivery.step maxLag) d [.notify, .deliver] = some d' ∧ LeftAsleep d') := by
  refine ⟨?_, fun hpub hlate => ?_⟩
  · rintro hprompt ⟨hev, hasleep, hfree⟩
    have hinv := run_invariant Inv (fun s l s' h ha hs => h.step ha hs) Inv.boot hprompt hr
    cases hinv.heard (Or.inr hasleep) with
    | inl hnil => exact hev hnil
    | inr hpub =>
      rw [hfree] at hpub
      cases hpub
  · have hall : Allowed (Delivery.step maxLag) (fun _ _ => True) {} ls := Allowed.of_forall fun _ _ _ => trivial
    have hpushed := run_invariant (fun d : Delivery => d.publishing = true → d.feed.events ≠ [])
      (fun s l s' h _ hs => pushed_step h hs) Inv.boot.pushed hall hr
    exact lost_wakeup hpushed hpub (not_not.1 hlate)

end

/-- Some event. -/
def ping : ChangefeedEvent := { transactionId := str "1", table := str "t", operation := str "INSERT", key := str "k", timestamp := 0 }

/-- An event that arrives while the thread sleeps is heard. -/
theorem no_lost_wakeup_prompt : ∃ d, run (Delivery.step 100000) {}
      [.start, .deliver, .deliver, .deliver, .deliver, .push ping 0, .notify] = some d ∧ ¬ LeftAsleep d :=
  ⟨_, rfl, (no_lost_wakeup 100000 [.start, .deliver, .deliver, .deliver, .deliver, .push ping 0, .notify] _ rfl).1
    (by decide)⟩

/-- An event that arrives while the thread turns in waits for the next one. -/
theorem published_left_asleep : ∃ d, run (Delivery.step 100000) {}
      [.start, .deliver, .deliver, .deliver, .push ping 0, .notify, .deliver] = some d ∧ LeftAsleep d :=
  ⟨_, rfl, by decide, rfl, rfl⟩

end Delivery

end OriginDB
