import OriginDB.Changefeed.Wakeup
import OriginDB.Lib.Consecutive
/-!
# The retained history (`changefeed_engine.cpp:159-185, 355-379`)

Two rules shorten `all_events_`: `PublishEvent` drops a batch from the front once there are more events than
`max_lag_entries`, and `CompactEvents` removes what is older than the retention period.

- `retained_recent`: with a clock that does not go back, what is retained is a run of consecutive offsets that ends at the
  event just published and has at most `max_lag_entries` of them.
- `one_entry_lost`: with a cap of one, three quarters of the cap are none, and the second event is dropped as it is
  published. It is the one cap with which that happens (`Keeps`).
-/
namespace OriginDB

open JsonDoc Machine

/-- `GetLatestOffset` (changefeed_engine.cpp:324). -/
def Feed.getLatestOffset (f : Feed) : UInt64 := f.nextOffset - 1

/-- `CompactEvents` (changefeed_engine.cpp:355), the retention period in milliseconds. -/
def Feed.compactEvents (f : Feed) (now : UInt64) (retentionPeriod : Int) : Feed :=
  let cutoff := (now.toNat : Int) - retentionPeriod * 1000000
  { f with allEvents := f.allEvents.filter fun event => !decide ((event.timestamp.toNat : Int) < cutoff) }

/-- `GetOldestRetainedOffset` (changefeed_engine.cpp:371). -/
def Feed.getOldestRetainedOffset (f : Feed) : UInt64 :=
  match f.allEvents with
  | [] => 0
  | event :: _ => event.offset

/-- How many of the retained events `PublishEvent` keeps beside the new one. -/
def Feed.kept (maxLag : Nat) (f : Feed) : Nat :=
  if maxLag < f.allEvents.length + 1 then maxLag * 3 / 4 - 1 else f.allEvents.length

/-- The event as `PublishEvent` stores it. -/
def Feed.stamped (f : Feed) (event : ChangefeedEvent) (now : UInt64) : ChangefeedEvent :=
  { event with offset := f.nextOffset, timestamp := now }

/-- The offsets of the retained events. -/
def Feed.offsets (f : Feed) : List Nat := f.allEvents.map fun event => event.offset.toNat

section
variable {maxLag : Nat} {f : Feed} {event : ChangefeedEvent} {now : UInt64}

@[simp] theorem publishEvent_nextOffset : (f.publishEvent maxLag event now).nextOffset = f.nextOffset + 1 := rfl

@[simp] theorem compactEvents_nextOffset (period : Int) : (f.compactEvents now period).nextOffset = f.nextOffset := rfl

/-- The new event stays, and before it the last of the old ones. -/
theorem publishEvent_allEvents (event : ChangefeedEvent) (now : UInt64) (hcap : 2 ≤ maxLag ∨ (maxLag = 1 ∧ f.allEvents = [])) :
    (f.publishEvent maxLag event now).allEvents =
      f.allEvents.drop (f.allEvents.length - f.kept maxLag) ++ [f.stamped event now] := by
  simp only [Feed.publishEvent, Feed.kept, Feed.stamped, List.length_append, List.length_singleton]
  by_cases hmany : maxLag < f.allEvents.length + 1
  · have htwo : 2 ≤ maxLag := by
      rcases hcap with h | ⟨rfl, h⟩
      · exact h
      · simp [h] at hmany
    rw [if_pos ⟨by omega, hmany⟩, if_pos hmany, List.drop_append_of_le_length (by omega)]
    congr 2
    omega
  · rw [if_neg (fun h => hmany h.2), if_neg hmany]
    simp

theorem kept_le (hmax : 1 ≤ maxLag) : f.kept maxLag ≤ f.allEvents.length ∧ f.kept maxLag + 1 ≤ maxLag := by
  unfold Feed.kept
  split <;> omega

/-- With a cap of one a second event leaves nothing. -/
theorem publishEvent_one (hold : f.allEvents ≠ []) : (f.publishEvent 1 event now).allEvents = [] := by
  have hlen : 0 < f.allEvents.length := List.length_pos_iff.2 hold
  simp [Feed.publishEvent, hlen]

end

/-! ## Runs -/

/-- The changefeed and the time of the last call. -/
structure History where
  feed : Feed := {}
  clock : UInt64 := 0

namespace History

inductive Label where
  | publishEvent (event : ChangefeedEvent) (now : UInt64)
  | compactEvents (now : UInt64) (retentionPeriod : Int)

/-- The clock does not go back. -/
def step (maxLag : Nat) (s : History) : Label → Option History
  | .publishEvent event now =>
    if s.clock ≤ now then some { feed := s.feed.publishEvent maxLag event now, clock := now } else none
  | .compactEvents now period =>
    if s.clock ≤ now then some { feed := s.feed.compactEvents now period, clock := now } else none

/-- Not the second event under a cap of one, and not the event with which `next_offset_` starts over, unless it is alone. -/
def Keeps (maxLag : Nat) (s : History) : Label → Prop
  | .publishEvent _ _ =>
    (2 ≤ maxLag ∨ s.feed.allEvents = []) ∧ (s.feed.nextOffset ≠ 0 ∨ s.feed.kept maxLag = 0)
  | .compactEvents _ _ => True

instance (maxLag : Nat) : ∀ (s : History) (l : Label), Decidable (Keeps maxLag s l)
  | s, .publishEvent _ _ => inferInstanceAs (Decidable ((2 ≤ maxLag ∨ s.feed.allEvents = []) ∧ _))
  | _, .compactEvents _ _ => isTrue trivial

/-- The retained events are a run of consecutive offsets, and the oldest is its first. -/
structure Recent (f : Feed) : Prop where
  consecutive : Lists.Consecutive f.offsets
  oldest : f.getOldestRetainedOffset.toNat = f.offsets.headD 0

/-- The run ends at the offset just assigned and is not longer than the cap. -/
def EndsAtNew (maxLag : Nat) (s : History) (l : Label) (s' : History) : Prop :=
  match l with
  | .publishEvent _ _ => s'.feed.offsets.getLast? = some s.feed.nextOffset.toNat ∧ s'.feed.allEvents.length ≤ maxLag
  | .compactEvents _ _ => True

theorem oldest_offsets (f : Feed) : f.getOldestRetainedOffset.toNat = f.offsets.headD 0 := by
  unfold Feed.getOldestRetainedOffset Feed.offsets
  cases f.allEvents with
  | nil => rfl
  | cons event rest => rfl

/-- Consecutive offsets up to the one before the next, in the order of their times. -/
structure Inv (s : History) : Prop where
  consecutive : Lists.Consecutive s.feed.offsets
  last : ∀ event, s.feed.allEvents.getLast? = some event → event.offset + 1 = s.feed.nextOffset
  times : s.feed.allEvents.Pairwise fun a b => a.timestamp ≤ b.timestamp
  past : ∀ event ∈ s.feed.allEvents, event.timestamp ≤ s.clock

theorem Inv.boot : Inv {} where
  consecutive := by simp [Feed.offsets]
  last := by simp
  times := by simp
  past := by simp

theorem Inv.recent {s : History} (h : Inv s) : Recent s.feed := ⟨h.consecutive, oldest_offsets s.feed⟩

section
variable {maxLag : Nat} {s s' : History} {l : Label} {event : ChangefeedEvent} {now : UInt64}

/-- Compaction leaves the events from some point on. -/
theorem Inv.suffix (h : Inv s) (now : UInt64) (period : Int) : (s.feed.compactEvents now period).allEvents <:+ s.feed.allEvents := by
  apply Lists.filter_suffix
  apply h.times.imp
  intro a b hab ha
  have hle : a.timestamp.toNat ≤ b.timestamp.toNat := UInt64.le_iff_toNat_le.1 hab
  simp only [Bool.not_eq_true', decide_eq_false_iff_not, Int.not_lt] at ha ⊢
  omega

theorem Inv.compactEvents (h : Inv s) (hclock : s.clock ≤ now) (period : Int) :
    Inv { feed := s.feed.compactEvents now period, clock := now } := by
  have hsuffix := h.suffix now period
  refine ⟨h.consecutive.suffix (hsuffix.map _), ?_, h.times.sublist hsuffix.sublist, ?_⟩
  · intro event hlast
    exact h.last event (Lists.getLast?_of_suffix hsuffix hlast)
  · intro event hmem
    exact UInt64.le_trans (h.past event (hsuffix.subset hmem)) hclock

/-- The old events that stay are followed by the new one exactly when the numbers did not start over between them. -/
theorem Inv.follows (h : Inv s) (n : Nat) :
    Lists.Consecutive (((s.feed.allEvents.drop n) ++ [s.feed.stamped event now]).map fun event => event.offset.toNat) ↔
      s.feed.nextOffset ≠ 0 ∨ s.feed.allEvents.drop n = [] := by
  have hrun : Lists.Consecutive ((s.feed.allEvents.drop n).map fun event => event.offset.toNat) :=
    h.consecutive.suffix ((List.drop_suffix n _).map _)
  rw [List.map_append, List.map_singleton]
  rcases List.eq_nil_or_concat (s.feed.allEvents.drop n) with hnone | ⟨before, last, hlast⟩
  · simp [hnone]
  · have hnext : last.offset + 1 = s.feed.nextOffset := by
      apply h.last last
      apply Lists.getLast?_of_suffix (List.drop_suffix n _)
      simp [hlast]
    have hget : ((s.feed.allEvents.drop n).map fun event => event.offset.toNat).getLast? = some last.offset.toNat := by
      simp [hlast]
    have hover : (last.offset + 1).toNat = last.offset.toNat + 1 ↔ last.offset + 1 ≠ 0 := by
      have hbound := last.offset.toNat_lt
      rw [ne_eq, ← UInt64.toNat_inj, UInt64.toNat_add]
      simp only [UInt64.toNat_one, UInt64.toNat_zero]
      omega
    have hne : s.feed.allEvents.drop n ≠ [] := by simp [hlast]
    rw [Lists.Consecutive.snoc_iff hget, and_iff_right hrun, or_iff_left hne]
    simpa only [Feed.stamped, hnext] using hover

/-- **One step.** A permitted publication keeps the run and ends it. -/
theorem Inv.publishEvent (h : Inv s) (hmax : 1 ≤ maxLag) (hclock : s.clock ≤ now) (hkeep : Keeps maxLag s (.publishEvent event now)) :
    Inv { feed := s.feed.publishEvent maxLag event now, clock := now } ∧
      EndsAtNew maxLag s (.publishEvent event now) { feed := s.feed.publishEvent maxLag event now, clock := now } := by
  obtain ⟨hcap, hover⟩ := hkeep
  have hcap' : 2 ≤ maxLag ∨ (maxLag = 1 ∧ s.feed.allEvents = []) := by
    rcases hcap with h | h
    · exact Or.inl h
    · by_cases htwo : 2 ≤ maxLag
      · exact Or.inl htwo
      · exact Or.inr ⟨by omega, h⟩
  have hall := publishEvent_allEvents event now hcap'
  obtain ⟨hlen, hmost⟩ := kept_le (f := s.feed) hmax
  have hsub : s.feed.allEvents.drop (s.feed.allEvents.length - s.feed.kept maxLag) <:+ s.feed.allEvents := List.drop_suffix _ _
  refine ⟨⟨?_, ?_, ?_, ?_⟩, ?_, ?_⟩
  · show Lists.Consecutive (Feed.offsets _)
    rw [Feed.offsets, hall, h.follows]
    apply hover.imp id
    intro hnone
    rw [hnone]
    simp
  · intro last hlast
    simp only [hall, List.getLast?_append, List.getLast?_singleton, Option.some_or, Option.some.injEq] at hlast
    subst hlast
    rfl
  · show (Feed.publishEvent _ _ _ _).allEvents.Pairwise _
    rw [hall, List.pairwise_append]
    refine ⟨h.times.sublist hsub.sublist, by simp, ?_⟩
    intro a ha b hb
    rw [List.mem_singleton] at hb
    subst hb
    exact UInt64.le_trans (h.past a (hsub.subset ha)) hclock
  · show ∀ old ∈ (Feed.publishEvent _ _ _ _).allEvents, _
    intro old hmem
    rw [hall, List.mem_append, List.mem_singleton] at hmem
    rcases hmem with hmem | rfl
    · exact UInt64.le_trans (h.past old (hsub.subset hmem)) hclock
    · exact UInt64.le_refl _
  · simp [Feed.offsets, hall, Feed.stamped]
  · show (Feed.publishEvent _ _ _ _).allEvents.length ≤ maxLag
    rw [hall]
    simp only [List.length_append, List.length_drop, List.length_singleton]
    omega

/-- **No other step.** Where the run is kept and ends at the new event, the step was permitted. -/
theorem Inv.keeps (h : Inv s) (hmax : 1 ≤ maxLag) (hrecent : Recent (s.feed.publishEvent maxLag event now))
    (hends : EndsAtNew maxLag s (.publishEvent event now) { feed := s.feed.publishEvent maxLag event now, clock := now }) :
    Keeps maxLag s (.publishEvent event now) := by
  by_cases hcap : 2 ≤ maxLag ∨ (maxLag = 1 ∧ s.feed.allEvents = [])
  · refine ⟨hcap.imp id And.right, ?_⟩
    have hrun := hrecent.consecutive
    rw [Feed.offsets, publishEvent_allEvents event now hcap, h.follows] at hrun
    apply hrun.imp id
    intro hnone
    have hle := (kept_le (f := s.feed) hmax).1
    rw [List.drop_eq_nil_iff] at hnone
    omega
  · have hone : maxLag = 1 := by omega
    have hold : s.feed.allEvents ≠ [] := fun hnone => hcap (Or.inr ⟨hone, hnone⟩)
    subst hone
    have hlast := hends.1
    simp [Feed.offsets, publishEvent_one hold] at hlast

theorem Inv.step (h : Inv s) (hmax : 1 ≤ maxLag) (hkeep : Keeps maxLag s l) (hstep : s.step maxLag l = some s') :
    Inv s' ∧ EndsAtNew maxLag s l s' := by
  cases l with
  | publishEvent event now =>
    simp only [History.step] at hstep
    split at hstep
    · rename_i hclock
      cases hstep
      exact h.publishEvent hmax hclock hkeep
    · cases hstep
  | compactEvents now period =>
    simp only [History.step] at hstep
    split at hstep
    · rename_i hclock
      cases hstep
      exact ⟨h.compactEvents hclock period, trivial⟩
    · cases hstep

end

/-- **The retained history is the recent past.** In every run of publications and compactions with a clock that does not
go back, as long as a cap of one finds no older event and the offsets do not start over beside an older one, the retained
events are a run of consecutive offsets, the oldest retained offset is its first, and each publication leaves a run that
ends with its own offset and is not longer than the cap. A publication that does not meet the condition leaves none. -/
theorem retained_recent (maxLag : Nat) (hmax : 1 ≤ maxLag) (ls : List Label) (s : History)
    (hkeep : Allowed (step maxLag) (Keeps maxLag) {} ls) (hrun : run (step maxLag) {} ls = some s) :
    Recent s.feed ∧ Steps (step maxLag) (fun s l s' => Recent s'.feed ∧ EndsAtNew maxLag s l s') {} ls ∧
      ∀ l s', step maxLag s l = some s' → (Recent s'.feed ∧ EndsAtNew maxLag s l s' ↔ Keeps maxLag s l) := by
  have hinv : Inv s := run_invariant Inv (fun t l t' ht hok hstep => (ht.step hmax hok hstep).1) Inv.boot hkeep hrun
  refine ⟨hinv.recent, ?_, ?_⟩
  · exact run_steps Inv (fun t l t' ht hok hstep =>
      ⟨(ht.step hmax hok hstep).1, (ht.step hmax hok hstep).1.recent, (ht.step hmax hok hstep).2⟩) Inv.boot hkeep
  · intro l s' hstep
    constructor
    · rintro ⟨hrecent, hends⟩
      cases l with
      | publishEvent event now =>
        simp only [History.step] at hstep
        split at hstep
        · cases hstep
          exact hinv.keeps hmax hrecent hends
        · cases hstep
      | compactEvents now period => trivial
    · intro hok
      obtain ⟨hinv', hends⟩ := hinv.step hmax hok hstep
      exact ⟨hinv'.recent, hends⟩

/-- Two events, and two more long after them. -/
def fourEvents : List Label := [.publishEvent Delivery.ping 1, .publishEvent Delivery.ping 1,
  .publishEvent Delivery.ping 2000001, .publishEvent Delivery.ping 2000001]

/-- A cap of four, a fifth event and a compaction: the last three are left, and then the last one. -/
theorem retained_recent_four : ∃ s, run (step 4) {} (fourEvents ++ [.publishEvent Delivery.ping 2000002,
      .compactEvents 4000002 2]) = some s ∧ s.feed.offsets = [5] ∧ Recent s.feed :=
  ⟨_, rfl, by decide, (retained_recent 4 (by decide) (fourEvents ++ [.publishEvent Delivery.ping 2000002,
    .compactEvents 4000002 2]) _ (by decide) rfl).1⟩

/-- With a cap of one the second event is gone as soon as it is published. -/
theorem one_entry_lost : ¬ ∀ (maxLag : Nat), 1 ≤ maxLag → ∀ (ls : List Label) (s : History),
    run (step maxLag) {} ls = some s →
      Recent s.feed ∧ Steps (step maxLag) (fun s l s' => Recent s'.feed ∧ EndsAtNew maxLag s l s') {} ls := by
  intro h
  have hsteps := (h 1 (by decide) ([.publishEvent Delivery.ping 1] ++ [.publishEvent Delivery.ping 2]) _ rfl).2
  obtain ⟨-, hlast, -⟩ := hsteps.of_append rfl rfl
  have hnone : (((({} : Feed).publishEvent 1 Delivery.ping 1).publishEvent 1 Delivery.ping 2).offsets).getLast? = none := by
    decide
  exact Option.some_ne_none _ (hlast.symm.trans hnone)

end History

end OriginDB
