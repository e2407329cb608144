import OriginDB.Changefeed.DeliveryOrder
import OriginDB.Changefeed.Retention
/-!
# The metrics of the changefeed (`changefeed_engine.cpp:328-353`)

`GetMetrics` counts the published events by the length of `all_events_`, and a subscription's lag by the difference between
the last offset and its position, both as 64-bit numbers.

- `counts_true`: they are what they say as long as nothing leaves the history and nobody subscribes from an offset that has
  not been given out. The first step that does either makes them wrong.
- `metrics_wrong`: after a trim the count is that of the retained events, and a subscription from an offset that has not been
  given out has a lag near `2^64`.
-/
namespace OriginDB

open JsonDoc ByteCodec Machine

namespace FanOut

section
variable {order : HashOrder} {threads maxLag : Nat} {s s' : FanOut} {l : Label}

/-- Only a publication changes the retained events. -/
theorem retained_delivery {d d' : Delivery} {l : Delivery.Label} (hstep : d.step maxLag l = some d') :
    (∃ event now, l = .push event now ∧ d'.feed = d.feed.publishEvent maxLag event now) ∨
      ((∀ event now, l ≠ .push event now) ∧ d'.feed.allEvents = d.feed.allEvents) := by
  cases l with
  | push event now =>
    simp only [Delivery.step] at hstep
    split at hstep
    · cases hstep
    · cases hstep
      exact Or.inl ⟨event, now, rfl, rfl⟩
  | deliver =>
    refine Or.inr ⟨by simp, ?_⟩
    simp only [Delivery.step, Delivery.advance] at hstep
    repeat' split at hstep
    all_goals first
      | (cases hstep; done)
      | (cases hstep; rfl)
  | notify | start =>
    refine Or.inr ⟨by simp, ?_⟩
    simp only [Delivery.step] at hstep
    repeat' split at hstep
    all_goals first
      | (cases hstep; done)
      | (cases hstep; simp)
  | wake | stop =>
    cases hstep
    exact Or.inr ⟨by simp, by simp⟩

theorem retained_step (hstep : s.step order threads maxLag l = some s') :
    (∃ event now, l = .other (.push event now) ∧ s'.loop.feed = s.loop.feed.publishEvent maxLag event now) ∨
      ((∀ event now, l ≠ .other (.push event now)) ∧ s'.loop.feed.allEvents = s.loop.feed.allEvents) := by
  cases l with
  | other l =>
    obtain ⟨loop, hloop, rfl, -⟩ := step_other hstep
    rcases retained_delivery hloop with ⟨event, now, rfl, hfeed⟩ | ⟨hne, hfeed⟩
    · exact Or.inl ⟨event, now, rfl, hfeed⟩
    · exact Or.inr ⟨fun event now h => hne event now (by simpa using h), hfeed⟩
  | subscribe id callback =>
    cases hstep
    exact Or.inr ⟨by simp, by simp⟩
  | _ =>
    refine Or.inr ⟨by simp, ?_⟩
    simp only [FanOut.step] at hstep
    repeat' split at hstep
    all_goals first
      | (cases hstep; done)
      | (cases hstep; rfl)

/-- Where the position of a subscription comes from. -/
theorem position_step {id : Bytes} {sub : Subscription} (hstep : s.step order threads maxLag l = some s')
    (hsub : s'.subscriptions[id]? = some sub) :
    s.subscriptions[id]? = some sub ∨ (∃ tablePattern, l = .createSubscription tablePattern sub.currentOffset) ∨
      ∃ t ∈ s.returned, sub.currentOffset = t.event.offset := by
  cases l with
  | note t =>
    simp only [FanOut.step] at hstep
    split at hstep
    · rename_i hmem
      cases hstep
      simp only at hsub
      split at hsub
      · exact Or.inl hsub
      · rw [OrdMap.getElem?_insert] at hsub
        split at hsub
        · cases hsub
          exact Or.inr (Or.inr ⟨t, by simpa using hmem, rfl⟩)
        · exact Or.inl hsub
    · cases hstep
  | createSubscription tablePattern startOffset =>
    cases hstep
    rw [OrdMap.getElem?_insert] at hsub
    split at hsub
    · cases hsub
      exact Or.inr (Or.inl ⟨tablePattern, rfl⟩)
    · exact Or.inl hsub
  | deleteSubscription id' =>
    simp only [FanOut.step] at hstep
    split at hstep
    · cases hstep
      exact Or.inl hsub
    · cases hstep
      rw [OrdMap.getElem?_erase] at hsub
      split at hsub
      · cases hsub
      · exact Or.inl hsub
  | other l =>
    obtain ⟨loop, -, rfl, -⟩ := step_other hstep
    exact Or.inl hsub
  | _ =>
    simp only [FanOut.step] at hstep
    repeat' split at hstep
    all_goals first
      | (cases hstep; done)
      | (cases hstep; exact Or.inl hsub)

end

end FanOut

/-- `ChangefeedEngine::Metrics` (changefeed_engine.h:103). -/
structure Metrics where
  totalEventsPublished : UInt64
  totalEventsDelivered : UInt64
  activeSubscriptions : UInt64 := 0
  maxLagMs : UInt64 := 0
  bufferSize : UInt64
  bufferUsed : UInt64
deriving DecidableEq

/-- The body of the loop of `GetMetrics`. -/
def Metrics.count (latest : UInt64) (metrics : Metrics) (sub : Subscription) : Metrics :=
  if sub.isActive then
    let lag := latest - sub.currentOffset
    { metrics with
      activeSubscriptions := metrics.activeSubscriptions + 1
      maxLagMs := if metrics.maxLagMs < lag then lag else metrics.maxLagMs }
  else metrics

/-- The changefeed with what `GetMetrics` reads besides: `delivered_`. -/
structure Measured where
  fanOut : FanOut := {}
  delivered : UInt64 := 0

namespace Measured

inductive Label where
  | fanOut (l : FanOut.Label)
  | compactEvents (now : UInt64) (retentionPeriod : Int)

def Label.publishes : Label → Bool
  | .fanOut l => l.publishes
  | .compactEvents _ _ => false

def feed (s : Measured) : Feed := s.fanOut.loop.feed

/-- `deliver_one` counts what it has delivered at its end; `CompactEvents` waits for a `PublishEvent` that has the lock. -/
def step (order : HashOrder) (threads maxLag : Nat) (s : Measured) : Label → Option Measured
  | .fanOut l => (s.fanOut.step order threads maxLag l).map fun fanOut =>
    { fanOut := fanOut
      delivered := match l with
        | .count _ => s.delivered + 1
        | _ => s.delivered }
  | .compactEvents now period =>
    if s.fanOut.loop.publishing then none
    else some { s with
      fanOut := { s.fanOut with loop := { s.fanOut.loop with feed := s.feed.compactEvents now period } } }

/-- The subscriptions, in the order of the container. -/
def subscriptions (order : HashOrder) (s : Measured) : List Subscription := (order.list s.fanOut.subscriptions).map Prod.snd

/-- `GetMetrics` (changefeed_engine.cpp:328). -/
def getMetrics (order : HashOrder) (bufferSize : UInt64) (s : Measured) : Metrics :=
  (s.subscriptions order).foldl (Metrics.count s.feed.getLatestOffset)
    { totalEventsPublished := UInt64.ofNat s.feed.allEvents.length
      totalEventsDelivered := s.delivered
      bufferSize := bufferSize
      bufferUsed := UInt64.ofNat s.feed.events.length }

/-- How many published events are beyond the position of a subscription. -/
def beyond (s : Measured) (sub : Subscription) : Nat := s.fanOut.events.countP fun event => sub.currentOffset < event.offset

/-- **The metrics are true counts.** -/
structure TrueCounts (order : HashOrder) (bufferSize : UInt64) (s : Measured) : Prop where
  published : (s.getMetrics order bufferSize).totalEventsPublished.toNat = s.fanOut.events.length
  lag : (s.getMetrics order bufferSize).maxLagMs.toNat =
    (((s.subscriptions order).filter (·.isActive)).map s.beyond).foldl max 0

/-- Nothing leaves the history, nobody starts beyond the last offset, and the offsets are not used up. -/
def Counted (maxLag : Nat) (s : Measured) : Label → Prop
  | .fanOut (.other (.push _ _)) =>
    (maxLag = 0 ∨ s.feed.allEvents.length < maxLag) ∧ s.fanOut.events.length + 1 < 2 ^ 64
  | .fanOut (.createSubscription _ startOffset) => startOffset ≤ s.feed.getLatestOffset
  | .compactEvents now period =>
    ∀ event ∈ s.feed.allEvents, (now.toNat : Int) - period * 1000000 ≤ (event.timestamp.toNat : Int)
  | _ => True

/-! ## What one subscription adds -/

section
variable {latest : UInt64} {m : Metrics} {sub : Subscription}

theorem count_published (latest : UInt64) (m : Metrics) (subs : List Subscription) :
    (subs.foldl (Metrics.count latest) m).totalEventsPublished = m.totalEventsPublished := by
  induction subs generalizing m with
  | nil => rfl
  | cons sub subs ih =>
    rw [List.foldl_cons, ih]
    unfold Metrics.count
    split <;> rfl

theorem count_lag (latest : UInt64) (m : Metrics) (subs : List Subscription) :
    (subs.foldl (Metrics.count latest) m).maxLagMs.toNat =
      ((subs.filter (·.isActive)).map fun sub => (latest - sub.currentOffset).toNat).foldl max m.maxLagMs.toNat := by
  induction subs generalizing m with
  | nil => rfl
  | cons sub subs ih =>
    rw [List.foldl_cons, ih]
    by_cases hactive : sub.isActive = true
    · rw [List.filter_cons_of_pos hactive, List.map_cons, List.foldl_cons]
      congr 1
      simp only [Metrics.count, hactive, if_true]
      split
      · rename_i hlt
        exact (Nat.max_eq_right (Nat.le_of_lt (UInt64.lt_iff_toNat_lt.1 hlt))).symm
      · rename_i hge
        exact (Nat.max_eq_left (Nat.le_of_not_lt fun h => hge (UInt64.lt_iff_toNat_lt.2 h))).symm
    · rw [List.filter_cons_of_neg hactive]
      simp [Metrics.count, hactive]

theorem foldl_max_le_iff {l : List Nat} {b n : Nat} : l.foldl max b ≤ n ↔ b ≤ n ∧ ∀ a ∈ l, a ≤ n := by
  induction l generalizing b with
  | nil => simp
  | cons a l ih =>
    rw [List.foldl_cons, ih, Nat.max_le]
    simp [and_assoc]

end

/-- The numbers from one to `n` that are above `c`. -/
theorem countP_lt_range' (c n : Nat) : (List.range' 1 n).countP (fun k => c < k) = n - c := by
  induction n with
  | zero => simp
  | succ n ih =>
    rw [List.range'_1_concat, List.countP_append, ih, List.countP_singleton]
    by_cases h : c < 1 + n
    · rw [if_pos (by simpa using h)]
      omega
    · rw [if_neg (by simpa using h)]
      omega

section
variable {order : HashOrder} {threads maxLag : Nat} {bufferSize : UInt64} {s s' : Measured} {l : Label} {sub : Subscription}

/-- Offsets count from one. -/
theorem offsets_eq (h : s.fanOut.Numbered) (hfew : s.fanOut.events.length < 2 ^ 64) :
    s.fanOut.events.map (fun event => event.offset.toNat) = List.range' 1 s.fanOut.events.length := by
  apply List.ext_getElem
  · simp
  · intro i hi _
    rw [List.length_map] at hi
    have hnat : (UInt64.ofNat i).toNat = i := UInt64.toNat_ofNat_of_lt' (show i < 2 ^ 64 by omega)
    rw [List.getElem_map, List.getElem_range', h.offset i _ (List.getElem?_eq_getElem hi), UInt64.toNat_add, hnat,
      UInt64.toNat_one, Nat.mod_eq_of_lt (by omega)]
    omega

theorem beyond_eq (h : s.fanOut.Numbered) (hfew : s.fanOut.events.length < 2 ^ 64) (sub : Subscription) :
    s.beyond sub = s.fanOut.events.length - sub.currentOffset.toNat := by
  rw [← countP_lt_range', ← offsets_eq h hfew, List.countP_map]
  apply List.countP_congr
  intro event _
  simp [UInt64.lt_iff_toNat_lt]

theorem latest_eq (h : s.fanOut.Numbered) (hfew : s.fanOut.events.length < 2 ^ 64) :
    s.feed.getLatestOffset.toNat = s.fanOut.events.length := by
  have hlast : s.feed.getLatestOffset = UInt64.ofNat s.fanOut.events.length := by
    show s.fanOut.loop.feed.nextOffset - 1 = _
    rw [h.next, UInt64.add_comm, UInt64.add_sub_cancel]
  rw [hlast]
  exact UInt64.toNat_ofNat_of_lt' hfew

/-- The lag of a subscription, and what it is when its position has not been given out. -/
theorem lag_eq (h : s.fanOut.Numbered) (hfew : s.fanOut.events.length < 2 ^ 64) (sub : Subscription) :
    (sub.currentOffset.toNat ≤ s.fanOut.events.length ∧
      (s.feed.getLatestOffset - sub.currentOffset).toNat = s.beyond sub) ∨
    (s.fanOut.events.length < sub.currentOffset.toNat ∧
      s.fanOut.events.length < (s.feed.getLatestOffset - sub.currentOffset).toNat) := by
  have hlatest := latest_eq h hfew
  have hbound := sub.currentOffset.toNat_lt
  rw [UInt64.toNat_sub, hlatest, beyond_eq h hfew]
  by_cases hle : sub.currentOffset.toNat ≤ s.fanOut.events.length
  · refine Or.inl ⟨hle, ?_⟩
    rw [show 2 ^ 64 - sub.currentOffset.toNat + s.fanOut.events.length =
      s.fanOut.events.length - sub.currentOffset.toNat + 2 ^ 64 by omega, Nat.add_mod_right, Nat.mod_eq_of_lt (by omega)]
  · refine Or.inr ⟨by omega, ?_⟩
    rw [Nat.mod_eq_of_lt (by omega)]
    omega

theorem getMetrics_published (order : HashOrder) (bufferSize : UInt64) (s : Measured) :
    (s.getMetrics order bufferSize).totalEventsPublished = UInt64.ofNat s.feed.allEvents.length := count_published _ _ _

theorem getMetrics_lag (order : HashOrder) (bufferSize : UInt64) (s : Measured) :
    (s.getMetrics order bufferSize).maxLagMs.toNat = (((s.subscriptions order).filter (·.isActive)).map fun sub =>
      (s.feed.getLatestOffset - sub.currentOffset).toNat).foldl max 0 := count_lag _ _ _

/-- **The state in which the metrics are true**: the whole history is retained, and every position has been given out. -/
theorem trueCounts_iff (h : s.fanOut.Numbered) (hfew : s.fanOut.events.length < 2 ^ 64)
    (hall : s.feed.allEvents.length ≤ s.fanOut.events.length) :
    TrueCounts order bufferSize s ↔ s.feed.allEvents.length = s.fanOut.events.length ∧
      ∀ sub ∈ s.subscriptions order, sub.isActive = true → sub.currentOffset.toNat ≤ s.fanOut.events.length := by
  have hpublished : (s.getMetrics order bufferSize).totalEventsPublished.toNat = s.feed.allEvents.length := by
    rw [getMetrics_published]
    exact UInt64.toNat_ofNat_of_lt' (show s.feed.allEvents.length < 2 ^ 64 by omega)
  constructor
  · rintro ⟨hcount, hlag⟩
    refine ⟨by rw [← hpublished, hcount], ?_⟩
    intro sub hsub hactive
    rcases lag_eq h hfew sub with ⟨hle, -⟩ | ⟨-, hmore⟩
    · exact hle
    · -- a lag that has wrapped is more than all events, and so is the greatest lag
      rw [getMetrics_lag] at hlag
      have hactive' : sub ∈ (s.subscriptions order).filter (·.isActive) := List.mem_filter.2 ⟨hsub, hactive⟩
      have hge := (foldl_max_le_iff.1 (Nat.le_of_eq hlag)).2 _ (List.mem_map_of_mem hactive')
      have hmost : (((s.subscriptions order).filter (·.isActive)).map s.beyond).foldl max 0 ≤ s.fanOut.events.length := by
        apply foldl_max_le_iff.2
        refine ⟨Nat.zero_le _, ?_⟩
        intro k hk
        obtain ⟨other, -, rfl⟩ := List.mem_map.1 hk
        exact List.countP_le_length
      omega
  · rintro ⟨hcount, hpositions⟩
    refine ⟨by rw [hpublished, hcount], ?_⟩
    rw [getMetrics_lag]
    congr 1
    apply List.map_congr_left
    intro sub hsub
    obtain ⟨hmem, hactive⟩ := List.mem_filter.1 hsub
    have hle := hpositions sub hmem hactive
    rcases lag_eq h hfew sub with ⟨-, heq⟩ | ⟨hlt, -⟩
    · exact heq
    · omega

end

/-! ## Runs -/

/-- The whole history is retained, and every position has been given out. -/
structure Inv (s : Measured) : Prop where
  fanOut : s.fanOut.Inv
  numbered : s.fanOut.Numbered
  few : s.fanOut.events.length < 2 ^ 64
  whole : s.feed.allEvents.length = s.fanOut.events.length
  positions : ∀ (id : Bytes) (sub : Subscription), s.fanOut.subscriptions[id]? = some sub → sub.currentOffset.toNat ≤ s.fanOut.events.length

theorem Inv.boot : Inv {} where
  fanOut := .boot
  numbered := .boot
  few := by simp [FanOut.events, FanOut.finishedFrom, FanOut.pending]
  whole := rfl
  positions := by simp

section
variable {order : HashOrder} {threads maxLag : Nat} {bufferSize : UInt64} {s s' : Measured} {l : Label}

theorem mem_subscriptions {sub : Subscription} :
    sub ∈ s.subscriptions order ↔ ∃ id : Bytes, s.fanOut.subscriptions[id]? = some sub := by
  simp only [subscriptions, List.mem_map, Prod.exists, exists_eq_right]
  constructor
  · rintro ⟨id, hmem⟩
    exact ⟨id, Std.ExtTreeMap.mem_toList_iff_getElem?_eq_some.1 ((order.perm _).mem_iff.1 hmem)⟩
  · rintro ⟨id, hget⟩
    exact ⟨id, (order.perm _).mem_iff.2 (Std.ExtTreeMap.mem_toList_iff_getElem?_eq_some.2 hget)⟩

theorem Inv.trueCounts (h : Inv s) (order : HashOrder) (bufferSize : UInt64) : TrueCounts order bufferSize s := by
  apply (trueCounts_iff h.numbered h.few (Nat.le_of_eq h.whole)).2
  refine ⟨h.whole, ?_⟩
  intro sub hsub _
  obtain ⟨id, hget⟩ := mem_subscriptions.1 hsub
  exact h.positions id sub hget

/-- A publication keeps all there was exactly when the cap is not reached. -/
theorem length_publishEvent (maxLag : Nat) (f : Feed) (event : ChangefeedEvent) (now : UInt64) :
    (f.publishEvent maxLag event now).allEvents.length ≤ f.allEvents.length + 1 ∧
      ((f.publishEvent maxLag event now).allEvents.length = f.allEvents.length + 1 ↔
        maxLag = 0 ∨ f.allEvents.length < maxLag) := by
  by_cases htrim : 0 < maxLag ∧ maxLag < f.allEvents.length + 1
  · have hlen : (f.publishEvent maxLag event now).allEvents.length = maxLag * 3 / 4 := by
      simp only [Feed.publishEvent, List.length_append, List.length_singleton, if_pos htrim, List.length_drop]
      omega
    rw [hlen]
    omega
  · have hlen : (f.publishEvent maxLag event now).allEvents.length = f.allEvents.length + 1 := by
      simp only [Feed.publishEvent, List.length_append, List.length_singleton, if_neg htrim]
    rw [hlen]
    omega

theorem Inv.offset_le (h : Inv s) {event : ChangefeedEvent} (hmem : event ∈ s.fanOut.events) :
    event.offset.toNat ≤ s.fanOut.events.length := Lists.le_of_numbered (offsets_eq h.numbered h.few) hmem

/-- A callback that has returned was for a published event. -/
theorem Inv.returned (h : Inv s) {t : Task} (ht : t ∈ s.fanOut.returned) : t.event ∈ s.fanOut.events := by
  have hbusy : t ∈ s.fanOut.tasks ++ s.fanOut.busy := by simp [FanOut.busy, ht]
  have hphase := (h.fanOut.own t hbusy).2
  simp [FanOut.events, FanOut.pending, hphase]

/-- **A publication.** -/
theorem Inv.push (h : Inv s) {event : ChangefeedEvent} {now : UInt64}
    (hstep : s.step order threads maxLag (.fanOut (.other (.push event now))) = some s') :
    (TrueCounts order bufferSize s' ↔ Counted maxLag s (.fanOut (.other (.push event now)))) ∧
      (Counted maxLag s (.fanOut (.other (.push event now))) → Inv s') := by
  obtain ⟨fanOut, hfan, rfl⟩ := Option.map_eq_some_iff.1 hstep
  have hnumbered := h.numbered.step hfan
  obtain ⟨hle, hiff⟩ := length_publishEvent maxLag s.feed event now
  have hfeed : fanOut.loop.feed = s.feed.publishEvent maxLag event now := by
    rcases FanOut.retained_step hfan with ⟨event', now', heq, hfeed⟩ | ⟨hne, -⟩
    · cases heq
      exact hfeed
    · exact absurd rfl (hne event now)
  have hevents : fanOut.events.length = s.fanOut.events.length + 1 := by
    rcases FanOut.events_step hfan with ⟨event', -, hevents, -⟩ | ⟨-, -, hnot⟩
    · simp [hevents]
    · cases hnot
  have hpositions : ∀ (id : Bytes) (sub : Subscription), fanOut.subscriptions[id]? = some sub → sub.currentOffset.toNat ≤ fanOut.events.length := by
    intro id sub hget
    rcases FanOut.position_step hfan hget with hold | ⟨tablePattern, heq⟩ | ⟨t, ht, heq⟩
    · have := h.positions id sub hold
      omega
    · cases heq
    · have := h.offset_le (h.returned ht)
      rw [heq]
      omega
  have hfew' : Counted maxLag s (.fanOut (.other (.push event now))) → fanOut.events.length < 2 ^ 64 := by
    intro hcounted
    rw [hevents]
    exact hcounted.2
  have hwhole : s.feed.allEvents.length + 1 = fanOut.events.length := by rw [hevents, h.whole]
  constructor
  · by_cases hfew : fanOut.events.length < 2 ^ 64
    · have hretained : (feed { fanOut := fanOut, delivered := s.delivered }).allEvents.length ≤ fanOut.events.length := by
        show fanOut.loop.feed.allEvents.length ≤ _
        rw [hfeed, ← hwhole]
        exact hle
      rw [trueCounts_iff (s := { fanOut := fanOut, delivered := s.delivered }) hnumbered hfew hretained]
      constructor
      · rintro ⟨hlen, -⟩
        refine ⟨hiff.1 ?_, by rw [← hevents]; exact hfew⟩
        rw [← hfeed, hwhole]
        exact hlen
      · rintro ⟨hcap, -⟩
        refine ⟨?_, ?_⟩
        · show fanOut.loop.feed.allEvents.length = fanOut.events.length
          rw [hfeed, ← hwhole]
          exact hiff.2 hcap
        · intro sub hsub _
          obtain ⟨id, hget⟩ := mem_subscriptions.1 hsub
          exact hpositions id sub hget
    · constructor
      · rintro ⟨hcount, -⟩
        have hbound := (getMetrics order bufferSize { fanOut := fanOut, delivered := s.delivered }).totalEventsPublished.toNat_lt
        rw [hcount] at hbound
        exact absurd hbound hfew
      · intro hcounted
        exact absurd (hfew' hcounted) hfew
  · intro hcounted
    refine ⟨h.fanOut.step hfan, hnumbered, hfew' hcounted, ?_, hpositions⟩
    show fanOut.loop.feed.allEvents.length = _
    rw [hfeed, ← hwhole]
    exact hiff.2 hcounted.1

/-- **A step that publishes nothing.** -/
theorem Inv.quiet (h : Inv s) {l : FanOut.Label} (hl : ∀ event now, l ≠ .other (.push event now))
    (hstep : s.step order threads maxLag (.fanOut l) = some s') :
    (TrueCounts order bufferSize s' ↔ Counted maxLag s (.fanOut l)) ∧ (Counted maxLag s (.fanOut l) → Inv s') := by
  obtain ⟨fanOut, hfan, rfl⟩ := Option.map_eq_some_iff.1 hstep
  have hnumbered := h.numbered.step hfan
  have hfeed : fanOut.loop.feed.allEvents = s.feed.allEvents := by
    rcases FanOut.retained_step hfan with ⟨event, now, heq, -⟩ | ⟨-, hfeed⟩
    · exact absurd heq (hl event now)
    · exact hfeed
  have hevents : fanOut.events = s.fanOut.events := by
    rcases FanOut.events_step hfan with ⟨-, -, -, -, hpub⟩ | ⟨hevents, -⟩
    · unfold FanOut.Label.publishes at hpub
      split at hpub
      · rename_i event now
        exact absurd rfl (hl event now)
      · cases hpub
    · exact hevents
  have hfew : fanOut.events.length < 2 ^ 64 := by
    rw [hevents]
    exact h.few
  have hwhole : fanOut.loop.feed.allEvents.length = fanOut.events.length := by
    rw [hfeed, hevents]
    exact h.whole
  have hpositions : Counted maxLag s (.fanOut l) → ∀ (id : Bytes) (sub : Subscription),
      fanOut.subscriptions[id]? = some sub → sub.currentOffset.toNat ≤ fanOut.events.length := by
    intro hcounted id sub hget
    rw [hevents]
    rcases FanOut.position_step hfan hget with hold | ⟨tablePattern, rfl⟩ | ⟨t, ht, heq⟩
    · exact h.positions id sub hold
    · rw [← latest_eq h.numbered h.few]
      exact UInt64.le_iff_toNat_le.1 hcounted
    · rw [heq]
      exact h.offset_le (h.returned ht)
  constructor
  · rw [trueCounts_iff (s := { fanOut := fanOut, delivered := _ }) hnumbered hfew (Nat.le_of_eq hwhole)]
    constructor
    · rintro ⟨-, hall⟩
      cases l with
      | other l =>
        cases l with
        | push event now => exact absurd rfl (hl event now)
        | _ => trivial
      | createSubscription tablePattern startOffset =>
        cases hfan
        have hget : (s.fanOut.subscriptions.insert s.fanOut.nextId { tablePattern := tablePattern, currentOffset := startOffset })[
            s.fanOut.nextId]? = some { tablePattern := tablePattern, currentOffset := startOffset } := by
          rw [OrdMap.getElem?_insert, if_pos rfl]
        have hle : startOffset.toNat ≤ s.fanOut.events.length := hall _ (mem_subscriptions.2 ⟨s.fanOut.nextId, hget⟩) rfl
        apply UInt64.le_iff_toNat_le.2
        rw [latest_eq h.numbered h.few]
        exact hle
      | _ => trivial
    · intro hcounted
      refine ⟨hwhole, ?_⟩
      intro sub hsub _
      obtain ⟨id, hget⟩ := mem_subscriptions.1 hsub
      exact hpositions hcounted id sub hget
  · intro hcounted
    exact ⟨h.fanOut.step hfan, hnumbered, hfew, hwhole, hpositions hcounted⟩

/-- **A compaction.** -/
theorem Inv.compactEvents (h : Inv s) {now : UInt64} {period : Int}
    (hstep : s.step order threads maxLag (.compactEvents now period) = some s') :
    (TrueCounts order bufferSize s' ↔ Counted maxLag s (.compactEvents now period)) ∧
      (Counted maxLag s (.compactEvents now period) → Inv s') := by
  simp only [Measured.step] at hstep
  split at hstep
  · cases hstep
  · cases hstep
    have hkept : (s.feed.compactEvents now period).allEvents.length = s.feed.allEvents.length ↔
        Counted maxLag s (.compactEvents now period) := by
      simp only [Feed.compactEvents, Counted, List.length_filter_eq_length_iff, Bool.not_eq_true', decide_eq_false_iff_not,
        Int.not_lt]
    have hle : (s.feed.compactEvents now period).allEvents.length ≤ s.feed.allEvents.length := List.length_filter_le _ _
    let t : Measured := { s with
      fanOut := { s.fanOut with loop := { s.fanOut.loop with feed := s.feed.compactEvents now period } } }
    have hnumbered : t.fanOut.Numbered := ⟨h.numbered.next, h.numbered.offset⟩
    constructor
    · rw [trueCounts_iff (s := t) hnumbered h.few (Nat.le_trans hle (Nat.le_of_eq h.whole)), ← hkept, h.whole]
      constructor
      · rintro ⟨hlen, -⟩
        exact hlen
      · intro hlen
        refine ⟨hlen, ?_⟩
        intro sub hsub _
        obtain ⟨id, hget⟩ := mem_subscriptions.1 hsub
        exact h.positions id sub hget
    · intro hcounted
      exact ⟨h.fanOut.loop _ fun _ h => h, hnumbered, h.few, (hkept.2 hcounted).trans h.whole, h.positions⟩

/-- **One step.** The metrics stay true exactly when the step meets the condition. -/
theorem Inv.step (h : Inv s) (order : HashOrder) (bufferSize : UInt64) (hstep : s.step order threads maxLag l = some s') :
    (TrueCounts order bufferSize s' ↔ Counted maxLag s l) ∧ (Counted maxLag s l → Inv s') := by
  cases l with
  | compactEvents now period => exact h.compactEvents hstep
  | fanOut l =>
    by_cases hl : ∀ event now, l ≠ .other (.push event now)
    · exact h.quiet hl hstep
    · push Not at hl
      obtain ⟨event, now, rfl⟩ := hl
      exact h.push hstep

/-- The published events are counted. -/
theorem length_events_step (hstep : s.step order threads maxLag l = some s') :
    s'.fanOut.events.length = s.fanOut.events.length + if l.publishes then 1 else 0 := by
  cases l with
  | fanOut l =>
    obtain ⟨fanOut, hfan, rfl⟩ := Option.map_eq_some_iff.1 hstep
    rcases FanOut.events_step hfan with ⟨event, -, hevents, -, hl⟩ | ⟨hevents, -, hl⟩
    · simp [hevents, Label.publishes, hl]
    · simp [hevents, Label.publishes, hl]
  | compactEvents now period =>
    simp only [Measured.step] at hstep
    split at hstep
    · cases hstep
    · cases hstep
      rfl

end

/-- **The metrics are true counts.** In every run of publishers, the delivery thread, its workers, subscribers and
compactions in which nothing leaves the history, nobody subscribes from an offset that has not been given out and fewer than
`2^64` events are published, the count is that of the published events and does not fall, and the greatest lag is the
greatest number of published events beyond the position of an active subscription. The first step that does not meet the
condition makes them wrong. -/
theorem counts_true (order : HashOrder) (threads maxLag : Nat) (bufferSize : UInt64) (ls : List Label) (s : Measured)
    (hcounted : Allowed (step order threads maxLag) (Counted maxLag) {} ls)
    (hrun : run (step order threads maxLag) {} ls = some s) :
    (TrueCounts order bufferSize s ∧ s.fanOut.events.length = ls.countP Label.publishes) ∧
      Steps (step order threads maxLag) (fun s _ s' => (s.getMetrics order bufferSize).totalEventsPublished ≤
        (s'.getMetrics order bufferSize).totalEventsPublished) {} ls ∧
      ∀ l s', s.step order threads maxLag l = some s' → (TrueCounts order bufferSize s' ↔ Counted maxLag s l) := by
  have hstep : ∀ t l t', Inv t → Counted maxLag t l → t.step order threads maxLag l = some t' → Inv t' :=
    fun t l t' ht hok hstep => (ht.step order bufferSize hstep).2 hok
  have h : Inv s := run_invariant Inv hstep Inv.boot hcounted hrun
  have hlength : s.fanOut.events.length = ls.countP Label.publishes := by
    refine history_invariant (fun ls s => s.fanOut.events.length = ls.countP Label.publishes) rfl ?_ hcounted hrun
    intro ls t l t' _ ht _ hstep
    rw [length_events_step hstep, ht, List.countP_append, List.countP_singleton]
  refine ⟨⟨h.trueCounts order bufferSize, hlength⟩, ?_, fun l s' hl => (h.step order bufferSize hl).1⟩
  apply run_steps Inv ?_ Inv.boot hcounted
  intro t l t' ht hok hl
  have ht' := hstep t l t' ht hok hl
  refine ⟨ht', ?_⟩
  apply UInt64.le_iff_toNat_le.2
  rw [(ht.trueCounts order bufferSize).published, (ht'.trueCounts order bufferSize).published, length_events_step hl]
  exact Nat.le_add_right _ _

instance (maxLag : Nat) : ∀ (s : Measured) (l : Label), Decidable (Counted maxLag s l)
  | s, .fanOut (.other (.push _ _)) =>
    inferInstanceAs (Decidable ((maxLag = 0 ∨ s.feed.allEvents.length < maxLag) ∧ s.fanOut.events.length + 1 < 2 ^ 64))
  | s, .fanOut (.createSubscription _ startOffset) => inferInstanceAs (Decidable (startOffset ≤ s.feed.getLatestOffset))
  | s, .compactEvents now period =>
    inferInstanceAs (Decidable (∀ event ∈ s.feed.allEvents, (now.toNat : Int) - period * 1000000 ≤ (event.timestamp.toNat : Int)))
  | _, .fanOut (.other .notify) | _, .fanOut (.other .deliver) | _, .fanOut (.other .wake) | _, .fanOut (.other .start)
  | _, .fanOut (.other .stop) | _, .fanOut .choose | _, .fanOut .take | _, .fanOut (.ends _ _) | _, .fanOut (.note _)
  | _, .fanOut (.count _) | _, .fanOut .finish | _, .fanOut (.deleteSubscription _) | _, .fanOut (.subscribe _ _)
  | _, .fanOut (.unsubscribe _) => isTrue trivial

/-- An event is published. -/
def published (now : UInt64) : List Label := [.fanOut (.other (.push Delivery.ping now)), .fanOut (.other .notify)]

/-- A subscription before two events, and a compaction that is not yet due. -/
def twoBeyond : List Label :=
  .fanOut (.createSubscription (str "t") 0) :: published 5 ++ published 6 ++ [.compactEvents 1000005 1]

theorem counts_true_two : ∃ s, run (step .sorted 1 2) {} twoBeyond = some s ∧ TrueCounts .sorted 100 s ∧
    (s.getMetrics .sorted 100).totalEventsPublished = 2 ∧ (s.getMetrics .sorted 100).maxLagMs = 2 :=
  ⟨_, rfl, (counts_true .sorted 1 2 100 twoBeyond _ (by decide) rfl).1.1, by decide, by decide⟩

/-- Under a cap of two the third event leaves one and a count of one; and whoever subscribes from offset 2 before there is
an event lags by `2^64 - 2`. -/
theorem metrics_wrong :
    (∃ s, run (step .sorted 1 2) {} (published 1 ++ published 2 ++ published 3) = some s ∧ ¬ TrueCounts .sorted 100 s ∧
      (s.getMetrics .sorted 100).totalEventsPublished = 1 ∧ s.fanOut.events.length = 3) ∧
    (∃ s, run (step .sorted 1 2) {} [.fanOut (.createSubscription (str "t") 2)] = some s ∧ ¬ TrueCounts .sorted 100 s ∧
      (s.getMetrics .sorted 100).maxLagMs = 0xfffffffffffffffe ∧ s.fanOut.events.length = 0) := by
  have hmany : ((run (step .sorted 1 2) {} (published 1 ++ published 2 ++ published 3)).map fun s =>
      ((s.getMetrics .sorted 100).totalEventsPublished, s.fanOut.events.length)) = some (1, 3) := by decide
  have hfuture : ((run (step .sorted 1 2) {} [.fanOut (.createSubscription (str "t") 2)]).map fun s =>
      ((s.getMetrics .sorted 100).maxLagMs, s.fanOut.events.length,
        (((s.subscriptions .sorted).filter (·.isActive)).map s.beyond).foldl max 0)) =
      some (0xfffffffffffffffe, 0, 0) := by decide
  obtain ⟨s, hs, hvals⟩ := Option.map_eq_some_iff.1 hmany
  obtain ⟨t, ht, htvals⟩ := Option.map_eq_some_iff.1 hfuture
  simp only [Prod.mk.injEq] at hvals htvals
  refine ⟨⟨s, hs, ?_, hvals⟩, t, ht, ?_, htvals.1, htvals.2.1⟩
  · intro htrue
    have hcount := htrue.published
    rw [hvals.1, hvals.2] at hcount
    cases hcount
  · intro htrue
    have hlag := htrue.lag
    rw [htvals.1, htvals.2.2] at hlag
    cases hlag

end Measured

end OriginDB
