import OriginDB.Changefeed.DeliveryOrder
import OriginDB.Changefeed.Retention
import OriginDB.Lib.Cursor
/-!
# Reading the history page by page (`changefeed_engine.cpp:303-322, 473-492`)

A reader calls `GetEvents(sub, s, n)`, next time with `s` one above the last offset it was given, while events are
published and the history is shortened. The filter stands inside the limit, so a page that is not full has looked at
everything.

- `pages_exact`: as long as nothing is trimmed before it is read, a reader has after a short page every matching event from
  its start on, once and in order. `published`, `start` and `collected` are history no step reads.
- `offset_wraps`: behind the last 64-bit offset the position is zero, and the reader begins again.
-/
namespace OriginDB

open JsonDoc ByteCodec Machine

/-- `MatchesFilter` (changefeed_engine.cpp:473): a subscription that is not there matches nothing. -/
def subscriptionMatches (subscriptions : StrMap Subscription) (id : Bytes) (event : ChangefeedEvent) : Bool :=
  match subscriptions[id]? with
  | none => false
  | some sub => matchesFilter sub.tablePattern event

/-- The loop of `GetEvents`, with what is left of `all_events_`. The limit is looked at after each match. -/
def getEventsLoop (subscriptions : StrMap Subscription) (id : Bytes) (startOffset : UInt64) (limit : Nat) :
    List ChangefeedEvent → List ChangefeedEvent → List ChangefeedEvent
  | result, [] => result
  | result, event :: rest =>
    if startOffset ≤ event.offset then
      if subscriptionMatches subscriptions id event then
        if limit ≤ (result ++ [event]).length then result ++ [event]
        else getEventsLoop subscriptions id startOffset limit (result ++ [event]) rest
      else getEventsLoop subscriptions id startOffset limit result rest
    else getEventsLoop subscriptions id startOffset limit result rest

/-- `GetEvents` (changefeed_engine.cpp:303). -/
def Feed.getEvents (f : Feed) (subscriptions : StrMap Subscription) (id : Bytes) (startOffset : UInt64) (limit : Nat) :
    List ChangefeedEvent :=
  getEventsLoop subscriptions id startOffset limit [] f.allEvents

section
variable {subscriptions : StrMap Subscription} {id : Bytes} {startOffset : UInt64} {limit : Nat}

/-- The loop takes the first matching events that the limit leaves room for. -/
theorem getEventsLoop_eq {result : List ChangefeedEvent} (hroom : result.length < limit) (rest : List ChangefeedEvent) :
    getEventsLoop subscriptions id startOffset limit result rest = result ++
      ((rest.filter (subscriptionMatches subscriptions id)).filter fun event => startOffset.toNat ≤ event.offset.toNat).take
        (limit - result.length) := by
  induction rest generalizing result with
  | nil => simp [getEventsLoop]
  | cons event rest ih =>
    simp only [getEventsLoop]
    by_cases hm : subscriptionMatches subscriptions id event = true
    · rw [List.filter_cons_of_pos hm]
      by_cases ho : startOffset ≤ event.offset
      · have hpos : startOffset.toNat ≤ event.offset.toNat := UInt64.le_iff_toNat_le.1 ho
        rw [if_pos ho, if_pos hm]
        simp only [List.filter_cons, hpos, decide_true, if_true]
        have hsub : limit - result.length = (limit - (result ++ [event]).length) + 1 := by
          rw [List.length_append, List.length_singleton]
          omega
        rw [hsub, List.take_succ_cons]
        split
        · rename_i hfull
          rw [Nat.sub_eq_zero_of_le hfull, List.take_zero]
        · rename_i hleft
          rw [ih (by omega), List.append_assoc, List.singleton_append]
      · have hneg : ¬ startOffset.toNat ≤ event.offset.toNat := fun h => ho (UInt64.le_iff_toNat_le.2 h)
        rw [if_neg ho, ih hroom]
        simp [hneg]
    · rw [if_neg hm, List.filter_cons_of_neg hm, ite_self, ih hroom]

theorem getEvents_eq (f : Feed) (hlimit : 1 ≤ limit) : f.getEvents subscriptions id startOffset limit =
    ((f.allEvents.filter (subscriptionMatches subscriptions id)).filter fun event =>
      startOffset.toNat ≤ event.offset.toNat).take limit := by
  rw [Feed.getEvents, getEventsLoop_eq hlimit]
  simp

end

/-! ## Runs -/

/-- The changefeed and one reader. -/
structure Paging where
  feed : Feed := {}
  position : UInt64 := 0
  published : List ChangefeedEvent := []
  start : UInt64 := 0
  collected : List ChangefeedEvent := []

namespace Paging

inductive Label where
  | publishEvent (event : ChangefeedEvent) (now : UInt64)
  | compactEvents (now : UInt64) (retentionPeriod : Int)
  /-- The reader begins. -/
  | begin (startOffset : UInt64)
  | getEvents

section
variable (subscriptions : StrMap Subscription) (id : Bytes) (maxLag limit : Nat)

/-- The page the reader is given next. -/
def page (s : Paging) : List ChangefeedEvent := s.feed.getEvents subscriptions id s.position limit

def step (s : Paging) : Label → Option Paging
  | .publishEvent event now => some { s with
      feed := s.feed.publishEvent maxLag event now
      published := s.published ++ [s.feed.stamped event now] }
  | .compactEvents now period => some { s with feed := s.feed.compactEvents now period }
  | .begin startOffset => some { s with position := startOffset, start := startOffset, collected := [] }
  | .getEvents => some { s with
      position := match (s.page subscriptions id limit).getLast? with
        | none => s.position
        | some event => event.offset + 1
      collected := s.collected ++ s.page subscriptions id limit }

/-- What the reader is there for. -/
def wanted (s : Paging) : List ChangefeedEvent :=
  (s.published.filter (subscriptionMatches subscriptions id)).filter fun event => s.start.toNat ≤ event.offset.toNat

/-- Nothing it has not read is trimmed. -/
def Kept (s : Paging) : Prop := ∀ event ∈ s.wanted subscriptions id, event ∉ s.collected → event ∈ s.feed.allEvents

/-- The step trims nothing that is not read. -/
def Spares (s : Paging) (l : Label) : Prop := ∀ s', s.step subscriptions id maxLag limit l = some s' → s'.Kept subscriptions id

/-- The reader begins at the oldest retained offset or above it. -/
def FromRetained (s : Paging) : Label → Prop
  | .begin startOffset => s.feed.getOldestRetainedOffset ≤ startOffset
  | _ => True

/-- Fewer than `2^64 - 1` events are published. -/
def InRange (s : Paging) : Label → Prop
  | .publishEvent _ _ => s.published.length + 1 < 2 ^ 64 - 1
  | _ => True

instance (s : Paging) : Decidable (s.Kept subscriptions id) :=
  inferInstanceAs (Decidable (∀ event ∈ s.wanted subscriptions id, event ∉ s.collected → event ∈ s.feed.allEvents))

instance (s : Paging) (l : Label) : Decidable (s.Spares subscriptions id maxLag limit l) :=
  decidable_of_iff (((s.step subscriptions id maxLag limit l).all fun s' => s'.Kept subscriptions id) = true)
    (by unfold Spares; cases s.step subscriptions id maxLag limit l <;> simp)

instance (s : Paging) : ∀ l : Label, Decidable (s.InRange l)
  | .publishEvent _ _ => inferInstanceAs (Decidable (s.published.length + 1 < 2 ^ 64 - 1))
  | .compactEvents _ _ | .begin _ | .getEvents => isTrue trivial

end

/-- The events are numbered from one, and the reader has those it wants below its position. -/
structure Inv (subscriptions : StrMap Subscription) (id : Bytes) (s : Paging) : Prop where
  numbered : (s.published.map fun event => event.offset.toNat) = List.range' 1 s.published.length
  next : s.feed.nextOffset.toNat = s.published.length + 1
  retained : s.feed.allEvents.Sublist s.published
  kept : s.Kept subscriptions id
  collected : s.collected = (s.wanted subscriptions id).filter fun event => event.offset.toNat < s.position.toNat
  from_start : s.start ≤ s.position
  not_ahead : s.position = s.start ∨ s.position ≤ s.feed.nextOffset

theorem Inv.boot (subscriptions : StrMap Subscription) (id : Bytes) : Inv subscriptions id {} where
  numbered := rfl
  next := rfl
  retained := List.Sublist.refl _
  kept := by simp [Kept, wanted]
  collected := by simp [wanted]
  from_start := UInt64.le_refl _
  not_ahead := Or.inl rfl

section
variable {subscriptions : StrMap Subscription} {id : Bytes} {maxLag limit : Nat} {s s' : Paging} {l : Label}
  {event : ChangefeedEvent} {now : UInt64}

theorem Inv.increasing (h : Inv subscriptions id s) :
    s.published.Pairwise fun a b => a.offset.toNat < b.offset.toNat := by
  rw [← List.pairwise_map (f := fun event : ChangefeedEvent => event.offset.toNat), h.numbered]
  exact List.pairwise_lt_range'

theorem Inv.wanted_increasing (h : Inv subscriptions id s) :
    (s.wanted subscriptions id).Pairwise fun a b => a.offset.toNat < b.offset.toNat :=
  h.increasing.sublist (List.filter_sublist.trans List.filter_sublist)

/-- An offset that has been given out is below the next one. -/
theorem Inv.offset_lt (h : Inv subscriptions id s) (hmem : event ∈ s.published) : event.offset.toNat < s.feed.nextOffset.toNat := by
  have hle := Lists.le_of_numbered h.numbered hmem
  have hnext := h.next
  omega

theorem mem_wanted : event ∈ s.wanted subscriptions id ↔
    (event ∈ s.published ∧ subscriptionMatches subscriptions id event = true) ∧ s.start.toNat ≤ event.offset.toNat := by
  rw [wanted, List.mem_filter, List.mem_filter, decide_eq_true_eq]

/-- **A page** is the next of what the reader wants. -/
theorem Inv.page_eq (h : Inv subscriptions id s) (hlimit : 1 ≤ limit) : s.page subscriptions id limit =
    ((s.wanted subscriptions id).filter fun event => s.position.toNat ≤ event.offset.toNat).take limit := by
  rw [page, getEvents_eq _ hlimit]
  congr 1
  have hstart := UInt64.le_iff_toNat_le.1 h.from_start
  have hwanted : ((s.wanted subscriptions id).filter fun event => decide (s.position.toNat ≤ event.offset.toNat)) =
      (s.published.filter (subscriptionMatches subscriptions id)).filter fun event =>
        decide (s.position.toNat ≤ event.offset.toNat) := by
    rw [wanted, List.filter_filter]
    apply List.filter_congr
    intro event _
    by_cases hle : s.position.toNat ≤ event.offset.toNat
    · simp [hle, Nat.le_trans hstart hle]
    · simp [hle]
  rw [hwanted]
  apply Cursor.eq_of_sublist
  · exact (h.retained.filter _).filter _
  · have hnodup : s.published.Nodup := h.increasing.imp fun hlt heq => by simp [heq] at hlt
    exact (hnodup.filter _).filter _
  · intro event hmem
    rw [← hwanted, List.mem_filter] at hmem
    obtain ⟨hwant, hle⟩ := hmem
    have hnew : event ∉ s.collected := by
      intro hold
      rw [h.collected, List.mem_filter] at hold
      have := hold.2
      simp only [decide_eq_true_eq] at this hle
      omega
    obtain ⟨⟨-, hmatch⟩, -⟩ := mem_wanted.1 hwant
    exact List.mem_filter.2 ⟨List.mem_filter.2 ⟨h.kept event hwant hnew, hmatch⟩, hle⟩

theorem publishEvent_sublist (f : Feed) : (f.publishEvent maxLag event now).allEvents.Sublist (f.allEvents ++ [f.stamped event now]) := by
  simp only [Feed.publishEvent, Feed.stamped]
  split
  · exact List.drop_sublist _ _
  · exact List.Sublist.refl _

theorem Inv.publishEvent (h : Inv subscriptions id s) (hrange : s.published.length + 1 < 2 ^ 64 - 1)
    (hstep : s.step subscriptions id maxLag limit (.publishEvent event now) = some s') (hkept : s'.Kept subscriptions id) :
    Inv subscriptions id s' := by
  cases hstep
  have hnext : (s.feed.nextOffset + 1).toNat = s.feed.nextOffset.toNat + 1 := by
    have := h.next
    rw [UInt64.toNat_add, UInt64.toNat_one, Nat.mod_eq_of_lt (by omega)]
  refine ⟨?_, ?_, ?_, hkept, ?_, h.from_start, ?_⟩
  · rw [List.map_append, h.numbered, List.length_append, List.length_singleton, List.range'_1_concat]
    simp [Feed.stamped, h.next, Nat.add_comm]
  · show (s.feed.nextOffset + 1).toNat = _
    rw [hnext, h.next, List.length_append, List.length_singleton]
  · exact (publishEvent_sublist s.feed).trans (h.retained.append_right _)
  · show s.collected = _
    simp only [wanted, List.filter_append]
    rw [h.collected, wanted]
    conv => lhs; rw [← List.append_nil (List.filter _ _)]
    congr 1
    symm
    apply List.filter_eq_nil_iff.2
    intro new hmem
    obtain ⟨hmem, hstart⟩ := List.mem_filter.1 hmem
    obtain rfl := List.mem_singleton.1 (List.mem_filter.1 hmem).1
    have hstart' : s.start.toNat ≤ s.feed.nextOffset.toNat := of_decide_eq_true hstart
    have hpos : s.position.toNat ≤ s.feed.nextOffset.toNat := by
      rcases h.not_ahead with heq | hle
      · rwa [heq]
      · exact UInt64.le_iff_toNat_le.1 hle
    intro hbelow
    exact Nat.not_lt.2 hpos (of_decide_eq_true hbelow)
  · apply h.not_ahead.imp_right
    intro hle
    have := UInt64.le_iff_toNat_le.1 hle
    apply UInt64.le_iff_toNat_le.2
    show s.position.toNat ≤ (s.feed.nextOffset + 1).toNat
    omega

theorem Inv.compactEvents {period : Int} (h : Inv subscriptions id s)
    (hstep : s.step subscriptions id maxLag limit (.compactEvents now period) = some s') (hkept : s'.Kept subscriptions id) :
    Inv subscriptions id s' := by
  cases hstep
  exact ⟨h.numbered, h.next, List.filter_sublist.trans h.retained, hkept, h.collected, h.from_start, h.not_ahead⟩

theorem Inv.begin {startOffset : UInt64} (h : Inv subscriptions id s)
    (hstep : s.step subscriptions id maxLag limit (.begin startOffset) = some s') (hkept : s'.Kept subscriptions id) :
    Inv subscriptions id s' := by
  cases hstep
  refine ⟨h.numbered, h.next, h.retained, hkept, ?_, UInt64.le_refl _, Or.inl rfl⟩
  symm
  apply List.filter_eq_nil_iff.2
  intro event hmem
  have := (mem_wanted.1 hmem).2
  simpa using this

theorem Inv.getEvents (h : Inv subscriptions id s) (hlimit : 1 ≤ limit)
    (hrange : s.feed.nextOffset.toNat < 2 ^ 64) (hstep : s.step subscriptions id maxLag limit .getEvents = some s') :
    Inv subscriptions id s' := by
  have hpage := h.page_eq hlimit
  have hin : ∀ event ∈ s.page subscriptions id limit,
      event ∈ s.wanted subscriptions id ∧ s.position.toNat ≤ event.offset.toNat := by
    intro event hmem
    rw [hpage] at hmem
    simpa using List.mem_of_mem_take hmem
  have hkept : ∀ event ∈ s.wanted subscriptions id,
      event ∉ s.collected ++ s.page subscriptions id limit → event ∈ s.feed.allEvents := by
    intro event hwant hnew
    exact h.kept event hwant fun hold => hnew (List.mem_append_left _ hold)
  cases hlast : (s.page subscriptions id limit).getLast? with
  | none =>
    have hempty : s.page subscriptions id limit = [] := List.getLast?_eq_none_iff.1 hlast
    simp only [step, hlast, Option.some.injEq] at hstep
    subst hstep
    refine ⟨h.numbered, h.next, h.retained, hkept, ?_, h.from_start, h.not_ahead⟩
    show s.collected ++ s.page subscriptions id limit = _
    rw [hempty, List.append_nil]
    exact h.collected
  | some last =>
    simp only [step, hlast, Option.some.injEq] at hstep
    subst hstep
    obtain ⟨hwant, hpos⟩ := hin last (List.mem_of_getLast? hlast)
    have hbelow : last.offset.toNat < s.feed.nextOffset.toNat := h.offset_lt (mem_wanted.1 hwant).1.1
    have hsucc : (last.offset + 1).toNat = last.offset.toNat + 1 := by
      rw [UInt64.toNat_add, UInt64.toNat_one, Nat.mod_eq_of_lt (by omega)]
    refine ⟨h.numbered, h.next, h.retained, hkept, ?_, ?_, Or.inr ?_⟩
    · show s.collected ++ s.page subscriptions id limit = (s.wanted subscriptions id).filter fun event =>
        event.offset.toNat < (last.offset + 1).toNat
      rw [hpage] at hlast
      rw [h.collected, hpage, hsucc]
      exact Cursor.page h.wanted_increasing hlast
    · apply UInt64.le_iff_toNat_le.2
      show s.start.toNat ≤ (last.offset + 1).toNat
      have := UInt64.le_iff_toNat_le.1 h.from_start
      omega
    · apply UInt64.le_iff_toNat_le.2
      show (last.offset + 1).toNat ≤ s.feed.nextOffset.toNat
      omega

/-- **What one step keeps.** -/
theorem Inv.step (h : Inv subscriptions id s) (hlimit : 1 ≤ limit) (hspares : s.Spares subscriptions id maxLag limit l)
    (hrange : s.InRange l) (hstep : s.step subscriptions id maxLag limit l = some s') : Inv subscriptions id s' := by
  cases l with
  | publishEvent event now => exact h.publishEvent hrange hstep (hspares s' hstep)
  | compactEvents now period => exact h.compactEvents hstep (hspares s' hstep)
  | begin startOffset => exact h.begin hstep (hspares s' hstep)
  | getEvents => exact h.getEvents hlimit s.feed.nextOffset.toNat_lt hstep

/-- Where the history is a run of offsets that ends below the next one, a reader may begin anywhere from the oldest retained
offset on. -/
theorem Inv.begins (h : Inv subscriptions id s) (hrun : Lists.Consecutive s.feed.offsets) {last : ChangefeedEvent}
    (hlast : s.feed.allEvents.getLast? = some last) (hnext : last.offset + 1 = s.feed.nextOffset) {startOffset : UInt64}
    (hstart : s.feed.getOldestRetainedOffset ≤ startOffset) :
    s.Spares subscriptions id maxLag limit (.begin startOffset) := by
  intro s' hstep event hwant _
  cases hstep
  obtain ⟨⟨hmem, -⟩, hle⟩ := mem_wanted.1 hwant
  obtain ⟨first, hoffsets⟩ := hrun
  have hoffset : event.offset.toNat ∈ s.feed.offsets := by
    have hne : s.feed.allEvents ≠ [] := by
      intro hnil
      simp [hnil] at hlast
    have hlen : s.feed.offsets.length = s.feed.allEvents.length := by simp [Feed.offsets]
    have hpos := List.length_pos_iff.2 hne
    have holdest : s.feed.getOldestRetainedOffset.toNat = first := by
      rw [History.oldest_offsets, hoffsets, hlen, ← Nat.succ_pred_eq_of_pos hpos]
      rfl
    have hend : last.offset.toNat = first + s.feed.allEvents.length - 1 := by
      have hget : s.feed.offsets.getLast? = some last.offset.toNat := by simp [Feed.offsets, hlast]
      rw [hoffsets, hlen, List.getLast?_range', if_neg (by omega)] at hget
      simpa using hget.symm
    have hbelow : event.offset.toNat < s.feed.nextOffset.toNat := h.offset_lt hmem
    have hsucc : last.offset.toNat + 1 = s.feed.nextOffset.toNat := by
      have hlt := h.offset_lt (h.retained.subset (List.mem_of_getLast? hlast))
      have := s.feed.nextOffset.toNat_lt
      rw [← hnext, UInt64.toNat_add, UInt64.toNat_one, Nat.mod_eq_of_lt (by omega)]
    have := UInt64.le_iff_toNat_le.1 hstart
    change startOffset.toNat ≤ event.offset.toNat at hle
    rw [hoffsets, hlen, List.mem_range'_1]
    omega
  obtain ⟨kept, hkept, heq⟩ := List.mem_map.1 hoffset
  -- two published events do not share an offset
  have hsame : kept = event := by
    have hnodup : (s.published.map fun event => event.offset.toNat).Nodup := by
      rw [h.numbered]
      exact List.nodup_range'
    exact List.inj_on_of_nodup_map hnodup (h.retained.subset hkept) hmem heq
  rw [← hsame]
  exact hkept

end

/-- **Paging misses and repeats nothing.** In every run of publications, compactions and calls of one reader after another,
in which nothing is trimmed that the reader has not read and fewer than `2^64 - 1` events are published, the reader has
what it wants of the events below its position, and with a page that is not full everything it wants of what is published
so far. What it wants stands in the order of the offsets, so it has each event once. -/
theorem pages_exact (subscriptions : StrMap Subscription) (id : Bytes) (maxLag limit : Nat) (hlimit : 1 ≤ limit)
    (ls : List Label) (s : Paging)
    (hok : Allowed (step subscriptions id maxLag limit) (fun s l => s.Spares subscriptions id maxLag limit l ∧ s.InRange l) {} ls)
    (hrun : run (step subscriptions id maxLag limit) {} ls = some s) :
    (s.collected = (s.wanted subscriptions id).filter fun event => event.offset.toNat < s.position.toNat) ∧
      ((s.page subscriptions id limit).length < limit →
        s.collected ++ s.page subscriptions id limit = s.wanted subscriptions id) ∧
      (s.wanted subscriptions id).Pairwise fun a b => a.offset.toNat < b.offset.toNat := by
  have h : Inv subscriptions id s := run_invariant (Inv subscriptions id)
    (fun t l t' ht hok hstep => ht.step hlimit hok.1 hok.2 hstep) (Inv.boot subscriptions id) hok hrun
  refine ⟨h.collected, ?_, h.wanted_increasing⟩
  intro hshort
  rw [h.page_eq hlimit] at hshort ⊢
  rw [h.collected]
  exact Cursor.page_short h.wanted_increasing hshort

/-- One subscription, on the table `t`. -/
def onT : StrMap Subscription := (∅ : StrMap Subscription).insert (str "sub-1") { tablePattern := str "t", currentOffset := 0 }

/-- A reader from offset 2 on, with an event for it before its first call, between its calls and after the last, and one that
is not for it. -/
def readInTwo : List Label := [.publishEvent Delivery.ping 0, .publishEvent Delivery.ping 0, .publishEvent FanOut.pong 0,
  .begin 2, .getEvents, .publishEvent Delivery.ping 0, .getEvents]

theorem pages_exact_two : ∃ s, run (step onT (str "sub-1") 100 1) {} readInTwo = some s ∧
    s.collected ++ s.page onT (str "sub-1") 1 = s.wanted onT (str "sub-1") ∧
    (s.wanted onT (str "sub-1")).map (fun event => event.offset) = [2, 4] :=
  ⟨_, rfl, (pages_exact onT (str "sub-1") 100 1 (by decide) readInTwo _ (by decide) rfl).2.1 (by decide),
    by decide⟩

/-- The history after events for nobody, none of them trimmed. -/
structure Passed (n : Nat) (s : Paging) : Prop where
  next : s.feed.nextOffset = 1 + UInt64.ofNat n
  all : s.feed.allEvents = s.published
  others : ∀ event ∈ s.published, event.table = str "u" ∧ event.timestamp = 0
  unread : s.collected = []

theorem onT_matches (event : ChangefeedEvent) :
    subscriptionMatches onT (str "sub-1") event = decide (event.table = str "t") := by
  have hsub : onT[str "sub-1"]? = some { tablePattern := str "t", currentOffset := 0 } := by decide
  have hpattern : str "t" ≠ [] ∧ str "t" ≠ str "*" := by decide
  simp [subscriptionMatches, hsub, matchesFilter, hpattern]

theorem not_onT {event : ChangefeedEvent} (h : event.table = str "u") : subscriptionMatches onT (str "sub-1") event = false := by
  rw [onT_matches, h]
  decide

theorem Passed.wanted_nil {n : Nat} {s : Paging} (h : Passed n s) : s.wanted onT (str "sub-1") = [] := by
  have hnone : s.published.filter (subscriptionMatches onT (str "sub-1")) = [] := by
    apply List.filter_eq_nil_iff.2
    intro event hmem
    simp [not_onT (h.others event hmem).1]
  rw [wanted, hnone, List.filter_nil]

theorem Passed.publish {n : Nat} {s : Paging} (h : Passed n s) : ∃ s',
    s.step onT (str "sub-1") 0 1 (.publishEvent FanOut.pong 0) = some s' ∧ Passed (n + 1) s' := by
  refine ⟨_, rfl, ?_, ?_, ?_, h.unread⟩
  · show s.feed.nextOffset + 1 = _
    rw [h.next, UInt64.add_assoc, ← UInt64.ofNat_one, ← UInt64.ofNat_add]
  · simp [Feed.publishEvent, Feed.stamped, h.all]
  · intro event hmem
    rcases List.mem_append.1 hmem with hold | hnew
    · exact h.others event hold
    · cases List.mem_singleton.1 hnew
      exact ⟨rfl, rfl⟩

/-- What the reader may rely on. -/
def Fair (s : Paging) (l : Label) : Prop := s.Spares onT (str "sub-1") 0 1 l ∧ s.FromRetained l

/-- A step that keeps what is not read. -/
theorem fair_step {s t : Paging} {l : Label} (hstep : s.step onT (str "sub-1") 0 1 l = some t) (hfrom : s.FromRetained l)
    (hkept : t.Kept onT (str "sub-1")) :
    Allowed (step onT (str "sub-1") 0 1) Fair s [l] ∧ run (step onT (str "sub-1") 0 1) s [l] = some t := by
  apply run_singleton _ hstep
  refine ⟨?_, hfrom⟩
  intro u hu
  rw [hstep, Option.some.injEq] at hu
  rwa [← hu]

theorem Passed.run (n : Nat) {m : Nat} {s : Paging} (h : Passed m s) : ∃ ls s',
    (Allowed (step onT (str "sub-1") 0 1) Fair s ls ∧ run (step onT (str "sub-1") 0 1) s ls = some s') ∧
      Passed (m + n) s' := by
  induction n with
  | zero => exact ⟨[], s, ⟨trivial, rfl⟩, h⟩
  | succ n ih =>
    obtain ⟨ls, t, ⟨hok, hrun⟩, ht⟩ := ih
    obtain ⟨s', hstep, hs'⟩ := ht.publish
    have hkept : s'.Kept onT (str "sub-1") := by
      intro event hmem
      rw [hs'.wanted_nil] at hmem
      cases hmem
    obtain ⟨hok', hrun'⟩ := fair_step hstep trivial hkept
    exact ⟨ls ++ [.publishEvent FanOut.pong 0], s', run_append_allowed hok hrun hok' hrun', hs'⟩

/-- One event for the reader, with the last offset there is, and none for it before. -/
structure Last (event : ChangefeedEvent) (s : Paging) : Prop where
  matching : s.published.filter (subscriptionMatches onT (str "sub-1")) = [event]
  offset : event.offset = 0xffffffffffffffff

section
variable {event : ChangefeedEvent} {s : Paging}

theorem Last.wanted_eq (h : Last event s) : s.wanted onT (str "sub-1") = [event] := by
  have hle : s.start.toNat ≤ event.offset.toNat := by
    have := s.start.toNat_lt
    have hmax : event.offset.toNat = 2 ^ 64 - 1 := by rw [h.offset]; rfl
    omega
  rw [wanted, h.matching]
  simp [hle]

theorem Last.page_eq (h : Last event s) (hall : s.feed.allEvents = s.published) : s.page onT (str "sub-1") 1 = [event] := by
  have hle : s.position.toNat ≤ event.offset.toNat := by
    have := s.position.toNat_lt
    have hmax : event.offset.toNat = 2 ^ 64 - 1 := by rw [h.offset]; rfl
    omega
  rw [page, getEvents_eq _ (Nat.le_refl 1), hall, h.matching]
  simp [hle]

theorem Last.kept (h : Last event s) (hread : event ∈ s.collected ∨ event ∈ s.feed.allEvents) : s.Kept onT (str "sub-1") := by
  intro other hmem hnew
  rw [h.wanted_eq, List.mem_singleton] at hmem
  subst hmem
  exact hread.resolve_left hnew

/-- The reader has it once, and its position is zero. -/
theorem Last.read (h : Last event s) (hall : s.feed.allEvents = s.published) :
    s.step onT (str "sub-1") 0 1 .getEvents = some { s with position := 0, collected := s.collected ++ [event] } := by
  have hpage := h.page_eq hall
  have hzero : event.offset + 1 = 0 := by rw [h.offset]; rfl
  simp only [Paging.step, hpage, List.getLast?_singleton, hzero]

/-- **It reads it again.** -/
theorem Last.again (h : Last event s) (hall : s.feed.allEvents = s.published) (hold : ∀ other ∈ s.published, other.timestamp = 0) :
    ∃ ls s', (Allowed (Paging.step onT (str "sub-1") 0 1) Fair s ls ∧
      Machine.run (Paging.step onT (str "sub-1") 0 1) s ls = some s') ∧
      s'.page onT (str "sub-1") 1 = [] ∧ s'.collected = [event, event] ∧ s'.wanted onT (str "sub-1") = [event] := by
  have hmem : event ∈ s.feed.allEvents := by
    have hin : event ∈ s.published.filter (subscriptionMatches onT (str "sub-1")) := by simp [h.matching]
    rw [hall]
    exact List.mem_of_mem_filter hin
  let s₁ : Paging := { s with position := 0xffffffffffffffff, start := 0xffffffffffffffff, collected := [] }
  let s₂ : Paging := { s₁ with position := 0, collected := [event] }
  let s₃ : Paging := { s₁ with position := 0, collected := [event, event] }
  let s₄ : Paging := { s₃ with feed := s.feed.compactEvents 1 0 }
  have h₁ : Last event s₁ := ⟨h.matching, h.offset⟩
  have h₂ : Last event s₂ := ⟨h.matching, h.offset⟩
  have h₃ : Last event s₃ := ⟨h.matching, h.offset⟩
  have h₄ : Last event s₄ := ⟨h.matching, h.offset⟩
  have hstart : s.FromRetained (.begin 0xffffffffffffffff) := by
    have hlt := s.feed.getOldestRetainedOffset.toNat_lt
    have hmax : (0xffffffffffffffff : UInt64).toNat = 2 ^ 64 - 1 := rfl
    exact UInt64.le_iff_toNat_le.2 (by omega)
  have hbegin := fair_step (s := s) (l := .begin 0xffffffffffffffff) (t := s₁) rfl hstart (h₁.kept (Or.inr hmem))
  have hfirst := fair_step (t := s₂) (h₁.read hall) trivial (h₂.kept (Or.inl (List.mem_singleton_self event)))
  have hsecond := fair_step (t := s₃) (h₂.read hall) trivial (h₃.kept (Or.inl List.mem_cons_self))
  have hcompact := fair_step (s := s₃) (l := .compactEvents 1 0) (t := s₄) rfl trivial (h₄.kept (Or.inl List.mem_cons_self))
  have hall₁ := run_append_allowed hbegin.1 hbegin.2 hfirst.1 hfirst.2
  have hall₂ := run_append_allowed hall₁.1 hall₁.2 hsecond.1 hsecond.2
  refine ⟨_, s₄, run_append_allowed hall₂.1 hall₂.2 hcompact.1 hcompact.2, ?_, rfl, h₄.wanted_eq⟩
  have hnone : s₄.feed.allEvents = [] := by
    apply List.filter_eq_nil_iff.2
    intro other hother
    rw [hall] at hother
    rw [hold other hother]
    decide
  rw [page, getEvents_eq _ (Nat.le_refl 1), hnone]
  rfl

end

/-- Behind the event with the last offset the reader is at zero, and it reads that event a second time. -/
theorem offset_wraps : ¬ ∀ (subscriptions : StrMap Subscription) (id : Bytes) (maxLag limit : Nat), 1 ≤ limit →
    ∀ (ls : List Label) (s : Paging),
      Allowed (step subscriptions id maxLag limit)
        (fun s l => s.Spares subscriptions id maxLag limit l ∧ s.FromRetained l) {} ls →
      run (step subscriptions id maxLag limit) {} ls = some s →
      (s.page subscriptions id limit).length < limit →
      s.collected ++ s.page subscriptions id limit = s.wanted subscriptions id := by
  intro h
  have hboot : Passed 0 {} := ⟨rfl, rfl, by simp, rfl⟩
  obtain ⟨ls, s, hrun, hpassed⟩ := Passed.run (2 ^ 64 - 2) hboot
  have hnext : s.feed.nextOffset = 0xffffffffffffffff := hpassed.next
  let event := s.feed.stamped Delivery.ping 0
  let s₁ : Paging := { s with feed := s.feed.publishEvent 0 Delivery.ping 0, published := s.published ++ [event] }
  have hnone : s.published.filter (subscriptionMatches onT (str "sub-1")) = [] := by
    apply List.filter_eq_nil_iff.2
    intro event hmem
    simp [not_onT (hpassed.others event hmem).1]
  have hmatch : subscriptionMatches onT (str "sub-1") event = true := by
    rw [onT_matches]
    exact decide_eq_true rfl
  have hlast : Last event s₁ := by
    refine ⟨?_, hnext⟩
    simp [s₁, List.filter_append, hnone, hmatch]
  have hall : s₁.feed.allEvents = s₁.published := by
    simp [s₁, Feed.publishEvent, event, Feed.stamped, hpassed.all]
  have hold : ∀ other ∈ s₁.published, other.timestamp = 0 := by
    intro other hother
    rcases List.mem_append.1 hother with hmem | hmem
    · exact (hpassed.others other hmem).2
    · cases List.mem_singleton.1 hmem
      rfl
  have hpublish := fair_step (s := s) (l := .publishEvent Delivery.ping 0) (t := s₁) rfl trivial
    (hlast.kept (Or.inr (by rw [hall]; simp [s₁])))
  obtain ⟨more, s', hmore, hpage, hcollected, hwanted⟩ := hlast.again hall hold
  have htwo := run_append_allowed hrun.1 hrun.2 hpublish.1 hpublish.2
  have hthree := run_append_allowed htwo.1 htwo.2 hmore.1 hmore.2
  have hbad := h onT (str "sub-1") 0 1 (Nat.le_refl 1) _ _ hthree.1 hthree.2 (by rw [hpage]; decide)
  rw [hpage, hcollected, hwanted] at hbad
  simp at hbad

end Paging

end OriginDB
