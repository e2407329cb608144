import OriginDB.Lib.Lists
import OriginDB.Websocket.FailClosed
import OriginDB.Websocket.WasmSubscriptions
/-!
# From the changefeed to the modules' clients (`wasm_subscription.cpp:56-92, 192-200, 306-417`)

The changefeed leaves its events in a queue, and one thread takes all that is there and processes it event by event, each with the
subscriptions that there are by then. Between any two of its steps more events come, and subscriptions are made and dropped.

| here | there |
| --- | --- |
| `event ev`             | `ProcessChangefeedEvent` (`:192`) |
| `start`                | `Start` (`:56`) |
| `take`, `leave`        | the head of the loop of `ProcessingLoop` (`:307-321`), while the manager runs and when it does not |
| `process store`        | `ProcessSingleEvent` (`:330`) for the next event of what was taken |
| `stop`, `joined`       | `Stop` (`:70`) up to the `join`, and from there on |

`hosts` are the modules that each event finds, and `store` the tables. An exception that leaves the thread ends the process. `received`
and `processed` are history. Of `Stop` the changefeed's part is left out: an event may still come after it.
-/
namespace OriginDB

open JsonDoc ByteCodec Machine TwoIndexes

namespace Processing

/-- No exception leaves the loop. -/
def completes (host : EventHost) (ev : ChangefeedEvent) : List WasmSubscriptionQuery → Processing → Bool
  | [], _ => true
  | q :: rest, s =>
    match processOne host ev q s with
    | (true, s) => completes host ev rest s
    | (false, _) => false

end Processing

/-- An event that has been processed, with the subscriptions that there were and what has been sent. -/
structure ProcessedEvent where
  event : ChangefeedEvent
  subscriptions : StrMap WasmSubscriptionQuery
  sent : List SentEvent

structure EventPipeline where
  subscribing : WasmSubscriptions := {}
  eventQueue : List ChangefeedEvent := []
  isRunning : Bool := false
  /-- `processing_thread_`, with what it has still to process of what it has taken. -/
  thread : Option (List ChangefeedEvent) := none
  /-- A `Stop` waits for the thread. -/
  stopping : Bool := false
  terminated : Bool := false
  received : List ChangefeedEvent := []
  processed : List ProcessedEvent := []

namespace EventPipeline

inductive Label where
  | event (ev : ChangefeedEvent)
  | start
  | take
  | process (store : Store)
  | leave
  | stop
  | joined
  | subscription (l : WasmSubscriptions.Label)

section
variable (hosts : Nat → EventHost)

def processNext (s : EventPipeline) (store : Store) (ev : ChangefeedEvent) (rest : List ChangefeedEvent) :
    EventPipeline :=
  let m := s.subscribing.manager
  let host := hosts s.processed.length
  { s with
    thread := some rest
    terminated := !Processing.completes host ev ((host.env.order.list m.subscriptions).map Prod.snd) { store := store }
    processed := s.processed ++ [{
      event := ev
      subscriptions := m.subscriptions
      sent := (processSingleEvent host m ev store).sent }] }

def act (s : EventPipeline) : Label → Option EventPipeline
  | .event ev => some { s with eventQueue := s.eventQueue ++ [ev], received := s.received ++ [ev] }
  | .start =>
    if s.stopping then none
    else if s.isRunning then some s
    else some { s with isRunning := true, thread := some [] }
  | .take =>
    match s.thread with
    | some [] => if s.isRunning then some { s with thread := some s.eventQueue, eventQueue := [] } else none
    | _ => none
  | .process store =>
    match s.thread with
    | some (ev :: rest) => some (s.processNext hosts store ev rest)
    | _ => none
  | .leave =>
    match s.thread with
    | some [] => if s.isRunning then none else some { s with thread := none }
    | _ => none
  | .stop =>
    if s.stopping then none
    else if s.isRunning then some { s with isRunning := false, stopping := true }
    else some s
  | .joined =>
    match s.thread with
    | none => if s.stopping then some { s with stopping := false, subscribing := s.subscribing.apply .clear } else none
    | some _ => none
  | .subscription .clear => none
  | .subscription l => some { s with subscribing := s.subscribing.apply l }

def step (s : EventPipeline) (l : Label) : Option EventPipeline := if s.terminated then none else s.act hosts l

end

/-- What the thread has not come to yet. -/
def waiting (s : EventPipeline) : List ChangefeedEvent := s.thread.getD [] ++ s.eventQueue

/-- The event of each message that the thread has sent a subscription. What `SendInitialData` sends when the subscription is made is no
event, and none of them. -/
def sentTo (s : EventPipeline) (id : Bytes) : List ChangefeedEvent :=
  s.processed.flatMap fun r => (r.sent.filter fun x => x.query.id = id).map fun _ => r.event

/-- What of the run is about the subscriptions. -/
def subscriptionLabels (ls : List Label) : List WasmSubscriptions.Label :=
  ls.filterMap fun
    | .subscription l => some l
    | .joined => some .clear
    | _ => none

/-- The events that come in a run. -/
def eventsOf (ls : List Label) : List ChangefeedEvent :=
  ls.filterMap fun
    | .event ev => some ev
    | _ => none

/-! ## What is sent of one event -/

namespace Sent

open Processing

section
variable {host : EventHost} {ev : ChangefeedEvent} {q : WasmSubscriptionQuery} {data : Bytes} {s s' : Processing}

/-- What is added is sent to the subscription, and once at most. -/
def Once (q : WasmSubscriptionQuery) (s s' : Processing) : Prop := ∃ xs, s'.sent = s.sent ++ xs ∧ (xs.map SentEvent.query).Sublist [q]

theorem once_of_eq (h : s'.sent = s.sent) : Once q s s' := ⟨[], by rw [h, List.append_nil], List.nil_sublist _⟩

theorem once_emit {s₁ : Processing} (filter transform : Option CallRecord) (value : WasmValue) (h : s₁.sent = s.sent) :
    Once q s (emit host q s₁ filter transform value) := by
  rw [emit]
  split
  · exact ⟨_, by rw [← h], List.Sublist.refl _⟩
  · exact once_of_eq h

variable (host ev q s) in
theorem once_processOne : Once q s (processOne host ev q s).2 := by
  unfold processOne
  split
  · exact once_of_eq rfl
  split
  · exact once_of_eq rfl
  rename_i data hdump
  have hfilter := (filterEvent_keeps host q data s).1
  generalize filterEvent host q data s = filtered at hfilter
  obtain ⟨verdict, s₁⟩ := filtered
  cases verdict with
  | skips | throws => exact once_of_eq hfilter
  | emits filter =>
    have htransform := transformEvent_spec host q data s₁
    dsimp only [transformAndEmit]
    generalize transformEvent host q data s₁ = transformed at htransform
    obtain ⟨verdict, s₂⟩ := transformed
    cases htransform with
    | none => exact once_emit _ _ _ hfilter
    | throws _ hsent | skips _ _ hsent => exact once_of_eq (hsent.trans hfilter)
    | sets _ _ _ hsent | bare _ _ hsent => exact once_emit _ _ _ (hsent.trans hfilter)

variable (host ev) in
theorem sent_processAll (queries : List WasmSubscriptionQuery) (s : Processing) :
    ∃ xs, (processAll host ev queries s).sent = s.sent ++ xs ∧ (xs.map SentEvent.query).Sublist queries := by
  induction queries generalizing s with
  | nil => exact ⟨[], (List.append_nil _).symm, List.Sublist.refl _⟩
  | cons q rest ih =>
    obtain ⟨xs, hxs, hone⟩ := once_processOne host ev q s
    rw [processAll]
    generalize processOne host ev q s = result at hxs
    obtain ⟨- | -, s₁⟩ := result
    · exact ⟨xs, hxs, hone.trans (List.singleton_sublist.2 List.mem_cons_self)⟩
    · obtain ⟨ys, hys, hrest⟩ := ih s₁
      refine ⟨xs ++ ys, ?_, ?_⟩
      · dsimp only at hxs ⊢
        rw [hys, hxs, List.append_assoc]
      · rw [List.map_append]
        exact hone.append hrest

/-- **Each subscription is sent one message at most** of an event. -/
theorem sublist_processSingleEvent (host : EventHost) (m : WasmSubscriptionManager) (ev : ChangefeedEvent) (store : Store) :
    ((processSingleEvent host m ev store).sent.map SentEvent.query).Sublist ((host.env.order.list m.subscriptions).map Prod.snd) := by
  obtain ⟨xs, hxs, hsub⟩ := sent_processAll host ev ((host.env.order.list m.subscriptions).map Prod.snd) { store := store }
  rw [processSingleEvent, hxs]
  exact hsub

end

end Sent

/-! ## Subscriptions go by their ids -/

/-- Every subscription has the id that it is found under. -/
def Keyed (m : WasmSubscriptionManager) : Prop := ∀ (id : Bytes) (q : WasmSubscriptionQuery), m.subscriptions[id]? = some q → q.id = id

section
variable {hosts : Nat → EventHost} {m : WasmSubscriptionManager} {s s' : EventPipeline} {r : ProcessedEvent} {id : Bytes}

theorem Keyed.apply {u : WasmSubscriptions} (h : Keyed u.manager) (l : WasmSubscriptions.Label) : Keyed (u.apply l).manager := by
  cases l with
  | create query answered =>
    have hmanager : (u.apply (.create query answered)).manager = (u.manager.createSubscription query).2 := by
      cases answered <;> rfl
    intro id q hq
    rw [hmanager, WasmSubscriptionManager.createSubscription, OrdMap.getElem?_insert] at hq
    split at hq
    · rename_i hid
      cases hq
      exact hid
    · exact h id q hq
  | delete id' =>
    rw [WasmSubscriptions.apply, WasmSubscriptionManager.deleteSubscription]
    cases u.manager.subscriptions[id']? with
    | none => exact h
    | some query =>
      intro id q hq
      dsimp only at hq
      rw [OrdMap.getElem?_erase] at hq
      split at hq
      · cases hq
      · exact h id q hq
  | disconnect clientId =>
    rw [WasmSubscriptions.apply, WasmSubscriptionManager.onClientDisconnected]
    cases u.manager.clientSubscriptions[clientId]? with
    | none => exact h
    | some ids =>
      intro id q hq
      dsimp only at hq
      by_cases hid : id ∈ ids
      · rw [WasmSubscriptions.getElem?_eraseAll_of_mem (.inl hid)] at hq
        cases hq
      · rw [WasmSubscriptions.getElem?_eraseAll_of_notMem hid] at hq
        exact h id q hq
  | clear =>
    intro id q hq
    simp [WasmSubscriptions.apply] at hq

/-- What a round sends goes to subscriptions that there are, to each once at most. -/
structure ProcessedEvent.Proper (r : ProcessedEvent) : Prop where
  subscribed : ∀ x ∈ r.sent, r.subscriptions[x.query.id]? = some x.query
  once : (r.sent.map fun x => x.query.id).Nodup

theorem proper_processNext {host : EventHost} {store : Store} {ev : ChangefeedEvent} (h : Keyed m) :
    ProcessedEvent.Proper ⟨ev, m.subscriptions, (processSingleEvent host m ev store).sent⟩ := by
  have hsub := Sent.sublist_processSingleEvent host m ev store
  have hlist : ∀ p ∈ host.env.order.list m.subscriptions, p.2.id = p.1 :=
    fun p hp => h p.1 p.2 ((mem_list_iff host.env.order m.subscriptions).1 hp)
  refine ⟨fun x hx => ?_, ?_⟩
  · obtain ⟨p, hp, heq⟩ := List.mem_map.1 (hsub.subset (List.mem_map_of_mem hx))
    rw [← heq, hlist p hp]
    exact (mem_list_iff host.env.order m.subscriptions).1 hp
  · have hids := hsub.map WasmSubscriptionQuery.id
    have hkeys : ((host.env.order.list m.subscriptions).map Prod.snd).map WasmSubscriptionQuery.id =
        (host.env.order.list m.subscriptions).map Prod.fst := by
      rw [List.map_map]
      exact List.map_congr_left hlist
    rw [hkeys, List.map_map] at hids
    exact hids.nodup (OrdMap.Distinct.perm (OrdMap.distinct_toList _) (host.env.order.perm _))

/-! ## One step -/

variable (hosts s) in
/-- What a step can do. -/
inductive Does : Label → EventPipeline → Prop where
  | event (ev : ChangefeedEvent) : Does (.event ev) { s with eventQueue := s.eventQueue ++ [ev], received := s.received ++ [ev] }
  | start (hrunning : s.isRunning = false) (hstopping : s.stopping = false) :
      Does .start { s with isRunning := true, thread := some [] }
  | take (hthread : s.thread = some []) (hrunning : s.isRunning = true) :
      Does .take { s with thread := some s.eventQueue, eventQueue := [] }
  | process (store : Store) {ev : ChangefeedEvent} {rest : List ChangefeedEvent} (hthread : s.thread = some (ev :: rest)) :
      Does (.process store) (s.processNext hosts store ev rest)
  | leave (hthread : s.thread = some []) (hrunning : s.isRunning = false) : Does .leave { s with thread := none }
  | stop (hrunning : s.isRunning = true) : Does .stop { s with isRunning := false, stopping := true }
  | joined (hthread : s.thread = none) (hstopping : s.stopping = true) :
      Does .joined { s with stopping := false, subscribing := s.subscribing.apply .clear }
  | subscription (l : WasmSubscriptions.Label) : Does (.subscription l) { s with subscribing := s.subscribing.apply l }
  /-- `Start` when it runs and `Stop` when it does not. -/
  | again {l : Label} (hl : l = .start ∨ l = .stop) : Does l s

theorem does_of_step {l : Label} (hstep : step hosts s l = some s') : Does hosts s l s' := by
  rw [step] at hstep
  split at hstep
  · cases hstep
  cases l with
  | event ev =>
    cases hstep
    exact .event ev
  | start =>
    dsimp only [act] at hstep
    split at hstep
    · cases hstep
    · rename_i hstopping
      split at hstep
      · cases hstep
        exact .again (.inl rfl)
      · rename_i hrunning
        cases hstep
        exact .start (by simpa using hrunning) (by simpa using hstopping)
  | take =>
    dsimp only [act] at hstep
    split at hstep
    · rename_i hthread
      split at hstep
      · rename_i hrunning
        cases hstep
        exact .take hthread hrunning
      · cases hstep
    · cases hstep
  | process store =>
    dsimp only [act] at hstep
    split at hstep
    · rename_i ev rest hthread
      cases hstep
      exact .process store hthread
    · cases hstep
  | leave =>
    dsimp only [act] at hstep
    split at hstep
    · rename_i hthread
      split at hstep
      · cases hstep
      · rename_i hrunning
        cases hstep
        exact .leave hthread (by simpa using hrunning)
    · cases hstep
  | stop =>
    dsimp only [act] at hstep
    split at hstep
    · cases hstep
    · split at hstep
      · rename_i hrunning
        cases hstep
        exact .stop hrunning
      · cases hstep
        exact .again (.inr rfl)
  | joined =>
    dsimp only [act] at hstep
    split at hstep
    · rename_i hthread
      split at hstep
      · rename_i hstopping
        cases hstep
        exact .joined hthread hstopping
      · cases hstep
    · cases hstep
  | subscription l =>
    cases l with
    | clear => cases hstep
    | create | delete | disconnect =>
      cases hstep
      exact .subscription _

/-- What is added to what has come, to what has been processed and to the subscriptions. -/
structure Adds (s s' : EventPipeline) (ls : List Label) (rounds : List ProcessedEvent) : Prop where
  processed : s'.processed = s.processed ++ rounds
  received : s'.received = s.received ++ eventsOf ls
  subscribing : s'.subscribing = (subscriptionLabels ls).foldl WasmSubscriptions.apply s.subscribing

theorem Adds.nothing {ls : List Label} (hprocessed : s'.processed = s.processed) (hreceived : s'.received = s.received ++ eventsOf ls)
    (hsubscribing : s'.subscribing = (subscriptionLabels ls).foldl WasmSubscriptions.apply s.subscribing) : Adds s s' ls [] :=
  ⟨by rw [hprocessed, List.append_nil], hreceived, hsubscribing⟩

theorem Adds.trans {s'' : EventPipeline} {ls ls' : List Label} {rounds rounds' : List ProcessedEvent} (h : Adds s s' ls rounds)
    (h' : Adds s' s'' ls' rounds') : Adds s s'' (ls ++ ls') (rounds ++ rounds') where
  processed := by rw [h'.processed, h.processed, List.append_assoc]
  received := by rw [h'.received, h.received, eventsOf, eventsOf, eventsOf, List.filterMap_append, List.append_assoc]
  subscribing := by
    rw [h'.subscribing, h.subscribing, subscriptionLabels, subscriptionLabels, subscriptionLabels, List.filterMap_append, List.foldl_append]

/-- A round is made with the subscriptions that there are. -/
theorem step_adds {l : Label} (hstep : step hosts s l = some s') : ∃ rounds, Adds s s' [l] rounds ∧
    ∀ r ∈ rounds, r.subscriptions = s.subscribing.manager.subscriptions ∧ (Keyed s.subscribing.manager → ProcessedEvent.Proper r) := by
  have hno : eventsOf [l] = [] → s.received = s.received ++ eventsOf [l] := fun h => by rw [h, List.append_nil]
  cases does_of_step hstep with
  | event ev => exact ⟨[], .nothing rfl rfl rfl, by simp⟩
  | process store hthread =>
    refine ⟨_, ⟨rfl, hno rfl, rfl⟩, fun r hr => ?_⟩
    rw [List.mem_singleton.1 hr]
    exact ⟨rfl, proper_processNext⟩
  | again hl =>
    obtain rfl | rfl := hl
    · exact ⟨[], .nothing rfl (hno rfl) rfl, by simp⟩
    · exact ⟨[], .nothing rfl (hno rfl) rfl, by simp⟩
  | start | take | leave | stop | joined | subscription => exact ⟨[], .nothing rfl (hno rfl) rfl, by simp⟩

/-! ## The events go through in order -/

structure InOrder (s : EventPipeline) : Prop where
  /-- A thread that `Start` makes is the only one. -/
  alone : s.isRunning = false → s.stopping = false → s.thread = none
  served : s.isRunning = true → s.thread.isSome = true
  order : s.processed.map ProcessedEvent.event ++ s.waiting = s.received
  keyed : Keyed s.subscribing.manager
  proper : ∀ r ∈ s.processed, ProcessedEvent.Proper r

theorem InOrder.start : InOrder {} where
  alone _ _ := rfl
  served h := by simp at h
  order := rfl
  keyed id q hq := by simp at hq
  proper := by simp

/-- What has been processed and what waits, after a step. -/
theorem order_step {l : Label} (h : s.InOrder) (hstep : step hosts s l = some s') :
    s'.processed.map ProcessedEvent.event ++ s'.waiting = s'.received := by
  have horder := h.order
  cases does_of_step hstep with
  | event ev =>
    rw [← horder]
    simp [waiting]
  | start hrunning hstopping =>
    rw [waiting, h.alone hrunning hstopping] at horder
    exact horder
  | take hthread | leave hthread =>
    rw [waiting, hthread] at horder
    simpa [waiting] using horder
  | process store hthread =>
    rw [waiting, hthread] at horder
    simpa [processNext, waiting] using horder
  | stop | joined | subscription | again => exact horder

theorem InOrder.step {l : Label} (h : s.InOrder) (hstep : step hosts s l = some s') : s'.InOrder := by
  obtain ⟨rounds, hadds, hrounds⟩ := step_adds hstep
  refine ⟨?_, ?_, order_step h hstep, ?_, fun r hr => ?_⟩
  · have halone := h.alone
    cases does_of_step hstep with
    | start | stop => simp
    | take hthread hrunning => simp [hrunning]
    | process store hthread =>
      intro hrunning hstopping
      rw [halone hrunning hstopping] at hthread
      cases hthread
    | leave => exact fun _ _ => rfl
    | joined hthread => exact fun _ _ => hthread
    | event | subscription | again => exact halone
  · have hserved := h.served
    cases does_of_step hstep with
    | start | take | process => exact fun _ => rfl
    | leave hthread hrunning => simp [hrunning]
    | stop => simp
    | event | subscription | joined | again => exact hserved
  · cases does_of_step hstep with
    | joined | subscription => exact h.keyed.apply _
    | event | start | take | process | leave | stop | again => exact h.keyed
  · rw [hadds.processed] at hr
    obtain hr | hr := List.mem_append.1 hr
    · exact h.proper r hr
    · exact (hrounds r hr).2 h.keyed

/-! ## Whole runs -/

theorem run_inOrder {ls : List Label} (h : s.InOrder) (hrun : run (step hosts) s ls = some s') : s'.InOrder :=
  have hall : Allowed (EventPipeline.step hosts) (fun _ _ => True) s ls := .of_forall fun _ _ _ => trivial
  run_invariant InOrder (fun _ _ _ h _ hs => h.step hs) h hall hrun

theorem run_adds {ls : List Label} (hrun : run (step hosts) s ls = some s') : ∃ rounds, Adds s s' ls rounds := by
  induction ls generalizing s with
  | nil =>
    cases hrun
    exact ⟨[], .nothing rfl (List.append_nil _).symm rfl⟩
  | cons l ls ih =>
    rw [run] at hrun
    cases hstep : step hosts s l with
    | none =>
      rw [hstep] at hrun
      cases hrun
    | some s₁ =>
      rw [hstep] at hrun
      obtain ⟨rounds, hone, -⟩ := step_adds hstep
      obtain ⟨rounds', hrest⟩ := ih hrun
      exact ⟨rounds ++ rounds', hone.trans hrest⟩

/-- The events of the rounds that a run adds. -/
theorem Adds.order {ls : List Label} {rounds : List ProcessedEvent} (h : Adds s s' ls rounds) (hs : s.InOrder) (hs' : s'.InOrder) :
    rounds.map ProcessedEvent.event ++ s'.waiting = s.waiting ++ eventsOf ls := by
  have horder := hs'.order
  rw [h.processed, h.received, ← hs.order, List.map_append, List.append_assoc, List.append_assoc] at horder
  exact List.append_cancel_left horder

theorem length_subscriptionLabels (ls : List Label) : (subscriptionLabels ls).length ≤ ls.length := List.length_filterMap_le _ _

/-- While a subscription lasts, every round sees it. -/
theorem run_sees {ls : List Label} {b : WasmSubscriptions.Book} {q : WasmSubscriptionQuery} (h : s.subscribing.Keeps b) (hq : q ∈ b.all)
    (hfew : b.made + ls.length < 2 ^ 64) (hspares : ∀ l ∈ subscriptionLabels ls, l.Spares q) (hrun : run (step hosts) s ls = some s') :
    ∃ rounds, Adds s s' ls rounds ∧ ∀ r ∈ rounds, r.subscriptions[q.id]? = some q := by
  induction ls generalizing s b with
  | nil =>
    cases hrun
    exact ⟨[], .nothing rfl (List.append_nil _).symm rfl, by simp⟩
  | cons l ls ih =>
    rw [run] at hrun
    cases hstep : step hosts s l with
    | none =>
      rw [hstep] at hrun
      cases hrun
    | some s₁ =>
      rw [hstep] at hrun
      obtain ⟨rounds, hone, hsees⟩ := step_adds hstep
      have hsplit : subscriptionLabels (l :: ls) = subscriptionLabels [l] ++ subscriptionLabels ls := List.filterMap_append (l := [l])
      rw [hsplit] at hspares
      rw [List.length_cons] at hfew
      have hlength : (subscriptionLabels [l]).length ≤ 1 := length_subscriptionLabels [l]
      have hmade := WasmSubscriptions.made_foldl (subscriptionLabels [l]) b
      have hkeeps : s₁.subscribing.Keeps ((subscriptionLabels [l]).foldl WasmSubscriptions.Book.apply b) := by
        rw [hone.subscribing]
        exact h.foldl _ (by omega)
      have hmem := WasmSubscriptions.mem_foldl hq fun l' hl' => hspares l' (List.mem_append_left _ hl')
      obtain ⟨rounds', hrest, hseen⟩ := ih hkeeps hmem (by omega) (fun l' hl' => hspares l' (List.mem_append_right _ hl')) hrun
      refine ⟨rounds ++ rounds', hone.trans hrest, fun r hr => ?_⟩
      obtain hr | hr := List.mem_append.1 hr
      · rw [(hsees r hr).1, h.subscriptions]
        exact byKey_of_mem h.nodup hq
      · exact hseen r hr

/-- No exception leaves the round of the event, whichever module it finds. -/
def Calm (hosts : Nat → EventHost) (store : Store) (m : WasmSubscriptionManager) (ev : ChangefeedEvent) : Prop :=
  ∀ n, Processing.completes (hosts n) ev (((hosts n).env.order.list m.subscriptions).map Prod.snd) { store := store } = true

/-- The thread gets to the end of what it has taken. -/
theorem run_process {store : Store} {batch : List ChangefeedEvent} (hcalm : ∀ ev ∈ batch, Calm hosts store s.subscribing.manager ev)
    (hlive : s.terminated = false) (hthread : s.thread = some batch) :
    ∃ s', run (step hosts) s (List.replicate batch.length (.process store)) = some s' ∧ s'.thread = some [] ∧
      s'.eventQueue = s.eventQueue ∧ s'.isRunning = s.isRunning ∧ s'.terminated = false ∧ s'.subscribing = s.subscribing := by
  induction batch generalizing s with
  | nil => exact ⟨s, rfl, hthread, rfl, rfl, hlive, rfl⟩
  | cons ev rest ih =>
    have hstep : step hosts s (.process store) = some (s.processNext hosts store ev rest) := by
      rw [step, hlive, if_neg Bool.false_ne_true, act, hthread]
    have hnext : (s.processNext hosts store ev rest).terminated = false := by
      rw [processNext, hcalm ev List.mem_cons_self]
      rfl
    obtain ⟨s', hrun, hrest⟩ := ih (s := s.processNext hosts store ev rest) (fun ev' hev' => hcalm ev' (List.mem_cons_of_mem _ hev'))
      hnext rfl
    rw [List.length_cons, List.replicate_succ, run_cons hstep]
    exact ⟨s', hrun, hrest⟩

theorem eventsOf_replicate (n : Nat) (store : Store) : eventsOf (List.replicate n (.process store)) = [] := by
  induction n with
  | zero => rfl
  | succ n ih => exact ih

/-- The state from which a subscription is made. -/
theorem keeps_of_run {ls : List Label} (hfew : ls.length < 2 ^ 64) (hrun : run (step hosts) {} ls = some s) :
    ∃ b : WasmSubscriptions.Book, b.made ≤ ls.length ∧ s.subscribing.Keeps b := by
  obtain ⟨rounds, hadds⟩ := run_adds hrun
  have hlength := length_subscriptionLabels ls
  have hmade := WasmSubscriptions.made_foldl (subscriptionLabels ls) {}
  refine ⟨_, hmade.trans (by simpa using hlength), ?_⟩
  rw [hadds.subscribing]
  exact WasmSubscriptions.Keeps.start.foldl _ (by dsimp only; omega)

/-- A round has at most one message for a subscription. -/
theorem ProcessedEvent.Proper.sublist (h : ProcessedEvent.Proper r) (id : Bytes) :
    ((r.sent.filter fun x => x.query.id = id).map fun _ => r.event).Sublist [r.event] := by
  have hcount : (r.sent.filter fun x => x.query.id = id).length ≤ 1 := by
    have hle := List.nodup_iff_count_le_one.1 h.once id
    rw [List.count, List.countP_map] at hle
    rw [← List.countP_eq_length_filter]
    exact (List.countP_congr fun x _ => by simp).trans_le hle
  rw [List.map_const']
  exact List.sublist_replicate_iff.2 ⟨_, hcount, rfl⟩

/-- What a subscription is sent, against the events of the rounds. -/
theorem sublist_flatMap {rounds : List ProcessedEvent} (h : ∀ r ∈ rounds, ProcessedEvent.Proper r) (id : Bytes) :
    (rounds.flatMap fun r => (r.sent.filter fun x => x.query.id = id).map fun _ => r.event).Sublist (rounds.map ProcessedEvent.event) := by
  induction rounds with
  | nil => exact List.Sublist.refl _
  | cons r rounds ih =>
    rw [List.flatMap_cons, List.map_cons, ← List.singleton_append]
    exact ((h r (by simp)).sublist id).append (ih fun r' hr' => h r' (List.mem_cons_of_mem _ hr'))

end

/-- **Events go through in order, none is lost and none goes twice**: what has been processed and what waits are what has come. What
is sent of an event goes to subscriptions that there are when it is processed, and what one of them is sent of events over the whole
run goes through these in their order, once for each at most. -/
theorem events_in_order (hosts : Nat → EventHost) (ls : List Label) (s : EventPipeline) (hrun : run (step hosts) {} ls = some s) :
    s.processed.map ProcessedEvent.event ++ s.waiting = eventsOf ls ∧
    (∀ r ∈ s.processed, ∀ x ∈ r.sent, r.subscriptions[x.query.id]? = some x.query) ∧
    ∀ id, (s.sentTo id).Sublist (eventsOf ls) := by
  have h := run_inOrder InOrder.start hrun
  obtain ⟨rounds, hadds⟩ := run_adds hrun
  have hreceived : s.received = eventsOf ls := hadds.received
  have horder := h.order
  rw [hreceived] at horder
  refine ⟨horder, fun r hr => (h.proper r hr).subscribed, fun id => ?_⟩
  refine (sublist_flatMap h.proper id).trans ?_
  rw [← horder]
  exact List.sublist_append_left _ _

/-- **A subscription misses nothing while it lasts**: whatever else happens, what waits when it is made and what comes from then on has
been processed, each event with the subscription there, or is waiting still, all in this order. -/
theorem subscribed_events (hosts : Nat → EventHost) (before after : List Label) (query : WasmSubscriptionQuery) (answered : Bool)
    (s₀ s : EventPipeline) (hfew : before.length + after.length + 1 < 2 ^ 64) (hbefore : run (step hosts) {} before = some s₀)
    (hafter : run (step hosts) s₀ (.subscription (.create query answered) :: after) = some s)
    (hspares : ∀ l ∈ subscriptionLabels after, l.Spares { query with id := s₀.subscribing.manager.nextId }) :
    ∃ rounds, s.processed = s₀.processed ++ rounds ∧ rounds.map ProcessedEvent.event ++ s.waiting = s₀.waiting ++ eventsOf after ∧
      ∀ r ∈ rounds, r.subscriptions[s₀.subscribing.manager.nextId]? = some { query with id := s₀.subscribing.manager.nextId } := by
  obtain ⟨b, hmade, hkeeps⟩ := keeps_of_run (by omega) hbefore
  have hid := hkeeps.nextId (by omega)
  have h₀ := run_inOrder InOrder.start hbefore
  rw [run] at hafter
  cases hcreate : step hosts s₀ (.subscription (.create query answered)) with
  | none =>
    rw [hcreate] at hafter
    cases hafter
  | some s₁ =>
    rw [hcreate] at hafter
    have h₁ := h₀.step hcreate
    obtain rfl : { s₀ with subscribing := s₀.subscribing.apply (.create query answered) } = s₁ := by
      rw [step] at hcreate
      split at hcreate
      · cases hcreate
      · exact Option.some.inj hcreate
    have hmem : { query with id := s₀.subscribing.manager.nextId } ∈ (b.apply (.create query answered)).all := by
      rw [hid]
      exact List.mem_append_right _ List.mem_cons_self
    have hnext : (b.apply (.create query answered)).made = b.made + 1 := rfl
    obtain ⟨rounds, hadds, hsees⟩ := run_sees (hkeeps.create (by omega) answered) hmem (by omega) hspares hafter
    exact ⟨rounds, hadds.processed, hadds.order h₁ (run_inOrder h₁ hafter), hsees⟩

/-- **Nothing gets stuck**: while the manager runs, the thread's own steps get through all that has come, if no exception leaves it. -/
theorem waiting_processed (hosts : Nat → EventHost) (store : Store) (ls : List Label) (s : EventPipeline)
    (hrun : run (step hosts) {} ls = some s) (hrunning : s.isRunning = true) (hlive : s.terminated = false)
    (hcalm : ∀ ev ∈ s.waiting, Calm hosts store s.subscribing.manager ev) :
    ∃ own s', (∀ l ∈ own, l = .take ∨ l = .process store) ∧ run (step hosts) s own = some s' ∧
      s'.processed.map ProcessedEvent.event = eventsOf ls := by
  have h := run_inOrder InOrder.start hrun
  obtain ⟨batch, hbatch⟩ := Option.isSome_iff_exists.1 (h.served hrunning)
  rw [waiting, hbatch, Option.getD_some] at hcalm
  obtain ⟨s₁, hrun₁, hthread₁, hqueue₁, hrunning₁, hlive₁, hsame₁⟩ :=
    run_process (fun ev hev => hcalm ev (List.mem_append_left _ hev)) hlive hbatch
  have htake : ∃ s₂, step hosts s₁ .take = some s₂ ∧ s₂.thread = some s₁.eventQueue ∧ s₂.eventQueue = [] ∧ s₂.terminated = false ∧
      s₂.subscribing = s.subscribing := by
    refine ⟨{ s₁ with thread := some s₁.eventQueue, eventQueue := [] }, ?_, rfl, rfl, hlive₁, hsame₁⟩
    rw [step, if_neg (by simp [hlive₁]), act, hthread₁]
    exact if_pos (hrunning₁.trans hrunning)
  obtain ⟨s₂, htake, hthread₂, hqueue₂, hlive₂, hsame₂⟩ := htake
  obtain ⟨s', hrun₂, hthread, hqueue, -⟩ :=
    run_process (fun ev hev => hsame₂ ▸ hcalm ev (List.mem_append_right _ (hqueue₁ ▸ hev))) hlive₂ hthread₂
  have hown : run (step hosts) s (List.replicate batch.length (.process store) ++ .take ::
      List.replicate s₁.eventQueue.length (.process store)) = some s' := by
    rw [run_append, hrun₁, Option.bind_some, run_cons htake, hrun₂]
  refine ⟨_, s', fun l hl => ?_, hown, ?_⟩
  · obtain hl | hl := List.mem_append.1 hl
    · exact .inr (List.eq_of_mem_replicate hl)
    · exact (List.mem_cons.1 hl).imp id List.eq_of_mem_replicate
  · have horder := (run_inOrder h hown).order
    obtain ⟨before, hbefore⟩ := run_adds hrun
    obtain ⟨rounds, hadds⟩ := run_adds hown
    have hquiet : eventsOf (List.replicate batch.length (.process store) ++ .take ::
        List.replicate s₁.eventQueue.length (.process store)) = [] := by
      rw [eventsOf, List.filterMap_append]
      exact List.append_eq_nil_iff.2 ⟨eventsOf_replicate _ _, eventsOf_replicate _ _⟩
    rw [waiting, hthread, hqueue, hqueue₂, hadds.received, hquiet, hbefore.received] at horder
    simpa using horder

/-! ## One event -/

/-- A client subscribes to all tables. -/
def subscribeAll : Label := .subscription (.create { moduleName := str "m", clientId := str "c" } true)

def onePublished : List Label := [.start, subscribeAll, .event privateEvent, .take, .process {}]

def forgetful : Nat → EventHost := fun _ => forgetfulHost

theorem events_in_order_one : ∃ s, run (step forgetful) {} onePublished = some s ∧ (s.sentTo (str "wasm_sub_1")).length = 1 ∧
    (s.sentTo (str "wasm_sub_1")).Sublist [privateEvent] :=
  ⟨_, rfl, by decide, (events_in_order forgetful onePublished _ rfl).2.2 (str "wasm_sub_1")⟩

theorem subscribed_events_one : ∃ (s : EventPipeline) (rounds : List ProcessedEvent),
    run (step forgetful) {} onePublished = some s ∧ s.processed = rounds ∧
    rounds.map ProcessedEvent.event ++ s.waiting = [privateEvent] ∧
    ∀ r ∈ rounds, r.subscriptions[str "wasm_sub_1"]? = some { moduleName := str "m", clientId := str "c", id := str "wasm_sub_1" } := by
  obtain ⟨rounds, hprocessed, horder, hsees⟩ := subscribed_events forgetful [.start] [.event privateEvent, .take, .process {}]
    { moduleName := str "m", clientId := str "c" } true _ _ (by decide) rfl rfl (by simp [subscriptionLabels])
  exact ⟨_, rounds, rfl, hprocessed, horder, hsees⟩

theorem calm_privateEvent : Processing.completes forgetfulHost privateEvent ((forgetfulHost.env.order.list
    (WasmSubscriptions.apply {} (.create { moduleName := str "m", clientId := str "c" } true)).manager.subscriptions).map Prod.snd) {} = true := by
  decide

theorem waiting_processed_one : ∃ s own s', run (step forgetful) {} [.start, subscribeAll, .event privateEvent] = some s ∧
    run (step forgetful) s own = some s' ∧ s'.processed.map ProcessedEvent.event = [privateEvent] := by
  have hcalm : ∀ ev ∈ [privateEvent], Calm forgetful {}
      (WasmSubscriptions.apply {} (.create { moduleName := str "m", clientId := str "c" } true)).manager ev := by
    intro ev hev n
    rw [List.mem_singleton.1 hev]
    exact calm_privateEvent
  obtain ⟨own, s', -, hrun, hprocessed⟩ := waiting_processed forgetful {} [.start, subscribeAll, .event privateEvent] _ rfl rfl rfl hcalm
  exact ⟨_, own, s', rfl, hrun, hprocessed⟩

end EventPipeline

end OriginDB
