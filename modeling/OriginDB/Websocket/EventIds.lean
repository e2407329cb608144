import OriginDB.Websocket.AllTables
/-!
# The ids of event frames (`websocket_server.cpp:702-762, 1019-1033`, `sql_subscription.cpp:369-403`)

A client is told the id of each of its subscriptions, `sql_sub_` and a number. `ProcessEvent` returns for a subscription
that matches its client and the filtered event, not its id, and `OnChangefeedEvent` writes into the frame the id it was
called with: that of the server's own subscription to the changefeed, `sub-` and a number.

| here | there |
| --- | --- |
| `told`    | the id in `sql_subscription_created` and `all_tables_subscription_created` |
| `matched` | the subscriptions for which `ProcessEvent` returns something, in its order |
| `onChangefeedEvent` | the frames that are printed and sent |
-/
namespace OriginDB

open JsonDoc ByteCodec Machine AllTables

/-- A `sql_changefeed_event` frame, its client and the socket it goes to. -/
structure EventFrame where
  socket : Nat
  clientId : Bytes
  document : Json

def EventFrame.subscriptionId (f : EventFrame) : Option Bytes := (f.document.constMember (str "subscription_id")).bind Json.asString

namespace SqlSubscriptionManager

/-- The client and the id that a step tells it. -/
def told (m : SqlSubscriptionManager) : Label → Option (Bytes × Bytes)
  | .subscribe clientId query => (m.subscribe clientId query).1.map fun id => (clientId, id)
  | .subscribeToAllTables clientId => some (clientId, (m.subscribeToAllTables clientId).1)
  | _ => none

/-- All that is told in a run. -/
def toldIn (m : SqlSubscriptionManager) : List Label → List (Bytes × Bytes)
  | [] => []
  | l :: ls => (m.told l).toList ++ match m.step l with
    | some m' => toldIn m' ls
    | none => []

/-- `CreateSubscription` (changefeed_engine.cpp:198) for `SetChangefeedEngine`. -/
def feedId (n : Nat) : Bytes := str "sub-" ++ str (toString n)

section
variable (env : Env) (feed : Bytes) (clientIds : List (Nat × Bytes)) (m : SqlSubscriptionManager) (event : ChangefeedEvent)

def matched : List SqlSubscription :=
  (candidates env m event.table).filterMap fun p => if p.2.matchesEvent env.toJsonLib event then some p.2 else none

/-- The frame for one client, if it is connected and the document can be printed. -/
def eventFrame (p : Bytes × ChangefeedEvent) : Option EventFrame :=
  (clientIds.find? fun q => q.2 = p.1).bind fun q =>
    (env.dump (eventJson feed p.2)).map fun _ => ⟨q.1, p.1, eventJson feed p.2⟩

/-- `OnChangefeedEvent` (websocket_server.cpp:702). -/
def onChangefeedEvent : List EventFrame := (m.processEvent env event).filterMap (eventFrame env feed clientIds)

/-- The subscriptions it sends a frame for. -/
def reached : List SqlSubscription :=
  (matched env m event).filter fun sub =>
    (eventFrame env feed clientIds (sub.clientId, sub.filterEvent env.toJsonLib event)).isSome

end

/-- A frame for each subscription, with the id its client was told, so that frames of one client have different ids. -/
structure Named (told : List (Bytes × Bytes)) (frames : List EventFrame) (subs : List SqlSubscription) : Prop where
  named : List.Forall₂ (fun f sub =>
    f.clientId = sub.clientId ∧ f.subscriptionId = some sub.id ∧ (sub.clientId, sub.id) ∈ told) frames subs
  apart : frames.Pairwise fun f g => f.clientId = g.clientId → f.subscriptionId ≠ g.subscriptionId

section
variable {env : Env} {feed : Bytes} {clientIds : List (Nat × Bytes)} {m : SqlSubscriptionManager} {event : ChangefeedEvent}
  {sub : SqlSubscription} {f : EventFrame}

/-! ## Ids -/

/-- A stored subscription has the id it was made with. -/
theorem id_of_run {ls : List Label} (hrun : run step {} ls = some m) :
    ∀ (key : Bytes) (sub : SqlSubscription), m.subscriptions[key]? = some sub → ∃ k : Nat, sub.id = str "sql_sub_" ++ str (toString k) := by
  have hok : Allowed step (fun _ _ => True) {} ls := Allowed.of_forall fun _ _ _ => trivial
  refine run_invariant (fun m => ∀ (key : Bytes) (sub : SqlSubscription), m.subscriptions[key]? = some sub →
    ∃ k : Nat, sub.id = str "sql_sub_" ++ str (toString k)) ?_ (fun key sub h => by simp at h) hok hrun
  intro m l m' h _ hstep key sub hsub
  rcases step_cases hstep with ⟨-, -, hkeeps⟩ | rfl | ⟨new, hid, -, -, rfl⟩
  · exact h key sub (hkeeps key sub hsub)
  · exact h key sub hsub
  · rw [stored] at hsub
    split at hsub
    · cases hsub
      exact ⟨_, hid⟩
    · exact h key sub hsub

theorem toldIn_append (m : SqlSubscriptionManager) (ls ls' : List Label) : m.toldIn (ls ++ ls') =
    m.toldIn ls ++ match run step m ls with
      | some m' => m'.toldIn ls'
      | none => [] := by
  induction ls generalizing m with
  | nil => rfl
  | cons l ls ih =>
    rw [List.cons_append, toldIn, toldIn, run]
    cases m.step l with
    | none => simp
    | some m' => simp only [ih, List.append_assoc]

/-- A subscription that is there was there before, or its client has just been told. -/
theorem told_step {m' : SqlSubscriptionManager} {l : Label} (hstep : m.step l = some m') {key : Bytes}
    (hsub : m'.subscriptions[key]? = some sub) : m.subscriptions[key]? = some sub ∨ m.told l = some (sub.clientId, sub.id) := by
  cases l with
  | unsubscribe id =>
    rcases step_cases hstep with ⟨-, -, hkeeps⟩ | rfl | ⟨new, -, hclient, -, -⟩
    · exact Or.inl (hkeeps key sub hsub)
    · exact Or.inl hsub
    · cases hclient
  | unsubscribeAll clientId =>
    rcases step_cases hstep with ⟨-, -, hkeeps⟩ | rfl | ⟨new, -, hclient, -, -⟩
    · exact Or.inl (hkeeps key sub hsub)
    · exact Or.inl hsub
    · cases hclient
  | subscribeToAllTables clientId =>
    cases hstep
    rw [subscribeToAllTables, stored] at hsub
    split at hsub
    · cases hsub
      exact Or.inr rfl
    · exact Or.inl hsub
  | subscribe clientId query =>
    cases hstep
    rcases WebSocketServer.subscribe_cases m clientId query with ⟨-, hs⟩ | ⟨new, hparse, hid, hclient, hs⟩
    · rw [hs] at hsub
      exact Or.inl hsub
    · rw [hs, stored] at hsub
      split at hsub
      · cases hsub
        refine Or.inr ?_
        simp only [told, subscribe, hparse, hclient, hid, Option.map_some]
      · exact Or.inl hsub

/-- Every subscription that is there has been told to its client, under its id. -/
theorem told_of_run {ls : List Label} (hrun : run step {} ls = some m) :
    ∀ (key : Bytes) (sub : SqlSubscription), m.subscriptions[key]? = some sub → (sub.clientId, sub.id) ∈ toldIn {} ls := by
  have hok : Allowed step (fun _ _ => True) {} ls := Allowed.of_forall fun _ _ _ => trivial
  refine history_invariant (fun ls m => ∀ (key : Bytes) (sub : SqlSubscription), m.subscriptions[key]? = some sub →
    (sub.clientId, sub.id) ∈ toldIn {} ls) (fun key sub h => by simp at h) ?_ hok hrun
  intro ls m l m' hls h _ hstep key sub hsub
  rw [toldIn_append, hls, List.mem_append]
  rcases told_step hstep hsub with hold | hnew
  · exact Or.inl (h key sub hold)
  · refine Or.inr ?_
    simp only [toldIn, hnew, Option.toList_some, List.singleton_append, List.mem_cons, true_or]

/-- The feed's id is nobody's. -/
theorem feedId_ne (n k : Nat) : feedId n ≠ str "sql_sub_" ++ str (toString k) := by
  intro h
  have hsecond := congrArg (fun b : Bytes => b[1]?) h
  simp only [feedId] at hsecond
  rw [List.getElem?_append_left (by decide), List.getElem?_append_left (by decide)] at hsecond
  revert hsecond
  decide

theorem subscriptionId_eventJson (feed : Bytes) (ev : ChangefeedEvent) :
    ((eventJson feed ev).constMember (str "subscription_id")).bind Json.asString = some feed := by
  unfold eventJson nonEmpty
  split <;> split <;> split <;> rfl

/-! ## Frames -/

theorem processEvent_matched : m.processEvent env event =
    (matched env m event).map fun sub => (sub.clientId, sub.filterEvent env.toJsonLib event) := by
  rw [processEvent_eq, matched, List.map_filterMap]
  refine List.filterMap_congr fun p _ => ?_
  split <;> rfl

theorem eventFrame_eq_some {p : Bytes × ChangefeedEvent} (h : eventFrame env feed clientIds p = some f) :
    f.clientId = p.1 ∧ f.subscriptionId = some feed := by
  obtain ⟨q, -, hq⟩ := Option.bind_eq_some_iff.1 h
  obtain ⟨text, -, rfl⟩ := Option.map_eq_some_iff.1 hq
  exact ⟨rfl, subscriptionId_eventJson feed p.2⟩

theorem isSome_eventFrame {p : Bytes × ChangefeedEvent} : (eventFrame env feed clientIds p).isSome = true ↔
    (∃ q ∈ clientIds, q.2 = p.1) ∧ env.dump (eventJson feed p.2) ≠ none := by
  unfold eventFrame
  cases hfind : clientIds.find? fun q => q.2 = p.1 with
  | none =>
    have hnobody : ¬ ∃ q ∈ clientIds, q.2 = p.1 := by
      rintro ⟨q, hq, hid⟩
      have := List.find?_eq_none.1 hfind q hq
      simp [hid] at this
    simp [hnobody]
  | some q =>
    have hsome : ∃ q ∈ clientIds, q.2 = p.1 := ⟨q, List.mem_of_find?_eq_some hfind, by simpa using List.find?_some hfind⟩
    simp [hsome, Option.isSome_iff_ne_none]

/-- What matches is stored. -/
theorem stored_of_matched (hsub : sub ∈ matched env m event) : ∃ key : Bytes, m.subscriptions[key]? = some sub := by
  obtain ⟨p, hp, heq⟩ := List.mem_filterMap.1 hsub
  obtain ⟨q, -, hq⟩ := List.mem_filterMap.1 hp
  obtain ⟨stored, hstored, rfl⟩ := Option.map_eq_some_iff.1 hq
  split at heq
  · cases heq
    exact ⟨_, hstored⟩
  · cases heq

theorem id_ne_feedId {ls : List Label} (hrun : run step {} ls = some m) (n : Nat) (hsub : sub ∈ matched env m event) :
    sub.id ≠ feedId n := by
  obtain ⟨key, hstored⟩ := stored_of_matched hsub
  obtain ⟨k, hk⟩ := id_of_run hrun key sub hstored
  rw [hk]
  exact (feedId_ne n k).symm

theorem frames_named_iff {told : List (Bytes × Bytes)} (hids : ∀ sub ∈ matched env m event, sub.id ≠ feed) :
    Named told (onChangefeedEvent env feed clientIds m event) (reached env feed clientIds m event) ↔
      ∀ sub ∈ matched env m event, (∃ q ∈ clientIds, q.2 = sub.clientId) →
        env.dump (eventJson feed (sub.filterEvent env.toJsonLib event)) = none := by
  have hreached : reached env feed clientIds m event = [] ↔ ∀ sub ∈ matched env m event, (∃ q ∈ clientIds, q.2 = sub.clientId) →
      env.dump (eventJson feed (sub.filterEvent env.toJsonLib event)) = none := by
    rw [reached, List.filter_eq_nil_iff]
    refine forall₂_congr fun sub _ => ?_
    rw [isSome_eventFrame, not_and, not_not]
  rw [← hreached]
  constructor
  · intro h
    cases hframes : onChangefeedEvent env feed clientIds m event with
    | nil =>
      have hnone := h.named
      rw [hframes] at hnone
      exact List.forall₂_nil_left_iff.1 hnone
    | cons f frames =>
      have hnamed := h.named
      rw [hframes] at hnamed
      obtain ⟨sub, subs, ⟨-, hid, -⟩, -, hsubs⟩ := List.forall₂_cons_left_iff.1 hnamed
      have hsub : sub ∈ matched env m event := by
        have hmem : sub ∈ reached env feed clientIds m event := by
          rw [hsubs]
          exact List.mem_cons_self
        exact (List.mem_filter.1 hmem).1
      have hf : f ∈ onChangefeedEvent env feed clientIds m event := by
        rw [hframes]
        exact List.mem_cons_self
      obtain ⟨p, -, hp⟩ := List.mem_filterMap.1 hf
      rw [(eventFrame_eq_some hp).2] at hid
      exact absurd (Option.some.inj hid).symm (hids sub hsub)
  · intro hnil
    have hframes : onChangefeedEvent env feed clientIds m event = [] := by
      rw [onChangefeedEvent, processEvent_matched, List.filterMap_eq_nil_iff]
      intro p hp
      obtain ⟨sub, hsub, rfl⟩ := List.mem_map.1 hp
      have := List.filter_eq_nil_iff.1 hnil sub hsub
      simpa using this
    rw [hframes, hnil]
    exact ⟨List.Forall₂.nil, List.Pairwise.nil⟩

/-- **An event frame has the id of the subscription it is sent for in no case**: the frames of an event are named right
exactly when none is sent, because nobody connected has a subscription that matches. The client of each subscription that
matches was told its id all the same. -/
theorem event_ids_iff (env : Env) (ls : List Label) (m : SqlSubscriptionManager) (hrun : run step {} ls = some m)
    (n : Nat) (clientIds : List (Nat × Bytes)) (event : ChangefeedEvent) :
    (Named (toldIn {} ls) (onChangefeedEvent env (feedId n) clientIds m event) (reached env (feedId n) clientIds m event) ↔
      ∀ sub ∈ matched env m event, (∃ q ∈ clientIds, q.2 = sub.clientId) →
        env.dump (eventJson (feedId n) (sub.filterEvent env.toJsonLib event)) = none) ∧
    ∀ sub ∈ matched env m event, (sub.clientId, sub.id) ∈ toldIn {} ls := by
  refine ⟨frames_named_iff fun sub hsub => id_ne_feedId hrun n hsub, fun sub hsub => ?_⟩
  obtain ⟨key, hstored⟩ := stored_of_matched hsub
  exact told_of_run hrun key sub hstored

/-- A subscription on another table, and a client of it that is connected. -/
def elsewhere : List Label := [.subscribe (str "a") (selectAll (str "u"))]

def eventT : ChangefeedEvent :=
  { offset := 1, transactionId := str "txn_1", table := str "t", operation := str "DELETE", key := str "k", timestamp := 0 }

theorem event_ids_elsewhere : ∃ m, run step {} elsewhere = some m ∧ m.subscriptions.size = 1 ∧
    Named (toldIn {} elsewhere) (onChangefeedEvent plainEnv (feedId 1) [(7, str "a")] m eventT)
      (reached plainEnv (feedId 1) [(7, str "a")] m eventT) := by
  have hrun : ∃ m, run step {} elsewhere = some m ∧ m.subscriptions.size = 1 ∧ matched plainEnv m eventT = [] :=
    ⟨_, rfl, by decide, rfl⟩
  obtain ⟨m, hrun, hsize, hmatched⟩ := hrun
  refine ⟨m, hrun, hsize, (event_ids_iff plainEnv elsewhere m hrun 1 [(7, str "a")] eventT).1.2 fun sub hsub => ?_⟩
  rw [hmatched] at hsub
  cases hsub

/-- The client is told `sql_sub_1`, and its frame says `sub-1`. -/
theorem event_frame_misnamed : ∃ m, run step {} [.subscribeToAllTables (str "a")] = some m ∧
    toldIn {} [.subscribeToAllTables (str "a")] = [(str "a", str "sql_sub_1")] ∧
    (onChangefeedEvent plainEnv (feedId 1) [(7, str "a")] m eventT).map EventFrame.subscriptionId = [some (str "sub-1")] ∧
    ¬ Named (toldIn {} [.subscribeToAllTables (str "a")]) (onChangefeedEvent plainEnv (feedId 1) [(7, str "a")] m eventT)
      (reached plainEnv (feedId 1) [(7, str "a")] m eventT) := by
  have hutf : (eventJson (feedId 1) eventT).utf8 = true := by decide
  obtain ⟨text, htext⟩ := Option.isSome_iff_exists.1 ((plainEnv_utf8Only.dump_isSome _).2 hutf)
  have hrun : ∃ m, run step {} [.subscribeToAllTables (str "a")] = some m ∧ m.processEvent plainEnv eventT = [(str "a", eventT)] :=
    ⟨_, rfl, rfl⟩
  obtain ⟨m, hrun, hevents⟩ := hrun
  have hframes : onChangefeedEvent plainEnv (feedId 1) [(7, str "a")] m eventT = [⟨7, str "a", eventJson (feedId 1) eventT⟩] := by
    simp [onChangefeedEvent, hevents, eventFrame, htext]
  have hmatched := hevents
  rw [processEvent_matched, List.map_eq_singleton_iff] at hmatched
  obtain ⟨sub, hmatched, hsub⟩ := hmatched
  obtain ⟨hclient, hfilter⟩ := Prod.mk.inj hsub
  have hmem : sub ∈ matched plainEnv m eventT := by
    rw [hmatched]
    exact List.mem_cons_self
  refine ⟨m, hrun, by decide, by rw [hframes]; rfl, fun hnamed => ?_⟩
  have hnone := (frames_named_iff fun sub hsub => id_ne_feedId hrun 1 hsub).1 hnamed sub hmem
    ⟨(7, str "a"), List.mem_cons_self, hclient.symm⟩
  rw [hfilter, htext] at hnone
  cases hnone

end

end SqlSubscriptionManager

end OriginDB
