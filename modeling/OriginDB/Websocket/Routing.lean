import OriginDB.Websocket.Messages
/-!
# The routing index (`sql_subscription.cpp:277-423`)

`ProcessEvent` asks the subscriptions that are filed under the event's table and those on all tables, and no
others. The index has every subscription once (`Routed`), as long as ids are not given out again while they are
in use, so this is the same as asking every subscription there is.

| here | there |
| --- | --- |
| `subscribe`, `subscribeToAllTables` | `Subscribe` (`:280`), `SubscribeToAllTables` (`:304`) |
| `unsubscribe`, `unsubscribeAll` | `Unsubscribe` (`:327`), `UnsubscribeAll` (`:351`) |
-/
namespace OriginDB

open JsonDoc ByteCodec Machine Regex

namespace SqlSubscriptionManager

inductive Label where
  | subscribe (clientId query : Bytes)
  | subscribeToAllTables (clientId : Bytes)
  | unsubscribe (id : Bytes)
  | unsubscribeAll (clientId : Bytes)

def step (m : SqlSubscriptionManager) : Label → Option SqlSubscriptionManager
  | .subscribe clientId query => some (m.subscribe clientId query).2
  | .subscribeToAllTables clientId => some (m.subscribeToAllTables clientId).2
  | .unsubscribe id => some (m.unsubscribe id)
  | .unsubscribeAll clientId => some (m.unsubscribeAll clientId)

/-- The client a step makes a subscription for. -/
def Label.subscriber : Label → Option Bytes
  | .subscribe clientId _ | .subscribeToAllTables clientId => some clientId
  | _ => none

/-- The id that is given out next is not that of a stored subscription. -/
def FreshId (m : SqlSubscriptionManager) (l : Label) : Prop :=
  l.subscriber ≠ none → m.subscriptions[m.generateSubscriptionId.1]? = none

/-- What `ProcessEvent` would return if it asked every subscription. -/
def matching (env : Env) (m : SqlSubscriptionManager) (event : ChangefeedEvent) : List (Bytes × ChangefeedEvent) :=
  (env.order.list m.subscriptions).filterMap fun (_, sub) =>
    if sub.matchesEvent env.toJsonLib event then some (sub.clientId, sub.filterEvent env.toJsonLib event) else none

/-- The body of the loop of `UnsubscribeAll`. -/
def drop (m : SqlSubscriptionManager) (id : Bytes) : SqlSubscriptionManager :=
  match m.subscriptions[id]? with
  | none => m
  | some sub => { m.unindexSubscription sub with subscriptions := m.subscriptions.erase id }

/-! ## The index -/

/-- The subscriptions filed under a table, or those on all tables. -/
def filedUnder (m : SqlSubscriptionManager) : Option Bytes → StrMap Unit
  | some t => m.tableIndex[t]?.getD ∅
  | none => m.allTablesIndex

end SqlSubscriptionManager

/-- Where a subscription is filed. -/
def SqlSubscription.place (sub : SqlSubscription) : Option Bytes :=
  if sub.type = .allTables then none else some sub.tableName

namespace SqlSubscriptionManager

/-- The four maps go together: every subscription is filed once, in its place, under its id, and its client's list
has it. -/
structure Routed (m : SqlSubscriptionManager) : Prop where
  keyed : WebSocketServer.Keyed m
  filed : ∀ (p : Option Bytes) (id : Bytes),
    (m.filedUnder p)[id]? = some () ↔ ∃ sub, m.subscriptions[id]? = some sub ∧ sub.place = p
  named : ∀ (id : Bytes) (sub : SqlSubscription), m.subscriptions[id]? = some sub → sub.type ≠ .allTables → sub.tableName ≠ []
  listed : ∀ (id : Bytes) (sub : SqlSubscription), m.subscriptions[id]? = some sub →
    id ∈ m.clientSubscriptions[sub.clientId]?.getD []

/-- Every subscription is on its client's list. -/
def Listed (m : SqlSubscriptionManager) : Prop :=
  ∀ (id : Bytes) (sub : SqlSubscription), m.subscriptions[id]? = some sub → id ∈ m.clientSubscriptions[sub.clientId]?.getD []

section
variable {m : SqlSubscriptionManager} {sub : SqlSubscription}

theorem filedUnder_index (m : SqlSubscriptionManager) (sub : SqlSubscription) (p : Option Bytes) (id : Bytes) :
    ((m.indexSubscription sub).filedUnder p)[id]? =
      if sub.place = p ∧ sub.id = id then some () else (m.filedUnder p)[id]? := by
  unfold indexSubscription SqlSubscription.place
  by_cases ht : sub.type = .allTables
  · cases p <;> simp [ht, filedUnder, OrdMap.getElem?_insert]
  · cases p with
    | none => simp [ht, filedUnder]
    | some t =>
      simp only [ht, if_false, filedUnder, OrdMap.getElem?_insert, Option.some.injEq]
      by_cases hn : sub.tableName = t
      · subst hn
        simp [OrdMap.getElem?_insert]
      · simp [hn]

theorem filedUnder_unindex (m : SqlSubscriptionManager) (sub : SqlSubscription) (p : Option Bytes) (id : Bytes) :
    ((m.unindexSubscription sub).filedUnder p)[id]? =
      if sub.place = p ∧ sub.id = id then none else (m.filedUnder p)[id]? := by
  unfold unindexSubscription SqlSubscription.place
  by_cases ht : sub.type = .allTables
  · cases p <;> simp [ht, filedUnder, OrdMap.getElem?_erase]
  · simp only [ht, if_false]
    cases hids : m.tableIndex[sub.tableName]? with
    | none =>
      -- nothing is filed under the table
      cases p with
      | none => simp [filedUnder]
      | some t =>
        simp only [filedUnder, Option.some.injEq]
        split
        · rename_i h
          rw [← h.1, hids]
          rfl
        · rfl
    | some ids =>
      cases p with
      | none =>
        simp only
        split <;> simp [filedUnder]
      | some t =>
        simp only [Option.some.injEq]
        by_cases hn : sub.tableName = t
        · subst hn
          split
          · rename_i hempty
            have hnone : (ids.erase sub.id)[id]? = none := by
              rw [Std.ExtTreeMap.isEmpty_iff.1 hempty]
              rfl
            rw [OrdMap.getElem?_erase] at hnone
            simp only [filedUnder, hids, OrdMap.getElem?_erase, Option.getD_some, true_and, if_true]
            by_cases hid : sub.id = id
            · simp [hid]
            · rw [if_neg hid] at hnone ⊢
              rw [hnone]
              rfl
          · simp [filedUnder, hids, OrdMap.getElem?_erase]
        · split <;> simp [filedUnder, hn, OrdMap.getElem?_insert, OrdMap.getElem?_erase]

@[simp] theorem filedUnder_subscriptions (m : SqlSubscriptionManager) (subs : StrMap SqlSubscription)
    (clients : StrMap (List Bytes)) (next : UInt64) (p : Option Bytes) :
    filedUnder { m with subscriptions := subs, clientSubscriptions := clients, nextSubscriptionId := next } p =
      m.filedUnder p := by
  cases p <;> rfl

/-- A subscription that is read from a query names its table. -/
theorem parse_named {query id clientId : Bytes} (h : SqlSubscriptionParser.parse query id clientId = some sub) :
    sub.tableName ≠ [] := by
  simp only [SqlSubscriptionParser.parse] at h
  split at h
  · cases h
  · rename_i found hfound
    have hname : IsName (found.str 2 (SqlSubscriptionParser.trim query)) := by
      -- the group is the seventh of the eight parts, and the last one has another
      have hcloses : SqlSubscriptionParser.selectPattern.Closes 2 IsName := by
        refine Or.inl (Or.inl (Or.inl (Or.inl (Or.inl (Or.inl (Or.inr ⟨⟨rfl, ?_⟩, ?_⟩))))))
        · intro l w r hm
          obtain ⟨hne, hword⟩ := matches_plus.1 hm
          exact ⟨hne, hword⟩
        · simp [Pattern.opt, Pattern.all, Pattern.groups]
      exact fullMatch_str hcloses hfound
    have htrim := hname.trim
    generalize (if found.matched 3 = true then
      SqlSubscriptionParser.trim (found.str 3 (SqlSubscriptionParser.trim query)) else []) = whereClause at h
    by_cases hw : whereClause = []
    · rw [if_pos hw] at h
      cases h
      simp [htrim, hname.ne_nil]
    · rw [if_neg hw] at h
      split at h
      · cases h
      · cases h
        simp [htrim, hname.ne_nil]

/-! ## The operations keep it -/

theorem Listed.store (h : Listed m) (sub : SqlSubscription) : Listed (m.store sub) := by
  intro id sub' hsub
  rw [SqlSubscriptionManager.store, OrdMap.getElem?_insert] at hsub
  have hlist : (m.store sub).clientSubscriptions[sub'.clientId]?.getD [] =
      if sub.clientId = sub'.clientId then m.clientSubscriptions[sub.clientId]?.getD [] ++ [sub.id]
      else m.clientSubscriptions[sub'.clientId]?.getD [] := by
    simp only [SqlSubscriptionManager.store, OrdMap.getElem?_insert]
    split <;> rfl
  rw [hlist]
  split at hsub
  · rename_i hid
    cases hsub
    simp [hid]
  · have hin := h id sub' hsub
    by_cases hc : sub.clientId = sub'.clientId
    · simp [hc, hin]
    · simpa [hc] using hin

theorem drop_eq (m : SqlSubscriptionManager) (id : Bytes) :
    (m.drop id).subscriptions = m.subscriptions.erase id ∧ (m.drop id).clientSubscriptions = m.clientSubscriptions ∧
    (m.drop id).nextSubscriptionId = m.nextSubscriptionId := by
  unfold drop
  cases hsub : m.subscriptions[id]? with
  | none => exact ⟨(OrdMap.erase_of_none hsub).symm, rfl, rfl⟩
  | some sub =>
    simp only [unindexSubscription, true_and]
    split
    · simp
    · split
      · simp
      · split <;> simp

/-- `Unsubscribe` drops the subscription and takes it off its client's list. -/
theorem unsubscribe_eq (m : SqlSubscriptionManager) (id : Bytes) : (m.unsubscribe id) =
    match m.subscriptions[id]? with
    | none => m
    | some sub =>
      let clientSubs := (m.clientSubscriptions[sub.clientId]?.getD []).filter fun id' => id' ≠ id
      { m.drop id with
        clientSubscriptions :=
          if clientSubs = [] then m.clientSubscriptions.erase sub.clientId
          else m.clientSubscriptions.insert sub.clientId clientSubs } := by
  unfold unsubscribe SqlSubscriptionManager.drop
  cases m.subscriptions[id]? <;> rfl

theorem Listed.unsubscribe (h : Listed m) (id : Bytes) : Listed (m.unsubscribe id) := by
  rw [unsubscribe_eq]
  cases hsub : m.subscriptions[id]? with
  | none => exact h
  | some sub =>
    obtain ⟨hsubs, hclients, -⟩ := m.drop_eq id
    intro k sub' hk
    simp only [hsubs, OrdMap.getElem?_erase] at hk
    split at hk
    · cases hk
    · rename_i hne
      have hin := h k sub' hk
      simp only
      by_cases hc : sub.clientId = sub'.clientId
      · have hmem : k ∈ (m.clientSubscriptions[sub.clientId]?.getD []).filter fun id' => id' ≠ id := by
          rw [hc]
          simp [hin, Ne.symm hne]
        rw [if_neg (List.ne_nil_of_mem hmem), OrdMap.getElem?_insert, if_pos hc]
        exact hmem
      · split
        · rwa [OrdMap.getElem?_erase, if_neg hc]
        · rwa [OrdMap.getElem?_insert, if_neg hc]

/-- Dropping one subscription after the other. -/
theorem foldl_drop (ids : List Bytes) (m : SqlSubscriptionManager) :
    (ids.foldl SqlSubscriptionManager.drop m).clientSubscriptions = m.clientSubscriptions ∧
    (ids.foldl SqlSubscriptionManager.drop m).nextSubscriptionId = m.nextSubscriptionId ∧
    ∀ id : Bytes, (ids.foldl SqlSubscriptionManager.drop m).subscriptions[id]? =
      if id ∈ ids then none else m.subscriptions[id]? := by
  induction ids generalizing m with
  | nil => simp
  | cons i ids ih =>
    obtain ⟨hsubs, hclients, hnext⟩ := m.drop_eq i
    obtain ⟨hc, hn, hs⟩ := ih (m.drop i)
    refine ⟨hc.trans hclients, hn.trans hnext, fun id => ?_⟩
    rw [List.foldl_cons, hs, hsubs, OrdMap.getElem?_erase]
    by_cases hid : i = id
    · simp [hid]
    · simp [hid, Ne.symm hid]

theorem unsubscribeAll_eq (m : SqlSubscriptionManager) (c : Bytes) : m.unsubscribeAll c =
    match m.clientSubscriptions[c]? with
    | none => m
    | some ids => { ids.foldl SqlSubscriptionManager.drop m with
        clientSubscriptions := (ids.foldl SqlSubscriptionManager.drop m).clientSubscriptions.erase c } := rfl

/-- `UnsubscribeAll` leaves none of the client's subscriptions. -/
theorem Listed.gone (h : Listed m) (c id : Bytes) (sub : SqlSubscription)
    (hsub : (m.unsubscribeAll c).subscriptions[id]? = some sub) : sub.clientId ≠ c := by
  rintro rfl
  rw [unsubscribeAll_eq] at hsub
  cases hids : m.clientSubscriptions[sub.clientId]? with
  | none =>
    rw [hids] at hsub
    have := h id sub hsub
    simp [hids] at this
  | some ids =>
    simp only [hids, (SqlSubscriptionManager.foldl_drop ids m).2.2] at hsub
    split at hsub
    · cases hsub
    · rename_i hnot
      have := h id sub hsub
      simp [hids, hnot] at this

theorem Listed.unsubscribeAll (h : Listed m) (c : Bytes) : Listed (m.unsubscribeAll c) := by
  intro k sub hk
  have hne := h.gone c k sub hk
  rw [unsubscribeAll_eq] at hk ⊢
  cases hids : m.clientSubscriptions[c]? with
  | none =>
    rw [hids] at hk
    exact h k sub hk
  | some ids =>
    simp only [hids, (SqlSubscriptionManager.foldl_drop ids m).2.2] at hk
    split at hk
    · cases hk
    · simp only [(SqlSubscriptionManager.foldl_drop ids m).1]
      rw [OrdMap.getElem?_erase, if_neg (Ne.symm hne)]
      exact h k sub hk

theorem Routed.boot : Routed {} := by
  refine ⟨?_, ?_, ?_, ?_⟩
  · intro id sub h
    simp at h
  · intro p id
    cases p <;> simp [filedUnder]
  · intro id sub h
    simp at h
  · intro id sub h
    simp at h

theorem Routed.next (h : Routed m) (n : UInt64) : Routed { m with nextSubscriptionId := n } := by
  refine ⟨h.keyed, fun p id => ?_, h.named, h.listed⟩
  have hf := h.filed p id
  cases p <;> exact hf

theorem Routed.store (h : Routed m) (hfresh : m.subscriptions[sub.id]? = none)
    (hnamed : sub.type ≠ .allTables → sub.tableName ≠ []) : Routed (m.store sub) := by
  have hsubs : (m.store sub).subscriptions = m.subscriptions.insert sub.id sub := rfl
  refine ⟨h.keyed.store sub, ?_, ?_, ?_⟩
  · intro p id
    have hfiled : (m.store sub).filedUnder p = (m.indexSubscription sub).filedUnder p := by cases p <;> rfl
    rw [hfiled, filedUnder_index, hsubs, OrdMap.getElem?_insert]
    by_cases hid : sub.id = id
    · subst hid
      have hnot : (m.filedUnder p)[sub.id]? ≠ some () := by
        intro hin
        obtain ⟨sub', hsub', -⟩ := (h.filed p sub.id).1 hin
        rw [hfresh] at hsub'
        cases hsub'
      by_cases hp : sub.place = p <;> simp [hp, hnot]
    · simp [hid, h.filed p id]
  · intro id sub' hsub
    rw [hsubs, OrdMap.getElem?_insert] at hsub
    split at hsub
    · cases hsub
      exact hnamed
    · exact h.named id sub' hsub
  · exact Listed.store h.listed sub

theorem Routed.drop (h : Routed m) (id : Bytes) : Routed (m.drop id) := by
  obtain ⟨hsubs, hclients, -⟩ := m.drop_eq id
  have hold : ∀ {k : Bytes} {sub : SqlSubscription}, (m.drop id).subscriptions[k]? = some sub →
      id ≠ k ∧ m.subscriptions[k]? = some sub := by
    intro k sub hk
    rw [hsubs, OrdMap.getElem?_erase] at hk
    split at hk
    · cases hk
    · rename_i hne
      exact ⟨hne, hk⟩
  refine ⟨h.keyed.erase hsubs, ?_, fun k sub hk => h.named k sub (hold hk).2, ?_⟩
  · intro p k
    rw [hsubs, OrdMap.getElem?_erase]
    cases hsub : m.subscriptions[id]? with
    | none =>
      have hm : m.drop id = m := by simp [SqlSubscriptionManager.drop, hsub]
      rw [hm, h.filed p k]
      by_cases hk : id = k
      · subst hk
        simp [hsub]
      · simp [hk]
    | some sub =>
      have hid : sub.id = id := h.keyed id sub hsub
      have hfiled : (m.drop id).filedUnder p = (m.unindexSubscription sub).filedUnder p := by
        cases p <;> simp [SqlSubscriptionManager.drop, hsub, filedUnder]
      rw [hfiled, filedUnder_unindex, hid]
      by_cases hk : id = k
      · subst hk
        have hplace := h.filed p id
        by_cases hp : sub.place = p
        · simp [hp]
        · simp [hp, hplace, hsub]
      · simp [hk, h.filed p k]
  · intro k sub hk
    rw [hclients]
    exact h.listed k sub (hold hk).2

theorem Routed.unsubscribe (h : Routed m) (id : Bytes) : Routed (m.unsubscribe id) := by
  have hlisted := Listed.unsubscribe h.listed id
  rw [unsubscribe_eq] at hlisted ⊢
  cases hsub : m.subscriptions[id]? with
  | none => exact h
  | some sub =>
    rw [hsub] at hlisted
    have hd := h.drop id
    refine ⟨hd.keyed, ?_, hd.named, hlisted⟩
    intro p k
    have hf := hd.filed p k
    cases p <;> exact hf

theorem Routed.foldl_drop (h : Routed m) (ids : List Bytes) : Routed (ids.foldl SqlSubscriptionManager.drop m) := by
  induction ids generalizing m with
  | nil => exact h
  | cons id ids ih => exact ih (h.drop id)

theorem Routed.unsubscribeAll (h : Routed m) (c : Bytes) : Routed (m.unsubscribeAll c) := by
  have hlisted := Listed.unsubscribeAll h.listed c
  rw [unsubscribeAll_eq] at hlisted ⊢
  cases hids : m.clientSubscriptions[c]? with
  | none => exact h
  | some ids =>
    rw [hids] at hlisted
    have hd := h.foldl_drop ids
    refine ⟨hd.keyed, ?_, hd.named, hlisted⟩
    intro p k
    have hf := hd.filed p k
    cases p <;> exact hf

/-- **What a step does**: it drops subscriptions, uses up an id for nothing, or stores a new one under it. -/
theorem step_cases {m' : SqlSubscriptionManager} {l : Label} (hstep : m.step l = some m') :
    (l.subscriber = none ∧ m'.nextSubscriptionId = m.nextSubscriptionId ∧
      ∀ (id : Bytes) (sub : SqlSubscription), m'.subscriptions[id]? = some sub → m.subscriptions[id]? = some sub) ∨
    m' = m.generateSubscriptionId.2 ∨
    ∃ new : SqlSubscription, new.id = m.generateSubscriptionId.1 ∧ l.subscriber = some new.clientId ∧
      (new.type ≠ .allTables → new.tableName ≠ []) ∧ m' = m.generateSubscriptionId.2.store new := by
  cases l with
  | subscribe clientId query =>
    cases hstep
    rcases WebSocketServer.subscribe_cases m clientId query with ⟨-, hs⟩ | ⟨new, hparse, hid, hclient, hs⟩
    · exact Or.inr (Or.inl hs)
    · refine Or.inr (Or.inr ⟨new, hid, ?_, fun _ => parse_named hparse, hs⟩)
      simp [Label.subscriber, hclient]
  | subscribeToAllTables clientId =>
    cases hstep
    refine Or.inr (Or.inr ⟨_, rfl, rfl, ?_, rfl⟩)
    intro hne
    exact absurd rfl hne
  | unsubscribe k =>
    cases hstep
    refine Or.inl ⟨rfl, ?_⟩
    rw [unsubscribe_eq]
    split
    · exact ⟨rfl, fun _ _ h => h⟩
    · obtain ⟨hsubs, -, hnext⟩ := m.drop_eq k
      refine ⟨hnext, fun id sub h => ?_⟩
      simp only [hsubs, OrdMap.getElem?_erase] at h
      split at h
      · cases h
      · exact h
  | unsubscribeAll c =>
    cases hstep
    refine Or.inl ⟨rfl, ?_⟩
    rw [unsubscribeAll_eq]
    split
    · exact ⟨rfl, fun _ _ h => h⟩
    · rename_i ids _
      obtain ⟨-, hnext, hsubs⟩ := foldl_drop ids m
      refine ⟨hnext, fun id sub h => ?_⟩
      simp only [hsubs] at h
      split at h
      · cases h
      · exact h

theorem stored (m : SqlSubscriptionManager) (new : SqlSubscription) (id : Bytes) :
    (m.store new).subscriptions[id]? = if new.id = id then some new else m.subscriptions[id]? := by
  rw [SqlSubscriptionManager.store, OrdMap.getElem?_insert]

theorem Routed.step {m' : SqlSubscriptionManager} {l : Label} (h : Routed m) (hfresh : m.FreshId l) (hstep : m.step l = some m') :
    Routed m' := by
  cases l with
  | unsubscribe id =>
    cases hstep
    exact h.unsubscribe id
  | unsubscribeAll clientId =>
    cases hstep
    exact h.unsubscribeAll clientId
  | subscribe | subscribeToAllTables =>
    rcases step_cases hstep with ⟨hnone, -⟩ | rfl | ⟨new, hid, hclient, hnamed, rfl⟩
    · simp [Label.subscriber] at hnone
    · exact h.next _
    · refine (h.next _).store ?_ hnamed
      rw [hid]
      exact hfresh (by simp [Label.subscriber])

/-! ## Asking the index is asking everybody -/

section
variable {env : Env}

theorem mem_order {V : Type} (order : HashOrder) {n : StrMap V} {p : Bytes × V} : p ∈ order.list n ↔ n[p.1]? = some p.2 := by
  rw [(order.perm n).mem_iff]
  exact Std.ExtTreeMap.mem_toList_iff_getElem?_eq_some

theorem distinct_order {V : Type} (order : HashOrder) (n : StrMap V) : OrdMap.Distinct (order.list n) :=
  (OrdMap.distinct_toList n).perm (order.perm n)

/-- The subscriptions `ProcessEvent` asks. -/
def candidates (env : Env) (m : SqlSubscriptionManager) (t : Bytes) : List (Bytes × SqlSubscription) :=
  (env.order.list (m.filedUnder (some t)) ++ env.order.list (m.filedUnder none)).filterMap fun p =>
    m.subscriptions[p.1]?.map fun sub => (p.1, sub)

theorem Routed.distinct_candidates (h : Routed m) (t : Bytes) : OrdMap.Distinct (candidates env m t) := by
  refine OrdMap.Distinct.filterMap ?_ (fun id (_ : Unit) => m.subscriptions[id]?)
  unfold OrdMap.Distinct
  rw [List.map_append, List.nodup_append]
  refine ⟨distinct_order _ _, distinct_order _ _, ?_⟩
  intro id hid id' hid' heq
  subst heq
  obtain ⟨p, hp, rfl⟩ := List.mem_map.1 hid
  obtain ⟨p', hp', heq⟩ := List.mem_map.1 hid'
  -- a subscription is filed in one place
  obtain ⟨sub, hsub, hplace⟩ := (h.filed _ _).1 ((mem_order _).1 hp)
  obtain ⟨sub', hsub', hplace'⟩ := (h.filed _ _).1 ((mem_order _).1 hp')
  rw [heq, hsub] at hsub'
  cases hsub'
  rw [hplace] at hplace'
  cases hplace'

theorem Routed.mem_candidates (h : Routed m) {t : Bytes} {p : Bytes × SqlSubscription} : p ∈ candidates env m t ↔
    m.subscriptions[p.1]? = some p.2 ∧ (p.2.place = some t ∨ p.2.place = none) := by
  obtain ⟨id, sub⟩ := p
  simp only [candidates, List.mem_filterMap, List.mem_append, mem_order, Option.map_eq_some_iff, Prod.mk.injEq]
  constructor
  · rintro ⟨q, hq, sub', hsub', rfl, rfl⟩
    refine ⟨hsub', ?_⟩
    rcases hq with hq | hq
    · obtain ⟨sub, hsub, hplace⟩ := (h.filed _ _).1 hq
      rw [hsub'] at hsub
      cases hsub
      exact Or.inl hplace
    · obtain ⟨sub, hsub, hplace⟩ := (h.filed _ _).1 hq
      rw [hsub'] at hsub
      cases hsub
      exact Or.inr hplace
  · rintro ⟨hsub, hplace | hplace⟩
    · exact ⟨(id, ()), Or.inl ((h.filed _ _).2 ⟨sub, hsub, hplace⟩), sub, hsub, rfl, rfl⟩
    · exact ⟨(id, ()), Or.inr ((h.filed _ _).2 ⟨sub, hsub, hplace⟩), sub, hsub, rfl, rfl⟩

theorem Routed.candidates_perm (h : Routed m) (t : Bytes) : (candidates env m t).Perm
    ((env.order.list m.subscriptions).filter fun p => p.2.place = some t ∨ p.2.place = none) := by
  have hl : (candidates env m t).Nodup := List.Nodup.of_map Prod.fst (h.distinct_candidates t)
  have hr : (env.order.list m.subscriptions).Nodup := List.Nodup.of_map Prod.fst (distinct_order _ _)
  rw [List.perm_ext_iff_of_nodup hl (hr.filter _)]
  intro p
  rw [h.mem_candidates]
  simp [mem_order]

/-- A subscription that is filed elsewhere does not match. -/
theorem matchesEvent_elsewhere {J : JsonLib} (event : ChangefeedEvent) (hnamed : sub.type ≠ .allTables → sub.tableName ≠ [])
    (h : ¬ (sub.place = some event.table ∨ sub.place = none)) : sub.matchesEvent J event = false := by
  unfold SqlSubscription.place at h
  by_cases ht : sub.type = .allTables
  · simp [ht] at h
  · simp only [ht, if_false, Option.some.injEq, reduceCtorEq, or_false] at h
    simp [SqlSubscription.matchesEvent, SqlSubscription.matchesColumns, ht, hnamed ht, Ne.symm h]

theorem processEvent_eq (m : SqlSubscriptionManager) (event : ChangefeedEvent) : m.processEvent env event =
    (candidates env m event.table).filterMap fun p =>
      if p.2.matchesEvent env.toJsonLib event then some (p.2.clientId, p.2.filterEvent env.toJsonLib event) else none := by
  rw [candidates, List.filterMap_filterMap, processEvent]
  congr 1
  ext p : 1
  rcases p with ⟨id, u⟩
  dsimp only
  cases m.subscriptions[id]? with
  | none => rfl
  | some sub => rfl

theorem Routed.processEvent_perm (h : Routed m) (event : ChangefeedEvent) : (m.processEvent env event).Perm (m.matching env event) := by
  rw [processEvent_eq]
  refine ((h.candidates_perm event.table).filterMap _).trans (List.Perm.of_eq ?_)
  rw [List.filterMap_filter, matching]
  refine List.filterMap_congr fun p hp => ?_
  split
  · rfl
  · rename_i hplace
    have hno := matchesEvent_elsewhere (J := env.toJsonLib) event (h.named p.1 p.2 ((mem_order _).1 hp)) (by simpa using hplace)
    simp [hno]

end

/-- A subscription that is there was there before, or its client has just made it. -/
theorem stored_step {m' : SqlSubscriptionManager} {l : Label} (hstep : m.step l = some m') {id : Bytes}
    (hsub : m'.subscriptions[id]? = some sub) : m.subscriptions[id]? = some sub ∨ l.subscriber = some sub.clientId := by
  rcases step_cases hstep with ⟨-, -, hkeeps⟩ | rfl | ⟨new, -, hclient, -, rfl⟩
  · exact Or.inl (hkeeps id sub hsub)
  · exact Or.inl hsub
  · rw [stored] at hsub
    split at hsub
    · cases hsub
      exact Or.inr hclient
    · exact Or.inl hsub

/-- A client that has no subscription gets none but by subscribing. -/
theorem noneOf_run {c : Bytes} {ls : List Label} {m m' : SqlSubscriptionManager}
    (h : ∀ (id : Bytes) (sub : SqlSubscription), m.subscriptions[id]? = some sub → sub.clientId ≠ c)
    (hls : ∀ l ∈ ls, l.subscriber ≠ some c) (hrun : run step m ls = some m') :
    ∀ (id : Bytes) (sub : SqlSubscription), m'.subscriptions[id]? = some sub → sub.clientId ≠ c := by
  have hok : Allowed step (fun _ l => l.subscriber ≠ some c) m ls := .of_forall fun l hl _ => hls l hl
  refine run_invariant
    (fun m => ∀ (id : Bytes) (sub : SqlSubscription), m.subscriptions[id]? = some sub → sub.clientId ≠ c) ?_ h hok hrun
  intro n l n' hn hl hstep id sub hsub hc
  rcases stored_step hstep hsub with hold | hnew
  · exact hn id sub hold hc
  · exact hl (by rw [hnew, hc])

theorem processEvent_clients {c : Bytes} (env : Env) (event : ChangefeedEvent)
    (h : ∀ (id : Bytes) (sub : SqlSubscription), m.subscriptions[id]? = some sub → sub.clientId ≠ c) :
    ∀ p ∈ m.processEvent env event, p.1 ≠ c := by
  intro p hp
  simp only [processEvent, List.mem_filterMap, Option.bind_eq_some_iff] at hp
  obtain ⟨⟨id, u⟩, -, sub, hsub, heq⟩ := hp
  split at heq
  · cases heq
    exact h id sub hsub
  · cases heq

/-- **Indexed routing equals the plain filter**, in every run in which no id is given out while it is in use; and
after `UnsubscribeAll` nothing goes to the client before it subscribes again. -/
theorem routing_is_filter (env : Env) (ls : List Label) (m : SqlSubscriptionManager) (hrun : run step {} ls = some m)
    (hok : Allowed step FreshId {} ls) :
    (∀ event, (m.processEvent env event).Perm (m.matching env event)) ∧
    ∀ (c : Bytes) (later : List Label) (m' : SqlSubscriptionManager), run step (m.unsubscribeAll c) later = some m' →
      (∀ l ∈ later, l.subscriber ≠ some c) → ∀ event, ∀ p ∈ m'.processEvent env event, p.1 ≠ c := by
  have hrouted : Routed m := run_invariant Routed (fun n l n' hn hl hstep => hn.step hl hstep) .boot hok hrun
  refine ⟨fun event => hrouted.processEvent_perm event, fun c later m' hlater hls event => ?_⟩
  exact processEvent_clients env event (noneOf_run (Listed.gone hrouted.listed c) hls hlater)

/-! ## Ids -/

/-- The ids that are in use have been given out. -/
def GivenOut (m : SqlSubscriptionManager) : Prop :=
  ∀ (id : Bytes) (sub : SqlSubscription), m.subscriptions[id]? = some sub →
    ∃ k < m.nextSubscriptionId.toNat, id = str "sql_sub_" ++ str (toString k)

@[simp] theorem store_next (m : SqlSubscriptionManager) (new : SqlSubscription) :
    (m.store new).nextSubscriptionId = m.nextSubscriptionId := by
  unfold SqlSubscriptionManager.store indexSubscription
  split <;> rfl

theorem GivenOut.step {m' : SqlSubscriptionManager} {l : Label} (h : m.GivenOut) (hstep : m.step l = some m')
    (hsmall : m.nextSubscriptionId.toNat + 1 < 2 ^ 64) :
    m'.GivenOut ∧ m'.nextSubscriptionId.toNat ≤ m.nextSubscriptionId.toNat + 1 := by
  have hadd : (m.nextSubscriptionId + 1).toNat = m.nextSubscriptionId.toNat + 1 := by
    rw [UInt64.toNat_add]
    exact Nat.mod_eq_of_lt hsmall
  rcases step_cases hstep with ⟨-, hnext, hkeeps⟩ | rfl | ⟨new, hid, -, -, rfl⟩
  · rw [hnext]
    refine ⟨fun id sub hsub => ?_, by omega⟩
    rw [hnext]
    exact h id sub (hkeeps id sub hsub)
  · refine ⟨fun id sub hsub => ?_, hadd.le⟩
    obtain ⟨k, hk, rfl⟩ := h id sub hsub
    exact ⟨k, by simp only [generateSubscriptionId, hadd]; omega, rfl⟩
  · refine ⟨fun id sub hsub => ?_, by rw [store_next]; exact hadd.le⟩
    rw [store_next]
    rw [stored] at hsub
    split at hsub
    · rename_i heq
      refine ⟨m.nextSubscriptionId.toNat, ?_, ?_⟩
      · simp only [generateSubscriptionId, hadd]
        omega
      · rw [← heq, hid]
        rfl
    · obtain ⟨k, hk, rfl⟩ := h id sub hsub
      exact ⟨k, by simp only [generateSubscriptionId, hadd]; omega, rfl⟩

/-- No id is given out twice before the numbers are used up. -/
theorem freshIds_of_few {ls : List Label} (h : m.GivenOut) (hfew : m.nextSubscriptionId.toNat + ls.length ≤ 2 ^ 64) :
    Allowed step FreshId m ls := by
  induction ls generalizing m with
  | nil => trivial
  | cons l ls ih =>
    simp only [List.length_cons] at hfew
    refine ⟨?_, ?_⟩
    · intro _
      cases hid : m.subscriptions[m.generateSubscriptionId.1]? with
      | none => rfl
      | some sub =>
        obtain ⟨k, hk, heq⟩ := h _ sub hid
        have hkn := str_toString_injective (List.append_cancel_left heq)
        omega
    · cases hstep : m.step l with
      | none => trivial
      | some m' =>
        cases ls with
        | nil => trivial
        | cons l' ls =>
          simp only [List.length_cons] at hfew
          obtain ⟨hgiven, hnext⟩ := h.step hstep (by omega)
          apply ih hgiven
          simp only [List.length_cons]
          omega

theorem GivenOut.boot : GivenOut {} := by
  intro id sub h
  simp at h

/-- One subscription by table and columns, one to all tables; the third is taken back. -/
def threeSubscriptions : List Label :=
  [.subscribe (str "a") (selectAll (str "t")), .subscribeToAllTables (str "b"), .subscribe (str "b") (str "SELECT a FROM t"),
   .unsubscribe (str "sql_sub_1")]

theorem routing_is_filter_three : ∃ m, run step {} threeSubscriptions = some m ∧ m.subscriptions.size = 2 ∧
    (∀ event, (m.processEvent rowAEnv event).Perm (m.matching rowAEnv event)) ∧
    ∀ (c : Bytes) (later : List Label) (m' : SqlSubscriptionManager), run step (m.unsubscribeAll c) later = some m' →
      (∀ l ∈ later, l.subscriber ≠ some c) → ∀ event, ∀ p ∈ m'.processEvent rowAEnv event, p.1 ≠ c := by
  have hsize : (run step {} threeSubscriptions).map (fun m => m.subscriptions.size) = some 2 := by decide
  obtain ⟨m, hm, hsize⟩ := Option.map_eq_some_iff.1 hsize
  exact ⟨m, hm, hsize, routing_is_filter rowAEnv threeSubscriptions m hm (freshIds_of_few GivenOut.boot (by decide))⟩

/-- Queries that are no queries use up ids all the same. -/
theorem run_wasted (c : Bytes) (n : Nat) (m : SqlSubscriptionManager) : run step m (List.replicate n (.subscribe c [])) =
    some { m with nextSubscriptionId := m.nextSubscriptionId + UInt64.ofNat n } := by
  induction n generalizing m with
  | zero => simp
  | succ n ih =>
    have hparse : ∀ id : Bytes, SqlSubscriptionParser.parse [] id c = none := by
      intro id
      have hnone : fullMatch SqlSubscriptionParser.selectPattern (SqlSubscriptionParser.trim []) = none := by decide
      simp [SqlSubscriptionParser.parse, hnone]
    have hstep : step m (.subscribe c []) = some { m with nextSubscriptionId := m.nextSubscriptionId + 1 } := by
      simp only [step, SqlSubscriptionManager.subscribe, hparse]
      rfl
    have hadd : m.nextSubscriptionId + 1 + UInt64.ofNat n = m.nextSubscriptionId + UInt64.ofNat (n + 1) := by
      rw [UInt64.add_assoc, Nat.add_comm n 1, UInt64.ofNat_add]
      rfl
    rw [List.replicate_succ, run_cons hstep, ih]
    simp only [hadd]

/-- Ids start again at `sql_sub_1` after 2^64 calls, accepted or not. -/
def idsUsedUp : List Label :=
  .subscribeToAllTables (str "a") :: (List.replicate (2 ^ 64 - 1) (.subscribe (str "a") []) ++
    [.subscribe (str "a") (selectAll (str "t"))])

/-- The one subscription `sql_sub_1` is filed twice then, and has the event twice. -/
theorem routed_twice : ∃ m event, run step {} idsUsedUp = some m ∧
    ¬ (m.processEvent rowAEnv event).Perm (m.matching rowAEnv event) := by
  let first : SqlSubscriptionManager := (subscribeToAllTables {} (str "a")).2
  let last : SqlSubscriptionManager := { first with nextSubscriptionId := first.nextSubscriptionId + UInt64.ofNat (2 ^ 64 - 1) }
  let event : ChangefeedEvent := 
    { transactionId := [], table := str "t", operation := str "INSERT", key := str "k", timestamp := 0 }
  have hfirst : step {} (.subscribeToAllTables (str "a")) = some first := rfl
  have hlengths : ((last.subscribe (str "a") (selectAll (str "t"))).2.processEvent rowAEnv event).length = 2 ∧
      ((last.subscribe (str "a") (selectAll (str "t"))).2.matching rowAEnv event).length = 1 := by decide +kernel
  refine ⟨(last.subscribe (str "a") (selectAll (str "t"))).2, event, ?_, ?_⟩
  · rw [idsUsedUp, run_cons hfirst, run_append, run_wasted]
    rfl
  · intro hperm
    have := hperm.length_eq
    omega

end

end SqlSubscriptionManager

end OriginDB
