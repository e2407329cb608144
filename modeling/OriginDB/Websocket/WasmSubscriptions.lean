import OriginDB.Lib.Machine
import OriginDB.Lib.TwoIndexes
import OriginDB.Websocket.Messages
/-!
# The subscriptions of the modules' clients (`wasm_subscription.cpp:93-189, 229-241`)

The manager finds a subscription by its id and a client's by the client. Both are indexes into one list, the subscriptions that
there are in the order in which they were made (`Book`), and what the manager answers is said of that list
(`subscriptions_listed`).

| here | there |
| --- | --- |
| `deleteSubscription` | `DeleteSubscription` (`:125`) |
| `listSubscriptions`  | `ListSubscriptions` (`:164`) |
| `clear`              | the end of `Stop` (`:86-91`) |

`totalSubscriptions` and `activeSubscriptions` are two of the metrics. A `CreateSubscription` that fails in `SendInitialData` leaves
the subscription there and does not count it, and `Stop` does not count back what it clears.
-/
namespace OriginDB

open JsonDoc ByteCodec Machine TwoIndexes

namespace WasmSubscriptionManager

def deleteSubscription (m : WasmSubscriptionManager) (id : Bytes) : Bool × WasmSubscriptionManager :=
  match m.subscriptions[id]? with
  | none => (false, m)
  | some query =>
    let clientSubs := (m.clientSubscriptions[query.clientId]?.getD []).filter fun id' => id' ≠ id
    (true, { m with
      subscriptions := m.subscriptions.erase id
      clientSubscriptions :=
        if query.clientId = [] then m.clientSubscriptions
        else if clientSubs = [] then m.clientSubscriptions.erase query.clientId
        else m.clientSubscriptions.insert query.clientId clientSubs })

def getSubscription (m : WasmSubscriptionManager) (id : Bytes) : Option WasmSubscriptionQuery := m.subscriptions[id]?

def listSubscriptions (order : HashOrder) (m : WasmSubscriptionManager) (clientId : Bytes) : List WasmSubscriptionQuery :=
  if clientId = [] then (order.list m.subscriptions).map Prod.snd
  else match m.clientSubscriptions[clientId]? with
    | none => []
    | some ids => ids.filterMap fun id => m.subscriptions[id]?

end WasmSubscriptionManager

/-- The manager and its counters. -/
structure WasmSubscriptions where
  manager : WasmSubscriptionManager := {}
  totalSubscriptions : UInt64 := 0
  activeSubscriptions : UInt64 := 0

namespace WasmSubscriptions

inductive Label where
  /-- `answered`: what the module is asked for the initial data does not end in an exception. -/
  | create (query : WasmSubscriptionQuery) (answered : Bool)
  | delete (id : Bytes)
  | disconnect (clientId : Bytes)
  | clear

def apply (s : WasmSubscriptions) : Label → WasmSubscriptions
  | .create query answered =>
    let manager := (s.manager.createSubscription query).2
    if answered then
      { manager := manager
        totalSubscriptions := s.totalSubscriptions + 1
        activeSubscriptions := s.activeSubscriptions + 1 }
    else { s with manager := manager }
  | .delete id =>
    match s.manager.deleteSubscription id with
    | (false, _) => s
    | (true, manager) => { s with manager := manager, activeSubscriptions := s.activeSubscriptions - 1 }
  | .disconnect clientId =>
    { s with
      manager := s.manager.onClientDisconnected clientId
      activeSubscriptions := s.activeSubscriptions - UInt64.ofNat (s.manager.clientSubscriptions[clientId]?.getD []).length }
  | .clear => { s with manager := { s.manager with subscriptions := ∅, clientSubscriptions := ∅ } }

def step (s : WasmSubscriptions) (l : Label) : Option WasmSubscriptions := some (s.apply l)

/-! ## The list -/

/-- The client that a subscription is tracked under. -/
def client (q : WasmSubscriptionQuery) : Option Bytes := if q.clientId = [] then none else some q.clientId

/-- The subscriptions that there are, and how many were made, were not counted when they were, and were cleared. -/
structure Book where
  all : List WasmSubscriptionQuery := []
  made : Nat := 0
  uncounted : Nat := 0
  cleared : Nat := 0

def idOf (n : Nat) : Bytes := str "wasm_sub_" ++ str (toString n)

def Book.apply (b : Book) : Label → Book
  | .create query answered =>
    { b with
      all := b.all ++ [{ query with id := idOf (b.made + 1) }]
      made := b.made + 1
      uncounted := if answered then b.uncounted else b.uncounted + 1 }
  | .delete id => { b with all := b.all.filter fun q => q.id ≠ id }
  | .disconnect clientId => { b with all := b.all.filter fun q => client q ≠ some clientId }
  | .clear => { b with all := [], cleared := b.cleared + b.all.length }

def book (ls : List Label) : Book := ls.foldl Book.apply {}

/-- The two maps are the indexes of the list, and the counters count it. -/
structure Keeps (s : WasmSubscriptions) (b : Book) : Prop where
  next : s.manager.nextSubscriptionId = UInt64.ofNat (b.made + 1)
  numbered : ∀ q ∈ b.all, ∃ n ≤ b.made, q.id = idOf n
  nodup : (b.all.map WasmSubscriptionQuery.id).Nodup
  subscriptions : ∀ id, s.manager.subscriptions[id]? = byKey WasmSubscriptionQuery.id b.all id
  clients : ∀ c, s.manager.clientSubscriptions[c]? = byOwner WasmSubscriptionQuery.id client b.all c
  total : s.totalSubscriptions + UInt64.ofNat b.uncounted = UInt64.ofNat b.made
  active : s.activeSubscriptions + UInt64.ofNat b.uncounted = UInt64.ofNat (b.all.length + b.cleared)

section
variable {s : WasmSubscriptions} {b : Book} {query q : WasmSubscriptionQuery} {id c : Bytes}

theorem idOf_injective : Function.Injective idOf := fun _ _ h => str_toString_injective (List.append_cancel_left h)

theorem client_eq_some (hc : c ≠ []) : client q = some c ↔ q.clientId = c := by
  rw [client]
  split
  · rename_i h
    rw [h]
    simp [Ne.symm hc]
  · rw [Option.some.injEq]

theorem Keeps.start : Keeps {} {} where
  next := rfl
  numbered := by simp
  nodup := List.nodup_nil
  subscriptions := by simp [byKey]
  clients := by simp [byOwner, keysOf, owned]
  total := rfl
  active := rfl

theorem Keeps.nextId (h : s.Keeps b) (hfew : b.made + 1 < 2 ^ 64) : s.manager.nextId = idOf (b.made + 1) := by
  rw [WasmSubscriptionManager.nextId, h.next, UInt64.toNat_ofNat_of_lt' hfew]
  rfl

theorem Keeps.fresh (h : s.Keeps b) : byKey WasmSubscriptionQuery.id b.all (idOf (b.made + 1)) = none := by
  refine byKey_eq_none.2 fun q hq heq => ?_
  obtain ⟨n, hn, hid⟩ := h.numbered q hq
  have := idOf_injective (hid.symm.trans heq)
  omega

/-! ## One step -/

theorem Keeps.create (h : s.Keeps b) (hfew : b.made + 1 < 2 ^ 64) (answered : Bool) :
    (s.apply (.create query answered)).Keeps (b.apply (.create query answered)) := by
  have hfresh := h.fresh
  have hid := h.nextId hfew
  have hmanager : (s.apply (.create query answered)).manager = (s.manager.createSubscription query).2 := by
    cases answered <;> rfl
  refine ⟨?_, fun q hq => ?_, ?_, fun id => ?_, fun c => ?_, ?_, ?_⟩
  · rw [hmanager, WasmSubscriptionManager.createSubscription, h.next]
    simp [Book.apply, UInt64.ofNat_add]
  · obtain hq | hq := List.mem_append.1 hq
    · obtain ⟨n, hn, hid⟩ := h.numbered q hq
      exact ⟨n, Nat.le_succ_of_le hn, hid⟩
    · rw [List.mem_singleton.1 hq]
      exact ⟨b.made + 1, Nat.le_refl _, rfl⟩
  · rw [Book.apply, List.map_append]
    refine List.Nodup.append h.nodup (List.nodup_singleton _) (List.disjoint_singleton.2 ?_)
    intro hmem
    obtain ⟨q, hq, heq⟩ := List.mem_map.1 hmem
    exact byKey_eq_none.1 hfresh q hq heq
  · rw [hmanager, WasmSubscriptionManager.createSubscription, hid, Book.apply]
    dsimp only
    rw [OrdMap.getElem?_insert, byKey_append hfresh, h.subscriptions]
  · rw [hmanager, WasmSubscriptionManager.createSubscription, hid, Book.apply]
    dsimp only
    rw [byOwner_append]
    by_cases hnone : query.clientId = []
    · rw [if_pos hnone, if_neg (by simp [client, hnone]), h.clients]
    · rw [if_neg hnone, OrdMap.getElem?_insert, h.clients, byOwner_getD, h.clients]
      by_cases hc : query.clientId = c
      · subst hc
        rw [if_pos rfl, if_pos (by simp [client, hnone])]
      · rw [if_neg hc, if_neg (by simp [client, hnone, hc])]
  · have htotal := h.total
    cases answered with
    | true =>
      change s.totalSubscriptions + 1 + UInt64.ofNat b.uncounted = UInt64.ofNat (b.made + 1)
      rw [UInt64.ofNat_add, ← htotal]
      grind
    | false =>
      change s.totalSubscriptions + UInt64.ofNat (b.uncounted + 1) = UInt64.ofNat (b.made + 1)
      rw [UInt64.ofNat_add, UInt64.ofNat_add, ← htotal]
      grind
  · have hactive := h.active
    have hlength : (b.apply (.create query answered)).all.length + (b.apply (.create query answered)).cleared =
        b.all.length + b.cleared + 1 := by
      simp only [Book.apply, List.length_append, List.length_singleton]
      omega
    rw [hlength, UInt64.ofNat_add, ← hactive]
    cases answered with
    | true =>
      change s.activeSubscriptions + 1 + UInt64.ofNat b.uncounted = _
      grind
    | false =>
      change s.activeSubscriptions + UInt64.ofNat (b.uncounted + 1) = _
      rw [UInt64.ofNat_add]
      grind

theorem Keeps.delete (h : s.Keeps b) : (s.apply (.delete id)).Keeps (b.apply (.delete id)) := by
  have hsub : (b.all.filter fun q => q.id ≠ id).Sublist b.all := List.filter_sublist
  rw [apply, WasmSubscriptionManager.deleteSubscription, h.subscriptions]
  cases hget : byKey WasmSubscriptionQuery.id b.all id with
  | none =>
    -- nothing has the id
    have hall : (b.all.filter fun q => q.id ≠ id) = b.all :=
      List.filter_eq_self.2 fun q hq => by simpa using byKey_eq_none.1 hget q hq
    rw [Book.apply, hall]
    exact h
  | some query =>
    have hquery := mem_of_byKey hget
    refine ⟨h.next, fun q hq => h.numbered q (hsub.subset hq), h.nodup.sublist (hsub.map _), fun id' => ?_, fun c => ?_, h.total, ?_⟩
    · dsimp only
      rw [OrdMap.getElem?_erase, Book.apply, byKey_remove h.nodup, h.subscriptions]
    · dsimp only
      rw [Book.apply, h.clients, byOwner_getD, ← keysOf_remove]
      by_cases hnone : query.clientId = []
      · -- it is tracked under no client
        rw [if_pos hnone, h.clients]
        refine (byOwner_congr ?_).symm
        rw [keysOf_remove]
        refine List.filter_eq_self.2 fun k hk => ?_
        obtain ⟨q, hq, hc, rfl⟩ := mem_keysOf.1 hk
        rw [decide_eq_true_eq]
        intro heq
        rw [List.inj_on_of_nodup_map h.nodup hq hquery (heq.trans (key_of_byKey hget).symm), client, if_pos hnone] at hc
        cases hc
      · rw [if_neg hnone]
        by_cases hc : query.clientId = c
        · subst hc
          rw [byOwner]
          split
          · rw [OrdMap.getElem?_erase, if_pos rfl]
          · rw [OrdMap.getElem?_insert, if_pos rfl]
        · have hother : byOwner WasmSubscriptionQuery.id client (b.all.filter fun q => q.id ≠ id) c =
              byOwner WasmSubscriptionQuery.id client b.all c := by
            refine byOwner_congr ?_
            rw [keysOf_remove]
            refine List.filter_eq_self.2 fun k hk => ?_
            obtain ⟨q, hq, hcq, rfl⟩ := mem_keysOf.1 hk
            rw [decide_eq_true_eq]
            intro heq
            rw [List.inj_on_of_nodup_map h.nodup hq hquery (heq.trans (key_of_byKey hget).symm), client, if_neg hnone] at hcq
            exact hc (Option.some.inj hcq)
          rw [hother, ← h.clients]
          split
          · rw [OrdMap.getElem?_erase, if_neg hc]
          · rw [OrdMap.getElem?_insert, if_neg hc]
    · dsimp only [Book.apply]
      have hactive := h.active
      rw [← length_remove h.nodup hget, show ∀ n m : Nat, n + 1 + m = n + m + 1 by omega, UInt64.ofNat_add] at hactive
      grind

/-- What the loop leaves. -/
theorem getElem?_eraseAll_of_mem {ids : List Bytes} {m : StrMap WasmSubscriptionQuery} (h : id ∈ ids ∨ m[id]? = none) :
    (ids.foldl (fun subs id => subs.erase id) m)[id]? = none := by
  induction ids generalizing m with
  | nil => exact h.resolve_left List.not_mem_nil
  | cons i ids ih =>
    refine ih ?_
    rw [OrdMap.getElem?_erase]
    by_cases hi : i = id
    · exact .inr (if_pos hi)
    · rw [if_neg hi]
      exact h.imp_left fun h => (List.mem_cons.1 h).resolve_left (Ne.symm hi)

theorem getElem?_eraseAll_of_notMem {ids : List Bytes} {m : StrMap WasmSubscriptionQuery} (h : id ∉ ids) :
    (ids.foldl (fun subs id => subs.erase id) m)[id]? = m[id]? := by
  induction ids generalizing m with
  | nil => rfl
  | cons i ids ih =>
    rw [List.mem_cons, not_or] at h
    rw [List.foldl_cons, ih h.2, OrdMap.getElem?_erase, if_neg (Ne.symm h.1)]

/-- A client's subscriptions go, by the client's list. -/
theorem Keeps.onClientDisconnected (h : s.Keeps b) (c : Bytes) :
    (∀ id, (s.manager.onClientDisconnected c).subscriptions[id]? =
      byKey WasmSubscriptionQuery.id (b.all.filter fun q => client q ≠ some c) id) ∧
    (∀ c', (s.manager.onClientDisconnected c).clientSubscriptions[c']? =
      byOwner WasmSubscriptionQuery.id client (b.all.filter fun q => client q ≠ some c) c') ∧
    (s.manager.onClientDisconnected c).nextSubscriptionId = s.manager.nextSubscriptionId := by
  have hclients := h.clients c
  by_cases hempty : keysOf WasmSubscriptionQuery.id client b.all c = []
  · rw [byOwner, if_pos hempty] at hclients
    rw [WasmSubscriptionManager.onClientDisconnected, hclients]
    refine ⟨fun id => ?_, fun c' => ?_, rfl⟩
    · rw [byKey_removeOwner_of_notMem h.nodup (by simp [hempty]), h.subscriptions]
    · dsimp only
      rw [byOwner_removeOwner, ← h.clients]
      by_cases hc : c = c'
      · rw [if_pos hc, ← hc, hclients]
      · rw [if_neg hc]
  · rw [byOwner, if_neg hempty] at hclients
    rw [WasmSubscriptionManager.onClientDisconnected, hclients]
    refine ⟨fun id => ?_, fun c' => ?_, rfl⟩
    · dsimp only
      by_cases hid : id ∈ keysOf WasmSubscriptionQuery.id client b.all c
      · rw [getElem?_eraseAll_of_mem (.inl hid), byKey_removeOwner_of_mem h.nodup hid]
      · rw [getElem?_eraseAll_of_notMem hid, byKey_removeOwner_of_notMem h.nodup hid, h.subscriptions]
    · dsimp only
      rw [OrdMap.getElem?_erase, byOwner_removeOwner, h.clients]

theorem Keeps.disconnect (h : s.Keeps b) : (s.apply (.disconnect c)).Keeps (b.apply (.disconnect c)) := by
  have hsub : (b.all.filter fun q => client q ≠ some c).Sublist b.all := List.filter_sublist
  obtain ⟨hsubscriptions, hclients, hnext⟩ := h.onClientDisconnected c
  refine ⟨hnext.trans h.next, fun q hq => h.numbered q (hsub.subset hq), h.nodup.sublist (hsub.map _), hsubscriptions, hclients,
    h.total, ?_⟩
  have hactive := h.active
  dsimp only [apply, Book.apply]
  rw [h.clients, byOwner_getD]
  have hlength : (b.all.filter fun q => client q ≠ some c).length + (keysOf WasmSubscriptionQuery.id client b.all c).length =
      b.all.length := length_removeOwner
  rw [← hlength, show ∀ n k m : Nat, n + k + m = n + m + k by omega, UInt64.ofNat_add] at hactive
  grind

theorem Keeps.clear (h : s.Keeps b) : (s.apply .clear).Keeps (b.apply .clear) where
  next := h.next
  numbered := by simp [Book.apply]
  nodup := List.nodup_nil
  subscriptions := by simp [apply, Book.apply, byKey]
  clients := by simp [apply, Book.apply, byOwner, keysOf, owned]
  total := h.total
  active := by
    rw [Book.apply, List.length_nil, Nat.zero_add, Nat.add_comm]
    exact h.active

theorem Keeps.apply (h : s.Keeps b) (hfew : b.made + 1 < 2 ^ 64) (l : Label) : (s.apply l).Keeps (b.apply l) := by
  cases l with
  | create query answered => exact h.create hfew answered
  | delete id => exact h.delete
  | disconnect clientId => exact h.disconnect
  | clear => exact h.clear

/-- It does not end the subscription. -/
def Label.Spares (q : WasmSubscriptionQuery) : Label → Prop
  | .create _ _ => True
  | .delete id => id ≠ q.id
  | .disconnect clientId => client q ≠ some clientId
  | .clear => False

theorem mem_apply {l : Label} (hq : q ∈ b.all) (hl : l.Spares q) : q ∈ (b.apply l).all := by
  cases l with
  | create query answered => exact List.mem_append_left _ hq
  | delete id => exact List.mem_filter.2 ⟨hq, decide_eq_true (Ne.symm hl)⟩
  | disconnect clientId => exact List.mem_filter.2 ⟨hq, decide_eq_true hl⟩
  | clear => exact hl.elim

/-! ## Whole runs -/

theorem run_eq (ls : List Label) (s : WasmSubscriptions) : run step s ls = some (ls.foldl apply s) := by
  induction ls generalizing s with
  | nil => rfl
  | cons l ls ih => exact ih (s.apply l)

/-- A step makes one subscription at most. -/
theorem made_foldl (ls : List Label) (b : Book) : (ls.foldl Book.apply b).made ≤ b.made + ls.length := by
  induction ls generalizing b with
  | nil => exact Nat.le_refl _
  | cons l ls ih =>
    have hone : (b.apply l).made ≤ b.made + 1 := by cases l <;> simp [Book.apply]
    have hrest := ih (b.apply l)
    rw [List.foldl_cons, List.length_cons]
    omega

theorem Keeps.foldl (h : s.Keeps b) (ls : List Label) (hfew : b.made + ls.length < 2 ^ 64) :
    (ls.foldl WasmSubscriptions.apply s).Keeps (ls.foldl Book.apply b) := by
  induction ls generalizing s b with
  | nil => exact h
  | cons l ls ih =>
    have hone := made_foldl [l] b
    rw [List.length_cons] at hfew
    exact ih (h.apply (by omega) l) (by simp only [List.foldl_cons, List.foldl_nil, List.length_singleton] at hone; omega)

theorem mem_foldl {ls : List Label} (hq : q ∈ b.all) (hspares : ∀ l ∈ ls, l.Spares q) : q ∈ (ls.foldl Book.apply b).all := by
  induction ls generalizing b with
  | nil => exact hq
  | cons l ls ih =>
    exact ih (mem_apply hq (hspares l List.mem_cons_self)) fun l' hl' => hspares l' (List.mem_cons_of_mem _ hl')

theorem Keeps.perm (h : s.Keeps b) (order : HashOrder) : ((order.list s.manager.subscriptions).map Prod.snd).Perm b.all := by
  have hid : ∀ p ∈ order.list s.manager.subscriptions, p.2 ∈ b.all ∧ p.2.id = p.1 := by
    intro p hp
    have hget := (mem_list_iff order s.manager.subscriptions).1 hp
    rw [h.subscriptions] at hget
    exact (byKey_iff h.nodup).1 hget
  have hkeys : ((order.list s.manager.subscriptions).map Prod.snd).map WasmSubscriptionQuery.id =
      (order.list s.manager.subscriptions).map Prod.fst := by
    rw [List.map_map]
    exact List.map_congr_left fun p hp => (hid p hp).2
  have hdistinct : ((order.list s.manager.subscriptions).map Prod.fst).Nodup :=
    OrdMap.Distinct.perm (OrdMap.distinct_toList _) (order.perm _)
  refine (List.perm_ext_iff_of_nodup (List.Nodup.of_map _ (hkeys ▸ hdistinct)) (List.Nodup.of_map _ h.nodup)).2 fun q => ?_
  constructor
  · intro hq
    obtain ⟨p, hp, rfl⟩ := List.mem_map.1 hq
    exact (hid p hp).1
  · intro hq
    have hget : s.manager.subscriptions[q.id]? = some q := by
      rw [h.subscriptions]
      exact byKey_of_mem h.nodup hq
    exact List.mem_map.2 ⟨(q.id, q), (mem_list_iff order _).2 hget, rfl⟩

theorem Keeps.list (h : s.Keeps b) (order : HashOrder) (hc : c ≠ []) :
    s.manager.listSubscriptions order c = b.all.filter fun q => q.clientId = c := by
  have howned : owned client b.all c = b.all.filter fun q => q.clientId = c :=
    List.filter_congr fun q _ => by simp [client_eq_some hc]
  have hback : (keysOf WasmSubscriptionQuery.id client b.all c).filterMap (byKey WasmSubscriptionQuery.id b.all) = owned client b.all c :=
    filterMap_keysOf h.nodup
  have hsubs : (fun id => s.manager.subscriptions[id]?) = byKey WasmSubscriptionQuery.id b.all := funext h.subscriptions
  rw [WasmSubscriptionManager.listSubscriptions, if_neg hc, h.clients, byOwner, hsubs, ← howned, ← hback]
  split
  · rename_i hempty
    split at hempty
    · rename_i hnil
      rw [hnil]
      rfl
    · cases hempty
  · rename_i hsome
    split at hsome
    · cases hsome
    · cases hsome
      rfl

end

/-- **The manager is the list of what is subscribed.** Over every run, `GetSubscription` finds in it by id, `ListSubscriptions` gives
a client's in the order in which they were made, and all of them when there is no client, `DeleteSubscription` succeeds on what is
there, and the counters are off by what was not counted and what a `Stop` has cleared. -/
theorem subscriptions_listed (order : HashOrder) (ls : List Label) (s : WasmSubscriptions) (hfew : ls.length < 2 ^ 64)
    (hrun : run step {} ls = some s) :
    (∀ id, s.manager.getSubscription id = (book ls).all.find? fun q => q.id = id) ∧
    (∀ id, (s.manager.deleteSubscription id).1 = (book ls).all.any fun q => q.id = id) ∧
    (∀ c ≠ [], s.manager.listSubscriptions order c = (book ls).all.filter fun q => q.clientId = c) ∧
    (s.manager.listSubscriptions order []).Perm (book ls).all ∧
    s.totalSubscriptions = UInt64.ofNat (book ls).made - UInt64.ofNat (book ls).uncounted ∧
    s.activeSubscriptions = UInt64.ofNat ((book ls).all.length + (book ls).cleared) - UInt64.ofNat (book ls).uncounted := by
  obtain rfl : ls.foldl WasmSubscriptions.apply {} = s := Option.some.inj ((run_eq ls {}).symm.trans hrun)
  have h : Keeps _ (book ls) := Keeps.start.foldl ls (by simpa using hfew)
  refine ⟨h.subscriptions, fun id => ?_, fun c hc => h.list order hc, h.perm order, ?_, ?_⟩
  · rw [WasmSubscriptionManager.deleteSubscription, h.subscriptions]
    cases hget : byKey WasmSubscriptionQuery.id (book ls).all id with
    | none =>
      symm
      simpa using byKey_eq_none.1 hget
    | some query =>
      symm
      simpa using ⟨query, mem_of_byKey hget, key_of_byKey hget⟩
  · rw [← h.total]
    grind
  · rw [← h.active]
    grind

/-- Two clients subscribe, one of them twice; it drops one of the two, and the other client leaves. -/
def threeSubscriptions : List Label :=
  [.create { moduleName := str "m", clientId := str "a" } true, .create { moduleName := str "m", clientId := str "b" } true,
    .create { moduleName := str "m", clientId := str "a", tables := [str "t"] } false, .delete (str "wasm_sub_1"), .disconnect (str "b")]

theorem subscriptions_listed_three : ∃ s, run step {} threeSubscriptions = some s ∧
    (s.manager.listSubscriptions .sorted (str "a")).map WasmSubscriptionQuery.id = [str "wasm_sub_3"] ∧ s.activeSubscriptions = 0 := by
  obtain ⟨-, -, hlist, -, -, hactive⟩ := subscriptions_listed .sorted threeSubscriptions _ (by decide) rfl
  refine ⟨_, rfl, ?_, ?_⟩
  · rw [hlist (str "a") (by decide)]
    decide
  · rw [hactive]
    decide

end WasmSubscriptions

end OriginDB
