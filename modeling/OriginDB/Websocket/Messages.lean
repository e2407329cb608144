import OriginDB.Changefeed.Session
import OriginDB.Websocket.Sockets
/-!
# What a message does to the subscriptions (`websocket_server.cpp:515-576`, `sql_subscription.cpp:280-350`,
`wasm_subscription.cpp:93-122`)

Every handler that makes a subscription makes it for the client of its own socket, under an id that nobody
chooses. `sql_unsubscribe` takes the id from the message and does not ask whose it is.

A subscription belongs to the client it was made for. What a client is sent for an event depends on its own
subscriptions alone, up to the order in which the managers come across them (`frame_sql`, `frame_wasm`).
-/
namespace OriginDB

open JsonDoc ByteCodec Machine

/-! ## The managers -/

namespace SqlSubscriptionManager

/-- The end of `Subscribe` and of `SubscribeToAllTables` (sql_subscription.cpp:290-297, 315-321). -/
def store (m : SqlSubscriptionManager) (sub : SqlSubscription) : SqlSubscriptionManager :=
  { m.indexSubscription sub with
    subscriptions := m.subscriptions.insert sub.id sub
    clientSubscriptions :=
      m.clientSubscriptions.insert sub.clientId ((m.clientSubscriptions[sub.clientId]?.getD []) ++ [sub.id]) }

/-- `SubscribeToAllTables` (sql_subscription.cpp:304). -/
def subscribeToAllTables (m : SqlSubscriptionManager) (clientId : Bytes) : Bytes × SqlSubscriptionManager :=
  let (id, m) := m.generateSubscriptionId
  (id, m.store { id := id, clientId := clientId, type := .allTables })

/-- `UnindexSubscription` (sql_subscription.cpp:419). -/
def unindexSubscription (m : SqlSubscriptionManager) (sub : SqlSubscription) : SqlSubscriptionManager :=
  if sub.type = .allTables then { m with allTablesIndex := m.allTablesIndex.erase sub.id }
  else
    match m.tableIndex[sub.tableName]? with
    | none => m
    | some ids =>
      if (ids.erase sub.id).isEmpty then { m with tableIndex := m.tableIndex.erase sub.tableName }
      else { m with tableIndex := m.tableIndex.insert sub.tableName (ids.erase sub.id) }

/-- `Unsubscribe` (sql_subscription.cpp:327). -/
def unsubscribe (m : SqlSubscriptionManager) (id : Bytes) : SqlSubscriptionManager :=
  match m.subscriptions[id]? with
  | none => m
  | some sub =>
    let clientSubs := (m.clientSubscriptions[sub.clientId]?.getD []).filter fun id' => id' ≠ id
    { m.unindexSubscription sub with
      subscriptions := m.subscriptions.erase id
      clientSubscriptions :=
        if clientSubs = [] then m.clientSubscriptions.erase sub.clientId
        else m.clientSubscriptions.insert sub.clientId clientSubs }

/-- `UnsubscribeAll` (sql_subscription.cpp:351). -/
def unsubscribeAll (m : SqlSubscriptionManager) (clientId : Bytes) : SqlSubscriptionManager :=
  match m.clientSubscriptions[clientId]? with
  | none => m
  | some ids =>
    let m := ids.foldl (fun m id =>
      match m.subscriptions[id]? with
      | none => m
      | some sub => { m.unindexSubscription sub with subscriptions := m.subscriptions.erase id }) m
    { m with clientSubscriptions := m.clientSubscriptions.erase clientId }

end SqlSubscriptionManager

/-- `WasmSubscriptionQuery` (wasm_subscription.h:25), what `ProcessSingleEvent` looks at. No tables are all of them. -/
structure WasmSubscriptionQuery where
  id : Bytes := []
  moduleName : Bytes
  filterFunction : Bytes := []
  transformFunction : Bytes := []
  tables : List Bytes := []
  clientId : Bytes

/-- `WasmSubscriptionManager::Impl`. -/
structure WasmSubscriptionManager where
  subscriptions : StrMap WasmSubscriptionQuery := ∅
  clientSubscriptions : StrMap (List Bytes) := ∅
  nextSubscriptionId : UInt64 := 1

namespace WasmSubscriptionManager

def nextId (m : WasmSubscriptionManager) : Bytes := str "wasm_sub_" ++ str (toString m.nextSubscriptionId.toNat)

/-- `CreateSubscription` (wasm_subscription.cpp:93). -/
def createSubscription (m : WasmSubscriptionManager) (query : WasmSubscriptionQuery) : Bytes × WasmSubscriptionManager :=
  (m.nextId, { m with
    nextSubscriptionId := m.nextSubscriptionId + 1
    subscriptions := m.subscriptions.insert m.nextId { query with id := m.nextId }
    clientSubscriptions :=
      if query.clientId = [] then m.clientSubscriptions
      else m.clientSubscriptions.insert query.clientId ((m.clientSubscriptions[query.clientId]?.getD []) ++ [m.nextId]) })

/-- `OnClientDisconnected` (wasm_subscription.cpp:229), up to the reducers it calls. -/
def onClientDisconnected (m : WasmSubscriptionManager) (clientId : Bytes) : WasmSubscriptionManager :=
  match m.clientSubscriptions[clientId]? with
  | none => m
  | some ids =>
    { m with
      subscriptions := ids.foldl (fun subs id => subs.erase id) m.subscriptions
      clientSubscriptions := m.clientSubscriptions.erase clientId }

/-- The subscriptions of a client that `ProcessSingleEvent` (wasm_subscription.cpp:316) runs through filter and
transform for an event. -/
def queriesFor (env : Env) (m : WasmSubscriptionManager) (client : Bytes) (ev : ChangefeedEvent) : List WasmSubscriptionQuery :=
  (env.order.list m.subscriptions).filterMap fun p =>
    if p.2.clientId = client ∧ (p.2.tables = [] ∨ p.2.tables.contains ev.table) then some p.2 else none

end WasmSubscriptionManager

/-! ## The messages -/

/-- What `HandleWebSocketMessage` works on. -/
structure WebSocketServer where
  /-- `client_ids_` -/
  clientIds : List (Nat × Bytes) := []
  sqlManager : SqlSubscriptionManager := {}
  wasmManager : WasmSubscriptionManager := {}

namespace WebSocketServer

/-- The client of a socket; empty if it has none. -/
def clientId (s : WebSocketServer) (socket : Nat) : Bytes :=
  ((s.clientIds.find? fun p => p.1 = socket).map Prod.snd).getD []

/-- A member that need not be there, converted; `none` is the exception of the conversion. -/
def optional {α : Type} (request : Json) (k : Bytes) (convert : Json → Option α) (dflt : α) : Option α :=
  match request.constMember k with
  | none => some dflt
  | some j => convert j

/-- The conversion to `uint64_t` takes numbers; a boolean is none. -/
def isArithmetic : Json → Option Unit
  | .int _ | .float _ => some ()
  | _ => none

/-- The query `HandleSubscriptionRequest` (websocket_server.cpp:858) builds; `none` is an error answer. -/
def wasmQuery (clientId : Bytes) (request : Json) : Option WasmSubscriptionQuery := do
  let moduleName ← (request.constMember (str "module_name")).bind Json.asString
  let filterFunction ← optional request (str "filter_function") Json.asString []
  let transformFunction ← optional request (str "transform_function") Json.asString []
  let tables ← optional request (str "tables") Json.asStrings []
  let _ ← optional request (str "where_clause") Json.asString []
  let _ ← optional request (str "columns") Json.asStrings []
  let _ ← optional request (str "include_initial_data") Json.asBool false
  let _ ← optional request (str "start_offset") isArithmetic ()
  return { moduleName := moduleName, filterFunction := filterFunction, transformFunction := transformFunction
           tables := tables, clientId := clientId }

/-- `HandleSqlSubscriptionRequest` (websocket_server.cpp:962). -/
def handleSqlSubscriptionRequest (s : WebSocketServer) (socket : Nat) (request : Json) : WebSocketServer :=
  if s.clientId socket = [] then s
  else
    match (request.constMember (str "sql")).bind Json.asString with
    | none => s
    | some sql => { s with sqlManager := (s.sqlManager.subscribe (s.clientId socket) sql).2 }

/-- `HandleSubscribeToAllTablesRequest` (websocket_server.cpp:1028). -/
def handleSubscribeToAllTablesRequest (s : WebSocketServer) (socket : Nat) : WebSocketServer :=
  if s.clientId socket = [] then s
  else { s with sqlManager := (s.sqlManager.subscribeToAllTables (s.clientId socket)).2 }

def handleSubscriptionRequest (s : WebSocketServer) (socket : Nat) (request : Json) : WebSocketServer :=
  if s.clientId socket = [] then s
  else
    match wasmQuery (s.clientId socket) request with
    | none => s
    | some query => { s with wasmManager := (s.wasmManager.createSubscription query).2 }

/-- `HandleWebSocketMessage` (websocket_server.cpp:515). What is not JSON, has no type or one that is not known is
answered; `call_reducer` runs a reducer, which reaches tables only. -/
def handleWebSocketMessage (J : JsonLib) (s : WebSocketServer) (socket : Nat) (message : Bytes) : WebSocketServer :=
  match J.parse message with
  | none => s
  | some request =>
    match request.valueOr (str "type") [] with
    | none => s
    | some type =>
      if type = str "sql_subscribe" then s.handleSqlSubscriptionRequest socket request
      else if type = str "sql_unsubscribe" then
        match request.valueOr (str "subscription_id") [] with
        | none => s
        | some id => if id = [] then s else { s with sqlManager := s.sqlManager.unsubscribe id }
      else if type = str "subscribe_to_all_tables" then s.handleSubscribeToAllTablesRequest socket
      else if type = str "wasm_subscribe" then s.handleSubscriptionRequest socket request
      else s

inductive Label where
  | connected (socket : Nat) (clientId : Bytes)
  | message (socket : Nat) (message : Bytes)
  | disconnected (socket : Nat)

/-- `HandleClient`: a client comes, sends something, goes. -/
def step (J : JsonLib) (s : WebSocketServer) : Label → Option WebSocketServer
  | .connected socket clientId =>
    if s.clientIds.any fun p => p.1 = socket then none else some { s with clientIds := s.clientIds ++ [(socket, clientId)] }
  | .message socket message => some (s.handleWebSocketMessage J socket message)
  | .disconnected socket =>
    let gone := { s with clientIds := s.clientIds.filter fun p => p.1 ≠ socket }
    if s.clientId socket = [] then some gone
    else some { gone with
      sqlManager := s.sqlManager.unsubscribeAll (s.clientId socket)
      wasmManager := s.wasmManager.onClientDisconnected (s.clientId socket) }

/-! ## What a client sees -/

/-- The client has the subscriptions it had, and is sent the same for any event, up to its order. -/
structure Untouched (env : Env) (s s' : WebSocketServer) (client : Bytes) : Prop where
  sql : ∀ id : Bytes, (s'.sqlManager.subscriptions[id]?).filter (fun sub => sub.clientId = client) =
    (s.sqlManager.subscriptions[id]?).filter fun sub => sub.clientId = client
  wasm : ∀ id : Bytes, (s'.wasmManager.subscriptions[id]?).filter (fun query => query.clientId = client) =
    (s.wasmManager.subscriptions[id]?).filter fun query => query.clientId = client
  sqlEvents : ∀ ev, (Session.eventsFor env s'.sqlManager client ev).Perm (Session.eventsFor env s.sqlManager client ev)
  wasmEvents : ∀ ev, (s'.wasmManager.queriesFor env client ev).Perm (s.wasmManager.queriesFor env client ev)

/-- The subscription a message removes or makes. -/
def subscriptionOf (J : JsonLib) (s : WebSocketServer) (socket : Nat) (message : Bytes) : Option (Manager × Bytes) := do
  let request ← J.parse message
  let type ← request.valueOr (str "type") []
  if type = str "sql_unsubscribe" then
    let id ← request.valueOr (str "subscription_id") []
    if id = [] then none else return (.sql, id)
  else if s.clientId socket = [] then none
  else if type = str "sql_subscribe" then
    let sql ← (request.constMember (str "sql")).bind Json.asString
    let _ ← SqlSubscriptionParser.parse sql s.sqlManager.generateSubscriptionId.1 (s.clientId socket)
    return (.sql, s.sqlManager.generateSubscriptionId.1)
  else if type = str "subscribe_to_all_tables" then return (.sql, s.sqlManager.generateSubscriptionId.1)
  else if type = str "wasm_subscribe" then
    let _ ← wasmQuery (s.clientId socket) request
    return (.wasm, s.wasmManager.nextId)
  else none

/-- Whose subscription has the id. -/
def owner (s : WebSocketServer) : Manager × Bytes → Option Bytes
  | (.sql, id) => s.sqlManager.subscriptions[id]?.map SqlSubscription.clientId
  | (.wasm, id) => s.wasmManager.subscriptions[id]?.map WasmSubscriptionQuery.clientId

/-! ## Frames -/

section
variable {env : Env} {client : Bytes}

/-- Two maps that differ under one key only, which `f` makes nothing of. -/
theorem filterMap_perm {V W : Type} (order : HashOrder) {m m' : StrMap V} {id : Bytes} (f : Bytes × V → Option W)
    (heq : ∀ k : Bytes, k ≠ id → m'[k]? = m[k]?) (hm : ∀ v, m[id]? = some v → f (id, v) = none)
    (hm' : ∀ v, m'[id]? = some v → f (id, v) = none) :
    ((order.list m').filterMap f).Perm ((order.list m).filterMap f) := by
  have hwithout : ∀ n : StrMap V, (∀ v, n[id]? = some v → f (id, v) = none) →
      ((order.list n).filterMap f).Perm ((n.erase id).toList.filterMap f) := by
    intro n hn
    refine ((order.perm n).filterMap f).trans ?_
    cases hid : n[id]? with
    | none => rw [OrdMap.erase_of_none hid]
    | some v =>
      have hp := (OrdMap.toList_perm_erase hid).filterMap f
      rwa [List.filterMap_cons_none (hn v hid)] at hp
  have hsame : m'.erase id = m.erase id := by
    refine Std.ExtTreeMap.ext_getElem? fun k => ?_
    rw [OrdMap.getElem?_erase, OrdMap.getElem?_erase]
    split
    · rfl
    · rename_i hk
      exact heq k (Ne.symm hk)
  exact (hwithout m' hm').trans (hsame ▸ (hwithout m hm).symm)

/-- The client's subscriptions where two maps differ under one key only, which is not the client's in either. -/
theorem filter_frame {V : Type} {m m' : StrMap V} {id : Bytes} {owner : V → Bytes}
    (heq : ∀ k : Bytes, k ≠ id → m'[k]? = m[k]?) (hm : ∀ v, m[id]? = some v → owner v ≠ client)
    (hm' : ∀ v, m'[id]? = some v → owner v ≠ client) (k : Bytes) :
    m'[k]?.filter (fun v => owner v = client) = m[k]?.filter fun v => owner v = client := by
  by_cases hk : k = id
  · subst hk
    have hnone : ∀ o : Option V, (∀ v, o = some v → owner v ≠ client) → o.filter (fun v => owner v = client) = none := by
      intro o ho
      rw [Option.filter_eq_none_iff]
      intro v hv
      simpa using ho v hv
    rw [hnone _ hm, hnone _ hm']
  · rw [heq k hk]

/-- The SQL manager as one client sees it. -/
theorem frame_sql {m m' : SqlSubscriptionManager} (id : Bytes)
    (hsubs : ∀ k : Bytes, k ≠ id → m'.subscriptions[k]? = m.subscriptions[k]?)
    (htable : ∀ t k : Bytes, k ≠ id → (m'.tableIndex[t]?.getD ∅)[k]? = (m.tableIndex[t]?.getD ∅)[k]?)
    (hall : ∀ k : Bytes, k ≠ id → m'.allTablesIndex[k]? = m.allTablesIndex[k]?)
    (hm : ∀ sub, m.subscriptions[id]? = some sub → sub.clientId ≠ client)
    (hm' : ∀ sub, m'.subscriptions[id]? = some sub → sub.clientId ≠ client) :
    (∀ k : Bytes, (m'.subscriptions[k]?).filter (fun sub => sub.clientId = client) =
      (m.subscriptions[k]?).filter fun sub => sub.clientId = client) ∧
    ∀ ev, (Session.eventsFor env m' client ev).Perm (Session.eventsFor env m client ev) := by
  refine ⟨filter_frame hsubs hm hm', fun ev => ?_⟩
  -- the candidates mean the same to the client
  have hwanted : Session.wanted env m' client ev = Session.wanted env m client ev := by
    funext p
    by_cases hp : p.1 = id
    · rw [Session.wanted_eq_none (hp ▸ hm'), Session.wanted_eq_none (hp ▸ hm)]
    · rw [Session.wanted, Session.wanted, hsubs p.1 hp]
  have hnone : ∀ u : Unit, Session.wanted env m client ev (id, u) = none := fun u => Session.wanted_eq_none hm
  rw [Session.eventsFor_eq, Session.eventsFor_eq, hwanted]
  exact (filterMap_perm env.order _ (htable ev.table) (fun u _ => hnone u) (fun u _ => hnone u)).append
    (filterMap_perm env.order _ hall (fun u _ => hnone u) (fun u _ => hnone u))

/-- The WASM manager as one client sees it. -/
theorem frame_wasm (env : Env) (client : Bytes) (m m' : WasmSubscriptionManager) (id : Bytes)
    (hsubs : ∀ k : Bytes, k ≠ id → m'.subscriptions[k]? = m.subscriptions[k]?)
    (hm : ∀ query, m.subscriptions[id]? = some query → query.clientId ≠ client)
    (hm' : ∀ query, m'.subscriptions[id]? = some query → query.clientId ≠ client) :
    (∀ k : Bytes, (m'.subscriptions[k]?).filter (fun query => query.clientId = client) =
      (m.subscriptions[k]?).filter fun query => query.clientId = client) ∧
    ∀ ev, (m'.queriesFor env client ev).Perm (m.queriesFor env client ev) :=
  ⟨filter_frame hsubs hm hm', fun _ => filterMap_perm env.order _ hsubs (fun q hq => by simp [hm q hq]) fun q hq => by simp [hm' q hq]⟩

end

/-! ## What the operations do -/

/-- A subscription is stored under its id. -/
def Keyed (m : SqlSubscriptionManager) : Prop :=
  ∀ (id : Bytes) (sub : SqlSubscription), m.subscriptions[id]? = some sub → sub.id = id

section
variable {m : SqlSubscriptionManager} {sub : SqlSubscription} {c : Bytes}

@[simp] theorem indexSubscription_subscriptions (m : SqlSubscriptionManager) (sub : SqlSubscription) :
    (m.indexSubscription sub).subscriptions = m.subscriptions := by
  unfold SqlSubscriptionManager.indexSubscription
  split <;> rfl

@[simp] theorem unindexSubscription_subscriptions (m : SqlSubscriptionManager) (sub : SqlSubscription) :
    (m.unindexSubscription sub).subscriptions = m.subscriptions := by
  unfold SqlSubscriptionManager.unindexSubscription
  split
  · rfl
  · split
    · rfl
    · split <;> rfl

/-- Filing a subscription touches its own id only. -/
theorem indexSubscription_frame (m : SqlSubscriptionManager) (sub : SqlSubscription) :
    (∀ t k : Bytes, k ≠ sub.id → ((m.indexSubscription sub).tableIndex[t]?.getD ∅)[k]? = (m.tableIndex[t]?.getD ∅)[k]?) ∧
    ∀ k : Bytes, k ≠ sub.id → (m.indexSubscription sub).allTablesIndex[k]? = m.allTablesIndex[k]? := by
  unfold SqlSubscriptionManager.indexSubscription
  split
  · exact ⟨fun _ _ _ => rfl, fun k hk => by rw [OrdMap.getElem?_insert, if_neg (Ne.symm hk)]⟩
  · refine ⟨fun t k hk => ?_, fun _ _ => rfl⟩
    rw [OrdMap.getElem?_insert]
    by_cases ht : sub.tableName = t
    · rw [if_pos ht, ← ht, Option.getD_some, OrdMap.getElem?_insert, if_neg (Ne.symm hk)]
    · rw [if_neg ht]

theorem unindexSubscription_frame (m : SqlSubscriptionManager) (sub : SqlSubscription) :
    (∀ t k : Bytes, k ≠ sub.id → ((m.unindexSubscription sub).tableIndex[t]?.getD ∅)[k]? = (m.tableIndex[t]?.getD ∅)[k]?) ∧
    ∀ k : Bytes, k ≠ sub.id → (m.unindexSubscription sub).allTablesIndex[k]? = m.allTablesIndex[k]? := by
  unfold SqlSubscriptionManager.unindexSubscription
  split
  · exact ⟨fun _ _ _ => rfl, fun k hk => by rw [OrdMap.getElem?_erase, if_neg (Ne.symm hk)]⟩
  · cases hids : m.tableIndex[sub.tableName]? with
    | none => exact ⟨fun _ _ _ => rfl, fun _ _ => rfl⟩
    | some ids =>
      have hk : ∀ k : Bytes, k ≠ sub.id → (ids.erase sub.id)[k]? = ids[k]? := fun k hk => by
        rw [OrdMap.getElem?_erase, if_neg (Ne.symm hk)]
      simp only
      split
      · rename_i hempty
        refine ⟨fun t k hne => ?_, fun _ _ => rfl⟩
        rw [OrdMap.getElem?_erase]
        by_cases ht : sub.tableName = t
        · -- the table had no other subscription
          have hnone : ids[k]? = none := by
            rw [← hk k hne, Std.ExtTreeMap.isEmpty_iff.1 hempty]
            rfl
          rw [if_pos ht, ← ht, hids, Option.getD_some, hnone]
          rfl
        · rw [if_neg ht]
      · refine ⟨fun t k hne => ?_, fun _ _ => rfl⟩
        rw [OrdMap.getElem?_insert]
        by_cases ht : sub.tableName = t
        · rw [if_pos ht, ← ht, hids, Option.getD_some, Option.getD_some, hk k hne]
        · rw [if_neg ht]

/-- A subscription is parsed for the client and the id it was given. -/
theorem parse_ids {query id clientId : Bytes} (h : SqlSubscriptionParser.parse query id clientId = some sub) :
    sub.id = id ∧ sub.clientId = clientId := by
  simp only [SqlSubscriptionParser.parse] at h
  split at h
  · cases h
  · rename_i found _
    generalize (if found.matched 3 = true then
      SqlSubscriptionParser.trim (found.str 3 (SqlSubscriptionParser.trim query)) else []) = whereClause at h
    by_cases hw : whereClause = []
    · rw [if_pos hw] at h
      cases h
      exact ⟨rfl, rfl⟩
    · rw [if_neg hw] at h
      split at h
      · cases h
      · cases h
        exact ⟨rfl, rfl⟩

/-- What `Subscribe` does when the text is accepted, and when it is not. -/
theorem subscribe_cases (m : SqlSubscriptionManager) (clientId query : Bytes) :
    let id := m.generateSubscriptionId.1
    let next := m.generateSubscriptionId.2
    (SqlSubscriptionParser.parse query id clientId = none ∧ (m.subscribe clientId query).2 = next) ∨
    ∃ sub, SqlSubscriptionParser.parse query id clientId = some sub ∧ sub.id = id ∧ sub.clientId = clientId ∧
      (m.subscribe clientId query).2 = next.store sub := by
  cases hp : SqlSubscriptionParser.parse query m.generateSubscriptionId.1 clientId with
  | none =>
    refine Or.inl ⟨hp, ?_⟩
    simp only [SqlSubscriptionManager.subscribe, hp]
  | some sub =>
    have hids := parse_ids hp
    refine Or.inr ⟨sub, hp, hids.1, hids.2, ?_⟩
    simp only [SqlSubscriptionManager.subscribe, hp, SqlSubscriptionManager.store, hids.1, hids.2]

theorem Keyed.store (h : Keyed m) (sub : SqlSubscription) : Keyed (m.store sub) := by
  intro id sub' hsub
  rw [SqlSubscriptionManager.store, OrdMap.getElem?_insert] at hsub
  split at hsub
  · rename_i hid
    cases hsub
    exact hid
  · exact h id sub' hsub

theorem Keyed.erase (h : Keyed m) {m' : SqlSubscriptionManager} {id : Bytes}
    (hsubs : m'.subscriptions = m.subscriptions.erase id) : Keyed m' := by
  intro k sub hk
  rw [hsubs, OrdMap.getElem?_erase] at hk
  split at hk
  · cases hk
  · exact h k sub hk

theorem Keyed.unsubscribe (h : Keyed m) (id : Bytes) : Keyed (m.unsubscribe id) := by
  unfold SqlSubscriptionManager.unsubscribe
  split
  · exact h
  · exact h.erase rfl

theorem Keyed.unsubscribeAll (h : Keyed m) (clientId : Bytes) : Keyed (m.unsubscribeAll clientId) := by
  unfold SqlSubscriptionManager.unsubscribeAll
  split
  · exact h
  · rename_i ids _
    have hfold : ∀ (l : List Bytes) (n : SqlSubscriptionManager), Keyed n → Keyed (l.foldl (fun m id =>
        match m.subscriptions[id]? with
        | none => m
        | some sub => { m.unindexSubscription sub with subscriptions := m.subscriptions.erase id }) n) := by
      intro l
      induction l with
      | nil => exact fun n hn => hn
      | cons id l ih =>
        intro n hn
        rw [List.foldl_cons]
        refine ih _ ?_
        split
        · exact hn
        · exact hn.erase rfl
    exact hfold ids m h

end

/-! ## What a message does -/

/-- Nothing but using up a number, or one subscription less, or one more for the client. -/
inductive Does (s : WebSocketServer) (client : Bytes) : Option (Manager × Bytes) → WebSocketServer → Prop where
  | nothing (n : UInt64) : Does s client none { s with sqlManager := { s.sqlManager with nextSubscriptionId := n } }
  | removes (id : Bytes) : Does s client (some (.sql, id)) { s with sqlManager := s.sqlManager.unsubscribe id }
  | makes (n : UInt64) (sub : SqlSubscription) (hclient : sub.clientId = client) :
    Does s client (some (.sql, sub.id))
      { s with sqlManager := SqlSubscriptionManager.store { s.sqlManager with nextSubscriptionId := n } sub }
  | makesQuery (query : WasmSubscriptionQuery) (hclient : query.clientId = client) :
    Does s client (some (.wasm, s.wasmManager.nextId))
      { s with wasmManager := (s.wasmManager.createSubscription query).2 }

section
variable {env : Env} {s s' : WebSocketServer}

theorem clientId_wasmQuery {c : Bytes} {request : Json} {query : WasmSubscriptionQuery} (h : wasmQuery c request = some query) :
    query.clientId = c := by
  simp only [wasmQuery, Option.bind_eq_bind, Option.bind_eq_some_iff, Option.pure_def, Option.some.injEq] at h
  obtain ⟨-, -, -, -, -, -, -, -, -, -, -, -, -, -, -, -, rfl⟩ := h
  rfl

theorem does_nothing (s : WebSocketServer) (client : Bytes) : Does s client none s := .nothing s.sqlManager.nextSubscriptionId

/-- **Each message does one of these.** -/
theorem message_does (J : JsonLib) (s : WebSocketServer) (socket : Nat) (message : Bytes) :
    Does s (s.clientId socket) (s.subscriptionOf J socket message) (s.handleWebSocketMessage J socket message) := by
  unfold subscriptionOf handleWebSocketMessage
  cases J.parse message with
  | none => exact does_nothing s _
  | some request =>
    simp only [Option.bind_eq_bind, Option.bind_some]
    cases request.valueOr (str "type") [] with
    | none => exact does_nothing s _
    | some type =>
      simp only [Option.bind_some]
      by_cases hsub : type = str "sql_subscribe"
      · subst hsub
        rw [if_neg (by decide), if_pos rfl, if_pos rfl, handleSqlSubscriptionRequest]
        by_cases hid : s.clientId socket = []
        · rw [if_pos hid, if_pos hid]
          exact does_nothing s _
        · rw [if_neg hid, if_neg hid]
          cases (request.constMember (str "sql")).bind Json.asString with
          | none => exact does_nothing s _
          | some sql =>
            simp only [Option.bind_some]
            rcases subscribe_cases s.sqlManager (s.clientId socket) sql with ⟨hp, hs⟩ | ⟨sub, hp, hsid, hc, hs⟩
            · rw [hp, hs]
              exact .nothing _
            · rw [hp, hs, ← hsid]
              exact .makes _ sub hc
      · rw [if_neg hsub, if_neg hsub]
        by_cases hun : type = str "sql_unsubscribe"
        · rw [if_pos hun, if_pos hun]
          cases request.valueOr (str "subscription_id") [] with
          | none => exact does_nothing s _
          | some id =>
            simp only [Option.bind_some]
            by_cases hid : id = []
            · rw [if_pos hid, if_pos hid]
              exact does_nothing s _
            · rw [if_neg hid, if_neg hid]
              exact .removes id
        · rw [if_neg hun, if_neg hun]
          by_cases hall : type = str "subscribe_to_all_tables"
          · rw [if_pos hall, if_pos hall, handleSubscribeToAllTablesRequest]
            by_cases hid : s.clientId socket = []
            · rw [if_pos hid, if_pos hid]
              exact does_nothing s _
            · rw [if_neg hid, if_neg hid]
              exact .makes _ { id := s.sqlManager.generateSubscriptionId.1, clientId := s.clientId socket, type := .allTables } rfl
          · rw [if_neg hall, if_neg hall]
            by_cases hwasm : type = str "wasm_subscribe"
            · rw [if_pos hwasm, if_pos hwasm, handleSubscriptionRequest]
              by_cases hid : s.clientId socket = []
              · rw [if_pos hid, if_pos hid]
                exact does_nothing s _
              · rw [if_neg hid, if_neg hid]
                cases hq : wasmQuery (s.clientId socket) request with
                | none => exact does_nothing s _
                | some query => exact .makesQuery query (clientId_wasmQuery hq)
            · rw [if_neg hwasm, if_neg hwasm, ite_self]
              exact does_nothing s _

theorem Untouched.of_sql {client : Bytes} {m : SqlSubscriptionManager}
    (h : (∀ k : Bytes, (m.subscriptions[k]?).filter (fun sub => sub.clientId = client) =
        (s.sqlManager.subscriptions[k]?).filter fun sub => sub.clientId = client) ∧
      ∀ ev, (Session.eventsFor env m client ev).Perm (Session.eventsFor env s.sqlManager client ev)) :
    Untouched env s { s with sqlManager := m } client :=
  ⟨h.1, fun _ => rfl, h.2, fun _ => .refl _⟩

/-- Whoever's subscription it was is touched. -/
theorem Untouched.sql_gone {sub : SqlSubscription} {id : Bytes} (h : Untouched env s s' sub.clientId)
    (hsub : s.sqlManager.subscriptions[id]? = some sub) :
    ∃ sub', s'.sqlManager.subscriptions[id]? = some sub' ∧ sub'.clientId = sub.clientId := by
  have hid := h.sql id
  rw [hsub, Option.filter_some, if_pos (by simp), Option.filter_eq_some_iff] at hid
  exact ⟨sub, hid.1, rfl⟩

theorem Untouched.wasm_gone {query : WasmSubscriptionQuery} {id : Bytes} (h : Untouched env s s' query.clientId)
    (hquery : s.wasmManager.subscriptions[id]? = some query) :
    ∃ query', s'.wasmManager.subscriptions[id]? = some query' ∧ query'.clientId = query.clientId := by
  have hid := h.wasm id
  rw [hquery, Option.filter_some, if_pos (by simp), Option.filter_eq_some_iff] at hid
  exact ⟨query, hid.1, rfl⟩

/-- A subscription that is removed is missed by its owner alone. -/
theorem untouched_removes (hkeyed : Keyed s.sqlManager) (c id : Bytes) :
    (∀ client, client ≠ c → Untouched env s { s with sqlManager := s.sqlManager.unsubscribe id } client) ↔
      ∀ o ∈ s.owner (.sql, id), o = c := by
  cases hsub : s.sqlManager.subscriptions[id]? with
  | none =>
    have hun : s.sqlManager.unsubscribe id = s.sqlManager := by simp [SqlSubscriptionManager.unsubscribe, hsub]
    rw [hun]
    exact iff_of_true (fun _ _ => .of_sql ⟨fun _ => rfl, fun _ => .refl _⟩) (by simp [owner, hsub])
  | some sub =>
    have hid := hkeyed id sub hsub
    have hsubs : (s.sqlManager.unsubscribe id).subscriptions = s.sqlManager.subscriptions.erase id := by
      simp [SqlSubscriptionManager.unsubscribe, hsub]
    have hgone : (s.sqlManager.unsubscribe id).subscriptions[id]? = none := by
      rw [hsubs, OrdMap.getElem?_erase, if_pos rfl]
    constructor
    · intro h o ho
      obtain rfl : sub.clientId = o := by simpa [owner, hsub] using ho
      by_contra hne
      obtain ⟨sub', hsub', -⟩ := (h sub.clientId hne).sql_gone hsub
      rw [hgone] at hsub'
      cases hsub'
    · intro h client hne
      have hc : sub.clientId = c := h sub.clientId (by simp [owner, hsub])
      have hframe := unindexSubscription_frame s.sqlManager sub
      rw [hid] at hframe
      have hun : (s.sqlManager.unsubscribe id).tableIndex = (s.sqlManager.unindexSubscription sub).tableIndex ∧
          (s.sqlManager.unsubscribe id).allTablesIndex = (s.sqlManager.unindexSubscription sub).allTablesIndex := by
        simp [SqlSubscriptionManager.unsubscribe, hsub]
      refine .of_sql (frame_sql id (fun k hk => ?_) ?_ ?_ (fun sub' hsub' => ?_) fun sub' hsub' => ?_)
      · rw [hsubs, OrdMap.getElem?_erase, if_neg (Ne.symm hk)]
      · rw [hun.1]
        exact hframe.1
      · rw [hun.2]
        exact hframe.2
      · rw [hsub] at hsub'
        cases hsub'
        exact fun he => hne (he.symm.trans hc)
      · rw [hgone] at hsub'
        cases hsub'

/-- A subscription that is made replaces what had its id. -/
theorem untouched_makes (n : UInt64) (sub : SqlSubscription) :
    (∀ client, client ≠ sub.clientId → Untouched env s
      { s with sqlManager := SqlSubscriptionManager.store { s.sqlManager with nextSubscriptionId := n } sub } client) ↔
      ∀ o ∈ s.owner (.sql, sub.id), o = sub.clientId := by
  let m : SqlSubscriptionManager := { s.sqlManager with nextSubscriptionId := n }
  have hnew : (m.store sub).subscriptions[sub.id]? = some sub := by
    rw [SqlSubscriptionManager.store, OrdMap.getElem?_insert, if_pos rfl]
  constructor
  · intro h o ho
    obtain ⟨old, hold, rfl⟩ := Option.map_eq_some_iff.1 ho
    by_contra hne
    obtain ⟨sub', hsub', hsame⟩ := (h old.clientId hne).sql_gone hold
    rw [hnew] at hsub'
    cases hsub'
    exact hne hsame.symm
  · intro h client hne
    have hframe := indexSubscription_frame m sub
    refine .of_sql (frame_sql sub.id (fun k hk => ?_) hframe.1 hframe.2 (fun old hold => ?_) fun sub' hsub' => ?_)
    · rw [SqlSubscriptionManager.store, OrdMap.getElem?_insert, if_neg (Ne.symm hk)]
    · intro he
      exact hne (he.symm.trans (h old.clientId (by simp [owner, hold])))
    · rw [hnew] at hsub'
      cases hsub'
      exact Ne.symm hne

theorem untouched_makesQuery (query : WasmSubscriptionQuery) :
    (∀ client, client ≠ query.clientId →
      Untouched env s { s with wasmManager := (s.wasmManager.createSubscription query).2 } client) ↔
      ∀ o ∈ s.owner (.wasm, s.wasmManager.nextId), o = query.clientId := by
  have hsubs : ∀ k : Bytes, (s.wasmManager.createSubscription query).2.subscriptions[k]? =
      if s.wasmManager.nextId = k then some { query with id := s.wasmManager.nextId } else s.wasmManager.subscriptions[k]? :=
    fun k => by rw [WasmSubscriptionManager.createSubscription, OrdMap.getElem?_insert]
  constructor
  · intro h o ho
    obtain ⟨old, hold, rfl⟩ := Option.map_eq_some_iff.1 ho
    by_contra hne
    obtain ⟨query', hquery', hsame⟩ := (h old.clientId hne).wasm_gone hold
    rw [hsubs, if_pos rfl] at hquery'
    cases hquery'
    exact hne hsame.symm
  · intro h client hne
    have hframe := frame_wasm env client s.wasmManager (s.wasmManager.createSubscription query).2 s.wasmManager.nextId
      (fun k hk => by rw [hsubs, if_neg (Ne.symm hk)])
      (fun old hold he => hne (he.symm.trans (h old.clientId (by simp [owner, hold]))))
      (fun query' hquery' => by
        rw [hsubs, if_pos rfl] at hquery'
        cases hquery'
        exact Ne.symm hne)
    exact ⟨fun _ => rfl, hframe.1, fun _ => .refl _, hframe.2⟩

/-- **What a message does to the others.** -/
theorem Does.untouched_iff {c : Bytes} {a : Option (Manager × Bytes)} (h : Does s c a s') (hkeyed : Keyed s.sqlManager) :
    (∀ client, client ≠ c → Untouched env s s' client) ↔ ∀ x ∈ a, ∀ o ∈ s.owner x, o = c := by
  cases h with
  | nothing n => exact iff_of_true (fun _ _ => .of_sql ⟨fun _ => rfl, fun _ => .refl _⟩) (by simp)
  | removes id => simpa using untouched_removes hkeyed c id
  | makes n sub hc =>
    subst hc
    simpa using untouched_makes n sub
  | makesQuery query hc =>
    subst hc
    simpa using untouched_makesQuery query

theorem Keyed.does {c : Bytes} {a : Option (Manager × Bytes)} (hkeyed : Keyed s.sqlManager) (h : Does s c a s') :
    Keyed s'.sqlManager := by
  cases h with
  | nothing n => exact hkeyed
  | removes id => exact hkeyed.unsubscribe id
  | makes n sub hc => exact Keyed.store (m := { s.sqlManager with nextSubscriptionId := n }) hkeyed sub
  | makesQuery query hc => exact hkeyed

theorem Keyed.step {l : Label} (hkeyed : Keyed s.sqlManager) (hstep : s.step env.toJsonLib l = some s') : Keyed s'.sqlManager := by
  cases l with
  | connected socket clientId =>
    simp only [WebSocketServer.step] at hstep
    split at hstep
    · cases hstep
    · cases hstep
      exact hkeyed
  | message socket message =>
    cases hstep
    exact hkeyed.does (message_does env.toJsonLib s socket message)
  | disconnected socket =>
    simp only [WebSocketServer.step] at hstep
    split at hstep
    · cases hstep
      exact hkeyed
    · cases hstep
      exact hkeyed.unsubscribeAll _

end

/-- **A message leaves all other clients alone exactly when** the subscription it names in `sql_unsubscribe`, or the one
whose id the new subscription is given, is not another client's. -/
theorem message_frame_iff (env : Env) (ls : List Label) (s : WebSocketServer)
    (hrun : run (step env.toJsonLib) {} ls = some s) (socket : Nat) (message : Bytes) :
    (∀ client, client ≠ s.clientId socket →
      Untouched env s (s.handleWebSocketMessage env.toJsonLib socket message) client) ↔
    ∀ a ∈ s.subscriptionOf env.toJsonLib socket message, ∀ o ∈ s.owner a, o = s.clientId socket := by
  have hboot : Keyed ({} : WebSocketServer).sqlManager := by
    intro id sub hsub
    simp at hsub
  have hall : Allowed (step env.toJsonLib) (fun _ _ => True) {} ls := .of_forall fun _ _ _ => trivial
  have hstep : ∀ s l s', Keyed (WebSocketServer.sqlManager s) → True → s.step env.toJsonLib l = some s' → Keyed s'.sqlManager :=
    fun _ _ _ h _ hs => h.step hs
  have hkeyed := run_invariant (fun s => Keyed s.sqlManager) hstep hboot hall hrun
  exact (message_does env.toJsonLib s socket message).untouched_iff hkeyed

/-- The messages of two clients. -/
def subscribeAll : Bytes := str "\x7b\"type\":\"subscribe_to_all_tables\"\x7d"

def unsubscribeFirst : Bytes := str "\x7b\"subscription_id\":\"sql_sub_1\",\"type\":\"sql_unsubscribe\"\x7d"

def twoEnv : Env where
  order := .sorted
  toJsonLib := .ofTable
    [(.object [(str "type", .string (str "subscribe_to_all_tables"))], subscribeAll),
     (.object [(str "subscription_id", .string (str "sql_sub_1")), (str "type", .string (str "sql_unsubscribe"))], unsubscribeFirst)]
    (by decide)

/-- Clients `a` and `b` are there, and `a` has subscribed to all tables. -/
def twoClients : List Label := [.connected 7 (str "a"), .connected 8 (str "b"), .message 7 subscribeAll]

/-- `b` subscribes too. -/
theorem message_frame_subscribe : ∃ s, run (step twoEnv.toJsonLib) {} twoClients = some s ∧
    ∀ client, client ≠ s.clientId 8 → Untouched twoEnv s (s.handleWebSocketMessage twoEnv.toJsonLib 8 subscribeAll) client := by
  have hfacts : (run (step twoEnv.toJsonLib) {} twoClients).map (fun s =>
      decide (∀ a ∈ s.subscriptionOf twoEnv.toJsonLib 8 subscribeAll, ∀ o ∈ s.owner a, o = s.clientId 8)) = some true := by
    decide
  obtain ⟨s, hrun, hs⟩ := Option.map_eq_some_iff.1 hfacts
  exact ⟨s, hrun, (message_frame_iff twoEnv twoClients s hrun 8 subscribeAll).2 (of_decide_eq_true hs)⟩

/-- `b` unsubscribes `a`. -/
theorem message_unsubscribes_other : ∃ s, run (step twoEnv.toJsonLib) {} twoClients = some s ∧ s.clientId 8 = str "b" ∧
    ¬ Untouched twoEnv s (s.handleWebSocketMessage twoEnv.toJsonLib 8 unsubscribeFirst) (str "a") := by
  have hfacts : (run (step twoEnv.toJsonLib) {} twoClients).map (fun s => (s.clientId 8,
      s.sqlManager.subscriptions[str "sql_sub_1"]?.map SqlSubscription.clientId,
      (s.handleWebSocketMessage twoEnv.toJsonLib 8 unsubscribeFirst).sqlManager.subscriptions[str "sql_sub_1"]?.isSome)) =
      some (str "b", some (str "a"), false) := by
    decide
  obtain ⟨s, hrun, hs⟩ := Option.map_eq_some_iff.1 hfacts
  simp only [Prod.mk.injEq] at hs
  obtain ⟨hb, ha, hgone⟩ := hs
  refine ⟨s, hrun, hb, fun h => ?_⟩
  obtain ⟨sub, hsub, hclient⟩ := Option.map_eq_some_iff.1 ha
  rw [← hclient] at h
  obtain ⟨sub', hsub', -⟩ := h.sql_gone hsub
  rw [hsub'] at hgone
  cases hgone

end WebSocketServer

end OriginDB
