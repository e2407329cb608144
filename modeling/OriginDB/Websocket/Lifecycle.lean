import OriginDB.Wasm.Execute
import OriginDB.Websocket.Identity
/-!
# Who runs a lifecycle handler (`wasm_engine.cpp:291-357`, `websocket_server.cpp:588-635, 872-976`,
`wasm_subscription.cpp:93-122, 210-265, 316-417`)

`Execute` passes any name it is given on to the module: that a name begins with `__` is looked at only when the module
has no handler for it. So a client that names `__migrate` as the reducer of a call, or as the filter of a subscription,
runs it.

| here | there |
| --- | --- |
| `execute request`   | gRPC `ExecuteReducer` (`wasm_service_impl.cpp:247`) of a caller of CLIENT scope |
| `upgrade socket`    | `HandleClient` registers a client; `OnClientConnected` |
| `message socket`    | `HandleWebSocketMessage`, with `HandleCallReducer` and `CreateSubscription` |
| `disconnect socket` | `HandleClient` ends; `OnClientDisconnected` |
| `event ev`          | `ProcessSingleEvent` |
| `deploy name`       | `LoadModule` from `__init` on (`wasm_engine.cpp:200-232`) |
| `undeploy name`     | `UnloadModule` |

`emits` is what the filters answer, by subscription, and each step comes with what the engine finds when it is to call a
module: a module is not called when it is not loaded, when the engine shuts down or when it cannot be instantiated again.
`invoked` is history: what modules were asked to run, and on whose behalf. `opened` and `closed` are the clients whose
connections were.
-/
namespace OriginDB

open JsonDoc ByteCodec Machine Wasm

/-- On whose behalf a module is called. -/
inductive Cause where
  | grpc
  | call (clientId : Bytes)
  | filter (clientId : Bytes)
  | transform (clientId : Bytes)
  | initialData (clientId : Bytes)
  | opened
  | closed
  | deployed
deriving DecidableEq

/-- A client asked for it. -/
def Cause.isRequest : Cause → Bool
  | .grpc | .call _ | .filter _ | .transform _ | .initialData _ => true
  | .opened | .closed | .deployed => false

/-- A call of `origindb_invoke`. -/
structure Invocation where
  moduleName : Bytes
  reducerName : Bytes
  args : List WasmValue
  cause : Cause
deriving DecidableEq

structure Lifecycle where
  server : WebSocketServer := {}
  /-- `modules_`: names and versions -/
  modules : List (Bytes × Bytes) := []
  opened : List Bytes := []
  closed : List Bytes := []
  invoked : List Invocation := []

namespace Lifecycle

inductive Label where
  | execute (request : ExecuteReducerRequest)
  | upgrade (socket : Nat) (now : Int64)
  | message (socket : Nat) (text : Bytes)
  | disconnect (socket : Nat)
  | event (ev : ChangefeedEvent) (emits : Bytes → Bool)
  | deploy (name version : Bytes) (initOk migrateOk : Bool)
  | undeploy (name : Bytes)

/-- `Execute` gets as far as the module. -/
def reaches (entry : Wasm.Entry) : Bool := !entry.shutdown && entry.instantiation.isOk

/-- `ExecuteReducer` (wasm_engine.cpp:725). -/
def executeReducer (s : Lifecycle) (entry : Bytes → Wasm.Entry) (v : Invocation) : Lifecycle :=
  if (s.modules.any fun m => m.1 = v.moduleName) && reaches (entry v.moduleName) then
    { s with invoked := s.invoked ++ [v] }
  else s

/-- One call after another. -/
def executeAll (s : Lifecycle) (entry : Bytes → Wasm.Entry) (vs : List Invocation) : Lifecycle :=
  vs.foldl (fun s v => s.executeReducer entry v) s

/-- The subscription a message makes (websocket_server.cpp:872-953). -/
def queryOf (J : JsonLib) (server : WebSocketServer) (socket : Nat) (text : Bytes) : Option WasmSubscriptionQuery := do
  let request ← J.parse text
  let type ← request.valueOr (str "type") []
  if type = str "wasm_subscribe" ∧ server.clientId socket ≠ [] then
    WebSocketServer.wasmQuery (server.clientId socket) request
  else none

/-- The `where_clause` of a message that asks for initial data; without a `query_spec` none is sent
(wasm_subscription.cpp:434). -/
def initialDataClause (J : JsonLib) (text : Bytes) : Option Bytes := do
  let request ← J.parse text
  let included ← WebSocketServer.optional request (str "include_initial_data") Json.asBool false
  let clause ← WebSocketServer.optional request (str "where_clause") Json.asString []
  let parameters := ((request.constMember (str "parameters")).map Json.items).getD []
  if included && (request.contains (str "tables") || request.contains (str "where_clause") ||
      request.contains (str "columns") || !parameters.isEmpty) then some clause
  else none

/-- `ConvertEventToWasmValue` (wasm_subscription.cpp:456) up to its `dump`. -/
def eventJson (J : JsonLib) (ev : ChangefeedEvent) : Json :=
  let embed (bytes : Bytes) : Json := if bytes = [] then .null else (J.parse bytes).getD (.string bytes)
  .object [(str "key", .string ev.key), (str "new_value", embed ev.newValue), (str "offset", .int ev.offset.toNat),
    (str "old_value", embed ev.oldValue), (str "operation", .string ev.operation), (str "table", .string ev.table),
    (str "transaction_id", .string ev.transactionId)]

/-- The calls for one subscription in `ProcessSingleEvent` (wasm_subscription.cpp:346-401): its filter, and unless that
turns the event away its transform. -/
def queryCalls (q : WasmSubscriptionQuery) (data : WasmValue) (emits : Bool) : List Invocation :=
  (if q.filterFunction = [] then [] else [⟨q.moduleName, q.filterFunction, [data], .filter q.clientId⟩]) ++
    if q.transformFunction = [] ∨ (q.filterFunction ≠ [] ∧ emits = false) then []
    else [⟨q.moduleName, q.transformFunction, [data], .transform q.clientId⟩]

/-- `ProcessSingleEvent` (wasm_subscription.cpp:330). A `dump` that throws ends the process, with nothing called. -/
def eventCalls (env : Env) (m : WasmSubscriptionManager) (ev : ChangefeedEvent) (emits : Bytes → Bool) : List Invocation :=
  match env.dump (eventJson env.toJsonLib ev) with
  | none => []
  | some data => (env.order.list m.subscriptions).flatMap fun p =>
      if p.2.tables = [] ∨ p.2.tables.contains ev.table then queryCalls p.2 (.string data) (emits p.1) else []

/-- The calls of a message: the reducer it names, or the initial data of the subscription it makes. -/
def messageCalls (J : JsonLib) (server : WebSocketServer) (socket : Nat) (text : Bytes) : List Invocation :=
  ((calledReducer J text).map fun called =>
    ⟨called.moduleName, called.reducerName, called.args, .call (server.clientId socket)⟩).toList ++
  ((queryOf J server socket text).bind fun q => (initialDataClause J text).map fun clause =>
    ⟨q.moduleName, str "__get_initial_data", [.string clause], .initialData q.clientId⟩).toList

/-- `LoadModule` (wasm_engine.cpp:200-232). -/
def deployCalls (s : Lifecycle) (name version : Bytes) (initOk : Bool) : List Invocation :=
  ⟨name, str "__init", [], .deployed⟩ ::
    match s.modules.find? fun m => m.1 = name with
    | some old => if initOk then [⟨name, str "__migrate", [.string old.2, .string version], .deployed⟩] else []
    | none => []

def act (env : Env) (entry : Bytes → Wasm.Entry) (s : Lifecycle) : Label → Option Lifecycle
  | .execute request =>
    some (s.executeReducer entry ⟨request.moduleName, request.reducerName, request.args, .grpc⟩)
  | .upgrade socket now =>
    let clientId := Sockets.clientIdText socket now
    (s.server.step env.toJsonLib (.connected socket clientId)).map fun server =>
      ({ s with server := server, opened := s.opened ++ [clientId] } : Lifecycle).executeAll entry
        (s.modules.map fun m => ⟨m.1, str "__client_connected", [.string clientId], .opened⟩)
  | .message socket text =>
    (s.server.step env.toJsonLib (.message socket text)).map fun server =>
      ({ s with server := server } : Lifecycle).executeAll entry (messageCalls env.toJsonLib s.server socket text)
  | .disconnect socket =>
    let clientId := s.server.clientId socket
    (s.server.step env.toJsonLib (.disconnected socket)).map fun server =>
      if clientId = [] then { s with server := server }
      else ({ s with server := server, closed := s.closed ++ [clientId] } : Lifecycle).executeAll entry
        (s.modules.map fun m => ⟨m.1, str "__client_disconnected", [.string clientId], .closed⟩)
  | .event ev emits => some (s.executeAll entry (eventCalls env s.server.wasmManager ev emits))
  | .deploy name version initOk migrateOk =>
    -- the new module is called before it takes its place among the others
    let s' := { s with invoked := s.invoked ++ s.deployCalls name version initOk }
    if initOk && (migrateOk || !(s.modules.any fun m => m.1 = name)) then
      some { s' with modules := (s.modules.filter fun m => m.1 ≠ name) ++ [(name, version)] }
    else some s'
  | .undeploy name => some { s with modules := s.modules.filter fun m => m.1 ≠ name }

def step (env : Env) (s : Lifecycle) (l : (Bytes → Wasm.Entry) × Label) : Option Lifecycle := s.act env l.1 l.2

/-! ## What a client may not name -/

/-- A reserved name other than that of the query for initial data. -/
def forbidden (name : Bytes) : Bool := isReservedName name && decide (name ≠ str "__get_initial_data")

/-- Neither of its functions. -/
def Ordinary (q : WasmSubscriptionQuery) : Bool := !forbidden q.filterFunction && !forbidden q.transformFunction

/-- No request names a lifecycle handler. -/
def Unreserved (J : JsonLib) (s : Lifecycle) (l : (Bytes → Wasm.Entry) × Label) : Prop :=
  match l.2 with
  | .execute request => forbidden request.reducerName = false
  | .message socket text =>
    (calledReducer J text).all (fun called => !forbidden called.reducerName) = true ∧
      (queryOf J s.server socket text).all Ordinary = true
  | _ => True

instance (J : JsonLib) (s : Lifecycle) (l : (Bytes → Wasm.Entry) × Label) : Decidable (Unreserved J s l) := by
  unfold Unreserved
  split <;> infer_instance

/-- A call that is made where it should be. -/
structure Proper (s : Lifecycle) (v : Invocation) : Prop where
  requested : v.cause.isRequest = true → forbidden v.reducerName = false
  connected : v.reducerName = str "__client_connected" → v.cause = .opened ∧ ∃ c ∈ s.opened, v.args = [.string c]
  disconnected : v.reducerName = str "__client_disconnected" → v.cause = .closed ∧ ∃ c ∈ s.closed, v.args = [.string c]

structure Inv (s : Lifecycle) : Prop where
  proper : ∀ v ∈ s.invoked, s.Proper v
  ordinary : ∀ (id : Bytes) (q : WasmSubscriptionQuery), s.server.wasmManager.subscriptions[id]? = some q → Ordinary q

section
variable {env : Env} {J : JsonLib} {entry : Bytes → Wasm.Entry} {s s' : Lifecycle} {v : Invocation}

/-! ### Calls -/

/-- Calling modules changes nothing but the history. -/
theorem executeAll_spec (s : Lifecycle) (entry : Bytes → Wasm.Entry) (vs : List Invocation) : ∃ called, (∀ v ∈ called, v ∈ vs) ∧
    s.executeAll entry vs = { s with invoked := s.invoked ++ called } := by
  induction vs generalizing s with
  | nil => exact ⟨[], by simp, by simp [executeAll]⟩
  | cons v vs ih =>
    simp only [executeAll, List.foldl_cons]
    by_cases hv : ((s.modules.any fun m => m.1 = v.moduleName) && reaches (entry v.moduleName)) = true
    · obtain ⟨called, hcalled, he⟩ := ih (s.executeReducer entry v)
      refine ⟨v :: called, ?_, ?_⟩
      · intro w hw
        rcases List.mem_cons.1 hw with rfl | hw
        · simp
        · simp [hcalled w hw]
      · rw [executeAll] at he
        rw [he]
        simp [executeReducer, hv]
    · obtain ⟨called, hcalled, he⟩ := ih s
      refine ⟨called, fun w hw => by simp [hcalled w hw], ?_⟩
      rw [executeAll] at he
      rw [executeReducer, if_neg hv, he]

theorem forbidden_handlers : forbidden (str "__client_connected") = true ∧ forbidden (str "__client_disconnected") = true ∧
    forbidden (str "__get_initial_data") = false := by decide

/-- What may be called for a request: not a lifecycle handler. -/
theorem proper_of_request (hname : forbidden v.reducerName = false) : s.Proper v := by
  refine ⟨fun _ => hname, fun he => ?_, fun he => ?_⟩
  · rw [he, forbidden_handlers.1] at hname
    cases hname
  · rw [he, forbidden_handlers.2.1] at hname
    cases hname

theorem Proper.mono (h : s.Proper v) (hopened : ∀ c ∈ s.opened, c ∈ s'.opened) (hclosed : ∀ c ∈ s.closed, c ∈ s'.closed) :
    s'.Proper v := by
  refine ⟨h.requested, fun he => ?_, fun he => ?_⟩
  · obtain ⟨hcause, c, hc, hargs⟩ := h.connected he
    exact ⟨hcause, c, hopened c hc, hargs⟩
  · obtain ⟨hcause, c, hc, hargs⟩ := h.disconnected he
    exact ⟨hcause, c, hclosed c hc, hargs⟩

/-- Proper calls are added to proper calls. -/
theorem Inv.executeAll (h : s.Inv) {vs : List Invocation} (hvs : ∀ v ∈ vs, s.Proper v) : (s.executeAll entry vs).Inv := by
  obtain ⟨called, hcalled, he⟩ := executeAll_spec s entry vs
  rw [he]
  refine ⟨fun v hv => ?_, h.ordinary⟩
  rcases List.mem_append.1 hv with hv | hv
  · exact (h.proper v hv).mono (fun _ hc => hc) fun _ hc => hc
  · exact (hvs v (hcalled v hv)).mono (fun _ hc => hc) fun _ hc => hc

/-- A connection comes or goes. -/
theorem Inv.history (h : s.Inv) (server : WebSocketServer) (opened closed : List Bytes)
    (hsubs : ∀ (id : Bytes) (q : WasmSubscriptionQuery), server.wasmManager.subscriptions[id]? = some q → Ordinary q) :
    ({ s with server := server, opened := s.opened ++ opened, closed := s.closed ++ closed } : Lifecycle).Inv :=
  ⟨fun v hv => (h.proper v hv).mono (fun _ hc => by simp [hc]) fun _ hc => by simp [hc], hsubs⟩

/-! ### Subscriptions -/

/-- A message makes a WASM subscription if it asks for one, and leaves the others alone. -/
theorem wasmManager_message (J : JsonLib) (server : WebSocketServer) (socket : Nat) (text : Bytes) :
    (server.handleWebSocketMessage J socket text).wasmManager =
      match queryOf J server socket text with
      | none => server.wasmManager
      | some q => (server.wasmManager.createSubscription q).2 := by
  unfold WebSocketServer.handleWebSocketMessage queryOf
  cases J.parse text with
  | none => rfl
  | some request =>
    simp only [Option.bind_eq_bind, Option.bind_some]
    cases request.valueOr (str "type") [] with
    | none => rfl
    | some type =>
      simp only [Option.bind_some]
      by_cases hwasm : type = str "wasm_subscribe"
      · subst hwasm
        rw [if_neg (by decide), if_neg (by decide), if_neg (by decide), if_pos rfl, WebSocketServer.handleSubscriptionRequest]
        by_cases hid : server.clientId socket = []
        · simp [hid]
        · rw [if_neg hid, if_pos ⟨rfl, hid⟩]
          cases WebSocketServer.wasmQuery (server.clientId socket) request <;> rfl
      · have hnone : (if type = str "wasm_subscribe" ∧ server.clientId socket ≠ [] then
            WebSocketServer.wasmQuery (server.clientId socket) request else none) = none := if_neg fun h => hwasm h.1
        rw [hnone]
        split
        · unfold WebSocketServer.handleSqlSubscriptionRequest
          split
          · rfl
          · split <;> rfl
        · split
          · split
            · rfl
            · split <;> rfl
          · split
            · unfold WebSocketServer.handleSubscribeToAllTablesRequest
              split <;> rfl
            · rfl

theorem ordinary_message {server : WebSocketServer} {socket : Nat} {text : Bytes}
    (h : ∀ (id : Bytes) (q : WasmSubscriptionQuery), server.wasmManager.subscriptions[id]? = some q → Ordinary q)
    (hq : (queryOf J server socket text).all Ordinary = true) (id : Bytes) (q : WasmSubscriptionQuery)
    (hsub : (server.handleWebSocketMessage J socket text).wasmManager.subscriptions[id]? = some q) : Ordinary q := by
  rw [wasmManager_message] at hsub
  cases hquery : queryOf J server socket text with
  | none =>
    rw [hquery] at hsub
    exact h id q hsub
  | some q' =>
    rw [hquery, Option.all_some] at hq
    simp only [hquery, WasmSubscriptionManager.createSubscription, OrdMap.getElem?_insert] at hsub
    split at hsub
    · cases hsub
      exact hq
    · exact h id q hsub

/-- A client that leaves takes subscriptions away. -/
theorem ordinary_disconnected {m : WasmSubscriptionManager} {c : Bytes}
    (h : ∀ (id : Bytes) (q : WasmSubscriptionQuery), m.subscriptions[id]? = some q → Ordinary q) (id : Bytes)
    (q : WasmSubscriptionQuery) (hsub : (m.onClientDisconnected c).subscriptions[id]? = some q) : Ordinary q := by
  have herase : ∀ (ids : List Bytes) (subs : StrMap WasmSubscriptionQuery),
      (ids.foldl (fun subs id => subs.erase id) subs)[id]? = some q → subs[id]? = some q := by
    intro ids
    induction ids with
    | nil => exact fun _ hs => hs
    | cons i ids ih =>
      intro subs hs
      have hone := ih _ hs
      rw [OrdMap.getElem?_erase] at hone
      split at hone
      · cases hone
      · exact hone
  unfold WasmSubscriptionManager.onClientDisconnected at hsub
  split at hsub
  · exact h id q hsub
  · exact h id q (herase _ _ hsub)

/-! ### The calls of each step -/

theorem mem_queryCalls {q : WasmSubscriptionQuery} {data : WasmValue} {emits : Bool} (hq : Ordinary q)
    (hv : v ∈ queryCalls q data emits) : forbidden v.reducerName = false := by
  simp only [Ordinary, Bool.and_eq_true, Bool.not_eq_true'] at hq
  rcases List.mem_append.1 hv with hv | hv
  · split at hv
    · cases hv
    · rw [List.mem_singleton.1 hv]
      exact hq.1
  · split at hv
    · cases hv
    · rw [List.mem_singleton.1 hv]
      exact hq.2

theorem mem_eventCalls {m : WasmSubscriptionManager} {ev : ChangefeedEvent} {emits : Bytes → Bool}
    (h : ∀ (id : Bytes) (q : WasmSubscriptionQuery), m.subscriptions[id]? = some q → Ordinary q)
    (hv : v ∈ eventCalls env m ev emits) : forbidden v.reducerName = false := by
  unfold eventCalls at hv
  split at hv
  · cases hv
  · obtain ⟨p, hp, hv⟩ := List.mem_flatMap.1 hv
    have hsub := Std.ExtTreeMap.mem_toList_iff_getElem?_eq_some.1 ((env.order.perm m.subscriptions).mem_iff.1 hp)
    split at hv
    · exact mem_queryCalls (h p.1 p.2 hsub) hv
    · cases hv

theorem mem_messageCalls {server : WebSocketServer} {socket : Nat} {text : Bytes}
    (hcalled : (calledReducer J text).all (fun called => !forbidden called.reducerName) = true)
    (hv : v ∈ messageCalls J server socket text) : forbidden v.reducerName = false := by
  rcases List.mem_append.1 hv with hv | hv
  · obtain ⟨called, hc, rfl⟩ := Option.map_eq_some_iff.1 (Option.mem_toList.1 hv)
    rw [hc, Option.all_some] at hcalled
    simpa using hcalled
  · obtain ⟨q, -, hq⟩ := Option.bind_eq_some_iff.1 (Option.mem_toList.1 hv)
    obtain ⟨clause, -, rfl⟩ := Option.map_eq_some_iff.1 hq
    exact forbidden_handlers.2.2

theorem mem_deployCalls {name version : Bytes} {initOk : Bool} (hv : v ∈ s.deployCalls name version initOk) : s.Proper v := by
  have hnames : v.cause = .deployed ∧ (v.reducerName = str "__init" ∨ v.reducerName = str "__migrate") := by
    rcases List.mem_cons.1 hv with rfl | hv
    · exact ⟨rfl, Or.inl rfl⟩
    · split at hv
      · split at hv
        · rw [List.mem_singleton.1 hv]
          exact ⟨rfl, Or.inr rfl⟩
        · cases hv
      · cases hv
  obtain ⟨hcause, hname⟩ := hnames
  refine ⟨fun hr => ?_, fun he => ?_, fun he => ?_⟩
  · rw [hcause] at hr
    cases hr
  · rw [he, str_injective.eq_iff, str_injective.eq_iff] at hname
    simp at hname
  · rw [he, str_injective.eq_iff, str_injective.eq_iff] at hname
    simp at hname

theorem connected_ne_disconnected : str "__client_connected" ≠ str "__client_disconnected" := by decide

theorem proper_opened {m c : Bytes} (hc : c ∈ s.opened) :
    s.Proper ⟨m, str "__client_connected", [.string c], .opened⟩ :=
  ⟨fun h => (by cases h), fun _ => ⟨rfl, c, hc, rfl⟩, fun h => absurd h connected_ne_disconnected⟩

theorem proper_closed {m c : Bytes} (hc : c ∈ s.closed) :
    s.Proper ⟨m, str "__client_disconnected", [.string c], .closed⟩ :=
  ⟨fun h => (by cases h), fun h => absurd h connected_ne_disconnected.symm, fun _ => ⟨rfl, c, hc, rfl⟩⟩

/-! ### Steps -/

theorem Inv.act {l : Label} (h : s.Inv) (hok : Unreserved env.toJsonLib s (entry, l)) (hstep : s.act env entry l = some s') :
    s'.Inv := by
  cases l with
  | execute request =>
    cases hstep
    have hone : (s.executeAll entry [⟨request.moduleName, request.reducerName, request.args, .grpc⟩]).Inv :=
      h.executeAll fun v hv => by
        rw [List.mem_singleton.1 hv]
        exact proper_of_request hok
    exact hone
  | upgrade socket now =>
    obtain ⟨server, hserver, rfl⟩ := Option.map_eq_some_iff.1 hstep
    simp only [WebSocketServer.step] at hserver
    split at hserver
    · cases hserver
    · cases hserver
      have hmore := h.history { s.server with clientIds := s.server.clientIds ++ [(socket, Sockets.clientIdText socket now)] }
        [Sockets.clientIdText socket now] [] h.ordinary
      simp only [List.append_nil] at hmore
      refine hmore.executeAll fun v hv => ?_
      obtain ⟨m, -, rfl⟩ := List.mem_map.1 hv
      exact proper_opened (by simp)
  | message socket text =>
    simp only [Lifecycle.act, WebSocketServer.step, Option.map_some, Option.some.injEq] at hstep
    subst hstep
    have hmore := h.history (s.server.handleWebSocketMessage env.toJsonLib socket text) [] [] (ordinary_message h.ordinary hok.2)
    simp only [List.append_nil] at hmore
    exact hmore.executeAll fun v hv => proper_of_request (mem_messageCalls hok.1 hv)
  | disconnect socket =>
    obtain ⟨server, hserver, he⟩ := Option.map_eq_some_iff.1 hstep
    have hsubs : ∀ (id : Bytes) (q : WasmSubscriptionQuery), server.wasmManager.subscriptions[id]? = some q → Ordinary q := by
      simp only [WebSocketServer.step] at hserver
      split at hserver
      · cases hserver
        exact h.ordinary
      · cases hserver
        exact ordinary_disconnected h.ordinary
    split at he
    · subst he
      simpa using h.history server [] [] hsubs
    · subst he
      have hmore := h.history server [] [s.server.clientId socket] hsubs
      simp only [List.append_nil] at hmore
      refine hmore.executeAll fun v hv => ?_
      obtain ⟨m, -, rfl⟩ := List.mem_map.1 hv
      exact proper_closed (by simp)
  | event ev emits =>
    cases hstep
    exact h.executeAll fun v hv => proper_of_request (mem_eventCalls h.ordinary hv)
  | deploy name version initOk migrateOk =>
    have hmore : ({ s with invoked := s.invoked ++ s.deployCalls name version initOk } : Lifecycle).Inv := by
      refine ⟨fun v hv => ?_, h.ordinary⟩
      rcases List.mem_append.1 hv with hv | hv
      · exact (h.proper v hv).mono (fun _ hc => hc) fun _ hc => hc
      · exact (mem_deployCalls hv).mono (fun _ hc => hc) fun _ hc => hc
    simp only [Lifecycle.act] at hstep
    split at hstep
    · cases hstep
      exact ⟨fun v hv => (hmore.proper v hv).mono (fun _ hc => hc) fun _ hc => hc, hmore.ordinary⟩
    · cases hstep
      exact hmore
  | undeploy name =>
    cases hstep
    exact ⟨fun v hv => (h.proper v hv).mono (fun _ hc => hc) fun _ hc => hc, h.ordinary⟩

end

/-- **Lifecycle handlers run only at lifecycle transitions** in every run in which no request names one: what runs on behalf
of a client's request is no reserved handler but that of the initial data, and the two connection handlers run for a client
whose connection was opened or closed. -/
theorem lifecycle_only_at_transitions (env : Env) (ls : List ((Bytes → Wasm.Entry) × Label)) (s : Lifecycle)
    (hok : Allowed (step env) (Unreserved env.toJsonLib) {} ls) (hrun : run (step env) {} ls = some s) :
    ∀ v ∈ s.invoked, s.Proper v := by
  have hboot : ({} : Lifecycle).Inv := ⟨by simp, by simp⟩
  have hend : s.Inv := run_invariant Inv (fun _ _ _ h hok hstep => Inv.act h hok hstep) hboot hok hrun
  exact hend.proper

def ready : Bytes → Wasm.Entry := fun _ => {}

/-- A client connects, calls a reducer and goes, while `m` is deployed. -/
def orderly : List ((Bytes → Wasm.Entry) × Label) :=
  [.deploy (str "m") (str "1") true true, .upgrade 7 1, .message 7 Gateway.callInc, .disconnect 7].map fun l => (ready, l)

def callEnv : Env := { toJsonLib := Gateway.callEnv, order := .sorted }

theorem lifecycle_orderly : ∃ s, run (step callEnv) {} orderly = some s ∧ (∀ v ∈ s.invoked, s.Proper v) ∧
    s.invoked.map (fun v => (v.reducerName, v.cause)) = [(str "__init", .deployed), (str "__client_connected", .opened),
      (str "inc", .call (str "client_7_1")), (str "__client_disconnected", .closed)] := by
  have hfacts : (run (step callEnv) {} orderly).map (fun s => s.invoked.map fun v => (v.reducerName, v.cause)) =
      some [(str "__init", .deployed), (str "__client_connected", .opened), (str "inc", .call (str "client_7_1")),
        (str "__client_disconnected", .closed)] := by
    decide
  obtain ⟨s, hrun, hs⟩ := Option.map_eq_some_iff.1 hfacts
  exact ⟨s, hrun, lifecycle_only_at_transitions callEnv orderly s (by decide) hrun, hs⟩

/-- A gRPC client runs a migration, and says that a client has gone who has not. -/
def forged : List ((Bytes → Wasm.Entry) × Label) :=
  [.deploy (str "m") (str "1") true true, .upgrade 7 1,
    .execute { moduleName := str "m", reducerName := str "__migrate", args := [.string (str "0"), .string (str "1")] },
    .execute { moduleName := str "m", reducerName := str "__client_disconnected", args := [.string (str "client_7_1")] }].map
  fun l => (ready, l)

theorem lifecycle_forged : ∃ s v w, run (step callEnv) {} forged = some s ∧ v ∈ s.invoked ∧ w ∈ s.invoked ∧
    v.cause = .grpc ∧ v.reducerName = str "__migrate" ∧ w.cause = .grpc ∧ w.reducerName = str "__client_disconnected" ∧
    w.args = [.string (str "client_7_1")] ∧ s.closed = [] ∧ ¬ s.Proper v ∧ ¬ s.Proper w := by
  let v : Invocation := ⟨str "m", str "__migrate", [.string (str "0"), .string (str "1")], .grpc⟩
  let w : Invocation := ⟨str "m", str "__client_disconnected", [.string (str "client_7_1")], .grpc⟩
  have hfacts : (run (step callEnv) {} forged).map (fun s => (s.invoked.drop 2, s.closed)) = some ([v, w], []) := by
    decide
  obtain ⟨s, hrun, hs⟩ := Option.map_eq_some_iff.1 hfacts
  obtain ⟨hinvoked, hclosed⟩ := Prod.mk.inj hs
  have hv : v ∈ s.invoked := List.mem_of_mem_drop (hinvoked ▸ List.mem_cons_self)
  have hw : w ∈ s.invoked := List.mem_of_mem_drop (hinvoked ▸ List.mem_cons_of_mem _ List.mem_cons_self)
  exact ⟨s, v, w, hrun, hv, hw, rfl, rfl, rfl, rfl, rfl, hclosed, fun h => absurd (h.requested rfl) (by decide),
    fun h => absurd (h.requested rfl) (by decide)⟩

end Lifecycle

end OriginDB
