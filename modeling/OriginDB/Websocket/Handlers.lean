import OriginDB.Common.AuthManager
import OriginDB.Lib.JsonText
import OriginDB.Lib.Throwing
import OriginDB.Websocket.Framing
import OriginDB.Websocket.Identity
/-!
# The handlers and what they throw (`websocket_server.cpp:414-664, 858-1097`)

A handler runs on the thread of its connection. `send` may take all of a frame, less of it, or none, and
`SendWebSocketFrame` throws unless it takes all; printing a document throws when a string in it is not UTF-8. Every
handler answers an exception with one more frame.

What the engines do is not looked into here: a call of the WASM engine, the first document of a snapshot and the hooks
of the WASM manager are any value or any exception. Each message is numbered, and so is each `send`.

`messages` is history: what `HandleWebSocketMessage` has been called with.
-/
namespace OriginDB

open JsonDoc ByteCodec Throwing

/-- What `send` does with a frame. -/
inductive SendResult where
  | all
  | fewer (n : Nat)
  | error
deriving DecidableEq

/-- The bytes of them that are on the wire. -/
def SendResult.taken (bytes : Bytes) : SendResult → Bytes
  | .all => bytes
  | .fewer n => bytes.dropLast.take n
  | .error => []

/-- `WasmValue` (wasm_engine.h:21), as a call returns it. -/
inductive ReturnedValue where
  | null
  | bool (b : Bool)
  | int32 (v : Int32)
  | int64 (v : Int64)
  | float (bits : UInt32)
  | double (bits : UInt64)
  | string (s : Bytes)
  | bytes (b : Bytes)
deriving DecidableEq

/-- `WasmResult` (wasm_engine.h:71). -/
structure ReducerResult where
  success : Bool
  error : Bytes := []
  values : List ReturnedValue := []
deriving DecidableEq

/-- What `WasmSubscriptionManager` runs besides its own bookkeeping. -/
structure WasmHooks where
  /-- `OnClientConnected` (wasm_subscription.cpp:210) -/
  connected : Except Bytes Unit := .ok ()
  /-- `SendInitialData` (wasm_subscription.cpp:432), and the event it hands to `OnWasmSubscriptionEvent` -/
  initialData : Nat → Except Bytes (Option Json) := fun _ => .ok none
  /-- the reducers `OnClientDisconnected` calls (wasm_subscription.cpp:248) -/
  disconnected : Except Bytes Unit := .ok ()

/-- What the thread of a connection finds: the JSON library with the texts of its exceptions, the members of the
`WebSocketServer` that may be missing, and the socket. -/
structure Host where
  lib : JsonLib
  parseError : Bytes → Bytes
  typeError : Json → Bytes
  dumpError : Json → Bytes
  now : Nat → Int64 := fun _ => 0
  sends : Nat → SendResult := fun _ => .all
  auth : Option AuthManager := none
  /-- SHA-1 and base64, from OpenSSL -/
  generateWebSocketAccept : Bytes → Bytes := id
  wasmEngine : Option (Nat → CalledReducer → ReducerContext → Except Bytes ReducerResult) := none
  wasmManager : Option WasmHooks := none
  sqlManager : Bool := true
  /-- what `SendInitialState` (websocket_server.cpp:1099-1199) has for a query and a subscription; `none` without a SQL engine -/
  initialState : Option (Nat → Bytes → Bytes → Except Bytes Json) := none
  /-- what `SendInitialStateAllTables` (websocket_server.cpp:1213-1290) has for a subscription -/
  initialStateAllTables : Option (Nat → Bytes → Except Bytes Json) := none
  /-- the stack of the thread is deep enough for what is done with a message: `std::regex` recurses on the text of a query, the
  parser of predicates on its brackets, and a copy of a document on the depth of it -/
  stackHolds : Nat → Bytes → Bool := fun _ _ => true

/-- The server as the thread of one connection sees it; `sent` are the messages that went out whole. -/
structure ClientThread where
  server : WebSocketServer := {}
  /-- `active_clients_` -/
  activeClients : List Nat := []
  messages : List Bytes := []
  attempts : Nat := 0
  sent : List Bytes := []
  wire : Bytes := []

abbrev Handler := Throwing Bytes ClientThread

namespace ClientThread

/-- The number of the message at hand. -/
def handled (t : ClientThread) : Nat := t.messages.length

/-- `HandleWebSocketMessage` is called. -/
def called (t : ClientThread) (message : Bytes) : ClientThread := { t with messages := t.messages ++ [message] }

/-! ## Documents -/

/-- `{"type": …, "message": …}`. -/
def errorJson (message : Bytes) : Json := .object [(str "message", .string message), (str "type", .string (str "error"))]

def initialStateError (subscriptionId message : Bytes) : Json :=
  .object [(str "message", .string message), (str "subscription_id", .string subscriptionId),
    (str "type", .string (str "initial_state_error"))]

def subscriptionCreated : Json :=
  .object [(str "message", .string (str "Subscribed to all table changes")),
    (str "subscription_id", .string (str "auto-all-tables")), (str "table_pattern", .string (str "*")),
    (str "type", .string (str "subscription_created"))]

def sqlUnsubscribed (subscriptionId : Bytes) : Json :=
  .object [(str "subscription_id", .string subscriptionId), (str "type", .string (str "sql_unsubscribed"))]

def pong : Json := .object [(str "type", .string (str "pong"))]

def sqlSubscriptionCreated (clientId sql subscriptionId : Bytes) : Json :=
  .object [(str "client_id", .string clientId), (str "sql", .string sql), (str "subscription_id", .string subscriptionId),
    (str "type", .string (str "sql_subscription_created"))]

def allTablesSubscriptionCreated (clientId subscriptionId : Bytes) : Json :=
  .object [(str "client_id", .string clientId), (str "scope", .string (str "all_tables")),
    (str "subscription_id", .string subscriptionId), (str "type", .string (str "all_tables_subscription_created"))]

def wasmSubscriptionCreated (clientId moduleName subscriptionId : Bytes) : Json :=
  .object [(str "client_id", .string clientId), (str "module_name", .string moduleName),
    (str "subscription_id", .string subscriptionId), (str "type", .string (str "wasm_subscription_created"))]

/-- The `call_result` of a call that failed; `id` is missing if it could not be read, and `success` if nobody set it. -/
def callFailed (id : Option Bytes) (error : Bytes) (success : Option Bool) : Json :=
  .object ((str "error", .string error) :: (id.map fun id => (str "id", .string id)).toList ++
    (success.map fun b => (str "success", .bool b)).toList ++ [(str "type", .string (str "call_result"))])

/-- The member `result`; `null` is none. -/
def resultJson : ReturnedValue → Option Json
  | .null => none
  | .bool b => some (.bool b)
  | .int32 v => some (.int v.toInt)
  | .int64 v => some (.int v.toInt)
  | .float bits => some (.float (widen bits))
  | .double bits => some (.float bits)
  | .string s => some (.string s)
  | .bytes b => some (.string b)

def callSucceeded (id : Bytes) (result : Option Json) : Json :=
  .object ((str "id", .string id) :: (result.map fun j => (str "result", j)).toList ++
    [(str "success", .bool true), (str "type", .string (str "call_result"))])

/-! ## Sending -/

section
variable (host : Host)

/-- The thread after `send`. -/
def transmit (t : ClientThread) (bytes : Bytes) (r : SendResult) : ClientThread :=
  { t with attempts := t.attempts + 1, wire := t.wire ++ r.taken bytes }

/-- And after the frame of a message. -/
def afterSend (t : ClientThread) (message : Bytes) (r : SendResult) : ClientThread :=
  { t.transmit (WebSocketFrame.textFrame message) r with sent := if r = .all then t.sent ++ [message] else t.sent }

/-- `SendWebSocketFrame` (websocket_server.cpp:414). -/
def sendWebSocketFrame (message : Bytes) : Handler Unit := do
  let t ← get
  let sent := host.sends t.attempts
  modify fun t => t.afterSend message sent
  if sent ≠ .all then throw (str "WebSocket send failed")

def dump (j : Json) : Handler Bytes :=
  match host.lib.dump j with
  | none => throw (host.dumpError j)
  | some text => pure text

def sendJson (j : Json) : Handler Unit := do
  let text ← dump host j
  sendWebSocketFrame host text

def parse (message : Bytes) : Handler Json :=
  match host.lib.parse message with
  | none => throw (host.parseError message)
  | some request => pure request

/-- `request.value(k, "")`. -/
def value (request : Json) (k : Bytes) : Handler Bytes :=
  match request.valueOr k [] with
  | none => throw (host.typeError request)
  | some v => pure v

/-- Whatever is thrown is told to the client. -/
def reporting (report : Bytes → Json) (body : Handler Unit) : Handler Unit := do
  try body
  catch e => sendJson host (report e)

/-! ## Snapshots -/

/-- The common shape of the two: what there is to send is sent, or else why not. -/
def sendState (state : Except Bytes Json) (subscriptionId failure : Bytes) : Handler Unit :=
  reporting host (fun e => initialStateError subscriptionId (failure ++ e)) do
    match state with
    | .error e => throw e
    | .ok j => sendJson host j

/-- `SendInitialState` (websocket_server.cpp:1099). -/
def sendInitialState (sql subscriptionId : Bytes) : Handler Unit := do
  match host.initialState with
  | none => pure ()
  | some state =>
    let t ← get
    sendState host (state t.handled sql subscriptionId) subscriptionId (str "Exception while fetching initial state: ")

/-- `SendInitialStateAllTables` (websocket_server.cpp:1213). -/
def sendInitialStateAllTables (subscriptionId : Bytes) : Handler Unit := do
  match host.initialStateAllTables with
  | none => pure ()
  | some state =>
    let t ← get
    sendState host (state t.handled subscriptionId) subscriptionId
      (str "Exception while fetching initial state for all tables: ")

/-! ## The handlers -/

/-- `Subscribe` (sql_subscription.cpp:280) with its exception. -/
def subscribe (clientId sql : Bytes) : Handler Bytes := do
  let t ← get
  let (id, m) := t.server.sqlManager.subscribe clientId sql
  modify fun t => { t with server := { t.server with sqlManager := m } }
  match id with
  | none => throw (str "Invalid SQL subscription query: " ++ sql)
  | some id => pure id

/-- `HandleSqlSubscriptionRequest` (websocket_server.cpp:978). -/
def handleSqlSubscriptionRequest (socket : Nat) (message : Bytes) : Handler Unit :=
  if host.sqlManager = false then sendJson host (errorJson (str "SQL subscription manager not available"))
  else reporting host (fun e => errorJson (str "Failed to create SQL subscription: " ++ e)) do
    let request ← parse host message
    let t ← get
    let clientId := t.server.clientId socket
    if clientId = [] then sendJson host (errorJson (str "Client ID not found"))
    else match request.constMember (str "sql") with
      | none => sendJson host (errorJson (str "sql field is required"))
      | some field =>
        match field.asString with
        | none => throw (host.typeError field)
        | some sql =>
          let id ← subscribe clientId sql
          sendJson host (sqlSubscriptionCreated clientId sql id)
          sendInitialState host sql id

/-- `HandleSubscribeToAllTablesRequest` (websocket_server.cpp:1045). -/
def handleSubscribeToAllTablesRequest (socket : Nat) : Handler Unit :=
  if host.sqlManager = false then sendJson host (errorJson (str "SQL subscription manager not available"))
  else reporting host (fun e => errorJson (str "Failed to create ALL_TABLES subscription: " ++ e)) do
    let t ← get
    let clientId := t.server.clientId socket
    if clientId = [] then sendJson host (errorJson (str "Client ID not found"))
    else
      let (id, m) := t.server.sqlManager.subscribeToAllTables clientId
      modify fun t => { t with server := { t.server with sqlManager := m } }
      sendJson host (allTablesSubscriptionCreated clientId id)
      sendInitialStateAllTables host id

/-- `OnWasmSubscriptionEvent` (websocket_server.cpp:806) for the client of the thread; exceptions are logged. -/
def onWasmSubscriptionEvent (j : Json) : Handler Unit := do
  try sendJson host j
  catch _ => pure ()

/-- `HandleSubscriptionRequest` (websocket_server.cpp:858). -/
def handleSubscriptionRequest (socket : Nat) (message : Bytes) : Handler Unit :=
  match host.wasmManager with
  | none => sendJson host (errorJson (str "WASM subscription manager not available"))
  | some hooks =>
    reporting host (fun e => errorJson (str "Failed to create WASM subscription: " ++ e)) do
      let request ← parse host message
      let t ← get
      let clientId := t.server.clientId socket
      if clientId = [] then sendJson host (errorJson (str "Client ID not found"))
      else if request.contains (str "module_name") = false then sendJson host (errorJson (str "module_name is required"))
      else match WebSocketServer.wasmQuery clientId request with
        | none => throw (host.typeError request)
        | some query =>
          let (id, m) := t.server.wasmManager.createSubscription query
          modify fun t => { t with server := { t.server with wasmManager := m } }
          match hooks.initialData t.handled with
          | .error e => throw e
          | .ok none => pure ()
          | .ok (some event) => onWasmSubscriptionEvent host event
          sendJson host (wasmSubscriptionCreated clientId query.moduleName id)

/-- The `args` of a request (websocket_server.cpp:614-623). -/
def callArgs (request : Json) : List WasmValue :=
  match request.constMember (str "args") with
  | some (.array l) => l.map jsonArg
  | _ => []

/-- The answer to a result (websocket_server.cpp:638-655). -/
def callResult (id : Bytes) (result : ReducerResult) : Json :=
  if result.success then callSucceeded id (result.values.head?.bind resultJson)
  else callFailed (some id) result.error (some false)

/-- The `try` of `HandleCallReducer` once the id is read (websocket_server.cpp:598-655): whether the call succeeded and
the answer, unless there has been an answer. -/
def callReducer (socket : Nat) (request : Json) (id : Bytes) : Handler (Option (Bool × Json)) :=
  match host.wasmEngine with
  | none => do
    sendJson host (callFailed (some id) (str "reducer calls over websocket are disabled") none)
    pure none
  | some executeReducer => do
    let moduleName ← value host request (str "module")
    let reducerName ← value host request (str "reducer")
    if moduleName = [] ∨ reducerName = [] then
      sendJson host (callFailed (some id) (str "module and reducer are required") (some false))
      pure none
    else
      let t ← get
      let rctx := Gateway.websocketContext t.server socket moduleName (host.now t.handled)
      match executeReducer t.handled ⟨moduleName, reducerName, callArgs request⟩ rctx with
      | .error e => throw e
      | .ok result => pure (some (result.success, callResult id result))

/-- The exception handler of `HandleCallReducer`, which knows the id if it was read. -/
def callError (id : Option Bytes) (e : Bytes) : Json := callFailed id (str "call_reducer error: " ++ e) (some false)

/-- The `catch` of `HandleCallReducer` and what comes after it (websocket_server.cpp:656-664). -/
def answering (id : Bytes) (body : Handler (Option (Bool × Json))) : Handler Unit := do
  let answer ← try body
    catch e =>
      sendJson host (callError (some id) e)
      pure none
  match answer with
  | none => pure ()
  | some (success, response) => if success = false ∨ id ≠ [] then sendJson host response

/-- `HandleCallReducer` (websocket_server.cpp:588). -/
def handleCallReducer (socket : Nat) (message : Bytes) : Handler Unit :=
  match host.lib.parse message with
  | none => sendJson host (callError none (host.parseError message))
  | some request =>
    match request.valueOr (str "id") [] with
    | none => sendJson host (callError none (host.typeError request))
    | some id => answering host id (callReducer host socket request id)

/-- `HandleWebSocketMessage` (websocket_server.cpp:515). -/
def handleWebSocketMessage (socket : Nat) (message : Bytes) : Handler Unit := do
  modify fun t => t.called message
  reporting host (fun e => errorJson (str "Invalid JSON: " ++ e)) do
    let request ← parse host message
    let type ← value host request (str "type")
    if type = str "subscribe" then sendJson host subscriptionCreated
    else if type = str "sql_subscribe" then handleSqlSubscriptionRequest host socket message
    else if type = str "sql_unsubscribe" then
      let id ← value host request (str "subscription_id")
      if host.sqlManager ∧ id ≠ [] then
        modify fun t => { t with server := { t.server with sqlManager := t.server.sqlManager.unsubscribe id } }
      sendJson host (sqlUnsubscribed id)
    else if type = str "subscribe_to_all_tables" then handleSubscribeToAllTablesRequest host socket
    else if type = str "wasm_subscribe" then handleSubscriptionRequest host socket message
    else if type = str "call_reducer" then handleCallReducer host socket message
    else if type = str "ping" then sendJson host pong
    else sendJson host (errorJson (str "Unknown message type: " ++ type))

end

/-! ## What the operations do -/

end ClientThread

/-- What the JSON library promises: its exceptions name types, positions and bytes in ASCII, except that a parse error
quotes the text; and what it parses is UTF-8. -/
structure Host.Sound (host : Host) : Prop where
  utf8Only : host.lib.Utf8Only
  parse_utf8 : ∀ (text : Bytes) (j : Json), host.lib.parse text = some j → j.utf8 = true
  typeError_utf8 : ∀ j, Utf8 (host.typeError j)
  dumpError_utf8 : ∀ j, Utf8 (host.dumpError j)

namespace ClientThread

section
variable {host : Host} {t : ClientThread} {j : Json} {text message : Bytes}

@[simp] theorem server_called : (t.called message).server = t.server := rfl

@[simp] theorem activeClients_called : (t.called message).activeClients = t.activeClients := rfl

@[simp] theorem messages_called : (t.called message).messages = t.messages ++ [message] := rfl

@[simp] theorem handled_called : (t.called message).handled = t.handled + 1 := by simp [handled]

@[simp] theorem attempts_called : (t.called message).attempts = t.attempts := rfl

@[simp] theorem sent_called : (t.called message).sent = t.sent := rfl

@[simp] theorem attempts_afterSend (r : SendResult) : (t.afterSend message r).attempts = t.attempts + 1 := rfl

@[simp] theorem server_afterSend (r : SendResult) : (t.afterSend message r).server = t.server := rfl

@[simp] theorem messages_afterSend (r : SendResult) : (t.afterSend message r).messages = t.messages := rfl

@[simp] theorem handled_server (server : WebSocketServer) : ({ t with server := server } : ClientThread).handled = t.handled := rfl

@[simp] theorem handled_afterSend (r : SendResult) : (t.afterSend message r).handled = t.handled := rfl

@[simp] theorem activeClients_afterSend (r : SendResult) : (t.afterSend message r).activeClients = t.activeClients := rfl

@[simp] theorem sent_afterSend : (t.afterSend message .all).sent = t.sent ++ [message] := rfl

theorem exec_sendWebSocketFrame (host : Host) (t : ClientThread) (message : Bytes) :
    exec (sendWebSocketFrame host message) t =
      (if host.sends t.attempts = .all then .ok () else .error (str "WebSocket send failed"),
        t.afterSend message (host.sends t.attempts)) := by
  by_cases h : host.sends t.attempts = .all <;> simp [sendWebSocketFrame, exec_bind, h]

/-- A document that can be printed is sent. -/
theorem exec_sendJson (h : host.lib.dump j = some text) : exec (sendJson host j) t =
    (if host.sends t.attempts = .all then .ok () else .error (str "WebSocket send failed"),
      t.afterSend text (host.sends t.attempts)) := by
  simp [sendJson, dump, h, exec_sendWebSocketFrame]

theorem exec_sendJson_unprintable (h : host.lib.dump j = none) :
    exec (sendJson host j) t = (.error (host.dumpError j), t) := by
  simp [sendJson, dump, h]

theorem exec_parse (h : host.lib.parse message = some j) : exec (parse host message) t = (.ok j, t) := by
  simp [parse, h]

theorem exec_value {k v : Bytes} (h : j.valueOr k [] = some v) : exec (value host j k) t = (.ok v, t) := by
  simp [value, h]

theorem exec_value_none {k : Bytes} (h : j.valueOr k [] = none) :
    exec (value host j k) t = (.error (host.typeError j), t) := by
  simp [value, h]

/-- A body that ends well is left alone. -/
theorem exec_reporting_ok {report : Bytes → Json} {body : Handler Unit} {t' : ClientThread}
    (h : exec body t = (.ok (), t')) : exec (reporting host report body) t = (.ok (), t') :=
  exec_tryCatch_ok h _

/-- How the `try` of `HandleCallReducer` ends: with an answer, with an exception, or with the result of the call. -/
inductive CallEnd where
  | answered (error : String) (success : Option Bool)
  | threw (what : Bytes)
  | called (result : ReducerResult)

def callEnd (host : Host) (t : ClientThread) (socket : Nat) (request : Json) : CallEnd :=
  match host.wasmEngine with
  | none => .answered "reducer calls over websocket are disabled" none
  | some executeReducer =>
    match request.valueOr (str "module") [], request.valueOr (str "reducer") [] with
    | some moduleName, some reducerName =>
      if moduleName = [] ∨ reducerName = [] then .answered "module and reducer are required" (some false)
      else
        match executeReducer t.handled ⟨moduleName, reducerName, callArgs request⟩
            (Gateway.websocketContext t.server socket moduleName (host.now t.handled)) with
        | .error e => .threw e
        | .ok result => .called result
    | _, _ => .threw (host.typeError request)

theorem exec_callReducer (host : Host) (t : ClientThread) (socket : Nat) (request : Json) (id : Bytes) :
    exec (callReducer host socket request id) t =
      match callEnd host t socket request with
      | .answered error success => exec (do sendJson host (callFailed (some id) (str error) success); pure none) t
      | .threw e => (.error e, t)
      | .called result => (.ok (some (result.success, callResult id result)), t) := by
  unfold callReducer callEnd
  cases host.wasmEngine with
  | none => rfl
  | some executeReducer =>
    simp only
    cases hmodule : request.valueOr (str "module") [] with
    | none => exact exec_bind_error (exec_value_none hmodule) _
    | some moduleName =>
      rw [exec_bind_ok (exec_value hmodule)]
      cases hreducer : request.valueOr (str "reducer") [] with
      | none => exact exec_bind_error (exec_value_none hreducer) _
      | some reducerName =>
        rw [exec_bind_ok (exec_value hreducer)]
        simp only
        by_cases hempty : moduleName = [] ∨ reducerName = []
        · rw [if_pos hempty, if_pos hempty]
        · rw [if_neg hempty, if_neg hempty, exec_bind_ok (exec_get t)]
          cases executeReducer t.handled ⟨moduleName, reducerName, callArgs request⟩
            (Gateway.websocketContext t.server socket moduleName (host.now t.handled)) <;> rfl

section
variable {id e : Bytes} {body : Handler (Option (Bool × Json))} {t' : ClientThread}

theorem exec_answering_none (h : exec body t = (.ok none, t')) : exec (answering host id body) t = (.ok (), t') := by
  unfold answering
  rw [exec_bind_ok (exec_tryCatch_ok h _)]
  rfl

theorem exec_answering_some {success : Bool} (h : exec body t = (.ok (some (success, j)), t')) :
    exec (answering host id body) t = if success = false ∨ id ≠ [] then exec (sendJson host j) t' else (.ok (), t') := by
  unfold answering
  rw [exec_bind_ok (exec_tryCatch_ok h _)]
  simp only
  by_cases hsend : success = false ∨ id ≠ []
  · rw [if_pos hsend, if_pos hsend]
  · rw [if_neg hsend, if_neg hsend]
    rfl

/-- What is thrown is told, and if that cannot be printed, it is thrown on. -/
theorem exec_answering_error (h : exec body t = (.error e, t')) :
    exec (answering host id body) t = exec (sendJson host (callError (some id) e)) t' := by
  unfold answering
  rw [exec_bind, exec_tryCatch_error h, exec_bind]
  rcases exec (sendJson host (callError (some id) e)) t' with ⟨e | ⟨⟩, t''⟩ <;> simp

end

theorem exec_reporting_error {report : Bytes → Json} {body : Handler Unit} {t' : ClientThread} {e : Bytes}
    (h : exec body t = (.error e, t')) : exec (reporting host report body) t = exec (sendJson host (report e)) t' :=
  exec_tryCatch_error h _

end

end ClientThread

namespace Host.Sound

variable {host : Host} {j : Json}

theorem dump (hs : host.Sound) (h : j.utf8 = true) : ∃ text, host.lib.dump j = some text :=
  Option.isSome_iff_exists.1 ((hs.utf8Only.dump_isSome j).2 h)

theorem dump_none (hs : host.Sound) (h : j.utf8 = false) : host.lib.dump j = none := by
  cases hd : host.lib.dump j with
  | none => rfl
  | some text =>
    have := (hs.utf8Only.dump_isSome j).1 (by simp [hd])
    rw [h] at this
    cases this

end Host.Sound

end OriginDB
