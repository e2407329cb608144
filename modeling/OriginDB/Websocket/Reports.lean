import OriginDB.Websocket.Handlers
/-!
# Which sends a message depends on (`websocket_server.cpp:515-576, 588-664, 858-1304`)

Each handler around a `send` that fails sends a report, and what the last of them throws leaves
`HandleWebSocketMessage`. `triesOf` counts these sends for every message: a plain reply has two tries, one inside a
handler with a `try` of its own three, and a message that is refused before anything is sent only one. A report that
cannot be printed is a try less, and the text of a parse error, which quotes the message, may leave none.
-/
namespace OriginDB

open JsonDoc ByteCodec Throwing

/-- Does the `send` take the whole frame? -/
def Host.delivers (host : Host) (n : Nat) : Bool := host.sends n = .all

namespace ClientThread

/-! ## The tries of a message -/

section
variable (host : Host) (t : ClientThread) (socket : Nat)

/-- The sends of a snapshot: it, if there is one, and the error in its place. -/
def stateSends : Except Bytes Json → Nat
  | .error e => if Utf8 e then 1 else 0
  | .ok j => if j.utf8 = true then 2 else 1

/-- A subscription that is made is told, and then its state is. -/
def snapshotTries : Option (Except Bytes Json) → Tries
  | none => .row 0 2
  | some state => .rows 2 (stateSends state + 1)

def sqlSubscribeTries (request : Json) : Tries :=
  if host.sqlManager = false then .row 0 1
  else if t.server.clientId socket = [] then .row 0 2
  else match request.constMember (str "sql") with
    | none => .row 0 2
    | some field =>
      match field.asString with
      | none => .row 0 1
      | some sql =>
        match (t.server.sqlManager.subscribe (t.server.clientId socket) sql).1 with
        | none => .row 0 1
        | some id => snapshotTries (host.initialState.map fun state => state t.handled sql id)

def allTablesTries : Tries :=
  if host.sqlManager = false then .row 0 1
  else if t.server.clientId socket = [] then .row 0 2
  else snapshotTries (host.initialStateAllTables.map fun state =>
    state t.handled (t.server.sqlManager.subscribeToAllTables (t.server.clientId socket)).1)

def wasmSubscribeTries (request : Json) : Tries :=
  match host.wasmManager with
  | none => .row 0 1
  | some hooks =>
    if t.server.clientId socket = [] then .row 0 2
    else if request.contains (str "module_name") = false then .row 0 2
    else match WebSocketServer.wasmQuery (t.server.clientId socket) request with
      | none => .row 0 1
      | some _ =>
        match hooks.initialData t.handled with
        | .error e => if Utf8 e then .row 0 1 else .row 0 0
        | .ok none => .row 0 2
        -- the event comes first, and nobody minds whether it arrives
        | .ok (some event) => if event.utf8 = true then .row 1 2 else .row 0 2

def callReducerTries (request : Json) : Tries :=
  match request.valueOr (str "id") [] with
  | none => .row 0 1
  | some id =>
    match callEnd host t socket request with
    | .answered _ _ => .row 0 2
    | .threw e => if Utf8 e then .row 0 1 else .row 0 0
    | .called result =>
      if result.success = false ∨ id ≠ [] then
        if (callResult id result).utf8 = true then .row 0 1 else .row 0 0
      else .never

/-- The sends that have to fail for an exception to leave the `try` of `HandleWebSocketMessage`. -/
def requestTries (request : Json) : Tries :=
  match request.valueOr (str "type") [] with
  | none => .row 0 0
  | some type =>
    if type = str "sql_subscribe" then sqlSubscribeTries host t socket request
    else if type = str "sql_unsubscribe" then
      if (request.valueOr (str "subscription_id") []).isNone then .row 0 0 else .row 0 1
    else if type = str "subscribe_to_all_tables" then allTablesTries host t socket
    else if type = str "wasm_subscribe" then wasmSubscribeTries host t socket request
    else if type = str "call_reducer" then callReducerTries host t socket request
    else .row 0 1

/-- And `HandleWebSocketMessage` itself, which makes one report more. -/
def triesOf (message : Bytes) : Tries :=
  match host.lib.parse message with
  | none => if Utf8 (host.parseError message) then .row 0 1 else .row 0 0
  | some request => (requestTries host (t.called message) socket request).reported

end

/-! ## Sending and reporting -/

/-- A handler throws exactly when these sends fail, and then in UTF-8. -/
abbrev Tells {α : Type} (host : Host) (m : Handler α) (t : ClientThread) (p : Tries) : Prop :=
  Follows host.delivers attempts Utf8 m t p

section
variable {α β : Type} {host : Host} {t t' : ClientThread} {j : Json} {p : Tries}

theorem tells_sendJson (hs : host.Sound) (h : j.utf8 = true) : Tells host (sendJson host j) t (.row 0 1) := by
  obtain ⟨text, htext⟩ := hs.dump h
  unfold Tells Follows
  rw [exec_sendJson htext]
  by_cases hall : host.sends t.attempts = .all
  · simp [hall, Host.delivers]
  · simp [hall, Host.delivers, Tries.next, utf8_str]

theorem tells_sendJson_unprintable (hs : host.Sound) (h : j.utf8 = false) :
    Tells host (sendJson host j) t (.row 0 0) := by
  unfold Tells Follows
  rw [exec_sendJson_unprintable (hs.dump_none h)]
  exact ⟨by simp [Tries.lost], hs.dumpError_utf8 j, rfl⟩

/-- What is sent first, and then what comes after it. -/
theorem tells_sendJson_bind (hs : host.Sound) (h : j.utf8 = true) {f : Unit → Handler Unit} {count : Nat}
    (hf : ∀ text, Tells host (f ()) (t.afterSend text .all) (.row 0 count)) :
    Tells host (sendJson host j >>= f) t (.rows 1 count) := by
  obtain ⟨text, htext⟩ := hs.dump h
  have hnext := hf text
  unfold Tells Follows at hnext ⊢
  by_cases hall : host.sends t.attempts = .all
  · rw [exec_bind_ok (by rw [exec_sendJson htext, if_pos hall, hall])]
    simpa [Tries.lost, Tries.next, Host.delivers, hall] using hnext
  · rw [exec_bind_error (by rw [exec_sendJson htext, if_neg hall])]
    simp [Tries.lost, Tries.next, Host.delivers, hall, utf8_str]

theorem tells_reporting (hs : host.Sound) {report : Bytes → Json} (hreport : ∀ e, Utf8 e → (report e).utf8 = true)
    {body : Handler Unit} (h : Tells host body t p) : Tells host (reporting host report body) t p.reported :=
  Follows.tryCatch h fun e _ he => tells_sendJson hs (hreport e he)

/-- A text that cannot be told. -/
theorem tells_reporting_raw (hs : host.Sound) (t' : ClientThread) {report : Bytes → Json} {body : Handler Unit} {e : Bytes}
    (h : exec body t = (.error e, t')) (ht : t'.attempts = t.attempts) (hreport : (report e).utf8 = false) :
    Tells host (reporting host report body) t (.row 0 0) := by
  have hthrow := tells_sendJson_unprintable (t := t') hs hreport
  unfold Tells Follows at hthrow ⊢
  rw [exec_reporting_error h]
  rwa [ht] at hthrow

@[simp] theorem utf8_errorJson {e : Bytes} : (errorJson e).utf8 = true ↔ Utf8 e := by
  simp [errorJson, utf8_str]

@[simp] theorem utf8_initialStateError {id e : Bytes} : (initialStateError id e).utf8 = true ↔ Utf8 e ∧ Utf8 id := by
  simp [initialStateError, utf8_str]

/-! ## The handlers -/

theorem tells_sendState (hs : host.Sound) {id : Bytes} (hid : Utf8 id) (failure : String) (state : Except Bytes Json) :
    Tells host (sendState host state id (str failure)) t (.row 0 (stateSends state)) := by
  have hreport : ∀ e, Utf8 e → (initialStateError id (str failure ++ e)).utf8 = true := by
    intro e he
    exact utf8_initialStateError.2 ⟨(utf8_str _).append he, hid⟩
  unfold sendState stateSends
  cases state with
  | error e =>
    simp only
    by_cases he : Utf8 e
    · rw [if_pos he]
      exact tells_reporting hs hreport (follows_throw he)
    · rw [if_neg he]
      refine tells_reporting_raw hs t (exec_throw t e) rfl ?_
      simp [Bool.eq_false_iff, utf8_str_append, he]
  | ok j =>
    simp only
    by_cases hj : j.utf8 = true
    · rw [if_pos hj]
      exact tells_reporting hs hreport (tells_sendJson hs hj)
    · rw [if_neg hj]
      exact tells_reporting hs hreport (tells_sendJson_unprintable hs (by simpa using hj))

/-- A subscription that is told, and its state after it. -/
theorem tells_created (hs : host.Sound) {id : Bytes} (hid : Utf8 id) (failure : String) (hj : j.utf8 = true)
    (state : Option (Except Bytes Json)) {f : Unit → Handler Unit}
    (hf : ∀ text, exec (f ()) (t.afterSend text .all) = match state with
      | none => (.ok (), t.afterSend text .all)
      | some state => exec (sendState host state id (str failure)) (t.afterSend text .all)) :
    ∃ p, Tells host (sendJson host j >>= f) t p ∧ p.reported = snapshotTries state := by
  cases state with
  | none =>
    refine ⟨.row 0 1, (tells_sendJson hs hj).bind_never fun _ t' ht' => ?_, rfl⟩
    obtain ⟨text, htext⟩ := hs.dump hj
    have hsent : t' = t.afterSend text .all := by
      rw [exec_sendJson htext] at ht'
      by_cases hall : host.sends t.attempts = .all
      · rw [if_pos hall, hall] at ht'
        exact (Prod.mk.inj ht').2.symm
      · rw [if_neg hall] at ht'
        cases (Prod.mk.inj ht').1
    rw [hsent]
    unfold Follows
    rw [hf]
    exact fun h => h
  | some state =>
    refine ⟨.rows 1 (stateSends state), tells_sendJson_bind hs hj fun text => ?_, rfl⟩
    unfold Tells Follows
    rw [hf]
    exact tells_sendState hs hid failure state

section
variable {socket : Nat} {message : Bytes} {request : Json}

theorem tells_errorJson (hs : host.Sound) (text : String) : Tells host (sendJson host (errorJson (str text))) t (.row 0 1) :=
  tells_sendJson hs (utf8_errorJson.2 (utf8_str text))

theorem utf8_generateSubscriptionId (m : SqlSubscriptionManager) : Utf8 m.generateSubscriptionId.1 :=
  (utf8_str _).append (utf8_str _)

theorem utf8_asString {j : Json} {s : Bytes} (hj : j.utf8 = true) (hs : j.asString = some s) : Utf8 s := by
  cases j with
  | string s' =>
    cases hs
    simpa using hj
  | _ => cases hs

theorem tells_handleSqlSubscriptionRequest (hs : host.Sound) (hparse : host.lib.parse message = some request)
    (hclient : Utf8 (t.server.clientId socket)) :
    Tells host (handleSqlSubscriptionRequest host socket message) t (sqlSubscribeTries host t socket request) := by
  have hutf := hs.parse_utf8 _ _ hparse
  have hreport : ∀ e, Utf8 e → (errorJson (str "Failed to create SQL subscription: " ++ e)).utf8 = true :=
    fun e he => utf8_errorJson.2 ((utf8_str _).append he)
  unfold handleSqlSubscriptionRequest sqlSubscribeTries
  by_cases hm : host.sqlManager = false
  · rw [if_pos hm, if_pos hm]
    exact tells_errorJson hs _
  · rw [if_neg hm, if_neg hm]
    by_cases hid : t.server.clientId socket = []
    · rw [if_pos hid]
      refine tells_reporting (p := .row 0 1) hs hreport
        (follows_bind (exec_parse hparse) rfl (follows_bind (exec_get t) rfl ?_))
      simp only [hid, if_true]
      exact tells_errorJson hs _
    · rw [if_neg hid]
      cases hfield : request.constMember (str "sql") with
      | none =>
        refine tells_reporting (p := .row 0 1) hs hreport
          (follows_bind (exec_parse hparse) rfl (follows_bind (exec_get t) rfl ?_))
        simp only [hid, if_false, hfield]
        exact tells_errorJson hs _
      | some field =>
        simp only
        cases hsql : field.asString with
        | none =>
          refine tells_reporting (p := .row 0 0) hs hreport
            (follows_bind (exec_parse hparse) rfl (follows_bind (exec_get t) rfl ?_))
          simp only [hid, if_false, hfield, hsql]
          exact follows_throw (hs.typeError_utf8 field)
        | some sql =>
          simp only
          have hsqlutf : Utf8 sql := utf8_asString (Json.utf8_constMember hutf hfield) hsql
          let t' : ClientThread := { t with server :=
            { t.server with sqlManager := (t.server.sqlManager.subscribe (t.server.clientId socket) sql).2 } }
          cases hsub : (t.server.sqlManager.subscribe (t.server.clientId socket) sql).1 with
          | none =>
            refine tells_reporting (p := .row 0 0) hs hreport
              (follows_bind (exec_parse hparse) rfl (follows_bind (exec_get t) rfl ?_))
            simp only [hid, if_false, hfield, hsql]
            have hthrow : exec (subscribe (t.server.clientId socket) sql) t =
                (.error (str "Invalid SQL subscription query: " ++ sql), t') := by
              simp [subscribe, exec_bind, hsub, t']
            exact follows_error (exec_bind_error hthrow _) rfl ((utf8_str _).append hsqlutf)
          | some id =>
            have hmade : exec (subscribe (t.server.clientId socket) sql) t = (.ok id, t') := by
              simp [subscribe, exec_bind, exec_map, hsub, t']
            have hidutf : Utf8 id := by
              unfold SqlSubscriptionManager.subscribe at hsub
              simp only at hsub
              split at hsub
              · cases hsub
              · cases hsub
                exact utf8_generateSubscriptionId _
            obtain ⟨p, hp, heq⟩ := tells_created (t := t') hs hidutf "Exception while fetching initial state: "
              (j := sqlSubscriptionCreated (t.server.clientId socket) sql id) (by simp [sqlSubscriptionCreated, utf8_str, hclient, hsqlutf, hidutf])
              (host.initialState.map fun state => state t.handled sql id) (f := fun _ => sendInitialState host sql id) (by
                intro text
                unfold sendInitialState
                cases host.initialState <;> simp [exec_bind, t'])
            simp only
            rw [← heq]
            refine tells_reporting hs hreport (follows_bind (exec_parse hparse) rfl (follows_bind (exec_get t) rfl ?_))
            simp only [hid, if_false, hfield, hsql]
            exact follows_bind hmade rfl hp

theorem tells_handleSubscribeToAllTablesRequest (hs : host.Sound) (hclient : Utf8 (t.server.clientId socket)) :
    Tells host (handleSubscribeToAllTablesRequest host socket) t (allTablesTries host t socket) := by
  have hreport : ∀ e, Utf8 e → (errorJson (str "Failed to create ALL_TABLES subscription: " ++ e)).utf8 = true :=
    fun e he => utf8_errorJson.2 ((utf8_str _).append he)
  unfold handleSubscribeToAllTablesRequest allTablesTries
  by_cases hm : host.sqlManager = false
  · rw [if_pos hm, if_pos hm]
    exact tells_errorJson hs _
  · rw [if_neg hm, if_neg hm]
    by_cases hid : t.server.clientId socket = []
    · rw [if_pos hid]
      refine tells_reporting (p := .row 0 1) hs hreport (follows_bind (exec_get t) rfl ?_)
      simp only [hid, if_true]
      exact tells_errorJson hs _
    · rw [if_neg hid]
      generalize hmade : t.server.sqlManager.subscribeToAllTables (t.server.clientId socket) = made
      have hidutf : Utf8 made.1 := by
        rw [← hmade]
        exact utf8_generateSubscriptionId _
      obtain ⟨p, hp, heq⟩ := tells_created (t := { t with server := { t.server with sqlManager := made.2 } }) hs hidutf
        "Exception while fetching initial state for all tables: "
        (j := allTablesSubscriptionCreated (t.server.clientId socket) made.1)
        (by simp [allTablesSubscriptionCreated, utf8_str, hclient, hidutf])
        (host.initialStateAllTables.map fun state => state t.handled made.1)
        (f := fun _ => sendInitialStateAllTables host made.1) (by
          intro text
          unfold sendInitialStateAllTables
          cases host.initialStateAllTables <;> simp [exec_bind])
      rw [← heq]
      refine tells_reporting hs hreport (follows_bind (exec_get t) rfl ?_)
      simp only [hid, if_false, hmade]
      exact follows_bind (exec_modify t _) rfl hp

/-- An event may go out first; what becomes of it changes nothing. -/
theorem exec_onWasmSubscriptionEvent (hs : host.Sound) (event : Json) : ∃ t', exec (onWasmSubscriptionEvent host event) t = (.ok (), t') ∧
    t'.attempts = t.attempts + (if event.utf8 = true then 1 else 0) ∧ t'.server = t.server := by
  unfold onWasmSubscriptionEvent
  by_cases hevent : event.utf8 = true
  · obtain ⟨text, htext⟩ := hs.dump hevent
    refine ⟨t.afterSend text (host.sends t.attempts), ?_, by simp [hevent], by simp⟩
    rw [exec_tryCatch, exec_sendJson htext]
    by_cases hall : host.sends t.attempts = .all <;> simp [hall]
  · refine ⟨t, ?_, by simp [hevent], rfl⟩
    rw [exec_tryCatch_error (exec_sendJson_unprintable (hs.dump_none (by simpa using hevent)))]
    rfl

theorem utf8_moduleName {c : Bytes} {query : WasmSubscriptionQuery} (hutf : request.utf8 = true)
    (h : WebSocketServer.wasmQuery c request = some query) : Utf8 query.moduleName := by
  simp only [WebSocketServer.wasmQuery, Option.bind_eq_bind, Option.bind_eq_some_iff, Option.pure_def, Option.some.injEq] at h
  obtain ⟨moduleName, ⟨field, hfield, hname⟩, h⟩ := h
  obtain ⟨-, -, -, -, -, -, -, -, -, -, -, -, -, -, rfl⟩ := h
  exact utf8_asString (Json.utf8_constMember hutf hfield) hname

theorem tells_handleSubscriptionRequest (hs : host.Sound) (hparse : host.lib.parse message = some request)
    (hclient : Utf8 (t.server.clientId socket)) :
    Tells host (handleSubscriptionRequest host socket message) t (wasmSubscribeTries host t socket request) := by
  have hutf := hs.parse_utf8 _ _ hparse
  have hreport : ∀ e, Utf8 e → (errorJson (str "Failed to create WASM subscription: " ++ e)).utf8 = true :=
    fun e he => utf8_errorJson.2 ((utf8_str _).append he)
  unfold handleSubscriptionRequest wasmSubscribeTries
  cases hmanager : host.wasmManager with
  | none => exact tells_errorJson hs _
  | some hooks =>
    simp only
    by_cases hid : t.server.clientId socket = []
    · rw [if_pos hid]
      refine tells_reporting (p := .row 0 1) hs hreport
        (follows_bind (exec_parse hparse) rfl (follows_bind (exec_get t) rfl ?_))
      simp only [hid, if_true]
      exact tells_errorJson hs _
    · rw [if_neg hid]
      by_cases hmodule : request.contains (str "module_name") = false
      · rw [if_pos hmodule]
        refine tells_reporting (p := .row 0 1) hs hreport
          (follows_bind (exec_parse hparse) rfl (follows_bind (exec_get t) rfl ?_))
        simp only [hid, hmodule, if_true, if_false]
        exact tells_errorJson hs _
      · rw [if_neg hmodule]
        cases hquery : WebSocketServer.wasmQuery (t.server.clientId socket) request with
        | none =>
          refine tells_reporting (p := .row 0 0) hs hreport
            (follows_bind (exec_parse hparse) rfl (follows_bind (exec_get t) rfl ?_))
          simp only [hid, hmodule, if_false, hquery]
          exact follows_throw (hs.typeError_utf8 request)
        | some query =>
          have hmoduleName := utf8_moduleName hutf hquery
          have hcreated : ∀ t'' : ClientThread, Tells host (sendJson host (wasmSubscriptionCreated (t.server.clientId socket)
              query.moduleName (t.server.wasmManager.createSubscription query).1)) t'' (.row 0 1) := by
            intro t''
            refine tells_sendJson hs ?_
            simp [wasmSubscriptionCreated, WasmSubscriptionManager.createSubscription, WasmSubscriptionManager.nextId,
              hclient, hmoduleName, utf8_str, (utf8_str _).append (utf8_str _)]
          simp only
          cases hdata : hooks.initialData t.handled with
          | error e =>
            simp only
            by_cases he : Utf8 e
            · rw [if_pos he]
              refine tells_reporting (p := .row 0 0) hs hreport
                (follows_bind (exec_parse hparse) rfl (follows_bind (exec_get t) rfl ?_))
              simp only [hid, hmodule, if_false, hquery, hdata]
              exact follows_bind (exec_modify t _) rfl (follows_error (exec_bind_error (exec_throw _ e) _) rfl he)
            · rw [if_neg he]
              let made : ClientThread := { t with server :=
                { t.server with wasmManager := (t.server.wasmManager.createSubscription query).2 } }
              refine tells_reporting_raw hs made (e := e) ?_ rfl ?_
              · rw [exec_bind_ok (exec_parse hparse), exec_bind_ok (exec_get t)]
                simp only [hid, hmodule, Bool.true_eq_false, if_false, hquery, hdata]
                rw [exec_bind_ok (exec_modify t _), exec_bind_error (exec_throw _ e)]
              · simp [Bool.eq_false_iff, utf8_str_append, he]
          | ok data =>
            cases data with
            | none =>
              refine tells_reporting (p := .row 0 1) hs hreport
                (follows_bind (exec_parse hparse) rfl (follows_bind (exec_get t) rfl ?_))
              simp only [hid, hmodule, if_false, hquery, hdata]
              exact follows_bind (exec_modify t _) rfl (follows_bind (exec_pure _ _) rfl (hcreated _))
            | some event =>
              obtain ⟨t'', hevent, hattempts, -⟩ := exec_onWasmSubscriptionEvent (t := { t with server :=
                { t.server with wasmManager := (t.server.wasmManager.createSubscription query).2 } }) hs event
              have hskip : Tells host (handleSubscriptionRequest host socket message) t
                  (.row (if event.utf8 = true then 1 else 0) 2) := by
                unfold handleSubscriptionRequest
                rw [hmanager]
                refine tells_reporting (p := .row _ 1) hs hreport
                  (follows_bind (exec_parse hparse) rfl (follows_bind (exec_get t) rfl ?_))
                simp only [hid, hmodule, if_false, hquery, hdata]
                exact follows_bind (exec_modify t _) rfl (follows_bind_skip hevent hattempts (hcreated _))
              unfold handleSubscriptionRequest at hskip
              rw [hmanager] at hskip
              simp only
              by_cases hutf8 : event.utf8 = true
              · rw [if_pos hutf8] at hskip ⊢
                exact hskip
              · rw [if_neg hutf8] at hskip ⊢
                exact hskip

@[simp] theorem utf8_callFailed {id e : Bytes} {success : Option Bool} :
    (callFailed (some id) e success).utf8 = true ↔ Utf8 e ∧ Utf8 id := by
  cases success <;> simp [callFailed, utf8_str]

@[simp] theorem utf8_callFailed_none {e : Bytes} {success : Option Bool} :
    (callFailed none e success).utf8 = true ↔ Utf8 e := by
  cases success <;> simp [callFailed, utf8_str]

theorem tells_handleCallReducer (hs : host.Sound) (hparse : host.lib.parse message = some request) :
    Tells host (handleCallReducer host socket message) t (callReducerTries host t socket request) := by
  have hutf := hs.parse_utf8 _ _ hparse
  unfold handleCallReducer callReducerTries
  rw [hparse]
  simp only
  cases hrid : request.valueOr (str "id") [] with
  | none => exact tells_sendJson hs (utf8_callFailed_none.2 ((utf8_str _).append (hs.typeError_utf8 request)))
  | some id =>
    have hid := Json.utf8_valueOr hutf hrid
    have hexec := exec_callReducer host t socket request id
    simp only
    cases hend : callEnd host t socket request with
    | threw e =>
      rw [hend] at hexec
      have hutf8 : (callError (some id) e).utf8 = true ↔ Utf8 e := by simp [callError, utf8_str_append, hid]
      simp only
      unfold Tells Follows
      rw [exec_answering_error hexec]
      by_cases he : Utf8 e
      · rw [if_pos he]
        exact tells_sendJson hs (hutf8.2 he)
      · rw [if_neg he]
        exact tells_sendJson_unprintable hs (by simpa using fun h => he (hutf8.1 h))
    | called result =>
      rw [hend] at hexec
      simp only
      unfold Tells Follows
      rw [exec_answering_some hexec]
      by_cases hsend : result.success = false ∨ id ≠ []
      · rw [if_pos hsend, if_pos hsend]
        by_cases hj : (callResult id result).utf8 = true
        · rw [if_pos hj]
          exact tells_sendJson hs hj
        · rw [if_neg hj]
          exact tells_sendJson_unprintable hs (by simpa using hj)
      · rw [if_neg hsend, if_neg hsend]
        exact fun h => h
    | answered error success =>
      rw [hend] at hexec
      have hanswer : (callFailed (some id) (str error) success).utf8 = true := utf8_callFailed.2 ⟨utf8_str error, hid⟩
      obtain ⟨text, htext⟩ := hs.dump hanswer
      have hreport : ∀ t' : ClientThread, Tells host (sendJson host
          (callError (some id) (str "WebSocket send failed"))) t' (.row 0 1) :=
        fun t' => tells_sendJson hs (utf8_callFailed.2 ⟨(utf8_str _).append (utf8_str _), hid⟩)
      simp only
      by_cases hall : host.sends t.attempts = .all
      · simp only [bind_pure_comp, exec_map, exec_sendJson htext, if_pos hall] at hexec
        unfold Tells Follows
        rw [exec_answering_none hexec]
        intro hlost
        simpa [Host.delivers, hall] using hlost 0 (by omega)
      · simp only [bind_pure_comp, exec_map, exec_sendJson htext, if_neg hall] at hexec
        have hnext := hreport (t.afterSend text (host.sends t.attempts))
        unfold Tells Follows at hnext ⊢
        rw [exec_answering_error hexec]
        -- the first send has failed, so the report decides
        simpa [Tries.next, Host.delivers, hall] using hnext

/-- **What leaves `HandleWebSocketMessage`**: an exception exactly when these sends all fail. -/
theorem tells_handleWebSocketMessage (hs : host.Sound) (hclient : Utf8 (t.server.clientId socket)) (message : Bytes) :
    Tells host (handleWebSocketMessage host socket message) t (triesOf host t socket message) := by
  have hreport : ∀ e, Utf8 e → (errorJson (str "Invalid JSON: " ++ e)).utf8 = true :=
    fun e he => utf8_errorJson.2 ((utf8_str _).append he)
  unfold handleWebSocketMessage triesOf
  refine follows_bind (exec_modify t _) rfl ?_
  generalize ht' : t.called message = t'
  have hclient' : Utf8 (t'.server.clientId socket) := by
    rw [← ht']
    exact hclient
  cases hparse : host.lib.parse message with
  | none =>
    have hthrow : exec (parse host message) t' = (.error (host.parseError message), t') := by simp [parse, hparse]
    simp only
    by_cases he : Utf8 (host.parseError message)
    · rw [if_pos he]
      exact tells_reporting (p := .row 0 0) hs hreport (follows_error (exec_bind_error hthrow _) rfl he)
    · rw [if_neg he]
      refine tells_reporting_raw hs t' (exec_bind_error hthrow _) rfl ?_
      simpa [Bool.eq_false_iff, utf8_str_append] using he
  | some request =>
    have hutf := hs.parse_utf8 _ _ hparse
    refine tells_reporting hs hreport (follows_bind (exec_parse hparse) rfl ?_)
    unfold requestTries
    cases htype : request.valueOr (str "type") [] with
    | none => exact follows_error (exec_bind_error (exec_value_none htype) _) rfl (hs.typeError_utf8 request)
    | some type =>
      have htypeutf := Json.utf8_valueOr hutf htype
      refine follows_bind (exec_value htype) rfl ?_
      simp only
      by_cases hsubscribe : type = str "subscribe"
      · subst hsubscribe
        exact tells_sendJson hs (by simp [subscriptionCreated, utf8_str])
      rw [if_neg hsubscribe]
      by_cases hsql : type = str "sql_subscribe"
      · rw [if_pos hsql, if_pos hsql]
        exact tells_handleSqlSubscriptionRequest hs hparse hclient'
      rw [if_neg hsql, if_neg hsql]
      by_cases hunsubscribe : type = str "sql_unsubscribe"
      · rw [if_pos hunsubscribe, if_pos hunsubscribe]
        cases hid : request.valueOr (str "subscription_id") [] with
        | none => exact follows_error (exec_bind_error (exec_value_none hid) _) rfl (hs.typeError_utf8 request)
        | some id =>
          refine follows_bind (exec_value hid) rfl ?_
          have hidutf := Json.utf8_valueOr hutf hid
          have hreply : ∀ t'' : ClientThread, Tells host (sendJson host (sqlUnsubscribed id)) t'' (.row 0 1) :=
            fun t'' => tells_sendJson hs (by simp [sqlUnsubscribed, utf8_str, hidutf])
          by_cases hmanager : host.sqlManager ∧ id ≠ []
          · rw [if_pos hmanager]
            exact follows_bind (exec_modify t' _) rfl (hreply _)
          · rw [if_neg hmanager]
            exact hreply _
      rw [if_neg hunsubscribe, if_neg hunsubscribe]
      by_cases hall : type = str "subscribe_to_all_tables"
      · rw [if_pos hall, if_pos hall]
        exact tells_handleSubscribeToAllTablesRequest hs hclient'
      rw [if_neg hall, if_neg hall]
      by_cases hwasm : type = str "wasm_subscribe"
      · rw [if_pos hwasm, if_pos hwasm]
        exact tells_handleSubscriptionRequest hs hparse hclient'
      rw [if_neg hwasm, if_neg hwasm]
      by_cases hcall : type = str "call_reducer"
      · rw [if_pos hcall, if_pos hcall]
        exact tells_handleCallReducer hs hparse
      rw [if_neg hcall, if_neg hcall]
      by_cases hping : type = str "ping"
      · rw [if_pos hping]
        exact tells_sendJson hs (by simp [pong, utf8_str])
      · rw [if_neg hping]
        exact tells_sendJson hs (utf8_errorJson.2 ((utf8_str _).append htypeutf))

end

end

end ClientThread

end OriginDB
