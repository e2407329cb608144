import OriginDB.Websocket.Handlers
/-!
# What a message does to the server

The handlers that throw (`Handlers`) and the model of the two managers (`Messages`) are two readings of the same
functions. However a handler ends, the server it leaves is the one the model of the managers says: what is sent, and
whether it arrives, is told to nobody but the client.
-/
namespace OriginDB

open JsonDoc ByteCodec Throwing

namespace ClientThread

/-- The connections are the same, and no message has come. -/
structure Quiet (t t' : ClientThread) : Prop where
  activeClients : t'.activeClients = t.activeClients
  messages : t'.messages = t.messages

/-- Neither the managers nor the connections. -/
def Still {α : Type} (m : Handler α) : Prop := Keeps (fun t t' : ClientThread => t'.server = t.server ∧ Quiet t t') m

/-- The server the handler leaves, however it ends. -/
def Leaves {α : Type} (m : Handler α) (t : ClientThread) (server : WebSocketServer) : Prop :=
  (exec m t).2.server = server ∧ Quiet t (exec m t).2

section
variable {α β : Type} {host : Host} {t t' : ClientThread} {j : Json} {server : WebSocketServer}

@[simp] theorem Quiet.refl (t : ClientThread) : Quiet t t := ⟨rfl, rfl⟩

theorem Quiet.trans {t'' : ClientThread} (h : Quiet t t') (h' : Quiet t' t'') : Quiet t t'' :=
  ⟨h'.activeClients.trans h.activeClients, h'.messages.trans h.messages⟩

@[simp] theorem quiet_afterSend (t : ClientThread) (text : Bytes) (r : SendResult) : Quiet t (t.afterSend text r) := ⟨rfl, rfl⟩

@[simp] theorem quiet_server (t : ClientThread) (server : WebSocketServer) : Quiet t { t with server := server } := ⟨rfl, rfl⟩

theorem still_pure (a : α) : Still (pure a : Handler α) := keeps_pure (fun t => ⟨rfl, Quiet.refl t⟩) a

theorem still_throw (e : Bytes) : Still (throw e : Handler α) := keeps_throw (fun t => ⟨rfl, Quiet.refl t⟩) e

theorem Still.bind {m : Handler α} {f : α → Handler β} (hm : Still m) (hf : ∀ a, Still (f a)) : Still (m >>= f) :=
  Keeps.bind (fun _ _ _ h h' => ⟨h'.1.trans h.1, h.2.trans h'.2⟩) hm hf

theorem Still.tryCatch {m : Handler α} {h : Bytes → Handler α} (hm : Still m) (hh : ∀ e, Still (h e)) :
    Still (tryCatch m h) :=
  Keeps.tryCatch (fun _ _ _ h h' => ⟨h'.1.trans h.1, h.2.trans h'.2⟩) hm hh

theorem still_sendJson (host : Host) (j : Json) : Still (sendJson host j) := by
  intro t
  cases hd : host.lib.dump j with
  | none => simp [exec_sendJson_unprintable hd]
  | some text => simp [exec_sendJson hd]

theorem Still.reporting {report : Bytes → Json} {body : Handler Unit} (h : Still body) : Still (reporting host report body) :=
  h.tryCatch fun _ => still_sendJson host _

theorem still_sendState (host : Host) (state : Except Bytes Json) (id failure : Bytes) :
    Still (sendState host state id failure) := by
  refine Still.reporting ?_
  cases state with
  | error e => exact still_throw e
  | ok j => exact still_sendJson host j

theorem still_get : Still (get : Handler ClientThread) := fun t => ⟨rfl, Quiet.refl t⟩

theorem still_sendInitialState (host : Host) (sql id : Bytes) : Still (sendInitialState host sql id) := by
  unfold sendInitialState
  cases host.initialState with
  | none => exact still_pure ()
  | some state => exact still_get.bind fun t => still_sendState host _ _ _

theorem still_sendInitialStateAllTables (host : Host) (id : Bytes) : Still (sendInitialStateAllTables host id) := by
  unfold sendInitialStateAllTables
  cases host.initialStateAllTables with
  | none => exact still_pure ()
  | some state => exact still_get.bind fun t => still_sendState host _ _ _

theorem still_handleCallReducer (host : Host) (socket : Nat) (message : Bytes) : Still (handleCallReducer host socket message) := by
  unfold handleCallReducer
  cases host.lib.parse message with
  | none => exact still_sendJson host _
  | some request =>
    simp only
    cases request.valueOr (str "id") [] with
    | none => exact still_sendJson host _
    | some id =>
      simp only
      unfold answering
      refine Still.bind (Still.tryCatch ?_ fun e => (still_sendJson host _).bind fun _ => still_pure none) fun answer => ?_
      · intro t
        have hexec := exec_callReducer host t socket request id
        cases hend : callEnd host t socket request with
        | answered error success =>
          rw [hend] at hexec
          rw [hexec]
          exact ((still_sendJson host (callFailed (some id) (str error) success)).bind fun _ => still_pure none) t
        | threw e => simp [hexec, hend]
        | called result => simp [hexec, hend]
      · cases answer with
        | none => exact still_pure ()
        | some p =>
          obtain ⟨success, response⟩ := p
          simp only
          split
          · exact still_sendJson host response
          · exact still_pure ()

theorem Still.leaves {m : Handler α} (h : Still m) (t : ClientThread) : Leaves m t t.server := h t

theorem Leaves.bind_ok {m : Handler α} {a : α} {f : α → Handler β} (hm : exec m t = (.ok a, t'))
    (ht : Quiet t t') (hf : Leaves (f a) t' server) : Leaves (m >>= f) t server := by
  unfold Leaves at hf ⊢
  rw [exec_bind_ok hm]
  exact ⟨hf.1, ht.trans hf.2⟩

theorem Leaves.bind_error {m : Handler α} {e : Bytes} {f : α → Handler β} (hm : exec m t = (.error e, t)) :
    Leaves (m >>= f) t t.server := by
  unfold Leaves
  rw [exec_bind_error hm]
  exact ⟨rfl, Quiet.refl t⟩

/-- What comes after it may only send. -/
theorem Leaves.bind_still {m : Handler α} {f : α → Handler β} (hm : Leaves m t server) (hf : ∀ a, Still (f a)) :
    Leaves (m >>= f) t server := by
  unfold Leaves at hm ⊢
  rcases hexec : exec m t with ⟨e | a, t'⟩
  · rw [exec_bind_error hexec]
    rwa [hexec] at hm
  · rw [exec_bind_ok hexec]
    rw [hexec] at hm
    obtain ⟨hserver, hquiet⟩ := hf a t'
    exact ⟨hserver.trans hm.1, hm.2.trans hquiet⟩

theorem Leaves.reporting {report : Bytes → Json} {body : Handler Unit} (h : Leaves body t server) :
    Leaves (reporting host report body) t server := by
  unfold Leaves at h ⊢
  rcases hexec : exec body t with ⟨e | ⟨⟩, t'⟩
  · rw [exec_reporting_error hexec]
    rw [hexec] at h
    obtain ⟨hserver, hquiet⟩ := still_sendJson host (report e) t'
    exact ⟨hserver.trans h.1, h.2.trans hquiet⟩
  · rw [exec_reporting_ok hexec]
    rwa [hexec] at h

section
variable {socket : Nat} {message : Bytes} {request : Json}

theorem leaves_subscribe (t : ClientThread) (clientId sql : Bytes) : Leaves (subscribe clientId sql) t
    { t.server with sqlManager := (t.server.sqlManager.subscribe clientId sql).2 } := by
  cases hid : (t.server.sqlManager.subscribe clientId sql).1 <;>
    simp [Leaves, subscribe, exec_bind, exec_map, hid]

theorem leaves_handleSqlSubscriptionRequest (hparse : host.lib.parse message = some request) :
    Leaves (handleSqlSubscriptionRequest host socket message) t
      (if host.sqlManager = false then t.server else t.server.handleSqlSubscriptionRequest socket request) := by
  unfold handleSqlSubscriptionRequest WebSocketServer.handleSqlSubscriptionRequest
  by_cases hm : host.sqlManager = false
  · rw [if_pos hm, if_pos hm]
    exact (still_sendJson host _).leaves t
  · rw [if_neg hm, if_neg hm]
    refine Leaves.reporting (Leaves.bind_ok (exec_parse hparse) (Quiet.refl _) (Leaves.bind_ok (exec_get t) (Quiet.refl t) ?_))
    by_cases hid : t.server.clientId socket = []
    · simp only [hid, if_true]
      exact (still_sendJson host _).leaves t
    · simp only [hid, if_false]
      cases hfield : request.constMember (str "sql") with
      | none => exact (still_sendJson host _).leaves t
      | some field =>
        simp only [Option.bind_some]
        cases field.asString with
        | none => exact (still_throw _).leaves t
        | some sql =>
          simp only
          refine Leaves.bind_still ?_ fun id => (still_sendJson host _).bind fun _ => still_sendInitialState host sql id
          exact leaves_subscribe t _ sql

theorem leaves_handleSubscribeToAllTablesRequest :
    Leaves (handleSubscribeToAllTablesRequest host socket) t
      (if host.sqlManager = false then t.server else t.server.handleSubscribeToAllTablesRequest socket) := by
  unfold handleSubscribeToAllTablesRequest WebSocketServer.handleSubscribeToAllTablesRequest
  by_cases hm : host.sqlManager = false
  · rw [if_pos hm, if_pos hm]
    exact (still_sendJson host _).leaves t
  · rw [if_neg hm, if_neg hm]
    refine Leaves.reporting (Leaves.bind_ok (exec_get t) (Quiet.refl t) ?_)
    by_cases hid : t.server.clientId socket = []
    · simp only [hid, if_true]
      exact (still_sendJson host _).leaves t
    · simp only [hid, if_false]
      exact Leaves.bind_ok (exec_modify t _) (quiet_server t _)
        (((still_sendJson host _).bind fun _ => still_sendInitialStateAllTables host _).leaves _)

theorem leaves_handleSubscriptionRequest (hparse : host.lib.parse message = some request) :
    Leaves (handleSubscriptionRequest host socket message) t
      (if host.wasmManager.isNone then t.server else t.server.handleSubscriptionRequest socket request) := by
  unfold handleSubscriptionRequest WebSocketServer.handleSubscriptionRequest
  cases host.wasmManager with
  | none => exact (still_sendJson host _).leaves t
  | some hooks =>
    simp only [Option.isNone_some, Bool.false_eq_true, if_false]
    refine Leaves.reporting (Leaves.bind_ok (exec_parse hparse) (Quiet.refl _) (Leaves.bind_ok (exec_get t) (Quiet.refl t) ?_))
    by_cases hid : t.server.clientId socket = []
    · simp only [hid, if_true]
      exact (still_sendJson host _).leaves t
    · simp only [hid, if_false]
      by_cases hmodule : request.contains (str "module_name") = false
      · -- without a module there is no query either
        have hnone : request.constMember (str "module_name") = none := by
          cases request with
          | object m => simpa [Json.contains, Json.constMember] using hmodule
          | _ => rfl
        have hquery : WebSocketServer.wasmQuery (t.server.clientId socket) request = none := by
          simp [WebSocketServer.wasmQuery, hnone]
        simp only [hmodule, if_true, hquery]
        exact (still_sendJson host _).leaves t
      · simp only [hmodule]
        cases WebSocketServer.wasmQuery (t.server.clientId socket) request with
        | none => exact (still_throw _).leaves t
        | some query =>
          refine Leaves.bind_ok (exec_modify t _) (quiet_server t _) (Still.leaves ?_ _)
          cases hooks.initialData t.handled with
          | error e => exact (still_throw e).bind fun _ => still_sendJson host _
          | ok data =>
            cases data with
            | none => exact (still_pure ()).bind fun _ => still_sendJson host _
            | some event =>
              exact ((still_sendJson host event).tryCatch fun _ => still_pure ()).bind fun _ => still_sendJson host _

/-- The server after a call of `HandleWebSocketMessage`; the connections are the same, and the call is on record. -/
structure Handles (host : Host) (socket : Nat) (message : Bytes) (t : ClientThread) (server : WebSocketServer) : Prop where
  server : (exec (handleWebSocketMessage host socket message) t).2.server = server
  activeClients : (exec (handleWebSocketMessage host socket message) t).2.activeClients = t.activeClients
  messages : (exec (handleWebSocketMessage host socket message) t).2.messages = t.messages ++ [message]

/-- What is left when the call is on record. -/
theorem Handles.of_leaves {body : Handler Unit}
    (heq : handleWebSocketMessage host socket message = (modify fun t => t.called message) >>= fun _ => body)
    (h : Leaves body (t.called message) server) : Handles host socket message t server := by
  have hexec : exec (handleWebSocketMessage host socket message) t = exec body (t.called message) := by
    rw [heq]
    exact exec_bind_ok (exec_modify t _) _
  exact ⟨by rw [hexec]; exact h.1, by rw [hexec]; exact h.2.activeClients, by rw [hexec]; exact h.2.messages⟩

/-- Once the request and its type are read, the branch decides. -/
theorem exists_leaves {type : Bytes} {report : Bytes → Json} {body : Json → Bytes → Handler Unit} {P : WebSocketServer → Prop}
    (hparse : host.lib.parse message = some request) (htype : request.valueOr (str "type") [] = some type)
    (h : ∃ server, Leaves (body request type) t server ∧ P server) :
    ∃ server, Leaves (reporting host report do
        let request ← parse host message
        let type ← value host request (str "type")
        body request type) t server ∧ P server := by
  obtain ⟨server, hleaves, hserver⟩ := h
  refine ⟨server, Leaves.reporting ?_, hserver⟩
  exact Leaves.bind_ok (exec_parse hparse) (Quiet.refl _) (Leaves.bind_ok (exec_value htype) (Quiet.refl _) hleaves)

/-- **The handlers do to the server what the model of the managers says**, unless the manager is missing. -/
theorem leaves_handleWebSocketMessage (host : Host) (socket : Nat) (message : Bytes) (t : ClientThread) :
    ∃ server, Handles host socket message t server ∧
      (server = t.server.handleWebSocketMessage host.lib socket message ∨
        (host.sqlManager = false ∨ host.wasmManager.isNone = true) ∧ server = t.server) := by
  suffices h : ∃ server, Leaves _ (t.called message) server ∧ (server = t.server.handleWebSocketMessage host.lib socket message ∨
      (host.sqlManager = false ∨ host.wasmManager.isNone = true) ∧ server = t.server) by
    obtain ⟨server, hleaves, hserver⟩ := h
    exact ⟨server, Handles.of_leaves rfl hleaves, hserver⟩
  unfold WebSocketServer.handleWebSocketMessage
  cases hparse : host.lib.parse message with
  | none =>
    have hthrow (t' : ClientThread) : exec (parse host message) t' = (.error (host.parseError message), t') := by
      simp [parse, hparse]
    exact ⟨_, (Leaves.bind_error (hthrow _)).reporting, .inl rfl⟩
  | some request =>
    simp only
    cases htype : request.valueOr (str "type") [] with
    | none =>
      exact ⟨_, (Leaves.bind_ok (exec_parse hparse) (Quiet.refl _) (Leaves.bind_error (exec_value_none htype))).reporting, .inl rfl⟩
    | some type =>
      refine exists_leaves hparse htype ?_
      simp only
      by_cases hsubscribe : type = str "subscribe"
      · subst hsubscribe
        exact ⟨_, (still_sendJson host _).leaves _, .inl rfl⟩
      rw [if_neg hsubscribe]
      by_cases hsql : type = str "sql_subscribe"
      · rw [if_pos hsql, if_pos hsql]
        refine ⟨_, leaves_handleSqlSubscriptionRequest hparse, ?_⟩
        by_cases hm : host.sqlManager = false <;> simp [hm]
      rw [if_neg hsql, if_neg hsql]
      by_cases hunsubscribe : type = str "sql_unsubscribe"
      · rw [if_pos hunsubscribe, if_pos hunsubscribe]
        cases hid : request.valueOr (str "subscription_id") [] with
        | none => exact ⟨_, Leaves.bind_error (exec_value_none hid), .inl rfl⟩
        | some id =>
          simp only
          by_cases hempty : id = []
          · refine ⟨_, Leaves.bind_ok (exec_value hid) (Quiet.refl _) ?_, .inl (if_pos hempty).symm⟩
            rw [if_neg fun h => h.2 hempty]
            exact (still_sendJson host _).leaves _
          · by_cases hm : host.sqlManager = false
            · refine ⟨_, Leaves.bind_ok (exec_value hid) (Quiet.refl _) ?_, .inr ⟨.inl hm, rfl⟩⟩
              rw [if_neg fun h => by simp [hm] at h]
              exact (still_sendJson host _).leaves _
            · refine ⟨_, Leaves.bind_ok (exec_value hid) (Quiet.refl _) ?_, .inl (if_neg hempty).symm⟩
              rw [if_pos ⟨by simpa using hm, hempty⟩]
              exact Leaves.bind_ok (exec_modify _ _) (quiet_server _ _) ((still_sendJson host _).leaves _)
      rw [if_neg hunsubscribe, if_neg hunsubscribe]
      by_cases hall : type = str "subscribe_to_all_tables"
      · rw [if_pos hall, if_pos hall]
        refine ⟨_, leaves_handleSubscribeToAllTablesRequest, ?_⟩
        by_cases hm : host.sqlManager = false <;> simp [hm]
      rw [if_neg hall, if_neg hall]
      by_cases hwasm : type = str "wasm_subscribe"
      · rw [if_pos hwasm, if_pos hwasm]
        refine ⟨_, leaves_handleSubscriptionRequest hparse, ?_⟩
        by_cases hm : host.wasmManager.isNone = true <;> simp [hm]
      rw [if_neg hwasm, if_neg hwasm]
      by_cases hcall : type = str "call_reducer"
      · rw [if_pos hcall]
        exact ⟨_, (still_handleCallReducer host socket message).leaves _, .inl rfl⟩
      rw [if_neg hcall]
      by_cases hping : type = str "ping"
      · rw [if_pos hping]
        exact ⟨_, (still_sendJson host _).leaves _, .inl rfl⟩
      · rw [if_neg hping]
        exact ⟨_, (still_sendJson host _).leaves _, .inl rfl⟩

end

end

end ClientThread

end OriginDB
